/-
FiberEngine.World.Request — what each operation does.

`perform` starts an operation and `carryOn` goes on with one that had to wait.
An operation on a fiber works under a handle of its own, which it releases
before its answer is recorded; the answer is computed before that, so that a
fiber that dies with this handle is still seen alive by it.
-/
import FiberEngine.Demo
import FiberEngine.World.Switch

namespace FiberEngine.World

/-! ## 1. Operations on a fiber -/

/-- Release the handle of an operation that is complete or left by a panic. -/
def letGo (id : FiberId) : World × Outcome → World × Outcome
  | (w, .done r) => (w.release [id], .done r)
  | (w, .panicked p) => (w.release [id], .panicked p)
  | other => other

/-- Do something with the fiber that a reference denotes, under a handle to it. -/
def onFiber (w : World) (f : FiberRef) (act : World → Fiber → World × Outcome) :
    World × Outcome :=
  match w.fetch f with
  | (w, none) => (w, .done .missing)
  | (w, some id) =>
    let w := w.hold id
    match w.thread.fiber? id with
    | none => (w, .done .missing)
    | some fiber => letGo id (act w fiber)

/-- An answer that changes nothing. -/
def answer (w : World) (r : Reply) : World × Outcome :=
  (w, .done r)

/-- Put a handle into a slot and release the one that was there. -/
def putSlot (w : World) (name : SlotName) (id : FiberId) : World :=
  let old := w.thread.slot? name
  (w.onThread fun t => t.setSlot name id).release old.toList

/-- Release the handle in a slot. -/
def dropSlot (w : World) (name : SlotName) : World × Outcome :=
  match w.thread.slot? name with
  | none => (w, .done (.dropped false w.process.live))
  | some id =>
    let w := (w.onThread fun t => t.clearSlot name).release [id]
    (w, .done (.dropped true w.process.live))

/-- Create a fiber in a slot. -/
def create (w : World) (slot : SlotName) (size : Nat) (a : Allocator) (cb : Callback) :
    World × Outcome :=
  match w.createTask a size cb with
  | (w, .error (.panic p)) => (w, .panicked p)
  | (w, .error (.error e)) => (w, .done (.failed e))
  | (w, .ok id) =>
    let r := match w.thread.fiber? id with
      | some f => .created f.id f.state f.stackSize?
      | none => .missing
    (w.putSlot slot id, .done r)

/-- Two fibers are one, and two stacks are. -/
def sameFibers (f g : Fiber) : Reply :=
  .same (f.id = g.id) (f.block? = g.block?)

/-- Go on resuming a fiber until its callback has ended or the limit is reached. -/
def driveOn (w : World) (f : Fiber) (done max : Nat) : World × Outcome :=
  if f.state.terminal || max ≤ done then (w, .done (.driven done f.state))
  else w.resume .trusted f (.drive f.id (done + 1) max)

/-! ## 2. Entry functions -/

/-- The answer of an entry function whose body has returned a value. -/
def entryReply (shape : EntryShape) (v : Datum) : Reply :=
  match shape with
  | .value => .value v
  | .unit => .nothing
  | .early =>
    match v.integer? with
    | none => .early (.error "no integer")
    | some n =>
      if n < 0 then .early (.error ("negative " ++ toString n)) else .early (.ok (2 * n))

/-- Go on resuming the fiber of an entry function until its body has ended. -/
def entryOn (w : World) (f : Fiber) (size : Nat) (shape : EntryShape) (result : Option Datum) :
    World × Outcome :=
  if f.state.terminal then
    match result with
    | some v => (w, .done (entryReply shape v))
    | none =>
      (w, .panicked (.text ("cofiber::main body faulted in fiber " ++ toString f.id)))
  else w.resume .trusted f (.entry size shape f.id result)

/-- Call an entry function. -/
def enterMain (w : World) (size : Nat) (shape : EntryShape) (body : List Op) :
    World × Outcome :=
  let w := w.currentFiber.1
  match w.createTask .heap size ⟨body, none, []⟩ with
  | (w, .error (.panic p)) => (w, .panicked p)
  | (w, .error (.error e)) =>
    (w, .panicked (.text ("cofiber::main cannot create its fiber: " ++ e.message)))
  | (w, .ok id) =>
    match w.thread.fiber? id with
    | none => (w, .done .missing)
    | some f => letGo id (w.entryOn f size shape none)

/-! ## 3. Blocks, threads, demonstrations -/

/-- Ask an allocator for a block and keep it under a name. -/
def allocBlock (w : World) (name : String) (a : Allocator) (size : Nat) : World × Outcome :=
  match w.allocate a size with
  | (w, .error e) => (w, .done (.failed e))
  | (w, .ok b) => (w.onThread fun t => t.setBlock name b, .done (.block b))

/-- Give a kept block back. -/
def freeBlock (w : World) (name : String) (a : Allocator) : World × Outcome :=
  match w.thread.block? name with
  | none => (w, .done .missing)
  | some b => ((w.onThread fun t => t.clearBlock name).deallocate a b, .done .nothing)

/-- Keep the block of a fiber under a name. -/
def saveBlock (w : World) (name : String) (f : Fiber) : World × Outcome :=
  match f.block? with
  | none => (w, .done .nothing)
  | some b => (w.onThread fun t => t.setBlock name b, .done (.number b.size))

/-- Compare the block of a fiber with a kept one. -/
def isBlock (w : World) (name : String) (f : Fiber) : World × Outcome :=
  match w.thread.block? name with
  | none => (w, .done .missing)
  | some b => (w, .done (.flag (f.block? = some b)))

/-- The number of bytes before the first zero byte, if there is one. -/
def zeroByte? (name : String) : Option Nat :=
  name.toUTF8.toList.findIdx? (· == 0)

/-- Why a thread of this name cannot be started. -/
def nameFault? (name : String) : Option String :=
  (zeroByte? name).map fun i =>
    let bytes := ", ".intercalate (name.toUTF8.toList.map fun b => toString b.toNat)
    "thread name may not contain interior null bytes: NulError(" ++ toString i ++ ", [" ++
      bytes ++ "])"

/-- The thread that is started with a script. -/
def child (kind : ThreadKind) (body : List Op) : Thread :=
  match kind with
  | .engine name => .start (some name) (some name) (some name) body
  | .plain name => .start none name none body

/-- Start a thread, leaving a request that waits for its end. -/
def spawn (w : World) (kind : ThreadKind) (body : List Op) : World × Outcome :=
  match kind.name?.bind nameFault? with
  | some fault => (w, .panicked (.text fault))
  | none =>
    let w := match kind with
      | .engine name => w.log (.threadSpawned name)
      | .plain _ => w
    (w.onThread fun t => t.push (.waiting (.join kind none)), .started (child kind body))

/-- Start a demonstration. -/
def startDemo (w : World) (d : Demo) : World × Outcome :=
  let w := { w with process := { w.process with program := some ⟨⟨"", ""⟩, 0, none⟩ } }
  (w.onThread fun t => (t.push (.program d)).push (.ops d.script), .next)

/-- What a printed piece reads of a fiber. -/
def pieceOf (w : World) (f : FiberRef) (text : Fiber → String) : World × String :=
  match w.fetch f with
  | (w, none) => (w, "")
  | (w, some id) => (w, (w.thread.fiber? id).elim "" text)

/-- The text of a printed piece. -/
def pieceText (w : World) : Piece → World × String
  | .text s => (w, s)
  | .id f => w.pieceOf f fun f => toString f.id
  | .state f => w.pieceOf f fun f => f.state.label
  | .stackSize f => w.pieceOf f fun f => toString (f.stackSize?.getD 0)
  | .refusal f => w.pieceOf f fun f => f.resumeRefusal?.elim "" FiberError.message
  | .currentId => (w, toString w.thread.currentId)
  | .threadName => (w, w.thread.name)
  | .total => (w, toString w.process.live)
  | .counter => (w, toString (w.process.program.elim 0 Program.counter))
  | .tunable name => (w, w.textOf name)

/-- The text of a printed line. -/
def lineText (w : World) : List Piece → World × String
  | [] => (w, "\n")
  | p :: rest =>
    let (w, s) := w.pieceText p
    let (w, t) := lineText w rest
    (w, s ++ t)

/-- Remember the first worker that ended by a panic. -/
def noteWorker (w : World) (kind : ThreadKind) (e : Ending) : World :=
  match e with
  | .completed => w
  | .panicked _ =>
    w.onProgram fun p => { p with failed := p.failed <|> some (kind.name?.getD "") }

/-! ## 4. All operations -/

/-- The outcome of a request that always answers. -/
def answered (r : World × Reply) : World × Outcome :=
  (r.1, .done r.2)

/-- Start an operation. -/
def perform (w : World) : Op → World × Outcome
  | .say v => w.answer (.value v)
  | .leave v => (w, .left v)
  | .loop times body =>
    if body.isEmpty then (w, .next)
    else (w.onThread fun t => t.push (.loop times body), .next)
  | .attempt body => (w.onThread fun t => (t.push .catching).push (.ops body), .next)
  | .panic p => (w, .panicked p)
  | .create slot size a body tag keep =>
    let (w, keep) := w.holdAll keep
    w.create slot size a ⟨body, tag, keep⟩
  | .resume m f => w.onFiber f fun w f => w.resume m f (.resume m f.id)
  | .pause m f => w.onFiber f fun w f => w.suspend m f .ready (.pause m f.id)
  | .reset m f body tag keep => w.onFiber f fun w f =>
    let (w, keep) := w.holdAll keep
    w.reset m f ⟨body, tag, keep⟩
  | .park p =>
    let (w, id) := w.currentFiber
    match w.thread.fiber? id with
    | none => (w, .done .missing)
    | some f => w.suspend .trusted f p (.park p)
  | .state f => w.onFiber f fun w f => w.answer (.label f.state)
  | .info f => w.onFiber f fun w f => w.answer (.info f.id f.state f.isMain f.stackSize?)
  | .clone f slot => w.onFiber f fun w f => ((w.hold f.id).putSlot slot f.id).answer .nothing
  | .drop slot => w.dropSlot slot
  | .same f g => w.onFiber f fun w f => w.onFiber g fun w g => w.answer (sameFibers f g)
  | .drive f max => w.onFiber f fun w f => w.driveOn f 0 max
  | .currentId => w.answer (.number w.thread.currentId)
  | .total => w.answer (.number w.process.live)
  | .allocBlock block a size => w.allocBlock block a size
  | .freeBlock block a => w.freeBlock block a
  | .saveBlock f block => w.onFiber f fun w f => w.saveBlock block f
  | .isBlock f block => w.onFiber f fun w f => w.isBlock block f
  | .stackStats =>
    w.answer (.stats w.thread.counting w.thread.doubling w.thread.guarded.length)
  | .report text =>
    match w.report text with
    | (w, none) => (w, .done .nothing)
    | (w, some p) => (w, .panicked p)
  | .setHook h => ({ w with process := { w.process with hook := h } }, .done .nothing)
  | .backtrace force indent =>
    w.answer (if force then .outline else .text (indent ++ "<backtrace disabled>\n"))
  | .threadName => w.answer (.text w.thread.name)
  | .setThreadName name => (w.onThread fun t => { t with setName := some name }, .done .nothing)
  | .thread kind body => w.spawn kind body
  | .constants => w.answer (.constants minStackSize defaultStackSize)
  | .states => w.answer (.states FiberState.all)
  | .fiberError e => w.answer (.texts e.message e.debug)
  | .configError e => w.answer (.texts e.message e.debug)
  | .entry size shape body => w.enterMain size shape body
  | .demo d => w.startDemo d
  | .lookup name default description => answered (w.lookupVar name default description)
  | .describe name => w.answer (w.describeVar name)
  | .get kind name => w.answer (w.getVar kind name)
  | .assign name value => answered (w.assignVar name value)
  | .parse name text => answered (w.parseVar name text)
  | .stage name text apply => answered (w.stageVar name text apply)
  | .sameVar kind name other => w.answer (w.sameVar kind name other)
  | .debugVar kind name => w.answer (w.debugVar kind name)
  | .visit register => answered (w.visitVars register)
  | .load source => answered (w.loadDocument source)
  | .illFormed _ => w.answer .badRequest
  | .print line =>
    let (w, text) := w.lineText line
    (w.print text, .next)
  | .tick => (w.onProgram fun p => { p with counter := p.counter + 1 }, .next)
  | .requireJoined =>
    match w.process.program.bind Program.failed with
    | some name => (w, .panicked (.text (name ++ " panicked")))
    | none => (w, .next)

/-- Go on with an operation on a fiber to which it still has a handle. -/
def onHeld (w : World) (id : FiberId) (act : Fiber → World × Outcome) : World × Outcome :=
  match w.thread.fiber? id with
  | none => (w, .done .missing)
  | some f => letGo id (act f)

/-- Go on with an operation that waited. -/
def carryOn (w : World) : Pending → World × Outcome
  | .resume _ id => w.onHeld id fun f => w.answer (.state f.state)
  | .drive id done max => w.onHeld id fun f => w.driveOn f done max
  | .entry size shape id result => w.onHeld id fun f => w.entryOn f size shape result
  | .pause _ id => w.onHeld id fun f => w.answer (.state f.state)
  | .park _ => w.answer .nothing
  | .join kind ending =>
    let e := ending.getD .completed
    (w.noteWorker kind e).answer (.joined kind.name? e.panic? w.process.live)

end FiberEngine.World
