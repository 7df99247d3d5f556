/-
FiberEngine.World.Switch — resuming, suspending, resetting and ending fibers.

Only the main fiber of a thread resumes others, so that a switch is always
between the main fiber and one task. `switchTo` parks the code of the main fiber
and goes on with that of a task; `switchBack` does the reverse. The first switch
into a task enters its callback under a handle that the task holds to itself
until the callback has ended.

`finish` ends a callback: first the callback is destroyed, while the fiber is
still running; then the fiber takes its last state; then a fault is reported;
then the fiber gives up the handle to itself and switches back for good.
-/
import FiberEngine.World.Create

namespace FiberEngine.World

/-! ## 1. The two switches -/

/-- Make a fiber the running one. -/
def setCurrent (w : World) (id : FiberId) : World :=
  w.onThread fun t => { t with current := some id }

/-- What a switch asserts that finds no place for the code of the main fiber. -/
def noMainFiber : String :=
  "switched back to a thread without a main fiber"

/-- Park the code that runs in the context of the main fiber. -/
def parkMain (w : World) : World :=
  match w.thread.main with
  | some main =>
    w.onThread fun t => (t.setContext main (some (.suspended t.frames))).goOn []
  | none => w.fatalInside noMainFiber

/-- Enter the callback of a fiber for the first time. -/
def enter (w : World) (f : Fiber) : World :=
  match f.pending with
  | none => w.fatalInside ("fiber " ++ toString f.id ++ " entered without a callback")
  | some cb =>
    let w := w.onThread fun t =>
      (t.update f.id fun f => { f with pending := none }).goOn
        [.ops cb.body, .task f.id cb.tag cb.keep]
    w.log (.entered f.id)

/-- Switch from the main fiber into a task, leaving a request that waits. -/
def switchTo (w : World) (f : Fiber) (p : Pending) : World :=
  let w := w.log (.resumed f.id f.state)
  let w := (w.onThread fun t => t.push (.waiting p)).setCurrent f.id
  let w := w.onThread fun t => ((t.setMainState .hold).setState f.id .exec).setContext f.id none
  match f.context with
  | some (.suspended frames) => (w.parkMain).onThread fun t => t.goOn frames
  | some .fresh => ((w.parkMain).hold f.id).enter f
  | some .spent | none => w.fatalInside ("never reach fiber_id = " ++ toString f.id)

/-- The parked code of the main fiber. -/
def mainFrames (w : World) : Except FiberError (List Frame) :=
  match w.thread.main with
  | none => .error (.missingContext 0)
  | some main =>
    match (w.thread.fiber? main).bind Fiber.context with
    | some (.suspended frames) => .ok frames
    | _ => .error (.missingContext main)

/-- Switch from a task back to the main fiber, leaving the task a context. -/
def switchBack (w : World) (id : FiberId) (context : Context) : World × Option FiberError :=
  match w.mainFrames with
  | .error e => (w, some e)
  | .ok frames =>
    (w.onThread fun t =>
      let main := t.main.getD 0
      let t := (t.setContext id (some context)).setContext main none
      { (t.setMainState .exec).goOn frames with current := some main },
      none)

/-! ## 2. Requests -/

/-- Why a fiber cannot be resumed now. Asking creates the main fiber of a thread
that has none, unless the fiber's own state forbids the resume. -/
def resumeRefusal (w : World) (f : Fiber) : World × Option FiberError :=
  match f.resumeRefusal? with
  | some e => (w, some e)
  | none =>
    let (w, current) := w.currentFiber
    if w.thread.main = some current then
      (w, if f.context.isNone then some (.missingContext f.id) else none)
    else (w, some (.notOnMainFiber f.id current))

/-- The answer to a rejected request, or the end of the process. -/
def reject (w : World) (m : Manner) (id : FiberId) (e : FiberError) : World × Outcome :=
  match m with
  | .checked => (w, .done (.refused (w.stateOf id) e))
  | .trusted => w.fatal e.message

/-- Resume a fiber, leaving a request that waits for the switch back. -/
def resume (w : World) (m : Manner) (f : Fiber) (p : Pending) : World × Outcome :=
  match w.resumeRefusal f with
  | (w, some e) => w.reject m f.id e
  | (w, none) => (w.switchTo f p, .next)

/-- Suspend the running fiber, leaving a request that waits for the next resume.
A fiber whose callback has ended keeps its state. -/
def suspend (w : World) (m : Manner) (f : Fiber) (next : Parking) (p : Pending) :
    World × Outcome :=
  match f.yieldRefusal? w.thread.currentId with
  | some e => w.reject m f.id e
  | none =>
    let w := w.log (.yielded f.id next.state)
    let w := if f.state = .term then w else w.onThread fun t => t.setState f.id next.state
    match w.switchBack f.id (.suspended (.waiting p :: w.thread.frames)) with
    | (w, some e) => w.reject m f.id e
    | (w, none) => (w, .next)

/-- Bind a fiber to a new callback on the same stack. -/
def rebind (w : World) (f : Fiber) (cb : Callback) : World :=
  let w := w.onThread fun t =>
    t.update f.id fun f => { f with context := some .fresh, pending := some cb }
  let w := match f.pending with
    | some old => w.dropCallback old.tag old.keep
    | none => w
  (w.onThread fun t => t.setState f.id .init).log (.fiberReset f.id f.state)

/-- Reset a fiber. A callback that is turned away is destroyed at once. -/
def reset (w : World) (m : Manner) (f : Fiber) (cb : Callback) : World × Outcome :=
  match f.resetRefusal? with
  | some e => (w.dropCallback cb.tag cb.keep).reject m f.id e
  | none =>
    let w := w.rebind f cb
    (w, .done (.state (w.stateOf f.id)))

/-! ## 3. The end of a callback -/

/-- How a callback ended. -/
inductive Finish where
  | returned (v : Datum)
  | faulted (p : Payload)

def Finish.state : Finish → FiberState
  | returned _ => .term
  | faulted _ => .except

/-- Hand the value of a callback to the request that waits for it. -/
def Finish.handTo (e : Finish) (id : FiberId) : List Frame → List Frame
  | .waiting (.entry size shape f result) :: k =>
    match e with
    | returned v => .waiting (.entry size shape f (if f = id then some v else result)) :: k
    | faulted _ => .waiting (.entry size shape f result) :: k
  | k => k

/-- Report a fault. No panic can pass here: one of the hook ends the process. -/
def reportFault (w : World) (id : FiberId) (e : Finish) : World :=
  match e with
  | .returned _ => w
  | .faulted p =>
    match w.report (faultText p id w.thread.name) with
    | (w, none) => w
    | (w, some _) => w.abort

/-- End the callback of the running fiber and switch back for good. -/
def finish (w : World) (id : FiberId) (tag : Option String) (keep : List FiberId) (e : Finish) :
    World :=
  let w := w.dropCallback tag keep
  let w := w.onThread fun t => t.setState id e.state
  let w := w.reportFault id e
  let w := w.release [id]
  match w.switchBack id .spent with
  | (w, some e) => w.fatalInside e.message
  | (w, none) => w.onThread fun t => t.goOn (e.handTo id t.frames)

end FiberEngine.World
