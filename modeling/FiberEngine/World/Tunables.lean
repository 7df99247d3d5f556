/-
FiberEngine.World.Tunables — requests on the named tunables of the process.

These requests touch the registry and the log and nothing else. A `lookup` that
finds its variable says so in the log, also when the kind does not fit; a `load`
logs every leaf that it stores.
-/
import FiberEngine.World.Basic
import FiberEngine.Toml.Leaves
import FiberEngine.Toml.Reader

namespace FiberEngine.World

open Config (Var Value Kind Registry)

/-- Replace the registry. -/
def withRegistry (w : World) (r : Registry) : World :=
  { w with process := { w.process with registry := r } }

/-- Find a variable, or register it with a default. -/
def lookup (w : World) (name : String) (default : Value) (description : String) :
    World × Except ConfigError Var :=
  match w.process.registry.lookup name default description with
  | .invalid e name => (w.log (.lookupInvalid name), .error e)
  | .mismatched name => (w.log (.lookupFound name), .error (.typeMismatch name))
  | .found v => (w.log (.lookupFound v.name), .ok v)
  | .added v r => (w.withRegistry r, .ok v)

/-- Store a value under the name of a variable. -/
def store (w : World) (name : String) (value : Value) : World :=
  w.withRegistry (w.process.registry.set name value)

/-- The text of a variable, by its registered name. -/
def textOf (w : World) (name : String) : String :=
  match w.process.registry.find? name with
  | some v => v.text
  | none => ""

/-! ## Requests -/

/-- The answer that shows a whole variable. -/
def varReply (v : Var) : Reply :=
  .var v.name v.description v.text

def lookupVar (w : World) (name : String) (default : Value) (description : String) :
    World × Reply :=
  match w.lookup name default description with
  | (w, .ok v) => (w, varReply v)
  | (w, .error e) => (w, .configFailed e)

def describeVar (w : World) (name : String) : Reply :=
  match w.process.registry.get? name with
  | some v => varReply v
  | none => .nothing

def getVar (w : World) (kind : Kind) (name : String) : Reply :=
  match w.process.registry.typed? kind name with
  | some v => .content v.text
  | none => .nothing

/-- Store a value in a variable of its kind. -/
def assignVar (w : World) (name : String) (value : Value) : World × Reply :=
  match w.process.registry.typed? value.kind name with
  | some v =>
    let w := w.store v.name value
    (w, .content (w.textOf v.name))
  | none => (w, .nothing)

/-- Read a text for a variable and store what was read. -/
def parseVar (w : World) (name text : String) : World × Reply :=
  match w.process.registry.get? name with
  | none => (w, .nothing)
  | some v =>
    match v.stage text with
    | .error e => (w, .parsed (some e) (w.textOf v.name))
    | .ok value =>
      let w := w.store v.name value
      (w, .parsed none (w.textOf v.name))

/-- Read a text for a variable first, and store what was read afterwards, if at
all. -/
def stageVar (w : World) (name text : String) (apply : Bool) : World × Reply :=
  match w.process.registry.get? name with
  | none => (w, .nothing)
  | some v =>
    let before := w.textOf v.name
    match v.stage text with
    | .error e => (w, .staging ⟨some e, before, none, w.textOf v.name⟩)
    | .ok value =>
      let staged := w.textOf v.name
      let w := if apply then w.store v.name value else w
      (w, .staging ⟨none, before, some staged, w.textOf v.name⟩)

/-- Two names denote one variable of the given kind. -/
def sameVar (w : World) (kind : Kind) (name other : String) : Reply :=
  match w.process.registry.typed? kind name, w.process.registry.typed? kind other with
  | some v, some v' => .flag (v.name = v'.name)
  | _, _ => .nothing

def debugVar (w : World) (kind : Kind) (name : String) : Reply :=
  match w.process.registry.typed? kind name with
  | some v => .text v.debug
  | none => .nothing

/-- The value under which a visit registers further variables. -/
def visitDefault : Value :=
  .integer .u32 1 (by decide)

/-- List variables, registering another one beside each if asked to. The texts
are those that hold when a variable's turn comes. -/
def visitAll (w : World) (register : Option String) :
    List Var → World × List (String × String × String)
  | [] => (w, [])
  | v :: rest =>
    let row := (v.name, w.textOf v.name, v.description)
    let w := match register with
      | some ending => (w.lookup (v.name ++ ending) visitDefault "added").1
      | none => w
    let (w, rows) := visitAll w register rest
    (w, row :: rows)

/-- Visit the variables that are registered now, in the order of their names. -/
def visitVars (w : World) (register : Option String) : World × Reply :=
  let (w, rows) := w.visitAll register w.process.registry.vars
  (w, .vars rows)

/-- Apply the leaves of a document, all of them or none. -/
def loadDocument (w : World) (source : String) : World × Reply :=
  match Toml.document? source with
  | none => (w, .configFailed .document)
  | some entries =>
    match w.process.registry.stageAll (Toml.leaves "" entries) with
    | .error e => (w, .configFailed e)
    | .ok staged =>
      let w := w.withRegistry (w.process.registry.apply staged)
      (staged.foldl (fun w s => w.log (.configUpdated s.name s.text)) w, .fine)

end FiberEngine.World
