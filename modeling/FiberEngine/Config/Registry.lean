/-
FiberEngine.Config.Registry — the named tunables of a process.

A registry is a list of variables in ascending order of their names. Names are
lower-case letters, digits, dots and underscores; a request may spell them in
either case. The first successful `lookup` of a name adds the variable and so
fixes its kind and description, and nothing removes it afterwards: `set` keeps
both, and the kind of the value with them.

`load` applies the leaves of a document. Every leaf that names a variable is
read first; only when all can be read are they stored, in order.
-/
import FiberEngine.Text.Blank
import FiberEngine.Config.Error
import FiberEngine.Config.Value

namespace FiberEngine.Config

/-! ## 1. Names -/

/-- A name in lower case; letters outside ASCII stay as they are. -/
def lowercase (s : String) : String :=
  String.ofList (s.toList.map Char.toLower)

/-- A character that a name may hold. -/
def isNameChar (c : Char) : Bool :=
  c.isLower || c.isDigit || c == '.' || c == '_'

/-- A text that may stand as a name. -/
def isName (s : String) : Bool :=
  !s.toList.isEmpty && s.toList.all isNameChar

/-- The registered spelling of a requested name. -/
def normalize (name : String) : Except ConfigError String :=
  if isName (lowercase name) then .ok (lowercase name)
  else .error (.invalidName (lowercase name))

/-! ## 2. Variables -/

/-- A named tunable. -/
structure Var where
  name : String
  description : String
  value : Value
  deriving DecidableEq, Repr

namespace Var

/-- The text of the value held. -/
def text (v : Var) : String :=
  v.value.render

/-- The value that a text would store, blanks around it ignored. -/
def stage (v : Var) (text : String) : Except ConfigError Value :=
  match Value.read? v.value.kind (Text.trim text) with
  | some x => .ok x
  | none => .error (.parse v.name text)

/-- The structured form for a diagnostic. -/
def debug (v : Var) : String :=
  "ConfigVar \x7b name: " ++ Text.quote v.name ++ ", value: " ++ Text.quote v.text ++ " \x7d"

end Var

/-! ## 3. The registry -/

/-- The variables of a process, in ascending order of their names. -/
structure Registry where
  vars : List Var
  deriving DecidableEq, Repr

namespace Registry

def empty : Registry :=
  ⟨[]⟩

/-- The variable registered under exactly this name. -/
def find? (r : Registry) (name : String) : Option Var :=
  r.vars.find? fun v => v.name == name

/-- The variable that a name in either case denotes. -/
def get? (r : Registry) (name : String) : Option Var :=
  r.find? (lowercase name)

/-- The variable that a name denotes, when it has the given kind. -/
def typed? (r : Registry) (kind : Kind) (name : String) : Option Var :=
  (r.get? name).filter fun v => v.value.kind = kind

/-- A list of variables with one more, before the first greater name. -/
def insertVar (new : Var) : List Var → List Var
  | [] => [new]
  | v :: rest => if new.name < v.name then new :: v :: rest else v :: insertVar new rest

/-- The registry with a new value under a name. -/
def set (r : Registry) (name : String) (value : Value) : Registry :=
  ⟨r.vars.map fun v => if v.name = name then { v with value } else v⟩

/-- What a lookup comes to. -/
inductive Lookup where
  /-- The name cannot be registered. -/
  | invalid (e : ConfigError) (name : String)
  /-- The name is taken by a variable of another kind. -/
  | mismatched (name : String)
  /-- The name is registered already. -/
  | found (v : Var)
  /-- The variable is new. -/
  | added (v : Var) (r : Registry)

/-- Find the variable of a name, or register it with a default. -/
def lookup (r : Registry) (name : String) (default : Value) (description : String) : Lookup :=
  match normalize name with
  | .error e => .invalid e (lowercase name)
  | .ok name =>
    match r.find? name with
    | some v => if v.value.kind = default.kind then .found v else .mismatched name
    | none =>
      let v := ⟨name, description, default⟩
      .added v ⟨insertVar v r.vars⟩

/-! ## 4. Documents -/

/-- A leaf of a document that names a variable, and what it would store there. -/
structure Staged where
  name : String
  text : String
  value : Value

/-- The leaves that name a variable, each read for that variable; the first that
cannot be read is the error. -/
def stageAll (r : Registry) : List (String × String) → Except ConfigError (List Staged)
  | [] => .ok []
  | (name, text) :: rest =>
    match r.get? name with
    | none => stageAll r rest
    | some v =>
      match v.stage text with
      | .error e => .error e
      | .ok value =>
        match stageAll r rest with
        | .error e => .error e
        | .ok staged => .ok (⟨name, text, value⟩ :: staged)

/-- The registry after storing what was staged. -/
def apply (r : Registry) (staged : List Staged) : Registry :=
  staged.foldl (fun r s => r.set (lowercase s.name) s.value) r

end Registry

end FiberEngine.Config
