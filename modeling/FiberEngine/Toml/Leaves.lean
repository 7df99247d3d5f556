/-
FiberEngine.Toml.Leaves — the leaves of a document, with dotted names.

`leaves` walks the tables of a document in order and gives every value that is
no table the keys on the way to it, in lower case, as a name with dots. A dot
is written only behind a name that is not empty.
-/
import FiberEngine.Config.Registry
import FiberEngine.Toml.Printer

namespace FiberEngine.Toml

/-- The name of a key below a table with a name. -/
def joinName (above key : String) : String :=
  if above.isEmpty then Config.lowercase key else above ++ "." ++ Config.lowercase key

mutual

/-- The leaves below a named value. -/
def Value.leaves (name : String) : Value → List (String × String)
  | .table es => leaves name es
  | .text s => [(name, (Value.text s).leafText)]
  | .integer n => [(name, (Value.integer n).leafText)]
  | .float x => [(name, (Value.float x).leafText)]
  | .boolean b => [(name, (Value.boolean b).leafText)]
  | .moment m => [(name, (Value.moment m).leafText)]
  | .array items => [(name, (Value.array items).leafText)]

/-- The leaves of a table with a name; the root table has the empty name. -/
def leaves (name : String) : List (String × Value) → List (String × String)
  | [] => []
  | (k, v) :: rest => v.leaves (joinName name k) ++ leaves name rest

end

end FiberEngine.Toml
