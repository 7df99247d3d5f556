/-
FiberEngine.Script.Reader — scripts from structured data.

An operation is a record whose field `op` names it. A text that is missing is
empty, a missing number is zero and a missing list is empty; so is a field of
another type. What cannot be understood at all (a name that is none, a value
that its kind cannot hold) becomes an ill-formed request of that name.
-/
import FiberEngine.Script

namespace FiberEngine

/-! ## 1. Fields -/

/-- The fields of a record. -/
abbrev Fields := List (String × Datum)

namespace Fields

def find? (fs : Fields) (name : String) : Option Datum :=
  (List.find? (fun f => f.1 == name) fs).map Prod.snd

/-- A text field, if there is one. -/
def text? (fs : Fields) (name : String) : Option String :=
  match fs.find? name with
  | some (.text s) => some s
  | _ => none

/-- A text field; one that is missing is empty. -/
def text (fs : Fields) (name : String) : String :=
  (fs.text? name).getD ""

/-- The natural numbers that a field can hold. -/
def numberLimit : Nat :=
  Nat.pow 2 64

/-- A natural number, if there is one. -/
def nat? (fs : Fields) (name : String) : Option Nat :=
  match fs.find? name with
  | some (.integer n) => if 0 ≤ n ∧ n < numberLimit then some n.toNat else none
  | _ => none

/-- A natural number; one that is missing is zero. -/
def nat (fs : Fields) (name : String) : Nat :=
  (fs.nat? name).getD 0

/-- A flag; one that is missing is not set. -/
def flag (fs : Fields) (name : String) : Bool :=
  match fs.find? name with
  | some (.boolean b) => b
  | _ => false

/-- A value of any type. -/
def value (fs : Fields) (name : String) : Datum :=
  (fs.find? name).getD .null

/-- The texts of a list. -/
def texts (fs : Fields) (name : String) : List String :=
  match fs.find? name with
  | some (.list items) => items.filterMap fun
    | .text s => some s
    | _ => none
  | _ => []

/-- The slot that a field names. -/
def slot (fs : Fields) (name : String) : SlotName :=
  .named (fs.text name)

end Fields

/-! ## 2. Words -/

/-- The name of the current fiber where a slot may be named. -/
def currentWord : String :=
  "@current"

/-- The fiber that a text refers to. -/
def FiberRef.ofText (s : String) : FiberRef :=
  if s = currentWord then .current else .slot (.named s)

def Allocator.ofText? : String → Option Allocator
  | "heap" => some .heap
  | "guard" => some .guarded
  | "count" => some .counting
  | "double" => some .doubling
  | "fail" => some .exhausted
  | "fail_other" => some .refusing
  | _ => none

def Config.IntegerKind.ofText? : String → Option Config.IntegerKind
  | "u8" => some .u8
  | "u16" => some .u16
  | "u32" => some .u32
  | "u64" => some .u64
  | "u128" => some .u128
  | "usize" => some .usize
  | "i8" => some .i8
  | "i16" => some .i16
  | "i32" => some .i32
  | "i64" => some .i64
  | "i128" => some .i128
  | _ => none

def Config.Kind.ofText? : String → Option Config.Kind
  | "f32" => some (.float .single)
  | "f64" => some (.float .double)
  | "bool" => some .boolean
  | "char" => some .character
  | "string" => some .text
  | s => (Config.IntegerKind.ofText? s).map .integer

def FiberState.ofText? (s : String) : Option FiberState :=
  FiberState.all.find? fun state => state.label == s

def Demo.ofText? : String → Option Demo
  | "basic-use" => some .basicUse
  | "config" => some .config
  | "entry" => some .entry
  | "fault" => some .fault
  | "reset" => some .reset
  | "threads" => some .threads
  | _ => none

/-- The payload of a panic: all kinds of texts carry their text. -/
def Payload.ofFields (fs : Fields) : Payload :=
  match fs.text "payload" with
  | "int" | "boxstr" => .other
  | _ => .text (fs.text "text")

/-- The fiber error that an operation describes. -/
def FiberError.ofFields? (fs : Fields) : Option FiberError :=
  let id := fs.nat "id"
  let current := fs.nat "current"
  match fs.text "kind" with
  | "StackAlloc" => some (.stackAlloc (fs.nat "size"))
  | "StackTooSmall" => some (.stackTooSmall (fs.nat "size") (fs.nat "min"))
  | "InvalidState" =>
    (FiberState.ofText? (fs.text "state")).map fun s => .invalidState (fs.text "name") id s
  | "NoStack" => some (.noStack id)
  | "NotOnMainFiber" => some (.notOnMainFiber id current)
  | "NotRunning" => some (.notRunning id current)
  | "MainFiberYield" => some (.mainFiberYield id)
  | "MissingContext" => some (.missingContext id)
  | _ => none

/-- The configuration error that an operation describes. -/
def ConfigError.ofFields? (fs : Fields) : Option ConfigError :=
  let name := fs.text "name"
  match fs.text "kind" with
  | "InvalidName" => some (.invalidName name)
  | "TypeMismatch" => some (.typeMismatch name)
  | "Parse" => some (.parse name (fs.text "value"))
  | _ => none

/-- The stack size and the shape of an entry function; size zero is the default. -/
def entryKind? : String → Option (Nat × EntryShape)
  | "default" => some (0, .value)
  | "sized" => some (131072, .value)
  | "tiny" => some (100, .value)
  | "unit" => some (0, .unit)
  | "early" => some (0, .early)
  | _ => none

/-! ## 3. Operations -/

namespace Op

/-- How many resumes a drive makes if it does not say. -/
def driveLimit : Nat :=
  1000

/-- The operation for which a kind and a value of it are needed. -/
def withValue? (fs : Fields) (value : String) (make : Config.Value → Op) : Option Op := do
  let kind ← Config.Kind.ofText? (fs.text "type")
  let v ← Config.Value.read? kind (fs.text value)
  some (make v)

/-- The operation for which a kind is needed. -/
def withKind? (fs : Fields) (make : Config.Kind → Op) : Option Op :=
  (Config.Kind.ofText? (fs.text "type")).map make

/-- The allocator that a fiber asks for. -/
def allocator? (fs : Fields) : Option Allocator :=
  match fs.text? "alloc" with
  | none => some .heap
  | some s => Allocator.ofText? s

/-- The operation of a name, with the blocks that its fields `ops` and `body` hold. -/
def ofFields? (name : String) (fs : Fields) (ops body : List Op) : Option Op :=
  let f := FiberRef.ofText (fs.text "f")
  let tag := fs.text? "tag"
  let keep := (fs.texts "keep").map FiberRef.ofText
  match name with
  | "say" => some (.say (fs.value "v"))
  | "return" => some (.leave (fs.value "v"))
  | "repeat" => some (.loop (fs.nat "n") ops)
  | "catch" => some (.attempt ops)
  | "panic" => some (.panic (Payload.ofFields fs))
  | "new" => (allocator? fs).map fun a => .create (fs.slot "f") (fs.nat "size") a body tag keep
  | "resume" => some (.resume .trusted f)
  | "try_resume" => some (.resume .checked f)
  | "yield" => some (.pause .trusted f)
  | "try_yield" => some (.pause .checked f)
  | "reset" => some (.reset .trusted f body tag keep)
  | "try_reset" => some (.reset .checked f body tag keep)
  | "yield_ready" => some (.park .ready)
  | "yield_hold" => some (.park .hold)
  | "state" => some (.state f)
  | "info" => some (.info f)
  | "clone" => some (.clone f (fs.slot "to"))
  | "drop" => some (.drop (fs.slot "f"))
  | "same" => some (.same f (FiberRef.ofText (fs.text "g")))
  | "drive" => some (.drive f ((fs.nat? "max").getD driveLimit))
  | "current_id" => some .currentId
  | "total" => some .total
  | "stack_alloc" =>
    (Allocator.ofText? (fs.text "alloc")).map fun a => .allocBlock (fs.text "b") a (fs.nat "size")
  | "stack_free" =>
    (Allocator.ofText? (fs.text "alloc")).map fun a => .freeBlock (fs.text "b") a
  | "stack_save" => some (.saveBlock f (fs.text "b"))
  | "stack_is" => some (.isBlock f (fs.text "b"))
  | "stack_stats" => some .stackStats
  | "report" => some (.report (fs.text "text"))
  | "hook" => some (.setHook (.tagged (fs.text "tag") (fs.flag "panic")))
  | "hook_reset" => some (.setHook .sink)
  | "backtrace" => some (.backtrace (fs.flag "force") (fs.text "prefix"))
  | "thread_name" => some .threadName
  | "set_thread_name" => some (.setThreadName (fs.text "name"))
  | "thread" => some (.thread (.engine (fs.text "name")) ops)
  | "std_thread" => some (.thread (.plain (fs.text? "name")) ops)
  | "consts" => some .constants
  | "states" => some .states
  | "fiber_error" => (FiberError.ofFields? fs).map .fiberError
  | "config_error" => (ConfigError.ofFields? fs).map .configError
  | "entry" => (entryKind? (fs.text "kind")).map fun (size, shape) => .entry size shape ops
  | "demo" => (Demo.ofText? (fs.text "name")).map .demo
  | "cfg_lookup" => withValue? fs "default" fun v => .lookup (fs.text "name") v (fs.text "desc")
  | "cfg_base" => some (.describe (fs.text "name"))
  | "cfg_get" => withKind? fs fun k => .get k (fs.text "name")
  | "cfg_set" => withValue? fs "value" fun v => .assign (fs.text "name") v
  | "cfg_parse" => some (.parse (fs.text "name") (fs.text "value"))
  | "cfg_stage" => some (.stage (fs.text "name") (fs.text "value") (fs.flag "apply"))
  | "cfg_same" => withKind? fs fun k => .sameVar k (fs.text "name") (fs.text "other")
  | "cfg_debug" => withKind? fs fun k => .debugVar k (fs.text "name")
  | "cfg_visit" => some (.visit (fs.text? "register"))
  | "cfg_toml" => some (.load (fs.text "src"))
  | _ => none

/-- The operation that fields describe. -/
def ofFields (fs : Fields) (ops body : List Op) : Op :=
  (ofFields? (fs.text "op") fs ops body).getD (.illFormed (fs.text "op"))

mutual

/-- The operation that a datum describes. -/
def ofDatum : Datum → Op
  | .record fs => ofFields fs (blockOf "ops" fs) (blockOf "body" fs)
  | _ => .illFormed ""

/-- The block that a field holds. -/
def blockOf (name : String) : List (String × Datum) → List Op
  | [] => []
  | (k, v) :: rest => if k = name then block v else blockOf name rest

/-- The block that a datum describes. -/
def block : Datum → List Op
  | .list items => listOfData items
  | _ => []

/-- The operations that data describe. -/
def listOfData : List Datum → List Op
  | [] => []
  | d :: rest => ofDatum d :: listOfData rest

end

end Op

end FiberEngine
