/-
FiberEngine.Script — the operations a script consists of.

A script is a list of operations; the body of a fiber, of a thread and of a
caught block is a script again. An operation that works on a fiber names it by
a reference: the slot that holds a handle to it, or the current fiber of the
thread, whichever that is.

Most operations are requests that any script may make. The last three
constructors are what demonstrations need besides: a line of output, a counter
and the check that all workers ended well.
-/
import FiberEngine.Datum
import FiberEngine.Config.Error
import FiberEngine.Config.Value
import FiberEngine.Fiber.Stack

namespace FiberEngine

/-! ## 1. What operations speak of -/

/-- What a panic carries. -/
inductive Payload where
  | text (s : String)
  /-- Anything that is no text. -/
  | other
  deriving DecidableEq, Repr

/-- The text a panic carries, if it is one. -/
def Payload.text? : Payload → Option String
  | text s => some s
  | other => none

/-- A tunable can hold the default stack size. -/
theorem usize_holds_defaultStackSize : Config.IntegerKind.usize.Holds defaultStackSize := by
  decide

/-- The name of a slot: one that a script chose, or the one in which a
demonstration keeps its task. -/
inductive SlotName where
  | own
  | named (s : String)
  deriving DecidableEq, Repr

/-- A reference to a fiber. -/
inductive FiberRef where
  | slot (name : SlotName)
  | current
  deriving DecidableEq, Repr

/-- What happens to a call that the engine rejects. -/
inductive Manner where
  /-- The rejection is the caller's answer. -/
  | checked
  /-- The rejection is a violated contract and fatal. -/
  | trusted
  deriving DecidableEq, Repr

/-- The two states in which a fiber may suspend itself. -/
inductive Parking where
  | ready
  | hold
  deriving DecidableEq, Repr

def Parking.state : Parking → FiberState
  | ready => .ready
  | hold => .hold

/-- Where reports go. -/
inductive ReportHook where
  /-- To the log, as errors. -/
  | sink
  /-- To the trace under a tag; some hooks panic afterwards. -/
  | tagged (tag : String) (panics : Bool)
  /-- To the error output of a demonstration. -/
  | output
  deriving DecidableEq, Repr

/-- What kind of thread is started. -/
inductive ThreadKind where
  /-- A thread of the engine, with a name and a span of the log. -/
  | engine (name : String)
  /-- A plain thread, with or without a name. -/
  | plain (name : Option String)
  deriving DecidableEq, Repr

def ThreadKind.name? : ThreadKind → Option String
  | engine name => some name
  | plain name => name

/-- What an entry function makes of the value that its body returns. -/
inductive EntryShape where
  /-- The value itself. -/
  | value
  /-- Nothing. -/
  | unit
  /-- Twice the value if it is a natural number, else an error. -/
  | early
  deriving DecidableEq, Repr

/-- The programs that show what the engine is for. -/
inductive Demo where
  | basicUse
  | config
  | entry
  | fault
  | reset
  | threads
  deriving DecidableEq, Repr

/-- A piece of a line that a demonstration prints. -/
inductive Piece where
  | text (s : String)
  | id (f : FiberRef)
  | state (f : FiberRef)
  | stackSize (f : FiberRef)
  /-- Why a resume of the fiber is refused. -/
  | refusal (f : FiberRef)
  | currentId
  | threadName
  | total
  | counter
  | tunable (name : String)
  deriving DecidableEq, Repr

/-! ## 2. Operations -/

inductive Op where
  /- control -/
  | say (v : Datum)
  | leave (v : Datum)
  | loop (times : Nat) (body : List Op)
  | attempt (body : List Op)
  | panic (p : Payload)
  /- fibers -/
  | create (slot : SlotName) (size : Nat) (allocator : Allocator) (body : List Op)
      (tag : Option String) (keep : List FiberRef)
  | resume (m : Manner) (f : FiberRef)
  | pause (m : Manner) (f : FiberRef)
  | reset (m : Manner) (f : FiberRef) (body : List Op) (tag : Option String)
      (keep : List FiberRef)
  | park (p : Parking)
  | state (f : FiberRef)
  | info (f : FiberRef)
  | clone (f : FiberRef) (slot : SlotName)
  | drop (slot : SlotName)
  | same (f g : FiberRef)
  | drive (f : FiberRef) (max : Nat)
  | currentId
  | total
  /- stacks -/
  | allocBlock (block : String) (allocator : Allocator) (size : Nat)
  | freeBlock (block : String) (allocator : Allocator)
  | saveBlock (f : FiberRef) (block : String)
  | isBlock (f : FiberRef) (block : String)
  | stackStats
  /- diagnostics and threads -/
  | report (text : String)
  | setHook (h : ReportHook)
  | backtrace (force : Bool) (indent : String)
  | threadName
  | setThreadName (name : String)
  | thread (kind : ThreadKind) (body : List Op)
  | constants
  | states
  | fiberError (e : FiberError)
  | configError (e : ConfigError)
  | entry (size : Nat) (shape : EntryShape) (body : List Op)
  | demo (d : Demo)
  /- tunables -/
  | lookup (name : String) (default : Config.Value) (description : String)
  | describe (name : String)
  | get (kind : Config.Kind) (name : String)
  | assign (name : String) (value : Config.Value)
  | parse (name text : String)
  | stage (name text : String) (apply : Bool)
  | sameVar (kind : Config.Kind) (name other : String)
  | debugVar (kind : Config.Kind) (name : String)
  | visit (register : Option String)
  | load (source : String)
  /-- A request that could not be read. -/
  | illFormed (name : String)
  /- demonstrations -/
  | print (line : List Piece)
  | tick
  | requireJoined
  deriving Inhabited

namespace Op

/-- The name under which the answer of an operation is recorded. -/
def name : Op → String
  | say _ => "say"
  | leave _ => "return"
  | loop _ _ => "repeat"
  | attempt _ => "catch"
  | panic _ => "panic"
  | create .. => "new"
  | resume .trusted _ => "resume"
  | resume .checked _ => "try_resume"
  | pause .trusted _ => "yield"
  | pause .checked _ => "try_yield"
  | reset .trusted .. => "reset"
  | reset .checked .. => "try_reset"
  | park .ready => "yield_ready"
  | park .hold => "yield_hold"
  | state _ => "state"
  | info _ => "info"
  | clone _ _ => "clone"
  | drop _ => "drop"
  | same _ _ => "same"
  | drive _ _ => "drive"
  | currentId => "current_id"
  | total => "total"
  | allocBlock .. => "stack_alloc"
  | freeBlock _ _ => "stack_free"
  | saveBlock _ _ => "stack_save"
  | isBlock _ _ => "stack_is"
  | stackStats => "stack_stats"
  | report _ => "report"
  | setHook .sink => "hook_reset"
  | setHook _ => "hook"
  | backtrace _ _ => "backtrace"
  | threadName => "thread_name"
  | setThreadName _ => "set_thread_name"
  | thread (.engine _) _ => "thread"
  | thread (.plain _) _ => "std_thread"
  | constants => "consts"
  | states => "states"
  | fiberError _ => "fiber_error"
  | configError _ => "config_error"
  | entry .. => "entry"
  | demo _ => "demo"
  | lookup .. => "cfg_lookup"
  | describe _ => "cfg_base"
  | get _ _ => "cfg_get"
  | assign _ _ => "cfg_set"
  | parse _ _ => "cfg_parse"
  | stage .. => "cfg_stage"
  | sameVar .. => "cfg_same"
  | debugVar _ _ => "cfg_debug"
  | visit _ => "cfg_visit"
  | load _ => "cfg_toml"
  | illFormed name => name
  | print _ => "print"
  | tick => "tick"
  | requireJoined => "join"

end Op

end FiberEngine
