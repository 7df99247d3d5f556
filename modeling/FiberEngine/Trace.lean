/-
FiberEngine.Trace — what a run leaves behind: a list of entries.

An entry is an event together with the thread as it stood when it happened; of
the thread, only the current fiber is written down. Answers of operations and
log events are values of their own types, and `Trace.Record` writes them as
structured data.
-/
import FiberEngine.Thread

namespace FiberEngine

/-! ## 1. The log -/

/-- How much a log event matters, from the most to the least. -/
inductive Level where
  | error
  | warn
  | info
  | debug
  | trace
  deriving DecidableEq, Repr

namespace Level

def rank : Level → Nat
  | error => 0
  | warn => 1
  | info => 2
  | debug => 3
  | trace => 4

def label : Level → String
  | error => "ERROR"
  | warn => "WARN"
  | info => "INFO"
  | debug => "DEBUG"
  | trace => "TRACE"

/-- A log with this limit, if any, takes events of a level. -/
def admits (limit : Option Level) (level : Level) : Bool :=
  match limit with
  | some l => level.rank ≤ l.rank
  | none => false

end Level

/-- The events that the engine logs. -/
inductive Notice where
  | fiberCreated (id : FiberId) (stackSize : Nat)
  | mainCreated (id : FiberId)
  | fiberReset (id : FiberId) (was : FiberState)
  | fiberDestroyed (id : FiberId) (state : FiberState)
  | mainDestroyed (id : FiberId)
  | guardFailed (size : Nat)
  | resumed (id : FiberId) (was : FiberState)
  | yielded (id : FiberId) (next : FiberState)
  | entered (id : FiberId)
  /-- A report that no hook takes. -/
  | reported (text : String)
  | lookupFound (name : String)
  | lookupInvalid (name : String)
  | configUpdated (name value : String)
  | threadSpawned (name : String)
  deriving DecidableEq, Repr

namespace Notice

def level : Notice → Level
  | reported _ | lookupInvalid _ => .error
  | resumed _ _ | yielded _ _ | entered _ => .trace
  | _ => .debug

/-- The part of the engine that logs the event. -/
def target : Notice → String
  | lookupFound _ | lookupInvalid _ | configUpdated _ _ => "cofiber::config"
  | threadSpawned _ => "cofiber::thread"
  | _ => "cofiber::system"

def message : Notice → String
  | fiberCreated _ _ => "fiber created"
  | mainCreated _ => "main fiber created"
  | fiberReset _ _ => "fiber reset"
  | fiberDestroyed _ _ => "fiber destroyed"
  | mainDestroyed _ => "main fiber destroyed"
  | guardFailed _ => "guarded stack allocation failed"
  | resumed _ _ => "resume"
  | yielded _ _ => "yield"
  | entered _ => "fiber entered"
  | reported text => text
  | lookupFound _ => "lookup found existing var"
  | lookupInvalid _ => "lookup name invalid"
  | configUpdated _ _ => "config updated"
  | threadSpawned _ => "thread spawned"

/-- The named values that go with the message. -/
def fields : Notice → List (String × String)
  | fiberCreated id size => [("id", toString id), ("stack_size", toString size)]
  | mainCreated id => [("id", toString id)]
  | fiberReset id was => [("id", toString id), ("from", was.label)]
  | fiberDestroyed id state => [("id", toString id), ("state", state.label)]
  | mainDestroyed id => [("id", toString id)]
  | guardFailed size => [("size", toString size)]
  | resumed id was => [("id", toString id), ("from", was.label)]
  | yielded id next => [("id", toString id), ("to", next.label)]
  | entered id => [("id", toString id)]
  | reported _ => []
  | lookupFound name => [("name", name)]
  | lookupInvalid name => [("name", name)]
  | configUpdated name value => [("name", name), ("value", value)]
  | threadSpawned name => [("name", name)]

end Notice

/-! ## 2. Answers -/

/-- What a demonstration printed. -/
structure Output where
  stdout : String
  stderr : String
  deriving DecidableEq, Repr

/-- The outcome of staging a text for a variable, with the variable's text
before it, while the new value was staged, and at the end. -/
structure Staging where
  error : Option ConfigError
  before : String
  staged : Option String
  after : String
  deriving DecidableEq, Repr

/-- The answer to an operation. -/
inductive Reply where
  | nothing
  | value (v : Datum)
  | badRequest
  /-- No handle or block of that name. -/
  | missing
  | number (n : Nat)
  | flag (b : Bool)
  | text (s : String)
  | fine
  /-- A caught block ended by a panic with this text. -/
  | panicked (text : Option String)
  | created (id : FiberId) (state : FiberState) (stack : Option Nat)
  | failed (e : FiberError)
  | state (s : FiberState)
  | refused (s : FiberState) (e : FiberError)
  | label (s : FiberState)
  | info (id : FiberId) (state : FiberState) (main : Bool) (stack : Option Nat)
  | dropped (had : Bool) (total : Nat)
  | same (fiber stack : Bool)
  | driven (resumes : Nat) (state : FiberState)
  | block (b : Block)
  | stats (counting doubling : Tally) (guarded : Nat)
  /-- A forced backtrace, of which only its outline is told. -/
  | outline
  | joined (name : Option String) (panic : Option Payload) (total : Nat)
  | constants (smallest default : Nat)
  | states (rows : List FiberState)
  | texts (message debug : String)
  /-- The value of an entry function that may fail. -/
  | early (r : Except String Int)
  | printed (o : Output) (panic : Option Payload)
  | var (name description text : String)
  | content (text : String)
  | parsed (error : Option ConfigError) (after : String)
  | staging (s : Staging)
  | vars (rows : List (String × String × String))
  | configFailed (e : ConfigError)

namespace Reply

/-- The diagnostic form of the error that an answer consists of. -/
def complaint? : Reply → Option String
  | failed e => some e.debug
  | configFailed e => some e.debug
  | _ => none

end Reply

/-! ## 3. Entries -/

inductive Event where
  | completed (op : String) (reply : Reply)
  | reported (text tag : String)
  | logged (n : Notice) (span : Option String)
  | dropped (tag : String)
  | allocated (size : Nat)
  | deallocated (size : Nat)
  /-- What a demonstration had printed when the process aborted. -/
  | output (o : Output)
  | panicked (text : Option String)
  | finished (total : Nat)
  | aborted

/-- An event, and the thread in which it happened as it stood then. -/
structure Entry where
  thread : Thread
  event : Event

/-- The id of the fiber that was current; zero is none. -/
def Entry.current (e : Entry) : FiberId :=
  e.thread.currentId

end FiberEngine
