/-
FiberEngine.Trace.Record — entries as structured data.

Every entry is a record that names the current fiber under `cur`. The other
fields depend on what happened, and the answer of an operation stands under `r`
in a form of its own.
-/
import FiberEngine.Report
import FiberEngine.Trace

namespace FiberEngine

/-! ## 1. Small parts -/

namespace Datum

def ofNat (n : Nat) : Datum :=
  .integer n

/-- A text, or null where there is none. -/
def ofText? : Option String → Datum
  | some s => .text s
  | none => .null

/-- A number, or null where there is none. -/
def ofNat? : Option Nat → Datum
  | some n => ofNat n
  | none => .null

end Datum

open Datum (ofNat ofText? ofNat?)

/-- An error with its sentence. -/
def FiberError.toFields (e : FiberError) : List (String × Datum) :=
  [("error", .text e.variant), ("message", .text e.message)]

/-- An error with its sentence; an error of a document is told without. -/
def ConfigError.toDatum (e : ConfigError) : Datum :=
  match e with
  | .document => .record [("error", .text e.variant)]
  | _ => .record [("error", .text e.variant), ("message", .text e.message)]

/-- The result of something that may fail. -/
def resultDatum (e : Option ConfigError) : Datum :=
  e.elim (.text "ok") ConfigError.toDatum

/-- How a thread ended. -/
def joinDatum : Option Payload → Datum
  | none => .text "ok"
  | some p => .record [("panicked", ofText? p.text?)]

def Tally.toDatum (t : Tally) : Datum :=
  .list [ofNat t.allocs, ofNat t.deallocs]

def Output.toFields (o : Output) : List (String × Datum) :=
  [("stdout", .text o.stdout), ("stderr", .text o.stderr)]

/-- The diagnostic form of the guarded allocator. -/
def guardedDebug (live : Nat) : String :=
  FiberError.structured "ProtectedStackAllocator" [("live", toString live)]

/-- All that is told about a state. -/
def FiberState.toRow (s : FiberState) : Datum :=
  .list [.text s.label, .text s.label, .text s.debug, .boolean s.terminal]

/-! ## 2. Answers -/

def Reply.toDatum : Reply → Datum
  | nothing => .null
  | value v => v
  | badRequest => .record [("error", .text "BadOp")]
  | missing => .record [("error", .text "NoSlot")]
  | number n => ofNat n
  | flag b => .boolean b
  | text s => .text s
  | fine => .text "ok"
  | panicked t => .record [("panicked", ofText? t)]
  | created id s stack =>
    .record [("id", ofNat id), ("state", .text s.label), ("stack", ofNat? stack)]
  | failed e => .record e.toFields
  | state s => .record [("state", .text s.label)]
  | refused s e => .record (("state", .text s.label) :: e.toFields)
  | label s => .record [("text", .text s.label), ("terminal", .boolean s.terminal)]
  | info id s main stack =>
    .record
      [("id", ofNat id), ("state", .text s.label), ("main", .boolean main),
        ("stack", ofNat? stack), ("debug", .text (Fiber.debug id s stack))]
  | dropped had total => .record [("had", .boolean had), ("total", ofNat total)]
  | same fiber stack => .record [("fiber", .boolean fiber), ("stack", .boolean stack)]
  | driven resumes s => .record [("resumes", ofNat resumes), ("state", .text s.label)]
  | block b =>
    .record [("size", ofNat b.size), ("aligned", .boolean true), ("debug", .text b.debug)]
  | stats counting doubling guarded =>
    .record
      [("count", counting.toDatum), ("double", doubling.toDatum), ("guard", ofNat guarded),
        ("debug", .text (guardedDebug guarded))]
  | outline =>
    .record [("empty", .boolean false), ("prefixed", .boolean true), ("newline", .boolean true)]
  | joined name panic total =>
    .record
      [("name", ofText? name), ("other_thread", .boolean true), ("join", joinDatum panic),
        ("total", ofNat total)]
  | constants smallest default =>
    .record [("min", ofNat smallest), ("default", ofNat default)]
  | states rows => .list (rows.map FiberState.toRow)
  | texts message debug => .list [.text message, .text debug]
  | early (.ok n) => .record [("ok", .integer n)]
  | early (.error e) => .record [("err", .text e)]
  | printed o none => .record o.toFields
  | printed o (some p) => .record (o.toFields ++ [("panicked", ofText? p.text?)])
  | var name description held =>
    .record [("name", .text name), ("description", .text description), ("value", .text held)]
  | content held => .record [("value", .text held)]
  | parsed e after => .record [("result", resultDatum e), ("value", .text after)]
  | staging s =>
    .record
      [("result", resultDatum s.error), ("before", .text s.before), ("staged", ofText? s.staged),
        ("after", .text s.after)]
  | vars rows =>
    .list (rows.map fun (name, held, description) =>
      .list [.text name, .text held, .text description])
  | configFailed e => e.toDatum

/-! ## 3. Entries -/

/-- The span that a log entry was written in. -/
def spanFields : Option String → List (String × Datum)
  | none => []
  | some name =>
    [("span", .record
      [("name", .text "thread"), ("fields", .record [("name", .text name)])])]

def Notice.toFields (n : Notice) (span : Option String) : List (String × Datum) :=
  [("log", .text n.level.label), ("target", .text n.target), ("msg", .text (recorded n.message)),
    ("fields", .record (n.fields.map fun (k, v) => (k, .text v)))] ++ spanFields span

def Event.toFields : Event → List (String × Datum)
  | completed op reply => [("op", .text op), ("r", reply.toDatum)]
  | reported text tag => [("report", .text (recorded text)), ("hook", .text tag)]
  | logged n span => n.toFields span
  | dropped tag => [("dropped", .text tag)]
  | allocated size => [("alloc", ofNat size)]
  | deallocated size => [("dealloc", ofNat size)]
  | output o => o.toFields
  | panicked text => [("panicked", ofText? text)]
  | finished total => [("end", .boolean true), ("total", ofNat total)]
  | aborted => [("abort", .boolean true)]

def Entry.toDatum (e : Entry) : Datum :=
  .record (e.event.toFields ++ [("cur", ofNat e.current)])

end FiberEngine
