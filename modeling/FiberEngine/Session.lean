/-
FiberEngine.Session — a script with its settings, run and written down.

A session is asked for in one record: its script, how much it logs, and whether
a report hook is installed at the start. Its answer is the trace.
-/
import FiberEngine.Machine
import FiberEngine.Script.Reader
import FiberEngine.Trace.Record

namespace FiberEngine

structure Session where
  level : Option Level
  hook : ReportHook
  script : List Op

namespace Session

/-- The level of a name. -/
def levelOf? (name : String) : Option Level :=
  [Level.error, .warn, .info, .debug, .trace].find? fun l => l.label == name

/-- The hook that is installed at the start, unless the session forbids it. -/
def firstHook : ReportHook :=
  .tagged "default" false

/-- The session that a datum asks for. -/
def ofDatum : Datum → Session
  | .record fs =>
    { level := (Fields.text? fs "log").bind levelOf?
      hook := match Fields.find? fs "hook" with
        | some (.boolean false) => .sink
        | _ => firstHook
      script := Op.blockOf "ops" fs }
  | _ => ⟨none, firstHook, []⟩

/-- Run a session from start to end. -/
def trace (s : Session) : List Entry :=
  run s.level s.hook s.script

/-- The answer to a session. -/
def answer (s : Session) : Datum :=
  .record [("trace", .list (s.trace.map Entry.toDatum))]

end Session

end FiberEngine
