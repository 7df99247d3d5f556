/-
FiberEngine.Report — the texts that are handed to the report hook.

A fatal report tells a violated contract and ends with a backtrace; a fault
report tells which fiber was left by a panic, and why. What a backtrace says
hangs on the machine, so a text is recorded without it: `recorded` keeps only
whether the lines behind the mark are indented. The backtrace of a fault report
is disabled.
-/
import FiberEngine.Script

namespace FiberEngine

/-- The start of a fatal report. -/
def fatalStart : String :=
  "ASSERTION: "

/-- What stands between the message of a fatal report and its backtrace. -/
def backtraceMark : String :=
  "\nbacktrace:\n"

/-- The text of a fatal report. Of its backtrace, only the shape is told. -/
def fatalText (message : String) : String :=
  fatalStart ++ message ++ backtraceMark ++ "    <frames>\n"

/-- The rest of a list behind the first occurrence of a mark, and what stands
before it together with the mark. -/
def splitAfter (mark : List Char) : List Char → Option (List Char × List Char)
  | [] => if mark.isEmpty then some ([], []) else none
  | c :: cs =>
    if mark.isPrefixOf (c :: cs) then some (mark, (c :: cs).drop mark.length)
    else (splitAfter mark cs).map fun (seen, rest) => (c :: seen, rest)

/-- The pieces of a text between its line feeds. -/
def pieces : List Char → List (List Char)
  | [] => [[]]
  | c :: cs =>
    match c, pieces cs with
    | '\n', ps => [] :: ps
    | c, p :: ps => (c :: p) :: ps
    | c, [] => [[c]]

/-- The lines of a text. A line feed at the very end starts none. -/
def lines (cs : List Char) : List (List Char) :=
  let ps := pieces cs
  if ps.getLast? = some [] then ps.dropLast else ps

/-- The recorded form of a report or of a message: the backtrace of a fatal
report is cut to a word that says whether all of its lines are indented. -/
def recorded (text : String) : String :=
  if fatalStart.toList.isPrefixOf text.toList then
    match splitAfter backtraceMark.toList text.toList with
    | some (seen, rest) =>
      String.ofList seen ++
        (if (lines rest).all ("    ".toList.isPrefixOf ·) then "<frames>"
          else "<unindented frames>")
    | none => text
  else text

/-- The text of a fault report. -/
def faultText (payload : Payload) (id : FiberId) (thread : String) : String :=
  "Fiber Except: " ++ payload.text?.getD "non-string panic payload" ++ "  fiber id = " ++
    toString id ++ " thread = " ++ thread ++ "\n    <backtrace disabled>\n"

end FiberEngine
