/-
FiberEngine.Demo — the demonstrations, as scripts.

Each demonstration is a script like any other, with lines of output in between.
It keeps its task in a slot of its own, and it takes every request to succeed:
`expectation` is what it says when one does not.

The workers of `threads` run one after the other here. In truth they run at the
same time, so their lines are sorted and leave out the ids of fibers.
-/
import FiberEngine.Script

namespace FiberEngine.Demo

/-- The task of a demonstration. -/
def task : FiberRef :=
  .slot .own

/-- Start the task of a demonstration. -/
def start (size : Nat) (body : List Op) : Op :=
  .create .own size .heap body none []

/-- Print one line. -/
def line (text : String) : Op :=
  .print [.text text]

/-- A task of three steps, seen from both sides. -/
def basicUseScript : List Op :=
  [.print [.text "main fiber ", .id .current, .text " is ", .state .current],
    start 0 ([0, 1, 2].flatMap fun step =>
      [.tick,
        .print [.text "  fiber ", .currentId, .text (" step " ++ toString (step : Nat))],
        .park .ready]),
    .loop 4
      [.resume .trusted task,
        .print
          [.text "back in main: counter = ", .counter, .text ", task is ", .state task]],
    .print [.text "live fibers: ", .total]]

/-- A stack whose size comes from a document. -/
def configScript : List Op :=
  [.lookup "fiber.stack_size" (.integer .usize defaultStackSize usize_holds_defaultStackSize)
      "fiber stack size",
    .print [.text "default fiber stack: ", .tunable "fiber.stack_size", .text " bytes"],
    .load "[fiber]\nstack_size = 262144\n",
    start 0 [line "running on a configured stack"],
    .resume .trusted task,
    .print [.text "fiber ", .id task, .text " got a ", .stackSize task, .text " byte stack"]]

/-- A program whose main function runs in a fiber. -/
def entryScript : List Op :=
  [.entry (256 * 1024) .unit
    (.print
        [.text "main body runs in fiber ", .id .current, .text " on a ", .stackSize .current,
          .text " byte stack"] ::
      [0, 1, 2].flatMap fun step => [line ("step " ++ toString (step : Nat)), .park .ready])]

/-- A fault that is reported, and the fiber in use again. -/
def faultScript : List Op :=
  [.setHook .output,
    start 0
      [line "about to fail", .panic (.text "something went wrong inside the fiber")],
    .resume .trusted task,
    .print
      [.text "resume returned normally, fiber ", .id task, .text " is ", .state task],
    .print [.text "second resume rejected: ", .refusal task],
    .reset .trusted task [line "recovered"] none [],
    .resume .trusted task,
    .print [.text "fiber ", .id task, .text " is ", .state task]]

/-- One stack for several jobs. -/
def resetScript : List Op :=
  [start (128 * 1024) [line "first job"], .resume .trusted task] ++
    ([0, 1, 2].flatMap fun job =>
      [.reset .trusted task [line ("recycled job " ++ toString (job : Nat))] none [],
        .resume .trusted task]) ++
    [.print [.text "stack at PTR (", .stackSize task, .text " bytes) reused for every job"]]

/-- What one of the workers does. -/
def workerScript : List Op :=
  [start 0
      [.print [.threadName, .text ": task fiber N running"],
        .park .hold,
        .print [.threadName, .text ": task fiber done"]],
    .resume .trusted task,
    .print [.threadName, .text ": main fiber N sees task in ", .state task],
    .resume .trusted task]

/-- Three workers with a task each. -/
def threadsScript : List Op :=
  ([0, 1, 2].map fun i => .thread (.engine ("worker-" ++ toString (i : Nat))) workerScript) ++
    [.requireJoined]

def script : Demo → List Op
  | basicUse => basicUseScript
  | config => configScript
  | entry => entryScript
  | fault => faultScript
  | reset => resetScript
  | threads => threadsScript

/-- The lines of a demonstration come in no fixed order. -/
def racing : Demo → Bool
  | threads => true
  | _ => false

/-- What a demonstration says when a request fails, by the name of the request. -/
def expectation (request : String) : String :=
  if request = "cfg_lookup" then "valid config name"
  else if request = "cfg_toml" then "valid config"
  else "fiber stack"

end FiberEngine.Demo
