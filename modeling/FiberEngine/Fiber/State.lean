/-
FiberEngine.Fiber.State — the six states of a fiber.

A fiber is `init` until it is first resumed and again after a reset; `exec`
while it runs; `ready` or `hold` while it is suspended; `term` once its callback
has returned and `except` once a panic has left it. Which calls a state allows
is said by `canResume`, `canYield` and `canReset`.
-/

namespace FiberEngine

/-- Fibers are numbered from one, in order of creation. -/
abbrev FiberId := Nat

inductive FiberState where
  | init
  | hold
  | exec
  | term
  | ready
  | except
  deriving DecidableEq, Repr

namespace FiberState

/-- The upper-case label of a state. -/
def label : FiberState → String
  | init => "INIT"
  | hold => "HOLD"
  | exec => "EXEC"
  | term => "TERM"
  | ready => "READY"
  | except => "EXCEPT"

/-- The name of a state in a diagnostic. -/
def debug : FiberState → String
  | init => "Init"
  | hold => "Hold"
  | exec => "Exec"
  | term => "Term"
  | ready => "Ready"
  | except => "Except"

/-- All states, in order of declaration. -/
def all : List FiberState :=
  [init, hold, exec, term, ready, except]

/-- The callback has ended. -/
def terminal : FiberState → Bool
  | term | except => true
  | _ => false

/-- A fiber in this state may be switched into. -/
def canResume : FiberState → Bool
  | init | hold | ready => true
  | _ => false

/-- A fiber in this state is not turned away when it yields. -/
def canYield : FiberState → Bool
  | exec | term => true
  | _ => false

/-- No frame of a callback is on the stack of a fiber in this state. -/
def canReset : FiberState → Bool
  | init | term | except => true
  | _ => false

theorem mem_all (s : FiberState) : s ∈ all := by
  cases s <;> decide

theorem canReset_of_terminal {s : FiberState} (h : s.terminal) : s.canReset := by
  cases s <;> simp_all [terminal, canReset]

end FiberState

end FiberEngine
