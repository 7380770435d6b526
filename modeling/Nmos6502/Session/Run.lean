import Nmos6502.Session.Step

/-!
Repeated steps. A run ends at the first step that is stopped or trapped, and its result is
the number of instructions it executed or the trap.
-/

namespace Nmos6502.Session

variable {M H O : Type} [Bus M] [ExtensionHandler H] [TraceObserver O]

/-- Steps at most the given number of times; `running` says that none of the steps ended
the run. -/
def advance : Nat → SessionM M H O (Except Trap Progress)
  | 0, session => (.ok .running, session)
  | limit + 1, session =>
      match step session with
      | (.ok .running, next) => advance limit next
      | ended => ended

/-- A run in two parts is one run, unless the first part ends it. -/
theorem advance_add (first second : Nat) (session : Session M H O) :
    advance (first + second) session =
      match advance first session with
      | (.ok .running, next) => advance second next
      | ended => ended := by
  induction first generalizing session with
  | zero => simp [advance]
  | succ first induction =>
      rw [show first + 1 + second = first + second + 1 by omega]
      simp only [advance]
      rcases step session with ⟨trap | progress, next⟩
      · rfl
      · cases progress with
        | running => exact induction next
        | stopped => rfl

def runFor (limit : UInt64) : SessionM M H O (Except Trap UInt64) := do
  let before := (← get).instructions
  match ← advance limit.toNat with
  | .error trap => return .error trap
  | .ok _ => return .ok ((← get).instructions - before)

/-- Runs until a step ends the run. There is no result if the run is still going on after
`fuel` steps. -/
def run (fuel : Nat) : SessionM M H O (Option (Except Trap UInt64)) := do
  let before := (← get).instructions
  match ← advance fuel with
  | .ok .running => return none
  | .ok .stopped => return some (.ok ((← get).instructions - before))
  | .error trap => return some (.error trap)

end Nmos6502.Session
