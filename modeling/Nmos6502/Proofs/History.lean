import Nmos6502.Session.Call
import Nmos6502.Proofs.Run

/-!
Histories of a session: what a list of host calls makes of it. Some calls take steps, up to a
limit; the others change at most the processor, the trace switch and the hooks. What survives
both survives every history, and what only steps add to is added up over the steps that the
history takes.
-/

namespace Nmos6502

/-- How many steps the call may take, if it is one that takes steps. -/
def Call.stepLimit {M H O : Type} : Call M H O → Option Nat
  | .step => some 1
  | .run fuel => some fuel
  | .runFor limit => some limit.toNat
  | _ => none

namespace Session

variable {M H O : Type} [Bus M] [ExtensionHandler H] [TraceObserver O]

theorem perform_stepping {call : Call M H O} {limit : Nat} (stepping : call.stepLimit = some limit)
    (session : Session M H O) : (perform call session).2 = (advance limit session).2 := by
  cases call with
  | step =>
      have one : 1 = limit := Option.some.inj stepping
      rw [← one, advance_one]
      rfl
  | run fuel =>
      have same : fuel = limit := Option.some.inj stepping
      rw [← same, perform, bind_run, run_run]
      rcases advance fuel session with ⟨trap | progress, next⟩
      · rfl
      · cases progress <;> rfl
  | runFor count =>
      have same : count.toNat = limit := Option.some.inj stepping
      rw [← same, perform, bind_run, run_for_run]
      rcases advance count.toNat session with ⟨trap | progress, next⟩ <;> rfl
  | _ => cases stepping

/-- A call that takes no steps neither ends nor counts anything and writes no record. -/
theorem perform_idle {call : Call M H O} (idle : call.stepLimit = none)
    (session : Session M H O) :
    ∃ processor tracing observer handler, (perform call session).2 =
      { session with
        processor := processor, tracing := tracing, observer := observer, handler := handler } := by
  cases call with
  | step | run _ | runFor _ => cases idle
  | _ => exact ⟨_, _, _, _, rfl⟩

section Preservation

variable (Kept : Session M H O → Prop)

theorem advance_preserves (stepped : ∀ session, Kept session → Kept (step session).2)
    (limit : Nat) (session : Session M H O) (before : Kept session) :
    Kept (advance limit session).2 := by
  induction limit generalizing session with
  | zero => exact before
  | succ limit induction =>
      have next := stepped session before
      simp only [advance]
      rcases taken : step session with ⟨trap | progress, after⟩
      · rw [taken] at next
        exact next
      · rw [taken] at next
        cases progress with
        | running => exact induction after next
        | stopped => exact next

theorem perform_all_preserves (stepped : ∀ session, Kept session → Kept (step session).2)
    (changed : ∀ (session : Session M H O) processor tracing observer handler, Kept session →
      Kept { session with
        processor := processor, tracing := tracing, observer := observer, handler := handler })
    (calls : List (Call M H O)) (session : Session M H O) (before : Kept session) :
    Kept (performAll calls session).2 := by
  induction calls generalizing session with
  | nil => exact before
  | cons call rest induction =>
      rw [perform_all_cons]
      apply induction
      cases limited : call.stepLimit with
      | none =>
          obtain ⟨processor, tracing, observer, handler, changes⟩ := perform_idle limited session
          rw [changes]
          exact changed session processor tracing observer handler before
      | some limit =>
          rw [perform_stepping limited]
          exact advance_preserves Kept stepped limit session before

end Preservation

/-- The sessions that a host can bring about. -/
def Reachable (session : Session M H O) : Prop :=
  ∃ bus pc config calls, session = (performAll calls (start bus pc config)).2

/-- Only the step that executes an instruction ever sees a pending stop. -/
theorem Reachable.stop_not_pending {session : Session M H O} (reachable : session.Reachable) :
    session.stopPending = false := by
  obtain ⟨bus, pc, config, calls, rfl⟩ := reachable
  apply perform_all_preserves fun session => session.stopPending = false
  · intro session quiet
    cases step_kind session with
    | halted trap halted =>
        rw [step_of_halted session trap halted]
        exact quiet
    | illegal running decoded =>
        rw [step_of_illegal session running decoded]
        exact quiet
    | official running mnemonic mode decoded => rw [step_of_official session running decoded]
    | toggle running decoded toggle => rw [step_of_toggle session running decoded toggle]
    | unanswered running decoded operation detached =>
        rw [step_of_unanswered session running decoded operation detached]
    | answered running decoded operation handler attached =>
        rw [step_of_answered session running decoded operation attached]
  · intro session processor tracing observer handler quiet
    exact quiet
  · rfl

/-- The sessions from which the steps of a run start. -/
def advanceStarts : Nat → Session M H O → List (Session M H O)
  | 0, _ => []
  | limit + 1, session =>
      session :: match step session with
        | (.ok .running, next) => advanceStarts limit next
        | _ => []

theorem advance_starts_one (session : Session M H O) : advanceStarts 1 session = [session] := by
  rw [advanceStarts]
  rcases step session with ⟨trap | progress, next⟩
  · rfl
  · cases progress <;> rfl

/-- The sessions from which the steps of a history start. -/
def stepStarts : List (Call M H O) → Session M H O → List (Session M H O)
  | [], _ => []
  | call :: rest, session =>
      (match call.stepLimit with
        | some limit => advanceStarts limit session
        | none => []) ++ stepStarts rest (perform call session).2

theorem step_starts_step (rest : List (Call M H O)) (session : Session M H O) :
    stepStarts (.step :: rest) session = session :: stepStarts rest (step session).2 := by
  have first : stepStarts (.step :: rest) session =
      advanceStarts 1 session ++ stepStarts rest (step session).2 := rfl
  rw [first, advance_starts_one]
  rfl

section Folding

variable {Value : Type} {value : Session M H O → Value}
variable {changed : Value → Session M H O → Value}

theorem advance_folds
    (stepped : ∀ session, value (step session).2 = changed (value session) session) (limit : Nat)
    (session : Session M H O) :
    value (advance limit session).2 =
      (advanceStarts limit session).foldl changed (value session) := by
  induction limit generalizing session with
  | zero => rfl
  | succ limit induction =>
      have next := stepped session
      rw [advanceStarts, List.foldl_cons, ← next]
      simp only [advance]
      rcases step session with ⟨trap | progress, after⟩
      · rfl
      · cases progress with
        | running => exact induction after
        | stopped => rfl

theorem perform_all_folds
    (stepped : ∀ session, value (step session).2 = changed (value session) session)
    (calls : List (Call M H O))
    (idle : ∀ call ∈ calls, call.stepLimit = none →
      ∀ session, value (perform call session).2 = value session)
    (session : Session M H O) :
    value (performAll calls session).2 =
      (stepStarts calls session).foldl changed (value session) := by
  induction calls generalizing session with
  | nil => rfl
  | cons call rest induction =>
      have later := induction (fun other member => idle other (List.mem_cons_of_mem call member))
        (perform call session).2
      rw [perform_all_cons, stepStarts, List.foldl_append, later]
      congr 1
      cases limited : call.stepLimit with
      | none => exact idle call List.mem_cons_self limited session
      | some limit =>
          rw [perform_stepping limited]
          exact advance_folds stepped limit session

end Folding

section Accumulation

variable {Entry : Type} {kept added : Session M H O → List Entry}

theorem advance_accumulates
    (stepped : ∀ session, kept (step session).2 = kept session ++ added session)
    (limit : Nat) (session : Session M H O) :
    kept (advance limit session).2 =
      kept session ++ (advanceStarts limit session).flatMap added := by
  have folded : kept (advance limit session).2 = (advanceStarts limit session).foldl
      (fun entries start => entries ++ added start) (kept session) :=
    advance_folds stepped limit session
  rw [folded, List.foldl_append_eq_append, List.flatMap_def]

theorem perform_all_accumulates
    (stepped : ∀ session, kept (step session).2 = kept session ++ added session)
    (calls : List (Call M H O))
    (idle : ∀ call ∈ calls, call.stepLimit = none →
      ∀ session, kept (perform call session).2 = kept session)
    (session : Session M H O) :
    kept (performAll calls session).2 =
      kept session ++ (stepStarts calls session).flatMap added := by
  have folded : kept (performAll calls session).2 = (stepStarts calls session).foldl
      (fun entries start => entries ++ added start) (kept session) :=
    perform_all_folds stepped calls idle session
  rw [folded, List.foldl_append_eq_append, List.flatMap_def]

end Accumulation

end Session

end Nmos6502
