import Nmos6502.Bus.Flat
import Nmos6502.Session.Run
import Nmos6502.Session.Script
import Nmos6502.Proofs.Step

/-!
Runs as iterated steps. The first step that is stopped or trapped ends a run; both loops are
described by the index of that step, and their counts by the counter of the session.
-/

namespace Nmos6502.Session

variable {M H O : Type} [Bus M] [ExtensionHandler H] [TraceObserver O]

/-- The session after a number of steps, whatever they returned. -/
def after (session : Session M H O) : Nat → Session M H O
  | 0 => session
  | count + 1 => (step (after session count)).2

/-- What the step after `index` steps returns. -/
def outcome (session : Session M H O) (index : Nat) : Except Trap Progress :=
  (step (session.after index)).1

/-- The step after `index` steps is the first that ends a run. -/
structure EndsAt (session : Session M H O) (index : Nat) : Prop where
  earlier : ∀ before < index, session.outcome before = .ok .running
  ended : session.outcome index ≠ .ok .running

theorem after_step (session : Session M H O) (count : Nat) :
    (step session).2.after count = session.after (count + 1) := by
  induction count with
  | zero => rfl
  | succ count induction =>
      rw [after, induction]
      rfl

theorem after_add (session : Session M H O) (first second : Nat) :
    session.after (first + second) = (session.after first).after second := by
  induction second with
  | zero => rfl
  | succ second induction => rw [Nat.add_succ, after, induction, after]

theorem outcome_step (session : Session M H O) (index : Nat) :
    (step session).2.outcome index = session.outcome (index + 1) := by
  rw [outcome, after_step, outcome]

/-- Either no step below the limit ends a run or one of them is the first. -/
theorem running_or_ends (session : Session M H O) (limit : Nat) :
    (∀ index < limit, session.outcome index = .ok .running) ∨
      ∃ index < limit, session.EndsAt index := by
  induction limit with
  | zero =>
      left
      intro index below
      exact absurd below (Nat.not_lt_zero index)
  | succ limit induction =>
      rcases induction with running | ⟨index, below, ends⟩
      · by_cases ended : session.outcome limit = .ok .running
        · left
          intro index below
          rcases Nat.lt_succ_iff_lt_or_eq.mp below with earlier | last
          · exact running index earlier
          · rw [last]
            exact ended
        · right
          exact ⟨limit, Nat.lt_succ_self limit, running, ended⟩
      · right
        exact ⟨index, Nat.lt_succ_of_lt below, ends⟩

theorem advance_one (session : Session M H O) : advance 1 session = step session := by
  simp only [advance]
  rcases step session with ⟨trap | progress, next⟩
  · rfl
  · cases progress <;> rfl

theorem advance_of_running (session : Session M H O) (limit : Nat)
    (running : ∀ index < limit, session.outcome index = .ok .running) :
    advance limit session = (.ok .running, session.after limit) := by
  induction limit generalizing session with
  | zero => rfl
  | succ limit induction =>
      have first : (step session).1 = .ok .running := running 0 (Nat.succ_pos limit)
      have whole : step session = (.ok .running, (step session).2) := Prod.ext first rfl
      rw [advance, whole]
      simp only
      rw [induction (step session).2, after_step]
      intro index below
      rw [outcome_step]
      exact running (index + 1) (Nat.succ_lt_succ below)

theorem advance_of_ends (session : Session M H O) {index limit : Nat}
    (ends : session.EndsAt index) (below : index < limit) :
    advance limit session = (session.outcome index, session.after (index + 1)) := by
  obtain ⟨rest, split⟩ : ∃ rest, limit = index + (rest + 1) := ⟨limit - index - 1, by omega⟩
  rw [split, advance_add, advance_of_running session index ends.earlier]
  simp only [advance]
  have last : step (session.after index) =
      (session.outcome index, session.after (index + 1)) := rfl
  rw [last]
  cases ended : session.outcome index with
  | error trap => rfl
  | ok progress =>
      cases progress with
      | running => exact absurd ended ends.ended
      | stopped => rfl

theorem step_counts (session : Session M H O) :
    (step session).2.instructions = match (step session).1 with
      | .ok _ => session.instructions + 1
      | .error _ => session.instructions := by
  cases halted : session.halted with
  | some trap => rw [step_of_halted session trap halted]
  | none =>
      by_cases illegal : session.instruction = .illegal
      · rw [step_of_illegal session halted illegal]
        rfl
      · obtain ⟨progress, succeeded, -, counted, -⟩ := step_of_legal session halted illegal
        rw [succeeded, counted]

theorem instructions_after (session : Session M H O) (count : Nat)
    (running : ∀ index < count, session.outcome index = .ok .running) :
    (session.after count).instructions = session.instructions + UInt64.ofNat count := by
  induction count with
  | zero => simp [after]
  | succ count induction =>
      have last : (step (session.after count)).1 = .ok .running :=
        running count (Nat.lt_succ_self count)
      rw [after, step_counts, last]
      simp only
      rw [induction fun index below => running index (Nat.lt_succ_of_lt below),
        UInt64.ofNat_add, UInt64.add_assoc]
      rfl

/-- The step that ends a run counts unless it is trapped. -/
theorem instructions_after_ends (session : Session M H O) {index : Nat}
    (ends : session.EndsAt index) :
    (session.after (index + 1)).instructions = match session.outcome index with
      | .ok _ => session.instructions + UInt64.ofNat (index + 1)
      | .error _ => session.instructions + UInt64.ofNat index := by
  have before := instructions_after session index ends.earlier
  rw [after, step_counts, ← outcome]
  cases session.outcome index with
  | error trap => exact before
  | ok progress =>
      simp only
      rw [before, UInt64.ofNat_add, UInt64.add_assoc]
      rfl

theorem run_for_run (limit : UInt64) (session : Session M H O) :
    runFor limit session = match advance limit.toNat session with
      | (.error trap, next) => (.error trap, next)
      | (.ok _, next) => (.ok (next.instructions - session.instructions), next) := by
  rw [runFor, bind_run, get_run, bind_run]
  rcases advance limit.toNat session with ⟨trap | progress, next⟩ <;> rfl

theorem run_run (fuel : Nat) (session : Session M H O) :
    run fuel session = match advance fuel session with
      | (.error trap, next) => (some (.error trap), next)
      | (.ok .stopped, next) => (some (.ok (next.instructions - session.instructions)), next)
      | (.ok .running, next) => (none, next) := by
  rw [run, bind_run, get_run, bind_run]
  rcases advance fuel session with ⟨trap | progress, next⟩
  · rfl
  · cases progress <;> rfl

theorem run_for_of_running (session : Session M H O) (limit : UInt64)
    (running : ∀ index < limit.toNat, session.outcome index = .ok .running) :
    runFor limit session = (.ok limit, session.after limit.toNat) := by
  rw [run_for_run, advance_of_running session limit.toNat running]
  simp only
  rw [instructions_after session limit.toNat running, UInt64.ofNat_toNat, UInt64.add_comm,
    UInt64.add_sub_cancel]

theorem run_for_of_stopped (session : Session M H O) (limit : UInt64) {index : Nat}
    (ends : session.EndsAt index) (below : index < limit.toNat)
    (stopped : session.outcome index = .ok .stopped) :
    runFor limit session = (.ok (UInt64.ofNat (index + 1)), session.after (index + 1)) := by
  have counted := instructions_after_ends session ends
  rw [stopped] at counted
  rw [run_for_run, advance_of_ends session ends below, stopped]
  simp only
  rw [counted, UInt64.add_comm, UInt64.add_sub_cancel]

theorem run_for_of_trapped (session : Session M H O) (limit : UInt64) {index : Nat}
    (ends : session.EndsAt index) (below : index < limit.toNat) {trap : Trap}
    (trapped : session.outcome index = .error trap) :
    runFor limit session = (.error trap, session.after (index + 1)) := by
  rw [run_for_run, advance_of_ends session ends below, trapped]

theorem run_of_ends (session : Session M H O) (limit : UInt64) {index fuel : Nat}
    (ends : session.EndsAt index) (below : index < limit.toNat) (enough : index < fuel) :
    run fuel session = (some (runFor limit session).1, (runFor limit session).2) := by
  rw [run_run, run_for_run, advance_of_ends session ends below, advance_of_ends session ends enough]
  cases ended : session.outcome index with
  | error trap => rfl
  | ok progress =>
      cases progress with
      | running => exact absurd ended ends.ended
      | stopped => rfl

theorem run_unfinished (session : Session M H O) (endless : ¬∃ index, session.EndsAt index)
    (fuel : Nat) : (run fuel session).1 = none := by
  rcases running_or_ends session fuel with running | ⟨index, -, ends⟩
  · rw [run_run, advance_of_running session fuel running]
  · exact absurd ⟨index, ends⟩ endless

/-- No run executes more than it may, wherever the counter starts. -/
theorem run_for_count_le (session : Session M H O) (limit : UInt64) {count : UInt64}
    (counted : (runFor limit session).1 = .ok count) : count ≤ limit := by
  have bound := limit.toNat_lt
  rcases running_or_ends session limit.toNat with running | ⟨index, below, ends⟩
  · rw [run_for_of_running session limit running] at counted
    have same : limit = count := Except.ok.inj counted
    rw [same]
    exact UInt64.le_refl count
  · cases ended : session.outcome index with
    | error trap =>
        rw [run_for_of_trapped session limit ends below ended] at counted
        cases counted
    | ok progress =>
        cases progress with
        | running => exact absurd ended ends.ended
        | stopped =>
            rw [run_for_of_stopped session limit ends below ended] at counted
            have same : UInt64.ofNat (index + 1) = count := Except.ok.inj counted
            rw [← same, UInt64.le_iff_toNat_le, UInt64.toNat_ofNat',
              Nat.mod_eq_of_lt (by omega)]
            exact below

/-- The counter never runs backwards during a run, so the difference taken at its end is the
number of executed instructions. -/
theorem run_for_count_bounded (session : Session M H O) (limit : UInt64)
    (room : session.instructions.toNat + limit.toNat < UInt64.size) :
    session.instructions ≤ (runFor limit session).2.instructions ∧
      ∀ count, (runFor limit session).1 = .ok count →
        count.toNat =
          (runFor limit session).2.instructions.toNat - session.instructions.toNat ∧
        count ≤ limit := by
  have bound := limit.toNat_lt
  unfold UInt64.size at room
  rcases running_or_ends session limit.toNat with running | ⟨index, below, ends⟩
  · have counted := instructions_after session limit.toNat running
    have grown := congrArg UInt64.toNat counted
    rw [UInt64.toNat_add, UInt64.ofNat_toNat, Nat.mod_eq_of_lt room] at grown
    rw [run_for_of_running session limit running, UInt64.le_iff_toNat_le, grown]
    refine ⟨Nat.le_add_right _ _, ?_⟩
    intro count same
    have same : limit = count := Except.ok.inj same
    rw [← same]
    exact ⟨by omega, UInt64.le_refl limit⟩
  · have counted := instructions_after_ends session ends
    cases ended : session.outcome index with
    | error trap =>
        rw [ended] at counted
        have grown := congrArg UInt64.toNat counted
        rw [UInt64.toNat_add, UInt64.toNat_ofNat', Nat.mod_eq_of_lt (a := index) (by omega),
          Nat.mod_eq_of_lt (by omega)] at grown
        rw [run_for_of_trapped session limit ends below ended, UInt64.le_iff_toNat_le, grown]
        refine ⟨Nat.le_add_right _ _, ?_⟩
        intro count same
        cases same
    | ok progress =>
        cases progress with
        | running => exact absurd ended ends.ended
        | stopped =>
            rw [ended] at counted
            have executed : (UInt64.ofNat (index + 1)).toNat = index + 1 := by
              rw [UInt64.toNat_ofNat', Nat.mod_eq_of_lt (by omega)]
            have grown := congrArg UInt64.toNat counted
            rw [UInt64.toNat_add, executed, Nat.mod_eq_of_lt (by omega)] at grown
            rw [run_for_of_stopped session limit ends below ended, UInt64.le_iff_toNat_le, grown]
            refine ⟨Nat.le_add_right _ _, ?_⟩
            intro count same
            have same : UInt64.ofNat (index + 1) = count := Except.ok.inj same
            rw [← same, UInt64.le_iff_toNat_le, executed]
            omega

theorem halted_of_step_error (session : Session M H O) {trap : Trap}
    (failed : (step session).1 = .error trap) : (step session).2.halted = some trap := by
  cases halted : session.halted with
  | some earlier =>
      rw [step_of_halted session earlier halted] at failed ⊢
      have same : earlier = trap := Except.error.inj failed
      rw [← same]
      exact halted
  | none =>
      have illegal : session.instruction = .illegal := by
        by_cases legal : session.instruction = .illegal
        · exact legal
        · obtain ⟨progress, succeeded, -⟩ := step_of_legal session halted legal
          rw [succeeded] at failed
          cases failed
      have trapped := step_of_illegal session halted illegal
      rw [trapped] at failed ⊢
      exact congrArg some (Except.error.inj failed)

theorem advance_of_halted (session : Session M H O) (limit : Nat) {trap : Trap}
    (halted : session.halted = some trap) :
    advance (limit + 1) session = (.error trap, session) := by
  rw [advance, step_of_halted session trap halted]

theorem run_of_halted (session : Session M H O) (fuel : Nat) {trap : Trap}
    (halted : session.halted = some trap) :
    run (fuel + 1) session = (some (.error trap), session) := by
  rw [run_run, advance_of_halted session fuel halted]

/-- A limited run that takes no step does not find the trap. -/
theorem run_for_of_halted (session : Session M H O) (limit : UInt64) {trap : Trap}
    (halted : session.halted = some trap) :
    runFor limit session = (if limit = 0 then .ok 0 else .error trap, session) := by
  rw [run_for_run]
  by_cases none : limit = 0
  · rw [if_pos none, none, UInt64.toNat_zero, advance]
    simp only
    rw [UInt64.sub_self]
  · have taken : limit.toNat ≠ 0 := fun zero => none (UInt64.toNat_inj.mp zero)
    obtain ⟨rest, successor⟩ := Nat.exists_eq_succ_of_ne_zero taken
    rw [if_neg none, successor, advance_of_halted session rest halted]

theorem run_for_one (session : Session M H O) : (runFor 1 session).2 = (step session).2 := by
  have one : (1 : UInt64).toNat = 1 := rfl
  rw [run_for_run, one, advance_one]
  rcases step session with ⟨trap | progress, next⟩ <;> rfl

/-- Two limited runs in a row are one if no stop came between them. -/
theorem run_for_add (session : Session M H O) (first second : UInt64)
    (room : first.toNat + second.toNat < UInt64.size)
    (unstopped : ¬∃ index < first.toNat,
      session.EndsAt index ∧ session.outcome index = .ok .stopped) :
    (runFor (first + second) session).2 = (runFor second (runFor first session).2).2 ∧
      (runFor (first + second) session).1 = match (runFor first session).1 with
        | .error trap => .error trap
        | .ok earlier => (runFor second (runFor first session).2).1.map (earlier + ·) := by
  have total : (first + second).toNat = first.toNat + second.toNat := by
    rw [UInt64.toNat_add, Nat.mod_eq_of_lt room]
  rcases running_or_ends session first.toNat with running | ⟨index, below, ends⟩
  · have counted := instructions_after session first.toNat running
    rw [UInt64.ofNat_toNat] at counted
    rw [run_for_of_running session first running]
    simp only
    rw [run_for_run, run_for_run, total, advance_add,
      advance_of_running session first.toNat running]
    simp only
    rcases advance second.toNat (session.after first.toNat) with ⟨trap | progress, next⟩
    · exact ⟨rfl, rfl⟩
    · refine ⟨rfl, ?_⟩
      have parts : next.instructions - session.instructions =
          first + (next.instructions - (session.instructions + first)) := by grind
      rw [counted]
      exact congrArg Except.ok parts
  · cases ended : session.outcome index with
    | error trap =>
        have halted : (session.after (index + 1)).halted = some trap :=
          halted_of_step_error (session.after index) ended
        rw [run_for_of_trapped session first ends below ended,
          run_for_of_trapped session (first + second) ends (by omega) ended]
        exact ⟨(congrArg Prod.snd (run_for_of_halted _ second halted)).symm, rfl⟩
    | ok progress =>
        cases progress with
        | running => exact absurd ended ends.ended
        | stopped => exact absurd ⟨index, below, ends, ended⟩ unstopped

/-- A stop ends the run that it belongs to, whatever limit is left. -/
theorem run_for_add_of_stopped (session : Session M H O) (first second : UInt64)
    (room : first.toNat + second.toNat < UInt64.size)
    (stopped : ∃ index < first.toNat,
      session.EndsAt index ∧ session.outcome index = .ok .stopped) :
    runFor (first + second) session = runFor first session := by
  obtain ⟨index, below, ends, ended⟩ := stopped
  have total : (first + second).toNat = first.toNat + second.toNat := by
    rw [UInt64.toNat_add, Nat.mod_eq_of_lt room]
  rw [run_for_of_stopped session first ends below ended,
    run_for_of_stopped session (first + second) ends (by omega) ended]

/-- The loops with and without a limit are iterated steps. Of two limited runs in a row the
second takes up where the first reached its limit or a trap; a stop in the first is not made
up for by the limit of the two together. -/
theorem runs_are_iterated_steps (session : Session M H O) :
    (∀ limit : UInt64, (¬∃ index < limit.toNat, session.EndsAt index) →
      runFor limit session = (.ok limit, session.after limit.toNat)) ∧
    (∀ (limit : UInt64) (index : Nat), session.EndsAt index → index < limit.toNat →
      (session.outcome index = .ok .stopped →
        runFor limit session = (.ok (UInt64.ofNat (index + 1)), session.after (index + 1))) ∧
      (∀ trap, session.outcome index = .error trap →
        runFor limit session = (.error trap, session.after (index + 1)) ∧
        (session.instructions.toNat + limit.toNat < UInt64.size →
          (runFor limit session).2.instructions.toNat = session.instructions.toNat + index)) ∧
      ∀ fuel, index < fuel →
        run fuel session = (some (runFor limit session).1, (runFor limit session).2)) ∧
    ((¬∃ index, session.EndsAt index) → ∀ fuel, (run fuel session).1 = none) ∧
    (∀ limit : UInt64, session.instructions.toNat + limit.toNat < UInt64.size →
      session.instructions ≤ (runFor limit session).2.instructions ∧
      ∀ count, (runFor limit session).1 = .ok count →
        count.toNat =
          (runFor limit session).2.instructions.toNat - session.instructions.toNat ∧
        count ≤ limit) ∧
    (∀ first second : UInt64, first.toNat + second.toNat < UInt64.size →
      ((∃ index < first.toNat, session.EndsAt index ∧ session.outcome index = .ok .stopped) →
        runFor (first + second) session = runFor first session) ∧
      ((¬∃ index < first.toNat, session.EndsAt index ∧ session.outcome index = .ok .stopped) →
        (runFor (first + second) session).2 = (runFor second (runFor first session).2).2 ∧
        (runFor (first + second) session).1 = match (runFor first session).1 with
          | .error trap => .error trap
          | .ok earlier => (runFor second (runFor first session).2).1.map (earlier + ·))) := by
  refine ⟨?_, ?_, run_unfinished session, run_for_count_bounded session, ?_⟩
  · intro limit endless
    rcases running_or_ends session limit.toNat with running | ends
    · exact run_for_of_running session limit running
    · exact absurd ends endless
  · intro limit index ends below
    refine ⟨run_for_of_stopped session limit ends below, ?_, fun fuel enough =>
      run_of_ends session limit ends below enough⟩
    intro trap trapped
    have result := run_for_of_trapped session limit ends below trapped
    refine ⟨result, ?_⟩
    intro room
    unfold UInt64.size at room
    have counted := instructions_after_ends session ends
    rw [trapped] at counted
    have bound := limit.toNat_lt
    rw [result, counted, UInt64.toNat_add, UInt64.toNat_ofNat',
      Nat.mod_eq_of_lt (a := index) (by omega), Nat.mod_eq_of_lt (by omega)]
  · intro first second room
    exact ⟨run_for_add_of_stopped session first second room,
      run_for_add session first second room⟩

/-- A fresh session whose handler asks for a stop at operation `$01`. -/
def stoppable (memory : FlatMemory) : Session FlatMemory Script Empty :=
  { (start memory 0 {} : Session FlatMemory Script Empty) with
    handler := some { respond := fun _ accumulator => accumulator, stopOn := [0x01] } }

theorem stoppable_ends_at_once {memory : FlatMemory} (opcode : memory.get 0 = 0xFF)
    (operation : memory.get 1 = 0x01) :
    (stoppable memory).EndsAt 0 ∧ (stoppable memory).outcome 0 = .ok .stopped ∧
      (stoppable memory).after 1 = { (stoppable memory).after 1 with
        processor := ⟨{ (stoppable memory).registers with pc := 2 }, memory⟩
        halted := none
        tracing := false
        instructions := 1 } := by
  have fetched : (stoppable memory).fetchedOpcode = 0xFF := opcode
  have decoded : (stoppable memory).instruction = .extension := by
    rw [instruction, fetched, Instruction.decode_eq_of_code]
    decide +kernel
  have asked : (stoppable memory).fetched.fetchedOperation = 0x01 := operation
  have executed := step_of_answered (stoppable memory) rfl decoded
    (by rw [asked]; decide) rfl
  have stopped : (stoppable memory).outcome 0 = .ok .stopped := by
    rw [outcome, after, executed, asked]
    rfl
  refine ⟨⟨?_, ?_⟩, stopped, ?_⟩
  · intro before below
    exact absurd below (Nat.not_lt_zero before)
  · rw [stopped]
    intro same
    cases same
  · rw [after, after, executed]
    rfl

theorem stoppable_goes_on {memory : FlatMemory} (opcode : memory.get 0 = 0xFF)
    (operation : memory.get 1 = 0x01) (next : memory.get 2 = 0xEA) :
    (runFor 1 (stoppable memory)).1 = .ok 1 ∧
      (runFor (1 + 1) (stoppable memory)).2 ≠
        (runFor 1 (runFor 1 (stoppable memory)).2).2 := by
  obtain ⟨ends, stopped, left⟩ := stoppable_ends_at_once opcode operation
  have opcode : ((stoppable memory).after 1).fetchedOpcode = 0xEA := by
    rw [left]
    exact next
  have legal : ((stoppable memory).after 1).instruction ≠ .illegal := by
    rw [instruction, opcode, Instruction.decode_eq_of_code]
    decide +kernel
  obtain ⟨_, -, -, counted, -⟩ := step_of_legal ((stoppable memory).after 1)
    (by rw [left]) legal
  have once : ((stoppable memory).after 1).instructions = 1 := by rw [left]
  have twice : (step ((stoppable memory).after 1)).2.instructions = 2 := by
    rw [counted, once]
    rfl
  have short : runFor 1 (stoppable memory) = (.ok 1, (stoppable memory).after 1) :=
    run_for_of_stopped (stoppable memory) 1 ends (by decide) stopped
  have long : runFor (1 + 1) (stoppable memory) = (.ok 1, (stoppable memory).after 1) :=
    run_for_of_stopped (stoppable memory) (1 + 1) ends (by decide) stopped
  rw [short, long, run_for_one]
  refine ⟨rfl, ?_⟩
  intro same
  have counters := congrArg Session.instructions same
  simp only [once, twice] at counters
  exact absurd counters (by decide)

/-- Two runs of one instruction execute the NOP behind the stop; one run of two does not. -/
theorem run_goes_on_after_stop :
    let contents : Word → Byte := fun address =>
      if address = 0 then 0xFF else if address = 1 then 0x01 else 0xEA
    let session := stoppable (FlatMemory.ofFn contents)
    (1 : UInt64).toNat + (1 : UInt64).toNat < UInt64.size ∧
      (runFor 1 session).1 = .ok 1 ∧
      (runFor (1 + 1) session).2 ≠ (runFor 1 (runFor 1 session).2).2 := by
  intro contents session
  exact ⟨by decide, stoppable_goes_on (FlatMemory.get_of_fn contents 0)
    (FlatMemory.get_of_fn contents 1) (FlatMemory.get_of_fn contents 2)⟩

/-- Both loops end with the instruction that asks for the stop. -/
theorem stoppable_runs_once :
    let contents : Word → Byte := fun address =>
      if address = 0 then 0xFF else if address = 1 then 0x01 else 0xEA
    let session := stoppable (FlatMemory.ofFn contents)
    session.EndsAt 0 ∧ session.outcome 0 = .ok .stopped ∧
      runFor 5 session = (.ok 1, session.after 1) ∧
      run 2 session = (some (.ok 1), session.after 1) := by
  intro contents session
  obtain ⟨ends, stopped, -⟩ := stoppable_ends_at_once (FlatMemory.get_of_fn contents 0)
    (FlatMemory.get_of_fn contents 1)
  obtain ⟨-, ended, -⟩ := runs_are_iterated_steps session
  obtain ⟨limited, -, unlimited⟩ := ended 5 0 ends (by decide)
  have one : UInt64.ofNat (0 + 1) = 1 := rfl
  have counted := limited stopped
  have same := unlimited 2 (by decide)
  rw [one, Nat.zero_add] at counted
  rw [counted] at same
  dsimp only at same
  exact ⟨ends, stopped, counted, same⟩

end Nmos6502.Session
