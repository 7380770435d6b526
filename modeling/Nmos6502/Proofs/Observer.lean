import Mathlib.Logic.Function.Iterate
import Nmos6502.Proofs.Extension
import Nmos6502.Proofs.Halt

/-!
What an observer is shown over whole histories. An observer that keeps what it is shown, put in
front of any other one, changes no history. It keeps one snapshot for each step that begins with
tracing on, and the switch is where the host left it, but for the instructions that turn it over.
-/

namespace Nmos6502

/-- An observer that keeps what it is shown and passes it on to another one. -/
structure Watched (O : Type) where
  seen : List Snapshot := []
  observer : O

instance {O : Type} [TraceObserver O] : TraceObserver (Watched O) where
  observe snapshot watched :=
    { seen := watched.seen ++ [snapshot]
      observer := TraceObserver.observe snapshot watched.observer }

/-- The call for a session whose observers are watched. -/
def Call.watched {M H O : Type} : Call M H O → Call M H (Watched O)
  | .step => .step
  | .run fuel => .run fuel
  | .runFor limit => .runFor limit
  | .setA value => .setA value
  | .setX value => .setX value
  | .setY value => .setY value
  | .setSP value => .setSP value
  | .setPC address => .setPC address
  | .setStatus status => .setStatus status
  | .setFlags flags => .setFlags flags
  | .setFlag flag value => .setFlag flag value
  | .setTracing on => .setTracing on
  | .attachObserver observer => .attachObserver { observer := observer }
  | .detachObserver => .detachObserver
  | .attachHandler handler => .attachHandler handler
  | .detachHandler => .detachHandler
  | .readByte address => .readByte address
  | .readWord address => .readWord address
  | .readZeroPageWord address => .readZeroPageWord address
  | .write address value => .write address value
  | .patch change => .patch change

theorem Call.watched_step_limit {M H O : Type} (call : Call M H O) :
    call.watched.stepLimit = call.stepLimit := by
  cases call <;> rfl

namespace Session

variable {M H O : Type}

/-- The session with a fresh record in front of its observer. -/
def watched (session : Session M H O) : Session M H (Watched O) :=
  { session with observer := session.observer.map fun observer => { observer := observer } }

/-- The session with the observer behind the record in place of the record. -/
def unwatched (session : Session M H (Watched O)) : Session M H O :=
  { session with observer := session.observer.map Watched.observer }

/-- What the attached observer has been shown so far. -/
def seen (session : Session M H (Watched O)) : List Snapshot :=
  match session.observer with
  | some watched => watched.seen
  | none => []

theorem watched_unwatched (session : Session M H O) : session.watched.unwatched = session := by
  rcases session with ⟨_, _, _, _, _, _, _ | observer, _, _⟩ <;> rfl

theorem watched_seen (session : Session M H O) : session.watched.seen = [] := by
  rcases session with ⟨_, _, _, _, _, _, _ | observer, _, _⟩ <;> rfl

variable [Bus M]

/-- What an observer is shown of the step that begins here. -/
def snapshot? (session : Session M H O) : Option Snapshot :=
  if session.halted = none ∧ session.tracing ∧ session.observer.isSome then
    some (Snapshot.ofRegisters session.registers (Bus.read session.registers.pc session.bus).1)
  else none

theorem snapshot_of_halted (session : Session M H O) {trap : Trap}
    (halted : session.halted = some trap) : session.snapshot? = none := by
  simp [snapshot?, halted]

theorem snapshot_of_traced (session : Session M H O) (running : session.halted = none)
    (traced : session.tracing) (observed : session.observer.isSome) :
    session.snapshot? = some
      (Snapshot.ofRegisters session.registers (Bus.read session.registers.pc session.bus).1) :=
  if_pos ⟨running, traced, observed⟩

theorem snapshot_unwatched (session : Session M H (Watched O)) :
    session.snapshot? = session.unwatched.snapshot? := by
  have attached : session.unwatched.observer.isSome = session.observer.isSome :=
    Option.isSome_map
  rw [snapshot?, snapshot?, attached]
  rfl

/-- The opcode in a snapshot is the one that the step decodes, also where it traps. -/
theorem snapshot_opcode [TraceObserver O] [ExtensionHandler H] (quiet : Bus.Quiet M)
    (session : Session M H O) {snapshot : Snapshot} (shown : session.snapshot? = some snapshot) :
    snapshot = Snapshot.ofRegisters session.registers session.fetchedOpcode ∧
      ∀ trap, (step session).1 = .error trap →
        trap = .illegalOpcode snapshot.opcode snapshot.pc := by
  have same : snapshot = Snapshot.ofRegisters session.registers session.fetchedOpcode := by
    rw [snapshot?] at shown
    split at shown
    · rw [fetchedOpcode, bus_at_fetch_of_quiet quiet]
      exact (Option.some.inj shown).symm
    · cases shown
  refine ⟨same, ?_⟩
  intro trap failed
  cases halted : session.halted with
  | some earlier =>
      rw [snapshot_of_halted session halted] at shown
      cases shown
  | none =>
      by_cases illegal : session.instruction = .illegal
      · rw [step_of_illegal session halted illegal] at failed
        rw [same]
        exact (Except.error.inj failed).symm
      · obtain ⟨progress, succeeded⟩ := (step_ok_iff_legal session halted).mpr illegal
        rw [succeeded] at failed
        cases failed

variable [TraceObserver O]

/-- The step turns the trace switch over. -/
def togglesTracing (session : Session M H O) : Bool :=
  session.halted = none ∧ session.fetchedOpcode = 0xFF ∧ session.fetched.fetchedOperation = 0xFF

theorem toggles_of_toggle (session : Session M H O) (running : session.halted = none)
    (decoded : session.instruction = .extension)
    (toggle : session.fetched.fetchedOperation = traceToggle) : session.togglesTracing := by
  have opcode := (extension_iff_opcode session).mp decoded
  exact decide_eq_true ⟨running, opcode, toggle⟩

theorem toggles_of_halted (session : Session M H O) {trap : Trap}
    (halted : session.halted = some trap) : session.togglesTracing = false := by
  simp [togglesTracing, halted]

theorem toggles_of_other (session : Session M H O) (other : session.instruction ≠ .extension) :
    session.togglesTracing = false := by
  rw [ne_eq, extension_iff_opcode] at other
  simp [togglesTracing, other]

theorem toggles_of_passed (session : Session M H O)
    (passed : session.fetched.fetchedOperation ≠ traceToggle) :
    session.togglesTracing = false := by
  rw [traceToggle] at passed
  simp [togglesTracing, passed]

variable [ExtensionHandler H]

/-- Nothing else in the program turns it over. -/
theorem tracing_of_step (session : Session M H O) :
    (step session).2.tracing =
      if session.togglesTracing then !session.tracing else session.tracing := by
  cases step_kind session with
  | halted trap halted =>
      rw [step_of_halted session trap halted, toggles_of_halted session halted]
      rfl
  | illegal running decoded =>
      rw [step_of_illegal session running decoded, toggles_of_other session (by simp [decoded])]
      rfl
  | official running mnemonic mode decoded =>
      rw [step_of_official session running decoded, toggles_of_other session (by simp [decoded])]
      rfl
  | toggle running decoded toggle =>
      rw [step_of_toggle session running decoded toggle,
        toggles_of_toggle session running decoded toggle]
      rfl
  | unanswered running decoded operation detached =>
      rw [step_of_unanswered session running decoded operation detached,
        toggles_of_passed session operation]
      rfl
  | answered running decoded operation handler attached =>
      rw [step_of_answered session running decoded operation attached,
        toggles_of_passed session operation]
      rfl

theorem toggle_observed_iff (session : Session M H O) (toggles : session.togglesTracing)
    (observed : session.observer.isSome) :
    session.snapshot?.isSome ↔ (step session).2.tracing = false := by
  obtain ⟨running, -⟩ := of_decide_eq_true toggles
  rw [tracing_of_step, if_pos toggles]
  cases traced : session.tracing with
  | false => simp [snapshot?, traced]
  | true => simp [snapshot_of_traced session running traced observed]

omit [Bus M] [TraceObserver O] [ExtensionHandler H] in
theorem unwatched_eq (session : Session M H (Watched O)) :
    session.unwatched = session.mapHooks id Watched.observer := by
  rcases session with ⟨_, _, _, _, _, _, _, _ | handler, _⟩ <;> rfl

/-- To keep the snapshots changes nothing else. -/
theorem step_unwatched :
    Agree (fun (watched : Session M H (Watched O)) plain => watched.unwatched = plain)
      step step := by
  have forget : HooksForget (id : H → H) (Watched.observer : Watched O → O) :=
    ⟨fun _ _ _ => rfl, fun _ => rfl, fun _ _ => rfl⟩
  simp only [unwatched_eq]
  exact step_map_hooks forget

theorem perform_unwatched (call : Call M H O) :
    Agree (fun (watched : Session M H (Watched O)) plain => watched.unwatched = plain)
      (perform call.watched) (perform call) := by
  intro watched plain same
  have alike (limit : Nat) := runs_alike step_unwatched limit watched plain same
  cases call with
  | step => exact perform_step_alike (alike 1)
  | run fuel => exact perform_run_alike (alike fuel)
  | runFor limit => exact perform_run_for_alike (alike limit.toNat)
  | _ =>
      subst same
      exact ⟨rfl, rfl⟩

theorem perform_all_unwatched (calls : List (Call M H O)) :
    Agree (fun (watched : Session M H (Watched O)) plain => watched.unwatched = plain)
      (performAll (calls.map Call.watched)) (performAll calls) := by
  induction calls with
  | nil => exact fun watched plain same => ⟨rfl, same⟩
  | cons call rest induction =>
      intro watched plain same
      obtain ⟨reply, next⟩ := perform_unwatched call watched plain same
      obtain ⟨replies, last⟩ := induction _ _ next
      rw [List.map_cons, perform_all_cons, perform_all_cons]
      exact ⟨congrArg₂ List.cons reply replies, last⟩

theorem observer_of_step (session : Session M H O) :
    (step session).2.observer =
      if session.halted = none then session.observerAtFetch else session.observer := by
  cases step_kind session with
  | halted trap halted =>
      rw [step_of_halted session trap halted]
      simp [halted]
  | illegal running decoded =>
      rw [step_of_illegal session running decoded, if_pos running]
      rfl
  | official running mnemonic mode decoded =>
      rw [step_of_official session running decoded, if_pos running]
      rfl
  | toggle running decoded toggle =>
      rw [step_of_toggle session running decoded toggle, if_pos running]
      rfl
  | unanswered running decoded operation detached =>
      rw [step_of_unanswered session running decoded operation detached, if_pos running]
      rfl
  | answered running decoded operation handler attached =>
      rw [step_of_answered session running decoded operation attached, if_pos running]
      rfl

theorem seen_of_step (session : Session M H (Watched O)) :
    (step session).2.seen = session.seen ++ session.snapshot?.toList := by
  rw [seen, observer_of_step, seen, observerAtFetch]
  cases halted : session.halted with
  | some trap => simp [snapshot_of_halted session halted]
  | none =>
      cases traced : session.tracing with
      | false => simp [snapshot?, traced]
      | true =>
          cases attached : session.observer with
          | none => simp [snapshot?, attached]
          | some watched =>
              have observed : session.observer.isSome := by simp [attached]
              rw [snapshot_of_traced session halted traced observed]
              rfl

theorem seen_of_run (session : Session M H (Watched O)) (limit : Nat) :
    (advance limit session).2.seen =
      session.seen ++ (advanceStarts limit session.unwatched).filterMap snapshot? := by
  have starts := (runs_alike step_unwatched limit session _ rfl).starts
  have alike (left : Session M H (Watched O)) (right : Session M H O)
      (same : left.unwatched = right) : left.snapshot? = right.snapshot? :=
    (snapshot_unwatched left).trans (congrArg snapshot? same)
  rw [← filter_map_of_related alike starts, List.filterMap_eq_flatMap_toList]
  exact advance_accumulates seen_of_step limit session

/-- What observers are shown during a history, call by call. Each call begins with nothing on
record. -/
def shown : List (Call M H O) → Session M H O → List Snapshot
  | [], _ => []
  | call :: rest, session =>
      (perform call.watched session.watched).2.seen ++ shown rest (perform call session).2

theorem shown_of_idle {call : Call M H O} (idle : call.stepLimit = none)
    (session : Session M H O) : (perform call.watched session.watched).2.seen = [] := by
  cases call with
  | step | run _ | runFor _ => cases idle
  | attachObserver observer | detachObserver => rfl
  | _ => exact watched_seen session

theorem shown_of_history (calls : List (Call M H O)) (session : Session M H O) :
    shown calls session = (stepStarts calls session).filterMap snapshot? := by
  induction calls generalizing session with
  | nil => rfl
  | cons call rest induction =>
      rw [shown, stepStarts, List.filterMap_append, induction]
      congr 1
      cases limited : call.stepLimit with
      | none => exact shown_of_idle limited session
      | some limit =>
          rw [perform_stepping (call.watched_step_limit.trans limited), seen_of_run, watched_seen,
            watched_unwatched]
          rfl

theorem shown_append (earlier later : List (Call M H O)) (session : Session M H O) :
    shown (earlier ++ later) session =
      shown earlier session ++ shown later (performAll earlier session).2 := by
  induction earlier generalizing session with
  | nil => rfl
  | cons call rest induction =>
      rw [List.cons_append, shown, shown, induction, List.append_assoc, perform_all_cons]

theorem step_starts_of_halted (session : Session M H O) {trap : Trap}
    (halted : session.halted = some trap) (calls : List (Call M H O)) :
    ∀ start ∈ stepStarts calls session, start.halted = some trap := by
  induction calls generalizing session with
  | nil => simp [stepStarts]
  | cons call rest induction =>
      have still : (perform call session).2.halted = some trap :=
        (ended_of_history session halted [call]).1
      intro start member
      rcases List.mem_append.mp member with here | later
      · cases limited : call.stepLimit with
        | none => simp [limited] at here
        | some limit =>
            cases limit with
            | zero => simp [limited, advanceStarts] at here
            | succ limit =>
                have only : start = session := by
                  simpa [limited, advanceStarts, step_of_halted session trap halted] using here
                rw [only]
                exact halted
      · exact induction _ still start later

/-- An ended session shows nothing. -/
theorem shown_of_halted (session : Session M H O) {trap : Trap}
    (halted : session.halted = some trap) (calls : List (Call M H O)) :
    shown calls session = [] := by
  rw [shown_of_history, List.filterMap_eq_nil_iff]
  intro start member
  exact snapshot_of_halted start (step_starts_of_halted session halted calls start member)

/-- How often the steps of a history turn the trace switch over. -/
def toggles (calls : List (Call M H O)) (session : Session M H O) : Nat :=
  (stepStarts calls session).countP togglesTracing

omit [ExtensionHandler H] in
theorem fold_toggles (starts : List (Session M H O)) (on : Bool) :
    starts.foldl (fun on start => if start.togglesTracing then !on else on) on =
      not^[starts.countP togglesTracing] on := by
  induction starts generalizing on with
  | nil => rfl
  | cons start rest induction =>
      rw [List.foldl_cons, induction, List.countP_cons]
      cases start.togglesTracing with
      | false => rfl
      | true => rw [if_pos rfl, if_pos rfl, Function.iterate_succ_apply]

theorem tracing_of_history (calls : List (Call M H O))
    (untraced : ∀ call ∈ calls, ∀ on, call ≠ .setTracing on) (session : Session M H O) :
    (performAll calls session).2.tracing = not^[toggles calls session] session.tracing := by
  rw [toggles, ← fold_toggles]
  apply perform_all_folds tracing_of_step
  intro call member idle before
  cases call with
  | step | run _ | runFor _ => cases idle
  | setTracing on => exact absurd rfl (untraced _ member on)
  | _ => rfl

/-- Where the trace switch stands during a history. -/
structure SwitchKept (calls : List (Call M H O)) (session : Session M H O) : Prop where
  started : ∀ bus pc config, session = start bus pc config →
    (∀ call ∈ calls, ∀ on, call ≠ .setTracing on) →
    (performAll calls session).2.tracing = not^[toggles calls session] config.tracing
  given : ∀ earlier on later, calls = earlier ++ .setTracing on :: later →
    (∀ call ∈ later, ∀ other, call ≠ .setTracing other) →
    (performAll calls session).2.tracing =
      not^[toggles later (performAll (earlier ++ [.setTracing on]) session).2] on
  step : ∀ start ∈ stepStarts calls session, (step start).2.tracing =
    if start.togglesTracing then !start.tracing else start.tracing

theorem switch_kept (calls : List (Call M H O)) (session : Session M H O) :
    SwitchKept calls session := by
  constructor
  · rintro bus pc config rfl untraced
    exact tracing_of_history calls untraced (start bus pc config)
  · rintro earlier on later rfl untraced
    have given : (performAll (earlier ++ [.setTracing on]) session).2.tracing = on := by
      rw [perform_all_append]
      rfl
    have split : earlier ++ .setTracing on :: later = (earlier ++ [.setTracing on]) ++ later := by
      simp
    have later := tracing_of_history later untraced
      (performAll (earlier ++ [.setTracing on]) session).2
    rw [given] at later
    rw [split, perform_all_append]
    exact later
  · intro start member
    exact tracing_of_step start

/-- What observers are shown is the history of the session itself. To watch them changes no reply
and no state. They are shown one snapshot for each step that begins on a running session with
tracing on and an observer attached, in the order of the steps, up to the step that traps and
nothing from then on. The snapshot has the registers before the step and the opcode that the step
decodes. The switch stands as it was given last, turned over once for each toggle executed since
then, and of the toggles those are shown that turn it off. -/
theorem observers_are_shown_history (quiet : Bus.Quiet M) (session : Session M H O)
    (calls : List (Call M H O)) :
    (performAll (calls.map Call.watched) session.watched).1 = (performAll calls session).1 ∧
    (performAll (calls.map Call.watched) session.watched).2.unwatched =
      (performAll calls session).2 ∧
    shown calls session = (stepStarts calls session).filterMap snapshot? ∧
    (∀ start ∈ stepStarts calls session, ∀ snapshot, start.snapshot? = some snapshot →
      snapshot = Snapshot.ofRegisters start.registers start.fetchedOpcode ∧
        ∀ trap, (step start).1 = .error trap →
          trap = .illegalOpcode snapshot.opcode snapshot.pc) ∧
    (∀ earlier later trap, calls = earlier ++ later →
      (performAll earlier session).2.halted = some trap →
        shown calls session = shown earlier session) ∧
    SwitchKept calls session ∧
    ∀ start ∈ stepStarts calls session, start.togglesTracing → start.observer.isSome →
      (start.snapshot?.isSome ↔ (step start).2.tracing = false) := by
  obtain ⟨replies, last⟩ := perform_all_unwatched calls session.watched session
    (watched_unwatched session)
  refine ⟨replies, last, shown_of_history calls session, ?_, ?_, switch_kept calls session, ?_⟩
  · intro start member snapshot shown
    exact snapshot_opcode quiet start shown
  · rintro earlier later trap rfl halted
    rw [shown_append, shown_of_halted _ halted later, List.append_nil]
  · intro start member toggles observed
    exact toggle_observed_iff start toggles observed

/-- The first of two toggles is not shown, the second one is. -/
theorem second_toggle_is_shown :
    let fresh : Session FlatMemory Script (Array Snapshot) :=
      start (FlatMemory.ofFn fun _ => 0xFF) 0x0200 {}
    let session := (performAll [.attachObserver #[]] fresh).2
    shown [.step, .step] session =
      [{ pc := 0x0202, a := 0, x := 0, y := 0, sp := 0xFF, status := 0x3C, opcode := 0xFF }] := by
  intro fresh session
  obtain ⟨-, -, same, -⟩ :=
    observers_are_shown_history FlatMemory.reads_quietly session [.step, .step]
  have everywhere (address : Word) : session.bus.get address = 0xFF :=
    FlatMemory.get_of_fn (fun _ => 0xFF) address
  have opcode : session.fetchedOpcode = 0xFF := everywhere 0x0200
  have operation : session.fetched.fetchedOperation = traceToggle := everywhere 0x0201
  have decoded := (extension_iff_opcode session).mpr opcode
  have hidden : session.snapshot? = none := rfl
  rw [same, step_starts_step, step_starts_step, List.filterMap_cons_none hidden,
    step_of_toggle session rfl decoded operation]
  change [Snapshot.ofRegisters (Registers.start 0x0202) (session.bus.get 0x0202)] = _
  rw [everywhere]
  decide

end Session

end Nmos6502
