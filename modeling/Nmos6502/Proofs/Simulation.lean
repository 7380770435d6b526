import Mathlib.Data.List.Forall2
import Nmos6502.Proofs.History

/-!
Two sessions side by side. A relation that steps keep, returning the same on both sides, is kept
by runs, with the same count or trap, and by every history whose other calls keep it too. One such
relation forgets of the hooks all that they do not need to answer.
-/

namespace Nmos6502.Session

/-- The actions return the same for both sessions and leave them related. -/
def Agree {M H O N G P Value : Type} (Related : Session M H O → Session N G P → Prop)
    (first : SessionM M H O Value) (second : SessionM N G P Value) : Prop :=
  ∀ left right, Related left right →
    (first left).1 = (second right).1 ∧ Related (first left).2 (second right).2

/-- What is the same for related sessions is the same along related lists of them. -/
theorem filter_map_of_related {Left Right Value : Type} {Related : Left → Right → Prop}
    {first : Left → Option Value} {second : Right → Option Value}
    (alike : ∀ left right, Related left right → first left = second right)
    {lefts : List Left} {rights : List Right} (related : List.Forall₂ Related lefts rights) :
    lefts.filterMap first = rights.filterMap second := by
  induction related with
  | nil => rfl
  | cons head tail induction =>
      rw [List.filterMap_cons, List.filterMap_cons, alike _ _ head, induction]

variable {M H O : Type} [Bus M] [ExtensionHandler H] [TraceObserver O]

section Runs

variable {N G P : Type} [Bus N] [ExtensionHandler G] [TraceObserver P]
variable {Related : Session M H O → Session N G P → Prop}

/-- The two runs end alike, count alike and take their steps from related sessions. -/
structure RunsAlike (Related : Session M H O → Session N G P → Prop) (limit : Nat)
    (left : Session M H O) (right : Session N G P) : Prop where
  result : (advance limit left).1 = (advance limit right).1
  next : Related (advance limit left).2 (advance limit right).2
  counted : (advance limit left).2.instructions - left.instructions =
    (advance limit right).2.instructions - right.instructions
  starts : List.Forall₂ Related (advanceStarts limit left) (advanceStarts limit right)

/-- Nothing more is asked of a relation that only steps of one kind keep, if the run on the left
takes steps of that kind only. -/
theorem runs_alike_while {Allowed : Session M H O → Prop}
    (steps : ∀ left right, Related left right → Allowed left →
      (step left).1 = (step right).1 ∧ Related (step left).2 (step right).2)
    (limit : Nat) (left : Session M H O) (right : Session N G P) (related : Related left right)
    (allowed : ∀ start ∈ advanceStarts limit left, Allowed start) :
    RunsAlike Related limit left right := by
  induction limit generalizing left right with
  | zero =>
      have still : left.instructions - left.instructions =
          right.instructions - right.instructions := by
        rw [UInt64.sub_self, UInt64.sub_self]
      exact ⟨rfl, related, still, .nil⟩
  | succ limit induction =>
      have leftCounted := step_counts left
      have rightCounted := step_counts right
      obtain ⟨same, next⟩ := steps left right related (allowed left List.mem_cons_self)
      rcases leftTaken : step left with ⟨result, leftNext⟩
      rcases rightTaken : step right with ⟨other, rightNext⟩
      simp only [leftTaken, rightTaken] at same next leftCounted rightCounted
      subst same
      rcases result with trap | progress
      · constructor <;> simp only [advance, advanceStarts, leftTaken, rightTaken]
        · exact next
        · rw [leftCounted, rightCounted, UInt64.sub_self, UInt64.sub_self]
        · exact .cons related .nil
      · cases progress with
        | stopped =>
            constructor <;> simp only [advance, advanceStarts, leftTaken, rightTaken]
            · exact next
            · rw [leftCounted, rightCounted]
              grind
            · exact .cons related .nil
        | running =>
            have later := induction leftNext rightNext next fun start member => by
              apply allowed start
              simp only [advanceStarts, leftTaken]
              exact List.mem_cons_of_mem left member
            constructor <;> simp only [advance, advanceStarts, leftTaken, rightTaken]
            · exact later.result
            · exact later.next
            · -- One more on both sides than the induction counts.
              have rest := later.counted
              simp only [leftCounted, rightCounted] at rest
              grind
            · exact .cons related later.starts

theorem runs_alike (steps : Agree Related step step) (limit : Nat) (left : Session M H O)
    (right : Session N G P) (related : Related left right) : RunsAlike Related limit left right :=
  runs_alike_while (fun left right related (_ : True) => steps left right related) limit left right
    related fun _ _ => trivial

theorem run_for_alike {limit : UInt64} {left : Session M H O} {right : Session N G P}
    (alike : RunsAlike Related limit.toNat left right) :
    (runFor limit left).1 = (runFor limit right).1 ∧
      Related (runFor limit left).2 (runFor limit right).2 := by
  obtain ⟨result, next, counted, -⟩ := alike
  rw [run_for_run, run_for_run]
  rcases leftTaken : advance limit.toNat left with ⟨ended, leftNext⟩
  rcases rightTaken : advance limit.toNat right with ⟨other, rightNext⟩
  simp only [leftTaken, rightTaken] at result next counted
  subst result
  cases ended with
  | error trap => exact ⟨rfl, next⟩
  | ok progress => exact ⟨congrArg Except.ok counted, next⟩

theorem run_alike {fuel : Nat} {left : Session M H O} {right : Session N G P}
    (alike : RunsAlike Related fuel left right) :
    (run fuel left).1 = (run fuel right).1 ∧ Related (run fuel left).2 (run fuel right).2 := by
  obtain ⟨result, next, counted, -⟩ := alike
  rw [run_run, run_run]
  rcases leftTaken : advance fuel left with ⟨ended, leftNext⟩
  rcases rightTaken : advance fuel right with ⟨other, rightNext⟩
  simp only [leftTaken, rightTaken] at result next counted
  subst result
  rcases ended with trap | progress
  · exact ⟨rfl, next⟩
  · cases progress with
    | running => exact ⟨rfl, next⟩
    | stopped => exact ⟨congrArg (fun count => some (Except.ok count)) counted, next⟩

/-- The calls return the same for both sessions and leave them related. -/
def CallsAlike (Related : Session M H O → Session N G P → Prop) (first : Call M H O)
    (second : Call N G P) (left : Session M H O) (right : Session N G P) : Prop :=
  (perform first left).1 = (perform second right).1 ∧
    Related (perform first left).2 (perform second right).2

theorem perform_step_alike {left : Session M H O} {right : Session N G P}
    (alike : RunsAlike Related 1 left right) : CallsAlike Related .step .step left right := by
  obtain ⟨result, next, -⟩ := alike
  rw [advance_one, advance_one] at result next
  exact ⟨congrArg Reply.progress result, next⟩

theorem perform_run_alike {fuel : Nat} {left : Session M H O} {right : Session N G P}
    (alike : RunsAlike Related fuel left right) :
    CallsAlike Related (.run fuel) (.run fuel) left right := by
  obtain ⟨same, next⟩ := run_alike alike
  rw [CallsAlike, perform, perform, bind_run, bind_run]
  rcases leftTaken : run fuel left with ⟨ended, leftNext⟩
  rcases rightTaken : run fuel right with ⟨other, rightNext⟩
  simp only [leftTaken, rightTaken] at same next
  subst same
  cases ended with
  | none => exact ⟨rfl, next⟩
  | some result => exact ⟨rfl, next⟩

theorem perform_run_for_alike {limit : UInt64} {left : Session M H O} {right : Session N G P}
    (alike : RunsAlike Related limit.toNat left right) :
    CallsAlike Related (.runFor limit) (.runFor limit) left right := by
  obtain ⟨same, next⟩ := run_for_alike alike
  exact ⟨congrArg Reply.count same, next⟩

/-- A relation that only steps of one kind keep is kept as long as the left session takes such
steps. -/
theorem after_agrees_while {Allowed : Session M H O → Prop}
    (steps : ∀ left right, Related left right → Allowed left →
      (step left).1 = (step right).1 ∧ Related (step left).2 (step right).2)
    {left : Session M H O} {right : Session N G P} (related : Related left right) (count : Nat)
    (allowed : ∀ index < count, Allowed (left.after index)) :
    (∀ index < count, left.outcome index = right.outcome index) ∧
      ∀ index ≤ count, Related (left.after index) (right.after index) := by
  have states : ∀ index ≤ count, Related (left.after index) (right.after index) := by
    intro index within
    induction index with
    | zero => exact related
    | succ index induction =>
        have before := induction (Nat.le_of_succ_le within)
        exact (steps _ _ before (allowed index within)).2
  refine ⟨?_, states⟩
  intro index below
  exact (steps _ _ (states index (Nat.le_of_lt below)) (allowed index below)).1

theorem after_agrees (steps : Agree Related step step) {left : Session M H O}
    {right : Session N G P} (related : Related left right) :
    (∀ index, left.outcome index = right.outcome index) ∧
      ∀ index, Related (left.after index) (right.after index) := by
  have alike (count : Nat) := after_agrees_while
    (fun left right related (_ : True) => steps left right related) related count
    fun _ _ => trivial
  constructor
  · intro index
    exact (alike (index + 1)).1 index (Nat.lt_succ_self index)
  · intro index
    exact (alike index).2 index (Nat.le_refl index)

end Runs

section Histories

variable {Related : Session M H O → Session M H O → Prop}

theorem perform_stepping_alike {call : Call M H O} {limit : Nat}
    (stepping : call.stepLimit = some limit) {left right : Session M H O}
    (alike : RunsAlike Related limit left right) : CallsAlike Related call call left right := by
  cases call with
  | step =>
      have same : 1 = limit := Option.some.inj stepping
      exact perform_step_alike (same ▸ alike)
  | run fuel =>
      have same : fuel = limit := Option.some.inj stepping
      exact perform_run_alike (same ▸ alike)
  | runFor count =>
      have same : count.toNat = limit := Option.some.inj stepping
      exact perform_run_for_alike (same ▸ alike)
  | _ => cases stepping

variable {calls : List (Call M H O)}

/-- The two histories return the same and take their steps from related sessions. -/
structure HistoriesAlike (Related : Session M H O → Session M H O → Prop)
    (calls : List (Call M H O)) (left right : Session M H O) : Prop where
  replies : (performAll calls left).1 = (performAll calls right).1
  last : Related (performAll calls left).2 (performAll calls right).2
  starts : List.Forall₂ Related (stepStarts calls left) (stepStarts calls right)

theorem histories_alike_while {Allowed : Session M H O → Prop}
    (steps : ∀ left right, Related left right → Allowed left →
      (step left).1 = (step right).1 ∧ Related (step left).2 (step right).2)
    (idle : ∀ call ∈ calls, call.stepLimit = none → Agree Related (perform call) (perform call))
    (left right : Session M H O) (related : Related left right)
    (allowed : ∀ start ∈ stepStarts calls left, Allowed start) :
    HistoriesAlike Related calls left right := by
  induction calls generalizing left right with
  | nil => exact ⟨rfl, related, .nil⟩
  | cons call rest induction =>
      -- The first call takes the first of the steps, and all of them are of the allowed kind.
      have first : CallsAlike Related call call left right ∧
          List.Forall₂ Related (stepStarts [call] left) (stepStarts [call] right) := by
        cases limited : call.stepLimit with
        | none =>
            refine ⟨idle call List.mem_cons_self limited left right related, ?_⟩
            simp [stepStarts, limited]
        | some limit =>
            have alike := runs_alike_while steps limit left right related fun start member => by
              apply allowed start
              rw [stepStarts, limited]
              exact List.mem_append_left _ member
            refine ⟨perform_stepping_alike limited alike, ?_⟩
            simpa [stepStarts, limited] using alike.starts
      obtain ⟨⟨same, next⟩, starts⟩ := first
      have later := induction (fun other member => idle other (List.mem_cons_of_mem call member))
        _ _ next fun start member => allowed start (List.mem_append_right _ member)
      have split (session : Session M H O) : stepStarts (call :: rest) session =
          stepStarts [call] session ++ stepStarts rest (perform call session).2 := by
        simp [stepStarts]
      constructor
      · rw [perform_all_cons, perform_all_cons]
        exact congrArg₂ List.cons same later.replies
      · rw [perform_all_cons, perform_all_cons]
        exact later.last
      · rw [split, split]
        exact List.rel_append starts later.starts

theorem histories_alike (steps : Agree Related step step)
    (idle : ∀ call ∈ calls, call.stepLimit = none → Agree Related (perform call) (perform call))
    (left right : Session M H O) (related : Related left right) :
    HistoriesAlike Related calls left right :=
  histories_alike_while (fun left right related (_ : True) => steps left right related) idle left
    right related fun _ _ => trivial

theorem perform_all_agrees (steps : Agree Related step step)
    (idle : ∀ call ∈ calls, call.stepLimit = none → Agree Related (perform call) (perform call)) :
    Agree Related (performAll calls) (performAll calls) := by
  intro left right related
  have alike := histories_alike steps idle left right related
  exact ⟨alike.replies, alike.last⟩

theorem step_starts_related (steps : Agree Related step step)
    (idle : ∀ call ∈ calls, call.stepLimit = none → Agree Related (perform call) (perform call))
    (left right : Session M H O) (related : Related left right) :
    List.Forall₂ Related (stepStarts calls left) (stepStarts calls right) :=
  (histories_alike steps idle left right related).starts

end Histories

section Hooks

variable {G P : Type} {forgetHandler : H → G} {forgetObserver : O → P}

/-- The session with each hook replaced by what the functions make of it. -/
def mapHooks (forgetHandler : H → G) (forgetObserver : O → P) (session : Session M H O) :
    Session M G P :=
  { session with
    handler := session.handler.map forgetHandler
    observer := session.observer.map forgetObserver }

variable [ExtensionHandler G] [TraceObserver P]

/-- What the functions forget of the hooks is not needed to answer a call or to take a snapshot. -/
structure HooksForget (forgetHandler : H → G) (forgetObserver : O → P) : Prop where
  call (operation accumulator : Byte) (handler : H) :
    ExtensionHandler.call operation accumulator (forgetHandler handler) =
      ((ExtensionHandler.call operation accumulator handler).1,
        forgetHandler (ExtensionHandler.call operation accumulator handler).2)
  stop (handler : H) : ExtensionHandler.stopRequested (forgetHandler handler) =
    ExtensionHandler.stopRequested handler
  observe (snapshot : Snapshot) (observer : O) :
    TraceObserver.observe snapshot (forgetObserver observer) =
      forgetObserver (TraceObserver.observe snapshot observer)

omit [ExtensionHandler H] [ExtensionHandler G] in
theorem fetched_map_hooks
    (observe : ∀ (snapshot : Snapshot) (observer : O),
      TraceObserver.observe snapshot (forgetObserver observer) =
        forgetObserver (TraceObserver.observe snapshot observer))
    (session : Session M H O) :
    (session.mapHooks forgetHandler forgetObserver).fetched =
      session.fetched.mapHooks forgetHandler forgetObserver := by
  rcases session with ⟨processor, config, tracing, _, _, _, observer, _, _⟩
  cases tracing with
  | false => rfl
  | true =>
      cases observer with
      | none => rfl
      | some observer =>
          simp only [fetched, mapHooks, observerAtFetch, Option.map_some, if_true, observe]
          rfl

/-- Nothing else of a step shows what the hooks are. -/
theorem step_map_hooks (forget : HooksForget forgetHandler forgetObserver) :
    Agree (fun (left : Session M H O) right => left.mapHooks forgetHandler forgetObserver = right)
      step step := by
  rintro session mapped rfl
  have fetching : (session.mapHooks forgetHandler forgetObserver).fetched =
      session.fetched.mapHooks forgetHandler forgetObserver :=
    fetched_map_hooks forget.observe session
  cases step_kind session with
  | halted trap halted =>
      rw [step_of_halted session trap halted,
        step_of_halted (session.mapHooks forgetHandler forgetObserver) trap halted]
      exact ⟨rfl, rfl⟩
  | illegal running decoded =>
      rw [step_of_illegal session running decoded,
        step_of_illegal (session.mapHooks forgetHandler forgetObserver) running decoded, fetching]
      exact ⟨rfl, rfl⟩
  | official running mnemonic mode decoded =>
      rw [step_of_official session running decoded,
        step_of_official (session.mapHooks forgetHandler forgetObserver) running decoded, fetching]
      exact ⟨rfl, rfl⟩
  | toggle running decoded toggle =>
      rw [step_of_toggle session running decoded toggle,
        step_of_toggle (session.mapHooks forgetHandler forgetObserver) running decoded
          (fetching ▸ toggle), fetching]
      exact ⟨rfl, rfl⟩
  | unanswered running decoded operation detached =>
      have still : (session.mapHooks forgetHandler forgetObserver).handler = none :=
        congrArg (Option.map forgetHandler) detached
      rw [step_of_unanswered session running decoded operation detached,
        step_of_unanswered (session.mapHooks forgetHandler forgetObserver) running decoded
          (fetching ▸ operation) still, fetching]
      exact ⟨rfl, rfl⟩
  | answered running decoded operation handler attached =>
      have still : (session.mapHooks forgetHandler forgetObserver).handler =
          some (forgetHandler handler) := congrArg (Option.map forgetHandler) attached
      rw [step_of_answered session running decoded operation attached,
        step_of_answered (session.mapHooks forgetHandler forgetObserver) running decoded
          (fetching ▸ operation) still, fetching]
      dsimp only
      rw [forget.call, forget.stop]
      exact ⟨rfl, rfl⟩

end Hooks

end Nmos6502.Session
