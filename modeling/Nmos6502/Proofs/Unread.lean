import Nmos6502.Session.Script
import Nmos6502.Proofs.Replay
import Nmos6502.Proofs.Simulation

/-!
A byte that is not read does not matter. Two plain memories that differ in one byte answer all
reads of other bytes alike, and writes do not make them differ in more. So steps that do not read
the byte go alike on both, and the first that writes it ends the difference.
-/

namespace Nmos6502

/-- The memories hold the same bytes, but for the one at the address. -/
def FlatMemory.AgreeBut (address : Word) (left right : FlatMemory) : Prop :=
  ∀ other, other ≠ address → left.get other = right.get other

namespace FlatMemory.AgreeBut

variable {address : Word} {left right : FlatMemory}

theorem set (agree : AgreeBut address left right) (target : Word) (value : Byte) :
    AgreeBut address (left.set target value) (right.set target value) := by
  intro other apart
  rw [get_set, get_set, agree other apart]

theorem of_set (memory : FlatMemory) (address : Word) (value : Byte) :
    AgreeBut address memory (memory.set address value) := by
  intro other apart
  rw [get_set_other memory value apart.symm]

/-- The write puts the same byte where the memories differed. -/
theorem written (agree : AgreeBut address left right) (value : Byte) :
    left.set address value = right.set address value := by
  apply ext_get
  intro other
  by_cases same : address = other
  · rw [← same, get_set_same, get_set_same]
  · rw [get_set_other left value same, get_set_other right value same]
    exact agree other (Ne.symm same)

end FlatMemory.AgreeBut

open FlatMemory (AgreeBut)

/-- Accesses that do not read the byte find the same answers on both memories. -/
theorem answered_unread {address : Word} {accesses : List Access}
    {left leftAfter right : FlatMemory} (answered : Answered accesses left leftAfter)
    (unread : ∀ value, Access.read address value ∉ accesses) (agree : AgreeBut address left right) :
    ∃ rightAfter, Answered accesses right rightAfter ∧ AgreeBut address leftAfter rightAfter ∧
      ((∃ value, Access.write address value ∈ accesses) ∨ left = right →
        leftAfter = rightAfter) := by
  induction accesses generalizing left right with
  | nil =>
      have same : leftAfter = left := answered
      refine ⟨right, rfl, same ▸ agree, ?_⟩
      rintro (⟨_, written⟩ | equal)
      · cases written
      · exact same.trans equal
  | cons access rest induction =>
      have later : ∀ value, Access.read address value ∉ rest :=
        fun value member => unread value (List.mem_cons_of_mem access member)
      cases access with
      | read target value =>
          obtain ⟨found, next⟩ := answered
          have other : target ≠ address := by
            intro same
            exact unread value (same ▸ List.mem_cons_self)
          obtain ⟨rightAfter, replayed, agreeAfter, equal⟩ := induction next later agree
          refine ⟨rightAfter, ⟨?_, replayed⟩, agreeAfter, ?_⟩
          · exact (agree target other).symm.trans found
          · rintro (⟨written, member⟩ | same)
            · rcases List.mem_cons.mp member with here | after
              · cases here
              · exact equal (Or.inl ⟨written, after⟩)
            · exact equal (Or.inr same)
      | write target value =>
          obtain ⟨rightAfter, replayed, agreeAfter, equal⟩ :=
            induction answered later (agree.set target value)
          refine ⟨rightAfter, replayed, agreeAfter, ?_⟩
          rintro (⟨written, member⟩ | same)
          · apply equal
            rcases List.mem_cons.mp member with here | after
            · right
              cases here
              exact agree.written value
            · exact Or.inl ⟨written, after⟩
          · exact equal (Or.inr (congrArg (FlatMemory.set · target value) same))

namespace Session

variable {H O : Type}

/-- The right session is the left one with another byte at the address. -/
structure AlikeBut (address : Word) (left right : Session FlatMemory H O) : Prop where
  session : right = left.withBus right.bus
  memory : AgreeBut address left.bus right.bus

variable [ExtensionHandler H] [TraceObserver O]

theorem step_alike_but {address : Word} {left right : Session FlatMemory H O}
    (alike : AlikeBut address left right)
    (unread : ∀ value, Access.read address value ∉ left.accesses) :
    (step left).1 = (step right).1 ∧ AlikeBut address (step left).2 (step right).2 ∧
      ((∃ value, Access.write address value ∈ left.accesses) →
        (step right).2 = (step left).2) := by
  obtain ⟨next, answered, agree, equal⟩ :=
    answered_unread left.accesses_answered unread alike.memory
  have recorded := step_recording FlatMemory.bytewise left
  have replayed := step_of_answers FlatMemory.bytewise left answered
  rw [alike.session, replayed, recorded]
  refine ⟨rfl, ⟨rfl, agree⟩, ?_⟩
  intro written
  rw [equal (Or.inl written)]

/-- Steps of which none reads the byte return the same and leave the same session, but for the
memory, if the byte is another one at the start. The memory differs in no other byte, and in none
once the byte has been written. Handler and observer are arbitrary and may keep whatever they are
told, so they too are told the same. -/
theorem unread_byte_does_not_matter (session : Session FlatMemory H O) (address : Word)
    (value : Byte) (count : Nat)
    (unread : ∀ index < count, ∀ found,
      Access.read address found ∉ (session.after index).accesses) :
    let changed := session.withBus (session.bus.set address value)
    (∀ index < count, changed.outcome index = session.outcome index) ∧
      (∀ index ≤ count,
        changed.after index = (session.after index).withBus (changed.after index).bus ∧
        ∀ other, other ≠ address →
          (changed.after index).bus.get other = (session.after index).bus.get other) ∧
      ((∃ index < count, ∃ written,
          Access.write address written ∈ (session.after index).accesses) →
        (changed.after count).bus = (session.after count).bus) := by
  intro changed
  have start : AlikeBut address session changed :=
    ⟨rfl, AgreeBut.of_set session.bus address value⟩
  have steps (left right : Session FlatMemory H O) (alike : AlikeBut address left right)
      (unread : ∀ found, Access.read address found ∉ left.accesses) :
      (step left).1 = (step right).1 ∧ AlikeBut address (step left).2 (step right).2 := by
    obtain ⟨same, next, -⟩ := step_alike_but alike unread
    exact ⟨same, next⟩
  obtain ⟨outcomes, states⟩ := after_agrees_while steps start count unread
  refine ⟨fun index below => (outcomes index below).symm, ?_, ?_⟩
  · intro index within
    obtain ⟨same, agree⟩ := states index within
    exact ⟨same, fun other apart => (agree other apart).symm⟩
  · rintro ⟨index, below, written⟩
    -- From the step that writes the byte on the two sessions are one.
    have healed : changed.after (index + 1) = session.after (index + 1) :=
      (step_alike_but (states index (Nat.le_of_lt below)) (unread index below)).2.2 written
    obtain ⟨rest, split⟩ := Nat.exists_eq_add_of_le below
    rw [split, after_add, healed, ← after_add]

/-- STA to a cell of page zero whatever the cell holds. -/
theorem store_goes_over_any_byte :
    let contents : Word → Byte := fun address => if address = 0x0200 then 0x85 else 0x10
    let session : Session FlatMemory Script (Array Snapshot) :=
      start (FlatMemory.ofFn contents) 0x0200 {}
    let changed := session.withBus (session.bus.set 0x0010 0x77)
    session.accesses = [.read 0x0200 0x85, .read 0x0201 0x10, .write 0x0010 0x00] ∧
      changed.outcome 0 = session.outcome 0 ∧ changed.after 1 = session.after 1 := by
  intro contents session changed
  have opcode : session.recording.fetchedOpcode = 0x85 := FlatMemory.get_of_fn contents 0x0200
  have decoded : session.recording.instruction = .official .sta .zeroPage := by
    rw [instruction, opcode, Instruction.decode_eq_of_code]
    decide +kernel
  have made : session.accesses = [.read 0x0200 0x85, .read 0x0201 0x10, .write 0x0010 0x00] := by
    have read : session.accesses = [.read 0x0200 (session.bus.get 0x0200),
        .read 0x0201 (session.bus.get 0x0201),
        .write (Word.zeroPage (session.bus.get 0x0201)) 0x00] := by
      rw [accesses, step_of_official session.recording rfl decoded]
      rfl
    have first : session.bus.get 0x0200 = 0x85 := FlatMemory.get_of_fn contents 0x0200
    have second : session.bus.get 0x0201 = 0x10 := FlatMemory.get_of_fn contents 0x0201
    rw [read, first, second]
    rfl
  have unread : ∀ index < 1, ∀ found,
      Access.read 0x0010 found ∉ (session.after index).accesses := by
    intro index below found
    rw [Nat.lt_one_iff.mp below, after, made]
    simp
  obtain ⟨outcomes, states, written⟩ :=
    unread_byte_does_not_matter session 0x0010 0x77 1 unread
  have healed : (changed.after 1).bus = (session.after 1).bus := by
    apply written
    refine ⟨0, Nat.one_pos, 0x00, ?_⟩
    rw [after, made]
    simp
  refine ⟨made, outcomes 0 Nat.one_pos, ?_⟩
  have same := (states 1 (Nat.le_refl 1)).1
  rw [healed, with_bus_own] at same
  exact same

end Session

end Nmos6502
