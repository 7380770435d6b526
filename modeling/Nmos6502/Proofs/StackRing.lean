import Mathlib.Data.List.Infix
import Mathlib.Tactic.MkIffOfInductiveProp
import Nmos6502.Proofs.Stack
import Nmos6502.Proofs.Writes
import Nmos6502.Session.Call

/-!
The stack in page one as a ring of 256 bytes. Pushes and pulls of bytes and of words do on it what
they do on a list, as long as no more is pulled than there is and there are never more than 256
bytes. A full ring has the stack pointer of an empty one, so it is the number of bytes that tells
them apart, not the state of the processor. Of more pushes than the ring has cells the last ones
stay.
-/

namespace Nmos6502

inductive StackOperation where
  | push (value : Byte)
  | pull
  | pushWord (value : Word)
  | pullWord
  deriving DecidableEq, Repr

namespace StackOperation

section

variable {M : Type} [Bus M]

def perform : StackOperation → ProcessorM M Reply
  | .push value => do
      Processor.push value
      return .done
  | .pull => return .byte (← Processor.pull)
  | .pushWord value => do
      Processor.pushWord value
      return .done
  | .pullWord => return .word (← Processor.pullWord)

/-- The operations are carried out one after the other, and every one has its reply. -/
def performAll : List StackOperation → ProcessorM M (List Reply)
  | [] => return []
  | operation :: rest => do
      let reply ← operation.perform
      return reply :: (← performAll rest)

theorem perform_all_cons (operation : StackOperation) (rest : List StackOperation)
    (processor : Processor M) :
    performAll (operation :: rest) processor =
      ((operation.perform processor).1 :: (performAll rest (operation.perform processor).2).1,
        (performAll rest (operation.perform processor).2).2) := rfl

end

/-- The same on a list of bytes that has the top of the stack first. There is no result if there is
not enough to pull. -/
def onList : StackOperation → List Byte → Option (Reply × List Byte)
  | .push value, stack => some (.done, value :: stack)
  | .pull, value :: stack => some (.byte value, stack)
  | .pushWord value, stack => some (.done, Word.lowByte value :: Word.highByte value :: stack)
  | .pullWord, low :: high :: stack => some (.word (Word.ofBytes low high), stack)
  | .pull, [] | .pullWord, [] | .pullWord, [_] => none

def allOnList : List StackOperation → List Byte → Option (List Reply × List Byte)
  | [], stack => some ([], stack)
  | operation :: rest, stack => do
      let (reply, next) ← operation.onList stack
      let (replies, last) ← allOnList rest next
      return (reply :: replies, last)

/-- The bytes that the operation pushes, in this order. -/
def pushed : StackOperation → List Byte
  | .push value => [value]
  | .pushWord value => [Word.highByte value, Word.lowByte value]
  | .pull | .pullWord => []

def OnlyPushes (operations : List StackOperation) : Prop :=
  ∀ operation ∈ operations, operation ≠ .pull ∧ operation ≠ .pullWord

/-- By how many bytes the stack grows. -/
def growth : StackOperation → ℤ
  | .push _ => 1
  | .pull => -1
  | .pushWord _ => 2
  | .pullWord => -2

/-- Pushes minus pulls, in bytes. -/
def net : List StackOperation → ℤ
  | [] => 0
  | operation :: rest => operation.growth + net rest

/-- At no time has more been pulled than pushed, and at no time are there more than 256 bytes. -/
def FitsRing (operations : List StackOperation) : Prop :=
  ∀ done, done <+: operations → 0 ≤ net done ∧ net done ≤ 256

/-- All that is pushed is pulled again, and nothing else is pulled. -/
@[mk_iff]
structure Balanced (operations : List StackOperation) : Prop where
  above : ∀ done, done <+: operations → 0 ≤ net done
  settled : net operations = 0

instance (operations : List StackOperation) : Decidable (OnlyPushes operations) :=
  inferInstanceAs (Decidable (∀ operation ∈ operations, _))

instance (operations : List StackOperation) : Decidable (FitsRing operations) :=
  decidable_of_iff (∀ done ∈ operations.inits, 0 ≤ net done ∧ net done ≤ 256)
    (by simp only [FitsRing, List.mem_inits])

instance (operations : List StackOperation) : Decidable (Balanced operations) :=
  decidable_of_iff ((∀ done ∈ operations.inits, 0 ≤ net done) ∧ net operations = 0)
    (by simp only [balanced_iff, List.mem_inits])

section

variable {operation : StackOperation} {stack next : List Byte} {reply : Reply}

theorem on_list_length (result : operation.onList stack = some (reply, next)) :
    (next.length : ℤ) = stack.length + operation.growth := by
  -- The last three cases, here and below, are the pulls from a stack that is too short.
  fun_cases onList operation stack with
  | case1 | case2 | case3 | case4 =>
      cases result
      simp only [growth, List.length_cons]
      omega
  | case5 | case6 | case7 => cases result

theorem on_list_of_enough (enough : 0 ≤ stack.length + operation.growth) :
    ∃ reply next, operation.onList stack = some (reply, next) := by
  fun_cases onList operation stack with
  | case1 | case2 | case3 | case4 => exact ⟨_, _, rfl⟩
  | case5 | case6 | case7 => simp [growth] at enough

/-- What lies below is not touched. -/
theorem on_list_above (below : List Byte)
    (result : operation.onList stack = some (reply, next)) :
    operation.onList (stack ++ below) = some (reply, next ++ below) := by
  fun_cases onList operation stack with
  | case1 | case2 | case3 | case4 =>
      cases result
      rfl
  | case5 | case6 | case7 => cases result

end

section

variable {operations rest first second : List StackOperation}
  {stack next last : List Byte} {replies others : List Reply}

theorem all_on_list_cons {operation : StackOperation} :
    allOnList (operation :: rest) stack = some (replies, last) ↔
      ∃ reply next others, operation.onList stack = some (reply, next) ∧
        allOnList rest next = some (others, last) ∧ reply :: others = replies := by
  simp [allOnList, Option.bind_eq_some_iff]

theorem all_on_list_append (results : allOnList first stack = some (replies, next))
    (onward : allOnList second next = some (others, last)) :
    allOnList (first ++ second) stack = some (replies ++ others, last) := by
  induction first generalizing stack replies with
  | nil =>
      cases results
      exact onward
  | cons operation rest induction =>
      obtain ⟨reply, middle, later, result, remaining, rfl⟩ := all_on_list_cons.mp results
      exact all_on_list_cons.mpr ⟨reply, middle, later ++ others, result, induction remaining, rfl⟩

theorem all_on_list_of_enough
    (enough : ∀ done, done <+: operations → 0 ≤ stack.length + net done) :
    ∃ replies last, allOnList operations stack = some (replies, last) ∧
      (last.length : ℤ) = stack.length + net operations := by
  induction operations generalizing stack with
  | nil =>
      refine ⟨[], stack, rfl, ?_⟩
      rw [net, Int.add_zero]
  | cons operation rest induction =>
      have first := enough [operation] (List.prefix_append [operation] rest)
      rw [net, net, Int.add_zero] at first
      obtain ⟨reply, next, result⟩ := on_list_of_enough first
      have length := on_list_length result
      have enoughNext : ∀ done, done <+: rest → 0 ≤ next.length + net done := by
        intro done started
        have total := enough (operation :: done) (List.cons_prefix_cons.mpr ⟨rfl, started⟩)
        rw [net] at total
        omega
      obtain ⟨replies, last, results, lastLength⟩ := induction enoughNext
      refine ⟨reply :: replies, last, ?_, ?_⟩
      · exact all_on_list_cons.mpr ⟨reply, next, replies, result, results, rfl⟩
      · rw [net]
        omega

theorem all_on_list_above (below : List Byte)
    (results : allOnList operations stack = some (replies, last)) :
    allOnList operations (stack ++ below) = some (replies, last ++ below) := by
  induction operations generalizing stack replies with
  | nil =>
      cases results
      rfl
  | cons operation rest induction =>
      obtain ⟨reply, next, later, result, remaining, rfl⟩ := all_on_list_cons.mp results
      have onward := on_list_above below result
      exact all_on_list_cons.mpr ⟨reply, next ++ below, later, onward, induction remaining, rfl⟩

theorem all_on_empty_list (above : ∀ done, done <+: operations → 0 ≤ net done) :
    ∃ replies last, allOnList operations [] = some (replies, last) ∧
      (last.length : ℤ) = net operations := by
  have enough : ∀ done, done <+: operations → 0 ≤ ([] : List Byte).length + net done := by
    intro done started
    have bound := above done started
    rw [List.length_nil]
    omega
  obtain ⟨replies, last, results, length⟩ := all_on_list_of_enough enough
  rw [List.length_nil] at length
  exact ⟨replies, last, results, by omega⟩

/-- What is balanced pulls all that it pushes and leaves any stack as it was. -/
theorem all_on_list_balanced {between : List StackOperation} (balanced : Balanced between) :
    ∃ replies, ∀ stack, allOnList between stack = some (replies, stack) := by
  obtain ⟨replies, last, results, length⟩ := all_on_empty_list balanced.above
  have settled := balanced.settled
  have empty : last = [] := by
    apply List.length_eq_zero_iff.mp
    omega
  subst last
  exact ⟨replies, fun stack => all_on_list_above stack results⟩

/-- A pull replies what has been pushed if what happens in between is balanced. -/
theorem matched_reply {before between : List StackOperation} {opening closing : StackOperation}
    {reply : Reply} {pushed : List Byte}
    (opens : ∀ stack, opening.onList stack = some (.done, pushed ++ stack))
    (closes : ∀ stack, closing.onList (pushed ++ stack) = some (reply, stack))
    (started : allOnList before [] = some (replies, stack)) (balanced : Balanced between) :
    ∃ others, allOnList (before ++ opening :: between ++ [closing]) [] =
      some (others ++ [reply], stack) := by
  obtain ⟨inner, unchanged⟩ := all_on_list_balanced balanced
  have opened : allOnList (opening :: between) stack = some (.done :: inner, pushed ++ stack) :=
    all_on_list_cons.mpr ⟨.done, pushed ++ stack, inner, opens stack, unchanged _, rfl⟩
  have closed : allOnList [closing] (pushed ++ stack) = some ([reply], stack) :=
    all_on_list_cons.mpr ⟨reply, stack, [], closes stack, rfl, rfl⟩
  exact ⟨_, all_on_list_append (all_on_list_append started opened) closed⟩

end

end StackOperation

theorem Word.stack_cell_above_apart (sp : Byte) {distance : Nat} (positive : 0 < distance)
    (below : distance < 256) : stackCell sp ≠ stackCell (sp + UInt8.ofNat distance) := by
  have apart := stack_cells_apart (sp + UInt8.ofNat distance) below (by decide : 0 < 256)
    (Nat.ne_of_gt positive)
  have here : sp + UInt8.ofNat distance - UInt8.ofNat distance = sp := by grind
  have there : sp + UInt8.ofNat distance - UInt8.ofNat 0 = sp + UInt8.ofNat distance := by grind
  rwa [here, there] at apart

namespace Processor

/-- The bytes of the stack lie above the stack pointer, the top next to it, and go around. -/
structure Holds (processor : Processor FlatMemory) (stack : List Byte) : Prop where
  fits : stack.length ≤ 256
  cells : ∀ index (within : index < stack.length),
    processor.bus.get (Word.stackCell (processor.registers.sp + UInt8.ofNat (index + 1))) =
      stack[index]

variable {processor : Processor FlatMemory} {stack : List Byte}

/-- An empty stack is held whatever the stack pointer and the cells are. -/
theorem holds_nothing (processor : Processor FlatMemory) : processor.Holds [] where
  fits := by simp
  cells := by
    intro index within
    cases within

theorem holds_push (value : Byte) (holds : processor.Holds stack) (room : stack.length < 256) :
    (push value processor).2.Holds (value :: stack) where
  fits := by
    rw [List.length_cons]
    omega
  cells := by
    intro index within
    cases index with
    | zero =>
        have here : processor.registers.sp - 1 + UInt8.ofNat (0 + 1) = processor.registers.sp := by
          grind
        have pushed := push_stores processor value
        rw [← here] at pushed
        exact pushed
    | succ index =>
        rw [List.length_cons] at within
        -- Below 256 bytes the cell that is written is none of theirs.
        have deeper : processor.registers.sp - 1 + UInt8.ofNat (index + 1 + 1) =
            processor.registers.sp + UInt8.ofNat (index + 1) := by
          rw [UInt8.ofNat_add (index + 1) 1]
          grind
        have apart := Word.stack_cell_above_apart processor.registers.sp (Nat.zero_lt_succ index)
          (by omega)
        have kept := (push_keeps processor value apart).trans (holds.cells index (by omega))
        rw [← deeper] at kept
        exact kept

theorem holds_pull {value : Byte} (holds : processor.Holds (value :: stack)) :
    (pull processor).1 = value ∧ (pull processor).2.Holds stack := by
  have fits := holds.fits
  have top := holds.cells 0 (Nat.zero_lt_succ stack.length)
  rw [List.length_cons] at fits
  refine ⟨top, by omega, ?_⟩
  intro index within
  have deeper : processor.registers.sp + UInt8.ofNat (index + 1 + 1) =
      processor.registers.sp + 1 + UInt8.ofNat (index + 1) := by
    rw [UInt8.ofNat_add (index + 1) 1]
    grind
  have cell := holds.cells (index + 1) (Nat.succ_lt_succ within)
  rw [deeper] at cell
  exact cell

end Processor

namespace StackOperation

section

variable {processor : Processor FlatMemory} {stack last : List Byte}

theorem perform_refines {operation : StackOperation} {next : List Byte} {reply : Reply}
    (holds : processor.Holds stack) (result : operation.onList stack = some (reply, next))
    (room : next.length ≤ 256) :
    (operation.perform processor).1 = reply ∧ (operation.perform processor).2.Holds next := by
  fun_cases onList operation stack with
  | case1 value stack =>
      cases result
      exact ⟨rfl, Processor.holds_push value holds room⟩
  | case2 value stack =>
      cases result
      obtain ⟨pulled, rest⟩ := Processor.holds_pull holds
      exact ⟨congrArg Reply.byte pulled, rest⟩
  | case3 value stack =>
      cases result
      rw [List.length_cons, List.length_cons] at room
      have high := Processor.holds_push (Word.highByte value) holds (by omega)
      exact ⟨rfl, Processor.holds_push (Word.lowByte value) high room⟩
  | case4 low high stack =>
      cases result
      obtain ⟨lowPulled, middle⟩ := Processor.holds_pull holds
      obtain ⟨highPulled, rest⟩ := Processor.holds_pull middle
      exact ⟨congrArg Reply.word (congr (congrArg Word.ofBytes lowPulled) highPulled), rest⟩
  | case5 | case6 | case7 => cases result

theorem perform_all_refines {operations : List StackOperation} {replies : List Reply}
    (holds : processor.Holds stack)
    (results : allOnList operations stack = some (replies, last))
    (room : ∀ done, done <+: operations → stack.length + net done ≤ 256) :
    (performAll operations processor).1 = replies ∧
      (performAll operations processor).2.Holds last := by
  induction operations generalizing processor stack replies with
  | nil =>
      cases results
      exact ⟨rfl, holds⟩
  | cons operation rest induction =>
      obtain ⟨reply, next, later, result, remaining, rfl⟩ := all_on_list_cons.mp results
      have length := on_list_length result
      have roomNext : ∀ done, done <+: rest → next.length + net done ≤ 256 := by
        intro done started
        have total := room (operation :: done) (List.cons_prefix_cons.mpr ⟨rfl, started⟩)
        rw [net] at total
        omega
      have fits := roomNext [] (List.nil_prefix)
      rw [net] at fits
      obtain ⟨replied, held⟩ := perform_refines holds result (by omega)
      obtain ⟨allReplied, allHeld⟩ := induction held remaining roomNext
      rw [perform_all_cons, replied, allReplied]
      exact ⟨rfl, allHeld⟩

end

section

variable {M : Type} [Bus M]

theorem perform_sp (operation : StackOperation) (processor : Processor M) :
    ((operation.perform processor).2.registers.sp.toNat : ℤ) =
      (processor.registers.sp.toNat - operation.growth) % 256 := by
  have bound := processor.registers.sp.toNat_lt
  cases operation with
  | push value =>
      change ((processor.registers.sp - 1).toNat : ℤ) = (processor.registers.sp.toNat - 1) % 256
      simp only [UInt8.toNat_sub, UInt8.reduceToNat]
      omega
  | pull =>
      change ((processor.registers.sp + 1).toNat : ℤ) = (processor.registers.sp.toNat - -1) % 256
      simp only [UInt8.toNat_add, UInt8.reduceToNat]
      omega
  | pushWord value =>
      change ((processor.registers.sp - 1 - 1).toNat : ℤ) = (processor.registers.sp.toNat - 2) % 256
      simp only [UInt8.toNat_sub, UInt8.reduceToNat]
      omega
  | pullWord =>
      change ((processor.registers.sp + 1 + 1).toNat : ℤ) =
        (processor.registers.sp.toNat - -2) % 256
      simp only [UInt8.toNat_add, UInt8.reduceToNat]
      omega

theorem perform_all_sp (operations : List StackOperation) (processor : Processor M) :
    ((performAll operations processor).2.registers.sp.toNat : ℤ) =
      (processor.registers.sp.toNat - net operations) % 256 := by
  induction operations generalizing processor with
  | nil =>
      have bound := processor.registers.sp.toNat_lt
      change (processor.registers.sp.toNat : ℤ) = (processor.registers.sp.toNat - 0) % 256
      omega
  | cons operation rest induction =>
      have moved := perform_sp operation processor
      rw [perform_all_cons, net, induction]
      omega

end

section

variable {address : Word} (outside : address < 0x0100 ∨ 0x01FF < address)

include outside

theorem perform_outside (operation : StackOperation) (processor : Processor FlatMemory) :
    (operation.perform processor).2.bus.get address = processor.bus.get address := by
  cases operation with
  | push value => exact Processor.push_keeps processor value (Word.stack_cell_ne _ outside)
  | pushWord value =>
      exact Processor.push_word_keeps processor value (Word.stack_cell_ne _ outside)
        (Word.stack_cell_ne _ outside)
  | pull | pullWord => rfl

theorem perform_all_outside (operations : List StackOperation)
    (processor : Processor FlatMemory) :
    (performAll operations processor).2.bus.get address = processor.bus.get address := by
  induction operations generalizing processor with
  | nil => rfl
  | cons operation rest induction =>
      rw [perform_all_cons, induction]
      exact perform_outside outside operation processor

end

/-- A word is pushed byte by byte. -/
theorem perform_all_bytewise {operations : List StackOperation} (pushes : OnlyPushes operations)
    (processor : Processor FlatMemory) :
    (performAll operations processor).2 =
      (performAll ((operations.flatMap pushed).map .push) processor).2 := by
  induction operations generalizing processor with
  | nil => rfl
  | cons operation rest induction =>
      have pushesRest : OnlyPushes rest := by
        intro other member
        exact pushes other (List.mem_cons_of_mem operation member)
      obtain ⟨notPull, notPullWord⟩ := pushes operation List.mem_cons_self
      rw [perform_all_cons, List.flatMap_cons, List.map_append]
      cases operation with
      | push value => exact induction pushesRest _
      | pushWord value => exact induction pushesRest _
      | pull => exact absurd rfl notPull
      | pullWord => exact absurd rfl notPullWord

theorem perform_all_pushes (values : List Byte) (processor : Processor FlatMemory) :
    (performAll (values.map .push) processor).2.bus =
      processor.bus.setAll
        (fun index => Word.stackCell (processor.registers.sp - UInt8.ofNat index)) values := by
  induction values generalizing processor with
  | nil => rfl
  | cons value rest induction =>
      rw [List.map_cons, perform_all_cons, induction, FlatMemory.setAll]
      have first : processor.registers.sp - UInt8.ofNat 0 = processor.registers.sp := by grind
      have next : (fun index => Word.stackCell (processor.registers.sp - 1 - UInt8.ofNat index)) =
          fun index => Word.stackCell (processor.registers.sp - UInt8.ofNat (index + 1)) := by
        funext index
        apply congrArg Word.stackCell
        rw [UInt8.ofNat_add]
        grind
      rw [first, ← next]
      rfl

/-- Of the bytes pushed to a cell the last one stays. -/
theorem cell_of_pushes {operations : List StackOperation} (pushes : OnlyPushes operations)
    (processor : Processor FlatMemory) {distance : Nat} (below : distance < 256) :
    (∃ index,
      IsGreatest {index | index < (operations.flatMap pushed).length ∧ index % 256 = distance}
        index ∧
      (operations.flatMap pushed)[index]? = some ((performAll operations processor).2.bus.get
        (Word.stackCell (processor.registers.sp - UInt8.ofNat distance)))) ∨
    ((∀ index < (operations.flatMap pushed).length, index % 256 ≠ distance) ∧
      (performAll operations processor).2.bus.get
          (Word.stackCell (processor.registers.sp - UInt8.ofNat distance)) =
        processor.bus.get (Word.stackCell (processor.registers.sp - UInt8.ofNat distance))) := by
  rw [perform_all_bytewise pushes, perform_all_pushes]
  generalize operations.flatMap pushed = values
  have last := FlatMemory.get_set_all processor.bus
    (fun index => Word.stackCell (processor.registers.sp - UInt8.ofNat index)) values
    (Word.stackCell (processor.registers.sp - UInt8.ofNat distance))
  simp only [FlatMemory.indicesAt, Word.stack_cell_eq_iff _ _ below] at last
  rcases last with written | ⟨untouched, kept⟩
  · left
    exact written
  · right
    refine ⟨?_, kept⟩
    intro index within there
    have member : index ∈ {index | index < values.length ∧ index % 256 = distance} :=
      ⟨within, there⟩
    rw [untouched] at member
    exact member

section

variable (processor : Processor FlatMemory)

/-- From anywhere on the ring replies what a list replies that is empty at first. -/
theorem ring_refines_list {operations : List StackOperation} (fits : FitsRing operations) :
    ∃ stack, allOnList operations [] = some ((performAll operations processor).1, stack) ∧
      (stack.length : ℤ) = net operations ∧
      (performAll operations processor).2.Holds stack := by
  have room : ∀ done, done <+: operations → ([] : List Byte).length + net done ≤ 256 := by
    intro done started
    have bounds := fits done started
    rw [List.length_nil]
    omega
  obtain ⟨replies, stack, results, length⟩ :=
    all_on_empty_list fun done started => (fits done started).1
  obtain ⟨replied, held⟩ := perform_all_refines (Processor.holds_nothing processor) results room
  refine ⟨stack, ?_, length, held⟩
  rw [replied, results]

theorem ring_reply_matches {before between : List StackOperation}
    {opening closing : StackOperation} {reply : Reply} (pushed : List Byte)
    (fits : FitsRing (before ++ opening :: between ++ [closing])) (balanced : Balanced between)
    (opens : ∀ stack, opening.onList stack = some (.done, pushed ++ stack))
    (closes : ∀ stack, closing.onList (pushed ++ stack) = some (reply, stack)) :
    (performAll (before ++ opening :: between ++ [closing]) processor).1.getLast? =
      some reply := by
  have fitsBefore : FitsRing before := by
    intro done started
    apply fits done
    rw [List.append_assoc]
    exact started.trans (List.prefix_append before _)
  obtain ⟨stack, started, -, -⟩ := ring_refines_list processor fitsBefore
  obtain ⟨last, results, -, -⟩ := ring_refines_list processor fits
  obtain ⟨others, matched⟩ := matched_reply opens closes started balanced
  rw [matched, Option.some.injEq, Prod.mk.injEq] at results
  rw [← results.1, List.getLast?_concat]

end

end StackOperation

namespace Session

variable {M H O : Type}

/-- The operations are carried out by the processor of the session. -/
def workStack [Bus M] (operations : List StackOperation) : SessionM M H O (List Reply) :=
  onProcessor (StackOperation.performAll operations)

open StackOperation

/-- Operations that at no time pull more than has been pushed or leave more than 256 bytes get from
the ring the replies that they get from a list that is empty at first, and the ring holds what the
list has in the end. So a pull replies the byte, and a pull of a word the word, that has been pushed
last and not been pulled yet. Whatever the operations, the stack pointer has gone down by as many
bytes as have been pushed and not pulled, modulo 256, and nothing outside page one has changed.
After nothing but pushes, of any number, each cell of the ring holds the last of the bytes that have
gone there, and the byte that it held before if none has. -/
theorem stack_is_ring_in_page_one (session : Session FlatMemory H O) :
    (∀ operations, FitsRing operations →
      ∃ stack, allOnList operations [] = some ((workStack operations session).1, stack) ∧
        (stack.length : ℤ) = net operations ∧
        (workStack operations session).2.processor.Holds stack) ∧
    (∀ (before between : List StackOperation) (value : Byte),
      FitsRing (before ++ push value :: between ++ [pull]) →
      Balanced between →
      (workStack (before ++ push value :: between ++ [pull]) session).1.getLast? =
        some (.byte value)) ∧
    (∀ (before between : List StackOperation) (word : Word),
      FitsRing (before ++ pushWord word :: between ++ [pullWord]) →
      Balanced between →
      (workStack (before ++ pushWord word :: between ++ [pullWord]) session).1.getLast? =
        some (.word word)) ∧
    (∀ operations,
      ((workStack operations session).2.registers.sp.toNat : ℤ) =
          (session.registers.sp.toNat - net operations) % 256 ∧
        ∀ address, address < 0x0100 ∨ 0x01FF < address →
          (workStack operations session).2.bus.get address = session.bus.get address) ∧
    ∀ operations, OnlyPushes operations → ∀ distance < 256,
      let values := operations.flatMap pushed
      let cell := 0x0100 ||| (session.registers.sp - UInt8.ofNat distance).toUInt16
      let after := (workStack operations session).2
      (∃ index,
        IsGreatest {index | index < values.length ∧ index % 256 = distance} index ∧
        values[index]? = some (after.bus.get cell)) ∨
      ((∀ index < values.length, index % 256 ≠ distance) ∧
        after.bus.get cell = session.bus.get cell) := by
  refine ⟨?_, ?_, ?_, ?_, ?_⟩
  · intro operations fits
    exact ring_refines_list session.processor fits
  · intro before between value fits balanced
    exact ring_reply_matches session.processor [value] fits balanced (fun stack => rfl)
      (fun stack => rfl)
  · intro before between word fits balanced
    have closes (stack : List Byte) :
        onList pullWord (Word.lowByte word :: Word.highByte word :: stack) =
          some (.word word, stack) := by
      rw [onList, Word.of_bytes_low_high]
    exact ring_reply_matches session.processor [Word.lowByte word, Word.highByte word] fits
      balanced (fun stack => rfl) closes
  · intro operations
    constructor
    · exact perform_all_sp operations session.processor
    · intro address outside
      exact perform_all_outside outside operations session.processor
  · intro operations pushes distance below
    rw [← Word.stack_cell_eq_or]
    exact cell_of_pushes pushes session.processor below

/-- Operations that leave 253 bytes on the stack. -/
def nearlyFull : List StackOperation := List.replicate 126 (pushWord 0x1234) ++ [push 0x56]

/-- A byte and 150 words, which are more bytes than the ring has cells. -/
def overfull : List StackOperation :=
  push 0xFF :: (List.range 150).map fun index => pushWord (UInt16.ofNat (0x4000 + index))

def blankSession : Session FlatMemory Empty Empty := start FlatMemory.blank 0x8000 {}

/-- A ring is filled with a word and a byte that come back, and 301 bytes go once around it and
on. -/
theorem full_ring_and_later_pushes :
    (FitsRing (nearlyFull ++ pushWord 0xABCD :: [push 0x77, pull] ++ [pullWord]) ∧
      Balanced [push 0x77, pull] ∧
      (workStack (nearlyFull ++ pushWord 0xABCD :: [push 0x77, pull] ++ [pullWord])
        blankSession).1.getLast? = some (.word 0xABCD)) ∧
    (FitsRing (nearlyFull ++ [pushWord 0xABCD] ++ push 0x77 :: [] ++ [pull]) ∧ Balanced [] ∧
      (workStack (nearlyFull ++ [pushWord 0xABCD] ++ push 0x77 :: [] ++ [pull])
        blankSession).1.getLast? = some (.byte 0x77)) ∧
    (OnlyPushes overfull ∧ 10 < 256 ∧
      (workStack overfull blankSession).2.bus.get 0x01F5 = 0x84) := by
  have fitsWord :
      FitsRing (nearlyFull ++ pushWord 0xABCD :: [push 0x77, pull] ++ [pullWord]) := by
    decide +kernel
  have fitsByte : FitsRing (nearlyFull ++ [pushWord 0xABCD] ++ push 0x77 :: [] ++ [pull]) := by
    decide +kernel
  have balanced : Balanced [push 0x77, pull] := by decide +kernel
  have balancedNil : Balanced [] := by decide +kernel
  obtain ⟨-, bytes, words, -, pushes⟩ := stack_is_ring_in_page_one blankSession
  have word := words nearlyFull [push 0x77, pull] 0xABCD fitsWord balanced
  have byte := bytes (nearlyFull ++ [pushWord 0xABCD]) [] 0x77 fitsByte balancedNil
  have pushesOnly : OnlyPushes overfull := by decide +kernel
  refine ⟨⟨fitsWord, balanced, word⟩, ⟨fitsByte, balancedNil, byte⟩, pushesOnly, by decide, ?_⟩
  have length : (overfull.flatMap pushed).length = 301 := by decide +kernel
  have cell : 0x0100 ||| (blankSession.registers.sp - UInt8.ofNat 10).toUInt16 = 0x01F5 := by
    decide
  have written := pushes overfull pushesOnly 10 (by decide)
  dsimp only at written
  rw [length, cell] at written
  rcases written with ⟨index, ⟨member, greatest⟩, last⟩ | ⟨untouched, -⟩
  · have latest : index = 266 := by
      have atLeast := greatest (⟨by decide, by decide⟩ : 266 < 301 ∧ 266 % 256 = 10)
      have bounds : index < 301 ∧ index % 256 = 10 := member
      omega
    have value : (overfull.flatMap pushed)[266]? = some 0x84 := by decide +kernel
    rw [latest, value, Option.some.injEq] at last
    exact last.symm
  · exact absurd rfl (untouched 266 (by decide))

end Session

end Nmos6502
