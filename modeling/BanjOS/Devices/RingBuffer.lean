import BanjOS.Basic
import Mathlib.Logic.Function.Basic

/-!
# The ring buffer

`ring_buffer.c`: the buffer between the interrupt handlers and the kernel's threads, used by the
keyboard and the serial port. One of the sixteen slots stays free, so that equal pointers mean an empty
buffer. `RingBuffer.chars` is what the buffer is for: the list of the characters that were added and not
yet taken; `ringProducerAddChar_eq` and `ringConsumerNext_eq` say what the operations do to it.
-/

namespace BanjOS

/-- The positions of a buffer with `BUFF_SIZE` slots. -/
abbrev RingPos := Fin 16

/-- `struct RingBuffer`; the pointers into `buff` are positions in it. -/
structure RingBuffer where
  buff : RingPos → UInt8
  consumer : RingPos
  producer : RingPos
  /-- The address of the queue of blocked consumers, `NULL` if the buffer is not blockable. -/
  blocked : Nat

/-- `ring_init`, with the queue that `kmalloc` returned (or `NULL`). -/
def ringInit (buff : RingPos → UInt8) (blocked : Nat) : RingBuffer := ⟨buff, 0, 0, blocked⟩

/-- `ptr++`, and back to the start at the end of the buffer. -/
def ringAdvance (ptr : RingPos) : RingPos :=
  if h : ptr.val + 1 ≥ 16 then 0 else ⟨ptr.val + 1, Nat.lt_of_not_ge h⟩

/-- `ring_consumer_next`: the next character, if there is one. -/
def ringConsumerNext (state : RingBuffer) : Option (UInt8 × RingBuffer) :=
  if state.consumer = state.producer then none
  else some (state.buff state.consumer, { state with consumer := ringAdvance state.consumer })

/-- `ring_producer_add_char`: whether there was room, and the buffer after it. -/
def ringProducerAddChar (state : RingBuffer) (toAdd : UInt8) : Bool × RingBuffer :=
  if state.producer.val + 1 = state.consumer.val ∨
      (state.consumer.val = 0 ∧ state.producer.val = 15) then (false, state)
  else (true, { state with
    buff := Function.update state.buff state.producer toAdd
    producer := ringAdvance state.producer })

namespace RingBuffer

variable (r : RingBuffer)

/-- How many characters the buffer holds. -/
def count : Nat := (r.producer - r.consumer).val

/-- The characters in the buffer, the next one first. -/
def chars : List UInt8 := (List.range r.count).map fun i => r.buff (r.consumer + Fin.ofNat 16 i)

@[simp] theorem length_chars : r.chars.length = r.count := by simp [chars]

theorem count_lt : r.count < 16 := (r.producer - r.consumer).isLt

@[simp] theorem chars_ringInit (buff : RingPos → UInt8) (blocked : Nat) :
    (ringInit buff blocked).chars = [] := rfl

/-- The buffer is empty when the pointers are equal. -/
theorem chars_eq_nil_iff : r.chars = [] ↔ r.consumer = r.producer := by
  rw [← List.length_eq_zero_iff, length_chars, count, Fin.ext_iff, Fin.sub_def]
  simp only
  omega

end RingBuffer

/-! ## Positions -/

section
variable (p c : RingPos)

theorem ringAdvance_eq : ringAdvance p = p + 1 := by
  revert p
  decide

/-- The test for a full buffer. -/
theorem ring_full_iff : (p.val + 1 = c.val ∨ (c.val = 0 ∧ p.val = 15)) ↔ (p - c).val = 15 := by
  rw [Fin.sub_def]
  simp only
  omega

/-- The producer is `count` positions after the consumer. -/
theorem add_ofNat_eq_iff {i : Nat} (hi : i < 16) :
    c + Fin.ofNat 16 i = p ↔ i = (p - c).val := by
  rw [Fin.ext_iff, Fin.val_add, Fin.sub_def]
  simp only [Fin.ofNat]
  omega

theorem add_one_sub (h : (p - c).val < 15) : (p + 1 - c).val = (p - c).val + 1 := by
  revert h
  simp only [Fin.sub_def, Fin.val_add]
  omega

theorem sub_add_one (h : (p - c).val ≠ 0) : (p - (c + 1)).val + 1 = (p - c).val := by
  revert h
  simp only [Fin.sub_def, Fin.val_add]
  omega

theorem add_one_add_ofNat (i : Nat) :
    c + 1 + Fin.ofNat 16 i = c + Fin.ofNat 16 (i + 1) := by
  simp only [Fin.ext_iff, Fin.val_add, Fin.ofNat]
  omega

end

/-! ## Operations -/

/-- A character is added at the end, unless fifteen are there. -/
theorem ringProducerAddChar_eq (r : RingBuffer) (c : UInt8) :
    (ringProducerAddChar r c).1 = decide (r.count < 15) ∧
    (ringProducerAddChar r c).2.chars = (if r.count < 15 then r.chars ++ [c] else r.chars) ∧
    (ringProducerAddChar r c).2.blocked = r.blocked := by
  have hlt := r.count_lt
  simp only [ringProducerAddChar, ring_full_iff]
  split
  case isTrue h =>
    have : ¬ r.count < 15 := by rw [RingBuffer.count, h]; omega
    simp [this]
  case isFalse h =>
    have hroom : r.count < 15 := by simp only [RingBuffer.count] at hlt ⊢; omega
    refine ⟨by simp [hroom], ?_, rfl⟩
    rw [if_pos hroom, RingBuffer.chars, RingBuffer.chars, RingBuffer.count]
    simp only [ringAdvance_eq]
    rw [add_one_sub _ _ hroom, List.range_succ, List.map_append]
    congr 1
    · refine List.map_congr_left fun i hi => Function.update_of_ne ?_ ..
      have hi' := List.mem_range.1 hi
      rw [Ne, add_ofNat_eq_iff _ _ (by simp only [RingBuffer.count] at hlt; omega)]
      omega
    · have := (add_ofNat_eq_iff r.producer r.consumer hlt).2 rfl
      simp only [RingBuffer.count] at this
      rw [List.map_singleton, this, Function.update_self]

/-- The first character is taken, if there is one. -/
theorem ringConsumerNext_eq_some {r r' : RingBuffer} {c : UInt8}
    (h : ringConsumerNext r = some (c, r')) : r.chars = c :: r'.chars ∧ r'.blocked = r.blocked := by
  simp only [ringConsumerNext] at h
  split at h
  case isTrue => cases h
  case isFalse hne =>
    obtain ⟨rfl, rfl⟩ : r.buff r.consumer = c ∧ { r with consumer := ringAdvance r.consumer } = r' := by
      simpa using h
    refine ⟨?_, rfl⟩
    have hcount : (r.producer - r.consumer).val ≠ 0 := by
      rw [← RingBuffer.count, ← r.length_chars, Ne, List.length_eq_zero_iff, r.chars_eq_nil_iff]
      exact hne
    simp only [RingBuffer.chars, RingBuffer.count, ringAdvance_eq]
    rw [← sub_add_one _ _ hcount, List.range_succ_eq_map, List.map_cons, List.map_map]
    congr 1
    · simp
    · exact List.map_congr_left fun i _ => congrArg r.buff (add_one_add_ofNat r.consumer i).symm

/-- Nothing is taken from an empty buffer only. -/
theorem ringConsumerNext_eq_none {r : RingBuffer} : ringConsumerNext r = none ↔ r.chars = [] := by
  rw [RingBuffer.chars_eq_nil_iff]
  simp [ringConsumerNext]

end BanjOS
