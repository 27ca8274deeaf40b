import Mathlib.Algebra.Order.Floor.Div
import Mathlib.Order.Lattice

/-!
# Pools refilled by batches

A pool hands out units one at a time and takes them back. A batch of `size` units comes in when a unit is
asked for and none is free, and only then. Such a pool holds no more batches than its busiest moment
needed: their number is the peak of the units out at once, divided by `size` and rounded up.
-/

/-- The units of a pool: `free` are on its list, `live` are out, `batches` came in, and at most `peak`
were out at once. -/
structure Refilled (size free live batches peak : Nat) : Prop where
  total : free + live = batches * size
  live_le : live ≤ peak
  batches_eq : batches = peak ⌈/⌉ size

namespace Refilled

variable {size free free' live batches peak : Nat}

/-- A pool starts without units. -/
theorem start : Refilled size 0 0 0 0 where
  total := (Nat.zero_mul size).symm
  live_le := Nat.le_refl 0
  batches_eq := (zero_ceilDiv size).symm

/-- The batches cover the peak. -/
theorem peak_le (h : Refilled size free live batches peak) (hsize : 0 < size) : peak ≤ size * batches := by
  rw [h.batches_eq]
  exact (ceilDiv_le_iff_le_mul hsize).1 (Nat.le_refl _)

/-- A unit is asked for: it is a free one, or the first of a new batch. -/
theorem take (h : Refilled size free live batches peak) (hsize : 0 < size)
    (hfree : free' + 1 = free + if free = 0 then size else 0) :
    Refilled size free' (live + 1) (batches + if free = 0 then 1 else 0) (max peak (live + 1)) := by
  have htotal := h.total
  have hpeak := h.peak_le hsize
  rw [Nat.mul_comm] at hpeak
  by_cases h0 : free = 0
  · -- all units are out, so this is a new peak
    rw [if_pos h0] at hfree ⊢
    have hnew : max peak (live + 1) = batches * size + 1 := by omega
    refine ⟨?_, Nat.le_max_right _ _, ?_⟩
    · rw [Nat.succ_mul]
      omega
    · refine le_antisymm ?_ ?_
      · refine Nat.succ_le_of_lt (Nat.lt_of_not_le fun hle => ?_)
        have hcover := (ceilDiv_le_iff_le_mul hsize).1 hle
        rw [Nat.mul_comm size] at hcover
        omega
      · refine (ceilDiv_le_iff_le_mul hsize).2 ?_
        rw [hnew, Nat.mul_succ, Nat.mul_comm size]
        omega
  · rw [if_neg h0] at hfree ⊢
    rw [Nat.add_zero batches]
    refine ⟨by omega, Nat.le_max_right _ _, le_antisymm ?_ ?_⟩
    · have hmono := (gc_mul_ceilDiv hsize).monotone_l (Nat.le_max_left peak (live + 1))
      exact h.batches_eq.le.trans hmono
    · refine (ceilDiv_le_iff_le_mul hsize).2 ?_
      rw [Nat.mul_comm]
      omega

/-- A unit comes back. -/
theorem put (h : Refilled size free (live + 1) batches peak) : Refilled size (free + 1) live batches peak where
  total := by
    rw [← h.total]
    omega
  live_le := (Nat.le_succ live).trans h.live_le
  batches_eq := h.batches_eq

/-- The peak stays where it is while no unit is asked for. -/
theorem max_peak (h : Refilled size free live batches peak) : max peak live = peak := max_eq_left h.live_le

end Refilled
