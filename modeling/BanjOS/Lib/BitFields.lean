import Mathlib.Algebra.BigOperators.Group.List.Basic
import Mathlib.Algebra.Order.Group.Nat

/-!
# Packed bit fields

The fields of a packed record stand one after the other, the first one in the low bits. `pack` is the number that
they make, and a field is read back with `field` at the sum of the widths before it (`field_pack`).
-/

namespace BitFields

/-- The number that fields of given widths make; what does not fit a field is cut off. -/
def pack : List (Nat × Nat) → Nat
  | [] => 0
  | (w, v) :: fs => v % 2 ^ w + 2 ^ w * pack fs

/-- The number of bits of some fields. -/
def width : List (Nat × Nat) → Nat
  | [] => 0
  | (w, _) :: fs => w + width fs

/-- The `w` bits of a number from bit `off` on. -/
def field (n off w : Nat) : Nat := n / 2 ^ off % 2 ^ w

variable {fs gs : List (Nat × Nat)} {w v : Nat}

theorem field_lt (n off w : Nat) : field n off w < 2 ^ w := Nat.mod_lt _ (Nat.two_pow_pos w)

@[simp] theorem width_nil : width [] = 0 := rfl

@[simp] theorem width_cons : width ((w, v) :: fs) = w + width fs := rfl

/-- Fields make a number of their width. -/
theorem pack_lt (fs : List (Nat × Nat)) : pack fs < 2 ^ width fs := by
  induction fs with
  | nil => exact Nat.one_pos
  | cons f fs ih =>
    rcases f with ⟨w, v⟩
    have hlow : v % 2 ^ w < 2 ^ w := Nat.mod_lt _ (Nat.two_pow_pos w)
    have hhigh : 2 ^ w * (pack fs + 1) ≤ 2 ^ w * 2 ^ width fs := Nat.mul_le_mul_left _ ih
    rw [pack, width_cons, Nat.pow_add]
    rw [Nat.mul_succ] at hhigh
    omega

/-- The fields from one on, without those before it. -/
theorem pack_append_div (fs gs : List (Nat × Nat)) : pack (fs ++ gs) / 2 ^ width fs = pack gs := by
  induction fs with
  | nil => rw [List.nil_append, width_nil, Nat.pow_zero, Nat.div_one]
  | cons f fs ih =>
    rcases f with ⟨w, v⟩
    have hlow : v % 2 ^ w < 2 ^ w := Nat.mod_lt _ (Nat.two_pow_pos w)
    rw [List.cons_append, pack, width_cons, Nat.pow_add, ← Nat.div_div_eq_div_mul,
      Nat.add_mul_div_left _ _ (Nat.two_pow_pos w), Nat.div_eq_of_lt hlow, Nat.zero_add, ih]

/-- A field is read back, after the fields `fs` that come before it. -/
theorem field_pack {l : List (Nat × Nat)} {off : Nat} (fs gs : List (Nat × Nat)) (w v : Nat)
    (h : l = fs ++ (w, v) :: gs) (hoff : width fs = off) : field (pack l) off w = v % 2 ^ w := by
  rw [h, ← hoff, field, pack_append_div, pack, Nat.add_mul_mod_self_left, Nat.mod_mod]

end BitFields
