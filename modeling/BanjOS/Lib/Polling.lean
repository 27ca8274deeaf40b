import Mathlib.Data.Nat.Notation

/-!
# Polling

A driver reads a status register until the value no longer asks it to wait. The reads are numbered, and
`waitWhile` is the number of the read that ends the waiting. `waitWhile_eq_some_iff` says which read that is,
and with how much fuel it is found.
-/

variable {α : Type}

/-- The first read from read `i` on that does not ask to wait, if it is among the next `fuel` reads. -/
def waitWhile (wait : α → Bool) (reads : Nat → α) : (fuel i : Nat) → Option Nat
  | 0, _ => none
  | fuel + 1, i => if wait (reads i) then waitWhile wait reads fuel (i + 1) else some i

variable {wait : α → Bool} {reads : Nat → α} {fuel i j : Nat}

theorem waitWhile_eq_some_iff : waitWhile wait reads fuel i = some j ↔
    i ≤ j ∧ j < i + fuel ∧ (∀ k, i ≤ k → k < j → wait (reads k) = true) ∧ wait (reads j) = false := by
  induction fuel generalizing i with
  | zero =>
    rw [waitWhile]
    exact iff_of_false nofun fun ⟨h₁, h₂, _⟩ => absurd h₁ (Nat.not_le_of_lt h₂)
  | succ fuel ih =>
    rw [waitWhile]
    split
    case isTrue hw =>
      rw [ih]
      constructor
      · rintro ⟨hle, hlt, hbefore, hj⟩
        refine ⟨by omega, by omega, fun k hk hkj => ?_, hj⟩
        obtain rfl | hk := Nat.eq_or_lt_of_le hk
        · exact hw
        · exact hbefore k hk hkj
      · rintro ⟨hle, hlt, hbefore, hj⟩
        have hne : i ≠ j := by
          rintro rfl
          rw [hw] at hj
          cases hj
        exact ⟨by omega, by omega, fun k hk => hbefore k (by omega), hj⟩
    case isFalse hw =>
      rw [Option.some_inj]
      constructor
      · rintro rfl
        exact ⟨Nat.le_refl _, by omega, fun k h₁ h₂ => absurd h₁ (Nat.not_le_of_lt h₂), by simpa using hw⟩
      · rintro ⟨hle, -, hbefore, -⟩
        obtain rfl | hlt := Nat.eq_or_lt_of_le hle
        · rfl
        · exact absurd (hbefore i (Nat.le_refl _) hlt) hw
