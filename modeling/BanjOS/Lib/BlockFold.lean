import Mathlib.Data.List.Basic

/-!
# Folding a stream block by block

A function that takes blocks of `n` elements is folded over the whole blocks of a list (`absorb`); what is left
after them is the `residue`, shorter than a block. A stream may be given in pieces: what was left of the first piece
goes before the second one (`absorb_append`, `residue_append`), so that only the residue has to be kept between them.
-/

namespace BlockFold

variable {α σ : Type}

/-- The first `k` blocks of a list. -/
def absorbBlocks (n : Nat) (f : σ → List α → σ) : (k : Nat) → σ → List α → σ
  | 0, s, _ => s
  | k + 1, s, l => absorbBlocks n f k (f s (l.take n)) (l.drop n)

/-- The whole blocks of a list. -/
def absorb (n : Nat) (f : σ → List α → σ) (s : σ) (l : List α) : σ := absorbBlocks n f (l.length / n) s l

/-- What is left after the whole blocks. -/
def residue (n : Nat) (l : List α) : List α := l.drop (n * (l.length / n))

variable {n : Nat} {f : σ → List α → σ} {s : σ} {b l l' : List α}

/-- Less than a block is left as it is. -/
theorem absorb_of_lt (h : l.length < n) : absorb n f s l = s := by
  rw [absorb, Nat.div_eq_of_lt h, absorbBlocks]

theorem residue_of_lt (h : l.length < n) : residue n l = l := by
  rw [residue, Nat.div_eq_of_lt h, Nat.mul_zero, List.drop_zero]

theorem length_residue (n : Nat) (l : List α) : (residue n l).length = l.length % n := by
  have hsum := Nat.div_add_mod l.length n
  rw [residue, List.length_drop]
  omega

theorem length_residue_lt (hn : 0 < n) (l : List α) : (residue n l).length < n := by
  rw [length_residue]
  exact Nat.mod_lt _ hn

/-- A block and what comes after it. -/
theorem absorb_block_append (hn : 0 < n) (hb : b.length = n) : absorb n f s (b ++ l) = absorb n f (f s b) l := by
  have hdiv : (b ++ l).length / n = l.length / n + 1 := by
    rw [List.length_append, hb, Nat.add_comm, Nat.add_div_right _ hn]
  rw [absorb, hdiv, absorbBlocks, List.take_left' hb, List.drop_left' hb]
  rfl

theorem residue_block_append (hn : 0 < n) (hb : b.length = n) : residue n (b ++ l) = residue n l := by
  have hdiv : (b ++ l).length / n = l.length / n + 1 := by
    rw [List.length_append, hb, Nat.add_comm, Nat.add_div_right _ hn]
  rw [residue, hdiv, Nat.mul_succ, Nat.add_comm, ← List.drop_drop, List.drop_left' hb]
  rfl

/-- A list of a block or more starts with a block. -/
theorem exists_block_append (h : n ≤ l.length) : ∃ b l', b.length = n ∧ l = b ++ l' :=
  ⟨l.take n, l.drop n, List.length_take_of_le h, (List.take_append_drop n l).symm⟩

/-- A stream in two pieces: only the residue of the first one goes before the second one. -/
theorem absorb_append (hn : 0 < n) (s : σ) (l l' : List α) :
    absorb n f s (l ++ l') = absorb n f (absorb n f s l) (residue n l ++ l') := by
  induction hlen : l.length using Nat.strongRecOn generalizing s l with
  | ind k ih =>
    rcases Nat.lt_or_ge l.length n with hlt | hge
    · rw [absorb_of_lt hlt, residue_of_lt hlt]
    · rcases exists_block_append hge with ⟨b, t, hb, rfl⟩
      have hshorter : t.length < k := by
        rw [← hlen, List.length_append]
        omega
      rw [List.append_assoc, absorb_block_append hn hb, absorb_block_append hn hb, residue_block_append hn hb]
      exact ih t.length hshorter (f s b) t rfl

theorem residue_append (hn : 0 < n) (l l' : List α) : residue n (l ++ l') = residue n (residue n l ++ l') := by
  induction hlen : l.length using Nat.strongRecOn generalizing l with
  | ind k ih =>
    rcases Nat.lt_or_ge l.length n with hlt | hge
    · rw [residue_of_lt hlt]
    · rcases exists_block_append hge with ⟨b, t, hb, rfl⟩
      have hshorter : t.length < k := by
        rw [← hlen, List.length_append]
        omega
      rw [List.append_assoc, residue_block_append hn hb, residue_block_append hn hb]
      exact ih t.length hshorter t rfl

end BlockFold
