import BanjOS.Lib.ByteMem
import Mathlib.Data.List.Nodup

/-!
# Singly linked lists threaded through memory

`Chain m h l`: following the link words of `m` from the pointer `h` visits exactly the nodes `l` and
ends at the null pointer. The link of a node is the word at the node's own address, as in a free
list that lives inside the blocks it lists. A chain determines its nodes (`Chain.det`), so it has no
repetition (`Chain.nodup`), and it depends on the link words of its nodes only (`Chain.congr`).
-/

open ByteMem

/-- The list of nodes a null-terminated chain of link words visits. -/
inductive Chain (m : Mem) : Nat → List Nat → Prop
  | nil : Chain m 0 []
  | cons {a : Nat} {l : List Nat} : a ≠ 0 → Chain m (load64 m a) l → Chain m a (a :: l)

namespace Chain

variable {m m' : Mem} {h a : Nat} {l l' : List Nat}

/-- A chain from the null pointer is empty. -/
theorem eq_nil (hc : Chain m 0 l) : l = [] := by
  cases hc with
  | nil => rfl
  | cons h0 _ => exact absurd rfl h0

/-- The empty chain starts at the null pointer. -/
theorem head_nil (hc : Chain m h []) : h = 0 := by
  cases hc
  rfl

/-- A chain from any other pointer starts there and goes on at the link. -/
theorem exists_cons (hc : Chain m a l) (ha : a ≠ 0) :
    ∃ l', l = a :: l' ∧ Chain m (load64 m a) l' := by
  cases hc with
  | nil => exact absurd rfl ha
  | cons _ hl => exact ⟨_, rfl, hl⟩

/-- A chain through a node starts there and goes on at its link. -/
theorem of_cons (hc : Chain m h (a :: l)) : h = a ∧ Chain m (load64 m a) l := by
  cases hc with
  | cons _ hl => exact ⟨rfl, hl⟩

/-- A chain determines its nodes. -/
theorem det (hc : Chain m h l) (hc' : Chain m h l') : l = l' := by
  induction hc generalizing l' with
  | nil => exact hc'.eq_nil.symm
  | cons ha _ ih =>
    obtain ⟨l₁, rfl, h₁⟩ := hc'.exists_cons ha
    rw [ih h₁]

/-- Every node of a chain starts a chain of its own, a suffix of the whole. -/
theorem suffix_of_mem (hc : Chain m h l) (ha : a ∈ l) :
    ∃ pre suf, l = pre ++ a :: suf ∧ Chain m a (a :: suf) := by
  induction hc with
  | nil => cases ha
  | @cons b l hb hl ih =>
    rcases List.mem_cons.1 ha with rfl | ha
    · exact ⟨[], l, rfl, .cons hb hl⟩
    · obtain ⟨pre, suf, rfl, hs⟩ := ih ha
      exact ⟨b :: pre, suf, rfl, hs⟩

/-- A chain is acyclic: it visits no node twice. A node met again would start two different
suffixes. -/
theorem nodup (hc : Chain m h l) : l.Nodup := by
  induction hc with
  | nil => exact .nil
  | @cons a l ha hl ih =>
    refine List.nodup_cons.2 ⟨fun hmem => ?_, ih⟩
    obtain ⟨pre, suf, rfl, hs⟩ := hl.suffix_of_mem hmem
    have hlen := congrArg List.length (det (.cons ha hl) hs)
    simp only [List.length_cons, List.length_append] at hlen
    omega

/-- The nodes of a chain are not null. -/
theorem ne_zero (hc : Chain m h l) (ha : a ∈ l) : a ≠ 0 := by
  obtain ⟨_, _, _, hs⟩ := hc.suffix_of_mem ha
  cases hs with
  | cons h0 _ => exact h0

/-- A chain depends on the link words of its nodes only. -/
theorem congr (hc : Chain m h l) (hw : ∀ a ∈ l, load64 m' a = load64 m a) : Chain m' h l := by
  induction hc with
  | nil => exact .nil
  | @cons a l ha _ ih =>
    refine .cons ha ?_
    rw [hw a (.head _)]
    exact ih fun b hb => hw b (List.mem_cons_of_mem _ hb)

/-- Pushing a node: its link word takes the old head. -/
theorem push (hc : Chain m h l) (ha : a ≠ 0) (hh : h < 2 ^ 64)
    (hap : ∀ b ∈ l, a + 8 ≤ b ∨ b + 8 ≤ a) : Chain (store64 m a h) a (a :: l) := by
  refine .cons ha ?_
  rw [load64_store64_of_lt m a hh]
  exact hc.congr fun b hb => load64_store64_of_apart (hap b hb)

end Chain
