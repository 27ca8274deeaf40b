import Mathlib.Data.Nat.Basic
import Mathlib.Algebra.Order.Group.Nat
import Mathlib.Tactic.Common

/-!
# Radix trees of 512-slot tables

A tree of tables in memory, seen through one function: `child x` is the table that the slot at
address `x` points to, if it points to one. A table has 512 slots of 8 bytes, and a node of the tree
is named by its depth `d` and the number `q < 512 ^ d` whose base-512 digits are the slots taken from
the root (`tableAt`). Nothing is assumed about the memory behind `child`.

`Separate child root D` says that no table down to depth `D` is reached twice. Hanging a fresh table
under an empty slot (`Hang`) keeps every node, adds exactly one (`Hang.tableAt_inv`) and keeps the
tree separate (`Hang.separate`).
-/

namespace Radix

/-- The table at depth `d` whose path from `root` spells `q` in base 512. -/
def tableAt (child : Nat → Option Nat) (root : Nat) : Nat → Nat → Option Nat
  | 0, _ => some root
  | d + 1, q => (tableAt child root d (q / 512)).bind fun t => child (t + 8 * (q % 512))

/-- Tables lie on 4 KiB boundaries, and no table down to depth `D` is reached on two paths. -/
structure Separate (child : Nat → Option Nat) (root D : Nat) : Prop where
  aligned : ∀ d q t, d ≤ D → q < 512 ^ d → tableAt child root d q = some t → t % 4096 = 0
  inj : ∀ d e q r t, d ≤ D → e ≤ D → q < 512 ^ d → r < 512 ^ e → tableAt child root d q = some t →
    tableAt child root e r = some t → d = e ∧ q = r

section
variable {child child' : Nat → Option Nat} {root D : Nat}

theorem tableAt_succ {d q t : Nat} : tableAt child root (d + 1) q = some t ↔
    ∃ p, tableAt child root d (q / 512) = some p ∧ child (p + 8 * (q % 512)) = some t := by
  rw [tableAt, Option.bind_eq_some_iff]

/-- The parent of a node's number names a node. -/
theorem div_lt_pow {d q : Nat} (h : q < 512 ^ (d + 1)) : q / 512 < 512 ^ d :=
  Nat.div_lt_of_lt_mul (by rwa [Nat.pow_succ'] at h)

/-- A walk reads the slots of the tables it passes only. -/
theorem tableAt_congr (h : ∀ d q t i, d < D → q < 512 ^ d → tableAt child root d q = some t →
    i < 512 → child' (t + 8 * i) = child (t + 8 * i)) :
    ∀ d q, d ≤ D → q < 512 ^ d → tableAt child' root d q = tableAt child root d q := by
  intro d
  induction d with
  | zero => intro _ _ _; rfl
  | succ d ih =>
    intro q hd hq
    rw [tableAt, tableAt, ih (q / 512) (by omega) (div_lt_pow hq)]
    cases ht : tableAt child root d (q / 512) with
    | none => rfl
    | some t => exact h d (q / 512) t (q % 512) hd (div_lt_pow hq) ht (Nat.mod_lt _ (by omega))

/-- A root without children is the whole tree. -/
theorem tableAt_blank (h : ∀ i, i < 512 → child (root + 8 * i) = none) :
    ∀ d q t, tableAt child root d q = some t → d = 0 ∧ t = root := by
  intro d
  induction d with
  | zero => intro _ t ht; cases ht; exact ⟨rfl, rfl⟩
  | succ d ih =>
    intro q t ht
    obtain ⟨p, hp, hpt⟩ := tableAt_succ.1 ht
    obtain ⟨-, rfl⟩ := ih _ _ hp
    rw [h _ (Nat.mod_lt _ (by omega))] at hpt
    cases hpt

/-- A root without children is separate. -/
theorem separate_blank (hroot : root % 4096 = 0)
    (h : ∀ i, i < 512 → child (root + 8 * i) = none) : Separate child root D := by
  refine ⟨fun d q t _ _ ht => ?_, fun d e q r t _ _ hq hr ht ht' => ?_⟩
  · rw [(tableAt_blank h d q t ht).2]
    exact hroot
  · obtain ⟨rfl, -⟩ := tableAt_blank h d q t ht
    obtain ⟨rfl, -⟩ := tableAt_blank h e r t ht'
    exact ⟨rfl, by omega⟩

/-- The slots of a separate tree are distinct: a slot address names its table and its index. -/
theorem Separate.slot_inj (h : Separate child root D) {d e q r t u i j : Nat} (hd : d ≤ D)
    (he : e ≤ D) (hq : q < 512 ^ d) (hr : r < 512 ^ e) (ht : tableAt child root d q = some t)
    (hu : tableAt child root e r = some u) (hi : i < 512) (hj : j < 512)
    (heq : t + 8 * i = u + 8 * j) : d = e ∧ q = r ∧ i = j := by
  have h₁ := h.aligned d q t hd hq ht
  have h₂ := h.aligned e r u he hr hu
  obtain rfl : t = u := by omega
  obtain ⟨rfl, rfl⟩ := h.inj d e q r t hd he hq hr ht hu
  exact ⟨rfl, rfl, by omega⟩

/-- Two tables of a separate tree, reached on different paths, do not overlap. -/
theorem Separate.apart (h : Separate child root D) {d e q r t u : Nat} (hd : d ≤ D) (he : e ≤ D)
    (hq : q < 512 ^ d) (hr : r < 512 ^ e) (ht : tableAt child root d q = some t)
    (hu : tableAt child root e r = some u) (hne : ¬ (d = e ∧ q = r)) :
    t + 4096 ≤ u ∨ u + 4096 ≤ t := by
  have h₁ := h.aligned d q t hd hq ht
  have h₂ := h.aligned e r u he hr hu
  have h₃ : t ≠ u := fun heq => hne (h.inj d e q r t hd he hq hr ht (heq ▸ hu))
  omega

/-- `child'` is `child` with the fresh empty table `g` hung under an empty slot: the slot of the node
`q` at depth `d + 1`, in its parent `p`. -/
structure Hang (child child' : Nat → Option Nat) (root D d q p g : Nat) : Prop where
  depth : d < D
  num : q < 512 ^ (d + 1)
  parent : tableAt child root d (q / 512) = some p
  empty : child (p + 8 * (q % 512)) = none
  aligned : g % 4096 = 0
  fresh : ∀ e r, e ≤ D → r < 512 ^ e → tableAt child root e r ≠ some g
  hung : child' (p + 8 * (q % 512)) = some g
  blank : ∀ i, i < 512 → child' (g + 8 * i) = none
  rest : ∀ e r t i, e ≤ D → r < 512 ^ e → tableAt child root e r = some t → i < 512 →
    t + 8 * i ≠ p + 8 * (q % 512) → child' (t + 8 * i) = child (t + 8 * i)

variable {d q p g : Nat}

/-- Hanging a table keeps every node. -/
theorem Hang.tableAt_old (h : Hang child child' root D d q p g) :
    ∀ e r t, e ≤ D → r < 512 ^ e → tableAt child root e r = some t →
      tableAt child' root e r = some t := by
  intro e
  induction e with
  | zero => intro _ _ _ _ ht; exact ht
  | succ e ih =>
    intro r t he hr ht
    obtain ⟨u, hu, hut⟩ := tableAt_succ.1 ht
    refine tableAt_succ.2 ⟨u, ih _ _ (by omega) (div_lt_pow hr) hu, ?_⟩
    rw [h.rest e (r / 512) u (r % 512) (by omega) (div_lt_pow hr) hu (Nat.mod_lt _ (by omega))
      fun heq => ?_, hut]
    rw [heq, h.empty] at hut
    cases hut

/-- The hung table is the node it was hung at. -/
theorem Hang.tableAt_new (h : Hang child child' root D d q p g) :
    tableAt child' root (d + 1) q = some g :=
  tableAt_succ.2 ⟨p, h.tableAt_old d _ p (Nat.le_of_lt h.depth) (div_lt_pow h.num) h.parent, h.hung⟩

/-- Hanging a table adds one node: every node of the new tree is old or the hung table. -/
theorem Hang.tableAt_inv (h : Hang child child' root D d q p g) (hsep : Separate child root D) :
    ∀ e r t, e ≤ D → r < 512 ^ e → tableAt child' root e r = some t →
      tableAt child root e r = some t ∨ (e = d + 1 ∧ r = q ∧ t = g) := by
  intro e
  induction e with
  | zero => intro _ _ _ _ ht; exact .inl ht
  | succ e ih =>
    intro r t he hr ht
    obtain ⟨u, hu, hut⟩ := tableAt_succ.1 ht
    rcases ih _ _ (by omega) (div_lt_pow hr) hu with hu | ⟨-, -, rfl⟩
    · by_cases heq : u + 8 * (r % 512) = p + 8 * (q % 512)
      · obtain ⟨rfl, hdiv, hmod⟩ := hsep.slot_inj (by omega) (Nat.le_of_lt h.depth) (div_lt_pow hr)
          (div_lt_pow h.num) hu h.parent (Nat.mod_lt _ (by omega)) (Nat.mod_lt _ (by omega)) heq
        rw [heq, h.hung] at hut
        exact .inr ⟨rfl, by omega, by cases hut; rfl⟩
      · rw [h.rest e _ u _ (by omega) (div_lt_pow hr) hu (Nat.mod_lt _ (by omega)) heq] at hut
        exact .inl (tableAt_succ.2 ⟨u, hu, hut⟩)
    · rw [h.blank _ (Nat.mod_lt _ (by omega))] at hut
      cases hut

/-- Hanging a fresh table keeps the tree separate. -/
theorem Hang.separate (h : Hang child child' root D d q p g) (hsep : Separate child root D) :
    Separate child' root D := by
  refine ⟨fun e r t he hr ht => ?_, fun e e' r r' t he he' hr hr' ht ht' => ?_⟩
  · rcases h.tableAt_inv hsep e r t he hr ht with ht | ⟨-, -, rfl⟩
    · exact hsep.aligned e r t he hr ht
    · exact h.aligned
  · rcases h.tableAt_inv hsep e r t he hr ht with hold | ⟨rfl, rfl, rfl⟩
    · rcases h.tableAt_inv hsep e' r' t he' hr' ht' with hold' | ⟨-, -, rfl⟩
      · exact hsep.inj e e' r r' t he he' hr hr' hold hold'
      · exact absurd hold (h.fresh e r he hr)
    · rcases h.tableAt_inv hsep e' r' t he' hr' ht' with hold' | ⟨rfl, rfl, -⟩
      · exact absurd hold' (h.fresh e' r' he' hr')
      · exact ⟨rfl, rfl⟩

end

end Radix
