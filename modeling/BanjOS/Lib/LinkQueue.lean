import Mathlib.Data.List.Nodup
import Mathlib.Logic.Function.Iterate

/-!
# Singly linked queues

A queue with a head and a tail pointer whose nodes are linked by `next`; the last node and an empty queue
point to `null`. `IsLinkQueue` lists the nodes from the head on. A node is linked in at the tail
(`IsLinkQueue.push`) and out at the head (`IsLinkQueue.pop`); the nodes are those that `next` leads to from
the head (`IsLinkQueue.reaches_iff`).
-/

variable {α : Type}

/-- The nodes `l`, in this order, form a queue. -/
structure IsLinkQueue (null : α) (next : α → α) (head tail : α) (l : List α) : Prop where
  head_eq : head = l.headD null
  tail_eq : tail = l.getLastD null
  chain : (l ++ [null]).IsChain fun a b => next a = b
  nodup : l.Nodup
  null_notMem : null ∉ l

/-- The node `a` is reached from `head` along `next`, without passing `null`. -/
def LinkReaches (null : α) (next : α → α) (head a : α) : Prop :=
  ∃ k, (∀ i ≤ k, next^[i] head ≠ null) ∧ next^[k] head = a

section
variable {null head tail a : α} {next next' : α → α} {l : List α}

/-- The links of a queue are those of its nodes. -/
theorem isChain_next_congr (h : (l ++ [null]).IsChain fun a b => next a = b)
    (hnext : ∀ a ∈ l, next' a = next a) : (l ++ [null]).IsChain fun a b => next' a = b := by
  induction l with
  | nil => exact .singleton _
  | cons b l ih =>
    have hb := hnext b (.head _)
    have ih := fun h => ih h fun a ha => hnext a (.tail _ ha)
    cases l with
    | nil => exact List.isChain_cons_cons.2 ⟨hb.trans (List.isChain_cons_cons.1 h).1, .singleton _⟩
    | cons c l =>
      obtain ⟨hbc, htail⟩ := List.isChain_cons_cons.1 h
      exact List.isChain_cons_cons.2 ⟨hb.trans hbc, ih htail⟩

theorem IsLinkQueue.nil : IsLinkQueue null next null null [] :=
  ⟨rfl, rfl, .singleton _, .nil, List.not_mem_nil⟩

/-- The head is null iff the queue is empty. -/
theorem IsLinkQueue.head_eq_null (h : IsLinkQueue null next head tail l) : head = null ↔ l = [] := by
  rw [h.head_eq]
  cases l with
  | nil => simp
  | cons b l =>
    have hb : b ≠ null := fun hb => h.null_notMem (hb ▸ .head _)
    simp [hb]

/-- So is the tail. -/
theorem IsLinkQueue.tail_eq_null (h : IsLinkQueue null next head tail l) : tail = null ↔ l = [] := by
  rw [h.tail_eq]
  cases l with
  | nil => simp
  | cons b l =>
    have hb : (b :: l).getLast (List.cons_ne_nil b l) ≠ null := fun hb =>
      h.null_notMem (hb ▸ List.getLast_mem _)
    simpa [List.getLastD_eq_getLast?, List.getLast?_eq_some_getLast] using hb

/-- A queue depends on the links of its nodes only. -/
theorem IsLinkQueue.congr (h : IsLinkQueue null next head tail l) (hnext : ∀ a ∈ l, next' a = next a) :
    IsLinkQueue null next' head tail l :=
  ⟨h.head_eq, h.tail_eq, isChain_next_congr h.chain hnext, h.nodup, h.null_notMem⟩

variable [DecidableEq α]

theorem IsLinkQueue.push_nil (ha : a ≠ null) : IsLinkQueue null (Function.update next a null) a a [a] where
  head_eq := rfl
  tail_eq := rfl
  chain := List.isChain_cons_cons.2 ⟨Function.update_self .., .singleton _⟩
  nodup := List.nodup_singleton a
  null_notMem := fun h => ha (List.mem_singleton.1 h).symm

/-- The chain of a queue, with a new node after its last one. -/
theorem isChain_push (h : (l ++ [null]).IsChain fun a b => next a = b) (hl : l ≠ []) (hnodup : l.Nodup)
    (ha : a ∉ l) : (l ++ [a] ++ [null]).IsChain fun x y =>
      Function.update (Function.update next a null) (l.getLastD null) a x = y := by
  induction l with
  | nil => exact absurd rfl hl
  | cons b l ih =>
    obtain ⟨hb, hnodup⟩ := List.nodup_cons.1 hnodup
    cases l with
    | nil =>
      have hab : a ≠ b := fun h => ha (h ▸ .head _)
      refine List.isChain_cons_cons.2 ⟨Function.update_self .., List.isChain_cons_cons.2 ⟨?_, .singleton _⟩⟩
      rw [List.getLastD_cons, List.getLastD_nil, Function.update_of_ne hab, Function.update_self]
    | cons c l =>
      obtain ⟨hbc, htail⟩ := List.isChain_cons_cons.1 h
      have hbl : b ≠ l.getLastD c := fun h => hb (h ▸ List.getLastD_mem_cons)
      have hba : b ≠ a := fun h => ha (h ▸ .head _)
      refine List.isChain_cons_cons.2 ⟨?_, ih htail (List.cons_ne_nil c l) hnodup fun h => ha (.tail _ h)⟩
      rw [List.getLastD_cons, List.getLastD_cons, Function.update_of_ne hbl, Function.update_of_ne hba]
      exact hbc

/-- A new node at the tail of a queue that is not empty. -/
theorem IsLinkQueue.push (h : IsLinkQueue null next head tail l) (hl : l ≠ []) (ha : a ≠ null)
    (hal : a ∉ l) :
    IsLinkQueue null (Function.update (Function.update next a null) tail a) head a (l ++ [a]) where
  head_eq := by
    rw [h.head_eq]
    cases l with
    | nil => exact absurd rfl hl
    | cons b l => rfl
  tail_eq := by simp
  chain := by
    rw [h.tail_eq]
    exact isChain_push h.chain hl h.nodup hal
  nodup := by
    rw [List.nodup_append]
    exact ⟨h.nodup, List.nodup_singleton a, fun b hb c hc hbc => hal (by
      rwa [hbc, List.mem_singleton.1 hc] at hb)⟩
  null_notMem := by simpa [h.null_notMem] using ha.symm

/-- The node after the head becomes the head. -/
theorem IsLinkQueue.pop (h : IsLinkQueue null next head tail (a :: l)) :
    IsLinkQueue null (Function.update next a null) (next a) (if next a = null then null else tail) l := by
  obtain ⟨hal, hnodup⟩ := List.nodup_cons.1 h.nodup
  have hl : null ∉ l := fun hn => h.null_notMem (.tail _ hn)
  have hnext : next a = l.headD null := by
    cases l with
    | nil => exact (List.isChain_cons_cons.1 h.chain).1
    | cons b l => exact (List.isChain_cons_cons.1 h.chain).1
  have hchain : (l ++ [null]).IsChain fun a b => next a = b := by
    cases l with
    | nil => exact .singleton _
    | cons b l => exact (List.isChain_cons_cons.1 h.chain).2
  refine ⟨hnext, ?_, isChain_next_congr hchain fun b hb => ?_, hnodup, hl⟩
  · rw [hnext, h.tail_eq]
    cases l with
    | nil => simp
    | cons b l =>
      have hb : b ≠ null := fun hb => hl (hb ▸ .head _)
      simp [hb]
  · have hba : b ≠ a := fun hba => hal (hba ▸ hb)
    exact Function.update_of_ne hba ..

omit [DecidableEq α]

/-- The nodes of a chain that ends at `null` are those reached from its first one. -/
theorem linkReaches_iff (h : (l ++ [null]).IsChain fun a b => next a = b) (hl : null ∉ l) :
    LinkReaches null next (l.headD null) a ↔ a ∈ l := by
  induction l with
  | nil =>
    refine iff_of_false ?_ List.not_mem_nil
    rintro ⟨k, hk, -⟩
    exact hk 0 (Nat.zero_le k) rfl
  | cons b l ih =>
    have hb : b ≠ null := fun hb => hl (hb ▸ .head _)
    obtain ⟨hnext, hchain⟩ : next b = l.headD null ∧ (l ++ [null]).IsChain fun a b => next a = b := by
      cases l with
      | nil => exact List.isChain_cons_cons.1 h
      | cons c l => exact List.isChain_cons_cons.1 h
    have ih := ih hchain fun hn => hl (.tail _ hn)
    rw [List.mem_cons, ← ih, ← hnext]
    constructor
    · rintro ⟨k, hk, rfl⟩
      cases k with
      | zero => exact .inl rfl
      | succ k => exact .inr ⟨k, fun i hi => hk (i + 1) (Nat.succ_le_succ hi), rfl⟩
    · rintro (rfl | ⟨k, hk, rfl⟩)
      · refine ⟨0, fun i hi => ?_, rfl⟩
        rw [Nat.le_zero.1 hi]
        exact hb
      · refine ⟨k + 1, fun i hi => ?_, rfl⟩
        cases i with
        | zero => exact hb
        | succ i => exact hk i (Nat.le_of_succ_le_succ hi)

/-- The nodes of a queue are those reached from its head. -/
theorem IsLinkQueue.reaches_iff (h : IsLinkQueue null next head tail l) :
    LinkReaches null next head a ↔ a ∈ l := by
  rw [h.head_eq]
  exact linkReaches_iff h.chain h.null_notMem

end
