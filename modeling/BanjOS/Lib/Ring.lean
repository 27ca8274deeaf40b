import Mathlib.Data.List.Cycle

/-!
# Circular doubly linked lists

Two functions `next` and `prev` on nodes, and the nodes of a ring listed from some node on along
`next`. `IsRing` is the cyclic chain of Mathlib for the relation "linked both ways", so a ring may be
listed from any of its nodes (`IsRing.rotate`). It depends on the pointers of its own nodes only
(`IsRing.congr`). The edits are those of a circular list: a node linked in before the first one
(`IsRing.append`) and the first node linked out (`IsRing.unlink`); `IsRing.rotate` brings any node to
the front.
-/

variable {α : Type}

/-- `b` follows `a`, and both pointers say so. -/
def Linked (next prev : α → α) (a b : α) : Prop := next a = b ∧ prev b = a

/-- The nodes `l`, in this order, form a ring. -/
structure IsRing (next prev : α → α) (l : List α) : Prop where
  nodup : l.Nodup
  chain : (l : Cycle α).Chain (Linked next prev)

section
variable {next prev next' prev' : α → α} {l u v w : List α} {a n x y : α}

/-- A chain of links depends on `next` of all nodes but the last and on `prev` of all but the first. -/
theorem List.IsChain.linked_congr (h : l.IsChain (Linked next prev))
    (hnext : ∀ a ∈ l.dropLast, next' a = next a) (hprev : ∀ a ∈ l.tail, prev' a = prev a) :
    l.IsChain (Linked next' prev') := by
  induction l with
  | nil => exact .nil
  | cons a l ih =>
    cases l with
    | nil => exact .singleton _
    | cons b l =>
      obtain ⟨hab, hl⟩ := List.isChain_cons_cons.1 h
      refine List.isChain_cons_cons.2 ⟨⟨?_, ?_⟩, ih hl (fun c hc => hnext c (.tail _ hc))
        fun c hc => hprev c (.tail _ hc)⟩
      · rw [hnext a (.head _), hab.1]
      · rw [hprev b (.head _), hab.2]

/-- A ring is a chain whose last node is linked to its first. -/
theorem isRing_iff (he : x :: w = u ++ [y]) : IsRing next prev (x :: w) ↔
    (x :: w).Nodup ∧ (x :: w).IsChain (Linked next prev) ∧ Linked next prev y x := by
  have hchain : ((x :: w : List α) : Cycle α).Chain (Linked next prev) ↔
      (x :: w).IsChain (Linked next prev) ∧ Linked next prev y x := by
    rw [Cycle.chain_coe_cons, ← List.cons_append, List.isChain_append, he]
    simp
  exact ⟨fun h => ⟨h.nodup, hchain.1 h.chain⟩, fun h => ⟨h.1, hchain.2 h.2⟩⟩

/-- A list that is not empty has a last element. -/
theorem List.exists_cons_eq_concat (x : α) (w : List α) : ∃ u y, x :: w = u ++ [y] :=
  ⟨_, _, (List.dropLast_append_getLast (List.cons_ne_nil x w)).symm⟩

theorem IsRing.nil : IsRing next prev [] := ⟨.nil, .nil _⟩

/-- A node that points to itself. -/
theorem isRing_singleton : IsRing next prev [a] ↔ Linked next prev a a := by
  rw [isRing_iff (u := []) rfl]
  simp

/-- A ring may be listed from any of its nodes on. -/
theorem IsRing.rotate (h : IsRing next prev (u ++ v)) : IsRing next prev (v ++ u) where
  nodup := List.nodup_append_comm.1 h.nodup
  chain := by
    rw [Cycle.coe_eq_coe.2 List.isRotated_append]
    exact h.chain

/-- A ring depends on the pointers of its own nodes. -/
theorem IsRing.congr (h : IsRing next prev l) (hnext : ∀ a ∈ l, next' a = next a)
    (hprev : ∀ a ∈ l, prev' a = prev a) : IsRing next' prev' l := by
  cases l with
  | nil => exact .nil
  | cons x w =>
    obtain ⟨u, y, he⟩ := List.exists_cons_eq_concat x w
    obtain ⟨hnd, hchain, hyx⟩ := (isRing_iff he).1 h
    have hy : y ∈ x :: w := by
      rw [he]
      exact List.mem_append_right _ (.head _)
    refine (isRing_iff he).2 ⟨hnd, hchain.linked_congr (fun a ha => hnext a (List.mem_of_mem_dropLast ha))
      (fun a ha => hprev a (.tail _ ha)), ?_, ?_⟩
    · rw [hnext y hy, hyx.1]
    · rw [hprev x (.head _), hyx.2]

/-- A ring listed from a node on: its last node is the predecessor. -/
theorem IsRing.exists_prev (h : IsRing next prev l) (ha : a ∈ l) : ∃ b ∈ l, Linked next prev b a := by
  obtain ⟨u, v, rfl⟩ := List.append_of_mem ha
  obtain ⟨w, y, he⟩ := List.exists_cons_eq_concat a (v ++ u)
  have hr : IsRing next prev (a :: (v ++ u)) := h.rotate
  have hy : y ∈ a :: (v ++ u) := by
    rw [he]
    exact List.mem_append_right _ (.head _)
  refine ⟨y, ?_, ((isRing_iff he).1 hr).2.2⟩
  simp only [List.mem_cons, List.mem_append] at hy ⊢
  tauto

/-- A ring listed up to a node: its first node is the successor. -/
theorem IsRing.exists_next (h : IsRing next prev l) (ha : a ∈ l) : ∃ b ∈ l, Linked next prev a b := by
  obtain ⟨u, v, rfl⟩ := List.append_of_mem ha
  have hr : IsRing next prev (v ++ (u ++ [a])) := by
    refine IsRing.rotate ?_
    rwa [List.append_assoc]
  cases hw : v ++ (u ++ [a]) with
  | nil => simp at hw
  | cons b w =>
    have he : b :: w = (v ++ u) ++ [a] := by rw [← hw, List.append_assoc]
    rw [hw] at hr
    have hb : b ∈ v ++ (u ++ [a]) := by
      rw [hw]
      exact .head _
    refine ⟨b, ?_, ((isRing_iff he).1 hr).2.2⟩
    simp only [List.mem_cons, List.mem_append, List.not_mem_nil, or_false] at hb ⊢
    tauto

/-- `next` and `prev` stay in the ring and are inverse to each other on it. -/
theorem IsRing.inverse (h : IsRing next prev l) (ha : a ∈ l) :
    next a ∈ l ∧ prev a ∈ l ∧ prev (next a) = a ∧ next (prev a) = a := by
  obtain ⟨b, hb, hab⟩ := h.exists_next ha
  obtain ⟨c, hc, hca⟩ := h.exists_prev ha
  rw [hab.1, hca.2]
  exact ⟨hb, hc, hab.2, hca.1⟩

/-- The node after the first one. -/
theorem IsRing.next_head (h : IsRing next prev (x :: w)) : (w ++ [x]).head? = some (next x) := by
  cases w with
  | nil => rw [(isRing_singleton.1 h).1, List.nil_append, List.head?_cons]
  | cons y w =>
    have hchain := h.chain
    rw [Cycle.chain_coe_cons, List.cons_append, List.isChain_cons_cons] at hchain
    rw [hchain.1.1, List.cons_append, List.head?_cons]

/-- The nodes of a chain are reached from its first one along `next`. -/
theorem List.IsChain.exists_iterate (h : (x :: w).IsChain (Linked next prev)) (ha : a ∈ x :: w) :
    ∃ k, next^[k] x = a := by
  induction w generalizing x with
  | nil => exact ⟨0, (List.mem_singleton.1 ha).symm⟩
  | cons y w ih =>
    obtain ⟨hxy, hw⟩ := List.isChain_cons_cons.1 h
    rcases List.mem_cons.1 ha with rfl | ha
    · exact ⟨0, rfl⟩
    · obtain ⟨k, hk⟩ := ih hw ha
      exact ⟨k + 1, by rw [Function.iterate_succ_apply, hxy.1, hk]⟩

/-- The nodes of a ring are those reached from any of them along `next`. -/
theorem IsRing.mem_iff_iterate (h : IsRing next prev (x :: w)) : a ∈ x :: w ↔ ∃ k, next^[k] x = a := by
  constructor
  · obtain ⟨u, y, he⟩ := List.exists_cons_eq_concat x w
    exact ((isRing_iff he).1 h).2.1.exists_iterate
  · rintro ⟨k, rfl⟩
    induction k with
    | zero => exact .head _
    | succ k ih =>
      rw [Function.iterate_succ_apply']
      exact (h.inverse ih).1

/-- A node points back to itself iff it is alone. -/
theorem IsRing.prev_eq_self (h : IsRing next prev l) (ha : a ∈ l) : prev a = a ↔ l = [a] := by
  constructor
  · intro hself
    obtain ⟨u, v, rfl⟩ := List.append_of_mem ha
    have hr : IsRing next prev (a :: (v ++ u)) := h.rotate
    cases hw : v ++ u with
    | nil =>
      obtain ⟨rfl, rfl⟩ := List.append_eq_nil_iff.1 hw
      rfl
    | cons x w =>
      rw [hw] at hr
      obtain ⟨w', y, he⟩ := List.exists_cons_eq_concat x w
      have hlink := ((isRing_iff (u := a :: w') (by rw [he, List.cons_append])).1 hr).2.2
      have hya : y = a := hlink.2.symm.trans hself
      refine absurd ?_ (List.nodup_cons.1 hr.nodup).1
      rw [he, ← hya]
      exact List.mem_append_right _ (.head _)
  · rintro rfl
    exact (isRing_singleton.1 h).2

variable [DecidableEq α]

open Function

/-- Linking a node in before the first one. -/
theorem IsRing.append (h : IsRing next prev (x :: w)) (hn : n ∉ x :: w) :
    IsRing (update (update next n x) (prev x) n) (update (update prev n (prev x)) x n)
      (x :: (w ++ [n])) := by
  obtain ⟨u, y, he⟩ := List.exists_cons_eq_concat x w
  obtain ⟨hnd, hchain, hyx⟩ := (isRing_iff he).1 h
  have hnx : n ≠ x := fun hc => hn (hc ▸ .head _)
  have hny : n ≠ y := by
    rintro rfl
    refine hn ?_
    rw [he]
    exact List.mem_append_right _ (.head _)
  have hnd' : (x :: (w ++ [n])).Nodup := by
    rw [← List.cons_append]
    refine List.nodup_append.2 ⟨hnd, List.nodup_singleton n, fun a ha b hb hab => hn ?_⟩
    rwa [← List.mem_singleton.1 hb, ← hab]
  rw [hyx.2]
  refine (isRing_iff (List.cons_append ..).symm).2 ⟨hnd', ?_, ?_, ?_⟩
  · rw [← List.cons_append]
    refine (hchain.linked_congr (fun a ha => ?_) fun a ha => ?_).append (.singleton n) ?_
    · have ha' : a ∈ x :: w := List.mem_of_mem_dropLast ha
      rw [he, List.dropLast_concat] at ha
      have hay : a ≠ y := fun hc => (List.nodup_append.1 (he ▸ hnd)).2.2 a ha y (.head _) hc
      have han : a ≠ n := fun hc => hn (hc ▸ ha')
      rw [update_of_ne hay, update_of_ne han]
    · have hax : a ≠ x := fun hc => (List.nodup_cons.1 hnd).1 (hc ▸ ha)
      have han : a ≠ n := fun hc => hn (hc ▸ .tail _ ha)
      rw [update_of_ne hax, update_of_ne han]
    · rw [he]
      simp only [List.getLast?_concat, List.head?_cons, Option.mem_def, Option.some.injEq]
      rintro _ rfl _ rfl
      exact ⟨update_self .., by rw [update_of_ne hnx, update_self]⟩
  · rw [update_of_ne hny, update_self]
  · rw [update_self]

/-- Linking the first node out. -/
theorem IsRing.unlink_head (h : IsRing next prev (n :: x :: w)) :
    IsRing (update next (prev n) (next n)) (update prev (next n) (prev n)) (x :: w) := by
  obtain ⟨u, y, he⟩ := List.exists_cons_eq_concat x w
  have he' : n :: x :: w = (n :: u) ++ [y] := by rw [he, List.cons_append]
  obtain ⟨hnd, hchain, hyn⟩ := (isRing_iff he').1 h
  obtain ⟨hnx, hchain⟩ := List.isChain_cons_cons.1 hchain
  have hnd := (List.nodup_cons.1 hnd).2
  rw [hyn.2, hnx.1]
  refine (isRing_iff he).2 ⟨hnd, hchain.linked_congr (fun a ha => ?_) fun a ha => ?_, ?_, ?_⟩
  · rw [he, List.dropLast_concat] at ha
    have hay : a ≠ y := fun hc => (List.nodup_append.1 (he ▸ hnd)).2.2 a ha y (.head _) hc
    rw [update_of_ne hay]
  · have hax : a ≠ x := fun hc => (List.nodup_cons.1 hnd).1 (hc ▸ ha)
    rw [update_of_ne hax]
  · rw [update_self]
  · rw [update_self]

/-- Linking any node out of a ring that has others. -/
theorem IsRing.unlink (h : IsRing next prev l) (hn : n ∈ l) (hne : l ≠ [n]) :
    IsRing (update next (prev n) (next n)) (update prev (next n) (prev n)) (l.erase n) := by
  obtain ⟨u, v, rfl⟩ := List.append_of_mem hn
  have hnu : n ∉ u := fun hu => (List.nodup_append.1 h.nodup).2.2 n hu n (.head _) rfl
  rw [List.erase_append_right _ hnu, List.erase_cons_head]
  refine IsRing.rotate ?_
  have hr : IsRing next prev (n :: (v ++ u)) := h.rotate
  cases hw : v ++ u with
  | nil =>
    obtain ⟨rfl, rfl⟩ := List.append_eq_nil_iff.1 hw
    exact absurd rfl hne
  | cons x w =>
    rw [hw] at hr
    exact hr.unlink_head

end
