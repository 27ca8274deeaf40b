import Mathlib.Data.List.Nodup
import Mathlib.Data.List.Rotate

/-!
# Round-robin queues

A queue of tasks from which the next one to serve is chosen at the head. A step may let the current task
leave first, and the chosen task may go to the end of the queue (`cycle`, `leave`) or stay at the head
(`take`). A run is a sequence of queues, current tasks and events; `fair_iff` says when it is fair: between
two choices of a task, every other task that stays in the queue is chosen.
-/

namespace RoundRobin

variable {α : Type}

/-- What a step does: nothing is chosen; the head is chosen and goes to the end; the current task leaves,
and then the head is chosen and goes to the end, or stays where it is. -/
inductive Event (α : Type)
  | quiet
  | cycle (a : α)
  | leave (a : α)
  | take (a : α)

/-- The task that an event chooses. -/
def Event.chosen : Event α → Option α
  | .quiet => none
  | .cycle a | .leave a | .take a => some a

/-- An event that takes the head and leaves it there. -/
def Event.IsTake : Event α → Prop
  | .take _ => True
  | _ => False

/-- An event by which the head goes to the end and no task leaves. -/
def Event.IsCycle : Event α → Prop
  | .cycle _ => True
  | _ => False

variable [DecidableEq α]

/-- A step from the queue `l` with the current task `c`. From an empty queue any task may be chosen. -/
inductive Step : List α → α → Event α → List α → α → Prop
  | quiet {l : List α} {c : α} (m : List α) : Step l c .quiet (l ++ m) c
  | cycle {l : List α} {c a c' : α} : l.headD a = a → (l ≠ [] → c' = a) →
      Step l c (.cycle a) (l.rotate 1) c'
  | leave {l : List α} {c a c' : α} : c ∈ l → (l.erase c).headD a = a → (l.erase c ≠ [] → c' = a) →
      Step l c (.leave a) ((l.erase c).rotate 1) c'
  | take {l : List α} {c a c' : α} : c ∈ l → (l.erase c).headD a = a → (l.erase c ≠ [] → c' = a) →
      Step l c (.take a) (l.erase c) c'

/-! ## Order in the queue -/

section
variable {l m : List α} {x y c a : α}

theorem idxOf_lt_append (h : l.idxOf x < l.idxOf y) : (l ++ m).idxOf x < (l ++ m).idxOf y := by
  have hx : x ∈ l := List.idxOf_lt_length_iff.1 (h.trans_le List.idxOf_le_length)
  have hlen := List.idxOf_lt_length_iff.2 hx
  rw [List.idxOf_append, List.idxOf_append, if_pos hx]
  split
  · exact h
  · omega

/-- A task that is in the queue is before one that is not. -/
theorem idxOf_lt_of_notMem (hx : x ∈ l) (hy : y ∉ l) : l.idxOf x < l.idxOf y := by
  rw [List.idxOf_of_notMem hy]
  exact List.idxOf_lt_length_iff.2 hx

/-- The order stays when the head, neither of the two, goes to the end. -/
theorem idxOf_lt_rotate (h : (a :: l).idxOf x < (a :: l).idxOf y) (hx : a ≠ x) :
    a ≠ y ∧ ((a :: l).rotate 1).idxOf x < ((a :: l).rotate 1).idxOf y := by
  have hy : a ≠ y := by
    rintro rfl
    simp at h
  rw [List.idxOf_cons_ne _ hx, List.idxOf_cons_ne _ hy] at h
  rw [List.rotate_cons_succ, List.rotate_zero]
  exact ⟨hy, idxOf_lt_append (Nat.lt_of_succ_lt_succ h)⟩

/-- The order stays when another task than the first of the two leaves. -/
theorem idxOf_lt_erase (h : l.idxOf x < l.idxOf y) (hx : c ≠ x) :
    (l.erase c).idxOf x < (l.erase c).idxOf y := by
  induction l with
  | nil => simp at h
  | cons b l ih =>
    by_cases hbc : b = c
    · subst hbc
      rw [List.erase_cons_head]
      rw [List.idxOf_cons_ne _ hx] at h
      by_cases hby : b = y
      · subst hby
        simp at h
      · rw [List.idxOf_cons_ne _ hby] at h
        exact Nat.lt_of_succ_lt_succ h
    · rw [List.erase_cons_tail (by simpa using hbc)]
      by_cases hbx : b = x
      · subst hbx
        have hby : b ≠ y := by
          rintro rfl
          simp at h
        rw [List.idxOf_cons_self, List.idxOf_cons_ne _ hby]
        omega
      · have hby : b ≠ y := by
          rintro rfl
          simp at h
        rw [List.idxOf_cons_ne _ hbx, List.idxOf_cons_ne _ hby] at h ⊢
        exact Nat.succ_lt_succ (ih (Nat.lt_of_succ_lt_succ h))

end

/-! ## Steps -/

/-- The task `x` is served before `y`: it is in the queue, before `y` if that is there too, and it is not
the current task. -/
def Waits (x y : α) (l : List α) (c : α) : Prop := l.idxOf x < l.idxOf y ∧ c ≠ x

section
variable {l l' : List α} {x y c c' a : α} {e : Event α}

theorem Waits.mem (h : Waits x y l c) : x ∈ l :=
  List.idxOf_lt_length_iff.1 (h.1.trans_le List.idxOf_le_length)

/-- The head is chosen and goes to the end. -/
theorem idxOf_lt_cycle (h : l.idxOf x < l.idxOf y) (ha : l.headD a = a) (hx : a ≠ x) :
    a ≠ y ∧ (l.rotate 1).idxOf x < (l.rotate 1).idxOf y := by
  cases l with
  | nil => simp at h
  | cons b l =>
    obtain rfl : b = a := ha
    exact idxOf_lt_rotate h hx

/-- The chosen head is behind all others. -/
theorem idxOf_lt_chosen (hl : (l.rotate 1).Nodup) (ha : l.headD a = a) (hx : x ∈ l.rotate 1)
    (hxa : x ≠ a) : (l.rotate 1).idxOf x < (l.rotate 1).idxOf a := by
  cases l with
  | nil => simp at hx
  | cons b l =>
    obtain rfl : b = a := ha
    rw [List.rotate_cons_succ, List.rotate_zero] at hl hx ⊢
    have hb : b ∉ l := fun hb => List.disjoint_of_nodup_append hl hb (List.mem_singleton_self b)
    have hxl : x ∈ l := by simpa [hxa] using hx
    have hlt := List.idxOf_lt_length_iff.2 hxl
    rw [List.idxOf_append_of_mem hxl, List.idxOf_append_of_notMem hb]
    omega

/-- A step that does not choose `x` does not choose `y`, and `x` goes on waiting. -/
theorem Step.waits (hstep : Step l c e l' c') (h : Waits x y l c) (hx : e.chosen ≠ some x) :
    e.chosen ≠ some y ∧ Waits x y l' c' := by
  have hmem := h.mem
  obtain ⟨hlt, hc⟩ := h
  have hmem' : x ∈ l.erase c := (List.mem_erase_of_ne hc.symm).2 hmem
  have hne : ∀ a, e.chosen = some a → a ≠ x := fun a ha hax => hx (hax ▸ ha)
  cases hstep with
  | quiet m => exact ⟨by simp [Event.chosen], idxOf_lt_append hlt, hc⟩
  | cycle ha hcur =>
    obtain ⟨hay, hlt'⟩ := idxOf_lt_cycle hlt ha (hne _ rfl)
    exact ⟨fun h => hay (Option.some.inj h), hlt', hcur (List.ne_nil_of_mem hmem) ▸ hne _ rfl⟩
  | leave _ ha hcur =>
    obtain ⟨hay, hlt'⟩ := idxOf_lt_cycle (idxOf_lt_erase hlt hc) ha (hne _ rfl)
    exact ⟨fun h => hay (Option.some.inj h), hlt', hcur (List.ne_nil_of_mem hmem') ▸ hne _ rfl⟩
  | take _ ha hcur =>
    obtain ⟨hay, -⟩ := idxOf_lt_cycle (idxOf_lt_erase hlt hc) ha (hne _ rfl)
    exact ⟨fun h => hay (Option.some.inj h), idxOf_lt_erase hlt hc,
      hcur (List.ne_nil_of_mem hmem') ▸ hne _ rfl⟩

/-- After a step that chooses `y` and is no `take`, all others in the queue wait for their turn. -/
theorem Step.waits_of_chosen (hstep : Step l c e l' c') (hl' : l'.Nodup) (hy : e.chosen = some y)
    (htake : ¬ e.IsTake) (hx : x ∈ l') (hxy : x ≠ y) : Waits x y l' c' := by
  cases hstep with
  | quiet m => cases hy
  | cycle ha hcur =>
    obtain rfl := Option.some.inj hy
    exact ⟨idxOf_lt_chosen hl' ha hx hxy, hcur (List.ne_nil_of_mem (List.mem_rotate.1 hx)) ▸ hxy.symm⟩
  | leave _ ha hcur =>
    obtain rfl := Option.some.inj hy
    exact ⟨idxOf_lt_chosen hl' ha hx hxy, hcur (List.ne_nil_of_mem (List.mem_rotate.1 hx)) ▸ hxy.symm⟩
  | take => exact absurd trivial htake

/-- After a `take`, and until the next choice, the current task is at the head and `x` behind it. -/
def Held (x y : α) (l : List α) (c : α) : Prop := (∃ w, l = y :: w ∧ x ∈ w) ∧ c = y

/-- A task that is taken is the current one, and it stays at the head. -/
theorem Step.head_of_take (hstep : Step l c e l' c') (htake : e.IsTake) (hx : x ∈ l') :
    ∃ w, l' = c' :: w ∧ e.chosen = some c' := by
  cases hstep with
  | take _ ha hcur =>
    have hne := List.ne_nil_of_mem hx
    obtain ⟨b, w, hw⟩ := List.exists_cons_of_ne_nil hne
    rw [hw] at ha
    obtain rfl : b = _ := ha
    rw [hw, hcur hne]
    exact ⟨w, rfl, rfl⟩
  | _ => cases htake

theorem Step.held_of_take (hstep : Step l c e l' c') (hy : e.chosen = some y) (htake : e.IsTake)
    (hx : x ∈ l') (hxy : x ≠ y) : Held x y l' c' := by
  obtain ⟨w, rfl, hc⟩ := hstep.head_of_take htake hx
  obtain rfl : c' = y := Option.some.inj (hc.symm.trans hy)
  exact ⟨⟨w, rfl, (List.mem_cons.1 hx).resolve_left hxy⟩, rfl⟩

/-- A `cycle` chooses the head. -/
theorem Step.chosen_of_cycle {w : List α} (hstep : Step (a :: w) c e l' c') (hcycle : e.IsCycle) :
    e.chosen = some a := by
  cases hstep with
  | cycle ha _ => exact congrArg some ha.symm
  | _ => cases hcycle

/-- A step from there: nothing is chosen, or the head is chosen again, or it leaves and `x` waits for its
turn or is chosen. -/
theorem Step.held (hstep : Step l c e l' c') (h : Held x y l c) (hl : l.Nodup) (hcycle : ¬ e.IsCycle) :
    (e.chosen = none ∧ Held x y l' c') ∨
      (e.chosen ≠ some y ∧ (e.chosen ≠ some x → Waits x y l' c')) := by
  obtain ⟨⟨w, rfl, hx⟩, rfl⟩ := h
  obtain ⟨hy, -⟩ := List.nodup_cons.1 hl
  have hchosen : ∀ {a : α}, w.headD a = a → a ≠ c := by
    rintro a ha rfl
    obtain ⟨b, w', rfl⟩ := List.exists_cons_of_ne_nil (List.ne_nil_of_mem hx)
    obtain rfl : b = a := ha
    exact hy (.head _)
  cases hstep with
  | quiet m => exact .inl ⟨rfl, ⟨w ++ m, rfl, List.mem_append_left _ hx⟩, rfl⟩
  | cycle => exact absurd trivial hcycle
  | leave _ ha hcur =>
    rw [List.erase_cons_head] at ha hcur ⊢
    refine .inr ⟨fun h => hchosen ha (Option.some.inj h), fun hne => ⟨?_, ?_⟩⟩
    · exact idxOf_lt_of_notMem (List.mem_rotate.2 hx) fun h => hy (List.mem_rotate.1 h)
    · rw [hcur (List.ne_nil_of_mem hx)]
      exact fun h => hne (congrArg some h)
  | take _ ha hcur =>
    rw [List.erase_cons_head] at ha hcur ⊢
    refine .inr ⟨fun h => hchosen ha (Option.some.inj h), fun hne => ⟨idxOf_lt_of_notMem hx hy, ?_⟩⟩
    rw [hcur (List.ne_nil_of_mem hx)]
    exact fun h => hne (congrArg some h)

end

/-! ## Runs -/

/-- A run of `n` steps. -/
structure Run (l : Nat → List α) (c : Nat → α) (e : Nat → Event α) (n : Nat) : Prop where
  step : ∀ i < n, Step (l i) (c i) (e i) (l (i + 1)) (c (i + 1))
  nodup : ∀ i ≤ n, (l i).Nodup

/-- Between two choices of `y` one after the other, every other task that stays in the queue is chosen. -/
def Fair (l : Nat → List α) (e : Nat → Event α) (n : Nat) : Prop :=
  ∀ i j x y, i < j → j < n → (e i).chosen = some y → (e j).chosen = some y →
    (∀ k, i < k → k < j → (e k).chosen ≠ some y) → x ≠ y → (∀ k, i < k → k ≤ j → x ∈ l k) →
    ∃ k, i < k ∧ k < j ∧ (e k).chosen = some x

/-- A task that is taken at the head is alone in the queue if the next choice is a `cycle`. -/
def TakenAlone (l : Nat → List α) (e : Nat → Event α) (n : Nat) : Prop :=
  ∀ i j, i < j → j < n → (e i).IsTake → (e j).IsCycle → (∀ k, i < k → k < j → (e k).chosen = none) →
    ∀ x ∈ l (i + 1), (e i).chosen = some x

section
variable {l : Nat → List α} {c : Nat → α} {e : Nat → Event α} {n i j : Nat} {x y : α}

/-- Where `x` is between two choices of `y`, while it is not chosen itself: waiting for its turn or,
after a `take` and until the next choice, behind the head. -/
theorem Run.waits_or_held (h : Run l c e n) (halone : TakenAlone l e n) (hj : j < n) (hij : i < j)
    (hy : (e i).chosen = some y) (hx : x ∈ l (i + 1)) (hxy : x ≠ y)
    (hnone : ∀ k, i < k → k < j → (e k).chosen ≠ some x) {k : Nat} (hik : i + 1 ≤ k) (hkj : k ≤ j) :
    Waits x y (l k) (c k) ∨ Held x y (l k) (c k) ∧ ¬ (e k).IsCycle ∧
      ((e i).IsTake ∧ ∀ k', i < k' → k' < k → (e k').chosen = none) := by
  -- after a `take` with `x` in the queue, the next choice is no `cycle`
  have hcycle : ∀ k ≤ j, i < k → (e i).IsTake → (∀ k', i < k' → k' < k → (e k').chosen = none) →
      ¬ (e k).IsCycle := by
    intro k hkj hik htake hquiet hcyc
    have := halone i k hik (by omega) htake hcyc hquiet x hx
    rw [hy] at this
    exact hxy (Option.some.inj this).symm
  induction k, hik using Nat.le_induction with
  | base =>
    have hstep := h.step i (by omega)
    by_cases htake : (e i).IsTake
    · have hquiet : ∀ k', i < k' → k' < i + 1 → (e k').chosen = none := fun k' h₁ h₂ => by omega
      exact .inr ⟨hstep.held_of_take hy htake hx hxy, hcycle _ hkj (by omega) htake hquiet, htake, hquiet⟩
    · exact .inl (hstep.waits_of_chosen (h.nodup _ (by omega)) hy htake hx hxy)
  | succ k hik ih =>
    have hstep := h.step k (by omega)
    have hk := hnone k (by omega) (by omega)
    rcases ih (by omega) with hwaits | ⟨hheld, hcyc, htake, hquiet⟩
    · exact .inl (hstep.waits hwaits hk).2
    · rcases hstep.held hheld (h.nodup _ (by omega)) hcyc with ⟨hnone', hheld'⟩ | ⟨-, hwaits⟩
      · have hquiet' : ∀ k', i < k' → k' < k + 1 → (e k').chosen = none := by
          intro k' h₁ h₂
          rcases Nat.lt_succ_iff_lt_or_eq.1 h₂ with h₂ | rfl
          · exact hquiet k' h₁ h₂
          · exact hnone'
        exact .inr ⟨hheld', hcycle _ hkj (by omega) htake hquiet', htake, hquiet'⟩
      · exact .inl (hwaits hk)

/-- A run in which no task that was taken in front of others is cycled next is fair. -/
theorem Run.fair (h : Run l c e n) (halone : TakenAlone l e n) : Fair l e n := by
  intro i j x y hij hj hyi hyj _ hxy hstay
  by_contra hnone
  simp only [not_exists, not_and] at hnone
  have hstep := h.step j hj
  rcases h.waits_or_held halone hj hij hyi (hstay _ (by omega) hij) hxy hnone hij le_rfl with
    hwaits | ⟨hheld, hcyc, -⟩
  · have hx : (e j).chosen ≠ some x := by
      rw [hyj]
      exact fun h => hxy (Option.some.inj h).symm
    exact (hstep.waits hwaits hx).1 hyj
  · rcases hstep.held hheld (h.nodup _ hj.le) hcyc with ⟨hnone', -⟩ | ⟨hne, -⟩
    · rw [hyj] at hnone'
      cases hnone'
    · exact hne hyj

/-- While nothing is chosen the queue only grows at its end. -/
theorem Run.isPrefix_of_quiet (h : Run l c e n) (hij : i ≤ j) (hj : j ≤ n)
    (hquiet : ∀ k, i ≤ k → k < j → (e k).chosen = none) : l i <+: l j := by
  induction j, hij using Nat.le_induction with
  | base => exact List.prefix_rfl
  | succ j hij ih =>
    have hl := ih (by omega) fun k h₁ h₂ => hquiet k h₁ (by omega)
    have hstep := h.step j (by omega)
    have hnone := hquiet j hij (by omega)
    cases he : e j with
    | quiet =>
      rw [he] at hstep
      generalize l (j + 1) = l', c (j + 1) = c' at hstep ⊢
      cases hstep with
      | quiet m => exact hl.trans (List.prefix_append _ _)
    | _ => simp [he, Event.chosen] at hnone

/-- A run is fair iff no task that was taken in front of others is cycled next. -/
theorem Run.fair_iff (h : Run l c e n) : Fair l e n ↔ TakenAlone l e n := by
  refine ⟨fun hfair i j hij hj htake hcyc hquiet x hx => ?_, h.fair⟩
  obtain ⟨w, hl, hi⟩ := (h.step i (by omega)).head_of_take htake hx
  have hgrow : ∀ k, i < k → k ≤ j → l (i + 1) <+: l k := fun k hik hkj =>
    h.isPrefix_of_quiet hik (by omega) fun k' h₁ h₂ => hquiet k' (by omega) (by omega)
  -- the taken task is still at the head when the next one is chosen
  obtain ⟨m, hm⟩ := hgrow j hij le_rfl
  rw [hl] at hm
  have hstep := h.step j hj
  rw [← hm] at hstep
  by_contra hxi
  rw [hi, Option.some_inj] at hxi
  obtain ⟨k, hik, hkj, hk⟩ := hfair i j x (c (i + 1)) hij hj hi (hstep.chosen_of_cycle hcyc)
    (fun k h₁ h₂ => by simp [hquiet k h₁ h₂]) (fun h => hxi h.symm)
    fun k hik hkj => (hgrow k hik hkj).subset hx
  rw [hquiet k hik hkj] at hk
  cases hk

end

end RoundRobin
