import BanjOS.Processes.Queues

/-!
# The process queues are FIFO lists

What the operations of `processes.c` do to a queue, read from its head along `next`, whatever the other queues
look like. `PROC_unblock_all` is the one operation on two queues: it takes the nodes of one off its head, one
after the other, and puts them at the end of the ready queue.
-/

namespace BanjOS

section
variable {st : ProcStatics} {s : Sched} {q n : Nat} {l ready : List Nat}

/-- `PROC_unblock_head` moves the head of a queue to the end of the ready queue. -/
theorem IsQueue.procUnblockHead (h : IsQueue s q (n :: l)) (hready : IsQueue s st.availProcs ready) (hq : q ≠ 0)
    (hqr : q ≠ st.availProcs) (hdis : List.Disjoint (n :: l) ready) :
    ∃ s', procUnblockHead st q s = .ok s' ∧ IsQueue s' q l ∧ IsQueue s' st.availProcs (ready ++ [n]) := by
  have hn : n ∈ n :: l := .head l
  have hn0 := h.mem_ne_zero hn
  obtain ⟨s₁, hunlink, hq₁, hframe₁⟩ := h.unlinkProc hq hn
  rw [List.erase_cons_head] at hq₁
  have hready₁ : IsQueue s₁ st.availProcs ready := hframe₁.isQueue hready hqr.symm fun m hm hm' => hdis hm' hm
  obtain ⟨s₂, happend, hready₂, hframe₂⟩ := hready₁.appendProc st.availProcs_ne hn0 (hdis hn)
  refine ⟨s₂, ?_, hframe₂.isQueue hq₁ hqr fun m hm hm' => ?_, hready₂⟩
  · simp [BanjOS.procUnblockHead, loadHead_eq hq, h.head_cons, hn0, hunlink, happend]
  · rcases hm' with rfl | hm'
    · exact (List.nodup_cons.1 h.ring.nodup).1 hm
    · exact hdis (.tail _ hm) hm'

/-- `PROC_unblock_all` moves all nodes of a queue to the end of the ready queue, in their order. -/
theorem IsQueue.procUnblockAll (h : IsQueue s q l) (hready : IsQueue s st.availProcs ready) (hq : q ≠ 0)
    (hqr : q ≠ st.availProcs) (hdis : List.Disjoint l ready) {fuel : Nat} (hfuel : l.length < fuel) :
    ∃ s', procUnblockAll st q fuel s = some (.ok s') ∧ IsQueue s' q [] ∧
      IsQueue s' st.availProcs (ready ++ l) := by
  obtain ⟨fuel, rfl⟩ : ∃ f, fuel = f + 1 := ⟨fuel - 1, by omega⟩
  induction l generalizing s ready fuel with
  | nil =>
    have hhead : s.head q = 0 := h.head_eq
    exact ⟨s, by simp [BanjOS.procUnblockAll, loadHead_eq hq, hhead], h, by rwa [List.append_nil]⟩
  | cons n l ih =>
    have hn0 := h.mem_ne_zero (.head l)
    have hnl := (List.nodup_cons.1 h.ring.nodup).1
    obtain ⟨s₁, hstep, hq₁, hready₁⟩ := h.procUnblockHead hready hq hqr hdis
    have hdis₁ : List.Disjoint l (ready ++ [n]) := by
      refine List.disjoint_append_right.2 ⟨fun m hm hm' => hdis (.tail _ hm) hm', fun m hm hm' => ?_⟩
      exact hnl (List.mem_singleton.1 hm' ▸ hm)
    rw [List.length_cons] at hfuel
    obtain ⟨fuel, rfl⟩ : ∃ f, fuel = f + 1 := ⟨fuel - 1, by omega⟩
    obtain ⟨s₂, hrest, hq₂, hready₂⟩ := ih hq₁ hready₁ hdis₁ fuel (by omega)
    rw [List.append_assoc, List.singleton_append] at hready₂
    refine ⟨s₂, ?_, hq₂, hready₂⟩
    rw [BanjOS.procUnblockAll]
    simp only [loadHead_eq hq, h.head_cons, ne_eq, hn0, not_false_eq_true, if_true, hstep]
    exact hrest

end

/-- The queues of `processes.c` are FIFO lists. For every well-formed queue that reads `l` from its head:
`append_proc` puts a node at the end, `unlink_proc` takes a node out and leaves the order of the others (after
the head it is the next one that comes first), `cycle_next_proc` returns the head and turns the list by one,
and `PROC_unblock_all` returns with the queue empty and its nodes, in their order, at the end of the ready
queue. -/
theorem queue_fifo {st : ProcStatics} {s : Sched} {q : Nat} {l : List Nat} (hq : q ≠ 0) (h : IsQueue s q l) :
    (∀ n, n ≠ 0 → n ∉ l → ∃ s', appendProc n q s = .ok s' ∧ IsQueue s' q (l ++ [n])) ∧
    (∀ n ∈ l, ∃ s', unlinkProc n q s = .ok s' ∧ IsQueue s' q (l.erase n)) ∧
    (∃ s', cycleNextProc q s = .ok (l.headD 0, s') ∧ IsQueue s' q (l.rotate 1)) ∧
    ∀ ready, IsQueue s st.availProcs ready → q ≠ st.availProcs → List.Disjoint l ready →
      ∀ fuel, l.length < fuel → ∃ s', procUnblockAll st q fuel s = some (.ok s') ∧ IsQueue s' q [] ∧
        IsQueue s' st.availProcs (ready ++ l) := by
  refine ⟨fun n hn0 hn => ?_, fun n hn => ?_, ?_, fun ready hready hqr hdis fuel hfuel => ?_⟩
  · obtain ⟨s', hok, hqueue, -⟩ := h.appendProc hq hn0 hn
    exact ⟨s', hok, hqueue⟩
  · obtain ⟨s', hok, hqueue, -⟩ := h.unlinkProc hq hn
    exact ⟨s', hok, hqueue⟩
  · obtain ⟨s', hok, hqueue, -⟩ := h.cycleNextProc hq
    exact ⟨s', hok, hqueue⟩
  · exact h.procUnblockAll hready hq hqr hdis hfuel

/-- Two threads that wait on a queue, in the order in which `PROC_unblock_all` makes them ready. -/
theorem queue_fifo_two_waiters : ∃ s s', IsQueue s 0x20 [0x3000, 0x6000] ∧
    procUnblockAll someProcStatics 0x20 3 s = some (.ok s') ∧ IsQueue s' 0x20 [] ∧
      IsQueue s' someProcStatics.availProcs [0x3000, 0x6000] := by
  have hempty : ∀ q, IsQueue emptySched q [] := fun q => ⟨rfl, .nil, List.not_mem_nil⟩
  obtain ⟨s₁, -, hq₁, hframe₁⟩ := (hempty 0x20).appendProc (by decide) (n := 0x3000) (by decide) List.not_mem_nil
  obtain ⟨s₂, -, hq₂, hframe₂⟩ := hq₁.appendProc (by decide) (n := 0x6000) (by decide) (by decide)
  have hready : IsQueue s₂ someProcStatics.availProcs [] :=
    hframe₂.isQueue (hframe₁.isQueue (hempty _) (by decide) (by simp)) (by decide) (by simp)
  obtain ⟨-, -, -, hall⟩ := @queue_fifo someProcStatics _ _ _ (by decide) hq₂
  obtain ⟨s₃, hok, hq₃, hready₃⟩ := hall [] hready (by decide) (List.disjoint_nil_right _) 3 (by decide)
  exact ⟨s₂, s₃, hq₂, hok, hq₃, hready₃⟩

end BanjOS
