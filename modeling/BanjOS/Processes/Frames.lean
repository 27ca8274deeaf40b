import BanjOS.Processes.Queues

/-!
# What the scheduler leaves alone

An operation on one queue changes neither the heads of the other queues nor the running thread
(`HeadFrame`) nor `next_proc` (`QueueEdit`), whatever the queues look like; a context switch changes no
queue.
-/

namespace BanjOS

/-- Only the head of `queue` may change, and not the running thread. -/
structure HeadFrame (queue : Nat) (s s' : Sched) : Prop where
  head : ∀ q, q ≠ queue → s'.head q = s.head q
  curProc : s'.curProc = s.curProc

section
variable {s s' s'' : Sched} {queue node p v : Nat}

/-- Only the head of `queue` may change, and neither the running thread nor `next_proc`. -/
structure QueueEdit (queue : Nat) (s s' : Sched) : Prop extends HeadFrame queue s s' where
  nextProc : s'.nextProc = s.nextProc

theorem QueueEdit.refl (s : Sched) : QueueEdit queue s s := ⟨⟨fun _ _ => rfl, rfl⟩, rfl⟩

theorem QueueEdit.trans (h : QueueEdit queue s s') (h' : QueueEdit queue s' s'') : QueueEdit queue s s'' where
  head q hq := (h'.head q hq).trans (h.head q hq)
  curProc := h'.curProc.trans h.curProc
  nextProc := h'.nextProc.trans h.nextProc

theorem QueueEdit.storeNext (h : storeNext p v s = .ok s') : QueueEdit queue s s' := by
  obtain ⟨-, -, h⟩ := Except.bind_eq_ok.1 h
  cases h
  exact ⟨⟨fun _ _ => rfl, rfl⟩, rfl⟩

theorem QueueEdit.storePrev (h : storePrev p v s = .ok s') : QueueEdit queue s s' := by
  obtain ⟨-, -, h⟩ := Except.bind_eq_ok.1 h
  cases h
  exact ⟨⟨fun _ _ => rfl, rfl⟩, rfl⟩

theorem QueueEdit.storeHead (h : storeHead queue v s = .ok s') : QueueEdit queue s s' := by
  obtain ⟨-, -, h⟩ := Except.bind_eq_ok.1 h
  cases h
  exact ⟨⟨fun _ hq => Function.update_of_ne hq .., rfl⟩, rfl⟩

/-- `unlink_proc` may change the head of its queue only. -/
theorem QueueEdit.unlinkProc (h : unlinkProc node queue s = .ok s') : QueueEdit queue s s' := by
  obtain ⟨prev, -, h⟩ := Except.bind_eq_ok.1 h
  split at h
  · obtain ⟨next, -, h⟩ := Except.bind_eq_ok.1 h
    obtain ⟨s₁, h₁, h⟩ := Except.bind_eq_ok.1 h
    obtain ⟨next', -, h⟩ := Except.bind_eq_ok.1 h
    obtain ⟨prev', -, h⟩ := Except.bind_eq_ok.1 h
    obtain ⟨s₂, h₂, h⟩ := Except.bind_eq_ok.1 h
    obtain ⟨head, -, h⟩ := Except.bind_eq_ok.1 h
    refine ((QueueEdit.storeNext h₁).trans (.storePrev h₂)).trans ?_
    split at h
    · obtain ⟨next'', -, h⟩ := Except.bind_eq_ok.1 h
      exact .storeHead h
    · cases h
      exact .refl _
  · exact .storeHead h

/-- `append_proc` may change the head of its queue only. -/
theorem QueueEdit.appendProc (h : appendProc node queue s = .ok s') : QueueEdit queue s s' := by
  obtain ⟨head, -, h⟩ := Except.bind_eq_ok.1 h
  split at h
  · obtain ⟨last, -, h⟩ := Except.bind_eq_ok.1 h
    obtain ⟨s₁, h₁, h⟩ := Except.bind_eq_ok.1 h
    obtain ⟨head', -, h⟩ := Except.bind_eq_ok.1 h
    obtain ⟨s₂, h₂, h⟩ := Except.bind_eq_ok.1 h
    obtain ⟨prev, -, h⟩ := Except.bind_eq_ok.1 h
    obtain ⟨s₃, h₃, h⟩ := Except.bind_eq_ok.1 h
    obtain ⟨next, -, h⟩ := Except.bind_eq_ok.1 h
    exact (((QueueEdit.storePrev h₁).trans (.storeNext h₂)).trans (.storeNext h₃)).trans
      (.storePrev h)
  · obtain ⟨s₁, h₁, h⟩ := Except.bind_eq_ok.1 h
    obtain ⟨s₂, h₂, h⟩ := Except.bind_eq_ok.1 h
    exact ((QueueEdit.storeNext h₁).trans (.storePrev h₂)).trans (.storeHead h)

/-- Unblocking a thread changes neither the running thread nor `next_proc`. -/
theorem procUnblockHead_vars {st : ProcStatics} (h : procUnblockHead st queue s = .ok s') :
    s'.curProc = s.curProc ∧ s'.nextProc = s.nextProc := by
  obtain ⟨node, -, h⟩ := Except.bind_eq_ok.1 h
  split at h
  · cases h
  · obtain ⟨s₁, h₁, h⟩ := Except.bind_eq_ok.1 h
    have hunlink := QueueEdit.unlinkProc h₁
    have happend := QueueEdit.appendProc h
    exact ⟨happend.curProc.trans hunlink.curProc, happend.nextProc.trans hunlink.nextProc⟩

/-- `PROC_reschedule` turns the ready queue only. -/
theorem HeadFrame.procReschedule {st : ProcStatics} (h : procReschedule st s = .ok s') :
    HeadFrame st.availProcs s s' := by
  obtain ⟨⟨node, s₁⟩, h₁, h⟩ := Except.bind_eq_ok.1 h
  cases h
  obtain ⟨head, -, h₁⟩ := Except.bind_eq_ok.1 h₁
  split at h₁
  · obtain ⟨next, -, h₁⟩ := Except.bind_eq_ok.1 h₁
    obtain ⟨s₂, h₂, h₁⟩ := Except.bind_eq_ok.1 h₁
    cases h₁
    have hhead := QueueEdit.storeHead h₂
    exact ⟨hhead.head, hhead.curProc⟩
  · cases h₁
    exact ⟨fun _ _ => rfl, rfl⟩

/-- A context switch changes no queue. -/
theorem contextSwitch_head {st : ProcStatics} {rsp : Nat} (h : contextSwitch st rsp s = .ok s') :
    s'.head = s.head := by
  simp only [contextSwitch] at h
  split at h
  · cases h
    rfl
  · obtain ⟨s₁, h₁, h⟩ := Except.bind_eq_ok.1 h
    obtain ⟨-, -, h⟩ := Except.bind_eq_ok.1 h
    cases h
    have hs₁ : s₁.head = s.head := by
      simp only [saveContext] at h₁
      split at h₁
      · cases h₁
        rfl
      · obtain ⟨-, -, h₁⟩ := Except.bind_eq_ok.1 h₁
        cases h₁
        rfl
    split
    · exact hs₁
    · exact hs₁

/-- After a switch the running thread is `next_proc`. -/
theorem contextSwitch_next {st : ProcStatics} {rsp : Nat} (h : contextSwitch st rsp s = .ok s') :
    s'.nextProc = s'.curProc := by
  rw [contextSwitch] at h
  split at h
  case isTrue heq =>
    cases h
    exact heq.symm
  case isFalse =>
    obtain ⟨s₁, -, h⟩ := Except.bind_eq_ok.1 h
    obtain ⟨-, -, h⟩ := Except.bind_eq_ok.1 h
    cases h
    rfl

theorem yield_next {st : ProcStatics} {rsp : Nat} (h : yield st rsp s = .ok s') :
    s'.nextProc = s'.curProc := by
  obtain ⟨s₁, -, h⟩ := Except.bind_eq_ok.1 h
  exact contextSwitch_next h

theorem procBlockOn_next {st : ProcStatics} {rsp : Nat} (h : procBlockOn st queue rsp s = .ok s')
    (hs : s.nextProc = s.curProc) : s'.nextProc = s'.curProc := by
  rw [procBlockOn] at h
  split at h
  · cases h
    exact hs
  · obtain ⟨s₁, -, h⟩ := Except.bind_eq_ok.1 h
    obtain ⟨s₂, -, h⟩ := Except.bind_eq_ok.1 h
    exact yield_next h

theorem procRun_next {st : ProcStatics} {rsp : Nat} (h : procRun st rsp s = .ok s')
    (hs : s.nextProc = s.curProc) : s'.nextProc = s'.curProc := by
  rw [procRun] at h
  split at h
  · exact yield_next h
  · cases h
    exact hs

theorem kexit_next {st : ProcStatics} {rsp : Nat} {freed : List Nat}
    (h : kexit st rsp s = .ok (freed, s')) : s'.nextProc = s'.curProc := by
  obtain ⟨⟨_, s₁⟩, -, h⟩ := Except.bind_eq_ok.1 h
  obtain ⟨_, hswitch, h⟩ := Except.bind_eq_ok.1 h
  cases h
  exact contextSwitch_next hswitch

/-- A new thread changes neither the running thread nor `next_proc`. -/
theorem procCreateKthread_vars {st : ProcStatics} {ctx frame pid : Nat}
    (h : procCreateKthread st ctx frame node s = .ok (pid, s')) :
    s'.curProc = s.curProc ∧ s'.nextProc = s.nextProc := by
  obtain ⟨s₁, happend, h⟩ := Except.bind_eq_ok.1 h
  cases h
  have hedit := QueueEdit.appendProc happend
  exact ⟨hedit.curProc, hedit.nextProc⟩

/-- `PROC_unblock_all` returns with an empty queue, the same running thread and the same `next_proc`. -/
theorem procUnblockAll_vars {st : ProcStatics} {fuel : Nat}
    (h : procUnblockAll st queue fuel s = some (.ok s')) :
    s'.head queue = 0 ∧ s'.curProc = s.curProc ∧ s'.nextProc = s.nextProc := by
  induction fuel generalizing s with
  | zero => cases h
  | succ fuel ih =>
    simp only [procUnblockAll] at h
    split at h
    case h_1 => cases h
    case h_2 head hhead =>
      obtain ⟨-, -, hhead⟩ := Except.bind_eq_ok.1 hhead
      cases hhead
      split at h
      case isTrue =>
        split at h
        case h_1 => cases h
        case h_2 s₁ h₁ =>
          obtain ⟨hempty, hcur, hnext⟩ := ih h
          obtain ⟨hcur₁, hnext₁⟩ := procUnblockHead_vars h₁
          exact ⟨hempty, hcur.trans hcur₁, hnext.trans hnext₁⟩
      case isFalse hne =>
        cases h
        exact ⟨not_not.1 hne, rfl, rfl⟩

end

end BanjOS
