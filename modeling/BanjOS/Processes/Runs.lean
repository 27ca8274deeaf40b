import BanjOS.Processes.Queues

/-!
# Runs of the scheduler

Threads are created, run, yield, block, are unblocked and exit, in any order and each call as one step.
`Placed` is the invariant of the queues and the live threads, `Running` that of `cur_proc` and
`next_proc`; one lemma for each call says how it moves threads, and `threadRun_sound` says what holds
in every state of every run.
-/

namespace BanjOS

/-! ## Invariant -/

/-- The live threads are those on a queue, each on one, and the source is none of them. -/
structure Placed (st : ProcStatics) (L : Nat → List Nat) (live : List Nat) (s : Sched) : Prop where
  queues : Queues s L
  mem_live : ∀ n, n ∈ live ↔ ∃ q, n ∈ L q
  nodup : live.Nodup
  source_off : st.sourceProc ∉ live
  source_prev : s.prev st.sourceProc = 0
  context : ∀ n ∈ live, (s.nodes n).context ≠ 0

/-- After each call `next_proc` is the running thread, which is on the ready queue unless it is the
source or no thread has run yet. -/
structure Running (st : ProcStatics) (L : Nat → List Nat) (s : Sched) : Prop where
  next_eq : s.nextProc = s.curProc
  cur : s.curProc = 0 ∨ s.curProc = st.sourceProc ∨ s.curProc ∈ L st.availProcs

section
variable {st : ProcStatics} {L L' : Nat → List Nat} {live live' : List Nat} {s s' : Sched} {n q : Nat}

theorem Placed.perm (h : Placed st L live s) (hp : live.Perm live') : Placed st L live' s where
  queues := h.queues
  mem_live n := hp.mem_iff.symm.trans (h.mem_live n)
  nodup := hp.nodup_iff.1 h.nodup
  source_off hc := h.source_off (hp.mem_iff.2 hc)
  source_prev := h.source_prev
  context n hn := h.context n (hp.mem_iff.2 hn)

/-- The invariant depends on the heads, the live nodes and the source. -/
theorem Placed.congr (h : Placed st L live s) (hnodes : ∀ n ∈ live, s'.nodes n = s.nodes n)
    (hhead : s'.head = s.head) (hsource : s'.prev st.sourceProc = 0) : Placed st L live s' := by
  have hnode : ∀ q, ∀ n ∈ L q, s'.nodes n = s.nodes n := fun q n hn => hnodes n ((h.mem_live n).2 ⟨q, hn⟩)
  refine ⟨⟨fun q => ⟨?_, ?_, (h.queues.queue q).ne_zero⟩, h.queues.disjoint⟩, h.mem_live, h.nodup,
    h.source_off, hsource, fun n hn => ?_⟩
  · rw [hhead]
    exact (h.queues.queue q).head_eq
  · exact (h.queues.queue q).ring.congr (fun n hn => congrArg ProcNode.next (hnode q n hn))
      fun n hn => congrArg ProcNode.prev (hnode q n hn)
  · rw [hnodes n hn]
    exact h.context n hn

/-- A thread on a queue is live. -/
theorem Placed.live_of_mem (h : Placed st L live s) (hn : n ∈ L q) : n ∈ live := (h.mem_live n).2 ⟨q, hn⟩

/-- Live threads are neither null nor the source. -/
theorem Placed.ne_of_live (h : Placed st L live s) (hn : n ∈ live) : n ≠ 0 ∧ n ≠ st.sourceProc := by
  obtain ⟨q, hq⟩ := (h.mem_live n).1 hn
  exact ⟨h.queues.ne_zero hq, fun hc => h.source_off (hc ▸ hn)⟩

/-- A queue operation leaves the source and the contexts alone. -/
theorem SchedFrame.source {on : Nat → Prop} (hf : SchedFrame on s s') (hoff : ¬ on st.sourceProc)
    (hs : s.prev st.sourceProc = 0) : s'.prev st.sourceProc = 0 := by
  rw [Sched.prev, hf.off _ hoff]
  exact hs

/-- The nodes on the queues after one of them changed. -/
theorem exists_mem_update {l : List Nat} :
    (∃ q', n ∈ Function.update L q l q') ↔ n ∈ l ∨ ∃ q', q' ≠ q ∧ n ∈ L q' := by
  constructor
  · rintro ⟨q', hn⟩
    by_cases hq : q' = q
    · rw [hq, Function.update_self] at hn
      exact .inl hn
    · rw [Function.update_of_ne hq] at hn
      exact .inr ⟨q', hq, hn⟩
  · rintro (hn | ⟨q', hq, hn⟩)
    · exact ⟨q, by rwa [Function.update_self]⟩
    · exact ⟨q', by rwa [Function.update_of_ne hq]⟩

/-- The nodes on the queues, with one of them singled out. -/
theorem exists_mem_iff (L : Nat → List Nat) (q n : Nat) :
    (∃ q', n ∈ L q') ↔ n ∈ L q ∨ ∃ q', q' ≠ q ∧ n ∈ L q' := by
  have h := exists_mem_update (L := L) (q := q) (n := n) (l := L q)
  rwa [Function.update_eq_self] at h

/-- Taking a thread off its queue. -/
theorem Placed.unlink (h : Placed st L live s) (hq : q ≠ 0) (hn : n ∈ L q) :
    ∃ s', unlinkProc n q s = .ok s' ∧
      Placed st (Function.update L q ((L q).erase n)) (live.erase n) s' ∧
      SchedFrame (fun m => m ∈ live) s s' := by
  obtain ⟨s', hrun, hqueues, hframe⟩ := h.queues.unlinkProc hq hn
  have hframe' : SchedFrame (fun m => m ∈ live) s s' :=
    (SchedFrame.refl s).trans hframe fun m hm => (h.mem_live m).2 hm
  refine ⟨s', hrun, ⟨hqueues, fun m => ?_, h.nodup.erase n, fun hc => h.source_off (List.mem_of_mem_erase hc),
    hframe'.source h.source_off h.source_prev, fun m hm => ?_⟩, hframe'⟩
  · have hother : (∃ q', q' ≠ q ∧ m ∈ L q') → m ≠ n := fun ⟨q', hqq, hm⟩ hc =>
      h.queues.not_mem hn hqq (hc ▸ hm)
    rw [h.nodup.mem_erase_iff, h.mem_live, exists_mem_update, exists_mem_iff L q,
      (h.queues.queue q).ring.nodup.mem_erase_iff, and_or_left, and_iff_right_of_imp hother]
  · rw [hframe'.context]
    exact h.context m (List.mem_of_mem_erase hm)

/-- Putting a new thread on a queue. -/
theorem Placed.append (h : Placed st L live s) (hq : q ≠ 0) (hn0 : n ≠ 0) (hns : n ≠ st.sourceProc)
    (hctx : (s.nodes n).context ≠ 0) (hn : n ∉ live) :
    ∃ s', appendProc n q s = .ok s' ∧ Placed st (Function.update L q (L q ++ [n])) (n :: live) s' ∧
      SchedFrame (fun m => m ∈ n :: live) s s' := by
  obtain ⟨s', hrun, hqueues, hframe⟩ := h.queues.appendProc hq hn0 fun q' hc => hn (h.live_of_mem hc)
  have hframe' : SchedFrame (fun m => m ∈ n :: live) s s' :=
    (SchedFrame.refl s).trans hframe fun m hm => List.mem_cons.2 (hm.imp id (h.mem_live m).2)
  have hoff : st.sourceProc ∉ n :: live := fun hc =>
    (List.mem_cons.1 hc).elim (fun he => hns he.symm) h.source_off
  refine ⟨s', hrun, ⟨hqueues, fun m => ?_, List.nodup_cons.2 ⟨hn, h.nodup⟩, hoff,
    hframe'.source hoff h.source_prev, fun m hm => ?_⟩, hframe'⟩
  · rw [List.mem_cons, h.mem_live, exists_mem_update, exists_mem_iff L q, List.mem_append,
      List.mem_singleton]
    tauto
  · rw [hframe'.context]
    rcases List.mem_cons.1 hm with rfl | hm
    · exact hctx
    · exact h.context m hm

/-- Taking a thread off a queue and putting it on another one, or at the end of its own. -/
theorem Placed.move {q' : Nat} (h : Placed st L live s) (hq : q ≠ 0) (hq' : q' ≠ 0) (hn : n ∈ L q) :
    ∃ s₁ s₂, unlinkProc n q s = .ok s₁ ∧ appendProc n q' s₁ = .ok s₂ ∧
      Placed st (Function.update (Function.update L q ((L q).erase n)) q'
        (Function.update L q ((L q).erase n) q' ++ [n])) live s₂ ∧
      SchedFrame (fun m => m ∈ live) s s₁ ∧ SchedFrame (fun m => m ∈ live) s s₂ := by
  have hlive := h.live_of_mem hn
  obtain ⟨hn0, hns⟩ := h.ne_of_live hlive
  obtain ⟨s₁, hunlink, h₁, hf₁⟩ := h.unlink hq hn
  have hctx : (s₁.nodes n).context ≠ 0 := by
    rw [hf₁.context]
    exact h.context n hlive
  obtain ⟨s₂, happend, h₂, hf₂⟩ := h₁.append hq' hn0 hns hctx fun hc => (h.nodup.mem_erase_iff.1 hc).1 rfl
  have hperm := (List.perm_cons_erase hlive).symm
  exact ⟨s₁, s₂, hunlink, happend, h₂.perm hperm, hf₁, hf₁.trans hf₂ fun m hm => hperm.mem_iff.1 hm⟩

/-- Turning the ready queue and choosing its head. -/
theorem Placed.reschedule (h : Placed st L live s) :
    ∃ s', procReschedule st s = .ok s' ∧
      Placed st (Function.update L st.availProcs ((L st.availProcs).rotate 1)) live s' ∧
      s'.nodes = s.nodes ∧ s'.curProc = s.curProc ∧ s'.nextProc = (L st.availProcs).headD 0 := by
  obtain ⟨s', hrun, hqueues, hframe⟩ := h.queues.cycleNextProc st.availProcs_ne
  have hnodes : s'.nodes = s.nodes := funext fun m => hframe.off m id
  refine ⟨{ s' with nextProc := (L st.availProcs).headD 0 }, Except.bind_eq_ok.2 ⟨_, hrun, rfl⟩,
    ⟨⟨fun q => ⟨(hqueues.queue q).head_eq, (hqueues.queue q).ring, (hqueues.queue q).ne_zero⟩,
      hqueues.disjoint⟩, fun m => ?_, h.nodup, h.source_off, ?_, ?_⟩, hnodes, hframe.curProc, rfl⟩
  · rw [h.mem_live, exists_mem_update, exists_mem_iff L st.availProcs, List.mem_rotate]
  · rw [Sched.prev, hnodes]
    exact h.source_prev
  · dsimp only
    rw [hnodes]
    exact h.context

/-- The switch changes neither nodes nor heads, and the thread that runs after it is the one that was
chosen or the source. -/
theorem contextSwitch_ok {rsp : Nat} (h : contextSwitch st rsp s = .ok s') :
    s'.nodes = s.nodes ∧ s'.head = s.head ∧ s'.nextProc = s'.curProc ∧
      (s'.curProc = s.nextProc ∨ s'.curProc = st.sourceProc) := by
  rw [contextSwitch] at h
  split at h
  · next heq =>
    cases h
    exact ⟨rfl, rfl, heq.symm, .inl heq⟩
  · obtain ⟨s₁, hsave, h⟩ := Except.bind_eq_ok.1 h
    obtain ⟨contexts, rfl⟩ : ∃ contexts, s₁ = { s with contexts } := by
      rw [saveContext] at hsave
      split at hsave
      · cases hsave
        exact ⟨_, rfl⟩
      · obtain ⟨_, _, hsave⟩ := Except.bind_eq_ok.1 hsave
        cases hsave
        exact ⟨_, rfl⟩
    obtain ⟨_, _, h⟩ := Except.bind_eq_ok.1 h
    cases h
    dsimp only
    split
    · exact ⟨rfl, rfl, rfl, .inr rfl⟩
    · exact ⟨rfl, rfl, rfl, .inl rfl⟩

/-- A switch to a thread that was selected. -/
theorem contextSwitch_cur {rsp : Nat} (h : contextSwitch st rsp s = .ok s') (hnext : s.nextProc ≠ 0) :
    s'.curProc = s.nextProc := by
  rw [contextSwitch] at h
  split at h
  case isTrue heq =>
    cases h
    exact heq
  case isFalse =>
    obtain ⟨s₁, hsave, h⟩ := Except.bind_eq_ok.1 h
    have hs₁ : s₁.nextProc = s.nextProc := by
      rw [saveContext] at hsave
      split at hsave
      · cases hsave
        rfl
      · obtain ⟨_, _, hsave⟩ := Except.bind_eq_ok.1 hsave
        cases hsave
        rfl
    obtain ⟨_, _, h⟩ := Except.bind_eq_ok.1 h
    cases h
    rw [if_neg (hs₁ ▸ hnext), hs₁]

/-- The switch returns if the contexts it uses are there. -/
theorem contextSwitch_returns (rsp : Nat) (hcur : s.curProc ≠ 0 → (s.nodes s.curProc).context ≠ 0)
    (hnext : s.nextProc ≠ 0 → (s.nodes s.nextProc).context ≠ 0)
    (hsource : (s.nodes st.sourceProc).context ≠ 0) : ∃ s', contextSwitch st rsp s = .ok s' := by
  by_cases heq : s.curProc = s.nextProc
  · exact ⟨s, if_pos heq⟩
  · obtain ⟨contexts, hsave⟩ : ∃ contexts, saveContext rsp s = .ok { s with contexts } := by
      by_cases h0 : s.curProc = 0
      · exact ⟨s.contexts, if_pos h0⟩
      · rw [saveContext, if_neg h0]
        exact ⟨_, Except.bind_eq_ok.2 ⟨_, deref_eq (hcur h0) 0, rfl⟩⟩
    rw [contextSwitch, if_neg heq, hsave, Except.ok_bind]
    dsimp only
    by_cases hn0 : s.nextProc = 0
    · rw [if_pos hn0]
      exact ⟨_, Except.bind_eq_ok.2 ⟨_, deref_eq hsource 0, rfl⟩⟩
    · rw [if_neg hn0]
      exact ⟨_, Except.bind_eq_ok.2 ⟨_, deref_eq (hnext hn0) 0, rfl⟩⟩

/-- After a switch to the head of the ready queue, or to the source. -/
theorem Placed.switch {rsp : Nat} (h : Placed st L live s) (hrun : contextSwitch st rsp s = .ok s')
    (hnext : s.nextProc = 0 ∨ s.nextProc = st.sourceProc ∨ s.nextProc ∈ L st.availProcs) :
    Placed st L live s' ∧ Running st L s' := by
  obtain ⟨hnodes, hhead, hnc, hcur⟩ := contextSwitch_ok hrun
  have hprev : s'.prev st.sourceProc = 0 := by
    rw [Sched.prev, hnodes]
    exact h.source_prev
  refine ⟨h.congr (fun n _ => congrFun hnodes n) hhead hprev, hnc, ?_⟩
  rcases hcur with hcur | hcur
  · rwa [hcur]
  · exact .inr (.inl hcur)

/-- `yield` turns the ready queue and switches to its old head. -/
theorem Placed.yield_ready {rsp : Nat} (h : Placed st L live s) (hrun : yield st rsp s = .ok s') :
    Placed st (Function.update L st.availProcs ((L st.availProcs).rotate 1)) live s' ∧
      Running st (Function.update L st.availProcs ((L st.availProcs).rotate 1)) s' ∧
      (L st.availProcs).headD s'.curProc = s'.curProc := by
  obtain ⟨s₁, hres, h₁, -, -, hnext⟩ := h.reschedule
  obtain ⟨_, hres', hswitch⟩ := Except.bind_eq_ok.1 hrun
  rw [hres] at hres'
  cases hres'
  have hmem : s₁.nextProc = 0 ∨ s₁.nextProc = st.sourceProc ∨
      s₁.nextProc ∈ Function.update L st.availProcs ((L st.availProcs).rotate 1) st.availProcs := by
    rw [hnext, Function.update_self, List.mem_rotate]
    cases L st.availProcs with
    | nil => exact .inl rfl
    | cons n w => exact .inr (.inr (.head _))
  refine ⟨(h₁.switch hswitch hmem).1, (h₁.switch hswitch hmem).2, ?_⟩
  cases hl : L st.availProcs with
  | nil => rfl
  | cons n w =>
    rw [hl, List.headD_cons] at hnext
    have hn : n ≠ 0 := h.queues.ne_zero (hl ▸ List.Mem.head w)
    rw [contextSwitch_cur hswitch (hnext ▸ hn), hnext, List.headD_cons]

/-- `yield` keeps the threads on their queues. -/
theorem Placed.yield {rsp : Nat} (h : Placed st L live s) (hrun : yield st rsp s = .ok s') :
    ∃ L', Placed st L' live s' ∧ Running st L' s' :=
  ⟨_, (h.yield_ready hrun).1, (h.yield_ready hrun).2.1⟩

/-- `unlink_proc` of the running thread returns only for a thread of the ready queue: the null
pointer and the source have no neighbours. -/
theorem Placed.cur_of_unlink (h : Placed st L live s) (hr : Running st L s)
    (hrun : unlinkProc s.curProc st.availProcs s = .ok s') : s.curProc ∈ L st.availProcs := by
  rcases hr.cur with hcur | hcur | hcur
  · rw [hcur] at hrun
    cases hrun
  · rw [hcur] at hrun
    simp [unlinkProc, loadPrev_eq st.sourceProc_ne, h.source_prev, st.sourceProc_ne,
      loadNext_eq st.sourceProc_ne, storeNext, deref] at hrun
  · exact hcur

/-- `PROC_block_on` moves the running thread from the ready queue to another one and yields. -/
theorem Placed.blockOn_ready {rsp : Nat} (h : Placed st L live s) (hr : Running st L s) (hq : q ≠ 0)
    (hrun : procBlockOn st q rsp s = .ok s') : s.curProc ∈ L st.availProcs ∧
      ∃ L', Placed st L' live s' ∧ Running st L' s' ∧ (q ≠ st.availProcs →
        L' st.availProcs = ((L st.availProcs).erase s.curProc).rotate 1 ∧
        ((L st.availProcs).erase s.curProc).headD s'.curProc = s'.curProc) ∧
        ∀ q', q' ≠ st.availProcs → q' ≠ q → L' q' = L q' := by
  rw [procBlockOn, if_neg hq] at hrun
  obtain ⟨s₁, hunlink, hrun⟩ := Except.bind_eq_ok.1 hrun
  obtain ⟨s₂, happend, hyield⟩ := Except.bind_eq_ok.1 hrun
  have hcur := h.cur_of_unlink hr hunlink
  obtain ⟨_, _, hunlink', happend', h₂, hf₁, -⟩ := h.move st.availProcs_ne hq hcur
  rw [hunlink] at hunlink'
  cases hunlink'
  rw [hf₁.curProc, happend'] at happend
  cases happend
  obtain ⟨h', hr', hhead⟩ := h₂.yield_ready hyield
  refine ⟨hcur, _, h', hr', fun hqa => ?_, fun q' hqa' hq' => ?_⟩
  · rw [Function.update_of_ne hqa.symm, Function.update_self] at hhead
    rw [Function.update_self, Function.update_of_ne hqa.symm, Function.update_self]
    exact ⟨rfl, hhead⟩
  · rw [Function.update_of_ne hqa', Function.update_of_ne hq', Function.update_of_ne hqa']

/-- `PROC_block_on` moves the running thread to the queue. -/
theorem Placed.blockOn {rsp : Nat} (h : Placed st L live s) (hr : Running st L s)
    (hrun : procBlockOn st q rsp s = .ok s') : ∃ L', Placed st L' live s' ∧ Running st L' s' := by
  by_cases hq : q = 0
  · rw [procBlockOn, if_pos hq] at hrun
    cases hrun
    exact ⟨L, h, hr⟩
  · obtain ⟨-, L', h', hr', -⟩ := h.blockOn_ready hr hq hrun
    exact ⟨L', h', hr'⟩

/-- `PROC_unblock_head` moves the head of a queue to the end of the ready queue. -/
theorem Placed.unblockHead (h : Placed st L live s) (hq : q ≠ 0) {w : List Nat} (hl : L q = n :: w) :
    ∃ s', procUnblockHead st q s = .ok s' ∧
      Placed st (Function.update (Function.update L q w) st.availProcs
        (Function.update L q w st.availProcs ++ [n])) live s' ∧
      s'.curProc = s.curProc ∧ s'.nextProc = s.nextProc := by
  have hn : n ∈ L q := hl ▸ .head _
  have hn0 := h.queues.ne_zero hn
  obtain ⟨s₁, s₂, hunlink, happend, h₂, -, hf₂⟩ := h.move hq st.availProcs_ne hn
  rw [hl, List.erase_cons_head] at h₂
  refine ⟨s₂, ?_, h₂, hf₂.curProc, hf₂.nextProc⟩
  simp [procUnblockHead, loadHead_eq hq, h.queues.head_cons hl, hn0, hunlink, happend]

/-- Threads of the queue `q` move to the ready queue, and nothing else moves. -/
structure Unblocks (st : ProcStatics) (q : Nat) (L L' : Nat → List Nat) : Prop where
  stay : ∀ q', ∀ n ∈ L q', n ∈ L' q' ∨ n ∈ L' st.availProcs
  old : ∀ q', q' ≠ st.availProcs → L' q' ⊆ L q'
  /-- The ready queue grows at its end, unless threads move within it. -/
  ready : q ≠ st.availProcs → L st.availProcs <+: L' st.availProcs
  frame : ∀ q', q' ≠ st.availProcs → q' ≠ q → L' q' = L q'

theorem Unblocks.refl : Unblocks st q L L :=
  ⟨fun _ _ hn => .inl hn, fun _ _ => List.Subset.refl _, fun _ => List.prefix_rfl, fun _ _ _ => rfl⟩

theorem Unblocks.trans {L'' : Nat → List Nat} (h : Unblocks st q L L') (h' : Unblocks st q L' L'') :
    Unblocks st q L L'' where
  stay q' n hn := by
    rcases h.stay q' n hn with hn | hn
    · exact h'.stay q' n hn
    · exact .inr ((h'.stay _ n hn).elim id id)
  old q' hq' := List.Subset.trans (h'.old q' hq') (h.old q' hq')
  ready hq := (h.ready hq).trans (h'.ready hq)
  frame q' hqa hq' := (h'.frame q' hqa hq').trans (h.frame q' hqa hq')

/-- A thread on the ready queue stays there. -/
theorem Unblocks.mem_ready (h : Unblocks st q L L') (hn : n ∈ L st.availProcs) : n ∈ L' st.availProcs :=
  (h.stay _ n hn).elim id id

/-- The running thread stays on the ready queue when threads are unblocked. -/
theorem Running.unblocks (hr : Running st L s) (h : Unblocks st q L L')
    (hvars : s'.curProc = s.curProc ∧ s'.nextProc = s.nextProc) : Running st L' s' := by
  refine ⟨by rw [hvars.1, hvars.2, hr.next_eq], ?_⟩
  rw [hvars.1]
  exact hr.cur.imp id (Or.imp id h.mem_ready)

/-- The head of a queue at the end of the ready queue. -/
theorem unblocks_head {w : List Nat} (hl : L q = n :: w) :
    Unblocks st q L (Function.update (Function.update L q w) st.availProcs
      (Function.update L q w st.availProcs ++ [n])) where
  stay q' m hm := by
    rw [Function.update_self, List.mem_append, List.mem_singleton]
    by_cases hqa : q' = st.availProcs
    · refine .inr ?_
      by_cases hq : q' = q
      · rw [hq, hl] at hm
        rw [← hqa, hq, Function.update_self]
        exact (List.mem_cons.1 hm).symm
      · rw [← hqa, Function.update_of_ne hq]
        exact .inl hm
    · rw [Function.update_of_ne hqa]
      by_cases hq : q' = q
      · rw [hq, hl] at hm
        rw [hq, Function.update_self]
        exact (List.mem_cons.1 hm).symm.imp id .inr
      · rw [Function.update_of_ne hq]
        exact .inl hm
  old q' hqa m hm := by
    rw [Function.update_of_ne hqa] at hm
    by_cases hq : q' = q
    · rw [hq, Function.update_self] at hm
      rw [hq, hl]
      exact .tail _ hm
    · rwa [Function.update_of_ne hq] at hm
  ready hq := by
    rw [Function.update_self, Function.update_of_ne hq.symm]
    exact List.prefix_append _ _
  frame q' hqa hq := by rw [Function.update_of_ne hqa, Function.update_of_ne hq]

/-- `PROC_unblock_head` moves a thread to the ready queue. -/
theorem Placed.unblockHead_moves (h : Placed st L live s) (hrun : procUnblockHead st q s = .ok s') :
    ∃ L', Placed st L' live s' ∧ Unblocks st q L L' ∧
      s'.curProc = s.curProc ∧ s'.nextProc = s.nextProc := by
  have hq : q ≠ 0 := by
    rintro rfl
    cases hrun
  cases hl : L q with
  | nil => simp [procUnblockHead, loadHead_eq hq, h.queues.head_eq_zero.2 hl] at hrun
  | cons n w =>
    obtain ⟨_, hok, h', hvars⟩ := h.unblockHead hq hl
    rw [hrun] at hok
    cases hok
    exact ⟨_, h', unblocks_head hl, hvars⟩

/-- So does `PROC_unblock_all`, by induction on the iterations of its loop. -/
theorem Placed.unblockAll_moves {fuel : Nat} {s : Sched} {L : Nat → List Nat} (h : Placed st L live s)
    (hrun : procUnblockAll st q fuel s = some (.ok s')) :
    ∃ L', Placed st L' live s' ∧ Unblocks st q L L' ∧
      s'.curProc = s.curProc ∧ s'.nextProc = s.nextProc := by
  induction fuel generalizing s L with
  | zero => cases hrun
  | succ fuel ih =>
    rw [procUnblockAll] at hrun
    split at hrun
    · cases hrun
    · split at hrun
      · split at hrun
        · cases hrun
        · next s₁ hhead =>
          obtain ⟨L₁, h₁, hmove₁, hcur₁, hnext₁⟩ := h.unblockHead_moves hhead
          obtain ⟨L', h', hmove', hcur', hnext'⟩ := ih h₁ hrun
          exact ⟨L', h', hmove₁.trans hmove', hcur'.trans hcur₁, hnext'.trans hnext₁⟩
      · cases hrun
        exact ⟨L, h, .refl, rfl, rfl⟩

/-- On a queue that is not the ready queue the loop of `PROC_unblock_all` ends. -/
theorem Placed.unblockAll_returns (hq : q ≠ 0) (hqa : q ≠ st.availProcs) :
    ∀ (l : List Nat) {s : Sched} {L : Nat → List Nat}, Placed st L live s → L q = l →
      ∃ s', procUnblockAll st q (l.length + 1) s = some (.ok s') := by
  intro l
  induction l with
  | nil =>
    intro s L h hl
    refine ⟨s, ?_⟩
    simp [procUnblockAll, loadHead_eq hq, h.queues.head_eq_zero.2 hl]
  | cons n w ih =>
    intro s L h hl
    obtain ⟨s₁, hok, h₁, -, -⟩ := h.unblockHead hq hl
    obtain ⟨s', hrun⟩ := ih h₁ (by rw [Function.update_of_ne hqa, Function.update_self])
    refine ⟨s', ?_⟩
    have hn0 : s.head q ≠ 0 := fun hc => by
      rw [h.queues.head_eq_zero, hl] at hc
      cases hc
    rw [List.length_cons, procUnblockAll, loadHead_eq hq]
    dsimp only
    rw [if_pos hn0, hok]
    exact hrun

/-- `kexit_handler` takes the running thread off the ready queue and chooses the head of what is left,
which stays at the head, or the source. -/
theorem Placed.kexitHandler_ready (h : Placed st L live s) (hcur : s.curProc ∈ L st.availProcs) :
    ∃ freed s', kexitHandler st s = .ok (freed, s') ∧
      Placed st (Function.update L st.availProcs ((L st.availProcs).erase s.curProc))
        (live.erase s.curProc) s' ∧
      s'.curProc = 0 ∧ s'.nextProc = ((L st.availProcs).erase s.curProc).headD st.sourceProc ∧
      ∀ n, (s'.nodes n).context = (s.nodes n).context := by
  obtain ⟨s₁, hunlink, h₁, hf₁⟩ := h.unlink st.availProcs_ne hcur
  have hctx : (s₁.nodes s₁.curProc).context ≠ 0 := by
    rw [hf₁.context, hf₁.curProc]
    exact h.context _ (h.live_of_mem hcur)
  have heq : BanjOS.kexitHandler st s =
      .ok ([(s₁.contexts (s₁.nodes s₁.curProc).context).frame, (s₁.nodes s₁.curProc).context, s₁.curProc],
        { s₁ with
          curProc := 0
          nextProc := if s₁.head st.availProcs = 0 then st.sourceProc else s₁.head st.availProcs }) := by
    simp only [BanjOS.kexitHandler, hunlink, Except.ok_bind, deref_eq hctx, loadHead_eq st.availProcs_ne]
    split <;> rfl
  refine ⟨_, _, heq, h₁.congr (fun _ _ => rfl) rfl h₁.source_prev, rfl, ?_, hf₁.context⟩
  dsimp only
  cases hl : (L st.availProcs).erase s.curProc with
  | nil => rw [if_pos (h₁.queues.head_eq_zero.2 (by rw [Function.update_self, hl])), List.headD_nil]
  | cons n w =>
    have hl' : Function.update L st.availProcs ((L st.availProcs).erase s.curProc) st.availProcs = n :: w := by
      rw [Function.update_self, hl]
    rw [h₁.queues.head_cons hl', if_neg (h₁.queues.ne_zero (hl' ▸ List.Mem.head w)), List.headD_cons]

/-- `kexit_handler` takes the running thread off the ready queue and chooses the head of what is left,
or the source. -/
theorem Placed.kexitHandler (h : Placed st L live s) (hcur : s.curProc ∈ L st.availProcs) :
    ∃ freed s' L', kexitHandler st s = .ok (freed, s') ∧ Placed st L' (live.erase s.curProc) s' ∧
      s'.curProc = 0 ∧ (s'.nextProc = st.sourceProc ∨ s'.nextProc ∈ L' st.availProcs) ∧
      ∀ n, (s'.nodes n).context = (s.nodes n).context := by
  obtain ⟨freed, s', hok, h', hc, hnext, hctx⟩ := h.kexitHandler_ready hcur
  refine ⟨freed, s', _, hok, h', hc, ?_, hctx⟩
  rw [hnext, Function.update_self]
  cases (L st.availProcs).erase s.curProc with
  | nil => exact .inl rfl
  | cons n w => exact .inr (.head _)

/-- `kexit` takes the running thread off the ready queue and switches to the head of what is left. -/
theorem Placed.kexit_ready {rsp : Nat} {freed : List Nat} (h : Placed st L live s) (hr : Running st L s)
    (hrun : kexit st rsp s = .ok (freed, s')) : s.curProc ∈ L st.availProcs ∧
      ∃ L', Placed st L' (live.erase s.curProc) s' ∧ Running st L' s' ∧
        L' st.availProcs = (L st.availProcs).erase s.curProc ∧
        ((L st.availProcs).erase s.curProc).headD s'.curProc = s'.curProc ∧
        ∀ q', q' ≠ st.availProcs → L' q' = L q' := by
  obtain ⟨⟨freed', s₁⟩, hhandler, hrun⟩ := Except.bind_eq_ok.1 hrun
  obtain ⟨_, hswitch, hret⟩ := Except.bind_eq_ok.1 hrun
  cases hret
  have hcur : s.curProc ∈ L st.availProcs := by
    obtain ⟨s₂, hunlink, -⟩ := Except.bind_eq_ok.1 hhandler
    exact h.cur_of_unlink hr hunlink
  obtain ⟨_, _, hok, h₁, -, hnext, -⟩ := h.kexitHandler_ready hcur
  rw [hhandler] at hok
  cases hok
  have hmem : s₁.nextProc = 0 ∨ s₁.nextProc = st.sourceProc ∨ s₁.nextProc ∈
      Function.update L st.availProcs ((L st.availProcs).erase s.curProc) st.availProcs := by
    rw [hnext, Function.update_self]
    cases (L st.availProcs).erase s.curProc with
    | nil => exact .inr (.inl rfl)
    | cons n w => exact .inr (.inr (.head _))
  obtain ⟨h', hr'⟩ := h₁.switch hswitch hmem
  refine ⟨hcur, _, h', hr', Function.update_self .., ?_, fun q' hqa => Function.update_of_ne hqa ..⟩
  cases hl : (L st.availProcs).erase s.curProc with
  | nil => rfl
  | cons n w =>
    rw [hl, List.headD_cons] at hnext
    have hn : n ≠ 0 := h.queues.ne_zero (List.mem_of_mem_erase (hl ▸ List.Mem.head w))
    rw [contextSwitch_cur hswitch (hnext ▸ hn), hnext, List.headD_cons]

/-- `kexit` ends the running thread. -/
theorem Placed.kexit_ok {rsp : Nat} {freed : List Nat} (h : Placed st L live s) (hr : Running st L s)
    (hrun : kexit st rsp s = .ok (freed, s')) : s.curProc ∈ live ∧
      ∃ L', Placed st L' (live.erase s.curProc) s' ∧ Running st L' s' := by
  obtain ⟨hcur, L', h', hr', -⟩ := h.kexit_ready hr hrun
  exact ⟨h.live_of_mem hcur, L', h', hr'⟩

/-- The state in which `PROC_run` chooses the first thread: the running thread is the source. -/
theorem Placed.enterSource (h : Placed st L live s) : Placed st L live { s with
    contexts := Function.update s.contexts st.sourceProcCtx ⟨0, 0, 0⟩
    nodes := Function.update s.nodes st.sourceProc ⟨st.sourceProcCtx, 0, 0⟩
    curProc := st.sourceProc } := by
  refine h.congr (fun n hn => Function.update_of_ne (h.ne_of_live hn).2 ..) rfl ?_
  simp [Sched.prev]

/-- `PROC_run` switches to the head of the ready queue, which it may turn. -/
theorem Placed.run_ready {rsp : Nat} (h : Placed st L live s) (hr : Running st L s)
    (hrun : procRun st rsp s = .ok s') : ∃ L', Placed st L' live s' ∧ Running st L' s' ∧
      (∀ n, n ∈ L' st.availProcs ↔ n ∈ L st.availProcs) ∧ ∀ q, q ≠ st.availProcs → L' q = L q := by
  rw [procRun] at hrun
  split at hrun
  · obtain ⟨h', hr', -⟩ := h.enterSource.yield_ready hrun
    refine ⟨_, h', hr', fun n => ?_, fun q hq => Function.update_of_ne hq ..⟩
    rw [Function.update_self, List.mem_rotate]
  · cases hrun
    exact ⟨L, h, hr, fun _ => Iff.rfl, fun _ _ => rfl⟩

/-- `PROC_create_kthread` puts the new thread at the end of the ready queue. -/
theorem Placed.createKthread (h : Placed st L live s) (ctx frame : Nat) (hctx : ctx ≠ 0) (hn0 : n ≠ 0)
    (hns : n ≠ st.sourceProc) (hn : n ∉ live) :
    ∃ s', procCreateKthread st ctx frame n s = .ok (s.pidCount, s') ∧
      Placed st (Function.update L st.availProcs (L st.availProcs ++ [n])) (n :: live) s' ∧
      s'.curProc = s.curProc ∧ s'.nextProc = s.nextProc := by
  have h₁ : Placed st L live { s with
      contexts := Function.update s.contexts ctx ⟨frame + procStackSize - initialFrameSize, s.pidCount, frame⟩
      pidCount := (s.pidCount + 1) % 2 ^ 64
      nodes := Function.update s.nodes n { s.nodes n with context := ctx } } := by
    have hne : ∀ m ∈ live, m ≠ n := fun m hm hc => hn (hc ▸ hm)
    refine h.congr (fun m hm => Function.update_of_ne (hne m hm) ..) rfl ?_
    have hprev := h.source_prev
    simpa [Sched.prev, Function.update_of_ne hns.symm] using hprev
  obtain ⟨s', happend, h', hf⟩ := h₁.append st.availProcs_ne hn0 hns (by simpa using hctx) hn
  exact ⟨s', Except.bind_eq_ok.2 ⟨s', happend, rfl⟩, h', hf.curProc, hf.nextProc⟩

/-! ## Calls that return -/

/-- `yield` returns once the source has a context. -/
theorem Placed.yield_returns (h : Placed st L live s) (rsp : Nat)
    (hsource : (s.nodes st.sourceProc).context ≠ 0)
    (hcur : s.curProc ≠ 0 → (s.nodes s.curProc).context ≠ 0) : ∃ s', BanjOS.yield st rsp s = .ok s' := by
  obtain ⟨s₁, hres, h₁, hnodes, hc, hnext⟩ := h.reschedule
  have hctx : s₁.nextProc ≠ 0 → (s₁.nodes s₁.nextProc).context ≠ 0 := by
    rw [hnodes, hnext]
    cases hl : L st.availProcs with
    | nil => exact fun hc => absurd rfl hc
    | cons n w => exact fun _ => h.context n (h.live_of_mem (hl ▸ List.Mem.head w))
  obtain ⟨s', hswitch⟩ := contextSwitch_returns rsp (by rwa [hnodes, hc]) hctx (by rwa [hnodes])
  exact ⟨s', Except.bind_eq_ok.2 ⟨s₁, hres, hswitch⟩⟩

/-- `PROC_run` returns. -/
theorem Placed.run_returns (h : Placed st L live s) (rsp : Nat) : ∃ s', procRun st rsp s = .ok s' := by
  by_cases hhead : s.head st.availProcs ≠ 0
  · rw [procRun, if_pos hhead]
    refine h.enterSource.yield_returns rsp ?_ fun _ => ?_ <;> simp [st.sourceProcCtx_ne]
  · exact ⟨s, if_neg hhead⟩

/-- `PROC_block_on` by a thread returns. -/
theorem Placed.blockOn_returns (h : Placed st L live s) (q rsp : Nat)
    (hsource : (s.nodes st.sourceProc).context ≠ 0) (hcur : s.curProc ∈ L st.availProcs) :
    ∃ s', procBlockOn st q rsp s = .ok s' := by
  by_cases hq : q = 0
  · exact ⟨s, if_pos hq⟩
  · have hctx := h.context _ (h.live_of_mem hcur)
    obtain ⟨s₁, s₂, hunlink, happend, h₂, hf₁, hf₂⟩ := h.move st.availProcs_ne hq hcur
    obtain ⟨s', hyield⟩ := h₂.yield_returns rsp (by rwa [hf₂.context])
      fun _ => by rwa [hf₂.curProc, hf₂.context]
    refine ⟨s', ?_⟩
    rw [procBlockOn, if_neg hq, hunlink, Except.ok_bind, hf₁.curProc, happend, Except.ok_bind]
    exact hyield

/-- `kexit` of a thread returns. -/
theorem Placed.kexit_returns (h : Placed st L live s) (rsp : Nat)
    (hsource : (s.nodes st.sourceProc).context ≠ 0) (hcur : s.curProc ∈ L st.availProcs) :
    ∃ r, kexit st rsp s = .ok r := by
  obtain ⟨freed, s₁, L₁, hhandler, h₁, hc, hnext, hctx⟩ := h.kexitHandler hcur
  have hsource₁ : (s₁.nodes st.sourceProc).context ≠ 0 := by rwa [hctx]
  have hnext₁ : (s₁.nodes s₁.nextProc).context ≠ 0 := by
    rcases hnext with hnext | hnext
    · rwa [hnext]
    · exact h₁.context _ (h₁.live_of_mem hnext)
  obtain ⟨s', hswitch⟩ := contextSwitch_returns rsp (fun h0 => absurd hc h0) (fun _ => hnext₁) hsource₁
  refine ⟨(freed, s'), Except.bind_eq_ok.2 ⟨_, hhandler, Except.bind_eq_ok.2 ⟨_, hswitch, rfl⟩⟩⟩

end

/-! ## Runs -/

/-- The scheduler, the live threads and those that exited and whose node was not reused. -/
structure Threads where
  sched : Sched
  live : List Nat
  exited : List Nat

/-- One call. `PROC_create_kthread` gets a node that is not in use; who calls what, and on which
queue, is arbitrary. -/
inductive ThreadStep (st : ProcStatics) : Threads → Threads → Prop
  | createKthread {s s' : Sched} {live exited : List Nat} {ctx frame node pid : Nat} : ctx ≠ 0 →
      node ≠ 0 → node ≠ st.sourceProc → node ∉ live →
      procCreateKthread st ctx frame node s = .ok (pid, s') →
      ThreadStep st ⟨s, live, exited⟩ ⟨s', node :: live, exited.filter (· ≠ node)⟩
  | run {s s' : Sched} {live exited : List Nat} {rsp : Nat} : procRun st rsp s = .ok s' →
      ThreadStep st ⟨s, live, exited⟩ ⟨s', live, exited⟩
  | yield {s s' : Sched} {live exited : List Nat} {rsp : Nat} : yield st rsp s = .ok s' →
      ThreadStep st ⟨s, live, exited⟩ ⟨s', live, exited⟩
  | blockOn {s s' : Sched} {live exited : List Nat} {queue rsp : Nat} :
      procBlockOn st queue rsp s = .ok s' → ThreadStep st ⟨s, live, exited⟩ ⟨s', live, exited⟩
  | unblockHead {s s' : Sched} {live exited : List Nat} {queue : Nat} :
      procUnblockHead st queue s = .ok s' → ThreadStep st ⟨s, live, exited⟩ ⟨s', live, exited⟩
  | unblockAll {s s' : Sched} {live exited : List Nat} {queue fuel : Nat} :
      procUnblockAll st queue fuel s = some (.ok s') →
      ThreadStep st ⟨s, live, exited⟩ ⟨s', live, exited⟩
  | exit {s s' : Sched} {live exited freed : List Nat} {rsp : Nat} :
      kexit st rsp s = .ok (freed, s') →
      ThreadStep st ⟨s, live, exited⟩ ⟨s', live.erase s.curProc, s.curProc :: exited⟩

/-- The empty system: all queues are empty and the static variables are zero. -/
structure SchedBoot (st : ProcStatics) (s : Sched) : Prop where
  head : ∀ q, s.head q = 0
  curProc : s.curProc = 0
  nextProc : s.nextProc = 0
  source : s.nodes st.sourceProc = ⟨0, 0, 0⟩

/-- What holds of the queues, `L q` the nodes of the queue `q` from its head on. -/
structure ThreadsSound (st : ProcStatics) (L : Nat → List Nat) (t : Threads) : Prop where
  /-- Every queue is a ring, listed from its head on; the head of an empty queue is null. -/
  ring : ∀ q, IsRing t.sched.next t.sched.prev (L q) ∧ t.sched.head q = (L q).headD 0
  /-- `next` and `prev` are inverse to each other on every queue. -/
  inverse : ∀ q, ∀ n ∈ L q, t.sched.prev (t.sched.next n) = n ∧ t.sched.next (t.sched.prev n) = n
  /-- Every live thread is on exactly one queue, -/
  once : ∀ n ∈ t.live, ∃! q, n ∈ L q
  /-- and only live threads are on queues. -/
  only : ∀ q, ∀ n ∈ L q, n ∈ t.live
  /-- A thread that exited is on no queue and is not referred to. -/
  exited : ∀ n ∈ t.exited, (∀ q, n ∉ L q) ∧ n ≠ t.sched.curProc ∧ n ≠ t.sched.nextProc
  /-- The running thread, if there is one and it is not the source, is on the ready queue. -/
  running : t.sched.curProc = 0 ∨ t.sched.curProc = st.sourceProc ∨ t.sched.curProc ∈ L st.availProcs

/-- The calls that return: all of them once `PROC_run` has been called, those that choose no thread also
before. -/
structure ThreadsReturn (st : ProcStatics) (t : Threads) : Prop where
  createKthread : ∀ ctx frame node, ctx ≠ 0 → node ≠ 0 → node ≠ st.sourceProc → node ∉ t.live →
    ∃ r, procCreateKthread st ctx frame node t.sched = .ok r
  run : ∀ rsp, ∃ s', procRun st rsp t.sched = .ok s'
  unblockHead : ∀ q, q ≠ 0 → t.sched.head q ≠ 0 → ∃ s', procUnblockHead st q t.sched = .ok s'
  unblockAll : ∀ q, q ≠ 0 → q ≠ st.availProcs →
    ∃ fuel s', procUnblockAll st q fuel t.sched = some (.ok s')
  yield : (t.sched.nodes st.sourceProc).context ≠ 0 → ∀ rsp, ∃ s', BanjOS.yield st rsp t.sched = .ok s'
  blockOn : (t.sched.nodes st.sourceProc).context ≠ 0 → t.sched.curProc ∈ t.live →
    ∀ q rsp, ∃ s', procBlockOn st q rsp t.sched = .ok s'
  exit : (t.sched.nodes st.sourceProc).context ≠ 0 → t.sched.curProc ∈ t.live →
    ∀ rsp, ∃ r, kexit st rsp t.sched = .ok r

/-- The invariant of a run. -/
def Threads.Inv (st : ProcStatics) (t : Threads) : Prop :=
  (∃ L, Placed st L t.live t.sched ∧ Running st L t.sched) ∧
    ∀ n ∈ t.exited, n ∉ t.live ∧ n ≠ 0 ∧ n ≠ st.sourceProc

section
variable {st : ProcStatics} {s : Sched} {t t' : Threads}

/-- The empty system. -/
theorem SchedBoot.inv (h : SchedBoot st s) : Threads.Inv st ⟨s, [], []⟩ := by
  refine ⟨⟨fun _ => [], ⟨⟨fun q => ⟨h.head q, .nil, nofun⟩, nofun⟩, ?_, .nil, nofun, ?_, nofun⟩, ?_,
    .inl h.curProc⟩, nofun⟩
  · simp
  · rw [Sched.prev, h.source]
  · rw [h.nextProc, h.curProc]

/-- One call keeps the invariant. -/
theorem ThreadStep.inv (hstep : ThreadStep st t t') (h : t.Inv st) : t'.Inv st := by
  obtain ⟨⟨L, hplaced, hr⟩, hexited⟩ := h
  cases hstep with
  | createKthread hctx hn0 hns hn hrun =>
    obtain ⟨_, hok, h', hcur, hnext⟩ := hplaced.createKthread _ _ hctx hn0 hns hn
    rw [hrun] at hok
    cases hok
    refine ⟨⟨_, h', by rw [hnext, hcur, hr.next_eq], ?_⟩, fun m hm => ?_⟩
    · rw [hcur, Function.update_self]
      exact hr.cur.imp id (Or.imp id (List.mem_append_left _))
    · obtain ⟨hm, hne⟩ := List.mem_filter.1 hm
      obtain ⟨hlive, hm0, hms⟩ := hexited m hm
      refine ⟨fun hc => (List.mem_cons.1 hc).elim (fun he => ?_) hlive, hm0, hms⟩
      simp [he] at hne
  | run hrun =>
    obtain ⟨L', h', hr', -⟩ := hplaced.run_ready hr hrun
    exact ⟨⟨L', h', hr'⟩, hexited⟩
  | yield hrun => exact ⟨hplaced.yield hrun, hexited⟩
  | blockOn hrun => exact ⟨hplaced.blockOn hr hrun, hexited⟩
  | unblockHead hrun =>
    obtain ⟨L', h', hmove, hvars⟩ := hplaced.unblockHead_moves hrun
    exact ⟨⟨L', h', hr.unblocks hmove hvars⟩, hexited⟩
  | unblockAll hrun =>
    obtain ⟨L', h', hmove, hvars⟩ := hplaced.unblockAll_moves hrun
    exact ⟨⟨L', h', hr.unblocks hmove hvars⟩, hexited⟩
  | exit hrun =>
    obtain ⟨hcur, hinv⟩ := hplaced.kexit_ok hr hrun
    refine ⟨hinv, fun m hm => ?_⟩
    rcases List.mem_cons.1 hm with rfl | hm
    · exact ⟨fun hc => (hplaced.nodup.mem_erase_iff.1 hc).1 rfl, hplaced.ne_of_live hcur⟩
    · obtain ⟨hlive, hne⟩ := hexited m hm
      exact ⟨fun hc => hlive (List.mem_of_mem_erase hc), hne⟩

/-- Along every run from the empty system the invariant holds. -/
theorem threadRun_inv (hs : SchedBoot st s)
    (hrun : Relation.ReflTransGen (ThreadStep st) ⟨s, [], []⟩ t) : t.Inv st :=
  hrun.invariant (Threads.Inv st) hs.inv fun _ _ => ThreadStep.inv

/-- A thread that runs is on the ready queue. -/
theorem Running.ready {L : Nat → List Nat} (hr : Running st L t.sched) (h : Placed st L t.live t.sched)
    (hlive : t.sched.curProc ∈ t.live) : t.sched.curProc ∈ L st.availProcs := by
  obtain ⟨h0, hs⟩ := h.ne_of_live hlive
  exact (hr.cur.resolve_left h0).resolve_left hs

/-- The invariant says what holds of the queues. -/
theorem Placed.sound {L : Nat → List Nat} (h : Placed st L t.live t.sched) (hr : Running st L t.sched)
    (hexited : ∀ n ∈ t.exited, n ∉ t.live ∧ n ≠ 0 ∧ n ≠ st.sourceProc) : ThreadsSound st L t where
  ring q := ⟨(h.queues.queue q).ring, (h.queues.queue q).head_eq⟩
  inverse q n hn := ((h.queues.queue q).ring.inverse hn).2.2
  once n hn := by
    obtain ⟨q, hq⟩ := (h.mem_live n).1 hn
    exact ⟨q, hq, fun q' hq' => h.queues.disjoint q' q n hq' hq⟩
  only _ _ hn := h.live_of_mem hn
  exited n hn := by
    obtain ⟨hlive, h0, hs⟩ := hexited n hn
    have hcur : n ≠ t.sched.curProc := by
      rintro rfl
      exact hlive (h.live_of_mem ((hr.cur.resolve_left h0).resolve_left hs))
    exact ⟨fun q hq => hlive (h.live_of_mem hq), hcur, by rwa [hr.next_eq]⟩
  running := hr.cur

/-- The invariant makes the calls return. -/
theorem Placed.returns {L : Nat → List Nat} (h : Placed st L t.live t.sched) (hr : Running st L t.sched) :
    ThreadsReturn st t where
  createKthread ctx frame node hctx h0 hs hn :=
    let ⟨_, hok, _⟩ := h.createKthread ctx frame hctx h0 hs hn
    ⟨_, hok⟩
  run := h.run_returns
  unblockHead q hq hhead := by
    obtain ⟨n, w, hl⟩ := List.exists_cons_of_ne_nil fun hc => hhead (h.queues.head_eq_zero.2 hc)
    obtain ⟨s', hok, _⟩ := h.unblockHead hq hl
    exact ⟨s', hok⟩
  unblockAll q hq hqa := ⟨_, h.unblockAll_returns hq hqa (L q) rfl⟩
  yield hsource rsp := by
    refine h.yield_returns rsp hsource fun h0 => ?_
    rcases hr.cur.resolve_left h0 with hcur | hcur
    · rwa [hcur]
    · exact h.context _ (h.live_of_mem hcur)
  blockOn hsource hlive q rsp := h.blockOn_returns q rsp hsource (hr.ready h hlive)
  exit hsource hlive rsp := h.kexit_returns rsp hsource (hr.ready h hlive)

end

/-- From the empty system, in every state reached by any sequence of calls, the queues are well-formed
rings, every live thread is on exactly one of them, threads that exited are on none and are not
referred to, and the running thread is on the ready queue unless it is the source. In such a state the
calls return, and the loop of `PROC_unblock_all` ends. -/
theorem threadRun_sound {st : ProcStatics} {s : Sched} (hs : SchedBoot st s) {t : Threads}
    (hrun : Relation.ReflTransGen (ThreadStep st) ⟨s, [], []⟩ t) :
    (∃ L, ThreadsSound st L t) ∧ ThreadsReturn st t := by
  obtain ⟨⟨L, hplaced, hr⟩, hexited⟩ := threadRun_inv hs hrun
  exact ⟨⟨L, hplaced.sound hr hexited⟩, hplaced.returns hr⟩

/-- Two threads; the first blocks, is unblocked by the second, and the second exits. -/
theorem threadRun_sound_two_threads :
    let st : ProcStatics := ⟨0x100, 0x200, 0x300, by decide, by decide, by decide⟩
    let s : Sched := ⟨fun _ => ⟨0, 0, 0⟩, fun _ => ⟨0, 0, 0⟩, fun _ => 0, 0, 0, 0⟩
    ∃ t, Relation.ReflTransGen (ThreadStep st) ⟨s, [], []⟩ t ∧ t.exited.length = 1 ∧
      ∃ L, ThreadsSound st L t := by
  intro st s
  have hok : (procCreateKthread st 0x1000 0x2000 0x3000 s >>= fun r =>
      procCreateKthread st 0x4000 0x5000 0x6000 r.2 >>= fun r => procRun st 0x10 r.2 >>= fun s =>
      procBlockOn st 0x400 0x20 s >>= fun s => procUnblockHead st 0x400 s >>= fun s =>
      kexit st 0x30 s).isOk = true := by decide
  obtain ⟨⟨_, s₆⟩, h⟩ := Except.exists_of_isOk hok
  obtain ⟨⟨_, s₁⟩, h₁, h⟩ := Except.bind_eq_ok.1 h
  obtain ⟨⟨_, s₂⟩, h₂, h⟩ := Except.bind_eq_ok.1 h
  obtain ⟨s₃, h₃, h⟩ := Except.bind_eq_ok.1 h
  obtain ⟨s₄, h₄, h⟩ := Except.bind_eq_ok.1 h
  obtain ⟨s₅, h₅, h₆⟩ := Except.bind_eq_ok.1 h
  have hs : SchedBoot st s := ⟨fun _ => rfl, rfl, rfl, rfl⟩
  have hrun : Relation.ReflTransGen (ThreadStep st) ⟨s, [], []⟩
      ⟨s₆, [0x6000, 0x3000].erase s₅.curProc, [s₅.curProc]⟩ :=
    .tail (.tail (.tail (.tail (.tail (.single (.createKthread (by decide) (by decide) (by decide)
      (by decide) h₁)) (.createKthread (by decide) (by decide) (by decide) (by decide) h₂)) (.run h₃))
      (.blockOn h₄)) (.unblockHead h₅)) (.exit h₆)
  exact ⟨_, hrun, rfl, (threadRun_sound hs hrun).1⟩

end BanjOS
