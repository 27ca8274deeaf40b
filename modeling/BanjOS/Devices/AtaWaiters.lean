import BanjOS.Devices.AtaCalls

/-!
# Threads that wait for the disk

A thread that finds no data waits on the `block_queue` of the first request of the device queue, and a thread
that has read its words frees the first request. Neither looks at whose request that is. `ParksOwn` says
that it is the thread's own; in a run in which it holds before every step, every thread that is blocked for
the disk is on the queue of a request that is still there (`noOrphan_of_parksOwn`).
-/

namespace BanjOS

/-- A thread that is about to wait, or to take a request off the device queue, owns the first request. -/
def ParksOwn (k : AtaSystem) : Prop :=
  k.here = .block ∨ k.here = .reading 256 → k.ata.reqHead = k.hereCall.req

/-- Every thread that is blocked in `ata_48_read_block` is on the `block_queue` of a request in the device
queue. -/
def NoOrphan (st : ProcStatics) (k : AtaSystem) : Prop :=
  ∀ n, k.point n ≠ .outside → ¬ OnQueue k.sched st.availProcs n →
    ∃ r, LinkReaches 0 k.ata.next k.ata.reqHead r ∧ OnQueue k.sched (blockQueue r) n

/-- No thread waits on the request that `ata_req_unqueue` is about to take off. -/
def FreesUnwaited (k : AtaSystem) : Prop :=
  k.here = .reading 256 → k.sched.head (blockQueue k.ata.reqHead) = 0

/-- The points at which a thread can be on a `block_queue`. -/
def ReadPoint.Waiting (pt : ReadPoint) : Prop := pt = yielding ∨ pt = rescheduled ∨ pt = resumed

/-- What holds between the steps, `L q` being the threads on the queue `q` and `Q` the requests in the device
queue. -/
structure WaitersInv (st : ProcStatics) (queues : Nat → Prop) (L : Nat → List Nat) (Q : List Nat)
    (k : AtaSystem) : Prop where
  calls : CallsInv Q k
  placed : Placed st L k.live k.sched
  /-- The queues of the requests are not among the other queues. -/
  apart : ∀ r ∈ Q, blockQueue r ≠ st.availProcs ∧ ¬ queues (blockQueue r)
  avail : ¬ queues st.availProcs
  used : ∀ q, ∀ n ∈ L q, q = st.availProcs ∨ queues q ∨ ∃ r ∈ Q, q = blockQueue r
  /-- Threads wait on their own requests. -/
  waiting : ∀ r ∈ Q, ∀ n ∈ L (blockQueue r), (k.point n).Waiting ∧ (k.call n).req = r
  reader : ∀ n, k.point n ≠ .outside → n ∈ L st.availProcs ∨ n ∈ L (blockQueue (k.call n).req)
  /-- A thread that waits runs on to the end of `yield`. -/
  running : k.here ≠ .yielding → k.here ≠ .rescheduled → Running st L k.sched
  selected : k.here = .rescheduled → k.sched.nextProc = 0 ∨ k.sched.nextProc = st.sourceProc ∨
    k.sched.nextProc ∈ L st.availProcs

/-- Threads that read move from the queues of their requests to the ready queue only. -/
structure ReadersMove (st : ProcStatics) (queues : Nat → Prop) (point : Nat → ReadPoint)
    (L L' : Nat → List Nat) : Prop where
  ready : ∀ n, point n ≠ .outside → n ∈ L st.availProcs → n ∈ L' st.availProcs
  old : ∀ q, q ≠ st.availProcs → ¬ queues q → L' q ⊆ L q
  stay : ∀ q, q ≠ st.availProcs → ¬ queues q → ∀ n ∈ L q, n ∈ L' q ∨ n ∈ L' st.availProcs

section
variable {st : ProcStatics} {queues : Nat → Prop} {L L' : Nat → List Nat} {Q : List Nat} {k k' : AtaSystem}
  {point : Nat → ReadPoint} {q : Nat}

theorem Unblocks.readersMove (h : Unblocks st q L L') : ReadersMove st queues point L L' where
  ready _ _ hn := h.mem_ready hn
  old q' hq' _ := h.old q' hq'
  stay q' _ _ n hn := h.stay q' n hn

/-- The queues of the requests are as before. -/
theorem ReadersMove.of_eq (hready : ∀ n, point n ≠ .outside → n ∈ L st.availProcs → n ∈ L' st.availProcs)
    (hother : ∀ q, q ≠ st.availProcs → ¬ queues q → L' q = L q) : ReadersMove st queues point L L' where
  ready := hready
  old q hq hqs := by
    rw [hother q hq hqs]
    exact List.Subset.refl _
  stay q hq hqs n hn := by
    rw [hother q hq hqs]
    exact .inl hn

theorem ReadersMove.refl : ReadersMove st queues point L L :=
  .of_eq (fun _ _ hn => hn) fun _ _ _ => rfl

/-- The queue of a request that is not in the device queue is empty. -/
theorem WaitersInv.queue_nil (h : WaitersInv st queues L Q k) {r : Nat} (hr : r ∉ Q)
    (havail : blockQueue r ≠ st.availProcs) (hqueues : ¬ queues (blockQueue r)) : L (blockQueue r) = [] := by
  rw [List.eq_nil_iff_forall_not_mem]
  intro n hn
  rcases h.used _ n hn with hc | hc | ⟨r', hr', hc⟩
  · exact havail hc
  · exact hqueues hc
  · exact hr (Nat.add_right_cancel hc ▸ hr')

/-- A thread that runs in `ata_48_read_block` is on the ready queue. -/
theorem WaitersInv.cur_ready (h : WaitersInv st queues L Q k) (hhere : k.here ≠ .outside)
    (hr : Running st L k.sched) : k.sched.curProc ∈ L st.availProcs := by
  rcases h.reader _ hhere with hn | hn
  · exact hn
  · obtain ⟨h0, hs⟩ := h.placed.ne_of_live (h.placed.live_of_mem hn)
    exact (hr.cur.resolve_left h0).resolve_left hs

/-- No thread waits on the request of a thread that does not. -/
theorem WaitersInv.own_queue_nil (h : WaitersInv st queues L Q k) (hhere : k.here ≠ .outside)
    (hwait : ¬ k.here.Waiting) : L (blockQueue k.hereCall.req) = [] := by
  rw [List.eq_nil_iff_forall_not_mem]
  intro n hn
  obtain ⟨hpt, hreq⟩ := h.waiting _ (h.calls.own _ hhere) n hn
  have hout : k.point n ≠ .outside := by
    intro hc
    rw [hc] at hpt
    rcases hpt with hpt | hpt | hpt <;> cases hpt
  obtain rfl := h.calls.inj n _ hout hhere hreq
  exact hwait hpt

/-- A step that keeps the requests and moves no thread to a queue of one. -/
theorem WaitersInv.keep (h : WaitersInv st queues L Q k) (hcalls : CallsInv Q k')
    (hplaced : Placed st L' k'.live k'.sched) (hmove : ReadersMove st queues k'.point L L')
    (hreq : ∀ n, (k'.call n).req = (k.call n).req)
    (hout : ∀ n, k'.point n ≠ .outside → k.point n ≠ .outside)
    (hwait : ∀ n, n ∉ L st.availProcs → (k.point n).Waiting → (k'.point n).Waiting)
    (hrunning : k'.here ≠ .yielding → k'.here ≠ .rescheduled → Running st L' k'.sched)
    (hselected : k'.here = .rescheduled → k'.sched.nextProc = 0 ∨ k'.sched.nextProc = st.sourceProc ∨
      k'.sched.nextProc ∈ L' st.availProcs) : WaitersInv st queues L' Q k' where
  calls := hcalls
  placed := hplaced
  apart := h.apart
  avail := h.avail
  used q n hn := by
    by_cases hqa : q = st.availProcs
    · exact .inl hqa
    · by_cases hqs : queues q
      · exact .inr (.inl hqs)
      · exact h.used q n (hmove.old q hqa hqs hn)
  waiting r hr n hn := by
    obtain ⟨hra, hrq⟩ := h.apart r hr
    have hn' := hmove.old _ hra hrq hn
    obtain ⟨hpt, hown⟩ := h.waiting r hr n hn'
    exact ⟨hwait n (h.placed.queues.not_mem hn' hra.symm) hpt, (hreq n).trans hown⟩
  reader n hn := by
    have hn' := hout n hn
    rw [hreq]
    rcases h.reader n hn' with hmem | hmem
    · exact .inl (hmove.ready n hn hmem)
    · obtain ⟨hra, hrq⟩ := h.apart _ (h.calls.own n hn')
      exact (hmove.stay _ hra hrq n hmem).symm
  running := hrunning
  selected := hselected

/-- The running thread moves on, between points at which it does not wait. -/
theorem WaitersInv.go (h : WaitersInv st queues L Q k) {pt : ReadPoint} (hcalls : CallsInv Q k')
    (hsched : k'.sched = k.sched ∧ k'.live = k.live) (hpoint : k'.point = (k.move pt).point)
    (hreq : ∀ n, (k'.call n).req = (k.call n).req) (hhere : k.here ≠ .outside)
    (hyield : k.here ≠ .yielding ∧ k.here ≠ .rescheduled) (hpt : pt ≠ .rescheduled) :
    WaitersInv st queues L Q k' := by
  have hr := h.running hyield.1 hyield.2
  have hhere' : k'.here = pt := by
    rw [AtaSystem.here, hpoint, hsched.1, AtaSystem.move_point_cur]
  have hother : ∀ n, n ≠ k.sched.curProc → k'.point n = k.point n := fun n hn => by
    rw [hpoint, k.move_point_of_ne pt hn]
  refine h.keep hcalls ?_ .refl hreq (fun n hn => ?_) (fun n hn hwait => ?_) (fun _ _ => ?_)
    fun hc => absurd (hhere'.symm.trans hc) hpt
  · rw [hsched.1, hsched.2]
    exact h.placed
  · by_cases hnc : n = k.sched.curProc
    · rwa [hnc]
    · rwa [hother n hnc] at hn
  · have hnc : n ≠ k.sched.curProc := fun hc => hn (hc ▸ h.cur_ready hhere hr)
    rwa [hother n hnc]
  · rw [hsched.1]
    exact hr

/-- Code outside of `ata_48_read_block`. -/
theorem WaitersInv.outside (h : WaitersInv st queues L Q k) (hhere : k.here = .outside) {s : Sched}
    {live : List Nat} (hplaced : Placed st L' live s) (hr : Running st L' s)
    (hready : ∀ n ∈ L st.availProcs, n ≠ k.sched.curProc → n ∈ L' st.availProcs)
    (hother : ∀ q, q ≠ st.availProcs → ¬ queues q → L' q = L q) :
    WaitersInv st queues L' Q { k with sched := s, live } := by
  refine h.keep (h.calls.outside (.inl hhere) hr.next_eq) hplaced (.of_eq (fun n hn hmem => ?_) hother)
    (fun _ => rfl) (fun _ hn => hn) (fun _ _ hwait => hwait) (fun _ _ => hr) fun _ => ?_
  · exact hready n hmem fun hc => hn (hc ▸ hhere)
  · show s.nextProc = 0 ∨ s.nextProc = st.sourceProc ∨ s.nextProc ∈ L' st.availProcs
    rw [hr.next_eq]
    exact hr.cur

/-- An interrupt handler moves threads to the ready queue. -/
theorem WaitersInv.handler (h : WaitersInv st queues L Q k) {s : Sched} {drive : Drive}
    (hplaced : Placed st L' k.live s) (hmove : Unblocks st q L L')
    (hvars : s.curProc = k.sched.curProc ∧ s.nextProc = k.sched.nextProc) :
    WaitersInv st queues L' Q { k with sched := s, drive } := by
  have hhere : AtaSystem.here { k with sched := s, drive } = k.here := congrArg k.point hvars.1
  refine h.keep (h.calls.handler hvars) hplaced hmove.readersMove (fun _ => rfl) (fun _ hn => hn)
    (fun _ _ hwait => hwait) (fun hy hre => ?_) fun hre => ?_
  · rw [hhere] at hy hre
    exact (h.running hy hre).unblocks hmove hvars
  · rw [hhere] at hre
    show s.nextProc = 0 ∨ s.nextProc = st.sourceProc ∨ s.nextProc ∈ L' st.availProcs
    rw [hvars.2]
    exact (h.selected hre).imp id (Or.imp id hmove.mem_ready)

/-- The switch after `PROC_reschedule`. -/
theorem WaitersInv.switch (h : WaitersInv st queues L Q k) (hhere : k.here = .rescheduled) {pt : ReadPoint}
    (hpt : pt = .rescheduled ∨ pt = .resumed) {s : Sched} {rsp : Nat}
    (hswitch : contextSwitch st rsp k.sched = .ok s) :
    WaitersInv st queues L Q { k.move pt with sched := s } := by
  obtain ⟨hplaced, hr⟩ := h.placed.switch hswitch (h.selected hhere)
  have hrest : pt.Rest := .inr hpt
  have hne : k.here ≠ .outside := by simp [hhere]
  refine h.keep (h.calls.switch hrest (fun _ => hne) hr.next_eq) hplaced .refl (fun _ => rfl) (fun n hn => ?_)
    (fun n _ hwait => ?_) (fun _ _ => hr) fun _ => ?_
  · by_cases hnc : n = k.sched.curProc
    · rwa [hnc]
    · rwa [← k.move_point_of_ne pt hnc]
  · show ((k.move pt).point n).Waiting
    by_cases hnc : n = k.sched.curProc
    · rw [hnc, AtaSystem.move_point_cur]
      exact .inr hpt
    · rwa [k.move_point_of_ne pt hnc]
  · show s.nextProc = 0 ∨ s.nextProc = st.sourceProc ∨ s.nextProc ∈ L st.availProcs
    rw [hr.next_eq]
    exact hr.cur

/-- Any interrupt: at other points `next_proc` is the running thread. -/
theorem WaitersInv.interrupt (h : WaitersInv st queues L Q k) {s : Sched} {rsp : Nat}
    (hswitch : contextSwitch st rsp k.sched = .ok s) : WaitersInv st queues L Q { k with sched := s } := by
  by_cases hhere : k.here = .rescheduled
  · have h' := h.switch hhere (.inl rfl) hswitch
    rwa [← hhere, k.move_self] at h'
  · rw [contextSwitch, if_pos (h.calls.next hhere).symm] at hswitch
    cases hswitch
    exact h

/-- Code outside of `ata_48_read_block` blocks on a queue that is not a request's. -/
theorem WaitersInv.blockOn (h : WaitersInv st queues L Q k) (hhere : k.here = .outside) (hq : queues q)
    (hr : Running st L k.sched) {s : Sched} {rsp : Nat} (hblock : procBlockOn st q rsp k.sched = .ok s) :
    ∃ L' Q', WaitersInv st queues L' Q' { k with sched := s } := by
  by_cases hq0 : q = 0
  · rw [procBlockOn, if_pos hq0] at hblock
    cases hblock
    exact ⟨L, Q, h⟩
  · obtain ⟨-, L', hplaced, hr', hready, hother⟩ := h.placed.blockOn_ready hr hq0 hblock
    have hqa : q ≠ st.availProcs := fun hc => h.avail (hc ▸ hq)
    refine ⟨L', Q, h.outside hhere hplaced hr' (fun n hn hnc => ?_) fun q' hqa' hqs => ?_⟩
    · rw [(hready hqa).1, List.mem_rotate]
      exact (List.mem_erase_of_ne hnc).2 hn
    · exact hother q' hqa' fun hc => hqs (hc ▸ hq)

/-- `PROC_reschedule`. -/
theorem WaitersInv.reschedule (h : WaitersInv st queues L Q k) (hhere : k.here = .yielding) {s : Sched}
    (hre : procReschedule st k.sched = .ok s) :
    ∃ L', WaitersInv st queues L' Q { k.move .rescheduled with sched := s } := by
  obtain ⟨_, hok, hplaced, -, hcur, hnext⟩ := h.placed.reschedule
  rw [hre] at hok
  cases hok
  have hne : k.here ≠ .outside := by simp [hhere]
  have hhere' : AtaSystem.here { k.move .rescheduled with sched := s } = .rescheduled := by
    rw [AtaSystem.here, hcur]
    exact k.move_point_cur _
  refine ⟨_, h.keep (h.calls.move hne hcur (by simp)) hplaced (.of_eq (fun n _ hn => ?_) fun q hq _ => ?_)
    (fun _ => rfl) (fun n hn => ?_) (fun n _ hwait => ?_) (fun _ hc => absurd hhere' hc) fun _ => ?_⟩
  · rwa [Function.update_self, List.mem_rotate]
  · exact Function.update_of_ne hq ..
  · by_cases hnc : n = k.sched.curProc
    · rwa [hnc]
    · rwa [← k.move_point_of_ne _ hnc]
  · show ((k.move .rescheduled).point n).Waiting
    by_cases hnc : n = k.sched.curProc
    · rw [hnc, AtaSystem.move_point_cur]
      exact .inr (.inl rfl)
    · rwa [k.move_point_of_ne _ hnc]
  · show s.nextProc = 0 ∨ s.nextProc = st.sourceProc ∨ s.nextProc ∈ _
    rw [hnext, Function.update_self, List.mem_rotate]
    cases L st.availProcs with
    | nil => exact .inl rfl
    | cons n w => exact .inr (.inr (.head _))

/-- A thread goes from the ready queue to the queue of its own request. -/
theorem WaitersInv.park (h : WaitersInv st queues L Q k) (hhere : k.here = .block)
    (hown : k.ata.reqHead = k.hereCall.req) {s₁ s₂ : Sched}
    (hunlink : unlinkProc k.sched.curProc st.availProcs k.sched = .ok s₁)
    (happend : appendProc k.sched.curProc (blockQueue k.ata.reqHead) s₁ = .ok s₂) :
    ∃ L', WaitersInv st queues L' Q { k.move .yielding with sched := s₂ } := by
  have hin : k.here ≠ .outside := by simp [hhere]
  have hcur := h.cur_ready hin (h.running (by simp [hhere]) (by simp [hhere]))
  have hq : blockQueue k.ata.reqHead ≠ 0 := Nat.succ_ne_zero _
  obtain ⟨_, _, hok₁, hok₂, hplaced, -, hf⟩ := h.placed.move st.availProcs_ne hq hcur
  rw [hunlink] at hok₁
  cases hok₁
  rw [happend] at hok₂
  cases hok₂
  obtain ⟨hapart, hqueues⟩ := h.apart _ (h.calls.own _ hin)
  rw [← AtaSystem.hereCall, ← hown] at hapart hqueues
  have hnil : L (blockQueue k.ata.reqHead) = [] := by
    rw [hown]
    refine h.own_queue_nil hin ?_
    rw [hhere]
    simp [ReadPoint.Waiting]
  obtain ⟨L', hplaced, hready, hqueue, hother⟩ : ∃ L', Placed st L' k.live s₂ ∧
      L' st.availProcs = (L st.availProcs).erase k.sched.curProc ∧
      L' (blockQueue k.ata.reqHead) = [k.sched.curProc] ∧
      ∀ q, q ≠ st.availProcs → q ≠ blockQueue k.ata.reqHead → L' q = L q := by
    refine ⟨_, hplaced, ?_, ?_, fun q hqa hqr => ?_⟩
    · rw [Function.update_of_ne hapart.symm, Function.update_self]
    · rw [Function.update_self, Function.update_of_ne hapart, hnil, List.nil_append]
    · rw [Function.update_of_ne hqr, Function.update_of_ne hqa]
  have hhere' : AtaSystem.here { k.move .yielding with sched := s₂ } = .yielding := by
    rw [AtaSystem.here, hf.curProc]
    exact k.move_point_cur _
  refine ⟨L', h.calls.move hin hf.curProc fun _ => ?_, hplaced, h.apart, h.avail, fun q n hn => ?_,
    fun r hr n hn => ?_, fun n hn => ?_, fun hc => absurd hhere' hc, fun hc => ?_⟩
  · rw [hf.nextProc, hf.curProc]
    exact h.calls.next (by simp [hhere])
  · by_cases hqa : q = st.availProcs
    · exact .inl hqa
    · by_cases hqr : q = blockQueue k.ata.reqHead
      · exact .inr (.inr ⟨_, h.calls.own _ hin, hqr.trans (congrArg blockQueue hown)⟩)
      · rw [hother q hqa hqr] at hn
        exact h.used q n hn
  · show ((k.move .yielding).point n).Waiting ∧ (k.call n).req = r
    by_cases hqr : blockQueue r = blockQueue k.ata.reqHead
    · rw [hqr, hqueue, List.mem_singleton] at hn
      rw [hn, AtaSystem.move_point_cur, Nat.add_right_cancel hqr, hown]
      exact ⟨.inl rfl, rfl⟩
    · have hra := (h.apart r hr).1
      rw [hother _ hra hqr] at hn
      have hnc : n ≠ k.sched.curProc := fun hc => h.placed.queues.not_mem hcur hra (hc ▸ hn)
      rw [k.move_point_of_ne _ hnc]
      exact h.waiting r hr n hn
  · show n ∈ L' st.availProcs ∨ n ∈ L' (blockQueue (k.call n).req)
    by_cases hnc : n = k.sched.curProc
    · rw [hnc, ← AtaSystem.hereCall, ← hown, hqueue]
      exact .inr (.head _)
    · have hn' : k.point n ≠ .outside := by
        rwa [← k.move_point_of_ne .yielding hnc]
      have hreq : blockQueue (k.call n).req ≠ blockQueue k.ata.reqHead := fun hc =>
        hnc (h.calls.inj n _ hn' hin ((Nat.add_right_cancel hc).trans hown))
      rw [hready, hother _ (h.apart _ (h.calls.own n hn')).1 hreq]
      exact (h.reader n hn').imp (List.mem_erase_of_ne hnc).2 id
  · rw [hhere'] at hc
    cases hc

/-- A new request, which no thread waits on. -/
theorem WaitersInv.start (h : WaitersInv st queues L Q k) (hlive : k.sched.curProc ∈ k.live)
    (hhere : k.here = .outside) {blkNum req : Nat} {dst : Nat → UInt16} (hreq : req ≠ 0)
    (halloc : req ∉ k.allocated) (havail : blockQueue req ≠ st.availProcs)
    (hqueues : ¬ queues (blockQueue req)) :
    WaitersInv st queues L (Q ++ [req]) (k.start blkNum req dst) := by
  have hr := h.running (by simp [hhere]) (by simp [hhere])
  have hcur : k.sched.curProc ∈ L st.availProcs := by
    obtain ⟨h0, hs⟩ := h.placed.ne_of_live hlive
    exact (hr.cur.resolve_left h0).resolve_left hs
  have hQ : req ∉ Q := fun hc => halloc (h.calls.allocated req hc)
  have hnil := h.queue_nil hQ havail hqueues
  have hhead : (k.sched.setHead (blockQueue req) 0).head = k.sched.head := by
    rw [Sched.setHead_head, ← h.placed.queues.head_eq_zero.2 hnil, Function.update_eq_self]
  have hhere' : (k.start blkNum req dst).here = .poll := AtaSystem.move_point_cur k .poll
  have hother : ∀ n, n ≠ k.sched.curProc → (k.start blkNum req dst).point n = k.point n ∧
      (k.start blkNum req dst).call n = k.call n := fun n hn =>
    ⟨Function.update_of_ne hn .., Function.update_of_ne hn ..⟩
  refine ⟨h.calls.start hhere hreq halloc, h.placed.congr (fun _ _ => rfl) hhead h.placed.source_prev,
    fun r hr => ?_, h.avail, fun q n hn => ?_, fun r hr n hn => ?_, fun n hn => ?_,
    fun _ _ => ⟨hr.next_eq, hr.cur⟩, fun hc => ?_⟩
  · rcases List.mem_append.1 hr with hr | hr
    · exact h.apart r hr
    · rw [List.mem_singleton.1 hr]
      exact ⟨havail, hqueues⟩
  · exact (h.used q n hn).imp id (Or.imp id fun ⟨r, hr, hq⟩ => ⟨r, List.mem_append_left _ hr, hq⟩)
  · have hr' : r ∈ Q := by
      refine (List.mem_append.1 hr).resolve_right fun hc => ?_
      rw [List.mem_singleton.1 hc, hnil] at hn
      cases hn
    have hnc : n ≠ k.sched.curProc := fun hc =>
      h.placed.queues.not_mem hcur (h.apart r hr').1 (hc ▸ hn)
    rw [(hother n hnc).1, (hother n hnc).2]
    exact h.waiting r hr' n hn
  · by_cases hnc : n = k.sched.curProc
    · exact .inl (hnc ▸ hcur)
    · rw [(hother n hnc).1] at hn
      rw [(hother n hnc).2]
      exact h.reader n hn
  · rw [hhere'] at hc
    cases hc

/-- The thread frees its own request, which no thread waits on. -/
theorem WaitersInv.unqueue (h : WaitersInv st queues L Q k) (hhere : k.here = .reading 256)
    (hown : k.ata.reqHead = k.hereCall.req) : ∃ Q', WaitersInv st queues L Q' k.unqueue := by
  have hin : k.here ≠ .outside := by simp [hhere]
  have hr := h.running (by simp [hhere]) (by simp [hhere])
  obtain ⟨Q', rfl⟩ := h.calls.exists_tail hin hown
  have hnil : L (blockQueue k.hereCall.req) = [] := by
    refine h.own_queue_nil hin ?_
    rw [hhere]
    simp [ReadPoint.Waiting]
  have hhere' : k.unqueue.here = .outside := AtaSystem.move_point_cur k .outside
  have hother : ∀ n, n ≠ k.sched.curProc → k.unqueue.point n = k.point n := fun n hn =>
    k.move_point_of_ne _ hn
  refine ⟨Q', (h.calls.unqueue hhere).1, h.placed, fun r hr => h.apart r (.tail _ hr), h.avail, fun q n hn => ?_,
    fun r hr n hn => ?_, fun n hn => ?_, fun _ _ => hr, fun hc => ?_⟩
  · rcases h.used q n hn with hc | hc | ⟨r, hr, hq⟩
    · exact .inl hc
    · exact .inr (.inl hc)
    · refine .inr (.inr ⟨r, (List.mem_cons.1 hr).resolve_left ?_, hq⟩)
      rintro rfl
      rw [hq, hnil] at hn
      cases hn
  · obtain ⟨hpt, hreq⟩ := h.waiting r (.tail _ hr) n hn
    have hnc : n ≠ k.sched.curProc := by
      rintro rfl
      exact h.placed.queues.not_mem (h.cur_ready hin ‹_›) (h.apart r (.tail _ hr)).1 hn
    exact ⟨by rwa [hother n hnc], hreq⟩
  · have hnc : n ≠ k.sched.curProc := by
      rintro rfl
      exact hn hhere'
    rw [hother n hnc] at hn
    exact h.reader n hn
  · rw [hhere'] at hc
    cases hc

/-- One step keeps the invariant, if a thread waits on and frees its own request only. -/
theorem WaitersInv.step {disk : Nat → Nat → UInt16} (h : WaitersInv st queues L Q k)
    (hs : AtaStep st disk queues k k') (hown : ParksOwn k) : ∃ L' Q', WaitersInv st queues L' Q' k' := by
  cases hs with
  | start _ _ _ hlive hhere _ hreq halloc havail hqueues =>
    exact ⟨L, _, h.start hlive hhere hreq halloc havail hqueues⟩
  | ready hhere | wait hhere | cli hhere =>
    exact ⟨L, Q, h.go (h.calls.move (by simp [hhere]) rfl fun _ => h.calls.next (by simp [hhere])) ⟨rfl, rfl⟩
      rfl (fun _ => rfl) (by simp [hhere]) (by simp [hhere]) (by simp)⟩
  | park hhere _ hunlink happend =>
    obtain ⟨L', h'⟩ := h.park hhere (hown (.inl hhere)) hunlink happend
    exact ⟨L', Q, h'⟩
  | reschedule hhere hre =>
    obtain ⟨L', h'⟩ := h.reschedule hhere hre
    exact ⟨L', Q, h'⟩
  | int80 _ hhere hswitch => exact ⟨L, Q, h.switch hhere (.inr rfl) hswitch⟩
  | switch _ _ hswitch => exact ⟨L, Q, h.interrupt hswitch⟩
  | word noData hhere =>
    exact ⟨L, Q, h.go (h.calls.word hhere noData) ⟨rfl, rfl⟩ rfl
      (fun n => (k.word_call disk noData _ n).1) (by simp [hhere]) (by simp [hhere]) (by simp)⟩
  | unqueue hhere =>
    obtain ⟨Q', h'⟩ := h.unqueue hhere (hown (.inr hhere))
    exact ⟨L, Q', h'⟩
  | drive | irqNone => exact ⟨L, Q, h.handler (q := 0) h.placed .refl ⟨rfl, rfl⟩⟩
  | irq _ _ _ _ hunblock | unblockHead _ _ hunblock =>
    obtain ⟨L', hplaced, hmove, hvars⟩ := h.placed.unblockHead_moves hunblock
    exact ⟨L', Q, h.handler hplaced hmove hvars⟩
  | create _ _ _ hhere hctx hnode hsource hlive hcreate =>
    have hr := h.running (by simp [hhere]) (by simp [hhere])
    obtain ⟨_, hok, hplaced, hcur, hnext⟩ := h.placed.createKthread _ _ hctx hnode hsource hlive
    rw [hcreate] at hok
    cases hok
    refine ⟨_, Q, h.outside hhere hplaced ⟨by rw [hnext, hcur, hr.next_eq], ?_⟩ (fun n hn _ => ?_)
      fun q hq _ => Function.update_of_ne hq ..⟩
    · rw [hcur, Function.update_self]
      exact hr.cur.imp id (Or.imp id (List.mem_append_left _))
    · rw [Function.update_self]
      exact List.mem_append_left _ hn
  | run _ hhere hrun =>
    have hr := h.running (by simp [hhere]) (by simp [hhere])
    obtain ⟨L', hplaced, hr', hready, hother⟩ := h.placed.run_ready hr hrun
    exact ⟨L', Q, h.outside hhere hplaced hr' (fun n hn _ => (hready n).2 hn) fun q hq _ => hother q hq⟩
  | yield _ hhere hyield =>
    obtain ⟨hplaced, hr, -⟩ := h.placed.yield_ready hyield
    refine ⟨_, Q, h.outside hhere hplaced hr (fun n hn _ => ?_) fun q hq _ => Function.update_of_ne hq ..⟩
    rwa [Function.update_self, List.mem_rotate]
  | blockOn queue _ hhere hqueue hblock =>
    have hr := h.running (by simp [hhere]) (by simp [hhere])
    exact h.blockOn hhere hqueue hr hblock
  | exit _ hhere hexit =>
    have hr := h.running (by simp [hhere]) (by simp [hhere])
    obtain ⟨-, L', hplaced, hr', hready, -, hother⟩ := h.placed.kexit_ready hr hexit
    refine ⟨L', Q, h.outside hhere hplaced hr' (fun n hn hnc => ?_) fun q hq _ => hother q hq⟩
    rw [hready]
    exact (List.mem_erase_of_ne hnc).2 hn
  | unblockAll _ _ hunblock =>
    obtain ⟨L', hplaced, hmove, hvars⟩ := h.placed.unblockAll_moves hunblock
    exact ⟨L', Q, h.handler hplaced hmove hvars⟩

/-- In a state of the invariant no thread is orphaned. -/
theorem WaitersInv.noOrphan (h : WaitersInv st queues L Q k) : NoOrphan st k := by
  intro n hn hready
  rw [h.placed.queues.onQueue_iff] at hready
  refine ⟨(k.call n).req, (IsLinkQueue.reaches_iff h.calls.queue).2 (h.calls.own n hn), ?_⟩
  rw [h.placed.queues.onQueue_iff]
  exact (h.reader n hn).resolve_left hready

/-- A thread that frees its own request frees one that no thread waits on. -/
theorem WaitersInv.freesUnwaited (h : WaitersInv st queues L Q k) (hown : ParksOwn k) : FreesUnwaited k := by
  intro hhere
  have hnil : L (blockQueue k.hereCall.req) = [] := by
    refine h.own_queue_nil (by simp [hhere]) ?_
    rw [hhere]
    simp [ReadPoint.Waiting]
  rw [hown (.inr hhere), h.placed.queues.head_eq_zero]
  exact hnil

end

/-- The invariant holds at the start. -/
theorem AtaBoot.waitersInv {st : ProcStatics} {queues : Nat → Prop} {k : AtaSystem} (h : AtaBoot st queues k) :
    ∃ L, WaitersInv st queues L [] k := by
  obtain ⟨⟨L, hplaced, hr⟩, -⟩ := h.sched.inv
  have hempty : ∀ q, ∀ n, n ∉ L q := fun q n hn => List.not_mem_nil (hplaced.live_of_mem hn)
  have hhere : k.here = .outside := h.point _
  refine ⟨L, h.callsInv, h.live ▸ hplaced, fun r hr => absurd hr List.not_mem_nil, h.queues,
    fun q n hn => absurd hn (hempty q n), fun r hr => absurd hr List.not_mem_nil,
    fun n hn => absurd (h.point n) hn, fun _ _ => hr, fun hc => ?_⟩
  rw [hhere] at hc
  cases hc

/-- In every run, of any number of threads and in any order of their steps with the drive's and the
interrupts, in which threads wait on and free their own requests, no thread is blocked on a request that is
not in the device queue, and no thread waits on a request that is freed. -/
theorem noOrphan_of_parksOwn {st : ProcStatics} {disk : Nat → Nat → UInt16} {queues : Nat → Prop}
    {k₀ k : AtaSystem} (h₀ : AtaBoot st queues k₀)
    (hrun : Relation.ReflTransGen (fun k k' => AtaStep st disk queues k k' ∧ ParksOwn k) k₀ k) :
    NoOrphan st k ∧ (ParksOwn k → FreesUnwaited k) := by
  obtain ⟨L₀, h₀⟩ := h₀.waitersInv
  obtain ⟨L, Q, h⟩ := hrun.invariant (fun k => ∃ L Q, WaitersInv st queues L Q k) ⟨L₀, [], h₀⟩
    fun _ _ hs ⟨_, _, h⟩ => h.step hs.1 hs.2
  exact ⟨h.noOrphan, h.freesUnwaited⟩

/-- Two threads. The first one waits for sector 5 while the second one runs, is woken, and frees its request when it has
read the sector; then the second one goes to the queue of its request for sector 9. -/
theorem noOrphan_of_parksOwn_two_threads :
    ∃ k k', Relation.ReflTransGen (fun k k' => AtaStep someProcStatics (fun _ _ => 0) (fun _ => False) k k' ∧
        ParksOwn k) idleAta k ∧ k.here = .reading 256 ∧ NoOrphan someProcStatics k ∧ FreesUnwaited k ∧
      Relation.ReflTransGen (fun k k' => AtaStep someProcStatics (fun _ _ => 0) (fun _ => False) k k' ∧
        ParksOwn k) idleAta k' ∧ k'.returned.map AtaCall.blkNum = [5] ∧ k'.point 0x6000 = .yielding ∧
      NoOrphan someProcStatics k' := by
  have hno : ∀ {k : AtaSystem}, k.here ≠ .block → k.here ≠ .reading 256 → ParksOwn k := fun hb hr hc =>
    absurd hc (not_or.2 ⟨hb, hr⟩)
  have hread : ∀ k k' i, k.here = .reading i → i < 256 →
      AtaStep someProcStatics (fun _ _ => 0) (fun _ => False) k k' →
      AtaStep someProcStatics (fun _ _ => 0) (fun _ => False) k k' ∧ ParksOwn k := fun k k' i hi hlt hs =>
    ⟨hs, hno (by simp [hi]) (by simp [hi, hlt.ne])⟩
  have h₁ : Relation.ReflTransGen (fun k k' =>
      AtaStep someProcStatics (fun _ _ => 0) (fun _ => False) k k' ∧ ParksOwn k) idleAta _ :=
    .single ⟨.create 0x1000 0x2000 0x3000 rfl (by decide) (by decide) (by decide) (by decide) rfl,
      hno (by decide) (by decide)⟩
  have h₂ := h₁.tail ⟨.create 0x4000 0x5000 0x6000 rfl (by decide) (by decide) (by decide) (by decide) rfl,
    hno (by decide) (by decide)⟩
  have h₃ := h₂.tail ⟨.run 0x10 rfl rfl, hno (by decide) (by decide)⟩
  -- the first thread
  have h₄ := h₃.tail ⟨.start 5 0x100 (fun _ => 0) (by decide) rfl (by decide) (by decide) (by decide)
    (by decide) id, hno (by decide) (by decide)⟩
  have h₅ := h₄.tail ⟨.wait rfl rfl, hno (by decide) (by decide)⟩
  have h₆ := h₅.tail ⟨.park rfl (by decide) rfl rfl, fun _ => rfl⟩
  have h₇ := h₆.tail ⟨.reschedule rfl rfl, hno (by decide) (by decide)⟩
  have h₈ := h₇.tail ⟨.int80 0x20 rfl rfl, hno (by decide) (by decide)⟩
  have h₉ := h₈.tail ⟨.drive rfl, hno (by decide) (by decide)⟩
  have h₁₀ := h₉.tail ⟨.irq (by decide) rfl (by decide) (by decide) rfl, hno (by decide) (by decide)⟩
  have h₁₁ := (h₁₀.tail ⟨.yield 0x30 rfl rfl, hno (by decide) (by decide)⟩).tail
    ⟨.yield 0x38 rfl rfl, hno (by decide) (by decide)⟩
  have h₁₂ := h₁₁.tail ⟨.cli rfl, hno (by decide) (by decide)⟩
  have h₁₃ := h₁₂.tail ⟨.ready rfl rfl, hno (by decide) (by decide)⟩
  have h₁₄ := words_run h₁₃ hread rfl rfl 256 le_rfl
  -- the second thread
  have h₁₅ := (h₁₄.tail ⟨.unqueue rfl, fun _ => rfl⟩).tail ⟨.yield 0x40 rfl rfl, hno (by decide) (by decide)⟩
  have h₁₆ := h₁₅.tail ⟨.start 9 0x200 (fun _ => 0) (by decide) rfl (by decide) (by decide) (by decide)
    (by decide) id, hno (by decide) (by decide)⟩
  have h₁₇ := h₁₆.tail ⟨.wait rfl rfl, hno (by decide) (by decide)⟩
  have h₁₈ := h₁₇.tail ⟨.park rfl (by decide) rfl rfl, fun _ => rfl⟩
  obtain ⟨horphan, hfrees⟩ := noOrphan_of_parksOwn ataBoot_idleAta h₁₄
  obtain ⟨horphan', -⟩ := noOrphan_of_parksOwn ataBoot_idleAta h₁₈
  exact ⟨_, _, h₁₄, rfl, horphan, hfrees fun _ => rfl, h₁₈, rfl, rfl, horphan'⟩

/-- A second thread waits on the first one's request, which is freed. -/
theorem orphan_two_threads :
    ∃ k k', Relation.ReflTransGen (AtaStep someProcStatics (fun _ _ => 0) fun _ => False) idleAta k ∧
      AtaStep someProcStatics (fun _ _ => 0) (fun _ => False) k k' ∧ ¬ FreesUnwaited k ∧
      ¬ NoOrphan someProcStatics k' := by
  have h₁ : Relation.ReflTransGen (AtaStep someProcStatics (fun _ _ => 0) fun _ => False) idleAta _ :=
    .single (.create 0x1000 0x2000 0x3000 rfl (by decide) (by decide) (by decide) (by decide) rfl)
  have h₂ := h₁.tail (.create 0x4000 0x5000 0x6000 rfl (by decide) (by decide) (by decide) (by decide) rfl)
  have h₃ := h₂.tail (.run 0x10 rfl rfl)
  have h₄ := h₃.tail (.start 5 0x100 (fun _ => 0) (by decide) rfl (by decide) (by decide) (by decide)
    (by decide) id)
  have h₅ := h₄.tail (.wait rfl rfl)
  have h₆ := h₅.tail (.park rfl (by decide) rfl rfl)
  have h₇ := h₆.tail (.reschedule rfl rfl)
  have h₈ := h₇.tail (.int80 0x20 rfl rfl)
  -- the second thread
  have h₉ := h₈.tail (.start 9 0x200 (fun _ => 0) (by decide) rfl (by decide) (by decide) (by decide)
    (by decide) id)
  have h₁₀ := h₉.tail (.wait rfl rfl)
  have h₁₁ := h₁₀.tail (.park rfl (by decide) rfl rfl)
  have h₁₂ := h₁₁.tail (.reschedule rfl rfl)
  have h₁₃ := h₁₂.tail (.int80 0x30 rfl rfl)
  -- the data is there, and the first thread is woken
  have h₁₄ := h₁₃.tail (.drive rfl)
  have h₁₅ := h₁₄.tail (.irq (by decide) rfl (by decide) (by decide) rfl)
  have h₁₆ := h₁₅.tail (.yield 0x40 rfl rfl)
  have h₁₇ := h₁₆.tail (.cli (by decide))
  obtain ⟨k, hk, hhere, hs, hcur, hpoint, hhead, hready, hqueue⟩ : ∃ k, Relation.ReflTransGen
      (AtaStep someProcStatics (fun _ _ => 0) fun _ => False) idleAta k ∧ k.here = .reading 0 ∧
      k.drive.state = .ready 5 0 ∧ k.sched.curProc = 0x3000 ∧ k.point 0x6000 = .resumed ∧
      (k.ata.reqHead = 0x100 ∧ k.sched.head 0x108 = 0x6000 ∧ k.sched.head 0x208 = 0) ∧
      (k.sched.head someProcStatics.availProcs = 0x3000 ∧ k.sched.next 0x3000 = 0x3000) ∧
      (ataReqUnqueue k.ata).2.reqHead = 0x200 ∧ (ataReqUnqueue k.ata).2.next 0x200 = 0 :=
    ⟨_, h₁₇.tail (.ready (by decide) (by decide)), by decide, by decide,
      by decide, by decide, by decide, by decide, by decide⟩
  have hwords := words_run hk (fun _ _ _ _ _ hs => hs) hhere hs 256 le_rfl
  have hhere' := AtaSystem.move_point_cur k (.reading 256)
  refine ⟨_, _, hwords, .unqueue hhere', fun hfrees => ?_, fun horphan => ?_⟩
  · have hzero : k.sched.head (blockQueue k.ata.reqHead) = 0 := hfrees hhere'
    rw [hhead.1, hhead.2.1] at hzero
    cases hzero
  · have hnc : 0x6000 ≠ k.sched.curProc := by simp [hcur]
    -- the ready queue holds the first thread only
    have hnotReady : ¬ OnQueue k.sched someProcStatics.availProcs 0x6000 := by
      rintro ⟨-, i, hi⟩
      rw [hready.1, Function.iterate_fixed hready.2] at hi
      cases hi
    have hwaits : k.point 0x6000 ≠ .outside := by simp [hpoint]
    obtain ⟨r, ⟨i, hlive, hreach⟩, hon⟩ := horphan 0x6000
      (by simpa [AtaSystem.unqueue, AtaSystem.words, AtaSystem.move, Function.update_of_ne hnc] using hwaits) hnotReady
    -- and the device queue the second request only, which no thread waits on
    cases i with
    | zero =>
      have hr : r = 0x200 := hreach.symm.trans hqueue.1
      rw [hr] at hon
      exact hon.1 hhead.2.2
    | succ i =>
      have hnext : (ataReqUnqueue k.ata).2.next (ataReqUnqueue k.ata).2.reqHead ≠ 0 :=
        hlive 1 (Nat.succ_le_succ (Nat.zero_le i))
      rw [hqueue.1] at hnext
      exact hnext hqueue.2

end BanjOS
