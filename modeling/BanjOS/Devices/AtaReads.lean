import BanjOS.Devices.AtaCalls

/-!
# What a disk read returns

A thread leaves the loop of `ata_48_read_block` when the drive has data, whoever asked for it. `PollsOwn` says
that this does not happen while the first request of the queue is another thread's; in a run in which it
holds before every step, every call returns its sector (`reads_right`). The invariant is that the drive
works on the first request.
-/

namespace BanjOS

/-- Before the status is read: if the drive has data, the first request of the queue is the thread's own. -/
def PollsOwn (k : AtaSystem) : Prop :=
  k.here = .poll → mustWait k.drive.altStatus = false → k.ata.reqHead = k.hereCall.req

/-- Every call that has returned has filled its buffer with the sector it asked for. -/
def ReadsRight (disk : Nat → Nat → UInt16) (k : AtaSystem) : Prop :=
  ∀ c ∈ k.returned, ∀ i < 256, c.dst i = disk c.blkNum i

/-- The drive works on a request. -/
def Drive.Serves (d : Drive) (lba : Nat) : Prop := d.state = .busy lba ∨ ∃ pos, d.state = .ready lba pos

/-- What holds between the steps, `Q` being the requests in the queue. -/
structure ReadsInv (disk : Nat → Nat → UInt16) (Q : List Nat) (k : AtaSystem) : Prop where
  calls : CallsInv Q k
  right : ReadsRight disk k
  /-- The drive works on the first request. -/
  serves : ∀ lba, k.drive.Serves lba → ∃ r Q', Q = r :: Q' ∧ (k.ata.reqs r).blkNum = lba
  /-- The request of a thread asks for its sector. -/
  blkNum : ∀ n, k.point n ≠ .outside → (k.ata.reqs (k.call n).req).blkNum = (k.call n).blkNum
  /-- Words are handed out to the running thread only. -/
  pos : ∀ lba pos, k.drive.state = .ready lba pos → pos = 0 ∨ k.here = .reading pos
  /-- The running thread reads its own sector. -/
  reading : ∀ i, k.here = .reading i → k.ata.reqHead = k.hereCall.req ∧
    k.drive.state = (if i = 256 then .idle else .ready k.hereCall.blkNum i) ∧
    ∀ j < i, k.hereCall.dst j = disk k.hereCall.blkNum j

section
variable {st : ProcStatics} {disk : Nat → Nat → UInt16} {queues : Nat → Prop} {Q : List Nat}
  {k k' : AtaSystem}

/-- A step that moves no data: it changes the scheduler and where threads are, but for those that read. -/
theorem ReadsInv.keep (h : ReadsInv disk Q k) {s : Sched} {live : List Nat} {point : Nat → ReadPoint}
    {irq : Bool}
    (hcalls : CallsInv Q { k with sched := s, live, point, drive := { k.drive with irq } })
    (hout : ∀ n, point n ≠ .outside → k.point n ≠ .outside)
    (hread : ∀ i, point s.curProc = .reading i ↔ k.here = .reading i)
    (hcur : ∀ i, k.here = .reading i → s.curProc = k.sched.curProc) :
    ReadsInv disk Q { k with sched := s, live, point, drive := { k.drive with irq } } where
  calls := hcalls
  right := h.right
  serves := h.serves
  blkNum n hn := h.blkNum n (hout n hn)
  pos lba pos hs := (h.pos lba pos hs).imp id (hread pos).2
  reading i hi := by
    have hi' := (hread i).1 hi
    have hcall : AtaSystem.hereCall { k with sched := s, live, point, drive := { k.drive with irq } } =
        k.hereCall := congrArg k.call (hcur i hi')
    rw [hcall]
    exact h.reading i hi'

/-- The running thread moves on, between points where it does not read. -/
theorem ReadsInv.move (h : ReadsInv disk Q k) {s : Sched} {pt : ReadPoint} (hhere : k.here ≠ .outside)
    (hread : ∀ i, k.here ≠ .reading i) (hpt : ∀ i, pt ≠ .reading i)
    (hcur : s.curProc = k.sched.curProc) (hnext : pt ≠ .rescheduled → s.nextProc = s.curProc) :
    ReadsInv disk Q { k.move pt with sched := s } := by
  refine h.keep (h.calls.move hhere hcur hnext) (fun n hn => ?_) (fun i => ?_)
    fun i hi => absurd hi (hread i)
  · by_cases hnc : n = k.sched.curProc
    · rw [hnc]
      exact hhere
    · rwa [k.move_point_of_ne pt hnc] at hn
  · rw [hcur, AtaSystem.move_point_cur]
    exact iff_of_false (hpt i) (hread i)

/-- The scheduler goes over to `s` where the running thread may be switched away from. -/
theorem ReadsInv.switch (h : ReadsInv disk Q k) {s : Sched} {live : List Nat} {pt : ReadPoint}
    (hhere : k.here.Rest) (hpt : pt.Rest) (hout : pt ≠ .outside → k.here ≠ .outside)
    (hnext : s.nextProc = s.curProc) : ReadsInv disk Q { k.move pt with sched := s, live } := by
  refine h.keep (h.calls.switch hpt hout hnext) (fun n hn => ?_) (fun i => ?_)
    fun i hi => absurd hi (hhere.ne_reading i)
  · by_cases hnc : n = k.sched.curProc
    · rw [hnc, AtaSystem.move_point_cur] at hn
      rw [hnc]
      exact hout hn
    · rwa [k.move_point_of_ne pt hnc] at hn
  · refine iff_of_false ?_ (hhere.ne_reading i)
    by_cases hnc : s.curProc = k.sched.curProc
    · rw [hnc, AtaSystem.move_point_cur]
      exact hpt.ne_reading i
    · rw [k.move_point_of_ne pt hnc]
      exact (h.calls.rest _ hnc).ne_reading i

/-- An interrupt handler changes the queues only. -/
theorem ReadsInv.handler (h : ReadsInv disk Q k) {s : Sched} {irq : Bool}
    (hvars : s.curProc = k.sched.curProc ∧ s.nextProc = k.sched.nextProc) :
    ReadsInv disk Q { k with sched := s, drive := { k.drive with irq } } := by
  refine h.keep (h.calls.handler hvars) (fun n hn => hn) (fun i => ?_) fun _ _ => hvars.1
  rw [hvars.1]
  exact Iff.rfl

/-- An idle drive is one that works on no request. -/
theorem ReadsInv.idle (h : ReadsInv disk [] k) : k.drive.state = .idle := by
  cases hs : k.drive.state with
  | idle => rfl
  | busy lba =>
    obtain ⟨r, Q', hc, -⟩ := h.serves lba (.inl hs)
    cases hc
  | ready lba pos =>
    obtain ⟨r, Q', hc, -⟩ := h.serves lba (.inr ⟨pos, hs⟩)
    cases hc

/-- A new request is the drive's if the queue was empty; else the drive goes on as before. -/
theorem ReadsInv.start_drive (h : ReadsInv disk Q k) {blkNum : Nat} (req : Nat) (dst : Nat → UInt16)
    (hblk : blkNum < 2 ^ 48) :
    (Q = [] ∧ (k.start blkNum req dst).drive.state = .busy blkNum) ∨
      (Q ≠ [] ∧ (k.start blkNum req dst).drive = k.drive) := by
  have hhead : (k.ata.setBlkNum req blkNum).reqHead = 0 ↔ Q = [] :=
    IsLinkQueue.head_eq_null h.calls.queue
  by_cases hnil : Q = []
  · refine .inl ⟨hnil, ?_⟩
    subst hnil
    simp only [AtaSystem.start]
    rw [if_pos (hhead.2 rfl)]
    exact ataReqExecute_state h.idle hblk
  · refine .inr ⟨hnil, ?_⟩
    simp only [AtaSystem.start]
    rw [if_neg (mt hhead.1 hnil)]

/-- A new request. -/
theorem ReadsInv.start (h : ReadsInv disk Q k) (hhere : k.here = .outside) {blkNum req : Nat}
    {dst : Nat → UInt16} (hblk : blkNum < 2 ^ 48) (hreq : req ≠ 0) (halloc : req ∉ k.allocated) :
    ReadsInv disk (Q ++ [req]) (k.start blkNum req dst) := by
  have hQ : req ∉ Q := fun hr => halloc (h.calls.allocated req hr)
  have hold : ∀ r ∈ Q, ((k.start blkNum req dst).ata.reqs r).blkNum = (k.ata.reqs r).blkNum := by
    intro r hr
    have hne : r ≠ req := fun hc => hQ (hc ▸ hr)
    simp [AtaSystem.start, AtaQueue.setBlkNum_blkNum_of_ne _ _ _ hne]
  have hnew : ((k.start blkNum req dst).ata.reqs req).blkNum = blkNum := by simp [AtaSystem.start]
  have hpoll : (k.start blkNum req dst).here = .poll := AtaSystem.move_point_cur k .poll
  have hdrive := h.start_drive req dst hblk
  refine ⟨h.calls.start hhere hreq halloc, h.right, fun lba hs => ?_, fun n hn => ?_, fun lba pos hs => ?_,
    fun i hi => ?_⟩
  · rcases hdrive with ⟨rfl, hbusy⟩ | ⟨hne, heq⟩
    · rw [Drive.Serves, hbusy] at hs
      obtain rfl : blkNum = lba := by simpa using hs
      exact ⟨req, [], rfl, hnew⟩
    · rw [heq] at hs
      obtain ⟨r, Q', rfl, hlba⟩ := h.serves lba hs
      exact ⟨r, Q' ++ [req], rfl, (hold r (.head _)).trans hlba⟩
  · by_cases hnc : n = k.sched.curProc
    · have hcall : (k.start blkNum req dst).call n = ⟨blkNum, req, dst⟩ := by
        rw [hnc]
        exact Function.update_self ..
      rw [hcall]
      exact hnew
    · have hcall : (k.start blkNum req dst).call n = k.call n := Function.update_of_ne hnc ..
      have hpoint : (k.start blkNum req dst).point n = k.point n := k.move_point_of_ne _ hnc
      rw [hpoint] at hn
      rw [hcall, hold _ (h.calls.own n hn)]
      exact h.blkNum n hn
  · rcases hdrive with ⟨-, hbusy⟩ | ⟨-, heq⟩
    · rw [hbusy] at hs
      cases hs
    · rw [heq] at hs
      refine .inl ((h.pos lba pos hs).resolve_right ?_)
      rw [hhere]
      simp
  · rw [hpoll] at hi
    cases hi

/-- The thread whose request is the first one finds its sector in the drive. -/
theorem ReadsInv.ready (h : ReadsInv disk Q k) (hhere : k.here = .poll)
    (hstatus : mustWait k.drive.altStatus = false) (hown : k.ata.reqHead = k.hereCall.req) :
    ReadsInv disk Q (k.move (.reading 0)) := by
  obtain ⟨lba, pos, hs⟩ := mustWait_altStatus.1 hstatus
  obtain rfl : pos = 0 := (h.pos lba pos hs).resolve_right (by rw [hhere]; simp)
  obtain ⟨r, Q', rfl, hlba⟩ := h.serves lba (.inr ⟨0, hs⟩)
  have hin : k.here ≠ .outside := by simp [hhere]
  have hblk : lba = k.hereCall.blkNum := by
    rw [← hlba, ← h.calls.queue.head_cons, hown]
    exact h.blkNum _ hin
  refine ⟨h.calls.move hin rfl fun _ => h.calls.next (by simp [hhere]), h.right, h.serves, fun n hn => ?_,
    fun lba' pos hs' => ?_, fun i hi => ?_⟩
  · refine h.blkNum n ?_
    by_cases hnc : n = k.sched.curProc
    · rwa [hnc]
    · rwa [k.move_point_of_ne _ hnc] at hn
  · cases hs.symm.trans hs'
    exact .inl rfl
  · obtain rfl : 0 = i := by simpa using hi
    refine ⟨hown, ?_, fun j hj => absurd hj (Nat.not_lt_zero j)⟩
    rw [AtaSystem.move_drive, hs, hblk]
    rfl

/-- A word of the sector. -/
theorem ReadsInv.word (h : ReadsInv disk Q k) {i : Nat} (hhere : k.here = .reading i) (hi : i < 256)
    (noData : UInt16) : ReadsInv disk Q (k.word disk noData i) := by
  obtain ⟨hown, hs, hdst⟩ := h.reading i hhere
  rw [if_neg (by omega)] at hs
  have hin : k.here ≠ .outside := by simp [hhere]
  have hinw : k.drive.inw disk noData = (disk k.hereCall.blkNum i, { k.drive with
      state := if i + 1 = 256 then .idle else .ready k.hereCall.blkNum (i + 1) }) := by
    rw [Drive.inw, hs]
  have hcall : (k.word disk noData i).hereCall =
      { k.hereCall with dst := Function.update k.hereCall.dst i (disk k.hereCall.blkNum i) } := by
    simp only [AtaSystem.word, hinw]
    exact Function.update_self ..
  have hstate : (k.word disk noData i).drive.state =
      if i + 1 = 256 then .idle else .ready k.hereCall.blkNum (i + 1) := by
    simp [AtaSystem.word, hinw]
  refine ⟨h.calls.word hhere noData, h.right, fun lba hserves => ?_, fun n hn => ?_, fun lba pos hs' => ?_,
    fun i' hi' => ?_⟩
  · refine h.serves lba (.inr ⟨i, ?_⟩)
    rw [Drive.Serves, hstate] at hserves
    split at hserves
    · simp at hserves
    · obtain ⟨rfl, -⟩ : k.hereCall.blkNum = lba ∧ True := by simpa using hserves
      exact hs
  · rw [(k.word_call disk noData i n).1, (k.word_call disk noData i n).2]
    refine h.blkNum n fun hc => hn ?_
    by_cases hnc : n = k.sched.curProc
    · rw [hnc] at hc
      exact absurd hc hin
    · exact (k.move_point_of_ne _ hnc).trans hc
  · rw [hstate] at hs'
    split at hs'
    · cases hs'
    · cases hs'
      exact .inr (AtaSystem.move_point_cur k (.reading (i + 1)))
  · obtain rfl : i + 1 = i' := by simpa [AtaSystem.word, AtaSystem.here] using hi'
    rw [hcall, hstate]
    refine ⟨hown, rfl, fun j hj => ?_⟩
    by_cases hji : j = i
    · rw [hji]
      exact Function.update_self ..
    · exact (Function.update_of_ne hji ..).trans (hdst j (by omega))

/-- The thread takes its own request off the queue, and returns. -/
theorem ReadsInv.unqueue (h : ReadsInv disk Q k) (hhere : k.here = .reading 256) :
    ∃ Q', ReadsInv disk Q' k.unqueue := by
  obtain ⟨hown, hs, hdst⟩ := h.reading 256 hhere
  rw [if_pos rfl] at hs
  obtain ⟨Q', rfl⟩ := h.calls.exists_tail (by simp [hhere]) hown
  refine ⟨Q', (h.calls.unqueue hhere).1, fun c hc => ?_, fun lba hserves => ?_, fun n hn => ?_,
    fun lba pos hs' => ?_, fun i hi => ?_⟩
  · rcases List.mem_cons.1 hc with rfl | hc
    · exact hdst
    · exact h.right c hc
  · rcases hserves with hc | ⟨pos, hc⟩
    · cases hs.symm.trans hc
    · cases hs.symm.trans hc
  · refine (ataReqUnqueue_blkNum _).trans (h.blkNum n fun hc => hn ?_)
    by_cases hnc : n = k.sched.curProc
    · rw [hnc]
      exact AtaSystem.move_point_cur k .outside
    · exact (k.move_point_of_ne _ hnc).trans hc
  · cases hs.symm.trans hs'
  · have hout : k.unqueue.here = .outside := AtaSystem.move_point_cur k .outside
    rw [hout] at hi
    cases hi

/-- Code outside of `ata_48_read_block` may switch to another thread. -/
theorem ReadsInv.outside (h : ReadsInv disk Q k) {s : Sched} {live : List Nat} (hhere : k.here.Rest)
    (hnext : s.nextProc = s.curProc) : ReadsInv disk Q { k with sched := s, live } := by
  have h' : ReadsInv disk Q { k.move k.here with sched := s, live } := h.switch hhere hhere id hnext
  rwa [k.move_self] at h'

/-- An interrupt switches only where the running thread has called `PROC_reschedule`, or nowhere. -/
theorem ReadsInv.interrupt (h : ReadsInv disk Q k) {s : Sched} {rsp : Nat}
    (hswitch : contextSwitch st rsp k.sched = .ok s) : ReadsInv disk Q { k with sched := s } := by
  by_cases hrest : k.here.Rest
  · exact h.outside hrest (contextSwitch_next hswitch)
  · have hnext := h.calls.next fun hc => hrest (.inr (.inl hc))
    rw [contextSwitch, if_pos hnext.symm] at hswitch
    cases hswitch
    exact h

/-- The drive has found the sector of the first request. -/
theorem ReadsInv.drive (h : ReadsInv disk Q k) {lba : Nat} (hbusy : k.drive.state = .busy lba) :
    ReadsInv disk Q { k with drive := { k.drive with state := .ready lba 0, irq := true } } := by
  refine ⟨h.calls.handler ⟨rfl, rfl⟩, h.right, fun lba' hs => ?_, h.blkNum, fun lba' pos hs => ?_,
    fun i hi => ?_⟩
  · rcases hs with hs | ⟨pos, hs⟩
    · cases hs
    · cases hs
      exact h.serves lba (.inl hbusy)
  · cases hs
    exact .inl rfl
  · have hs := (h.reading i hi).2.1
    rw [hbusy] at hs
    split at hs
    · cases hs
    · cases hs

/-- One step keeps the invariant, if a thread that finds data is the owner of the first request. -/
theorem ReadsInv.step (h : ReadsInv disk Q k) (hs : AtaStep st disk queues k k') (hown : PollsOwn k) :
    ∃ Q', ReadsInv disk Q' k' := by
  cases hs with
  | start _ _ _ _ hhere hblk hreq halloc => exact ⟨_, h.start hhere hblk hreq halloc⟩
  | ready hhere hstatus => exact ⟨Q, h.ready hhere hstatus (hown hhere hstatus)⟩
  | wait hhere =>
    exact ⟨Q, h.move (by simp [hhere]) (by simp [hhere]) (by simp) rfl fun _ => h.calls.next (by simp [hhere])⟩
  | park hhere _ hunlink happend =>
    have hunlink := QueueEdit.unlinkProc hunlink
    have happend := QueueEdit.appendProc happend
    have hcur := happend.curProc.trans hunlink.curProc
    refine ⟨Q, h.move (by simp [hhere]) (by simp [hhere]) (by simp) hcur fun _ => ?_⟩
    rw [happend.nextProc, hunlink.nextProc, hcur]
    exact h.calls.next (by simp [hhere])
  | reschedule hhere hre =>
    exact ⟨Q, h.move (by simp [hhere]) (by simp [hhere]) (by simp) (HeadFrame.procReschedule hre).curProc
      (by simp)⟩
  | int80 _ hhere hswitch =>
    exact ⟨Q, h.switch (.inr (.inl hhere)) (.inr (.inr rfl)) (by simp [hhere])
      (contextSwitch_next hswitch)⟩
  | switch _ _ hswitch => exact ⟨Q, h.interrupt hswitch⟩
  | cli hhere =>
    exact ⟨Q, h.move (by simp [hhere]) (by simp [hhere]) (by simp) rfl fun _ => h.calls.next (by simp [hhere])⟩
  | word noData hhere hi => exact ⟨Q, h.word hhere hi noData⟩
  | unqueue hhere => exact h.unqueue hhere
  | drive hbusy => exact ⟨Q, h.drive hbusy⟩
  | irqNone => exact ⟨Q, h.handler ⟨rfl, rfl⟩⟩
  | irq _ _ _ _ hunblock => exact ⟨Q, h.handler (procUnblockHead_vars hunblock)⟩
  | create _ _ _ hhere _ _ _ _ hcreate =>
    obtain ⟨hcur, hnext⟩ := procCreateKthread_vars hcreate
    refine ⟨Q, h.outside (.inl hhere) ?_⟩
    rw [hnext, hcur]
    exact h.calls.next (by simp [hhere])
  | run _ hhere hrun => exact ⟨Q, h.outside (.inl hhere) (procRun_next hrun (h.calls.next (by simp [hhere])))⟩
  | yield _ hhere hyield => exact ⟨Q, h.outside (.inl hhere) (yield_next hyield)⟩
  | blockOn _ _ hhere _ hblock =>
    exact ⟨Q, h.outside (.inl hhere) (procBlockOn_next hblock (h.calls.next (by simp [hhere])))⟩
  | exit _ hhere hexit => exact ⟨Q, h.outside (.inl hhere) (kexit_next hexit)⟩
  | unblockHead _ _ hunblock => exact ⟨Q, h.handler (procUnblockHead_vars hunblock)⟩
  | unblockAll _ _ hunblock => exact ⟨Q, h.handler (procUnblockAll_vars hunblock).2⟩

end

/-- The invariant holds at the start. -/
theorem AtaBoot.readsInv {st : ProcStatics} {disk : Nat → Nat → UInt16} {queues : Nat → Prop} {k : AtaSystem}
    (h : AtaBoot st queues k) : ReadsInv disk [] k := by
  refine ⟨h.callsInv, fun c hc => ?_, fun lba hs => ?_, fun n hn => absurd (h.point n) hn, fun lba pos hs => ?_,
    fun i hi => ?_⟩
  · rw [h.returned] at hc
    cases hc
  · rw [Drive.Serves, h.drive.1] at hs
    simp at hs
  · rw [h.drive.1] at hs
    cases hs
  · rw [AtaSystem.here, h.point] at hi
    cases hi

/-- In every run, of any number of threads and in any order of their steps with the drive's and the
interrupts, in which no thread finds data while the first request is another thread's, every call that
returns has filled its buffer with the sector it asked for. -/
theorem reads_right {st : ProcStatics} {disk : Nat → Nat → UInt16} {queues : Nat → Prop} {k₀ k : AtaSystem}
    (h₀ : AtaBoot st queues k₀)
    (hrun : Relation.ReflTransGen (fun k k' => AtaStep st disk queues k k' ∧ PollsOwn k) k₀ k) :
    ReadsRight disk k := by
  obtain ⟨Q, h⟩ := hrun.invariant (fun k => ∃ Q, ReadsInv disk Q k) ⟨[], h₀.readsInv⟩
    fun _ _ hs ⟨_, h⟩ => h.step hs.1 hs.2
  exact h.right

/-! ## Two runs -/

/-- A disk whose sectors are all different. -/
def numberedDisk (blkNum _ : Nat) : UInt16 := UInt16.ofNat blkNum

/-- Two threads read the sectors 5 and 9. The first one waits for its data while the second one runs, which asks for its
sector when the first one has returned. -/
theorem reads_right_two_threads :
    ∃ k, Relation.ReflTransGen (fun k k' => AtaStep someProcStatics numberedDisk (fun _ => False) k k' ∧
      PollsOwn k) idleAta k ∧ k.returned.map AtaCall.blkNum = [9, 5] ∧ ReadsRight numberedDisk k := by
  have hno : ∀ {k : AtaSystem}, k.here ≠ .poll → PollsOwn k := fun hne hc => absurd hc hne
  have hread : ∀ k k' i, k.here = .reading i → i < 256 → AtaStep someProcStatics numberedDisk (fun _ => False) k k' →
      AtaStep someProcStatics numberedDisk (fun _ => False) k k' ∧ PollsOwn k := fun k k' i hi _ hs =>
    ⟨hs, hno (by rw [hi]; exact ReadPoint.noConfusion)⟩
  have h₁ : Relation.ReflTransGen (fun k k' => AtaStep someProcStatics numberedDisk (fun _ => False) k k' ∧
      PollsOwn k) idleAta _ :=
    .single ⟨.create 0x1000 0x2000 0x3000 rfl (by decide) (by decide) (by decide) (by decide) rfl,
      hno (by decide)⟩
  have h₂ := h₁.tail ⟨.create 0x4000 0x5000 0x6000 rfl (by decide) (by decide) (by decide) (by decide) rfl,
    hno (by decide)⟩
  have h₃ := h₂.tail ⟨.run 0x10 rfl rfl, hno (by decide)⟩
  -- the first thread asks for sector 5, and waits
  have h₄ := h₃.tail ⟨.start 5 0x100 (fun _ => 0) (by decide) rfl (by decide) (by decide) (by decide)
    (by decide) id, hno (by decide)⟩
  have h₅ := h₄.tail ⟨.wait rfl rfl, fun _ _ => rfl⟩
  have h₆ := h₅.tail ⟨.park rfl (by decide) rfl rfl, hno (by decide)⟩
  have h₇ := h₆.tail ⟨.reschedule rfl rfl, hno (by decide)⟩
  have h₈ := h₇.tail ⟨.int80 0x20 rfl rfl, hno (by decide)⟩
  -- the second thread runs until the data is there
  have h₉ := h₈.tail ⟨.drive rfl, hno (by decide)⟩
  have h₁₀ := h₉.tail ⟨.irq (by decide) rfl (by decide) (by decide) rfl, hno (by decide)⟩
  have h₁₁ := (h₁₀.tail ⟨.yield 0x30 rfl rfl, hno (by decide)⟩).tail ⟨.yield 0x38 rfl rfl, hno (by decide)⟩
  have h₁₂ := h₁₁.tail ⟨.cli rfl, hno (by decide)⟩
  have h₁₃ := h₁₂.tail ⟨.ready rfl rfl, fun _ _ => rfl⟩
  have h₁₄ := (words_run h₁₃ hread rfl rfl 256 le_rfl).tail ⟨.unqueue rfl, hno (by decide)⟩
  -- it asks for sector 9
  have h₁₅ := h₁₄.tail ⟨.yield 0x40 rfl rfl, hno (by decide)⟩
  have h₁₆ := h₁₅.tail ⟨.start 9 0x200 (fun _ => 0) (by decide) rfl (by decide) (by decide) (by decide)
    (by decide) id, hno (by decide)⟩
  have h₁₇ := h₁₆.tail ⟨.drive rfl, fun _ _ => rfl⟩
  have h₁₈ := h₁₇.tail ⟨.ready rfl rfl, fun _ _ => rfl⟩
  have h₁₉ := (words_run h₁₈ hread rfl rfl 256 le_rfl).tail ⟨.unqueue rfl, hno (by decide)⟩
  exact ⟨_, h₁₉, rfl, reads_right ataBoot_idleAta h₁₉⟩

/-- While the data of one thread's sector 5 is in the drive, another thread asks for sector 9 and is given
sector 5. -/
theorem reads_wrong_two_threads :
    ∃ k, Relation.ReflTransGen (AtaStep someProcStatics numberedDisk fun _ => False) idleAta k ∧
      ¬ ReadsRight numberedDisk k := by
  have h₁ : Relation.ReflTransGen (AtaStep someProcStatics numberedDisk fun _ => False) idleAta _ :=
    .single (.create 0x1000 0x2000 0x3000 rfl (by decide) (by decide) (by decide) (by decide) rfl)
  have h₂ := h₁.tail (.create 0x4000 0x5000 0x6000 rfl (by decide) (by decide) (by decide) (by decide) rfl)
  have h₃ := h₂.tail (.run 0x10 rfl rfl)
  -- the first thread asks for sector 5, and waits
  have h₄ := h₃.tail (.start 5 0x100 (fun _ => 0) (by decide) rfl (by decide) (by decide) (by decide)
    (by decide) id)
  have h₅ := h₄.tail (.wait rfl rfl)
  have h₆ := h₅.tail (.park rfl (by decide) rfl rfl)
  have h₇ := h₆.tail (.reschedule rfl rfl)
  have h₈ := h₇.tail (.int80 0x20 rfl rfl)
  -- the data is there, and the second thread runs
  have h₉ := h₈.tail (.drive rfl)
  have h₁₀ := h₉.tail (.irq (by decide) rfl (by decide) (by decide) rfl)
  have h₁₁ := h₁₀.tail (.start 9 0x200 (fun _ => 0) (by decide) rfl (by decide) (by decide) (by decide)
    (by decide) id)
  obtain ⟨k, hk, hhere, hs, hcall⟩ : ∃ k, Relation.ReflTransGen
      (AtaStep someProcStatics numberedDisk fun _ => False) idleAta k ∧ k.here = .reading 0 ∧
      k.drive.state = .ready 5 0 ∧ k.hereCall.blkNum = 9 :=
    ⟨_, h₁₁.tail (.ready (by decide) (by decide)), rfl, rfl, rfl⟩
  have hwords := words_run hk (fun _ _ _ _ _ hs => hs) hhere hs 256 le_rfl
  refine ⟨_, hwords.tail (.unqueue (AtaSystem.move_point_cur k (.reading 256))), fun hright => ?_⟩
  have hreturned : (k.words numberedDisk 5 256).hereCall = _ := Function.update_self ..
  have hdst := hright _ (.head _) 0 (by decide)
  rw [hreturned, hcall] at hdst
  have hword : numberedDisk 5 0 = numberedDisk 9 0 := hdst
  exact absurd hword (by decide)

end BanjOS
