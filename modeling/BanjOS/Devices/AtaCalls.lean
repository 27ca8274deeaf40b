import BanjOS.Devices.Ata

/-!
# Calls and their requests

The part of the driver's invariant that is about requests (`CallsInv`): every thread in
`ata_48_read_block` has a request of its own in the queue, and threads that do not run are outside of it or
in `yield`. A thread that takes off the first request keeps this only if the request is its own.
-/

namespace BanjOS

/-- The points at which a thread can be when another one runs. -/
def ReadPoint.Rest (pt : ReadPoint) : Prop := pt = outside ∨ pt = rescheduled ∨ pt = resumed

theorem ReadPoint.Rest.ne_reading {pt : ReadPoint} (h : pt.Rest) (i : Nat) : pt ≠ .reading i := by
  rcases h with rfl | rfl | rfl <;> simp

/-- What holds of the calls between the steps, `Q` being the requests in the queue. -/
structure CallsInv (Q : List Nat) (k : AtaSystem) : Prop where
  queue : IsReqQueue k.ata Q
  allocated : ∀ r ∈ Q, r ∈ k.allocated
  own : ∀ n, k.point n ≠ .outside → (k.call n).req ∈ Q
  inj : ∀ n m, k.point n ≠ .outside → k.point m ≠ .outside → (k.call n).req = (k.call m).req → n = m
  rest : ∀ n, n ≠ k.sched.curProc → (k.point n).Rest
  next : k.here ≠ .rescheduled → k.sched.nextProc = k.sched.curProc

section
variable {Q : List Nat} {k k' : AtaSystem}

/-- A step that leaves the requests alone. -/
theorem CallsInv.keep (h : CallsInv Q k) (hata : k'.ata = k.ata) (halloc : k'.allocated = k.allocated)
    (hreq : ∀ n, (k'.call n).req = (k.call n).req)
    (hout : ∀ n, k'.point n ≠ .outside → k.point n ≠ .outside)
    (hrest : ∀ n, n ≠ k'.sched.curProc → (k'.point n).Rest)
    (hnext : k'.here ≠ .rescheduled → k'.sched.nextProc = k'.sched.curProc) : CallsInv Q k' where
  queue := by
    rw [hata]
    exact h.queue
  allocated r hr := by
    rw [halloc]
    exact h.allocated r hr
  own n hn := by
    rw [hreq]
    exact h.own n (hout n hn)
  inj n m hn hm hnm := by
    rw [hreq, hreq] at hnm
    exact h.inj n m (hout n hn) (hout m hm) hnm
  rest := hrest
  next := hnext

/-- The running thread moves on inside `ata_48_read_block`. -/
theorem CallsInv.move (h : CallsInv Q k) {s : Sched} {pt : ReadPoint} (hhere : k.here ≠ .outside)
    (hcur : s.curProc = k.sched.curProc) (hnext : pt ≠ .rescheduled → s.nextProc = s.curProc) :
    CallsInv Q { k.move pt with sched := s } := by
  refine h.keep rfl rfl (fun _ => rfl) (fun n hn => ?_) (fun n hn => ?_) fun hc => hnext fun hpt => hc ?_
  · by_cases hnc : n = k.sched.curProc
    · rw [hnc]
      exact hhere
    · exact fun hc => hn ((k.move_point_of_ne pt hnc).trans hc)
  · have hnc : n ≠ k.sched.curProc := fun hc => hn (hc.trans hcur.symm)
    show ((k.move pt).point n).Rest
    rw [k.move_point_of_ne pt hnc]
    exact h.rest n hnc
  · have hpoint : (k.move pt).point s.curProc = pt := by rw [hcur, AtaSystem.move_point_cur]
    exact hpoint.trans hpt

/-- The scheduler goes over to `s` where the running thread may be switched away from. -/
theorem CallsInv.switch (h : CallsInv Q k) {s : Sched} {live : List Nat} {pt : ReadPoint}
    (hpt : pt.Rest) (hout : pt ≠ .outside → k.here ≠ .outside) (hnext : s.nextProc = s.curProc) :
    CallsInv Q { k.move pt with sched := s, live } := by
  refine h.keep rfl rfl (fun _ => rfl) (fun n hn => ?_) (fun n _ => ?_) fun _ => hnext
  · by_cases hnc : n = k.sched.curProc
    · rw [hnc]
      refine hout fun hc => hn ?_
      rw [hnc]
      exact (k.move_point_cur pt).trans hc
    · exact fun hc => hn ((k.move_point_of_ne pt hnc).trans hc)
  · by_cases hnc : n = k.sched.curProc
    · show ((k.move pt).point n).Rest
      rwa [hnc, AtaSystem.move_point_cur]
    · show ((k.move pt).point n).Rest
      rw [k.move_point_of_ne pt hnc]
      exact h.rest n hnc

/-- Code outside of `ata_48_read_block` may switch to another thread. -/
theorem CallsInv.outside (h : CallsInv Q k) {s : Sched} {live : List Nat} (hhere : k.here.Rest)
    (hnext : s.nextProc = s.curProc) : CallsInv Q { k with sched := s, live } := by
  have h' : CallsInv Q { k.move k.here with sched := s, live } := h.switch hhere id hnext
  rwa [k.move_self] at h'

/-- An interrupt handler changes the queues of threads only. -/
theorem CallsInv.handler (h : CallsInv Q k) {s : Sched} {drive : Drive}
    (hvars : s.curProc = k.sched.curProc ∧ s.nextProc = k.sched.nextProc) :
    CallsInv Q { k with sched := s, drive } := by
  obtain ⟨hcur, hnext⟩ := hvars
  refine h.keep rfl rfl (fun _ => rfl) (fun n hn => hn) (fun n hn => h.rest n fun hc => hn (hc.trans hcur.symm))
    fun hc => ?_
  have hhere : k.here ≠ .rescheduled := fun hc' => hc (by rw [AtaSystem.here, hcur]; exact hc')
  rw [hnext, hcur]
  exact h.next hhere

/-- A new request, which is put at the end of the queue. -/
theorem CallsInv.start (h : CallsInv Q k) (hhere : k.here = .outside) {blkNum req : Nat}
    {dst : Nat → UInt16} (hreq : req ≠ 0) (halloc : req ∉ k.allocated) :
    CallsInv (Q ++ [req]) (k.start blkNum req dst) := by
  have hQ : req ∉ Q := fun hr => halloc (h.allocated req hr)
  have hother : ∀ n, n ≠ k.sched.curProc → (k.start blkNum req dst).point n = k.point n ∧
      (k.start blkNum req dst).call n = k.call n := fun n hn =>
    ⟨Function.update_of_ne hn .., Function.update_of_ne hn ..⟩
  have hcall : (k.start blkNum req dst).call k.sched.curProc = ⟨blkNum, req, dst⟩ := Function.update_self ..
  -- the requests of the others are the old ones
  have hold : ∀ n, n ≠ k.sched.curProc → (k.start blkNum req dst).point n ≠ .outside →
      k.point n ≠ .outside ∧ ((k.start blkNum req dst).call n).req ∈ Q := by
    intro n hnc hn
    obtain ⟨hpoint, hcall'⟩ := hother n hnc
    rw [hpoint] at hn
    rw [hcall']
    exact ⟨hn, h.own n hn⟩
  refine ⟨(h.queue.setBlkNum blkNum).queue hreq hQ, fun r hr => ?_, fun n hn => ?_,
    fun n m hn hm hnm => ?_, fun n hn => ?_, fun _ => h.next (by rw [hhere]; simp)⟩
  · rcases List.mem_append.1 hr with hr | hr
    · exact .tail _ (h.allocated r hr)
    · exact List.mem_singleton.1 hr ▸ .head _
  · by_cases hnc : n = k.sched.curProc
    · rw [hnc, hcall]
      exact List.mem_append_right _ (.head _)
    · exact List.mem_append_left _ (hold n hnc hn).2
  · by_cases hnc : n = k.sched.curProc
    · by_cases hmc : m = k.sched.curProc
      · rw [hnc, hmc]
      · have hmem := (hold m hmc hm).2
        rw [← hnm, hnc, hcall] at hmem
        exact absurd hmem hQ
    · by_cases hmc : m = k.sched.curProc
      · have hmem := (hold n hnc hn).2
        rw [hnm, hmc, hcall] at hmem
        exact absurd hmem hQ
      · rw [(hother n hnc).2, (hother m hmc).2] at hnm
        exact h.inj n m (hold n hnc hn).1 (hold m hmc hm).1 hnm
  · rw [(hother n hn).1]
    exact h.rest n hn

/-- A word of data changes neither the requests nor what the calls ask for. -/
theorem AtaSystem.word_call (k : AtaSystem) (disk : Nat → Nat → UInt16) (noData : UInt16) (i n : Nat) :
    ((k.word disk noData i).call n).req = (k.call n).req ∧
      ((k.word disk noData i).call n).blkNum = (k.call n).blkNum := by
  by_cases hnc : n = k.sched.curProc
  · simp [AtaSystem.word, AtaSystem.hereCall, hnc]
  · simp [AtaSystem.word, Function.update_of_ne hnc]

/-- A word of data. -/
theorem CallsInv.word (h : CallsInv Q k) {i : Nat} (hhere : k.here = .reading i) {disk : Nat → Nat → UInt16}
    (noData : UInt16) : CallsInv Q (k.word disk noData i) := by
  have hmove : CallsInv Q { k.move (.reading (i + 1)) with sched := k.sched } :=
    h.move (by simp [hhere]) rfl fun _ => h.next (by simp [hhere])
  exact hmove.keep rfl rfl (fun n => (k.word_call disk noData i n).1) (fun n hn => hn) hmove.rest hmove.next

/-- A thread in `ata_48_read_block` whose request is the first one. -/
theorem CallsInv.exists_tail (h : CallsInv Q k) (hhere : k.here ≠ .outside)
    (hown : k.ata.reqHead = k.hereCall.req) : ∃ Q', Q = k.hereCall.req :: Q' := by
  obtain ⟨r, Q', rfl⟩ := List.exists_cons_of_ne_nil (List.ne_nil_of_mem (h.own _ hhere))
  have hhead := h.queue.head_cons
  exact ⟨Q', by rw [← hown, hhead]⟩

/-- The thread takes its own request off the queue, and returns. -/
theorem CallsInv.unqueue (h : CallsInv (k.hereCall.req :: Q) k) (hhere : k.here = .reading 256) :
    CallsInv Q k.unqueue ∧ k.unqueue.allocated = k.allocated.erase k.hereCall.req := by
  have hin : k.point k.sched.curProc ≠ .outside := by
    rw [← AtaSystem.here, hhere]
    simp
  obtain ⟨hreq, hqueue⟩ := h.queue.unqueue
  obtain ⟨hr, -⟩ := List.nodup_cons.1 h.queue.nodup
  have halloc : k.unqueue.allocated = k.allocated.erase k.hereCall.req :=
    congrArg k.allocated.erase hreq
  have hpoint : ∀ n, k.unqueue.point n ≠ .outside → n ≠ k.sched.curProc ∧ k.point n ≠ .outside := by
    intro n hn
    have hnc : n ≠ k.sched.curProc := by
      rintro rfl
      exact hn (AtaSystem.move_point_cur k .outside)
    exact ⟨hnc, fun hc => hn ((k.move_point_of_ne _ hnc).trans hc)⟩
  refine ⟨⟨hqueue, fun r' hr' => ?_, fun n hn => ?_,
    fun n m hn hm => h.inj n m (hpoint n hn).2 (hpoint m hm).2, fun n hn => ?_,
    fun _ => h.next (by rw [hhere]; simp)⟩, halloc⟩
  · have hne : r' ≠ k.hereCall.req := fun hc => hr (hc ▸ hr')
    rw [halloc]
    exact (List.mem_erase_of_ne hne).2 (h.allocated r' (.tail _ hr'))
  · obtain ⟨hnc, hn⟩ := hpoint n hn
    have hne : (k.call n).req ≠ k.hereCall.req := fun hc => hnc (h.inj n _ hn hin hc)
    exact (List.mem_cons.1 (h.own n hn)).resolve_left hne
  · have hpt : k.unqueue.point n = k.point n := k.move_point_of_ne _ hn
    rw [hpt]
    exact h.rest n hn

end

/-- The invariant holds at the start. -/
theorem AtaBoot.callsInv {st : ProcStatics} {queues : Nat → Prop} {k : AtaSystem} (h : AtaBoot st queues k) :
    CallsInv [] k := by
  refine ⟨?_, nofun, fun n hn => absurd (h.point n) hn, fun n m hn => absurd (h.point n) hn,
    fun n _ => .inl (h.point n), fun _ => ?_⟩
  · rw [IsReqQueue, h.ata.1, h.ata.2]
    exact .nil
  · rw [h.sched.curProc, h.sched.nextProc]

section
variable {st : ProcStatics} {disk : Nat → Nat → UInt16} {queues : Nat → Prop} {k₀ k : AtaSystem} {lba : Nat}

/-- The running thread has read the first `n` words of the sector `lba`. -/
def AtaSystem.words (k : AtaSystem) (disk : Nat → Nat → UInt16) (lba n : Nat) : AtaSystem :=
  { k.move (.reading n) with
    drive := { k.drive with state := if n = 256 then .idle else .ready lba n }
    call := Function.update k.call k.sched.curProc
      { k.hereCall with dst := fun j => if j < n then disk lba j else k.hereCall.dst j } }

/-- None yet. -/
theorem AtaSystem.words_zero (hhere : k.here = .reading 0) (hs : k.drive.state = .ready lba 0) :
    k.words disk lba 0 = k := by
  have hmove : k.move (.reading 0) = k := hhere ▸ k.move_self
  have hcall : Function.update k.call k.sched.curProc k.hereCall = k.call := Function.update_eq_self _ _
  have hdrive : { k.drive with state := .ready lba 0 } = k.drive := by rw [← hs]
  simp only [words, hmove, Nat.not_lt_zero, if_false, hcall, hdrive, if_neg (show ¬ 0 = 256 by decide)]

/-- The next one. -/
theorem AtaSystem.words_succ {n : Nat} (hn : n < 256) :
    (k.words disk lba n).word disk 0 n = k.words disk lba (n + 1) := by
  have hinw : (k.words disk lba n).drive.inw disk 0 =
      (disk lba n, { k.drive with state := if n + 1 = 256 then .idle else .ready lba (n + 1) }) := by
    rw [Drive.inw, words]
    simp only [if_neg hn.ne]
  have hdst : Function.update (fun j => if j < n then disk lba j else k.hereCall.dst j) n (disk lba n) =
      fun j => if j < n + 1 then disk lba j else k.hereCall.dst j := by
    funext j
    rcases Nat.lt_trichotomy j n with hlt | rfl | hgt
    · rw [Function.update_of_ne hlt.ne, if_pos hlt, if_pos (Nat.lt_succ_of_lt hlt)]
    · rw [Function.update_self, if_pos (Nat.lt_succ_self j)]
    · rw [Function.update_of_ne hgt.ne', if_neg (by omega), if_neg (by omega)]
  rw [word, hinw]
  simp only [words, move, hereCall, Function.update_self, Function.update_idem] at hdst ⊢
  rw [hdst]

/-- The words of a sector, one after the other, in any run that allows these steps. -/
theorem words_run {r : AtaSystem → AtaSystem → Prop} (h : Relation.ReflTransGen r k₀ k)
    (hr : ∀ k k' i, k.here = .reading i → i < 256 → AtaStep st disk queues k k' → r k k')
    (hhere : k.here = .reading 0) (hs : k.drive.state = .ready lba 0) (n : Nat) (hn : n ≤ 256) :
    Relation.ReflTransGen r k₀ (k.words disk lba n) := by
  induction n with
  | zero => rwa [AtaSystem.words_zero hhere hs]
  | succ n ih =>
    have hhere' : (k.words disk lba n).here = .reading n := AtaSystem.move_point_cur k (.reading n)
    have hword := (ih (by omega)).tail (hr _ _ n hhere' (by omega) (.word 0 hhere' (by omega)))
    rwa [AtaSystem.words_succ (by omega)] at hword

end

end BanjOS
