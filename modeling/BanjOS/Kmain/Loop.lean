import BanjOS.Processes.Frames
import BanjOS.Processes.Runs

/-!
# The loop of `kmain`

`kmain` calls `PROC_run`, which comes back when it finds no ready thread, and executes `HLT` if there is still none.
Interrupts are enabled all the time: between `PROC_reschedule`, which chooses the next thread, and `int $0x80`, which
switches to it, between the handler of an exit and the switch after it, and between the last test and `HLT`. `KmainStep`
takes the calls apart at these places and lets an interrupt fall at each. `KmainLoop.late` is the history of it: an
interrupt has unblocked a thread since the ready queue was last looked at.
-/

namespace BanjOS

/-! ## The loop -/

/-- Where the processor is, in `kmain` or in a thread. -/
inductive KmainPoint
  /-- Before `PROC_run`. -/
  | run
  /-- In `PROC_run`, `yield` or `PROC_block_on`, before `PROC_reschedule`. -/
  | yielding
  /-- `next_proc` is chosen; before the switch to it. -/
  | switching
  /-- A thread runs. -/
  | dispatched
  /-- `PROC_run` has returned; before `PROC_has_unblocked`. -/
  | test
  /-- Before `STI`. -/
  | enable
  /-- Before `HLT`. -/
  | halt
  /-- In `HLT`. -/
  | halted
  deriving DecidableEq

/-- The threads, where the processor is, and whether an interrupt has unblocked a thread since the ready queue was last
looked at. -/
structure KmainLoop where
  threads : Threads
  point : KmainPoint
  late : Bool

/-- `PROC_has_unblocked`. -/
def procHasUnblocked (st : ProcStatics) (s : Sched) : Bool := s.head st.availProcs ≠ 0

/-- `PROC_run` up to `PROC_reschedule`: the source is the running thread. -/
def enterSource (st : ProcStatics) (s : Sched) : Sched :=
  { s with
    contexts := Function.update s.contexts st.sourceProcCtx ⟨0, 0, 0⟩
    nodes := Function.update s.nodes st.sourceProc ⟨st.sourceProcCtx, 0, 0⟩
    curProc := st.sourceProc }

/-- `PROC_block_on` up to `yield`: the running thread goes to the queue. -/
def waitOn (st : ProcStatics) (queue : Nat) (s : Sched) : Except Stop Sched := do
  let s ← unlinkProc s.curProc st.availProcs s
  appendProc s.curProc queue s

/-- What the handlers of the keyboard and of the drive do to the threads: `PROC_unblock_all` or `PROC_unblock_head`. -/
def Wakes (st : ProcStatics) (q : Nat) (s s' : Sched) : Prop :=
  procUnblockHead st q s = .ok s' ∨ ∃ fuel, procUnblockAll st q fuel s = some (.ok s')

namespace KmainPoint

/-- The ready queue was looked at, and what was seen is still to be acted upon. -/
def Window : KmainPoint → Bool
  | run | yielding | dispatched => false
  | switching | test | enable | halt | halted => true

/-- Where the processor is after a switch: `PROC_run` returns when the source is resumed. -/
def after (st : ProcStatics) (s : Sched) : KmainPoint := if s.curProc = st.sourceProc then test else dispatched

/-- Where it is after an interrupt, which ends with a switch to `next_proc` of its own, and ends `HLT`. -/
def interrupted (st : ProcStatics) (s : Sched) : KmainPoint → KmainPoint
  | switching => after st s
  | halted => run
  | pt => pt

end KmainPoint

/-- The steps of `kmain`, of the threads and of the interrupts. `PROC_block_on` is called with interrupts disabled up to
`yield`. Interrupts that come before the end of another one are taken one after the other, since unblocking a thread does not
look at the running one, and a switch does not look at the queues; one inside the instructions of a switch is left out
(`ownsContexts`). -/
inductive KmainStep (st : ProcStatics) : KmainLoop → KmainLoop → Prop
  /-- `PROC_run` without a ready thread. -/
  | skip {s : Sched} {live exited : List Nat} {late : Bool} : procHasUnblocked st s = false →
    KmainStep st ⟨⟨s, live, exited⟩, .run, late⟩ ⟨⟨s, live, exited⟩, .test, false⟩
  /-- `PROC_run` with one. -/
  | enter {s : Sched} {live exited : List Nat} {late : Bool} : procHasUnblocked st s = true →
    KmainStep st ⟨⟨s, live, exited⟩, .run, late⟩ ⟨⟨enterSource st s, live, exited⟩, .yielding, late⟩
  | yield {t : Threads} {late : Bool} : KmainStep st ⟨t, .dispatched, late⟩ ⟨t, .yielding, late⟩
  | blockOn {s s' : Sched} {live exited : List Nat} {late : Bool} {q : Nat} : q ≠ st.availProcs → waitOn st q s = .ok s' →
    KmainStep st ⟨⟨s, live, exited⟩, .dispatched, late⟩ ⟨⟨s', live, exited⟩, .yielding, late⟩
  | reschedule {s s' : Sched} {live exited : List Nat} {late : Bool} : procReschedule st s = .ok s' →
    KmainStep st ⟨⟨s, live, exited⟩, .yielding, late⟩ ⟨⟨s', live, exited⟩, .switching, false⟩
  /-- The handler of `int $0x81`. -/
  | exit {s s' : Sched} {live exited freed : List Nat} {late : Bool} : kexitHandler st s = .ok (freed, s') →
    KmainStep st ⟨⟨s, live, exited⟩, .dispatched, late⟩
      ⟨⟨s', live.erase s.curProc, s.curProc :: exited⟩, .switching, false⟩
  /-- The end of `int $0x80` or `int $0x81`. -/
  | switch {s s' : Sched} {live exited : List Nat} {late : Bool} {rsp : Nat} : contextSwitch st rsp s = .ok s' →
    KmainStep st ⟨⟨s, live, exited⟩, .switching, late⟩ ⟨⟨s', live, exited⟩, .after st s', late⟩
  /-- `if (!PROC_has_unblocked())`. -/
  | test {t : Threads} {late : Bool} :
    KmainStep st ⟨t, .test, late⟩ ⟨t, if procHasUnblocked st t.sched then .run else .enable, false⟩
  | sti {t : Threads} {late : Bool} : KmainStep st ⟨t, .enable, late⟩ ⟨t, .halt, late⟩
  | hlt {t : Threads} {late : Bool} : KmainStep st ⟨t, .halt, late⟩ ⟨t, .halted, late⟩
  /-- An interrupt whose handler unblocks no thread. -/
  | interrupt {s s' : Sched} {live exited : List Nat} {pt : KmainPoint} {late : Bool} {rsp : Nat} :
    contextSwitch st rsp s = .ok s' →
    KmainStep st ⟨⟨s, live, exited⟩, pt, late⟩ ⟨⟨s', live, exited⟩, pt.interrupted st s', late⟩
  /-- An interrupt whose handler unblocks the threads of a queue, if there are any. -/
  | wake {s s₁ s' : Sched} {live exited : List Nat} {pt : KmainPoint} {late : Bool} {q rsp : Nat} : q ≠ st.availProcs →
    Wakes st q s s₁ → contextSwitch st rsp s₁ = .ok s' →
    KmainStep st ⟨⟨s, live, exited⟩, pt, late⟩
      ⟨⟨s', live, exited⟩, pt.interrupted st s', late || (pt.Window && s.head q ≠ 0)⟩

/-! ## The threads between the steps -/

section
variable {st : ProcStatics} {L : Nat → List Nat} {live : List Nat} {s s' : Sched} {q rsp : Nat}

/-- A switch never goes to the null node, unless there is no thread at all. -/
theorem contextSwitch_ne_zero (h : contextSwitch st rsp s = .ok s') (hne : s.curProc ≠ 0 ∨ s.nextProc ≠ 0) :
    s'.curProc ≠ 0 := by
  rcases Decidable.eq_or_ne s.nextProc 0 with hnext | hnext
  · have hcur : s.curProc ≠ 0 := hne.resolve_right (not_not.2 hnext)
    intro hc
    -- the null node would be the running thread, or what `contextSwitch` has put in its place
    rw [contextSwitch, if_neg (hnext ▸ hcur)] at h
    obtain ⟨s₁, hsave, h⟩ := Except.bind_eq_ok.1 h
    obtain ⟨_, _, h⟩ := Except.bind_eq_ok.1 h
    cases h
    dsimp only at hc
    split at hc
    case isTrue => exact st.sourceProc_ne hc
    case isFalse hne₁ => exact hne₁ hc
  · rw [contextSwitch_cur h hnext]
    exact hnext

/-- An interrupt leaves a thread ready iff there was one, or one that it has unblocked. -/
theorem Placed.wakes (h : Placed st L live s) (hqa : q ≠ st.availProcs) (hw : Wakes st q s s') :
    ∃ L', Placed st L' live s' ∧ Unblocks st q L L' ∧ (s'.curProc = s.curProc ∧ s'.nextProc = s.nextProc) ∧
      (L' st.availProcs ≠ [] ↔ L st.availProcs ≠ [] ∨ L q ≠ []) := by
  have hmoves : ∃ L', Placed st L' live s' ∧ Unblocks st q L L' ∧ s'.curProc = s.curProc ∧ s'.nextProc = s.nextProc :=
    hw.elim h.unblockHead_moves fun ⟨_, hall⟩ => h.unblockAll_moves hall
  obtain ⟨L', h', hmove, hvars⟩ := hmoves
  refine ⟨L', h', hmove, hvars, fun hne => ?_, fun hne => ?_⟩
  · obtain ⟨n, hn⟩ := List.exists_mem_of_ne_nil _ hne
    obtain ⟨q', hq'⟩ := (h.mem_live n).1 (h'.live_of_mem hn)
    -- a thread that was on another queue is still there
    by_contra hnone
    obtain ⟨hready, hq⟩ := not_or.1 hnone
    have hq'a : q' ≠ st.availProcs := fun hc => hready (List.ne_nil_of_mem (hc ▸ hq'))
    have hq'q : q' ≠ q := fun hc => hq (List.ne_nil_of_mem (hc ▸ hq'))
    exact hq'a (h'.queues.disjoint q' st.availProcs n (hmove.frame q' hq'a hq'q ▸ hq') hn)
  · rcases hne with hne | hne
    · obtain ⟨n, hn⟩ := List.exists_mem_of_ne_nil _ hne
      exact List.ne_nil_of_mem (hmove.mem_ready hn)
    · obtain ⟨n, w, hl⟩ := List.exists_cons_of_ne_nil hne
      rcases hw with hhead | ⟨fuel, hall⟩
      · have hq : q ≠ 0 := by
          rintro rfl
          cases hhead
        obtain ⟨_, hok, h'', -⟩ := h.unblockHead hq hl
        rw [hhead] at hok
        cases hok
        refine fun hc => absurd (h''.queues.head_eq_zero.1 (h'.queues.head_eq_zero.2 hc)) ?_
        rw [Function.update_self]
        exact List.append_ne_nil_of_right_ne_nil _ (List.cons_ne_nil _ _)
      · have hempty : L' q = [] := h'.queues.head_eq_zero.1 (procUnblockAll_vars hall).1
        rcases hmove.stay q n (hl ▸ .head w) with hn | hn
        · rw [hempty] at hn
          cases hn
        · exact List.ne_nil_of_mem hn

end

/-! ## Whole calls -/

section
variable {st : ProcStatics} {s s' : Sched} {live exited freed : List Nat} {late : Bool} {q rsp : Nat}

/-- `PROC_run` without interrupts. -/
theorem KmainStep.procRun (h : procRun st rsp s = .ok s') (hready : procHasUnblocked st s = true) :
    Relation.ReflTransGen (KmainStep st) ⟨⟨s, live, exited⟩, .run, late⟩ ⟨⟨s', live, exited⟩, .after st s', false⟩ := by
  rw [BanjOS.procRun, if_pos (of_decide_eq_true hready)] at h
  obtain ⟨s₁, hres, hswitch⟩ := Except.bind_eq_ok.1 h
  exact .tail (.tail (.single (.enter hready)) (.reschedule hres)) (.switch hswitch)

/-- `yield` without interrupts. -/
theorem KmainStep.yieldCall (h : BanjOS.yield st rsp s = .ok s') : Relation.ReflTransGen (KmainStep st)
    ⟨⟨s, live, exited⟩, .dispatched, late⟩ ⟨⟨s', live, exited⟩, .after st s', false⟩ := by
  obtain ⟨s₁, hres, hswitch⟩ := Except.bind_eq_ok.1 h
  exact .tail (.tail (.single .yield) (.reschedule hres)) (.switch hswitch)

/-- `PROC_block_on` without interrupts. -/
theorem KmainStep.procBlockOn (h : procBlockOn st q rsp s = .ok s') (hq : q ≠ 0) (hqa : q ≠ st.availProcs) :
    Relation.ReflTransGen (KmainStep st) ⟨⟨s, live, exited⟩, .dispatched, late⟩
      ⟨⟨s', live, exited⟩, .after st s', false⟩ := by
  rw [BanjOS.procBlockOn, if_neg hq] at h
  obtain ⟨s₁, hunlink, h⟩ := Except.bind_eq_ok.1 h
  obtain ⟨s₂, happend, h⟩ := Except.bind_eq_ok.1 h
  obtain ⟨s₃, hres, hswitch⟩ := Except.bind_eq_ok.1 h
  have hwait : waitOn st q s = .ok s₂ := Except.bind_eq_ok.2 ⟨s₁, hunlink, happend⟩
  exact .tail (.tail (.single (.blockOn hqa hwait)) (.reschedule hres)) (.switch hswitch)

/-- `kexit` without interrupts. -/
theorem KmainStep.kexit (h : kexit st rsp s = .ok (freed, s')) : Relation.ReflTransGen (KmainStep st)
    ⟨⟨s, live, exited⟩, .dispatched, late⟩
      ⟨⟨s', live.erase s.curProc, s.curProc :: exited⟩, .after st s', false⟩ := by
  obtain ⟨⟨freed', s₁⟩, hhandler, h⟩ := Except.bind_eq_ok.1 h
  obtain ⟨s₂, hswitch, hret⟩ := Except.bind_eq_ok.1 h
  cases hret
  exact .tail (.single (.exit hhandler)) (.switch hswitch)

end

/-! ## Invariant -/

/-- The running thread is the source, or there was none yet, and no other is chosen. -/
structure AtSource (st : ProcStatics) (s : Sched) : Prop where
  next_eq : s.nextProc = s.curProc
  cur : s.curProc = 0 ∨ s.curProc = st.sourceProc

/-- What holds at each point, with the ready queue and the live threads. -/
def KmainPoint.Inv (st : ProcStatics) (ready live : List Nat) (s : Sched) (late : Bool) : KmainPoint → Prop
  | run => AtSource st s
  | yielding => (s.curProc = st.sourceProc ∧ (s.nextProc = 0 ∨ s.nextProc = st.sourceProc)) ∨
      (s.curProc ∈ live ∧ s.nextProc = s.curProc)
  | switching => (s.curProc ≠ 0 ∨ s.nextProc ≠ 0) ∧
      (s.nextProc ∈ ready ∨ (s.nextProc = 0 ∨ s.nextProc = st.sourceProc) ∧ (ready ≠ [] ↔ late = true))
  | dispatched => s.nextProc = s.curProc ∧ s.curProc ∈ ready
  | test | enable | halt | halted => AtSource st s ∧ (ready ≠ [] ↔ late = true)

/-- What holds between the steps. -/
structure KmainInv (st : ProcStatics) (x : KmainLoop) (L : Nat → List Nat) : Prop where
  placed : Placed st L x.threads.live x.threads.sched
  point : x.point.Inv st (L st.availProcs) x.threads.live x.threads.sched x.late

section
variable {st : ProcStatics} {L L' : Nat → List Nat} {x y : KmainLoop} {s s' : Sched} {live exited : List Nat}
  {pt : KmainPoint} {late : Bool} {q rsp : Nat}

theorem procHasUnblocked_iff (h : Queues s L) : procHasUnblocked st s = true ↔ L st.availProcs ≠ [] := by
  rw [procHasUnblocked, decide_eq_true_iff, Ne, h.head_eq_zero]

/-- A switch to the running thread does nothing. -/
theorem contextSwitch_eq (h : contextSwitch st rsp s = .ok s') (heq : s.nextProc = s.curProc) : s' = s := by
  rw [contextSwitch, if_pos heq.symm] at h
  exact (Except.ok.inj h).symm

/-- A switch where the source is the next thread, or none is. -/
theorem contextSwitch_source (h : contextSwitch st rsp s = .ok s') (hne : s.curProc ≠ 0 ∨ s.nextProc ≠ 0)
    (hnext : s.nextProc = 0 ∨ s.nextProc = st.sourceProc) : s'.curProc = st.sourceProc := by
  rcases hnext with hnext | hnext
  · exact (contextSwitch_ok h).2.2.2.resolve_left fun hcur => contextSwitch_ne_zero h hne (hcur.trans hnext)
  · exact (contextSwitch_cur h (hnext ▸ st.sourceProc_ne)).trans hnext

/-- The switch to what was chosen. -/
theorem KmainInv.switch (h : KmainInv st ⟨⟨s, live, exited⟩, .switching, late⟩ L) (hrun : contextSwitch st rsp s = .ok s') :
    KmainInv st ⟨⟨s', live, exited⟩, .after st s', late⟩ L := by
  obtain ⟨hplaced, hne, hchosen⟩ := h
  dsimp only at hplaced hne hchosen
  have hnext := contextSwitch_next hrun
  rcases hchosen with hready | ⟨hsource, hlate⟩
  · have hcur := contextSwitch_cur hrun (hplaced.queues.ne_zero hready)
    have hns : s'.curProc ≠ st.sourceProc := hcur ▸ (hplaced.ne_of_live (hplaced.live_of_mem hready)).2
    refine ⟨(hplaced.switch hrun (.inr (.inr hready))).1, ?_⟩
    rw [KmainPoint.after, if_neg hns]
    exact ⟨hnext, hcur ▸ hready⟩
  · have hcur := contextSwitch_source hrun hne hsource
    refine ⟨(hplaced.switch hrun (hsource.imp_right .inl)).1, ?_⟩
    rw [KmainPoint.after, if_pos hcur]
    exact ⟨⟨hnext, .inr hcur⟩, hlate⟩

/-- The end of an interrupt. -/
theorem KmainInv.interrupted (h : KmainInv st ⟨⟨s, live, exited⟩, pt, late⟩ L) (hrun : contextSwitch st rsp s = .ok s') :
    KmainInv st ⟨⟨s', live, exited⟩, pt.interrupted st s', late⟩ L := by
  -- where the running thread is also the next one, nothing is switched
  have hstay (heq : s.nextProc = s.curProc) : KmainInv st ⟨⟨s', live, exited⟩, pt, late⟩ L := by
    rwa [contextSwitch_eq hrun heq]
  cases pt with
  | run => exact hstay h.point.next_eq
  | yielding =>
    rcases h.point with ⟨hcur, hnext⟩ | ⟨-, heq⟩
    · have hcur' := contextSwitch_source hrun (.inl (hcur ▸ st.sourceProc_ne)) hnext
      exact ⟨(h.placed.switch hrun (hnext.imp_right .inl)).1,
        .inl ⟨hcur', .inr ((contextSwitch_next hrun).trans hcur')⟩⟩
    · exact hstay heq
  | switching => exact h.switch hrun
  | dispatched => exact hstay h.point.1
  | test | enable | halt => exact hstay h.point.1.next_eq
  | halted =>
    rw [contextSwitch_eq hrun h.point.1.next_eq]
    exact ⟨h.placed, h.point.1⟩

/-- What an interrupt handler does to the threads. -/
theorem KmainInv.wakes (h : KmainInv st ⟨⟨s, live, exited⟩, pt, late⟩ L) (hqa : q ≠ st.availProcs) (hw : Wakes st q s s') :
    ∃ L', KmainInv st ⟨⟨s', live, exited⟩, pt, late || (pt.Window && s.head q ≠ 0)⟩ L' := by
  obtain ⟨L', h', hmove, ⟨hcur, hnext⟩, hready⟩ := h.placed.wakes hqa hw
  refine ⟨L', h', ?_⟩
  have hpoint := h.point
  have hsource (hs : AtSource st s) : AtSource st s' := ⟨hnext.trans (hs.next_eq.trans hcur.symm), hcur ▸ hs.cur⟩
  have hlate (hl : L st.availProcs ≠ [] ↔ late = true) :
      L' st.availProcs ≠ [] ↔ (late || (true && s.head q ≠ 0)) = true := by
    rw [hready, hl, Bool.true_and, Bool.or_eq_true, decide_eq_true_iff, Ne, Ne, h.placed.queues.head_eq_zero]
  cases pt with
  | run => exact hsource hpoint
  | yielding =>
    dsimp only [KmainPoint.Inv] at hpoint ⊢
    rwa [hcur, hnext]
  | switching =>
    dsimp only [KmainPoint.Inv] at hpoint ⊢
    rw [hcur, hnext]
    exact ⟨hpoint.1, hpoint.2.imp hmove.mem_ready fun hnone => ⟨hnone.1, hlate hnone.2⟩⟩
  | dispatched =>
    dsimp only [KmainPoint.Inv] at hpoint ⊢
    rw [hcur, hnext]
    exact ⟨hpoint.1, hmove.mem_ready hpoint.2⟩
  | test | enable | halt | halted => exact ⟨hsource hpoint.1, hlate hpoint.2⟩

/-- A step keeps the invariant. -/
theorem KmainInv.step (h : KmainInv st x L) (hs : KmainStep st x y) : ∃ L', KmainInv st y L' := by
  cases hs with
  | skip hempty =>
    refine ⟨L, h.placed, h.point, iff_of_false (fun hl => ?_) Bool.false_ne_true⟩
    exact Bool.false_ne_true (hempty.symm.trans ((procHasUnblocked_iff h.placed.queues).2 hl))
  | enter => exact ⟨L, h.placed.enterSource, .inl ⟨rfl, h.point.next_eq ▸ h.point.cur⟩⟩
  | yield => exact ⟨L, h.placed, .inr ⟨h.placed.live_of_mem h.point.2, h.point.1⟩⟩
  | @blockOn s s' live exited late q hqa hrun =>
    obtain ⟨heq, hcur⟩ := h.point
    dsimp only at heq hcur
    obtain ⟨s₁, hunlink, happend⟩ := Except.bind_eq_ok.1 hrun
    have hq : q ≠ 0 := by
      rintro rfl
      cases happend
    obtain ⟨_, _, hunlink', happend', h₂, hf₁, hf₂⟩ := h.placed.move st.availProcs_ne hq hcur
    rw [hunlink] at hunlink'
    cases hunlink'
    rw [hf₁.curProc, happend'] at happend
    cases happend
    refine ⟨_, h₂, .inr ⟨?_, ?_⟩⟩
    · rw [hf₂.curProc]
      exact h.placed.live_of_mem hcur
    · rw [hf₂.curProc, hf₂.nextProc, heq]
  | @reschedule s s' live exited late hrun =>
    obtain ⟨_, hrun', h', -, hcur, hnext⟩ := h.placed.reschedule
    rw [hrun] at hrun'
    cases hrun'
    refine ⟨_, h', .inl ?_, ?_⟩
    · rw [hcur]
      rcases h.point with ⟨hsource, -⟩ | ⟨hlive, -⟩
      · exact hsource ▸ st.sourceProc_ne
      · exact (h.placed.ne_of_live hlive).1
    · dsimp only
      rw [hnext, Function.update_self]
      cases hl : L st.availProcs with
      | nil => exact .inr ⟨.inl rfl, by simp⟩
      | cons n w => exact .inl (List.mem_rotate.2 (.head _))
  | @exit s s' live exited freed late hrun =>
    obtain ⟨_, _, hrun', h', hcur, hnext, -⟩ := h.placed.kexitHandler_ready h.point.2
    rw [hrun] at hrun'
    cases hrun'
    refine ⟨_, h', ?_⟩
    dsimp only [KmainPoint.Inv]
    rw [hnext, Function.update_self]
    cases hl : (L st.availProcs).erase s.curProc with
    | nil => exact ⟨.inr st.sourceProc_ne, .inr ⟨.inr rfl, by simp⟩⟩
    | cons n w =>
      have hn : n ∈ L st.availProcs := List.mem_of_mem_erase (by rw [hl]; exact .head _)
      exact ⟨.inr (h.placed.queues.ne_zero hn), .inl (.head _)⟩
  | switch hrun => exact ⟨L, h.switch hrun⟩
  | test =>
    refine ⟨L, h.placed, ?_⟩
    dsimp only
    split
    case isTrue => exact h.point.1
    case isFalse hready =>
      exact ⟨h.point.1, iff_of_false (fun hl => hready ((procHasUnblocked_iff h.placed.queues).2 hl)) Bool.false_ne_true⟩
  | sti => exact ⟨L, h.placed, h.point⟩
  | hlt => exact ⟨L, h.placed, h.point⟩
  | interrupt hrun => exact ⟨L, h.interrupted hrun⟩
  | wake hqa hw hrun =>
    obtain ⟨L', h'⟩ := h.wakes hqa hw
    exact ⟨L', h'.interrupted hrun⟩

/-- A run keeps the invariant. -/
theorem KmainInv.run (h : KmainInv st x L) (hrun : Relation.ReflTransGen (KmainStep st) x y) : ∃ L', KmainInv st y L' :=
  hrun.invariant (fun x => ∃ L, KmainInv st x L) ⟨L, h⟩ fun _ _ hs ⟨_, h⟩ => h.step hs

end

/-! ## The next thread -/

/-- The thread `n` is the next one to run: the head of the ready queue, or what was chosen, or it runs. -/
def KmainPoint.Next (st : ProcStatics) (n : Nat) (s : Sched) : KmainPoint → Prop
  | run | yielding => s.head st.availProcs = n
  | switching => s.nextProc = n
  | dispatched => s.curProc = n
  | test | enable | halt | halted => False

section
variable {st : ProcStatics} {L : Nat → List Nat} {x y : KmainLoop} {s s' : Sched} {live exited : List Nat} {pt : KmainPoint}
  {late : Bool} {n q rsp : Nat}

/-- An interrupt does not change the head of a ready queue that is not empty. -/
theorem Placed.wakes_head (h : Placed st L live s) (hqa : q ≠ st.availProcs) (hw : Wakes st q s s')
    (hne : s.head st.availProcs ≠ 0) : s'.head st.availProcs = s.head st.availProcs := by
  obtain ⟨L', h', hmove, -⟩ := h.wakes hqa hw
  obtain ⟨n, w, hl⟩ := List.exists_cons_of_ne_nil fun hc => hne (h.queues.head_eq_zero.2 hc)
  obtain ⟨w', hl'⟩ := hmove.ready hqa
  rw [hl] at hl'
  rw [h.queues.head_cons hl, h'.queues.head_cons hl'.symm]

variable (hn : n ≠ 0) (hns : n ≠ st.sourceProc)
include hn hns

/-- After the switch it runs. -/
theorem KmainPoint.next_after (h : s.nextProc = n) (hrun : contextSwitch st rsp s = .ok s') :
    (KmainPoint.after st s').Next st n s' := by
  have hcur := (contextSwitch_cur hrun (h ▸ hn)).trans h
  rw [KmainPoint.after, if_neg (hcur ▸ hns)]
  exact hcur

/-- The end of an interrupt. -/
theorem KmainPoint.Next.interrupted (h : pt.Next st n s) (hd : pt ≠ .dispatched) (hrun : contextSwitch st rsp s = .ok s') :
    (pt.interrupted st s').Next st n s' := by
  cases pt with
  | run | yielding => exact (congrFun (contextSwitch_head hrun) _).trans h
  | switching => exact KmainPoint.next_after hn hns h hrun
  | dispatched => exact absurd rfl hd
  | test | enable | halt | halted => exact h.elim

/-- Until a thread runs, a step does not change which one is next. -/
theorem KmainStep.next (h : KmainInv st x L) (hs : KmainStep st x y) (hd : x.point ≠ .dispatched)
    (hnext : x.point.Next st n x.threads.sched) : y.point.Next st n y.threads.sched := by
  cases hs with
  | skip hempty => exact absurd (hnext.symm.trans (not_not.1 (of_decide_eq_false hempty))) hn
  | enter => exact hnext
  | reschedule hrun =>
    obtain ⟨_, hrun', -, -, -, hchosen⟩ := h.placed.reschedule
    rw [hrun] at hrun'
    cases hrun'
    exact hchosen.trans ((h.placed.queues.queue _).head_eq.symm.trans hnext)
  | switch hrun => exact KmainPoint.next_after hn hns hnext hrun
  | interrupt hrun => exact KmainPoint.Next.interrupted hn hns hnext hd hrun
  | @wake s s₁ s' live exited pt late q rsp hqa hw hrun =>
    obtain ⟨_, _, _, ⟨-, hnext₁⟩, -⟩ := h.placed.wakes hqa hw
    refine KmainPoint.Next.interrupted hn hns ?_ hd hrun
    cases pt with
    | run | yielding => exact (h.placed.wakes_head hqa hw (hnext.trans_ne hn)).trans hnext
    | switching => exact hnext₁.trans hnext
    | dispatched => exact absurd rfl hd
    | test | enable | halt | halted => exact hnext.elim
  | yield | blockOn | exit => exact absurd rfl hd
  | test | sti | hlt => exact hnext.elim

/-- Nor does a run. -/
theorem KmainInv.next (h : KmainInv st x L) (hnext : x.point.Next st n x.threads.sched)
    (hrun : Relation.ReflTransGen (fun a b => a.point ≠ .dispatched ∧ KmainStep st a b) x y) :
    y.point.Next st n y.threads.sched := by
  refine (hrun.invariant (fun y => (∃ L, KmainInv st y L) ∧ y.point.Next st n y.threads.sched) ⟨⟨L, h⟩, hnext⟩ ?_).2
  rintro a b ⟨hd, hs⟩ ⟨⟨L, h⟩, hnext⟩
  exact ⟨h.step hs, hs.next hn hns h hd hnext⟩

end

/-! ## Sleeping -/

/-- `kmain` before its loop: threads were created, and none has run. -/
structure KmainReady (st : ProcStatics) (x : KmainLoop) : Prop where
  created : ∃ s, SchedBoot st s ∧ Relation.ReflTransGen (ThreadStep st) ⟨s, [], []⟩ x.threads
  curProc : x.threads.sched.curProc = 0
  point : x.point = .run

theorem KmainReady.inv {st : ProcStatics} {x : KmainLoop} (h : KmainReady st x) : ∃ L, KmainInv st x L := by
  rcases h.created with ⟨s, hboot, hrun⟩
  obtain ⟨⟨L, hplaced, hr⟩, -⟩ := threadRun_inv hboot hrun
  refine ⟨L, hplaced, ?_⟩
  rw [h.point]
  exact ⟨hr.next_eq, .inl h.curProc⟩

/-- In every run of the loop of `kmain`, with interrupts between the parts of the calls: when `PROC_run` has returned, a
thread is ready iff an interrupt has unblocked one since the ready queue was last looked at, by `PROC_run`, by
`PROC_reschedule` or by the handler of an exit; `kmain` sleeps in `HLT` while a thread is ready iff an interrupt has unblocked
one since the test of the loop; only an interrupt ends this sleep; where a thread is ready, `PROC_run` without interrupts
switches to the head of the ready queue; and whatever interrupts come before or in it, it does not return before a thread has
run, and the first one to run is this head. -/
theorem kmain_sleeps_iff (st : ProcStatics) (x₀ x : KmainLoop) (h₀ : KmainReady st x₀)
    (hrun : Relation.ReflTransGen (KmainStep st) x₀ x) :
    (x.point = .test → (procHasUnblocked st x.threads.sched = true ↔ x.late = true)) ∧
    (x.point = .halted → (procHasUnblocked st x.threads.sched = true ↔ x.late = true)) ∧
    (x.point = .halted → ∀ y, KmainStep st x y → y.point = .run) ∧
    (x.point = .run → procHasUnblocked st x.threads.sched = true → ∀ rsp, ∃ s',
      procRun st rsp x.threads.sched = .ok s' ∧ s'.curProc = x.threads.sched.head st.availProcs) ∧
    (x.point = .run → procHasUnblocked st x.threads.sched = true → ∀ y,
      Relation.ReflTransGen (fun a b => a.point ≠ .dispatched ∧ KmainStep st a b) x y →
        y.point ≠ .test ∧ (y.point = .dispatched → y.threads.sched.curProc = x.threads.sched.head st.availProcs)) := by
  rcases h₀.inv with ⟨L₀, hinv₀⟩
  rcases hinv₀.run hrun with ⟨L, hinv⟩
  have hpoint := hinv.point
  refine ⟨fun hpt => ?_, fun hpt => ?_, fun hpt y hs => ?_, fun hpt hready rsp => ?_, fun hpt hready y hsteps => ?_⟩
  · rw [hpt] at hpoint
    rw [procHasUnblocked_iff hinv.placed.queues]
    exact hpoint.2
  · rw [hpt] at hpoint
    rw [procHasUnblocked_iff hinv.placed.queues]
    exact hpoint.2
  · cases hs with
    | interrupt | wake =>
      cases hpt
      rfl
    | _ => cases hpt
  · obtain ⟨s', hok⟩ := hinv.placed.run_returns rsp
    refine ⟨s', hok, ?_⟩
    have hhead : x.threads.sched.head st.availProcs ≠ 0 := of_decide_eq_true hready
    rw [procRun, if_pos hhead] at hok
    obtain ⟨-, -, hnext⟩ := hinv.placed.enterSource.yield_ready hok
    obtain ⟨n, w, hl⟩ := List.exists_cons_of_ne_nil fun hc => hhead (hinv.placed.queues.head_eq_zero.2 hc)
    rw [hinv.placed.queues.head_cons hl]
    rw [hl, List.headD_cons] at hnext
    exact hnext.symm
  · have hhead : x.threads.sched.head st.availProcs ≠ 0 := of_decide_eq_true hready
    obtain ⟨n, w, hl⟩ := List.exists_cons_of_ne_nil fun hc => hhead (hinv.placed.queues.head_eq_zero.2 hc)
    have hn : n ∈ L st.availProcs := hl ▸ .head w
    have hns := (hinv.placed.ne_of_live (hinv.placed.live_of_mem hn)).2
    have hxnext : x.point.Next st n x.threads.sched := by
      rw [hpt]
      exact hinv.placed.queues.head_cons hl
    have hynext := hinv.next (hinv.placed.queues.ne_zero hn) hns hxnext hsteps
    rw [hinv.placed.queues.head_cons hl]
    refine ⟨fun hy => ?_, fun hy => ?_⟩
    · rw [hy] at hynext
      exact hynext
    · rw [hy] at hynext
      exact hynext

/-- One thread waits for a key. It is unblocked right before `HLT`, and `kmain` sleeps while it is ready, until the next
interrupt; or it is unblocked between `PROC_reschedule` and `int $0x80` of its own wait, and `PROC_run` returns while it is
ready. -/
theorem kmain_sleeps_one_thread :
    ∃ x₀ x y, KmainReady someProcStatics x₀ ∧ Relation.ReflTransGen (KmainStep someProcStatics) x₀ x ∧
      x.point = .halted ∧ x.threads.live = [0x3000] ∧ procHasUnblocked someProcStatics x.threads.sched = true ∧
      Relation.ReflTransGen (KmainStep someProcStatics) x₀ y ∧
      y.point = .test ∧ y.threads.live = [0x3000] ∧ procHasUnblocked someProcStatics y.threads.sched = true := by
  have hboot : SchedBoot someProcStatics emptySched := ⟨fun _ => rfl, rfl, rfl, rfl⟩
  have hcreate : Relation.ReflTransGen (ThreadStep someProcStatics) ⟨emptySched, [], []⟩ _ :=
    .single (@ThreadStep.createKthread _ _ _ _ _ 0x1000 0x2000 0x3000 _ (by decide) (by decide) (by decide) nofun rfl)
  have hready : KmainReady someProcStatics ⟨_, .run, false⟩ := ⟨⟨_, hboot, hcreate⟩, rfl, rfl⟩
  have hstart {x : KmainLoop} (_ : KmainReady someProcStatics x) :
      Relation.ReflTransGen (KmainStep someProcStatics) x x := .refl
  have h₁ := (hstart hready).trans (@KmainStep.procRun _ _ _ _ _ _ 0x5000 rfl rfl)
  have h₂ := h₁.tail (@KmainStep.blockOn _ _ _ _ _ _ 0x40 (by decide) rfl)
  have h₃ := h₂.tail (.reschedule rfl)
  have h₄ := ((h₃.tail (@KmainStep.switch _ _ _ _ _ _ 0x6000 rfl)).tail .test).tail .sti
  have h₅ := (h₄.tail (@KmainStep.wake _ _ _ _ _ _ _ _ 0x40 0x7000 (by decide) (.inr ⟨2, rfl⟩) rfl)).tail .hlt
  have h₆ := h₃.tail (@KmainStep.wake _ _ _ _ _ _ _ _ 0x40 0x7000 (by decide) (.inr ⟨2, rfl⟩) rfl)
  exact ⟨_, _, _, hready, h₅, rfl, rfl, ((kmain_sleeps_iff _ _ _ hready h₅).2.1 rfl).2 rfl,
    h₆, rfl, rfl, ((kmain_sleeps_iff _ _ _ hready h₆).1 rfl).2 rfl⟩

end BanjOS
