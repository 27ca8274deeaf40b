import BanjOS.Lib.RoundRobin
import BanjOS.Processes.Runs

/-!
# Fairness of the scheduler

A thread is dispatched when `PROC_reschedule` or `kexit_handler` selects it as `next_proc`.
`PROC_reschedule` turns the ready queue, `kexit_handler` takes the head and leaves it there. A run of calls
is a run of the round-robin queue of `BanjOS.Lib.RoundRobin` (`DispatchStep.refines`), whose tasks are the
threads on the ready queue.
-/

namespace BanjOS

open RoundRobin (Event)

/-- One call, with what it dispatches: the thread that `next_proc` is after it (the source, if there was
none to select). `avail_procs` is not visible outside `processes.c`, and no call there blocks on it or
unblocks from it. -/
inductive DispatchStep (st : ProcStatics) : Threads → Event Nat → Threads → Prop
  | createKthread {s s' : Sched} {live exited : List Nat} {ctx frame node pid : Nat} : ctx ≠ 0 →
      node ≠ 0 → node ≠ st.sourceProc → node ∉ live →
      procCreateKthread st ctx frame node s = .ok (pid, s') →
      DispatchStep st ⟨s, live, exited⟩ .quiet ⟨s', node :: live, exited.filter (· ≠ node)⟩
  | run {s s' : Sched} {live exited : List Nat} {rsp : Nat} : s.head st.availProcs ≠ 0 →
      procRun st rsp s = .ok s' →
      DispatchStep st ⟨s, live, exited⟩ (.cycle s'.nextProc) ⟨s', live, exited⟩
  | runEmpty {s s' : Sched} {live exited : List Nat} {rsp : Nat} : s.head st.availProcs = 0 →
      procRun st rsp s = .ok s' → DispatchStep st ⟨s, live, exited⟩ .quiet ⟨s', live, exited⟩
  | yield {s s' : Sched} {live exited : List Nat} {rsp : Nat} : yield st rsp s = .ok s' →
      DispatchStep st ⟨s, live, exited⟩ (.cycle s'.nextProc) ⟨s', live, exited⟩
  | blockOn {s s' : Sched} {live exited : List Nat} {queue rsp : Nat} : queue ≠ 0 →
      queue ≠ st.availProcs → procBlockOn st queue rsp s = .ok s' →
      DispatchStep st ⟨s, live, exited⟩ (.leave s'.nextProc) ⟨s', live, exited⟩
  | blockOnNull {s s' : Sched} {live exited : List Nat} {rsp : Nat} :
      procBlockOn st 0 rsp s = .ok s' → DispatchStep st ⟨s, live, exited⟩ .quiet ⟨s', live, exited⟩
  | unblockHead {s s' : Sched} {live exited : List Nat} {queue : Nat} : queue ≠ st.availProcs →
      procUnblockHead st queue s = .ok s' → DispatchStep st ⟨s, live, exited⟩ .quiet ⟨s', live, exited⟩
  | unblockAll {s s' : Sched} {live exited : List Nat} {queue fuel : Nat} : queue ≠ st.availProcs →
      procUnblockAll st queue fuel s = some (.ok s') →
      DispatchStep st ⟨s, live, exited⟩ .quiet ⟨s', live, exited⟩
  | exit {s s' : Sched} {live exited freed : List Nat} {rsp : Nat} :
      kexit st rsp s = .ok (freed, s') →
      DispatchStep st ⟨s, live, exited⟩ (.take s'.nextProc) ⟨s', live.erase s.curProc, s.curProc :: exited⟩

/-- A run of `n` calls from the empty system. -/
structure DispatchRun (st : ProcStatics) (t : Nat → Threads) (e : Nat → Event Nat) (n : Nat) : Prop where
  boot : SchedBoot st (t 0).sched
  live : (t 0).live = [] ∧ (t 0).exited = []
  step : ∀ i < n, DispatchStep st (t i) (e i) (t (i + 1))

/-- Between two dispatches of the thread `y` one after the other, every other thread that is on the ready
queue all the time is dispatched. -/
def FairDispatch (st : ProcStatics) (t : Nat → Threads) (e : Nat → Event Nat) (n : Nat) : Prop :=
  ∀ i j x y, i < j → j < n → (e i).chosen = some y → (e j).chosen = some y →
    (∀ k, i < k → k < j → (e k).chosen ≠ some y) → x ≠ y →
    (∀ k, i < k → k ≤ j → OnQueue (t k).sched st.availProcs x) →
    ∃ k, i < k ∧ k < j ∧ (e k).chosen = some x

/-- If `kexit_handler` dispatches a thread at the step `i` and the next dispatch is by `yield` or
`PROC_run`, then that thread is the only one on the ready queue after the exit. -/
def ExitAlone (st : ProcStatics) (t : Nat → Threads) (e : Nat → Event Nat) (n : Nat) : Prop :=
  ∀ i j, i < j → j < n → (e i).IsTake → (e j).IsCycle → (∀ k, i < k → k < j → (e k).chosen = none) →
    ∀ x, OnQueue (t (i + 1)).sched st.availProcs x → (e i).chosen = some x

/-! ## Refinement -/

section
variable {st : ProcStatics} {L : Nat → List Nat} {live : List Nat} {s s' : Sched} {q n : Nat}

/-- One call is a step of the round-robin queue. -/
theorem DispatchStep.refines {t t' : Threads} {e : Event Nat} (hstep : DispatchStep st t e t')
    (h : Placed st L t.live t.sched) (hr : Running st L t.sched) :
    ∃ L', Placed st L' t'.live t'.sched ∧ Running st L' t'.sched ∧
      RoundRobin.Step (L st.availProcs) t.sched.curProc e (L' st.availProcs) t'.sched.curProc := by
  -- a call that dispatches nothing appends to the ready queue
  have hquiet : ∀ {L' : Nat → List Nat} {c c' : Nat}, L st.availProcs <+: L' st.availProcs → c' = c →
      RoundRobin.Step (L st.availProcs) c .quiet (L' st.availProcs) c' := by
    rintro L' c _ ⟨m, hm⟩ rfl
    exact hm ▸ .quiet m
  cases hstep with
  | createKthread hctx hn0 hns hn hrun =>
    obtain ⟨_, hok, h', hcur, hnext⟩ := h.createKthread _ _ hctx hn0 hns hn
    rw [hrun] at hok
    cases hok
    refine ⟨_, h', ⟨by rw [hnext, hcur, hr.next_eq], ?_⟩, ?_⟩
    · rw [hcur, Function.update_self]
      exact hr.cur.imp id (Or.imp id (List.mem_append_left _))
    · refine hquiet ?_ hcur
      rw [Function.update_self]
      exact List.prefix_append _ _
  | run hhead hrun =>
    rw [procRun, if_pos hhead] at hrun
    obtain ⟨h', hr', hd⟩ := h.enterSource.yield_ready hrun
    refine ⟨_, h', hr', ?_⟩
    rw [Function.update_self, hr'.next_eq]
    exact .cycle hd fun _ => rfl
  | runEmpty hhead hrun =>
    rw [procRun, if_neg (by simpa using hhead)] at hrun
    cases hrun
    exact ⟨L, h, hr, hquiet List.prefix_rfl rfl⟩
  | yield hrun =>
    obtain ⟨h', hr', hd⟩ := h.yield_ready hrun
    refine ⟨_, h', hr', ?_⟩
    rw [Function.update_self, hr'.next_eq]
    exact .cycle hd fun _ => rfl
  | blockOn hq hqa hrun =>
    obtain ⟨hcur, L', h', hr', hready, -⟩ := h.blockOn_ready hr hq hrun
    obtain ⟨hl, hd⟩ := hready hqa
    refine ⟨L', h', hr', ?_⟩
    rw [hl, hr'.next_eq]
    exact .leave hcur hd fun _ => rfl
  | blockOnNull hrun =>
    cases hrun
    exact ⟨L, h, hr, hquiet List.prefix_rfl rfl⟩
  | unblockHead hqa hrun =>
    obtain ⟨L', h', hmove, hvars⟩ := h.unblockHead_moves hrun
    exact ⟨L', h', hr.unblocks hmove hvars, hquiet (hmove.ready hqa) hvars.1⟩
  | unblockAll hqa hrun =>
    obtain ⟨L', h', hmove, hvars⟩ := h.unblockAll_moves hrun
    exact ⟨L', h', hr.unblocks hmove hvars, hquiet (hmove.ready hqa) hvars.1⟩
  | exit hrun =>
    obtain ⟨hcur, L', h', hr', hl, hd, -⟩ := h.kexit_ready hr hrun
    refine ⟨L', h', hr', ?_⟩
    rw [hl, hr'.next_eq]
    exact .take hcur hd fun _ => rfl

/-- The lists of the queues along a run. -/
theorem DispatchRun.exists_queues {t : Nat → Threads} {e : Nat → Event Nat} (h : DispatchRun st t e n) :
    ∃ L : Nat → Nat → List Nat,
      (∀ i ≤ n, Placed st (L i) (t i).live (t i).sched ∧ Running st (L i) (t i).sched) ∧
      ∀ i < n, RoundRobin.Step (L i st.availProcs) (t i).sched.curProc (e i)
        (L (i + 1) st.availProcs) (t (i + 1)).sched.curProc := by
  induction n with
  | zero =>
    obtain ⟨⟨L, hplaced, hr⟩, -⟩ := h.boot.inv
    refine ⟨fun _ => L, fun i hi => ?_, fun i hi => absurd hi (Nat.not_lt_zero i)⟩
    obtain rfl := Nat.le_zero.1 hi
    rw [h.live.1]
    exact ⟨hplaced, hr⟩
  | succ n ih =>
    obtain ⟨L, hL, hstep⟩ := ih ⟨h.boot, h.live, fun i hi => h.step i (Nat.lt_succ_of_lt hi)⟩
    obtain ⟨hplaced, hr⟩ := hL n le_rfl
    obtain ⟨L', hplaced', hr', hstep'⟩ := (h.step n (Nat.lt_succ_self n)).refines hplaced hr
    refine ⟨Function.update L (n + 1) L', fun i hi => ?_, fun i hi => ?_⟩
    · rcases Nat.le_succ_iff.1 hi with hi | rfl
      · rw [Function.update_of_ne (by omega)]
        exact hL i hi
      · rw [Function.update_self]
        exact ⟨hplaced', hr'⟩
    · rw [Function.update_of_ne (show i ≠ n + 1 by omega)]
      rcases Nat.lt_succ_iff_lt_or_eq.1 hi with hi | rfl
      · rw [Function.update_of_ne (by omega)]
        exact hstep i hi
      · rw [Function.update_self]
        exact hstep'

/-- A run of calls is a run of the round-robin queue. -/
theorem DispatchRun.refines {t : Nat → Threads} {e : Nat → Event Nat} (h : DispatchRun st t e n) :
    ∃ L : Nat → Nat → List Nat, (∀ i ≤ n, Queues (t i).sched (L i)) ∧
      RoundRobin.Run (fun i => L i st.availProcs) (fun i => (t i).sched.curProc) e n := by
  obtain ⟨L, hL, hstep⟩ := h.exists_queues
  exact ⟨L, fun i hi => (hL i hi).1.queues, hstep,
    fun i hi => ((hL i hi).1.queues.queue st.availProcs).ring.nodup⟩

end

/-- For every run of creations, yields, blocks, unblocks and exits: the scheduler is fair iff no thread
that `kexit_handler` dispatches in front of another ready thread is the next to yield. -/
theorem fairDispatch_iff {st : ProcStatics} {t : Nat → Threads} {e : Nat → Event Nat} {n : Nat}
    (h : DispatchRun st t e n) : FairDispatch st t e n ↔ ExitAlone st t e n := by
  obtain ⟨L, hqueues, hrun⟩ := h.refines
  have hfair : FairDispatch st t e n ↔ RoundRobin.Fair (fun i => L i st.availProcs) e n := by
    constructor
    · intro hf i j x y hij hj hi hy hbetween hxy hstay
      exact hf i j x y hij hj hi hy hbetween hxy fun k hik hkj =>
        (hqueues k (by omega)).onQueue_iff.2 (hstay k hik hkj)
    · intro hf i j x y hij hj hi hy hbetween hxy hstay
      exact hf i j x y hij hj hi hy hbetween hxy fun k hik hkj =>
        (hqueues k (by omega)).onQueue_iff.1 (hstay k hik hkj)
  have halone : ExitAlone st t e n ↔ RoundRobin.TakenAlone (fun i => L i st.availProcs) e n := by
    constructor
    · intro ha i j hij hj htake hcycle hquiet x hx
      exact ha i j hij hj htake hcycle hquiet x ((hqueues _ (by omega)).onQueue_iff.2 hx)
    · intro ha i j hij hj htake hcycle hquiet x hx
      exact ha i j hij hj htake hcycle hquiet x ((hqueues _ (by omega)).onQueue_iff.1 hx)
  rw [hfair, halone, hrun.fair_iff]

/-- Two threads; the first one exits and leaves the second one alone, which yields. -/
theorem fairDispatch_two_threads :
    let st : ProcStatics := ⟨0x100, 0x200, 0x300, by decide, by decide, by decide⟩
    ∃ t e, DispatchRun st t e 5 ∧ (e 3).chosen = some 0x6000 ∧ (e 4).chosen = some 0x6000 ∧
      FairDispatch st t e 5 := by
  intro st
  have hok : (procCreateKthread st 0x1000 0x2000 0x3000 emptySched >>= fun r =>
      procCreateKthread st 0x4000 0x5000 0x6000 r.2 >>= fun r₂ => procRun st 0x10 r₂.2 >>= fun s =>
      kexit st 0x30 s >>= fun r => yield st 0x40 r.2 >>= fun s' =>
      if r₂.2.head 0x100 ≠ 0 ∧ r.2.nextProc = 0x6000 ∧ s'.nextProc = 0x6000 ∧ r.2.head 0x100 = 0x6000 ∧
        r.2.next 0x6000 = 0x6000 then .ok () else .error .outOfMemory).isOk = true := by decide
  obtain ⟨_, h⟩ := Except.exists_of_isOk hok
  obtain ⟨⟨_, s₁⟩, h₁, h⟩ := Except.bind_eq_ok.1 h
  obtain ⟨⟨_, s₂⟩, h₂, h⟩ := Except.bind_eq_ok.1 h
  obtain ⟨s₃, h₃, h⟩ := Except.bind_eq_ok.1 h
  obtain ⟨⟨_, s₄⟩, h₄, h⟩ := Except.bind_eq_ok.1 h
  obtain ⟨s₅, h₅, h⟩ := Except.bind_eq_ok.1 h
  split at h
  case isFalse => cases h
  case isTrue hs =>
    obtain ⟨hready, hn₄, hn₅, hhead, hnext⟩ := hs
    let t : Nat → Threads := fun i => [⟨emptySched, [], []⟩, ⟨s₁, [0x3000], []⟩, ⟨s₂, [0x6000, 0x3000], []⟩,
      ⟨s₃, [0x6000, 0x3000], []⟩, ⟨s₄, [0x6000, 0x3000].erase s₃.curProc, [s₃.curProc]⟩].getD i
      ⟨s₅, [0x6000, 0x3000].erase s₃.curProc, [s₃.curProc]⟩
    let e : Nat → Event Nat := fun i => [.quiet, .quiet, .cycle s₃.nextProc, .take s₄.nextProc].getD i
      (.cycle s₅.nextProc)
    have hrun : DispatchRun st t e 5 := by
      refine ⟨⟨fun _ => rfl, rfl, rfl, rfl⟩, ⟨rfl, rfl⟩, fun i hi => ?_⟩
      match i, hi with
      | 0, _ => exact .createKthread (by decide) (by decide) (by decide) (by decide) h₁
      | 1, _ => exact .createKthread (by decide) (by decide) (by decide) (by decide) h₂
      | 2, _ => exact .run hready h₃
      | 3, _ => exact .exit h₄
      | 4, _ => exact .yield h₅
    refine ⟨t, e, hrun, congrArg some hn₄, congrArg some hn₅, (fairDispatch_iff hrun).2 ?_⟩
    -- the only exit is the fourth call
    intro i j hij hj htake _ _ x hx
    match i, (show i < 4 by omega) with
    | 0, _ => cases htake
    | 1, _ => cases htake
    | 2, _ => cases htake
    | 3, _ =>
      obtain ⟨-, k, rfl⟩ := hx
      have hfix : s₄.next^[k] 0x6000 = 0x6000 := Function.iterate_fixed hnext k
      show some s₄.nextProc = some (s₄.next^[k] (s₄.head 0x100))
      rw [hhead, hfix, hn₄]

/-- Three threads; the first one exits, and the second one, dispatched then, is dispatched again when it
yields, while the third one has been on the ready queue all the time. -/
theorem not_fairDispatch_after_exit :
    let st : ProcStatics := ⟨0x100, 0x200, 0x300, by decide, by decide, by decide⟩
    ∃ t e, DispatchRun st t e 6 ∧ ¬ FairDispatch st t e 6 := by
  intro st
  have hok : (procCreateKthread st 0x1000 0x2000 0x3000 emptySched >>= fun r =>
      procCreateKthread st 0x4000 0x5000 0x6000 r.2 >>= fun r =>
      procCreateKthread st 0x7000 0x8000 0x9000 r.2 >>= fun r₃ => procRun st 0x10 r₃.2 >>= fun s =>
      kexit st 0x30 s >>= fun r => yield st 0x40 r.2 >>= fun s' =>
      if r₃.2.head 0x100 ≠ 0 ∧ r.2.nextProc = 0x6000 ∧ s'.nextProc = 0x6000 ∧ r.2.head 0x100 = 0x6000 ∧
        r.2.next 0x6000 = 0x9000 then .ok () else .error .outOfMemory).isOk = true := by decide
  obtain ⟨_, h⟩ := Except.exists_of_isOk hok
  obtain ⟨⟨_, s₁⟩, h₁, h⟩ := Except.bind_eq_ok.1 h
  obtain ⟨⟨_, s₂⟩, h₂, h⟩ := Except.bind_eq_ok.1 h
  obtain ⟨⟨_, s₃⟩, h₃, h⟩ := Except.bind_eq_ok.1 h
  obtain ⟨s₄, h₄, h⟩ := Except.bind_eq_ok.1 h
  obtain ⟨⟨_, s₅⟩, h₅, h⟩ := Except.bind_eq_ok.1 h
  obtain ⟨s₆, h₆, h⟩ := Except.bind_eq_ok.1 h
  split at h
  case isFalse => cases h
  case isTrue hs =>
    obtain ⟨hready, hn₅, hn₆, hhead, hnext⟩ := hs
    let t : Nat → Threads := fun i => [⟨emptySched, [], []⟩, ⟨s₁, [0x3000], []⟩, ⟨s₂, [0x6000, 0x3000], []⟩,
      ⟨s₃, [0x9000, 0x6000, 0x3000], []⟩, ⟨s₄, [0x9000, 0x6000, 0x3000], []⟩,
      ⟨s₅, [0x9000, 0x6000, 0x3000].erase s₄.curProc, [s₄.curProc]⟩].getD i
      ⟨s₆, [0x9000, 0x6000, 0x3000].erase s₄.curProc, [s₄.curProc]⟩
    let e : Nat → Event Nat := fun i => [.quiet, .quiet, .quiet, .cycle s₄.nextProc,
      .take s₅.nextProc].getD i (.cycle s₆.nextProc)
    have hrun : DispatchRun st t e 6 := by
      refine ⟨⟨fun _ => rfl, rfl, rfl, rfl⟩, ⟨rfl, rfl⟩, fun i hi => ?_⟩
      match i, hi with
      | 0, _ => exact .createKthread (by decide) (by decide) (by decide) (by decide) h₁
      | 1, _ => exact .createKthread (by decide) (by decide) (by decide) (by decide) h₂
      | 2, _ => exact .createKthread (by decide) (by decide) (by decide) (by decide) h₃
      | 3, _ => exact .run hready h₄
      | 4, _ => exact .exit h₅
      | 5, _ => exact .yield h₆
    refine ⟨t, e, hrun, fun hfair => ?_⟩
    obtain ⟨k, hk₄, hk₅, -⟩ := hfair 4 5 0x9000 0x6000 (by decide) (by decide) (congrArg some hn₅)
      (congrArg some hn₆) (by omega) (by decide) fun k h₄ h₅ => by
        obtain rfl : k = 5 := by omega
        exact ⟨show s₅.head 0x100 ≠ 0 by rw [hhead]; decide, 1, show s₅.next (s₅.head 0x100) = _ by
          rw [hhead, hnext]⟩
    omega

end BanjOS
