import BanjOS.Basic
import BanjOS.Lib.Ring
import BanjOS.Lib.Run

/-!
# The process queues

The scheduler of `processes.c` and the context switch at the end of `isr_no_err`
(`isr_handler.asm`). Threads are nodes of circular doubly linked lists: the ready queue `avail_procs`
and the queues threads wait on. `Queues s L` says that every queue `q` is a well-formed ring whose
nodes, from the head on, are `L q`, and that no node is on two queues; the spec lemmas say what
`unlink_proc`, `append_proc` and `cycle_next_proc` do to the lists.

Page 0 is never mapped (`initPageTable_identity`), so a field of the null pointer cannot be accessed:
the kernel halts in `page_fault_handler`.
-/

namespace BanjOS

/-! ## State -/

/-- `struct ProcContext`. -/
structure ProcContext where
  rsp : Nat
  pid : Nat
  frame : Nat

/-- `struct ProcNode`. -/
structure ProcNode where
  context : Nat
  next : Nat
  prev : Nat

/-- The nodes, contexts and queue heads by address, and the variables of `processes.c`. -/
structure Sched where
  nodes : Nat → ProcNode
  contexts : Nat → ProcContext
  head : Nat → Nat
  curProc : Nat
  nextProc : Nat
  pidCount : Nat

/-- The addresses of the static objects of `processes.c`. -/
structure ProcStatics where
  availProcs : Nat
  sourceProc : Nat
  sourceProcCtx : Nat
  availProcs_ne : availProcs ≠ 0
  sourceProc_ne : sourceProc ≠ 0
  sourceProcCtx_ne : sourceProcCtx ≠ 0

/-- Some addresses for the objects of `processes.c`. -/
def someProcStatics : ProcStatics := ⟨0x10, 0x60, 0x70, by decide, by decide, by decide⟩

/-- The scheduler before any thread is created. -/
def emptySched : Sched := ⟨fun _ => ⟨0, 0, 0⟩, fun _ => ⟨0, 0, 0⟩, fun _ => 0, 0, 0, 0⟩

namespace Sched

/-- The `next` field of a node. -/
def next (s : Sched) (node : Nat) : Nat := (s.nodes node).next

/-- The `prev` field of a node. -/
def prev (s : Sched) (node : Nat) : Nat := (s.nodes node).prev

/-- Write the `next` field of a node. -/
def setNext (s : Sched) (node v : Nat) : Sched :=
  { s with nodes := Function.update s.nodes node { s.nodes node with next := v } }

/-- Write the `prev` field of a node. -/
def setPrev (s : Sched) (node v : Nat) : Sched :=
  { s with nodes := Function.update s.nodes node { s.nodes node with prev := v } }

/-- Write the head of a queue. -/
def setHead (s : Sched) (queue v : Nat) : Sched := { s with head := Function.update s.head queue v }

section
variable (s : Sched) (n v : Nat)

@[simp] theorem setNext_next : (s.setNext n v).next = Function.update s.next n v :=
  funext fun m => Function.apply_update (fun _ => ProcNode.next) s.nodes n _ m

@[simp] theorem setNext_prev : (s.setNext n v).prev = s.prev := by
  funext m
  exact (Function.apply_update (fun _ => ProcNode.prev) s.nodes n _ m).trans
    (congrFun (Function.update_eq_self n s.prev) m)

@[simp] theorem setPrev_prev : (s.setPrev n v).prev = Function.update s.prev n v :=
  funext fun m => Function.apply_update (fun _ => ProcNode.prev) s.nodes n _ m

@[simp] theorem setPrev_next : (s.setPrev n v).next = s.next := by
  funext m
  exact (Function.apply_update (fun _ => ProcNode.next) s.nodes n _ m).trans
    (congrFun (Function.update_eq_self n s.next) m)

@[simp] theorem setHead_next : (s.setHead n v).next = s.next := rfl

@[simp] theorem setHead_prev : (s.setHead n v).prev = s.prev := rfl

@[simp] theorem setNext_head : (s.setNext n v).head = s.head := rfl

@[simp] theorem setPrev_head : (s.setPrev n v).head = s.head := rfl

@[simp] theorem setHead_head : (s.setHead n v).head = Function.update s.head n v := rfl

end

end Sched

/-! ## Pointers -/

/-- Access a field at the offset `off` of the object at `p`. -/
def deref (p off : Nat) : Except Stop Unit := if p = 0 then .error (.notAvailable off) else .ok ()

/-- `node->next`. -/
def loadNext (node : Nat) (s : Sched) : Except Stop Nat := do
  deref node 8
  .ok (s.next node)

/-- `node->prev`. -/
def loadPrev (node : Nat) (s : Sched) : Except Stop Nat := do
  deref node 16
  .ok (s.prev node)

/-- `node->next = v`. -/
def storeNext (node v : Nat) (s : Sched) : Except Stop Sched := do
  deref node 8
  .ok (s.setNext node v)

/-- `node->prev = v`. -/
def storePrev (node v : Nat) (s : Sched) : Except Stop Sched := do
  deref node 16
  .ok (s.setPrev node v)

/-- `queue->head`. -/
def loadHead (queue : Nat) (s : Sched) : Except Stop Nat := do
  deref queue 0
  .ok (s.head queue)

/-- `queue->head = v`. -/
def storeHead (queue v : Nat) (s : Sched) : Except Stop Sched := do
  deref queue 0
  .ok (s.setHead queue v)

section
variable {p : Nat} (hp : p ≠ 0) (v : Nat) (s : Sched)

include hp

theorem deref_eq (off : Nat) : deref p off = .ok () := if_neg hp

theorem loadNext_eq : loadNext p s = .ok (s.next p) := by
  rw [loadNext, deref_eq hp]
  rfl

theorem loadPrev_eq : loadPrev p s = .ok (s.prev p) := by
  rw [loadPrev, deref_eq hp]
  rfl

theorem storeNext_eq : storeNext p v s = .ok (s.setNext p v) := by
  rw [storeNext, deref_eq hp]
  rfl

theorem storePrev_eq : storePrev p v s = .ok (s.setPrev p v) := by
  rw [storePrev, deref_eq hp]
  rfl

theorem loadHead_eq : loadHead p s = .ok (s.head p) := by
  rw [loadHead, deref_eq hp]
  rfl

theorem storeHead_eq : storeHead p v s = .ok (s.setHead p v) := by
  rw [storeHead, deref_eq hp]
  rfl

end

/-! ## Queue operations -/

/-- `cycle_next_proc`: the head, and the queue turned by one. -/
def cycleNextProc (queue : Nat) (s : Sched) : Except Stop (Nat × Sched) := do
  let node ← loadHead queue s
  if node ≠ 0 then do
    let next ← loadNext node s
    let s ← storeHead queue next s
    .ok (node, s)
  else .ok (0, s)

/-- `unlink_proc`. It trusts its caller that `node` is on `queue`. -/
def unlinkProc (node queue : Nat) (s : Sched) : Except Stop Sched := do
  let prev ← loadPrev node s
  if node ≠ prev then do
    let next ← loadNext node s
    let s ← storeNext prev next s
    let next ← loadNext node s
    let prev ← loadPrev node s
    let s ← storePrev next prev s
    let head ← loadHead queue s
    if node = head then do
      let next ← loadNext node s
      storeHead queue next s
    else .ok s
  else storeHead queue 0 s

/-- `append_proc`: link `node` in before the head. -/
def appendProc (node queue : Nat) (s : Sched) : Except Stop Sched := do
  let head ← loadHead queue s
  if head ≠ 0 then do
    let last ← loadPrev head s
    let s ← storePrev node last s
    let head ← loadHead queue s
    let s ← storeNext node head s
    let prev ← loadPrev node s
    let s ← storeNext prev node s
    let next ← loadNext node s
    storePrev next node s
  else do
    let s ← storeNext node node s
    let s ← storePrev node node s
    storeHead queue node s

/-! ## Scheduler -/

/-- `PROC_STACK_SIZE`. -/
abbrev procStackSize : Nat := 8192

/-- `sizeof(struct InitalProcFrame)`: 25 words. -/
abbrev initialFrameSize : Nat := 200

section
variable (st : ProcStatics)

/-- `PROC_reschedule`. -/
def procReschedule (s : Sched) : Except Stop Sched := do
  let (node, s) ← cycleNextProc st.availProcs s
  .ok { s with nextProc := node }

/-- `PROC_resume_source`. -/
def procResumeSource (s : Sched) : Sched := { s with nextProc := st.sourceProc }

/-- Save the stack pointer in the context of the running thread, if there is one. -/
def saveContext (rsp : Nat) (s : Sched) : Except Stop Sched :=
  if s.curProc = 0 then .ok s
  else do
    let ctx := (s.nodes s.curProc).context
    deref ctx 0
    .ok { s with contexts := Function.update s.contexts ctx { s.contexts ctx with rsp } }

/-- The end of `isr_no_err`, after the handler of the interrupt: if `next_proc` is not the running
thread, save the stack pointer `rsp` and switch to it, or to the source if there is no next one. -/
def contextSwitch (rsp : Nat) (s : Sched) : Except Stop Sched :=
  if s.curProc = s.nextProc then .ok s
  else do
    let s ← saveContext rsp s
    let s := if s.nextProc = 0 then procResumeSource st s else s
    deref (s.nodes s.nextProc).context 0
    .ok { s with curProc := s.nextProc }

/-- `yield`. -/
def yield (rsp : Nat) (s : Sched) : Except Stop Sched := do
  let s ← procReschedule st s
  contextSwitch st rsp s

/-- `PROC_block_on`, for either value of `enable_ints`. -/
def procBlockOn (queue rsp : Nat) (s : Sched) : Except Stop Sched :=
  if queue = 0 then .ok s
  else do
    let s ← unlinkProc s.curProc st.availProcs s
    let s ← appendProc s.curProc queue s
    yield st rsp s

/-- `PROC_unblock_head`. -/
def procUnblockHead (queue : Nat) (s : Sched) : Except Stop Sched := do
  let node ← loadHead queue s
  if node = 0 then .error (.assertion "node != NULL && \"Cannot unblock null head\"")
  else do
    let s ← unlinkProc node queue s
    appendProc node st.availProcs s

/-- At most `fuel` tests of the loop of `PROC_unblock_all`; `none` if it needs more. -/
def procUnblockAll (queue : Nat) : (fuel : Nat) → Sched → Option (Except Stop Sched)
  | 0, _ => none
  | fuel + 1, s =>
    match loadHead queue s with
    | .error e => some (.error e)
    | .ok head =>
      if head ≠ 0 then
        match procUnblockHead st queue s with
        | .error e => some (.error e)
        | .ok s => procUnblockAll queue fuel s
      else some (.ok s)

/-- `kexit_handler`, with the pointers it gives to `kfree`. -/
def kexitHandler (s : Sched) : Except Stop (List Nat × Sched) := do
  let s ← unlinkProc s.curProc st.availProcs s
  let node := s.curProc
  let ctx := (s.nodes node).context
  deref ctx 16
  let freed := [(s.contexts ctx).frame, ctx, node]
  let s := { s with curProc := 0 }
  let head ← loadHead st.availProcs s
  if head = 0 then .ok (freed, procResumeSource st s) else .ok (freed, { s with nextProc := head })

/-- `kexit`: `kexit_handler` and the switch after it. -/
def kexit (rsp : Nat) (s : Sched) : Except Stop (List Nat × Sched) := do
  let (freed, s) ← kexitHandler st s
  let s ← contextSwitch st rsp s
  .ok (freed, s)

/-- `PROC_run`, up to the switch to the first thread. -/
def procRun (rsp : Nat) (s : Sched) : Except Stop Sched :=
  if s.head st.availProcs ≠ 0 then do
    let s := { s with
      contexts := Function.update s.contexts st.sourceProcCtx ⟨0, 0, 0⟩
      nodes := Function.update s.nodes st.sourceProc ⟨st.sourceProcCtx, 0, 0⟩
      curProc := st.sourceProc }
    let s ← procReschedule st s
    contextSwitch st rsp s
  else .ok s

/-- `PROC_create_kthread`, with the addresses its three calls of `kmalloc` return. The contents of the
new stack are not part of the state. -/
def procCreateKthread (ctx frame node : Nat) (s : Sched) : Except Stop (Nat × Sched) := do
  let pid := s.pidCount
  let s := { s with
    contexts := Function.update s.contexts ctx ⟨frame + procStackSize - initialFrameSize, pid, frame⟩
    pidCount := (pid + 1) % 2 ^ 64
    nodes := Function.update s.nodes node { s.nodes node with context := ctx } }
  let s ← appendProc node st.availProcs s
  .ok (pid, s)

end

/-! ## Well-formed queues -/

/-- The queue `q` is a ring whose nodes, from the head on, are `l`. -/
structure IsQueue (s : Sched) (q : Nat) (l : List Nat) : Prop where
  head_eq : s.head q = l.headD 0
  ring : IsRing s.next s.prev l
  ne_zero : 0 ∉ l

/-- Every queue `q` holds the nodes `L q`, and no node is on two queues. -/
structure Queues (s : Sched) (L : Nat → List Nat) : Prop where
  queue : ∀ q, IsQueue s q (L q)
  disjoint : ∀ q q' n, n ∈ L q → n ∈ L q' → q = q'

/-- The thread `n` is on the queue `q`: it is reached from the head along `next`. -/
def OnQueue (s : Sched) (q n : Nat) : Prop := s.head q ≠ 0 ∧ ∃ k, s.next^[k] (s.head q) = n

/-- What the queue operations leave alone: the variables, the contexts, and every node that is not
`on` a queue. -/
structure SchedFrame (on : Nat → Prop) (s s' : Sched) : Prop where
  curProc : s'.curProc = s.curProc
  nextProc : s'.nextProc = s.nextProc
  contexts : s'.contexts = s.contexts
  context : ∀ m, (s'.nodes m).context = (s.nodes m).context
  off : ∀ m, ¬ on m → s'.nodes m = s.nodes m

section
variable {s s' s'' : Sched} {L : Nat → List Nat} {q n v : Nat} {l : List Nat} {on on' : Nat → Prop}

theorem SchedFrame.refl (s : Sched) : SchedFrame on s s := ⟨rfl, rfl, rfl, fun _ => rfl, fun _ _ => rfl⟩

theorem SchedFrame.trans (h : SchedFrame on s s') (h' : SchedFrame on' s' s'')
    (hon : ∀ m, on' m → on m) : SchedFrame on s s'' where
  curProc := h'.curProc.trans h.curProc
  nextProc := h'.nextProc.trans h.nextProc
  contexts := h'.contexts.trans h.contexts
  context m := (h'.context m).trans (h.context m)
  off m hm := (h'.off m fun hc => hm (hon m hc)).trans (h.off m hm)

/-- A node gets other links. -/
theorem SchedFrame.setLinks (hn : on n) {node : ProcNode} (hcontext : node.context = (s.nodes n).context) :
    SchedFrame on s { s with nodes := Function.update s.nodes n node } := by
  refine ⟨rfl, rfl, rfl, fun m => ?_, fun m hm => ?_⟩
  · refine (Function.apply_update (fun _ => ProcNode.context) s.nodes n node m).trans ?_
    rw [hcontext]
    exact congrFun (Function.update_eq_self n fun m => (s.nodes m).context) m
  · have hne : m ≠ n := fun hc => hm (hc ▸ hn)
    exact Function.update_of_ne hne ..

theorem SchedFrame.setNext (hn : on n) : SchedFrame on s (s.setNext n v) := .setLinks hn rfl

theorem SchedFrame.setPrev (hn : on n) : SchedFrame on s (s.setPrev n v) := .setLinks hn rfl

theorem SchedFrame.setHead : SchedFrame on s (s.setHead q v) :=
  ⟨rfl, rfl, rfl, fun _ => rfl, fun _ _ => rfl⟩

/-- The nodes of a queue are not null. -/
theorem Queues.ne_zero (h : Queues s L) (hn : n ∈ L q) : n ≠ 0 :=
  fun hc => (h.queue q).ne_zero (hc ▸ hn)

/-- The head of a queue that is not empty. -/
theorem Queues.head_cons (h : Queues s L) {w : List Nat} (hl : L q = n :: w) : s.head q = n := by
  rw [(h.queue q).head_eq, hl, List.headD_cons]

/-- A queue is empty iff its head is null. -/
theorem Queues.head_eq_zero (h : Queues s L) : s.head q = 0 ↔ L q = [] := by
  cases hl : L q with
  | nil =>
    rw [(h.queue q).head_eq, hl]
    simp
  | cons n w =>
    have hn : n ∈ L q := hl ▸ .head _
    rw [h.head_cons hl]
    simp [h.ne_zero hn]

/-- The threads on a queue are those in its list. -/
theorem Queues.onQueue_iff (h : Queues s L) : OnQueue s q n ↔ n ∈ L q := by
  rw [OnQueue]
  cases hl : L q with
  | nil => simp [h.head_eq_zero.2 hl]
  | cons x w =>
    have hring := (h.queue q).ring
    have hx : x ≠ 0 := h.ne_zero (hl ▸ List.Mem.head w)
    rw [hl] at hring
    rw [h.head_cons hl, hring.mem_iff_iterate, and_iff_right hx]

/-- A node of a queue is on no other one. -/
theorem Queues.not_mem (h : Queues s L) (hn : n ∈ L q) {q' : Nat} (hq : q' ≠ q) : n ∉ L q' :=
  fun hn' => hq (h.disjoint q' q n hn' hn)

/-- One queue changes; the pointers of the nodes of the others stay. -/
theorem Queues.update (h : Queues s L) (hq : IsQueue s' q l)
    (hnew : ∀ n ∈ l, ∀ q', q' ≠ q → n ∉ L q')
    (hother : ∀ q', q' ≠ q → s'.head q' = s.head q' ∧
      ∀ n ∈ L q', s'.next n = s.next n ∧ s'.prev n = s.prev n) :
    Queues s' (Function.update L q l) where
  queue q' := by
    by_cases hqq : q' = q
    · subst hqq
      rwa [Function.update_self]
    · rw [Function.update_of_ne hqq]
      obtain ⟨hhead, hnodes⟩ := hother q' hqq
      have hq' := h.queue q'
      exact ⟨hhead.trans hq'.head_eq, hq'.ring.congr (fun n hn => (hnodes n hn).1)
        fun n hn => (hnodes n hn).2, hq'.ne_zero⟩
  disjoint q₁ q₂ n h₁ h₂ := by
    by_cases hq₁ : q₁ = q
    · by_cases hq₂ : q₂ = q
      · rw [hq₁, hq₂]
      · subst hq₁
        rw [Function.update_self] at h₁
        rw [Function.update_of_ne hq₂] at h₂
        exact absurd h₂ (hnew n h₁ q₂ hq₂)
    · rw [Function.update_of_ne hq₁] at h₁
      by_cases hq₂ : q₂ = q
      · subst hq₂
        rw [Function.update_self] at h₂
        exact absurd h₁ (hnew n h₂ q₁ hq₁)
      · rw [Function.update_of_ne hq₂] at h₂
        exact h.disjoint q₁ q₂ n h₁ h₂

/-- What an operation on the queue `q` leaves alone: the nodes that are not `on` it and the heads of the other
queues. -/
structure QueueFrame (q : Nat) (on : Nat → Prop) (s s' : Sched) : Prop extends SchedFrame on s s' where
  head : ∀ q', q' ≠ q → s'.head q' = s.head q'

/-- A queue that has nothing to do with the operation stays what it is. -/
theorem QueueFrame.isQueue (hf : QueueFrame q on s s') {q' : Nat} (h : IsQueue s q' l) (hq : q' ≠ q)
    (hoff : ∀ m ∈ l, ¬ on m) : IsQueue s' q' l where
  head_eq := (hf.head q' hq).trans h.head_eq
  ring := h.ring.congr (fun m hm => congrArg ProcNode.next (hf.off m (hoff m hm)))
    fun m hm => congrArg ProcNode.prev (hf.off m (hoff m hm))
  ne_zero := h.ne_zero

/-- So the other queues stay what they are when one of them changes. -/
theorem Queues.edit (h : Queues s L) (hf : QueueFrame q on s s') (hq : IsQueue s' q l)
    (hnew : ∀ n ∈ l, ∀ q', q' ≠ q → n ∉ L q') (hoff : ∀ q', q' ≠ q → ∀ m ∈ L q', ¬ on m) :
    Queues s' (Function.update L q l) :=
  h.update hq hnew fun q' hq' => ⟨hf.head q' hq', fun m hm =>
    ⟨congrArg ProcNode.next (hf.off m (hoff q' hq' m hm)), congrArg ProcNode.prev (hf.off m (hoff q' hq' m hm))⟩⟩

/-- The head of a queue that is not empty. -/
theorem IsQueue.head_cons {w : List Nat} (h : IsQueue s q (n :: w)) : s.head q = n := h.head_eq

theorem IsQueue.mem_ne_zero (h : IsQueue s q l) (hn : n ∈ l) : n ≠ 0 := fun hc => h.ne_zero (hc ▸ hn)

/-! ## What the operations do to a queue -/

/-- `cycle_next_proc` returns the head and turns the queue by one. -/
theorem IsQueue.cycleNextProc (h : IsQueue s q l) (hq : q ≠ 0) :
    ∃ s', cycleNextProc q s = .ok (l.headD 0, s') ∧ IsQueue s' q (l.rotate 1) ∧
      QueueFrame q (fun _ => False) s s' := by
  cases l with
  | nil =>
    have hhead : s.head q = 0 := h.head_eq
    refine ⟨s, ?_, h, .refl s, fun _ _ => rfl⟩
    simp [BanjOS.cycleNextProc, loadHead_eq hq, hhead]
  | cons n w =>
    have hn0 : n ≠ 0 := h.mem_ne_zero (.head w)
    have hrot : IsRing s.next s.prev (w ++ [n]) := IsRing.rotate (u := [n]) h.ring
    refine ⟨s.setHead q (s.next n), ?_, ?_, .setHead, fun _ hq' => Function.update_of_ne hq' ..⟩
    · simp [BanjOS.cycleNextProc, loadHead_eq hq, h.head_cons, hn0, loadNext_eq hn0, storeHead_eq hq]
    · rw [List.rotate_cons_succ, List.rotate_zero]
      refine ⟨?_, hrot, fun h0 => h.ne_zero (by simpa [or_comm] using h0)⟩
      rw [List.headD_eq_head?_getD, h.ring.next_head]
      exact Function.update_self ..

/-- The node between its neighbours is linked out. -/
def Sched.bypass (s : Sched) (n : Nat) : Sched :=
  (s.setNext (s.prev n) (s.next n)).setPrev (s.next n) (s.prev n)

/-- `unlink_proc` of a node that has neighbours. -/
theorem unlinkProc_eq (hq : q ≠ 0) (hn : n ≠ 0) (hnext : s.next n ≠ 0) (hprev : s.prev n ≠ 0)
    (hself : s.prev n ≠ n) : unlinkProc n q s =
      .ok (if n = s.head q then (s.bypass n).setHead q (s.next n) else s.bypass n) := by
  have hkeep : (s.setNext (s.prev n) (s.next n)).next n = s.next n := by
    rw [Sched.setNext_next, Function.update_of_ne hself.symm]
  simp only [unlinkProc, loadPrev_eq hn, Except.ok_bind, if_pos hself.symm, loadNext_eq hn,
    storeNext_eq hprev, hkeep, Sched.setNext_prev, storePrev_eq hnext, loadHead_eq hq,
    Sched.setPrev_head, Sched.setNext_head, Sched.setPrev_next, storeHead_eq hq, Sched.bypass]
  split <;> rfl

/-- `unlink_proc` takes a node off the queue it is on. -/
theorem IsQueue.unlinkProc (h : IsQueue s q l) (hq : q ≠ 0) (hn : n ∈ l) :
    ∃ s', unlinkProc n q s = .ok s' ∧ IsQueue s' q (l.erase n) ∧ QueueFrame q (· ∈ l) s s' := by
  obtain ⟨hnext, hprev, -, -⟩ := h.ring.inverse hn
  have hn0 := h.mem_ne_zero hn
  have hzero : 0 ∉ l.erase n := fun h0 => h.ne_zero (List.mem_of_mem_erase h0)
  by_cases hself : s.prev n = n
  case pos =>
    obtain rfl := (h.ring.prev_eq_self hn).1 hself
    refine ⟨s.setHead q 0, ?_, ?_, .setHead, fun _ hq' => Function.update_of_ne hq' ..⟩
    · simp [BanjOS.unlinkProc, loadPrev_eq hn0, hself, storeHead_eq hq]
    · rw [List.erase_cons_head]
      exact ⟨Function.update_self .., .nil, nofun⟩
  case neg =>
    have hne : l ≠ [n] := fun hl => hself ((h.ring.prev_eq_self hn).2 hl)
    have hring : IsRing (s.bypass n).next (s.bypass n).prev (l.erase n) := by
      simpa [Sched.bypass] using h.ring.unlink hn hne
    have hframe : SchedFrame (· ∈ l) s (s.bypass n) :=
      (SchedFrame.setNext hprev).trans (SchedFrame.setPrev hnext) fun _ => id
    obtain ⟨x, w, rfl⟩ := List.exists_cons_of_ne_nil (List.ne_nil_of_mem hn)
    refine ⟨_, unlinkProc_eq hq hn0 (h.mem_ne_zero hnext) (h.mem_ne_zero hprev) hself, ?_, ?_, ?_⟩
    · rw [h.head_cons]
      split
      case isTrue hnx =>
        subst hnx
        obtain ⟨y, w', rfl⟩ := List.exists_cons_of_ne_nil fun hw : w = [] => hne (hw ▸ rfl)
        refine ⟨?_, hring, hzero⟩
        have hhead := h.ring.next_head
        rw [List.cons_append, List.head?_cons, Option.some.injEq] at hhead
        rw [List.erase_cons_head, List.headD_cons, hhead]
        exact Function.update_self ..
      case isFalse hnx =>
        refine ⟨?_, hring, hzero⟩
        rw [List.erase_cons_tail (by simpa using fun hc => hnx hc.symm), List.headD_cons]
        exact h.head_cons
    · split
      · exact hframe.trans .setHead fun _ => id
      · exact hframe
    · intro q' hq'
      split
      · exact Function.update_of_ne hq' ..
      · rfl

/-- `append_proc` puts a node that is not on the queue at its end. -/
theorem IsQueue.appendProc (h : IsQueue s q l) (hq : q ≠ 0) (hn0 : n ≠ 0) (hn : n ∉ l) :
    ∃ s', appendProc n q s = .ok s' ∧ IsQueue s' q (l ++ [n]) ∧ QueueFrame q (fun m => m = n ∨ m ∈ l) s s' := by
  have hzero : 0 ∉ l ++ [n] := fun h0 => by
    rcases List.mem_append.1 h0 with h0 | h0
    · exact h.ne_zero h0
    · exact hn0 (List.mem_singleton.1 h0).symm
  cases l with
  | nil =>
    have hhead : s.head q = 0 := h.head_eq
    refine ⟨((s.setNext n n).setPrev n n).setHead q n, ?_, ⟨Function.update_self .., ?_, hzero⟩, ?_,
      fun _ hq' => Function.update_of_ne hq' ..⟩
    · simp [BanjOS.appendProc, loadHead_eq hq, hhead, storeNext_eq hn0, storePrev_eq hn0, storeHead_eq hq]
    · rw [List.nil_append, isRing_singleton]
      simp [Linked]
    · exact ((SchedFrame.setNext (.inl rfl)).trans (SchedFrame.setPrev (.inl rfl)) fun _ => id).trans
        .setHead fun _ => id
  | cons x w =>
    have hx : x ∈ x :: w := .head w
    have hx0 := h.mem_ne_zero hx
    obtain ⟨-, hprev, -, -⟩ := h.ring.inverse hx
    have hne : s.prev x ≠ n := fun hc => hn (hc ▸ hprev)
    refine ⟨(((s.setPrev n (s.prev x)).setNext n x).setNext (s.prev x) n).setPrev x n, ?_,
      ⟨h.head_cons, ?_, hzero⟩, ?_, fun _ _ => rfl⟩
    · simp [BanjOS.appendProc, loadHead_eq hq, h.head_cons, hx0, loadPrev_eq hx0,
        storePrev_eq hn0, storeNext_eq hn0, loadPrev_eq hn0, storeNext_eq (h.mem_ne_zero hprev),
        loadNext_eq hn0, Function.update_of_ne hne.symm, storePrev_eq hx0]
    · simpa using h.ring.append hn
    · exact (((SchedFrame.setPrev (.inl rfl)).trans (SchedFrame.setNext (.inl rfl)) fun _ => id).trans
        (SchedFrame.setNext (.inr hprev)) fun _ => id).trans (SchedFrame.setPrev (.inr hx)) fun _ => id

/-! ## What they do to all queues -/

theorem Queues.cycleNextProc (h : Queues s L) (hq : q ≠ 0) :
    ∃ s', cycleNextProc q s = .ok ((L q).headD 0, s') ∧
      Queues s' (Function.update L q ((L q).rotate 1)) ∧ SchedFrame on s s' := by
  obtain ⟨s', hok, hqueue, hframe⟩ := (h.queue q).cycleNextProc hq
  refine ⟨s', hok, h.edit hframe hqueue (fun m hm q' hq' => ?_) fun _ _ _ _ => not_false,
    (SchedFrame.refl s).trans hframe.toSchedFrame fun _ => False.elim⟩
  exact h.not_mem (List.mem_rotate.1 hm) hq'

theorem Queues.unlinkProc (h : Queues s L) (hq : q ≠ 0) (hn : n ∈ L q) :
    ∃ s', unlinkProc n q s = .ok s' ∧ Queues s' (Function.update L q ((L q).erase n)) ∧
      SchedFrame (fun m => ∃ q, m ∈ L q) s s' := by
  obtain ⟨s', hok, hqueue, hframe⟩ := (h.queue q).unlinkProc hq hn
  refine ⟨s', hok, h.edit hframe hqueue (fun m hm q' hq' => ?_) fun q' hq' m hm hm' => ?_,
    (SchedFrame.refl s).trans hframe.toSchedFrame fun m hm => ⟨q, hm⟩⟩
  · exact h.not_mem (List.mem_of_mem_erase hm) hq'
  · exact h.not_mem hm' hq' hm

theorem Queues.appendProc (h : Queues s L) (hq : q ≠ 0) (hn0 : n ≠ 0) (hn : ∀ q', n ∉ L q') :
    ∃ s', appendProc n q s = .ok s' ∧ Queues s' (Function.update L q (L q ++ [n])) ∧
      SchedFrame (fun m => m = n ∨ ∃ q, m ∈ L q) s s' := by
  obtain ⟨s', hok, hqueue, hframe⟩ := (h.queue q).appendProc hq hn0 (hn q)
  refine ⟨s', hok, h.edit hframe hqueue (fun m hm q' hq' => ?_) fun q' hq' m hm hm' => ?_,
    (SchedFrame.refl s).trans hframe.toSchedFrame fun m hm => hm.imp_right fun hm => ⟨q, hm⟩⟩
  · rcases List.mem_append.1 hm with hm | hm
    · exact h.not_mem hm hq'
    · exact List.mem_singleton.1 hm ▸ hn q'
  · rcases hm' with rfl | hm'
    · exact hn q' hm
    · exact h.not_mem hm' hq' hm

end

end BanjOS
