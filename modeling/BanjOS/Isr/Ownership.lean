import BanjOS.Isr.Activations
import Mathlib.Data.List.Pairwise

/-!
# Whose stack a context points into

An interrupt between the store of the stack pointer in the context and the store to `cur_proc` saves the
context of the thread that has been left, with a stack pointer that may already be the next thread's. In a run
without such interrupts every context points into the stack of its thread (`ownsContexts`): either a thread
runs, and it and all others can be resumed (`Runs`), or the machine is between two threads, and all of them
are saved (`Between`).
-/

namespace BanjOS

open X86

/-! ## Entering the handler -/

section
variable {E : SwitchEnv} {callee : IsrCall → Cpu → Cpu} {m c c' : Cpu} {v : Fin 256} {threads : List Kthread}

/-- The machine in which `irq_handler` is entered, on an interruption of `m`: `top` is where the processor
starts to push. -/
structure HandlerFrame (E : SwitchEnv) (m : Cpu) (top : Word) (c : Cpu) : Prop where
  rsp : c.reg .rsp = top - 120#64
  ret : c.mem (c.reg .rsp) = E.prog.addr 9
  var : c.var = m.var
  act : ∀ a, frameAct c.mem (top - 192#64) 9 a = actOf m
  mem : ∀ b, (∀ i < 15, top - 120#64 + BitVec.ofNat 64 (8 * i) ≠ b) → c.mem b = m.mem b

/-- Entering the handler. -/
theorem EntersHandler.handlerFrame (h : EntersHandler E.isr callee m v 0#64 c) (hv : pushesErrorCode v = false) :
    HandlerFrame E m ((enterGate E.isr m v).reg .rsp) c := by
  obtain ⟨s, hexec, hs, hmem⟩ := exec_isrNoErrStub E.isr callee m hv 0#64
  obtain rfl := h.eq hexec
  have hscratch : savedScratch m v = m.reg := savedScratch_eq_iff.2 (.inl hv)
  have hstack := hs.stack
  rw [hscratch] at hstack
  have hrsp := hs.rsp
  generalize (enterGate E.isr m v).reg .rsp = top at hrsp
  have hpush : ∀ b, b ≠ s.reg .rsp - 8#64 → (handlerEntry E.isr s).mem b = s.mem b := fun b hb =>
    Function.update_of_ne hb ..
  have hword : ∀ i < 14, (handlerEntry E.isr s).mem (top - 192#64 + BitVec.ofNat 64 (8 * (i + 10))) =
      s.mem (s.reg .rsp + BitVec.ofNat 64 (8 * i)) := by
    intro i hi
    rw [hpush _ (by bv_omega)]
    congr 1
    bv_omega
  have hwords := words_iff.1 hstack
  refine ⟨?_, ?_, hs.var, fun a => ?_, fun b hb => ?_⟩
  · rw [handlerEntry_rsp, hrsp]
    bv_omega
  · simp [handlerEntry, Machine.push]
  · have hrcx := (hword 7 (by omega)).trans (hwords 7 (show 7 < 14 by omega))
    have hrax := (hword 8 (by omega)).trans (hwords 8 (show 8 < 14 by omega))
    have hrip := (hword 9 (by omega)).trans (hwords 9 (show 9 < 14 by omega))
    have hflags := (hword 11 (by omega)).trans (hwords 11 (show 11 < 14 by omega))
    have hsp := (hword 12 (by omega)).trans (hwords 12 (show 12 < 14 by omega))
    show Act.mk _ _ _ _ _ = Act.mk _ _ _ _ _
    exact congr (congr (congr (congr (congrArg Act.mk hrip) hsp) hrax) hrcx) hflags
  · have hne : b ≠ s.reg .rsp - 8#64 := fun hc => hb 0 (by omega) (by rw [hc]; bv_omega)
    refine (hpush b hne).trans (hmem b fun i hi hc => hb (i + 1) (by omega) ?_)
    rw [← hc]
    bv_omega

/-- The machine when a handler has returned. -/
theorem HandlerFrame.returned {top : Word} (h : HandlerFrame E m top c) (hret : Returns threads c c') :
    c'.rip = E.prog.addr 9 ∧ c'.reg .rsp = top - 112#64 ∧
      ∀ a, frameAct c'.mem (top - 192#64) 9 a = actOf m := by
  have hword : ∀ i < 14, c'.mem (top - 192#64 + BitVec.ofNat 64 (8 * (i + 10))) =
      c.mem (top - 192#64 + BitVec.ofNat 64 (8 * (i + 10))) := by
    intro i hi
    have := hret.conv.frame i hi
    rw [h.rsp] at this
    have haddr : top - 120#64 + 8#64 + BitVec.ofNat 64 (8 * i) =
        top - 192#64 + BitVec.ofNat 64 (8 * (i + 10)) := by bv_omega
    rwa [haddr] at this
  refine ⟨hret.conv.rip.trans h.ret, ?_, fun a => ?_⟩
  · rw [hret.conv.rsp, h.rsp]
    bv_omega
  · have hrcx := hword 7 (by omega)
    have hrax := hword 8 (by omega)
    have hrip := hword 9 (by omega)
    have hflags := hword 11 (by omega)
    have hsp := hword 12 (by omega)
    rw [← h.act a]
    show Act.mk _ _ _ _ _ = Act.mk _ _ _ _ _
    exact congr (congr (congr (congr (congrArg Act.mk hrip) hsp) hrax) hrcx) hflags

end

/-! ## Memory of the threads -/

/-- The memory of the threads does not overlap. -/
structure LaidOut (E : SwitchEnv) (threads : List Kthread) : Prop where
  apart : threads.Pairwise Kthread.Apart
  ex : ∀ t ∈ threads, ∀ a, E.exRange.Has a → ¬ t.Uses a

instance Kthread.symmApart : Std.Symm Kthread.Apart := ⟨fun _ _ h a hu ht => h a ht hu⟩

section
variable {E : SwitchEnv} {S : SwitchSystem} {threads : List Kthread} {t u : Kthread} {r : StackRange}
  {a sp sp' : Word} {mem mem' mem'' : Word → Word}

/-- Two threads that share a word are the same. -/
theorem LaidOut.eq (h : LaidOut E threads) (ht : t ∈ threads) (hu : u ∈ threads) (hta : t.Uses a)
    (hua : u.Uses a) : t = u := by
  by_contra hne
  exact h.apart.forall ht hu hne a hta hua

/-- A thread is listed once. -/
theorem LaidOut.nodup (h : LaidOut E threads) : threads.Nodup :=
  h.apart.imp fun {t _} hapart hc => hapart t.node (.inl rfl) (.inl (congrArg Kthread.node hc))

/-- A stack that has a word of a thread is the thread's. -/
theorem LaidOut.stack_eq (h : LaidOut E threads) (hr : r ∈ stacksOf E threads) (ha : r.Has a)
    (hu : u ∈ threads) (hua : u.Uses a) : r = u.stack := by
  rcases List.mem_cons.1 hr with rfl | hr
  · exact absurd hua (h.ex u hu a ha)
  · obtain ⟨t, ht, rfl⟩ := List.mem_map.1 hr
    rw [h.eq ht hu (.inr (.inr ha)) hua]

/-- Below a stack pointer there is a word of the stack. -/
theorem StackRange.Points.has (h : r.Points sp) : r.Has (sp - 1#64) := by
  have hpred : (sp - 1#64).toNat = sp.toNat - 1 := by
    have := h.1
    bv_omega
  rw [StackRange.Points] at h
  rw [StackRange.Has, hpred]
  omega

/-- A stack pointer points into one stack. -/
theorem LaidOut.points_eq (h : LaidOut E threads) (hr : r ∈ stacksOf E threads) (hsp : r.Points sp)
    (hu : u ∈ threads) (husp : u.stack.Points sp) : r = u.stack :=
  h.stack_eq hr hsp.has hu (.inr (.inr husp.has))

/-- The memory that `kexit` uses is no thread's stack. -/
theorem LaidOut.not_points (h : LaidOut E threads) (hsp : E.exRange.Points sp) (hu : u ∈ threads) :
    ¬ u.stack.Points sp := fun husp => h.ex u hu _ hsp.has (.inr (.inr husp.has))

/-- Words below the stack pointer of a stack may change. -/
theorem LaidOut.keepsThreads (h : LaidOut E threads) (hr : r ∈ stacksOf E threads) (hsp : r.Points sp)
    (hmem : ∀ b, ¬ (r.Has b ∧ b.toNat < sp.toNat) → mem' b = mem b) : KeepsThreads threads sp mem mem' where
  node t ht := by
    refine hmem _ fun hc => ?_
    have hown := h.stack_eq hr hc.1 ht (.inl rfl)
    exact t.node_off (hown ▸ hc.1)
  ctx t ht := by
    refine hmem _ fun hc => ?_
    have hown := h.stack_eq hr hc.1 ht (.inr (.inl rfl))
    exact t.ctx_off (hown ▸ hc.1)
  stack t ht a ha hle := by
    refine hmem _ fun hc => ?_
    have hown := h.stack_eq hr hc.1 ht (.inr (.inr ha))
    have := hle (hown ▸ hsp)
    omega

theorem KeepsThreads.trans (h : KeepsThreads threads sp mem mem') (h' : KeepsThreads threads sp' mem' mem'')
    (hsp : ∀ t ∈ threads, t.stack.Points sp' → t.stack.Points sp ∧ sp'.toNat ≤ sp.toNat) :
    KeepsThreads threads sp mem mem'' where
  node t ht := (h'.node t ht).trans (h.node t ht)
  ctx t ht := (h'.ctx t ht).trans (h.ctx t ht)
  stack t ht a ha hle := by
    refine (h'.stack t ht a ha fun hp => ?_).trans (h.stack t ht a ha hle)
    obtain ⟨hp', hlt⟩ := hsp t ht hp
    exact hlt.trans (hle hp')

/-- A thread stays saved when only the free part of the stacks changes. -/
theorem Saved.keep (h : Saved E mem u) (hk : KeepsThreads threads sp mem mem') (hu : u ∈ threads)
    (hsp : u.stack.Points sp → sp.toNat ≤ (mem u.ctx).toNat) : Saved E mem' u := by
  rw [Saved, hk.ctx u hu]
  exact Resumes.congr h fun b hb hhas => hk.stack u hu b hhas fun hp => (hsp hp).trans hb

/-- What an interrupt leaves alone, up to the return of its handler. -/
theorem HandlerFrame.keeps {m c c' : Cpu} {top : Word} (h : HandlerFrame E m top c) (hl : LaidOut E threads)
    (hr : r ∈ stacksOf E threads) (hlo : r.lo + 216 ≤ sp.toNat) (hhi : sp.toNat ≤ r.hi)
    (htop : top = sp &&& ~~~15#64) (hret : Returns threads c c') : KeepsThreads threads sp m.mem c'.mem := by
  have hnat := toNat_and_not_15 sp
  rw [← htop] at hnat
  have hpoints : r.Points sp := ⟨by omega, hhi⟩
  have hrsp : (c.reg .rsp).toNat = top.toNat - 120 := by
    rw [h.rsp]
    bv_omega
  refine (hl.keepsThreads hr hpoints fun b hb => h.mem b fun i hi hc => hb ?_).trans hret.keeps
    fun t ht hp => ?_
  · have hword : b.toNat = top.toNat - 120 + 8 * i := by
      rw [← hc]
      bv_omega
    rw [StackRange.Has]
    omega
  · have hown : r = t.stack := hl.points_eq hr ⟨by omega, by omega⟩ ht hp
    exact ⟨hown ▸ hpoints, by omega⟩

/-- A stack has no node or context of a thread in it. -/
theorem LaidOut.off (h : LaidOut E threads) (ht : t ∈ threads) (hu : u ∈ threads) :
    ¬ t.stack.Has u.node ∧ ¬ t.stack.Has u.ctx := by
  refine ⟨fun hc => ?_, fun hc => ?_⟩
  · have heq := h.eq ht hu (.inr (.inr hc)) (.inl rfl)
    exact t.node_off (heq ▸ hc)
  · have heq := h.eq ht hu (.inr (.inr hc)) (.inr (.inl rfl))
    exact t.ctx_off (heq ▸ hc)

/-- Only the stack of one thread changes. -/
theorem LaidOut.keepsOthers (h : LaidOut E threads) (ht : t ∈ threads)
    (hmem : ∀ b, ¬ t.stack.Has b → mem' b = mem b) : KeepsOthers threads t mem mem' where
  node _ hu := hmem _ (h.off ht hu).1
  ctx _ hu := hmem _ (h.off ht hu).2
  stack _ hu hne a ha := hmem a fun hc => hne (h.eq hu ht (.inr (.inr ha)) (.inr (.inr hc)))

/-- The free part of the stack of one thread changes. -/
theorem KeepsThreads.keepsOthers (hk : KeepsThreads threads sp mem mem') (h : LaidOut E threads)
    (ht : t ∈ threads) (hsp : t.stack.Points sp) : KeepsOthers threads t mem mem' where
  node := hk.node
  ctx := hk.ctx
  stack u hu hne a ha := by
    refine hk.stack u hu a ha fun hp => absurd ?_ hne
    have hmem : u.stack ∈ stacksOf E threads := .tail _ (List.mem_map_of_mem hu)
    have hown := h.points_eq hmem hp ht hsp
    exact h.eq hu ht (.inr (.inr ha)) (.inr (.inr (hown ▸ ha)))

/-- A context is no node. -/
theorem LaidOut.node_ne (h : LaidOut E threads) (hu : u ∈ threads) (ht : t ∈ threads) : u.node ≠ t.ctx := by
  intro hc
  have heq := h.eq hu ht (.inl hc.symm) (.inr (.inl rfl))
  exact t.ctx_ne (heq ▸ hc.symm)

/-- Two threads have different contexts. -/
theorem LaidOut.ctx_ne (h : LaidOut E threads) (hu : u ∈ threads) (ht : t ∈ threads) (hne : u ≠ t) :
    u.ctx ≠ t.ctx := fun hc => hne (h.eq hu ht (.inr (.inl hc.symm)) (.inr (.inl rfl)))

/-- A thread stays saved when the context of another one changes. -/
theorem Saved.keepCtx (h : Saved E mem u) (hl : LaidOut E threads) (hu : u ∈ threads) (ht : t ∈ threads)
    (hne : u ≠ t) (hmem : ∀ b, b ≠ t.ctx → mem' b = mem b) : Saved E mem' u := by
  rw [Saved, hmem _ (hl.ctx_ne hu ht hne)]
  exact Resumes.congr h fun b _ hb => hmem b fun hc => (hl.off hu ht).2 (hc ▸ hb)

theorem Saved.keepOthers (h : Saved E mem u) (hk : KeepsOthers threads t mem mem') (hu : u ∈ threads)
    (hne : u ≠ t) : Saved E mem' u := by
  rw [Saved, hk.ctx u hu]
  exact Resumes.congr h fun b _ hhas => hk.stack u hu hne b hhas

end

/-! ## Invariant -/

/-- What always holds. -/
structure SwitchBase (E : SwitchEnv) (S : SwitchSystem) : Prop where
  laidOut : LaidOut E S.threads
  exRoom : E.exRange.lo + 216 ≤ E.exRange.hi
  source : E.source ∈ S.threads
  node : ∀ t ∈ S.threads, S.cpu.mem t.node = t.ctx
  next : S.nextProc = 0#64 ∨ S.Selects S.nextProc
  owns : OwnsContexts E S

/-- The thread `t` is running. -/
structure Runs (E : SwitchEnv) (S : SwitchSystem) (t : Kthread) : Prop where
  mem : t ∈ S.threads
  cur : S.curProc = t.node
  resumes : Resumes E S.cpu.mem t (actOf S.cpu)
  saved : ∀ u ∈ S.threads, u ≠ t → Saved E S.cpu.mem u

/-- What the path relies on at a position between two threads. It comes to the positions before
`no_cur_proc` only when a thread has ended. -/
def SwitchFact (S : SwitchSystem) (p : Nat) : Prop :=
  match p with
  | 9 => S.curProc = 0#64
  | 10 | 13 => S.curProc = 0#64 ∧ S.cpu.reg .rax = 0#64
  | 11 => S.curProc = 0#64 ∧ S.cpu.reg .rax = 0#64 ∧ S.cpu.reg .rcx = S.nextProc
  | 12 => S.curProc = 0#64 ∧ S.cpu.reg .rax = 0#64 ∧ zf S.cpu.rflags = false
  | 14 => S.curProc = 0#64 ∧ zf S.cpu.rflags = true
  | 36 | 67 => True
  | 37 => S.cpu.reg .rax = S.nextProc
  | 38 => zf S.cpu.rflags = (S.nextProc == 0#64)
  | 39 | 68 => S.Selects S.nextProc
  | 40 => S.Selects (S.cpu.reg .rax)
  | 41 => ∃ t ∈ S.threads, S.cpu.reg .rax = t.node ∧ S.cpu.reg .rcx = t.ctx
  | 42 => ∃ t ∈ S.threads, S.cpu.reg .rax = t.node ∧ S.cpu.reg .rsp = S.cpu.mem t.ctx
  | _ => False

/-- The machine is between two threads, and can use the stack below its stack pointer. -/
structure Between (E : SwitchEnv) (S : SwitchSystem) (p : Nat) : Prop where
  rip : S.cpu.rip = E.prog.addr p
  saved : ∀ u ∈ S.threads, Saved E S.cpu.mem u
  selected : S.curProc = 0#64 → S.Selects S.nextProc
  room : ∃ r ∈ stacksOf E S.threads, r.lo + 8 < (S.cpu.reg .rsp).toNat ∧ (S.cpu.reg .rsp).toNat ≤ r.hi
  free : ∀ u ∈ S.threads, u.stack.Points (S.cpu.reg .rsp) →
    (S.cpu.reg .rsp).toNat ≤ (S.cpu.mem u.ctx).toNat
  fact : SwitchFact S p

/-- The invariant. -/
def SwitchInv (E : SwitchEnv) (S : SwitchSystem) : Prop :=
  SwitchBase E S ∧ ((∃ t, Runs E S t) ∨ ∃ p, Between E S p)

section
variable {E : SwitchEnv} {S : SwitchSystem} {cpu' : Cpu} {t u : Kthread} {p q : Nat}

/-- What always holds depends on the nodes, the contexts and `next_proc`. -/
theorem SwitchBase.keep (h : SwitchBase E S) (hnode : ∀ u ∈ S.threads, cpu'.mem u.node = S.cpu.mem u.node)
    (hctx : ∀ u ∈ S.threads, cpu'.mem u.ctx = S.cpu.mem u.ctx)
    (hnext : cpu'.var .nextProc = 0#64 ∨ S.Selects (cpu'.var .nextProc)) :
    SwitchBase E { S with cpu := cpu' } where
  laidOut := h.laidOut
  exRoom := h.exRoom
  source := h.source
  node u hu := (hnode u hu).trans (h.node u hu)
  next := hnext
  owns u hu := by
    have := h.owns u hu
    rwa [← hctx u hu] at this

/-- A thread goes on, and changes its own stack only. -/
theorem Runs.keep (h : Runs E S t) (hbase : SwitchBase E S) (hk : KeepsOthers S.threads t S.cpu.mem cpu'.mem)
    (hcur : cpu'.var .curProc = t.node)
    (hnext : cpu'.var .nextProc = 0#64 ∨ S.Selects (cpu'.var .nextProc))
    (hres : Resumes E cpu'.mem t (actOf cpu')) : SwitchInv E { S with cpu := cpu' } :=
  ⟨hbase.keep hk.node hk.ctx hnext, .inl ⟨t, h.mem, hcur, hres, fun u hu hne =>
    (h.saved u hu hne).keepOthers hk hu hne⟩⟩

/-- What the context of a saved thread points to. -/
theorem Saved.inv {mem : Word → Word} (h : Saved E mem t) : t.stack.lo + 8 < (mem t.ctx).toNat ∧
    (mem t.ctx).toNat + 192 ≤ (mem (mem t.ctx + 176#64)).toNat ∧
    ∀ a : Act, Resumes E mem t (frameAct mem (mem t.ctx) 43 a) := by
  have hcode : isrCode[43]? = some (Instr.op (.pop .rbp)) := rfl
  generalize hact : Act.mk (E.prog.addr 43) (mem t.ctx) 0#64 0#64 0#64 = a at h
  rw [Saved, hact] at h
  cases h with
  | code hnone =>
    rw [← hact, Program.pos_addr _ (by omega)] at hnone
    cases hnone
  | @path _ p base hp hrip hrsp _ hlo hhi hframe =>
    rw [← hact] at hrip hrsp hframe
    have hp43 : p = 43 := by
      have hpos := congrArg E.prog.pos hrip
      have hlt := hp.lt
      rw [Program.pos_addr _ (by omega), Program.pos_addr _ (by omega)] at hpos
      exact hpos.symm
    subst hp43
    have hbase : mem t.ctx = base := by simpa [show level 43 = 0 by decide] using hrsp
    rw [hbase]
    exact ⟨hlo, hhi, fun _ => hframe⟩

/-- The context of a saved thread points into its stack. -/
theorem Saved.has {mem : Word → Word} (h : Saved E mem t) : t.stack.Has (mem t.ctx) := by
  obtain ⟨hlo, hhi, hframe⟩ := h.inv
  have hpoints : (mem (mem t.ctx + 176#64)).toNat ≤ t.stack.hi := (hframe ⟨0#64, 0#64, 0#64, 0#64, 0#64⟩).points.2
  exact ⟨by omega, by omega⟩

/-- A thread stores its stack pointer. -/
theorem Runs.store (h : Runs E S t) (hbase : SwitchBase E S) (hs : Stores E t S.cpu cpu') :
    SwitchInv E { S with cpu := cpu' } := by
  have hlaid := hbase.laidOut
  have hsaved : ∀ u ∈ S.threads, Saved E cpu'.mem u := by
    intro u hu
    by_cases hne : u = t
    · rw [hne]
      exact hs.saved
    · exact (h.saved u hu hne).keepCtx hlaid hu h.mem hne hs.mem
  have hhas := hs.saved.has
  rw [hs.ctx] at hhas
  have hstack : t.stack ∈ stacksOf E S.threads := .tail _ (List.mem_map_of_mem h.mem)
  refine ⟨⟨hlaid, hbase.exRoom, hbase.source, fun u hu => ?_, ?_, fun u hu => .inl (hsaved u hu).has⟩,
    .inr ⟨36, hs.rip, hsaved, fun hc => ?_, ⟨t.stack, hstack, hs.lo, hhas.2.le⟩, fun u hu hp => ?_, trivial⟩⟩
  · exact (hs.mem _ (hlaid.node_ne hu h.mem)).trans (hbase.node u hu)
  · show cpu'.var .nextProc = 0#64 ∨ S.Selects (cpu'.var .nextProc)
    rw [hs.var]
    exact hbase.next
  · have hcur : cpu'.var .curProc = t.node := by
      rw [hs.var]
      exact h.cur
    exact absurd (hcur.symm.trans hc) t.node_ne
  · have hlo := hs.lo
    have hpoints : t.stack.Points (cpu'.reg .rsp) := ⟨by omega, hhas.2.le⟩
    have hown := hlaid.points_eq hstack hpoints hu hp
    have heq : u = t := hlaid.eq hu h.mem (.inr (.inr (hown ▸ hhas))) (.inr (.inr hhas))
    show (cpu'.reg .rsp).toNat ≤ (cpu'.mem u.ctx).toNat
    rw [heq, hs.ctx]

/-- An instruction of the running thread's path. -/
theorem Runs.instr {callee : IsrCall → Cpu → Cpu} {calls : List (IsrCall × Cpu)} (h : Runs E S t)
    (hbase : SwitchBase E S) (hstep : E.prog.step callee S.cpu = some (calls, cpu')) :
    SwitchInv E { S with cpu := cpu' } := by
  rcases h.resumes.onPath with hnone | ⟨p, base, hpath⟩
  · rw [Program.step, hnone] at hstep
    cases hstep
  · obtain ⟨-, hs | hs⟩ := hpath.step h.cur (hbase.node t h.mem) hstep
    · refine h.keep hbase (hbase.laidOut.keepsOthers h.mem hs.mem) ?_ ?_ hs.resumes
      · rw [hs.var]
        exact h.cur
      · rw [hs.var]
        exact hbase.next
    · exact h.store hbase hs

/-- The end of the running thread's path. -/
theorem Runs.iretq (h : Runs E S t) (hbase : SwitchBase E S) (hret : E.prog.fetch S.cpu = some .iretq) :
    SwitchInv E { S with cpu := S.cpu.iretq } := by
  rcases h.resumes.onPath with hnone | ⟨p, base, hpath⟩
  · rw [hnone] at hret
    cases hret
  · exact h.keep hbase ⟨fun _ _ => rfl, fun _ _ => rfl, fun _ _ _ _ _ => rfl⟩ h.cur hbase.next
      (hpath.iretq hret)

/-! ## Interrupts -/

/-- A running thread is interrupted. -/
theorem Runs.interrupt {callee : IsrCall → Cpu → Cpu} {c c' : Cpu} {v : Fin 256} (h : Runs E S t)
    (hbase : SwitchBase E S) (hroom : HasRoom E S) (hist : E.isr.istStack v = none)
    (hv : pushesErrorCode v = false) (henter : EntersHandler E.isr callee S.cpu v 0#64 c)
    (hh : Handles S.threads c c') : SwitchInv E { S with cpu := c' } := by
  obtain ⟨r, hr, hlo, hhi⟩ := hroom
  have hframe := henter.handlerFrame hv
  have htop := enterGate_rsp_of_none E.isr S.cpu v hist
  have hnat := toNat_and_not_15 (S.cpu.reg .rsp)
  have hpoints := h.resumes.points
  have hown : r = t.stack := hbase.laidOut.points_eq hr ⟨by omega, hhi⟩ h.mem hpoints
  have hkeeps := hframe.keeps hbase.laidOut hr hlo hhi htop hh.toReturns
  obtain ⟨hrip, hrsp, hact⟩ := hframe.returned hh.toReturns
  rw [← htop] at hnat
  generalize (enterGate E.isr S.cpu v).reg .rsp = top at hnat hrsp hact
  have hsp : c'.mem (top - 192#64 + 176#64) = S.cpu.reg .rsp := congrArg Act.rsp (hact (actOf c'))
  refine h.keep hbase (hkeeps.keepsOthers hbase.laidOut h.mem hpoints) ?_ ?_ ?_
  · rw [hh.var, hframe.var]
    exact h.cur
  · rw [hh.var, hframe.var]
    exact hbase.next
  · have hpath : OnPath E t c' 9 (top - 192#64) := by
      refine ⟨.inl (by omega), hrip, ?_, trivial, ?_, ?_, ?_⟩
      · rw [hrsp]
        simp only [show level 9 = 10 by decide]
        bv_omega
      · rw [← hown]
        bv_omega
      · rw [hsp]
        bv_omega
      · rw [hact]
        exact h.resumes.congr fun b hb hhas => hkeeps.stack t h.mem b hhas fun _ => hb
    exact hpath.resumes

/-- After a handler that was entered between two threads, or for the end of a thread: `sp` is where the stack
was free. -/
theorem HandlerFrame.between {m c c' : Cpu} {top sp : Word} {r : StackRange} {threads : List Kthread}
    (hframe : HandlerFrame E m top c) (hl : LaidOut E threads) (hr : r ∈ stacksOf E threads)
    (hlo : r.lo + 216 ≤ sp.toNat) (hhi : sp.toNat ≤ r.hi) (htop : top = sp &&& ~~~15#64)
    (hret : Returns threads c c') (hsaved : ∀ u ∈ threads, Saved E m.mem u)
    (hfree : ∀ u ∈ threads, u.stack.Points sp → sp.toNat ≤ (m.mem u.ctx).toNat)
    (hcur : c'.var .curProc = 0#64) (hnext : ∃ u ∈ threads, c'.var .nextProc = u.node) :
    Between E ⟨c', threads⟩ 9 := by
  have hkeeps := hframe.keeps hl hr hlo hhi htop hret
  obtain ⟨hrip, hrsp, -⟩ := hframe.returned hret
  have hnat := toNat_and_not_15 sp
  rw [← htop] at hnat
  have hrsp' : (c'.reg .rsp).toNat = top.toNat - 112 := by
    rw [hrsp]
    bv_omega
  refine ⟨hrip, fun u hu => (hsaved u hu).keep hkeeps hu (hfree u hu), fun _ => hnext,
    ⟨r, hr, ?_, ?_⟩, fun u hu hp => ?_, hcur⟩
  · show r.lo + 8 < (c'.reg .rsp).toNat
    omega
  · show (c'.reg .rsp).toNat ≤ r.hi
    omega
  · have hp' : u.stack.Points (c'.reg .rsp) := hp
    have hown := hl.points_eq hr ⟨by omega, by omega⟩ hu hp'
    have hsp := hfree u hu (hown ▸ ⟨by omega, hhi⟩)
    show (c'.reg .rsp).toNat ≤ (c'.mem u.ctx).toNat
    rw [hkeeps.ctx u hu]
    omega

/-- The machine is interrupted on its way from a thread that has ended. -/
theorem Between.interrupt {callee : IsrCall → Cpu → Cpu} {c c' : Cpu} {v : Fin 256} (h : Between E S p)
    (hbase : SwitchBase E S) (hcur : S.curProc = 0#64) (hroom : HasRoom E S)
    (hist : E.isr.istStack v = none) (hv : pushesErrorCode v = false)
    (henter : EntersHandler E.isr callee S.cpu v 0#64 c) (hh : Handles S.threads c c') :
    SwitchInv E { S with cpu := c' } := by
  obtain ⟨r, hr, hlo, hhi⟩ := hroom
  have hframe := henter.handlerFrame hv
  have htop := enterGate_rsp_of_none E.isr S.cpu v hist
  have hkeeps := hframe.keeps hbase.laidOut hr hlo hhi htop hh.toReturns
  have hvar : c'.var = S.cpu.var := hh.var.trans hframe.var
  refine ⟨hbase.keep hkeeps.node hkeeps.ctx ?_, .inr ⟨9, hframe.between hbase.laidOut hr hlo hhi htop
    hh.toReturns h.saved h.free ?_ ?_⟩⟩
  · rw [hvar]
    exact hbase.next
  · rw [hvar]
    exact hcur
  · rw [hvar]
    exact h.selected hcur

/-- A thread ends. -/
theorem Runs.exit {callee : IsrCall → Cpu → Cpu} {c c' : Cpu} (h : Runs E S t) (hbase : SwitchBase E S)
    (hsource : t ≠ E.source) (henter : EntersHandler E.isr callee S.cpu 0x81 0#64 c)
    (hh : HandlesExit (S.threads.erase t) c c') : SwitchInv E ⟨c', S.threads.erase t⟩ := by
  have hlaid : LaidOut E (S.threads.erase t) :=
    ⟨hbase.laidOut.apart.sublist List.erase_sublist, fun u hu => hbase.laidOut.ex u (List.mem_of_mem_erase hu)⟩
  have hne : ∀ u ∈ S.threads.erase t, u ≠ t := fun u hu => (hbase.laidOut.nodup.mem_erase_iff.1 hu).1
  have hframe := henter.handlerFrame (v := 0x81) (by decide)
  have hist : E.isr.istStack 0x81 = some E.isr.exStack := by simp [IsrEnv.istStack]
  have htop := enterGate_rsp_of_ist E.isr S.cpu 0x81 hist
  have hlo : E.exRange.lo + 216 ≤ E.isr.exStack.toNat := by
    rw [← E.exRange_hi]
    exact hbase.exRoom
  have hpoints : E.exRange.Points E.isr.exStack := ⟨by omega, E.exRange_hi.symm.le⟩
  have hkeeps := hframe.keeps hlaid (.head _) hlo hpoints.2 htop hh.toReturns
  refine ⟨⟨hlaid, hbase.exRoom, (List.mem_erase_of_ne hsource.symm).2 hbase.source, fun u hu => ?_,
    .inr hh.nextProc, fun u hu => ?_⟩, .inr ⟨9, hframe.between hlaid (.head _) hlo hpoints.2 htop hh.toReturns
    (fun u hu => h.saved u (List.mem_of_mem_erase hu) (hne u hu))
    (fun u hu hp => absurd hp (hlaid.not_points hpoints hu)) hh.curProc hh.nextProc⟩⟩
  · exact (hkeeps.node u hu).trans (hbase.node u (List.mem_of_mem_erase hu))
  · have := hbase.owns u (List.mem_of_mem_erase hu)
    rwa [← hkeeps.ctx u hu] at this

end

end BanjOS
