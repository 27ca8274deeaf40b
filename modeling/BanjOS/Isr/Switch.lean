import BanjOS.Isr.Handler

/-!
# The context switch

The save path of `isr_no_err` and the restore path of `valid_next_proc`. A thread that is switched away
from leaves its whole register file on its own stack, below the interrupt frame, and the stack pointer
in its context (`AtNoCurProc`); the restore path reads it back (`exec_restore`). The two push and pop
sequences agree except for the slots of `ds` and `gs`, which are exchanged.
-/

namespace BanjOS

open X86

/-! ## Save -/

/-- The words that the save path pushes, in this order. -/
def savedWords (m : Cpu) : List Word :=
  [m.reg .rbx, m.reg .r12, m.reg .r13, m.reg .r14, m.reg .r15,
    (m.seg .ds).setWidth 64, (m.seg .es).setWidth 64, (m.seg .fs).setWidth 64,
    (m.seg .gs).setWidth 64, m.reg .rbp]

/-- The pushes of the save path. -/
theorem execAll_saveRegs (s : Cpu) :
    (Op.execAll saveRegs s).mem = (s.pushes (savedWords s)).mem ∧
    (Op.execAll saveRegs s).reg .rsp = (s.pushes (savedWords s)).reg .rsp ∧
    (Op.execAll saveRegs s).var = s.var := by
  simp [saveRegs, savedWords, Op.exec, Machine.push, Machine.setReg, Function.update_of_ne]

/-- The words depend on the callee-saved and the data segment registers only. -/
theorem savedWords_congr {m s : Cpu} (hreg : ∀ r ∈ calleeSaved, s.reg r = m.reg r)
    (hseg : ∀ g, g ≠ .cs → s.seg g = m.seg g) : savedWords s = savedWords m := by
  simp only [savedWords, ne_eq, reduceCtorEq, not_false_eq_true, hseg]
  rw [hreg .rbx (by decide), hreg .r12 (by decide), hreg .r13 (by decide), hreg .r14 (by decide),
    hreg .r15 (by decide), hreg .rbp (by decide)]

/-- A thread's node and context are objects of their own: neither is a word of the 24 that an
interruption with a context switch writes below `top`. -/
structure ThreadLayout (top node ctx : Word) : Prop where
  node_ne : node ≠ 0#64
  ctx_ne : ctx ≠ node
  node_apart : ∀ i < 24, top - 192#64 + BitVec.ofNat 64 (8 * i) ≠ node
  ctx_apart : ∀ i < 24, top - 192#64 + BitVec.ofNat 64 (8 * i) ≠ ctx

/-- The machine at `no_cur_proc` after the interruption of `m`, a thread with the node `node` and the
context `ctx`: the registers of `m` are on its stack and the stack pointer is in the context. -/
structure AtNoCurProc (E : IsrEnv) (m : Cpu) (vector : Fin 256) (node ctx : Word) (s : Cpu) : Prop where
  rsp : s.reg .rsp = (enterGate E m vector).reg .rsp - 192#64
  stack : s.Stack ((savedWords m).reverse ++
    (scratchRegsPopped.map (savedScratch m vector) ++ (interruptFrame m).reverse))
  node : s.mem node = ctx
  ctx : s.mem ctx = s.reg .rsp

section
variable {E : IsrEnv} {callee : IsrCall → Cpu → Cpu}

variable (callee) in
/-- With another thread to switch to, the path goes on to the pushes. -/
theorem AfterHandler.startSave {m h : Cpu} {v : Fin 256} (hh : AfterHandler E m v h)
    (hcur : h.var .curProc ≠ 0#64) (hnext : h.var .curProc ≠ h.var .nextProc) :
    ∃ s, E.prog.Exec callee (E.prog.goto 9 h) [] (E.prog.goto 15 s) ∧ AfterHandler E m v s ∧
      s.mem = h.mem ∧ s.var = h.var := by
  have hload : E.prog.Exec callee (E.prog.goto 9 h) [] (E.prog.goto 12 (Op.execAll loadProcs h)) :=
    .ops (listing_isrCode (n := 3) (by omega) rfl)
  have hje : E.prog.Exec callee (E.prog.goto 12 (Op.execAll loadProcs h)) []
      (E.prog.goto 13 (Op.execAll loadProcs h)) :=
    .je_skip (l := .noCtxSwitch) (by simp [loadProcs, Op.exec, Machine.setReg, hnext])
      (listing_isrCode (n := 1) (by omega) rfl)
  have hcmp : E.prog.Exec callee (E.prog.goto 13 (Op.execAll loadProcs h)) []
      (E.prog.goto 14 (Op.execAll [.cmpImm .rax 0#64] (Op.execAll loadProcs h))) :=
    .ops (listing_isrCode (n := 1) (by omega) rfl)
  have hje' : E.prog.Exec callee
      (E.prog.goto 14 (Op.execAll [.cmpImm .rax 0#64] (Op.execAll loadProcs h))) []
      (E.prog.goto 15 (Op.execAll [.cmpImm .rax 0#64] (Op.execAll loadProcs h))) :=
    .je_skip (l := .noCurProc) (by simp [loadProcs, Op.exec, Machine.setReg, hcur])
      (listing_isrCode (n := 1) (by omega) rfl)
  refine ⟨_, hload.trans (hje.trans (hcmp.trans hje')), ⟨?_, ?_, fun r hr => ?_, hh.seg⟩, rfl, rfl⟩
  · simpa [loadProcs, Op.exec, Machine.setReg, Machine.Stack] using hh.stack
  · simpa [loadProcs, Op.exec, Machine.setReg] using hh.rsp
  · rw [Op.execAll_reg_of_notMem (by simp [Op.dest]),
      Op.execAll_reg_of_notMem (by simp [loadProcs, Op.dest, ne_of_mem_calleeSaved hr]),
      hh.saved r hr]

variable (callee) in
/-- The save path. -/
theorem AfterHandler.save {m h : Cpu} {v : Fin 256} {node ctx : Word} (hh : AfterHandler E m v h)
    (hl : ThreadLayout ((enterGate E m v).reg .rsp) node ctx) (hcur : h.var .curProc = node)
    (hnext : h.var .nextProc ≠ node) (hctx : h.mem node = ctx) :
    ∃ s, E.prog.Exec callee (E.prog.goto 9 h) [] (E.prog.goto 36 s) ∧ AtNoCurProc E m v node ctx s := by
  obtain ⟨s₁, hstart, hs₁, hmem₁, hvar₁⟩ := hh.startSave callee
    (by rw [hcur]; exact hl.node_ne) (by rw [hcur]; exact hnext.symm)
  have hsave : E.prog.Exec callee (E.prog.goto 15 s₁) [] (E.prog.goto 33 (Op.execAll saveRegs s₁)) :=
    .ops (listing_isrCode (n := 18) (by omega) rfl)
  obtain ⟨hmem, hrsp, hvar⟩ := execAll_saveRegs s₁
  rw [savedWords_congr hs₁.saved hs₁.seg] at hmem hrsp
  generalize Op.execAll saveRegs s₁ = s₂ at hsave hmem hrsp hvar
  have hstore : E.prog.Exec callee (E.prog.goto 33 s₂) [] (E.prog.goto 36 (Op.execAll storeRsp s₂)) :=
    .ops (listing_isrCode (n := 3) (by omega) rfl)
  have hsp : s₂.reg .rsp = (enterGate E m v).reg .rsp - 192#64 := by
    rw [hrsp, Machine.pushes_rsp, hs₁.rsp]
    simp only [savedWords, List.length_cons, List.length_nil]
    bv_omega
  have hnode : s₂.mem node = ctx := by
    rw [hmem, Machine.pushes_mem_of_ne, hmem₁, hctx]
    intro i hi
    rw [← hrsp, hsp]
    exact hl.node_apart i (Nat.lt_of_lt_of_le hi (by simp [savedWords]))
  have hstack : s₂.Stack ((savedWords m).reverse ++
      (scratchRegsPopped.map (savedScratch m v) ++ (interruptFrame m).reverse)) := by
    have := hs₁.stack.pushes (savedWords m) (by simp [savedWords, scratchRegsPopped, interruptFrame])
    rwa [Machine.Stack, ← hmem, ← hrsp] at this
  -- the store to the context
  have hafter : (Op.execAll storeRsp s₂).mem = Function.update s₂.mem ctx (s₂.reg .rsp) ∧
      (Op.execAll storeRsp s₂).reg .rsp = s₂.reg .rsp := by
    simp [storeRsp, Op.exec, Machine.setReg, hvar, hvar₁, hcur, hnode]
  refine ⟨_, hstart.trans (hsave.trans hstore), hafter.2.trans hsp, ?_, ?_, ?_⟩
  · rw [Machine.Stack, hafter.1, hafter.2]
    refine Words.update_of_ne hstack fun i hi => ?_
    rw [hsp]
    exact hl.ctx_apart i (Nat.lt_of_lt_of_le hi (by simp [savedWords, scratchRegsPopped, interruptFrame]))
  · rw [hafter.1, Function.update_of_ne hl.ctx_ne.symm, hnode]
  · rw [hafter.1, hafter.2, Function.update_self]

/-! ## Restore -/

/-- What the restore path makes of the registers of `m`: the selectors of `ds` and `gs` are popped in
each other's place. -/
structure Restored (m s : Cpu) : Prop where
  saved : ∀ r ∈ calleeSaved, s.reg r = m.reg r
  ds : s.seg .ds = m.seg .gs
  es : s.seg .es = m.seg .es
  fs : s.seg .fs = m.seg .fs
  gs : s.seg .gs = m.seg .ds

/-- The pops of the restore path. -/
theorem execAll_restoreRegs {m s : Cpu} {l : List Word} (h : s.Stack ((savedWords m).reverse ++ l)) :
    (Op.execAll restoreRegs s).Stack l ∧ Restored m (Op.execAll restoreRegs s) := by
  simp only [Machine.Stack, savedWords, List.reverse_cons, List.reverse_nil, List.nil_append,
    List.cons_append, words_cons, BitVec.add_assoc, BitVec.reduceAdd] at h
  obtain ⟨hrbp, hgs, hfs, hes, hds, hr15, hr14, hr13, hr12, hrbx, hl⟩ := h
  refine ⟨?_, fun r hr => ?_, ?_, ?_, ?_, ?_⟩
  · simpa [restoreRegs, Op.exec, Machine.pop, Machine.setReg, Machine.Stack, BitVec.add_assoc] using hl
  · simp only [calleeSaved, List.mem_cons, List.not_mem_nil, or_false] at hr
    obtain rfl | rfl | rfl | rfl | rfl | rfl := hr <;>
      simp [restoreRegs, Op.exec, Machine.pop, Machine.setReg, BitVec.add_assoc, *]
  all_goals simp [restoreRegs, Op.exec, Machine.pop, Machine.setReg, BitVec.add_assoc, *]

variable (E) (callee) in
/-- `no_cur_proc` and `valid_next_proc`, with a thread in `next_proc`: its stack is taken from its context,
its registers from the stack, and nothing is written but `cur_proc`. -/
theorem exec_validNextProc {m w : Cpu} {node ctx sp : Word} {l : List Word} (hnext : w.var .nextProc = node)
    (hne : node ≠ 0#64) (hnode : w.mem node = ctx) (hctx : w.mem ctx = sp)
    (hstack : Words w.mem sp ((savedWords m).reverse ++ l)) :
    ∃ s : Cpu, E.prog.Exec callee (E.prog.goto 36 w) [] (E.prog.goto 57 s) ∧ s.Stack l ∧ Restored m s ∧
      s.mem = w.mem := by
  have htest : E.prog.Exec callee (E.prog.goto 36 w) [] (E.prog.goto 38 (Op.execAll testNextProc w)) :=
    .ops (listing_isrCode (n := 2) (by omega) rfl)
  have hje : E.prog.Exec callee (E.prog.goto 38 (Op.execAll testNextProc w)) []
      (E.prog.goto 39 (Op.execAll testNextProc w)) :=
    .je_skip (l := .invalidNextProc) (by simp [testNextProc, Op.exec, Machine.setReg, hnext, hne])
      (listing_isrCode (n := 1) (by omega) rfl)
  have hload : E.prog.Exec callee (E.prog.goto 39 (Op.execAll testNextProc w)) []
      (E.prog.goto 43 (Op.execAll loadRsp (Op.execAll testNextProc w))) :=
    .ops (listing_isrCode (n := 4) (by omega) rfl)
  have hmem : (Op.execAll loadRsp (Op.execAll testNextProc w)).mem = w.mem := rfl
  generalize hs₁ : Op.execAll loadRsp (Op.execAll testNextProc w) = s₁ at hload hmem
  have hstack₁ : s₁.Stack ((savedWords m).reverse ++ l) := by
    simpa [← hs₁, loadRsp, testNextProc, Op.exec, Machine.setReg, Machine.Stack, hnext, hnode, hctx]
      using hstack
  have hpops : E.prog.Exec callee (E.prog.goto 43 s₁) [] (E.prog.goto 57 (Op.execAll restoreRegs s₁)) :=
    .ops (listing_isrCode (n := 14) (by omega) rfl)
  obtain ⟨hstack₂, hrest⟩ := execAll_restoreRegs hstack₁
  exact ⟨_, htest.trans (hje.trans (hload.trans hpops)), hstack₂, hrest, hmem⟩

variable (E) (callee) in
/-- The restore path, from `no_cur_proc` on: the next thread continues where `m` was interrupted. -/
theorem exec_restore {m w : Cpu} {f : Reg → Word} {node ctx sp : Word} (hnext : w.var .nextProc = node)
    (hne : node ≠ 0#64) (hnode : w.mem node = ctx) (hctx : w.mem ctx = sp)
    (hstack : Words w.mem sp ((savedWords m).reverse ++
      (scratchRegsPopped.map f ++ (interruptFrame m).reverse))) :
    ∃ s : Cpu, E.prog.Exec callee (E.prog.goto 36 w) [] s ∧ E.prog.fetch s = some .iretq ∧
      s.iretq.rip = m.rip ∧ s.iretq.rflags = m.rflags ∧ s.iretq.reg .rsp = m.reg .rsp ∧
      (∀ r ∈ scratchRegs, s.iretq.reg r = f r) ∧ Restored m s.iretq := by
  obtain ⟨s₂, hpops, hstack₂, hrest, -⟩ := exec_validNextProc E callee hnext hne hnode hctx hstack
  obtain ⟨s, hret, hfetch, hrip, hflags, hrsp, hscratch, hsaved, hseg⟩ := exec_noCtxSwitch hstack₂
  refine ⟨s, hpops.trans hret, hfetch, hrip, hflags, hrsp,
    hscratch, fun r hr => (hsaved r hr).trans (hrest.saved r hr), ?_, ?_, ?_, ?_⟩
  · rw [hseg _ (by decide) (by decide), hrest.ds]
  · rw [hseg _ (by decide) (by decide), hrest.es]
  · rw [hseg _ (by decide) (by decide), hrest.fs]
  · rw [hseg _ (by decide) (by decide), hrest.gs]

/-! ## Round trip -/

/-- What `irq_handler` does when the interruption of the thread `m` ends in a switch to another one: it
follows the calling convention and returns with the thread as `cur_proc` and another node, or none, as
`next_proc`. -/
structure SwitchesFrom (E : IsrEnv) (callee : IsrCall → Cpu → Cpu) (m : Cpu) (vector : Fin 256)
    (e node ctx : Word) : Prop where
  conv : ∀ c, EntersHandler E callee m vector e c → SysV c (callee .irqHandler c)
  curProc : ∀ c, EntersHandler E callee m vector e c → (callee .irqHandler c).var .curProc = node
  nextProc : ∀ c, EntersHandler E callee m vector e c → (callee .irqHandler c).var .nextProc ≠ node
  context : ∀ c, EntersHandler E callee m vector e c → (callee .irqHandler c).mem node = ctx

/-- The activity of other threads from `s` to `w` leaves a thread alone that was switched away from in
`s`: its node, its context and what it has on its stack. -/
structure LeavesAlone (node ctx : Word) (s w : Cpu) : Prop where
  node : w.mem node = s.mem node
  ctx : w.mem ctx = s.mem ctx
  stack : ∀ i < 24, w.mem (s.reg .rsp + BitVec.ofNat 64 (8 * i)) =
    s.mem (s.reg .rsp + BitVec.ofNat 64 (8 * i))

/-- Switching to `next_proc` in `w` gives the general-purpose registers and the data selectors of
`m`. -/
def SwitchesBack (E : IsrEnv) (callee : IsrCall → Cpu → Cpu) (m w : Cpu) : Prop :=
  ∃ s : Cpu, E.prog.Exec callee (E.prog.goto (isrTarget .noCurProc) w) [] s ∧
    E.prog.fetch s = some .iretq ∧ s.iretq.reg = m.reg ∧
    ∀ g ∈ [Seg.ds, .es, .fs, .gs], s.iretq.seg g = m.seg g

/-- Switching away from a thread, through the whole save path. -/
theorem SwitchesFrom.exec {m : Cpu} {v : Fin 256} {e node ctx : Word}
    (hh : SwitchesFrom E callee m v e node ctx)
    (hl : ThreadLayout ((enterGate E m v).reg .rsp) node ctx) :
    ∃ c s, E.prog.Exec callee (interrupt E m v e) [(.irqHandler, c)]
        (E.prog.goto (isrTarget .noCurProc) s) ∧ AtNoCurProc E m v node ctx s := by
  obtain ⟨s₀, hstub, hs₀⟩ := exec_isrStub E callee m v e
  have hcall := hstub.trans (exec_call E callee s₀)
  have henter : EntersHandler E callee m v e (handlerEntry E s₀) := ⟨_, hcall⟩
  obtain ⟨hgoto, hafter⟩ := hs₀.ret (hh.conv _ henter)
  rw [hgoto] at hcall
  obtain ⟨s, hsave, hs⟩ := hafter.save callee hl (hh.curProc _ henter) (hh.nextProc _ henter)
    (hh.context _ henter)
  exact ⟨_, s, hcall.trans hsave, hs⟩

variable (callee) in
/-- Switching back to the thread. -/
theorem AtNoCurProc.back {m s w : Cpu} {v : Fin 256} {node ctx : Word}
    (hs : AtNoCurProc E m v node ctx s) (hne : node ≠ 0#64) (hw : LeavesAlone node ctx s w)
    (hnext : w.var .nextProc = node) :
    ∃ s' : Cpu, E.prog.Exec callee (E.prog.goto (isrTarget .noCurProc) w) [] s' ∧
      E.prog.fetch s' = some .iretq ∧ s'.iretq.reg = savedScratch m v ∧ Restored m s'.iretq := by
  obtain ⟨s', hexec, hret, -, -, hrsp, hscratch, hrest⟩ := exec_restore E callee
    hnext hne (hw.node.trans hs.node) (hw.ctx.trans hs.ctx) (hs.stack.congr hw.stack)
  refine ⟨s', hexec, hret, funext fun r => ?_, hrest⟩
  obtain rfl | hr | hr := reg_cases r
  · rw [hrsp, savedScratch_of_notMem (by decide)]
  · exact hscratch r hr
  · rw [hrest.saved r hr, savedScratch_of_notMem (notMem_scratchRegs hr)]

/-- Switching away from a thread and back, whatever other threads do in between as long as they leave
its stack and context alone, gives it back all its registers iff it had the same selector in `ds` and
`gs` and (on an interruption with an error code) the same value in `r10` and `r11`. -/
theorem switch_roundTrip_iff (E : IsrEnv) (callee : IsrCall → Cpu → Cpu) (m : Cpu) (v : Fin 256)
    (e node ctx : Word) (hl : ThreadLayout ((enterGate E m v).reg .rsp) node ctx)
    (hh : SwitchesFrom E callee m v e node ctx) :
    ∃ c s, E.prog.Exec callee (interrupt E m v e) [(.irqHandler, c)]
        (E.prog.goto (isrTarget .noCurProc) s) ∧
      ∀ w : Cpu, LeavesAlone node ctx s w → w.var .nextProc = node →
        (SwitchesBack E callee m w ↔ m.seg .ds = m.seg .gs ∧
          (pushesErrorCode v = false ∨ m.reg .r10 = m.reg .r11)) := by
  obtain ⟨c, s, haway, hs⟩ := hh.exec hl
  refine ⟨c, s, haway, fun w hw hnext => ?_⟩
  obtain ⟨s', hexec, hret, hreg, hrest⟩ := hs.back callee hl.node_ne hw hnext
  constructor
  · rintro ⟨s'', hexec', hret', hreg', hseg'⟩
    obtain ⟨-, rfl⟩ := hexec.deterministic (Program.step_iretq hret) hexec' (Program.step_iretq hret')
    refine ⟨?_, savedScratch_eq_iff.1 (hreg.symm.trans hreg')⟩
    rw [← hseg' .ds (by simp), hrest.ds]
  · rintro ⟨hds, hr⟩
    refine ⟨s', hexec, hret, hreg.trans (savedScratch_eq_iff.2 hr), ?_⟩
    simp [hrest.ds, hrest.es, hrest.fs, hrest.gs, hds]

/-- A handler that returns at once, with another thread as `next_proc`. -/
def selectOther (_ : IsrCall) (c : Cpu) : Cpu :=
  { c with
    rip := c.mem (c.reg .rsp)
    reg := Function.update c.reg .rsp (c.reg .rsp + 8#64)
    var := fun x => if x = .curProc then 0x400000#64 else 0x500000#64 }

theorem sysV_selectOther (f : IsrCall) (c : Cpu) : SysV c (selectOther f c) where
  rip := rfl
  rsp := by simp [selectOther]
  reg _ hr := Function.update_of_ne (ne_of_mem_calleeSaved hr).1 ..
  seg := rfl
  frame _ _ := rfl

/-- A thread with the node `0x400000` and the context `0x400100` that yields, with the selector `gs` in
`gs` and null selectors in the other segment registers. -/
def yieldingThread (gs : BitVec 16) : Cpu where
  reg r := if r = .rsp then 0x300ff8#64 else 1#64
  seg g := if g = .gs then gs else 0#16
  rip := 0x110000#64
  rflags := 0x202#64
  mem a := if a = 0x400000#64 then 0x400100#64 else 0#64
  var x := if x = .curProc then 0x400000#64 else 0x500000#64

section
variable {gs : BitVec 16} (hgs : gs = 0#16 ∨ gs = 3#16)
include hgs

theorem threadLayout_yieldingThread :
    ThreadLayout ((enterGate someIsrEnv (yieldingThread gs) 0x80).reg .rsp) 0x400000#64 0x400100#64 := by
  have hrsp : (enterGate someIsrEnv (yieldingThread gs) 0x80).reg .rsp = 0x300ff0#64 := by
    obtain rfl | rfl := hgs <;> rfl
  rw [hrsp]
  exact ⟨by decide, by decide, by decide, by decide⟩

theorem mem_node_yieldingThread {c : Cpu}
    (h : EntersHandler someIsrEnv selectOther (yieldingThread gs) 0x80 0#64 c) :
    c.mem 0x400000#64 = 0x400100#64 := by
  obtain ⟨s, hexec⟩ := h
  -- the call is the thirteenth instruction
  have hcall : ((someIsrEnv.prog.run selectOther 13
      (interrupt someIsrEnv (yieldingThread gs) 0x80 0#64)).1.head?.map fun x =>
        x.2.mem 0x400000#64) = some 0x400100#64 := by
    obtain rfl | rfl := hgs <;> rfl
  have hrun : someIsrEnv.prog.Exec selectOther (interrupt someIsrEnv (yieldingThread gs) 0x80 0#64)
      (someIsrEnv.prog.run selectOther 13 (interrupt someIsrEnv (yieldingThread gs) 0x80 0#64)).1
      (someIsrEnv.prog.run selectOther 13 (interrupt someIsrEnv (yieldingThread gs) 0x80 0#64)).2 :=
    Program.exec_run 13 _
  generalize (someIsrEnv.prog.run selectOther 13
    (interrupt someIsrEnv (yieldingThread gs) 0x80 0#64)).1 = calls at hcall hrun
  have hne : calls ≠ [] := by
    rintro rfl
    cases hcall
  rw [hexec.head?_calls hrun hne] at hcall
  exact Option.some.inj hcall

theorem switchesFrom_yieldingThread :
    SwitchesFrom someIsrEnv selectOther (yieldingThread gs) 0x80 0#64 0x400000#64 0x400100#64 where
  conv c _ := sysV_selectOther .irqHandler c
  curProc _ _ := rfl
  nextProc _ _ := by simp [selectOther]
  context c h := by
    have : (selectOther .irqHandler c).mem = c.mem := rfl
    rw [this]
    exact mem_node_yieldingThread hgs h

end

/-- Every hypothesis holds for a thread that yields with null selectors, and it is switched back to
with all its registers. -/
theorem switch_roundTrip_null_selectors :
    ∃ c s, someIsrEnv.prog.Exec selectOther (interrupt someIsrEnv (yieldingThread 0#16) 0x80 0#64)
        [(.irqHandler, c)] (someIsrEnv.prog.goto (isrTarget .noCurProc) s) ∧
      ∀ w : Cpu, LeavesAlone 0x400000#64 0x400100#64 s w → w.var .nextProc = 0x400000#64 →
        SwitchesBack someIsrEnv selectOther (yieldingThread 0#16) w := by
  obtain ⟨c, s, hexec, h⟩ := switch_roundTrip_iff someIsrEnv selectOther (yieldingThread 0#16) 0x80
    0#64 0x400000#64 0x400100#64 (threadLayout_yieldingThread (.inl rfl)) (switchesFrom_yieldingThread (.inl rfl))
  exact ⟨c, s, hexec, fun w hw hnext => (h w hw hnext).2 ⟨rfl, .inl rfl⟩⟩

/-- A thread that yields with another null selector in `gs` than in `ds` (the processor takes 0 to 3) is not given its
registers back, although no other thread touches its stack or context. -/
theorem switch_loses_selectors :
    ThreadLayout ((enterGate someIsrEnv (yieldingThread 3#16) 0x80).reg .rsp)
      0x400000#64 0x400100#64 ∧
    SwitchesFrom someIsrEnv selectOther (yieldingThread 3#16) 0x80 0#64 0x400000#64 0x400100#64 ∧
    ∃ c s w, someIsrEnv.prog.Exec selectOther
        (interrupt someIsrEnv (yieldingThread 3#16) 0x80 0#64) [(.irqHandler, c)]
        (someIsrEnv.prog.goto (isrTarget .noCurProc) s) ∧
      LeavesAlone 0x400000#64 0x400100#64 s w ∧ w.var .nextProc = 0x400000#64 ∧
      ¬ SwitchesBack someIsrEnv selectOther (yieldingThread 3#16) w := by
  have hgs : 3#16 = 0#16 ∨ 3#16 = 3#16 := .inr rfl
  have hl := threadLayout_yieldingThread hgs
  have hh := switchesFrom_yieldingThread hgs
  obtain ⟨c, s, haway, hs⟩ := hh.exec hl
  have hw : LeavesAlone 0x400000#64 0x400100#64 s { s with var := fun _ => 0x400000#64 } :=
    ⟨rfl, rfl, fun _ _ => rfl⟩
  refine ⟨hl, hh, c, s, _, haway, hw, rfl, ?_⟩
  rintro ⟨s', hexec, hret, -, hseg⟩
  obtain ⟨s'', hexec', hret', -, hrest⟩ := hs.back selectOther hl.node_ne hw rfl
  obtain ⟨-, rfl⟩ := hexec.deterministic (Program.step_iretq hret) hexec' (Program.step_iretq hret')
  have hds := hrest.ds
  rw [hseg .ds (by simp)] at hds
  exact absurd hds (by decide)

end

end BanjOS
