import BanjOS.Isr.Nested
import BanjOS.Isr.Switch

/-!
# The start of a thread

`PROC_create_kthread` (`processes.c`) puts a `struct InitalProcFrame` at the top of the new stack, in the
shape in which the interrupt path leaves an interrupted thread. Its twenty-five words are, from the lowest
one on, what the restore path pops, what `pop_scratch_regs` pops, what `iretq` pops and the address of
`kexit` (`words_initialFrame`), so that the first switch to the thread enters it at its entry point
(`kthread_starts`).
-/

namespace BanjOS

open X86

/-! ## The initial frame -/

/-- `struct InitalProcFrame`. -/
structure InitalProcFrame where
  rbp : Word
  gs : Word
  fs : Word
  es : Word
  ds : Word
  r15 : Word
  r14 : Word
  r13 : Word
  r12 : Word
  rbx : Word
  r11 : Word
  r10 : Word
  r9 : Word
  r8 : Word
  rdi : Word
  rsi : Word
  rdx : Word
  rcx : Word
  rax : Word
  rip : Word
  cs : Word
  rflags : Word
  rsp : Word
  ss : Word
  kexitRet : Word

/-- The structure in memory: it is packed, and every field has eight bytes. -/
def InitalProcFrame.words (p : InitalProcFrame) : List Word :=
  [p.rbp, p.gs, p.fs, p.es, p.ds, p.r15, p.r14, p.r13, p.r12, p.rbx, p.r11, p.r10, p.r9, p.r8, p.rdi, p.rsi,
    p.rdx, p.rcx, p.rax, p.rip, p.cs, p.rflags, p.rsp, p.ss, p.kexitRet]

/-- After `memset` with zero. -/
def InitalProcFrame.zeroed : InitalProcFrame :=
  ⟨0, 0, 0, 0, 0, 0, 0, 0, 0, 0, 0, 0, 0, 0, 0, 0, 0, 0, 0, 0, 0, 0, 0, 0, 0⟩

/-- `sizeof(struct InitalProcFrame)`. -/
theorem InitalProcFrame.length_words (p : InitalProcFrame) : 8 * p.words.length = initialFrameSize := rfl

/-- `GDT_kernel_desc_offset`. -/
def gdtKernelDescOffset (E : IsrEnv) : Word := E.kernelCs.setWidth 64

/-- `initial`: the address of the frame. -/
def initial (frame : Word) : Word := frame + BitVec.ofNat 64 procStackSize - BitVec.ofNat 64 initialFrameSize

/-- The frame that `PROC_create_kthread` builds. -/
def initialFrame (E : IsrEnv) (kexit entryPoint arg frame : Word) : InitalProcFrame :=
  { InitalProcFrame.zeroed with
    cs := gdtKernelDescOffset E
    rdi := arg
    rip := entryPoint
    rsp := frame + BitVec.ofNat 64 procStackSize - 8#64
    kexitRet := kexit }

/-- What `PROC_create_kthread` stores in the three objects it gets from `kmalloc`, up to `append_proc`: `ctx`
is a `struct ProcContext` (`rsp`, `pid`, `frame`) and `node` a `struct ProcNode`, of which the first word is
the address of the context. -/
def procCreateKthreadMem (E : IsrEnv) (kexit entryPoint arg ctx frame node pid : Word) (mem : Word → Word) :
    Word → Word :=
  let mem := storeWords mem (initial frame) (initialFrame E kexit entryPoint arg frame).words
  let mem := Function.update mem (ctx + 16#64) frame
  let mem := Function.update mem ctx (initial frame)
  let mem := Function.update mem (ctx + 8#64) pid
  Function.update mem node ctx

/-- The three objects: they do not overlap, and none of them wraps around the address space. -/
structure KthreadObjects (ctx frame node : Word) : Prop where
  node_ne : node ≠ 0#64
  frame_le : frame.toNat + procStackSize ≤ 2 ^ 64
  ctx_le : ctx.toNat + 24 ≤ 2 ^ 64
  node_le : node.toNat + 24 ≤ 2 ^ 64
  ctx_frame : ctx.toNat + 24 ≤ frame.toNat ∨ frame.toNat + procStackSize ≤ ctx.toNat
  node_frame : node.toNat + 24 ≤ frame.toNat ∨ frame.toNat + procStackSize ≤ node.toNat
  node_ctx : node.toNat + 24 ≤ ctx.toNat ∨ ctx.toNat + 24 ≤ node.toNat

/-- Since its creation nothing has written the words of a thread that the first switch to it reads. -/
structure NotStarted (ctx frame node : Word) (mem mem' : Word → Word) : Prop where
  node : mem' node = mem node
  ctx : mem' ctx = mem ctx
  frame : ∀ i < 25, mem' (initial frame + BitVec.ofNat 64 (8 * i)) = mem (initial frame + BitVec.ofNat 64 (8 * i))

/-- The machine at the first instruction of a thread. -/
structure StartsKthread (E : IsrEnv) (kexit entryPoint arg frame : Word) (s : Cpu) : Prop where
  rip : s.rip = entryPoint
  rdi : s.reg .rdi = arg
  rsp : s.reg .rsp = frame + BitVec.ofNat 64 procStackSize - 8#64
  reg : ∀ r, r ≠ .rdi → r ≠ .rsp → s.reg r = 0#64
  cs : s.seg .cs = E.kernelCs
  seg : ∀ g, g ≠ .cs → s.seg g = 0#16
  top : s.mem (s.reg .rsp) = kexit
  /-- A return with the stack as it was found enters `kexit`. -/
  ret : ∀ m : Cpu, m.reg .rsp = s.reg .rsp → m.mem (s.reg .rsp) = s.mem (s.reg .rsp) → m.ret.rip = kexit

section
variable {E : IsrEnv} {callee : IsrCall → Cpu → Cpu} {kexit entryPoint arg ctx frame node pid : Word}
  {mem : Word → Word} {w : Cpu}

/-- The frame lies at the top of the stack. -/
theorem toNat_initial (hframe : frame.toNat + procStackSize ≤ 2 ^ 64) {i : Nat} (hi : i < 25) :
    (initial frame + BitVec.ofNat 64 (8 * i)).toNat = frame.toNat + (procStackSize - initialFrameSize) + 8 * i := by
  simp only [procStackSize] at hframe
  simp only [initial, procStackSize, initialFrameSize]
  bv_omega

theorem KthreadObjects.initial_ne (h : KthreadObjects ctx frame node) {i : Nat} (hi : i < 25) :
    initial frame + BitVec.ofNat 64 (8 * i) ≠ node ∧
      ∀ k < 3, initial frame + BitVec.ofNat 64 (8 * i) ≠ ctx + BitVec.ofNat 64 (8 * k) := by
  have hnat := toNat_initial h.frame_le hi
  have hnode := h.node_frame
  have hctx := h.ctx_frame
  have hle := h.ctx_le
  generalize initial frame + BitVec.ofNat 64 (8 * i) = a at hnat ⊢
  simp only [procStackSize, initialFrameSize] at hnat hnode hctx
  refine ⟨fun hc => ?_, fun k hk hc => ?_⟩
  · rw [hc] at hnat
    omega
  · rw [hc, BitVec.toNat_add, BitVec.toNat_ofNat] at hnat
    omega

variable (E) (kexit entryPoint arg pid) (mem) in
/-- What `PROC_create_kthread` leaves for the first switch. -/
theorem KthreadObjects.created (h : KthreadObjects ctx frame node) :
    procCreateKthreadMem E kexit entryPoint arg ctx frame node pid mem node = ctx ∧
      procCreateKthreadMem E kexit entryPoint arg ctx frame node pid mem ctx = initial frame ∧
      Words (procCreateKthreadMem E kexit entryPoint arg ctx frame node pid mem) (initial frame)
        (initialFrame E kexit entryPoint arg frame).words := by
  have hle := h.ctx_le
  have hnode := h.node_ctx
  have hne : ctx ≠ node := by
    rintro rfl
    omega
  have hpid : ctx ≠ ctx + 8#64 := by bv_omega
  refine ⟨Function.update_self .., ?_, ?_⟩
  · simp [procCreateKthreadMem, Function.update_of_ne, hne]
  · refine (((words_storeWords ?_).update_of_ne ?_).update_of_ne ?_).update_of_ne ?_ |>.update_of_ne ?_
    · simp [InitalProcFrame.words]
    all_goals intro i hi
    · exact (h.initial_ne hi).2 2 (by omega)
    · simpa using (h.initial_ne hi).2 0 (by omega)
    · exact (h.initial_ne hi).2 1 (by omega)
    · exact (h.initial_ne hi).1

/-! ## The first switch -/

/-- The machine at the entry point. -/
def kthreadEntry (E : IsrEnv) (entryPoint arg frame : Word) : Cpu where
  reg := Function.update (Function.update (fun _ => 0#64) .rdi arg) .rsp
    (frame + BitVec.ofNat 64 procStackSize - 8#64)
  seg := Function.update (fun _ => 0#16) .cs E.kernelCs
  rip := entryPoint
  rflags := 0#64
  mem := fun _ => 0#64
  var := fun _ => 0#64

/-- The frame is what an interruption at the entry point and the save path would have left on the stack,
above it the address of `kexit`. -/
theorem words_initialFrame : (initialFrame E kexit entryPoint arg frame).words =
    (savedWords (kthreadEntry E entryPoint arg frame)).reverse ++
      (scratchRegsPopped.map (kthreadEntry E entryPoint arg frame).reg ++
        (interruptFrame (kthreadEntry E entryPoint arg frame)).reverse) ++ [kexit] := by
  simp [InitalProcFrame.words, initialFrame, InitalProcFrame.zeroed, savedWords, scratchRegsPopped,
    interruptFrame, kthreadEntry, gdtKernelDescOffset]

/-- The stack pointer of the frame is the address of its last word. -/
theorem initial_kexitRet :
    initial frame + BitVec.ofNat 64 (8 * 24) = frame + BitVec.ofNat 64 procStackSize - 8#64 := by
  simp only [initial, procStackSize, initialFrameSize]
  bv_omega

variable (callee) in
/-- The restore path makes the machine the one at the entry point. -/
theorem exec_kthreadEntry (hnext : w.var .nextProc = node) (hne : node ≠ 0#64) (hnode : w.mem node = ctx)
    (hctx : w.mem ctx = initial frame)
    (hframe : Words w.mem (initial frame) (initialFrame E kexit entryPoint arg frame).words) :
    ∃ s : Cpu, E.prog.Exec callee (E.prog.goto (isrTarget .noCurProc) w) [] s ∧
      E.prog.fetch s = some .iretq ∧ s.iretq.rip = entryPoint ∧
      s.iretq.reg = (kthreadEntry E entryPoint arg frame).reg ∧
      s.iretq.seg = (kthreadEntry E entryPoint arg frame).seg ∧ s.iretq.mem = w.mem := by
  rw [words_initialFrame] at hframe
  obtain ⟨s₂, hpops, hstack, hrest, hmem₂⟩ := exec_validNextProc E callee hnext hne hnode hctx hframe.left
  obtain ⟨s, hexec, hfetch, hmem, hscratch, hsaved, hret⟩ :=
    exec_popScratchRegs E callee hstack
  refine ⟨s, hpops.trans hexec, hfetch, ?_⟩
  rw [hret]
  refine ⟨rfl, funext fun r => ?_, funext fun g => ?_, hmem.trans hmem₂⟩
  · obtain rfl | hr | hr := reg_cases r
    · simp only [Function.update_self]
    · rw [← hscratch r hr]
      exact Function.update_of_ne (by rintro rfl; exact absurd hr (by decide)) ..
    · rw [← hrest.saved r hr, ← hsaved r hr]
      exact Function.update_of_ne (ne_of_mem_calleeSaved hr).1 ..
  · -- `ds` and `gs` are exchanged, and both are null
    cases g <;> simp [kthreadEntry, hrest.ds, hrest.es, hrest.fs, hrest.gs]

/-- What the entry point finds. -/
theorem startsKthread_of_entry {s : Cpu} (hrip : s.rip = entryPoint)
    (hreg : s.reg = (kthreadEntry E entryPoint arg frame).reg)
    (hseg : s.seg = (kthreadEntry E entryPoint arg frame).seg)
    (hmem : s.mem (frame + BitVec.ofNat 64 procStackSize - 8#64) = kexit) :
    StartsKthread E kexit entryPoint arg frame s := by
  have hrsp : s.reg .rsp = frame + BitVec.ofNat 64 procStackSize - 8#64 := by
    simp only [hreg, kthreadEntry, Function.update_self]
  have htop : s.mem (s.reg .rsp) = kexit := by rw [hrsp, hmem]
  refine ⟨hrip, ?_, hrsp, fun r hdi hsp => ?_, ?_, fun g hg => ?_, htop, fun m hm hm' => ?_⟩
  · simp [hreg, kthreadEntry]
  · simp [hreg, kthreadEntry, Function.update_of_ne, hdi, hsp]
  · simp [hseg, kthreadEntry]
  · simp [hseg, kthreadEntry, Function.update_of_ne, hg]
  · rw [Machine.ret, hm, hm', htop]

/-- The runs of the interrupt path start a thread from what `PROC_create_kthread` leaves. -/
theorem KthreadObjects.created_kthread {E : SwitchEnv} {u : Kthread}
    (h : KthreadObjects u.ctx frame u.node) (hstack : u.stack = ⟨frame.toNat, frame.toNat + procStackSize⟩)
    (hlt : frame.toNat + procStackSize < 2 ^ 64) (hentry : E.prog.code (E.prog.pos entryPoint) = none) :
    Created E u (procCreateKthreadMem E.isr kexit entryPoint arg u.ctx frame u.node pid mem) := by
  obtain ⟨hnode, hctx, hwords⟩ := h.created E.isr kexit entryPoint arg pid mem
  have hrip := words_iff.1 hwords 19 (show 19 < 25 by omega)
  have hrsp := words_iff.1 hwords 22 (show 22 < 25 by omega)
  generalize procCreateKthreadMem E.isr kexit entryPoint arg u.ctx frame u.node pid mem = mem' at *
  simp only [procStackSize] at hlt
  refine ⟨by rw [hstack], by rw [hstack]; exact hlt, hnode, ?_, ?_, ?_⟩
  · rw [hctx, hstack]
    simp only [initial, procStackSize, initialFrameSize]
    bv_omega
  · rw [hctx]
    exact (congrArg (fun a => E.prog.code (E.prog.pos a)) hrip).trans hentry
  · rw [hctx, hstack]
    refine hrsp.trans ?_
    show frame + BitVec.ofNat 64 procStackSize - 8#64 = _
    simp only [procStackSize]
    bv_omega

end

/-- A thread that `PROC_create_kthread` has made, for any entry point, argument and stack, is entered by the
first switch to it as specified, and its initial frame lies in its stack. -/
theorem kthread_starts (E : IsrEnv) (callee : IsrCall → Cpu → Cpu)
    (kexit entryPoint arg ctx frame node pid : Word) (mem : Word → Word) (w : Cpu)
    (hobj : KthreadObjects ctx frame node) (hnext : w.var .nextProc = node)
    (hnew : NotStarted ctx frame node
      (procCreateKthreadMem E kexit entryPoint arg ctx frame node pid mem) w.mem) :
    (∃ s : Cpu, E.prog.Exec callee (E.prog.goto (isrTarget .noCurProc) w) [] s ∧
      E.prog.fetch s = some .iretq ∧ StartsKthread E kexit entryPoint arg frame s.iretq) ∧
    ∀ i < 25, frame.toNat ≤ (initial frame + BitVec.ofNat 64 (8 * i)).toNat ∧
      (initial frame + BitVec.ofNat 64 (8 * i)).toNat + 8 ≤ frame.toNat + procStackSize := by
  constructor
  · obtain ⟨hnode, hctx, hwords⟩ := hobj.created E kexit entryPoint arg pid mem
    have hframe := hwords.congr hnew.frame
    have htop := words_iff.1 hframe 24 (show 24 < 25 by omega)
    rw [initial_kexitRet] at htop
    obtain ⟨s, hexec, hfetch, hrip, hreg, hseg, hmem⟩ := exec_kthreadEntry callee hnext
      hobj.node_ne (hnew.node.trans hnode) (hnew.ctx.trans hctx) hframe
    exact ⟨s, hexec, hfetch, startsKthread_of_entry hrip hreg hseg (by rw [hmem, htop]; rfl)⟩
  · intro i hi
    rw [toNat_initial hobj.frame_le hi]
    simp only [procStackSize, initialFrameSize]
    omega

/-- A thread with its objects on three pages, and the machine that switches to it at once. -/
theorem kthread_starts_someIsrEnv :
    ∃ s : Cpu, someIsrEnv.prog.Exec selectOther (someIsrEnv.prog.goto (isrTarget .noCurProc)
        { kthreadEntry someIsrEnv 0 0 0 with
          mem := procCreateKthreadMem someIsrEnv 0x110200#64 0x110000#64 7#64 0x1000#64 0x2000#64 0x5000#64
            0#64 fun _ => 0#64
          var := fun _ => 0x5000#64 }) [] s ∧
      someIsrEnv.prog.fetch s = some .iretq ∧
      StartsKthread someIsrEnv 0x110200#64 0x110000#64 7#64 0x2000#64 s.iretq := by
  have hobj : KthreadObjects 0x1000#64 0x2000#64 0x5000#64 := by
    constructor <;> decide
  exact (kthread_starts someIsrEnv selectOther 0x110200#64 0x110000#64 7#64 0x1000#64 0x2000#64 0x5000#64 0#64
    (fun _ => 0#64) _ hobj rfl ⟨rfl, rfl, fun _ _ => rfl⟩).1

end BanjOS
