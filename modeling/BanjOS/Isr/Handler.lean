import BanjOS.Basic
import BanjOS.Lib.X86
import Mathlib.Tactic.IntervalCases

/-!
# The interrupt path

The listing of `isr_handler.asm` as a program of the x86-64 fragment, and the delivery of an interrupt
through the descriptors that `IRQ_init` (`interrupts.c`) writes. `irq_handler` and
`PROC_resume_source` are called code: a function from the machine at their first instruction to the
machine after their `ret`, of which the results use the System V calling convention (`SysV`).
-/

namespace BanjOS

open X86

/-! ## Listing -/

/-- The variables of `processes.c` that the listing names. -/
inductive IsrVar
  | curProc | nextProc
  deriving DecidableEq

/-- The labels of the listing. -/
inductive IsrLabel
  | isrErr | shiftStack | isrNoErr | noCurProc | validNextProc | noCtxSwitch | invalidNextProc
  | isrStub (vector : Fin 256)
  deriving DecidableEq

/-- The functions of the kernel that the listing calls. -/
inductive IsrCall
  | irqHandler | procResumeSource
  deriving DecidableEq

/-- The machine that executes the listing. -/
abbrev Cpu := Machine IsrVar

/-- `push_scratch_regs` pushes these, in this order. -/
def scratchRegs : List Reg := [.rax, .rcx, .rdx, .rsi, .rdi, .r8, .r9, .r10, .r11]

/-- `pop_scratch_regs` pops these, in this order. -/
def scratchRegsPopped : List Reg := [.r11, .r10, .r9, .r8, .rdi, .rsi, .rdx, .rcx, .rax]

/-- The macro `push_scratch_regs`. -/
def pushScratchRegs : List (Op IsrVar) := scratchRegs.map .push

/-- The macro `pop_scratch_regs`. -/
def popScratchRegs : List (Op IsrVar) := scratchRegsPopped.map .pop

/-- The fall-through part of `isr_err`. -/
def isrErr : List (Op IsrVar) := [.load .rsi .rsp 72#64, .lea .rax .rsp 64#64]

/-- The body of the loop `shift_stack`. -/
def shiftStack : List (Op IsrVar) :=
  [.load .rcx .rax 0#64, .store .rax 8#64 .rcx, .subImm .rax 8#64, .cmp .rax .rsp]

/-- `isr_no_err` after the call, up to the first jump. -/
def loadProcs : List (Op IsrVar) :=
  [.loadVar .rax .curProc, .loadVar .rcx .nextProc, .cmp .rax .rcx]

/-- The pushes of the save path. -/
def saveRegs : List (Op IsrVar) :=
  [.push .rbx, .push .r12, .push .r13, .push .r14, .push .r15,
    .xor .rax .rax, .movFromSeg .rax .ds, .push .rax,
    .xor .rcx .rcx, .movFromSeg .rcx .es, .push .rcx,
    .xor .rdx .rdx, .movFromSeg .rdx .fs, .push .rdx,
    .xor .rsi .rsi, .movFromSeg .rsi .gs, .push .rsi,
    .push .rbp]

/-- Store the stack pointer in the context of `cur_proc`. -/
def storeRsp : List (Op IsrVar) :=
  [.loadVar .rax .curProc, .load .rcx .rax 0#64, .store .rcx 0#64 .rsp]

/-- `no_cur_proc` up to its jump. -/
def testNextProc : List (Op IsrVar) := [.loadVar .rax .nextProc, .cmpImm .rax 0#64]

/-- The first half of `valid_next_proc`: the stack pointer of the context, and `cur_proc`. -/
def loadRsp : List (Op IsrVar) :=
  [.loadVar .rax .nextProc, .load .rcx .rax 0#64, .load .rsp .rcx 0#64, .storeVar .curProc .rax]

/-- The pops of the restore path. -/
def restoreRegs : List (Op IsrVar) :=
  [.pop .rbp,
    .pop .rsi, .movToSeg .ds .rsi, .pop .rdx, .movToSeg .fs .rdx,
    .pop .rcx, .movToSeg .es .rcx, .pop .rax, .movToSeg .gs .rax,
    .pop .r15, .pop .r14, .pop .r13, .pop .r12, .pop .rbx]

/-- The part of the listing that all stubs share, from `isr_err` on. -/
def isrCode : List (Instr IsrVar IsrLabel IsrCall) := List.flatten
  [ -- isr_err
    isrErr.map .op,
    -- shift_stack
    shiftStack.map .op, [.jnz .shiftStack, .op (.addImm .rsp 8#64)],
    -- isr_no_err
    [.call .irqHandler], loadProcs.map .op,
    [.je .noCtxSwitch, .op (.cmpImm .rax 0#64), .je .noCurProc],
    saveRegs.map .op, storeRsp.map .op,
    -- no_cur_proc
    testNextProc.map .op, [.je .invalidNextProc],
    -- valid_next_proc
    loadRsp.map .op, restoreRegs.map .op,
    -- no_ctx_switch
    popScratchRegs.map .op, [.iretq],
    -- invalid_next_proc
    [.call .procResumeSource, .jmp .validNextProc] ]

/-- The vectors declared with `isr_err_stub`. -/
def isrErrStubs : List (Fin 256) := [8, 10, 11, 12, 13, 14, 17]

/-- The macros `isr_err_stub` and `isr_no_err_stub` after `push_scratch_regs`. -/
def isrStubBody (vector : Fin 256) : List (Instr IsrVar IsrLabel IsrCall) :=
  if vector ∈ isrErrStubs then
    [.op (.movImm .rdi (BitVec.ofNat 64 vector)), .jmp .isrErr]
  else
    [.op (.movImm .rdi (BitVec.ofNat 64 vector)), .op (.movImm .rsi 0#64), .jmp .isrNoErr]

/-- The stub of a vector. -/
def isrStub (vector : Fin 256) : List (Instr IsrVar IsrLabel IsrCall) :=
  pushScratchRegs.map .op ++ isrStubBody vector

/-- The positions of the labels; each stub has twelve positions, after the shared part. -/
def isrTarget : IsrLabel → Nat
  | .isrErr => 0
  | .shiftStack => 2
  | .isrNoErr => 8
  | .noCurProc => 36
  | .validNextProc => 39
  | .noCtxSwitch => 57
  | .invalidNextProc => 67
  | .isrStub v => 69 + 12 * v

/-- The instruction at a position. -/
def isrInstr (i : Nat) : Option (Instr IsrVar IsrLabel IsrCall) :=
  if i < 69 then isrCode[i]? else
    if h : (i - 69) / 12 < 256 then (isrStub ⟨(i - 69) / 12, h⟩)[(i - 69) % 12]? else none

/-- `isr_handler.asm`, loaded at `text`. -/
def isrProgram (text : Word) : Program IsrVar IsrLabel IsrCall := ⟨text, isrInstr, isrTarget⟩

/-! ## Delivery of an interrupt -/

/-- What the linker and `IRQ_init` fix: the address of the listing, the kernel's code selector and the
stacks of the interrupt stack table. -/
structure IsrEnv where
  text : Word
  kernelCs : BitVec 16
  dfStack : Word
  pfStack : Word
  gpStack : Word
  exStack : Word

/-- The listing where it is loaded. -/
abbrev IsrEnv.prog (E : IsrEnv) : Program IsrVar IsrLabel IsrCall := isrProgram E.text

/-- The interrupt stack of a vector's descriptor, if `IRQ_init` gives it one. -/
def IsrEnv.istStack (E : IsrEnv) (vector : Fin 256) : Option Word :=
  if vector = 0x8 then some E.dfStack
  else if vector = 0xE then some E.pfStack
  else if vector = 0xD then some E.gpStack
  else if vector = 0x81 then some E.exStack
  else none

/-- The exceptions for which the processor pushes an error code. (The later ones, 21, 29 and 30, come
from extensions that the kernel does not enable.) -/
def pushesErrorCode (vector : Fin 256) : Bool := vector ∈ [8, 10, 11, 12, 13, 14, 17]

/-- The word that the processor pushes for an interrupt after the frame. -/
def errorWord (vector : Fin 256) (e : Word) : List Word := if pushesErrorCode vector then [e] else []

/-- The interrupt frame: `ss`, `rsp`, `rflags`, `cs` and `rip`, as pushed. -/
def interruptFrame (m : Cpu) : List Word :=
  [(m.seg .ss).setWidth 64, m.reg .rsp, m.rflags, (m.seg .cs).setWidth 64, m.rip]

/-- Entering an interrupt gate: the processor selects the stack, aligned to 16 bytes, loads the
descriptor's code selector and clears `TF`, `IF`, `NT` and `RF`. -/
def enterGate (E : IsrEnv) (m : Cpu) (vector : Fin 256) : Cpu :=
  { m with
    reg := Function.update m.reg .rsp (((E.istStack vector).getD (m.reg .rsp)) &&& ~~~15#64)
    seg := Function.update m.seg .cs E.kernelCs
    rflags := m.rflags &&& ~~~0x14300#64 }

/-- The processor takes an interrupt: it enters the gate, pushes the frame and the error code and goes
on at the stub. -/
def interrupt (E : IsrEnv) (m : Cpu) (vector : Fin 256) (e : Word) : Cpu :=
  E.prog.goto (isrTarget (.isrStub vector))
    ((enterGate E m vector).pushes (interruptFrame m ++ errorWord vector e))

section
variable (E : IsrEnv) (m : Cpu) (v : Fin 256)

theorem enterGate_reg {r : Reg} (hr : r ≠ .rsp) : (enterGate E m v).reg r = m.reg r :=
  Function.update_of_ne hr ..

theorem enterGate_seg {g : Seg} (hg : g ≠ .cs) : (enterGate E m v).seg g = m.seg g :=
  Function.update_of_ne hg ..

@[simp] theorem enterGate_var : (enterGate E m v).var = m.var := rfl

/-- The stack that the processor selects. -/
theorem enterGate_rsp : (enterGate E m v).reg .rsp = (E.istStack v).getD (m.reg .rsp) &&& ~~~15#64 :=
  Function.update_self Reg.rsp _ m.reg

/-- A vector that has a stack of its own. -/
theorem enterGate_rsp_of_ist {sp : Word} (h : E.istStack v = some sp) :
    (enterGate E m v).reg .rsp = sp &&& ~~~15#64 := by
  rw [enterGate_rsp, h, Option.getD_some]

/-- A vector that has none. -/
theorem enterGate_rsp_of_none (h : E.istStack v = none) :
    (enterGate E m v).reg .rsp = m.reg .rsp &&& ~~~15#64 := by
  rw [enterGate_rsp, h, Option.getD_none]

end

/-! ## Calling convention -/

/-- The registers a callee preserves, `rsp` apart. -/
def calleeSaved : List Reg := [.rbx, .rbp, .r12, .r13, .r14, .r15]

theorem ne_of_mem_calleeSaved {r : Reg} (hr : r ∈ calleeSaved) :
    r ≠ .rsp ∧ r ≠ .rax ∧ r ≠ .rcx ∧ r ≠ .rdx ∧ r ≠ .rsi ∧ r ≠ .rdi := by
  revert r
  decide

theorem notMem_scratchRegs {r : Reg} (hr : r ∈ calleeSaved) : r ∉ scratchRegs := by
  revert r
  decide

/-- The System V convention between the first instruction of a callee (`m`) and its return (`m'`): it
returns to the address on the stack with the stack as before the call, preserves the callee-saved and
the segment registers, and leaves its caller's frame alone (here the fourteen words of the interrupt
path: nine registers and the interrupt frame). -/
structure SysV (m m' : Cpu) : Prop where
  rip : m'.rip = m.mem (m.reg .rsp)
  rsp : m'.reg .rsp = m.reg .rsp + 8#64
  reg : ∀ r ∈ calleeSaved, m'.reg r = m.reg r
  seg : m'.seg = m.seg
  frame : ∀ i < 14, m'.mem (m.reg .rsp + 8#64 + BitVec.ofNat 64 (8 * i)) =
    m.mem (m.reg .rsp + 8#64 + BitVec.ofNat 64 (8 * i))

section
variable {E : IsrEnv} {callee : IsrCall → Cpu → Cpu}

/-- A stretch of the shared part. -/
theorem listing_isrCode {i n : Nat} {l : List (Instr IsrVar IsrLabel IsrCall)}
    (hi : i ≤ 69) (h : (isrCode.drop i).take n = l) : E.prog.Listing i l := by
  subst h
  have hlen : isrCode.length = 69 := rfl
  refine ⟨by rw [List.length_take, List.length_drop]; omega, fun k hk => ?_⟩
  have hk' := hk
  rw [List.length_take, List.length_drop] at hk'
  simp only [IsrEnv.prog, isrProgram, isrInstr, if_pos (show i + k < 69 by omega)]
  rw [← List.getElem?_drop, ← List.getElem?_take_of_lt (show k < n by omega),
    List.getElem?_eq_getElem hk]

/-- The listing of a stub. -/
theorem listing_isrStub (v : Fin 256) :
    E.prog.Listing (69 + 12 * v) (isrStub v) := by
  have hlen : (isrStub v).length ≤ 12 := by
    unfold isrStub isrStubBody
    split <;> simp [pushScratchRegs, scratchRegs]
  refine ⟨by omega, fun k hk => ?_⟩
  have hv : (69 + 12 * v.val + k - 69) / 12 = v := by omega
  have hmod : (69 + 12 * v.val + k - 69) % 12 = k := by omega
  simp only [IsrEnv.prog, isrProgram, isrInstr, if_neg (show ¬69 + 12 * v.val + k < 69 by omega), hv, hmod]
  rw [dif_pos v.isLt, List.getElem?_eq_getElem hk]

/-! ## From the stub to the handler -/

/-- One turn of the loop. -/
theorem execAll_shiftStack (s : Cpu) : Op.execAll shiftStack s =
    { s with
      reg := Function.update (Function.update s.reg .rcx (s.mem (s.reg .rax))) .rax
        (s.reg .rax - 8#64)
      mem := Function.update s.mem (s.reg .rax + 8#64) (s.mem (s.reg .rax))
      rflags := setZf (setZf s.rflags (s.reg .rax - 8#64 == 0)) (s.reg .rax - 8#64 == s.reg .rsp) } := by
  simp [shiftStack, Op.exec, Machine.setReg, Function.update_of_ne]

/-- The word that a turn writes. -/
theorem shiftStack_turn_mem {k : Nat} (hk : k < 2 ^ 32) {s : Cpu}
    (hrax : s.reg .rax = s.reg .rsp + BitVec.ofNat 64 (8 * (k + 1))) {j : Nat} (hj : j < 2 ^ 32) :
    (Op.execAll shiftStack s).mem (s.reg .rsp + BitVec.ofNat 64 (8 * j)) =
      s.mem (s.reg .rsp + BitVec.ofNat 64 (8 * if j = k + 2 then j - 1 else j)) := by
  simp only [execAll_shiftStack]
  split
  case isTrue h =>
    subst h
    rw [show s.reg .rsp + BitVec.ofNat 64 (8 * (k + 2)) = s.reg .rax + 8#64 by bv_omega,
      Function.update_self, hrax, Nat.add_sub_cancel_right (k + 1) 1]
  case isFalse h => rw [Function.update_of_ne (by bv_omega)]

/-- The other words. -/
theorem shiftStack_turn_frame {k : Nat} {s : Cpu} (hrax : s.reg .rax = s.reg .rsp + BitVec.ofNat 64 (8 * (k + 1)))
    {b : Word} (hb : s.reg .rsp + BitVec.ofNat 64 (8 * (k + 2)) ≠ b) : (Op.execAll shiftStack s).mem b = s.mem b := by
  rw [execAll_shiftStack]
  exact Function.update_of_ne (by bv_omega) ..

variable (E) (callee)

/-- One turn of the loop and the jump at its end. -/
theorem exec_shiftStack_turn (s : Cpu) :
    E.prog.Exec callee (E.prog.goto 2 s) []
      (E.prog.goto (if s.reg .rax - 8#64 = s.reg .rsp then 7 else 2) (Op.execAll shiftStack s)) := by
  have hops : E.prog.Exec callee (E.prog.goto 2 s) [] (E.prog.goto 6 (Op.execAll shiftStack s)) :=
    .ops (listing_isrCode (n := 4) (by omega) rfl)
  have hzf : zf (Op.execAll shiftStack s).rflags = (s.reg .rax - 8#64 == s.reg .rsp) := by
    simp [execAll_shiftStack]
  split
  case isTrue h =>
    rw [h, beq_self_eq_true] at hzf
    exact hops.trans (.jnz_skip (l := .shiftStack) hzf (listing_isrCode (n := 1) (by omega) rfl))
  case isFalse h =>
    rw [beq_false_of_ne h] at hzf
    exact hops.trans (.jnz_taken (l := .shiftStack) hzf (listing_isrCode (n := 1) (by omega) rfl))

/-- `shift_stack`, entered with `rax` at the word `k + 1` of the stack: the words `1` to `k + 1` move up
by one, and the words `0` and `1` stay. -/
theorem exec_shiftStack {k : Nat} (hk : k < 2 ^ 32) {s : Cpu}
    (hrax : s.reg .rax = s.reg .rsp + BitVec.ofNat 64 (8 * (k + 1))) :
    ∃ s' : Cpu, E.prog.Exec callee (E.prog.goto 2 s) [] (E.prog.goto 7 s') ∧
      (∀ j < 2 ^ 32, s'.mem (s.reg .rsp + BitVec.ofNat 64 (8 * j)) =
        s.mem (s.reg .rsp + BitVec.ofNat 64 (8 * if 2 ≤ j ∧ j ≤ k + 2 then j - 1 else j))) ∧
      (∀ b, (∀ j, j ≤ k + 2 → s.reg .rsp + BitVec.ofNat 64 (8 * j) ≠ b) → s'.mem b = s.mem b) ∧
      (∀ r, r ≠ .rax → r ≠ .rcx → s'.reg r = s.reg r) ∧ s'.seg = s.seg ∧ s'.var = s.var := by
  induction k generalizing s with
  | zero =>
    have hturn := exec_shiftStack_turn E callee s
    rw [if_pos (by bv_omega)] at hturn
    refine ⟨_, hturn, fun j hj => ?_, fun b hb => ?_, fun r h h' => ?_, ?_, ?_⟩
    · rw [shiftStack_turn_mem hk hrax hj]
      congr 4
      split <;> split <;> omega
    · exact shiftStack_turn_frame hrax (hb _ (Nat.le_refl _))
    · simp [execAll_shiftStack, Function.update_of_ne, h, h']
    · rw [execAll_shiftStack]
    · rw [execAll_shiftStack]
  | succ k ih =>
    have hturn := exec_shiftStack_turn E callee s
    rw [if_neg (by bv_omega)] at hturn
    have hrsp : (Op.execAll shiftStack s).reg .rsp = s.reg .rsp := by simp [execAll_shiftStack]
    obtain ⟨s', hs', hmem, hframe, hreg, hseg, hvar⟩ := ih (by omega) (s := Op.execAll shiftStack s) (by
      simp only [execAll_shiftStack, Function.update_self, ne_eq, reduceCtorEq, not_false_eq_true,
        Function.update_of_ne]
      bv_omega)
    refine ⟨s', hturn.trans hs', fun j hj => ?_, fun b hb => ?_, fun r h h' => ?_, ?_, ?_⟩
    · rw [← hrsp, hmem j hj, hrsp, shiftStack_turn_mem hk hrax (by split <;> omega)]
      congr 3
      split <;> split <;> split <;> omega
    · rw [hframe b fun j hj => hrsp ▸ hb j (Nat.le_succ_of_le hj)]
      exact shiftStack_turn_frame hrax (hb _ (Nat.le_refl _))
    · simp [hreg r h h', execAll_shiftStack, Function.update_of_ne, h, h']
    · simp [hseg, execAll_shiftStack]
    · simp [hvar, execAll_shiftStack]

/-- The values of the scratch registers that the stub leaves on the stack for an interruption of `m`.
The loop moves the word of `r10` but not the one of `r11`, which the stack pointer is then moved over. -/
def savedScratch (m : Cpu) (vector : Fin 256) : Reg → Word :=
  if pushesErrorCode vector then Function.update m.reg .r11 (m.reg .r10) else m.reg

/-- Registers other than the scratch registers are as in `m`. -/
theorem savedScratch_of_notMem {m : Cpu} {v : Fin 256} {r : Reg} (hr : r ∉ scratchRegs) :
    savedScratch m v r = m.reg r := by
  unfold savedScratch
  split
  · refine Function.update_of_ne ?_ ..
    rintro rfl
    exact hr (by decide)
  · rfl

/-- The scratch registers on the stack are those of `m` iff there was no error code or `r10` and `r11`
were equal. -/
theorem savedScratch_eq_iff {m : Cpu} {v : Fin 256} :
    savedScratch m v = m.reg ↔ pushesErrorCode v = false ∨ m.reg .r10 = m.reg .r11 := by
  unfold savedScratch
  cases hv : pushesErrorCode v with
  | false => simp
  | true => simp [Function.update_eq_self_iff]

/-- The machine at `isr_no_err`, on an interruption of `m`. -/
structure AtIsrNoErr (E : IsrEnv) (m : Cpu) (vector : Fin 256) (e : Word) (s : Cpu) : Prop where
  stack : s.Stack (scratchRegsPopped.map (savedScratch m vector) ++ (interruptFrame m).reverse)
  rsp : s.reg .rsp = (enterGate E m vector).reg .rsp - 112#64
  saved : ∀ r ∈ calleeSaved, s.reg r = m.reg r
  seg : ∀ g, g ≠ .cs → s.seg g = m.seg g
  var : s.var = m.var
  rdi : s.reg .rdi = BitVec.ofNat 64 vector
  rsi : s.reg .rsi = if pushesErrorCode vector then e else 0#64
  /-- Only words from the top of the stack downwards are written. -/
  mem : ∀ b, (∀ i < 15, (enterGate E m vector).reg .rsp - BitVec.ofNat 64 (8 * (i + 1)) ≠ b) → s.mem b = m.mem b

/-- The machine after the pushes of the stub. -/
structure AtStub (E : IsrEnv) (m : Cpu) (vector : Fin 256) (e : Word) (s : Cpu) : Prop where
  stack : s.Stack (scratchRegsPopped.map m.reg ++ ((errorWord vector e).reverse ++
    (interruptFrame m).reverse))
  rsp : s.reg .rsp = (enterGate E m vector).reg .rsp -
    BitVec.ofNat 64 (8 * (14 + (errorWord vector e).length))
  reg : ∀ r, r ≠ .rsp → s.reg r = m.reg r
  seg : ∀ g, g ≠ .cs → s.seg g = m.seg g
  var : s.var = m.var

/-- The stub pushes the scratch registers below the interrupt frame and the error code. -/
theorem exec_pushScratchRegs (m : Cpu) (v : Fin 256) (e : Word) :
    ∃ p s, E.prog.Exec callee (interrupt E m v e) [] (E.prog.goto p s) ∧ AtStub E m v e s ∧
      (∀ b, (∀ i < 14 + (errorWord v e).length, s.reg .rsp + BitVec.ofNat 64 (8 * i) ≠ b) → s.mem b = m.mem b) ∧
      E.prog.Listing p (isrStubBody v) := by
  obtain ⟨hpush, hbody⟩ := (listing_isrStub (E := E) v).append
  rw [List.length_map] at hbody
  have hvals : scratchRegs.map ((enterGate E m v).pushes (interruptFrame m ++ errorWord v e)).reg =
      scratchRegs.map m.reg := by
    refine List.map_congr_left fun r hr => ?_
    have hne : r ≠ .rsp := by
      rintro rfl
      exact absurd hr (by decide)
    rw [Machine.pushes_reg_of_ne _ _ hne, enterGate_reg E m v hne]
  have herr : (errorWord v e).length ≤ 1 := by
    unfold errorWord
    split <;> simp
  have hframe : (interruptFrame m).length = 5 := rfl
  refine ⟨_, _, .ops hpush, ?_, ?_, hbody⟩
  all_goals rw [pushScratchRegs, execAll_push (by decide), hvals]
  · refine ⟨?_, ?_, fun r hr => ?_, fun g hg => ?_, ?_⟩
    · have h₀ : (enterGate E m v).Stack [] := trivial
      have h₁ := h₀.pushes (interruptFrame m ++ errorWord v e) (by simp; omega)
      have h₂ := h₁.pushes (scratchRegs.map m.reg) (by simp [scratchRegs]; omega)
      simpa [scratchRegs, scratchRegsPopped] using h₂
    · rw [Machine.pushes_rsp, Machine.pushes_rsp, List.length_map, List.length_append, hframe]
      simp only [scratchRegs, List.length_cons, List.length_nil]
      bv_omega
    · rw [Machine.pushes_reg_of_ne _ _ hr, Machine.pushes_reg_of_ne _ _ hr, enterGate_reg E m v hr]
    · simp [enterGate_seg E m v hg]
    · simp
  · intro b hb
    rw [← Machine.pushes_append] at hb ⊢
    refine Machine.pushes_mem_of_ne fun i hi => hb i ?_
    simp only [List.length_append, List.length_map, hframe, scratchRegs, List.length_cons,
      List.length_nil] at hi
    omega

/-- The stub of a vector without an error code jumps to `isr_no_err`. -/
theorem exec_isrNoErrStub (m : Cpu) {v : Fin 256} (hv : pushesErrorCode v = false) (e : Word) :
    ∃ s, E.prog.Exec callee (interrupt E m v e) [] (E.prog.goto 8 s) ∧ AtIsrNoErr E m v e s ∧
      ∀ b, (∀ i < 14, s.reg .rsp + BitVec.ofNat 64 (8 * i) ≠ b) → s.mem b = m.mem b := by
  obtain ⟨p, s, hs, h, hmem, hbody⟩ := exec_pushScratchRegs E callee m v e
  rw [isrStubBody, if_neg (by simpa [pushesErrorCode, isrErrStubs] using hv)] at hbody
  have hmovs : E.prog.Listing p
      ([Op.movImm .rdi (BitVec.ofNat 64 v), .movImm .rsi 0#64].map .op ++ [Instr.jmp IsrLabel.isrNoErr]) := hbody
  refine ⟨_, (hs.trans (.ops hmovs.append.1)).trans (.jmp hmovs.append.2),
    ⟨?_, ?_, fun r hr => ?_, h.seg, h.var, ?_, ?_, fun b hb => ?_⟩, fun b hb => ?_⟩
  · simpa [savedScratch, hv, errorWord, Machine.Stack, Op.exec, Machine.setReg] using h.stack
  · simpa [hv, errorWord, Op.exec, Machine.setReg] using h.rsp
  · have hne := ne_of_mem_calleeSaved hr
    rw [Op.execAll_reg_of_notMem (by simp [Op.dest, hne]), h.reg r hne.1]
  · simp [Op.exec, Machine.setReg]
  · simp [Op.exec, Machine.setReg, hv]
  · refine hmem b fun i hi => ?_
    have hsp := h.rsp
    simp only [errorWord, hv, Bool.false_eq_true, if_false, List.length_nil, Nat.add_zero] at hsp hi
    have hword := hb (13 - i) (by omega)
    bv_omega
  · simp only [errorWord, hv, Bool.false_eq_true, if_false, List.length_nil, Nat.add_zero] at hmem
    exact hmem b hb

/-- The stub of a vector with an error code goes through `isr_err` and the loop `shift_stack`. -/
theorem exec_isrErrStub (m : Cpu) {v : Fin 256} (hv : pushesErrorCode v = true) (e : Word) :
    ∃ s, E.prog.Exec callee (interrupt E m v e) [] (E.prog.goto 8 s) ∧ AtIsrNoErr E m v e s := by
  obtain ⟨p, s, hs, h, hpushed, hbody⟩ := exec_pushScratchRegs E callee m v e
  rw [isrStubBody, if_pos (by simpa [pushesErrorCode, isrErrStubs] using hv)] at hbody
  have hmovs : E.prog.Listing p
      ([Op.movImm .rdi (BitVec.ofNat 64 v)].map .op ++ [Instr.jmp IsrLabel.isrErr]) := hbody
  have hstub := (hs.trans (.ops hmovs.append.1)).trans (.jmp hmovs.append.2)
  generalize hs₁ : Op.execAll [Op.movImm .rdi (BitVec.ofNat 64 v)] s = s₁ at hstub
  have herr : E.prog.Exec callee (E.prog.goto 0 s₁) [] (E.prog.goto 2 (Op.execAll isrErr s₁)) :=
    .ops (listing_isrCode (n := 2) (by omega) rfl)
  have hrsp : (Op.execAll isrErr s₁).reg .rsp = s.reg .rsp := by
    simp [← hs₁, isrErr, Op.exec, Machine.setReg]
  have hstack : s.Stack (scratchRegsPopped.map m.reg ++ (e :: (interruptFrame m).reverse)) := by
    simpa [errorWord, hv] using h.stack
  have hrsi : (Op.execAll isrErr s₁).reg .rsi = e := by
    have : s.mem (s.reg .rsp + 72#64) = e := words_iff.1 hstack 9 (by simp [scratchRegsPopped])
    simpa [← hs₁, isrErr, Op.exec, Machine.setReg] using this
  obtain ⟨s₃, hshift, hmem, hframe, hreg, hseg, hvar⟩ := exec_shiftStack E callee (k := 7) (by omega)
    (s := Op.execAll isrErr s₁) (by simp [isrErr, Op.exec, Machine.setReg])
  have hrsp₃ : s₃.reg .rsp = s.reg .rsp := (hreg .rsp (by decide) (by decide)).trans hrsp
  have hadd : E.prog.Exec callee (E.prog.goto 7 s₃) []
      (E.prog.goto 8 (Op.execAll [.addImm .rsp 8#64] s₃)) :=
    .ops (listing_isrCode (n := 1) (by omega) rfl)
  have hmem₂ : (Op.execAll isrErr s₁).mem = s.mem := by rw [← hs₁]; rfl
  rw [hrsp, hmem₂] at hmem hframe
  have hsp := h.rsp
  simp only [errorWord, hv, if_true, List.length_singleton] at hsp hpushed
  refine ⟨_, ((hstub.trans herr).trans hshift).trans hadd, ?_, ?_, fun r hr => ?_,
    fun g hg => ?_, ?_, ?_, ?_, fun b hb => ?_⟩
  · simp only [Machine.Stack, Op.execAll_cons, Op.execAll_nil, Op.exec, Machine.setReg,
      Function.update_self, hrsp₃]
    refine words_iff.2 fun i hi => ?_
    have hi' : i < 14 := hi
    rw [add_eight_add, hmem (i + 1) (by omega)]
    refine (words_iff.1 hstack _ ?_).trans ?_
    · change _ < 15
      split <;> omega
    · interval_cases i <;> simp [savedScratch, hv, scratchRegsPopped, Function.update_of_ne]
  · simp only [Op.execAll_cons, Op.execAll_nil, Op.exec, Machine.setReg, Function.update_self, hrsp₃, hsp]
    bv_omega
  · have hne := ne_of_mem_calleeSaved hr
    rw [Op.execAll_reg_of_notMem (by simp [Op.dest, hne]), hreg r hne.2.1 hne.2.2.1,
      Op.execAll_reg_of_notMem (by simp [isrErr, Op.dest, hne]), ← hs₁,
      Op.execAll_reg_of_notMem (by simp [Op.dest, hne]), h.reg r hne.1]
  · rw [← h.seg g hg]
    simp [Op.exec, Machine.setReg, hseg, ← hs₁, isrErr]
  · rw [← h.var]
    simp [Op.exec, Machine.setReg, hvar, ← hs₁, isrErr]
  · simp [Op.exec, Machine.setReg, hreg, ← hs₁, isrErr]
  · simp [Op.exec, Machine.setReg, hreg, hrsi, hv]
  · have hwords (i : Nat) (hi : i < 15) : s.reg .rsp + BitVec.ofNat 64 (8 * i) ≠ b := by
      have hword := hb (14 - i) (by omega)
      bv_omega
    calc s₃.mem b = s.mem b := hframe b fun j hj => hwords j (by omega)
      _ = m.mem b := hpushed b hwords

/-- From the interruption of `m` to `isr_no_err`. -/
theorem exec_isrStub (m : Cpu) (v : Fin 256) (e : Word) :
    ∃ s, E.prog.Exec callee (interrupt E m v e) [] (E.prog.goto 8 s) ∧ AtIsrNoErr E m v e s := by
  cases hv : pushesErrorCode v with
  | false =>
    obtain ⟨s, hexec, hs, -⟩ := exec_isrNoErrStub E callee m hv e
    exact ⟨s, hexec, hs⟩
  | true => exact exec_isrErrStub E callee m hv e

/-! ## The call and the return -/

/-- The machine when `irq_handler` has returned, on an interruption of `m`. -/
structure AfterHandler (E : IsrEnv) (m : Cpu) (vector : Fin 256) (s : Cpu) : Prop where
  stack : s.Stack (scratchRegsPopped.map (savedScratch m vector) ++ (interruptFrame m).reverse)
  rsp : s.reg .rsp = (enterGate E m vector).reg .rsp - 112#64
  saved : ∀ r ∈ calleeSaved, s.reg r = m.reg r
  seg : ∀ g, g ≠ .cs → s.seg g = m.seg g

variable {E callee}

/-- The machine in which `isr_no_err` enters `irq_handler`. -/
def handlerEntry (E : IsrEnv) (s : Cpu) : Cpu := (E.prog.goto 8 s).push (E.prog.addr 9)

variable (E callee) in
/-- The call of `irq_handler`. -/
theorem exec_call (s : Cpu) : E.prog.Exec callee (E.prog.goto 8 s)
    [(.irqHandler, handlerEntry E s)] (callee .irqHandler (handlerEntry E s)) :=
  .call (listing_isrCode (n := 1) (by omega) rfl)

section
variable {m s : Cpu} {v : Fin 256} {e : Word}

theorem handlerEntry_rsp : (handlerEntry E s).reg .rsp = s.reg .rsp - 8#64 := by
  simp [handlerEntry, Machine.push, Program.goto]

theorem handlerEntry_reg {r : Reg} (hr : r ≠ .rsp) : (handlerEntry E s).reg r = s.reg r := by
  simp [handlerEntry, Machine.push, Program.goto, Function.update_of_ne hr]

/-- `irq_handler` gets the vector and the error code as arguments. -/
theorem AtIsrNoErr.args (h : AtIsrNoErr E m v e s) :
    (handlerEntry E s).reg .rdi = BitVec.ofNat 64 v ∧
      (handlerEntry E s).reg .rsi = if pushesErrorCode v then e else 0#64 := by
  rw [handlerEntry_reg (by decide), handlerEntry_reg (by decide)]
  exact ⟨h.rdi, h.rsi⟩

/-- `irq_handler` returns to the instruction after the call. -/
theorem AtIsrNoErr.ret (h : AtIsrNoErr E m v e s) {s' : Cpu} (hconv : SysV (handlerEntry E s) s') :
    s' = E.prog.goto 9 s' ∧ AfterHandler E m v s' := by
  have hret : (handlerEntry E s).mem ((handlerEntry E s).reg .rsp) = E.prog.addr 9 := by
    simp [handlerEntry, Machine.push]
  have hrsp : s'.reg .rsp = s.reg .rsp := by
    rw [hconv.rsp, handlerEntry_rsp, BitVec.sub_add_cancel]
  refine ⟨by rw [Program.goto, ← hret, ← hconv.rip], ?_, ?_, fun r hr => ?_, fun g hg => ?_⟩
  · rw [Machine.Stack, hrsp]
    refine h.stack.congr fun i hi => ?_
    have hi' : i < 14 := hi
    have := hconv.frame i hi'
    rw [handlerEntry_rsp, BitVec.sub_add_cancel] at this
    rw [this]
    exact Function.update_of_ne (by simp only [Program.goto]; bv_omega) ..
  · rw [hrsp, h.rsp]
  · rw [hconv.reg r hr, handlerEntry_reg (ne_of_mem_calleeSaved hr).1, h.saved r hr]
  · rw [hconv.seg, ← h.seg g hg]
    rfl

end

variable (E) (callee) in
/-- `no_ctx_switch`: the pops write nothing, and `iretq` loads the interrupt frame. -/
theorem exec_popScratchRegs {m s : Cpu} {f : Reg → Word}
    (h : s.Stack (scratchRegsPopped.map f ++ (interruptFrame m).reverse)) :
    ∃ s' : Cpu, E.prog.Exec callee (E.prog.goto 57 s) [] s' ∧ E.prog.fetch s' = some .iretq ∧
      s'.mem = s.mem ∧ (∀ r ∈ scratchRegs, s'.reg r = f r) ∧ (∀ r ∈ calleeSaved, s'.reg r = s.reg r) ∧
      s'.iretq = { s' with
        rip := m.rip
        seg := Function.update (Function.update s.seg .cs (m.seg .cs)) .ss (m.seg .ss)
        rflags := m.rflags
        reg := Function.update s'.reg .rsp (m.reg .rsp) } := by
  have hops : E.prog.Exec callee (E.prog.goto 57 s) [] (E.prog.goto 66 (Op.execAll popScratchRegs s)) :=
    .ops (listing_isrCode (n := 9) (by omega) rfl)
  obtain ⟨hpop, hstack⟩ : Popped s scratchRegsPopped f (Op.execAll popScratchRegs s) ∧
      (Op.execAll popScratchRegs s).Stack (interruptFrame m).reverse := execAll_pop (by decide) h
  have hmem : (Op.execAll popScratchRegs s).mem = s.mem := by rw [hpop.rest]
  have hseg : (Op.execAll popScratchRegs s).seg = s.seg := by rw [hpop.rest]
  refine ⟨_, hops, (listing_isrCode (n := 1) (by omega) rfl : E.prog.Listing 66 [.iretq]).fetch _, hmem,
    fun r hr => ?_, fun r hr => ?_, ?_⟩
  · have hmem : r ∈ scratchRegsPopped := by
      revert r
      decide
    exact hpop.reg r hmem
  · have hne : r ≠ .rsp ∧ r ∉ scratchRegsPopped := by
      revert r
      decide
    exact hpop.other r hne.2 hne.1
  · rw [Machine.Stack.iretq (m := E.prog.goto 66 (Op.execAll popScratchRegs s)) hstack]
    simp [Program.goto, hseg]

/-- `no_ctx_switch`: the scratch registers get the words on the stack, and the interrupt frame of `m`
is returned to. -/
theorem exec_noCtxSwitch {m s : Cpu} {f : Reg → Word}
    (h : s.Stack (scratchRegsPopped.map f ++ (interruptFrame m).reverse)) :
    ∃ s' : Cpu, E.prog.Exec callee (E.prog.goto 57 s) [] s' ∧ E.prog.fetch s' = some .iretq ∧
      s'.iretq.rip = m.rip ∧ s'.iretq.rflags = m.rflags ∧ s'.iretq.reg .rsp = m.reg .rsp ∧
      (∀ r ∈ scratchRegs, s'.iretq.reg r = f r) ∧
      (∀ r ∈ calleeSaved, s'.iretq.reg r = s.reg r) ∧
      ∀ g, g ≠ .cs → g ≠ .ss → s'.iretq.seg g = s.seg g := by
  obtain ⟨s', hexec, hfetch, -, hscratch, hsaved, hret⟩ := exec_popScratchRegs E callee h
  refine ⟨s', hexec, hfetch, ?_⟩
  rw [hret]
  refine ⟨rfl, rfl, by simp, fun r hr => ?_, fun r hr => ?_, fun g hc hs => ?_⟩
  · have hne : r ≠ .rsp := by
      revert r
      decide
    rw [← hscratch r hr]
    exact Function.update_of_ne hne ..
  · rw [← hsaved r hr]
    exact Function.update_of_ne (by rintro rfl; exact absurd hr (by decide)) ..
  · simp [Function.update_of_ne hc, Function.update_of_ne hs]

/-- Every register is a scratch register, callee-saved or `rsp`. -/
theorem reg_cases (r : Reg) : r = .rsp ∨ r ∈ scratchRegs ∨ r ∈ calleeSaved := by
  cases r <;> decide

/-! ## Interrupt transparency -/

/-- On the interruption of `m` by a vector, `irq_handler` is entered in `c`. -/
def EntersHandler (E : IsrEnv) (callee : IsrCall → Cpu → Cpu) (m : Cpu) (vector : Fin 256) (e : Word)
    (c : Cpu) : Prop :=
  ∃ s, E.prog.Exec callee (interrupt E m vector e) [(.irqHandler, c)] s

/-- `irq_handler` is entered in one machine only. -/
theorem EntersHandler.eq {m c s : Cpu} {v : Fin 256} {e : Word} (h : EntersHandler E callee m v e c)
    (hexec : E.prog.Exec callee (interrupt E m v e) [] (E.prog.goto 8 s)) : c = handlerEntry E s := by
  obtain ⟨s', hs'⟩ := h
  have hcalls := (hexec.trans (exec_call E callee s)).head?_calls hs' (by simp)
  simpa using hcalls

/-- The interruption of `m` by a vector is transparent: the interrupt path comes to its `iretq`, which
gives back every general-purpose register, `rip` and `rflags`, after one call of `irq_handler` with the
vector and the error code (0 if there is none). -/
def Transparent (E : IsrEnv) (callee : IsrCall → Cpu → Cpu) (m : Cpu) (vector : Fin 256) (e : Word) :
    Prop :=
  ∃ c s : Cpu, E.prog.Exec callee (interrupt E m vector e) [(.irqHandler, c)] s ∧
    E.prog.fetch s = some .iretq ∧
    s.iretq.reg = m.reg ∧ s.iretq.rip = m.rip ∧ s.iretq.rflags = m.rflags ∧
    c.reg .rdi = BitVec.ofNat 64 vector ∧
    c.reg .rsi = if pushesErrorCode vector then e else 0#64

/-- Without a context switch, the interrupt path returns with the scratch registers that the stub left
on the stack. -/
theorem exec_interrupt (m : Cpu) (v : Fin 256) (e : Word)
    (hconv : ∀ c, EntersHandler E callee m v e c → SysV c (callee .irqHandler c))
    (hsame : ∀ c, EntersHandler E callee m v e c →
      (callee .irqHandler c).var .curProc = (callee .irqHandler c).var .nextProc) :
    ∃ c s : Cpu, E.prog.Exec callee (interrupt E m v e) [(.irqHandler, c)] s ∧
      E.prog.fetch s = some .iretq ∧ s.iretq.rip = m.rip ∧ s.iretq.rflags = m.rflags ∧
      (∀ r, s.iretq.reg r = savedScratch m v r) ∧ c.reg .rdi = BitVec.ofNat 64 v ∧
      c.reg .rsi = if pushesErrorCode v then e else 0#64 := by
  obtain ⟨s, hstub, hs⟩ := exec_isrStub E callee m v e
  have hcall := hstub.trans (exec_call E callee s)
  have henter : EntersHandler E callee m v e (handlerEntry E s) := ⟨_, hcall⟩
  obtain ⟨hgoto, hafter⟩ := hs.ret (hconv _ henter)
  have hsame' := hsame _ henter
  generalize callee .irqHandler (handlerEntry E s) = h at hcall hgoto hafter hsame'
  rw [hgoto] at hcall
  have hload : E.prog.Exec callee (E.prog.goto 9 h) [] (E.prog.goto 12 (Op.execAll loadProcs h)) :=
    .ops (listing_isrCode (n := 3) (by omega) rfl)
  have hzf : zf (Op.execAll loadProcs h).rflags = true := by
    simp [loadProcs, Op.exec, Machine.setReg, hsame']
  have hje : E.prog.Exec callee (E.prog.goto 12 (Op.execAll loadProcs h)) []
      (E.prog.goto 57 (Op.execAll loadProcs h)) :=
    .je_taken (l := .noCtxSwitch) hzf (listing_isrCode (n := 1) (by omega) rfl)
  have hstack : (Op.execAll loadProcs h).Stack
      (scratchRegsPopped.map (savedScratch m v) ++ (interruptFrame m).reverse) := by
    simpa [loadProcs, Op.exec, Machine.setReg, Machine.Stack] using hafter.stack
  obtain ⟨s', hret, hfetch, hrip, hflags, hrsp, hscratch, hsaved, -⟩ := exec_noCtxSwitch hstack
  refine ⟨_, s', hcall.trans (hload.trans (hje.trans hret)), hfetch, hrip, hflags, fun r => ?_,
    hs.args⟩
  · obtain rfl | hr | hr := reg_cases r
    · rw [hrsp, savedScratch_of_notMem (by decide)]
    · exact hscratch r hr
    · have hload : (Op.execAll loadProcs h).reg r = h.reg r :=
        Op.execAll_reg_of_notMem (by simp [loadProcs, Op.dest, ne_of_mem_calleeSaved hr])
      rw [hsaved r hr, hload, hafter.saved r hr, savedScratch_of_notMem (notMem_scratchRegs hr)]

/-- An interruption is transparent, with a handler that follows the calling convention and leaves
`cur_proc` equal to `next_proc`, iff the vector has no error code or the interrupted code has the same
value in `r10` and `r11`: after an error code, `r11` comes back with the value of `r10`. -/
theorem interrupt_transparent_iff (E : IsrEnv) (callee : IsrCall → Cpu → Cpu) (m : Cpu)
    (v : Fin 256) (e : Word)
    (hconv : ∀ c, EntersHandler E callee m v e c → SysV c (callee .irqHandler c))
    (hsame : ∀ c, EntersHandler E callee m v e c →
      (callee .irqHandler c).var .curProc = (callee .irqHandler c).var .nextProc) :
    Transparent E callee m v e ↔ pushesErrorCode v = false ∨ m.reg .r10 = m.reg .r11 := by
  obtain ⟨c, s, hexec, hret, hrip, hflags, hreg, hrdi, hrsi⟩ :=
    exec_interrupt (E := E) m v e hconv hsame
  have hregs : s.iretq.reg = savedScratch m v := funext hreg
  constructor
  · rintro ⟨c', s', hexec', hret', hreg', -⟩
    obtain ⟨-, rfl⟩ := hexec.deterministic (Program.step_iretq hret) hexec' (Program.step_iretq hret')
    exact savedScratch_eq_iff.1 (hregs.symm.trans hreg')
  · intro h
    exact ⟨c, s, hexec, hret, hregs.trans (savedScratch_eq_iff.2 h), hrip, hflags, hrdi, hrsi⟩

/-- A handler that returns at once, with `next_proc` as `cur_proc`. -/
def returnAtOnce (_ : IsrCall) (c : Cpu) : Cpu :=
  { c with
    rip := c.mem (c.reg .rsp)
    reg := Function.update c.reg .rsp (c.reg .rsp + 8#64)
    var := fun _ => c.var .curProc }

theorem sysV_returnAtOnce (f : IsrCall) (c : Cpu) : SysV c (returnAtOnce f c) where
  rip := rfl
  rsp := by simp [returnAtOnce]
  reg _ hr := Function.update_of_ne (ne_of_mem_calleeSaved hr).1 ..
  seg := rfl
  frame _ _ := rfl

/-- Some addresses for the listing and the interrupt stacks. -/
def someIsrEnv : IsrEnv := ⟨0x100000#64, 8#16, 0x201000#64, 0x202000#64, 0x203000#64, 0x204000#64⟩

/-- A thread that faults with different values in `r10` and `r11`. -/
def faultingThread : Cpu where
  reg r := if r = .rsp then 0x300ff8#64 else if r = .r11 then 11#64 else 10#64
  seg _ := 0#16
  rip := 0x110000#64
  rflags := 0x202#64
  mem _ := 0#64
  var _ := 0x400000#64

/-- The hypotheses hold for a handler that returns at once: an interruption by the keyboard (vector
`0x21`) is transparent. -/
theorem interrupt_transparent_keyboard :
    Transparent someIsrEnv returnAtOnce faultingThread 0x21 0#64 :=
  (interrupt_transparent_iff someIsrEnv returnAtOnce faultingThread 0x21 0#64
    (fun c _ => sysV_returnAtOnce .irqHandler c) (fun _ _ => rfl)).2 (.inl rfl)

/-- A page fault is not transparent to this thread. -/
theorem interrupt_not_transparent_page_fault :
    (∀ c, SysV c (returnAtOnce .irqHandler c)) ∧
    (∀ c, (returnAtOnce .irqHandler c).var .curProc = (returnAtOnce .irqHandler c).var .nextProc) ∧
    ¬ Transparent someIsrEnv returnAtOnce faultingThread 0xE 2#64 := by
  refine ⟨sysV_returnAtOnce .irqHandler, fun _ => rfl, ?_⟩
  rintro ⟨c, s, hexec, hret, hreg, -⟩
  have hrun : someIsrEnv.prog.Exec returnAtOnce (interrupt someIsrEnv faultingThread 0xE 2#64) _ _ :=
    Program.exec_run 80 _
  have hend : someIsrEnv.prog.fetch (someIsrEnv.prog.run returnAtOnce 80
      (interrupt someIsrEnv faultingThread 0xE 2#64)).2 = some .iretq := rfl
  obtain ⟨-, rfl⟩ := hexec.deterministic (Program.step_iretq hret) hrun (Program.step_iretq hend)
  exact absurd (congrFun hreg .r11) (by decide)

end

end BanjOS
