import BanjOS.Isr.Handler
import BanjOS.Processes.Queues

/-!
# Nested interrupts

The interrupt path with interrupts enabled. `irq_handler` (`interrupts.c`) executes `STI` before it returns,
so from the first instruction after its call up to `iretq` a further interrupt can be taken after every
instruction. The system is the machine together with the threads that are alive, each with its node, its
context and its stack; threads run any code of their own between interrupts. What lies between an interrupt
and the return of `irq_handler` is one step, as interrupts are disabled there.
-/

namespace BanjOS

open X86

/-! ## Threads -/

/-- Memory that is used as a stack. -/
structure StackRange where
  lo : Nat
  hi : Nat
  deriving DecidableEq

/-- A word of the stack. -/
def StackRange.Has (r : StackRange) (a : Word) : Prop := r.lo ≤ a.toNat ∧ a.toNat < r.hi

/-- A stack pointer into the stack, which is empty at `hi` and full at `lo`. -/
def StackRange.Points (r : StackRange) (sp : Word) : Prop := r.lo < sp.toNat ∧ sp.toNat ≤ r.hi

instance StackRange.decidableHas (r : StackRange) (a : Word) : Decidable (r.Has a) :=
  inferInstanceAs (Decidable (_ ∧ _))

instance StackRange.decidablePoints (r : StackRange) (sp : Word) : Decidable (r.Points sp) :=
  inferInstanceAs (Decidable (_ ∧ _))

/-- A thread: the address of its `struct ProcNode`, whose first word is the address of the context, the
address of its `struct ProcContext`, whose first word is the stack pointer, and its stack. -/
structure Kthread where
  node : Word
  ctx : Word
  stack : StackRange
  node_ne : node ≠ 0#64
  ctx_ne : ctx ≠ node
  node_off : ¬ stack.Has node
  ctx_off : ¬ stack.Has ctx
  deriving DecidableEq

/-- The words of memory that belong to a thread. -/
def Kthread.Uses (t : Kthread) (a : Word) : Prop := a = t.node ∨ a = t.ctx ∨ t.stack.Has a

/-- Two threads share no word. -/
def Kthread.Apart (t u : Kthread) : Prop := ∀ a, t.Uses a → ¬ u.Uses a

/-- What is fixed: the listing and the interrupt stacks, the memory below `exStack` (`IRQ_init_tss` puts the
first address of `EX_stack` into the table, and pushes go below it) and the node, context and stack of the
code that calls `PROC_run`. This code is `kmain`, on the 64-byte stack of `boot.asm`: the range of its stack
includes the memory below it that `kmain` grows into. -/
structure SwitchEnv where
  isr : IsrEnv
  exRange : StackRange
  source : Kthread
  exRange_hi : exRange.hi = isr.exStack.toNat

/-- The listing where it is loaded. -/
abbrev SwitchEnv.prog (E : SwitchEnv) : Program IsrVar IsrLabel IsrCall := E.isr.prog

/-- The machine, and the threads that are alive (the source is one of them). -/
structure SwitchSystem where
  cpu : Cpu
  threads : List Kthread

namespace SwitchSystem

/-- `cur_proc`. -/
abbrev curProc (S : SwitchSystem) : Word := S.cpu.var .curProc

/-- `next_proc`. -/
abbrev nextProc (S : SwitchSystem) : Word := S.cpu.var .nextProc

/-- The address of the node of a thread. -/
def Selects (S : SwitchSystem) (node : Word) : Prop := ∃ t ∈ S.threads, node = t.node

end SwitchSystem

/-! ## Called code -/

/-- `IF` of the flags. -/
def interruptsEnabled (flags : Word) : Bool := flags.getLsbD 9

/-- The nodes, the contexts and the stacks of the threads stay as they are, but for the words below `sp` on
the stack that it points into. -/
structure KeepsThreads (threads : List Kthread) (sp : Word) (mem mem' : Word → Word) : Prop where
  node : ∀ t ∈ threads, mem' t.node = mem t.node
  ctx : ∀ t ∈ threads, mem' t.ctx = mem t.ctx
  stack : ∀ t ∈ threads, ∀ a, t.stack.Has a → (t.stack.Points sp → sp.toNat ≤ a.toNat) → mem' a = mem a

/-- What called code does between its first instruction (`c`) and its return (`c'`): it follows the calling
convention and leaves the threads alone, but for the free part of the stack it runs on. -/
structure Returns (threads : List Kthread) (c c' : Cpu) : Prop where
  conv : SysV c c'
  keeps : KeepsThreads threads (c.reg .rsp) c.mem c'.mem

/-- `irq_handler` for a hardware interrupt or for `int $0x80`: the handlers of these change neither
`cur_proc` nor `next_proc`, and `STI` is executed before the return. -/
structure Handles (threads : List Kthread) (c c' : Cpu) : Prop extends Returns threads c c' where
  var : c'.var = c.var
  sti : interruptsEnabled c'.rflags = true

/-- `irq_handler` with `kexit_handler`, where `threads` are those that are left: no thread is running and
another one, or the source, is selected. -/
structure HandlesExit (threads : List Kthread) (c c' : Cpu) : Prop extends Returns threads c c' where
  curProc : c'.var .curProc = 0#64
  nextProc : ∃ t ∈ threads, c'.var .nextProc = t.node
  sti : interruptsEnabled c'.rflags = true

/-- `PROC_resume_source`. -/
structure ResumesSource (E : SwitchEnv) (threads : List Kthread) (c c' : Cpu) : Prop
    extends Returns threads c c' where
  curProc : c'.var .curProc = c.var .curProc
  nextProc : c'.var .nextProc = E.source.node

/-! ## Steps -/

/-- The nodes, the contexts and the stacks of the threads stay as they are, but for the stack of `t`. -/
structure KeepsOthers (threads : List Kthread) (t : Kthread) (mem mem' : Word → Word) : Prop where
  node : ∀ u ∈ threads, mem' u.node = mem u.node
  ctx : ∀ u ∈ threads, mem' u.ctx = mem u.ctx
  stack : ∀ u ∈ threads, u ≠ t → ∀ a, u.stack.Has a → mem' a = mem a

/-- Code of the running thread `t`, outside of the interrupt path: it stays on its own stack, leaves the
others alone, and may call `PROC_reschedule`, which selects a thread or, when there is none, nothing. -/
structure ThreadCode (E : SwitchEnv) (t : Kthread) (S : SwitchSystem) (cpu' : Cpu) : Prop where
  curProc : cpu'.var .curProc = t.node
  nextProc : cpu'.var .nextProc = 0#64 ∨ S.Selects (cpu'.var .nextProc)
  code : E.prog.fetch cpu' = none
  rsp : t.stack.Points (cpu'.reg .rsp)
  keeps : KeepsOthers S.threads t S.cpu.mem cpu'.mem

/-- The node, the context and the stack of a new thread, as `PROC_create_kthread` leaves them: the frame of
`struct InitalProcFrame` at the top of the stack returns to the entry point, with an empty stack but for
the address of `kexit`. -/
structure Created (E : SwitchEnv) (u : Kthread) (mem : Word → Word) : Prop where
  size : u.stack.hi = u.stack.lo + procStackSize
  hi_lt : u.stack.hi < 2 ^ 64
  node : mem u.node = u.ctx
  ctx : mem u.ctx = BitVec.ofNat 64 (u.stack.lo + procStackSize - initialFrameSize)
  rip : E.prog.code (E.prog.pos (mem (mem u.ctx + 152#64))) = none
  rsp : mem (mem u.ctx + 176#64) = BitVec.ofNat 64 (u.stack.lo + procStackSize - 8)

/-- The memory of a new thread is not in use. -/
structure Fresh (E : SwitchEnv) (threads : List Kthread) (u : Kthread) : Prop where
  apart : ∀ t ∈ threads, u.Apart t
  ex : ∀ a, E.exRange.Has a → ¬ u.Uses a

/-- The steps. Interrupts are taken where `may` allows it. -/
inductive SwitchStep (E : SwitchEnv) (may : SwitchSystem → Prop) : SwitchSystem → SwitchSystem → Prop
  /-- An instruction of the interrupt path. -/
  | instr {S : SwitchSystem} (callee : IsrCall → Cpu → Cpu) {calls : List (IsrCall × Cpu)} {cpu' : Cpu} :
    E.prog.step callee S.cpu = some (calls, cpu') →
    (∀ c, (.procResumeSource, c) ∈ calls → ResumesSource E S.threads c (callee .procResumeSource c)) →
    SwitchStep E may S { S with cpu := cpu' }
  /-- Its end. -/
  | iretq {S : SwitchSystem} : E.prog.fetch S.cpu = some .iretq →
    SwitchStep E may S { S with cpu := S.cpu.iretq }
  /-- A hardware interrupt, up to the return of `irq_handler`. Its descriptor has no interrupt stack. -/
  | irq {S : SwitchSystem} (vector : Fin 256) (callee : IsrCall → Cpu → Cpu) {c : Cpu} : may S →
    interruptsEnabled S.cpu.rflags = true →
    E.isr.istStack vector = none → pushesErrorCode vector = false →
    EntersHandler E.isr callee S.cpu vector 0#64 c → Handles S.threads c (callee .irqHandler c) →
    SwitchStep E may S { S with cpu := callee .irqHandler c }
  /-- `int $0x80` in the code of a thread. -/
  | int80 {S : SwitchSystem} (callee : IsrCall → Cpu → Cpu) {c : Cpu} : may S →
    E.prog.fetch S.cpu = none →
    EntersHandler E.isr callee S.cpu 0x80 0#64 c → Handles S.threads c (callee .irqHandler c) →
    SwitchStep E may S { S with cpu := callee .irqHandler c }
  /-- `int $0x81`: the thread ends. -/
  | kexit {S : SwitchSystem} {t : Kthread} (callee : IsrCall → Cpu → Cpu) {c : Cpu} :
    E.prog.fetch S.cpu = none → t ∈ S.threads → t ≠ E.source → S.curProc = t.node →
    EntersHandler E.isr callee S.cpu 0x81 0#64 c →
    HandlesExit (S.threads.erase t) c (callee .irqHandler c) →
    SwitchStep E may S ⟨callee .irqHandler c, S.threads.erase t⟩
  /-- Any other code of a thread. -/
  | thread {S : SwitchSystem} {t : Kthread} {cpu' : Cpu} : E.prog.fetch S.cpu = none → t ∈ S.threads →
    S.curProc = t.node → ThreadCode E t S cpu' → SwitchStep E may S { S with cpu := cpu' }
  /-- `PROC_create_kthread`. -/
  | create {S : SwitchSystem} {t u : Kthread} {cpu' : Cpu} : E.prog.fetch S.cpu = none → t ∈ S.threads →
    S.curProc = t.node → ThreadCode E t S cpu' → Fresh E S.threads u → Created E u cpu'.mem →
    SwitchStep E may S ⟨cpu', u :: S.threads⟩
  /-- `PROC_run` by the source, which clears its context. -/
  | procRun {S : SwitchSystem} : E.prog.fetch S.cpu = none → S.curProc = E.source.node →
    SwitchStep E may S { S with cpu := { S.cpu with mem := Function.update S.cpu.mem E.source.ctx 0#64 } }

/-- The first call of `PROC_run`, when it has set `cur_proc`: the threads have been created. -/
structure SwitchBoot (E : SwitchEnv) (S : SwitchSystem) : Prop where
  apart : S.threads.Pairwise Kthread.Apart
  ex : ∀ t ∈ S.threads, ∀ a, E.exRange.Has a → ¬ t.Uses a
  exRoom : E.exRange.lo + 216 ≤ E.exRange.hi
  source : E.source ∈ S.threads
  created : ∀ t ∈ S.threads, t ≠ E.source → Created E t S.cpu.mem
  node : S.cpu.mem E.source.node = E.source.ctx
  ctx : S.cpu.mem E.source.ctx = 0#64
  curProc : S.curProc = E.source.node
  nextProc : S.nextProc = 0#64
  code : E.prog.fetch S.cpu = none
  rsp : E.source.stack.Points (S.cpu.reg .rsp)

/-! ## Properties -/

/-- The stack pointer in the context of a thread points into the thread's own stack. (The context of the
source is empty until the source is switched away from.) -/
def OwnsContexts (E : SwitchEnv) (S : SwitchSystem) : Prop :=
  ∀ t ∈ S.threads, t.stack.Has (S.cpu.mem t.ctx) ∨ (t = E.source ∧ S.cpu.mem t.ctx = 0#64)

/-- The stacks: the memory that `kexit` uses, and those of the threads. -/
def stacksOf (E : SwitchEnv) (threads : List Kthread) : List StackRange :=
  E.exRange :: threads.map (·.stack)

/-- There is room on the stack for what the interrupt path pushes: up to 15 bytes for the alignment, the
interrupt frame, the nine scratch registers, the ten other ones and a return address. -/
def HasRoom (E : SwitchEnv) (S : SwitchSystem) : Prop :=
  ∃ r ∈ stacksOf E S.threads,
    r.lo + 216 ≤ (S.cpu.reg .rsp).toNat ∧ (S.cpu.reg .rsp).toNat ≤ r.hi

/-- The positions from `no_cur_proc`, after the store of the stack pointer, up to the store to `cur_proc`. -/
def switchPositions : List Nat := [36, 37, 38, 39, 40, 41, 42, 67, 68]

/-- The machine is on its way from a thread to the next one. -/
def Switching (E : SwitchEnv) (S : SwitchSystem) : Prop :=
  S.curProc ≠ 0#64 ∧ ∃ p ∈ switchPositions, S.cpu.rip = E.prog.addr p

end BanjOS
