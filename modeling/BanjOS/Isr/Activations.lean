import BanjOS.Isr.Nested

/-!
# Activations of the interrupt path

Interrupts nest, so the stack of a thread holds a chain of interrupt frames: the position in the interrupt
path at which the thread is interrupted, with the stack pointer and the registers it needs there, then the
position at which that activation of the path was interrupted, and so on up to the thread's own code
(`Resumes`). A thread that is not running has such a chain from the stack pointer in its context on, as if
it stood at the first `pop` of the restore path (`Saved`). An instruction of the path keeps the chain
(`OnPath.step`), and so does `iretq` (`OnPath.iretq`).
-/

namespace BanjOS

open X86

/-! ## Activations -/

/-- What of a machine decides how an activation of the interrupt path goes on. -/
structure Act where
  rip : Word
  rsp : Word
  rax : Word
  rcx : Word
  rflags : Word

/-- The activation that a machine executes. -/
def actOf (m : Cpu) : Act := ⟨m.rip, m.reg .rsp, m.reg .rax, m.reg .rcx, m.rflags⟩

/-- The words that an instruction of the listing pushes. -/
def instrPushCount : Instr IsrVar IsrLabel IsrCall → Nat
  | .op o => o.pushCount
  | _ => 0

/-- The words that it pops. -/
def instrPopCount : Instr IsrVar IsrLabel IsrCall → Nat
  | .op o => o.popCount
  | _ => 0

/-- The number of words between the stack pointer at a position and the lowest one in the activation, which
is the one that goes into the context. -/
def level (p : Nat) : Nat :=
  10 + ((isrCode.take p).map instrPopCount).sum - ((isrCode.take p).map instrPushCount).sum

/-- The positions of the path at which a thread can be resumed: before the context is stored and after
`cur_proc` is. -/
def Resumable (p : Nat) : Prop := (9 ≤ p ∧ p ≤ 35) ∨ (43 ≤ p ∧ p ≤ 66)

/-- What the path relies on at a position. -/
def RegFact (t : Kthread) (p : Nat) (a : Act) : Prop :=
  match p with
  | 10 | 11 | 12 | 13 | 34 => a.rax = t.node
  | 14 => zf a.rflags = false
  | 35 => a.rcx = t.ctx
  | _ => True

/-- The activation below, which `iretq` goes back to: `base` is the lowest stack pointer of the one on top.
The last two `pop`s before `iretq` load `rcx` and `rax`. -/
def frameAct (mem : Word → Word) (base : Word) (p : Nat) (a : Act) : Act where
  rip := mem (base + 152#64)
  rsp := mem (base + 176#64)
  rax := if p = 66 then a.rax else mem (base + 144#64)
  rcx := if 65 ≤ p then a.rcx else mem (base + 136#64)
  rflags := mem (base + 168#64)

/-- The thread `t` can go on from an activation: it is in its own code, or in the interrupt path above an
activation from which it can go on. -/
inductive Resumes (E : SwitchEnv) (mem : Word → Word) (t : Kthread) : Act → Prop
  | code {a : Act} : E.prog.code (E.prog.pos a.rip) = none → t.stack.Points a.rsp → Resumes E mem t a
  | path {a : Act} {p : Nat} {base : Word} : Resumable p → a.rip = E.prog.addr p →
    a.rsp = base + BitVec.ofNat 64 (8 * level p) → RegFact t p a → t.stack.lo + 8 < base.toNat →
    base.toNat + 192 ≤ (mem (base + 176#64)).toNat → Resumes E mem t (frameAct mem base p a) →
    Resumes E mem t a

/-- A thread that is not running is resumed from the stack pointer in its context. -/
def Saved (E : SwitchEnv) (mem : Word → Word) (t : Kthread) : Prop :=
  Resumes E mem t ⟨E.prog.addr 43, mem t.ctx, 0#64, 0#64, 0#64⟩

section
variable {E : SwitchEnv} {mem mem' : Word → Word} {t : Kthread} {a : Act} {p : Nat} {base : Word}

/-- The levels of the positions at which a thread can be resumed. -/
theorem level_le (hp : Resumable p) : level p ≤ 19 ∧ (p ≤ 65 → level p ≤ 18) ∧ (p ≤ 64 → level p ≤ 17) := by
  have h : ∀ p < 67, level p ≤ 19 ∧ (p ≤ 65 → level p ≤ 18) ∧ (p ≤ 64 → level p ≤ 17) := by decide
  refine h p ?_
  rcases hp with hp | hp <;> omega

/-- A position is below the end of the shared part. -/
theorem Resumable.lt (hp : Resumable p) : p < 69 := by
  rcases hp with hp | hp <;> omega

/-- The stack pointer of an activation is in the thread's stack. -/
theorem Resumes.points (h : Resumes E mem t a) : t.stack.Points a.rsp := by
  induction h with
  | code _ hsp => exact hsp
  | @path a p base hp _ hrsp _ hlo hhi _ ih =>
    obtain ⟨hl, -⟩ := level_le hp
    have hhi' : (mem (base + 176#64)).toNat ≤ t.stack.hi := ih.2
    rw [StackRange.Points, hrsp]
    have hnat : (base + BitVec.ofNat 64 (8 * level p)).toNat = base.toNat + 8 * level p := by
      have := (mem (base + 176#64)).isLt
      bv_omega
    omega

/-- The frame below an activation is in the stack above its stack pointer. -/
theorem frameAct_congr (hp : Resumable p) (hrsp : a.rsp = base + BitVec.ofNat 64 (8 * level p))
    (hlo : t.stack.lo + 8 < base.toNat) (hhi : base.toNat + 192 ≤ t.stack.hi) (hlt : base.toNat + 192 < 2 ^ 64)
    (hmem : ∀ b, a.rsp.toNat ≤ b.toNat → t.stack.Has b → mem' b = mem b) :
    frameAct mem' base p a = frameAct mem base p a ∧ mem' (base + 176#64) = mem (base + 176#64) := by
  obtain ⟨hl, hl65, hl64⟩ := level_le hp
  have hnat : a.rsp.toNat = base.toNat + 8 * level p := by
    rw [hrsp]
    bv_omega
  have hword : ∀ k, level p ≤ k → k < 24 →
      mem' (base + BitVec.ofNat 64 (8 * k)) = mem (base + BitVec.ofNat 64 (8 * k)) := by
    intro k hk hk'
    have hb : (base + BitVec.ofNat 64 (8 * k)).toNat = base.toNat + 8 * k := by bv_omega
    exact hmem _ (by omega) ⟨by omega, by omega⟩
  have hrip' : mem' (base + 152#64) = mem (base + 152#64) := hword 19 (by omega) (by omega)
  have hflags' : mem' (base + 168#64) = mem (base + 168#64) := hword 21 (by omega) (by omega)
  have hrsp' : mem' (base + 176#64) = mem (base + 176#64) := hword 22 (by omega) (by omega)
  refine ⟨?_, hrsp'⟩
  simp only [frameAct, hrip', hflags', hrsp']
  congr 1
  · split
    · rfl
    · exact hword 18 (hl65 (by rcases hp with hp | hp <;> omega)) (by omega)
  · split
    · rfl
    · exact hword 17 (hl64 (by omega)) (by omega)

/-- An activation depends on the stack above its stack pointer only. -/
theorem Resumes.congr (h : Resumes E mem t a)
    (hmem : ∀ b, a.rsp.toNat ≤ b.toNat → t.stack.Has b → mem' b = mem b) : Resumes E mem' t a := by
  induction h with
  | code hcode hsp => exact .code hcode hsp
  | @path a p base hp hrip hrsp hfact hlo hhi hframe ih =>
    have hhi' : (mem (base + 176#64)).toNat ≤ t.stack.hi := hframe.points.2
    have hlt := (mem (base + 176#64)).isLt
    obtain ⟨hl, -⟩ := level_le hp
    have hnat : a.rsp.toNat = base.toNat + 8 * level p := by
      rw [hrsp]
      bv_omega
    obtain ⟨heq, hrsp'⟩ := frameAct_congr hp hrsp hlo (by omega) (by omega) hmem
    refine .path hp hrip hrsp hfact hlo (by rwa [hrsp']) ?_
    rw [heq]
    refine ih fun b hb => hmem b ?_
    have hb' : (mem (base + 176#64)).toNat ≤ b.toNat := hb
    omega

end

/-! ## Instructions of an activation -/

/-- A machine in the interrupt path, at a position where the thread can be resumed. -/
structure OnPath (E : SwitchEnv) (t : Kthread) (m : Cpu) (p : Nat) (base : Word) : Prop where
  resumable : Resumable p
  rip : m.rip = E.prog.addr p
  rsp : m.reg .rsp = base + BitVec.ofNat 64 (8 * level p)
  fact : RegFact t p (actOf m)
  lo : t.stack.lo + 8 < base.toNat
  hi : base.toNat + 192 ≤ (m.mem (base + 176#64)).toNat
  frame : Resumes E m.mem t (frameAct m.mem base p (actOf m))

/-- The instruction at a position is plain. -/
def plainAt (p : Nat) : Bool :=
  match isrCode[p]? with
  | some (.op o) => o.plain
  | _ => false

section
variable {E : SwitchEnv} {callee : IsrCall → Cpu → Cpu} {t : Kthread} {m m' : Cpu} {p : Nat} {base : Word}
  {calls : List (IsrCall × Cpu)}

theorem OnPath.resumes (h : OnPath E t m p base) : Resumes E m.mem t (actOf m) :=
  .path h.resumable h.rip h.rsp h.fact h.lo h.hi h.frame

/-- A thread that can go on is in its own code or in the path. -/
theorem Resumes.onPath (h : Resumes E m.mem t (actOf m)) : E.prog.fetch m = none ∨ ∃ p base, OnPath E t m p base := by
  cases h with
  | code hcode => exact .inl hcode
  | path hp hrip hrsp hfact hlo hhi hframe => exact .inr ⟨_, _, hp, hrip, hrsp, hfact, hlo, hhi, hframe⟩

/-- The stack pointer, as a number. -/
theorem OnPath.rsp_toNat (h : OnPath E t m p base) :
    (m.reg .rsp).toNat = base.toNat + 8 * level p ∧ base.toNat + 192 ≤ t.stack.hi ∧
      base.toNat + 192 < 2 ^ 64 := by
  obtain ⟨hl, -⟩ := level_le h.resumable
  have hhi := h.hi
  have hhi' : (m.mem (base + 176#64)).toNat ≤ t.stack.hi := h.frame.points.2
  have hlt := (m.mem (base + 176#64)).isLt
  rw [h.rsp]
  refine ⟨by bv_omega, by omega, by omega⟩

/-- The listing at a position. -/
theorem listing_getElem? {ins : Instr IsrVar IsrLabel IsrCall} (h : isrCode[p]? = some ins) :
    E.prog.Listing p [ins] := by
  obtain ⟨hp, hins⟩ := List.getElem?_eq_some_iff.1 h
  have hlen : isrCode.length = 69 := rfl
  refine listing_isrCode (n := 1) (by omega) ?_
  rw [List.drop_eq_getElem_cons hp, hins]
  rfl

/-- A machine at a position. -/
theorem eq_goto (h : m.rip = E.prog.addr p) : m = E.prog.goto p m := by rw [Program.goto, ← h]

/-- The instruction at a position of the shared part. -/
theorem fetch_eq (hrip : m.rip = E.prog.addr p) (hp : p < 69) : E.prog.fetch m = isrCode[p]? := by
  rw [eq_goto hrip, Program.fetch_goto _ (by omega)]
  exact if_pos hp

/-- How an instruction changes the level. -/
theorem level_succ {o : Op IsrVar} (hcode : isrCode[p]? = some (.op o)) :
    level (p + 1) + o.pushCount = level p + o.popCount := by
  have h : ∀ p < 69, level (p + 1) + ((isrCode[p]?).map instrPushCount).getD 0 =
      level p + ((isrCode[p]?).map instrPopCount).getD 0 := by decide
  have hlen : isrCode.length = 69 := rfl
  obtain ⟨hp, -⟩ := List.getElem?_eq_some_iff.1 hcode
  have := h p (by omega)
  rwa [hcode] at this

/-- A plain instruction, after which the thread can still be resumed. -/
theorem OnPath.plain (h : OnPath E t m p base) {o : Op IsrVar} (hcode : isrCode[p]? = some (.op o))
    (hplain : o.plain = true) (hp' : Resumable (p + 1))
    (hfact : RegFact t (p + 1) (actOf (E.prog.goto (p + 1) (o.exec m))))
    (hrax : p + 1 = 66 → (o.exec m).reg .rax = m.mem (base + 144#64))
    (hrcx : 65 ≤ p + 1 → (o.exec m).reg .rcx = if 65 ≤ p then m.reg .rcx else m.mem (base + 136#64)) :
    OnPath E t (E.prog.goto (p + 1) (o.exec m)) (p + 1) base ∧ (o.exec m).var = m.var ∧
      ∀ b, ¬ t.stack.Has b → (o.exec m).mem b = m.mem b := by
  obtain ⟨hvar, hsp, hmem⟩ := Op.exec_plain (m := m) hplain
  obtain ⟨hrsp, hhi, hlt⟩ := h.rsp_toNat
  obtain ⟨hl, -⟩ := level_le h.resumable
  have hlo := h.lo
  have hlevel := level_succ hcode
  -- only the word below the stack pointer may change
  have hbelow : (m.reg .rsp - 8#64).toNat = base.toNat + 8 * level p - 8 := by bv_omega
  have habove : ∀ b, (actOf m).rsp.toNat ≤ b.toNat → t.stack.Has b → (o.exec m).mem b = m.mem b := by
    intro b hb _
    have hb' : (m.reg .rsp).toNat ≤ b.toNat := hb
    refine hmem b fun hc => ?_
    rw [hc, hbelow] at hb'
    omega
  obtain ⟨hframe, hrsp'⟩ := frameAct_congr h.resumable h.rsp hlo hhi hlt habove
  have hp66 : ¬ p = 66 := by rcases hp' with hp' | hp' <;> omega
  have heq : frameAct (o.exec m).mem base (p + 1) (actOf (E.prog.goto (p + 1) (o.exec m))) =
      frameAct m.mem base p (actOf m) := by
    have hrax' : (o.exec m).mem (base + 144#64) = m.mem (base + 144#64) := by
      simpa [frameAct, hp66] using congrArg Act.rax hframe
    have hrcx' : (if 65 ≤ p then m.reg .rcx else (o.exec m).mem (base + 136#64)) =
        if 65 ≤ p then m.reg .rcx else m.mem (base + 136#64) := congrArg Act.rcx hframe
    rw [← hframe]
    simp only [frameAct, if_neg hp66]
    congr 1
    · split
      · next hc => exact (hrax hc).trans hrax'.symm
      · rfl
    · split
      · next hc => exact (hrcx hc).trans hrcx'.symm
      · next hc =>
        have hp65 : ¬ 65 ≤ p := by omega
        rw [if_neg hp65]
  refine ⟨⟨hp', rfl, ?_, hfact, hlo, ?_, ?_⟩, hvar, fun b hb => hmem b fun hc => hb ?_⟩
  · show (o.exec m).reg .rsp = _
    rw [h.rsp] at hsp
    bv_omega
  · show _ ≤ ((o.exec m).mem (base + 176#64)).toNat
    rw [hrsp']
    exact h.hi
  · rw [Program.goto_mem, heq]
    refine h.frame.congr fun b hb => habove b ?_
    have hb' : (m.mem (base + 176#64)).toNat ≤ b.toNat := hb
    have hhi' := h.hi
    show (m.reg .rsp).toNat ≤ b.toNat
    omega
  · rw [StackRange.Has, hc, hbelow]
    omega

/-- Most positions have no fact. -/
theorem regFact_of_le {a : Act} (hp : (15 ≤ p ∧ p ≤ 33) ∨ 36 ≤ p) : RegFact t p a := by
  unfold RegFact
  split <;> trivial

/-- The thread `t` gets from `m` to `m'`, where it can be resumed, and changes its own stack only. -/
structure Steps (E : SwitchEnv) (t : Kthread) (m m' : Cpu) : Prop where
  var : m'.var = m.var
  mem : ∀ b, ¬ t.stack.Has b → m'.mem b = m.mem b
  resumes : Resumes E m'.mem t (actOf m')

/-- A plain instruction of an activation. -/
theorem OnPath.step_plain (h : OnPath E t m p base) (hplain : plainAt p = true) (hp' : Resumable (p + 1))
    (hfact : ∀ o, isrCode[p]? = some (.op o) → RegFact t (p + 1) (actOf (E.prog.goto (p + 1) (o.exec m))))
    (hpop : 64 ≤ p → ∀ o, isrCode[p]? = some (.op o) →
      (p + 1 = 66 → (o.exec m).reg .rax = m.mem (base + 144#64)) ∧
      (o.exec m).reg .rcx = if 65 ≤ p then m.reg .rcx else m.mem (base + 136#64))
    (hstep : E.prog.step callee m = some (calls, m')) : calls = [] ∧ Steps E t m m' := by
  rw [plainAt] at hplain
  split at hplain
  case h_1 o hcode =>
    rw [eq_goto h.rip, Program.step_op (listing_getElem? hcode)] at hstep
    cases hstep
    obtain ⟨h', hvar, hmem⟩ := h.plain hcode hplain hp' (hfact o hcode)
      (fun hc => (hpop (by omega) o hcode).1 hc) fun hc => (hpop (by omega) o hcode).2
    exact ⟨rfl, hvar, hmem, h'.resumes⟩
  case h_2 => cases hplain

/-- A jump of an activation to a position of the same level. -/
theorem OnPath.jump (h : OnPath E t m p base) {q : Nat} (hq : Resumable q) (hp : p ≤ 64) (hq' : q ≤ 64)
    (hlevel : level q = level p) (hfact : RegFact t q (actOf m)) : Steps E t m (E.prog.goto q m) := by
  refine ⟨rfl, fun _ _ => rfl, .path hq rfl ?_ ?_ h.lo h.hi ?_⟩
  · rw [hlevel]
    exact h.rsp
  · unfold RegFact at hfact ⊢
    exact hfact
  · have heq : frameAct m.mem base q (actOf (E.prog.goto q m)) = frameAct m.mem base p (actOf m) := by
      have h66 : ¬ q = 66 ∧ ¬ p = 66 := by omega
      have h65 : ¬ 65 ≤ q ∧ ¬ 65 ≤ p := by omega
      simp only [frameAct, if_neg h66.1, if_neg h66.2, if_neg h65.1, if_neg h65.2]
    rw [Program.goto_mem, heq]
    exact h.frame

/-- The thread `t` has stored its stack pointer in its context, and is about to switch. -/
structure Stores (E : SwitchEnv) (t : Kthread) (m m' : Cpu) : Prop where
  var : m'.var = m.var
  mem : ∀ b, b ≠ t.ctx → m'.mem b = m.mem b
  rip : m'.rip = E.prog.addr 36
  ctx : m'.mem t.ctx = m'.reg .rsp
  lo : t.stack.lo + 8 < (m'.reg .rsp).toNat
  saved : Saved E m'.mem t

/-- The store of the stack pointer. -/
theorem OnPath.store (h : OnPath E t m 35 base) (hstep : E.prog.step callee m = some (calls, m')) :
    calls = [] ∧ Stores E t m m' := by
  have hcode : isrCode[35]? = some (Instr.op (.store .rcx 0#64 .rsp)) := rfl
  have hrcx : m.reg .rcx = t.ctx := h.fact
  have hbase : m.reg .rsp = base := by
    have := h.rsp
    simpa [show level 35 = 0 by decide] using this
  obtain ⟨-, hhi, hlt⟩ := h.rsp_toNat
  rw [eq_goto h.rip, Program.step_op (listing_getElem? hcode)] at hstep
  cases hstep
  have hmem : (E.prog.goto 36 ((Op.store (V := IsrVar) .rcx 0#64 .rsp).exec m)).mem =
      Function.update m.mem t.ctx base := by
    simp [Op.exec, hrcx, hbase]
  have hother : ∀ b, b ≠ t.ctx →
      (E.prog.goto 36 ((Op.store (V := IsrVar) .rcx 0#64 .rsp).exec m)).mem b = m.mem b := fun b hb => by
    rw [hmem, Function.update_of_ne hb]
  have hoff : ∀ b, t.stack.Has b → b ≠ t.ctx := fun b hb hc => t.ctx_off (hc ▸ hb)
  have hctx : (E.prog.goto 36 ((Op.store (V := IsrVar) .rcx 0#64 .rsp).exec m)).mem t.ctx = base := by
    rw [hmem, Function.update_self]
  refine ⟨rfl, rfl, hother, rfl, hctx.trans hbase.symm, ?_, ?_⟩
  · show _ ≤ (m.reg .rsp).toNat
    rw [hbase]
    exact h.lo
  · -- the frame is the one of the activation
    have hsaved : Resumes E m.mem t ⟨E.prog.addr 43, base, 0#64, 0#64, 0#64⟩ :=
      .path (p := 43) (.inr (by omega)) rfl (by simp [show level 43 = 0 by decide])
        (regFact_of_le (.inr (by omega))) h.lo h.hi h.frame
    rw [Saved, hctx]
    exact hsaved.congr fun b _ hb => hother b (hoff b hb)

/-- The comparison of `cur_proc` and `next_proc`, up to the save path. -/
theorem OnPath.step_compare (h : OnPath E t m p base) (hp : p ≤ 14) (hcur : m.var .curProc = t.node)
    (hstep : E.prog.step callee m = some (calls, m')) : calls = [] ∧ Steps E t m m' := by
  have h9 : 9 ≤ p := by rcases h.resumable with hp | hp <;> omega
  have hnext : ∀ {q}, 9 ≤ q → q ≤ 15 → Resumable q := fun h h' => .inl ⟨h, by omega⟩
  have hfact := h.fact
  obtain rfl | rfl | rfl | rfl | rfl | rfl : p = 9 ∨ p = 10 ∨ p = 11 ∨ p = 12 ∨ p = 13 ∨ p = 14 := by omega
  · refine h.step_plain rfl (hnext (by omega) (by omega)) (fun o ho => ?_) (by omega) hstep
    cases ho
    simpa [RegFact, actOf, Op.exec, Machine.setReg] using hcur
  · refine h.step_plain rfl (hnext (by omega) (by omega)) (fun o ho => ?_) (by omega) hstep
    cases ho
    simpa [RegFact, actOf, Op.exec, Machine.setReg] using hfact
  · refine h.step_plain rfl (hnext (by omega) (by omega)) (fun o ho => ?_) (by omega) hstep
    cases ho
    simpa [RegFact, actOf, Op.exec, Machine.setReg] using hfact
  · have hcode : isrCode[12]? = some (Instr.je IsrLabel.noCtxSwitch) := rfl
    rw [eq_goto h.rip, Program.step_je (listing_getElem? hcode)] at hstep
    cases hstep
    refine ⟨rfl, ?_⟩
    split
    · show Steps E t m (E.prog.goto 57 m)
      exact h.jump (.inr (by omega)) (by omega) (by omega) (by decide) (regFact_of_le (.inr (by omega)))
    · exact h.jump (hnext (by omega) (by omega)) (by omega) (by omega) (by decide) hfact
  · refine h.step_plain rfl (hnext (by omega) (by omega)) (fun o ho => ?_) (by omega) hstep
    cases ho
    have hrax : m.reg .rax = t.node := hfact
    simpa [RegFact, actOf, Op.exec, hrax] using t.node_ne
  · have hcode : isrCode[14]? = some (Instr.je IsrLabel.noCurProc) := rfl
    have hzf : zf m.rflags = false := hfact
    rw [eq_goto h.rip, Program.step_je (listing_getElem? hcode), hzf] at hstep
    cases hstep
    exact ⟨rfl, h.jump (hnext (by omega) (by omega)) (by omega) (by omega) (by decide)
      (regFact_of_le (.inl (by omega)))⟩

/-- One instruction of an activation, when `t` is the running thread. -/
theorem OnPath.step (h : OnPath E t m p base) (hcur : m.var .curProc = t.node) (hnode : m.mem t.node = t.ctx)
    (hstep : E.prog.step callee m = some (calls, m')) :
    calls = [] ∧ (Steps E t m m' ∨ Stores E t m m') := by
  have hall : ∀ p < 66, (15 ≤ p ∧ p ≤ 34) ∨ 43 ≤ p → plainAt p = true := by decide
  have hp := h.resumable
  obtain hp | rfl | rfl | rfl | rfl | rfl | rfl | hp : p ≤ 14 ∨ p = 33 ∨ p = 34 ∨ p = 35 ∨ p = 64 ∨ p = 65 ∨
      p = 66 ∨ ((15 ≤ p ∧ p ≤ 32) ∨ (43 ≤ p ∧ p ≤ 63)) := by
    rcases hp with hp | hp <;> omega
  · exact (h.step_compare hp hcur hstep).imp id .inl
  · refine (h.step_plain rfl (.inl (by omega)) (fun o ho => ?_) (by omega) hstep).imp id .inl
    cases ho
    simpa [RegFact, actOf, Op.exec, Machine.setReg] using hcur
  · refine (h.step_plain rfl (.inl (by omega)) (fun o ho => ?_) (by omega) hstep).imp id .inl
    cases ho
    have hrax : m.reg .rax = t.node := h.fact
    simpa [RegFact, actOf, Op.exec, Machine.setReg, hrax] using hnode
  · exact (h.store hstep).imp id .inr
  · refine (h.step_plain rfl (.inr (by omega)) (fun o _ => regFact_of_le (.inr (by omega))) (fun _ o ho => ?_)
      hstep).imp id .inl
    cases ho
    have hrsp : m.reg .rsp = base + 136#64 := h.rsp
    exact ⟨by omega, by simp [Op.exec, Machine.pop, Machine.setReg, hrsp]⟩
  · refine (h.step_plain rfl (.inr (by omega)) (fun o _ => regFact_of_le (.inr (by omega))) (fun _ o ho => ?_)
      hstep).imp id .inl
    cases ho
    have hrsp : m.reg .rsp = base + 144#64 := h.rsp
    simp [Op.exec, Machine.pop, Machine.setReg, hrsp]
  · have hcode : isrCode[66]? = some Instr.iretq := rfl
    have hret : E.prog.fetch (E.prog.goto 66 m) = some .iretq := (listing_getElem? hcode).fetch m
    rw [eq_goto h.rip, Program.step_iretq hret] at hstep
    cases hstep
  · refine (h.step_plain (hall p (by omega) (by omega)) ?_ (fun o _ => regFact_of_le ?_) (by omega)
      hstep).imp id .inl
    · rw [Resumable]
      omega
    · omega

/-- `iretq` goes back to the activation below. -/
theorem OnPath.iretq (h : OnPath E t m p base) (hret : E.prog.fetch m = some .iretq) :
    Resumes E m.iretq.mem t (actOf m.iretq) := by
  have hall : ∀ p < 69, isrCode[p]? = some Instr.iretq → p = 66 := by decide
  rw [fetch_eq h.rip h.resumable.lt] at hret
  obtain rfl := hall p h.resumable.lt hret
  have hrsp : m.reg .rsp = base + 152#64 := h.rsp
  have heq : actOf m.iretq = frameAct m.mem base 66 (actOf m) := by
    simp [actOf, Machine.iretq, frameAct, hrsp, BitVec.add_assoc]
  rw [heq]
  exact h.frame

end

end BanjOS
