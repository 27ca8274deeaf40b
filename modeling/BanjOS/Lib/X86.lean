import Mathlib.Logic.Function.Basic
import Mathlib.Algebra.Ring.Nat

/-!
# A fragment of x86-64

The instructions that hand-written interrupt code uses, over any set of static variables (`V`), labels
(`L`) and called functions (`F`). Memory is a map of 64-bit words at 8-byte aligned addresses. Each
instruction takes one unit of the text segment, so an instruction's address is the start of the text
plus its position in the listing; nothing computes with the difference of two code addresses. Of the
status flags only `ZF` is tested by the jumps below, and only `ZF` is updated.

`Words mem a l` says that the words from the address `a` upwards are `l`; the stack is read through it
(`Machine.Stack`), and the lemmas on `push`, `pop` and their sequences keep the list view.
-/

namespace X86

/-- A 64-bit word. -/
abbrev Word := BitVec 64

/-- The sixteen general-purpose registers. -/
inductive Reg
  | rax | rcx | rdx | rbx | rsp | rbp | rsi | rdi | r8 | r9 | r10 | r11 | r12 | r13 | r14 | r15
  deriving DecidableEq, Repr

/-- The segment registers. -/
inductive Seg
  | cs | ss | ds | es | fs | gs
  deriving DecidableEq, Repr

/-! ## Machine state -/

/-- A machine: registers, memory and the static variables, which lie outside of every stack. -/
structure Machine (V : Type) where
  reg : Reg → Word
  seg : Seg → BitVec 16
  rip : Word
  rflags : Word
  mem : Word → Word
  var : V → Word

/-- `ZF` of the flags. -/
def zf (flags : Word) : Bool := flags.getLsbD 6

/-- Set `ZF` to `b`. -/
def setZf (flags : Word) (b : Bool) : Word :=
  if b then flags ||| 0x40#64 else flags &&& ~~~0x40#64

@[simp] theorem zf_setZf (flags : Word) (b : Bool) : zf (setZf flags b) = b := by
  cases b <;> simp [zf, setZf]

variable {V L F : Type}

namespace Machine

/-- Write a general-purpose register. -/
def setReg (m : Machine V) (r : Reg) (v : Word) : Machine V :=
  { m with reg := Function.update m.reg r v }

/-- Push a word. -/
def push (m : Machine V) (v : Word) : Machine V :=
  { m with
    reg := Function.update m.reg .rsp (m.reg .rsp - 8#64)
    mem := Function.update m.mem (m.reg .rsp - 8#64) v }

/-- Pop a word into a register. -/
def pop (m : Machine V) (r : Reg) : Machine V :=
  (m.setReg .rsp (m.reg .rsp + 8#64)).setReg r (m.mem (m.reg .rsp))

end Machine

/-! ## Instructions -/

/-- The instructions that fall through to the next one. -/
inductive Op (V : Type)
  /-- `push r` -/
  | push (r : Reg)
  /-- `pop r` -/
  | pop (r : Reg)
  /-- `mov r, n` -/
  | movImm (r : Reg) (n : Word)
  /-- `mov r, s` -/
  | movFromSeg (r : Reg) (s : Seg)
  /-- `mov s, r` -/
  | movToSeg (s : Seg) (r : Reg)
  /-- `mov r, [base + off]` -/
  | load (r base : Reg) (off : Word)
  /-- `mov [base + off], r` -/
  | store (base : Reg) (off : Word) (r : Reg)
  /-- `mov r, [rel v]` -/
  | loadVar (r : Reg) (v : V)
  /-- `mov [rel v], r` -/
  | storeVar (v : V) (r : Reg)
  /-- `lea r, [base + off]` -/
  | lea (r base : Reg) (off : Word)
  /-- `add r, n` -/
  | addImm (r : Reg) (n : Word)
  /-- `sub r, n` -/
  | subImm (r : Reg) (n : Word)
  /-- `xor r, r'` -/
  | xor (r r' : Reg)
  /-- `cmp r, r'` -/
  | cmp (r r' : Reg)
  /-- `cmp r, n` -/
  | cmpImm (r : Reg) (n : Word)
  deriving DecidableEq

/-- Instructions: those that fall through, jumps, calls of other code and the return from an
interrupt. -/
inductive Instr (V L F : Type)
  | op (o : Op V)
  | je (l : L)
  | jnz (l : L)
  | jmp (l : L)
  | call (f : F)
  | iretq
  deriving DecidableEq

namespace Op

variable [DecidableEq V]

/-- The effect of an instruction, `rip` apart. A selector moved to a register is zero extended. -/
def exec : Op V → Machine V → Machine V
  | .push r, m => m.push (m.reg r)
  | .pop r, m => m.pop r
  | .movImm r n, m => m.setReg r n
  | .movFromSeg r s, m => m.setReg r ((m.seg s).setWidth 64)
  | .movToSeg s r, m => { m with seg := Function.update m.seg s ((m.reg r).setWidth 16) }
  | .load r base off, m => m.setReg r (m.mem (m.reg base + off))
  | .store base off r, m => { m with mem := Function.update m.mem (m.reg base + off) (m.reg r) }
  | .loadVar r v, m => m.setReg r (m.var v)
  | .storeVar v r, m => { m with var := Function.update m.var v (m.reg r) }
  | .lea r base off, m => m.setReg r (m.reg base + off)
  | .addImm r n, m =>
    { m.setReg r (m.reg r + n) with rflags := setZf m.rflags (m.reg r + n == 0) }
  | .subImm r n, m =>
    { m.setReg r (m.reg r - n) with rflags := setZf m.rflags (m.reg r - n == 0) }
  | .xor r r', m =>
    { m.setReg r (m.reg r ^^^ m.reg r') with
      rflags := setZf m.rflags (m.reg r ^^^ m.reg r' == 0) }
  | .cmp r r', m => { m with rflags := setZf m.rflags (m.reg r == m.reg r') }
  | .cmpImm r n, m => { m with rflags := setZf m.rflags (m.reg r == n) }

/-- A sequence of instructions that fall through. -/
def execAll (os : List (Op V)) (m : Machine V) : Machine V := os.foldl (fun m o => o.exec m) m

@[simp] theorem execAll_nil (m : Machine V) : execAll [] m = m := rfl

@[simp] theorem execAll_cons (o : Op V) (os : List (Op V)) (m : Machine V) :
    execAll (o :: os) m = execAll os (o.exec m) := rfl

/-- The general-purpose registers that an instruction writes. -/
def dest : Op V → List Reg
  | .push _ => [.rsp]
  | .pop r => [.rsp, r]
  | .movImm r _ | .movFromSeg r _ | .load r _ _ | .loadVar r _ | .lea r _ _ | .addImm r _
  | .subImm r _ | .xor r _ => [r]
  | .movToSeg _ _ | .store _ _ _ | .storeVar _ _ | .cmp _ _ | .cmpImm _ _ => []

theorem exec_reg_of_notMem (o : Op V) {m : Machine V} {r : Reg} (h : r ∉ o.dest) :
    (o.exec m).reg r = m.reg r := by
  cases o <;>
    simp_all [dest, exec, Machine.push, Machine.pop, Machine.setReg, Function.update_of_ne]

/-- A register that none of the instructions writes. -/
theorem execAll_reg_of_notMem {os : List (Op V)} {m : Machine V} {r : Reg}
    (h : ∀ o ∈ os, r ∉ o.dest) : (execAll os m).reg r = m.reg r := by
  induction os generalizing m with
  | nil => rfl
  | cons o os ih =>
    rw [execAll_cons, ih fun o' ho' => h o' (List.mem_cons_of_mem o ho'),
      exec_reg_of_notMem o (h o List.mem_cons_self)]

/-- An instruction that pushes or pops a register other than `rsp`, or leaves the stack pointer, the memory
and the variables alone. -/
def plain : Op V → Bool
  | .push _ => true
  | .store _ _ _ | .storeVar _ _ => false
  | .pop r | .movImm r _ | .movFromSeg r _ | .load r _ _ | .loadVar r _ | .lea r _ _ | .addImm r _
  | .subImm r _ | .xor r _ => r ≠ .rsp
  | .movToSeg _ _ | .cmp _ _ | .cmpImm _ _ => true

/-- The words that an instruction pushes. -/
def pushCount : Op V → Nat
  | .push _ => 1
  | _ => 0

/-- The words that an instruction pops. -/
def popCount : Op V → Nat
  | .pop _ => 1
  | _ => 0

/-- What a plain instruction does to the stack. -/
theorem exec_plain {o : Op V} {m : Machine V} (h : o.plain = true) :
    (o.exec m).var = m.var ∧
      (o.exec m).reg .rsp + BitVec.ofNat 64 (8 * o.pushCount) = m.reg .rsp + BitVec.ofNat 64 (8 * o.popCount) ∧
      ∀ a, a ≠ m.reg .rsp - 8#64 → (o.exec m).mem a = m.mem a := by
  have hne : ∀ {r : Reg}, decide (r ≠ .rsp) = true → Reg.rsp ≠ r := fun hr => (of_decide_eq_true hr).symm
  cases o with
  | push r =>
    refine ⟨rfl, ?_, fun a ha => Function.update_of_ne ha ..⟩
    calc (m.push (m.reg r)).reg .rsp + 8#64 = m.reg .rsp - 8#64 + 8#64 :=
          congrArg (· + 8#64) (Function.update_self Reg.rsp _ m.reg)
      _ = m.reg .rsp := BitVec.sub_add_cancel ..
      _ = m.reg .rsp + 0#64 := (BitVec.add_zero _).symm
  | pop r => exact ⟨rfl, by simp [exec, Machine.pop, Machine.setReg, pushCount, popCount, hne h], fun _ _ => rfl⟩
  | store | storeVar => cases h
  | movToSeg | cmp | cmpImm => exact ⟨rfl, rfl, fun _ _ => rfl⟩
  | movImm r | movFromSeg r | load r | loadVar r | lea r | addImm r | subImm r | xor r =>
    exact ⟨rfl, by simp [exec, Machine.setReg, pushCount, popCount, hne h], fun _ _ => rfl⟩

end Op

/-! ## Words of memory and the stack -/

/-- A stack pointer that is aligned to 16 bytes. -/
theorem toNat_and_not_15 (a : Word) : (a &&& ~~~15#64).toNat = a.toNat - a.toNat % 16 := by
  have hmask : ∀ i < 64, (~~~15#64).getLsbD i = decide (4 ≤ i) := by decide
  have hshift : a &&& ~~~15#64 = (a >>> 4) <<< 4 := by
    refine BitVec.eq_of_getLsbD_eq fun i hi => ?_
    rw [BitVec.getLsbD_and, hmask i hi, BitVec.getLsbD_shiftLeft, BitVec.getLsbD_ushiftRight]
    by_cases h4 : 4 ≤ i
    · simp [h4, hi]
    · simp [h4]
  rw [hshift, BitVec.toNat_shiftLeft, BitVec.toNat_ushiftRight, Nat.shiftRight_eq_div_pow, Nat.shiftLeft_eq]
  omega

/-- `Words mem a l`: the words at `a`, `a + 8`, … are `l`. -/
def Words (mem : Word → Word) : Word → List Word → Prop
  | _, [] => True
  | a, w :: l => mem a = w ∧ Words mem (a + 8#64) l

section
variable {mem mem' : Word → Word} {a v : Word} {l l' : List Word}

@[simp] theorem words_nil : Words mem a [] ↔ True := Iff.rfl

@[simp] theorem words_cons {w : Word} : Words mem a (w :: l) ↔ mem a = w ∧ Words mem (a + 8#64) l :=
  Iff.rfl

/-- The address of the word at an index, counted from the next address. -/
theorem add_eight_add (a : Word) (i : Nat) :
    a + 8#64 + BitVec.ofNat 64 (8 * i) = a + BitVec.ofNat 64 (8 * (i + 1)) := by
  bv_omega

/-- The words at and above an address, by index. -/
theorem words_iff :
    Words mem a l ↔ ∀ i, ∀ h : i < l.length, mem (a + BitVec.ofNat 64 (8 * i)) = l[i] := by
  induction l generalizing a with
  | nil => simp
  | cons w l ih =>
    simp only [words_cons, ih, add_eight_add]
    constructor
    · rintro ⟨h0, h⟩ (_ | i) hi
      · simpa using h0
      · exact h i (by simpa using hi)
    · intro h
      exact ⟨(congrArg mem (by simp)).trans (h 0 (by simp)), fun i hi => h (i + 1) (by simpa using hi)⟩

/-- Memories that agree on the words hold the same words. -/
theorem Words.congr (h : Words mem a l)
    (hm : ∀ i < l.length, mem' (a + BitVec.ofNat 64 (8 * i)) = mem (a + BitVec.ofNat 64 (8 * i))) :
    Words mem' a l :=
  words_iff.2 fun i hi => (hm i hi).trans (words_iff.1 h i hi)

/-- Writing one of the words. -/
theorem Words.set (h : Words mem a l) {i : Nat} (hi : i < 2 ^ 61) (hl : l.length ≤ 2 ^ 61) :
    Words (Function.update mem (a + BitVec.ofNat 64 (8 * i)) v) a (l.set i v) := by
  refine words_iff.2 fun j hj => ?_
  rw [List.length_set] at hj
  rw [List.getElem_set]
  split
  case isTrue h' => subst h'; exact Function.update_self ..
  case isFalse h' =>
    rw [Function.update_of_ne (by bv_omega), words_iff.1 h j hj]

/-- Writing the word below. -/
theorem Words.push (h : Words mem a l) (hl : l.length < 2 ^ 61) :
    Words (Function.update mem (a - 8#64) v) (a - 8#64) (v :: l) := by
  refine ⟨Function.update_self .., ?_⟩
  rw [BitVec.sub_add_cancel]
  refine h.congr fun i hi => Function.update_of_ne ?_ ..
  bv_omega

/-- Writing a word that is none of them. -/
theorem Words.update_of_ne (h : Words mem a l) {b : Word}
    (hb : ∀ i < l.length, a + BitVec.ofNat 64 (8 * i) ≠ b) : Words (Function.update mem b v) a l :=
  h.congr fun i hi => Function.update_of_ne (hb i hi) ..

/-- The first words of a list of words. -/
theorem Words.left (h : Words mem a (l ++ l')) : Words mem a l := by
  induction l generalizing a with
  | nil => trivial
  | cons w l ih => exact ⟨h.1, ih h.2⟩

/-- Store words from an address upwards. -/
def storeWords (mem : Word → Word) : Word → List Word → Word → Word
  | _, [] => mem
  | a, w :: l => Function.update (storeWords mem (a + 8#64) l) a w

/-- The words stored are there. -/
theorem words_storeWords (hl : l.length ≤ 2 ^ 61) : Words (storeWords mem a l) a l := by
  induction l generalizing a with
  | nil => trivial
  | cons w l ih =>
    rw [List.length_cons] at hl
    refine ⟨Function.update_self .., (ih (by omega)).update_of_ne fun i hi => ?_⟩
    bv_omega

end

namespace Machine

/-- Return from a call: pop `rip`. -/
def ret (m : Machine V) : Machine V :=
  { m with
    rip := m.mem (m.reg .rsp)
    reg := Function.update m.reg .rsp (m.reg .rsp + 8#64) }

/-- The words from the top of the stack on. -/
def Stack (m : Machine V) (l : List Word) : Prop := Words m.mem (m.reg .rsp) l

/-- Push some words, the first one first. -/
def pushes (m : Machine V) (ws : List Word) : Machine V := ws.foldl push m

@[simp] theorem pushes_nil (m : Machine V) : m.pushes [] = m := rfl

@[simp] theorem pushes_cons (m : Machine V) (w : Word) (ws : List Word) :
    m.pushes (w :: ws) = (m.push w).pushes ws := rfl

theorem pushes_append (m : Machine V) (ws ws' : List Word) :
    m.pushes (ws ++ ws') = (m.pushes ws).pushes ws' := List.foldl_append

section
variable (m : Machine V) (ws : List Word)

@[simp] theorem pushes_seg : (m.pushes ws).seg = m.seg := by
  induction ws generalizing m with
  | nil => rfl
  | cons w ws ih => exact ih _

@[simp] theorem pushes_var : (m.pushes ws).var = m.var := by
  induction ws generalizing m with
  | nil => rfl
  | cons w ws ih => exact ih _

@[simp] theorem pushes_rflags : (m.pushes ws).rflags = m.rflags := by
  induction ws generalizing m with
  | nil => rfl
  | cons w ws ih => exact ih _

theorem pushes_reg : (m.pushes ws).reg =
    Function.update m.reg .rsp (m.reg .rsp - BitVec.ofNat 64 (8 * ws.length)) := by
  induction ws generalizing m with
  | nil => simp
  | cons w ws ih =>
    rw [pushes_cons, ih]
    simp only [push, Function.update_self, Function.update_idem, List.length_cons]
    congr 1
    bv_omega

/-- Pushing does not touch another register. -/
theorem pushes_reg_of_ne {r : Reg} (hr : r ≠ .rsp) : (m.pushes ws).reg r = m.reg r := by
  rw [pushes_reg, Function.update_of_ne hr]

@[simp] theorem pushes_rsp :
    (m.pushes ws).reg .rsp = m.reg .rsp - BitVec.ofNat 64 (8 * ws.length) := by
  rw [pushes_reg, Function.update_self]

variable {m}

/-- The words pushed are on the stack, the last one on top. -/
theorem Stack.pushes {l : List Word} (h : m.Stack l) (hl : l.length + ws.length ≤ 2 ^ 61) :
    (m.pushes ws).Stack (ws.reverse ++ l) := by
  induction ws generalizing m l with
  | nil => exact h
  | cons w ws ih =>
    have hpush : (m.push w).Stack (w :: l) := by
      simp only [Stack, push, Function.update_self]
      exact Words.push h (by simp only [List.length_cons] at hl; omega)
    have := ih hpush (by simp only [List.length_cons] at hl ⊢; omega)
    simpa using this

variable {ws}

/-- A word that is not among those pushed is unchanged. -/
theorem pushes_mem_of_ne {b : Word}
    (hb : ∀ i < ws.length, (m.pushes ws).reg .rsp + BitVec.ofNat 64 (8 * i) ≠ b) :
    (m.pushes ws).mem b = m.mem b := by
  induction ws generalizing m with
  | nil => rfl
  | cons w ws ih =>
    rw [pushes_cons, ih fun i hi => hb i (by simp only [List.length_cons]; omega)]
    refine Function.update_of_ne (fun h => hb ws.length (by simp) ?_) ..
    rw [h, pushes_cons, pushes_rsp]
    simp only [push, Function.update_self, BitVec.sub_add_cancel]

end

end Machine

section
variable [DecidableEq V] {m : Machine V}

/-- A sequence of `push` instructions pushes the registers' values. -/
theorem execAll_push {rs : List Reg} (hrs : .rsp ∉ rs) :
    Op.execAll (rs.map .push) m = m.pushes (rs.map m.reg) := by
  induction rs generalizing m with
  | nil => rfl
  | cons r rs ih =>
    simp only [List.mem_cons, not_or] at hrs
    simp only [List.map_cons, Op.execAll_cons, Op.exec, ih hrs.2, Machine.pushes_cons]
    congr 1
    refine List.map_congr_left fun r' hr' => Function.update_of_ne ?_ ..
    rintro rfl
    exact hrs.2 hr'

/-- What a sequence of `pop` instructions makes of a machine whose stack holds `f r` for each of the
registers `r`, in the order of the pops. -/
structure Popped (m : Machine V) (rs : List Reg) (f : Reg → Word) (m' : Machine V) : Prop where
  reg : ∀ r ∈ rs, m'.reg r = f r
  other : ∀ r ∉ rs, r ≠ .rsp → m'.reg r = m.reg r
  rsp : m'.reg .rsp = m.reg .rsp + BitVec.ofNat 64 (8 * rs.length)
  rest : m' = { m with reg := m'.reg }

/-- A sequence of `pop` instructions. -/
theorem execAll_pop {rs : List Reg} (hrs : .rsp ∉ rs) {f : Reg → Word} {l : List Word}
    (h : m.Stack (rs.map f ++ l)) :
    Popped m rs f (Op.execAll (rs.map .pop) m) ∧ (Op.execAll (rs.map .pop) m).Stack l := by
  induction rs generalizing m with
  | nil => exact ⟨⟨by simp, by simp, by simp, rfl⟩, h⟩
  | cons r rs ih =>
    simp only [List.mem_cons, not_or] at hrs
    obtain ⟨hw, h⟩ := h
    have hsp : (m.pop r).reg .rsp = m.reg .rsp + 8#64 := by
      simp [Machine.pop, Machine.setReg, Function.update_of_ne hrs.1]
    obtain ⟨⟨hreg, hother, hrsp, hrest⟩, hl⟩ := ih hrs.2 (m := m.pop r) (by
      rw [Machine.Stack, hsp]
      exact h)
    refine ⟨⟨fun r' hr' => ?_, fun r' hr' hne => ?_, ?_, hrest⟩, hl⟩
    · by_cases hin : r' ∈ rs
      · exact hreg r' hin
      · obtain rfl : r' = r := by simpa [hin] using hr'
        refine (hother r' hin (fun h => hrs.1 h.symm)).trans ?_
        simpa [Machine.pop, Machine.setReg] using hw
    · simp only [List.mem_cons, not_or] at hr'
      refine (hother r' hr'.2 hne).trans ?_
      simp [Machine.pop, Machine.setReg, Function.update_of_ne hr'.1, Function.update_of_ne hne]
    · refine hrsp.trans ?_
      rw [hsp, List.length_cons, add_eight_add]

end

/-! ## Programs -/

/-- A listing: where it is loaded, its instructions by position and the positions of its labels. -/
structure Program (V L F : Type) where
  text : Word
  code : Nat → Option (Instr V L F)
  target : L → Nat

/-- `iretq`: pop `rip`, `cs`, `rflags`, `rsp` and `ss`. -/
def Machine.iretq (m : Machine V) : Machine V :=
  let sp := m.reg .rsp
  { m with
    rip := m.mem sp
    seg := Function.update (Function.update m.seg .cs ((m.mem (sp + 8#64)).setWidth 16)) .ss
      ((m.mem (sp + 32#64)).setWidth 16)
    rflags := m.mem (sp + 16#64)
    reg := Function.update m.reg .rsp (m.mem (sp + 24#64)) }

/-- A machine whose stack starts with an interrupt frame returns to it. -/
theorem Machine.Stack.iretq {m : Machine V} {rip cs rflags rsp ss : Word} {l : List Word}
    (h : m.Stack (rip :: cs :: rflags :: rsp :: ss :: l)) :
    m.iretq = { m with
      rip := rip
      seg := Function.update (Function.update m.seg .cs (cs.setWidth 16)) .ss (ss.setWidth 16)
      rflags := rflags
      reg := Function.update m.reg .rsp rsp } := by
  simp only [Machine.Stack, words_cons, BitVec.add_assoc] at h
  obtain ⟨rfl, rfl, rfl, rfl, rfl, -⟩ := h
  rfl

namespace Program

/-- The address of the instruction at a position. -/
def addr (P : Program V L F) (i : Nat) : Word := P.text + BitVec.ofNat 64 i

/-- The position of a code address. -/
def pos (P : Program V L F) (a : Word) : Nat := (a - P.text).toNat

/-- The instruction at the machine's `rip`. -/
def fetch (P : Program V L F) (m : Machine V) : Option (Instr V L F) := P.code (P.pos m.rip)

/-- The machine about to execute the instruction at a position. -/
def goto (P : Program V L F) (i : Nat) (m : Machine V) : Machine V := { m with rip := P.addr i }

section
variable (P : Program V L F) {i : Nat} (m : Machine V)

@[simp] theorem goto_mem : (P.goto i m).mem = m.mem := rfl

@[simp] theorem goto_reg : (P.goto i m).reg = m.reg := rfl

@[simp] theorem goto_var : (P.goto i m).var = m.var := rfl

@[simp] theorem goto_rflags : (P.goto i m).rflags = m.rflags := rfl

@[simp] theorem goto_rip : (P.goto i m).rip = P.addr i := rfl

end

section
variable (P : Program V L F) {i : Nat}

theorem pos_addr (hi : i < 2 ^ 64) : P.pos (P.addr i) = i := by
  simp only [pos, addr]
  bv_omega

theorem fetch_goto (hi : i < 2 ^ 64) (m : Machine V) : P.fetch (P.goto i m) = P.code i := by
  rw [fetch, goto, pos_addr P hi]

theorem addr_succ : P.addr i + 1#64 = P.addr (i + 1) := by
  simp only [addr]
  bv_omega

end

section
variable {P : Program V L F} {i : Nat}

/-- A stretch of the listing. -/
def Listing (P : Program V L F) (i : Nat) (l : List (Instr V L F)) : Prop :=
  i + l.length ≤ 2 ^ 64 ∧ ∀ k, ∀ h : k < l.length, P.code (i + k) = some l[k]

theorem Listing.tail {ins : Instr V L F} {l : List (Instr V L F)} (h : P.Listing i (ins :: l)) :
    P.Listing (i + 1) l := by
  refine ⟨by simpa [Nat.add_assoc, Nat.add_comm 1] using h.1, fun k hk => ?_⟩
  rw [Nat.add_assoc, Nat.add_comm 1]
  exact h.2 (k + 1) (by simpa using hk)

/-- Two consecutive stretches. -/
theorem Listing.append {l l' : List (Instr V L F)} (h : P.Listing i (l ++ l')) :
    P.Listing i l ∧ P.Listing (i + l.length) l' := by
  obtain ⟨hlen, hcode⟩ := h
  rw [List.length_append] at hlen
  refine ⟨⟨by omega, fun k hk => ?_⟩, by omega, fun k hk => ?_⟩
  · rw [hcode k (by rw [List.length_append]; omega), List.getElem_append_left hk]
  · rw [Nat.add_assoc, hcode (l.length + k) (by rw [List.length_append]; omega)]
    simp

theorem Listing.fetch {ins : Instr V L F} {l : List (Instr V L F)} (h : P.Listing i (ins :: l))
    (m : Machine V) : P.fetch (P.goto i m) = some ins := by
  have hi := h.1
  rw [List.length_cons] at hi
  rw [fetch_goto P (by omega)]
  exact h.2 0 (by simp)

end

variable [DecidableEq V]

/-- One instruction other than `iretq`. A call pushes the return address and runs the called code to
its return (`callee`); the calls made are listed with the machine in which the callee starts. -/
def step (P : Program V L F) (callee : F → Machine V → Machine V) (m : Machine V) :
    Option (List (F × Machine V) × Machine V) :=
  match P.fetch m with
  | some (.op o) => some ([], { o.exec m with rip := m.rip + 1#64 })
  | some (.je l) => some ([], if zf m.rflags then P.goto (P.target l) m else
      { m with rip := m.rip + 1#64 })
  | some (.jnz l) => some ([], if zf m.rflags then { m with rip := m.rip + 1#64 } else
      P.goto (P.target l) m)
  | some (.jmp l) => some ([], P.goto (P.target l) m)
  | some (.call f) => some ([(f, m.push (m.rip + 1#64))], callee f (m.push (m.rip + 1#64)))
  | some .iretq | none => none

/-- `P.Exec callee m cs m'`: some instructions lead from `m` to `m'`, with the calls `cs` on the way. -/
inductive Exec (P : Program V L F) (callee : F → Machine V → Machine V) :
    Machine V → List (F × Machine V) → Machine V → Prop
  | refl (m : Machine V) : Exec P callee m [] m
  | head {m m' m'' : Machine V} {cs cs' : List (F × Machine V)} :
    P.step callee m = some (cs, m') → Exec P callee m' cs' m'' → Exec P callee m (cs ++ cs') m''

/-- Execute at most `n` instructions, up to an `iretq`. -/
def run (P : Program V L F) (callee : F → Machine V → Machine V) :
    Nat → Machine V → List (F × Machine V) × Machine V
  | 0, m => ([], m)
  | n + 1, m =>
    match P.step callee m with
    | none => ([], m)
    | some (cs, m') => (cs ++ (P.run callee n m').1, (P.run callee n m').2)

section
variable {P : Program V L F} {callee : F → Machine V → Machine V} {m m' m'' : Machine V}
  {cs cs' : List (F × Machine V)} {i : Nat}

/-- One instruction. -/
theorem Exec.single (h : P.step callee m = some (cs, m')) : P.Exec callee m cs m' := by
  simpa using Exec.head h (.refl m')

theorem Exec.trans (h : P.Exec callee m cs m') (h' : P.Exec callee m' cs' m'') :
    P.Exec callee m (cs ++ cs') m'' := by
  induction h with
  | refl => exact h'
  | head hs _ ih =>
    rw [List.append_assoc]
    exact .head hs (ih h')

/-- What `run` computes is an execution. -/
theorem exec_run (n : Nat) (m : Machine V) : P.Exec callee m (P.run callee n m).1 (P.run callee n m).2 := by
  induction n generalizing m with
  | zero => exact .refl m
  | succ n ih =>
    simp only [run]
    split
    case h_1 => exact .refl m
    case h_2 cs m' hs => exact .head hs (ih m')

/-- Two executions that end at an instruction that cannot be stepped over are the same. -/
theorem Exec.deterministic (h : P.Exec callee m cs m') (hm' : P.step callee m' = none)
    (h' : P.Exec callee m cs' m'') (hm'' : P.step callee m'' = none) : cs = cs' ∧ m' = m'' := by
  induction h generalizing cs' with
  | refl =>
    cases h' with
    | refl => exact ⟨rfl, rfl⟩
    | head hs => rw [hm'] at hs; cases hs
  | head hs _ ih =>
    cases h' with
    | refl => rw [hm''] at hs; cases hs
    | head hs' h' =>
      rw [hs] at hs'
      cases hs'
      obtain ⟨rfl, rfl⟩ := ih hm' h'
      exact ⟨rfl, rfl⟩

/-- Of two executions, one makes the first calls of the other. -/
theorem Exec.calls_comparable (h : P.Exec callee m cs m') (h' : P.Exec callee m cs' m'') :
    cs <+: cs' ∨ cs' <+: cs := by
  induction h generalizing cs' with
  | refl => exact .inl List.nil_prefix
  | head hs _ ih =>
    cases h' with
    | refl => exact .inr List.nil_prefix
    | head hs' h' =>
      rw [hs] at hs'
      cases hs'
      simpa only [List.prefix_append_right_inj] using ih h'

/-- The first call is always the same. -/
theorem Exec.head?_calls {x : F × Machine V} (h : P.Exec callee m [x] m')
    (h' : P.Exec callee m cs m'') (hne : cs ≠ []) : cs.head? = some x := by
  obtain ⟨l, rfl⟩ | h := h.calls_comparable h'
  · rfl
  · obtain rfl | ⟨l, rfl, hl⟩ := List.prefix_cons_iff.1 h
    · exact absurd rfl hne
    · rfl

/-- An `iretq` ends an execution. -/
theorem step_iretq (h : P.fetch m = some .iretq) : P.step callee m = none := by
  rw [step, h]

theorem exec_goto (o : Op V) : o.exec (P.goto i m) = P.goto i (o.exec m) := by
  cases o <;> rfl

/-- An instruction that falls through. -/
theorem step_op {o : Op V} (h : P.Listing i [.op o]) :
    P.step callee (P.goto i m) = some ([], P.goto (i + 1) (o.exec m)) := by
  simp only [step, h.fetch, exec_goto]
  simp only [goto, addr_succ]

/-- A conditional jump on `ZF`. -/
theorem step_je {l : L} (h : P.Listing i [.je l]) : P.step callee (P.goto i m) =
    some ([], if zf m.rflags then P.goto (P.target l) m else P.goto (i + 1) m) := by
  rw [step, h.fetch]
  simp only [goto, addr_succ]

/-- A jump. -/
theorem step_jmp {l : L} (h : P.Listing i [.jmp l]) :
    P.step callee (P.goto i m) = some ([], P.goto (P.target l) m) := by
  rw [step, h.fetch]
  rfl

/-- A call. -/
theorem step_call {f : F} (h : P.Listing i [.call f]) : P.step callee (P.goto i m) =
    some ([(f, (P.goto i m).push (P.addr (i + 1)))], callee f ((P.goto i m).push (P.addr (i + 1)))) := by
  rw [step, h.fetch]
  simp only [goto, addr_succ]

/-- Instructions that fall through. -/
theorem Exec.ops {os : List (Op V)} (h : P.Listing i (os.map .op)) :
    P.Exec callee (P.goto i m) [] (P.goto (i + os.length) (Op.execAll os m)) := by
  induction os generalizing i m with
  | nil => exact .refl _
  | cons o os ih =>
    have hcons : P.Listing i ([.op o] ++ os.map .op) := h
    have := Exec.head (step_op (m := m) hcons.append.1) (ih h.tail)
    rwa [Nat.add_right_comm] at this

/-- A conditional jump on `ZF` that is taken. -/
theorem Exec.je_taken {l : L} (hz : zf m.rflags = true) (h : P.Listing i [.je l]) :
    P.Exec callee (P.goto i m) [] (P.goto (P.target l) m) := by
  refine .single ?_
  rw [step_je h, hz, if_pos rfl]

/-- A conditional jump on `ZF` that is not taken. -/
theorem Exec.je_skip {l : L} (hz : zf m.rflags = false) (h : P.Listing i [.je l]) :
    P.Exec callee (P.goto i m) [] (P.goto (i + 1) m) := by
  refine .single ?_
  rw [step_je h, hz, if_neg Bool.false_ne_true]

/-- A conditional jump on the complement of `ZF` that is taken. -/
theorem Exec.jnz_taken {l : L} (hz : zf m.rflags = false) (h : P.Listing i [.jnz l]) :
    P.Exec callee (P.goto i m) [] (P.goto (P.target l) m) := by
  refine .single ?_
  rw [step, h.fetch]
  simp [goto, hz]

/-- A conditional jump on the complement of `ZF` that is not taken. -/
theorem Exec.jnz_skip {l : L} (hz : zf m.rflags = true) (h : P.Listing i [.jnz l]) :
    P.Exec callee (P.goto i m) [] (P.goto (i + 1) m) := by
  refine .single ?_
  rw [step, h.fetch]
  simp [goto, hz, addr_succ]

/-- A jump. -/
theorem Exec.jmp {l : L} (h : P.Listing i [.jmp l]) :
    P.Exec callee (P.goto i m) [] (P.goto (P.target l) m) := .single (step_jmp h)

/-- A call. -/
theorem Exec.call {f : F} (h : P.Listing i [.call f]) :
    P.Exec callee (P.goto i m) [(f, (P.goto i m).push (P.addr (i + 1)))]
      (callee f ((P.goto i m).push (P.addr (i + 1)))) := .single (step_call h)

end

end Program

end X86
