import BanjOS.Lib.BitFields
import BanjOS.Lib.ByteMem

/-!
# Descriptor tables of the x86-64

What a processor in 64-bit mode reads from memory when it loads its task register (`ltr`) and when it delivers an
interrupt (`deliver`): the gate of the vector, the code segment that the gate names and, if the gate asks for it, a stack
of the task state segment. `none` is a fault. `storeTable` writes a table of descriptors of 16 bytes, each of which is
then read back (`loadLE_storeTable`).
-/

namespace X86

open ByteMem BitFields

/-! ## The processor -/

/-- A register that holds where a table is, or where the task state segment is. -/
structure TableReg where
  limit : Nat
  base : Nat
  deriving DecidableEq, Repr

/-- A selector names a descriptor of `n` bytes of the global table, and not the null descriptor. -/
def Selects (gdtr : TableReg) (sel n : Nat) : Prop :=
  field sel 3 13 ≠ 0 ∧ field sel 2 1 = 0 ∧ 8 * field sel 3 13 + n ≤ gdtr.limit + 1

/-- A present code segment for 64-bit code, of privilege 0. -/
def IsKernelCode (d : Nat) : Prop :=
  field d 43 1 = 1 ∧ field d 44 1 = 1 ∧ field d 45 2 = 0 ∧ field d 47 1 = 1 ∧ field d 53 1 = 1 ∧ field d 54 1 = 0

/-- A present task state segment that is not in use. -/
def IsAvailableTss (d : Nat) : Prop := field d 40 4 = 0x9 ∧ field d 44 1 = 0 ∧ field d 47 1 = 1

/-- A present interrupt gate. -/
def IsInterruptGate (d : Nat) : Prop := field d 40 4 = 0xE ∧ field d 44 1 = 0 ∧ field d 47 1 = 1

instance (gdtr : TableReg) (sel n : Nat) : Decidable (Selects gdtr sel n) := inferInstanceAs (Decidable (_ ∧ _))

instance (d : Nat) : Decidable (IsKernelCode d) := inferInstanceAs (Decidable (_ ∧ _))

instance (d : Nat) : Decidable (IsAvailableTss d) := inferInstanceAs (Decidable (_ ∧ _))

instance (d : Nat) : Decidable (IsInterruptGate d) := inferInstanceAs (Decidable (_ ∧ _))

/-- The address of the descriptor that a selector names. -/
def TableReg.descriptor (gdtr : TableReg) (sel : Nat) : Nat := gdtr.base + 8 * field sel 3 13

/-- Where a task state segment is, by its descriptor. -/
def tssOf (d : Nat) : TableReg :=
  let limit := field d 0 16 + 2 ^ 16 * field d 48 4
  ⟨if field d 55 1 = 1 then 4096 * limit + 4095 else limit,
    field d 16 24 + 2 ^ 24 * field d 56 8 + 2 ^ 32 * field d 64 32⟩

/-- `ltr`: the descriptor is marked as busy, and the register has its base and limit. -/
def ltr (m : Mem) (gdtr : TableReg) (sel : Nat) : Option (Mem × TableReg) :=
  let a := gdtr.descriptor sel
  let d := loadLE m a 16
  if Selects gdtr sel 16 ∧ IsAvailableTss d then some (storeLE m a 16 (d + 2 ^ 41), tssOf d) else none

/-- The stack of a gate: that of the interrupt stack table, or the present one. -/
def gateStack (m : Mem) (tr : TableReg) (ist rsp : Nat) : Option Nat :=
  if ist = 0 then some rsp
  else if 8 * ist + 36 ≤ tr.limit + 1 then some (load64 m (tr.base + 8 * ist + 28)) else none

/-- Where the processor goes on for an interrupt. -/
structure Entry where
  cs : Nat
  rip : Nat
  rsp : Nat
  deriving DecidableEq, Repr

/-- Delivery of an interrupt to code of privilege 0. -/
def deliver (m : Mem) (gdtr idtr tr : TableReg) (rsp vector : Nat) : Option Entry :=
  let g := loadLE m (idtr.base + 16 * vector) 16
  let cs := field g 16 16
  if 16 * vector + 16 ≤ idtr.limit + 1 ∧ IsInterruptGate g ∧ Selects gdtr cs 8 ∧
      IsKernelCode (load64 m (gdtr.descriptor cs)) then do
    let sp ← gateStack m tr (field g 32 3) rsp
    return ⟨cs, field g 0 16 + 2 ^ 16 * field g 48 16 + 2 ^ 32 * field g 64 32, sp - sp % 16⟩
  else none

/-! ## Tables -/

/-- A load of `n + k` bytes in two parts. -/
theorem loadLE_add (m : Mem) (n : Nat) {k a : Nat} : loadLE m a (n + k) = loadLE m a n + 256 ^ n * loadLE m (a + n) k := by
  induction n generalizing a with
  | zero => simp [loadLE]
  | succ n ih =>
    rw [Nat.succ_add, loadLE, loadLE, ih, Nat.pow_succ', Nat.mul_add, Nat.mul_assoc, Nat.add_assoc, Nat.add_comm 1 n,
      Nat.add_assoc]

/-- A descriptor of 16 bytes in two words. -/
theorem loadLE_sixteen (m : Mem) (a : Nat) : loadLE m a 16 = load64 m a + 2 ^ 64 * load64 m (a + 8) := by
  rw [show 16 = 8 + 8 from rfl, loadLE_add, load64, load64, show 256 ^ 8 = 2 ^ 64 by decide]

/-- A word load past a descriptor of 16 bytes. -/
theorem load64_storeLE_of_apart {m : Mem} {a b v : Nat} (h : a + 16 ≤ b ∨ b + 8 ≤ a) :
    load64 (storeLE m a 16 v) b = load64 m b :=
  load64_congr fun _ hc => storeLE_apply_of_not_mem (hc.not_of_apart h.symm)

/-- `m` with `n` descriptors of 16 bytes at `a`. -/
def storeTable (m : Mem) (a : Nat) (f : Nat → Nat) (n : Nat) : Mem :=
  (List.range n).foldl (fun m i => storeLE m (a + 16 * i) 16 (f i)) m

variable {m : Mem} {a : Nat} {f : Nat → Nat} {n : Nat}

theorem storeTable_succ : storeTable m a f (n + 1) = storeLE (storeTable m a f n) (a + 16 * n) 16 (f n) := by
  rw [storeTable, List.range_succ, List.foldl_append]
  rfl

/-- A table leaves every byte outside of it alone. -/
theorem storeTable_apply_of_not_mem {b : Nat} (h : ¬ InRange a (16 * n) b) : storeTable m a f n b = m b := by
  induction n with
  | zero => rfl
  | succ n ih =>
    rw [storeTable_succ, storeLE_apply_of_not_mem fun hb => h (hb.mono (by omega) (by omega))]
    exact ih fun hb => h (hb.mono (by omega) (by omega))

/-- A word load past a table. -/
theorem load64_storeTable_of_apart {b : Nat} (h : a + 16 * n ≤ b ∨ b + 8 ≤ a) :
    load64 (storeTable m a f n) b = load64 m b :=
  load64_congr fun _ hc => storeTable_apply_of_not_mem (hc.not_of_apart h.symm)

/-- A descriptor of a table is read back. -/
theorem loadLE_storeTable {i : Nat} (hi : i < n) : loadLE (storeTable m a f n) (a + 16 * i) 16 = f i % 2 ^ 128 := by
  induction n with
  | zero => exact absurd hi (Nat.not_lt_zero i)
  | succ n ih =>
    rw [storeTable_succ]
    rcases Nat.lt_succ_iff_lt_or_eq.1 hi with hlt | rfl
    · rw [← ih hlt]
      exact loadLE_congr fun _ hc => storeLE_apply_of_not_mem (hc.not_of_apart (.inl (by omega)))
    · exact loadLE_storeLE_self _ _ 16 _

end X86
