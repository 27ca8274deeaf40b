import Mathlib.Algebra.Ring.Int.Defs
import Mathlib.Algebra.Ring.Nat
import Mathlib.Order.Nat

/-!
# Constants, halts and alignment

What every module of the kernel model shares: the sizes of `page_allocator.h` and
`multiboot_tags.h`, the ways the kernel halts (`Stop`), and `align_pointer` of `alignment.h`.
Addresses and machine words are natural numbers; an operation of the source that can leave the
64-bit range says so with an explicit `% 2 ^ 64`.
-/

namespace BanjOS

/-- `MMU_PAGE_SIZE`: 4 KiB pages. -/
abbrev pageSize : Nat := 0x1000

/-- `MEM_REGIONS_LEN`: the capacity of the static region table. -/
abbrev memRegionsLen : Nat := 16

/-- The places where the kernel prints a message and executes `EXIT` (`cli; hlt`). -/
inductive Stop
  /-- A failed `assert`, with the text of the condition. -/
  | assertion (cond : String)
  /-- `MMU_pf_alloc` found no frame. -/
  | outOfMemory
  /-- `page_fault_handler` found no leaf table for the address. -/
  | outOfRange (addr : Nat)
  /-- `page_fault_handler` found a leaf entry that is not marked as available. -/
  | notAvailable (addr : Nat)
  deriving DecidableEq, Repr

/-- `Stop.InvalidAccess s v`: the halt `s` is one of the two invalid-access branches of
`page_fault_handler`, for the faulting address `v`. -/
def Stop.InvalidAccess (s : Stop) (v : Nat) : Prop := s = .outOfRange v ∨ s = .notAvailable v

/-- `align_pointer`: the multiple of `boundary` at or after (`after`), or at or before, `addr`. -/
def alignPointer (addr boundary : Nat) (after : Bool) : Nat :=
  if addr % boundary ≠ 0 then
    if after then (addr + (boundary - addr % boundary)) % 2 ^ 64 else addr - addr % boundary
  else addr

section
variable {a : Nat}

/-- Rounding up to a page is page aligned, also when the addition wraps. -/
theorem alignPointer_after_mod : alignPointer a pageSize true % pageSize = 0 := by
  simp only [alignPointer, pageSize, if_true]
  split <;> omega

/-- Rounding down to a page is page aligned. -/
theorem alignPointer_before_mod : alignPointer a pageSize false % pageSize = 0 := by
  simp only [alignPointer, pageSize, Bool.false_eq_true, if_false]
  split <;> omega

/-- A page starts at or after the rounded-up address iff it starts at or after the address. -/
theorem alignPointer_after_le (ha : a ≤ 2 ^ 52) {p : Nat} (hp : p % pageSize = 0) :
    alignPointer a pageSize true ≤ p ↔ a ≤ p := by
  simp only [alignPointer, pageSize, if_true] at hp ⊢
  split <;> omega

/-- A page boundary is at or before the rounded-down address iff it is at or before the
address. -/
theorem le_alignPointer_before {p : Nat} (hp : p % pageSize = 0) :
    p ≤ alignPointer a pageSize false ↔ p ≤ a := by
  simp only [alignPointer, pageSize, Bool.false_eq_true, if_false] at hp ⊢
  split <;> omega

end

end BanjOS
