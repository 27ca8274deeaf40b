import BanjOS.Lib.BitFields
import BanjOS.Lib.ByteMem

/-!
# Four-level paging of the x86-64

What the processor makes of a linear address in 64-bit mode (`translateAddr`): a walk through four levels of tables, from level
3 down to level 0, with large pages at the levels 1 and 2. `none` is a page fault, or for an address that is not canonical
a general protection fault. Of the access rights only that to write is kept, and the accessed and dirty bits are not set.
Execute-disable is off, so its bit is reserved.
-/

namespace X86

open ByteMem BitFields

/-- Where a linear address leads. -/
structure Mapping where
  phys : Nat
  writable : Bool
  deriving DecidableEq, Repr

/-- An entry that leads on. -/
def EntryPresent (e : Nat) : Prop := field e 0 1 = 1 ∧ field e 63 1 = 0

instance (e : Nat) : Decidable (EntryPresent e) := inferInstanceAs (Decidable (_ ∧ _))

/-- The size of a page at the level, as a power of two. -/
def levelShift (l : Nat) : Nat := 9 * l + 12

/-- The page of an entry at the level. -/
def mapPage (e linear l : Nat) : Mapping where
  phys := 2 ^ levelShift l * field e (levelShift l) (52 - levelShift l) + field linear 0 (levelShift l)
  writable := field e 1 1 == 1

/-- The entry for an address in a table of the level. -/
def entryFor (m : Mem) (linear l table : Nat) : Nat := load64 m (table + 8 * field linear (levelShift l) 9)

/-- The walk from a table of the level. -/
def walkFrom (m : Mem) (linear : Nat) : (l table : Nat) → Option Mapping
  | 0, table =>
    let e := entryFor m linear 0 table
    if EntryPresent e then some (mapPage e linear 0) else none
  | l + 1, table =>
    let e := entryFor m linear (l + 1) table
    if ¬ EntryPresent e then none
    else if field e 7 1 = 1 then (if l + 1 ≤ 2 then some (mapPage e linear (l + 1)) else none)
    else (walkFrom m linear l (4096 * field e 12 40)).map fun t =>
      { t with writable := field e 1 1 == 1 && t.writable }

/-- The bits from 47 up are equal. -/
def CanonicalAddr (linear : Nat) : Prop := linear < 2 ^ 47 ∨ 2 ^ 64 - 2 ^ 47 ≤ linear ∧ linear < 2 ^ 64

instance (linear : Nat) : Decidable (CanonicalAddr linear) := inferInstanceAs (Decidable (_ ∨ _))

/-- The translation of an address under `cr3`. -/
def translateAddr (m : Mem) (cr3 linear : Nat) : Option Mapping :=
  if CanonicalAddr linear then walkFrom m linear 3 (4096 * field cr3 12 40) else none

section
variable {m m' : Mem} {linear l table : Nat}

/-- An absent entry ends the walk. -/
theorem walkFrom_absent (h : ¬ EntryPresent (entryFor m linear l table)) : walkFrom m linear l table = none := by
  cases l with
  | zero => exact if_neg h
  | succ l => exact if_pos h

/-- The last entry. -/
theorem walkFrom_page (h : EntryPresent (entryFor m linear 0 table)) :
    walkFrom m linear 0 table = some (mapPage (entryFor m linear 0 table) linear 0) := if_pos h

/-- An entry for a large page. -/
theorem walkFrom_large (h : EntryPresent (entryFor m linear (l + 1) table))
    (hsize : field (entryFor m linear (l + 1) table) 7 1 = 1) (hl : l + 1 ≤ 2) :
    walkFrom m linear (l + 1) table = some (mapPage (entryFor m linear (l + 1) table) linear (l + 1)) := by
  rw [walkFrom, if_neg (not_not.2 h), if_pos hsize, if_pos hl]

/-- An entry for a table that can be written through. -/
theorem walkFrom_table (h : EntryPresent (entryFor m linear (l + 1) table))
    (hsize : field (entryFor m linear (l + 1) table) 7 1 = 0) (hw : field (entryFor m linear (l + 1) table) 1 1 = 1) :
    walkFrom m linear (l + 1) table =
      walkFrom m linear l (4096 * field (entryFor m linear (l + 1) table) 12 40) := by
  have hkeep (o : Option Mapping) : (o.map fun t : Mapping => { t with writable := true && t.writable }) = o := by
    cases o <;> rfl
  rw [walkFrom, if_neg (not_not.2 h), if_neg (by rw [hsize]; decide), hw]
  exact hkeep _

/-- A present and writable entry for the table at `a`. -/
theorem walkFrom_entry {a : Nat} (ha : a % 4096 = 0) (hlt : a < 2 ^ 52)
    (he : entryFor m linear (l + 1) table = a + 3) : walkFrom m linear (l + 1) table = walkFrom m linear l a := by
  have hbits : EntryPresent (a + 3) ∧ field (a + 3) 7 1 = 0 ∧ field (a + 3) 1 1 = 1 ∧ 4096 * field (a + 3) 12 40 = a := by
    unfold EntryPresent field
    omega
  rcases hbits with ⟨hp, hsize, hw, hframe⟩
  rw [walkFrom_table (by rwa [he]) (by rwa [he]) (by rwa [he]), he, hframe]

end

end X86
