import BanjOS.Basic
import BanjOS.Lib.ByteMem

/-!
# Page-table entries

The bit-field structures of `page_table.h` as one structure, with its 64-bit encoding. `struct
PageEntry`, the view of the walk, and `struct PTEntry`, the view of a leaf, lay out the fields the
code uses at the same bits: `present` (0), `read_write` (1), `available`/`available1` (9 to 11) and
`addr` (12 to 51). The bits no code touches are kept as two groups, so that an update of a field
leaves them as they are.
-/

namespace BanjOS

open ByteMem

/-- `struct PageEntry` / `struct PTEntry`. `flags` are the bits 2 to 8 (`user_supervisor` up to
`global`), `high` the bits 52 to 63 (`available2`, `no_execute`). -/
@[ext] structure PageEntry where
  present : Bool
  readWrite : Bool
  flags : BitVec 7
  available : BitVec 3
  addr : BitVec 40
  high : BitVec 12
  deriving DecidableEq, Repr

namespace PageEntry

/-- The 64-bit word of an entry. -/
def encode (e : PageEntry) : Nat :=
  e.present.toNat + 2 ^ 1 * e.readWrite.toNat + 2 ^ 2 * e.flags.toNat + 2 ^ 9 * e.available.toNat +
    2 ^ 12 * e.addr.toNat + 2 ^ 52 * e.high.toNat

/-- The entry of a 64-bit word. -/
def decode (w : Nat) : PageEntry where
  present := w % 2 == 1
  readWrite := w / 2 ^ 1 % 2 == 1
  flags := BitVec.ofNat 7 (w / 2 ^ 2)
  available := BitVec.ofNat 3 (w / 2 ^ 9)
  addr := BitVec.ofNat 40 (w / 2 ^ 12)
  high := BitVec.ofNat 12 (w / 2 ^ 52)

/-- The zero entry: what a cleared table holds. -/
def zero : PageEntry := ⟨false, false, 0, 0, 0, 0⟩

theorem encode_lt (e : PageEntry) : e.encode < 2 ^ 64 := by
  have h₀ := e.present.toNat_le
  have h₁ := e.readWrite.toNat_le
  have h₂ := e.flags.isLt
  have h₃ := e.available.isLt
  have h₄ := e.addr.isLt
  have h₅ := e.high.isLt
  unfold encode
  omega

/-- An entry survives its encoding. -/
theorem decode_encode (e : PageEntry) : decode e.encode = e := by
  have h₀ := e.present.toNat_le
  have h₁ := e.readWrite.toNat_le
  have h₂ := e.flags.isLt
  have h₃ := e.available.isLt
  have h₄ := e.addr.isLt
  have h₅ := e.high.isLt
  have hbit : ∀ b : Bool, (b.toNat == 1) = b := by decide
  apply PageEntry.ext
  case present =>
    have : e.encode % 2 = e.present.toNat := by unfold encode; omega
    simp only [decode, this, hbit]
  case readWrite =>
    have : e.encode / 2 ^ 1 % 2 = e.readWrite.toNat := by unfold encode; omega
    simp only [decode, this, hbit]
  case flags =>
    apply BitVec.eq_of_toNat_eq
    simp only [decode, BitVec.toNat_ofNat, encode]
    omega
  case available =>
    apply BitVec.eq_of_toNat_eq
    simp only [decode, BitVec.toNat_ofNat, encode]
    omega
  case addr =>
    apply BitVec.eq_of_toNat_eq
    simp only [decode, BitVec.toNat_ofNat, encode]
    omega
  case high =>
    apply BitVec.eq_of_toNat_eq
    simp only [decode, BitVec.toNat_ofNat, encode]
    omega

/-- `entry->addr << 12`: the frame the entry points to. -/
def frame (e : PageEntry) : Nat := e.addr.toNat <<< 12

/-- Assigning `pf >> 12` to the 40-bit `addr` field. -/
def addrOf (pf : Nat) : BitVec 40 := BitVec.ofNat 40 (pf >>> 12)

theorem frame_eq (e : PageEntry) : e.frame = e.addr.toNat * pageSize := Nat.shiftLeft_eq ..

theorem frame_mod (e : PageEntry) : e.frame % pageSize = 0 := by simp [frame_eq]

/-- A frame below `2 ^ 52` survives the shift down, the 40-bit field and the shift back up. -/
theorem addrOf_frame {pf : Nat} (hmod : pf % pageSize = 0) (hlt : pf < 2 ^ 52) :
    (addrOf pf).toNat <<< 12 = pf := by
  simp only [addrOf, BitVec.toNat_ofNat, Nat.shiftRight_eq_div_pow, Nat.shiftLeft_eq]
  unfold pageSize at hmod
  omega

end PageEntry

/-- The entry at the address `slot`. -/
def getEntry (m : Mem) (slot : Nat) : PageEntry := .decode (load64 m slot)

/-- Memory with the entry at `slot` replaced. -/
def setEntry (m : Mem) (slot : Nat) (e : PageEntry) : Mem := store64 m slot e.encode

section
variable {m m' : Mem} {slot slot' : Nat} {e : PageEntry}

theorem getEntry_congr (h : ∀ b, InRange slot 8 b → m b = m' b) :
    getEntry m slot = getEntry m' slot := by rw [getEntry, getEntry, load64_congr h]

@[simp] theorem getEntry_setEntry_self : getEntry (setEntry m slot e) slot = e := by
  rw [getEntry, setEntry, load64_store64_of_lt _ _ e.encode_lt, PageEntry.decode_encode]

theorem getEntry_setEntry_of_apart (h : slot + 8 ≤ slot' ∨ slot' + 8 ≤ slot) :
    getEntry (setEntry m slot e) slot' = getEntry m slot' := by
  rw [getEntry, setEntry, load64_store64_of_apart h, getEntry]

theorem getEntry_fill_zero {a n : Nat} (h₁ : a ≤ slot) (h₂ : slot + 8 ≤ a + n) :
    getEntry (fill m a n 0) slot = .zero := by
  rw [getEntry, load64_fill_zero h₁ h₂]
  decide

/-- Zeroed memory holds zero entries. -/
theorem getEntry_zero (slot : Nat) : getEntry (fun _ => 0) slot = .zero := by
  rw [getEntry, load64_zero]
  decide

theorem getEntry_fill_of_apart {a n : Nat} {c : UInt8} (h : a + n ≤ slot ∨ slot + 8 ≤ a) :
    getEntry (fill m a n c) slot = getEntry m slot := by
  rw [getEntry, load64_fill_of_apart h, getEntry]

theorem setEntry_apply_of_not_mem {b : Nat} (h : ¬ InRange slot 8 b) : setEntry m slot e b = m b :=
  store64_apply_of_not_mem h

end

end BanjOS
