import Mathlib.Tactic.Ring
import Mathlib.Data.Nat.Notation

/-!
# Byte-addressed memory

A memory is a total map from byte addresses to bytes. Multi-byte cells are little-endian:
`loadLE`/`storeLE` read and write `n` consecutive bytes, `load64`/`store64` are the eight-byte
instances and `fill` sets a range to one byte. The three facts every client uses are that a load
depends on its own bytes only (`loadLE_congr`), that a load of what was just stored gives the value
back modulo its width (`loadLE_storeLE_self`), and that a store reaches no other byte
(`storeLE_apply_of_not_mem`).
-/

namespace ByteMem

/-- A memory: one byte at every address. -/
abbrev Mem := Nat → UInt8

/-- `b` is one of the `n` bytes from `a` on. -/
def InRange (a n b : Nat) : Prop := a ≤ b ∧ b < a + n

instance (a n b : Nat) : Decidable (InRange a n b) := inferInstanceAs (Decidable (_ ∧ _))

/-- A range inside another one. -/
theorem InRange.mono {a n a' n' b : Nat} (h : InRange a n b) (h₁ : a' ≤ a) (h₂ : a + n ≤ a' + n') :
    InRange a' n' b := ⟨h₁.trans h.1, h.2.trans_le h₂⟩

/-- A byte of a range is at some offset. -/
theorem InRange.exists_add {a n b : Nat} (h : InRange a n b) : ∃ i < n, b = a + i := by
  have h₁ := h.1
  have h₂ := h.2
  exact ⟨b - a, by omega, (Nat.add_sub_cancel' h₁).symm⟩

/-- Ranges one after the other have no byte in common. -/
theorem InRange.not_of_apart {a n a' n' b : Nat} (h : InRange a n b)
    (hap : a + n ≤ a' ∨ a' + n' ≤ a) : ¬ InRange a' n' b := fun h' => by
  obtain ⟨h₁, h₂⟩ := h
  obtain ⟨h₃, h₄⟩ := h'
  omega

/-- The little-endian value of the `n` bytes at `a`. -/
def loadLE (m : Mem) (a : Nat) : Nat → Nat
  | 0 => 0
  | n + 1 => (m a).toNat + 256 * loadLE m (a + 1) n

/-- `m` with the low `n` bytes of `v` at `a`. -/
def storeLE (m : Mem) (a n v : Nat) : Mem := fun b =>
  if InRange a n b then UInt8.ofNat (v / 256 ^ (b - a)) else m b

/-- `m` with the `n` bytes from `a` on set to `c`. -/
def fill (m : Mem) (a n : Nat) (c : UInt8) : Mem := fun b => if InRange a n b then c else m b

/-- The 64-bit word at `a`. -/
def load64 (m : Mem) (a : Nat) : Nat := loadLE m a 8

/-- `m` with the low 64 bits of `v` at `a`. -/
def store64 (m : Mem) (a v : Nat) : Mem := storeLE m a 8 v

/-! ## Loads -/

/-- A load reads its own bytes only. -/
theorem loadLE_congr {m m' : Mem} {n : Nat} :
    ∀ {a : Nat}, (∀ b, InRange a n b → m b = m' b) → loadLE m a n = loadLE m' a n := by
  induction n with
  | zero => intro _ _; rfl
  | succ n ih =>
    intro a h
    rw [loadLE, loadLE, h a ⟨Nat.le_refl _, by omega⟩]
    rw [ih fun b hb => h b (hb.mono (by omega) (by omega))]

/-- The same bytes at two addresses load the same value. -/
theorem loadLE_shift {m m' : Mem} {n : Nat} :
    ∀ {a a' : Nat}, (∀ i < n, m (a + i) = m' (a' + i)) → loadLE m a n = loadLE m' a' n := by
  induction n with
  | zero => intro _ _ _; rfl
  | succ n ih =>
    intro a a' h
    have hhead : m a = m' a' := h 0 (Nat.succ_pos n)
    rw [loadLE, loadLE, hhead, ih fun i hi => ?_]
    rw [Nat.add_right_comm a, Nat.add_right_comm a']
    exact h (i + 1) (Nat.succ_lt_succ hi)

/-- A load of `n` bytes is below `256 ^ n`. -/
theorem loadLE_lt (m : Mem) (n : Nat) : ∀ a, loadLE m a n < 256 ^ n := by
  induction n with
  | zero => intro _; simp [loadLE]
  | succ n ih =>
    intro a
    have h₀ := (m a).toNat_lt
    have h₁ := ih (a + 1)
    rw [loadLE, Nat.pow_succ]
    omega

/-- Zeros are loaded as 0. -/
theorem loadLE_zero (n a : Nat) : loadLE (fun _ => 0) a n = 0 := by
  induction n generalizing a with
  | zero => rfl
  | succ n ih =>
    rw [loadLE, ih, Nat.mul_zero, Nat.add_zero]
    rfl

theorem load64_zero (a : Nat) : load64 (fun _ => 0) a = 0 := loadLE_zero 8 a

/-- A load of the bytes just stored is the value, modulo the width of the store. -/
theorem loadLE_storeLE_self (m : Mem) (a n v : Nat) :
    loadLE (storeLE m a n v) a n = v % 256 ^ n := by
  induction n generalizing m a v with
  | zero => simp [loadLE, Nat.mod_one]
  | succ n ih =>
    -- the tail of the store is the store of the tail: peel the low byte
    have htail : loadLE (storeLE m a (n + 1) v) (a + 1) n
        = loadLE (storeLE m (a + 1) n (v / 256)) (a + 1) n := by
      refine loadLE_congr fun b hb => ?_
      have hb' : InRange a (n + 1) b := hb.mono (by omega) (by omega)
      have hle := hb.1
      have hs : b - a = (b - (a + 1)) + 1 := by omega
      rw [storeLE, storeLE, if_pos hb, if_pos hb', hs, Nat.pow_succ', Nat.div_div_eq_div_mul]
    have hhead : (storeLE m a (n + 1) v a).toNat = v % 256 := by
      rw [storeLE, if_pos ⟨Nat.le_refl _, by omega⟩]
      simp
    rw [loadLE, htail, ih, hhead, Nat.pow_succ', Nat.mod_mul]

/-! ## Stores -/

/-- A store leaves every byte outside its range alone. -/
theorem storeLE_apply_of_not_mem {m : Mem} {a n v b : Nat} (h : ¬ InRange a n b) :
    storeLE m a n v b = m b := if_neg h

/-- A fill leaves every byte outside its range alone. -/
theorem fill_apply_of_not_mem {m : Mem} {a n b : Nat} {c : UInt8} (h : ¬ InRange a n b) :
    fill m a n c b = m b := if_neg h

/-- A fill sets every byte of its range. -/
theorem fill_apply_of_mem {m : Mem} {a n b : Nat} {c : UInt8} (h : InRange a n b) :
    fill m a n c b = c := if_pos h

/-- A store leaves every byte outside its word alone. -/
theorem store64_apply_of_not_mem {m : Mem} {a v b : Nat} (h : ¬ InRange a 8 b) :
    store64 m a v b = m b := storeLE_apply_of_not_mem h

/-- A word load reads its own eight bytes only. -/
theorem load64_congr {m m' : Mem} {a : Nat} (h : ∀ b, InRange a 8 b → m b = m' b) :
    load64 m a = load64 m' a := loadLE_congr h

/-- Two stores of one value write the same bytes. -/
theorem storeLE_shift (m m' : Mem) (a a' v : Nat) {n i : Nat} (hi : i < n) :
    storeLE m a n v (a + i) = storeLE m' a' n v (a' + i) := by
  rw [storeLE, storeLE, if_pos ⟨Nat.le_add_right _ _, Nat.add_lt_add_left hi a⟩,
    if_pos ⟨Nat.le_add_right _ _, Nat.add_lt_add_left hi a'⟩, Nat.add_sub_cancel_left, Nat.add_sub_cancel_left]

/-- A word is below `2 ^ 64`. -/
theorem load64_lt (m : Mem) (a : Nat) : load64 m a < 2 ^ 64 := loadLE_lt m 8 a

/-- A word load of what was just stored. -/
theorem load64_store64_self (m : Mem) (a v : Nat) :
    load64 (store64 m a v) a = v % 2 ^ 64 := loadLE_storeLE_self m a 8 v

/-- A word load of what was just stored, at a value that fits a word. -/
theorem load64_store64_of_lt (m : Mem) (a : Nat) {v : Nat} (hv : v < 2 ^ 64) :
    load64 (store64 m a v) a = v := by
  rw [load64_store64_self, Nat.mod_eq_of_lt hv]

/-- A word load past a store to another word. -/
theorem load64_store64_of_apart {m : Mem} {a b v : Nat} (h : a + 8 ≤ b ∨ b + 8 ≤ a) :
    load64 (store64 m a v) b = load64 m b :=
  load64_congr fun _ hc => store64_apply_of_not_mem (hc.not_of_apart h.symm)

/-- A word load past a fill of another range. -/
theorem load64_fill_of_apart {m : Mem} {a n b : Nat} {c : UInt8} (h : a + n ≤ b ∨ b + 8 ≤ a) :
    load64 (fill m a n c) b = load64 m b :=
  load64_congr fun _ hd => fill_apply_of_not_mem (hd.not_of_apart h.symm)

/-- A word load inside a zeroed range. -/
theorem load64_fill_zero {m : Mem} {a n b : Nat} (h₁ : a ≤ b) (h₂ : b + 8 ≤ a + n) :
    load64 (fill m a n 0) b = 0 := by
  rw [← load64_zero b]
  exact load64_congr fun _ hc => fill_apply_of_mem (hc.mono h₁ h₂)

end ByteMem
