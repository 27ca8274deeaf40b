import BanjOS.Lib.ByteMem

/-!
# Encoded data in memory

Numbers are encoded little-endian (`leBytes`), records as the encodings of their fields one after the other.
`BytesAt m a l` says that the bytes `l` stand in memory from `a` on; it splits along appends
(`bytesAt_append`), and at an encoded number it says what a load gives (`BytesAt.loadLE_eq`).
-/

namespace ByteMem

/-- The `n` low bytes of `v`, the lowest one first. -/
def leBytes : (n v : Nat) → List UInt8
  | 0, _ => []
  | n + 1, v => UInt8.ofNat v :: leBytes n (v / 256)

/-- The bytes `l` stand in memory from `a` on. -/
def BytesAt (m : Mem) : (a : Nat) → List UInt8 → Prop
  | _, [] => True
  | a, b :: l => m a = b ∧ BytesAt m (a + 1) l

instance decidableBytesAt (m : Mem) : (a : Nat) → (l : List UInt8) → Decidable (BytesAt m a l)
  | _, [] => isTrue trivial
  | a, b :: l => @instDecidableAnd _ _ (decEq (m a) b) (decidableBytesAt m (a + 1) l)

/-- A memory that starts with the bytes `l`. -/
def memOf (l : List UInt8) : Mem := fun a => l.getD a 0

@[simp] theorem length_leBytes (n v : Nat) : (leBytes n v).length = n := by
  induction n generalizing v with
  | zero => rfl
  | succ n ih => rw [leBytes, List.length_cons, ih]

/-- The low bytes come first. -/
theorem leBytes_add (n k v : Nat) : leBytes (n + k) v = leBytes n v ++ leBytes k (v / 256 ^ n) := by
  induction n generalizing v with
  | zero => rw [Nat.zero_add, Nat.pow_zero, Nat.div_one, leBytes, List.nil_append]
  | succ n ih => rw [Nat.succ_add, leBytes, leBytes, ih, List.cons_append, Nat.div_div_eq_div_mul, ← Nat.pow_succ']

/-- What does not fit is cut off. -/
theorem leBytes_mod (n v : Nat) : leBytes n (v % 256 ^ n) = leBytes n v := by
  induction n generalizing v with
  | zero => rfl
  | succ n ih =>
    have hbyte : UInt8.ofNat (v % 256 ^ (n + 1)) = UInt8.ofNat v := by
      rw [← UInt8.toNat_inj, UInt8.toNat_ofNat', UInt8.toNat_ofNat',
        Nat.mod_mod_of_dvd v (Nat.pow_dvd_pow 256 (Nat.succ_le_succ n.zero_le))]
    rw [leBytes, leBytes, hbyte, Nat.pow_succ', Nat.mod_mul_right_div_self, ih]

section
variable {m : Mem} {a : Nat}

@[simp] theorem bytesAt_nil : BytesAt m a [] := trivial

/-- Bytes one after the other. -/
theorem bytesAt_append {l l' : List UInt8} : BytesAt m a (l ++ l') ↔ BytesAt m a l ∧ BytesAt m (a + l.length) l' := by
  induction l generalizing a with
  | nil => simp
  | cons b l ih =>
    rw [List.cons_append, BytesAt, BytesAt, ih, List.length_cons, and_assoc, Nat.add_right_comm, Nat.add_assoc]

/-- The bytes one by one. -/
theorem bytesAt_iff {l : List UInt8} : BytesAt m a l ↔ ∀ j (h : j < l.length), m (a + j) = l[j] := by
  induction l generalizing a with
  | nil => exact iff_of_true trivial nofun
  | cons b l ih =>
    rw [BytesAt, ih]
    constructor
    · rintro ⟨hb, hl⟩ j hj
      cases j with
      | zero => exact hb
      | succ j =>
        have haddr : a + (j + 1) = a + 1 + j := by omega
        rw [haddr]
        exact hl j (Nat.lt_of_succ_lt_succ hj)
    · intro h
      refine ⟨h 0 (Nat.succ_pos _), fun j hj => ?_⟩
      have haddr : a + 1 + j = a + (j + 1) := by omega
      rw [haddr]
      exact h (j + 1) (Nat.succ_lt_succ hj)

/-- The bytes from a pointer on, as a memory of their own. -/
theorem bytesAt_shift {l : List UInt8} : BytesAt (fun j => m (a + j)) 0 l ↔ BytesAt m a l := by
  rw [bytesAt_iff, bytesAt_iff]
  simp only [Nat.zero_add]

theorem bytesAt_memOf (l : List UInt8) : BytesAt (memOf l) 0 l := by
  rw [bytesAt_iff]
  intro j hj
  rw [Nat.zero_add, memOf, List.getD_eq_getElem?_getD, List.getElem?_eq_getElem hj]
  rfl

/-- The first `n` bytes of a memory. -/
theorem bytesAt_map_range (m : Mem) (n : Nat) : BytesAt m 0 ((List.range n).map m) := by
  rw [bytesAt_iff]
  intro j hj
  rw [List.getElem_map, List.getElem_range, Nat.zero_add]

/-- A number that stands in memory is loaded. -/
theorem BytesAt.loadLE_eq {n v : Nat} (h : BytesAt m a (leBytes n v)) : loadLE m a n = v % 256 ^ n := by
  induction n generalizing a v with
  | zero => rw [loadLE, Nat.pow_zero, Nat.mod_one]
  | succ n ih =>
    obtain ⟨hlow, hrest⟩ := h
    have hsplit : v % 256 ^ (n + 1) = v % 256 + 256 * (v / 256 % 256 ^ n) := by rw [Nat.pow_succ', Nat.mod_mul]
    rw [loadLE, hlow, ih hrest, UInt8.toNat_ofNat', hsplit]

/-- A number that fits its width is loaded as it is. -/
theorem BytesAt.loadLE_of_lt {n v : Nat} (h : BytesAt m a (leBytes n v)) (hv : v < 256 ^ n) : loadLE m a n = v := by
  rw [h.loadLE_eq, Nat.mod_eq_of_lt hv]

end

/-- The records of an array that starts at `a`: `n` of them, `width` bytes apart, each read by `read`. -/
def arrayAt {α : Type} (read : Nat → α) (width a n : Nat) : List α :=
  (List.range n).map fun i => read (a + width * i)

theorem arrayAt_succ {α : Type} (read : Nat → α) (width a n : Nat) :
    arrayAt read width a (n + 1) = read a :: arrayAt read width (a + width) n := by
  rw [arrayAt, arrayAt, List.range_succ_eq_map, List.map_cons, List.map_map, Nat.mul_zero, Nat.add_zero]
  congr 1
  refine List.map_congr_left fun i _ => ?_
  rw [Function.comp_apply, Nat.mul_succ, Nat.add_assoc, Nat.add_comm width]

/-- The size of an array of encoded records. -/
theorem length_flatMap_of_width {α : Type} {width : Nat} {encode : α → List UInt8}
    (hlen : ∀ x, (encode x).length = width) (l : List α) : (l.flatMap encode).length = width * l.length := by
  induction l with
  | nil => rfl
  | cons x l ih => rw [List.flatMap_cons, List.length_append, hlen, ih, List.length_cons, Nat.mul_succ, Nat.add_comm]

/-- An array of encoded records is read back, if each record is. -/
theorem BytesAt.arrayAt_eq {α : Type} {m : Mem} {a width : Nat} {read : Nat → α} {encode : α → List UInt8}
    {l : List α} (hlen : ∀ x, (encode x).length = width)
    (hread : ∀ x ∈ l, ∀ a, BytesAt m a (encode x) → read a = x) (h : BytesAt m a (l.flatMap encode)) :
    arrayAt read width a l.length = l := by
  induction l generalizing a with
  | nil => rfl
  | cons x l ih =>
    rw [List.flatMap_cons, bytesAt_append, hlen x] at h
    rw [List.length_cons, arrayAt_succ, hread x (.head l) a h.1]
    rw [ih (fun y hy => hread y (.tail x hy)) h.2]

end ByteMem
