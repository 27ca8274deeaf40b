import BanjOS.Lib.ByteMem
import BanjOS.Lib.SineTable

/-!
# The compression function of MD5

`MD5Transform` of `md5.c`. The source writes out all 64 steps, with the four variables in another order on each
line and a constant of its own on each; `md5Transform_eq_compress` says that they are the 64 turns of one loop
(`step`), where the word of the block, the shift and the function follow from the number of the step and the constant
is the integer part of a sine (`sineWord`).
-/

namespace BanjOS.Md5

open ByteMem

/-! ## The code -/

/-- `UINT4`. -/
abbrev UInt4 := BitVec 32

/-- `UINT4 state[4]`, also the four variables of `MD5Transform`. -/
structure Md5State where
  a : UInt4
  b : UInt4
  c : UInt4
  d : UInt4
  deriving DecidableEq

def F (x y z : UInt4) : UInt4 := (x &&& y) ||| (~~~x &&& z)
def G (x y z : UInt4) : UInt4 := (x &&& z) ||| (y &&& ~~~z)
def H (x y z : UInt4) : UInt4 := x ^^^ y ^^^ z
def I (x y z : UInt4) : UInt4 := y ^^^ (x ||| ~~~z)

/-- `ROTATE_LEFT`. -/
def rotateLeft (x : UInt4) (n : Nat) : UInt4 := (x <<< n) ||| (x >>> (32 - n))

/-- The three statements of `FF`, `GG`, `HH` and `II`, and what comes after them with the new `a`. -/
def transformation (fn : UInt4 → UInt4 → UInt4 → UInt4) (a b c d x : UInt4) (s : Nat) (ac : UInt4)
    (rest : UInt4 → Md5State) : Md5State :=
  let a := a + (fn b c d + x + ac)
  let a := rotateLeft a s
  let a := a + b
  rest a

def ff (a b c d x : UInt4) (s : Nat) (ac : UInt4) : (UInt4 → Md5State) → Md5State := transformation F a b c d x s ac
def gg (a b c d x : UInt4) (s : Nat) (ac : UInt4) : (UInt4 → Md5State) → Md5State := transformation G a b c d x s ac
def hh (a b c d x : UInt4) (s : Nat) (ac : UInt4) : (UInt4 → Md5State) → Md5State := transformation H a b c d x s ac
def ii (a b c d x : UInt4) (s : Nat) (ac : UInt4) : (UInt4 → Md5State) → Md5State := transformation I a b c d x s ac

def s11 : Nat := 7
def s12 : Nat := 12
def s13 : Nat := 17
def s14 : Nat := 22
def s21 : Nat := 5
def s22 : Nat := 9
def s23 : Nat := 14
def s24 : Nat := 20
def s31 : Nat := 4
def s32 : Nat := 11
def s33 : Nat := 16
def s34 : Nat := 23
def s41 : Nat := 6
def s42 : Nat := 10
def s43 : Nat := 15
def s44 : Nat := 21

/-- Round 1 of `MD5Transform`. -/
def round1 (x : Nat → UInt4) : Md5State → Md5State := fun ⟨a, b, c, d⟩ =>
  ff a b c d (x 0) s11 0xd76aa478 fun a =>
  ff d a b c (x 1) s12 0xe8c7b756 fun d =>
  ff c d a b (x 2) s13 0x242070db fun c =>
  ff b c d a (x 3) s14 0xc1bdceee fun b =>
  ff a b c d (x 4) s11 0xf57c0faf fun a =>
  ff d a b c (x 5) s12 0x4787c62a fun d =>
  ff c d a b (x 6) s13 0xa8304613 fun c =>
  ff b c d a (x 7) s14 0xfd469501 fun b =>
  ff a b c d (x 8) s11 0x698098d8 fun a =>
  ff d a b c (x 9) s12 0x8b44f7af fun d =>
  ff c d a b (x 10) s13 0xffff5bb1 fun c =>
  ff b c d a (x 11) s14 0x895cd7be fun b =>
  ff a b c d (x 12) s11 0x6b901122 fun a =>
  ff d a b c (x 13) s12 0xfd987193 fun d =>
  ff c d a b (x 14) s13 0xa679438e fun c =>
  ff b c d a (x 15) s14 0x49b40821 fun b =>
  ⟨a, b, c, d⟩

/-- Round 2 of `MD5Transform`. -/
def round2 (x : Nat → UInt4) : Md5State → Md5State := fun ⟨a, b, c, d⟩ =>
  gg a b c d (x 1) s21 0xf61e2562 fun a =>
  gg d a b c (x 6) s22 0xc040b340 fun d =>
  gg c d a b (x 11) s23 0x265e5a51 fun c =>
  gg b c d a (x 0) s24 0xe9b6c7aa fun b =>
  gg a b c d (x 5) s21 0xd62f105d fun a =>
  gg d a b c (x 10) s22 0x2441453 fun d =>
  gg c d a b (x 15) s23 0xd8a1e681 fun c =>
  gg b c d a (x 4) s24 0xe7d3fbc8 fun b =>
  gg a b c d (x 9) s21 0x21e1cde6 fun a =>
  gg d a b c (x 14) s22 0xc33707d6 fun d =>
  gg c d a b (x 3) s23 0xf4d50d87 fun c =>
  gg b c d a (x 8) s24 0x455a14ed fun b =>
  gg a b c d (x 13) s21 0xa9e3e905 fun a =>
  gg d a b c (x 2) s22 0xfcefa3f8 fun d =>
  gg c d a b (x 7) s23 0x676f02d9 fun c =>
  gg b c d a (x 12) s24 0x8d2a4c8a fun b =>
  ⟨a, b, c, d⟩

/-- Round 3 of `MD5Transform`. -/
def round3 (x : Nat → UInt4) : Md5State → Md5State := fun ⟨a, b, c, d⟩ =>
  hh a b c d (x 5) s31 0xfffa3942 fun a =>
  hh d a b c (x 8) s32 0x8771f681 fun d =>
  hh c d a b (x 11) s33 0x6d9d6122 fun c =>
  hh b c d a (x 14) s34 0xfde5380c fun b =>
  hh a b c d (x 1) s31 0xa4beea44 fun a =>
  hh d a b c (x 4) s32 0x4bdecfa9 fun d =>
  hh c d a b (x 7) s33 0xf6bb4b60 fun c =>
  hh b c d a (x 10) s34 0xbebfbc70 fun b =>
  hh a b c d (x 13) s31 0x289b7ec6 fun a =>
  hh d a b c (x 0) s32 0xeaa127fa fun d =>
  hh c d a b (x 3) s33 0xd4ef3085 fun c =>
  hh b c d a (x 6) s34 0x4881d05 fun b =>
  hh a b c d (x 9) s31 0xd9d4d039 fun a =>
  hh d a b c (x 12) s32 0xe6db99e5 fun d =>
  hh c d a b (x 15) s33 0x1fa27cf8 fun c =>
  hh b c d a (x 2) s34 0xc4ac5665 fun b =>
  ⟨a, b, c, d⟩

/-- Round 4 of `MD5Transform`. -/
def round4 (x : Nat → UInt4) : Md5State → Md5State := fun ⟨a, b, c, d⟩ =>
  ii a b c d (x 0) s41 0xf4292244 fun a =>
  ii d a b c (x 7) s42 0x432aff97 fun d =>
  ii c d a b (x 14) s43 0xab9423a7 fun c =>
  ii b c d a (x 5) s44 0xfc93a039 fun b =>
  ii a b c d (x 12) s41 0x655b59c3 fun a =>
  ii d a b c (x 3) s42 0x8f0ccc92 fun d =>
  ii c d a b (x 10) s43 0xffeff47d fun c =>
  ii b c d a (x 1) s44 0x85845dd1 fun b =>
  ii a b c d (x 8) s41 0x6fa87e4f fun a =>
  ii d a b c (x 15) s42 0xfe2ce6e0 fun d =>
  ii c d a b (x 6) s43 0xa3014314 fun c =>
  ii b c d a (x 13) s44 0x4e0811a1 fun b =>
  ii a b c d (x 4) s41 0xf7537e82 fun a =>
  ii d a b c (x 11) s42 0xbd3af235 fun d =>
  ii c d a b (x 2) s43 0x2ad7d2bb fun c =>
  ii b c d a (x 9) s44 0xeb86d391 fun b =>
  ⟨a, b, c, d⟩

/-- `Decode`: the word `output[i]`. -/
def decode (input : Mem) (i : Nat) : UInt4 :=
  (input (4 * i)).toBitVec.setWidth 32 ||| (input (4 * i + 1)).toBitVec.setWidth 32 <<< 8 |||
    (input (4 * i + 2)).toBitVec.setWidth 32 <<< 16 ||| (input (4 * i + 3)).toBitVec.setWidth 32 <<< 24

/-- `MD5Transform`. -/
def md5Transform (state : Md5State) (block : Mem) : Md5State :=
  let x := decode block
  let s := round4 x (round3 x (round2 x (round1 x state)))
  ⟨state.a + s.a, state.b + s.b, state.c + s.c, state.d + s.d⟩

/-! ## One loop -/

/-- The last arguments of the 64 lines. -/
def acs : List UInt4 :=
  [0xd76aa478, 0xe8c7b756, 0x242070db, 0xc1bdceee, 0xf57c0faf, 0x4787c62a, 0xa8304613, 0xfd469501,
   0x698098d8, 0x8b44f7af, 0xffff5bb1, 0x895cd7be, 0x6b901122, 0xfd987193, 0xa679438e, 0x49b40821,
   0xf61e2562, 0xc040b340, 0x265e5a51, 0xe9b6c7aa, 0xd62f105d, 0x2441453, 0xd8a1e681, 0xe7d3fbc8,
   0x21e1cde6, 0xc33707d6, 0xf4d50d87, 0x455a14ed, 0xa9e3e905, 0xfcefa3f8, 0x676f02d9, 0x8d2a4c8a,
   0xfffa3942, 0x8771f681, 0x6d9d6122, 0xfde5380c, 0xa4beea44, 0x4bdecfa9, 0xf6bb4b60, 0xbebfbc70,
   0x289b7ec6, 0xeaa127fa, 0xd4ef3085, 0x4881d05, 0xd9d4d039, 0xe6db99e5, 0x1fa27cf8, 0xc4ac5665,
   0xf4292244, 0x432aff97, 0xab9423a7, 0xfc93a039, 0x655b59c3, 0x8f0ccc92, 0xffeff47d, 0x85845dd1,
   0x6fa87e4f, 0xfe2ce6e0, 0xa3014314, 0x4e0811a1, 0xf7537e82, 0xbd3af235, 0x2ad7d2bb, 0xeb86d391]

/-- The function of step `i`. -/
def stepFn (i : Nat) : UInt4 → UInt4 → UInt4 → UInt4 := [F, G, H, I].getD (i / 16) I

/-- The word of the block that step `i` adds. -/
def stepWord (i : Nat) : Nat := [i, (5 * i + 1) % 16, (3 * i + 5) % 16, 7 * i % 16].getD (i / 16) 0

/-- How far step `i` rotates. -/
def stepShift (i : Nat) : Nat :=
  ([[7, 12, 17, 22], [5, 9, 14, 20], [4, 11, 16, 23], [6, 10, 15, 21]].getD (i / 16) []).getD (i % 4) 0

/-- Step `i` with the constants `ac`: a new word, and the other three move on. -/
def step (ac : Nat → UInt4) (x : Nat → UInt4) (s : Md5State) (i : Nat) : Md5State :=
  ⟨s.d, s.b + (s.a + stepFn i s.b s.c s.d + x (stepWord i) + ac i).rotateLeft (stepShift i), s.b, s.c⟩

/-- The constant of step `i`: the integer part of `2 ^ 32 * |sin (i + 1)|`. -/
noncomputable def sineWord (i : Nat) : UInt4 := BitVec.ofNat 32 ⌊((2 ^ 32 : Nat) : ℝ) * |Real.sin (i + 1 : Nat)|⌋₊

/-- The words of a block. -/
def blockWord (block : Mem) (i : Nat) : UInt4 := BitVec.ofNat 32 (loadLE block (4 * i) 4)

/-- All steps, and the old state added to the new one. -/
noncomputable def compress (state : Md5State) (block : Mem) : Md5State :=
  let s := (List.range 64).foldl (step sineWord (blockWord block)) state
  ⟨state.a + s.a, state.b + s.b, state.c + s.c, state.d + s.d⟩

/-- Step `i`, as the lines of the source compute it. -/
def lineStep (x : Nat → UInt4) (s : Md5State) (i : Nat) : Md5State :=
  ⟨s.d, rotateLeft (s.a + (stepFn i s.b s.c s.d + x (stepWord i) + acs.getD i 0)) (stepShift i) + s.b, s.b, s.c⟩

section
variable {x : Nat → UInt4} {a b c d : UInt4} {i : Nat}

/-- A line is a step, whatever comes after it. -/
theorem line_eq {is : List Nat} {rest : UInt4 → Md5State} (h : ∀ t, is.foldl (lineStep x) ⟨d, t, b, c⟩ = rest t) :
    (i :: is).foldl (lineStep x) ⟨a, b, c, d⟩ =
      transformation (stepFn i) a b c d (x (stepWord i)) (stepShift i) (acs.getD i 0) rest := h _

theorem foldl_round1 (s : Md5State) : (List.range' 0 16).foldl (lineStep x) s = round1 x s := by
  rcases s with ⟨a, b, c, d⟩
  rw [round1]
  iterate 16 refine line_eq fun _ => ?_
  rfl

theorem foldl_round2 (s : Md5State) : (List.range' 16 16).foldl (lineStep x) s = round2 x s := by
  rcases s with ⟨a, b, c, d⟩
  rw [round2]
  iterate 16 refine line_eq fun _ => ?_
  rfl

theorem foldl_round3 (s : Md5State) : (List.range' 32 16).foldl (lineStep x) s = round3 x s := by
  rcases s with ⟨a, b, c, d⟩
  rw [round3]
  iterate 16 refine line_eq fun _ => ?_
  rfl

theorem foldl_round4 (s : Md5State) : (List.range' 48 16).foldl (lineStep x) s = round4 x s := by
  rcases s with ⟨a, b, c, d⟩
  rw [round4]
  iterate 16 refine line_eq fun _ => ?_
  rfl

/-- The four rounds are one loop. -/
theorem foldl_lineStep (s : Md5State) :
    (List.range 64).foldl (lineStep x) s = round4 x (round3 x (round2 x (round1 x s))) := by
  have hrange : List.range 64 = List.range' 0 16 ++ List.range' 16 16 ++ List.range' 32 16 ++ List.range' 48 16 := rfl
  rw [hrange, List.foldl_append, List.foldl_append, List.foldl_append, foldl_round1, foldl_round2, foldl_round3,
    foldl_round4]

/-! ## The constants -/

/-- The last arguments of the lines pass the check, with 24 terms of the series. -/
theorem acs_sineFloor : ∀ i < 64, SineTable.SineFloor 24 (2 ^ 32) (i + 1) (acs.getD i 0).toNat := by decide +kernel

theorem sineWord_eq (hi : i < 64) : sineWord i = acs.getD i 0 := by
  rw [sineWord, SineTable.floor_scale_abs_sin (by decide) (acs_sineFloor i hi), BitVec.ofNat_toNat, BitVec.setWidth_eq]

theorem stepShift_lt (hi : i < 64) : stepShift i < 32 := by
  revert i
  decide

theorem rotateLeft_eq (v : UInt4) {n : Nat} (hn : n < 32) : rotateLeft v n = v.rotateLeft n := by
  rw [rotateLeft, BitVec.rotateLeft_eq_rotateLeftAux_of_lt hn, BitVec.rotateLeftAux]

/-- A line computes what the step says. -/
theorem lineStep_eq (s : Md5State) (hi : i < 64) : lineStep x s i = step sineWord x s i := by
  rw [lineStep, step, sineWord_eq hi, rotateLeft_eq _ (stepShift_lt hi), BitVec.add_comm _ s.b]
  simp only [BitVec.add_assoc]

end

/-! ## The words of a block -/

theorem toNat_setWidth_byte (b : UInt8) : (b.toBitVec.setWidth 32).toNat = b.toNat := by
  rw [BitVec.toNat_setWidth_of_le (by decide)]
  rfl

/-- One byte more, above the bits there are. -/
theorem toNat_or_shift {w : UInt4} {n : Nat} (hw : w.toNat < 2 ^ n) (hn : n ≤ 24) (b : UInt8) :
    (w ||| b.toBitVec.setWidth 32 <<< n).toNat = w.toNat + 2 ^ n * b.toNat := by
  have hb : b.toNat < 2 ^ 8 := b.toNat_lt
  have hpow : 2 ^ n * 2 ^ 8 ≤ 2 ^ 32 := by
    rw [← Nat.pow_add]
    exact Nat.pow_le_pow_right (by decide) (by omega)
  have hlt : 2 ^ n * b.toNat < 2 ^ 32 := (Nat.mul_lt_mul_of_pos_left hb (Nat.two_pow_pos n)).trans_le hpow
  rw [BitVec.toNat_or, BitVec.toNat_shiftLeft, toNat_setWidth_byte, Nat.shiftLeft_eq, Nat.mul_comm, Nat.mod_eq_of_lt hlt,
    Nat.or_comm, ← Nat.two_pow_add_eq_or_of_lt hw, Nat.add_comm]

/-- `Decode` gives the words with the low byte first. -/
theorem decode_eq (block : Mem) : decode block = blockWord block := by
  funext i
  have h₀ := (block (4 * i)).toNat_lt
  have h₁ := (block (4 * i + 1)).toNat_lt
  have h₂ := (block (4 * i + 2)).toNat_lt
  have hfirst := toNat_setWidth_byte (block (4 * i))
  have hsecond := toNat_or_shift (n := 8) (by rw [hfirst]; exact h₀) (by decide) (block (4 * i + 1))
  rw [hfirst] at hsecond
  have hthird := toNat_or_shift (n := 16) (by rw [hsecond]; omega) (by decide) (block (4 * i + 2))
  rw [hsecond] at hthird
  have hfourth := toNat_or_shift (n := 24) (by rw [hthird]; omega) (by decide) (block (4 * i + 3))
  rw [hthird] at hfourth
  have hlt : loadLE block (4 * i) 4 < 2 ^ 32 := loadLE_lt block 4 (4 * i)
  have hload : loadLE block (4 * i) 4 = (block (4 * i)).toNat + 256 * ((block (4 * i + 1)).toNat +
      256 * ((block (4 * i + 2)).toNat + 256 * ((block (4 * i + 3)).toNat + 256 * 0))) := rfl
  apply BitVec.eq_of_toNat_eq
  rw [decode, hfourth, blockWord, BitVec.toNat_ofNat, Nat.mod_eq_of_lt hlt, hload]
  omega

/-- `MD5Transform` takes the 64 steps, with the words of the block and the sines. -/
theorem md5Transform_eq_compress (state : Md5State) (block : Mem) : md5Transform state block = compress state block := by
  have hsteps : (List.range 64).foldl (step sineWord (blockWord block)) state =
      (List.range 64).foldl (lineStep (blockWord block)) state :=
    List.foldl_ext _ _ _ fun s i hi => (lineStep_eq s (List.mem_range.1 hi)).symm
  rw [compress, hsteps, foldl_lineStep, md5Transform, decode_eq]

end BanjOS.Md5
