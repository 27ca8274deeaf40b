import BanjOS.Console.Rendering
import BanjOS.Lib.Numerals
import Mathlib.Logic.Function.Basic

/-!
# The digit buffer

`PRINT_UNSIGNED` and `PRINT_SIGNED` with the variables of C: `n` of the width of the type, `size` a `size_t`, `i`
an `int`, and `buf` as memory, so that an index that leaves it writes and reads what stands behind it. The loops
do what `printUnsigned` says and stay inside of `buf` (`printUnsignedBuf_eq`), and what is printed is the shortest
decimal numeral of the value (`print_decimal`).
-/

namespace BanjOS

/-! ## The code -/

/-- The variables of the first loop, and the indices that `buf` has been written at. -/
structure DigitState (w : Nat) where
  n : BitVec w
  size : BitVec 64
  buf : BitVec 64 → Int8
  indices : List (BitVec 64)

/-- The character `'0' + n % 10`. -/
def lowDigit (n : Nat) : Int8 := Int8.ofInt (48 + (n % 10 : Nat))

/-- The body of the first loop. -/
def DigitState.body {w : Nat} (s : DigitState w) : DigitState w where
  n := BitVec.ofNat w (s.n.toNat / 10)
  size := s.size + 1
  buf := Function.update s.buf s.size (lowDigit s.n.toNat)
  indices := s.indices ++ [s.size]

/-- The first loop: `none` is a loop that has not come to its end after `fuel` rounds. -/
def digitRounds {w : Nat} : (fuel : Nat) → DigitState w → Option (DigitState w)
  | 0, _ => none
  | fuel + 1, s => if s.body.n > 0 then digitRounds fuel s.body else some s.body

/-- The second loop, from `i` on: the indices that `buf` is read at, and the calls. -/
def replay (buf : BitVec 64 → Int8) : (fuel : Nat) → (i : BitVec 32) → Option (List (BitVec 64) × List ConsoleCall)
  | 0, _ => none
  | fuel + 1, i =>
    if 0 ≤ i.toInt then do
      let (indices, calls) ← replay buf fuel (i - 1)
      return (i.signExtend 64 :: indices, (printChar (buf (i.signExtend 64))).calls ++ calls)
    else some ([], [])

/-- What a call prints and returns, and the indices that it uses `buf` with. -/
structure BufferRun where
  printed : Printed
  indices : List (BitVec 64)

/-- `PRINT_UNSIGNED` at a type of `w` bits. `buf` is what the buffer holds before. -/
def printUnsignedBuf {w : Nat} (buf : BitVec 64 → Int8) (fuel : Nat) (n : BitVec w) : Option BufferRun := do
  let s ← digitRounds fuel ⟨n, 0, buf, []⟩
  let (indices, calls) ← replay s.buf fuel ((s.size - 1).setWidth 32)
  return ⟨⟨calls, s.size.setWidth 32⟩, s.indices ++ indices⟩

/-- `-n` as an argument of the unsigned type: what is narrower than an `int` is promoted to `int` first. -/
def negate {w : Nat} (n : BitVec w) : BitVec w := (-n.signExtend (max 32 w)).setWidth w

/-- `PRINT_SIGNED` at a type of `w` bits. -/
def printSignedBuf {w : Nat} (buf : BitVec 64 → Int8) (fuel : Nat) (n : BitVec w) : Option BufferRun :=
  if n.toInt < 0 then do
    let r ← printUnsignedBuf buf fuel (negate n)
    return { r with printed := ⟨.vga (chr '-') :: r.printed.calls, 1 + r.printed.ret⟩ }
  else printUnsignedBuf buf fuel n

/-- The types that the macros are instantiated at. -/
inductive IntType
  | int
  | short
  | long
  | longLong

namespace IntType

def width : IntType → Nat
  | int => 32
  | short => 16
  | long | longLong => 64

/-- `print_unsigned_*`. -/
def printUnsigned : (t : IntType) → BitVec t.width → Printed
  | int => printUnsignedInt
  | short => printUnsignedShort
  | long => printUnsignedLong
  | longLong => printUnsignedLongLong

/-- `print_*`. -/
def print : (t : IntType) → BitVec t.width → Printed
  | int => printInt
  | short => printShort
  | long => printLong
  | longLong => printLongLong

end IntType

/-! ## Decimal numerals -/

/-- The characters `'0'` to `'9'`. -/
def decimal : DigitAlphabet Int8 10 where
  digit c := if chr '0' ≤ c ∧ c ≤ chr '9' then some (c.toInt - 48).toNat else none
  char d := Int8.ofInt (48 + d)
  digit_eq_some {c d} := by
    have hchr : (chr '0' ≤ c ∧ c ≤ chr '9') ↔ 48 ≤ c.toInt ∧ c.toInt ≤ 57 := by
      rw [Int8.le_iff_toInt_le, Int8.le_iff_toInt_le]
      exact Iff.rfl
    rw [Option.ite_none_right_eq_some, hchr, Option.some_inj]
    constructor
    · rintro ⟨hc, rfl⟩
      refine ⟨by omega, ?_⟩
      have hsum : (48 : Int) + (c.toInt - 48).toNat = c.toInt := by omega
      rw [hsum, Int8.ofInt_toInt]
    · rintro ⟨hd, rfl⟩
      rw [Int8.toInt_ofInt_of_le (by omega) (by omega)]
      omega

/-- The characters of `Nat.toDigits` are the decimal digits. -/
theorem chr_digitChar {d : Nat} (hd : d < 10) : chr (Nat.digitChar d) = decimal.char d := by
  revert d
  decide

/-- A rendered number is read back. -/
theorem value_renderNat (n : Nat) : decimal.value (renderNat 10 n) = some n := by
  induction n using Nat.strongRecOn with
  | ind n ih =>
    rcases Nat.lt_or_ge n 10 with hlt | hge
    · rw [renderNat, Nat.toDigits_of_lt_base hlt, List.map_singleton, chr_digitChar hlt]
      exact DigitAlphabet.value_singleton hlt
    · have hdigit : n % 10 < 10 := Nat.mod_lt n (by decide)
      have hrest : decimal.value (renderNat 10 (n / 10)) = some (n / 10) := ih (n / 10) (by omega)
      rw [renderNat, Nat.toDigits_of_base_le (by decide) hge, List.map_append, List.map_singleton, chr_digitChar hdigit]
      refine (DigitAlphabet.value_concat hrest hdigit).trans ?_
      rw [Nat.div_add_mod]

/-- The first digit is zero only for the number zero. -/
theorem head_renderNat {n : Nat} (h : (renderNat 10 n).head? = some (decimal.char 0)) : n = 0 := by
  induction n using Nat.strongRecOn with
  | ind n ih =>
    rcases Nat.lt_or_ge n 10 with hlt | hge
    · rw [renderNat, Nat.toDigits_of_lt_base hlt, List.map_singleton, chr_digitChar hlt] at h
      have hvalue : decimal.digit (decimal.char n) = some n := DigitAlphabet.digit_char hlt
      rw [Option.some_inj.1 h, DigitAlphabet.digit_char (by decide)] at hvalue
      exact (Option.some_inj.1 hvalue).symm
    · rw [renderNat, Nat.toDigits_of_base_le (by decide) hge, List.map_append,
        List.head?_append_of_ne_nil _ (by simp)] at h
      have hdiv := ih (n / 10) (by omega) h
      omega

/-- No sign is a digit. -/
theorem digit_minus : decimal.digit (chr '-') = none := by decide

/-- The rendering of an integer is its shortest numeral. -/
theorem renderInt_isShortest (z : Int) : decimal.IsShortest (chr '-') (renderInt z) z := by
  have hzero (h : (renderNat 10 z.natAbs).head? = some (decimal.char 0)) :
      renderNat 10 z.natAbs = [decimal.char 0] := by
    rw [head_renderNat h]
    rfl
  rw [renderInt]
  split
  case isTrue hz =>
    have hneg : z = -(z.natAbs : Int) := by omega
    have h : decimal.IsShortest (chr '-') (chr '-' :: renderNat 10 z.natAbs) (-(z.natAbs : Int)) :=
      DigitAlphabet.isShortest_neg (value_renderNat z.natAbs) (by omega) hzero
    rwa [← hneg] at h
  case isFalse hz =>
    have hpos : z = (z.natAbs : Int) := by omega
    have h := DigitAlphabet.isShortest_natCast digit_minus (value_renderNat z.natAbs) hzero
    rwa [← hpos] at h

/-! ## The first loop -/

/-- A round of `digitLoop`, over numbers without a sign. -/
theorem digitLoop_decimal (room n : Nat) : digitLoop 10 (fun d => 48 + d) (room + 1) n =
    lowDigit n :: if 0 < n / 10 then digitLoop 10 (fun d => 48 + d) room (n / 10 : Nat) else [] := by
  have hmod : (n : Int).tmod 10 = (n % 10 : Nat) := (Int.ofNat_tmod n 10).symm
  have hdiv : (n : Int).tdiv 10 = (n / 10 : Nat) := (Int.ofNat_tdiv n 10).symm
  rw [digitLoop, hmod, hdiv, lowDigit]
  simp only [gt_iff_lt, Int.natCast_pos]

theorem length_digitLoop_le (base : Int) (digit : Int → Int) (room : Nat) (n : Int) :
    (digitLoop base digit room n).length ≤ room := by
  induction room generalizing n with
  | zero => exact Nat.le_refl 0
  | succ room ih =>
    rw [digitLoop, List.length_cons]
    refine Nat.succ_le_succ ?_
    split
    · exact ih _
    · exact Nat.zero_le room

/-- The characters `l` have been written to `buf` from its start on. -/
structure DigitState.Wrote {w : Nat} (s : DigitState w) (l : List Int8) : Prop where
  size : s.size = BitVec.ofNat 64 l.length
  buf : ∀ k (h : k < l.length), s.buf (BitVec.ofNat 64 k) = l[k]
  indices : s.indices = (List.range l.length).map (BitVec.ofNat 64)

section
variable {w : Nat} {s : DigitState w} {l : List Int8}

theorem DigitState.toNat_body_n (s : DigitState w) : s.body.n.toNat = s.n.toNat / 10 := by
  have hlt : s.n.toNat < 2 ^ w := s.n.isLt
  exact Nat.mod_eq_of_lt (by omega)

/-- The condition of the loop. -/
theorem DigitState.body_n_pos (s : DigitState w) : s.body.n > 0 ↔ 0 < s.n.toNat / 10 := by
  rw [gt_iff_lt, BitVec.lt_def, toNat_body_n]
  exact Iff.rfl

@[simp] theorem DigitState.body_size (s : DigitState w) : s.body.size = s.size + 1 := rfl

@[simp] theorem DigitState.body_buf (s : DigitState w) :
    s.body.buf = Function.update s.buf s.size (lowDigit s.n.toNat) := rfl

@[simp] theorem DigitState.body_indices (s : DigitState w) : s.body.indices = s.indices ++ [s.size] := rfl

/-- One round writes one character. -/
theorem DigitState.Wrote.body (h : s.Wrote l) (hlen : l.length < 32) :
    s.body.Wrote (l ++ [lowDigit s.n.toNat]) where
  size := by
    rw [body_size, h.size, List.length_append, List.length_singleton, BitVec.ofNat_add]
    rfl
  buf k hk := by
    rw [List.length_append, List.length_singleton] at hk
    rw [body_buf, h.size]
    rcases Nat.lt_succ_iff_lt_or_eq.1 hk with hlt | rfl
    · have hne : BitVec.ofNat 64 k ≠ BitVec.ofNat 64 l.length := by
        intro heq
        have hmod := congrArg BitVec.toNat heq
        rw [BitVec.toNat_ofNat, BitVec.toNat_ofNat] at hmod
        omega
      rw [Function.update_of_ne hne, h.buf k hlt, List.getElem_append_left hlt]
    · rw [Function.update_self, List.getElem_concat_length rfl]
  indices := by
    rw [body_indices, h.indices, h.size, List.length_append, List.length_singleton, List.range_succ,
      List.map_append, List.map_singleton]

/-- `size` as an `int`. -/
theorem DigitState.Wrote.setWidth_size (h : s.Wrote l) : s.size.setWidth 32 = BitVec.ofNat 32 l.length := by
  rw [h.size, BitVec.setWidth_ofNat_of_le (by decide)]

/-- Where the second loop starts. -/
theorem DigitState.Wrote.setWidth_size_sub_one (h : s.Wrote l) :
    (s.size - 1).setWidth 32 = BitVec.ofNat 32 l.length - 1 := by
  rw [BitVec.sub_eq_add_neg, BitVec.setWidth_add _ _ (by decide), BitVec.setWidth_neg_of_le (by decide),
    h.setWidth_size]
  exact (BitVec.sub_eq_add_neg _ _).symm

/-- The last round. -/
theorem digitRounds_last (h : ¬ 0 < s.n.toNat / 10) {fuel : Nat} (hfuel : 0 < fuel) :
    digitRounds fuel s = some s.body := by
  rcases Nat.exists_eq_add_one.2 hfuel with ⟨fuel, rfl⟩
  rw [digitRounds, if_neg (mt s.body_n_pos.1 h)]

/-- The loop writes the characters of `digitLoop`, and comes to its end before `buf` does. -/
theorem digitRounds_wrote {room : Nat} (h : s.Wrote l) (hroom : l.length + room < 32)
    (hn : s.n.toNat < 10 ^ (room + 1)) :
    ∃ t, t.Wrote (l ++ digitLoop 10 (fun d => 48 + d) (room + 1) s.n.toNat) ∧
      ∀ fuel, room < fuel → digitRounds fuel s = some t := by
  induction room generalizing s l with
  | zero =>
    have hlast : ¬ 0 < s.n.toNat / 10 := by omega
    rw [digitLoop_decimal, if_neg hlast]
    exact ⟨s.body, h.body hroom, fun fuel hfuel => digitRounds_last hlast hfuel⟩
  | succ room ih =>
    have hbody := h.body (by omega)
    rw [digitLoop_decimal]
    split
    case isTrue hmore =>
      have hdiv : s.body.n.toNat < 10 ^ (room + 1) := by
        rw [s.toNat_body_n]
        exact Nat.div_lt_of_lt_mul (by rwa [← Nat.pow_succ'])
      rcases ih hbody (by rw [List.length_append, List.length_singleton]; omega) hdiv with ⟨t, ht, hrun⟩
      rw [s.toNat_body_n, List.append_assoc] at ht
      refine ⟨t, ht, fun fuel hfuel => ?_⟩
      rcases Nat.exists_eq_add_one.2 (Nat.zero_lt_of_lt hfuel) with ⟨fuel, rfl⟩
      rw [digitRounds, if_pos (s.body_n_pos.2 hmore)]
      exact hrun fuel (by omega)
    case isFalse hlast =>
      exact ⟨s.body, hbody, fun fuel hfuel => digitRounds_last hlast (by omega)⟩

end

/-! ## The second loop -/

/-- `buf` is read from character `k - 1` down to its start. -/
theorem replay_eq {buf : BitVec 64 → Int8} {l : List Int8} (hbuf : ∀ k (h : k < l.length), buf (BitVec.ofNat 64 k) = l[k])
    (hlen : l.length ≤ 32) {k fuel : Nat} (hk : k ≤ l.length) (hfuel : k < fuel) :
    replay buf fuel (BitVec.ofNat 32 k - 1) = some ((List.range k).reverse.map (BitVec.ofNat 64),
      (l.take k).reverse.flatMap fun c => (printChar c).calls) := by
  induction k generalizing fuel with
  | zero =>
    rcases Nat.exists_eq_add_one.2 hfuel with ⟨fuel, rfl⟩
    rfl
  | succ k ih =>
    rcases Nat.exists_eq_add_one.2 (Nat.zero_lt_of_lt hfuel) with ⟨fuel, rfl⟩
    have hi : BitVec.ofNat 32 (k + 1) - 1 = BitVec.ofNat 32 k := by
      rw [BitVec.ofNat_add]
      exact BitVec.add_sub_cancel ..
    have hint : (BitVec.ofNat 32 k).toInt = k := (toInt_ofNat_eq_iff k).2 (by omega)
    have hext : (BitVec.ofNat 32 k).signExtend 64 = BitVec.ofNat 64 k := by
      rw [BitVec.signExtend, hint]
      exact BitVec.ofInt_natCast 64 k
    rw [hi, replay, hint, if_pos (Int.natCast_nonneg k), ih (by omega) (by omega), hext, hbuf k hk,
      List.range_succ, List.reverse_append, List.take_succ_eq_append_getElem hk, List.reverse_append]
    rfl

/-! ## Whole calls -/

/-- The conversion of `-n` is its two's complement. -/
theorem negate_eq {w : Nat} (n : BitVec w) : negate n = -n := by
  rw [negate, BitVec.setWidth_neg_of_le (Nat.le_max_right 32 w)]
  congr 1
  ext i hi
  rw [BitVec.getElem_setWidth, BitVec.getLsbD_eq_getElem (by omega), BitVec.getElem_signExtend, dif_pos hi]

/-- For every value of a type of up to 64 bits, the code prints what `printUnsigned` says, with indices that stay
inside of `buf`. -/
theorem printUnsignedBuf_eq {w : Nat} (hw : w ≤ 64) (buf : BitVec 64 → Int8) (n : BitVec w) :
    ∃ indices, (∀ i ∈ indices, i.toNat < 32) ∧
      ∀ fuel, 32 < fuel → printUnsignedBuf buf fuel n = some ⟨printUnsigned n.toNat, indices⟩ := by
  have hn : n.toNat < 10 ^ 32 := by
    have hlt : n.toNat < 2 ^ 64 := n.isLt.trans_le (Nat.pow_le_pow_right (by decide) hw)
    omega
  have hstart : (⟨n, 0, buf, []⟩ : DigitState w).Wrote [] := ⟨rfl, nofun, rfl⟩
  rcases digitRounds_wrote hstart (by decide) hn with ⟨t, ht, hrounds⟩
  rw [List.nil_append] at ht
  have hlen := length_digitLoop_le 10 (fun d => 48 + d) 32 n.toNat
  have hprinted : printUnsigned n.toNat = printBuf (digitLoop 10 (fun d => 48 + d) 32 n.toNat) := rfl
  generalize digitLoop 10 (fun d => 48 + d) 32 n.toNat = l at ht hlen hprinted
  refine ⟨t.indices ++ (List.range l.length).reverse.map (BitVec.ofNat 64), ?_, ?_⟩
  · intro i hi
    rw [ht.indices, ← List.map_append, List.mem_map] at hi
    rcases hi with ⟨k, hk, rfl⟩
    rw [List.mem_append, List.mem_reverse, or_self, List.mem_range] at hk
    rw [BitVec.toNat_ofNat]
    omega
  · intro fuel hfuel
    rw [printUnsignedBuf, hrounds fuel (by omega)]
    simp only [Option.bind_eq_bind, Option.bind_some]
    rw [ht.setWidth_size_sub_one, replay_eq ht.buf hlen (Nat.le_refl _) (by omega), List.take_length,
      ht.setWidth_size, hprinted]
    rfl

namespace IntType

variable (t : IntType)

theorem width_le : t.width ≤ 64 := by
  cases t
  all_goals decide

theorem printUnsigned_eq (n : BitVec t.width) : t.printUnsigned n = BanjOS.printUnsigned n.toNat := by
  cases t
  all_goals rfl

theorem print_eq (n : BitVec t.width) : t.print n = printSigned t.printUnsigned n := by
  cases t
  all_goals rfl

end IntType

/-- The same with a sign. -/
theorem printSignedBuf_eq (t : IntType) (buf : BitVec 64 → Int8) (n : BitVec t.width) :
    ∃ indices, (∀ i ∈ indices, i.toNat < 32) ∧
      ∀ fuel, 32 < fuel → printSignedBuf buf fuel n = some ⟨t.print n, indices⟩ := by
  rw [t.print_eq, printSigned]
  split
  case isTrue hn =>
    rcases printUnsignedBuf_eq t.width_le buf (negate n) with ⟨indices, hin, hrun⟩
    refine ⟨indices, hin, fun fuel hfuel => ?_⟩
    rw [printSignedBuf, if_pos hn, hrun fuel hfuel, ← t.printUnsigned_eq, negate_eq]
    rfl
  case isFalse hn =>
    rcases printUnsignedBuf_eq t.width_le buf n with ⟨indices, hin, hrun⟩
    refine ⟨indices, hin, fun fuel hfuel => ?_⟩
    rw [printSignedBuf, if_neg hn, hrun fuel hfuel, ← t.printUnsigned_eq]

/-- A call prints the shortest decimal numeral of `z` on the screen, returns the number of its characters and uses
`buf` inside of its 32 characters. -/
structure PrintsDecimal (r : BufferRun) (z : Int) : Prop where
  numeral : decimal.IsShortest (chr '-') (vgaChars r.printed.calls) z
  ret : r.printed.ret.toInt = (vgaChars r.printed.calls).length
  inside : ∀ i ∈ r.indices, i.toNat < 32

theorem renderInt_natCast (n : Nat) : renderInt n = renderNat 10 n := by
  rw [renderInt, if_neg (Int.not_lt.2 (Int.natCast_nonneg n)), Int.natAbs_natCast]

/-- A numeral of 64 bits has at most 20 digits. -/
theorem length_renderInt_le {z : Int} (hz : z.natAbs < 2 ^ 64) : (renderInt z).length ≤ 21 := by
  have hdigits : (renderNat 10 z.natAbs).length ≤ 20 := by
    rw [renderNat, List.length_map, Nat.length_toDigits_le_iff (by decide) (by decide)]
    omega
  rw [renderInt]
  split
  · exact Nat.succ_le_succ hdigits
  · exact hdigits.trans (Nat.le_succ 20)

theorem Printed.Outputs.printsDecimal {p : Printed} {z : Int} {serial : List Int8} (h : p.Outputs (renderInt z) serial)
    (hz : z.natAbs < 2 ^ 64) {indices : List (BitVec 64)} (hin : ∀ i ∈ indices, i.toNat < 32) :
    PrintsDecimal ⟨p, indices⟩ z where
  numeral := by
    rw [h.vga]
    exact renderInt_isShortest z
  ret := by
    have hlen := length_renderInt_le hz
    rw [h.ret, h.vga]
    exact (toInt_ofNat_eq_iff _).2 (by omega)
  inside := hin

/-- For each of the four types, every value of it and whatever `buf` holds before, `print_unsigned_*` and `print_*`
return and print the shortest decimal numeral. -/
theorem print_decimal (t : IntType) (buf : BitVec 64 → Int8) (n : BitVec t.width) :
    (∃ r, (∀ fuel, 32 < fuel → printUnsignedBuf buf fuel n = some r) ∧ PrintsDecimal r n.toNat) ∧
    ∃ r, (∀ fuel, 32 < fuel → printSignedBuf buf fuel n = some r) ∧ PrintsDecimal r n.toInt := by
  have hwidth : 2 ^ t.width ≤ 2 ^ 64 := Nat.pow_le_pow_right (by decide) t.width_le
  have hlt (n : BitVec t.width) : n.toNat < 2 ^ 64 := n.isLt.trans_le hwidth
  have hprints (n : BitVec t.width) : (t.printUnsigned n).Prints (renderNat 10 n.toNat) := by
    rw [t.printUnsigned_eq]
    exact printUnsigned_prints (hlt n)
  constructor
  · rcases printUnsignedBuf_eq t.width_le buf n with ⟨indices, hin, hrun⟩
    have houtputs := hprints n
    rw [t.printUnsigned_eq, ← renderInt_natCast] at houtputs
    exact ⟨_, hrun, houtputs.printsDecimal (hlt n) hin⟩
  · rcases printSignedBuf_eq t buf n with ⟨indices, hin, hrun⟩
    have houtputs := printSigned_outputs n hprints
    rw [← t.print_eq] at houtputs
    refine ⟨_, hrun, houtputs.printsDecimal ?_ hin⟩
    have hn : n.toNat < 2 ^ t.width := n.isLt
    rw [BitVec.toInt_eq_toNat_cond]
    split
    all_goals omega

end BanjOS
