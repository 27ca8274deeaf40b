import BanjOS.Console.Format
import Mathlib.Algebra.Order.BigOperators.Group.List

/-!
# What `printk` prints

The documented rendering of a directive (`Piece.render`), and what the code passes to its two outputs
instead. `print_hex_long_long` is an instance of `PRINT_HEX` at a signed type and stops after one character
of a negative number; `printk_renders_iff` says that this is all that is wrong on the screen. `PRINT_SIGNED`
passes the sign to the screen only: `printk_agrees_iff` says when the serial line has the same text.
-/

namespace BanjOS

/-! ## The documented rendering -/

/-- A number in a base from 2 to 16, in lower case and without leading zeros. -/
def renderNat (base n : Nat) : List Int8 := (Nat.toDigits base n).map chr

/-- A signed number in decimal. -/
def renderInt (n : Int) : List Int8 :=
  if n < 0 then chr '-' :: renderNat 10 n.natAbs else renderNat 10 n.natAbs

/-- `%d`, `%u` and `%x` of a number of `w` bits. -/
def Conv.render {w : Nat} (n : BitVec w) : Conv → List Int8
  | .d => renderInt n.toInt
  | .u => renderNat 10 n.toNat
  | .x => renderNat 16 n.toNat

/-- The conversion that a letter stands for. -/
def convOfLetter (c : Int8) : Option Conv :=
  if c = chr 'd' then some .d
  else if c = chr 'u' then some .u
  else if c = chr 'x' then some .x
  else none

/-- The width of `short`, `long` and `long long`. -/
def Size.width : Size → Nat
  | .short => 16
  | .long | .longLong => 64

namespace Piece

/-- The directives that the comment on `printk` lists, and literal characters. -/
def Documented : Piece → Prop
  | lit c => c ≠ 0 ∧ c ≠ chr '%'
  | sized _ specifier => (convOfLetter specifier).isSome
  | other _ => False
  | _ => True

instance decidableDocumented : (p : Piece) → Decidable p.Documented
  | lit c => inferInstanceAs (Decidable (c ≠ 0 ∧ c ≠ chr '%'))
  | sized _ specifier => inferInstanceAs (Decidable (convOfLetter specifier).isSome)
  | other _ => inferInstanceAs (Decidable False)
  | percent | str | char | ptr | int _ => inferInstanceAs (Decidable True)

/-- The documented rendering of a piece with its argument: the argument has the C type of the directive, so
it is the low bits of what `va_arg` finds. -/
def render (string : BitVec 64 → CString) (v : BitVec 64) : Piece → List Int8
  | lit c => [c]
  | percent => [chr '%']
  | str => (string v).chars
  | char => [Int8.ofBitVec (v.setWidth 8)]
  | ptr => renderNat 16 v.toNat
  | int conv => conv.render (v.setWidth 32)
  | sized size specifier =>
    match convOfLetter specifier with
    | some conv => conv.render (v.setWidth size.width)
    | none => []
  | other _ => []

/-- The argument of a signed decimal directive is negative. -/
def NegativeDecimal (v : BitVec 64) : Piece → Prop
  | int .d => (v.setWidth 32).toInt < 0
  | sized size specifier => convOfLetter specifier = some .d ∧ (v.setWidth size.width).toInt < 0
  | _ => False

/-- The directive is `%qx`, and its argument would be negative as a `long long`. -/
def NegativeHex (v : BitVec 64) (p : Piece) : Prop := p = sized .longLong (chr 'x') ∧ v.toInt < 0

end Piece

/-- The documented rendering of pieces with their arguments. -/
def renderAll (va : VaArgs) (ps : List Piece) : List Int8 :=
  (withArgs va 0 ps).flatMap fun p => p.1.render va.string p.2

/-! ## Characters of the two outputs -/

/-- The characters passed to `VGA_display_char`. -/
def vgaChars (calls : List ConsoleCall) : List Int8 :=
  calls.filterMap fun
    | .vga c => some c
    | .ser _ => none

/-- The characters passed to `SER_write`. -/
def serChars (calls : List ConsoleCall) : List Int8 :=
  calls.filterMap fun
    | .ser c => some c
    | .vga _ => none

/-- The texts that a function prints on the screen and on the serial line, and the `int` it returns is how
long the one on the screen is. -/
structure Printed.Outputs (p : Printed) (screen serial : List Int8) : Prop where
  vga : vgaChars p.calls = screen
  ser : serChars p.calls = serial
  ret : p.ret = BitVec.ofNat 32 screen.length

/-- The same text on both. -/
abbrev Printed.Prints (p : Printed) (l : List Int8) : Prop := p.Outputs l l

@[simp] theorem vgaChars_append (c d : List ConsoleCall) : vgaChars (c ++ d) = vgaChars c ++ vgaChars d :=
  List.filterMap_append

@[simp] theorem serChars_append (c d : List ConsoleCall) : serChars (c ++ d) = serChars c ++ serChars d :=
  List.filterMap_append

theorem printChar_prints (c : Int8) : (printChar c).Prints [c] := ⟨rfl, rfl, rfl⟩

theorem flatMap_printChar (l : List Int8) :
    vgaChars (l.flatMap fun c => (printChar c).calls) = l ∧
    serChars (l.flatMap fun c => (printChar c).calls) = l := by
  induction l with
  | nil => exact ⟨rfl, rfl⟩
  | cons c l ih =>
    rw [List.flatMap_cons, vgaChars_append, serChars_append, ih.1, ih.2]
    exact ⟨rfl, rfl⟩

theorem printStringFrom_eq (printed : BitVec 32) (l : List Int8) :
    vgaChars (printStringFrom printed l).calls = l ∧ serChars (printStringFrom printed l).calls = l ∧
    (printStringFrom printed l).ret = printed + BitVec.ofNat 32 l.length := by
  induction l generalizing printed with
  | nil => simp [printStringFrom, vgaChars, serChars]
  | cons c l ih =>
    obtain ⟨hvga, hser, hret⟩ := ih (printed + 1)
    refine ⟨?_, ?_, ?_⟩
    · simp only [printStringFrom, vgaChars_append, (printChar_prints c).vga]
      exact congrArg (c :: ·) hvga
    · simp only [printStringFrom, serChars_append, (printChar_prints c).ser]
      exact congrArg (c :: ·) hser
    · refine hret.trans ?_
      rw [List.length_cons, BitVec.add_assoc, Nat.add_comm, BitVec.ofNat_add]
      rfl

theorem printString_prints (s : CString) : (printString s).Prints s.chars := by
  obtain ⟨hvga, hser, hret⟩ := printStringFrom_eq 0 s.chars
  exact ⟨hvga, hser, hret.trans (BitVec.zero_add _)⟩

theorem printBuf_prints (buf : List Int8) : (printBuf buf).Prints buf.reverse := by
  obtain ⟨hvga, hser⟩ := flatMap_printChar buf.reverse
  exact ⟨hvga, hser, by rw [printBuf, List.length_reverse]⟩

/-! ## Numbers -/

/-- The characters in `buf`, from its end to its start, are the digits. -/
theorem digitLoop_reverse {base : Nat} {digit : Int → Int} (hbase : 1 < base)
    (hdigit : ∀ d < base, Int8.ofInt (digit d) = chr (Nat.digitChar d)) (room n : Nat)
    (hn : n < base ^ (room + 1)) : (digitLoop base digit (room + 1) n).reverse = renderNat base n := by
  have hchar (n : Nat) : Int8.ofInt (digit ((n : Int).tmod base)) = chr (Nat.digitChar (n % base)) := by
    rw [← Int.ofNat_tmod]
    exact hdigit _ (Nat.mod_lt _ (by omega))
  have hpos (n : Nat) : (n : Int).tdiv base > 0 ↔ base ≤ n := by
    rw [← Int.ofNat_tdiv, gt_iff_lt, Int.natCast_pos, Nat.div_pos_iff]
    omega
  induction room generalizing n with
  | zero =>
    have hlt : n < base := by rwa [Nat.zero_add, Nat.pow_one] at hn
    rw [digitLoop, if_neg (by rw [hpos]; omega), hchar, Nat.mod_eq_of_lt hlt, renderNat,
      Nat.toDigits_of_lt_base hlt]
    rfl
  | succ room ih =>
    rw [digitLoop, hchar]
    by_cases hle : base ≤ n
    case pos =>
      have hdiv : n / base < base ^ (room + 1) := Nat.div_lt_of_lt_mul (by rwa [← Nat.pow_succ'])
      rw [if_pos ((hpos n).2 hle), List.reverse_cons, ← Int.ofNat_tdiv, ih _ hdiv, renderNat, renderNat,
        Nat.toDigits_of_base_le hbase hle, List.map_append]
      rfl
    case neg =>
      have hlt : n < base := by omega
      rw [if_neg (by rw [hpos]; omega), Nat.mod_eq_of_lt hlt, renderNat, Nat.toDigits_of_lt_base hlt]
      rfl

theorem digitLoop_reverse_of_lt {base : Nat} {digit : Int → Int} (hbase : 1 < base)
    (hdigit : ∀ d < base, Int8.ofInt (digit d) = chr (Nat.digitChar d)) {n : Nat} (hn : n < 2 ^ 64)
    (hbuf : 2 ^ 64 ≤ base ^ 32) : (digitLoop base digit 32 n).reverse = renderNat base n :=
  digitLoop_reverse hbase hdigit 31 n (hn.trans_le hbuf)

theorem printUnsigned_prints {n : Nat} (hn : n < 2 ^ 64) : (printUnsigned n).Prints (renderNat 10 n) := by
  have hdigits : (digitLoop (10 : Nat) (fun d => 48 + d) 32 n).reverse = renderNat 10 n :=
    digitLoop_reverse_of_lt (by decide) (by decide) hn (by decide)
  rw [← hdigits]
  exact printBuf_prints _

theorem printHex_prints {n : Nat} (hn : n < 2 ^ 64) : (printHex n).Prints (renderNat 16 n) := by
  have hdigits : (digitLoop (16 : Nat) (fun d => if d < 10 then 48 + d else 97 + d - 10) 32 n).reverse =
      renderNat 16 n := digitLoop_reverse_of_lt (by decide) (by decide) hn (by decide)
  rw [← hdigits]
  exact printBuf_prints _

/-- The loop of `PRINT_HEX` ends after the first digit of a negative number. -/
theorem printHex_of_neg {n : Int} (hn : n < 0) : ∃ c, (printHex n).Prints [c] := by
  have hdiv : ¬ n.tdiv 16 > 0 := by
    have hneg : (-n).tdiv 16 = -(n.tdiv 16) := Int.neg_tdiv ..
    have hnonneg : 0 ≤ (-n).tdiv 16 := Int.tdiv_nonneg (by omega) (by decide)
    omega
  rw [printHex, digitLoop, if_neg hdiv]
  exact ⟨_, printBuf_prints [_]⟩

/-- The two's complement of a negative number is its magnitude. -/
theorem toNat_neg_of_neg {w : Nat} {n : BitVec w} (hn : n.toInt < 0) : (-n).toNat = n.toInt.natAbs := by
  have hlt := n.isLt
  rw [BitVec.toInt_eq_toNat_cond] at hn ⊢
  split at hn
  · omega
  · have hpos : 0 < n.toNat := by omega
    rw [BitVec.toNat_neg, Nat.mod_eq_of_lt (by omega)]
    split <;> omega

/-- A number that is not negative is its unsigned value. -/
theorem toInt_eq_toNat_of_not_neg {w : Nat} {n : BitVec w} (hn : ¬ n.toInt < 0) : n.toInt = n.toNat := by
  have hlt := n.isLt
  rw [BitVec.toInt_eq_toNat_cond] at hn ⊢
  split at hn <;> split <;> omega

/-- The sign goes to the screen only. -/
theorem printSigned_outputs {w : Nat} {printUnsigned : BitVec w → Printed} (n : BitVec w)
    (h : ∀ n, (printUnsigned n).Prints (renderNat 10 n.toNat)) :
    (printSigned printUnsigned n).Outputs (renderInt n.toInt) (renderNat 10 n.toInt.natAbs) := by
  rw [printSigned, renderInt]
  split
  case isTrue hn =>
    obtain ⟨hvga, hser, hret⟩ := h (-n)
    rw [toNat_neg_of_neg hn] at hvga hser hret
    refine ⟨?_, hser, ?_⟩
    · exact congrArg (chr '-' :: ·) hvga
    · exact (congrArg (1 + ·) hret).trans (by rw [List.length_cons, Nat.add_comm, BitVec.ofNat_add]; rfl)
  case isFalse hn =>
    have habs : n.toNat = n.toInt.natAbs := by
      rw [toInt_eq_toNat_of_not_neg hn, Int.natAbs_natCast]
    exact habs ▸ h n

/-- Which function `PRINT_SIZED` calls. -/
theorem printSized_eq {w : Nat} (s u x : BitVec w → Printed) (n : BitVec w) (specifier : Int8) :
    printSized s u x n specifier =
      match convOfLetter specifier with
      | some .d => s n
      | some .u => u n
      | some .x => x n
      | none => ⟨[], 0⟩ := by
  rw [printSized, convOfLetter]
  split_ifs <;> rfl

/-! ## Pieces -/

/-- The texts that the calls for a piece print together. -/
structure OutputsAll (out : List Printed) (screen serial : List Int8) : Prop where
  vga : vgaChars (out.flatMap Printed.calls) = screen
  ser : serChars (out.flatMap Printed.calls) = serial
  ret : (out.map Printed.ret).sum = BitVec.ofNat 32 screen.length

section
variable {p : Printed} {out out' : List Printed} {l l' k k' : List Int8}

theorem OutputsAll.nil : OutputsAll [] [] [] := ⟨rfl, rfl, rfl⟩

theorem OutputsAll.cons (h : p.Outputs l k) (h' : OutputsAll out l' k') :
    OutputsAll (p :: out) (l ++ l') (k ++ k') where
  vga := by rw [List.flatMap_cons, vgaChars_append, h.vga, h'.vga]
  ser := by rw [List.flatMap_cons, serChars_append, h.ser, h'.ser]
  ret := by rw [List.map_cons, List.sum_cons, h.ret, h'.ret, List.length_append, BitVec.ofNat_add]

theorem OutputsAll.append (h : OutputsAll out l k) (h' : OutputsAll out' l' k') :
    OutputsAll (out ++ out') (l ++ l') (k ++ k') where
  vga := by rw [List.flatMap_append, vgaChars_append, h.vga, h'.vga]
  ser := by rw [List.flatMap_append, serChars_append, h.ser, h'.ser]
  ret := by rw [List.map_append, List.sum_append, h.ret, h'.ret, List.length_append, BitVec.ofNat_add]

theorem Printed.Outputs.all (h : p.Outputs l k) : OutputsAll [p] l k := by
  simpa using OutputsAll.cons h .nil

end

/-- What the serial line gets for a number: the sign is missing. -/
def Conv.serial {w : Nat} (n : BitVec w) : Conv → List Int8
  | .d => renderNat 10 n.toInt.natAbs
  | conv => conv.render n

/-- The sign is the only difference. -/
theorem Conv.render_serial {w : Nat} (n : BitVec w) (conv : Conv) :
    (conv = .d ∧ n.toInt < 0 ∧ (conv.render n).length = (conv.serial n).length + 1) ∨
    (¬ (conv = .d ∧ n.toInt < 0) ∧ conv.render n = conv.serial n) := by
  cases conv with
  | d =>
    by_cases hn : n.toInt < 0
    · exact .inl ⟨rfl, hn, by rw [Conv.render, renderInt, if_pos hn]; rfl⟩
    · exact .inr ⟨fun h => hn h.2, by rw [Conv.render, renderInt, if_neg hn]; rfl⟩
  | u | x => exact .inr ⟨by rintro ⟨⟨⟩, -⟩, rfl⟩

/-- A number is printed as documented where `PRINT_HEX` is at an unsigned type. -/
theorem printSized_outputs {w : Nat} (hw : w ≤ 64) {printUnsigned printHex : BitVec w → Printed}
    (hu : ∀ n, printUnsigned n = BanjOS.printUnsigned n.toNat) {n : BitVec w} {specifier : Int8} {conv : Conv}
    (hx : conv = .x → printHex n = BanjOS.printHex n.toNat) (hconv : convOfLetter specifier = some conv) :
    (printSized (printSigned printUnsigned) printUnsigned printHex n specifier).Outputs (conv.render n)
      (conv.serial n) := by
  have hlt (n : BitVec w) : n.toNat < 2 ^ 64 := n.isLt.trans_le (Nat.pow_le_pow_right (by decide) hw)
  have hprints (n : BitVec w) : (printUnsigned n).Prints (renderNat 10 n.toNat) := by
    rw [hu]
    exact printUnsigned_prints (hlt n)
  rw [printSized_eq, hconv]
  cases conv with
  | d => exact printSigned_outputs n hprints
  | u => exact hprints n
  | x =>
    dsimp only
    rw [hx rfl]
    exact printHex_prints (hlt n)

/-- The texts that are printed for a piece: what they have to do with its rendering and with one another. -/
structure PieceTexts (string : BitVec 64 → CString) (v : BitVec 64) (p : Piece) (screen serial : List Int8) :
    Prop where
  outputs : OutputsAll (p.printed string v) screen serial
  screen_eq : p.Documented → ¬ p.NegativeHex v → screen = p.render string v
  screen_lt : p.NegativeHex v → screen.length < (p.render string v).length
  serial_eq : ¬ p.NegativeDecimal v → serial = screen
  serial_lt : p.NegativeDecimal v → serial.length < screen.length

section
variable {string : BitVec 64 → CString} {v : BitVec 64} {p : Piece} {q : Printed} {l : List Int8}

/-- A piece that prints one text on both outputs. -/
theorem PieceTexts.of_prints (h : q.Prints l) (hp : p.printed string v = [q])
    (hrender : p.Documented → l = p.render string v) (hhex : ¬ p.NegativeHex v) (hdec : ¬ p.NegativeDecimal v) :
    PieceTexts string v p l l where
  outputs := hp ▸ h.all
  screen_eq hdoc _ := hrender hdoc
  screen_lt h := absurd h hhex
  serial_eq _ := rfl
  serial_lt h := absurd h hdec

/-- A piece that prints a number as documented. -/
theorem PieceTexts.of_number {w : Nat} {n : BitVec w} {conv : Conv} (h : q.Outputs (conv.render n) (conv.serial n))
    (hp : p.printed string v = [q]) (hrender : p.render string v = conv.render n) (hhex : ¬ p.NegativeHex v)
    (hdec : p.NegativeDecimal v ↔ conv = .d ∧ n.toInt < 0) :
    PieceTexts string v p (conv.render n) (conv.serial n) where
  outputs := hp ▸ h.all
  screen_eq _ _ := hrender.symm
  screen_lt h := absurd h hhex
  serial_eq hn := by
    obtain ⟨hd, hneg, -⟩ | ⟨-, heq⟩ := conv.render_serial n
    · exact absurd (hdec.2 ⟨hd, hneg⟩) hn
    · exact heq.symm
  serial_lt hn := by
    obtain ⟨-, -, hlen⟩ | ⟨hnot, -⟩ := conv.render_serial n
    · omega
    · exact absurd (hdec.1 hn) hnot

theorem convOfLetter_letter (conv : Conv) : convOfLetter conv.letter = some conv := by
  cases conv <;> decide

theorem convOfLetter_eq_some {c : Int8} {conv : Conv} (h : convOfLetter c = some conv) : c = conv.letter := by
  rw [convOfLetter] at h
  split_ifs at h with hd hu hx
  all_goals cases h
  · exact hd
  · exact hu
  · exact hx

/-- `%d`, `%u` and `%x` are `PRINT_SIZED` at `int`. -/
theorem printed_int (conv : Conv) : (Piece.int conv).printed string v =
    [printSized printInt printUnsignedInt printHexInt (v.setWidth 32) conv.letter] := by
  rw [printSized_eq, convOfLetter_letter]
  cases conv <;> rfl

theorem exists_pieceTexts_int (conv : Conv) : ∃ screen serial, PieceTexts string v (.int conv) screen serial := by
  refine ⟨_, _, .of_number (printSized_outputs (by decide) (fun _ => rfl) (fun _ => rfl) (convOfLetter_letter conv))
    (printed_int conv) rfl (fun h => ?_) ?_⟩
  · cases h.1
  · cases conv <;> simp [Piece.NegativeDecimal]

/-- A size letter with a character that is no conversion prints nothing. -/
theorem exists_pieceTexts_unknown (size : Size) {specifier : Int8} (hconv : convOfLetter specifier = none) :
    ∃ screen serial, PieceTexts string v (.sized size specifier) screen serial := by
  have hprinted : (Piece.sized size specifier).printed string v = [⟨[], 0⟩] := by
    cases size
    all_goals exact congrArg (fun p => [p]) ((printSized_eq ..).trans (by rw [hconv]))
  refine ⟨[], [], .of_prints ⟨rfl, rfl, rfl⟩ hprinted (fun hdoc => ?_) (fun h => ?_) fun h => ?_⟩
  · rw [Piece.Documented, hconv] at hdoc
    cases hdoc
  · obtain ⟨-, rfl⟩ := Piece.sized.inj h.1
    cases hconv
  · rw [Piece.NegativeDecimal, hconv] at h
    cases h.1

/-- `%qx` of a negative number: one character for at least two digits. -/
theorem exists_pieceTexts_negativeHex (hv : v.toInt < 0) :
    ∃ screen serial, PieceTexts string v (.sized .longLong (chr 'x')) screen serial := by
  have hx : convOfLetter (chr 'x') = some .x := by decide
  obtain ⟨c, hc⟩ := printHex_of_neg hv
  have hprinted : (Piece.sized .longLong (chr 'x')).printed string v = [printHex v.toInt] :=
    congrArg (fun p => [p]) ((printSized_eq ..).trans (by rw [hx]; rfl))
  have hlarge : 16 ≤ (v.setWidth 64).toNat := by
    rw [BitVec.setWidth_eq]
    rw [BitVec.toInt_eq_toNat_cond] at hv
    split at hv <;> omega
  refine ⟨[c], [c], hprinted ▸ hc.all, fun _ h => absurd ⟨rfl, hv⟩ h, fun _ => ?_, fun _ => rfl,
    fun h => ?_⟩
  · rw [Piece.render, hx]
    change _ < (renderNat 16 (v.setWidth 64).toNat).length
    have hpos : 0 < (Nat.toDigits 16 ((v.setWidth 64).toNat / 16)).length := Nat.length_toDigits_pos
    rw [renderNat, Nat.toDigits_of_base_le (by decide) hlarge]
    simp only [List.length_map, List.length_append, List.length_singleton]
    omega
  · rw [Piece.NegativeDecimal, hx] at h
    cases h.1

/-- A size letter with a conversion. -/
theorem exists_pieceTexts_sized (size : Size) {specifier : Int8} {conv : Conv}
    (hconv : convOfLetter specifier = some conv) :
    ∃ screen serial, PieceTexts string v (.sized size specifier) screen serial := by
  have hrender : (Piece.sized size specifier).render string v = conv.render (v.setWidth size.width) := by
    rw [Piece.render, hconv]
  have hdec : (Piece.sized size specifier).NegativeDecimal v ↔
      conv = .d ∧ (v.setWidth size.width).toInt < 0 := by
    rw [Piece.NegativeDecimal, hconv, Option.some_inj]
  have hwide : v.setWidth 64 = v := BitVec.setWidth_eq v
  cases size with
  | short =>
    exact ⟨_, _, .of_number (printSized_outputs (by decide) (fun _ => rfl) (fun _ => rfl) hconv) rfl hrender
      (fun h => by cases h.1) hdec⟩
  | long =>
    have hprinted : (Piece.sized .long specifier).printed string v =
        [printSized printLong printUnsignedLong printHexLong (v.setWidth 64) specifier] := by
      rw [hwide]
      rfl
    exact ⟨_, _, .of_number (printSized_outputs (by decide) (fun _ => rfl) (fun _ => rfl) hconv) hprinted hrender
      (fun h => by cases h.1) hdec⟩
  | longLong =>
    by_cases hneg : conv = .x ∧ v.toInt < 0
    case pos =>
      obtain ⟨rfl, hv⟩ := hneg
      obtain rfl : specifier = chr 'x' := convOfLetter_eq_some hconv
      exact exists_pieceTexts_negativeHex hv
    case neg =>
      have hx (h : conv = .x) : printHexLongLong (v.setWidth 64) = printHex (v.setWidth 64).toNat := by
        have hv : ¬ v.toInt < 0 := fun hv => hneg ⟨h, hv⟩
        rw [hwide, printHexLongLong, toInt_eq_toNat_of_not_neg hv]
      refine ⟨_, _, .of_number (printSized_outputs (by decide) (fun _ => rfl) hx hconv)
        (by rw [hwide]; rfl) hrender (fun h => hneg ⟨?_, h.2⟩) hdec⟩
      obtain ⟨-, rfl⟩ := Piece.sized.inj h.1
      exact (Option.some_inj.1 hconv).symm

/-- Every piece prints one text on the screen and one on the serial line. -/
theorem exists_pieceTexts (string : BitVec 64 → CString) (v : BitVec 64) (p : Piece) :
    ∃ screen serial, PieceTexts string v p screen serial := by
  have hhex {p : Piece} (h : ∀ size c, p ≠ .sized size c) : ¬ p.NegativeHex v := fun hp => h _ _ hp.1
  cases p with
  | lit c => exact ⟨_, _, .of_prints (printChar_prints c) rfl (fun _ => rfl) (hhex nofun) id⟩
  | percent => exact ⟨_, _, .of_prints (printChar_prints _) rfl (fun _ => rfl) (hhex nofun) id⟩
  | str => exact ⟨_, _, .of_prints (printString_prints _) rfl (fun _ => rfl) (hhex nofun) id⟩
  | char => exact ⟨_, _, .of_prints (printChar_prints _) rfl (fun _ => rfl) (hhex nofun) id⟩
  | ptr => exact ⟨_, _, .of_prints (printHex_prints v.isLt) rfl (fun _ => rfl) (hhex nofun) id⟩
  | int conv => exact exists_pieceTexts_int conv
  | sized size specifier =>
    cases hconv : convOfLetter specifier with
    | none => exact exists_pieceTexts_unknown size hconv
    | some conv => exact exists_pieceTexts_sized size hconv
  | other c =>
    exact ⟨_, _, .cons (printChar_prints (chr '%')) (printChar_prints c).all, nofun,
      fun h => absurd h (hhex nofun), fun _ => rfl, nofun⟩

end

/-! ## Whole formats -/

/-- The texts that are printed for pieces with their arguments: the screen has the rendering, or less where
a `%qx` is negative, and the serial line has what the screen has, or less where a signed decimal is. -/
structure AllTexts (string : BitVec 64 → CString) (ps : List (Piece × BitVec 64)) (screen serial : List Int8) :
    Prop where
  outputs : OutputsAll (outputOf string ps) screen serial
  rendered : (∀ p ∈ ps, p.1.Documented) →
    ((∀ p ∈ ps, ¬ p.1.NegativeHex p.2) ∧ screen = ps.flatMap fun p => p.1.render string p.2) ∨
    ((∃ p ∈ ps, p.1.NegativeHex p.2) ∧ screen.length < (ps.flatMap fun p => p.1.render string p.2).length)
  logged : ((∀ p ∈ ps, ¬ p.1.NegativeDecimal p.2) ∧ serial = screen) ∨
    ((∃ p ∈ ps, p.1.NegativeDecimal p.2) ∧ serial.length < screen.length)

theorem exists_allTexts (string : BitVec 64 → CString) (ps : List (Piece × BitVec 64)) :
    ∃ screen serial, AllTexts string ps screen serial := by
  induction ps with
  | nil => exact ⟨[], [], .nil, fun _ => .inl ⟨nofun, rfl⟩, .inl ⟨nofun, rfl⟩⟩
  | cons p ps ih =>
    obtain ⟨l', k', hout', hscreen', hserial'⟩ := ih
    obtain ⟨l, k, hout, hrender, hhex, heq, hlt⟩ := exists_pieceTexts string p.2 p.1
    refine ⟨l ++ l', k ++ k', hout.append hout', fun hdoc => ?_, ?_⟩
    · obtain ⟨hdoc, hdocs⟩ := List.forall_mem_cons.1 hdoc
      rw [List.forall_mem_cons, List.exists_mem_cons_iff, List.flatMap_cons, List.length_append, List.length_append]
      by_cases h : p.1.NegativeHex p.2
      case pos =>
        have hl := hhex h
        obtain ⟨-, rfl⟩ | ⟨-, hl'⟩ := hscreen' hdocs
        all_goals exact .inr ⟨.inl h, by omega⟩
      case neg =>
        obtain rfl := hrender hdoc h
        obtain ⟨hall, rfl⟩ | ⟨hex, hl'⟩ := hscreen' hdocs
        · exact .inl ⟨⟨h, hall⟩, rfl⟩
        · exact .inr ⟨.inr hex, by omega⟩
    · rw [List.forall_mem_cons, List.exists_mem_cons_iff, List.length_append, List.length_append]
      by_cases h : p.1.NegativeDecimal p.2
      case pos =>
        have hk := hlt h
        obtain ⟨-, rfl⟩ | ⟨-, hk'⟩ := hserial'
        all_goals exact .inr ⟨.inl h, by omega⟩
      case neg =>
        obtain rfl := heq h
        obtain ⟨hall, rfl⟩ | ⟨hex, hk'⟩ := hserial'
        · exact .inl ⟨⟨h, hall⟩, rfl⟩
        · exact .inr ⟨.inr hex, by omega⟩

section
variable {fmt : Nat → Int8} {va : VaArgs} {s : CString} {ps : List Piece}

/-- The loop has one end, however many rounds it is given. -/
theorem printkLoop_unique {fuel fuel' : Nat} {s t t' : PrintkState} (h : printkLoop fmt va fuel s = some t)
    (h' : printkLoop fmt va fuel' s = some t') : t = t' := by
  induction fuel generalizing fuel' s with
  | zero => cases h
  | succ fuel ih =>
    cases fuel' with
    | zero => cases h'
    | succ fuel' =>
      by_cases hnul : fmt s.pos = 0
      case pos => exact Option.some_inj.1 (h.symm.trans ((if_pos hnul).trans ((if_pos hnul).symm.trans h')))
      case neg =>
        rw [printkLoop_succ hnul] at h h'
        exact ih h h'

/-- What `printk` has printed for a format that does not end inside a directive, and what it returns. -/
theorem printk_allTexts (va : VaArgs) (hfmt : s.InMemory fmt) (h : parseFormat s.chars = some ps) :
    ∃ fuel t screen serial, printk fmt va fuel = some t ∧
      vgaChars t.calls = screen ∧ serChars t.calls = serial ∧ t.ret = BitVec.ofNat 32 screen.length ∧
      AllTexts va.string (withArgs va 0 ps) screen serial := by
  obtain ⟨screen, serial, htexts⟩ := exists_allTexts va.string (withArgs va 0 ps)
  obtain ⟨-, -, hcalls, hret⟩ := runPieces_spec va ⟨0, 0, 0, [], []⟩ ps
  refine ⟨_, _, screen, serial, printk_of_parse va hfmt h, ?_, ?_, ?_, htexts⟩
  · rw [PrintkState.see_calls, hcalls]
    exact htexts.outputs.vga
  · rw [PrintkState.see_calls, hcalls]
    exact htexts.outputs.ser
  · rw [PrintkState.see_ret, hret, htexts.outputs.ret]
    exact BitVec.zero_add _

/-! ## Documented formats -/

theorem mem_of_mem_withArgs {va : VaArgs} {k : Nat} {ps : List Piece} {p : Piece × BitVec 64}
    (hp : p ∈ withArgs va k ps) : p.1 ∈ ps := by
  induction ps generalizing k with
  | nil => cases hp
  | cons q ps ih =>
    cases hp with
    | head => exact .head _
    | tail _ hp => exact .tail _ (ih hp)

theorem Piece.Documented.nulFree {p : Piece} (h : p.Documented) : ∀ c ∈ p.text, c ≠ 0 := by
  cases p with
  | lit c => simpa [Piece.text] using h.1
  | sized size specifier =>
    obtain ⟨conv, hconv⟩ := Option.isSome_iff_exists.1 h
    obtain rfl := convOfLetter_eq_some hconv
    cases size <;> cases conv <;> simp [Piece.text, Size.letter, Conv.letter, chr]
  | int conv => cases conv <;> simp [Piece.text, Conv.letter, chr]
  | other c => exact h.elim
  | percent | str | char | ptr => simp [Piece.text, chr]

/-- A format built from literal characters and documented directives. -/
def documentedFormat (ps : List Piece) (h : ∀ p ∈ ps, p.Documented) : CString where
  chars := ps.flatMap Piece.text
  nulFree c hc := by
    obtain ⟨p, hp, hc⟩ := List.mem_flatMap.1 hc
    exact (h p hp).nulFree c hc

/-- A documented piece is read back as it was written. -/
theorem parseFormat_text_append {p : Piece} (h : p.Documented) (l : List Int8) :
    parseFormat (p.text ++ l) = (parseFormat l).map (p :: ·) := by
  have hletter {c : Int8} (hc : sizeOfLetter c = none) (hp : directiveOf c = p) :
      parseFormat (chr '%' :: c :: l) = (parseFormat l).map (p :: ·) := by
    rw [parseFormat, if_pos rfl, ← hp]
    simp only [hc]
  cases p with
  | lit c =>
    change parseFormat (c :: l) = _
    rw [parseFormat.eq_def]
    exact if_neg h.2
  | sized size specifier =>
    have hsize : sizeOfLetter size.letter = some size := sizeOfLetter_eq_some.2 rfl
    change parseFormat (chr '%' :: size.letter :: specifier :: l) = _
    simp [parseFormat, hsize]
  | int conv =>
    refine hletter ?_ ?_
    all_goals cases conv <;> decide
  | other c => exact h.elim
  | percent | str | char | ptr => exact hletter (by decide) (by decide)

theorem parseFormat_documentedFormat {ps : List Piece} (h : ∀ p ∈ ps, p.Documented) :
    parseFormat (documentedFormat ps h).chars = some ps := by
  induction ps with
  | nil => rfl
  | cons p ps ih =>
    obtain ⟨hp, hps⟩ := List.forall_mem_cons.1 h
    change parseFormat (p.text ++ ps.flatMap Piece.text) = _
    rw [parseFormat_text_append hp]
    exact congrArg (Option.map (p :: ·)) (ih hps)

/-! ## The screen and the serial line -/

/-- `printk` comes to its end, has printed the documented rendering on the screen, and returns how long it is. -/
def PrintkRenders (fmt : Nat → Int8) (va : VaArgs) (ps : List Piece) : Prop :=
  ∃ fuel t, printk fmt va fuel = some t ∧ vgaChars t.calls = renderAll va ps ∧
    t.ret.toInt = (renderAll va ps).length

/-- `printk` comes to its end, and has passed the same characters to both outputs. -/
def PrintkAgrees (fmt : Nat → Int8) (va : VaArgs) : Prop :=
  ∃ fuel t, printk fmt va fuel = some t ∧ vgaChars t.calls = serChars t.calls

/-- An `int` holds a number of characters below 2³¹. -/
theorem toInt_ofNat_eq_iff (n : Nat) : (BitVec.ofNat 32 n).toInt = n ↔ n < 2 ^ 31 := by
  rw [BitVec.toInt_eq_toNat_cond, BitVec.toNat_ofNat]
  split <;> omega

/-- A documented format is rendered as documented exactly when no `%qx` has a negative argument and an `int`
holds the number of characters. -/
theorem printk_renders_iff {ps : List Piece} {hdoc : ∀ p ∈ ps, p.Documented} {fmt : Nat → Int8}
    (hfmt : (documentedFormat ps hdoc).InMemory fmt) (va : VaArgs) :
    PrintkRenders fmt va ps ↔
      (∀ p ∈ withArgs va 0 ps, ¬ p.1.NegativeHex p.2) ∧ (renderAll va ps).length < 2 ^ 31 := by
  obtain ⟨fuel, t, screen, serial, hprintk, hvga, -, hret, htexts⟩ :=
    printk_allTexts va hfmt (parseFormat_documentedFormat hdoc)
  have hdocs (p) (hp : p ∈ withArgs va 0 ps) : p.1.Documented := hdoc _ (mem_of_mem_withArgs hp)
  constructor
  · rintro ⟨fuel', t', hprintk', hvga', hret'⟩
    obtain rfl := printkLoop_unique hprintk hprintk'
    rw [hvga] at hvga'
    obtain ⟨hall, -⟩ | ⟨-, hlt⟩ := htexts.rendered hdocs
    · rw [hret, hvga', toInt_ofNat_eq_iff] at hret'
      exact ⟨hall, hret'⟩
    · exact absurd (congrArg List.length hvga') hlt.ne
  · rintro ⟨hall, hlen⟩
    obtain ⟨-, heq⟩ | ⟨⟨p, hp, hneg⟩, -⟩ := htexts.rendered hdocs
    · refine ⟨fuel, t, hprintk, hvga.trans heq, ?_⟩
      rw [hret, heq]
      exact (toInt_ofNat_eq_iff _).2 hlen
    · exact absurd hneg (hall p hp)

/-- The screen and the serial line get the same text exactly when no signed decimal is negative. -/
theorem printk_agrees_iff {s : CString} {ps : List Piece} (h : parseFormat s.chars = some ps) {fmt : Nat → Int8}
    (hfmt : s.InMemory fmt) (va : VaArgs) :
    PrintkAgrees fmt va ↔ ∀ p ∈ withArgs va 0 ps, ¬ p.1.NegativeDecimal p.2 := by
  obtain ⟨fuel, t, screen, serial, hprintk, hvga, hser, -, htexts⟩ := printk_allTexts va hfmt h
  constructor
  · rintro ⟨fuel', t', hprintk', heq⟩
    obtain rfl := printkLoop_unique hprintk hprintk'
    obtain ⟨hall, -⟩ | ⟨-, hlt⟩ := htexts.logged
    · exact hall
    · rw [hvga, hser] at heq
      exact absurd (congrArg List.length heq) hlt.ne'
  · intro hall
    obtain ⟨-, heq⟩ | ⟨⟨p, hp, hneg⟩, -⟩ := htexts.logged
    · exact ⟨fuel, t, hprintk, hvga.trans (heq.symm.trans hser.symm)⟩
    · exact absurd hneg (hall p hp)

end

/-- `n=%d, %s: %qx%%`. -/
def logPieces : List Piece := [.lit (chr 'n'), .lit (chr '='), .int .d, .lit (chr ','), .lit (chr ' '), .str, .lit (chr ':'),
  .lit (chr ' '), .sized .longLong (chr 'x'), .percent]

theorem documented_logPieces : ∀ p ∈ logPieces, p.Documented := by decide

/-- `-5`, a string `ok` and `0xBEEF`. -/
def logArgs : VaArgs where
  slot k := if k = 0 then 0xFFFFFFFB else if k = 1 then 0x1000 else 0xBEEF
  string _ := ⟨[chr 'o', chr 'k'], by simp [chr]⟩

/-- `n=-5, ok: beef%`. -/
theorem printk_renders_log :
    PrintkRenders (documentedFormat logPieces documented_logPieces).char logArgs logPieces :=
  (printk_renders_iff (fun _ _ => rfl) logArgs).2
    ⟨by simp [logPieces, logArgs, withArgs, Piece.args, Piece.NegativeHex], by decide⟩

/-- `%qx`. -/
def hexPieces : List Piece := [.sized .longLong (chr 'x')]

theorem documented_hexPieces : ∀ p ∈ hexPieces, p.Documented := by decide

/-- `printk("%qx", -1LL)` prints one character. -/
theorem printk_not_renders_negative_hex :
    ¬ PrintkRenders (documentedFormat hexPieces documented_hexPieces).char (oneArg (-1)) hexPieces := by
  obtain ⟨fuel, t, screen, serial, hprintk, hvga, -, -, htexts⟩ :=
    printk_allTexts (oneArg (-1)) (fun _ _ => rfl) (parseFormat_documentedFormat documented_hexPieces)
  rintro ⟨fuel', t', hprintk', hvga', -⟩
  obtain rfl := printkLoop_unique hprintk hprintk'
  obtain ⟨hall, -⟩ | ⟨-, hlt⟩ := htexts.rendered (by simp [hexPieces, withArgs]; decide)
  · exact hall _ (.head _) ⟨rfl, by decide⟩
  · exact absurd (congrArg List.length (hvga.symm.trans hvga')) hlt.ne

theorem printk_agrees_decimal : PrintkAgrees decimalFormat.char (oneArg 7) := by
  have hparse : parseFormat decimalFormat.chars = some [.int .d] := by decide
  exact (printk_agrees_iff hparse (fun _ _ => rfl) (oneArg 7)).2
    (by simp [withArgs, oneArg, Piece.NegativeDecimal])

/-- The sign of `printk("%d", -1)` is on the screen only. -/
theorem printk_disagrees_decimal : ¬ PrintkAgrees decimalFormat.char (oneArg (-1)) := by
  have hparse : parseFormat decimalFormat.chars = some [.int .d] := by decide
  obtain ⟨fuel, t, screen, serial, hprintk, hvga, hser, -, htexts⟩ :=
    printk_allTexts (oneArg (-1)) (fun _ _ => rfl) hparse
  rintro ⟨fuel', t', hprintk', heq⟩
  obtain rfl := printkLoop_unique hprintk hprintk'
  obtain ⟨hall, -⟩ | ⟨-, hlt⟩ := htexts.logged
  · exact hall _ (.head _) (by decide : (BitVec.setWidth 32 (-1 : BitVec 64)).toInt < 0)
  · rw [hvga, hser] at heq
    exact absurd (congrArg List.length heq) hlt.ne'

end BanjOS
