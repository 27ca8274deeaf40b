import BanjOS.Console.Printk
import Mathlib.Data.BitVec

/-!
# Format strings

A format string read directive by directive: `parseFormat` gives its pieces, or nothing for a string that
ends inside a directive. `printkLoop_of_parse` is the loop of `printk` over the pieces: each is given the
next argument, prints what `Piece.printed` says, and the cursor stops at the NUL (`printk_inside_iff`: in
no other case).
-/

namespace BanjOS

/-! ## Pieces -/

/-- The size letters of `%h`, `%l` and `%q`. -/
inductive Size where
  | short
  | long
  | longLong
  deriving DecidableEq

/-- `%d`, `%u` and `%x`. -/
inductive Conv where
  | d
  | u
  | x
  deriving DecidableEq

/-- A character of the format that stands for itself, or a directive. -/
inductive Piece where
  | lit (c : Int8)
  | percent
  | str
  | char
  | ptr
  | int (conv : Conv)
  | sized (size : Size) (specifier : Int8)
  /-- `%` with a character that `printk` does not know. -/
  | other (c : Int8)
  deriving DecidableEq

/-- The letter of a size. -/
def Size.letter : Size → Int8
  | .short => chr 'h'
  | .long => chr 'l'
  | .longLong => chr 'q'

/-- The letter of a conversion. -/
def Conv.letter : Conv → Int8
  | .d => chr 'd'
  | .u => chr 'u'
  | .x => chr 'x'

/-- The size that a letter stands for. -/
def sizeOfLetter (c : Int8) : Option Size :=
  if c = chr 'h' then some .short
  else if c = chr 'l' then some .long
  else if c = chr 'q' then some .longLong
  else none

/-- The directive of one letter that a letter stands for. -/
def directiveOf (c : Int8) : Piece :=
  if c = chr '%' then .percent
  else if c = chr 's' then .str
  else if c = chr 'c' then .char
  else if c = chr 'd' then .int .d
  else if c = chr 'u' then .int .u
  else if c = chr 'x' then .int .x
  else if c = chr 'p' then .ptr
  else .other c

/-- The pieces of a format string; `none` when it ends inside a directive. -/
def parseFormat : List Int8 → Option (List Piece)
  | [] => some []
  | c :: l =>
    if c = chr '%' then
      match l with
      | [] => none
      | d :: l =>
        match sizeOfLetter d, l with
        | none, l => (parseFormat l).map (directiveOf d :: ·)
        | some _, [] => none
        | some size, e :: l => (parseFormat l).map (.sized size e :: ·)
    else (parseFormat l).map (.lit c :: ·)

namespace Piece

/-- A piece as it is written. -/
def text : Piece → List Int8
  | lit c => [c]
  | percent => [chr '%', chr '%']
  | str => [chr '%', chr 's']
  | char => [chr '%', chr 'c']
  | ptr => [chr '%', chr 'p']
  | int conv => [chr '%', conv.letter]
  | sized size specifier => [chr '%', size.letter, specifier]
  | other c => [chr '%', c]

/-- How many arguments a piece takes. -/
def args : Piece → Nat
  | lit _ | percent | other _ => 0
  | str | char | ptr | int _ | sized _ _ => 1

/-- What `printk` outputs for a piece with the argument `v`, one call after the other. -/
def printed (string : BitVec 64 → CString) (v : BitVec 64) : Piece → List Printed
  | lit c => [printChar c]
  | percent => [printPercent]
  | str => [printString (string v)]
  | char => [printChar (Int8.ofBitVec (v.setWidth 8))]
  | ptr => [printHexPointer v]
  | int .d => [printInt (v.setWidth 32)]
  | int .u => [printUnsignedInt (v.setWidth 32)]
  | int .x => [printHexInt (v.setWidth 32)]
  | sized .short specifier => [printSizedShort (v.setWidth 16) specifier]
  | sized .long specifier => [printSizedLong v specifier]
  | sized .longLong specifier => [printSizedLongLong v specifier]
  | other c => [printChar (chr '%'), printChar c]

end Piece

/-- The pieces with their arguments, from the argument `k` on. A piece that takes none is given the next one
all the same. -/
def withArgs (va : VaArgs) (k : Nat) : List Piece → List (Piece × BitVec 64)
  | [] => []
  | p :: ps => (p, va.slot k) :: withArgs va (k + p.args) ps

/-- All that is output for pieces with their arguments. -/
def outputOf (string : BitVec 64 → CString) (ps : List (Piece × BitVec 64)) : List Printed :=
  ps.flatMap fun p => p.1.printed string p.2

/-! ## One round of the loop -/

namespace PrintkState

/-- The state after a piece has been printed and the cursor has passed it. -/
def run (va : VaArgs) (s : PrintkState) (p : Piece) : PrintkState :=
  (p.printed va.string (va.slot s.arg)).foldl print
    { s with
      pos := s.pos + p.text.length
      arg := s.arg + p.args
      read := s.read ++ List.range' (s.pos + 1) (p.text.length - 1) }

end PrintkState

section
variable {fmt : Nat → Int8} {va : VaArgs} {s : PrintkState} {c : Int8}

theorem printkBody_lit (h : fmt s.pos ≠ chr '%') : printkBody fmt va s = s.run va (.lit (fmt s.pos)) := by
  rw [printkBody, if_neg h]
  simp [PrintkState.run, Piece.printed, Piece.text, Piece.args, PrintkState.print, PrintkState.next]

theorem sizeOfLetter_eq_none : sizeOfLetter c = none ↔ c ≠ chr 'h' ∧ c ≠ chr 'l' ∧ c ≠ chr 'q' := by
  rw [sizeOfLetter]
  split_ifs <;> simp_all

theorem sizeOfLetter_eq_some {size : Size} : sizeOfLetter c = some size ↔ c = size.letter := by
  constructor
  · rw [sizeOfLetter]
    split_ifs with hh hl hq
    · rintro ⟨⟩
      exact hh
    · rintro ⟨⟩
      exact hl
    · rintro ⟨⟩
      exact hq
    · exact nofun
  · rintro rfl
    cases size <;> decide

/-- A directive of one letter. -/
theorem printkBody_directive (h : fmt s.pos = chr '%') (hsize : sizeOfLetter (fmt (s.pos + 1)) = none) :
    printkBody fmt va s = s.run va (directiveOf (fmt (s.pos + 1))) := by
  obtain ⟨hh, hl, hq⟩ := sizeOfLetter_eq_none.1 hsize
  have hc : fmt s.next.see.pos = fmt (s.pos + 1) := rfl
  rw [printkBody, if_pos h, printkSwitch, hc, directiveOf]
  dsimp only
  split_ifs <;> rfl

/-- A directive of two letters. -/
theorem printkBody_sized {size : Size} (h : fmt s.pos = chr '%')
    (hsize : sizeOfLetter (fmt (s.pos + 1)) = some size) :
    printkBody fmt va s = s.run va (.sized size (fmt (s.pos + 2))) := by
  have hc : fmt s.next.see.pos = size.letter := sizeOfLetter_eq_some.1 hsize
  rw [printkBody, if_pos h, printkSwitch]
  cases size
  all_goals
    simp +decide only [hc, Size.letter, ↓reduceIte]
    simp [PrintkState.run, PrintkState.printArg, PrintkState.print, PrintkState.next, PrintkState.see, Piece.printed,
      Piece.text, Piece.args, List.range'_succ]

end

/-! ## The loop -/

/-- The NUL-terminated string `l` is in memory from `pos` on. -/
def HoldsString (fmt : Nat → Int8) : Nat → List Int8 → Prop
  | pos, [] => fmt pos = 0
  | pos, c :: l => fmt pos = c ∧ c ≠ 0 ∧ HoldsString fmt (pos + 1) l

section
variable {fmt : Nat → Int8} {va : VaArgs} {s : PrintkState} {ps : List Piece} {l : List Int8}

/-- The rounds of the loop over the pieces. -/
def runPieces (va : VaArgs) (s : PrintkState) (ps : List Piece) : PrintkState :=
  ps.foldl (fun s p => s.see.run va p) s

theorem text_sized {d : Int8} {size : Size} (h : sizeOfLetter d = some size) (e : Int8) :
    (Piece.sized size e).text = [chr '%', d, e] := by
  rw [sizeOfLetter_eq_some.1 h]
  rfl

theorem text_directiveOf (d : Int8) : (directiveOf d).text = [chr '%', d] := by
  rw [directiveOf]
  split_ifs with h₁ h₂ h₃ h₄ h₅ h₆ h₇
  all_goals simp [Piece.text, Conv.letter, *]

/-- What is parsed is written as it was. -/
theorem flatMap_text_of_parse (h : parseFormat l = some ps) : ps.flatMap Piece.text = l := by
  fun_induction parseFormat l generalizing ps with
  | case1 =>
    cases h
    rfl
  | case2 | case4 => cases h
  | case3 d l hd ih =>
    obtain ⟨ps, hps, rfl⟩ := Option.map_eq_some_iff.1 h
    rw [List.flatMap_cons, text_directiveOf, ih hps]
    rfl
  | case5 d size e l hd ih =>
    obtain ⟨ps, hps, rfl⟩ := Option.map_eq_some_iff.1 h
    rw [List.flatMap_cons, text_sized hd, ih hps]
    rfl
  | case6 c l hc ih =>
    obtain ⟨ps, hps, rfl⟩ := Option.map_eq_some_iff.1 h
    rw [List.flatMap_cons, ih hps]
    rfl

theorem setWidth_signExtend_int (n : BitVec 32) : (n.signExtend 64).setWidth 32 = n := by
  ext i hi
  have hi' : i < 64 := by omega
  simp [BitVec.getElem_signExtend, hi, hi']

namespace PrintkState

theorem foldl_print (s : PrintkState) (out : List Printed) :
    (out.foldl print s).pos = s.pos ∧ (out.foldl print s).arg = s.arg ∧ (out.foldl print s).read = s.read ∧
    (out.foldl print s).calls = s.calls ++ out.flatMap Printed.calls ∧
    (out.foldl print s).ret = s.ret + (out.map Printed.ret).sum := by
  induction out generalizing s with
  | nil => simp
  | cons p out ih =>
    obtain ⟨hpos, harg, hread, hcalls, hret⟩ := ih (s.print p)
    refine ⟨hpos, harg, hread, ?_, ?_⟩
    · rw [List.foldl_cons, hcalls, List.flatMap_cons, print, List.append_assoc]
    · -- the `int` is widened for the sum and cut off again
      have hprint : (s.print p).ret = s.ret + p.ret := by
        simp [ret, print, BitVec.setWidth_add, setWidth_signExtend_int]
      rw [List.foldl_cons, hret, hprint, List.map_cons, List.sum_cons, BitVec.add_assoc]

@[simp] theorem run_pos (s : PrintkState) (p : Piece) : (s.run va p).pos = s.pos + p.text.length :=
  (foldl_print ..).1

@[simp] theorem run_arg (s : PrintkState) (p : Piece) : (s.run va p).arg = s.arg + p.args :=
  (foldl_print ..).2.1

@[simp] theorem run_read (s : PrintkState) (p : Piece) :
    (s.run va p).read = s.read ++ List.range' (s.pos + 1) (p.text.length - 1) := (foldl_print ..).2.2.1

@[simp] theorem run_calls (s : PrintkState) (p : Piece) :
    (s.run va p).calls = s.calls ++ (p.printed va.string (va.slot s.arg)).flatMap Printed.calls :=
  (foldl_print ..).2.2.2.1

@[simp] theorem run_ret (s : PrintkState) (p : Piece) :
    (s.run va p).ret = s.ret + ((p.printed va.string (va.slot s.arg)).map Printed.ret).sum :=
  (foldl_print ..).2.2.2.2

@[simp] theorem see_pos (s : PrintkState) : s.see.pos = s.pos := rfl

@[simp] theorem see_arg (s : PrintkState) : s.see.arg = s.arg := rfl

@[simp] theorem see_calls (s : PrintkState) : s.see.calls = s.calls := rfl

@[simp] theorem see_ret (s : PrintkState) : s.see.ret = s.ret := rfl

end PrintkState

/-- A round that does not find the NUL. -/
theorem printkLoop_succ {fuel : Nat} (h : fmt s.pos ≠ 0) :
    printkLoop fmt va (fuel + 1) s = printkLoop fmt va fuel (printkBody fmt va s.see) := if_neg h

/-- A string in memory has a first round for its first piece and goes on with the rest. -/
theorem printkLoop_of_parse (hfmt : HoldsString fmt s.pos l) (h : parseFormat l = some ps) :
    printkLoop fmt va (ps.length + 1) s = some (runPieces va s ps).see := by
  fun_induction parseFormat l generalizing s ps with
  | case1 =>
    cases h
    exact if_pos hfmt
  | case2 | case4 => cases h
  | case3 d l hd ih =>
    obtain ⟨ps, hps, rfl⟩ := Option.map_eq_some_iff.1 h
    obtain ⟨hc, hc0, rfl, -, hl⟩ := hfmt
    rw [List.length_cons, printkLoop_succ (hc.trans_ne hc0), printkBody_directive (s := s.see) hc hd]
    exact ih (by simpa [text_directiveOf] using hl) hps
  | case5 d size e l hd ih =>
    obtain ⟨ps, hps, rfl⟩ := Option.map_eq_some_iff.1 h
    obtain ⟨hc, hc0, rfl, -, rfl, -, hl⟩ := hfmt
    rw [List.length_cons, printkLoop_succ (hc.trans_ne hc0), printkBody_sized (s := s.see) hc hd]
    exact ih (by simpa [text_sized hd] using hl) hps
  | case6 c l hc ih =>
    obtain ⟨ps, hps, rfl⟩ := Option.map_eq_some_iff.1 h
    obtain ⟨rfl, hc0, hl⟩ := hfmt
    rw [List.length_cons, printkLoop_succ hc0, printkBody_lit (s := s.see) hc]
    exact ih hl hps

theorem Piece.text_length_pos (p : Piece) : 0 < p.text.length := by
  cases p <;> simp [Piece.text]

variable (va) in
/-- The rounds over the pieces: the cursor has passed what is written there, having read all of it, and each
piece has been printed with its argument. -/
theorem runPieces_spec (s : PrintkState) (ps : List Piece) :
    (runPieces va s ps).pos = s.pos + (ps.flatMap Piece.text).length ∧
    (runPieces va s ps).read = s.read ++ List.range' s.pos (ps.flatMap Piece.text).length ∧
    (runPieces va s ps).calls =
      s.calls ++ (outputOf va.string (withArgs va s.arg ps)).flatMap Printed.calls ∧
    (runPieces va s ps).ret = s.ret + ((outputOf va.string (withArgs va s.arg ps)).map Printed.ret).sum := by
  induction ps generalizing s with
  | nil => simp [runPieces, outputOf, withArgs]
  | cons p ps ih =>
    obtain ⟨hpos, hread, hcalls, hret⟩ := ih (s.see.run va p)
    have hrun : runPieces va s (p :: ps) = runPieces va (s.see.run va p) ps := rfl
    have hlen : 1 + (p.text.length - 1) = p.text.length := by
      have := p.text_length_pos
      omega
    rw [hrun]
    refine ⟨?_, ?_, ?_, ?_⟩
    · rw [hpos]
      simp [Nat.add_assoc]
    · have hround : (s.see.run va p).read = s.read ++ List.range' s.pos p.text.length := by
        rw [PrintkState.run_read, PrintkState.see, List.append_assoc]
        congr 1
        rw [← hlen, ← List.range'_append_1, hlen]
        rfl
      rw [hread, hround, PrintkState.run_pos, PrintkState.see_pos, List.append_assoc, List.range'_append_1,
        List.flatMap_cons, List.length_append]
    · rw [hcalls]
      simp [outputOf, withArgs]
    · rw [hret]
      simp [outputOf, withArgs, BitVec.add_assoc]

/-- A round of the loop runs some piece, wherever the cursor is. -/
theorem exists_printkBody_eq_run (fmt : Nat → Int8) (va : VaArgs) (s : PrintkState) :
    ∃ p, printkBody fmt va s = s.run va p := by
  by_cases h : fmt s.pos = chr '%'
  case neg => exact ⟨_, printkBody_lit h⟩
  case pos =>
    cases hsize : sizeOfLetter (fmt (s.pos + 1)) with
    | none => exact ⟨_, printkBody_directive h hsize⟩
    | some size => exact ⟨_, printkBody_sized h hsize⟩

/-- The loop reads the character it is at, and what was read stays read. -/
theorem printkLoop_read {fuel : Nat} {t : PrintkState} (h : printkLoop fmt va fuel s = some t) :
    s.read ⊆ t.read ∧ s.pos ∈ t.read := by
  induction fuel generalizing s with
  | zero => cases h
  | succ fuel ih =>
    by_cases hnul : fmt s.pos = 0
    case pos =>
      rw [printkLoop, PrintkState.see_pos, if_pos hnul] at h
      cases h
      simp [PrintkState.see]
    case neg =>
      rw [printkLoop_succ hnul] at h
      obtain ⟨p, hp⟩ := exists_printkBody_eq_run fmt va s.see
      obtain ⟨hread, -⟩ := ih h
      rw [hp, PrintkState.run_read] at hread
      have hsee : s.see.read ⊆ t.read := fun r hr => hread (List.mem_append_left _ hr)
      exact ⟨fun r hr => hsee (List.mem_append_left _ hr), hsee (List.mem_append_right _ (.head _))⟩

/-- A string that ends inside a directive: the cursor passes the NUL, and the loop goes on behind it. -/
theorem printkLoop_of_parse_none (hfmt : HoldsString fmt s.pos l) (h : parseFormat l = none) {fuel : Nat}
    {t : PrintkState} (hloop : printkLoop fmt va fuel s = some t) : s.pos + l.length + 1 ∈ t.read := by
  fun_induction parseFormat l generalizing s fuel with
  | case1 => cases h
  | case2 =>
    obtain ⟨hc, hc0, hnul⟩ := hfmt
    cases fuel with
    | zero => cases hloop
    | succ fuel =>
      have hsize : sizeOfLetter (fmt (s.pos + 1)) = none := by rw [hnul]; decide
      rw [printkLoop_succ (hc.trans_ne hc0), printkBody_directive (s := s.see) hc hsize] at hloop
      simpa [text_directiveOf] using (printkLoop_read hloop).2
  | case3 d l hd ih =>
    obtain ⟨hc, hc0, rfl, -, hl⟩ := hfmt
    cases fuel with
    | zero => cases hloop
    | succ fuel =>
      rw [printkLoop_succ (hc.trans_ne hc0), printkBody_directive (s := s.see) hc hd] at hloop
      have hmem := ih (by simpa [text_directiveOf] using hl) (Option.map_eq_none_iff.1 h) hloop
      convert hmem using 1
      simp only [PrintkState.run_pos, PrintkState.see_pos, text_directiveOf, List.length_cons, List.length_nil]
      omega
  | case4 d size hd =>
    obtain ⟨hc, hc0, rfl, -, hnul⟩ := hfmt
    cases fuel with
    | zero => cases hloop
    | succ fuel =>
      rw [printkLoop_succ (hc.trans_ne hc0), printkBody_sized (s := s.see) hc hd] at hloop
      simpa [text_sized hd] using (printkLoop_read hloop).2
  | case5 d size e l hd ih =>
    obtain ⟨hc, hc0, rfl, -, rfl, -, hl⟩ := hfmt
    cases fuel with
    | zero => cases hloop
    | succ fuel =>
      rw [printkLoop_succ (hc.trans_ne hc0), printkBody_sized (s := s.see) hc hd] at hloop
      have hmem := ih (by simpa [text_sized hd] using hl) (Option.map_eq_none_iff.1 h) hloop
      convert hmem using 1
      simp only [PrintkState.run_pos, PrintkState.see_pos, text_sized hd, List.length_cons, List.length_nil]
      omega
  | case6 c l hc ih =>
    obtain ⟨rfl, hc0, hl⟩ := hfmt
    cases fuel with
    | zero => cases hloop
    | succ fuel =>
      rw [printkLoop_succ hc0, printkBody_lit (s := s.see) hc] at hloop
      have hmem := ih hl (Option.map_eq_none_iff.1 h) hloop
      convert hmem using 1
      simp only [PrintkState.run_pos, PrintkState.see_pos, Piece.text, List.length_cons, List.length_nil]
      omega

/-- A string in memory with its NUL, character by character. -/
theorem holdsString_of_forall {pos : Nat} (hl : ∀ c ∈ l, c ≠ 0)
    (h : ∀ i ≤ l.length, fmt (pos + i) = l.getD i 0) : HoldsString fmt pos l := by
  induction l generalizing pos with
  | nil => exact h 0 le_rfl
  | cons c l ih =>
    refine ⟨h 0 (Nat.zero_le _), hl c (.head _), ih (fun c hc => hl c (.tail _ hc)) fun i hi => ?_⟩
    rw [Nat.add_assoc, Nat.add_comm 1 i]
    exact h (i + 1) (Nat.succ_le_succ hi)

end

/-! ## Inside the format -/

/-- The memory from the first character of a string on, with anything behind the NUL. -/
def CString.InMemory (s : CString) (fmt : Nat → Int8) : Prop := ∀ i ≤ s.chars.length, fmt i = s.char i

theorem CString.InMemory.holds {s : CString} {fmt : Nat → Int8} (h : s.InMemory fmt) :
    HoldsString fmt 0 s.chars :=
  holdsString_of_forall s.nulFree fun i hi => by rw [Nat.zero_add]; exact h i hi

/-- `printk` over a format that is in memory comes to its end, all it has read is the format with its NUL, and
that is where it has stopped. -/
def PrintkInside (fmt : Nat → Int8) (va : VaArgs) (s : CString) : Prop :=
  ∃ fuel t, printk fmt va fuel = some t ∧ (∀ r ∈ t.read, r ≤ s.chars.length) ∧ t.pos = s.chars.length

/-- `printk` over a format that does not end inside a directive. -/
theorem printk_of_parse {s : CString} {fmt : Nat → Int8} {ps : List Piece} (va : VaArgs) (hfmt : s.InMemory fmt)
    (h : parseFormat s.chars = some ps) :
    printk fmt va (ps.length + 1) = some (runPieces va ⟨0, 0, 0, [], []⟩ ps).see :=
  printkLoop_of_parse hfmt.holds h

/-- `printk` stays inside its format exactly when the format does not end inside a directive. -/
theorem printk_inside_iff {s : CString} {fmt : Nat → Int8} (hfmt : s.InMemory fmt) (va : VaArgs) :
    PrintkInside fmt va s ↔ (parseFormat s.chars).isSome := by
  constructor
  · rintro ⟨fuel, t, hprintk, hread, -⟩
    rw [Option.isSome_iff_ne_none]
    intro hnone
    have hmem := hread _ (printkLoop_of_parse_none hfmt.holds hnone hprintk)
    omega
  · intro h
    obtain ⟨ps, hps⟩ := Option.isSome_iff_exists.1 h
    obtain ⟨hpos, hread, -⟩ := runPieces_spec va ⟨0, 0, 0, [], []⟩ ps
    rw [flatMap_text_of_parse hps] at hpos hread
    refine ⟨_, _, printk_of_parse va hfmt hps, ?_, ?_⟩
    · rw [PrintkState.see, hread, hpos]
      intro r hr
      simp only [List.nil_append, List.mem_append, List.mem_range'_1, List.mem_singleton] at hr
      omega
    · rw [PrintkState.see_pos, hpos, Nat.zero_add]

/-- `"%"`. -/
def percentFormat : CString := ⟨[chr '%'], by simp [chr]⟩

/-- `"%d"`. -/
def decimalFormat : CString := ⟨[chr '%', chr 'd'], by simp [chr]⟩

/-- Arguments of which the first is `v`, and no string among them. -/
def oneArg (v : BitVec 64) : VaArgs := ⟨fun _ => v, fun _ => ⟨[], by simp⟩⟩

theorem printk_inside_decimal : PrintkInside decimalFormat.char (oneArg 7) decimalFormat :=
  (printk_inside_iff (fun _ _ => rfl) (oneArg 7)).2 (by decide)

/-- Behind the NUL of a lone `%` comes the character that is read next. -/
theorem printk_leaves_percent : ¬ PrintkInside percentFormat.char (oneArg 7) percentFormat := by
  rintro ⟨fuel, t, hprintk, hread, -⟩
  have hnone : parseFormat percentFormat.chars = none := by decide
  have hmem : percentFormat.InMemory percentFormat.char := fun _ _ => rfl
  have := hread _ (printkLoop_of_parse_none hmem.holds hnone hprintk)
  omega

end BanjOS
