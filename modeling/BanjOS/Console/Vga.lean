import BanjOS.Console.Printk
import Mathlib.Logic.Function.Basic

/-!
# The VGA console

`vga.c`: 25 rows of 80 cells, and a cursor that is an index into all of them. `layoutFrom` is what the console is
for: unbounded text in rows of 80 columns, of which the last 25 are on the screen (`display_layout`). A
carriage return sets the cursor to the number of its row, which is the start of the row only on the first one
(`carriage_return_rewrites_iff`).
-/

namespace BanjOS

/-- `VGA_buf` with the memory behind it, `VGA_cursor`, and the positions that were written. -/
structure Vga where
  buf : Nat → UInt16
  cursor : Nat
  written : List Nat

/-- `LINE`. -/
def vgaLine (cursor : Nat) : Nat := cursor / 80

/-- `COLUMN`. -/
def vgaColumn (cursor : Nat) : Nat := cursor % 80

namespace Vga

/-- `VGA_buf[pos] = v`. -/
def write (s : Vga) (pos : Nat) (v : UInt16) : Vga :=
  { s with buf := Function.update s.buf pos v, written := pos :: s.written }

/-- `memset` of `n` cells from `pos` on: both bytes of a cell are the low byte of `c`. -/
def memset (s : Vga) (pos : Nat) (c : Nat) (n : Nat) : Vga :=
  (List.range' pos n).foldl (fun s i => s.write i (UInt16.ofNat (c % 256 * 257))) s

end Vga

/-- `VGA_clear`. -/
def vgaClear (s : Vga) : Vga := s.memset 0 (0x0F <<< 8) 2000

/-- `VGA_scroll`. -/
def vgaScroll (s : Vga) : Vga :=
  let s := (List.range (2000 - 80)).foldl (fun s i => s.write i (s.buf (i + 80))) s
  let s := s.memset (2000 - 80) 0 80
  { s with cursor := (vgaLine s.cursor - 1) * 80 }

/-- `VGA_display_char('\n')`. -/
def vgaNewline (s : Vga) : Vga :=
  let s := { s with cursor := (vgaLine s.cursor + 1) * 80 }
  if s.cursor ≥ 80 * 25 then vgaScroll s else s

/-- `(0x0f << 8) | c`, cut off to a cell; a negative `c` is widened with its sign. -/
def vgaCell (c : Int8) : UInt16 := 0x0F00 ||| c.toInt16.toUInt16

/-- `VGA_display_char`; the call it makes of itself is one with `'\n'`. -/
def vgaDisplayChar (s : Vga) (c : Int8) : Vga :=
  if c = chr '\n' then vgaNewline s
  else if c = chr '\r' then { s with cursor := vgaLine s.cursor }
  else
    let s := s.write s.cursor (vgaCell c)
    if vgaColumn s.cursor < 80 - 1 then { s with cursor := s.cursor + 1 } else vgaNewline s

/-- `VGA_display_char` of the characters of a text, one after the other. -/
def vgaDisplay (s : Vga) (t : List Int8) : Vga := t.foldl vgaDisplayChar s

/-! ## Text in rows -/

/-- Text laid out in rows of 80 columns, after a row that has already begun: a row ends at a newline or after
its 80th character. -/
def layoutFrom (row : List Int8) : List Int8 → List (List Int8)
  | [] => [row]
  | c :: t =>
    if c = chr '\n' then row :: layoutFrom [] t
    else if (row ++ [c]).length = 80 then (row ++ [c]) :: layoutFrom [] t
    else layoutFrom (row ++ [c]) t

/-- The rows of a text. -/
def layout (t : List Int8) : List (List Int8) := layoutFrom [] t

/-- The last rows of a text, as many as there are on the screen. -/
def lastRows (rows : List (List Int8)) : List (List Int8) := rows.drop (rows.length - 25)

/-- The cell that shows the character in a column of a row, and 0 where there is none. -/
def cellAt (rows : List (List Int8)) (r c : Nat) : UInt16 :=
  match (rows.getD r [])[c]? with
  | some ch => 0x0F00 + UInt16.ofNat ch.toInt.toNat
  | none => 0

/-- Printable ASCII. -/
def Printable (c : Int8) : Prop := 32 ≤ c.toInt ∧ c.toInt < 127

instance Printable.decidable (c : Int8) : Decidable (Printable c) := inferInstanceAs (Decidable (_ ∧ _))

/-! ## Writing cells -/

namespace Vga

/-- The loop of `VGA_scroll`: it goes up, so each cell gets what was in the one below it. -/
theorem foldl_copy (s : Vga) (n : Nat) :
    (∀ i, ((List.range n).foldl (fun s i => s.write i (s.buf (i + 80))) s).buf i =
      if i < n then s.buf (i + 80) else s.buf i) ∧
    ((List.range n).foldl (fun s i => s.write i (s.buf (i + 80))) s).cursor = s.cursor ∧
    ∀ i ∈ ((List.range n).foldl (fun s i => s.write i (s.buf (i + 80))) s).written,
      i ∈ s.written ∨ i < n := by
  induction n with
  | zero => exact ⟨fun _ => rfl, rfl, fun i hi => .inl hi⟩
  | succ n ih =>
    obtain ⟨hbuf, hcursor, hwritten⟩ := ih
    rw [List.range_succ, List.foldl_append]
    refine ⟨fun i => ?_, hcursor, fun i hi => ?_⟩
    · rw [List.foldl_cons, List.foldl_nil, write]
      dsimp only
      obtain rfl | hne := eq_or_ne i n
      · rw [Function.update_self, hbuf, if_neg (by omega), if_pos (by omega)]
      · rw [Function.update_of_ne hne, hbuf]
        have hiff : i < n ↔ i < n + 1 := by omega
        simp only [hiff]
    · obtain rfl | hi := List.mem_cons.1 hi
      · exact .inr (by omega)
      · exact (hwritten i hi).imp_right fun h => by omega

theorem memset_spec (s : Vga) (pos c n : Nat) :
    (∀ i, (s.memset pos c n).buf i =
      if pos ≤ i ∧ i < pos + n then UInt16.ofNat (c % 256 * 257) else s.buf i) ∧
    (s.memset pos c n).cursor = s.cursor ∧
    ∀ i ∈ (s.memset pos c n).written, i ∈ s.written ∨ (pos ≤ i ∧ i < pos + n) := by
  induction n with
  | zero => exact ⟨fun i => (if_neg (by omega)).symm, rfl, fun i hi => .inl hi⟩
  | succ n ih =>
    obtain ⟨hbuf, hcursor, hwritten⟩ := ih
    have hsucc : s.memset pos c (n + 1) =
        (s.memset pos c n).write (pos + n) (UInt16.ofNat (c % 256 * 257)) := by
      rw [memset, List.range'_1_concat, List.foldl_append]
      rfl
    rw [hsucc]
    refine ⟨fun i => ?_, hcursor, fun i hi => ?_⟩
    · rw [write]
      dsimp only
      obtain rfl | hne := eq_or_ne i (pos + n)
      · rw [Function.update_self, if_pos (by omega)]
      · rw [Function.update_of_ne hne, hbuf]
        have hiff : (pos ≤ i ∧ i < pos + n) ↔ (pos ≤ i ∧ i < pos + (n + 1)) := by omega
        simp only [hiff]
    · obtain rfl | hi := List.mem_cons.1 hi
      · exact .inr (by omega)
      · exact (hwritten i hi).imp_right fun h => by omega

end Vga

/-- All rows move up by one, and the last one is empty. -/
theorem vgaScroll_spec (s : Vga) :
    (∀ i, (vgaScroll s).buf i =
      if i < 1920 then s.buf (i + 80) else if i < 2000 then 0 else s.buf i) ∧
    (vgaScroll s).cursor = (s.cursor / 80 - 1) * 80 ∧
    ∀ i ∈ (vgaScroll s).written, i ∈ s.written ∨ i < 2000 := by
  obtain ⟨hbuf, hcursor, hwritten⟩ := s.foldl_copy (2000 - 80)
  obtain ⟨hbuf', hcursor', hwritten'⟩ :=
    ((List.range (2000 - 80)).foldl (fun s i => s.write i (s.buf (i + 80))) s).memset_spec (2000 - 80) 0 80
  refine ⟨fun i => ?_, ?_, fun i hi => ?_⟩
  · refine (hbuf' i).trans ?_
    rw [hbuf]
    by_cases hlt : i < 1920
    · rw [if_neg (by omega), if_pos hlt, if_pos hlt]
    · rw [if_neg hlt, if_neg hlt]
      have hiff : (2000 - 80 ≤ i ∧ i < 2000 - 80 + 80) ↔ i < 2000 := by omega
      simp only [hiff]
      rfl
  · exact congrArg (fun c => (vgaLine c - 1) * 80) (hcursor'.trans hcursor)
  · obtain hi | hi := hwritten' i hi
    · exact (hwritten i hi).imp_right fun h => by omega
    · exact .inr (by omega)

/-! ## Bounds -/

/-- The cursor is in the buffer, and so is all that was written. -/
structure Vga.InBounds (s : Vga) : Prop where
  cursor : s.cursor < 80 * 25
  written : ∀ i ∈ s.written, i < 80 * 25

section
variable {s : Vga}

/-- A newline comes to the start of a row of the screen. -/
theorem vgaNewline_inBounds (h : s.InBounds) : (vgaNewline s).InBounds := by
  have hlt := h.cursor
  rw [vgaNewline, vgaLine]
  split
  case isTrue hend =>
    obtain ⟨-, hcursor, hwritten⟩ := vgaScroll_spec { s with cursor := (s.cursor / 80 + 1) * 80 }
    refine ⟨?_, fun i hi => (hwritten i hi).elim (h.written i) id⟩
    rw [hcursor]
    dsimp only
    omega
  case isFalse hend => exact ⟨Nat.lt_of_not_le hend, h.written⟩

theorem Vga.InBounds.write (h : s.InBounds) (v : UInt16) : (s.write s.cursor v).InBounds :=
  ⟨h.cursor, fun i hi => (List.mem_cons.1 hi).elim (fun heq => heq ▸ h.cursor) (h.written i)⟩

/-- Every character leaves the cursor in the buffer and writes there only. -/
theorem vgaDisplayChar_inBounds (h : s.InBounds) (c : Int8) : (vgaDisplayChar s c).InBounds := by
  have hlt := h.cursor
  rw [vgaDisplayChar]
  split_ifs
  · exact vgaNewline_inBounds h
  · exact ⟨(Nat.div_le_self ..).trans_lt hlt, h.written⟩
  · dsimp only
    split
    case isTrue hcol =>
      refine ⟨?_, (h.write (vgaCell c)).written⟩
      rw [vgaColumn] at hcol
      dsimp only [Vga.write] at hcol ⊢
      omega
    case isFalse => exact vgaNewline_inBounds (h.write _)

theorem inBounds_start (buf : Nat → UInt16) : (Vga.mk buf 0 []).InBounds :=
  ⟨Nat.zero_lt_succ _, fun _ hi => absurd hi List.not_mem_nil⟩

theorem vgaDisplay_inBounds (h : s.InBounds) (t : List Int8) : (vgaDisplay s t).InBounds := by
  induction t generalizing s with
  | nil => exact h
  | cons c t ih => exact ih (vgaDisplayChar_inBounds h c)

end

/-! ## The screen shows the last rows -/

/-- The cells of the screen show these rows, and nothing else. -/
def CellsShow (buf : Nat → UInt16) (rows : List (List Int8)) : Prop :=
  ∀ r < 25, ∀ c < 80, buf (80 * r + c) = cellAt rows r c

/-- Rows above the one the cursor is on, as many as the screen has room for. -/
def lastAbove (rows : List (List Int8)) : List (List Int8) := rows.drop (rows.length - 24)

/-- The screen shows rows and below them the one that is being written, with the cursor behind it. -/
structure Vga.Shows (s : Vga) (above : List (List Int8)) (row : List Int8) : Prop where
  above_le : above.length ≤ 24
  row_lt : row.length < 80
  cursor : s.cursor = 80 * above.length + row.length
  cells : CellsShow s.buf (above ++ [row])

section
variable {s : Vga} {above rows : List (List Int8)} {row : List Int8} {r c : Nat} {ch : Int8}

/-- The rows that have left the screen do not come back. -/
theorem lastAbove_lastAbove_append (rows : List (List Int8)) (row : List Int8) :
    lastAbove (lastAbove rows ++ [row]) = lastAbove (rows ++ [row]) := by
  have happ : lastAbove rows ++ [row] = (rows ++ [row]).drop (rows.length - 24) := by
    rw [List.drop_append_of_le_length (by omega), lastAbove]
  rw [happ, lastAbove, lastAbove, List.drop_drop, List.length_drop, List.length_append, List.length_singleton]
  congr 1
  omega

theorem lastRows_append (rows : List (List Int8)) (row : List Int8) :
    lastRows (rows ++ [row]) = lastAbove rows ++ [row] := by
  rw [lastRows, lastAbove, List.length_append, List.length_singleton, List.drop_append_of_le_length (by omega)]
  congr 2

/-- An empty row shows as no row. -/
theorem cellAt_append_nil (rows : List (List Int8)) (r c : Nat) : cellAt (rows ++ [[]]) r c = cellAt rows r c := by
  have hrow : (rows ++ [[]]).getD r [] = rows.getD r [] := by
    obtain hlt | hle := Nat.lt_or_ge r rows.length
    · rw [List.getD_append _ _ _ _ hlt]
    · rw [List.getD_append_right _ _ _ _ hle, List.getD_eq_default _ _ hle]
      cases r - rows.length <;> rfl
  rw [cellAt, cellAt, hrow]

theorem cellAt_of_length_le (h : rows.length ≤ r) : cellAt rows r c = 0 := by
  rw [cellAt, List.getD_eq_default _ _ h]
  rfl

/-- The code's cell of a printable character. -/
theorem vgaCell_eq (h : Printable ch) : vgaCell ch = 0x0F00 + UInt16.ofNat ch.toInt.toNat := by
  have hcell : ∀ n : Fin 128, vgaCell (Int8.ofNat n) = 0x0F00 + UInt16.ofNat n := by decide +kernel
  obtain ⟨hlo, hhi⟩ := h
  have hch : Int8.ofNat ch.toInt.toNat = ch := by
    rw [← Int8.ofInt_eq_ofNat, Int.toNat_of_nonneg (by omega), Int8.ofInt_toInt]
  have := hcell ⟨ch.toInt.toNat, by omega⟩
  rwa [hch] at this

/-- A newline, when the rows are shown and the cursor is anywhere in the last one. -/
theorem vgaNewline_shows (habove : above.length ≤ 24) (hcells : CellsShow s.buf (above ++ [row]))
    (hline : s.cursor / 80 = above.length) : (vgaNewline s).Shows (lastAbove (above ++ [row])) [] := by
  rw [vgaNewline, vgaLine, hline]
  dsimp only
  split
  case isFalse hroom =>
    have hall : lastAbove (above ++ [row]) = above ++ [row] := by
      rw [lastAbove, List.length_append, List.length_singleton, Nat.sub_eq_zero_of_le (by omega), List.drop_zero]
    rw [hall]
    refine ⟨?_, by decide, ?_, fun r hr c hc => ?_⟩
    · rw [List.length_append, List.length_singleton]
      omega
    · rw [List.length_append, List.length_singleton, Nat.mul_comm]
      rfl
    · rw [cellAt_append_nil]
      exact hcells r hr c hc
  case isTrue hfull =>
    obtain ⟨hbuf, hcursor, -⟩ := vgaScroll_spec { s with cursor := (above.length + 1) * 80 }
    have hlen : (above ++ [row]).length = 25 := by
      rw [List.length_append, List.length_singleton]
      omega
    have hlast : (lastAbove (above ++ [row])).length = 24 := by
      rw [lastAbove, List.length_drop, hlen]
    refine ⟨hlast.le, by decide, ?_, fun r hr c hc => ?_⟩
    · rw [hcursor, hlast, List.length_nil]
      dsimp only
      omega
    · rw [hbuf, cellAt_append_nil]
      by_cases hr' : r < 24
      case pos =>
        -- a row that has moved up
        have hup : cellAt (lastAbove (above ++ [row])) r c = cellAt (above ++ [row]) (r + 1) c := by
          rw [cellAt, cellAt, lastAbove, hlen, List.getD_eq_getElem?_getD, List.getElem?_drop, Nat.add_comm,
            ← List.getD_eq_getElem?_getD]
        rw [if_pos (by omega), hup, ← hcells (r + 1) (by omega) c hc]
        exact congrArg s.buf (by omega)
      case neg =>
        rw [if_neg (by omega), if_pos (by omega), cellAt_of_length_le (by omega)]

/-- The character at the cursor. -/
theorem Vga.Shows.write (h : s.Shows above row) (hch : Printable ch) :
    CellsShow (s.write s.cursor (vgaCell ch)).buf (above ++ [row ++ [ch]]) := by
  obtain ⟨-, hrow, hcursor, hcells⟩ := h
  rintro r hr c hc
  rw [Vga.write]
  dsimp only
  obtain heq | hne := eq_or_ne (80 * r + c) s.cursor
  case inl =>
    obtain ⟨rfl, rfl⟩ : r = above.length ∧ c = row.length := by omega
    have hcell : cellAt (above ++ [row ++ [ch]]) above.length row.length =
        0x0F00 + UInt16.ofNat ch.toInt.toNat := by
      simp [cellAt, List.getD_eq_getElem?_getD]
    rw [heq, Function.update_self, vgaCell_eq hch, hcell]
  case inr =>
    rw [Function.update_of_ne hne, hcells r hr c hc]
    obtain rfl | hr' := eq_or_ne r above.length
    · -- the same row, another column
      have hcol : (row ++ [ch])[c]? = row[c]? := by
        obtain hlt | hle := Nat.lt_or_ge c row.length
        · rw [List.getElem?_append_left hlt]
        · rw [List.getElem?_append_right hle, List.getElem?_eq_none hle]
          exact List.getElem?_eq_none (by rw [List.length_singleton]; omega)
      simp [cellAt, List.getD_eq_getElem?_getD, hcol]
    · have hrow' (l : List Int8) : (above ++ [l]).getD r [] = above.getD r [] := by
        obtain hlt | hle := Nat.lt_or_ge r above.length
        · rw [List.getD_append _ _ _ _ hlt]
        · rw [List.getD_eq_default _ _ hle]
          exact List.getD_eq_default _ _ (by rw [List.length_append, List.length_singleton]; omega)
      rw [cellAt, cellAt, hrow', hrow']

theorem Printable.ne (h : Printable ch) : ch ≠ chr '\n' ∧ ch ≠ chr '\r' := by
  constructor
  all_goals
    rintro rfl
    exact absurd h.1 (by decide)

theorem Vga.Shows.line (h : s.Shows above row) : s.cursor / 80 = above.length := by
  have := h.row_lt
  rw [h.cursor]
  omega

/-- A printable character with room behind it. -/
theorem Vga.Shows.char (h : s.Shows above row) (hch : Printable ch) (hroom : row.length + 1 < 80) :
    (vgaDisplayChar s ch).Shows above (row ++ [ch]) := by
  have hcol : vgaColumn (s.write s.cursor (vgaCell ch)).cursor < 80 - 1 := by
    rw [vgaColumn, Vga.write, h.cursor]
    omega
  rw [vgaDisplayChar, if_neg hch.ne.1, if_neg hch.ne.2]
  dsimp only
  rw [if_pos hcol]
  refine ⟨h.above_le, by rwa [List.length_append], ?_, h.write hch⟩
  rw [List.length_append, ← Nat.add_assoc, ← h.cursor]
  rfl

/-- A printable character in the last column. -/
theorem Vga.Shows.last_char (h : s.Shows above row) (hch : Printable ch) (hlast : row.length + 1 = 80) :
    (vgaDisplayChar s ch).Shows (lastAbove (above ++ [row ++ [ch]])) [] := by
  have hcol : ¬ vgaColumn (s.write s.cursor (vgaCell ch)).cursor < 80 - 1 := by
    rw [vgaColumn, Vga.write, h.cursor]
    omega
  rw [vgaDisplayChar, if_neg hch.ne.1, if_neg hch.ne.2]
  dsimp only
  rw [if_neg hcol]
  exact vgaNewline_shows h.above_le (h.write hch) h.line

/-- A newline. -/
theorem Vga.Shows.newline (h : s.Shows above row) :
    (vgaDisplayChar s (chr '\n')).Shows (lastAbove (above ++ [row])) [] := by
  rw [vgaDisplayChar, if_pos rfl]
  exact vgaNewline_shows h.above_le h.cells h.line

/-- A text, after the rows `rows` and the row `row` that has begun: the screen goes on showing the last rows. -/
theorem vgaDisplay_shows (rows : List (List Int8)) {t : List Int8} (ht : ∀ c ∈ t, Printable c ∨ c = chr '\n')
    (h : s.Shows (lastAbove rows) row) :
    ∃ rows' row', rows ++ layoutFrom row t = rows' ++ [row'] ∧ (vgaDisplay s t).Shows (lastAbove rows') row' := by
  induction t generalizing s rows row with
  | nil => exact ⟨rows, row, rfl, h⟩
  | cons c t ih =>
    obtain ⟨hc, ht⟩ := List.forall_mem_cons.1 ht
    have hnext {row₁ : List Int8} (hs : (vgaDisplayChar s c).Shows (lastAbove (lastAbove rows ++ [row₁])) []) :
        ∃ rows' row', rows ++ (row₁ :: layoutFrom [] t) = rows' ++ [row'] ∧
          (vgaDisplay s (c :: t)).Shows (lastAbove rows') row' := by
      rw [lastAbove_lastAbove_append] at hs
      obtain ⟨rows', row', heq, hs'⟩ := ih _ ht hs
      exact ⟨rows', row', by rw [← heq, List.append_assoc]; rfl, hs'⟩
    have hrow := h.row_lt
    rw [layoutFrom]
    obtain hc | rfl := hc
    · rw [if_neg hc.ne.1, List.length_append, List.length_singleton]
      by_cases hlast : row.length + 1 = 80
      case pos =>
        rw [if_pos hlast]
        exact hnext (h.last_char hc hlast)
      case neg =>
        rw [if_neg hlast]
        exact ih _ ht (h.char hc (by omega))
    · rw [if_pos rfl]
      exact hnext h.newline

/-- The cleared screen, with the cursor at its start. -/
theorem vgaClear_shows (buf : Nat → UInt16) : (vgaClear ⟨buf, 0, []⟩).Shows (lastAbove []) [] := by
  obtain ⟨hbuf, hcursor, -⟩ := Vga.memset_spec ⟨buf, 0, []⟩ 0 (0x0F <<< 8) 2000
  rw [vgaClear]
  refine ⟨by decide, by decide, ?_, fun r hr c hc => ?_⟩
  · rw [hcursor]
    rfl
  · have hempty : cellAt (lastAbove [] ++ [[]]) r c = 0 := by
      rw [cellAt_append_nil]
      rfl
    rw [hbuf, if_pos (by omega), hempty]
    rfl

end

/-- Whatever is displayed from cursor 0 on, the cursor stays in the buffer and so do all writes; and after
`VGA_clear` the screen shows the last rows of the text and nothing else, with the cursor behind them. -/
theorem display_layout :
    (∀ (buf : Nat → UInt16) (t : List Int8), (vgaDisplay ⟨buf, 0, []⟩ t).InBounds) ∧
    ∀ (buf : Nat → UInt16) (t : List Int8), (∀ c ∈ t, Printable c ∨ c = chr '\n') →
      ∃ above row, lastRows (layout t) = above ++ [row] ∧ above.length < 25 ∧ row.length < 80 ∧
        (vgaDisplay (vgaClear ⟨buf, 0, []⟩) t).cursor = 80 * above.length + row.length ∧
        ∀ r < 25, ∀ c < 80,
          (vgaDisplay (vgaClear ⟨buf, 0, []⟩) t).buf (80 * r + c) = cellAt (lastRows (layout t)) r c := by
  refine ⟨fun buf t => vgaDisplay_inBounds (inBounds_start buf) t, fun buf t ht => ?_⟩
  obtain ⟨rows, row, heq, habove, hrow, hcursor, hcells⟩ := vgaDisplay_shows [] ht (vgaClear_shows buf)
  have hlast : lastRows (layout t) = lastAbove rows ++ [row] := by
    rw [← lastRows_append, ← heq]
    rfl
  exact ⟨_, row, hlast, by omega, hrow, hcursor, hlast ▸ hcells⟩

/-! ## Carriage returns -/

/-- What a carriage return and a text are for: the text is at the start of the row the cursor was on, and the
other cells of the screen are what they were. -/
def CarriageReturnRewrites (s : Vga) (t : List Int8) : Prop :=
  ∀ i < 80 * 25, (vgaDisplay s (chr '\r' :: t)).buf i =
    if 80 * vgaLine s.cursor ≤ i ∧ i < 80 * vgaLine s.cursor + t.length
    then vgaCell (t.getD (i - 80 * vgaLine s.cursor) 0) else s.buf i

/-- The screen shows the text from a cell on. -/
def ShowsAt (s : Vga) (pos : Nat) (t : List Int8) : Prop :=
  ∀ j < t.length, s.buf (pos + j) = vgaCell (t.getD j 0)

section
variable {s : Vga} {t : List Int8} {c : Int8}

/-- A printable character before the last cell moves the cursor by one cell, also from one row to the next. -/
theorem vgaDisplayChar_advance (hc : Printable c) (hend : s.cursor + 1 < 80 * 25) :
    (vgaDisplayChar s c).buf = Function.update s.buf s.cursor (vgaCell c) ∧
    (vgaDisplayChar s c).cursor = s.cursor + 1 := by
  rw [vgaDisplayChar, if_neg hc.ne.1, if_neg hc.ne.2]
  dsimp only
  split
  case isTrue => exact ⟨rfl, rfl⟩
  case isFalse hcol =>
    rw [vgaColumn] at hcol
    have hwrite : (s.write s.cursor (vgaCell c)).cursor = s.cursor := rfl
    have hnext : (vgaLine s.cursor + 1) * 80 = s.cursor + 1 := by
      rw [vgaLine]
      omega
    rw [vgaNewline]
    dsimp only
    rw [hwrite, hnext, if_neg (by omega)]
    exact ⟨rfl, rfl⟩

/-- A printable text that ends before the last cell takes the cells from the cursor on. -/
theorem vgaDisplay_buf (ht : ∀ c ∈ t, Printable c) (hend : s.cursor + t.length < 80 * 25) (i : Nat) :
    (vgaDisplay s t).buf i =
      if s.cursor ≤ i ∧ i < s.cursor + t.length then vgaCell (t.getD (i - s.cursor) 0) else s.buf i := by
  induction t generalizing s with
  | nil => exact (if_neg (by rw [List.length_nil]; omega)).symm
  | cons c t ih =>
    obtain ⟨hc, ht⟩ := List.forall_mem_cons.1 ht
    rw [List.length_cons] at hend ⊢
    obtain ⟨hbuf, hcursor⟩ := vgaDisplayChar_advance (s := s) hc (by omega)
    have hrest := ih (s := vgaDisplayChar s c) ht (by omega)
    rw [hcursor, hbuf] at hrest
    refine hrest.trans ?_
    obtain rfl | hne := eq_or_ne i s.cursor
    · rw [if_neg (by omega), if_pos (by omega), Function.update_self, Nat.sub_self]
      rfl
    · rw [Function.update_of_ne hne]
      by_cases hi : s.cursor + 1 ≤ i ∧ i < s.cursor + 1 + t.length
      · obtain ⟨k, rfl⟩ : ∃ k, i = s.cursor + 1 + k := ⟨i - (s.cursor + 1), by omega⟩
        have hk : s.cursor + 1 + k - s.cursor = k + 1 := by omega
        rw [if_pos hi, if_pos (by omega), hk, Nat.add_sub_cancel_left]
        rfl
      · rw [if_neg hi, if_neg (by omega)]

/-- Writing what is there changes nothing. -/
theorem ShowsAt.overwrite {pos : Nat} (h : ShowsAt s pos t) (i : Nat) :
    (if pos ≤ i ∧ i < pos + t.length then vgaCell (t.getD (i - pos) 0) else s.buf i) = s.buf i := by
  split
  case isTrue hi =>
    obtain ⟨k, rfl⟩ : ∃ k, i = pos + k := ⟨i - pos, by omega⟩
    rw [Nat.add_sub_cancel_left, h k (by omega)]
  case isFalse => rfl

/-- What the code does: the text starts in the cell whose number is that of the row. -/
theorem carriage_return_buf (ht : ∀ c ∈ t, Printable c) (hlen : t.length ≤ 79) (hs : s.cursor < 80 * 25)
    (i : Nat) : (vgaDisplay s (chr '\r' :: t)).buf i =
      if vgaLine s.cursor ≤ i ∧ i < vgaLine s.cursor + t.length then vgaCell (t.getD (i - vgaLine s.cursor) 0)
      else s.buf i := by
  have hcr : vgaDisplayChar s (chr '\r') = { s with cursor := vgaLine s.cursor } := rfl
  have hline : vgaLine s.cursor < 25 := Nat.div_lt_of_lt_mul hs
  have hrun := vgaDisplay_buf (s := { s with cursor := vgaLine s.cursor }) ht (by dsimp only; omega) i
  rw [← hcr] at hrun
  exact hrun

end

/-- A carriage return and a text rewrite the row the cursor was on exactly when that is the first row, when the
text is empty, or when the screen already shows the text both there and where it is written. -/
theorem carriage_return_rewrites_iff (buf : Nat → UInt16) (cs : List Int8) {t : List Int8}
    (ht : ∀ c ∈ t, Printable c) (hlen : t.length ≤ 79) :
    CarriageReturnRewrites (vgaDisplay ⟨buf, 0, []⟩ cs) t ↔
      vgaLine (vgaDisplay ⟨buf, 0, []⟩ cs).cursor = 0 ∨ t = [] ∨
      (ShowsAt (vgaDisplay ⟨buf, 0, []⟩ cs) (80 * vgaLine (vgaDisplay ⟨buf, 0, []⟩ cs).cursor) t ∧
        ShowsAt (vgaDisplay ⟨buf, 0, []⟩ cs) (vgaLine (vgaDisplay ⟨buf, 0, []⟩ cs).cursor) t) := by
  have hs := (vgaDisplay_inBounds (inBounds_start buf) cs).cursor
  generalize vgaDisplay ⟨buf, 0, []⟩ cs = s at hs ⊢
  have hline : vgaLine s.cursor < 25 := Nat.div_lt_of_lt_mul hs
  have hbuf := carriage_return_buf ht hlen hs
  rw [CarriageReturnRewrites]
  generalize vgaLine s.cursor = r at hline hbuf ⊢
  constructor
  · intro h
    obtain rfl | hr := Nat.eq_zero_or_pos r
    · exact .inl rfl
    · refine .inr (.inr ⟨fun j hj => ?_, fun j hj => ?_⟩)
      · have hi := h (80 * r + j) (by omega)
        rw [hbuf, if_neg (by omega), if_pos (by omega), Nat.add_sub_cancel_left] at hi
        exact hi
      · have hi := h (r + j) (by omega)
        rw [hbuf, if_pos (by omega), if_neg (by omega), Nat.add_sub_cancel_left] at hi
        exact hi.symm
  · rintro (rfl | rfl | ⟨hrow, hwritten⟩) i -
    · exact hbuf i
    · rw [hbuf, List.length_nil, if_neg (by omega), if_neg (by omega)]
    · rw [hbuf, hwritten.overwrite, hrow.overwrite]

/-- On the first row the text is where it should be. -/
theorem carriage_return_rewrites_first :
    CarriageReturnRewrites (vgaDisplay ⟨fun _ => 0, 0, []⟩ [chr 'A']) [chr 'B'] := by
  have ht : ∀ c ∈ [chr 'B'], Printable c := List.forall_mem_singleton.2 (by decide)
  exact (carriage_return_rewrites_iff (fun _ => 0) [chr 'A'] ht (by decide)).2 (.inl rfl)

/-- On the second row it is in the first one, from its second cell on. -/
theorem carriage_return_second_row :
    ¬ CarriageReturnRewrites (vgaDisplay ⟨fun _ => 0, 0, []⟩ [chr '\n']) [chr 'B'] := by
  intro h
  have hcell := h 80 (by decide)
  revert hcell
  decide

end BanjOS
