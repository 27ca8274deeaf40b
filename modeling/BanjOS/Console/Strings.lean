import Mathlib.Order.Basic
import Mathlib.Data.Nat.Find
import Mathlib.Data.List.GetD

/-!
# Strings

`strlen` and `strcmp` of `string.c`, and the two directory callbacks of `kmain.c` that compare names. A
`CString` is what comes before the NUL. `strcmp` subtracts the first character of `b` where it means the
one that differs, and it stops at the end of the shorter string: `strcmpOrders_iff` says for which strings
it orders nevertheless.
-/

namespace BanjOS

/-- A NUL-terminated string; `char` is signed. -/
structure CString where
  chars : List Int8
  nulFree : ∀ c ∈ chars, c ≠ 0
  deriving DecidableEq

namespace CString

/-- `s[i]`, where the NUL comes after the last character. -/
def char (s : CString) (i : Nat) : Int8 := s.chars.getD i 0

theorem char_ne_zero_iff (s : CString) (i : Nat) : s.char i ≠ 0 ↔ i < s.chars.length := by
  constructor
  · intro hne
    by_contra hi
    exact hne (List.getD_eq_default _ _ (Nat.le_of_not_lt hi))
  · intro hi
    rw [char, List.getD_eq_getElem _ _ hi]
    exact s.nulFree _ (List.getElem_mem hi)

/-- The characters and the NUL determine the string. -/
theorem char_injective : Function.Injective char := by
  intro s t h
  have hlen : s.chars.length = t.chars.length := by
    have hiff (i : Nat) : i < s.chars.length ↔ i < t.chars.length := by
      rw [← s.char_ne_zero_iff, ← t.char_ne_zero_iff, h]
    have h₁ := hiff s.chars.length
    have h₂ := hiff t.chars.length
    omega
  have hchars : s.chars = t.chars := by
    refine List.ext_getElem hlen fun i hs ht => ?_
    have hi := congrFun h i
    rwa [char, char, List.getD_eq_getElem _ _ hs, List.getD_eq_getElem _ _ ht] at hi
  cases s
  cases t
  cases hchars
  rfl

end CString

/-- The loop of `strlen`, with the characters from `*s` on. -/
def strlenFrom : List Int8 → Nat → Nat
  | [], n => n
  | _ :: s, n => strlenFrom s (n + 1)

/-- `strlen`. -/
def strlen (s : CString) : Nat := strlenFrom s.chars 0

/-- The loop of `strcmp`, from the position `i` on, with `n` positions to go. -/
def strcmpFrom (a b : CString) (i : Nat) : (n : Nat) → Int
  | 0 => 0
  | n + 1 =>
    if (a.char i).toInt - (b.char i).toInt ≠ 0 then (a.char i).toInt - (b.char 0).toInt
    else strcmpFrom a b (i + 1) n

/-- `strcmp`. -/
def strcmp (a b : CString) : Int := strcmpFrom a b 0 (min (strlen a) (strlen b))

/-- `readdir_boot` and `readdir_kern`, but for the name they look for: what they return, and `*ino`. -/
def readdirFor (name filename : CString) (inodeIno ino : Nat) : Int × Nat :=
  if strcmp filename name = 0 then (1, inodeIno) else (1, ino)

/-- `"boot"`. -/
def bootName : CString := ⟨[98, 111, 111, 116], by simp⟩

/-- `"kernel"`. -/
def kernelName : CString := ⟨[107, 101, 114, 110, 101, 108], by simp⟩

/-- `readdir_boot`. -/
def readdirBoot (filename : CString) (inodeIno ino : Nat) : Int × Nat := readdirFor bootName filename inodeIno ino

/-- `readdir_kern`. -/
def readdirKern (filename : CString) (inodeIno ino : Nat) : Int × Nat :=
  readdirFor kernelName filename inodeIno ino

/-! ## The first difference -/

/-- The first position at which two sequences differ. -/
structure FirstDiff {α : Type} (f g : Nat → α) (k : Nat) : Prop where
  ne : f k ≠ g k
  eq_of_lt : ∀ i < k, f i = g i

section
variable {α : Type} {f g : Nat → α} {k l : Nat}

theorem FirstDiff.symm (h : FirstDiff f g k) : FirstDiff g f k := ⟨h.ne.symm, fun i hi => (h.eq_of_lt i hi).symm⟩

theorem FirstDiff.unique (h : FirstDiff f g k) (h' : FirstDiff f g l) : k = l := by
  apply le_antisymm
  · exact Nat.le_of_not_lt fun hlt => h'.ne (h.eq_of_lt l hlt)
  · exact Nat.le_of_not_lt fun hlt => h.ne (h'.eq_of_lt k hlt)

/-- Sequences that are not the same differ at a first position. -/
theorem exists_firstDiff [DecidableEq α] (h : f ≠ g) : ∃ k, FirstDiff f g k := by
  have hex : ∃ k, f k ≠ g k := Function.ne_iff.1 h
  exact ⟨Nat.find hex, Nat.find_spec hex, fun i hi => not_not.1 (Nat.find_min hex hi)⟩

end

/-! ## `strcmp` -/

section
variable {a b : CString} {k : Nat}

theorem strlenFrom_eq (s : List Int8) (n : Nat) : strlenFrom s n = n + s.length := by
  induction s generalizing n with
  | nil => rfl
  | cons c s ih => rw [strlenFrom, ih, List.length_cons, Nat.add_right_comm, Nat.add_assoc]

@[simp] theorem strlen_eq (s : CString) : strlen s = s.chars.length := by
  rw [strlen, strlenFrom_eq, Nat.zero_add]

/-- Where the positions to go all agree, nothing is found. -/
theorem strcmpFrom_of_agree {i n : Nat} (h : ∀ j, i ≤ j → j < i + n → a.char j = b.char j) :
    strcmpFrom a b i n = 0 := by
  induction n generalizing i with
  | zero => rfl
  | succ n ih =>
    have hi : a.char i = b.char i := h i le_rfl (by omega)
    rw [strcmpFrom, hi, Int.sub_self, if_neg (by simp)]
    exact ih fun j hj hlt => h j (by omega) (by omega)

/-- The first difference that is come to gives the result. -/
theorem strcmpFrom_of_firstDiff (h : FirstDiff a.char b.char k) {i n : Nat} (hi : i ≤ k) (hk : k < i + n) :
    strcmpFrom a b i n = (a.char k).toInt - (b.char 0).toInt := by
  induction n generalizing i with
  | zero => omega
  | succ n ih =>
    obtain rfl | hlt := hi.eq_or_lt
    · have hne : (a.char i).toInt - (b.char i).toInt ≠ 0 := fun h0 => h.ne (Int8.toInt_inj.1 (by omega))
      rw [strcmpFrom, if_pos hne]
    · rw [strcmpFrom, h.eq_of_lt i hlt, Int.sub_self, if_neg (by simp)]
      exact ih hlt (by omega)

theorem strcmp_self : strcmp a a = 0 := strcmpFrom_of_agree fun _ _ _ => rfl

/-- The end of the shorter string comes before any difference. -/
theorem strcmp_of_length_le (h : FirstDiff a.char b.char k) (hk : a.chars.length ≤ k ∨ b.chars.length ≤ k) :
    strcmp a b = 0 := by
  refine strcmpFrom_of_agree fun i _ hi => h.eq_of_lt i ?_
  rw [strlen_eq, strlen_eq] at hi
  omega

/-- The difference is in both strings: the first character of `b` is what is subtracted. -/
theorem strcmp_of_lt (h : FirstDiff a.char b.char k) (ha : k < a.chars.length) (hb : k < b.chars.length) :
    strcmp a b = (a.char k).toInt - (b.char 0).toInt := by
  refine strcmpFrom_of_firstDiff h k.zero_le ?_
  rw [strlen_eq, strlen_eq]
  omega

end

/-! ## The order -/

/-- What `strcmp` is for: 0 for equal strings only, and else the sign of the first difference, which the
strings the other way round have the other way round. -/
structure StrcmpOrders (a b : CString) : Prop where
  eq_zero : strcmp a b = 0 ↔ a = b
  neg : ∀ k, FirstDiff a.char b.char k → (strcmp a b < 0 ↔ (a.char k).toInt < (b.char k).toInt)
  pos : ∀ k, FirstDiff a.char b.char k → (0 < strcmp a b ↔ (b.char k).toInt < (a.char k).toInt)
  opposite : (strcmp a b < 0 ↔ 0 < strcmp b a) ∧ (0 < strcmp a b ↔ strcmp b a < 0)

/-- The strings are equal, or they differ within both, and there at the first character or around it. -/
def DifferAroundFirst (a b : CString) : Prop :=
  a = b ∨ ∃ k, FirstDiff a.char b.char k ∧ k < a.chars.length ∧ k < b.chars.length ∧
    (k = 0 ∨ ((a.char k).toInt < (a.char 0).toInt ∧ (a.char 0).toInt < (b.char k).toInt) ∨
      ((b.char k).toInt < (a.char 0).toInt ∧ (a.char 0).toInt < (a.char k).toInt))

/-- `strcmp` gives 0 for a name that is not the one looked for, unless they differ within both, and there at
the first character or in a character that is not that name's first one. -/
def DifferFromFirst (filename name : CString) : Prop :=
  filename = name ∨ ∃ k, FirstDiff filename.char name.char k ∧ k < filename.chars.length ∧
    k < name.chars.length ∧ (k = 0 ∨ filename.char k ≠ name.char 0)

section
variable {a b : CString}

theorem strcmpOrders_iff_differ : StrcmpOrders a b ↔ DifferAroundFirst a b := by
  obtain rfl | hne := eq_or_ne a b
  case inl =>
    refine iff_of_true ⟨by simp [strcmp_self], ?_, ?_, by simp [strcmp_self]⟩ (.inl rfl)
    all_goals exact fun k hk => absurd rfl hk.ne
  case inr =>
    obtain ⟨k, hk⟩ := exists_firstDiff (CString.char_injective.ne hne)
    have hdiff : (a.char k).toInt ≠ (b.char k).toInt := fun h => hk.ne (Int8.toInt_inj.1 h)
    by_cases hlen : k < a.chars.length ∧ k < b.chars.length
    case neg =>
      refine iff_of_false (fun h => hne (h.eq_zero.1 (strcmp_of_length_le hk (by omega)))) ?_
      rintro (heq | ⟨l, hl, ha, hb, -⟩)
      · exact hne heq
      · exact hlen (hk.unique hl ▸ ⟨ha, hb⟩)
    case pos =>
      have hab := strcmp_of_lt hk hlen.1 hlen.2
      have hba := strcmp_of_lt hk.symm hlen.2 hlen.1
      have hfirst : k = 0 ∨ (a.char 0).toInt = (b.char 0).toInt :=
        k.eq_zero_or_pos.imp_right fun h0 => congrArg Int8.toInt (hk.eq_of_lt 0 h0)
      constructor
      case mp =>
        intro h
        have hneg := h.neg k hk
        have hpos := h.pos k hk
        have hopp := h.opposite
        rw [hab] at hneg hpos
        rw [hab, hba] at hopp
        refine .inr ⟨k, hk, hlen.1, hlen.2, hfirst.imp_right fun heq => ?_⟩
        omega
      case mpr =>
        rintro (heq | ⟨l, hl, -, -, haround⟩)
        · exact absurd heq hne
        · obtain rfl := hl.unique hk
          have hsign : (strcmp a b < 0 ↔ (a.char l).toInt < (b.char l).toInt) ∧
              (0 < strcmp a b ↔ (b.char l).toInt < (a.char l).toInt) ∧
              (strcmp b a < 0 ↔ (b.char l).toInt < (a.char l).toInt) ∧
              (0 < strcmp b a ↔ (a.char l).toInt < (b.char l).toInt) := by
            rw [hab, hba]
            obtain rfl | heq := hfirst
            · omega
            · obtain rfl | haround := haround <;> omega
          refine ⟨iff_of_false (by omega) hne, fun k hk => ?_, fun k hk => ?_, by omega⟩
          all_goals
            obtain rfl := hl.unique hk
            omega

/-- The callbacks see no difference between a name and one that it does not differ from in this way. -/
theorem strcmp_eq_zero_imp_iff {filename name : CString} :
    (strcmp filename name = 0 → filename = name) ↔ DifferFromFirst filename name := by
  obtain rfl | hne := eq_or_ne filename name
  case inl => exact iff_of_true (fun _ => rfl) (.inl rfl)
  case inr =>
    obtain ⟨k, hk⟩ := exists_firstDiff (CString.char_injective.ne hne)
    by_cases hlen : k < filename.chars.length ∧ k < name.chars.length
    case neg =>
      refine iff_of_false (fun h => hne (h (strcmp_of_length_le hk (by omega)))) ?_
      rintro (heq | ⟨l, hl, ha, hb, -⟩)
      · exact hne heq
      · exact hlen (hk.unique hl ▸ ⟨ha, hb⟩)
    case pos =>
      rw [strcmp_of_lt hk hlen.1 hlen.2, Int.sub_eq_zero, Int8.toInt_inj]
      constructor
      · intro h
        exact .inr ⟨k, hk, hlen.1, hlen.2, .inr fun heq => hne (h heq)⟩
      · rintro (heq | ⟨l, hl, -, -, hfirst⟩) heq'
        · exact heq
        · obtain rfl := hl.unique hk
          obtain rfl | hfirst := hfirst
          · exact absurd heq' hk.ne
          · exact absurd heq' hfirst

end

/-- `strcmp` orders exactly the pairs of strings that differ around their first character, and the callbacks
record an entry's inode for their own name only exactly where the entry's name differs from that name's first
character. -/
theorem strcmp_orders_iff (a b filename : CString) :
    (StrcmpOrders a b ↔ DifferAroundFirst a b) ∧
    (((∃ inodeIno ino, readdirBoot filename inodeIno ino ≠ (1, ino)) → filename = bootName) ↔
      DifferFromFirst filename bootName) ∧
    (((∃ inodeIno ino, readdirKern filename inodeIno ino ≠ (1, ino)) → filename = kernelName) ↔
      DifferFromFirst filename kernelName) := by
  have hrecords (name : CString) :
      (∃ inodeIno ino, readdirFor name filename inodeIno ino ≠ (1, ino)) ↔ strcmp filename name = 0 := by
    constructor
    · rintro ⟨inodeIno, ino, h⟩
      by_contra hne
      exact h (if_neg hne)
    · intro h
      exact ⟨1, 0, by simp [readdirFor, h]⟩
  refine ⟨strcmpOrders_iff_differ, ?_, ?_⟩
  · exact (imp_congr_left (hrecords bootName)).trans strcmp_eq_zero_imp_iff
  · exact (imp_congr_left (hrecords kernelName)).trans strcmp_eq_zero_imp_iff

/-- `"boo"`. -/
def booName : CString := ⟨[98, 111, 111], by simp⟩

/-- An entry with that name is taken for `"boot"`. -/
theorem strcmp_prefix_eq_zero :
    ¬ StrcmpOrders booName bootName ∧ booName ≠ bootName ∧ readdirBoot booName 5 0 = (1, 5) := by
  have heq : strcmp booName bootName = 0 := by decide
  have hne : booName ≠ bootName := by decide
  exact ⟨fun h => hne (h.eq_zero.1 heq), hne, by decide⟩

end BanjOS
