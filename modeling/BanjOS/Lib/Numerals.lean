import Mathlib.Algebra.Order.Group.Nat

/-!
# Positional numerals

Words over a `DigitAlphabet` are read as numbers from their first character on, a sign before them gives the
negative numbers. A word without a leading zero is the shortest one of its number, and the only one of its
length (`DigitAlphabet.isShortest_natCast`, `DigitAlphabet.isShortest_neg`).
-/

/-- Characters for the digits of base `b`. -/
structure DigitAlphabet (α : Type) (b : Nat) where
  /-- The digit that a character stands for. -/
  digit : α → Option Nat
  /-- The character of a digit. -/
  char : Nat → α
  digit_eq_some {c : α} {d : Nat} : digit c = some d ↔ d < b ∧ char d = c

namespace DigitAlphabet

variable {α : Type} {b : Nat} (A : DigitAlphabet α b)

/-- The value of a word after characters of value `v`. -/
def valueFrom : (v : Nat) → List α → Option Nat
  | v, [] => some v
  | v, c :: l => (A.digit c).bind fun d => valueFrom (b * v + d) l

/-- The value of a word of one digit or more. -/
def value : List α → Option Nat
  | [] => none
  | c :: l => A.valueFrom 0 (c :: l)

section
variable [DecidableEq α] (minus : α)

/-- The value of a word that may have a sign. -/
def intValue : List α → Option Int
  | [] => none
  | c :: l =>
    if c = minus then (A.value l).map fun n : Nat => -(n : Int)
    else (A.value (c :: l)).map fun n : Nat => (n : Int)

/-- A word without its sign. -/
def digitsOf : List α → List α
  | [] => []
  | c :: l => if c = minus then l else c :: l

/-- `l` is the numeral of `z` without a leading zero, which is the shortest one. -/
structure IsShortest (l : List α) (z : Int) : Prop where
  value : A.intValue minus l = some z
  no_leading_zero : (digitsOf minus l).head? = some (A.char 0) → l = [A.char 0]
  shortest : ∀ l', A.intValue minus l' = some z → l.length < l'.length ∨ l' = l

end

variable {A} {l l' : List α} {c : α} {d n v v' : Nat}

/-! ## Reading -/

theorem digit_char (hd : d < b) : A.digit (A.char d) = some d := A.digit_eq_some.2 ⟨hd, rfl⟩

theorem valueFrom_cons : A.valueFrom v (c :: l) = some n ↔
    ∃ d, d < b ∧ A.char d = c ∧ A.valueFrom (b * v + d) l = some n := by
  rw [valueFrom, Option.bind_eq_some_iff]
  simp only [A.digit_eq_some, and_assoc]

theorem valueFrom_append : A.valueFrom v (l ++ l') = (A.valueFrom v l).bind fun v' => A.valueFrom v' l' := by
  induction l generalizing v with
  | nil => rfl
  | cons c l ih =>
    rw [List.cons_append, valueFrom, valueFrom, Option.bind_assoc]
    simp only [ih]

theorem value_eq_some : A.value l = some n ↔ l ≠ [] ∧ A.valueFrom 0 l = some n := by
  cases l with
  | nil => exact ⟨nofun, fun h => absurd rfl h.1⟩
  | cons c l => exact ⟨fun h => ⟨List.cons_ne_nil c l, h⟩, And.right⟩

theorem value_singleton (hd : d < b) : A.value [A.char d] = some d :=
  valueFrom_cons.2 ⟨d, hd, rfl, by rw [valueFrom, Nat.mul_zero, Nat.zero_add]⟩

/-- One digit more. -/
theorem value_concat (h : A.value l = some n) (hd : d < b) : A.value (l ++ [A.char d]) = some (b * n + d) := by
  rcases value_eq_some.1 h with ⟨-, hl⟩
  rw [value_eq_some, valueFrom_append, hl]
  exact ⟨List.append_ne_nil_of_right_ne_nil _ (List.cons_ne_nil _ _), valueFrom_cons.2 ⟨d, hd, rfl, rfl⟩⟩

/-! ## Lengths -/

/-- The digits of a word do not carry into what stands before it. -/
theorem valueFrom_bounds (h : A.valueFrom v l = some n) : v * b ^ l.length ≤ n ∧ n < (v + 1) * b ^ l.length := by
  induction l generalizing v with
  | nil =>
    cases h
    simp
  | cons c l ih =>
    rcases valueFrom_cons.1 h with ⟨d, hd, -, hl⟩
    rcases ih hl with ⟨hlow, hhigh⟩
    have hcarry : (b * v + d + 1) * b ^ l.length ≤ (b * (v + 1)) * b ^ l.length :=
      Nat.mul_le_mul_right _ (by rw [Nat.mul_succ]; omega)
    have hdigit : b * v * b ^ l.length ≤ (b * v + d) * b ^ l.length := Nat.mul_le_mul_right _ (Nat.le_add_right _ _)
    rw [List.length_cons, Nat.pow_succ', ← Nat.mul_assoc, ← Nat.mul_assoc, Nat.mul_comm v, Nat.mul_comm (v + 1)]
    exact ⟨hdigit.trans hlow, hhigh.trans_le hcarry⟩

theorem lt_pow_of_value (h : A.value l = some n) : n < b ^ l.length := by
  have hbound := (valueFrom_bounds (value_eq_some.1 h).2).2
  rwa [Nat.zero_add, Nat.one_mul] at hbound

/-- A leading digit other than zero makes the number as large as its length allows. -/
theorem pow_le_of_value (h : A.value (c :: l) = some n) (hc : c ≠ A.char 0) : 0 < b ∧ b ^ l.length ≤ n := by
  rcases valueFrom_cons.1 h with ⟨d, hd, rfl, hl⟩
  have hpos : 0 < d := Nat.pos_of_ne_zero fun h => hc (by rw [h])
  have hlow := (valueFrom_bounds hl).1
  rw [Nat.mul_zero, Nat.zero_add] at hlow
  exact ⟨hpos.trans hd, (Nat.le_mul_of_pos_left _ hpos).trans hlow⟩

/-- Words of the same length and value are the same. -/
theorem valueFrom_inj (h : A.valueFrom v l = some n) (h' : A.valueFrom v' l' = some n)
    (hlen : l.length = l'.length) : v = v' ∧ l = l' := by
  induction l generalizing v v' l' with
  | nil =>
    cases List.eq_nil_of_length_eq_zero hlen.symm
    exact ⟨Option.some_inj.1 (h.trans h'.symm), rfl⟩
  | cons c l ih =>
    rcases List.exists_cons_of_length_eq_add_one hlen.symm with ⟨c', l', rfl⟩
    rcases valueFrom_cons.1 h with ⟨d, hd, rfl, hl⟩
    rcases valueFrom_cons.1 h' with ⟨d', hd', rfl, hl'⟩
    rcases ih hl hl' (Nat.succ.inj hlen) with ⟨hv, rfl⟩
    have hdigit : d = d' := by
      have hmod := congrArg (· % b) hv
      simpa only [Nat.mul_add_mod, Nat.mod_eq_of_lt hd, Nat.mod_eq_of_lt hd'] using hmod
    subst hdigit
    exact ⟨Nat.eq_of_mul_eq_mul_left (Nat.zero_lt_of_lt hd) (Nat.add_right_cancel hv), rfl⟩

/-- A word without a leading zero is the shortest one of its number. -/
theorem length_lt_or_eq (h : A.value l = some n) (hzero : l.head? = some (A.char 0) → l = [A.char 0])
    (h' : A.value l' = some n) : l.length < l'.length ∨ l' = l := by
  have hle : l.length ≤ l'.length := by
    rcases value_eq_some.1 h' with ⟨hne, -⟩
    cases l with
    | nil => cases h
    | cons c l =>
      rcases em (c = A.char 0) with rfl | hc
      · rw [hzero rfl]
        exact List.length_pos_iff.2 hne
      · rcases pow_le_of_value h hc with ⟨hb, hlow⟩
        refine Nat.lt_of_not_le fun hlen => ?_
        have hpow : b ^ l'.length ≤ b ^ l.length := Nat.pow_le_pow_right hb hlen
        exact absurd (lt_pow_of_value h') (Nat.not_lt_of_le (hpow.trans hlow))
  rcases Nat.lt_or_eq_of_le hle with hlt | heq
  · exact .inl hlt
  · exact .inr (valueFrom_inj (value_eq_some.1 h').2 (value_eq_some.1 h).2 heq.symm).2

/-! ## Signs -/

/-- A word without a sign starts with a digit. -/
theorem head_ne_minus {minus : α} (hminus : A.digit minus = none) (h : A.value l = some n) :
    l.head? ≠ some minus := by
  cases l with
  | nil => cases h
  | cons c l =>
    rcases valueFrom_cons.1 h with ⟨d, hd, rfl, -⟩
    intro hc
    rw [← Option.some_inj.1 hc, digit_char hd] at hminus
    cases hminus

section
variable [DecidableEq α] {minus : α}

/-- What is read as an integer has a sign or none. -/
theorem intValue_eq_some {z : Int} : A.intValue minus l = some z ↔
    (∃ l₁ n, l = minus :: l₁ ∧ A.value l₁ = some n ∧ -(n : Int) = z) ∨
    ∃ n, l.head? ≠ some minus ∧ A.value l = some n ∧ (n : Int) = z := by
  cases l with
  | nil => simp [intValue, value]
  | cons c l =>
    rw [intValue]
    split
    case isTrue h => simp [h]
    case isFalse h => simp [h]

/-- A number without a sign. -/
theorem isShortest_natCast (hminus : A.digit minus = none) (h : A.value l = some n)
    (hzero : l.head? = some (A.char 0) → l = [A.char 0]) :
    A.IsShortest minus l n where
  value := intValue_eq_some.2 (.inr ⟨n, head_ne_minus hminus h, h, rfl⟩)
  no_leading_zero hhead := by
    refine hzero ?_
    have hsign := head_ne_minus hminus h
    cases l with
    | nil => cases h
    | cons c l => rwa [digitsOf, if_neg fun hc => hsign (congrArg some hc)] at hhead
  shortest l' h' := by
    rcases intValue_eq_some.1 h' with ⟨l₁, m, rfl, hl₁, hm⟩ | ⟨m, -, hl', hm⟩
    · -- A sign before zero.
      obtain ⟨rfl, rfl⟩ : m = 0 ∧ n = 0 := by omega
      rcases length_lt_or_eq h hzero hl₁ with hlt | rfl
      · exact .inl (hlt.trans (Nat.lt_succ_self _))
      · exact .inl (Nat.lt_succ_self _)
    · rw [Int.natCast_inj] at hm
      exact length_lt_or_eq h hzero (hm ▸ hl')

/-- A number with a sign. -/
theorem isShortest_neg (h : A.value l = some n) (hn : 0 < n) (hzero : l.head? = some (A.char 0) → l = [A.char 0]) :
    A.IsShortest minus (minus :: l) (-n) where
  value := intValue_eq_some.2 (.inl ⟨l, n, rfl, h, rfl⟩)
  no_leading_zero hhead := by
    rw [digitsOf, if_pos rfl] at hhead
    -- The word would be that of zero.
    rw [hzero hhead] at h
    rcases valueFrom_cons.1 h with ⟨d, hd, -, -⟩
    rw [value_singleton (Nat.zero_lt_of_lt hd)] at h
    cases h
    cases hn
  shortest l' h' := by
    rcases intValue_eq_some.1 h' with ⟨l₁, m, rfl, hl₁, hm⟩ | ⟨m, -, -, hm⟩
    · obtain rfl : m = n := by omega
      rcases length_lt_or_eq h hzero hl₁ with hlt | rfl
      · exact .inl (Nat.succ_lt_succ hlt)
      · exact .inr rfl
    · omega

end

end DigitAlphabet
