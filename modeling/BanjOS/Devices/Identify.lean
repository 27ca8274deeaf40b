import BanjOS.Basic
import BanjOS.Lib.Polling

/-!
# The size of a drive

`dev_identify` (`block_device.c`): after the IDENTIFY command it waits for the drive, reads the 256 words that
describe it and makes the number of sectors of words 100 to 103, the lowest one first. The loop over these
words shifts by 8 where the words have 16 bits, and begins one word too high. So neighbouring words overlap,
and the number is right only for words whose bytes happen to agree (`devIdentify_iff`).
-/

namespace BanjOS

/-- `STATUS_ERR`. -/
abbrev statusErr : UInt8 := 0x01

/-- `STATUS_DRQ`. -/
abbrev statusDrq : UInt8 := 0x08

/-- `STATUS_BSY`. -/
abbrev statusBsy : UInt8 := 0x80

/-- The last loop of `dev_identify` from the word `99 + n` down to word 100. -/
def foldSectors (block : Nat → UInt16) : (n sectors : Nat) → Nat
  | 0, sectors => sectors
  | n + 1, sectors => foldSectors block n (((sectors <<< 8) % 2 ^ 64) ||| (block (100 + n)).toNat)

/-- `dev_identify`, for a drive with these values of the status register, one for each read, and these words
in the data register. `none` if a loop reads the status more than `fuel` times. -/
def devIdentify (status : Nat → UInt8) (block : Nat → UInt16) (fuel : Nat) : Option (Except Stop Nat) :=
  if status 0 = 0 then some (.error (.assertion "status != 0 && \"ATA Device wasn't present actually\""))
  else do
    let i ← waitWhile (fun s => s &&& statusBsy != 0) status fuel 0
    let i ← waitWhile (fun s => s &&& (statusDrq ||| statusErr) == 0) status fuel i
    if status i &&& statusErr ≠ 0 then
      some (.error (.assertion "!(status & STATUS_ERR) && \"Error when reading IDENTIFY data\""))
    else some (.ok (foldSectors block 5 0))

/-- A drive that answers: it is there, after some reads it is no longer busy, and after some more it has data
and no error. -/
structure DriveAnswers (status : Nat → UInt8) : Prop where
  present : status 0 ≠ 0
  data : ∃ i j, i ≤ j ∧ (∀ k, k < i → status k &&& statusBsy ≠ 0) ∧ status i &&& statusBsy = 0 ∧
    (∀ k, i ≤ k → k < j → status k &&& (statusDrq ||| statusErr) = 0) ∧
    status j &&& (statusDrq ||| statusErr) ≠ 0 ∧ status j &&& statusErr = 0

/-- `dev_identify` returns `sectors` for these words, however long the drive takes. -/
def Identifies (block : Nat → UInt16) (sectors : Nat) : Prop :=
  ∀ status, DriveAnswers status → ∃ fuel, devIdentify status block fuel = some (.ok sectors)

/-- The number of sectors that words 100 to 103 hold. -/
def identifySectors (block : Nat → UInt16) : Nat :=
  (block 100).toNat + 2 ^ 16 * (block 101).toNat + 2 ^ 32 * (block 102).toNat + 2 ^ 48 * (block 103).toNat

/-- The words whose bytes are the same where the loop puts one over the other. -/
structure OverlapsAgree (block : Nat → UInt16) : Prop where
  word_104 : (block 104).toNat = (block 102).toNat
  upper_101 : (block 101).toNat / 2 ^ 8 = (block 102).toNat / 2 ^ 8
  lower_101 : (block 101).toNat % 2 ^ 8 = (block 102).toNat % 2 ^ 8 ||| (block 101).toNat / 2 ^ 8
  upper_100 : (block 100).toNat / 2 ^ 8 = (block 101).toNat % 2 ^ 8 ||| (block 100).toNat / 2 ^ 8

section
variable {block : Nat → UInt16} {status : Nat → UInt8} {sectors : Nat}

/-- With enough fuel `dev_identify` returns for a drive that answers. -/
theorem DriveAnswers.returns (h : DriveAnswers status) (block : Nat → UInt16) :
    ∃ fuel, devIdentify status block fuel = some (.ok (foldSectors block 5 0)) := by
  obtain ⟨i, j, hij, hbusy, hi, hwait, hj, herr⟩ := h.data
  refine ⟨j + 1, ?_⟩
  have h₁ : waitWhile (fun s => s &&& statusBsy != 0) status (j + 1) 0 = some i :=
    waitWhile_eq_some_iff.2 ⟨Nat.zero_le _, by omega, fun k _ hk => by simpa using hbusy k hk, by simpa using hi⟩
  have h₂ : waitWhile (fun s => s &&& (statusDrq ||| statusErr) == 0) status (j + 1) i = some j :=
    waitWhile_eq_some_iff.2 ⟨hij, by omega, fun k hk hkj => by simpa using hwait k hk hkj, by simpa using hj⟩
  simp only [devIdentify, if_neg h.present, h₁, h₂, Option.bind_eq_bind, Option.bind_some, herr, ne_eq,
    not_true, if_false]

/-- A result is what the last loop makes of the words. -/
theorem devIdentify_ok {fuel : Nat} (h : devIdentify status block fuel = some (.ok sectors)) :
    foldSectors block 5 0 = sectors := by
  rw [devIdentify] at h
  split at h
  case isTrue => cases h
  case isFalse =>
    obtain ⟨i, -, h⟩ := Option.bind_eq_some_iff.1 h
    obtain ⟨j, -, h⟩ := Option.bind_eq_some_iff.1 h
    split at h
    case isTrue => cases h
    case isFalse => exact Except.ok.inj (Option.some.inj h)

/-- So the drive does not matter. -/
theorem identifies_iff : Identifies block sectors ↔ foldSectors block 5 0 = sectors := by
  constructor
  · intro h
    -- a drive that is ready at once
    have hready : DriveAnswers fun _ => 0x48 :=
      ⟨by decide, 0, 0, Nat.le_refl _, fun k hk => absurd hk (Nat.not_lt_zero k), by decide,
        fun k _ hk => absurd hk (Nat.not_lt_zero k), by decide, by decide⟩
    obtain ⟨fuel, hfuel⟩ := h _ hready
    exact devIdentify_ok hfuel
  · rintro rfl status hs
    obtain ⟨fuel, hret⟩ := hs.returns block
    exact ⟨fuel, hret⟩

/-- Shifting up by a byte and putting a word over it. -/
theorem shiftLeft_or_eq (x w : Nat) : x <<< 8 ||| w = (x ||| w / 2 ^ 8) * 2 ^ 8 + w % 2 ^ 8 := by
  have hdiv : (x <<< 8 ||| w) / 2 ^ 8 = x ||| w / 2 ^ 8 := by
    rw [Nat.or_div_two_pow, Nat.shiftLeft_eq, Nat.mul_div_cancel _ (by decide)]
  have hmod : (x <<< 8 ||| w) % 2 ^ 8 = w % 2 ^ 8 := by
    rw [Nat.or_mod_two_pow, Nat.shiftLeft_eq, Nat.mul_mod_left, Nat.zero_or]
  rw [← hdiv, ← hmod, Nat.div_add_mod']

/-- Putting a byte over the lowest byte. -/
theorem mul_add_or {x l b : Nat} (hl : l < 2 ^ 8) (hb : b < 2 ^ 8) :
    (x * 2 ^ 8 + l) ||| b = x * 2 ^ 8 + (l ||| b) := by
  have hdiv : ((x * 2 ^ 8 + l) ||| b) / 2 ^ 8 = x := by
    rw [Nat.or_div_two_pow, Nat.div_eq_of_lt hb, Nat.or_zero, Nat.mul_comm, Nat.mul_add_div (by decide),
      Nat.div_eq_of_lt hl, Nat.add_zero]
  have hmod : ((x * 2 ^ 8 + l) ||| b) % 2 ^ 8 = l ||| b := by
    rw [Nat.or_mod_two_pow, Nat.mul_add_mod', Nat.mod_eq_of_lt hl, Nat.mod_eq_of_lt hb]
  rw [← Nat.div_add_mod' ((x * 2 ^ 8 + l) ||| b) (2 ^ 8), hdiv, hmod]

/-- One turn of the loop where nothing is shifted out: the upper byte of the word goes over the lowest byte of
what is there. -/
theorem foldSectors_succ {n i x l : Nat} (hi : 100 + n = i) (hx : x < 2 ^ 40) (hl : l < 2 ^ 8) :
    foldSectors block (n + 1) (x * 2 ^ 8 + l) = foldSectors block n
      ((x * 2 ^ 8 + (l ||| (block i).toNat / 2 ^ 8)) * 2 ^ 8 + (block i).toNat % 2 ^ 8) := by
  subst hi
  have hword := (block (100 + n)).toNat_lt
  rw [foldSectors, Nat.mod_eq_of_lt (by rw [Nat.shiftLeft_eq]; omega), shiftLeft_or_eq,
    mul_add_or hl (by omega)]

omit block in
/-- The upper byte of a word over the lower byte of another one. -/
theorem overlap_lt (v w : UInt16) : v.toNat % 2 ^ 8 ||| w.toNat / 2 ^ 8 < 2 ^ 8 := by
  have hw := w.toNat_lt
  exact Nat.or_lt_two_pow (by omega) (by omega)

/-- What the loop makes of the words when word 103 is zero: six bytes, where those of word 104 come first, and word
103 leaves no trace. -/
theorem foldSectors_eq (h103 : block 103 = 0) : foldSectors block 5 0 =
    2 ^ 32 * (block 104).toNat + 2 ^ 24 * ((block 102).toNat / 2 ^ 8) +
      2 ^ 16 * ((block 102).toNat % 2 ^ 8 ||| (block 101).toNat / 2 ^ 8) +
      2 ^ 8 * ((block 101).toNat % 2 ^ 8 ||| (block 100).toNat / 2 ^ 8) + (block 100).toNat % 2 ^ 8 := by
  have h₀ := (block 100).toNat_lt
  have h₁ := (block 101).toNat_lt
  have h₂ := (block 102).toNat_lt
  have h₄ := (block 104).toNat_lt
  have hor₁ := overlap_lt (block 102) (block 101)
  have hor₀ := overlap_lt (block 101) (block 100)
  have hfirst : foldSectors block 5 0 = foldSectors block 3 ((block 104).toNat * 2 ^ 8 + 0) := by
    rw [foldSectors, foldSectors, h103, Nat.zero_shiftLeft, Nat.zero_mod, Nat.zero_or, Nat.shiftLeft_eq,
      Nat.mod_eq_of_lt (show (block 104).toNat * 2 ^ 8 < 2 ^ 64 by omega), UInt16.toNat_zero, Nat.or_zero,
      Nat.add_zero]
  rw [hfirst, foldSectors_succ (n := 2) (i := 102) rfl (by omega) (by decide), Nat.zero_or,
    foldSectors_succ (n := 1) (i := 101) rfl (by omega) (by omega),
    foldSectors_succ (n := 0) (i := 100) rfl (by omega) (by omega), foldSectors]
  omega

/-- The loop makes the right number of the words exactly where the overlaps agree. -/
theorem foldSectors_eq_iff (h103 : block 103 = 0) :
    foldSectors block 5 0 = identifySectors block ↔ OverlapsAgree block := by
  have h₀ := (block 100).toNat_lt
  have h₁ := (block 101).toNat_lt
  have h₂ := (block 102).toNat_lt
  have h₄ := (block 104).toNat_lt
  have hor₁ := overlap_lt (block 102) (block 101)
  have hor₀ := overlap_lt (block 101) (block 100)
  have hlow : (block 103).toNat = 0 := by rw [h103]; rfl
  rw [foldSectors_eq h103, identifySectors, hlow]
  constructor
  · intro h
    constructor <;> omega
  · rintro ⟨hw, hu₁, hl₁, hu₀⟩
    omega

end

/-- For every block of IDENTIFY data whose words 100 to 103 hold a number of sectors below `2 ^ 48`:
`dev_identify` returns that number iff the words agree where the loop puts them over each other. -/
theorem devIdentify_iff {block : Nat → UInt16} {sectors : Nat} (hwords : identifySectors block = sectors)
    (hlt : sectors < 2 ^ 48) : Identifies block sectors ↔ OverlapsAgree block := by
  have h103 : block 103 = 0 := by
    rw [← hwords, identifySectors] at hlt
    exact UInt16.toNat_inj.1 (by rw [UInt16.toNat_zero]; omega)
  rw [identifies_iff, ← hwords, foldSectors_eq_iff h103]

/-- A drive of 1000 sectors, which fit in word 100. -/
theorem devIdentify_1000_sectors : Identifies (fun i => if i = 100 then 1000 else 0) 1000 :=
  (devIdentify_iff rfl (by decide)).2 ⟨by decide, by decide, by decide, by decide⟩

/-- A drive of 65536 sectors is taken for one of 256. -/
theorem devIdentify_65536_sectors : identifySectors (fun i => if i = 101 then 1 else 0) = 65536 ∧
    devIdentify (fun _ => 0x48) (fun i => if i = 101 then 1 else 0) 1 = some (.ok 256) ∧
    ¬ Identifies (fun i => if i = 101 then 1 else 0) 65536 := by
  refine ⟨by decide, by decide, fun h => ?_⟩
  exact absurd (identifies_iff.1 h) (by decide)

end BanjOS
