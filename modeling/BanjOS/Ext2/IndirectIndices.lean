import BanjOS.Ext2.Blocks

/-!
# The indices of `read_inode_block`

`read_inode_block` with the 64-bit numbers of C. A run is logged: the branches it takes, the terms of its
subtractions and the indices it reads with. For every block size of ext2 nothing wraps, so that it does what
`readInodeBlock` does over numbers without a width, and all indices are in range (`readInodeBlock64_inRange`).
-/

namespace BanjOS

open ByteMem

/-! ## The code over 64-bit numbers -/

/-- The branches of `read_inode_block`. -/
inductive MapBranch
  | direct
  | singly
  | doubly
  | triply

/-- What a run of `read_inode_block` does with its numbers. -/
inductive IndexEvent
  /-- The body of a branch is entered. -/
  | branch (i : MapBranch)
  /-- `a - b` is computed. -/
  | sub (a b : BitVec 64)
  /-- `direct_blocks[k]` is read. -/
  | direct (k : BitVec 64)
  /-- `k` is used as an index into a block of pointers. -/
  | indirect (k : BitVec 64)

/-- Computations that are logged. -/
abbrev IndexM := StateM (List IndexEvent)

/-- Log an event. -/
def logIndex (e : IndexEvent) : IndexM Unit := modify (· ++ [e])

/-- `a - b`, which wraps when `b` is the larger one. -/
def loggedSub (a b : BitVec 64) : IndexM (BitVec 64) := do
  logIndex (.sub a b)
  return a - b

/-- `direct_blocks[k]`. -/
def loggedDirect (extIn : Ext2Inode) (k : BitVec 64) : IndexM Nat := do
  logIndex (.direct k)
  return if h : k.toNat < 12 then extIn.directBlocks ⟨k.toNat, h⟩ else 0

/-- `block[k]`, for a buffer of 32-bit block numbers. -/
def loggedPointer (block : Mem) (k : BitVec 64) : IndexM Nat := do
  logIndex (.indirect k)
  return pointerAt block k.toNat

/-- `read_inode_block` over 64-bit numbers: the contents of `dst` after it. `fresh` is what `kmalloc` left in the
scratch buffers. -/
def readInodeBlock64 (vsb : Ext2VfsSuperBlock) (extIn : Ext2Inode) (fresh : Mem) (block : BitVec 64) (dst : Mem) :
    IndexM Mem := do
  let numIndirectPer : BitVec 64 := .ofNat 64 vsb.blockSize / 4
  if block < 12 then
    logIndex (.branch .direct)
    let blockNum ← loggedDirect extIn block
    return (ext2ReadBlock vsb blockNum dst).2
  else if (← loggedSub block 12) < numIndirectPer then
    logIndex (.branch .singly)
    let indirectBlock := (ext2ReadBlock vsb extIn.singlyIndirectBlock fresh).2
    let blockNum ← loggedPointer indirectBlock (← loggedSub block 12)
    return (ext2ReadBlock vsb blockNum dst).2
  else if (← loggedSub (← loggedSub block 12) numIndirectPer) < numIndirectPer * numIndirectPer then
    logIndex (.branch .doubly)
    let off ← loggedSub (← loggedSub block 12) numIndirectPer
    let singleOff := off / numIndirectPer
    let doubleOff := off % numIndirectPer
    let indirectBlock := (ext2ReadBlock vsb extIn.singlyIndirectBlock fresh).2
    let blockNum ← loggedPointer indirectBlock singleOff
    let _indirecterBlock := (ext2ReadBlock vsb blockNum fresh).2
    let blockNum ← loggedPointer indirectBlock doubleOff
    return (ext2ReadBlock vsb blockNum dst).2
  else if (← loggedSub (← loggedSub (← loggedSub block 12) numIndirectPer) (numIndirectPer * numIndirectPer)) <
      numIndirectPer * numIndirectPer * numIndirectPer then
    logIndex (.branch .triply)
    let off ← loggedSub (← loggedSub (← loggedSub block 12) numIndirectPer) (numIndirectPer * numIndirectPer)
    let singleOff := off / (numIndirectPer * numIndirectPer)
    let doubleOff := off % (numIndirectPer * numIndirectPer)
    let tripleOff := doubleOff / numIndirectPer
    let quadOff := doubleOff % numIndirectPer
    let indirectBlock := (ext2ReadBlock vsb extIn.doublyIndirectBlock fresh).2
    let blockNum ← loggedPointer indirectBlock singleOff
    let indirecterBlock := (ext2ReadBlock vsb blockNum fresh).2
    let blockNum ← loggedPointer indirecterBlock tripleOff
    let _indirecterBlock := (ext2ReadBlock vsb blockNum indirecterBlock).2
    let blockNum ← loggedPointer indirectBlock quadOff
    return (ext2ReadBlock vsb blockNum dst).2
  else return dst

/-- The branches that a run takes. -/
def branchesOf (log : List IndexEvent) : List MapBranch := log.filterMap fun
  | .branch i => some i
  | _ => none

/-- With `n` pointers in a block: a subtraction does not wrap, and the indices are those of arrays of 12 and of `n`
elements. -/
def IndexEvent.InRange (n : Nat) : IndexEvent → Prop
  | .branch _ => True
  | .sub a b => b ≤ a
  | .direct k => k.toNat < 12
  | .indirect k => k.toNat < n

/-- All events are in range, one branch is taken iff the block is one that the pointers reach, and none otherwise. -/
structure IndicesInRange (n : Nat) (block : BitVec 64) (log : List IndexEvent) : Prop where
  inRange : ∀ e ∈ log, e.InRange n
  one_branch : (∃ i, branchesOf log = [i]) ↔ block.toNat < 12 + n + n ^ 2 + n ^ 3
  no_branch : branchesOf log = [] ↔ 12 + n + n ^ 2 + n ^ 3 ≤ block.toNat

section
variable {α β : Type} (log : List IndexEvent)

@[simp] theorem indexM_pure (a : α) : (pure a : IndexM α) log = (a, log) := rfl

@[simp] theorem indexM_bind (x : IndexM α) (f : α → IndexM β) : (x >>= f) log = f (x log).1 (x log).2 := rfl

@[simp] theorem indexM_ite (c : Prop) [Decidable c] (x y : IndexM α) :
    (if c then x else y) log = if c then x log else y log := by
  split <;> rfl

@[simp] theorem logIndex_apply (e : IndexEvent) : logIndex e log = ((), log ++ [e]) := rfl

theorem loggedSub_bind (a b : BitVec 64) (f : BitVec 64 → IndexM α) :
    (loggedSub a b >>= f) log = f (a - b) (log ++ [.sub a b]) := rfl

@[simp] theorem loggedPointer_apply (block : Mem) (k : BitVec 64) :
    loggedPointer block k log = (pointerAt block k.toNat, log ++ [.indirect k]) := rfl

theorem loggedDirect_apply (extIn : Ext2Inode) {k : BitVec 64} (hk : k.toNat < 12) :
    loggedDirect extIn k log = (extIn.directBlocks ⟨k.toNat, hk⟩, log ++ [.direct k]) := by
  simp [loggedDirect, hk]

end

/-! ## Nothing wraps -/

section
variable {vsb : Ext2VfsSuperBlock} {n : Nat}

/-- The pointers in a block, as the code counts them. -/
theorem toNat_numIndirectPer (hn : n ≤ 2 ^ 14) (hbs : vsb.blockSize = 4 * n) :
    (BitVec.ofNat 64 vsb.blockSize / 4).toNat = n := by
  rw [hbs, BitVec.toNat_udiv, BitVec.toNat_ofNat, Nat.mod_eq_of_lt (by omega)]
  exact Nat.mul_div_cancel_left n (by decide)

/-- The products of the range tests. -/
theorem toNat_squares {w : BitVec 64} (hw : w.toNat = n) (hn : n ≤ 2 ^ 14) :
    (w * w).toNat = n ^ 2 ∧ (w * w * w).toNat = n ^ 3 := by
  have hsq : n ^ 2 ≤ (2 ^ 14) ^ 2 := Nat.pow_le_pow_left hn 2
  have hcube : n ^ 2 * n ≤ (2 ^ 14) ^ 3 := Nat.pow_le_pow_left hn 3
  have hww : (w * w).toNat = n ^ 2 := by
    rw [BitVec.toNat_mul, hw, ← Nat.pow_two, Nat.mod_eq_of_lt (by omega)]
  refine ⟨hww, ?_⟩
  rw [BitVec.toNat_mul, hww, hw, Nat.mod_eq_of_lt (by omega)]
  rfl

end

/-- A range test that fails: the subtraction of the next test does not wrap. -/
theorem sub_of_not_lt {a b : BitVec 64} {x y : Nat} (ha : a.toNat = x) (hb : b.toNat = y) (h : ¬ a < b) :
    b ≤ a ∧ y ≤ x ∧ (a - b).toNat = x - y := by
  have hle : b ≤ a := BitVec.not_lt.1 h
  refine ⟨hle, ?_, ?_⟩
  · rwa [BitVec.le_def, ha, hb] at hle
  · rw [BitVec.toNat_sub_of_le hle, ha, hb]

section
variable {off w : BitVec 64} {n : Nat} (hw : w.toNat = n)
include hw

/-- The two indices of a doubly indirect block. -/
theorem doublyIndices_inRange (hoff : off.toNat < n ^ 2) :
    (IndexEvent.indirect (off / w)).InRange n ∧ (IndexEvent.indirect (off % w)).InRange n := by
  have hpos : 0 < n := Nat.pos_of_ne_zero fun h0 => by simp [h0] at hoff
  constructor
  · rw [IndexEvent.InRange, BitVec.toNat_udiv, hw]
    exact Nat.div_lt_of_lt_mul (by rwa [← Nat.pow_two])
  · rw [IndexEvent.InRange, BitVec.toNat_umod, hw]
    exact Nat.mod_lt _ hpos

/-- The three indices of a triply indirect block. -/
theorem triplyIndices_inRange (hsq : (w * w).toNat = n ^ 2) (hoff : off.toNat < n ^ 3) :
    (IndexEvent.indirect (off / (w * w))).InRange n ∧ (IndexEvent.indirect (off % (w * w) / w)).InRange n ∧
      (IndexEvent.indirect (off % (w * w) % w)).InRange n := by
  have hpos : 0 < n := Nat.pos_of_ne_zero fun h0 => by simp [h0] at hoff
  have hrest : (off % (w * w)).toNat < n ^ 2 := by
    rw [BitVec.toNat_umod, hsq]
    exact Nat.mod_lt _ (Nat.pow_pos hpos)
  refine ⟨?_, doublyIndices_inRange hw hrest⟩
  rw [IndexEvent.InRange, BitVec.toNat_udiv, hsq]
  exact Nat.div_lt_of_lt_mul (by rwa [← Nat.pow_succ])

end

section
variable {vsb : Ext2VfsSuperBlock} {extIn : Ext2Inode} {fresh dst : Mem} {block w : BitVec 64} {n : Nat}

/-- The branch of the direct blocks. -/
theorem readInodeBlock64_direct (h : block < 12) :
    readInodeBlock64 vsb extIn fresh block dst [] =
      ((readInodeBlock vsb extIn fresh block.toNat dst), [.branch .direct, .direct block]) := by
  have hlt : block.toNat < 12 := BitVec.lt_def.1 h
  rw [readInodeBlock64, readInodeBlock]
  dsimp only
  rw [if_pos h, dif_pos hlt]
  simp only [indexM_bind, indexM_pure, logIndex_apply, loggedDirect_apply _ extIn hlt]
  rfl

variable (hw : BitVec.ofNat 64 vsb.blockSize / 4 = w) (h₀ : ¬ block < 12)
include hw h₀

/-- The branch of the singly indirect block. -/
theorem readInodeBlock64_singly (h₁ : block - 12 < w) :
    readInodeBlock64 vsb extIn fresh block dst [] =
      ((ext2ReadBlock vsb (pointerAt (ext2ReadBlock vsb extIn.singlyIndirectBlock fresh).2
        (block - 12).toNat) dst).2,
      [.sub block 12, .branch .singly, .sub block 12, .indirect (block - 12)]) := by
  rw [readInodeBlock64]
  dsimp only
  simp only [hw, indexM_ite, loggedSub_bind]
  rw [if_neg h₀, if_pos h₁]
  rfl

variable (h₁ : ¬ block - 12 < w)
include h₁

/-- The branch of the doubly indirect block. -/
theorem readInodeBlock64_doubly (h₂ : block - 12 - w < w * w) :
    readInodeBlock64 vsb extIn fresh block dst [] =
      ((ext2ReadBlock vsb (pointerAt (ext2ReadBlock vsb extIn.singlyIndirectBlock fresh).2
        ((block - 12 - w) % w).toNat) dst).2,
      [.sub block 12, .sub block 12, .sub (block - 12) w, .branch .doubly, .sub block 12, .sub (block - 12) w,
        .indirect ((block - 12 - w) / w), .indirect ((block - 12 - w) % w)]) := by
  rw [readInodeBlock64]
  dsimp only
  simp only [hw, indexM_ite, loggedSub_bind]
  rw [if_neg h₀, if_neg h₁, if_pos h₂]
  rfl

variable (h₂ : ¬ block - 12 - w < w * w)
include h₂

/-- The branch of the triply indirect block. -/
theorem readInodeBlock64_triply (h₃ : block - 12 - w - w * w < w * w * w) :
    readInodeBlock64 vsb extIn fresh block dst [] =
      ((ext2ReadBlock vsb (pointerAt (ext2ReadBlock vsb extIn.doublyIndirectBlock fresh).2
        ((block - 12 - w - w * w) % (w * w) % w).toNat) dst).2,
      [.sub block 12, .sub block 12, .sub (block - 12) w, .sub block 12, .sub (block - 12) w,
        .sub (block - 12 - w) (w * w), .branch .triply, .sub block 12, .sub (block - 12) w, .sub (block - 12 - w) (w * w),
        .indirect ((block - 12 - w - w * w) / (w * w)), .indirect ((block - 12 - w - w * w) % (w * w) / w),
        .indirect ((block - 12 - w - w * w) % (w * w) % w)]) := by
  rw [readInodeBlock64]
  dsimp only
  simp only [hw, indexM_ite, loggedSub_bind]
  rw [if_neg h₀, if_neg h₁, if_neg h₂, if_pos h₃]
  rfl

/-- No branch. -/
theorem readInodeBlock64_beyond (h₃ : ¬ block - 12 - w - w * w < w * w * w) :
    readInodeBlock64 vsb extIn fresh block dst [] =
      (dst, [.sub block 12, .sub block 12, .sub (block - 12) w, .sub block 12, .sub (block - 12) w,
        .sub (block - 12 - w) (w * w)]) := by
  rw [readInodeBlock64]
  dsimp only
  simp only [hw, indexM_ite, loggedSub_bind]
  rw [if_neg h₀, if_neg h₁, if_neg h₂, if_neg h₃]
  rfl

end

/-- A run that takes one branch. -/
theorem IndicesInRange.of_branch {n : Nat} {block : BitVec 64} {log : List IndexEvent} {i : MapBranch}
    (hbranch : branchesOf log = [i]) (hlt : block.toNat < 12 + n + n ^ 2 + n ^ 3)
    (hok : ∀ e ∈ log, e.InRange n) : IndicesInRange n block log where
  inRange := hok
  one_branch := iff_of_true ⟨i, hbranch⟩ hlt
  no_branch := iff_of_false (by rw [hbranch]; exact List.cons_ne_nil _ _) (Nat.not_le_of_lt hlt)

/-- For every block size that holds a power of two between 256 and 2^14 of pointers and every 64-bit block index,
the subtractions of `read_inode_block` do not wrap, the branches are those of the blocks that the pointers reach
and the indices are in range. So it does what it does over numbers without a width. -/
theorem readInodeBlock64_inRange {vsb : Ext2VfsSuperBlock} {e : Nat} (hlow : 256 ≤ 2 ^ e) (hhigh : 2 ^ e ≤ 2 ^ 14)
    (hbs : vsb.blockSize = 4 * 2 ^ e) (extIn : Ext2Inode) (fresh : Mem) (block : BitVec 64) (dst : Mem) :
    IndicesInRange (2 ^ e) block (readInodeBlock64 vsb extIn fresh block dst []).2 ∧
      (readInodeBlock64 vsb extIn fresh block dst []).1 = readInodeBlock vsb extIn fresh block.toNat dst := by
  generalize 2 ^ e = n at *
  obtain ⟨w, hw⟩ : ∃ w, BitVec.ofNat 64 vsb.blockSize / 4 = w := ⟨_, rfl⟩
  have hn : w.toNat = n := hw ▸ toNat_numIndirectPer hhigh hbs
  have hdiv : vsb.blockSize / 4 = n := by omega
  obtain ⟨hsq, hcube⟩ := toNat_squares hn hhigh
  by_cases h₀ : block < 12
  case pos =>
    have hlt : block.toNat < 12 := BitVec.lt_def.1 h₀
    rw [readInodeBlock64_direct h₀]
    refine ⟨.of_branch rfl (by omega) ?_, rfl⟩
    simpa [IndexEvent.InRange] using hlt
  case neg =>
  obtain ⟨hle₀, hb₀, hoff₀⟩ := sub_of_not_lt rfl (show BitVec.toNat 12 = 12 from rfl) h₀
  by_cases h₁ : block - 12 < w
  case pos =>
    have hlt : block.toNat - 12 < n := by rwa [← hoff₀, ← hn, ← BitVec.lt_def]
    have hindex : (IndexEvent.indirect (block - 12)).InRange n := by rwa [IndexEvent.InRange, hoff₀]
    rw [readInodeBlock64_singly hw h₀ h₁]
    refine ⟨.of_branch rfl (by omega) ?_, ?_⟩
    · simp only [List.forall_mem_cons]
      exact ⟨hle₀, trivial, hle₀, hindex, List.forall_mem_nil _⟩
    · rw [readInodeBlock, dif_neg (by omega), hdiv, if_pos hlt, hoff₀]
  case neg =>
  obtain ⟨hle₁, hb₁, hoff₁⟩ := sub_of_not_lt hoff₀ hn h₁
  by_cases h₂ : block - 12 - w < w * w
  case pos =>
    have hlt : block.toNat - 12 - n < n ^ 2 := by rwa [← hoff₁, ← hsq, ← BitVec.lt_def]
    obtain ⟨hsingle, hdouble⟩ := doublyIndices_inRange hn (hoff₁ ▸ hlt)
    rw [readInodeBlock64_doubly hw h₀ h₁ h₂]
    refine ⟨.of_branch rfl (by omega) ?_, ?_⟩
    · simp only [List.forall_mem_cons]
      exact ⟨hle₀, hle₀, hle₁, trivial, hle₀, hle₁, hsingle, hdouble, List.forall_mem_nil _⟩
    · rw [readInodeBlock, dif_neg (by omega), hdiv, if_neg (by omega), if_pos (by rwa [← Nat.pow_two]),
        BitVec.toNat_umod, hoff₁, hn]
  case neg =>
  obtain ⟨hle₂, hb₂, hoff₂⟩ := sub_of_not_lt hoff₁ hsq h₂
  have hnat : readInodeBlock vsb extIn fresh block.toNat dst = if block.toNat - 12 - n - n ^ 2 < n ^ 3 then
      (ext2ReadBlock vsb (pointerAt (ext2ReadBlock vsb extIn.doublyIndirectBlock fresh).2
        ((block.toNat - 12 - n - n ^ 2) % n ^ 2 % n)) dst).2 else dst := by
    rw [readInodeBlock, dif_neg (by omega), hdiv, if_neg (by omega)]
    simp only [← Nat.pow_two]
    rw [if_neg (by omega)]
    rfl
  by_cases h₃ : block - 12 - w - w * w < w * w * w
  case pos =>
    have hlt : block.toNat - 12 - n - n ^ 2 < n ^ 3 := by rwa [← hoff₂, ← hcube, ← BitVec.lt_def]
    obtain ⟨hsingle, htriple, hquad⟩ := triplyIndices_inRange hn hsq (hoff₂ ▸ hlt)
    rw [readInodeBlock64_triply hw h₀ h₁ h₂ h₃, hnat, if_pos hlt]
    refine ⟨.of_branch rfl (by omega) ?_, ?_⟩
    · simp only [List.forall_mem_cons]
      exact ⟨hle₀, hle₀, hle₁, hle₀, hle₁, hle₂, trivial, hle₀, hle₁, hle₂, hsingle, htriple, hquad,
        List.forall_mem_nil _⟩
    · rw [BitVec.toNat_umod, BitVec.toNat_umod, hoff₂, hsq, hn]
  case neg =>
  obtain ⟨-, hb₃, -⟩ := sub_of_not_lt hoff₂ hcube h₃
  rw [readInodeBlock64_beyond hw h₀ h₁ h₂ h₃, hnat, if_neg (by omega)]
  refine ⟨⟨?_, iff_of_false (by simp [branchesOf]) (by omega), iff_of_true rfl (by omega)⟩, rfl⟩
  simp only [List.forall_mem_cons]
  exact ⟨hle₀, hle₀, hle₁, hle₀, hle₁, hle₂, List.forall_mem_nil _⟩

/-- The last block that the pointers reach when blocks have 1 KiB, and the one after it. -/
theorem readInodeBlock64_inRange_1024 :
    IndicesInRange (2 ^ 8) 16843019
      (readInodeBlock64 (linkDisk 1024) linkInode (fun _ => 0) 16843019 (fun _ => 0) []).2 ∧
    IndicesInRange (2 ^ 8) 16843020
      (readInodeBlock64 (linkDisk 1024) linkInode (fun _ => 0) 16843020 (fun _ => 0) []).2 :=
  ⟨(readInodeBlock64_inRange (by decide) (by decide) rfl linkInode _ 16843019 _).1,
    (readInodeBlock64_inRange (by decide) (by decide) rfl linkInode _ 16843020 _).1⟩

end BanjOS
