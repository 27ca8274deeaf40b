import BanjOS.Ext2.FileRead

/-!
# Mounting an ext2 file system

`ext2_probe` with `mbr_init`, `ext2_superblock_init`, `ext2_vfs_superblock_init` and `read_inode` (`ext2.c` and
`mbr.c`), from the sectors of a device to the superblock in memory and the inodes read through it. The code
divides by fields of the superblock, so a division by zero is a result of its own (`CpuFault`). `fresh` is
what `kmalloc` leaves in the buffers.
-/

namespace BanjOS

open ByteMem

/-! ## Division -/

/-- An exception of the processor. -/
inductive CpuFault
  | divideError
  deriving DecidableEq, Repr

/-- `a / b` of unsigned integers. -/
def udiv (a b : Nat) : Except CpuFault Nat := if b = 0 then .error .divideError else .ok (a / b)

/-- `a % b` of unsigned integers. -/
def umod (a b : Nat) : Except CpuFault Nat := if b = 0 then .error .divideError else .ok (a % b)

@[simp] theorem udiv_zero (a : Nat) : udiv a 0 = .error .divideError := rfl

@[simp] theorem umod_zero (a : Nat) : umod a 0 = .error .divideError := rfl

theorem udiv_of_pos {a b : Nat} (h : 0 < b) : udiv a b = .ok (a / b) := if_neg h.ne'

theorem umod_of_pos {a b : Nat} (h : 0 < b) : umod a b = .ok (a % b) := if_neg h.ne'

/-- What has been divided by is not zero. -/
theorem udiv_ok {a b q : Nat} (h : udiv a b = .ok q) : b ≠ 0 := fun hb => by
  rw [hb] at h
  cases h

theorem umod_ok {a b r : Nat} (h : umod a b = .ok r) : b ≠ 0 := fun hb => by
  rw [hb] at h
  cases h

/-! ## Data on the disk -/

/-- The fields of `struct Ext2SuperBlock` that the code reads. -/
structure Ext2SuperBlock where
  numInodes : Nat
  numBlocks : Nat
  logSub10BlockSize : Nat
  numGroupBlocks : Nat
  numGroupInodes : Nat
  ext2Signature : Nat
  inodeSize : Nat

/-- The fields, from the bytes of the superblock. -/
def ext2SuperBlock (sb : Mem) : Ext2SuperBlock where
  numInodes := loadLE sb 0 4
  numBlocks := loadLE sb 4 4
  logSub10BlockSize := loadLE sb 24 4
  numGroupBlocks := loadLE sb 32 4
  numGroupInodes := loadLE sb 40 4
  ext2Signature := loadLE sb 56 2
  inodeSize := loadLE sb 88 4

/-- `grp_table[g].start_block_addr_inode_table`, in a table of descriptors of 32 bytes. -/
def startBlockAddrInodeTable (grpTable : Mem) (g : Nat) : Nat := loadLE grpTable (32 * g + 8) 4

/-- The block pointers of `struct Ext2Inode`, from its bytes. -/
def ext2Inode (extIn : Mem) : Ext2Inode where
  directBlocks k := loadLE extIn (40 + 4 * k) 4
  singlyIndirectBlock := loadLE extIn 88 4
  doublyIndirectBlock := loadLE extIn 92 4
  triplyIndirectBlock := loadLE extIn 96 4

/-- `mbr->partitions[p].part_type`. -/
def partType (mbr : Mem) (p : Fin 4) : Nat := loadLE mbr (446 + 16 * p + 4) 1

/-- `mbr->partitions[p].first_sector_lba`. -/
def firstSectorLba (mbr : Mem) (p : Fin 4) : Nat := loadLE mbr (446 + 16 * p + 8) 4

/-- `mbr->partitions[p].num_sectors`. -/
def numSectors (mbr : Mem) (p : Fin 4) : Nat := loadLE mbr (446 + 16 * p + 12) 4

/-- Byte `j` of the partition. -/
def Ext2VfsSuperBlock.byte (vsb : Ext2VfsSuperBlock) (j : Nat) : UInt8 :=
  ((mbrReadBlock vsb (j / vsb.dev.blkSize)).getD fun _ => 0) (j % vsb.dev.blkSize)

/-! ## Data in memory -/

/-- The whole of `struct Ext2VfsInode`, with the 112 bytes of `ext_in`. -/
structure VfsInode extends Ext2VfsInode where
  ino : Nat
  stMode : Nat
  stUid : Nat
  stGid : Nat
  extBytes : Mem

/-- The whole of `struct Ext2VfsSuperBlock`, with the bytes of `ext_sb` and `grp_table`. -/
structure Ext2Mount extends Ext2VfsSuperBlock where
  numGroups : Nat
  grpTable : Mem
  extSb : Mem

/-- `vsb->ext_sb`. -/
abbrev Ext2Mount.superBlock (m : Ext2Mount) : Ext2SuperBlock := ext2SuperBlock m.extSb

/-! ## Inodes -/

/-- `ext2_vfs_inode_init`. An `ino_t` has 32 bits. -/
def ext2VfsInodeInit (extIn : Mem) (ino : Nat) (vsb : Ext2VfsSuperBlock) : VfsInode where
  ino := ino % 2 ^ 32
  stMode := loadLE extIn 0 2
  stUid := loadLE extIn 2 2
  stGid := loadLE extIn 24 2
  stSize := loadLE extIn 108 4 * 2 ^ 32 + loadLE extIn 4 4
  extIn := ext2Inode extIn
  vsb := vsb
  extBytes := extIn

/-- The checks of `read_inode`: the descriptor it will use, or `none` where it returns `NULL`. -/
def readInodeGroup (m : Ext2Mount) (inodeNum : Nat) : Except CpuFault (Option Nat) :=
  if inodeNum > m.superBlock.numInodes then .ok none
  else do
    let groupIdx ← udiv ((inodeNum + 2 ^ 64 - 1) % 2 ^ 64) m.superBlock.numGroupInodes
    if groupIdx ≥ m.numGroups then .ok none else .ok (some groupIdx)

/-- `read_inode` after its checks. -/
def readInodeAt (m : Ext2Mount) (fresh : Mem) (inodeNum groupIdx : Nat) : Except CpuFault VfsInode := do
  let indexIdx ← umod ((inodeNum + 2 ^ 64 - 1) % 2 ^ 64) m.superBlock.numGroupInodes
  let blockIdx ← udiv (indexIdx * m.superBlock.inodeSize) m.blockSize
  let blockOffset ← umod (indexIdx * m.superBlock.inodeSize) m.blockSize
  let blockNum := startBlockAddrInodeTable m.grpTable groupIdx + blockIdx
  let numSectors ← udiv m.blockSize m.dev.blkSize
  let extInodeBlock := loadSectors (mbrReadBlock m.toExt2VfsSuperBlock) m.dev.blkSize
    (blockNum * numSectors % 2 ^ 64) 0 numSectors fresh
  let extInode := copyTo fresh 0 112 fun j => extInodeBlock (blockOffset + j)
  .ok (ext2VfsInodeInit extInode inodeNum m.toExt2VfsSuperBlock)

/-- `read_inode`. -/
def readInode (m : Ext2Mount) (fresh : Mem) (inodeNum : Nat) : Except CpuFault (Option VfsInode) := do
  match ← readInodeGroup m inodeNum with
  | none => .ok none
  | some groupIdx =>
    let vin ← readInodeAt m fresh inodeNum groupIdx
    .ok (some vin)

/-! ## Mounting -/

/-- The loop of `pow2`, with `n` turns to go. -/
def pow2Loop : (n number : Nat) → Nat
  | 0, number => number
  | n + 1, number => pow2Loop n (number * 2 % 2 ^ 64)

/-- `pow2`. -/
def pow2 (n : Nat) : Nat := pow2Loop n 1

/-- `ext2_vfs_superblock_init`: the superblock in memory and its root inode. -/
def ext2VfsSuperblockInit (extSb grpTable : Mem) (dev : BlockDevice) (mbr : Mem) (partNum : Fin 4)
    (fresh : Mem) : Except CpuFault (Ext2Mount × Option VfsInode) := do
  let sb := ext2SuperBlock extSb
  let blockSize := pow2 ((sb.logSub10BlockSize + 10) % 2 ^ 32)
  let whole ← udiv sb.numBlocks sb.numGroupBlocks
  let rest ← umod sb.numBlocks sb.numGroupBlocks
  let m : Ext2Mount :=
    { blockSize, dev, firstSectorLba := firstSectorLba mbr, partNum
      numGroups := whole + if rest ≠ 0 then 1 else 0
      grpTable, extSb }
  let rootInode ← readInode m fresh 2
  .ok (m, rootInode)

/-- `mbr_init`. -/
def mbrInit (dev : BlockDevice) (mbr : Mem) : Mem := loadSectors dev.readBlock dev.blkSize 0 0 1 mbr

/-- `ext2_superblock_init`: what it leaves in `sb` and in `grp_table`. -/
def ext2SuperblockInit (sb grpTable mbr : Mem) (dev : BlockDevice) (numPart : Fin 4) :
    Except CpuFault (Mem × Mem) := do
  let readBlock := fun blkNum => dev.readBlock (firstSectorLba mbr numPart + blkNum)
  let sbStart ← udiv 1024 dev.blkSize
  let sbSectors ← udiv 1024 dev.blkSize
  .ok (loadSectors readBlock dev.blkSize sbStart 0 sbSectors sb,
    loadSectors readBlock dev.blkSize (sbStart + sbSectors) 0 1 grpTable)

/-- The loop of `ext2_probe`, with the given partitions to go. -/
def probePartitions (dev : BlockDevice) (mbr fresh : Mem) :
    List (Fin 4) → Except CpuFault (Option (Ext2Mount × Option VfsInode))
  | [] => .ok none
  | p :: ps =>
    if partType mbr p = 0 then .ok none
    else if numSectors mbr p ≥ 2 then do
      let (sb, grpTable) ← ext2SuperblockInit fresh fresh mbr dev p
      if (ext2SuperBlock sb).ext2Signature = 0xEF53 then do
        let mounted ← ext2VfsSuperblockInit sb grpTable dev mbr p fresh
        .ok (some mounted)
      else probePartitions dev mbr fresh ps
    else probePartitions dev mbr fresh ps

/-- `ext2_probe`. -/
def ext2Probe (dev : BlockDevice) (fresh : Mem) : Except CpuFault (Option (Ext2Mount × Option VfsInode)) :=
  probePartitions dev (mbrInit dev fresh) fresh (List.finRange 4)

/-! ## The superblock in memory -/

/-- The number of block groups of a file system. -/
def Ext2SuperBlock.groupCount (sb : Ext2SuperBlock) : Nat :=
  sb.numBlocks / sb.numGroupBlocks + if sb.numBlocks % sb.numGroupBlocks ≠ 0 then 1 else 0

/-- The superblock in memory that `ext2_vfs_superblock_init` makes, unless it divides by zero. -/
def mountOf (extSb grpTable : Mem) (dev : BlockDevice) (mbr : Mem) (partNum : Fin 4) : Ext2Mount where
  blockSize := pow2 (((ext2SuperBlock extSb).logSub10BlockSize + 10) % 2 ^ 32)
  dev := dev
  firstSectorLba := firstSectorLba mbr
  partNum := partNum
  numGroups := (ext2SuperBlock extSb).groupCount
  grpTable := grpTable
  extSb := extSb

section
variable {extSb grpTable mbr fresh : Mem} {dev : BlockDevice} {partNum : Fin 4}

theorem ext2VfsSuperblockInit_of_zero (h : (ext2SuperBlock extSb).numGroupBlocks = 0) :
    ext2VfsSuperblockInit extSb grpTable dev mbr partNum fresh = .error .divideError := by
  rw [ext2VfsSuperblockInit]
  dsimp only
  rw [h, udiv_zero, Except.error_bind]

/-- It is made and the root inode read through it. -/
theorem ext2VfsSuperblockInit_eq_ok_iff {m : Ext2Mount} {root : Option VfsInode} :
    ext2VfsSuperblockInit extSb grpTable dev mbr partNum fresh = .ok (m, root) ↔
      (ext2SuperBlock extSb).numGroupBlocks ≠ 0 ∧ m = mountOf extSb grpTable dev mbr partNum ∧
        readInode m fresh 2 = .ok root := by
  by_cases hg : (ext2SuperBlock extSb).numGroupBlocks = 0
  · rw [ext2VfsSuperblockInit_of_zero hg]
    exact iff_of_false nofun fun h => h.1 hg
  · have hinit : ext2VfsSuperblockInit extSb grpTable dev mbr partNum fresh =
        readInode (mountOf extSb grpTable dev mbr partNum) fresh 2 >>= fun root =>
          .ok (mountOf extSb grpTable dev mbr partNum, root) := by
      rw [ext2VfsSuperblockInit]
      dsimp only
      rw [udiv_of_pos (Nat.pos_of_ne_zero hg), Except.ok_bind, umod_of_pos (Nat.pos_of_ne_zero hg), Except.ok_bind]
      rfl
    rw [hinit, Except.bind_eq_ok]
    constructor
    · rintro ⟨r, hr, heq⟩
      cases heq
      exact ⟨hg, rfl, hr⟩
    · rintro ⟨-, rfl, hr⟩
      exact ⟨root, hr, rfl⟩

end

/-! ## The block size -/

theorem pow2Loop_eq (n : Nat) {number : Nat} (h : number < 2 ^ 64) :
    pow2Loop n number = number * 2 ^ n % 2 ^ 64 := by
  induction n generalizing number with
  | zero => rw [pow2Loop, Nat.pow_zero, Nat.mul_one, Nat.mod_eq_of_lt h]
  | succ n ih =>
    rw [pow2Loop, ih (Nat.mod_lt _ (by decide)), Nat.mod_mul_mod, Nat.mul_assoc, ← Nat.pow_succ']

/-- `pow2` wraps around. -/
theorem pow2_eq (n : Nat) : pow2 n = 2 ^ n % 2 ^ 64 := by
  rw [pow2, pow2Loop_eq n (by decide), Nat.one_mul]

theorem pow2_of_lt {n : Nat} (h : n < 64) : pow2 n = 2 ^ n := by
  rw [pow2_eq, Nat.mod_eq_of_lt (Nat.pow_lt_pow_right (by decide) h)]

theorem pow2_of_ge {n : Nat} (h : 64 ≤ n) : pow2 n = 0 := by
  rw [pow2_eq, Nat.mod_eq_zero_of_dvd (Nat.pow_dvd_pow 2 h)]

/-- Which exponents give a block of whole sectors. -/
theorem pow2_sectors_iff {n : Nat} : pow2 n ≠ 0 ∧ 512 ∣ pow2 n ↔ 9 ≤ n ∧ n < 64 := by
  by_cases h : n < 64
  · rw [pow2_of_lt h, show 512 = 2 ^ 9 by decide, Nat.pow_dvd_pow_iff_le_right (by decide)]
    exact ⟨fun ⟨_, hn⟩ => ⟨hn, h⟩, fun ⟨hn, _⟩ => ⟨(Nat.two_pow_pos n).ne', hn⟩⟩
  · rw [pow2_of_ge (Nat.le_of_not_lt h)]
    exact iff_of_false (fun hn => hn.1 rfl) (fun hn => h hn.2)

/-! ## Division by zero -/

section
variable {m : Ext2Mount} {fresh : Mem} {i : Nat}

/-- The checks of `read_inode` do not divide by zero iff an inode number that is too large comes first. -/
theorem readInodeGroup_isOk_iff :
    (∃ r, readInodeGroup m i = .ok r) ↔ m.superBlock.numInodes < i ∨ m.superBlock.numGroupInodes ≠ 0 := by
  rw [readInodeGroup]
  by_cases hi : i > m.superBlock.numInodes
  · rw [if_pos hi]
    exact iff_of_true ⟨_, rfl⟩ (.inl hi)
  rw [if_neg hi]
  by_cases hn : m.superBlock.numGroupInodes = 0
  · rw [hn, udiv_zero, Except.error_bind]
    exact iff_of_false (by simp) (by omega)
  · rw [udiv_of_pos (Nat.pos_of_ne_zero hn), Except.ok_bind]
    refine iff_of_true ?_ (.inr hn)
    split <;> exact ⟨_, rfl⟩

/-- The rest of `read_inode` does not divide by zero. -/
theorem readInodeAt_isOk (fresh : Mem) (i : Nat) (hn : m.superBlock.numGroupInodes ≠ 0) (hbs : m.blockSize ≠ 0)
    (hdev : m.dev.blkSize ≠ 0) (g : Nat) : ∃ vin, readInodeAt m fresh i g = .ok vin := by
  rw [readInodeAt, umod_of_pos (Nat.pos_of_ne_zero hn), Except.ok_bind,
    udiv_of_pos (Nat.pos_of_ne_zero hbs), Except.ok_bind, umod_of_pos (Nat.pos_of_ne_zero hbs), Except.ok_bind,
    udiv_of_pos (Nat.pos_of_ne_zero hdev), Except.ok_bind]
  exact ⟨_, rfl⟩

/-- `read_inode` does not divide by zero iff its checks do not. -/
theorem readInode_isOk_iff (hbs : m.blockSize ≠ 0) (hdev : m.dev.blkSize ≠ 0) :
    (∃ r, readInode m fresh i = .ok r) ↔ m.superBlock.numInodes < i ∨ m.superBlock.numGroupInodes ≠ 0 := by
  rw [← readInodeGroup_isOk_iff]
  constructor
  · rintro ⟨r, hr⟩
    rw [readInode] at hr
    obtain ⟨g, hg, -⟩ := Except.bind_eq_ok.1 hr
    exact ⟨g, hg⟩
  · rintro ⟨g, hg⟩
    rw [readInode, hg, Except.ok_bind]
    cases g with
    | none => exact ⟨_, rfl⟩
    | some g =>
      have hn : m.superBlock.numGroupInodes ≠ 0 := by
        intro hn
        rw [readInodeGroup, hn, udiv_zero, Except.error_bind] at hg
        split at hg <;> cases hg
      obtain ⟨vin, hvin⟩ := readInodeAt_isOk fresh i hn hbs hdev g
      dsimp only
      rw [hvin]
      exact ⟨_, rfl⟩

/-- Where an inode has been read, nothing was divided by zero. -/
theorem readInodeAt_ok {g : Nat} {vin : VfsInode} (h : readInodeAt m fresh i g = .ok vin) :
    (m.superBlock.numGroupInodes ≠ 0 ∧ m.blockSize ≠ 0 ∧ m.dev.blkSize ≠ 0) ∧
      ∃ extIn, vin = ext2VfsInodeInit extIn i m.toExt2VfsSuperBlock := by
  rw [readInodeAt] at h
  obtain ⟨_, hn, h⟩ := Except.bind_eq_ok.1 h
  obtain ⟨_, hbs, h⟩ := Except.bind_eq_ok.1 h
  obtain ⟨_, -, h⟩ := Except.bind_eq_ok.1 h
  obtain ⟨_, hdev, h⟩ := Except.bind_eq_ok.1 h
  exact ⟨⟨umod_ok hn, udiv_ok hbs, udiv_ok hdev⟩, _, (Except.ok.inj h).symm⟩

/-- A file system that an inode has been read from: all others can be read too. -/
theorem readInode_some {vin : VfsInode} (h : readInode m fresh i = .ok (some vin)) :
    (∃ extIn, vin = ext2VfsInodeInit extIn i m.toExt2VfsSuperBlock) ∧ m.blockSize ≠ 0 ∧
      ∀ k, ∃ r, readInode m fresh k = .ok r := by
  rw [readInode] at h
  obtain ⟨g, -, h⟩ := Except.bind_eq_ok.1 h
  cases g with
  | none => cases h
  | some g =>
    obtain ⟨vin', hvin, h⟩ := Except.bind_eq_ok.1 h
    cases h
    obtain ⟨⟨hn, hbs, hdev⟩, hinit⟩ := readInodeAt_ok hvin
    exact ⟨hinit, hbs, fun k => (readInode_isOk_iff hbs hdev).2 (.inr hn)⟩

end

/-- `ext2_vfs_superblock_init` and its `read_inode` of the root divide by nothing that is zero, and the block
size is a number of whole sectors of 512 bytes. -/
def MountsSoundly (extSb grpTable : Mem) (dev : BlockDevice) (mbr : Mem) (partNum : Fin 4) (fresh : Mem) : Prop :=
  ∃ m root, ext2VfsSuperblockInit extSb grpTable dev mbr partNum fresh = .ok (m, root) ∧ m.blockSize ≠ 0 ∧
    512 ∣ m.blockSize

/-- For every superblock: mounting is sound iff the number of blocks in a group is not zero, the number of inodes
in a group is not zero either unless there is no root inode, and the exponent of the block size, with the
wrap-around of its addition, is at least 9 and below 64. -/
theorem mountsSoundly_iff (extSb grpTable : Mem) {dev : BlockDevice} (hdev : dev.blkSize = 512) (mbr : Mem)
    (partNum : Fin 4) (fresh : Mem) : MountsSoundly extSb grpTable dev mbr partNum fresh ↔
      (ext2SuperBlock extSb).numGroupBlocks ≠ 0 ∧
      ((ext2SuperBlock extSb).numInodes < 2 ∨ (ext2SuperBlock extSb).numGroupInodes ≠ 0) ∧
      9 ≤ ((ext2SuperBlock extSb).logSub10BlockSize + 10) % 2 ^ 32 ∧
      ((ext2SuperBlock extSb).logSub10BlockSize + 10) % 2 ^ 32 < 64 := by
  have hmount : (mountOf extSb grpTable dev mbr partNum).dev.blkSize ≠ 0 := hdev ▸ by decide
  rw [← pow2_sectors_iff]
  constructor
  · rintro ⟨m, root, hinit, hne, hdvd⟩
    obtain ⟨hg, rfl, hr⟩ := ext2VfsSuperblockInit_eq_ok_iff.1 hinit
    exact ⟨hg, (readInode_isOk_iff hne hmount).1 ⟨root, hr⟩, hne, hdvd⟩
  · rintro ⟨hg, hroot, hne, hdvd⟩
    have hread : ∃ root, readInode (mountOf extSb grpTable dev mbr partNum) fresh 2 = .ok root :=
      (readInode_isOk_iff hne hmount).2 hroot
    obtain ⟨root, hr⟩ := hread
    exact ⟨_, root, ext2VfsSuperblockInit_eq_ok_iff.2 ⟨hg, rfl, hr⟩, hne, hdvd⟩

/-- Memory with the given values, each stored in a number of bytes at an address, and zeros elsewhere. -/
def memWith (cells : List (Nat × Nat × Nat)) : Mem :=
  cells.foldr (fun cell mem => storeLE mem cell.1 cell.2.1 cell.2.2) fun _ => 0

/-- A device with sectors of 512 bytes. -/
def diskWith (mem : Mem) : BlockDevice := ⟨512, fun lba => some fun j => mem (512 * lba + j)⟩

/-- The superblock of a file system with one group, and blocks of 1 KiB times `2 ^ k`. -/
def someSuperBlock (k : Nat) : Mem :=
  memWith [(0, 4, 2048), (4, 4, 8192), (24, 4, k), (32, 4, 8192), (40, 4, 2048), (56, 2, 0xEF53), (88, 4, 128)]

/-- A file system with blocks of 1 KiB. -/
theorem mountsSoundly_someSuperBlock : MountsSoundly (someSuperBlock 0) (fun _ => 0) (diskWith fun _ => 0)
    (fun _ => 0) 0 (fun _ => 0) :=
  (mountsSoundly_iff _ _ rfl _ _ _).2 (by decide +kernel)

/-- A superblock of zeros but for the signature. -/
def signatureSuperBlock : Mem := memWith [(56, 2, 0xEF53)]

/-- A disk with one partition, from the second sector on, with that superblock. -/
def signatureDisk : BlockDevice :=
  diskWith (memWith [(450, 1, 0x83), (454, 4, 1), (458, 4, 100), (512 + 1024 + 56, 2, 0xEF53)])

/-- The superblock is accepted, and mounting divides by zero. -/
theorem not_mountsSoundly_signatureSuperBlock : (ext2SuperBlock signatureSuperBlock).ext2Signature = 0xEF53 ∧
    ¬ MountsSoundly signatureSuperBlock (fun _ => 0) signatureDisk (fun _ => 0) 0 (fun _ => 0) ∧
    ext2Probe signatureDisk (fun _ => 0) = .error .divideError := by
  refine ⟨by decide +kernel, ?_, by rfl⟩
  rintro ⟨m, root, hinit, -⟩
  rw [ext2VfsSuperblockInit_of_zero (by decide +kernel)] at hinit
  cases hinit

end BanjOS
