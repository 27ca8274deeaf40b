import BanjOS.Basic
import BanjOS.Lib.ByteMem

/-!
# Blocks of an ext2 file

`ext2_read_block` and `read_inode_block` of `ext2.c`, over a block device that is read through the
partition table (`MBR_read_block` of `mbr.c`). A buffer is the memory from its first byte on. The ext2
format says which block of the disk is block `b` of a file: `treeBlock` follows the inode's pointer tree.
-/

namespace BanjOS

open ByteMem

/-! ## Device and superblock -/

/-- `struct BlockDevice`: the sector size, and `read_block`, which fails or gives the bytes of a
sector. -/
structure BlockDevice where
  blkSize : Nat
  readBlock : Nat → Option Mem

/-- `struct Ext2VfsSuperBlock`, with the first sectors of the four partitions. -/
structure Ext2VfsSuperBlock where
  blockSize : Nat
  dev : BlockDevice
  firstSectorLba : Fin 4 → Nat
  partNum : Fin 4

/-- The block pointers of `struct Ext2Inode`. -/
structure Ext2Inode where
  directBlocks : Fin 12 → Nat
  singlyIndirectBlock : Nat
  doublyIndirectBlock : Nat
  triplyIndirectBlock : Nat

/-- `MBR_read_block`. -/
def mbrReadBlock (vsb : Ext2VfsSuperBlock) (blkNum : Nat) : Option Mem :=
  vsb.dev.readBlock (vsb.firstSectorLba vsb.partNum + blkNum)

/-- `n` bytes of `src` at the offset `off` of a buffer. -/
def copyTo (dst : Mem) (off n : Nat) (src : Mem) : Mem := fun j =>
  if InRange off n j then src (j - off) else dst j

/-- The loop of `ext2_read_block`, from the sector `i` on, with `n` sectors to go. -/
def readSectors (vsb : Ext2VfsSuperBlock) (sectorNum i : Nat) : (n : Nat) → Mem → Bool × Mem
  | 0, dst => (true, dst)
  | n + 1, dst =>
    match mbrReadBlock vsb (sectorNum + i) with
    | none => (false, dst)
    | some sector =>
      readSectors vsb sectorNum (i + 1) n (copyTo dst (vsb.dev.blkSize * i) vsb.dev.blkSize sector)

/-- The same loop where the result of a read is not looked at (`ext2_superblock_init` and `read_inode`): a sector
that cannot be read leaves its part of the buffer alone. -/
def loadSectors (readBlock : Nat → Option Mem) (blkSize sectorNum i : Nat) : (n : Nat) → Mem → Mem
  | 0, dst => dst
  | n + 1, dst =>
    loadSectors readBlock blkSize sectorNum (i + 1) n (match readBlock (sectorNum + i) with
      | none => dst
      | some sector => copyTo dst (blkSize * i) blkSize sector)

/-- `ext2_read_block`. -/
def ext2ReadBlock (vsb : Ext2VfsSuperBlock) (blockNum : Nat) (dst : Mem) : Bool × Mem :=
  readSectors vsb (blockNum * (vsb.blockSize / vsb.dev.blkSize)) 0
    (vsb.blockSize / vsb.dev.blkSize) dst

/-- `block[k]`, for a buffer of 32-bit block numbers. -/
def pointerAt (block : Mem) (k : Nat) : Nat := loadLE block (4 * k) 4

/-- `read_inode_block`: the contents of `dst` after it. `fresh` is what `kmalloc` left in the scratch
buffers. -/
def readInodeBlock (vsb : Ext2VfsSuperBlock) (extIn : Ext2Inode) (fresh : Mem) (block : Nat)
    (dst : Mem) : Mem :=
  let numIndirectPer := vsb.blockSize / 4
  if h : block < 12 then (ext2ReadBlock vsb (extIn.directBlocks ⟨block, h⟩) dst).2
  else if block - 12 < numIndirectPer then
    let indirectBlock := (ext2ReadBlock vsb extIn.singlyIndirectBlock fresh).2
    (ext2ReadBlock vsb (pointerAt indirectBlock (block - 12)) dst).2
  else if block - 12 - numIndirectPer < numIndirectPer * numIndirectPer then
    let off := block - 12 - numIndirectPer
    let singleOff := off / numIndirectPer
    let doubleOff := off % numIndirectPer
    let indirectBlock := (ext2ReadBlock vsb extIn.singlyIndirectBlock fresh).2
    let _indirecterBlock := (ext2ReadBlock vsb (pointerAt indirectBlock singleOff) fresh).2
    (ext2ReadBlock vsb (pointerAt indirectBlock doubleOff) dst).2
  else if block - 12 - numIndirectPer - numIndirectPer * numIndirectPer <
      numIndirectPer * numIndirectPer * numIndirectPer then
    let off := block - 12 - numIndirectPer - numIndirectPer * numIndirectPer
    let singleOff := off / (numIndirectPer * numIndirectPer)
    let doubleOff := off % (numIndirectPer * numIndirectPer)
    let tripleOff := doubleOff / numIndirectPer
    let quadOff := doubleOff % numIndirectPer
    let indirectBlock := (ext2ReadBlock vsb extIn.doublyIndirectBlock fresh).2
    let indirecterBlock := (ext2ReadBlock vsb (pointerAt indirectBlock singleOff) fresh).2
    let _indirecterBlock := (ext2ReadBlock vsb (pointerAt indirecterBlock tripleOff) indirecterBlock).2
    (ext2ReadBlock vsb (pointerAt indirectBlock quadOff) dst).2
  else dst

/-! ## Contents of the disk -/

/-- A block of the disk, as its bytes: those of its sectors one after the other. -/
def diskBlock (vsb : Ext2VfsSuperBlock) (blockNum : Nat) : Mem := fun j =>
  ((mbrReadBlock vsb (blockNum * (vsb.blockSize / vsb.dev.blkSize) + j / vsb.dev.blkSize)).getD
    fun _ => 0) (j % vsb.dev.blkSize)

/-- A file system on a device without read errors, with whole sectors in a block. -/
structure Ext2VfsSuperBlock.Readable (vsb : Ext2VfsSuperBlock) : Prop where
  blkSize_pos : 0 < vsb.dev.blkSize
  dvd : vsb.dev.blkSize ∣ vsb.blockSize
  reads : ∀ lba, (vsb.dev.readBlock lba).isSome

section
variable {vsb : Ext2VfsSuperBlock}

/-- The sectors that a loop has come to, one after the other, when all of them can be read. -/
theorem loadSectors_apply {readBlock : Nat → Option Mem} {blkSize : Nat}
    (h : ∀ sector, (readBlock sector).isSome) (sectorNum i n : Nat) (dst : Mem) {j : Nat}
    (hj : j < blkSize * (i + n)) :
    loadSectors readBlock blkSize sectorNum i n dst j =
      if j < blkSize * i then dst j
      else ((readBlock (sectorNum + j / blkSize)).getD fun _ => 0) (j % blkSize) := by
  induction n generalizing i dst with
  | zero => rw [loadSectors, if_pos (by simpa using hj)]
  | succ n ih =>
    obtain ⟨sector, hsector⟩ := Option.isSome_iff_exists.1 (h (sectorNum + i))
    simp only [loadSectors, hsector]
    rw [ih (i + 1) _ (by rwa [Nat.add_right_comm])]
    by_cases hlt : j < blkSize * i
    · -- bytes of an earlier sector
      rw [if_pos hlt, if_pos (by rw [Nat.mul_succ]; omega), copyTo,
        if_neg fun hr => Nat.not_lt_of_ge hr.1 hlt]
    · rw [if_neg hlt]
      split
      case isTrue hlt' =>
        have hdiv : j / blkSize = i :=
          Nat.div_eq_of_lt_le (by rw [Nat.mul_comm]; omega) (by rw [Nat.mul_comm]; exact hlt')
        have hmod : j % blkSize = j - blkSize * i := by
          rw [← hdiv, Nat.mod_eq_sub_mul_div]
        rw [copyTo, if_pos ⟨by omega, by rw [← Nat.mul_succ]; exact hlt'⟩, hdiv, hmod, hsector]
        rfl
      case isFalse => rfl

theorem Ext2VfsSuperBlock.Readable.isSome (h : vsb.Readable) (sector : Nat) :
    (mbrReadBlock vsb sector).isSome := h.reads _

/-- Where all reads succeed, it does not matter whether the results are looked at. -/
theorem readSectors_eq (h : vsb.Readable) (sectorNum i n : Nat) (dst : Mem) :
    readSectors vsb sectorNum i n dst =
      (true, loadSectors (mbrReadBlock vsb) vsb.dev.blkSize sectorNum i n dst) := by
  induction n generalizing i dst with
  | zero => rfl
  | succ n ih =>
    obtain ⟨sector, hsector⟩ := Option.isSome_iff_exists.1 (h.isSome (sectorNum + i))
    simp only [readSectors, loadSectors, hsector]
    exact ih (i + 1) _

/-- A block is read as it is on the disk. -/
theorem ext2ReadBlock_apply (h : vsb.Readable) (blockNum : Nat) (dst : Mem) {j : Nat}
    (hj : j < vsb.blockSize) : (ext2ReadBlock vsb blockNum dst).2 j = diskBlock vsb blockNum j := by
  rw [ext2ReadBlock, readSectors_eq h]
  dsimp only
  rw [loadSectors_apply h.isSome _ _ _ _ (by rwa [Nat.zero_add, Nat.mul_div_cancel' h.dvd]), if_neg (by simp)]
  rfl

/-- A block pointer in a buffer that holds a block of the disk. -/
theorem pointerAt_ext2ReadBlock (h : vsb.Readable) (blockNum : Nat) (dst : Mem) {k : Nat}
    (hk : k < vsb.blockSize / 4) :
    pointerAt (ext2ReadBlock vsb blockNum dst).2 k = pointerAt (diskBlock vsb blockNum) k :=
  loadLE_congr fun _ hb => ext2ReadBlock_apply h _ _ (by obtain ⟨-, hb⟩ := hb; omega)

end

/-! ## The pointer tree -/

/-- Where the ext2 format puts block `b` of a file: the pointer of the inode to start from and the
entries to follow, with `n` pointers in a block. -/
def treeAddress (extIn : Ext2Inode) (n b : Nat) : Nat × List Nat :=
  if h : b < 12 then (extIn.directBlocks ⟨b, h⟩, [])
  else if b < 12 + n then (extIn.singlyIndirectBlock, [b - 12])
  else if b < 12 + n + n ^ 2 then
    let off := b - (12 + n)
    (extIn.doublyIndirectBlock, [off / n, off % n])
  else
    let off := b - (12 + n + n ^ 2)
    (extIn.triplyIndirectBlock, [off / n ^ 2, off / n % n, off % n])

section
variable (vsb : Ext2VfsSuperBlock)

/-- The block numbers on the way through the given entries. -/
def followPointers : Nat → List Nat → List Nat
  | p, [] => [p]
  | p, k :: ks => p :: followPointers (pointerAt (diskBlock vsb p) k) ks

/-- The block numbers on the path to block `b` of a file. -/
def treePath (extIn : Ext2Inode) (b : Nat) : List Nat :=
  followPointers vsb (treeAddress extIn (vsb.blockSize / 4) b).1
    (treeAddress extIn (vsb.blockSize / 4) b).2

/-- The number of the disk block that is block `b` of a file. -/
def treeBlock (extIn : Ext2Inode) (b : Nat) : Nat := (treePath vsb extIn b).getLastD 0

end

/-- For every readable file system with this block size and every inode whose pointers to block `b` are
not null, `read_inode_block` fills `dst` with block `b` of the file. -/
def MapsBlock (blockSize b : Nat) : Prop :=
  ∀ (vsb : Ext2VfsSuperBlock) (extIn : Ext2Inode) (fresh dst : Mem), vsb.Readable →
    vsb.blockSize = blockSize → (∀ p ∈ treePath vsb extIn b, p ≠ 0) →
    ∀ j < blockSize, readInodeBlock vsb extIn fresh b dst j = diskBlock vsb (treeBlock vsb extIn b) j

/-- The direct blocks and the singly indirect ones are mapped right. -/
theorem mapsBlock_of_lt {blockSize b : Nat} (hb : b < 12 + blockSize / 4) : MapsBlock blockSize b := by
  rintro vsb extIn fresh dst h rfl - j hj
  simp only [readInodeBlock, treeBlock, treePath, treeAddress]
  split
  · simpa [followPointers] using ext2ReadBlock_apply h _ dst hj
  · have hoff : b - 12 < vsb.blockSize / 4 := by omega
    rw [if_pos hoff, ext2ReadBlock_apply h _ _ hj, pointerAt_ext2ReadBlock h _ _ hoff]
    rfl

section
variable {vsb : Ext2VfsSuperBlock} (extIn : Ext2Inode) {b n : Nat}

theorem treeAddress_doubly (hb : 12 + n ≤ b) (hb' : b < 12 + n + n ^ 2) : treeAddress extIn n b =
    (extIn.doublyIndirectBlock, [(b - (12 + n)) / n, (b - (12 + n)) % n]) := by
  rw [treeAddress, dif_neg (by omega), if_neg (by omega), if_pos hb']

theorem treeAddress_triply (hb : 12 + n + n ^ 2 ≤ b) : treeAddress extIn n b =
    (extIn.triplyIndirectBlock, [(b - (12 + n + n ^ 2)) / n ^ 2, (b - (12 + n + n ^ 2)) / n % n,
      (b - (12 + n + n ^ 2)) % n]) := by
  rw [treeAddress, dif_neg (by omega), if_neg (by omega), if_neg (by omega)]

variable {extIn} {fresh dst : Mem} {j : Nat}

/-- In the doubly indirect range, `read_inode_block` starts from the singly indirect block and takes the
last pointer from there. -/
theorem readInodeBlock_doubly (h : vsb.Readable) (hb : 12 + vsb.blockSize / 4 ≤ b)
    (hb' : b < 12 + vsb.blockSize / 4 + (vsb.blockSize / 4) ^ 2) (hj : j < vsb.blockSize) :
    readInodeBlock vsb extIn fresh b dst j = diskBlock vsb (pointerAt
      (diskBlock vsb extIn.singlyIndirectBlock)
      ((b - (12 + vsb.blockSize / 4)) % (vsb.blockSize / 4))) j := by
  have hn : 0 < vsb.blockSize / 4 := Nat.pos_of_ne_zero fun h0 => by rw [h0] at hb hb'; omega
  have hrange : b - (12 + vsb.blockSize / 4) < vsb.blockSize / 4 * (vsb.blockSize / 4) := by
    rw [← Nat.pow_two]
    omega
  simp only [readInodeBlock, Nat.sub_sub]
  rw [dif_neg (by omega), if_neg (by omega), if_pos hrange, ext2ReadBlock_apply h _ _ hj,
    pointerAt_ext2ReadBlock h _ _ (Nat.mod_lt _ hn)]

/-- In the triply indirect range, `read_inode_block` starts from the doubly indirect block and takes the
last pointer from there. -/
theorem readInodeBlock_triply (h : vsb.Readable)
    (hb : 12 + vsb.blockSize / 4 + (vsb.blockSize / 4) ^ 2 ≤ b)
    (hb' : b < 12 + vsb.blockSize / 4 + (vsb.blockSize / 4) ^ 2 + (vsb.blockSize / 4) ^ 3)
    (hj : j < vsb.blockSize) :
    readInodeBlock vsb extIn fresh b dst j = diskBlock vsb (pointerAt
      (diskBlock vsb extIn.doublyIndirectBlock)
      ((b - (12 + vsb.blockSize / 4 + (vsb.blockSize / 4) ^ 2)) % (vsb.blockSize / 4))) j := by
  have hn : 0 < vsb.blockSize / 4 := Nat.pos_of_ne_zero fun h0 => by rw [h0] at hb hb'; omega
  rw [Nat.pow_succ _ 2] at hb'
  simp only [readInodeBlock, Nat.sub_sub, ← Nat.pow_two]
  rw [dif_neg (by omega), if_neg (by omega), if_neg (by omega), if_pos (by omega),
    ext2ReadBlock_apply h _ _ hj, pointerAt_ext2ReadBlock h _ _ (Nat.mod_lt _ hn),
    Nat.mod_mod_of_dvd _ (Dvd.intro_left _ (Nat.pow_two _).symm)]

end

/-! ## A disk that tells the blocks apart -/

/-- In every block of this disk all pointers are the same: `7 → 8`, say, in block 7. -/
def linkOf (blockNum : Nat) : UInt8 := [0, 4, 3, 5, 1, 2, 7, 8, 9, 1].getD blockNum 0

/-- The disk, with sectors of 512 bytes. -/
def linkDisk (blockSize : Nat) : Ext2VfsSuperBlock where
  blockSize := blockSize
  dev := ⟨512, fun lba => some fun j => if j % 4 = 0 then linkOf (lba / (blockSize / 512)) else 0⟩
  firstSectorLba _ := 0
  partNum := 0

/-- An inode of the disk. -/
def linkInode : Ext2Inode := ⟨fun _ => 1, 1, 2, 6⟩

@[simp] theorem linkDisk_blockSize (blockSize : Nat) : (linkDisk blockSize).blockSize = blockSize := rfl

section
variable {blockSize : Nat} (hbs : 512 ∣ blockSize)
include hbs

theorem readable_linkDisk : (linkDisk blockSize).Readable := ⟨by simp [linkDisk], hbs, fun _ => rfl⟩

/-- The bytes of a block: the same pointer over and over. -/
theorem diskBlock_linkDisk (blockNum : Nat) {j : Nat} (hj : j < blockSize) :
    diskBlock (linkDisk blockSize) blockNum j = if j % 4 = 0 then linkOf blockNum else 0 := by
  have hsector : (blockNum * (blockSize / 512) + j / 512) / (blockSize / 512) = blockNum := by
    have hlt : j / 512 < blockSize / 512 := Nat.div_lt_div_of_lt_of_dvd hbs hj
    rw [Nat.add_comm, Nat.add_mul_div_right _ _ (by omega), Nat.div_eq_of_lt hlt, Nat.zero_add]
  simp [diskBlock, linkDisk, mbrReadBlock, hsector, Nat.mod_mod_of_dvd j (show 4 ∣ 512 by decide)]

theorem pointerAt_linkDisk (blockNum : Nat) {k : Nat} (hk : k < blockSize / 4) :
    pointerAt (diskBlock (linkDisk blockSize) blockNum) k = (linkOf blockNum).toNat := by
  have h₀ := diskBlock_linkDisk hbs blockNum (j := 4 * k) (by omega)
  have h₁ := diskBlock_linkDisk hbs blockNum (j := 4 * k + 1) (by omega)
  have h₂ := diskBlock_linkDisk hbs blockNum (j := 4 * k + 2) (by omega)
  have h₃ := diskBlock_linkDisk hbs blockNum (j := 4 * k + 3) (by omega)
  rw [if_pos (by omega)] at h₀
  rw [if_neg (by omega)] at h₁ h₂ h₃
  simp only [pointerAt, loadLE, Nat.add_assoc, h₀, h₁, h₂, h₃]
  simp

/-- Following pointers on this disk. -/
theorem followPointers_linkDisk {p : Nat} {ks : List Nat} {k : Nat} (hk : k < blockSize / 4) :
    followPointers (linkDisk blockSize) p (k :: ks) =
      p :: followPointers (linkDisk blockSize) (linkOf p).toNat ks := by
  rw [followPointers, pointerAt_linkDisk hbs p hk]

/-- On this disk a doubly indirect block is not mapped right. -/
theorem not_mapsBlock_doubly {b : Nat} (hb : 12 + blockSize / 4 ≤ b)
    (hb' : b < 12 + blockSize / 4 + (blockSize / 4) ^ 2) : ¬ MapsBlock blockSize b := by
  intro h
  have hn : 0 < blockSize / 4 := Nat.pos_of_ne_zero fun h0 => by rw [h0] at hb hb'; omega
  have hdiv : (b - (12 + blockSize / 4)) / (blockSize / 4) < blockSize / 4 :=
    Nat.div_lt_of_lt_mul (by rw [← Nat.pow_two]; omega)
  have hmod := Nat.mod_lt (b - (12 + blockSize / 4)) hn
  have hpath : treePath (linkDisk blockSize) linkInode b = [2, 3, 5] := by
    have haddr := treeAddress_doubly linkInode hb hb'
    rw [treePath, linkDisk_blockSize, haddr,
      followPointers_linkDisk hbs hdiv, followPointers_linkDisk hbs hmod]
    rfl
  have heq := h (linkDisk blockSize) linkInode (fun _ => 0) (fun _ => 0) (readable_linkDisk hbs) rfl
    (by rw [hpath]; decide) 0 (by omega)
  rw [readInodeBlock_doubly (readable_linkDisk hbs) hb hb' (by omega : 0 < blockSize), treeBlock, hpath,
    linkDisk_blockSize, pointerAt_linkDisk hbs _ hmod, diskBlock_linkDisk hbs _ (by omega),
    diskBlock_linkDisk hbs _ (by omega)] at heq
  exact absurd heq (by decide)

/-- On this disk a triply indirect block is not mapped right. -/
theorem not_mapsBlock_triply {b : Nat} (hb : 12 + blockSize / 4 + (blockSize / 4) ^ 2 ≤ b)
    (hb' : b < 12 + blockSize / 4 + (blockSize / 4) ^ 2 + (blockSize / 4) ^ 3) :
    ¬ MapsBlock blockSize b := by
  intro h
  have hn : 0 < blockSize / 4 := Nat.pos_of_ne_zero fun h0 => by rw [h0] at hb hb'; omega
  have hdiv : (b - (12 + blockSize / 4 + (blockSize / 4) ^ 2)) / (blockSize / 4) ^ 2 < blockSize / 4 :=
    Nat.div_lt_of_lt_mul (by rw [Nat.pow_succ _ 2] at hb'; omega)
  have hmid := Nat.mod_lt ((b - (12 + blockSize / 4 + (blockSize / 4) ^ 2)) / (blockSize / 4)) hn
  have hmod := Nat.mod_lt (b - (12 + blockSize / 4 + (blockSize / 4) ^ 2)) hn
  have hpath : treePath (linkDisk blockSize) linkInode b = [6, 7, 8, 9] := by
    have haddr := treeAddress_triply linkInode hb
    rw [treePath, linkDisk_blockSize, haddr,
      followPointers_linkDisk hbs hdiv, followPointers_linkDisk hbs hmid,
      followPointers_linkDisk hbs hmod]
    rfl
  have heq := h (linkDisk blockSize) linkInode (fun _ => 0) (fun _ => 0) (readable_linkDisk hbs) rfl
    (by rw [hpath]; decide) 0 (by omega)
  rw [readInodeBlock_triply (readable_linkDisk hbs) hb hb' (by omega : 0 < blockSize), treeBlock, hpath,
    linkDisk_blockSize, pointerAt_linkDisk hbs _ hmod, diskBlock_linkDisk hbs _ (by omega),
    diskBlock_linkDisk hbs _ (by omega)] at heq
  exact absurd heq (by decide)

end

/-- For every block size of ext2 (1 KiB times a power of two) and every block index that the pointer tree reaches,
`read_inode_block` maps the index right (for all inodes and disks) iff the block is a direct or a singly indirect
one. -/
theorem mapsBlock_iff {e b : Nat}
    (hb : b < 12 + 1024 * 2 ^ e / 4 + (1024 * 2 ^ e / 4) ^ 2 + (1024 * 2 ^ e / 4) ^ 3) :
    MapsBlock (1024 * 2 ^ e) b ↔ b < 12 + 1024 * 2 ^ e / 4 := by
  have hbs : 512 ∣ 1024 * 2 ^ e := Nat.dvd_mul_right_of_dvd (by decide) _
  constructor
  · intro h
    refine Nat.lt_of_not_le fun hge => ?_
    by_cases hlt : b < 12 + 1024 * 2 ^ e / 4 + (1024 * 2 ^ e / 4) ^ 2
    · exact not_mapsBlock_doubly hbs hge hlt h
    · exact not_mapsBlock_triply hbs (Nat.le_of_not_lt hlt) hb h
  · exact mapsBlock_of_lt

/-- The last singly indirect block of a file with blocks of 1 KiB. -/
theorem mapsBlock_last_singly_indirect : MapsBlock (1024 * 2 ^ 0) 267 :=
  (mapsBlock_iff (e := 0) (by decide)).2 (by decide)

/-- The first doubly indirect block of a file with blocks of 1 KiB is read from the wrong place. -/
theorem readInodeBlock_first_doubly_indirect :
    (linkDisk 1024).Readable ∧ (∀ p ∈ treePath (linkDisk 1024) linkInode 268, p ≠ 0) ∧
      readInodeBlock (linkDisk 1024) linkInode (fun _ => 0) 268 (fun _ => 0) 0 ≠
        diskBlock (linkDisk 1024) (treeBlock (linkDisk 1024) linkInode 268) 0 :=
  ⟨readable_linkDisk (by decide), by decide +kernel, by decide +kernel⟩

end BanjOS
