import BanjOS.Ext2.Mount

/-!
# Looking up an inode

What `read_inode` finds, and the group descriptors that it uses. `ext2_probe` loads one sector of descriptors, the
one after the superblock, before the block size is known: it is the right one for blocks of 1 KiB and 2 KiB
(`grpTable_right_iff`), and it holds the descriptors of 16 groups (`groupIdx_inside_iff`). With the right
descriptors `read_inode` is exact (`readInode_exact`).
-/

namespace BanjOS

open ByteMem

/-! ## Groups -/

/-- The fields of a superblock have 32 bits. -/
theorem ext2SuperBlock_lt (sb : Mem) : (ext2SuperBlock sb).numInodes < 2 ^ 32 ∧
    (ext2SuperBlock sb).numBlocks < 2 ^ 32 ∧ (ext2SuperBlock sb).numGroupInodes < 2 ^ 32 ∧
    (ext2SuperBlock sb).inodeSize < 2 ^ 32 :=
  ⟨loadLE_lt sb 4 _, loadLE_lt sb 4 _, loadLE_lt sb 4 _, loadLE_lt sb 4 _⟩

/-- There are no more groups than blocks. -/
theorem groupCount_lt (sb : Mem) : (ext2SuperBlock sb).groupCount < 2 ^ 32 := by
  have hlt := (ext2SuperBlock_lt sb).2.1
  rw [Ext2SuperBlock.groupCount]
  generalize (ext2SuperBlock sb).numBlocks = x at hlt
  generalize (ext2SuperBlock sb).numGroupBlocks = b
  obtain rfl | hb := Nat.eq_zero_or_pos b
  · rw [Nat.div_zero, Nat.mod_zero]
    split <;> omega
  · have hsum := Nat.div_add_mod x b
    have hmul : x / b ≤ b * (x / b) := Nat.le_mul_of_pos_left _ hb
    split <;> omega

section
variable {m : Ext2Mount} {i g : Nat}

/-- `inode_num - 1`. -/
theorem inodeNum_sub_one (hi : i < 2 ^ 64) :
    (i + 2 ^ 64 - 1) % 2 ^ 64 = if i = 0 then 2 ^ 64 - 1 else i - 1 := by
  split <;> omega

/-- The checks of `read_inode`, when they do not divide by zero. -/
theorem readInodeGroup_eq (hn : 0 < m.superBlock.numGroupInodes) (hi : i < 2 ^ 64) : readInodeGroup m i =
    .ok (if m.superBlock.numInodes < i then none
      else if m.numGroups ≤ (if i = 0 then 2 ^ 64 - 1 else i - 1) / m.superBlock.numGroupInodes then none
      else some ((if i = 0 then 2 ^ 64 - 1 else i - 1) / m.superBlock.numGroupInodes)) := by
  rw [readInodeGroup, udiv_of_pos hn, Except.ok_bind, inodeNum_sub_one hi]
  generalize (if i = 0 then 2 ^ 64 - 1 else i - 1) / m.superBlock.numGroupInodes = g
  split
  · rfl
  · split <;> rfl

/-- Inode number 0 is in no group: the wrapped quotient is too large. -/
theorem numGroups_le_zero_group (hm : m.numGroups = m.superBlock.groupCount)
    (hn : 0 < m.superBlock.numGroupInodes) : m.numGroups ≤ (2 ^ 64 - 1) / m.superBlock.numGroupInodes := by
  have hlt : m.superBlock.groupCount < 2 ^ 32 := groupCount_lt m.extSb
  have hlt' : m.superBlock.numGroupInodes < 2 ^ 32 := (ext2SuperBlock_lt m.extSb).2.2.1
  rw [hm, Nat.le_div_iff_mul_le hn]
  have hle : m.superBlock.groupCount * m.superBlock.numGroupInodes ≤ (2 ^ 32 - 1) * (2 ^ 32 - 1) :=
    Nat.mul_le_mul (by omega) (by omega)
  omega

/-- The inode numbers that pass the checks, and their groups. -/
theorem readInodeGroup_eq_some_iff (hm : m.numGroups = m.superBlock.groupCount)
    (hn : 0 < m.superBlock.numGroupInodes) (hi : i < 2 ^ 64) : readInodeGroup m i = .ok (some g) ↔
      i ≠ 0 ∧ i ≤ m.superBlock.numInodes ∧ g = (i - 1) / m.superBlock.numGroupInodes ∧ g < m.numGroups := by
  rw [readInodeGroup_eq hn hi]
  obtain rfl | hpos := Nat.eq_zero_or_pos i
  · rw [if_neg (Nat.not_lt_zero _), if_pos rfl, if_pos (numGroups_le_zero_group hm hn)]
    exact iff_of_false (by simp) (by simp)
  · rw [if_neg hpos.ne']
    split
    case isTrue hgt => exact iff_of_false (by simp) (by omega)
    case isFalse hle =>
      split
      case isTrue hge => exact iff_of_false (by simp) (by omega)
      case isFalse hlt =>
        simp only [Except.ok.injEq, Option.some.injEq]
        omega

/-- `read_inode` returns `NULL` for the other ones. -/
theorem readInodeGroup_eq_none_iff (hm : m.numGroups = m.superBlock.groupCount)
    (hn : 0 < m.superBlock.numGroupInodes) (hi : i < 2 ^ 64) : readInodeGroup m i = .ok none ↔
      i = 0 ∨ m.superBlock.numInodes < i ∨ m.numGroups ≤ (i - 1) / m.superBlock.numGroupInodes := by
  rw [readInodeGroup_eq hn hi]
  obtain rfl | hpos := Nat.eq_zero_or_pos i
  · rw [if_neg (Nat.not_lt_zero _), if_pos rfl, if_pos (numGroups_le_zero_group hm hn)]
    exact iff_of_true rfl (.inl rfl)
  · rw [if_neg hpos.ne']
    split
    case isTrue hgt => exact iff_of_true rfl (.inr (.inl hgt))
    case isFalse hle =>
      split
      case isTrue hge => exact iff_of_true rfl (.inr (.inr hge))
      case isFalse hlt => exact iff_of_false (by simp) (by omega)

/-- For every superblock: the descriptors that `read_inode` uses are all in the sector that was loaded iff there are
no more groups than descriptors in a sector, or no inode numbers beyond the groups of the sector (or none
that a group can be found for). -/
theorem groupIdx_inside_iff (hm : m.numGroups = m.superBlock.groupCount) :
    (∀ i < 2 ^ 64, ∀ g, readInodeGroup m i = .ok (some g) → g < m.dev.blkSize / 32) ↔
      m.numGroups ≤ m.dev.blkSize / 32 ∨
        m.superBlock.numInodes ≤ m.superBlock.numGroupInodes * (m.dev.blkSize / 32) ∨
        m.superBlock.numGroupInodes = 0 := by
  generalize m.dev.blkSize / 32 = T
  obtain hn | hn := Nat.eq_zero_or_pos m.superBlock.numGroupInodes
  · refine iff_of_true (fun i _ g hg => ?_) (.inr (.inr hn))
    rw [readInodeGroup, hn, udiv_zero, Except.error_bind] at hg
    split at hg <;> cases hg
  constructor
  · intro h
    by_contra hnot
    simp only [not_or, Nat.not_le] at hnot
    have hlt : m.superBlock.numInodes < 2 ^ 32 := (ext2SuperBlock_lt m.extSb).1
    -- the first inode of the first group without a descriptor
    have hlast := (readInodeGroup_eq_some_iff hm hn (show m.superBlock.numGroupInodes * T + 1 < 2 ^ 64 by
      omega)).2 ⟨by omega, by omega, (Nat.mul_div_cancel_left T hn).symm, hnot.1⟩
    exact Nat.lt_irrefl T (h _ (by omega) T hlast)
  · intro h i hi g hg
    obtain ⟨hpos, hle, rfl, hlt⟩ := (readInodeGroup_eq_some_iff hm hn hi).1 hg
    rcases h with h | h | h
    · exact hlt.trans_le h
    · exact Nat.div_lt_of_lt_mul (by omega)
    · omega

end

/-- A file system with one group and blocks of 1 KiB, and its inode table at block 5. -/
def someMount : Ext2Mount :=
  mountOf (someSuperBlock 0) (memWith [(8, 4, 5)]) (diskWith fun j => UInt8.ofNat j) (fun _ => 0) (Fin.last 3)

/-- All inodes are in the first group. -/
theorem groupIdx_inside_one_group : ∃ m : Ext2Mount, m.numGroups = 1 ∧
    readInodeGroup m 2048 = .ok (some 0) ∧ 0 < m.dev.blkSize / 32 := by
  refine ⟨someMount, by decide +kernel, by decide +kernel, ?_⟩
  exact (groupIdx_inside_iff (m := someMount) rfl).2
    (by decide +kernel) 2048 (by decide) 0 (by decide +kernel)

/-- The superblock of a file system with 17 groups of 8192 blocks. -/
def superBlock17 : Mem :=
  memWith [(0, 4, 17 * 2048), (4, 4, 17 * 8192), (32, 4, 8192), (40, 4, 2048), (56, 2, 0xEF53), (88, 4, 128)]

/-- The first inode of the last group uses the descriptor after the end of the sector. -/
theorem groupIdx_outside_17_groups : ∃ m : Ext2Mount, m.numGroups = m.superBlock.groupCount ∧
    readInodeGroup m (16 * 2048 + 1) = .ok (some 16) ∧ ¬ 16 < m.dev.blkSize / 32 :=
  ⟨mountOf superBlock17 (fun _ => 0) (diskWith fun _ => 0) (fun _ => 0) 0, rfl, by decide +kernel, by decide⟩

/-! ## Probing -/

/-- Bytes of the partition that are loaded from the sector `sectorNum` on. -/
theorem loadSectors_byte (vsb : Ext2VfsSuperBlock) (h : ∀ sector, (mbrReadBlock vsb sector).isSome)
    (hpos : 0 < vsb.dev.blkSize) (sectorNum n : Nat) (dst : Mem) {j : Nat} (hj : j < vsb.dev.blkSize * n) :
    loadSectors (mbrReadBlock vsb) vsb.dev.blkSize sectorNum 0 n dst j =
      vsb.byte (vsb.dev.blkSize * sectorNum + j) := by
  rw [loadSectors_apply h _ _ _ _ (by rwa [Nat.zero_add]), if_neg (by simp),
    Ext2VfsSuperBlock.byte, Nat.mul_add_div hpos, Nat.mul_add_mod]

section
variable {dev : BlockDevice} {mbr fresh : Mem} {m : Ext2Mount} {root : Option VfsInode}

/-- What `ext2_probe` leaves in memory: the superblock and the sector after it, as they are in the partition. -/
structure Ext2Mount.Probed (m : Ext2Mount) : Prop where
  extSb : ∀ j < 1024, m.extSb j = m.byte (1024 + j)
  grpTable : ∀ j < m.dev.blkSize, m.grpTable j = m.byte (2048 + j)
  signature : m.superBlock.ext2Signature = 0xEF53
  blockSize : m.blockSize = pow2 ((m.superBlock.logSub10BlockSize + 10) % 2 ^ 32)
  numGroups : m.numGroups = m.superBlock.groupCount

/-- One partition. -/
theorem ext2SuperblockInit_probed (hblk : dev.blkSize = 512) (hreads : ∀ lba, (dev.readBlock lba).isSome)
    {p : Fin 4} {sb grpTable : Mem} (hsb : ext2SuperblockInit fresh fresh mbr dev p = .ok (sb, grpTable))
    (hsig : (ext2SuperBlock sb).ext2Signature = 0xEF53) : (mountOf sb grpTable dev mbr p).Probed := by
  have hpos : 0 < dev.blkSize := hblk ▸ by decide
  rw [ext2SuperblockInit, udiv_of_pos hpos, Except.ok_bind, Except.ok_bind, hblk] at hsb
  obtain ⟨hsb, hgrp⟩ := Prod.mk.inj (Except.ok.inj hsb)
  have hbyte := fun sector n j (hj : j < dev.blkSize * n) =>
    loadSectors_byte (mountOf sb grpTable dev mbr p).toExt2VfsSuperBlock (fun _ => hreads _) hpos
      sector n fresh hj
  refine ⟨fun j hj => ?_, fun j hj => ?_, hsig, rfl, rfl⟩
  · have h := hbyte 2 2 j (hblk ▸ hj)
    rw [show (mountOf sb grpTable dev mbr p).dev.blkSize = 512 from hblk] at h
    exact (congrFun hsb j).symm.trans h
  · have h := hbyte 4 1 j (by rw [Nat.mul_one]; exact hj)
    rw [show (mountOf sb grpTable dev mbr p).dev.blkSize = 512 from hblk] at h
    exact (congrFun hgrp j).symm.trans h

/-- Whichever partition it mounts. -/
theorem probePartitions_probed (hblk : dev.blkSize = 512) (hreads : ∀ lba, (dev.readBlock lba).isSome)
    {ps : List (Fin 4)} (h : probePartitions dev mbr fresh ps = .ok (some (m, root))) :
    m.Probed ∧ m.dev = dev := by
  induction ps with
  | nil => cases h
  | cons p ps ih =>
    rw [probePartitions] at h
    split at h
    case isTrue => cases h
    case isFalse =>
      split at h
      case isFalse => exact ih h
      case isTrue =>
        obtain ⟨⟨sb, grpTable⟩, hsb, h⟩ := Except.bind_eq_ok.1 h
        dsimp only at h
        split at h
        case isFalse => exact ih h
        case isTrue hsig =>
          obtain ⟨⟨m', root'⟩, hmount, h⟩ := Except.bind_eq_ok.1 h
          cases h
          obtain ⟨-, rfl, -⟩ := ext2VfsSuperblockInit_eq_ok_iff.1 hmount
          exact ⟨ext2SuperblockInit_probed hblk hreads hsb hsig, rfl⟩

/-- Where the table of group descriptors starts in a partition: at the block after the one of the superblock. -/
def descriptorTableStart (blockSize : Nat) : Nat := if blockSize = 1024 then 2048 else blockSize

/-- The group descriptors in memory are those of the partition. -/
def Ext2Mount.DescriptorsRight (m : Ext2Mount) : Prop :=
  ∀ g < m.numGroups, ∀ j < 32, m.grpTable (32 * g + j) = m.byte (descriptorTableStart m.blockSize + (32 * g + j))

/-- The same, byte by byte. -/
theorem Ext2Mount.descriptorsRight_iff : m.DescriptorsRight ↔
    ∀ j < 32 * m.numGroups, m.grpTable j = m.byte (descriptorTableStart m.blockSize + j) := by
  constructor
  · intro h j hj
    have hj' := h (j / 32) (Nat.div_lt_of_lt_mul hj) (j % 32) (Nat.mod_lt _ (by decide))
    rwa [Nat.div_add_mod] at hj'
  · intro h g hg j hj
    exact h _ (by omega)

/-- The tables of 1 KiB and 2 KiB blocks start at the same byte. -/
theorem descriptorTableStart_two_pow (k : Nat) :
    descriptorTableStart (2 ^ (k + 10)) = if k ≤ 1 then 2048 else 2 ^ (k + 10) := by
  rw [descriptorTableStart]
  match k with
  | 0 | 1 => rfl
  | k + 2 =>
    have hpow : 2 ^ (k + 2 + 10) = 4096 * 2 ^ k := by rw [Nat.add_assoc, Nat.pow_add, Nat.mul_comm]
    have hpos := Nat.two_pow_pos k
    rw [if_neg (by omega), if_neg (by omega)]

/-- For every disk with a file system of at most 16 groups, and blocks of 1 KiB times a power of two up to 64 KiB:
after `ext2_probe` the group descriptors are the right ones iff a block has 1 or 2 KiB, or the partition has the
same bytes in its block number 1 as from byte 2048 on. -/
theorem grpTable_right_iff (hblk : dev.blkSize = 512) (hreads : ∀ lba, (dev.readBlock lba).isSome)
    (hprobe : ext2Probe dev fresh = .ok (some (m, root))) (hk : m.superBlock.logSub10BlockSize ≤ 6)
    (hgroups : m.superBlock.groupCount ≤ 16) :
    m.DescriptorsRight ↔ m.superBlock.logSub10BlockSize ≤ 1 ∨
      ∀ j < 32 * m.superBlock.groupCount,
        m.byte (2048 + j) = m.byte (2 ^ (m.superBlock.logSub10BlockSize + 10) + j) := by
  obtain ⟨hm, hdev⟩ := probePartitions_probed hblk hreads hprobe
  have hbs : m.blockSize = 2 ^ (m.superBlock.logSub10BlockSize + 10) := by
    rw [hm.blockSize, Nat.mod_eq_of_lt (by omega), pow2_of_lt (by omega)]
  have htable : ∀ j < 32 * m.numGroups, m.grpTable j = m.byte (2048 + j) := fun j hj =>
    hm.grpTable j (by rw [hdev, hblk]; rw [hm.numGroups] at hj; omega)
  rw [Ext2Mount.descriptorsRight_iff, hbs, descriptorTableStart_two_pow, ← hm.numGroups]
  split
  case isTrue hk => exact iff_of_true htable (.inl hk)
  case isFalse hk =>
    rw [or_iff_right hk]
    exact forall₂_congr fun j hj => by rw [htable j hj]

end

/-- The disk of a file system of one group and blocks of 1 KiB times `2 ^ k`, with the inode table at block 5. -/
def someDisk (k : Nat) : BlockDevice :=
  diskWith (memWith [(450, 1, 0x83), (454, 4, 1), (458, 4, 1000), (1536, 4, 2048), (1540, 4, 8192), (1560, 4, k),
    (1568, 4, 8192), (1576, 4, 2048), (1592, 2, 0xEF53), (1624, 4, 128),
    (512 + descriptorTableStart (1024 * 2 ^ k) + 8, 4, 5)])

/-- A check on what is mounted. -/
theorem exists_of_any {α : Type} {r : Except CpuFault (Option α)} {p : α → Bool}
    (h : r.toOption.join.any p = true) : ∃ a, r = .ok (some a) ∧ p a = true :=
  match r, h with
  | .ok (some a), h => ⟨a, rfl, h⟩

/-- Blocks of 2 KiB. -/
theorem grpTable_right_2048 : ∃ m root, ext2Probe (someDisk 1) (fun _ => 0) = .ok (some (m, root)) ∧
    m.blockSize = 2048 ∧ m.DescriptorsRight := by
  obtain ⟨⟨m, root⟩, hprobe, hm⟩ := exists_of_any (r := ext2Probe (someDisk 1) fun _ => 0)
    (p := fun r => r.1.blockSize = 2048 ∧ r.1.superBlock.logSub10BlockSize = 1 ∧ r.1.superBlock.groupCount = 1)
    (by decide +kernel)
  obtain ⟨hbs, hk, hgroups⟩ := of_decide_eq_true hm
  dsimp only at hbs hk hgroups
  exact ⟨m, root, hprobe, hbs,
    (grpTable_right_iff rfl (fun _ => rfl) hprobe (by omega) (by omega)).2 (.inl (by omega))⟩

/-- Blocks of 4 KiB: the inode table of the group is not where its descriptor says. -/
theorem grpTable_wrong_4096 : ∃ m root, ext2Probe (someDisk 2) (fun _ => 0) = .ok (some (m, root)) ∧
    m.superBlock.logSub10BlockSize = 2 ∧ m.superBlock.groupCount = 1 ∧
    startBlockAddrInodeTable m.grpTable 0 = 0 ∧ startBlockAddrInodeTable (fun j => m.byte (4096 + j)) 0 = 5 ∧
    ¬ m.DescriptorsRight := by
  obtain ⟨⟨m, root⟩, hprobe, hm⟩ := exists_of_any (r := ext2Probe (someDisk 2) fun _ => 0)
    (p := fun r => r.1.superBlock.logSub10BlockSize = 2 ∧ r.1.superBlock.groupCount = 1 ∧
      startBlockAddrInodeTable r.1.grpTable 0 = 0 ∧
      startBlockAddrInodeTable (fun j => r.1.byte (4096 + j)) 0 = 5 ∧
      r.1.numGroups = 1 ∧ r.1.grpTable 8 ≠ r.1.byte (descriptorTableStart r.1.blockSize + 8))
    (by decide +kernel)
  obtain ⟨hk, hgroups, hzero, hfive, hnum, hne⟩ := of_decide_eq_true hm
  exact ⟨m, root, hprobe, hk, hgroups, hzero, hfive, fun h => hne (h 0 (hnum ▸ Nat.one_pos) 8 (by decide))⟩

/-! ## Inodes -/

/-- A geometry of the ext2 format, on a device whose sectors can be read and fill the blocks. -/
structure Ext2Mount.Geometry (m : Ext2Mount) : Prop where
  blockSize : ∃ e ≤ 6, m.blockSize = 1024 * 2 ^ e
  inodeSize : ∃ s, m.superBlock.inodeSize = 2 ^ s ∧ 128 ≤ 2 ^ s ∧ 2 ^ s ≤ m.blockSize
  numGroupInodes : 0 < m.superBlock.numGroupInodes
  numGroups : m.numGroups = m.superBlock.groupCount
  blkSize_pos : 0 < m.dev.blkSize
  dvd : m.dev.blkSize ∣ m.blockSize
  reads : ∀ lba, (m.dev.readBlock lba).isSome

section
variable {m : Ext2Mount} {fresh : Mem} {i g : Nat}

namespace Ext2Mount.Geometry

/-- A block is a number of whole sectors. -/
theorem sectors (h : m.Geometry) : m.dev.blkSize * (m.blockSize / m.dev.blkSize) = m.blockSize ∧
    m.blockSize / m.dev.blkSize ≤ 2 ^ 16 ∧ 0 < m.blockSize := by
  obtain ⟨e, he, hbs⟩ := h.blockSize
  have hle : 2 ^ e ≤ 2 ^ 6 := Nat.pow_le_pow_right (by decide) he
  have hpos := Nat.two_pow_pos e
  refine ⟨Nat.mul_div_cancel' h.dvd, (Nat.div_le_self ..).trans ?_, ?_⟩
  · rw [hbs]
    omega
  · rw [hbs]
    omega

/-- An inode does not straddle a block. -/
theorem inode_le (h : m.Geometry) (k : Nat) :
    k * m.superBlock.inodeSize % m.blockSize + 112 ≤ m.blockSize := by
  obtain ⟨e, -, hbs⟩ := h.blockSize
  obtain ⟨s, hs, h128, hle⟩ := h.inodeSize
  have hbs' : m.blockSize = 2 ^ (e + 10) := by rw [hbs, Nat.pow_add, Nat.mul_comm]
  have hdvd : 2 ^ s ∣ m.blockSize :=
    hbs' ▸ Nat.pow_dvd_pow 2 ((Nat.pow_le_pow_iff_right (by decide)).1 (hbs' ▸ hle))
  obtain ⟨q, hq⟩ := hdvd
  have hq0 : 0 < q := Nat.pos_of_ne_zero fun h0 => by
    rw [h0, Nat.mul_zero] at hq
    omega
  have hlt : 2 ^ s * (k % q) + 2 ^ s ≤ 2 ^ s * q := by
    rw [← Nat.mul_succ]
    exact Nat.mul_le_mul_left _ (Nat.mod_lt k hq0)
  rw [hs, Nat.mul_comm, hq, Nat.mul_mod_mul_left]
  omega

end Ext2Mount.Geometry

/-- The inode that `read_inode` returns after its checks: its bytes are those of the partition. -/
theorem readInodeAt_eq (fresh : Mem) (h : m.Geometry) (hpos : i ≠ 0) (hi : i ≤ m.superBlock.numInodes) :
    ∃ vin, readInodeAt m fresh i g = .ok vin ∧
      vin = ext2VfsInodeInit vin.extBytes i m.toExt2VfsSuperBlock ∧
      ∀ j < 112, vin.extBytes j = m.byte (startBlockAddrInodeTable m.grpTable g * m.blockSize +
        (i - 1) % m.superBlock.numGroupInodes * m.superBlock.inodeSize + j) := by
  obtain ⟨hbs, hsec, hbspos⟩ := h.sectors
  have hlt : m.superBlock.numInodes < 2 ^ 32 := (ext2SuperBlock_lt m.extSb).1
  rw [readInodeAt, inodeNum_sub_one (by omega), if_neg hpos, umod_of_pos h.numGroupInodes, Except.ok_bind,
    udiv_of_pos hbspos, Except.ok_bind, umod_of_pos hbspos, Except.ok_bind, udiv_of_pos h.blkSize_pos, Except.ok_bind]
  have hoff := h.inode_le ((i - 1) % m.superBlock.numGroupInodes)
  have hidx : (i - 1) % m.superBlock.numGroupInodes ≤ i - 1 := Nat.mod_le ..
  generalize (i - 1) % m.superBlock.numGroupInodes = idx at hoff hidx
  have hstart : startBlockAddrInodeTable m.grpTable g < 2 ^ 32 := loadLE_lt _ 4 _
  -- the block of the inode table, and its sector
  have hblock : idx * m.superBlock.inodeSize / m.blockSize ≤ idx := by
    obtain ⟨s, hs, -, hle⟩ := h.inodeSize
    rw [hs]
    exact Nat.div_le_of_le_mul (by rw [Nat.mul_comm]; exact Nat.mul_le_mul_right _ hle)
  have hnum : startBlockAddrInodeTable m.grpTable g + idx * m.superBlock.inodeSize / m.blockSize < 2 ^ 33 := by
    omega
  have hsector : (startBlockAddrInodeTable m.grpTable g + idx * m.superBlock.inodeSize / m.blockSize) *
      (m.blockSize / m.dev.blkSize) < 2 ^ 64 :=
    (Nat.mul_le_mul hnum.le hsec).trans_lt (by decide)
  have hsum := Nat.div_add_mod' (idx * m.superBlock.inodeSize) m.blockSize
  refine ⟨_, rfl, rfl, fun j hj => ?_⟩
  have hin : idx * m.superBlock.inodeSize % m.blockSize + j < m.dev.blkSize * (m.blockSize / m.dev.blkSize) := by
    rw [hbs]
    omega
  have haddr : m.dev.blkSize * ((startBlockAddrInodeTable m.grpTable g +
        idx * m.superBlock.inodeSize / m.blockSize) * (m.blockSize / m.dev.blkSize)) =
      startBlockAddrInodeTable m.grpTable g * m.blockSize +
        idx * m.superBlock.inodeSize / m.blockSize * m.blockSize := by
    rw [Nat.mul_left_comm, hbs, Nat.add_mul]
  dsimp only [ext2VfsInodeInit]
  rw [copyTo, if_pos ⟨Nat.zero_le j, by omega⟩, Nat.sub_zero, Nat.mod_eq_of_lt hsector,
    loadSectors_byte _ (fun _ => h.reads _) h.blkSize_pos _ _ _ hin, haddr]
  congr 1
  omega

/-- For every geometry and every inode number: `read_inode` returns `NULL` iff the number is 0, too large, or of a
group that does not exist, and otherwise the inode whose bytes are those at its place in the inode table of
its group, which are in one block. -/
theorem readInode_exact (h : m.Geometry) (fresh : Mem) (hi : i < 2 ^ 64) :
    (readInode m fresh i = .ok none ↔
      i = 0 ∨ m.superBlock.numInodes < i ∨ m.numGroups ≤ (i - 1) / m.superBlock.numGroupInodes) ∧
    (¬ (i = 0 ∨ m.superBlock.numInodes < i ∨ m.numGroups ≤ (i - 1) / m.superBlock.numGroupInodes) →
      ∃ vin, readInode m fresh i = .ok (some vin) ∧
        vin = ext2VfsInodeInit vin.extBytes i m.toExt2VfsSuperBlock ∧
        (∀ j < 112, vin.extBytes j = m.byte (startBlockAddrInodeTable m.grpTable
            ((i - 1) / m.superBlock.numGroupInodes) * m.blockSize +
          (i - 1) % m.superBlock.numGroupInodes * m.superBlock.inodeSize + j)) ∧
        (i - 1) % m.superBlock.numGroupInodes * m.superBlock.inodeSize % m.blockSize + 112 ≤ m.blockSize) := by
  have hnone := readInodeGroup_eq_none_iff h.numGroups h.numGroupInodes hi
  have hsome := fun g => readInodeGroup_eq_some_iff (g := g) h.numGroups h.numGroupInodes hi
  constructor
  · rw [← hnone]
    constructor
    · intro hread
      rw [readInode] at hread
      obtain ⟨g, hg, hread⟩ := Except.bind_eq_ok.1 hread
      cases g with
      | none => exact hg
      | some g =>
        obtain ⟨vin, -, hread⟩ := Except.bind_eq_ok.1 hread
        cases hread
    · intro hg
      rw [readInode, hg]
      rfl
  · intro hnot
    simp only [not_or, Nat.not_le] at hnot
    obtain ⟨hpos, hle, hlt⟩ := hnot
    have hg := (hsome _).2 ⟨hpos, Nat.le_of_not_lt hle, rfl, hlt⟩
    obtain ⟨vin, hvin, hinit, hbytes⟩ := readInodeAt_eq fresh
      (g := (i - 1) / m.superBlock.numGroupInodes) h hpos (Nat.le_of_not_lt hle)
    refine ⟨vin, ?_, hinit, hbytes, h.inode_le _⟩
    rw [readInode, hg, Except.ok_bind]
    dsimp only
    rw [hvin]
    rfl

end

/-- The root inode of a file system with blocks of 1 KiB. -/
theorem readInode_exact_root : someMount.Geometry ∧ ∃ vin, readInode someMount (fun _ => 0) 2 = .ok (some vin) ∧
    vin.ino = 2 ∧ ∀ j < 112, vin.extBytes j = someMount.byte (5 * 1024 + 128 + j) := by
  have h : someMount.Geometry :=
    { blockSize := ⟨0, by decide, by decide +kernel⟩
      inodeSize := ⟨7, by decide +kernel, by decide, by decide +kernel⟩
      numGroupInodes := by decide +kernel
      numGroups := rfl
      blkSize_pos := by decide
      dvd := by decide +kernel
      reads := fun _ => rfl }
  obtain ⟨vin, hread, hinit, hbytes, -⟩ := (readInode_exact h (fun _ => 0) (show 2 < 2 ^ 64 by decide)).2
    (by decide +kernel)
  refine ⟨h, vin, hread, by rw [hinit]; rfl, fun j hj => ?_⟩
  have hplace : startBlockAddrInodeTable someMount.grpTable ((2 - 1) / someMount.superBlock.numGroupInodes) *
      someMount.blockSize + (2 - 1) % someMount.superBlock.numGroupInodes * someMount.superBlock.inodeSize =
        5 * 1024 + 128 := by decide +kernel
  rw [hbytes j hj, hplace]

end BanjOS
