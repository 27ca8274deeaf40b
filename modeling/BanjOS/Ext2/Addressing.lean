import BanjOS.Devices.Ata
import BanjOS.Ext2.Blocks

/-!
# Sector addresses, from a block number to the drive

`ext2_read_block`, `MBR_read_block` and `ata_48_read_block` with the widths that C gives their numbers, on
a drive that only sees what is written to its registers. Nothing else reads from the drive meanwhile. For
the block numbers and block sizes of ext2 nothing wraps, so the drive is sent to the sector that
`ext2ReadBlock` over numbers without a width asks for (`ext2ReadBlock_eq`), and what it hands out arrives
at that sector's place in the buffer.
-/

namespace BanjOS

open ByteMem

/-! ## One sector -/

namespace Drive

/-- The drive finds the sector it looks for and asks for an interrupt. -/
def found (d : Drive) : Drive :=
  match d.state with
  | .busy lba => { d with state := .ready lba 0, irq := true }
  | _ => d

end Drive

/-- The loop of `ata_48_read_block`: `((uint16_t *)dst)[i] = inw(..)`, from the word `i` on with `n` words
to go, for a `dst` at the offset `off` of a buffer. -/
def readWords (disk : Nat → Nat → UInt16) (noData : UInt16) (off i : Nat) :
    (n : Nat) → Mem → Drive → Mem × Drive
  | 0, dst, d => (dst, d)
  | n + 1, dst, d =>
    let (w, d) := d.inw disk noData
    readWords disk noData off (i + 1) n (storeLE dst (off + 2 * i) 2 w.toNat) d

/-- `ata_48_read_block` when no other thread reads: the thread is woken when the drive has found the sector. -/
def ata48ReadBlock (disk : Nat → Nat → UInt16) (noData : UInt16) (blkSize : BitVec 32) (blkNum : BitVec 64)
    (off : Nat) (dst : Mem) (d : Drive) : Mem × Drive :=
  readWords disk noData off 0 (blkSize.toNat / 2) dst (ataReqExecute blkNum.toNat d).found

/-- The bytes of a sector: the drive hands out two at a time, the low one first. -/
def sectorBytes (disk : Nat → Nat → UInt16) (lba : Nat) : Mem := fun j =>
  UInt8.ofNat ((disk lba (j / 2)).toNat / 256 ^ (j % 2))

section
variable {disk : Nat → Nat → UInt16} {noData : UInt16} {lba : Nat}

/-- A word of the sector is put at its two bytes. -/
theorem storeLE_word (dst : Mem) (off i j : Nat) (hj : InRange (off + 2 * i) 2 j) :
    storeLE dst (off + 2 * i) 2 (disk lba i).toNat j = sectorBytes disk lba (j - off) := by
  obtain ⟨hle, hlt⟩ := hj
  obtain ⟨k, hk, rfl⟩ : ∃ k, k < 2 ∧ j = off + 2 * i + k := ⟨j - (off + 2 * i), by omega, by omega⟩
  have hdiv : (off + 2 * i + k - off) / 2 = i := by omega
  have hmod : (off + 2 * i + k - off) % 2 = k := by omega
  rw [storeLE, if_pos ⟨hle, hlt⟩, sectorBytes, hdiv, hmod, Nat.add_sub_cancel_left]

variable (disk noData) in
/-- The words of a sector from the word `i` on. -/
theorem readWords_eq (off : Nat) {i n : Nat} (dst : Mem) {d : Drive} (hd : d.state = .ready lba i)
    (hn : i + (n + 1) = 256) :
    (readWords disk noData off i (n + 1) dst d).1 =
      (fun j => if InRange (off + 2 * i) (2 * (n + 1)) j then sectorBytes disk lba (j - off) else dst j) ∧
    (readWords disk noData off i (n + 1) dst d).2.state = .idle := by
  induction n generalizing i dst d with
  | zero =>
    obtain rfl : i = 255 := by omega
    simp only [readWords, Drive.inw, hd]
    refine ⟨funext fun j => ?_, by simp⟩
    split
    case isTrue hj => exact storeLE_word dst off 255 j hj
    case isFalse hj => exact if_neg hj
  | succ n ih =>
    have hne : i + 1 ≠ 256 := by omega
    rw [readWords]
    simp only [Drive.inw, hd, if_neg hne]
    obtain ⟨hmem, hidle⟩ := ih (storeLE dst (off + 2 * i) 2 (disk lba i).toNat)
      (d := { d with state := .ready lba (i + 1) }) rfl (by omega)
    refine ⟨?_, hidle⟩
    rw [hmem]
    funext j
    by_cases hj : InRange (off + 2 * i) 2 j
    · -- the word just read
      have hrest : ¬ InRange (off + 2 * (i + 1)) (2 * (n + 1)) j := fun h => by
        have h₁ := h.1
        have h₂ := hj.2
        omega
      rw [if_neg hrest, if_pos (hj.mono le_rfl (by omega)), storeLE_word dst off i j hj]
    · have hiff : InRange (off + 2 * (i + 1)) (2 * (n + 1)) j ↔ InRange (off + 2 * i) (2 * (n + 1 + 1)) j := by
        simp only [InRange] at hj ⊢
        omega
      rw [storeLE, if_neg hj]
      simp only [hiff]

/-- The address in the registers after `ata_req_execute`, and the number of sectors. -/
theorem ataReqExecute_regs (d : Drive) {blkNum : Nat} (hblk : blkNum < 2 ^ 48) :
    (ataReqExecute blkNum d).lba = blkNum ∧ (ataReqExecute blkNum d).sectorCount = 1 := by
  have hregs (d : Drive) : d.readSectorsExt.regs = d.regs := by
    rw [Drive.readSectorsExt]
    split <;> rfl
  simp only [ataReqExecute, Drive.lba, Drive.sectorCount, hregs]
  simp [Drive.outb, Nat.shiftRight_eq_div_pow]
  omega

variable (disk noData) in
/-- An idle drive hands out the sector it is asked for, and is idle again. -/
theorem ata48ReadBlock_eq {d : Drive} (hidle : d.state = .idle) {blkNum : BitVec 64}
    (hblk : blkNum.toNat < 2 ^ 48) (off : Nat) (dst : Mem) :
    (ata48ReadBlock disk noData 512 blkNum off dst d).1 =
      copyTo dst off 512 (sectorBytes disk blkNum.toNat) ∧
    (ata48ReadBlock disk noData 512 blkNum off dst d).2.state = .idle := by
  have hstate := ataReqExecute_state hidle hblk
  have hfound : (ataReqExecute blkNum.toNat d).found.state = .ready blkNum.toNat 0 := by
    rw [Drive.found, hstate]
  have hwords : (512 : BitVec 32).toNat / 2 = 255 + 1 := by decide
  obtain ⟨hmem, hidle'⟩ := readWords_eq disk noData off (n := 255) dst hfound (by decide)
  rw [ata48ReadBlock, hwords]
  exact ⟨hmem, hidle'⟩

end

/-! ## One block -/

/-- What `ext2_read_block` and `MBR_read_block` read of the superblock, the device and the partition
table. -/
structure AtaMount where
  blockSize : BitVec 64
  blkSize : BitVec 32
  firstSectorLba : Fin 4 → BitVec 32
  partNum : Fin 4

namespace AtaMount

variable (m : AtaMount) (disk : Nat → Nat → UInt16) (noData : UInt16)

/-- `MBR_read_block`: the sector of the disk that is asked for. -/
def mbrSector (blkNum : BitVec 64) : BitVec 64 := (m.firstSectorLba m.partNum).setWidth 64 + blkNum

/-- `vsb->block_size / vsb->dev->blk_size`. -/
def numSectors : BitVec 64 := m.blockSize / m.blkSize.setWidth 64

/-- `sector_num` of `ext2_read_block`. -/
def sectorNum (blockNum : BitVec 64) : BitVec 64 := blockNum * m.numSectors

/-- The loop of `ext2_read_block`, from the sector `i` on, with `n` sectors to go. `ata_48_read_block`
returns 1 in every case. -/
def readSectors (sectorNum i : BitVec 64) : (n : Nat) → Mem → Drive → Mem × Drive
  | 0, dst, d => (dst, d)
  | n + 1, dst, d =>
    let (dst, d) := ata48ReadBlock disk noData m.blkSize (m.mbrSector (sectorNum + i))
      (m.blkSize.setWidth 64 * i).toNat dst d
    readSectors sectorNum (i + 1) n dst d

/-- `ext2_read_block`. -/
def ext2ReadBlock (blockNum : BitVec 64) (dst : Mem) (d : Drive) : Mem × Drive :=
  m.readSectors disk noData (m.sectorNum blockNum) 0 m.numSectors.toNat dst d

/-- The mount over numbers without a width, on a device that gives the sectors of the disk. -/
def toVfs : Ext2VfsSuperBlock where
  blockSize := m.blockSize.toNat
  dev := ⟨m.blkSize.toNat, fun lba => some (sectorBytes disk lba)⟩
  firstSectorLba p := (m.firstSectorLba p).toNat
  partNum := m.partNum

/-- A block size of ext2, from 1 KiB to 64 KiB, on sectors of 512 bytes. -/
structure Sizes (m : AtaMount) (e : Nat) : Prop where
  le : e ≤ 6
  blockSize : m.blockSize = BitVec.ofNat 64 (1024 * 2 ^ e)
  blkSize : m.blkSize = 512

variable {m disk noData} {e : Nat} {blockNum i : BitVec 64}

theorem numSectors_toNat : m.numSectors.toNat = m.blockSize.toNat / m.blkSize.toNat := by
  rw [numSectors, BitVec.toNat_udiv, BitVec.toNat_setWidth_of_le (by decide)]

namespace Sizes

theorem pow_le (h : m.Sizes e) : 2 ^ e ≤ 64 := Nat.pow_le_pow_right (by decide) h.le

theorem blockSize_toNat (h : m.Sizes e) : m.blockSize.toNat = 1024 * 2 ^ e := by
  have := h.pow_le
  rw [h.blockSize, BitVec.toNat_ofNat, Nat.mod_eq_of_lt (by omega)]

theorem blkSize_toNat (h : m.Sizes e) : m.blkSize.toNat = 512 := by
  rw [h.blkSize]
  rfl

theorem numSectors_eq (h : m.Sizes e) : m.numSectors.toNat = 1024 * 2 ^ e / 512 := by
  rw [numSectors_toNat, h.blockSize_toNat, h.blkSize_toNat]

theorem numSectors_le (h : m.Sizes e) : m.numSectors.toNat ≤ 128 := by
  have := h.pow_le
  rw [h.numSectors_eq]
  omega

theorem readable (h : m.Sizes e) : (m.toVfs disk).Readable where
  blkSize_pos := by simp [toVfs, h.blkSize_toNat]
  dvd := by
    simp only [toVfs, h.blkSize_toNat, h.blockSize_toNat]
    exact Dvd.dvd.mul_right (by decide) _
  reads _ := rfl

/-- No step of the address wraps, and the sum is an address the drive has registers for. -/
theorem mbrSector_toNat (h : m.Sizes e) (hblock : blockNum.toNat < 2 ^ 32) (hi : i.toNat < m.numSectors.toNat) :
    (m.mbrSector (m.sectorNum blockNum + i)).toNat =
      (m.firstSectorLba m.partNum).toNat + (blockNum.toNat * m.numSectors.toNat + i.toNat) ∧
    (m.mbrSector (m.sectorNum blockNum + i)).toNat < 2 ^ 48 := by
  have hn := h.numSectors_le
  have hfirst := (m.firstSectorLba m.partNum).isLt
  have hprod : blockNum.toNat * m.numSectors.toNat ≤ 2 ^ 32 * 128 := Nat.mul_le_mul hblock.le hn
  have hmul : (m.sectorNum blockNum).toNat = blockNum.toNat * m.numSectors.toNat := by
    rw [sectorNum, BitVec.toNat_mul, Nat.mod_eq_of_lt (by omega)]
  have hadd : (m.sectorNum blockNum + i).toNat = blockNum.toNat * m.numSectors.toNat + i.toNat := by
    rw [BitVec.toNat_add, hmul, Nat.mod_eq_of_lt (by omega)]
  have hsum : (m.mbrSector (m.sectorNum blockNum + i)).toNat =
      (m.firstSectorLba m.partNum).toNat + (blockNum.toNat * m.numSectors.toNat + i.toNat) := by
    rw [mbrSector, BitVec.toNat_add, hadd, BitVec.toNat_setWidth_of_le (by decide), Nat.mod_eq_of_lt (by omega)]
  exact ⟨hsum, by omega⟩

/-- The place of a sector in the buffer does not wrap. -/
theorem offset_toNat (h : m.Sizes e) (hi : i.toNat < m.numSectors.toNat) :
    (m.blkSize.setWidth 64 * i).toNat = m.blkSize.toNat * i.toNat := by
  have hn := h.numSectors_le
  have hle : m.blkSize.toNat * i.toNat ≤ 512 * 128 := by
    rw [h.blkSize_toNat]
    exact Nat.mul_le_mul_left _ (hi.le.trans hn)
  rw [BitVec.toNat_mul, BitVec.toNat_setWidth_of_le (by decide), Nat.mod_eq_of_lt (by omega)]

variable (disk noData) in
/-- The loop reads the sectors that the loop over numbers without a width reads. -/
theorem readSectors_eq (h : m.Sizes e) (hblock : blockNum.toNat < 2 ^ 32) (n : Nat) (i : BitVec 64) (dst : Mem)
    (d : Drive) (hn : i.toNat + n = m.numSectors.toNat) (hidle : d.state = .idle) :
    (m.readSectors disk noData (m.sectorNum blockNum) i n dst d).1 =
      (BanjOS.readSectors (m.toVfs disk) (blockNum.toNat * m.numSectors.toNat) i.toNat n dst).2 ∧
    (m.readSectors disk noData (m.sectorNum blockNum) i n dst d).2.state = .idle := by
  induction n generalizing i dst d with
  | zero => exact ⟨rfl, hidle⟩
  | succ n ih =>
    have hi : i.toNat < m.numSectors.toNat := by omega
    have hle := h.numSectors_le
    have hnext : (i + 1).toNat = i.toNat + 1 := by
      rw [BitVec.toNat_add, show (1 : BitVec 64).toNat = 1 from rfl, Nat.mod_eq_of_lt (by omega)]
    obtain ⟨hsum, hlt⟩ := h.mbrSector_toNat hblock hi
    obtain ⟨hmem, hidle'⟩ := ata48ReadBlock_eq disk noData hidle hlt
      (m.blkSize.setWidth 64 * i).toNat dst
    rw [← h.blkSize] at hmem hidle'
    rw [readSectors]
    generalize ata48ReadBlock disk noData m.blkSize (m.mbrSector (m.sectorNum blockNum + i))
      (m.blkSize.setWidth 64 * i).toNat dst d = read at hmem hidle' ⊢
    obtain ⟨dst', d'⟩ := read
    obtain ⟨hrun, hlast⟩ := ih (i + 1) dst' d' (by omega) hidle'
    refine ⟨hrun.trans ?_, hlast⟩
    dsimp only at hmem
    rw [hmem, hnext, hsum, h.offset_toNat hi, ← h.blkSize_toNat]
    rfl

end Sizes

/-- `ext2_read_block` through the registers fills the buffer as `ext2ReadBlock` over numbers without a width
does. -/
theorem ext2ReadBlock_eq (h : m.Sizes e) (hblock : blockNum.toNat < 2 ^ 32) (dst : Mem) {d : Drive}
    (hidle : d.state = .idle) :
    (m.ext2ReadBlock disk noData blockNum dst d).1 =
      (BanjOS.ext2ReadBlock (m.toVfs disk) blockNum.toNat dst).2 ∧
    (m.ext2ReadBlock disk noData blockNum dst d).2.state = .idle := by
  have hrun := h.readSectors_eq disk noData hblock m.numSectors.toNat 0 dst d
    (Nat.zero_add _) hidle
  rw [numSectors_toNat] at hrun
  rw [ext2ReadBlock, numSectors_toNat]
  exact hrun

end AtaMount

/-- The drive is sent to the sector `i` of the block, with nothing wrapped or cut off on the way and for one
sector, and what it hands out is put at `512 * i` of the buffer. -/
theorem ext2ReadBlock_sector {m : AtaMount} {e : Nat} (h : m.Sizes e) (disk : Nat → Nat → UInt16)
    (noData : UInt16) {blockNum : BitVec 64} (hblock : blockNum.toNat < 2 ^ 32) {i : Nat} (hi : i < m.blockSize.toNat / 512)
    (dst : Mem) {d : Drive} (hidle : d.state = .idle) :
    (∀ d' : Drive,
      (ataReqExecute (m.mbrSector (m.sectorNum blockNum + BitVec.ofNat 64 i)).toNat d').lba =
        (m.firstSectorLba m.partNum).toNat + blockNum.toNat * (m.blockSize.toNat / 512) + i ∧
      (ataReqExecute (m.mbrSector (m.sectorNum blockNum + BitVec.ofNat 64 i)).toNat d').sectorCount = 1) ∧
    ∀ j < 512, (m.ext2ReadBlock disk noData blockNum dst d).1 (512 * i + j) =
      sectorBytes disk
        ((m.firstSectorLba m.partNum).toNat + blockNum.toNat * (m.blockSize.toNat / 512) + i) j := by
  have hn : m.numSectors.toNat = m.blockSize.toNat / 512 := by rw [m.numSectors_toNat, h.blkSize_toNat]
  have hle := h.numSectors_le
  have hi' : (BitVec.ofNat 64 i).toNat = i := by rw [BitVec.toNat_ofNat, Nat.mod_eq_of_lt (by omega)]
  obtain ⟨hsum, hlt⟩ := h.mbrSector_toNat hblock (i := BitVec.ofNat 64 i) (by omega)
  rw [hi', hn, ← Nat.add_assoc] at hsum
  refine ⟨fun d' => ?_, fun j hj => ?_⟩
  · obtain ⟨hlba, hcount⟩ := ataReqExecute_regs d' hlt
    exact ⟨hlba.trans hsum, hcount⟩
  · have hbs : 512 * i + j < m.blockSize.toNat := by omega
    rw [(m.ext2ReadBlock_eq h hblock dst hidle).1, ext2ReadBlock_apply h.readable _ _ hbs]
    have hdiv : (512 * i + j) / 512 = i := by omega
    have hmod : (512 * i + j) % 512 = j := by omega
    simp [diskBlock, mbrReadBlock, AtaMount.toVfs, h.blkSize_toNat, hdiv, hmod, ← Nat.add_assoc]

/-- A partition at the last sector it can start at, with blocks of 64 KiB. -/
def lastMount : AtaMount := ⟨65536, 512, fun _ => 0xFFFFFFFF, Fin.last 3⟩

/-- The last sector of its last block: nothing is lost of an address of forty bits. -/
theorem ext2ReadBlock_sector_last :
    (ataReqExecute (lastMount.mbrSector (lastMount.sectorNum 0xFFFFFFFF + BitVec.ofNat 64 127)).toNat
      idleAta.drive).lba = 0xFFFFFFFF + 0xFFFFFFFF * 128 + 127 ∧
    ∀ j < 512, (lastMount.ext2ReadBlock (fun _ _ => 0x1234) 0 0xFFFFFFFF (fun _ => 0) idleAta.drive).1
      (512 * 127 + j) = sectorBytes (fun _ _ => 0x1234) (0xFFFFFFFF + 0xFFFFFFFF * 128 + 127) j := by
  have hsizes : lastMount.Sizes 6 := ⟨by decide, by decide, rfl⟩
  have hblock : (0xFFFFFFFF : BitVec 64).toNat < 2 ^ 32 := by decide
  have hi : 127 < lastMount.blockSize.toNat / 512 := by decide
  obtain ⟨hregs, hread⟩ := ext2ReadBlock_sector hsizes (fun _ _ => 0x1234) 0 hblock hi (fun _ => 0)
    (d := idleAta.drive) rfl
  exact ⟨(hregs idleAta.drive).1, hread⟩

end BanjOS
