import BanjOS.Devices.Ata
import BanjOS.Ext2.ReadBounds

/-!
# Read errors

What becomes of an error of the drive on its way up, through `ata_48_read_block` (`block_device.c`),
`MBR_read_block`, `ext2_read_block`, `read_inode_block` and `ext2_file_read`. The drive may answer every request as
it likes, so the functions are modelled again with the number of requests served so far, and with a log of what
each call returned. Where the answers depend on the sector only, they are the functions on a block device
(`ext2FileRead_serves`). An error is not reported by any of the layers (`errorsReported_iff`), and the bytes of the
block are counted as bytes of the file (`copied_pos`).
-/

namespace BanjOS

open ByteMem

/-! ## The drive -/

/-- The loop of `ata_48_read_block` over the statuses it reads: the one that it ends with. -/
def waitLoop : List UInt8 → Option UInt8
  | [] => none
  | status :: rest => if mustWait status then waitLoop rest else some status

/-- How the drive completes a request for a sector: the statuses that the driver reads, and then the words. -/
structure AtaAnswer where
  statuses : List UInt8
  words : Nat → UInt16
  ends : (waitLoop statuses).isSome

/-- The status that the request completes with. -/
def AtaAnswer.status (a : AtaAnswer) : UInt8 := (waitLoop a.statuses).get a.ends

/-- The words as bytes. -/
def AtaAnswer.bytes (a : AtaAnswer) : Mem := fun j => UInt8.ofNat ((a.words (j / 2)).toNat / 256 ^ (j % 2))

/-- A drive: its answer to a request, by the number of requests before it and the sector. -/
structure AtaDrive where
  answer : Nat → Nat → AtaAnswer

/-- A call of `ata_48_read_block`: the status after its wait, and what it returned. -/
structure AtaRead where
  status : UInt8
  returned : Nat
  deriving DecidableEq

/-- The request has completed with `STATUS_ERR`. -/
def AtaRead.Failed (read : AtaRead) : Prop := read.status &&& 0x01 ≠ 0

instance (read : AtaRead) : Decidable read.Failed := inferInstanceAs (Decidable (_ ≠ _))

/-- A call of `ext2_read_block`: the reads of sectors that it made, and what it returned. -/
structure BlockRead where
  reads : List AtaRead
  returned : Bool
  deriving DecidableEq

/-- How many requests the calls have made. -/
def requests (log : List BlockRead) : Nat := (log.map fun b => b.reads.length).sum

/-- A turn of the loop of `ext2_file_read`: its calls of `ext2_read_block`, and by how much it counted on. -/
structure ReadTurn where
  blockReads : List BlockRead
  copied : Int
  deriving DecidableEq

/-! ## The code -/

namespace AtaDrive

/-- `ata_48_read_block`, after `served` requests, and the bytes it stores. -/
def ata48ReadBlock (drive : AtaDrive) (served blkNum : Nat) : AtaRead × Mem :=
  let answer := drive.answer served (blkNum % 2 ^ 48)
  (⟨answer.status, 1⟩, answer.bytes)

/-- `MBR_read_block`. -/
def mbrReadBlock (drive : AtaDrive) (vsb : Ext2VfsSuperBlock) (served blkNum : Nat) : AtaRead × Mem :=
  drive.ata48ReadBlock served (vsb.firstSectorLba vsb.partNum + blkNum)

/-- The loop of `ext2_read_block`, with `n` sectors to go. -/
def readSectors (drive : AtaDrive) (vsb : Ext2VfsSuperBlock) (served sectorNum : Nat) :
    (n : Nat) → (reads : List AtaRead) → Mem → BlockRead × Mem
  | 0, reads, dst => (⟨reads, true⟩, dst)
  | n + 1, reads, dst =>
    let i := reads.length
    let (read, sector) := drive.mbrReadBlock vsb (served + i) (sectorNum + i)
    let dst := copyTo dst (vsb.dev.blkSize * i) vsb.dev.blkSize sector
    if read.returned = 0 then (⟨reads ++ [read], false⟩, dst)
    else readSectors drive vsb served sectorNum n (reads ++ [read]) dst

/-- `ext2_read_block`. -/
def ext2ReadBlock (drive : AtaDrive) (vsb : Ext2VfsSuperBlock) (served blockNum : Nat) (dst : Mem) :
    BlockRead × Mem :=
  drive.readSectors vsb served (blockNum * (vsb.blockSize / vsb.dev.blkSize)) (vsb.blockSize / vsb.dev.blkSize) [] dst

/-- A call of `ext2_read_block` whose result is not looked at, after those of the log. -/
def loadBlock (drive : AtaDrive) (vsb : Ext2VfsSuperBlock) (served : Nat) (log : List BlockRead) (blockNum : Nat)
    (dst : Mem) : List BlockRead × Mem :=
  let (read, dst) := drive.ext2ReadBlock vsb (served + requests log) blockNum dst
  (log ++ [read], dst)

/-- `read_inode_block`. -/
def readInodeBlock (drive : AtaDrive) (vsb : Ext2VfsSuperBlock) (extIn : Ext2Inode) (fresh : Mem)
    (served block : Nat) (dst : Mem) : List BlockRead × Mem :=
  let numIndirectPer := vsb.blockSize / 4
  let load := drive.loadBlock vsb served
  if h : block < 12 then load [] (extIn.directBlocks ⟨block, h⟩) dst
  else if block - 12 < numIndirectPer then
    let (log, indirectBlock) := load [] extIn.singlyIndirectBlock fresh
    load log (pointerAt indirectBlock (block - 12)) dst
  else if block - 12 - numIndirectPer < numIndirectPer * numIndirectPer then
    let off := block - 12 - numIndirectPer
    let singleOff := off / numIndirectPer
    let doubleOff := off % numIndirectPer
    let (log, indirectBlock) := load [] extIn.singlyIndirectBlock fresh
    let (log, _indirecterBlock) := load log (pointerAt indirectBlock singleOff) fresh
    load log (pointerAt indirectBlock doubleOff) dst
  else if block - 12 - numIndirectPer - numIndirectPer * numIndirectPer <
      numIndirectPer * numIndirectPer * numIndirectPer then
    let off := block - 12 - numIndirectPer - numIndirectPer * numIndirectPer
    let singleOff := off / (numIndirectPer * numIndirectPer)
    let doubleOff := off % (numIndirectPer * numIndirectPer)
    let tripleOff := doubleOff / numIndirectPer
    let quadOff := doubleOff % numIndirectPer
    let (log, indirectBlock) := load [] extIn.doublyIndirectBlock fresh
    let (log, indirecterBlock) := load log (pointerAt indirectBlock singleOff) fresh
    let (log, _indirecterBlock) := load log (pointerAt indirecterBlock tripleOff) indirecterBlock
    load log (pointerAt indirectBlock quadOff) dst
  else ([], dst)

end AtaDrive

/-- A turn of the loop of `ext2_file_read` after `read_inode_block`. -/
def ReadLoop.take (len : Int) (st : ReadLoop) (contentBlock : Mem) : ReadLoop :=
  let (off, size) := st.piece len
  let copied := toInt size
  { exfi := { st.exfi with cursor := wrapInt (st.exfi.cursor + copied) }
    bytesRead := wrapInt (st.bytesRead + copied)
    block := wrapInt (st.block + 1)
    contentBlock := contentBlock
    dst := toU64 (st.dst + copied)
    out := copyTo st.out st.dst size fun j => contentBlock (off + j) }

/-- The loop of `ext2_file_read`, for at most the given number of turns: its turns, and the variables where it
ends. -/
def AtaDrive.readLoop (drive : AtaDrive) (fresh : Mem) (len : Int) :
    Nat → (served : Nat) → ReadLoop → List ReadTurn × Option ReadLoop
  | 0, _, _ => ([], none)
  | fuel + 1, served, st =>
    if st.bytesRead < len ∧ toU64 st.exfi.cursor < st.exfi.inode.stSize then
      let inode := st.exfi.inode
      let (blockReads, contentBlock) :=
        drive.readInodeBlock inode.vsb inode.extIn fresh served (toU64 st.block) st.contentBlock
      let (turns, last) := drive.readLoop fresh len fuel (served + requests blockReads) (st.take len contentBlock)
      (⟨blockReads, toInt (st.piece len).2⟩ :: turns, last)
    else ([], some st)

/-- `ext2_file_read`. -/
def AtaDrive.ext2FileRead (drive : AtaDrive) (exfi : Ext2File) (call : ReadCall) :
    List ReadTurn × Option ReadLoop :=
  drive.readLoop call.fresh call.len (call.len.toNat + 1) 0 (readStart exfi call)

/-! ## Drives that go by the sector -/

/-- The drive holds the sectors of the device. -/
def AtaDrive.Serves (drive : AtaDrive) (dev : BlockDevice) : Prop :=
  ∀ served blkNum, dev.readBlock blkNum = some (drive.ata48ReadBlock served blkNum).2

section
variable {drive : AtaDrive} {vsb : Ext2VfsSuperBlock} {extIn : Ext2Inode} {fresh dst : Mem} {served sectorNum n : Nat}
  {reads : List AtaRead} {log : List BlockRead}

namespace AtaDrive

/-- `ata_48_read_block` always returns 1, so the loop of `ext2_read_block` goes on. -/
theorem readSectors_succ : drive.readSectors vsb served sectorNum (n + 1) reads dst =
    drive.readSectors vsb served sectorNum n
      (reads ++ [(drive.mbrReadBlock vsb (served + reads.length) (sectorNum + reads.length)).1])
      (copyTo dst (vsb.dev.blkSize * reads.length) vsb.dev.blkSize
        (drive.mbrReadBlock vsb (served + reads.length) (sectorNum + reads.length)).2) := by
  rw [readSectors]
  exact if_neg Nat.one_ne_zero

/-- The loop of `ext2_read_block` on such a drive. -/
theorem readSectors_serves (h : drive.Serves vsb.dev) :
    (drive.readSectors vsb served sectorNum n reads dst).2 =
      (BanjOS.readSectors vsb sectorNum reads.length n dst).2 := by
  induction n generalizing reads dst with
  | zero => rfl
  | succ n ih =>
    have hread : BanjOS.mbrReadBlock vsb (sectorNum + reads.length) =
        some (drive.mbrReadBlock vsb (served + reads.length) (sectorNum + reads.length)).2 := h _ _
    rw [readSectors_succ, BanjOS.readSectors, hread, ih, List.length_append, List.length_singleton]

theorem loadBlock_serves (h : drive.Serves vsb.dev) (blockNum : Nat) :
    (drive.loadBlock vsb served log blockNum dst).2 = (BanjOS.ext2ReadBlock vsb blockNum dst).2 :=
  readSectors_serves h

/-- `read_inode_block` on such a drive. -/
theorem readInodeBlock_serves (h : drive.Serves vsb.dev) (block : Nat) :
    (drive.readInodeBlock vsb extIn fresh served block dst).2 = BanjOS.readInodeBlock vsb extIn fresh block dst := by
  simp only [readInodeBlock, BanjOS.readInodeBlock]
  split
  · exact loadBlock_serves h _
  split
  · simp only [loadBlock_serves h]
  split
  · simp only [loadBlock_serves h]
  split
  · simp only [loadBlock_serves h]
  · rfl

/-- A turn is `read_inode_block` and the rest. -/
theorem readLoop_serves {len : Int} {fuel : Nat} {st : ReadLoop} (h : drive.Serves st.exfi.inode.vsb.dev) :
    (drive.readLoop fresh len fuel served st).2 = BanjOS.readLoop fresh len fuel st := by
  induction fuel generalizing served st with
  | zero => rfl
  | succ fuel ih =>
    rw [readLoop, BanjOS.readLoop]
    split
    case isTrue =>
      dsimp only
      rw [readInodeBlock_serves h]
      exact ih h
    case isFalse => rfl

/-- On a drive whose answers depend on the sector only, `ext2_file_read` is the function on a block device. -/
theorem ext2FileRead_serves {exfi : Ext2File} (h : drive.Serves exfi.inode.vsb.dev) (call : ReadCall) :
    (drive.ext2FileRead exfi call).2 = BanjOS.ext2FileRead exfi call := readLoop_serves h

end AtaDrive

end

/-! ## What is returned -/

/-- All calls have returned that they succeeded. -/
def BlockRead.Succeeded (b : BlockRead) : Prop := b.returned = true ∧ ∀ r ∈ b.reads, r.returned = 1

section
variable {drive : AtaDrive} {vsb : Ext2VfsSuperBlock} {extIn : Ext2Inode} {fresh dst : Mem} {served sectorNum n : Nat}
  {reads : List AtaRead} {log : List BlockRead}

namespace AtaDrive

theorem readSectors_succeeded (h : ∀ r ∈ reads, r.returned = 1) :
    (drive.readSectors vsb served sectorNum n reads dst).1.Succeeded := by
  induction n generalizing reads dst with
  | zero => exact ⟨rfl, h⟩
  | succ n ih =>
    rw [readSectors_succ]
    exact ih (List.forall_mem_append.2 ⟨h, List.forall_mem_singleton.2 rfl⟩)

theorem loadBlock_succeeded (h : ∀ b ∈ log, b.Succeeded) (blockNum : Nat) :
    ∀ b ∈ (drive.loadBlock vsb served log blockNum dst).1, b.Succeeded :=
  List.forall_mem_append.2 ⟨h, List.forall_mem_singleton.2 (readSectors_succeeded nofun)⟩

theorem readInodeBlock_succeeded (block : Nat) :
    ∀ b ∈ (drive.readInodeBlock vsb extIn fresh served block dst).1, b.Succeeded := by
  have hnil : ∀ b ∈ ([] : List BlockRead), b.Succeeded := nofun
  rw [readInodeBlock]
  dsimp only
  split
  · exact loadBlock_succeeded hnil _
  split
  · exact loadBlock_succeeded (loadBlock_succeeded hnil _) _
  split
  · exact loadBlock_succeeded (loadBlock_succeeded (loadBlock_succeeded hnil _) _) _
  split
  · exact loadBlock_succeeded (loadBlock_succeeded (loadBlock_succeeded (loadBlock_succeeded hnil _) _) _) _
  · exact hnil

theorem readLoop_succeeded {len : Int} {fuel : Nat} {st : ReadLoop} :
    ∀ turn ∈ (drive.readLoop fresh len fuel served st).1, ∀ b ∈ turn.blockReads, b.Succeeded := by
  induction fuel generalizing served st with
  | zero => exact nofun
  | succ fuel ih =>
    rw [readLoop]
    split
    case isTrue =>
      dsimp only
      exact List.forall_mem_cons.2 ⟨readInodeBlock_succeeded _, ih⟩
    case isFalse => exact nofun

end AtaDrive

end

/-! ## What is counted -/

section
variable {drive : AtaDrive} {inode : Ext2VfsInode} {fresh : Mem} {c r len fuel served : Nat}
  {st : ReadLoop}

/-- A turn counts on, whatever the block holds. -/
theorem ReadLoop.take_eq (contentBlock : Mem) (hexfi : st.exfi = ⟨inode, ↑(c + r)⟩) (hread : st.bytesRead = r)
    (hbs : 0 < inode.vsb.blockSize) (hlen : c + len + inode.vsb.blockSize < 2 ^ 31) (hr : r < len)
    (hc : c + r < inode.stSize) : ∃ n, 0 < n ∧ c + (r + n) < 2 ^ 31 ∧ toInt (st.piece len).2 = n ∧
      (st.take len contentBlock).exfi = ⟨inode, ↑(c + (r + n))⟩ ∧
      (st.take len contentBlock).bytesRead = ↑(r + n) := by
  obtain ⟨hn, -⟩ := chunkSize_bounds hbs hc hr
  have hle : r + chunkSize inode.vsb.blockSize inode.stSize len (c + r) r ≤ len + inode.vsb.blockSize :=
    chunkSize_le hr hc
  have hpiece := ReadLoop.piece_eq hexfi hread hbs (by omega) (by omega) hr hc (by omega)
  generalize chunkSize inode.vsb.blockSize inode.stSize len (c + r) r = n at hn hle hpiece
  have hcopied : toInt n = n := toInt_of_lt (by omega)
  refine ⟨n, hn, by omega, by rw [hpiece, hcopied], ?_, ?_⟩
  · simp only [ReadLoop.take, hpiece, hexfi, hcopied]
    rw [← Int.natCast_add, wrapInt_natCast (by omega), Nat.add_assoc]
  · simp only [ReadLoop.take, hpiece, hread, hcopied]
    rw [← Int.natCast_add, wrapInt_natCast (by omega)]

theorem AtaDrive.readLoop_of_not_goesOn {len : Int} (h : ¬ st.GoesOn len) :
    drive.readLoop fresh len (fuel + 1) served st = ([], some st) := by
  rw [readLoop]
  exact if_neg h

/-- Every turn counts something, also one that has not been able to read its block. -/
theorem AtaDrive.readLoop_copied_pos (hexfi : st.exfi = ⟨inode, ↑(c + r)⟩) (hread : st.bytesRead = r)
    (hbs : 0 < inode.vsb.blockSize) (hlen : c + len + inode.vsb.blockSize < 2 ^ 31) (hlt : c + r < 2 ^ 31) :
    ∀ turn ∈ (drive.readLoop fresh len fuel served st).1, 0 < turn.copied := by
  induction fuel generalizing r served st with
  | zero => exact nofun
  | succ fuel ih =>
    rw [readLoop]
    split
    case isTrue hgo =>
      obtain ⟨hr, hc⟩ := hgo
      rw [hread, Nat.cast_lt] at hr
      rw [hexfi, toU64_natCast (by omega)] at hc
      dsimp only
      obtain ⟨n, hn, hlt', hcopied, hexfi', hread'⟩ := ReadLoop.take_eq (drive.readInodeBlock st.exfi.inode.vsb
        st.exfi.inode.extIn fresh served (toU64 st.block) st.contentBlock).2 hexfi hread hbs hlen hr hc
      refine List.forall_mem_cons.2 ⟨?_, ih hexfi' hread' hlt'⟩
      dsimp only
      rw [hcopied]
      exact Int.natCast_pos.2 hn
    case isFalse => exact nofun

/-- For every drive: as long as no `int` wraps around, every turn of `ext2_file_read` counts bytes of its block. -/
theorem copied_pos (drive : AtaDrive) (inode : Ext2VfsInode) (hbs : 0 < inode.vsb.blockSize) (c : Nat)
    (call : ReadCall) (hc : c < 2 ^ 31) (hlen : c + call.len + inode.vsb.blockSize < 2 ^ 31) :
    ∀ turn ∈ (drive.ext2FileRead ⟨inode, c⟩ call).1, 0 < turn.copied := by
  rcases le_or_gt call.len 0 with hneg | hpos
  · have hstop : ¬ (readStart ⟨inode, c⟩ call).GoesOn call.len := fun hgo => Int.not_lt.2 hneg hgo.1
    rw [AtaDrive.ext2FileRead, AtaDrive.readLoop_of_not_goesOn hstop]
    exact nofun
  · obtain ⟨len, hcall⟩ := Int.eq_ofNat_of_zero_le hpos.le
    rw [AtaDrive.ext2FileRead, hcall]
    exact AtaDrive.readLoop_copied_pos (c := c) (r := 0) rfl rfl hbs (by omega) (by omega)

end

/-! ## Reporting -/

/-- The errors of the drive are reported: where a sector cannot be read, `ata_48_read_block` and `ext2_read_block`
say so, and no bytes are counted. -/
def ErrorsReported (turns : List ReadTurn) : Prop :=
  ∀ turn ∈ turns, ∀ b ∈ turn.blockReads, ∀ r ∈ b.reads, r.Failed →
    r.returned = 0 ∧ b.returned = false ∧ turn.copied = 0

/-- For every drive, every file and every call of `ext2_file_read`: the errors are reported iff there are none. -/
theorem errorsReported_iff (drive : AtaDrive) (exfi : Ext2File) (call : ReadCall) :
    ErrorsReported (drive.ext2FileRead exfi call).1 ↔
      ∀ turn ∈ (drive.ext2FileRead exfi call).1, ∀ b ∈ turn.blockReads, ∀ r ∈ b.reads, ¬ r.Failed := by
  constructor
  · intro h turn hturn b hb r hr hfailed
    have hzero := (h turn hturn b hb r hr hfailed).1
    have hone := (AtaDrive.readLoop_succeeded turn hturn b hb).2 r hr
    rw [hone] at hzero
    cases hzero
  · exact fun h turn hturn b hb r hr hfailed => absurd hfailed (h turn hturn b hb r hr)

/-- A drive that completes every request with `DRDY` and `ERR`, and hands out zeros. -/
def errDrive : AtaDrive := ⟨fun _ _ => ⟨[0x80, 0x41], fun _ => 0, by decide⟩⟩

/-- A read of 10 bytes of a file on it reads a block and returns 10 bytes. -/
theorem errors_not_reported :
    (errDrive.ext2FileRead ⟨linkFile 2000, 0⟩ (zeroCall 10)).1 = [⟨[⟨[⟨0x41, 1⟩, ⟨0x41, 1⟩], true⟩], 10⟩] ∧
      ¬ ErrorsReported (errDrive.ext2FileRead ⟨linkFile 2000, 0⟩ (zeroCall 10)).1 := by
  have hturns : (errDrive.ext2FileRead ⟨linkFile 2000, 0⟩ (zeroCall 10)).1 =
      [⟨[⟨[⟨0x41, 1⟩, ⟨0x41, 1⟩], true⟩], 10⟩] := by decide +kernel
  rw [hturns]
  refine ⟨rfl, fun h => ?_⟩
  have hread := h _ (List.mem_singleton_self _) _ (List.mem_singleton_self _) ⟨0x41, 1⟩ (by decide) (by decide)
  exact absurd hread.1 (by decide)

end BanjOS
