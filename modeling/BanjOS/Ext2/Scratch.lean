import BanjOS.Allocator.MachineRuns
import BanjOS.Ext2.Mount
import BanjOS.Lib.Hoare
import Mathlib.Data.Multiset.AddSub

/-!
# The scratch memory of the file system

`read_inode_block`, `read_inode` and `ext2_file_read` (`ext2.c`) over the heap: their calls of `kmalloc` and `kfree`, those
of `ata_48_read_block` below them, and every byte that they read or write in a buffer, each of which can fault. A buffer is
an address. The objects that are not written here (`struct Ext2VfsInode`, the superblock) are values, as in the modules on
their contents. Beside the heap stands which blocks `kmalloc` has returned that `kfree` has not been called with.

`ext2_file_read` never gives back its buffer (`ext2FileRead_owns`), whatever the heap is.
-/

namespace BanjOS

open ByteMem

/-- The heap, the blocks that `kmalloc` has returned and `kfree` has not been called with, and the requests of
the drive (`req_head` to `req_tail`). -/
structure FsState (σ : Type) where
  heap : σ
  live : List Live
  reqs : List Nat

/-- Code that runs on the heap. It can halt or divide by zero. -/
abbrev FsM (σ : Type) := StateT (FsState σ) (Except (Stop ⊕ CpuFault))

namespace Fs

section
variable {σ : Type} [PagedBytes σ] (pools : Nat)

/-! ## Memory -/

/-- A call of `kmalloc`. -/
def kmalloc (size : Nat) : FsM σ Nat := fun s => do
  let (p, heap) ← (BanjOS.kmalloc pools size s.heap).mapError .inl
  .ok (p, { s with heap, live := ⟨p, size⟩ :: s.live })

/-- A call of `kfree`. -/
def kfree (addr : Nat) : FsM σ Unit := fun s => do
  let heap ← (BanjOS.kfree addr s.heap).mapError .inl
  .ok ((), { s with heap, live := s.live.eraseP fun x => x.ptr = addr })

/-- An access of the memory. -/
def access {α : Type} (f : σ → Except Stop (α × σ)) : FsM σ α := fun s => do
  let (a, heap) ← (f s.heap).mapError .inl
  .ok (a, { s with heap })

/-- Read a byte. -/
def readByte (v : Nat) : FsM σ UInt8 := access (PagedBytes.loadByte v)

/-- Write a byte. -/
def writeByte (v : Nat) (c : UInt8) : FsM σ Unit := access fun heap => do
  let heap ← PagedBytes.storeByte v c heap
  .ok ((), heap)

/-- Read `n` bytes, from the first one on. -/
def readBytes (v : Nat) : (n : Nat) → FsM σ Mem
  | 0 => return fun _ => 0
  | n + 1 => do
    let bytes ← readBytes v n
    let c ← readByte (v + n)
    return Function.update bytes n c

/-- Write the first `n` bytes of `src`, from the first one on. -/
def writeBytes (dst : Nat) (src : Mem) : (n : Nat) → FsM σ Unit
  | 0 => return
  | n + 1 => do
    writeBytes dst src n
    writeByte (dst + n) (src n)

/-- `memcpy`. -/
def memcpy (dst src : Nat) : (n : Nat) → FsM σ Unit
  | 0 => return
  | n + 1 => do
    memcpy dst src n
    let c ← readByte (src + n)
    writeByte (dst + n) c

/-- `block[k]`, for a buffer of 32-bit block numbers. -/
def pointerAt (block k : Nat) : FsM σ Nat := do
  let bytes ← readBytes (block + 4 * k) 4
  return loadLE bytes 0 4

/-- A division. -/
def divides {α : Type} (x : Except CpuFault α) : FsM σ α := fun s => do
  let a ← x.mapError .inr
  .ok (a, s)

/-! ## Reading from the drive -/

/-- `ata_req_queue`. -/
def ataReqQueue (req : Nat) : FsM σ Unit := fun s => .ok ((), { s with reqs := s.reqs ++ [req] })

/-- `ata_req_unqueue`: the first request, or the null pointer. -/
def ataReqUnqueue : FsM σ Nat := fun s => .ok (s.reqs.headD 0, { s with reqs := s.reqs.tail })

/-- `struct ATARequest` in the queue: the block number, an empty `block_queue` and no `next`. -/
def ataRequest (blkNum : Nat) : Mem := storeLE (fun _ => 0) 0 8 blkNum

/-- What the drive hands over, if the read succeeds. -/
def receive (dst n : Nat) : Option Mem → FsM σ Unit
  | none => return
  | some sector => writeBytes dst sector n

/-- `ata_48_read_block`, without the ports and the wait. The sector comes in words of 16 bits. -/
def ata48ReadBlock (dev : BlockDevice) (blkNum dst : Nat) : FsM σ Bool := do
  let req ← kmalloc pools 24
  writeBytes req (ataRequest blkNum) 24
  ataReqQueue req
  receive dst (2 * (dev.blkSize / 2)) (dev.readBlock blkNum)
  kfree (← ataReqUnqueue)
  return (dev.readBlock blkNum).isSome

/-- `MBR_read_block`. -/
def mbrReadBlock (vsb : Ext2VfsSuperBlock) (blkNum dst : Nat) : FsM σ Bool :=
  ata48ReadBlock pools vsb.dev (vsb.firstSectorLba vsb.partNum + blkNum) dst

/-- The loop of `ext2_read_block`, from the sector `i` on, with `n` sectors to go. -/
def readSectors (vsb : Ext2VfsSuperBlock) (sectorNum dst i : Nat) : (n : Nat) → FsM σ Bool
  | 0 => return true
  | n + 1 => do
    let ok ← mbrReadBlock pools vsb (sectorNum + i) (dst + vsb.dev.blkSize * i)
    if ok then readSectors vsb sectorNum dst (i + 1) n else return false

/-- `ext2_read_block`. -/
def ext2ReadBlock (vsb : Ext2VfsSuperBlock) (blockNum dst : Nat) : FsM σ Bool :=
  readSectors pools vsb (blockNum * (vsb.blockSize / vsb.dev.blkSize)) dst 0 (vsb.blockSize / vsb.dev.blkSize)

/-- The loop of `read_inode`, where the result of a read is not looked at. -/
def loadSectors (vsb : Ext2VfsSuperBlock) (sectorNum dst i : Nat) : (n : Nat) → FsM σ Unit
  | 0 => return
  | n + 1 => do
    let _ ← mbrReadBlock pools vsb (sectorNum + i) (dst + vsb.dev.blkSize * i)
    loadSectors vsb sectorNum dst (i + 1) n

/-! ## Inodes and files -/

/-- `read_inode_block`, with the products of 64 bits. -/
def readInodeBlock (vsb : Ext2VfsSuperBlock) (extIn : Ext2Inode) (block dst : Nat) : FsM σ Unit := do
  let numIndirectPer := vsb.blockSize / 4
  let numDoubly := numIndirectPer * numIndirectPer % 2 ^ 64
  if h : block < 12 then
    let _ ← ext2ReadBlock pools vsb (extIn.directBlocks ⟨block, h⟩) dst
  else if block - 12 < numIndirectPer then
    let indirectBlock ← kmalloc pools vsb.blockSize
    let _ ← ext2ReadBlock pools vsb extIn.singlyIndirectBlock indirectBlock
    let _ ← ext2ReadBlock pools vsb (← pointerAt indirectBlock (block - 12)) dst
    kfree indirectBlock
  else if block - 12 - numIndirectPer < numDoubly then
    let off := block - 12 - numIndirectPer
    let singleOff := off / numIndirectPer
    let doubleOff := off % numIndirectPer
    let indirectBlock ← kmalloc pools vsb.blockSize
    let _ ← ext2ReadBlock pools vsb extIn.singlyIndirectBlock indirectBlock
    let indirecterBlock ← kmalloc pools vsb.blockSize
    let _ ← ext2ReadBlock pools vsb (← pointerAt indirectBlock singleOff) indirecterBlock
    let _ ← ext2ReadBlock pools vsb (← pointerAt indirectBlock doubleOff) dst
    kfree indirectBlock
    kfree indirecterBlock
  else if block - 12 - numIndirectPer - numDoubly < numDoubly * numIndirectPer % 2 ^ 64 then
    let off := block - 12 - numIndirectPer - numDoubly
    let singleOff := off / numDoubly
    let doubleOff := off % numDoubly
    let tripleOff := doubleOff / numIndirectPer
    let quadOff := doubleOff % numIndirectPer
    let indirectBlock ← kmalloc pools vsb.blockSize
    let _ ← ext2ReadBlock pools vsb extIn.doublyIndirectBlock indirectBlock
    let indirecterBlock ← kmalloc pools vsb.blockSize
    let _ ← ext2ReadBlock pools vsb (← pointerAt indirectBlock singleOff) indirecterBlock
    -- the code reads into `indirecter_block` here, so nothing is ever written in `indirecterer_block`
    let indirectererBlock ← kmalloc pools vsb.blockSize
    let _ ← ext2ReadBlock pools vsb (← pointerAt indirecterBlock tripleOff) indirecterBlock
    let _ ← ext2ReadBlock pools vsb (← pointerAt indirectBlock quadOff) dst
    kfree indirectBlock
    kfree indirecterBlock
    kfree indirectererBlock
  else return

/-- What `read_inode` returns if it is not `NULL`: where the inode is and where its `ext_in` points, and the inode. -/
structure ReadInode where
  vin : Nat
  extIn : Nat
  inode : VfsInode

/-- `ext2_vfs_inode_init`, for an `ext_in` at the address `extInode`. -/
def ext2VfsInodeInit (extInode ino : Nat) (vsb : Ext2VfsSuperBlock) : FsM σ ReadInode := do
  let vin ← kmalloc pools 64
  let extIn ← readBytes extInode 112
  return ⟨vin, extInode, BanjOS.ext2VfsInodeInit extIn ino vsb⟩

/-- `read_inode`. -/
def readInode (m : Ext2Mount) (inodeNum : Nat) : FsM σ (Option ReadInode) := do
  match ← divides (readInodeGroup m inodeNum) with
  | none => return none
  | some groupIdx =>
    let indexIdx ← divides (umod ((inodeNum + 2 ^ 64 - 1) % 2 ^ 64) m.superBlock.numGroupInodes)
    let blockIdx ← divides (udiv (indexIdx * m.superBlock.inodeSize) m.blockSize)
    let blockOffset ← divides (umod (indexIdx * m.superBlock.inodeSize) m.blockSize)
    let blockNum := startBlockAddrInodeTable m.grpTable groupIdx + blockIdx
    let numSectors ← divides (udiv m.blockSize m.dev.blkSize)
    let extInodeBlock ← kmalloc pools m.blockSize
    loadSectors pools m.toExt2VfsSuperBlock (blockNum * numSectors % 2 ^ 64) extInodeBlock 0 numSectors
    let extInode ← kmalloc pools 112
    memcpy extInode (extInodeBlock + blockOffset) 112
    kfree extInodeBlock
    let res ← ext2VfsInodeInit pools extInode inodeNum m.toExt2VfsSuperBlock
    return some res

/-- The variables of the loop of `ext2_file_read`, with the address that is written next. -/
structure FileLoop where
  exfi : Ext2File
  bytesRead : Int
  block : Int
  dst : Nat

/-- The piece of the block that a turn of the loop copies, which does not depend on the buffers. -/
def FileLoop.piece (st : FileLoop) (len : Int) : Nat × Nat :=
  ReadLoop.piece ⟨st.exfi, st.bytesRead, st.block, fun _ => 0, 0, fun _ => 0⟩ len

/-- One turn of the loop of `ext2_file_read`. -/
def readChunk (len : Int) (contentBlock : Nat) (st : FileLoop) : FsM σ FileLoop := do
  let inode := st.exfi.inode
  readInodeBlock pools inode.vsb inode.extIn (toU64 st.block) contentBlock
  let (off, size) := st.piece len
  memcpy st.dst (contentBlock + off) size
  let copied := toInt size
  return { exfi := { st.exfi with cursor := wrapInt (st.exfi.cursor + copied) }
           bytesRead := wrapInt (st.bytesRead + copied)
           block := wrapInt (st.block + 1)
           dst := toU64 (st.dst + copied) }

/-- The loop, for at most the given number of tests. -/
def readLoop (len : Int) (contentBlock : Nat) : Nat → FileLoop → FsM σ (Option FileLoop)
  | 0, _ => return none
  | fuel + 1, st => do
    if st.bytesRead < len ∧ toU64 st.exfi.cursor < st.exfi.inode.stSize then
      readLoop len contentBlock fuel (← readChunk pools len contentBlock st)
    else return some st

/-- `ext2_file_read`, with at most `fuel` tests of its loop. -/
def ext2FileRead (exfi : Ext2File) (dst : Nat) (len : Int) (fuel : Nat) : FsM σ (Option FileLoop) := do
  let block := toInt (toU64 exfi.cursor / exfi.inode.vsb.blockSize)
  let contentBlock ← kmalloc pools exfi.inode.vsb.blockSize
  readLoop pools len contentBlock fuel ⟨exfi, 0, block, dst⟩

end

/-! ## What a call leaves allocated -/

/-- The requests of the drive and the addresses of the blocks in use. -/
structure Owns {σ : Type} (reqs : List Nat) (live : Multiset Nat) (s : FsState σ) : Prop where
  reqs_eq : s.reqs = reqs
  live_eq : (s.live.map Live.ptr : Multiset Nat) = live

/-- Any reason to stop. -/
abbrev anyReason : Stop ⊕ CpuFault → Prop := fun _ => True

section
variable {σ : Type} [PagedBytes σ] {pools : Nat} {r : List Nat} {L : Multiset Nat}

/-- The addresses that are left when a block is freed. -/
theorem map_ptr_eraseP (addr : Nat) (live : List Live) :
    (live.eraseP fun x => x.ptr = addr).map Live.ptr = (live.map Live.ptr).erase addr := by
  induction live with
  | nil => rfl
  | cons x live ih =>
    rw [List.eraseP_cons, List.map_cons, List.erase_cons]
    rcases Decidable.em (x.ptr = addr) with heq | hne
    · simp [heq]
    · simp [hne, ih]

theorem kmalloc_owns (size : Nat) :
    Hoare (Owns r L) (kmalloc pools size : FsM σ Nat) (fun p => Owns r (p ::ₘ L)) anyReason := by
  intro s h
  rw [kmalloc]
  cases BanjOS.kmalloc pools size s.heap with
  | error e => exact .inl ⟨_, rfl, trivial⟩
  | ok res => exact .inr ⟨_, _, rfl, h.reqs_eq, by rw [← h.live_eq]; rfl⟩

theorem kfree_owns {L' : Multiset Nat} {addr : Nat} (hL : L = addr ::ₘ L') :
    Hoare (Owns r L) (kfree addr : FsM σ Unit) (fun _ => Owns r L') anyReason := by
  intro s h
  rw [kfree]
  cases BanjOS.kfree addr s.heap with
  | error e => exact .inl ⟨_, rfl, trivial⟩
  | ok heap =>
    refine .inr ⟨_, _, rfl, h.reqs_eq, ?_⟩
    dsimp only
    rw [map_ptr_eraseP, ← Multiset.coe_erase, h.live_eq, hL, Multiset.erase_cons_head]

omit [PagedBytes σ] in
theorem access_owns {α : Type} (f : σ → Except Stop (α × σ)) :
    Hoare (Owns r L) (access f) (fun _ => Owns r L) anyReason := by
  intro s h
  rw [access]
  cases f s.heap with
  | error e => exact .inl ⟨_, rfl, trivial⟩
  | ok res => exact .inr ⟨_, _, rfl, h.reqs_eq, h.live_eq⟩

theorem readBytes_owns (v n : Nat) : Hoare (Owns r L) (readBytes v n : FsM σ Mem) (fun _ => Owns r L) anyReason := by
  induction n with
  | zero => exact .pure _ fun _ h => h
  | succ n ih => exact ih.bind fun _ => (access_owns _).bind fun _ => .pure _ fun _ h => h

theorem writeBytes_owns (dst : Nat) (src : Mem) (n : Nat) :
    Hoare (Owns r L) (writeBytes dst src n : FsM σ Unit) (fun _ => Owns r L) anyReason := by
  induction n with
  | zero => exact .pure _ fun _ h => h
  | succ n ih => exact ih.bind fun _ => access_owns _

theorem memcpy_owns (dst src n : Nat) :
    Hoare (Owns r L) (memcpy dst src n : FsM σ Unit) (fun _ => Owns r L) anyReason := by
  induction n with
  | zero => exact .pure _ fun _ h => h
  | succ n ih => exact ih.bind fun _ => (access_owns _).bind fun _ => access_owns _

theorem pointerAt_owns (block k : Nat) :
    Hoare (Owns r L) (pointerAt block k : FsM σ Nat) (fun _ => Owns r L) anyReason :=
  (readBytes_owns _ _).bind fun _ => .pure _ fun _ h => h

omit [PagedBytes σ] in
/-- A request is queued and comes out again, when no other one is under way. -/
theorem ataReqQueue_owns (req : Nat) :
    Hoare (Owns [] L) (ataReqQueue req : FsM σ Unit) (fun _ => Owns [req] L) anyReason :=
  fun s h => .inr ⟨(), _, rfl, by rw [h.reqs_eq, List.nil_append], h.live_eq⟩

omit [PagedBytes σ] in
theorem ataReqUnqueue_owns (req : Nat) :
    Hoare (Owns [req] L) (ataReqUnqueue : FsM σ Nat) (fun p s => p = req ∧ Owns [] L s) anyReason :=
  fun s h => .inr ⟨_, _, rfl, by rw [h.reqs_eq, List.headD_cons], by rw [h.reqs_eq, List.tail_cons], h.live_eq⟩

/-- A read from the drive gives its request back, when no other one is under way. -/
theorem ata48ReadBlock_owns (dev : BlockDevice) (blkNum dst : Nat) :
    Hoare (Owns [] L) (ata48ReadBlock pools dev blkNum dst : FsM σ Bool) (fun _ => Owns [] L) anyReason := by
  have hreceive (req : Nat) (sector : Option Mem) : Hoare (Owns [req] (req ::ₘ L))
      (receive dst (2 * (dev.blkSize / 2)) sector : FsM σ Unit) (fun _ => Owns [req] (req ::ₘ L)) anyReason := by
    cases sector with
    | none => exact .pure _ fun _ h => h
    | some sector => exact writeBytes_owns _ _ _
  refine (kmalloc_owns 24).bind fun req => (writeBytes_owns _ _ _).bind fun _ => (ataReqQueue_owns req).bind fun _ => ?_
  refine (hreceive req _).bind fun _ => (ataReqUnqueue_owns req).bind_eq ((kfree_owns rfl).bind fun _ => ?_)
  exact .pure _ fun _ h => h

theorem readSectors_owns (vsb : Ext2VfsSuperBlock) (sectorNum dst i n : Nat) :
    Hoare (Owns [] L) (readSectors pools vsb sectorNum dst i n : FsM σ Bool) (fun _ => Owns [] L) anyReason := by
  induction n generalizing i with
  | zero => exact .pure _ fun _ h => h
  | succ n ih =>
    refine (ata48ReadBlock_owns _ _ _).bind fun ok => ?_
    cases ok with
    | false => exact .pure _ fun _ h => h
    | true => exact ih (i + 1)

theorem ext2ReadBlock_owns (vsb : Ext2VfsSuperBlock) (blockNum dst : Nat) :
    Hoare (Owns [] L) (ext2ReadBlock pools vsb blockNum dst : FsM σ Bool) (fun _ => Owns [] L) anyReason :=
  readSectors_owns vsb _ _ _ _

/-- Where `read_inode_block` returns, it has given its scratch buffers back. -/
theorem readInodeBlock_owns (vsb : Ext2VfsSuperBlock) (extIn : Ext2Inode) (block dst : Nat) :
    Hoare (Owns [] L) (readInodeBlock pools vsb extIn block dst : FsM σ Unit) (fun _ => Owns [] L) anyReason := by
  rw [readInodeBlock]
  dsimp only
  split_ifs
  -- the branches in the order of the code
  · exact (ext2ReadBlock_owns vsb _ _).bind fun _ => .pure _ fun _ h => h
  · refine (kmalloc_owns _).bind fun a => (ext2ReadBlock_owns vsb _ _).bind fun _ => ?_
    refine (pointerAt_owns _ _).bind fun _ => (ext2ReadBlock_owns vsb _ _).bind fun _ => kfree_owns rfl
  · refine (kmalloc_owns _).bind fun a => (ext2ReadBlock_owns vsb _ _).bind fun _ => ?_
    refine (kmalloc_owns _).bind fun b => (pointerAt_owns _ _).bind fun _ => (ext2ReadBlock_owns vsb _ _).bind fun _ => ?_
    refine (pointerAt_owns _ _).bind fun _ => (ext2ReadBlock_owns vsb _ _).bind fun _ => ?_
    exact (kfree_owns (Multiset.cons_swap b a L)).bind fun _ => kfree_owns rfl
  · refine (kmalloc_owns _).bind fun a => (ext2ReadBlock_owns vsb _ _).bind fun _ => ?_
    refine (kmalloc_owns _).bind fun b => (pointerAt_owns _ _).bind fun _ => (ext2ReadBlock_owns vsb _ _).bind fun _ => ?_
    refine (kmalloc_owns _).bind fun c => (pointerAt_owns _ _).bind fun _ => (ext2ReadBlock_owns vsb _ _).bind fun _ => ?_
    refine (pointerAt_owns _ _).bind fun _ => (ext2ReadBlock_owns vsb _ _).bind fun _ => ?_
    have hfirst : c ::ₘ b ::ₘ a ::ₘ L = a ::ₘ c ::ₘ b ::ₘ L := by
      rw [Multiset.cons_swap b a, Multiset.cons_swap c a]
    exact (kfree_owns hfirst).bind fun _ => (kfree_owns (Multiset.cons_swap c b L)).bind fun _ => kfree_owns rfl
  · exact .pure _ fun _ h => h

/-- The loop of `ext2_file_read` leaves nothing behind. -/
theorem readLoop_owns (len : Int) (contentBlock fuel : Nat) (st : FileLoop) :
    Hoare (Owns [] L) (readLoop pools len contentBlock fuel st : FsM σ (Option FileLoop)) (fun _ => Owns [] L) anyReason := by
  induction fuel generalizing st with
  | zero => exact .pure _ fun _ h => h
  | succ fuel ih =>
    rw [readLoop]
    split
    · refine Hoare.bind ?_ ih
      exact (readInodeBlock_owns _ _ _ _).bind fun _ => (memcpy_owns _ _ _).bind fun _ => .pure _ fun _ h => h
    · exact .pure _ fun _ h => h

/-- Where `ext2_file_read` returns, its buffer is still allocated. -/
theorem ext2FileRead_owns (exfi : Ext2File) (dst : Nat) (len : Int) (fuel : Nat) :
    Hoare (Owns [] L) (ext2FileRead pools exfi dst len fuel : FsM σ (Option FileLoop))
      (fun _ s => ∃ contentBlock, Owns [] (contentBlock ::ₘ L) s) anyReason :=
  (kmalloc_owns _).bind fun contentBlock =>
    (readLoop_owns _ _ _ _).weaken (fun _ h => h) fun _ _ h => ⟨contentBlock, h⟩

end

end Fs

end BanjOS
