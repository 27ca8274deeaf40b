import BanjOS.Ext2.Blocks

/-!
# Holes of an ext2 file

A null pointer in the pointer tree of a file stands for a block, or a whole subtree, of zeros. `read_inode_block`
tests no pointer, so it follows a null pointer to block 0 of the file system like any other one
(`readInodeBlock_hole`), and a hole reads as zeros only if the block it comes to holds zeros.
-/

namespace BanjOS

open ByteMem

section
variable (vsb : Ext2VfsSuperBlock) (extIn : Ext2Inode) (b : Nat)

/-- The block of the disk that `read_inode_block` delivers for a hole: block 0 for a null pointer to a direct or
singly indirect block, the block that block 0 names for a null pointer to the singly indirect block, and
beyond, where it starts from the singly or the doubly indirect block, the block that the last entry names. -/
def holeBlock : Nat :=
  let n := vsb.blockSize / 4
  if b < 12 then 0
  else if b < 12 + n then
    if extIn.singlyIndirectBlock = 0 then pointerAt (diskBlock vsb 0) (b - 12) else 0
  else if b < 12 + n + n ^ 2 then pointerAt (diskBlock vsb extIn.singlyIndirectBlock) ((b - (12 + n)) % n)
  else pointerAt (diskBlock vsb extIn.doublyIndirectBlock) ((b - (12 + n + n ^ 2)) % n)

end

section
variable {vsb : Ext2VfsSuperBlock} {extIn : Ext2Inode} {fresh dst : Mem} {b j : Nat}

/-- A hole among the direct blocks. -/
theorem readInodeBlock_hole_direct (h : vsb.Readable) (hhole : 0 ∈ treePath vsb extIn b) (hb : b < 12)
    (hj : j < vsb.blockSize) : readInodeBlock vsb extIn fresh b dst j = diskBlock vsb 0 j := by
  have hnull : extIn.directBlocks ⟨b, hb⟩ = 0 := by
    simpa [treePath, treeAddress, hb, followPointers, eq_comm] using hhole
  rw [readInodeBlock, dif_pos hb, ext2ReadBlock_apply h _ _ hj, hnull]

/-- A hole among the singly indirect blocks. -/
theorem readInodeBlock_hole_singly (h : vsb.Readable) (hhole : 0 ∈ treePath vsb extIn b) (hb : 12 ≤ b)
    (hb' : b < 12 + vsb.blockSize / 4) (hj : j < vsb.blockSize) :
    readInodeBlock vsb extIn fresh b dst j = diskBlock vsb
      (if extIn.singlyIndirectBlock = 0 then pointerAt (diskBlock vsb 0) (b - 12) else 0) j := by
  have hoff : b - 12 < vsb.blockSize / 4 := by omega
  have hnull : extIn.singlyIndirectBlock = 0 ∨
      pointerAt (diskBlock vsb extIn.singlyIndirectBlock) (b - 12) = 0 := by
    have haddr : treeAddress extIn (vsb.blockSize / 4) b = (extIn.singlyIndirectBlock, [b - 12]) := by
      rw [treeAddress, dif_neg (by omega), if_pos hb']
    simpa [treePath, haddr, followPointers, eq_comm] using hhole
  rw [readInodeBlock, dif_neg (by omega), if_pos hoff, ext2ReadBlock_apply h _ _ hj,
    pointerAt_ext2ReadBlock h _ _ hoff]
  split
  case isTrue hsingly => rw [hsingly]
  case isFalse hsingly => rw [hnull.resolve_left hsingly]

/-- What is delivered for a hole. -/
theorem readInodeBlock_hole (h : vsb.Readable)
    (hb : b < 12 + vsb.blockSize / 4 + (vsb.blockSize / 4) ^ 2 + (vsb.blockSize / 4) ^ 3)
    (hhole : 0 ∈ treePath vsb extIn b) (hj : j < vsb.blockSize) :
    readInodeBlock vsb extIn fresh b dst j = diskBlock vsb (holeBlock vsb extIn b) j := by
  simp only [holeBlock]
  split
  · exact readInodeBlock_hole_direct h hhole ‹_› hj
  · split
    · exact readInodeBlock_hole_singly h hhole (by omega) ‹_› hj
    · split
      · exact readInodeBlock_doubly h (by omega) ‹_› hj
      · exact readInodeBlock_triply h (by omega) hb hj

/-- For every inode and every block index of the pointer tree with a null pointer on its path: the block that
`read_inode_block` delivers is all zeros iff the block that the null pointer is followed to is. (This is what is in `dst`;
for an index of the triply indirect range the call then halts in `kfree` if blocks have 4096 bytes or more, see
`Fs.readInodeBlock_halts`.) -/
theorem hole_reads_zero_iff (h : vsb.Readable)
    (hb : b < 12 + vsb.blockSize / 4 + (vsb.blockSize / 4) ^ 2 + (vsb.blockSize / 4) ^ 3)
    (hhole : 0 ∈ treePath vsb extIn b) :
    (∀ j < vsb.blockSize, readInodeBlock vsb extIn fresh b dst j = 0) ↔
      ∀ j < vsb.blockSize, diskBlock vsb (holeBlock vsb extIn b) j = 0 :=
  forall₂_congr fun j hj => by rw [readInodeBlock_hole h hb hhole hj]

end

/-- An inode of a file that is all holes. -/
def sparseInode : Ext2Inode := ⟨fun _ => 0, 0, 0, 0⟩

/-- Block 0 of `linkDisk` holds zeros, and so does what is delivered for a hole there. -/
theorem hole_reads_zero_linkDisk :
    readInodeBlock (linkDisk 1024) sparseInode (fun _ => 0) 3 (fun _ => 7) 5 = 0 := by
  refine (hole_reads_zero_iff (readable_linkDisk (by decide)) (by decide) (by decide +kernel)).2
    (fun j hj => ?_) 5 (by decide)
  have hzero : diskBlock (linkDisk 1024) 0 j = if j % 4 = 0 then linkOf 0 else 0 :=
    diskBlock_linkDisk (by decide) 0 hj
  rw [holeBlock, if_pos (by decide), hzero]
  exact ite_self 0

/-- A disk with a boot loader in its first sector. -/
def bootDisk : Ext2VfsSuperBlock where
  blockSize := 1024
  dev := ⟨512, fun lba => some fun _ => if lba = 0 then 0xEB else 0⟩
  firstSectorLba _ := 0
  partNum := Fin.last 3

/-- A hole reads as the boot loader. -/
theorem hole_reads_boot_loader : bootDisk.Readable ∧ 0 ∈ treePath bootDisk sparseInode 0 ∧
    readInodeBlock bootDisk sparseInode (fun _ => 0) 0 (fun _ => 0) 0 = 0xEB :=
  ⟨⟨by decide, by decide, fun _ => rfl⟩, by decide +kernel, by decide +kernel⟩

end BanjOS
