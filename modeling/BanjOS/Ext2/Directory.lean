import BanjOS.Ext2.InodeLookup
import BanjOS.Ext2.ReadBounds
import BanjOS.Lib.Prefixes
import Mathlib.Data.List.Forall2

/-!
# Listing a directory

`readdir` of `ext2.c`: for every block of the directory, the records one after the other, up to the end of the
block or a record without an inode. A record gives its own size, which is only rounded up to a multiple of 4, so a
size of 0 is where the loop stays for ever (`recordLoop_ends_iff`); and a record without an inode hides those that
follow it in the block (`readdirExact_iff`). The loops take a bound on their turns, and an answer of `none` is a
loop that the bound does not end.
-/

namespace BanjOS

open ByteMem

/-! ## The code -/

/-- The fields of `struct Ext2DirEntryHeader` that the code reads. -/
structure Ext2DirEntryHeader where
  ino : Nat
  entrySize : Nat
  nameLenLsb : Nat

/-- The header at an offset of a block. -/
def ext2DirEntryHeader (block : Mem) (off : Nat) : Ext2DirEntryHeader where
  ino := loadLE block off 4
  entrySize := loadLE block (off + 4) 2
  nameLenLsb := loadLE block (off + 6) 1

/-- The name that a header is followed by. -/
def entryName (block : Mem) (off : Nat) : List UInt8 :=
  (List.range (ext2DirEntryHeader block off).nameLenLsb).map fun i => block (off + 8 + i)

/-- A call of `cb`: the name, with the byte that ends it, and the inode. -/
structure ReaddirCall where
  name : List UInt8
  inode : Option VfsInode

/-- The next `header`. Headers are offsets in the content block, which is at the address `content`. -/
def nextHeader (content : Nat) (block : Mem) (off : Nat) : Nat :=
  alignPointer ((content + off + (ext2DirEntryHeader block off).entrySize) % 2 ^ 64) 4 true - content

/-- The loop over the records of a block. `m` is `vino->vsb`, and `calls` are the calls of `cb` so far. -/
def recordLoop (m : Ext2Mount) (fresh : Mem) (content : Nat) (block : Mem) :
    (fuel off : Nat) → List ReaddirCall → Except CpuFault (Option (List ReaddirCall))
  | 0, _, _ => .ok none
  | fuel + 1, off, calls =>
    if off < m.blockSize ∧ (ext2DirEntryHeader block off).ino ≠ 0 then do
      let entryIno ← readInode m fresh (ext2DirEntryHeader block off).ino
      recordLoop m fresh content block fuel (nextHeader content block off)
        (calls ++ [⟨entryName block off ++ [0], entryIno⟩])
    else .ok (some calls)

/-- The loop over the blocks, for at most `n` turns. -/
def blockLoop (m : Ext2Mount) (fresh : Mem) (content fuel : Nat) (vino : VfsInode) (numBlocks : Nat) :
    (n : Nat) → (i : Int) → (contentBlock : Mem) → List ReaddirCall →
    Except CpuFault (Option (List ReaddirCall))
  | 0, _, _, _ => .ok none
  | n + 1, i, contentBlock, calls =>
    if toU64 i < numBlocks then do
      let contentBlock := readInodeBlock m.toExt2VfsSuperBlock vino.extIn fresh (toU64 i) contentBlock
      match ← recordLoop m fresh content contentBlock fuel 0 calls with
      | none => .ok none
      | some calls => blockLoop m fresh content fuel vino numBlocks n (wrapInt (i + 1)) contentBlock calls
    else .ok (some calls)

/-- `readdir`: what it returns, and its calls of `cb`. -/
def readdir (m : Ext2Mount) (fresh : Mem) (content fuel : Nat) (vino : VfsInode) :
    Except CpuFault (Option (Bool × List ReaddirCall)) :=
  if vino.stMode &&& 0x4000 = 0 then .ok (some (false, []))
  else do
    let whole ← udiv vino.stSize m.blockSize
    let rest ← umod vino.stSize m.blockSize
    let numBlocks := whole + if rest ≠ 0 then 1 else 0
    match ← blockLoop m fresh content fuel vino numBlocks fuel 0 fresh [] with
    | none => .ok none
    | some calls => .ok (some (true, calls))

/-! ## What the loops rely on -/

/-- An address that `kmalloc` returns for the content block: a multiple of 4, in the lower half of the address
space. -/
structure ContentAt (blockSize content : Nat) : Prop where
  aligned : content % 4 = 0
  end_le : content + blockSize ≤ 2 ^ 63

section
variable {m : Ext2Mount} {fresh block : Mem} {content off fuel i : Nat} {vino : VfsInode}
  {calls calls' : List ReaddirCall}

theorem entrySize_lt (block : Mem) (off : Nat) : (ext2DirEntryHeader block off).entrySize < 2 ^ 16 :=
  loadLE_lt block 2 _

/-- Where the next header is does not depend on the address of the content block. -/
theorem nextHeader_eq (hc : ContentAt m.blockSize content) (hoff : off < m.blockSize) :
    nextHeader content block off = alignPointer (off + (ext2DirEntryHeader block off).entrySize) 4 true := by
  obtain ⟨hal, hend⟩ := hc
  have hsize := entrySize_lt block off
  simp only [nextHeader, alignPointer, if_true]
  split <;> split <;> omega

/-- The size of an inode has 64 bits. -/
theorem stSize_lt (extIn : Mem) (ino : Nat) (vsb : Ext2VfsSuperBlock) :
    (ext2VfsInodeInit extIn ino vsb).stSize < 2 ^ 64 := by
  have hlow := loadLE_lt extIn 4 4
  have hhigh := loadLE_lt extIn 4 108
  rw [ext2VfsInodeInit]
  dsimp only
  omega

end

/-! ## Termination -/

/-- The record that follows another one. -/
def NextRecord (blockSize : Nat) (block : Mem) (off off' : Nat) : Prop :=
  off < blockSize ∧ (ext2DirEntryHeader block off).ino ≠ 0 ∧
    off' = alignPointer (off + (ext2DirEntryHeader block off).entrySize) 4 true

/-- No record that the loop comes to has size 0. -/
def NoEmptyRecord (blockSize : Nat) (block : Mem) (start : Nat) : Prop :=
  ∀ off, Relation.ReflTransGen (NextRecord blockSize block) start off → off < blockSize →
    (ext2DirEntryHeader block off).ino ≠ 0 → (ext2DirEntryHeader block off).entrySize ≠ 0

section
variable {m : Ext2Mount} {fresh block : Mem} {content off off' fuel i : Nat} {vino : VfsInode}
  {calls calls' : List ReaddirCall}

theorem NoEmptyRecord.next (h : NoEmptyRecord m.blockSize block off) (hnext : NextRecord m.blockSize block off off') :
    NoEmptyRecord m.blockSize block off' := fun off'' hreach => h off'' (.head hnext hreach)

/-- A record of size 0 is where the loop stays. -/
theorem recordLoop_stuck (hc : ContentAt m.blockSize content) (hread : ∀ k, ∃ r, readInode m fresh k = .ok r)
    (hal : off % 4 = 0) (hoff : off < m.blockSize) (hino : (ext2DirEntryHeader block off).ino ≠ 0)
    (hsize : (ext2DirEntryHeader block off).entrySize = 0) :
    recordLoop m fresh content block fuel off calls = .ok none := by
  induction fuel generalizing calls with
  | zero => rfl
  | succ fuel ih =>
    obtain ⟨r, hr⟩ := hread (ext2DirEntryHeader block off).ino
    have hstay : nextHeader content block off = off := by
      rw [nextHeader_eq hc hoff, hsize, Nat.add_zero, alignPointer, if_neg (not_not_intro hal)]
    rw [recordLoop, if_pos ⟨hoff, hino⟩, hr, Except.ok_bind, hstay, ih]

/-- Records start at multiples of 4. -/
theorem nextRecord_mod (h : NextRecord m.blockSize block off off') : off' % 4 = 0 := by
  obtain ⟨hoff, -, rfl⟩ := h
  have hsize := entrySize_lt block off
  simp only [alignPointer, if_true]
  split <;> omega

/-- A loop that ends has come to no record of size 0. -/
theorem noEmptyRecord_of_recordLoop (hc : ContentAt m.blockSize content) (hal : off % 4 = 0)
    (hread : ∀ k, ∃ r, readInode m fresh k = .ok r)
    (h : recordLoop m fresh content block fuel off calls = .ok (some calls')) :
    NoEmptyRecord m.blockSize block off := by
  induction fuel generalizing off calls with
  | zero => cases h
  | succ fuel ih =>
    intro off' hreach hoff' hino'
    obtain rfl | ⟨next, hnext, hreach⟩ := hreach.cases_head
    · intro hsize
      rw [recordLoop_stuck hc hread hal hoff' hino' hsize] at h
      cases h
    · obtain ⟨hoff, hino, rfl⟩ := id hnext
      obtain ⟨r, hr⟩ := hread (ext2DirEntryHeader block off).ino
      rw [recordLoop, if_pos ⟨hoff, hino⟩, hr, Except.ok_bind, nextHeader_eq hc hoff] at h
      exact ih (nextRecord_mod hnext) h off' hreach hoff' hino'

/-- A loop that comes to no record of size 0 ends: every record takes at least 4 bytes. -/
theorem recordLoop_ends (hc : ContentAt m.blockSize content) (hread : ∀ k, ∃ r, readInode m fresh k = .ok r)
    (calls : List ReaddirCall) (hal : off % 4 = 0) (hsize : NoEmptyRecord m.blockSize block off) {n : Nat}
    (hn : m.blockSize ≤ off + 4 * n) :
    ∃ calls', recordLoop m fresh content block (n + 1) off calls = .ok (some calls') ∧
      calls'.length ≤ calls.length + n := by
  induction n generalizing off calls with
  | zero =>
    rw [recordLoop, if_neg fun h => Nat.not_lt_of_ge hn h.1]
    exact ⟨calls, rfl, Nat.le_refl _⟩
  | succ n ih =>
    rw [recordLoop]
    split
    case isFalse => exact ⟨calls, rfl, Nat.le_add_right _ _⟩
    case isTrue h =>
      obtain ⟨hoff, hino⟩ := h
      obtain ⟨r, hr⟩ := hread (ext2DirEntryHeader block off).ino
      have hnext : NextRecord m.blockSize block off (nextHeader content block off) :=
        ⟨hoff, hino, nextHeader_eq hc hoff⟩
      have hmod := nextRecord_mod hnext
      have hpos := hsize off .refl hoff hino
      have hle : off + 4 ≤ nextHeader content block off := by
        have hend := hc.end_le
        have hlt := entrySize_lt block off
        rw [nextHeader_eq hc hoff] at hmod ⊢
        simp only [alignPointer, if_true] at hmod ⊢
        split <;> omega
      obtain ⟨calls', hloop, hlen⟩ :=
        ih (calls ++ [⟨entryName block off ++ [0], r⟩]) hmod (hsize.next hnext) (by omega)
      rw [hr, Except.ok_bind]
      refine ⟨calls', hloop, hlen.trans ?_⟩
      rw [List.length_append, List.length_singleton]
      omega

end

/-- For every contents of a block: the record loop ends within a quarter as many entries as the block has bytes iff
no record that it comes to has a size of 0. -/
theorem recordLoop_ends_iff {m : Ext2Mount} {fresh : Mem} {content i : Nat} {vino : VfsInode} (block : Mem)
    (hvino : readInode m fresh i = .ok (some vino)) (hc : ContentAt m.blockSize content) (hbs : 4 ∣ m.blockSize) :
    (∃ fuel calls, recordLoop m fresh content block fuel 0 [] = .ok (some calls) ∧
      calls.length ≤ m.blockSize / 4) ↔ NoEmptyRecord m.blockSize block 0 := by
  obtain ⟨-, -, hread⟩ := readInode_some hvino
  constructor
  · rintro ⟨fuel, calls, hloop, -⟩
    exact noEmptyRecord_of_recordLoop hc rfl hread hloop
  · intro h
    obtain ⟨calls, hloop, hlen⟩ := recordLoop_ends (n := m.blockSize / 4) hc hread [] rfl h (by omega)
    exact ⟨_, calls, hloop, by simpa using hlen⟩

/-- A block with one record, which fills it. -/
def oneRecord : Mem := memWith [(0, 4, 2), (4, 2, 1024), (6, 1, 1)]

/-- It is listed. -/
theorem recordLoop_ends_oneRecord : ∃ fuel calls,
    recordLoop someMount (fun _ => 0) 0x1000 oneRecord fuel 0 [] = .ok (some calls) ∧ calls.length ≤ 256 := by
  obtain ⟨vino, hvino, -⟩ := exists_of_any (r := readInode someMount (fun _ => 0) 2) (p := fun _ => true)
    (by decide +kernel)
  have hbs : someMount.blockSize = 1024 := by decide +kernel
  have hc : ContentAt someMount.blockSize 0x1000 := ⟨rfl, by rw [hbs]; decide⟩
  have hiff := recordLoop_ends_iff oneRecord hvino hc (by rw [hbs]; decide)
  rw [hbs] at hiff
  refine hiff.2 fun off hreach hoff => ?_
  obtain rfl | ⟨next, ⟨-, -, rfl⟩, hreach⟩ := hreach.cases_head
  · exact fun _ => by decide +kernel
  · obtain rfl | ⟨next, hnext, -⟩ := hreach.cases_head
    · exact absurd hoff (by decide +kernel)
    · exact absurd hnext.1 (by decide +kernel)

/-- A block whose first record has an inode and size 0. -/
def emptyRecord : Mem := memWith [(0, 4, 2), (6, 1, 1)]

/-- The loop stays at it. -/
theorem recordLoop_never_ends : ∃ vino, readInode someMount (fun _ => 0) 2 = .ok (some vino) ∧
    ContentAt someMount.blockSize 0x1000 ∧
    ∀ fuel, recordLoop someMount (fun _ => 0) 0x1000 emptyRecord fuel 0 [] = .ok none := by
  obtain ⟨vino, hvino, -⟩ := exists_of_any (r := readInode someMount (fun _ => 0) 2) (p := fun _ => true)
    (by decide +kernel)
  have hc : ContentAt someMount.blockSize 0x1000 := ⟨rfl, by decide +kernel⟩
  exact ⟨vino, hvino, hc, fun fuel =>
    recordLoop_stuck hc (readInode_some hvino).2.2 rfl (by decide +kernel) (by decide +kernel) (by decide +kernel)⟩

/-! ## Completeness -/

/-- An entry of a directory. -/
structure DirEntry where
  ino : Nat
  entrySize : Nat
  name : List UInt8

/-- The entry at an offset of a block. -/
def dirEntry (block : Mem) (off : Nat) : DirEntry where
  ino := (ext2DirEntryHeader block off).ino
  entrySize := (ext2DirEntryHeader block off).entrySize
  name := entryName block off

/-- The entry has an inode. -/
def DirEntry.used (e : DirEntry) : Bool := e.ino ≠ 0

/-- The entries from an offset of a block on, as the ext2 format has them: each of a size that is a multiple of 4
and has room for the name, the last one up to the end of the block. -/
inductive EntryChain (blockSize : Nat) (block : Mem) : Nat → List DirEntry → Prop
  | nil : EntryChain blockSize block blockSize []
  | cons {off : Nat} {es : List DirEntry} : 4 ∣ (dirEntry block off).entrySize →
      8 + (dirEntry block off).name.length ≤ (dirEntry block off).entrySize →
      EntryChain blockSize block (off + (dirEntry block off).entrySize) es →
      EntryChain blockSize block off (dirEntry block off :: es)

/-- The number of blocks of a directory. -/
def VfsInode.numBlocks (vino : VfsInode) : Nat :=
  vino.stSize / vino.vsb.blockSize + if vino.stSize % vino.vsb.blockSize ≠ 0 then 1 else 0

/-- The call of `cb` is the right one for the entry. -/
def CallsFor (m : Ext2Mount) (fresh : Mem) (e : DirEntry) (call : ReaddirCall) : Prop :=
  call.name = e.name ++ [0] ∧ readInode m fresh e.ino = .ok call.inode

/-- `readdir` ends and returns true, and `cb` has been called once for each entry with an inode, in order. The
entries of block `k` are `es k`. -/
def ReaddirExact (m : Ext2Mount) (fresh : Mem) (content : Nat) (vino : VfsInode) (es : Nat → List DirEntry) : Prop :=
  ∃ fuel calls, readdir m fresh content fuel vino = .ok (some (true, calls)) ∧
    List.Forall₂ (CallsFor m fresh) ((List.range vino.numBlocks).flatMap fun k => (es k).filter DirEntry.used) calls

section
variable {m : Ext2Mount} {fresh block contentBlock : Mem} {content off fuel i n k numBlocks : Nat} {vino : VfsInode}
  {calls calls' : List ReaddirCall} {es : List DirEntry}

/-- Entries have at least 8 bytes. -/
theorem EntryChain.length_le {bs : Nat} (h : EntryChain bs block off es) : off + 8 * es.length ≤ bs := by
  induction h with
  | nil => exact Nat.le_refl _
  | cons _ hsize _ ih =>
    rw [List.length_cons]
    omega

theorem EntryChain.eight_le {bs : Nat} (h : EntryChain bs block 0 es) (hbs : bs ≠ 0) : 8 ≤ bs := by
  cases es with
  | nil =>
    cases h
    exact absurd rfl hbs
  | cons e es =>
    have hle := h.length_le
    rw [List.length_cons] at hle
    omega

/-- The call of `cb` for an entry, where `get` are the inodes of the file system. -/
def callOf (get : Nat → Option VfsInode) (e : DirEntry) : ReaddirCall := ⟨e.name ++ [0], get e.ino⟩

theorem length_entryName (block : Mem) (off : Nat) :
    (entryName block off).length = (ext2DirEntryHeader block off).nameLenLsb := by
  rw [entryName, List.length_map, List.length_range]

/-- An entry depends on its own bytes only. -/
theorem dirEntry_congr {block' : Mem}
    (heq : ∀ j, InRange off (8 + (dirEntry block off).name.length) j → block' j = block j) :
    dirEntry block' off = dirEntry block off := by
  have hload : ∀ a w, off ≤ a → a + w ≤ off + 8 → loadLE block' a w = loadLE block a w := fun a w ha hw =>
    loadLE_congr fun j hj => heq j (hj.mono ha (by omega))
  have hheader : ext2DirEntryHeader block' off = ext2DirEntryHeader block off := by
    rw [ext2DirEntryHeader, hload off 4 (by omega) (by omega), hload (off + 4) 2 (by omega) (by omega),
      hload (off + 6) 1 (by omega) (by omega), ext2DirEntryHeader]
  have hname : entryName block' off = entryName block off := by
    rw [entryName, hheader, entryName]
    refine List.map_congr_left fun i hi => heq _ ⟨by omega, ?_⟩
    have hlen : (dirEntry block off).name.length = _ := length_entryName block off
    have := List.mem_range.1 hi
    omega
  rw [dirEntry, hheader, hname, dirEntry]

/-- Entries depend on the bytes of the block only. -/
theorem EntryChain.congr {bs : Nat} {block' : Mem} (h : EntryChain bs block off es)
    (heq : ∀ j < bs, block' j = block j) : EntryChain bs block' off es := by
  induction h with
  | nil => exact .nil
  | @cons off es hdvd hsize hes ih =>
    have hle := hes.length_le
    have hentry : dirEntry block' off = dirEntry block off := dirEntry_congr fun j hj => heq j (by
      obtain ⟨-, hj⟩ := hj
      omega)
    rw [← hentry] at hdvd hsize ih ⊢
    exact .cons hdvd hsize ih

/-- One right call for each entry. -/
theorem forall₂_callsFor {get : Nat → Option VfsInode} (hget : ∀ k, readInode m fresh k = .ok (get k)) :
    List.Forall₂ (CallsFor m fresh) es calls ↔ es.map (callOf get) = calls := by
  have hcall : CallsFor m fresh = fun e call => callOf get e = call := by
    funext e call
    obtain ⟨name, inode⟩ := call
    rw [CallsFor, hget, callOf, ReaddirCall.mk.injEq, Except.ok.injEq, eq_comm (a := name)]
  rw [hcall, ← List.forall₂_map_left_iff, List.forall₂_eq_eq_eq]

/-- The record loop stops at the first entry without an inode. -/
theorem recordLoop_chain (hc : ContentAt m.blockSize content) {get : Nat → Option VfsInode}
    (hget : ∀ k, readInode m fresh k = .ok (get k)) (h : EntryChain m.blockSize block off es) (hal : off % 4 = 0) :
    recordLoop m fresh content block fuel off calls = .ok (if (es.takeWhile DirEntry.used).length < fuel then
      some (calls ++ (es.takeWhile DirEntry.used).map (callOf get)) else none) := by
  induction h generalizing fuel calls with
  | nil =>
    cases fuel with
    | zero => rfl
    | succ fuel =>
      rw [recordLoop, if_neg fun h => Nat.lt_irrefl _ h.1, List.takeWhile_nil, List.map_nil, List.append_nil]
      exact congrArg _ (if_pos (Nat.succ_pos fuel)).symm
  | @cons off es hdvd hsize hes ih =>
    cases fuel with
    | zero =>
      rw [recordLoop, if_neg (Nat.not_lt_zero _)]
    | succ fuel =>
      have hoff : off < m.blockSize := by
        have := hes.length_le
        omega
      rw [recordLoop]
      split
      case isTrue hused =>
        have hnext : nextHeader content block off = off + (dirEntry block off).entrySize := by
          rw [nextHeader_eq hc hoff, alignPointer, if_neg]
          · rfl
          · rw [dirEntry] at hdvd
            dsimp only at hdvd
            omega
        have hyes : DirEntry.used (dirEntry block off) = true := decide_eq_true hused.2
        rw [hget, Except.ok_bind, hnext, ih (by omega), List.takeWhile_cons_of_pos hyes, List.length_cons,
          List.map_cons, List.append_assoc]
        simp only [Nat.succ_lt_succ_iff]
        rfl
      case isFalse hunused =>
        have hno : ¬ DirEntry.used (dirEntry block off) = true := fun h => hunused ⟨hoff, of_decide_eq_true h⟩
        rw [List.takeWhile_cons_of_neg hno, List.map_nil, List.append_nil]
        exact congrArg _ (if_pos (Nat.succ_pos fuel)).symm

/-- The entries of block `k` that the loops list. The counter of the blocks is an `int`. -/
def listed (k : Nat) (es : List DirEntry) : List DirEntry :=
  if k < 2 ^ 31 then es.takeWhile DirEntry.used else []

theorem delivered_succ (vino : VfsInode) (fresh : Mem) (k : Nat) :
    readInodeBlock vino.vsb vino.extIn fresh (k + 1) (vino.delivered fresh 0 k) = vino.delivered fresh 0 (k + 1) := by
  rw [Ext2VfsInode.delivered, Nat.zero_add]

theorem wrapInt_two_pow : toU64 (wrapInt ↑(2 ^ 31 : Nat)) = 2 ^ 64 - 2 ^ 31 := by decide

/-- The end of the directory, or of the counter. -/
theorem blockLoop_exit (hend : numBlocks ≤ k ∨ k = 2 ^ 31) (hk : k ≤ 2 ^ 31) (hsmall : numBlocks < 2 ^ 63) :
    blockLoop m fresh content fuel vino numBlocks (n + 1) (wrapInt k) contentBlock calls = .ok (some calls) := by
  rw [blockLoop, if_neg]
  obtain rfl | hlt := hk.eq_or_lt
  · rw [wrapInt_two_pow]
    omega
  · rw [wrapInt_natCast hlt, toU64_natCast (by omega)]
    omega

section
variable {get : Nat → Option VfsInode} {es : Nat → List DirEntry} (hc : ContentAt m.blockSize content)
  (hget : ∀ k, readInode m fresh k = .ok (get k)) (hvsb : vino.vsb = m.toExt2VfsSuperBlock)
  (hchain : ∀ k < numBlocks, EntryChain m.blockSize (vino.delivered fresh 0 k) 0 (es k))
include hc hget hvsb hchain

/-- One block. -/
theorem blockLoop_turn (hk : k < numBlocks) (hk' : k < 2 ^ 31)
    (hcontent : readInodeBlock vino.vsb vino.extIn fresh k contentBlock = vino.delivered fresh 0 k) :
    blockLoop m fresh content fuel vino numBlocks (n + 1) (wrapInt k) contentBlock calls =
      if (listed k (es k)).length < fuel then
        blockLoop m fresh content fuel vino numBlocks n (wrapInt ↑(k + 1)) (vino.delivered fresh 0 k)
          (calls ++ (listed k (es k)).map (callOf get))
      else .ok none := by
  have hidx : toU64 (wrapInt k) = k := by rw [wrapInt_natCast hk', toU64_natCast (by omega)]
  have hnext : wrapInt (wrapInt k + 1) = wrapInt ↑(k + 1) := by rw [wrapInt_natCast hk', Int.natCast_succ]
  rw [blockLoop, if_pos (hidx.symm ▸ hk), hidx, hnext, ← hvsb, hcontent]
  dsimp only
  rw [recordLoop_chain hc hget (hchain k hk) rfl, listed, if_pos hk', Except.ok_bind]
  obtain h | h := Nat.lt_or_ge (List.takeWhile DirEntry.used (es k)).length fuel
  · rw [if_pos h, if_pos h]
  · rw [if_neg (Nat.not_lt_of_ge h), if_neg (Nat.not_lt_of_ge h)]

/-- Where the loop ends, it has listed the entries of all blocks from `k` on. -/
theorem blockLoop_some (hk : k ≤ 2 ^ 31) (hsmall : numBlocks < 2 ^ 63)
    (hcontent : readInodeBlock vino.vsb vino.extIn fresh k contentBlock = vino.delivered fresh 0 k)
    (h : blockLoop m fresh content fuel vino numBlocks n (wrapInt k) contentBlock calls = .ok (some calls')) :
    calls' = calls ++ (List.range' k (numBlocks - k)).flatMap fun k => (listed k (es k)).map (callOf get) := by
  induction n generalizing k contentBlock calls with
  | zero => cases h
  | succ n ih =>
    by_cases hgo : k < numBlocks ∧ k < 2 ^ 31
    · obtain ⟨hlt, hlt'⟩ := hgo
      rw [blockLoop_turn hc hget hvsb hchain hlt hlt' hcontent] at h
      split at h
      case isFalse => cases h
      case isTrue =>
        rw [ih hlt' (delivered_succ vino fresh k) h, show numBlocks - k = numBlocks - (k + 1) + 1 by omega,
          List.range'_succ, List.flatMap_cons, List.append_assoc]
    · -- what is left of the directory is beyond the counter
      rw [blockLoop_exit (by omega) hk hsmall] at h
      have hnil : (List.range' k (numBlocks - k)).flatMap (fun k => (listed k (es k)).map (callOf get)) = [] := by
        rw [List.flatMap_eq_nil_iff]
        intro j hj
        have hj' := List.mem_range'_1.1 hj
        rw [listed, if_neg (by omega), List.map_nil]
      rw [hnil, List.append_nil]
      exact (Option.some.inj (Except.ok.inj h)).symm

/-- With enough turns it ends. -/
theorem blockLoop_ends (hk : k ≤ 2 ^ 31) (hsmall : numBlocks < 2 ^ 63) (hfuel : m.blockSize < fuel)
    (hcontent : readInodeBlock vino.vsb vino.extIn fresh k contentBlock = vino.delivered fresh 0 k)
    (hle : k ≤ numBlocks) (hn : numBlocks < n + k) :
    ∃ calls', blockLoop m fresh content fuel vino numBlocks n (wrapInt k) contentBlock calls = .ok (some calls') := by
  induction n generalizing k contentBlock calls with
  | zero => omega
  | succ n ih =>
    by_cases hgo : k < numBlocks ∧ k < 2 ^ 31
    · obtain ⟨hlt, hlt'⟩ := hgo
      have hlen : (listed k (es k)).length ≤ (es k).length := by
        rw [listed, if_pos hlt']
        exact (List.takeWhile_prefix _).length_le
      have hbs := (hchain k hlt).length_le
      rw [blockLoop_turn hc hget hvsb hchain hlt hlt' hcontent, if_pos (by omega)]
      exact ih hlt' (delivered_succ vino fresh k) hlt (by omega)
    · exact ⟨_, blockLoop_exit (by omega) hk hsmall⟩

end

end

/-- What is listed is the beginning of the entries with an inode. -/
theorem listed_isPrefix (k : Nat) (es : List DirEntry) : listed k es <+: es.filter DirEntry.used := by
  rw [listed]
  split
  · exact List.takeWhile_isPrefix_filter _ es
  · exact List.nil_prefix

/-- When it is all of them. -/
theorem listed_eq_iff {k : Nat} {es : List DirEntry} : listed k es = es.filter DirEntry.used ↔
    (es.Pairwise fun e e' => e.ino = 0 → e'.ino = 0) ∧ (2 ^ 31 ≤ k → ∀ e ∈ es, e.ino = 0) := by
  have hunused : ∀ e : DirEntry, e.used = false ↔ e.ino = 0 := fun e => by simp [DirEntry.used]
  rw [listed]
  split
  case isTrue hk =>
    simp only [List.takeWhile_eq_filter_iff, hunused]
    exact (and_iff_left fun h => absurd hk (Nat.not_lt_of_ge h)).symm
  case isFalse hk =>
    rw [eq_comm, List.filter_eq_nil_iff]
    simp only [Bool.not_eq_true, hunused]
    constructor
    · intro h
      exact ⟨List.pairwise_of_forall_mem_list fun _ _ e' he' _ => h e' he', fun _ => h⟩
    · exact fun h => h.2 (Nat.le_of_not_lt hk)

section
variable {m : Ext2Mount} {fresh : Mem} {content i fuel : Nat} {vino : VfsInode} {es : Nat → List DirEntry}
  {calls : List ReaddirCall}

/-- A directory is listed by the loop over its blocks. -/
theorem readdir_eq_ok_iff (hdir : vino.stMode &&& 0x4000 ≠ 0) (hvsb : vino.vsb = m.toExt2VfsSuperBlock)
    (hbs : m.blockSize ≠ 0) : readdir m fresh content fuel vino = .ok (some (true, calls)) ↔
      blockLoop m fresh content fuel vino vino.numBlocks fuel 0 fresh [] = .ok (some calls) := by
  have hnum : vino.stSize / m.blockSize + (if vino.stSize % m.blockSize ≠ 0 then 1 else 0) = vino.numBlocks := by
    rw [VfsInode.numBlocks, hvsb]
  rw [readdir, if_neg hdir, udiv_of_pos (Nat.pos_of_ne_zero hbs), Except.ok_bind,
    umod_of_pos (Nat.pos_of_ne_zero hbs), Except.ok_bind, hnum]
  dsimp only
  match blockLoop m fresh content fuel vino vino.numBlocks fuel 0 fresh [] with
  | .error e => exact iff_of_false nofun nofun
  | .ok none => exact iff_of_false nofun nofun
  | .ok (some calls') =>
    rw [Except.ok_bind]
    simp only [Except.ok.injEq, Option.some.injEq, Prod.mk.injEq, true_and]

/-- A directory of 64-bit size has fewer than `2 ^ 63` blocks that are made of entries. -/
theorem numBlocks_lt (hst : vino.stSize < 2 ^ 64) (hvsb : vino.vsb = m.toExt2VfsSuperBlock) (hbs : m.blockSize ≠ 0)
    (hchain : ∀ k < vino.numBlocks, EntryChain m.blockSize (vino.delivered fresh 0 k) 0 (es k)) :
    vino.numBlocks < 2 ^ 63 := by
  by_contra hge
  have hfirst := hchain 0 (by omega)
  have hdiv : vino.stSize / m.blockSize ≤ vino.stSize / 8 := Nat.div_le_div_left (hfirst.eight_le hbs) (by decide)
  rw [VfsInode.numBlocks, hvsb] at hge
  split at hge <;> omega

/-- The calls of `cb` are those for the entries that are listed. -/
theorem readdir_iff (hdir : vino.stMode &&& 0x4000 ≠ 0) (hvsb : vino.vsb = m.toExt2VfsSuperBlock)
    (hbs : m.blockSize ≠ 0) (hst : vino.stSize < 2 ^ 64) (hc : ContentAt m.blockSize content)
    {get : Nat → Option VfsInode} (hget : ∀ k, readInode m fresh k = .ok (get k))
    (hchain : ∀ k < vino.numBlocks, EntryChain m.blockSize (vino.delivered fresh 0 k) 0 (es k)) :
    (∃ fuel, readdir m fresh content fuel vino = .ok (some (true, calls))) ↔
      (List.range vino.numBlocks).flatMap (fun k => (listed k (es k)).map (callOf get)) = calls := by
  have hsmall := numBlocks_lt hst hvsb hbs hchain
  have hsome : ∀ {fuel calls}, readdir m fresh content fuel vino = .ok (some (true, calls)) →
      (List.range vino.numBlocks).flatMap (fun k => (listed k (es k)).map (callOf get)) = calls := by
    intro fuel calls h
    rw [readdir_eq_ok_iff hdir hvsb hbs] at h
    rw [blockLoop_some hc hget hvsb hchain (k := 0) (by decide) hsmall rfl h, List.nil_append, Nat.sub_zero,
      List.range_eq_range']
  constructor
  · rintro ⟨fuel, h⟩
    exact hsome h
  · intro h
    have hends : ∃ calls', blockLoop m fresh content (m.blockSize + vino.numBlocks + 1) vino vino.numBlocks
        (m.blockSize + vino.numBlocks + 1) 0 fresh [] = .ok (some calls') :=
      blockLoop_ends (k := 0) hc hget hvsb hchain (by decide) hsmall (by omega) rfl (Nat.zero_le _) (by omega)
    obtain ⟨calls', hloop⟩ := hends
    have hread := (readdir_eq_ok_iff hdir hvsb hbs).2 hloop
    exact ⟨_, (h ▸ hsome hread : calls = calls') ▸ hread⟩

/-- The listing is exact iff every block is listed to its end. -/
theorem readdirExact_iff_listed (hvino : readInode m fresh i = .ok (some vino)) (hdir : vino.stMode &&& 0x4000 ≠ 0)
    (hc : ContentAt m.blockSize content)
    (hchain : ∀ k < vino.numBlocks, EntryChain m.blockSize (vino.delivered fresh 0 k) 0 (es k)) :
    ReaddirExact m fresh content vino es ↔
      ∀ k < vino.numBlocks, listed k (es k) = (es k).filter DirEntry.used := by
  obtain ⟨⟨extIn, hinit⟩, hbs, hread⟩ := readInode_some hvino
  choose get hget using hread
  have hvsb : vino.vsb = m.toExt2VfsSuperBlock := by
    rw [hinit]
    rfl
  have hst : vino.stSize < 2 ^ 64 := hinit ▸ stSize_lt extIn i _
  -- the calls that there are, and those that there should be
  have hcalls : ReaddirExact m fresh content vino es ↔
      (List.range vino.numBlocks).flatMap (fun k => (listed k (es k)).map (callOf get)) =
        (List.range vino.numBlocks).flatMap fun k => ((es k).filter DirEntry.used).map (callOf get) := by
    rw [ReaddirExact, exists_comm]
    simp only [exists_and_right, readdir_iff hdir hvsb hbs hst hc hget hchain, forall₂_callsFor hget,
      List.map_flatMap, exists_eq_left']
    exact eq_comm
  rw [hcalls, List.flatMap_eq_iff_of_isPrefix fun k => (listed_isPrefix k (es k)).map _]
  simp only [List.mem_range]
  refine forall₂_congr fun k _ => ⟨fun h => ?_, fun h => by rw [h]⟩
  have hlen := congrArg List.length h
  rw [List.length_map, List.length_map] at hlen
  exact (listed_isPrefix k (es k)).eq_of_length hlen

/-- For every directory whose blocks, as `read_inode_block` delivers them, are entries up to the end of the block:
`readdir` is exact iff in no block an entry with an inode follows one without, and the blocks that an `int` does
not count up to have no entries with an inode. -/
theorem readdirExact_iff (hvino : readInode m fresh i = .ok (some vino)) (hdir : vino.stMode &&& 0x4000 ≠ 0)
    (hc : ContentAt m.blockSize content)
    (hchain : ∀ k < vino.numBlocks, EntryChain m.blockSize (vino.delivered fresh 0 k) 0 (es k)) :
    ReaddirExact m fresh content vino es ↔ ∀ k < vino.numBlocks,
      ((es k).Pairwise fun e e' => e.ino = 0 → e'.ino = 0) ∧ (2 ^ 31 ≤ k → ∀ e ∈ es k, e.ino = 0) := by
  rw [readdirExact_iff_listed hvino hdir hc hchain]
  exact forall₂_congr fun k _ => listed_eq_iff

/-- Direct and singly indirect blocks are delivered as they are on the disk. -/
theorem entryChain_delivered {k : Nat} {l : List DirEntry} (hreadable : vino.vsb.Readable)
    (hk : k < 12 + vino.vsb.blockSize / 4) (hptr : ∀ p ∈ treePath vino.vsb vino.extIn k, p ≠ 0)
    (h : EntryChain vino.vsb.blockSize (diskBlock vino.vsb (treeBlock vino.vsb vino.extIn k)) 0 l) :
    EntryChain vino.vsb.blockSize (vino.delivered fresh 0 k) 0 l := by
  refine h.congr fun j hj => ?_
  cases k with
  | zero => exact mapsBlock_of_lt hk vino.vsb vino.extIn fresh fresh hreadable rfl hptr j hj
  | succ k =>
    rw [← delivered_succ]
    exact mapsBlock_of_lt hk vino.vsb vino.extIn fresh _ hreadable rfl hptr j hj

/-- So for a directory of no other blocks the entries may be those on the disk. -/
theorem readdirExact_iff_of_le (hvino : readInode m fresh i = .ok (some vino)) (hdir : vino.stMode &&& 0x4000 ≠ 0)
    (hc : ContentAt m.blockSize content) (hreadable : vino.vsb.Readable)
    (hnum : vino.numBlocks ≤ 12 + vino.vsb.blockSize / 4)
    (hptr : ∀ k < vino.numBlocks, ∀ p ∈ treePath vino.vsb vino.extIn k, p ≠ 0)
    (hchain : ∀ k < vino.numBlocks,
      EntryChain vino.vsb.blockSize (diskBlock vino.vsb (treeBlock vino.vsb vino.extIn k)) 0 (es k)) :
    ReaddirExact m fresh content vino es ↔
      ∀ k < vino.numBlocks, listed k (es k) = (es k).filter DirEntry.used := by
  obtain ⟨⟨extIn, hinit⟩, -⟩ := readInode_some hvino
  have hbs : vino.vsb.blockSize = m.blockSize := by
    rw [hinit]
    rfl
  exact readdirExact_iff_listed hvino hdir hc fun k hk =>
    hbs ▸ entryChain_delivered hreadable (hk.trans_le hnum) (hptr k hk) (hchain k hk)

end

/-- A file system with blocks of 1 KiB, whose root directory is block 10. -/
def dirMount (block10 : List (Nat × Nat × Nat)) : Ext2Mount :=
  mountOf (someSuperBlock 0) (memWith [(8, 4, 5)])
    (diskWith (memWith ([(5248, 2, 0x4000), (5252, 4, 1024), (5288, 4, 10)] ++
      block10.map fun cell => (10 * 1024 + cell.1, cell.2))))
    (fun _ => 0) (Fin.last 3)

/-- What the block of a directory holds when it has two entries, with names of one letter. -/
def twoEntries (ino ino' : Nat) : List (Nat × Nat × Nat) :=
  [(0, 4, ino), (4, 2, 12), (6, 1, 1), (8, 1, 46), (12, 4, ino'), (16, 2, 1012), (18, 1, 1), (20, 1, 97)]

/-- The two entries. -/
theorem entryChain_twoEntries {block : Mem}
    (h : (ext2DirEntryHeader block 0).entrySize = 12 ∧ (ext2DirEntryHeader block 0).nameLenLsb = 1)
    (h' : (ext2DirEntryHeader block 12).entrySize = 1012 ∧ (ext2DirEntryHeader block 12).nameLenLsb = 1) :
    EntryChain 1024 block 0 [dirEntry block 0, dirEntry block 12] := by
  have hsize : (dirEntry block 0).entrySize = 12 := h.1
  have hsize' : (dirEntry block 12).entrySize = 1012 := h'.1
  have hname : (dirEntry block 0).name.length = 1 := by rw [dirEntry, entryName, h.2]; rfl
  have hname' : (dirEntry block 12).name.length = 1 := by rw [dirEntry, entryName, h'.2]; rfl
  refine .cons (by rw [hsize]; decide) (by rw [hsize, hname]; decide) ?_
  rw [hsize]
  refine .cons (by rw [hsize']; decide) (by rw [hsize', hname']; decide) ?_
  rw [hsize']
  exact .nil

/-- What the root directory of `dirMount` is, if it is read as it should be. -/
def TwoEntryRoot (ino ino' : Nat) (vino : VfsInode) : Prop :=
  let block := vino.delivered (fun _ => 0) 0 0
  vino.stMode &&& 0x4000 ≠ 0 ∧ vino.numBlocks = 1 ∧
    ((ext2DirEntryHeader block 0).entrySize = 12 ∧ (ext2DirEntryHeader block 0).nameLenLsb = 1) ∧
    ((ext2DirEntryHeader block 12).entrySize = 1012 ∧ (ext2DirEntryHeader block 12).nameLenLsb = 1) ∧
    (ext2DirEntryHeader block 0).ino = ino ∧ (ext2DirEntryHeader block 12).ino = ino'

instance (ino ino' : Nat) (vino : VfsInode) : Decidable (TwoEntryRoot ino ino' vino) :=
  inferInstanceAs (Decidable (_ ∧ _))

/-- The entries of its blocks. -/
def twoEntriesOf (vino : VfsInode) (k : Nat) : List DirEntry :=
  [dirEntry (vino.delivered (fun _ => 0) 0 k) 0, dirEntry (vino.delivered (fun _ => 0) 0 k) 12]

theorem TwoEntryRoot.map_ino {ino ino' : Nat} {vino : VfsInode} (h : TwoEntryRoot ino ino' vino) :
    (twoEntriesOf vino 0).map DirEntry.ino = [ino, ino'] := by
  obtain ⟨-, -, -, -, hino, hino'⟩ := h
  exact congrArg₂ (fun a b => [a, b]) hino hino'

theorem TwoEntryRoot.entryChain {ino ino' k bs : Nat} {vino : VfsInode} (h : TwoEntryRoot ino ino' vino)
    (hbs : bs = 1024) (hk : k < vino.numBlocks) :
    EntryChain bs (vino.delivered (fun _ => 0) 0 k) 0 (twoEntriesOf vino k) := by
  obtain ⟨-, hnum, hfirst, hsecond, -, -⟩ := h
  obtain rfl : k = 0 := by omega
  rw [hbs]
  exact entryChain_twoEntries hfirst hsecond

/-- Both entries have an inode. -/
theorem readdirExact_two_entries : ∃ vino es,
    readInode (dirMount (twoEntries 2 11)) (fun _ => 0) 2 = .ok (some vino) ∧ vino.numBlocks = 1 ∧
    (es 0).map DirEntry.ino = [2, 11] ∧
    ReaddirExact (dirMount (twoEntries 2 11)) (fun _ => 0) 0x1000 vino es := by
  obtain ⟨vino, hvino, hroot⟩ := exists_of_any (r := readInode (dirMount (twoEntries 2 11)) (fun _ => 0) 2)
    (p := TwoEntryRoot 2 11) (by decide +kernel)
  have hroot := of_decide_eq_true hroot
  obtain ⟨hdir, hnum, -, -, hino, -⟩ := id hroot
  have hbs : (dirMount (twoEntries 2 11)).blockSize = 1024 := by decide +kernel
  refine ⟨vino, twoEntriesOf vino, hvino, hnum, hroot.map_ino, ?_⟩
  refine (readdirExact_iff hvino hdir ⟨rfl, by rw [hbs]; decide⟩ fun k => hroot.entryChain hbs).2
    fun k hk => ⟨?_, by omega⟩
  obtain rfl : k = 0 := by omega
  exact List.pairwise_pair.2 fun hzero => absurd (hino.symm.trans hzero) (by decide)

/-- The first entry has been deleted: the second one is not listed. -/
theorem not_readdirExact_deleted_first : ∃ vino es,
    readInode (dirMount (twoEntries 0 11)) (fun _ => 0) 2 = .ok (some vino) ∧ vino.stMode &&& 0x4000 ≠ 0 ∧
    vino.numBlocks = 1 ∧ EntryChain 1024 (vino.delivered (fun _ => 0) 0 0) 0 (es 0) ∧
    (es 0).map DirEntry.ino = [0, 11] ∧
    ¬ ReaddirExact (dirMount (twoEntries 0 11)) (fun _ => 0) 0x1000 vino es := by
  obtain ⟨vino, hvino, hroot⟩ := exists_of_any (r := readInode (dirMount (twoEntries 0 11)) (fun _ => 0) 2)
    (p := TwoEntryRoot 0 11) (by decide +kernel)
  have hroot := of_decide_eq_true hroot
  obtain ⟨hdir, hnum, -, -, hino, hino'⟩ := id hroot
  have hbs : (dirMount (twoEntries 0 11)).blockSize = 1024 := by decide +kernel
  refine ⟨vino, twoEntriesOf vino, hvino, hdir, hnum, hroot.entryChain rfl (by omega), hroot.map_ino, fun hexact => ?_⟩
  have hlisted := (readdirExact_iff_listed hvino hdir ⟨rfl, by rw [hbs]; decide⟩ fun k =>
    hroot.entryChain hbs).1 hexact 0 (by omega)
  have hall := (listed_eq_iff.1 hlisted).1
  exact absurd (hino'.symm.trans (List.pairwise_pair.1 hall hino)) (by decide)

end BanjOS
