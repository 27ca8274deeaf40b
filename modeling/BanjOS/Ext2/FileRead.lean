import BanjOS.Allocator.Kmalloc
import BanjOS.Ext2.Blocks
import Mathlib.Data.List.Induction

/-!
# Reading an ext2 file

`ext2_file_open` and `ext2_file_read` of `ext2.c`, and a client that reads a file from its start by any
sequence of calls. The loop of `ext2_file_read` copies one piece of a block per turn; `chunkSize` is how
much, `readCount` how much a whole call copies. The code mixes `int` (the cursor, the counts) with
`uint64_t` (the sizes), so the conversions are written out.
-/

namespace BanjOS

open ByteMem

/-! ## The code -/

/-- An `int` converted to `uint64_t`; also the wrap-around of 64-bit arithmetic. -/
def toU64 (x : Int) : Nat := (x % 2 ^ 64).toNat

/-- The wrap-around of `int` arithmetic. -/
def wrapInt (x : Int) : Int := x.bmod (2 ^ 32)

/-- `struct Ext2VfsInode`: the file's size, its block pointers and its file system. -/
structure Ext2VfsInode where
  stSize : Nat
  extIn : Ext2Inode
  vsb : Ext2VfsSuperBlock

/-- `struct Ext2File`. -/
structure Ext2File where
  inode : Ext2VfsInode
  cursor : Int

/-- `ext2_file_open`. -/
def ext2FileOpen (inode : Ext2VfsInode) : Ext2File := ⟨inode, 0⟩

/-- The variables of the loop of `ext2_file_read`. The pointer `dst` is an offset in the caller's buffer
`out`. -/
structure ReadLoop where
  exfi : Ext2File
  bytesRead : Int
  block : Int
  contentBlock : Mem
  dst : Nat
  out : Mem

/-- The piece of the block that a turn of the loop copies: its offset and its size. -/
def ReadLoop.piece (st : ReadLoop) (len : Int) : Nat × Nat :=
  let blockSize := st.exfi.inode.vsb.blockSize
  let stSize := st.exfi.inode.stSize
  let cursor := toU64 st.exfi.cursor
  if cursor % blockSize ≠ 0 then
    let startOffset := toInt (cursor % blockSize)
    (toU64 startOffset, toU64 (blockSize - startOffset))
  else if toU64 (st.bytesRead + blockSize) ≥ toU64 len then (0, toU64 (wrapInt (len - st.bytesRead)))
  else if toU64 (cursor + blockSize) ≥ stSize then (0, toU64 (stSize - cursor))
  else (0, blockSize)

/-- One turn of the loop. `fresh` is what `kmalloc` leaves in the scratch buffers of
`read_inode_block`. -/
def readChunk (fresh : Mem) (len : Int) (st : ReadLoop) : ReadLoop :=
  let inode := st.exfi.inode
  let contentBlock := readInodeBlock inode.vsb inode.extIn fresh (toU64 st.block) st.contentBlock
  let (off, size) := st.piece len
  let copied := toInt size
  { exfi := { st.exfi with cursor := wrapInt (st.exfi.cursor + copied) }
    bytesRead := wrapInt (st.bytesRead + copied)
    block := wrapInt (st.block + 1)
    contentBlock := contentBlock
    dst := toU64 (st.dst + copied)
    out := copyTo st.out st.dst size fun j => contentBlock (off + j) }

/-- The loop, for at most the given number of turns. -/
def readLoop (fresh : Mem) (len : Int) : Nat → ReadLoop → Option ReadLoop
  | 0, _ => none
  | fuel + 1, st =>
    if st.bytesRead < len ∧ toU64 st.exfi.cursor < st.exfi.inode.stSize then
      readLoop fresh len fuel (readChunk fresh len st)
    else some st

/-- A call of `ext2_file_read`: the length asked for, the buffer to fill, and what `kmalloc` leaves in
the scratch buffers. -/
structure ReadCall where
  len : Int
  dst : Mem
  fresh : Mem

/-- `ext2_file_read`. -/
def ext2FileRead (exfi : Ext2File) (call : ReadCall) : Option ReadLoop :=
  readLoop call.fresh call.len (call.len.toNat + 1)
    { exfi := exfi
      bytesRead := 0
      block := toInt (toU64 exfi.cursor / exfi.inode.vsb.blockSize)
      contentBlock := call.fresh
      dst := 0
      out := call.dst }

/-! ## A client -/

/-- A client that reads a file: the open file, the bytes it has been given, and whether a read has
returned 0. -/
structure Reader where
  file : Ext2File
  data : List UInt8
  done : Bool

/-- The client has opened the file. -/
def Reader.opened (inode : Ext2VfsInode) : Reader := ⟨ext2FileOpen inode, [], false⟩

/-- The client reads once. -/
def Reader.read (r : Reader) (call : ReadCall) : Option Reader :=
  (ext2FileRead r.file call).map fun st =>
    { file := st.exfi
      data := r.data ++ (List.range st.bytesRead.toNat).map st.out
      done := r.done || st.bytesRead == (0 : Int) }

/-- The client reads by a sequence of calls. -/
def Reader.readAll (r : Reader) (calls : List ReadCall) : Option Reader := calls.foldlM Reader.read r

/-- Byte `j` of a file by the ext2 format. -/
def Ext2VfsInode.byte (inode : Ext2VfsInode) (j : Nat) : UInt8 :=
  diskBlock inode.vsb (treeBlock inode.vsb inode.extIn (j / inode.vsb.blockSize))
    (j % inode.vsb.blockSize)

/-- The bytes of a file. -/
def Ext2VfsInode.bytes (inode : Ext2VfsInode) : List UInt8 := (List.range inode.stSize).map inode.byte

/-- `read_inode_block` delivers the logical blocks of the file. -/
def Ext2VfsInode.Delivered (inode : Ext2VfsInode) : Prop :=
  ∀ (fresh dst : Mem) (k : Nat), k * inode.vsb.blockSize < inode.stSize → ∀ j < inode.vsb.blockSize,
    readInodeBlock inode.vsb inode.extIn fresh k dst j =
      diskBlock inode.vsb (treeBlock inode.vsb inode.extIn k) j

/-- A file smaller than 2 GiB whose blocks `read_inode_block` delivers, with a block size that an `int`
holds twice. -/
structure Ext2VfsInode.Readable (inode : Ext2VfsInode) : Prop where
  blockSize_pos : 0 < inode.vsb.blockSize
  blockSize_le : inode.vsb.blockSize ≤ 2 ^ 30
  stSize_lt : inode.stSize < 2 ^ 31
  delivered : inode.Delivered

/-- What a client of the file may rely on: the cursor is within the file, what it was given are the
first bytes of the file, and the whole file once a read has returned 0. -/
structure Reader.Faithful (inode : Ext2VfsInode) (r : Reader) : Prop where
  cursor_le : r.file.cursor ≤ inode.stSize
  data_isPrefix : r.data <+: inode.bytes
  whole : r.done → r.data = inode.bytes

/-! ## One turn of the loop -/

@[simp] theorem toU64_natCast {n : Nat} (h : n < 2 ^ 64) : toU64 n = n := by
  rw [toU64]
  omega

theorem wrapInt_natCast {n : Nat} (h : n < 2 ^ 31) : wrapInt n = n := by
  rw [wrapInt, Int.bmod_def]
  omega

/-- A cursor that has reached the end of the file ends the loop, also where it has wrapped around. -/
theorem le_toU64_wrapInt {S m : Nat} (hS : S < 2 ^ 31) (hm : S ≤ m) (hm' : m < 2 ^ 32) :
    S ≤ toU64 (wrapInt m) := by
  rw [toU64, wrapInt, Int.bmod_def]
  omega

/-- How much one turn of the loop copies at the cursor `c` when `r` bytes of `len` are read. -/
def chunkSize (bs S len c r : Nat) : Nat :=
  if c % bs ≠ 0 then bs - c % bs
  else if len ≤ r + bs then len - r
  else if S ≤ c + bs then S - c
  else bs

section
variable {bs S len c r : Nat}

/-- A turn copies something, and not past the end of a block. -/
theorem chunkSize_bounds (hbs : 0 < bs) (hc : c < S) (hr : r < len) :
    0 < chunkSize bs S len c r ∧ c % bs + chunkSize bs S len c r ≤ bs := by
  have hlt := Nat.mod_lt c hbs
  rw [chunkSize]
  split <;> [skip; split <;> [skip; split]] <;> omega

/-- The count of bytes read stays an `int`. -/
theorem add_chunkSize_lt {a : Nat} (hbs : bs ≤ 2 ^ 30) (hS : S < 2 ^ 31) (hlen : len < 2 ^ 31)
    (hc : a + r < S) (hr : r < len) (hstart : (a + r) % bs = 0 ∨ r = 0) :
    r + chunkSize bs S len (a + r) r < 2 ^ 31 := by
  rw [chunkSize]
  split <;> [skip; split <;> [skip; split]] <;> omega

end

/-- The piece that a turn copies at the cursor `k`, when no `int` wraps around. -/
theorem ReadLoop.piece_eq {inode : Ext2VfsInode} {st : ReadLoop} {k r len : Nat} (hexfi : st.exfi = ⟨inode, ↑k⟩)
    (hread : st.bytesRead = r) (hbs : 0 < inode.vsb.blockSize) (hbs' : inode.vsb.blockSize < 2 ^ 31)
    (hlen : len < 2 ^ 31) (hr : r < len) (hk : k < inode.stSize) (hk' : k < 2 ^ 63) :
    st.piece len = (k % inode.vsb.blockSize, chunkSize inode.vsb.blockSize inode.stSize len k r) := by
  have hcur : toU64 ↑k = k := toU64_natCast (by omega)
  have hsum : toU64 (↑r + ↑inode.vsb.blockSize) = r + inode.vsb.blockSize :=
    toU64_natCast (n := r + inode.vsb.blockSize) (by omega)
  have hend : toU64 (↑k + ↑inode.vsb.blockSize) = k + inode.vsb.blockSize :=
    toU64_natCast (n := k + inode.vsb.blockSize) (by omega)
  have hle : k % inode.vsb.blockSize ≤ inode.vsb.blockSize := (Nat.mod_lt _ hbs).le
  simp only [ReadLoop.piece, hexfi, hread, hcur, hsum, hend, toU64_natCast (show len < 2 ^ 64 by omega), chunkSize,
    ge_iff_le]
  split
  case isTrue =>
    rw [toInt_of_lt (by omega), toU64_natCast (by omega), ← Int.ofNat_sub hle, toU64_natCast (by omega)]
  case isFalse hal =>
    rw [Decidable.not_not.1 hal]
    split
    · rw [← Int.ofNat_sub hr.le, wrapInt_natCast (by omega), toU64_natCast (by omega)]
    · split
      · rw [← Int.ofNat_sub hk.le, toU64_natCast (by omega)]
      · rfl

/-- The variables of the loop before a turn at the cursor `a + r`, where the call has started at `a`. -/
structure ReadLoop.At (inode : Ext2VfsInode) (a r : Nat) (st : ReadLoop) : Prop where
  exfi : st.exfi = ⟨inode, wrapInt ↑(a + r)⟩
  bytesRead : st.bytesRead = r
  dst : st.dst = r
  data : ∀ i < r, st.out i = inode.byte (a + i)

section
variable {inode : Ext2VfsInode} {a r len : Nat} {st : ReadLoop} (fresh : Mem)

/-- The piece that a turn copies. -/
theorem ReadLoop.At.piece_eq (h : st.At inode a r) (hin : inode.Readable) (hlen : len < 2 ^ 31)
    (hc : a + r < inode.stSize) (hr : r < len) : st.piece len =
      ((a + r) % inode.vsb.blockSize, chunkSize inode.vsb.blockSize inode.stSize len (a + r) r) := by
  obtain ⟨hpos, hbs, hS, -⟩ := hin
  have hexfi := h.exfi
  rw [wrapInt_natCast (by omega)] at hexfi
  exact ReadLoop.piece_eq hexfi h.bytesRead hpos (by omega) hlen hr hc (by omega)

/-- One turn of the loop: the bytes it copies are the next ones of the file. Only the first turn starts
inside a block. -/
theorem ReadLoop.At.readChunk (h : st.At inode a r) (hin : inode.Readable) (hlen : len < 2 ^ 31)
    (hc : a + r < inode.stSize) (hr : r < len) (hblock : st.block = ↑((a + r) / inode.vsb.blockSize))
    (hstart : (a + r) % inode.vsb.blockSize = 0 ∨ r = 0) :
    (readChunk fresh len st).At inode a
        (r + chunkSize inode.vsb.blockSize inode.stSize len (a + r) r) ∧
      (BanjOS.readChunk fresh len st).block = ↑((a + r) / inode.vsb.blockSize + 1) := by
  obtain ⟨hpos, hbs, hS, hdeliv⟩ := id hin
  obtain ⟨hn₀, hn⟩ := chunkSize_bounds hpos hc hr
  have hsum := add_chunkSize_lt hbs hS hlen hc hr hstart
  have hdiv : (a + r) / inode.vsb.blockSize ≤ a + r := Nat.div_le_self _ _
  have hpiece := h.piece_eq hin hlen hc hr
  generalize hn' : chunkSize inode.vsb.blockSize inode.stSize len (a + r) r = n at *
  simp only [BanjOS.readChunk, hpiece, h.exfi, h.bytesRead, h.dst, hblock,
    toInt_of_lt (show n < 2 ^ 31 by omega)]
  refine ⟨⟨?_, ?_, ?_, fun i hi => ?_⟩, ?_⟩
  · rw [wrapInt_natCast (n := a + r) (by omega), ← Nat.add_assoc, Int.natCast_add (a + r) n]
  · dsimp only
    rw [← Int.natCast_add, wrapInt_natCast (by omega)]
  · dsimp only
    rw [← Int.natCast_add, toU64_natCast (by omega)]
  · -- the bytes before this turn's, and this turn's
    simp only [copyTo]
    split
    case isTrue hr =>
      obtain ⟨hr, -⟩ := hr
      have hle : (a + r) / inode.vsb.blockSize * inode.vsb.blockSize ≤ a + r := Nat.div_mul_le_self _ _
      have hlt : (a + r) % inode.vsb.blockSize + (i - r) < inode.vsb.blockSize := by omega
      have haddr : a + i = inode.vsb.blockSize * ((a + r) / inode.vsb.blockSize) +
          ((a + r) % inode.vsb.blockSize + (i - r)) := by
        rw [← Nat.add_assoc, Nat.div_add_mod]
        omega
      rw [toU64_natCast (by omega), hdeliv _ _ _ (hle.trans_lt hc) _ hlt, Ext2VfsInode.byte, haddr,
        Nat.mul_add_div hpos, Nat.mul_add_mod, Nat.div_eq_of_lt hlt, Nat.mod_eq_of_lt hlt, Nat.add_zero]
    case isFalse hr =>
      exact h.data i (by simp only [InRange] at hr; omega)
  · rw [← Int.natCast_succ, wrapInt_natCast (by omega)]

/-- The loop ends where nothing is left to read. -/
theorem ReadLoop.At.readLoop_exit (h : st.At inode a r) (hin : inode.Readable)
    (hend : len ≤ r ∨ inode.stSize ≤ a + r) (hlt : a + r < 2 ^ 32) (fuel : Nat) :
    readLoop fresh len (fuel + 1) st = some st := by
  rw [readLoop, if_neg]
  rintro ⟨hr, hc⟩
  rw [h.bytesRead] at hr
  rw [h.exfi] at hc
  rcases hend with hend | hend
  · omega
  · exact absurd (le_toU64_wrapInt hin.stSize_lt hend hlt) (by simpa using hc)

/-- The loop goes on where something is left. -/
theorem ReadLoop.At.readLoop_turn (h : st.At inode a r) (hin : inode.Readable) (hr : r < len)
    (hc : a + r < inode.stSize) (fuel : Nat) :
    readLoop fresh len (fuel + 1) st = readLoop fresh len fuel (BanjOS.readChunk fresh len st) := by
  have hS := hin.stSize_lt
  rw [readLoop, if_pos]
  refine ⟨by rw [h.bytesRead]; exact_mod_cast hr, ?_⟩
  rw [h.exfi, wrapInt_natCast (by omega), toU64_natCast (by omega)]
  exact hc

end

/-! ## One call -/

/-- How much a call copies from the start `c` of a block, with `n` bytes to go: all of them if the last
block it comes to starts within the file, and else the rest of the file. -/
def alignedCount (bs S n c : Nat) : Nat :=
  if n = 0 ∨ S ≤ c then 0 else if c + (n - 1) / bs * bs < S then n else S - c

/-- The distance from the cursor to the next start of a block. -/
def blockGap (bs c : Nat) : Nat := if c % bs = 0 then 0 else bs - c % bs

/-- How much a call copies. -/
def readCount (bs S c len : Nat) : Nat :=
  if S ≤ c then 0 else blockGap bs c + alignedCount bs S (len - blockGap bs c) (c + blockGap bs c)

section
variable {bs S n c len : Nat}

/-- From inside a block the gap leads to the start of the next one. -/
theorem add_blockGap (hbs : 0 < bs) (hc : c % bs ≠ 0) : c + blockGap bs c = bs * (c / bs + 1) := by
  have hlt := Nat.mod_lt c hbs
  have hsum := Nat.div_add_mod c bs
  rw [blockGap, if_neg hc, Nat.mul_succ]
  omega

/-- A whole block is copied, and the loop goes on at the next one. -/
theorem alignedCount_step (hbs : 0 < bs) (hn : bs < n) (hc : c + bs < S) :
    alignedCount bs S n c = bs + alignedCount bs S (n - bs) (c + bs) := by
  have hdiv : (n - 1) / bs * bs = (n - bs - 1) / bs * bs + bs := by
    rw [← Nat.succ_mul, Nat.succ_eq_add_one, ← Nat.add_div_right _ hbs]
    congr 2
    omega
  simp only [alignedCount, hdiv]
  generalize (n - bs - 1) / bs * bs = k
  split_ifs <;> omega

/-- The last piece: the rest of the bytes asked for. -/
theorem alignedCount_of_le (hn₀ : 0 < n) (hn : n ≤ bs) (hc : c < S) : alignedCount bs S n c = n := by
  rw [alignedCount, if_neg (by omega), Nat.div_eq_of_lt (by omega), Nat.zero_mul, if_pos (by omega)]

/-- The last piece: the rest of the file. -/
theorem alignedCount_of_ge (hbs : 0 < bs) (hn : bs < n) (hc : c < S) (hend : S ≤ c + bs) :
    alignedCount bs S n c = S - c := by
  have hdiv : 1 ≤ (n - 1) / bs := (Nat.one_le_div_iff hbs).2 (by omega)
  have hle : bs ≤ (n - 1) / bs * bs := Nat.le_mul_of_pos_left _ hdiv
  rw [alignedCount, if_neg (by omega), if_neg (by omega)]

/-- The state of the file and the length of a call that keep the read within the file: where the cursor
is inside a block, the block's end is within the file; and after it, the bytes asked for end within the
file or go on past the end of the file's last block (whose copy is then cut off at the file's end). -/
def ReadFits (bs S c len : Nat) : Prop :=
  c < S → c + blockGap bs c ≤ S ∧
    (len - blockGap bs c = 0 ∨ c + blockGap bs c + (len - blockGap bs c) ≤ S ∨
      S ≤ c + blockGap bs c + (len - blockGap bs c - 1) / bs * bs)

instance (bs S c len : Nat) : Decidable (ReadFits bs S c len) := inferInstanceAs (Decidable (c < S → _))

/-- A read keeps within the file iff it fits. -/
theorem readFits_iff (hc : c ≤ S) : ReadFits bs S c len ↔ c + readCount bs S c len ≤ S := by
  rw [ReadFits, readCount, alignedCount]
  generalize (len - blockGap bs c - 1) / bs * bs = k
  split_ifs <;> omega

/-- A read returns 0 at the end of the file only. -/
theorem readCount_eq_zero_iff (hbs : 0 < bs) (hlen : 0 < len) : readCount bs S c len = 0 ↔ S ≤ c := by
  have hmod := Nat.mod_lt c hbs
  rw [readCount, blockGap, alignedCount]
  generalize (len - (if c % bs = 0 then 0 else bs - c % bs) - 1) / bs * bs = k
  split_ifs <;> omega

end

section
variable {inode : Ext2VfsInode} {a r len : Nat} {st : ReadLoop} (fresh : Mem)

/-- The loop from the start of a block on. -/
theorem ReadLoop.At.readLoop_aligned (h : st.At inode a r) (hin : inode.Readable) (hlen : len < 2 ^ 31)
    (hal : (a + r) % inode.vsb.blockSize = 0)
    (hblock : st.block = ↑((a + r) / inode.vsb.blockSize)) (hlt : a + r < 2 ^ 32) {fuel : Nat}
    (hfuel : len - r < fuel) : ∃ st', readLoop fresh len fuel st = some st' ∧
      st'.At inode a (r + alignedCount inode.vsb.blockSize inode.stSize (len - r) (a + r)) := by
  have hpos := hin.blockSize_pos
  induction fuel generalizing r st with
  | zero => omega
  | succ fuel ih =>
    by_cases hend : len ≤ r ∨ inode.stSize ≤ a + r
    · refine ⟨st, h.readLoop_exit fresh hin hend hlt fuel, ?_⟩
      rwa [alignedCount, if_pos (by omega), Nat.add_zero]
    · obtain ⟨hr, hc⟩ : r < len ∧ a + r < inode.stSize := by omega
      obtain ⟨hat, hblock'⟩ := h.readChunk fresh hin hlen hc hr hblock (.inl hal)
      rw [h.readLoop_turn fresh hin hr hc]
      obtain ⟨k, rfl⟩ : ∃ k, fuel = k + 1 := ⟨fuel - 1, by omega⟩
      rw [chunkSize, if_neg (by simpa using hal)] at hat
      split at hat
      case isTrue hle =>
        -- the last piece by the length
        refine ⟨_, hat.readLoop_exit fresh hin (by omega) (by have := hin.stSize_lt; omega) k, ?_⟩
        rwa [alignedCount_of_le (by omega) (by omega) hc]
      case isFalse hgt =>
        split at hat
        case isTrue hle =>
          -- the last piece by the size of the file
          refine ⟨_, hat.readLoop_exit fresh hin (by omega) (by have := hin.stSize_lt; omega) k, ?_⟩
          rwa [alignedCount_of_ge hpos (by omega) hc hle]
        case isFalse hgt' =>
          rw [alignedCount_step hpos (by omega) (by omega), ← Nat.add_assoc]
          have hdiv : (a + (r + inode.vsb.blockSize)) / inode.vsb.blockSize =
              (a + r) / inode.vsb.blockSize + 1 := by rw [← Nat.add_assoc, Nat.add_div_right _ hpos]
          obtain ⟨st', hst', hat'⟩ := ih hat (by rw [← Nat.add_assoc, Nat.add_mod_right]; exact hal)
            (by rw [hblock', hdiv]) (by have := hin.stSize_lt; omega) (by omega)
          refine ⟨st', hst', ?_⟩
          rwa [← Nat.sub_sub, ← Nat.add_assoc] at hat'

/-- A call of `ext2_file_read` with the cursor at `a` returns, and it gives the next `readCount` bytes
of the file. -/
theorem ext2FileRead_spec (hin : inode.Readable) (ha : a ≤ inode.stSize) {call : ReadCall}
    (hpos : 0 < len) (hlen : len < 2 ^ 31) (hcall : call.len = len) :
    ∃ st, ext2FileRead ⟨inode, a⟩ call = some st ∧
      st.At inode a (readCount inode.vsb.blockSize inode.stSize a len) := by
  have hbs := hin.blockSize_pos
  have hS := hin.stSize_lt
  have hdiv : a / inode.vsb.blockSize ≤ a := Nat.div_le_self _ _
  rw [ext2FileRead, hcall, toU64_natCast (by omega), toInt_of_lt (by dsimp only; omega)]
  generalize hst : ReadLoop.mk ⟨inode, (a : Int)⟩ 0 ↑(a / inode.vsb.blockSize) call.fresh 0 call.dst = st₀
  have hat : st₀.At inode a 0 := by
    subst hst
    exact ⟨by rw [Nat.add_zero, wrapInt_natCast (by omega)], rfl, rfl, fun i hi => absurd hi (by omega)⟩
  have hblock : st₀.block = ↑((a + 0) / inode.vsb.blockSize) := by
    subst hst
    rfl
  rw [Int.toNat_natCast, readCount]
  by_cases hend : inode.stSize ≤ a
  · rw [if_pos hend]
    exact ⟨st₀, hat.readLoop_exit call.fresh hin (.inr hend) (by omega) len, hat⟩
  rw [if_neg hend]
  by_cases hal : a % inode.vsb.blockSize = 0
  · rw [blockGap, if_pos hal, Nat.zero_add]
    obtain ⟨st, hrun, hst⟩ := hat.readLoop_aligned call.fresh hin hlen hal hblock (by omega)
      (show len - 0 < len + 1 by omega)
    exact ⟨st, hrun, by rwa [Nat.zero_add] at hst⟩
  · -- the first turn ends the block the cursor is in
    obtain ⟨hat', hblock'⟩ := hat.readChunk call.fresh hin hlen (by omega) hpos hblock (.inr rfl)
    have hnext := add_blockGap hbs hal
    have hgap : blockGap inode.vsb.blockSize a = inode.vsb.blockSize - a % inode.vsb.blockSize := if_neg hal
    have hmod := Nat.mod_lt a hbs
    rw [chunkSize, if_pos (by simpa using hal), Nat.zero_add, Nat.add_zero, ← hgap] at hat'
    rw [hat.readLoop_turn call.fresh hin hpos (by omega)]
    obtain ⟨st, hrun, hst⟩ := hat'.readLoop_aligned call.fresh hin hlen
      (by rw [hnext, Nat.mul_mod_right]) (by rw [hblock', hnext, Nat.mul_div_cancel_left _ hbs]; rfl)
      (by have := hin.blockSize_le; omega) (show len - _ < len by omega)
    exact ⟨st, hrun, hst⟩

end

/-! ## Runs -/

/-- A client that has been given the first `c` bytes of the file. -/
structure Reader.At (inode : Ext2VfsInode) (c : Nat) (r : Reader) : Prop where
  file : r.file = ⟨inode, c⟩
  data : r.data = (List.range c).map inode.byte
  le : c ≤ inode.stSize
  whole : r.done → c = inode.stSize

/-- The calls that C allows: positive lengths that fit an `int`. -/
def ReadCall.Positive (call : ReadCall) : Prop := 0 < call.len ∧ call.len < 2 ^ 31

section
variable {inode : Ext2VfsInode} {c : Nat} {r : Reader} {call : ReadCall} {calls : List ReadCall}

theorem Reader.at_opened (inode : Ext2VfsInode) : (Reader.opened inode).At inode 0 :=
  ⟨rfl, rfl, Nat.zero_le _, by simp [Reader.opened]⟩

/-- A client that has been given the first bytes of the file relies on nothing wrong. -/
theorem Reader.At.faithful (h : r.At inode c) : r.Faithful inode where
  cursor_le := by
    rw [h.file]
    exact Int.ofNat_le.2 h.le
  data_isPrefix := by
    obtain ⟨k, hk⟩ := Nat.exists_eq_add_of_le h.le
    rw [h.data, Ext2VfsInode.bytes, hk, List.range_add, List.map_append]
    exact List.prefix_append _ _
  whole := by
    intro hdone
    rw [h.data, h.whole hdone, Ext2VfsInode.bytes]

/-- One read: the client is given the next bytes, and they are within the file iff the read fits. -/
theorem Reader.At.read (h : r.At inode c) (hin : inode.Readable) (hcall : call.Positive) :
    ∃ r', r.read call = some r' ∧
      (ReadFits inode.vsb.blockSize inode.stSize c call.len.toNat → ∃ c', r'.At inode c') ∧
      (r'.Faithful inode → ReadFits inode.vsb.blockSize inode.stSize c call.len.toNat) := by
  obtain ⟨hpos, hlt⟩ := hcall
  obtain ⟨len, hlen⟩ := Int.eq_ofNat_of_zero_le hpos.le
  obtain ⟨st, hst, hat⟩ := ext2FileRead_spec hin h.le (by omega) (by omega) hlen
  rw [hlen, Int.toNat_natCast, readFits_iff h.le]
  have hzero := readCount_eq_zero_iff (S := inode.stSize) (c := c) hin.blockSize_pos (show 0 < len by omega)
  generalize readCount inode.vsb.blockSize inode.stSize c len = n at hat hzero ⊢
  have hdata : r.data ++ (List.range n).map st.out = (List.range (c + n)).map inode.byte := by
    rw [h.data, List.range_add, List.map_append, List.map_map, List.append_cancel_left_eq]
    exact List.map_congr_left fun i hi => hat.data i (List.mem_range.1 hi)
  have hread : r.read call = some ⟨⟨inode, wrapInt ↑(c + n)⟩, (List.range (c + n)).map inode.byte,
      r.done || (n : Int) == 0⟩ := by
    rw [Reader.read, h.file, hst, Option.map_some, hat.exfi, hat.bytesRead, Int.toNat_natCast, hdata]
  refine ⟨_, hread, fun hle => ⟨c + n, ?_, rfl, hle, ?_⟩, fun hf => ?_⟩
  · rw [wrapInt_natCast (by have := hin.stSize_lt; omega)]
  · have hle' := h.le
    have hwhole := h.whole
    simp only [Bool.or_eq_true, beq_iff_eq, Nat.cast_eq_zero]
    rintro (hdone | hdone)
    · have := hwhole hdone
      omega
    · have := hzero.1 hdone
      omega
  · -- more bytes than the file has are no first bytes of it
    simpa [Ext2VfsInode.bytes] using hf.data_isPrefix.length_le

theorem Reader.readAll_concat (r : Reader) (calls : List ReadCall) (call : ReadCall) :
    r.readAll (calls ++ [call]) = (r.readAll calls).bind (·.read call) := by
  rw [Reader.readAll, List.foldlM_append]
  exact congrArg _ (funext fun r' => by simp)

/-- Where every call of a run fits, the client has the first bytes of the file after each. -/
theorem exists_at_of_fits (hin : inode.Readable) (hcalls : ∀ call ∈ calls, call.Positive)
    (hfits : ∀ pre call r c, pre ++ [call] <+: calls → (Reader.opened inode).readAll pre = some r →
      r.At inode c → ReadFits inode.vsb.blockSize inode.stSize c call.len.toNat)
    (pre : List ReadCall) (hpre : pre <+: calls) :
    ∃ r c, (Reader.opened inode).readAll pre = some r ∧ r.At inode c := by
  induction pre using List.reverseRecOn with
  | nil => exact ⟨_, 0, rfl, Reader.at_opened inode⟩
  | append_singleton pre call ih =>
    obtain ⟨r, c, hr, hat⟩ := ih ((List.prefix_append _ _).trans hpre)
    obtain ⟨r', hread, hstep, -⟩ := hat.read hin (hcalls call (hpre.subset (by simp)))
    obtain ⟨c', hat'⟩ := hstep (hfits pre call r c hpre hr hat)
    exact ⟨r', c', by rw [Reader.readAll_concat, hr, Option.bind_some, hread], hat'⟩

/-- For every file and every sequence of positive read lengths: each read returns, the cursor stays
within the file, what was read is a prefix of the file and the whole file once a read returns 0, iff every
read of the sequence fits the file where it starts. -/
theorem reads_faithful_iff (hin : inode.Readable) (hcalls : ∀ call ∈ calls, call.Positive) :
    (∀ pre, pre <+: calls →
        ∃ r, (Reader.opened inode).readAll pre = some r ∧ r.Faithful inode) ↔
      ∀ pre call r, pre ++ [call] <+: calls → (Reader.opened inode).readAll pre = some r →
        ReadFits inode.vsb.blockSize inode.stSize r.file.cursor.toNat call.len.toNat := by
  constructor
  · intro h
    have hfits : ∀ pre call r c, pre ++ [call] <+: calls → (Reader.opened inode).readAll pre = some r →
        r.At inode c → ReadFits inode.vsb.blockSize inode.stSize c call.len.toNat := by
      intro pre call r c hpre hr hat
      obtain ⟨r', hread, -, hback⟩ := hat.read hin (hcalls call (hpre.subset (by simp)))
      obtain ⟨r'', hr'', hf⟩ := h _ hpre
      rw [Reader.readAll_concat, hr, Option.bind_some, hread, Option.some_inj] at hr''
      exact hback (hr'' ▸ hf)
    intro pre call r hpre hr
    obtain ⟨r', c, hr', hat⟩ := exists_at_of_fits hin hcalls hfits pre ((List.prefix_append _ _).trans hpre)
    obtain rfl : r' = r := by simpa [hr'] using hr
    rw [hat.file]
    exact hfits pre call r' c hpre hr' hat
  · intro h pre hpre
    obtain ⟨r, c, hr, hat⟩ := exists_at_of_fits hin hcalls
      (fun pre call r c hpre hr hat => by simpa [hat.file] using h pre call r hpre hr) pre hpre
    exact ⟨r, hr, hat.faithful⟩

end

/-- A file of the given size on the disk of `linkDisk`, with blocks of 1 KiB. -/
def linkFile (stSize : Nat) : Ext2VfsInode := ⟨stSize, linkInode, linkDisk 1024⟩

/-- A call with buffers of zeros. -/
def zeroCall (len : Int) : ReadCall := ⟨len, fun _ => 0, fun _ => 0⟩

theorem readable_linkFile {stSize : Nat} (h : stSize ≤ 12 * 1024) : (linkFile stSize).Readable where
  blockSize_pos := show 0 < 1024 by decide
  blockSize_le := show 1024 ≤ 2 ^ 30 by decide
  stSize_lt := Nat.lt_of_le_of_lt h (by decide)
  delivered := by
    intro fresh dst k hk j hj
    have hlt : k < 12 := Nat.lt_of_mul_lt_mul_right (hk.trans_le h)
    refine mapsBlock_of_lt (hlt.trans (by decide)) (linkDisk 1024) linkInode fresh dst
      (readable_linkDisk (by decide)) rfl ?_ j hj
    simp [treePath, treeAddress, hlt, followPointers, linkInode]

/-- A file of 2000 bytes in chunks of 7000 bytes, which are the chunks `drive_init` reads. -/
theorem reads_faithful_chunks_of_7000 :
    ∃ r, (Reader.opened (linkFile 2000)).readAll [zeroCall 7000, zeroCall 7000] = some r ∧
      r.Faithful (linkFile 2000) := by
  refine (reads_faithful_iff (readable_linkFile (by decide)) ?_).2 ?_ _ List.prefix_rfl
  · intro call hcall
    obtain rfl : call = zeroCall 7000 := by simpa using hcall
    exact ⟨by decide, by decide⟩
  · intro pre call r hpre hr
    match pre, hpre with
    | [], hpre =>
      obtain rfl : call = zeroCall 7000 := by simpa using hpre
      obtain rfl : Reader.opened (linkFile 2000) = r := Option.some.inj hr
      decide
    | [call₁], hpre =>
      obtain ⟨rfl, rfl⟩ : call₁ = zeroCall 7000 ∧ call = zeroCall 7000 := by simpa using hpre
      have hcur : ((Reader.opened (linkFile 2000)).readAll [zeroCall 7000]).map (·.file.cursor) = some 2000 := by
        decide +kernel
      rw [hr, Option.map_some, Option.some_inj] at hcur
      rw [hcur]
      decide
    | _ :: _ :: _, hpre => exact absurd hpre.length_le (by simp)

/-- A file of 10 bytes in one read of 100: the cursor passes the end of the file, and the client is given
bytes that are not in the file. -/
theorem reads_not_faithful_past_end : (linkFile 10).Readable ∧ (zeroCall 100).Positive ∧
    ∃ r, (Reader.opened (linkFile 10)).readAll [zeroCall 100] = some r ∧ r.file.cursor = 100 ∧
      r.data.length = 100 ∧ ¬ r.Faithful (linkFile 10) := by
  have hrun : ((Reader.opened (linkFile 10)).readAll [zeroCall 100]).map
      (fun r => (r.file.cursor, r.data.length)) = some (100, 100) := by decide +kernel
  obtain ⟨r, hr, heq⟩ := Option.map_eq_some_iff.1 hrun
  obtain ⟨hcur, hlen⟩ := Prod.mk.inj heq
  refine ⟨readable_linkFile (by decide), ⟨by decide, by decide⟩, r, hr, hcur, hlen, fun hf => ?_⟩
  exact absurd (hcur ▸ hf.cursor_le) (by decide)

end BanjOS
