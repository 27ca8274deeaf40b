import BanjOS.Ext2.FileRead
import Mathlib.Data.Nat.Log

/-!
# The loop of ext2_file_read, for any file

Two properties of the loop that hold whatever the blocks are and however large the file is. The separately kept
block counter stays in step with the cursor, so every byte comes from the place it should
(`ext2FileRead_synced`): only a turn that ends at the start of a block can be followed by another one. And the
bytes stored stay within the length asked for except by the first turn, which ends the block the cursor is in
whatever the length (`noOverrun_iff`).
-/

namespace BanjOS

open ByteMem

/-- The variables of `ext2_file_read` before its loop. -/
def readStart (exfi : Ext2File) (call : ReadCall) : ReadLoop where
  exfi := exfi
  bytesRead := 0
  block := toInt (toU64 exfi.cursor / exfi.inode.vsb.blockSize)
  contentBlock := call.fresh
  dst := 0
  out := call.dst

/-- The condition of the loop. -/
def ReadLoop.GoesOn (len : Int) (st : ReadLoop) : Prop :=
  st.bytesRead < len ∧ toU64 st.exfi.cursor < st.exfi.inode.stSize

/-- The states in which a turn of the loop starts. -/
inductive TurnStart (fresh : Mem) (len : Int) (st₀ : ReadLoop) : ReadLoop → Prop
  | first : st₀.GoesOn len → TurnStart fresh len st₀ st₀
  | next {st : ReadLoop} : TurnStart fresh len st₀ st → (readChunk fresh len st).GoesOn len →
    TurnStart fresh len st₀ (readChunk fresh len st)

section
variable {fresh : Mem} {len : Int} {st st₀ : ReadLoop} {fuel : Nat}

theorem readLoop_of_not_goesOn (h : ¬ st.GoesOn len) : readLoop fresh len (fuel + 1) st = some st := by
  rw [readLoop]
  exact if_neg h

theorem readLoop_of_goesOn (h : st.GoesOn len) :
    readLoop fresh len (fuel + 1) st = readLoop fresh len fuel (readChunk fresh len st) := by
  rw [readLoop]
  exact if_pos h

/-- The first turn, and those after it. -/
theorem TurnStart.cases_start (h : TurnStart fresh len st₀ st) :
    st = st₀ ∨ TurnStart fresh len (readChunk fresh len st₀) st := by
  induction h with
  | first => exact .inl rfl
  | next _ hgo ih =>
    rcases ih with rfl | ih
    · exact .inr (.first hgo)
    · exact .inr (.next ih hgo)

/-- Where the loop ends there is no turn. -/
theorem TurnStart.goesOn_start (h : TurnStart fresh len st₀ st) : st₀.GoesOn len := by
  induction h with
  | first hgo => exact hgo
  | next _ _ ih => exact ih

end

/-! ## The block counter and the cursor -/

/-- What `content_block` holds when the blocks from `b` to `b + k` have been read into it. -/
def Ext2VfsInode.delivered (inode : Ext2VfsInode) (fresh : Mem) (b : Nat) : Nat → Mem
  | 0 => readInodeBlock inode.vsb inode.extIn fresh b fresh
  | k + 1 => readInodeBlock inode.vsb inode.extIn fresh (b + (k + 1)) (inode.delivered fresh b k)

/-- Byte `k` of a file as `read_inode_block` gives it: in the block it is in, with the blocks read from `b`
on. -/
def Ext2VfsInode.deliveredByte (inode : Ext2VfsInode) (fresh : Mem) (b k : Nat) : UInt8 :=
  inode.delivered fresh b (k / inode.vsb.blockSize - b) (k % inode.vsb.blockSize)

/-- A block does not depend on what the buffer held if `read_inode_block` fills the buffer. -/
theorem Ext2VfsInode.deliveredByte_eq {inode : Ext2VfsInode} {fresh : Mem} {b k : Nat} {v : UInt8}
    (hb : b ≤ k / inode.vsb.blockSize)
    (h : ∀ dst, readInodeBlock inode.vsb inode.extIn fresh (k / inode.vsb.blockSize) dst
      (k % inode.vsb.blockSize) = v) : inode.deliveredByte fresh b k = v := by
  obtain ⟨i, hi⟩ := Nat.exists_eq_add_of_le hb
  rw [deliveredByte, hi, Nat.add_sub_cancel_left]
  rw [hi] at h
  cases i with
  | zero => exact h fresh
  | succ i => exact h (inode.delivered fresh b i)

/-- A call that started with the cursor at `c` has read `r` bytes, each from the right place. -/
structure ReadLoop.Synced (inode : Ext2VfsInode) (fresh : Mem) (c r : Nat) (st : ReadLoop) : Prop where
  exfi : st.exfi = ⟨inode, ↑(c + r)⟩
  bytesRead : st.bytesRead = r
  dst : st.dst = r
  data : ∀ i < r, st.out i = inode.deliveredByte fresh (c / inode.vsb.blockSize) (c + i)

/-- The block counter is in step with the cursor, and the next block read is the one after those before. -/
structure ReadLoop.InStep (inode : Ext2VfsInode) (fresh : Mem) (c r : Nat) (st : ReadLoop) : Prop where
  block : st.block = ↑((c + r) / inode.vsb.blockSize)
  content : readInodeBlock inode.vsb inode.extIn fresh ((c + r) / inode.vsb.blockSize) st.contentBlock =
    inode.delivered fresh (c / inode.vsb.blockSize)
      ((c + r) / inode.vsb.blockSize - c / inode.vsb.blockSize)

section
variable {inode : Ext2VfsInode} {fresh : Mem} {c r len : Nat} {st : ReadLoop}

/-- A turn copies at most a block more than what is left to read. -/
theorem chunkSize_le {bs S : Nat} (hr : r < len) (hc : c + r < S) :
    r + chunkSize bs S len (c + r) r ≤ len + bs := by
  rw [chunkSize]
  split <;> [skip; split <;> [skip; split]] <;> omega

/-- After a turn nothing is left to read, or the next block starts. -/
theorem chunkSize_next {bs S : Nat} (hbs : 0 < bs) (hr : r < len) (hc : c + r < S) :
    len ≤ r + chunkSize bs S len (c + r) r ∨ S ≤ c + (r + chunkSize bs S len (c + r) r) ∨
      ((c + (r + chunkSize bs S len (c + r) r)) % bs = 0 ∧
        (c + (r + chunkSize bs S len (c + r) r)) / bs = (c + r) / bs + 1) := by
  have hmod := Nat.mod_lt (c + r) hbs
  rw [chunkSize]
  split
  case isTrue =>
    -- the rest of the block the cursor is in
    have hnext : c + (r + (bs - (c + r) % bs)) = bs * ((c + r) / bs + 1) := by
      have := Nat.div_add_mod (c + r) bs
      rw [Nat.mul_succ]
      omega
    rw [hnext, Nat.mul_mod_right, Nat.mul_div_cancel_left _ hbs]
    exact .inr (.inr ⟨rfl, rfl⟩)
  case isFalse hal =>
    split
    · exact .inl (by omega)
    · split
      · exact .inr (.inl (by omega))
      · rw [← Nat.add_assoc, Nat.add_mod_right, Nat.add_div_right _ hbs]
        exact .inr (.inr ⟨by omega, rfl⟩)

/-- The piece that a turn copies. -/
theorem ReadLoop.Synced.piece_eq (h : st.Synced inode fresh c r) (hbs : 0 < inode.vsb.blockSize)
    (hlen : c + len + inode.vsb.blockSize < 2 ^ 31) (hr : r < len) (hc : c + r < inode.stSize) :
    st.piece len = ((c + r) % inode.vsb.blockSize,
      chunkSize inode.vsb.blockSize inode.stSize len (c + r) r) :=
  ReadLoop.piece_eq h.exfi h.bytesRead hbs (by omega) (by omega) hr hc (by omega)

/-- One turn: the bytes it copies come from the block the cursor is in, and the cursor moves past them. If
another turn follows, the block counter is in step again. -/
theorem ReadLoop.Synced.readChunk (h : st.Synced inode fresh c r) (hstep : st.InStep inode fresh c r)
    (hbs : 0 < inode.vsb.blockSize) (hlen : c + len + inode.vsb.blockSize < 2 ^ 31) (hr : r < len)
    (hc : c + r < inode.stSize) : ∃ n, 0 < n ∧ c + (r + n) < 2 ^ 31 ∧
      (readChunk fresh len st).Synced inode fresh c (r + n) ∧ (len ≤ r + n ∨ inode.stSize ≤ c + (r + n) ∨
        (BanjOS.readChunk fresh len st).InStep inode fresh c (r + n)) := by
  obtain ⟨hn, hfit⟩ := chunkSize_bounds hbs hc hr
  have hle : r + chunkSize inode.vsb.blockSize inode.stSize len (c + r) r ≤ len + inode.vsb.blockSize :=
    chunkSize_le hr hc
  have hnext := chunkSize_next hbs hr hc
  have hpiece := h.piece_eq hbs hlen hr hc
  have hdiv : (c + r) / inode.vsb.blockSize ≤ c + r := Nat.div_le_self _ _
  generalize chunkSize inode.vsb.blockSize inode.stSize len (c + r) r = n at hn hfit hle hnext hpiece
  have hblock : toU64 st.block = (c + r) / inode.vsb.blockSize := by
    rw [hstep.block, toU64_natCast (by omega)]
  have hcontent : (BanjOS.readChunk fresh len st).contentBlock = inode.delivered fresh
      (c / inode.vsb.blockSize) ((c + r) / inode.vsb.blockSize - c / inode.vsb.blockSize) := by
    rw [← hstep.content, ← hblock]
    simp only [BanjOS.readChunk, h.exfi]
  have hout : (BanjOS.readChunk fresh len st).out = copyTo st.out r n fun j =>
      (BanjOS.readChunk fresh len st).contentBlock ((c + r) % inode.vsb.blockSize + j) := by
    simp only [BanjOS.readChunk, hpiece, h.dst]
  have hexfi : (BanjOS.readChunk fresh len st).exfi = ⟨inode, ↑(c + (r + n))⟩ := by
    simp only [BanjOS.readChunk, hpiece, h.exfi, toInt_of_lt (show n < 2 ^ 31 by omega)]
    rw [← Int.natCast_add, wrapInt_natCast (by omega), Nat.add_assoc]
  have hmono : c / inode.vsb.blockSize ≤ (c + r) / inode.vsb.blockSize :=
    Nat.div_le_div_right (Nat.le_add_right ..)
  refine ⟨n, hn, by omega, ⟨hexfi, ?_, ?_, fun i hi => ?_⟩, hnext.imp id (Or.imp id fun hal => ?_)⟩
  · simp only [BanjOS.readChunk, hpiece, h.bytesRead, toInt_of_lt (show n < 2 ^ 31 by omega)]
    rw [← Int.natCast_add, wrapInt_natCast (by omega)]
  · simp only [BanjOS.readChunk, hpiece, h.dst, toInt_of_lt (show n < 2 ^ 31 by omega)]
    rw [← Int.natCast_add, toU64_natCast (by omega)]
  · -- the bytes before this turn's, and this turn's
    rw [hout, copyTo]
    split
    case isTrue hin =>
      obtain ⟨hlo, -⟩ := hin
      have haddr : c + i = inode.vsb.blockSize * ((c + r) / inode.vsb.blockSize) +
          ((c + r) % inode.vsb.blockSize + (i - r)) := by
        rw [← Nat.add_assoc, Nat.div_add_mod]
        omega
      have hlt : (c + r) % inode.vsb.blockSize + (i - r) < inode.vsb.blockSize := by omega
      rw [Ext2VfsInode.deliveredByte, haddr, Nat.mul_add_div hbs, Nat.mul_add_mod, Nat.div_eq_of_lt hlt,
        Nat.mod_eq_of_lt hlt, Nat.add_zero, hcontent]
    case isFalse hin => exact h.data i (by simp only [InRange] at hin; omega)
  · obtain ⟨-, hk⟩ := hal
    refine ⟨?_, ?_⟩
    · simp only [BanjOS.readChunk, hstep.block, hk]
      rw [← Int.natCast_succ, wrapInt_natCast (by omega)]
    · rw [hcontent, hk, Nat.sub_add_comm hmono, Ext2VfsInode.delivered, ← Nat.add_assoc,
        Nat.add_sub_cancel' hmono]

/-- The loop goes on while something is left to read. -/
theorem ReadLoop.Synced.goesOn_iff (h : st.Synced inode fresh c r) (hlt : c + r < 2 ^ 31) :
    st.GoesOn len ↔ r < len ∧ c + r < inode.stSize := by
  rw [ReadLoop.GoesOn, h.exfi, h.bytesRead, toU64_natCast (by omega), Nat.cast_lt]

/-- The loop ends, each byte comes from the right place, and the block counter is in step in every turn. -/
theorem ReadLoop.Synced.readLoop (h : st.Synced inode fresh c r) (hlt : c + r < 2 ^ 31)
    (hstep : st.GoesOn len → st.InStep inode fresh c r) (hbs : 0 < inode.vsb.blockSize)
    (hlen : c + len + inode.vsb.blockSize < 2 ^ 31) {fuel : Nat} (hfuel : len - r < fuel) :
    (∃ st' r', readLoop fresh len fuel st = some st' ∧ st'.Synced inode fresh c r') ∧
      ∀ st', TurnStart fresh len st st' → st'.block = ↑(toU64 st'.exfi.cursor / inode.vsb.blockSize) := by
  induction fuel generalizing r st with
  | zero => omega
  | succ fuel ih =>
    have hgo : st.GoesOn len ↔ r < len ∧ c + r < inode.stSize := h.goesOn_iff hlt
    by_cases hcond : st.GoesOn len
    · obtain ⟨hr, hc⟩ := hgo.1 hcond
      obtain ⟨n, hn, hlt', h', hnext⟩ := h.readChunk (hstep hcond) hbs hlen hr hc
      obtain ⟨⟨st', r', hrun, hst'⟩, hturns⟩ := ih h' hlt' (fun hcond' => by
        obtain ⟨hr', hc'⟩ := (h'.goesOn_iff hlt').1 hcond'
        exact (hnext.resolve_left (by omega)).resolve_left (by omega)) (by omega)
      refine ⟨⟨st', r', by rw [readLoop_of_goesOn hcond, hrun], hst'⟩, fun st'' hturn => ?_⟩
      rcases hturn.cases_start with rfl | hturn
      · rw [(hstep hcond).block, h.exfi, toU64_natCast (by omega)]
      · exact hturns st'' hturn
    · exact ⟨⟨st, r, readLoop_of_not_goesOn hcond, h⟩, fun st' hturn => absurd hturn.goesOn_start hcond⟩

/-- For every file, every starting cursor `c` and every length with `c + len + block_size < 2 ^ 31`,
`ext2_file_read` returns and advances the cursor by the value it returns, every byte is the one that
`read_inode_block` gives at its place, and in every turn of the loop the block counter is the block the cursor
is in. -/
theorem ext2FileRead_synced (inode : Ext2VfsInode) (hbs : 0 < inode.vsb.blockSize) (c : Nat) (call : ReadCall)
    (hc : c < 2 ^ 31) (hlen : c + call.len + inode.vsb.blockSize < 2 ^ 31) :
    ∃ (st : ReadLoop) (r : Nat), ext2FileRead ⟨inode, c⟩ call = some st ∧ st.bytesRead = r ∧
      st.exfi = ⟨inode, ↑(c + r)⟩ ∧
      (∀ j < r, st.out j = inode.deliveredByte call.fresh (c / inode.vsb.blockSize) (c + j)) ∧
      ∀ st', TurnStart call.fresh call.len (readStart ⟨inode, c⟩ call) st' →
        st'.block = ↑(toU64 st'.exfi.cursor / inode.vsb.blockSize) := by
  have hdiv : c / inode.vsb.blockSize ≤ c := Nat.div_le_self _ _
  have hstart : (readStart ⟨inode, c⟩ call).Synced inode call.fresh c 0 :=
    ⟨rfl, rfl, rfl, fun i hi => absurd hi (Nat.not_lt_zero i)⟩
  rcases le_or_gt call.len 0 with hneg | hpos
  · have hcond : ¬ (readStart ⟨inode, c⟩ call).GoesOn call.len := fun hgo => by
      have : (0 : Int) < call.len := hgo.1
      omega
    exact ⟨_, 0, readLoop_of_not_goesOn hcond, rfl, rfl, hstart.data, fun st' hturn =>
      absurd hturn.goesOn_start hcond⟩
  · obtain ⟨len, hcall⟩ := Int.eq_ofNat_of_zero_le hpos.le
    have hstep : (readStart ⟨inode, c⟩ call).InStep inode call.fresh c 0 := by
      refine ⟨?_, ?_⟩
      · have hcur : toU64 ↑c = c := toU64_natCast (by omega)
        simp only [readStart, hcur, Nat.add_zero]
        exact toInt_of_lt (by omega)
      · rw [Nat.add_zero, Nat.sub_self]
        rfl
    obtain ⟨⟨st, r, hrun, hst⟩, hturns⟩ := hstart.readLoop (by omega) (fun _ => hstep) hbs
      (show c + len + inode.vsb.blockSize < 2 ^ 31 by omega) (show len - 0 < len + 1 by omega)
    rw [hcall]
    refine ⟨st, r, ?_, hst.bytesRead, hst.exfi, hst.data, hturns⟩
    rw [ext2FileRead, hcall]
    exact hrun

end

/-- A read of 100 bytes from byte 3 of a file of 2000 bytes on. -/
theorem ext2FileRead_synced_from_3 : ∃ (st : ReadLoop) (r : Nat),
    ext2FileRead ⟨linkFile 2000, ↑(3 : Nat)⟩ (zeroCall 100) = some st ∧ st.bytesRead = r ∧
      st.exfi.cursor = ↑(3 + r) := by
  obtain ⟨st, r, hrun, hread, hexfi, -⟩ := ext2FileRead_synced (linkFile 2000) (by decide) 3 (zeroCall 100)
    (by decide) (by decide)
  exact ⟨st, r, hrun, hread, by rw [hexfi]⟩

/-! ## Stores -/

/-- The stores of the loop into the caller's buffer: the offset and the size of each. -/
def readStores (fresh : Mem) (len : Int) : Nat → ReadLoop → List (Nat × Nat)
  | 0, _ => []
  | fuel + 1, st =>
    if st.bytesRead < len ∧ toU64 st.exfi.cursor < st.exfi.inode.stSize then
      (st.dst, (st.piece len).2) :: readStores fresh len fuel (readChunk fresh len st)
    else []

/-- The stores of a call. -/
def ext2FileReadStores (exfi : Ext2File) (call : ReadCall) : List (Nat × Nat) :=
  readStores call.fresh call.len (call.len.toNat + 1) (readStart exfi call)

/-- A call returns at most the length asked for, and stores at most as many bytes, all of them among the first
ones of the buffer. -/
structure NoOverrun (exfi : Ext2File) (call : ReadCall) : Prop where
  returns : ∃ st, ext2FileRead exfi call = some st ∧ st.bytesRead ≤ call.len
  inside : ∀ store ∈ ext2FileReadStores exfi call, ((store.1 + store.2 : Nat) : Int) ≤ call.len
  total : (((ext2FileReadStores exfi call).map Prod.snd).sum : Int) ≤ call.len

section
variable {inode : Ext2VfsInode} {fresh : Mem} {r len e fuel : Nat} {st : ReadLoop}

theorem readStores_of_not_goesOn (h : ¬ st.GoesOn len) : readStores fresh len (fuel + 1) st = [] := by
  rw [readStores]
  exact if_neg h

theorem readStores_of_goesOn (h : st.GoesOn len) : readStores fresh len (fuel + 1) st =
    (st.dst, (st.piece len).2) :: readStores fresh len fuel (readChunk fresh len st) := by
  rw [readStores]
  exact if_pos h

/-- The start of a block stays one when the cursor wraps around. -/
theorem toU64_wrapInt_mod {x : Int} {bs : Nat} (h : bs ∣ 2 ^ 32) : toU64 (wrapInt x) % bs = (x % bs).toNat := by
  have h64 : (bs : Int) ∣ 2 ^ 64 := (Int.natCast_dvd_natCast.2 h).trans (by decide)
  have h32 : (bs : Int) ∣ ((2 ^ 32 : Nat) : Int) := Int.natCast_dvd_natCast.2 h
  have hnn : 0 ≤ wrapInt x % 2 ^ 64 := Int.emod_nonneg _ (by decide)
  have hmod : (wrapInt x % 2 ^ 64) % bs = x % bs := by
    rw [Int.emod_emod_of_dvd _ h64, wrapInt, ← Int.emod_emod_of_dvd _ h32, Int.bmod_emod,
      Int.emod_emod_of_dvd _ h32]
  rw [toU64, ← hmod, Int.toNat_emod hnn (Int.natCast_nonneg bs), Int.toNat_natCast]

/-- `r` of `len` bytes are read and stored, and if there is another turn it starts at the start of a block. -/
structure ReadLoop.Aligned (inode : Ext2VfsInode) (len r : Nat) (st : ReadLoop) : Prop where
  file : st.exfi.inode = inode
  cursor : -2 ^ 31 ≤ st.exfi.cursor ∧ st.exfi.cursor < 2 ^ 31
  aligned : st.GoesOn len → toU64 st.exfi.cursor % inode.vsb.blockSize = 0
  bytesRead : st.bytesRead = r
  dst : st.dst = r

/-- A turn that copies `n` bytes. -/
theorem ReadLoop.Aligned.of_piece {off n : Nat} (hfile : st.exfi.inode = inode) (hread : st.bytesRead = r)
    (hdst : st.dst = r) (hpiece : st.piece len = (off, n)) (hn : r + n < 2 ^ 31)
    (hal : r + n < len → toU64 (wrapInt (st.exfi.cursor + n)) < inode.stSize →
      toU64 (wrapInt (st.exfi.cursor + n)) % inode.vsb.blockSize = 0) :
    (readChunk fresh len st).Aligned inode len (r + n) := by
  have hcopied : toInt n = n := toInt_of_lt (by omega)
  have hread' : (readChunk fresh len st).bytesRead = ↑(r + n) := by
    simp only [readChunk, hpiece, hread, hcopied]
    rw [← Int.natCast_add, wrapInt_natCast hn]
  have hexfi : (readChunk fresh len st).exfi = ⟨inode, wrapInt (st.exfi.cursor + n)⟩ := by
    simp only [readChunk, hpiece, hcopied, hfile]
  refine ⟨by rw [hexfi], ?_, fun hgo => ?_, hread', ?_⟩
  · rw [hexfi]
    simp only [wrapInt, Int.bmod_def]
    omega
  · rw [GoesOn, hread', hexfi] at hgo
    rw [hexfi]
    exact hal (by omega) hgo.2
  · simp only [readChunk, hpiece, hdst, hcopied]
    rw [← Int.natCast_add, toU64_natCast (by omega)]

/-- The cursor after a piece that ends the file: the loop ends. -/
theorem le_toU64_wrapInt_add {cursor : Int} {S n : Nat} (hcur : -2 ^ 31 ≤ cursor ∧ cursor < 2 ^ 31)
    (hn : n < 2 ^ 31) (hS : S < 2 ^ 64) (hend : toU64 cursor + n = S) :
    S ≤ toU64 (wrapInt (cursor + n)) := by
  simp only [toU64, wrapInt, Int.bmod_def] at hend ⊢
  omega

/-- A block size below `2 ^ 32` divides it. -/
theorem blockSize_dvd {bs : Nat} (hbs : bs = 2 ^ e) (hlt : bs < 2 ^ 32) : bs ∣ 2 ^ 32 := by
  have he : e < 32 := (Nat.pow_lt_pow_iff_right (by decide : 1 < 2)).1 (hbs ▸ hlt)
  exact hbs ▸ Nat.pow_dvd_pow 2 he.le

/-- One turn from the start of a block: it copies no more than what is left to read. -/
theorem ReadLoop.Aligned.readChunk (h : st.Aligned inode len r) (hbs : inode.vsb.blockSize = 2 ^ e) (he : e < 64)
    (hS : inode.stSize < 2 ^ 64) (hlen : len < 2 ^ 31) (hgo : st.GoesOn len) (fresh : Mem) :
    ∃ n, 0 < n ∧ r + n ≤ len ∧ (st.piece len).2 = n ∧
      (readChunk fresh len st).Aligned inode len (r + n) := by
  have hal := h.aligned hgo
  obtain ⟨hr, hc⟩ := hgo
  rw [h.bytesRead] at hr
  rw [h.file] at hc
  have hr' : r < len := by omega
  have hbs63 : inode.vsb.blockSize ≤ 2 ^ 63 := hbs ▸ Nat.pow_le_pow_right (by decide) (by omega)
  have hpos : 0 < inode.vsb.blockSize := hbs ▸ Nat.two_pow_pos e
  have hread : toU64 (↑r + ↑inode.vsb.blockSize) = r + inode.vsb.blockSize :=
    toU64_natCast (n := r + inode.vsb.blockSize) (by omega)
  have hend : toU64 (↑(toU64 st.exfi.cursor) + ↑inode.vsb.blockSize) =
      (toU64 st.exfi.cursor + inode.vsb.blockSize) % 2 ^ 64 := by
    rw [toU64]
    omega
  have hpiece : st.piece len = (0, if len ≤ r + inode.vsb.blockSize then len - r
      else if inode.stSize ≤ (toU64 st.exfi.cursor + inode.vsb.blockSize) % 2 ^ 64 then
        inode.stSize - toU64 st.exfi.cursor
      else inode.vsb.blockSize) := by
    simp only [ReadLoop.piece, h.file, h.bytesRead, hal, hread, hend,
      toU64_natCast (show len < 2 ^ 64 by omega), ge_iff_le, ne_eq, not_true_eq_false, if_false]
    split
    · rw [← Int.ofNat_sub hr'.le, wrapInt_natCast (by omega), toU64_natCast (by omega)]
    · split
      · rw [← Int.ofNat_sub hc.le, toU64_natCast (by omega)]
      · rfl
  split at hpiece
  case isTrue =>
    -- the rest of the bytes asked for
    exact ⟨len - r, by omega, by omega, by rw [hpiece], .of_piece h.file h.bytesRead h.dst hpiece (by omega)
      fun hlt _ => by omega⟩
  case isFalse hle =>
    split at hpiece
    case isTrue hle' =>
      -- the rest of the file
      have hlt : toU64 st.exfi.cursor + inode.vsb.blockSize < 2 ^ 64 := by omega
      rw [Nat.mod_eq_of_lt hlt] at hle'
      refine ⟨inode.stSize - toU64 st.exfi.cursor, by omega, by omega, by rw [hpiece],
        .of_piece h.file h.bytesRead h.dst hpiece (by omega) fun _ hlt' => ?_⟩
      exact absurd hlt' (Nat.not_lt_of_ge (le_toU64_wrapInt_add h.cursor (by omega) hS (by omega)))
    case isFalse =>
      refine ⟨inode.vsb.blockSize, hpos, by omega, by rw [hpiece],
        .of_piece h.file h.bytesRead h.dst hpiece (by omega) fun _ _ => ?_⟩
      have hdvd := blockSize_dvd hbs (by omega)
      have hmod : toU64 st.exfi.cursor % inode.vsb.blockSize =
          (st.exfi.cursor % inode.vsb.blockSize).toNat := by
        have h64 : (inode.vsb.blockSize : Int) ∣ 2 ^ 64 := (Int.natCast_dvd_natCast.2 hdvd).trans (by decide)
        have hnn : 0 ≤ st.exfi.cursor % 2 ^ 64 := Int.emod_nonneg _ (by decide)
        rw [toU64, ← Int.emod_emod_of_dvd _ h64, Int.toNat_emod hnn (Int.natCast_nonneg _), Int.toNat_natCast]
      rw [toU64_wrapInt_mod hdvd, Int.add_emod_right, ← hmod, hal]

/-- From the start of a block on, the loop ends and stays within the length. -/
theorem ReadLoop.Aligned.readLoop (h : st.Aligned inode len r) (fresh : Mem) (hr : r ≤ len)
    (hbs : inode.vsb.blockSize = 2 ^ e) (he : e < 64) (hS : inode.stSize < 2 ^ 64) (hlen : len < 2 ^ 31)
    (hfuel : len - r < fuel) : (∃ st', readLoop fresh len fuel st = some st' ∧ st'.bytesRead ≤ len) ∧
      (∀ store ∈ readStores fresh len fuel st, store.1 + store.2 ≤ len) ∧
      r + ((readStores fresh len fuel st).map Prod.snd).sum ≤ len := by
  induction fuel generalizing r st with
  | zero => omega
  | succ fuel ih =>
    by_cases hgo : st.GoesOn len
    · obtain ⟨n, hn, hle, hpiece, h'⟩ := h.readChunk hbs he hS hlen hgo fresh
      obtain ⟨⟨st', hrun, hread⟩, hinside, htotal⟩ := ih h' hle (by omega)
      rw [readLoop_of_goesOn hgo, readStores_of_goesOn hgo, hpiece, h.dst]
      refine ⟨⟨st', hrun, hread⟩, List.forall_mem_cons.2 ⟨hle, hinside⟩, ?_⟩
      rw [List.map_cons, List.sum_cons]
      omega
    · rw [readLoop_of_not_goesOn hgo, readStores_of_not_goesOn hgo]
      exact ⟨⟨st, rfl, by rw [h.bytesRead]; exact_mod_cast hr⟩, by simp, by simpa using hr⟩

/-- The parts of a call that stays within the length. -/
theorem noOverrun_of {exfi : Ext2File} {dst : Mem}
    (h : (∃ st', readLoop fresh len (len + 1) (readStart exfi ⟨len, dst, fresh⟩) = some st' ∧
        st'.bytesRead ≤ len) ∧
      (∀ store ∈ readStores fresh len (len + 1) (readStart exfi ⟨len, dst, fresh⟩), store.1 + store.2 ≤ len) ∧
      ((readStores fresh len (len + 1) (readStart exfi ⟨len, dst, fresh⟩)).map Prod.snd).sum ≤ len) :
    NoOverrun exfi ⟨len, dst, fresh⟩ :=
  ⟨h.1, fun store hstore => Int.ofNat_le.2 (h.2.1 store hstore), Int.ofNat_le.2 h.2.2⟩

/-! ### The first turn -/

section
variable {c : Nat} {dst : Mem}

theorem goesOn_readStart (hc : c < 2 ^ 31) :
    (readStart ⟨inode, c⟩ ⟨len, dst, fresh⟩).GoesOn len ↔ 0 < len ∧ c < inode.stSize := by
  have hcur : toU64 ↑c = c := toU64_natCast (by omega)
  have hzero : (0 : Int) < len ↔ 0 < len := Int.natCast_pos
  simp only [ReadLoop.GoesOn, readStart, hcur, hzero]

/-- A call that starts at the start of a block, or does nothing. -/
theorem aligned_readStart (hc : c < 2 ^ 31)
    (h : (readStart ⟨inode, c⟩ ⟨len, dst, fresh⟩).GoesOn len → c % inode.vsb.blockSize = 0) :
    (readStart ⟨inode, c⟩ ⟨len, dst, fresh⟩).Aligned inode len 0 := by
  have hcur : toU64 ↑c = c := toU64_natCast (by omega)
  refine ⟨rfl, ?_, fun hgo => ?_, rfl, rfl⟩
  · simp only [readStart]
    omega
  · simp only [readStart, hcur]
    exact h hgo

/-- From inside a block the first turn copies the rest of it, whatever the length. -/
theorem piece_readStart (hc : c < 2 ^ 31) (hpos : 0 < inode.vsb.blockSize) (hbs : inode.vsb.blockSize ≤ 2 ^ 63)
    (hoff : c % inode.vsb.blockSize ≠ 0) : (readStart ⟨inode, c⟩ ⟨len, dst, fresh⟩).piece len =
      (c % inode.vsb.blockSize, inode.vsb.blockSize - c % inode.vsb.blockSize) := by
  have hcur : toU64 ↑c = c := toU64_natCast (by omega)
  have hmod := Nat.mod_lt c hpos
  have hle : c % inode.vsb.blockSize ≤ c := Nat.mod_le ..
  simp only [ReadLoop.piece, readStart, hcur, if_pos hoff]
  rw [toInt_of_lt (by omega), toU64_natCast (by omega), ← Int.ofNat_sub hmod.le, toU64_natCast (by omega)]

/-- After it the call goes on at the start of the next block. -/
theorem aligned_readChunk_readStart (hc : c < 2 ^ 31) (hbs : inode.vsb.blockSize = 2 ^ e) (he : e < 64)
    (hoff : c % inode.vsb.blockSize ≠ 0) (hlen : len < 2 ^ 31)
    (hfit : inode.vsb.blockSize - c % inode.vsb.blockSize ≤ len) :
    (readChunk fresh len (readStart ⟨inode, c⟩ ⟨len, dst, fresh⟩)).Aligned inode len
      (0 + (inode.vsb.blockSize - c % inode.vsb.blockSize)) := by
  have hpos : 0 < inode.vsb.blockSize := hbs ▸ Nat.two_pow_pos e
  have hbs63 : inode.vsb.blockSize ≤ 2 ^ 63 := hbs ▸ Nat.pow_le_pow_right (by decide) (by omega)
  have hle : c % inode.vsb.blockSize ≤ c := Nat.mod_le ..
  have hdvd := blockSize_dvd hbs (by omega)
  refine .of_piece rfl rfl rfl (piece_readStart hc hpos hbs63 hoff) (by omega) fun _ _ => ?_
  have hgap : c + (inode.vsb.blockSize - c % inode.vsb.blockSize) =
      inode.vsb.blockSize * (c / inode.vsb.blockSize + 1) := by
    rw [← add_blockGap hpos hoff, blockGap, if_neg hoff]
  simp only [readStart]
  rw [toU64_wrapInt_mod hdvd, ← Int.natCast_add, ← Int.natCast_emod, Int.toNat_natCast, hgap, Nat.mul_mod_right]

/-- A call from inside a block stays within the length iff the rest of the block does. -/
theorem noOverrun_inside_iff (hc : c < 2 ^ 31) (hbs : inode.vsb.blockSize = 2 ^ e) (he : e < 64)
    (hS : inode.stSize < 2 ^ 64) (hlen : len < 2 ^ 31) (hoff : c % inode.vsb.blockSize ≠ 0)
    (hgo : (readStart ⟨inode, c⟩ ⟨len, dst, fresh⟩).GoesOn len) :
    NoOverrun ⟨inode, c⟩ ⟨len, dst, fresh⟩ ↔ inode.vsb.blockSize - c % inode.vsb.blockSize ≤ len := by
  have hpos : 0 < inode.vsb.blockSize := hbs ▸ Nat.two_pow_pos e
  have hbs63 : inode.vsb.blockSize ≤ 2 ^ 63 := hbs ▸ Nat.pow_le_pow_right (by decide) (by omega)
  have hmod := Nat.mod_lt c hpos
  have hstores : readStores fresh len (len + 1) (readStart ⟨inode, c⟩ ⟨len, dst, fresh⟩) =
      (0, inode.vsb.blockSize - c % inode.vsb.blockSize) ::
        readStores fresh len len (readChunk fresh len (readStart ⟨inode, c⟩ ⟨len, dst, fresh⟩)) := by
    rw [readStores_of_goesOn hgo, piece_readStart hc hpos hbs63 hoff]
    rfl
  constructor
  · intro h
    have hhead := h.inside (0, inode.vsb.blockSize - c % inode.vsb.blockSize) (by
      rw [ext2FileReadStores]
      exact hstores ▸ List.mem_cons_self)
    rw [Nat.zero_add] at hhead
    exact Int.ofNat_le.1 hhead
  · intro hfit
    have hnext : (readChunk fresh len (readStart ⟨inode, c⟩ ⟨len, dst, fresh⟩)).Aligned inode len
        (0 + (inode.vsb.blockSize - c % inode.vsb.blockSize)) :=
      aligned_readChunk_readStart hc hbs he hoff hlen hfit
    obtain ⟨⟨st', hrun, hread'⟩, hinside, htotal⟩ :=
      hnext.readLoop fresh (by omega) hbs he hS hlen (show _ < len by omega)
    refine noOverrun_of ?_
    rw [hstores, readLoop_of_goesOn hgo, List.map_cons, List.sum_cons]
    exact ⟨⟨st', hrun, hread'⟩, List.forall_mem_cons.2 ⟨by omega, hinside⟩, by omega⟩

/-- A call from the start of a block, or one that does nothing, stays within the length. -/
theorem noOverrun_of_aligned (hc : c < 2 ^ 31) (hbs : inode.vsb.blockSize = 2 ^ e) (he : e < 64)
    (hS : inode.stSize < 2 ^ 64) (hlen : len < 2 ^ 31)
    (h : (readStart ⟨inode, c⟩ ⟨len, dst, fresh⟩).GoesOn len → c % inode.vsb.blockSize = 0) :
    NoOverrun ⟨inode, c⟩ ⟨len, dst, fresh⟩ := by
  have hal : (readStart ⟨inode, c⟩ ⟨len, dst, fresh⟩).Aligned inode len 0 := aligned_readStart hc h
  refine noOverrun_of ?_
  simpa using hal.readLoop fresh (Nat.zero_le _) hbs he hS hlen (show len - 0 < len + 1 by omega)

end

end

/-- For every file on a file system whose block size is a power of two, every cursor and every length: a call stays
within the length iff it reads nothing, starts at the start of a block, or asks at least for the rest of the
block it starts in. -/
theorem noOverrun_iff (inode : Ext2VfsInode) {e : Nat} (hbs : inode.vsb.blockSize = 2 ^ e) (he : e < 64)
    (hS : inode.stSize < 2 ^ 64) {c : Nat} (hc : c < 2 ^ 31) (call : ReadCall) (hlen₀ : 0 ≤ call.len)
    (hlen : call.len < 2 ^ 31) : NoOverrun ⟨inode, c⟩ call ↔
      call.len = 0 ∨ inode.stSize ≤ c ∨ c % inode.vsb.blockSize = 0 ∨
        ((inode.vsb.blockSize - c % inode.vsb.blockSize : Nat) : Int) ≤ call.len := by
  obtain ⟨callLen, dst, fresh⟩ := call
  obtain ⟨len, rfl⟩ := Int.eq_ofNat_of_zero_le hlen₀
  have hlen' : len < 2 ^ 31 := Int.ofNat_lt.1 hlen
  have hgo : (readStart ⟨inode, c⟩ ⟨len, dst, fresh⟩).GoesOn len ↔ 0 < len ∧ c < inode.stSize := goesOn_readStart hc
  by_cases hturn : (readStart ⟨inode, c⟩ ⟨len, dst, fresh⟩).GoesOn len ∧ c % inode.vsb.blockSize ≠ 0
  · obtain ⟨hturn, hoff⟩ := hturn
    obtain ⟨hpos, hend⟩ := hgo.1 hturn
    -- of the four ways only the last one is left
    rw [noOverrun_inside_iff hc hbs he hS hlen' hoff hturn, or_iff_right (Int.natCast_ne_zero.2 hpos.ne'),
      or_iff_right (Nat.not_le_of_gt hend), or_iff_right hoff, Int.ofNat_le]
  · have hal : (readStart ⟨inode, c⟩ ⟨len, dst, fresh⟩).GoesOn len → c % inode.vsb.blockSize = 0 := fun hgo' =>
      Decidable.not_not.1 fun hoff => hturn ⟨hgo', hoff⟩
    refine iff_of_true (noOverrun_of_aligned hc hbs he hS hlen' hal) ?_
    by_cases hgo' : 0 < len ∧ c < inode.stSize
    · exact .inr (.inr (.inl (hal (hgo.2 hgo'))))
    · dsimp only
      omega

/-- A read of 2000 bytes from byte 3 of a file of 2000 bytes on. -/
theorem noOverrun_from_3 : NoOverrun ⟨linkFile 2000, ↑(3 : Nat)⟩ (zeroCall 2000) :=
  (noOverrun_iff (linkFile 2000) (e := 10) rfl (by decide) (by decide) (by decide) (zeroCall 2000) (by decide)
    (by decide)).2 (by decide)

/-- After a read of 10 bytes a read of 5 stores 1014 bytes. -/
theorem overrun_second_read :
    ∃ st, ext2FileRead (ext2FileOpen (linkFile 2000)) (zeroCall 10) = some st ∧
      ext2FileReadStores st.exfi (zeroCall 5) = [(0, 1014)] ∧ ¬ NoOverrun st.exfi (zeroCall 5) := by
  have hrun : (ext2FileRead (ext2FileOpen (linkFile 2000)) (zeroCall 10)).map
      (fun st => ext2FileReadStores st.exfi (zeroCall 5)) = some [(0, 1014)] := by decide +kernel
  obtain ⟨st, hst, hstores⟩ := Option.map_eq_some_iff.1 hrun
  refine ⟨st, hst, hstores, fun h => ?_⟩
  exact absurd (h.inside (0, 1014) (by rw [hstores]; exact List.mem_cons_self)) (by decide)

end BanjOS
