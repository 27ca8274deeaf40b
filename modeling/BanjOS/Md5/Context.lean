import BanjOS.Ext2.Blocks
import BanjOS.Lib.BlockFold
import BanjOS.Lib.Encoding
import BanjOS.Md5.Transform

/-!
# Message digests

`MD5Init`, `MD5Update` and `MD5Final` of `md5.c`, and the digest of a message as it is meant (`digestOf`): the
message is padded and its blocks are absorbed one after the other. A context `Holds` the bytes it was given so far,
whatever the pieces they came in (`Md5Ctx.Holds.md5Update`), so that every way to cut a message gives its digest
(`md5_pieces`). The counter of the loop of `MD5Update` has 32 bits: `md5Update_returns_iff` says for which lengths
the loop ends.
-/

namespace BanjOS.Md5

open ByteMem BlockFold

/-! ## The code -/

/-- `MD5_CTX`. -/
structure Md5Ctx where
  state : Md5State
  count0 : UInt4
  count1 : UInt4
  buffer : Mem

/-- `MD5Init`. -/
def md5Init (context : Md5Ctx) : Md5Ctx :=
  { context with
    count0 := 0
    count1 := 0
    state := ⟨0x67452301, 0xefcdab89, 0x98badcfe, 0x10325476⟩ }

/-- The loop of `MD5Update`: `none` is a loop that has not come to its end after `fuel` turns. -/
def transformBlocks (input : Mem) (inputLen : UInt4) : (fuel : Nat) → (i : UInt4) → Md5State → Option (UInt4 × Md5State)
  | 0, _, _ => none
  | fuel + 1, i, state =>
    if i + 63 < inputLen then
      transformBlocks input inputLen fuel (i + 64) (md5Transform state fun j => input (i.toNat + j))
    else some (i, state)

/-- The number of bytes in the buffer. -/
def Md5Ctx.index (context : Md5Ctx) : UInt4 := (context.count0 >>> 3) &&& 0x3f

/-- `MD5Update` before its last statement: the state, the buffer, `index` and `i`. -/
def transformInput (fuel : Nat) (context : Md5Ctx) (input : Mem) (inputLen : UInt4) :
    Option (Md5State × Mem × UInt4 × UInt4) :=
  let index := context.index
  let partLen := 64 - index
  if inputLen ≥ partLen then
    let buffer := copyTo context.buffer index.toNat partLen.toNat input
    (transformBlocks input inputLen fuel partLen (md5Transform context.state buffer)).map fun (i, state) =>
      (state, buffer, 0, i)
  else some (context.state, context.buffer, index, 0)

/-- `MD5Update`. -/
def md5Update (fuel : Nat) (context : Md5Ctx) (input : Mem) (inputLen : UInt4) : Option Md5Ctx :=
  let count0 := context.count0 + inputLen <<< 3
  let count1 := if count0 < inputLen <<< 3 then context.count1 + 1 else context.count1
  let count1 := count1 + inputLen >>> 29
  (transformInput fuel context input inputLen).map fun (state, buffer, index, i) =>
    ⟨state, count0, count1, copyTo buffer index.toNat (inputLen - i).toNat fun j => input (i.toNat + j)⟩

/-- One word of `Encode`. -/
def encodeWord (w : UInt4) : List UInt8 :=
  [w &&& 0xff, w >>> 8 &&& 0xff, w >>> 16 &&& 0xff, w >>> 24 &&& 0xff].map fun b => UInt8.ofBitVec (b.setWidth 8)

/-- `Encode`. -/
def encode (input : List UInt4) : List UInt8 := input.flatMap encodeWord

/-- `PADDING`. -/
def padding : List UInt8 := 0x80 :: List.replicate 63 0

/-- `MD5Final`: the digest, and the context after it. -/
def md5Final (fuel : Nat) (context : Md5Ctx) : Option (List UInt8 × Md5Ctx) := do
  let bits := encode [context.count0, context.count1]
  let index := context.index
  let padLen := if index < 56 then 56 - index else 120 - index
  let context ← md5Update fuel context (memOf padding) padLen
  let context ← md5Update fuel context (memOf bits) 8
  let digest := encode [context.state.a, context.state.b, context.state.c, context.state.d]
  return (digest, ⟨⟨0, 0, 0, 0⟩, 0, 0, fill context.buffer 0 64 0⟩)

/-- A piece of a message: the memory from a pointer on, and a length. -/
structure Piece where
  input : Mem
  inputLen : UInt4

/-- The bytes of a piece. -/
def Piece.bytes (p : Piece) : List UInt8 := (List.range p.inputLen.toNat).map p.input

/-- A context is given pieces one after the other. -/
def updateAll (fuel : Nat) (context : Md5Ctx) (pieces : List Piece) : Option Md5Ctx :=
  pieces.foldlM (fun context p => md5Update fuel context p.input p.inputLen) context

/-- A context is begun, given the pieces, and ended. -/
def md5 (fuel : Nat) (context : Md5Ctx) (pieces : List Piece) : Option (List UInt8) := do
  let context ← updateAll fuel (md5Init context) pieces
  let (digest, _) ← md5Final fuel context
  return digest

/-! ## What it is for -/

/-- The state before the first block. -/
def initialState : Md5State := ⟨0x67452301, 0xefcdab89, 0x98badcfe, 0x10325476⟩

/-- A block that is given as a list. -/
noncomputable def absorbBlock (s : Md5State) (block : List UInt8) : Md5State := compress s (memOf block)

/-- A message and what comes after it: the bit 1, zeros, and the number of bits, up to the end of a block. -/
def pad (message : List UInt8) : List UInt8 :=
  message ++ 0x80 :: (List.replicate ((119 - message.length % 64) % 64) 0 ++ leBytes 8 (8 * message.length))

/-- The digest of a message. -/
noncomputable def digestOf (message : List UInt8) : List UInt8 :=
  let s := absorb 64 absorbBlock initialState (pad message)
  leBytes 4 s.a.toNat ++ leBytes 4 s.b.toNat ++ leBytes 4 s.c.toNat ++ leBytes 4 s.d.toNat

/-- A context that was given the bytes of `message`. -/
structure Md5Ctx.Holds (context : Md5Ctx) (message : List UInt8) : Prop where
  count : context.count1.toNat * 2 ^ 32 + context.count0.toNat = 8 * message.length % 2 ^ 64
  state : context.state = absorb 64 absorbBlock initialState message
  buffer : BytesAt context.buffer 0 (residue 64 message)

/-! ## Blocks in memory -/

section
variable {m m' : Mem} {s : Md5State} {b l r : List UInt8} {i : Nat}

theorem stepWord_lt (hi : i < 64) : stepWord i < 16 := by
  revert i
  decide

/-- Compression reads the 64 bytes of the block only. -/
theorem compress_congr (h : ∀ j < 64, m j = m' j) : compress s m = compress s m' := by
  have hword (k : Nat) (hk : k < 16) : blockWord m k = blockWord m' k := by
    rw [blockWord, blockWord, loadLE_congr fun j hj => h j (by obtain ⟨h₁, h₂⟩ := hj; omega)]
  have hsteps : (List.range 64).foldl (step sineWord (blockWord m)) s =
      (List.range 64).foldl (step sineWord (blockWord m')) s := by
    refine List.foldl_ext _ _ _ fun s i hi => ?_
    rw [step, hword _ (stepWord_lt (List.mem_range.1 hi))]
    rfl
  rw [compress, compress, hsteps]

/-- A block in memory. -/
theorem md5Transform_of_bytesAt (h : BytesAt m 0 b) (hb : b.length = 64) : md5Transform s m = absorbBlock s b := by
  rw [bytesAt_iff] at h
  have hmem := bytesAt_iff.1 (bytesAt_memOf b)
  rw [md5Transform_eq_compress, absorbBlock]
  refine compress_congr fun j hj => ?_
  have hj' : j < b.length := by rwa [hb]
  rw [← Nat.zero_add j, h j hj', hmem j hj']

/-- Bytes that are copied after those that are there. -/
theorem bytesAt_copyTo (h : BytesAt m 0 r) (h' : BytesAt m' 0 l) :
    BytesAt (copyTo m r.length l.length m') 0 (r ++ l) := by
  rw [bytesAt_iff] at *
  intro j hj
  rw [List.length_append] at hj
  rw [Nat.zero_add, copyTo]
  rcases Nat.lt_or_ge j r.length with hlt | hge
  · rw [if_neg fun hr => Nat.not_lt_of_ge hr.1 hlt, List.getElem_append_left hlt, ← h j hlt, Nat.zero_add]
  · have hlt : j - r.length < l.length := by omega
    rw [if_pos ⟨hge, hj⟩, List.getElem_append_right hge, ← h' _ hlt, Nat.zero_add]

end

/-! ## `MD5Update` -/

section
variable {context : Md5Ctx} {message l : List UInt8} {input : Mem} {inputLen i : UInt4} {fuel : Nat}

/-- The condition of the loop, where `i + 63` does not wrap around. -/
theorem add_lt_inputLen_iff (hi : i.toNat + 63 < 2 ^ 32) : i + 63 < inputLen ↔ i.toNat + 63 < inputLen.toNat := by
  have hsum : (i + 63).toNat = i.toNat + 63 := by
    rw [BitVec.toNat_add]
    exact Nat.mod_eq_of_lt hi
  rw [BitVec.lt_def, hsum]

/-- The loop absorbs the whole blocks of what is left of the input. -/
theorem transformBlocks_eq {s : Md5State} (hbytes : BytesAt input i.toNat l)
    (hlen : i.toNat + l.length = inputLen.toNat) {n : Nat} (haligned : (n + i.toNat) % 64 = 0)
    (hfit : n + inputLen.toNat < 2 ^ 32) (hfuel : l.length / 64 < fuel) :
    ∃ i', transformBlocks input inputLen fuel i s = some (i', absorb 64 absorbBlock s l) ∧
      i'.toNat + (residue 64 l).length = inputLen.toNat ∧ BytesAt input i'.toNat (residue 64 l) := by
  induction fuel generalizing i s l with
  | zero => exact absurd hfuel (Nat.not_lt_zero _)
  | succ fuel ih =>
    have hwrap : i.toNat + 63 < 2 ^ 32 := by omega
    rw [transformBlocks]
    rcases Nat.lt_or_ge l.length 64 with hlt | hge
    · rw [if_neg (by rw [add_lt_inputLen_iff hwrap]; omega), absorb_of_lt hlt, residue_of_lt hlt]
      exact ⟨i, rfl, hlen, hbytes⟩
    · rcases exists_block_append hge with ⟨b, t, hb, rfl⟩
      rw [List.length_append, hb] at hlen hfuel
      rw [bytesAt_append, hb] at hbytes
      have hnext : (i + 64).toNat = i.toNat + 64 := by
        rw [BitVec.toNat_add]
        exact Nat.mod_eq_of_lt (show i.toNat + 64 < 2 ^ 32 by omega)
      rw [← hnext] at hbytes
      rcases ih (s := absorbBlock s b) hbytes.2 (by omega) (by omega) (by omega) with ⟨i', hrun, hlen', hbytes'⟩
      rw [if_pos (by rw [add_lt_inputLen_iff hwrap]; omega), absorb_block_append (by decide) hb,
        residue_block_append (by decide) hb, md5Transform_of_bytesAt (bytesAt_shift.2 hbytes.1) hb]
      exact ⟨i', hrun, hlen', hbytes'⟩

/-- More turns change nothing. -/
theorem transformBlocks_mono {fuel' : Nat} (hle : fuel ≤ fuel') {s : Md5State} {r : UInt4 × Md5State}
    (h : transformBlocks input inputLen fuel i s = some r) : transformBlocks input inputLen fuel' i s = some r := by
  induction fuel generalizing fuel' i s with
  | zero => cases h
  | succ fuel ih =>
    rcases Nat.exists_eq_add_one.2 (Nat.zero_lt_of_lt hle) with ⟨fuel', rfl⟩
    rw [transformBlocks] at h ⊢
    split
    case isTrue hmore =>
      rw [if_pos hmore] at h
      exact ih (Nat.le_of_succ_le_succ hle) h
    case isFalse hmore => rwa [if_neg hmore] at h

/-- Where the counter comes round to a start that is not 0, the loop goes on for ever. -/
theorem transformBlocks_eq_none {s : Md5State} {n : Nat} (hn : n < 64) (haligned : (n + i.toNat) % 64 = 0)
    (hlen : 2 ^ 32 ≤ n + inputLen.toNat) : transformBlocks input inputLen fuel i s = none := by
  induction fuel generalizing i s with
  | zero => rfl
  | succ fuel ih =>
    have hi := i.isLt
    have hmore : i + 63 < inputLen := by
      rw [BitVec.lt_def, BitVec.toNat_add]
      change (i.toNat + 63) % 2 ^ 32 < inputLen.toNat
      omega
    have hnext : (n + (i + 64).toNat) % 64 = 0 := by
      rw [BitVec.toNat_add]
      change (n + (i.toNat + 64) % 2 ^ 32) % 64 = 0
      omega
    rw [transformBlocks, if_pos hmore]
    exact ih hnext

theorem Md5Ctx.toNat_index (context : Md5Ctx) : context.index.toNat = context.count0.toNat / 8 % 64 := by
  rw [index, BitVec.toNat_and, BitVec.toNat_ushiftRight, Nat.shiftRight_eq_div_pow]
  exact Nat.and_two_pow_sub_one_eq_mod _ 6

theorem Md5Ctx.index_lt (context : Md5Ctx) : context.index.toNat < 64 := by
  rw [toNat_index]
  exact Nat.mod_lt _ (by decide)

/-- What is left of the buffer. -/
theorem Md5Ctx.toNat_partLen (context : Md5Ctx) : (64 - context.index).toNat = 64 - context.index.toNat := by
  have hlt := context.index_lt
  rw [BitVec.toNat_sub_of_le (BitVec.le_def.2 (show context.index.toNat ≤ 64 by omega))]
  rfl

theorem Md5Ctx.Holds.toNat_index (h : context.Holds message) : context.index.toNat = message.length % 64 := by
  have hcount := h.count
  have h₀ := context.count0.isLt
  rw [Md5Ctx.toNat_index]
  omega

/-- A number of 64 bits in two words of 32 bits, and another one added to it. -/
theorem carry_add {lo hi n q r : Nat} (h : hi * 2 ^ 32 + lo = n % 2 ^ 64) (hlo : lo < 2 ^ 32) (hr : r < 2 ^ 32) :
    ((if (lo + r) % 2 ^ 32 < r then (hi + 1) % 2 ^ 32 else hi) + q) % 2 ^ 32 * 2 ^ 32 + (lo + r) % 2 ^ 32 =
      (n + (q * 2 ^ 32 + r)) % 2 ^ 64 := by
  have hadd : (n + (q * 2 ^ 32 + r)) % 2 ^ 64 = (hi * 2 ^ 32 + lo + (q * 2 ^ 32 + r)) % 2 ^ 64 := by
    rw [h, Nat.mod_add_mod]
  rw [hadd]
  clear hadd h
  split
  all_goals omega

theorem count_add {count0 count1 : UInt4} {n : Nat} (inputLen : UInt4)
    (h : count1.toNat * 2 ^ 32 + count0.toNat = 8 * n % 2 ^ 64) :
    ((if count0 + inputLen <<< 3 < inputLen <<< 3 then count1 + 1 else count1) + inputLen >>> 29).toNat * 2 ^ 32 +
      (count0 + inputLen <<< 3).toNat = 8 * (n + inputLen.toNat) % 2 ^ 64 := by
  have hlow : (inputLen <<< 3).toNat = 8 * inputLen.toNat % 2 ^ 32 := by
    rw [BitVec.toNat_shiftLeft, Nat.shiftLeft_eq, Nat.mul_comm]
  have hhigh : (inputLen >>> 29).toNat = inputLen.toNat / 2 ^ 29 := by
    rw [BitVec.toNat_ushiftRight, Nat.shiftRight_eq_div_pow]
  have hone : (count1 + 1).toNat = (count1.toNat + 1) % 2 ^ 32 := BitVec.toNat_add ..
  have hsplit : 8 * inputLen.toNat = inputLen.toNat / 2 ^ 29 * 2 ^ 32 + 8 * inputLen.toNat % 2 ^ 32 := by omega
  rw [Nat.mul_add, hsplit, ← carry_add h count0.isLt (Nat.mod_lt _ (by decide)), BitVec.toNat_add,
    BitVec.toNat_add count0, hhigh, hlow, apply_ite BitVec.toNat, hone]
  simp only [BitVec.lt_def, BitVec.toNat_add count0, hlow]

theorem copyTo_of_ge {dst src : Mem} {off n j : Nat} (hj : off + n ≤ j) : copyTo dst off n src j = dst j :=
  if_neg fun h => Nat.not_lt_of_ge hj h.2

/-- A piece is absorbed after what there was. -/
theorem Md5Ctx.Holds.md5Update (h : context.Holds message) (hbytes : BytesAt input 0 l)
    (hlen : l.length = inputLen.toNat) (hfit : message.length % 64 + l.length < 2 ^ 32) (hfuel : l.length / 64 < fuel) :
    ∃ context', md5Update fuel context input inputLen = some context' ∧ context'.Holds (message ++ l) ∧
      ∀ j ≥ 64, context'.buffer j = context.buffer j := by
  have hindex : context.index.toNat = (residue 64 message).length := by rw [length_residue, h.toNat_index]
  have hmod := h.toNat_index
  have hlt := context.index_lt
  have hpart := context.toNat_partLen
  have hcount := count_add inputLen h.count
  rw [← hlen, ← List.length_append] at hcount
  rw [BanjOS.Md5.md5Update, transformInput]
  rcases Nat.lt_or_ge l.length (64 - context.index.toNat) with hsmall | hge
  · -- All of it goes into the buffer.
    have hcond : ¬ inputLen ≥ 64 - context.index := by
      rw [ge_iff_le, BitVec.le_def, hpart]
      omega
    have hshort : (residue 64 message ++ l).length < 64 := by
      rw [List.length_append]
      omega
    have hn : (inputLen - 0).toNat = l.length := by
      rw [hlen]
      exact congrArg BitVec.toNat (BitVec.sub_zero inputLen)
    rw [if_neg hcond]
    refine ⟨_, rfl, ⟨hcount, ?_, ?_⟩, fun j hj => ?_⟩
    · rw [absorb_append (by decide), absorb_of_lt hshort]
      exact h.state
    · dsimp only
      rw [residue_append (by decide), residue_of_lt hshort, hindex, hn]
      exact bytesAt_copyTo h.buffer (bytesAt_shift.2 hbytes)
    · dsimp only
      rw [hn, copyTo_of_ge (by omega)]
  · -- The buffer is filled up and absorbed, and then the blocks of the input.
    have hcond : inputLen ≥ 64 - context.index := by
      rw [ge_iff_le, BitVec.le_def, hpart]
      omega
    rcases exists_block_append hge with ⟨b, t, hb, rfl⟩
    rw [List.length_append, hb] at hlen hfit hfuel
    rw [bytesAt_append, hb, Nat.zero_add, ← hpart] at hbytes
    have hblock : (residue 64 message ++ b).length = 64 := by
      rw [List.length_append, hb]
      omega
    have hmem := bytesAt_copyTo h.buffer hbytes.1
    rw [hb, ← hindex, ← hpart] at hmem
    have htrans := md5Transform_of_bytesAt (s := context.state) hmem hblock
    rcases transformBlocks_eq (s := absorbBlock context.state (residue 64 message ++ b)) (n := context.index.toNat)
      (i := 64 - context.index) hbytes.2 (show _ = inputLen.toNat by omega) (by omega) (by omega)
      (show t.length / 64 < fuel by omega) with ⟨i, hrun, hi, hrest⟩
    have hrestlt := length_residue_lt (n := 64) (by decide) t
    have hn : (inputLen - i).toNat = (residue 64 t).length := by
      rw [BitVec.toNat_sub_of_le (BitVec.le_def.2 (by omega))]
      omega
    rw [if_pos hcond]
    dsimp only
    rw [htrans, hrun]
    refine ⟨_, rfl, ⟨hcount, ?_, ?_⟩, fun j hj => ?_⟩
    · rw [absorb_append (by decide), ← List.append_assoc, absorb_block_append (by decide) hblock, ← h.state]
    · rw [residue_append (by decide), ← List.append_assoc, residue_block_append (by decide) hblock]
      dsimp only
      rw [hn]
      exact bytesAt_copyTo bytesAt_nil (bytesAt_shift.2 hrest)
    · dsimp only
      have hzero : (0 : UInt4).toNat = 0 := rfl
      rw [hn, hzero, copyTo_of_ge (by omega), copyTo_of_ge (by omega)]

theorem md5Update_mono {fuel' : Nat} (hle : fuel ≤ fuel') {context' : Md5Ctx}
    (h : md5Update fuel context input inputLen = some context') :
    md5Update fuel' context input inputLen = some context' := by
  have hinput {r} (hr : transformInput fuel context input inputLen = some r) :
      transformInput fuel' context input inputLen = some r := by
    rw [transformInput] at hr ⊢
    split
    case isTrue hge =>
      rw [if_pos hge] at hr
      rcases Option.map_eq_some_iff.1 hr with ⟨t, ht, rfl⟩
      exact congrArg (Option.map _) (transformBlocks_mono hle ht)
    case isFalse hlt => rwa [if_neg hlt] at hr
  rcases Option.map_eq_some_iff.1 h with ⟨r, hr, rfl⟩
  rw [md5Update, hinput hr]
  rfl

/-- Where the length and what is in the buffer do not fit the counter, the loop goes on for ever. -/
theorem md5Update_eq_none (h : 2 ^ 32 ≤ context.index.toNat + inputLen.toNat) :
    md5Update fuel context input inputLen = none := by
  have hlt := context.index_lt
  have hpart := context.toNat_partLen
  have hcond : inputLen ≥ 64 - context.index := by
    rw [ge_iff_le, BitVec.le_def, hpart]
    omega
  rw [md5Update, transformInput, if_pos hcond]
  dsimp only
  rw [transformBlocks_eq_none hlt (by omega) h]
  rfl

end

/-! ## `MD5Final` -/

section
variable {context : Md5Ctx} {message : List UInt8} {fuel : Nat}

theorem encodeWord_eq (w : UInt4) : encodeWord w = leBytes 4 w.toNat := by
  have hbyte (v : UInt4) : UInt8.ofBitVec ((v &&& 0xff).setWidth 8) = UInt8.ofNat v.toNat := by
    rw [← UInt8.toNat_inj, UInt8.toNat_ofBitVec, BitVec.toNat_setWidth, BitVec.toNat_and, UInt8.toNat_ofNat']
    exact (Nat.mod_eq_of_lt (Nat.and_lt_two_pow _ (by decide))).trans (Nat.and_two_pow_sub_one_eq_mod _ 8)
  have hshift (k : Nat) : (w >>> k).toNat = w.toNat / 2 ^ k := by
    rw [BitVec.toNat_ushiftRight, Nat.shiftRight_eq_div_pow]
  simp only [encodeWord, List.map_cons, List.map_nil, hbyte, hshift, leBytes, Nat.div_div_eq_div_mul]
  rfl

theorem encode_count (h : context.Holds message) :
    encode [context.count0, context.count1] = leBytes 8 (8 * message.length) := by
  have hlow := context.count0.isLt
  have hmod : (context.count1.toNat * 2 ^ 32 + context.count0.toNat) % 2 ^ 32 = context.count0.toNat := by omega
  have hdiv : (context.count1.toNat * 2 ^ 32 + context.count0.toNat) / 2 ^ 32 = context.count1.toNat := by omega
  calc encode [context.count0, context.count1] = leBytes 4 context.count0.toNat ++ leBytes 4 context.count1.toNat := by
        rw [encode, List.flatMap_cons, List.flatMap_singleton, encodeWord_eq, encodeWord_eq]
    _ = leBytes (4 + 4) (context.count1.toNat * 2 ^ 32 + context.count0.toNat) := by
        rw [leBytes_add, ← leBytes_mod 4 (_ + _)]
        exact congrArg₂ (fun lo hi => leBytes 4 lo ++ leBytes 4 hi) hmod.symm hdiv.symm
    _ = leBytes 8 (8 * message.length) := by
        rw [h.count]
        exact leBytes_mod 8 _

/-- How many bytes of `PADDING` are taken. -/
theorem toNat_padLen (context : Md5Ctx) :
    (if context.index < 56 then 56 - context.index else 120 - context.index).toNat =
      (119 - context.index.toNat) % 64 + 1 := by
  have hlt := context.index_lt
  split
  case isTrue h =>
    have h' : context.index.toNat < 56 := h
    rw [BitVec.toNat_sub_of_le (BitVec.le_def.2 h'.le)]
    change 56 - context.index.toNat = _
    omega
  case isFalse h =>
    have h' : ¬ context.index.toNat < 56 := h
    rw [BitVec.toNat_sub_of_le (BitVec.le_def.2 (show context.index.toNat ≤ 120 by omega))]
    change 120 - context.index.toNat = _
    omega

/-- The first bytes of `PADDING`. -/
theorem bytesAt_padding {n : Nat} (hn : n < 64) : BytesAt (memOf padding) 0 (0x80 :: List.replicate n 0) := by
  have hsplit : padding = (0x80 :: List.replicate n 0) ++ List.replicate (63 - n) 0 := by
    rw [List.cons_append, List.replicate_append_replicate, Nat.add_sub_cancel' (by omega), padding]
  have hmem := bytesAt_memOf padding
  rw [hsplit, bytesAt_append] at hmem
  rw [hsplit]
  exact hmem.1

/-- What is given to `MD5Final` is padded, and its digest comes out; the context is zero after it. -/
theorem Md5Ctx.Holds.md5Final (h : context.Holds message) (hfuel : 2 ≤ fuel) : ∃ context',
    md5Final fuel context = some (digestOf message, context') ∧ context'.state = ⟨0, 0, 0, 0⟩ ∧ context'.count0 = 0 ∧
      context'.count1 = 0 ∧ ∀ j < 64, context'.buffer j = 0 := by
  have hpad := toNat_padLen context
  rw [h.toNat_index] at hpad
  have hmod : message.length % 64 < 64 := Nat.mod_lt _ (by decide)
  generalize hzeros : (119 - message.length % 64) % 64 = zeros at hpad
  have hzeros' : zeros < 64 := by omega
  rcases h.md5Update (bytesAt_padding hzeros')
    (by rw [hpad, List.length_cons, List.length_replicate]) (by rw [List.length_cons, List.length_replicate]; omega)
    (show _ < fuel by rw [List.length_cons, List.length_replicate]; omega) with ⟨context₁, hrun₁, h₁, -⟩
  have hlength : (leBytes 8 (8 * message.length)).length = (8 : UInt4).toNat := length_leBytes 8 _
  rcases h₁.md5Update (bytesAt_memOf (leBytes 8 (8 * message.length))) hlength
    (by rw [length_leBytes]; omega) (show _ < fuel by rw [length_leBytes]; omega) with ⟨context₂, hrun₂, h₂, -⟩
  have hstate : context₂.state = absorb 64 absorbBlock initialState (pad message) := by
    rw [h₂.state, pad, hzeros, List.append_assoc, List.cons_append]
  refine ⟨⟨⟨0, 0, 0, 0⟩, 0, 0, fill context₂.buffer 0 64 0⟩, ?_, rfl, rfl, rfl, fun j hj => ?_⟩
  case refine_2 => exact fill_apply_of_mem ⟨j.zero_le, by omega⟩
  rw [BanjOS.Md5.md5Final]
  dsimp only
  rw [hrun₁, Option.bind_eq_bind, Option.bind_some, encode_count h, hrun₂, Option.bind_some, hstate, encode]
  simp only [List.flatMap_cons, List.flatMap_nil, List.append_nil, encodeWord_eq, digestOf, List.append_assoc]
  rfl

end

/-! ## Whole messages -/

/-- The pieces fit the counter of the loop, when `n` bytes come before them. -/
def PiecesFit : (n : Nat) → List Piece → Prop
  | _, [] => True
  | n, p :: pieces => n % 64 + p.inputLen.toNat < 2 ^ 32 ∧ PiecesFit (n + p.inputLen.toNat) pieces

section
variable {context : Md5Ctx} {message : List UInt8} {pieces : List Piece} {fuel : Nat}

theorem Piece.length_bytes (p : Piece) : p.bytes.length = p.inputLen.toNat := by
  rw [bytes, List.length_map, List.length_range]

theorem holds_md5Init (context : Md5Ctx) : (md5Init context).Holds [] where
  count := show (0 : UInt4).toNat * 2 ^ 32 + (0 : UInt4).toNat = 8 * 0 % 2 ^ 64 by decide
  state := (absorb_of_lt (show ([] : List UInt8).length < 64 by decide)).symm
  buffer := trivial

/-- Pieces that fit are absorbed one after the other. -/
theorem Md5Ctx.Holds.updateAll (h : context.Holds message) (hfit : PiecesFit message.length pieces)
    (hfuel : 2 ^ 26 ≤ fuel) :
    ∃ context', updateAll fuel context pieces = some context' ∧ context'.Holds (message ++ pieces.flatMap Piece.bytes) := by
  induction pieces generalizing context message with
  | nil => exact ⟨context, rfl, by rwa [List.flatMap_nil, List.append_nil]⟩
  | cons p pieces ih =>
    rcases hfit with ⟨hp, hfit⟩
    have hlen := p.length_bytes
    rcases h.md5Update (bytesAt_map_range p.input p.inputLen.toNat) hlen (by rwa [← hlen] at hp)
      (show p.bytes.length / 64 < fuel by omega) with ⟨context₁, hrun₁, h₁, -⟩
    rw [← hlen, ← List.length_append] at hfit
    rcases ih h₁ hfit with ⟨context₂, hrun₂, h₂⟩
    refine ⟨context₂, ?_, ?_⟩
    · rw [BanjOS.Md5.updateAll, List.foldlM_cons, hrun₁]
      exact hrun₂
    · rwa [List.flatMap_cons, ← List.append_assoc]

/-- A piece that does not fit never comes to its end. -/
theorem Md5Ctx.Holds.updateAll_eq_none (h : context.Holds message) (hfit : ¬ PiecesFit message.length pieces) :
    BanjOS.Md5.updateAll fuel context pieces = none := by
  induction pieces generalizing context message with
  | nil => exact absurd trivial hfit
  | cons p pieces ih =>
    have hlen := p.length_bytes
    rw [BanjOS.Md5.updateAll, List.foldlM_cons]
    rcases Nat.lt_or_ge (message.length % 64 + p.inputLen.toNat) (2 ^ 32) with hp | hp
    · cases hrun : BanjOS.Md5.md5Update fuel context p.input p.inputLen with
      | none => rfl
      | some context₁ =>
        rcases h.md5Update (bytesAt_map_range p.input p.inputLen.toNat) hlen
          (by rwa [← hlen] at hp) (show p.bytes.length / 64 < max fuel (2 ^ 26) by omega) with ⟨context₂, hrun₂, h₂, -⟩
        have hsame := md5Update_mono (Nat.le_max_left fuel (2 ^ 26)) hrun
        obtain rfl : context₁ = context₂ := Option.some_inj.1 (hsame.symm.trans hrun₂)
        refine ih h₂ fun hrest => hfit ⟨hp, ?_⟩
        rwa [List.length_append, List.length_map, List.length_range] at hrest
    · rw [md5Update_eq_none (by rwa [h.toNat_index])]
      rfl

/-- However a message is cut into pieces, its digest comes out, if the pieces fit the counter of the loop; and if one of
them does not, nothing does. -/
theorem md5_pieces (context : Md5Ctx) (pieces : List Piece) :
    (PiecesFit 0 pieces → ∀ fuel, 2 ^ 26 ≤ fuel → md5 fuel context pieces = some (digestOf (pieces.flatMap Piece.bytes))) ∧
      (¬ PiecesFit 0 pieces → ∀ fuel, md5 fuel context pieces = none) := by
  constructor
  · intro hfit fuel hfuel
    rcases (holds_md5Init context).updateAll hfit hfuel with ⟨context₁, hrun₁, h₁⟩
    rcases h₁.md5Final (show 2 ≤ fuel by omega) with ⟨context₂, hrun₂, -⟩
    rw [md5, hrun₁, Option.bind_eq_bind, Option.bind_some, hrun₂]
    rfl
  · intro hfit fuel
    rw [md5, (holds_md5Init context).updateAll_eq_none hfit]
    rfl

end

end BanjOS.Md5
