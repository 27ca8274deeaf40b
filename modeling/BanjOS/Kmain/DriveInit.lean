import BanjOS.Console.Rendering
import BanjOS.Ext2.Directory
import BanjOS.Ext2.Probe
import BanjOS.Md5.Context
import Mathlib.Data.List.TakeWhile

/-!
# The message digest of the kernel's own file

`drive_init` of `kmain.c`: the file system is probed for, the file `/boot/kernel` is looked up by two listings, it is
read in chunks of 7000 bytes up to a read that returns 0, and its message digest is printed. `driveInit_prints`
puts the parts together: what is printed is the MD5 of the bytes of that file, where the listings are exact, no
other name is taken for one that is looked for, and the reads fit the file.
-/

namespace BanjOS

open ByteMem Md5

/-! ## The code -/

/-- `FS_register`, with the implementations from `impls` on as a list. -/
def fsRegister {π : Type} (impls : List π) (probe : π) : List π := probe :: impls

/-- `FS_probe`. -/
def fsProbe {σ : Type} (dev : BlockDevice) : List (BlockDevice → Except CpuFault (Option σ)) → Except CpuFault (Option σ)
  | [] => .ok none
  | probe :: impls => do
    match ← probe dev with
    | some sb => .ok (some sb)
    | none => fsProbe dev impls

/-- `ext2_init`. -/
def ext2Init (fresh : Mem) (impls : List (BlockDevice → Except CpuFault (Option (Ext2Mount × Option VfsInode)))) :
    List (BlockDevice → Except CpuFault (Option (Ext2Mount × Option VfsInode))) :=
  fsRegister impls fun dev => ext2Probe dev fresh

/-- The string that starts a name: its characters up to the first NUL. -/
def cString (name : List UInt8) : CString where
  chars := (name.map UInt8.toInt8).takeWhile (· ≠ 0)
  nulFree c hc := by simpa using List.mem_takeWhile_imp hc

/-- One of the two callbacks, for a call that `readdir` makes. A `NULL` inode is used where the name is the one
looked for. -/
def callbackFor (name : CString) (ino : Nat) (call : ReaddirCall) : Option Nat :=
  match call.inode with
  | some inode => some (readdirFor name (cString call.name) inode.ino ino).2
  | none => if strcmp (cString call.name) name = 0 then none else some ino

/-- What `drive_init` does not determine itself: what `kmalloc` leaves in its blocks and where the content block of
`readdir` is, the values of `ino` and `ctx` before, and the address of the superblock. -/
structure DriveEnv where
  fresh : Mem
  content : Nat
  ino : Nat
  ctx : Md5Ctx
  sb : BitVec 64
  data : Nat → Mem
  scratch : Nat → Mem

/-- Bounds on the turns of the loops. -/
structure DriveTurns where
  root : Nat
  boot : Nat
  reads : Nat
  blocks : Nat

/-- `dir->readdir(dir, callback, &ino)`. -/
def lookup (m : Ext2Mount) (env : DriveEnv) (turns : Nat) (name : CString) (dir : VfsInode) (ino : Nat) : Option Nat := do
  let (_, calls) ← (readdir m env.fresh env.content turns dir).toOption.join
  calls.foldlM (callbackFor name) ino

/-- The loop that reads the file: `n` reads at most, from the `i`th one on. -/
def hashFile (env : DriveEnv) (fuel : Nat) : (n i : Nat) → Ext2File → Md5Ctx → Option Md5Ctx
  | 0, _, _, _ => none
  | n + 1, i, file, ctx => do
    let st ← ext2FileRead file ⟨7000, env.data i, env.scratch i⟩
    if st.bytesRead = 0 then some ctx
    else
      let ctx ← md5Update fuel ctx st.out (BitVec.ofInt 32 st.bytesRead)
      hashFile env fuel n (i + 1) st.exfi ctx

/-- A call of `printk`. -/
def printkCalls (format : List Piece) (hdoc : ∀ p ∈ format, p.Documented) (va : VaArgs) : Option (List ConsoleCall) :=
  (printk (documentedFormat format hdoc).char va (format.length + 1)).map (·.calls)

/-- `"sb: %lx\n"`. -/
def sbFormat : List Piece :=
  [.lit (chr 's'), .lit (chr 'b'), .lit (chr ':'), .lit (chr ' '), .sized .long (chr 'x'), .lit (chr '\n')]

/-- `"0"`. -/
def zeroFormat : List Piece := [.lit (chr '0')]

/-- `"%x"`. -/
def hexFormat : List Piece := [.int .x]

/-- `"\n"`. -/
def newlineFormat : List Piece := [.lit (chr '\n')]

/-- No arguments. -/
def noArgs : VaArgs := oneArg 0

/-- The loop that prints the digest. -/
def printDigest : List UInt8 → Option (List ConsoleCall)
  | [] => some []
  | d :: digest => do
    let zero ← if d < 16 then printkCalls zeroFormat (by decide) noArgs else some []
    let hex ← printkCalls hexFormat (by decide) (oneArg (d.toBitVec.setWidth 64))
    let rest ← printDigest digest
    return zero ++ hex ++ rest

/-- `drive_init`, from the device on that `ata_probe` has found: what is printed, or `none` where the processor
faults, a `NULL` pointer is used or a loop does not come to its end. -/
def driveInit (turns : DriveTurns) (env : DriveEnv) (dev : BlockDevice) : Option (List ConsoleCall) := do
  let (m, root) ← (fsProbe dev (ext2Init env.fresh [])).toOption.join
  let sbText ← printkCalls sbFormat (by decide) (oneArg env.sb)
  let ino ← lookup m env turns.root bootName (← root) env.ino
  let inode ← (readInode m env.fresh ino).toOption.join
  let ino ← lookup m env turns.boot kernelName inode ino
  let inode ← (readInode m env.fresh ino).toOption.join
  let ctx ← hashFile env turns.blocks turns.reads 0 (ext2FileOpen inode.toExt2VfsInode) (md5Init env.ctx)
  let (digest, _) ← md5Final turns.blocks ctx
  let text ← printDigest digest
  let newline ← printkCalls newlineFormat (by decide) noArgs
  return sbText ++ text ++ newline

/-! ## Printing -/

section
variable (format : List Piece) (hdoc : ∀ p ∈ format, p.Documented) (va : VaArgs)

/-- A format that has no negative numbers in it is printed as documented, on both outputs. -/
theorem printkCalls_eq (hhex : ∀ p ∈ withArgs va 0 format, ¬ p.1.NegativeHex p.2)
    (hdec : ∀ p ∈ withArgs va 0 format, ¬ p.1.NegativeDecimal p.2) : ∃ calls,
    printkCalls format hdoc va = some calls ∧ vgaChars calls = renderAll va format ∧
      serChars calls = renderAll va format := by
  have hparse := parseFormat_documentedFormat hdoc
  rcases printk_allTexts va (fun _ _ => rfl) hparse with ⟨fuel, t, screen, serial, hrun, hvga, hser, -, htexts⟩
  have hmem : (documentedFormat format hdoc).InMemory (documentedFormat format hdoc).char := fun _ _ => rfl
  have hrun' := printk_of_parse va hmem hparse
  obtain rfl := printkLoop_unique hrun hrun'
  have hdocs (p) (hp : p ∈ withArgs va 0 format) : p.1.Documented := hdoc _ (mem_of_mem_withArgs hp)
  have hscreen : screen = renderAll va format := by
    rcases htexts.rendered hdocs with ⟨-, h⟩ | ⟨⟨p, hp, hneg⟩, -⟩
    · exact h
    · exact absurd hneg (hhex p hp)
  have hserial : serial = screen := by
    rcases htexts.logged with ⟨-, h⟩ | ⟨⟨p, hp, hneg⟩, -⟩
    · exact h
    · exact absurd hneg (hdec p hp)
  refine ⟨_, by rw [printkCalls, hrun']; rfl, hvga.trans hscreen, hser.trans (hserial.trans hscreen)⟩

end

/-- A byte as two digits. -/
def hexByte (b : UInt8) : List Int8 := [chr (Nat.digitChar (b.toNat / 16)), chr (Nat.digitChar (b.toNat % 16))]

theorem toNat_setWidth_arg (b : UInt8) : ((b.toBitVec.setWidth 64).setWidth 32).toNat = b.toNat := by
  rw [BitVec.toNat_setWidth, BitVec.toNat_setWidth, UInt8.toNat_toBitVec]
  have hlt := b.toNat_lt
  omega

theorem renderAll_hexFormat (b : UInt8) :
    renderAll (oneArg (b.toBitVec.setWidth 64)) hexFormat = renderNat 16 b.toNat := by
  rw [← toNat_setWidth_arg]
  exact List.append_nil _

/-- The digits of a byte of 16 or more. -/
theorem renderNat_of_ge {b : UInt8} (hb : 16 ≤ b.toNat) : renderNat 16 b.toNat = hexByte b := by
  have hlt := b.toNat_lt
  rw [renderNat, Nat.toDigits_of_base_le (by decide) hb, Nat.toDigits_of_lt_base (by omega)]
  rfl

theorem renderNat_of_lt {b : UInt8} (hb : b.toNat < 16) : chr '0' :: renderNat 16 b.toNat = hexByte b := by
  rw [renderNat, Nat.toDigits_of_lt_base hb, hexByte, Nat.div_eq_of_lt hb, Nat.mod_eq_of_lt hb]
  rfl

/-- Every byte of the digest is printed as two digits. -/
theorem printDigest_eq (digest : List UInt8) : ∃ calls, printDigest digest = some calls ∧
    vgaChars calls = digest.flatMap hexByte ∧ serChars calls = digest.flatMap hexByte := by
  induction digest with
  | nil => exact ⟨[], rfl, rfl, rfl⟩
  | cons d digest ih =>
    rcases ih with ⟨rest, hrest, hvga, hser⟩
    rcases printkCalls_eq hexFormat (by decide) (oneArg (d.toBitVec.setWidth 64))
      (by simp [hexFormat, withArgs, Piece.NegativeHex]) (by simp [hexFormat, withArgs, Piece.NegativeDecimal])
      with ⟨hex, hhex, hhexvga, hhexser⟩
    rw [renderAll_hexFormat] at hhexvga hhexser
    rw [printDigest, hhex, hrest]
    split
    case isTrue hlt =>
      rcases printkCalls_eq zeroFormat (by decide) noArgs
        (by simp [zeroFormat, withArgs, Piece.NegativeHex]) (by simp [zeroFormat, withArgs, Piece.NegativeDecimal])
        with ⟨zero, hzero, hzerovga, hzeroser⟩
      have hzerotext : renderAll noArgs zeroFormat = [chr '0'] := rfl
      rw [hzerotext] at hzerovga hzeroser
      rw [hzero]
      refine ⟨_, rfl, ?_, ?_⟩
      · rw [vgaChars_append, vgaChars_append, hzerovga, hhexvga, hvga, List.flatMap_cons, ← renderNat_of_lt hlt]
        rfl
      · rw [serChars_append, serChars_append, hzeroser, hhexser, hser, List.flatMap_cons, ← renderNat_of_lt hlt]
        rfl
    case isFalse hge =>
      have hle : 16 ≤ d.toNat := Nat.le_of_not_lt hge
      refine ⟨_, rfl, ?_, ?_⟩
      · rw [List.nil_append, vgaChars_append, hhexvga, hvga, List.flatMap_cons, renderNat_of_ge hle]
      · rw [List.nil_append, serChars_append, hhexser, hser, List.flatMap_cons, renderNat_of_ge hle]

/-! ## Looking up a name -/

/-- The entries of a directory that have an inode, where `es k` are those of block `k`. -/
def VfsInode.usedEntries (dir : VfsInode) (es : Nat → List DirEntry) : List DirEntry :=
  (List.range dir.numBlocks).flatMap fun k => (es k).filter DirEntry.used

/-- The listing of a directory is exact, the name is that of the inode `inode` and no other, and no other name is
taken for it. -/
structure FindsName (m : Ext2Mount) (env : DriveEnv) (dir : VfsInode) (es : Nat → List DirEntry) (name : CString)
    (inode : VfsInode) : Prop where
  exact : ReaddirExact m env.fresh env.content dir es
  named : ∃ e ∈ dir.usedEntries es, cString (e.name ++ [0]) = name
  unique : ∀ e ∈ dir.usedEntries es, cString (e.name ++ [0]) = name → readInode m env.fresh e.ino = .ok (some inode)
  distinct : ∀ e ∈ dir.usedEntries es, DifferFromFirst (cString (e.name ++ [0])) name

section
variable {m : Ext2Mount} {env : DriveEnv} {name : CString} {inode : VfsInode} {entries : List DirEntry}
  {calls : List ReaddirCall}

/-- The callbacks leave the inode number of the entry, if there is one, and else what there was. -/
theorem foldlM_callbackFor (ino : Nat) (h : List.Forall₂ (CallsFor m env.fresh) entries calls)
    (hunique : ∀ e ∈ entries, cString (e.name ++ [0]) = name → readInode m env.fresh e.ino = .ok (some inode))
    (hdistinct : ∀ e ∈ entries, DifferFromFirst (cString (e.name ++ [0])) name) :
    ∃ ino', calls.foldlM (callbackFor name) ino = some ino' ∧
      (((∃ e ∈ entries, cString (e.name ++ [0]) = name) ∨ ino = inode.ino) → ino' = inode.ino) := by
  induction h generalizing ino with
  | nil => exact ⟨ino, rfl, fun h => h.resolve_left nofun⟩
  | @cons e call entries calls hcall _ ih =>
    rcases hcall with ⟨hname, hread⟩
    rw [List.forall_mem_cons] at hunique hdistinct
    have hzero := strcmp_eq_zero_imp_iff.2 hdistinct.1
    rw [← hname] at hzero hunique
    rw [List.foldlM_cons]
    rcases Decidable.em (strcmp (cString call.name) name = 0) with h0 | h0
    · have hinode : call.inode = some inode := Except.ok.inj (hread.symm.trans (hunique.1 (hzero h0)))
      have hcallback : callbackFor name ino call = some inode.ino := by
        rw [callbackFor, hinode]
        simp only [readdirFor, if_pos h0]
      rcases ih inode.ino hunique.2 hdistinct.2 with ⟨ino', hrun, himp⟩
      exact ⟨ino', by rw [hcallback]; exact hrun, fun _ => himp (.inr rfl)⟩
    · have hcallback : callbackFor name ino call = some ino := by
        rw [callbackFor]
        cases call.inode with
        | none => exact if_neg h0
        | some v => simp only [readdirFor, if_neg h0]
      rcases ih ino hunique.2 hdistinct.2 with ⟨ino', hrun, himp⟩
      refine ⟨ino', by rw [hcallback]; exact hrun, fun h => himp (h.imp_left ?_)⟩
      rw [List.exists_mem_cons_iff, ← hname]
      rintro (heq | hex)
      · rw [heq] at h0
        exact absurd strcmp_self h0
      · exact hex

/-- The name is found. -/
theorem FindsName.lookup {dir : VfsInode} {es : Nat → List DirEntry} (h : FindsName m env dir es name inode) (ino : Nat) :
    ∃ turns, lookup m env turns name dir ino = some inode.ino := by
  rcases h.exact with ⟨turns, calls, hread, hcalls⟩
  rcases foldlM_callbackFor ino hcalls h.unique h.distinct with ⟨ino', hrun, himp⟩
  refine ⟨turns, ?_⟩
  rw [BanjOS.lookup, hread]
  exact hrun.trans (congrArg some (himp (.inl h.named)))

end

/-! ## Hashing the file -/

/-- Where the cursor is before the `i`th read. -/
def cursorAt (inode : Ext2VfsInode) : (i : Nat) → Nat
  | 0 => 0
  | i + 1 => cursorAt inode i + readCount inode.vsb.blockSize inode.stSize (cursorAt inode i) 7000

/-- A file that can be read in chunks of 7000 bytes, each of which fits the file and the buffer. -/
structure Ext2VfsInode.ReadInChunks (inode : Ext2VfsInode) : Prop where
  readable : inode.Readable
  fits : ∀ i, ReadFits inode.vsb.blockSize inode.stSize (cursorAt inode i) 7000
  inBuffer : ∀ i, readCount inode.vsb.blockSize inode.stSize (cursorAt inode i) 7000 ≤ 7000

section
variable {inode : Ext2VfsInode} {ctx : Md5Ctx} {fuel : Nat}

theorem Ext2VfsInode.ReadInChunks.cursorAt_le (h : inode.ReadInChunks) (i : Nat) : cursorAt inode i ≤ inode.stSize := by
  induction i with
  | zero => exact Nat.zero_le _
  | succ i ih => exact (readFits_iff ih).1 (h.fits i)

/-- From any read on, the context is given the rest of the file. -/
theorem Ext2VfsInode.ReadInChunks.hashFile (h : inode.ReadInChunks) (env : DriveEnv) (hfuel : 110 ≤ fuel) {n i : Nat}
    (hctx : ctx.Holds ((List.range (cursorAt inode i)).map inode.byte)) (hn : inode.stSize < cursorAt inode i + n) :
    ∃ ctx', hashFile env fuel n i ⟨inode, cursorAt inode i⟩ ctx = some ctx' ∧ ctx'.Holds inode.bytes := by
  induction n generalizing i ctx with
  | zero => exact absurd (h.cursorAt_le i) (by omega)
  | succ n ih =>
    have hle := h.cursorAt_le i
    have hnext := h.cursorAt_le (i + 1)
    have hbuf := h.inBuffer i
    have hS := h.readable.stSize_lt
    have hcall : (⟨7000, env.data i, env.scratch i⟩ : ReadCall).len = (7000 : Nat) := rfl
    rcases ext2FileRead_spec h.readable hle (by decide) (by decide) hcall with ⟨st, hst, hat⟩
    have hzero := readCount_eq_zero_iff (S := inode.stSize) (c := cursorAt inode i) h.readable.blockSize_pos
      (show 0 < 7000 by decide)
    rw [cursorAt] at hnext
    generalize hk : readCount inode.vsb.blockSize inode.stSize (cursorAt inode i) 7000 = k at *
    rw [BanjOS.hashFile, hst, Option.bind_eq_bind, Option.bind_some, hat.bytesRead]
    split
    case isTrue hk0 =>
      have hend : cursorAt inode i = inode.stSize := Nat.le_antisymm hle (hzero.1 (Int.ofNat_eq_zero.1 hk0))
      rw [hend] at hctx
      exact ⟨ctx, rfl, hctx⟩
    case isFalse hk0 =>
      have hint : BitVec.ofInt 32 (k : Int) = BitVec.ofNat 32 k := BitVec.ofInt_natCast 32 k
      have hlen : ((List.range k).map st.out).length = (BitVec.ofInt 32 (k : Int)).toNat := by
        rw [hint, BitVec.toNat_ofNat, List.length_map, List.length_range]
        omega
      have hcount : ((List.range k).map st.out).length = k := by rw [List.length_map, List.length_range]
      rcases hctx.md5Update (bytesAt_map_range st.out k) hlen (by rw [hcount]; omega)
        (show _ < fuel by rw [hcount]; omega) with ⟨ctx', hrun, hctx', -⟩
      have hdata : (List.range (cursorAt inode i)).map inode.byte ++ (List.range k).map st.out =
          (List.range (cursorAt inode (i + 1))).map inode.byte := by
        rw [cursorAt, hk, List.range_add, List.map_append, List.map_map, List.append_cancel_left_eq]
        exact List.map_congr_left fun j hj => hat.data j (List.mem_range.1 hj)
      have hfile : st.exfi = ⟨inode, cursorAt inode (i + 1)⟩ := by
        rw [hat.exfi, cursorAt, hk, wrapInt_natCast (by omega)]
      rw [hdata] at hctx'
      rw [hrun, Option.bind_eq_bind, Option.bind_some, hfile]
      have hpos : 0 < k := Nat.pos_of_ne_zero fun h0 => hk0 (by rw [h0]; rfl)
      exact ih hctx' (by rw [cursorAt, hk]; omega)

end

/-! ## The whole thread -/

/-- The disk has a file system with the file `/boot/kernel`, which can be found and read. -/
structure KernelFile (env : DriveEnv) (dev : BlockDevice) (kernel : VfsInode) : Prop where
  mounted : ∃ m root boot esRoot esBoot, ext2Probe dev env.fresh = .ok (some (m, some root)) ∧
    FindsName m env root esRoot bootName boot ∧ FindsName m env boot esBoot kernelName kernel
  chunks : kernel.toExt2VfsInode.ReadInChunks

/-- The address of the superblock, and the digest of the file. -/
noncomputable def driveText (env : DriveEnv) (kernel : VfsInode) : List Int8 :=
  [chr 's', chr 'b', chr ':', chr ' '] ++ renderNat 16 env.sb.toNat ++ [chr '\n'] ++
    (digestOf kernel.toExt2VfsInode.bytes).flatMap hexByte ++ [chr '\n']

theorem renderAll_sbFormat (sb : BitVec 64) : renderAll (oneArg sb) sbFormat =
    [chr 's', chr 'b', chr ':', chr ' '] ++ renderNat 16 sb.toNat ++ [chr '\n'] := by
  have hlt : sb.toNat % 18446744073709551616 = sb.toNat := Nat.mod_eq_of_lt sb.isLt
  simp [renderAll, sbFormat, withArgs, oneArg, Piece.render, Conv.render, convOfLetter, Size.width, chr, hlt]

section
variable {m : Ext2Mount} {env : DriveEnv} {dev : BlockDevice} {dir inode kernel : VfsInode} {es : Nat → List DirEntry}
  {name : CString} {i : Nat}

/-- An inode number that is accepted has 32 bits. -/
theorem lt_of_readInode (h : readInode m env.fresh i = .ok (some inode)) : i < 2 ^ 32 := by
  rw [readInode] at h
  rcases Except.bind_eq_ok.1 h with ⟨g, hg, hr⟩
  refine Nat.lt_of_not_le fun hge => ?_
  have hlt : m.superBlock.numInodes < 2 ^ 32 := (ext2SuperBlock_lt m.extSb).1
  rw [readInodeGroup, if_pos (hlt.trans_le hge)] at hg
  cases hg
  cases hr

/-- An inode that is found can be read by the number it has itself. -/
theorem FindsName.readInode (h : FindsName m env dir es name inode) :
    readInode m env.fresh inode.ino = .ok (some inode) := by
  rcases h.named with ⟨e, he, hname⟩
  have hread := h.unique e he hname
  rcases readInode_some hread with ⟨⟨extIn, hinit⟩, -⟩
  have hino : inode.ino = e.ino := by
    rw [hinit]
    exact Nat.mod_eq_of_lt (lt_of_readInode hread)
  rwa [hino]

/-- The thread prints the MD5 of the bytes of `/boot/kernel`, on the screen and on the serial line. -/
theorem driveInit_prints (h : KernelFile env dev kernel) : ∃ turns calls, driveInit turns env dev = some calls ∧
    vgaChars calls = driveText env kernel ∧ serChars calls = driveText env kernel := by
  rcases h.mounted with ⟨m, root, boot, esRoot, esBoot, hmount, hboot, hkernel⟩
  rcases hboot.lookup env.ino with ⟨turnsRoot, hlookup⟩
  rcases hkernel.lookup boot.ino with ⟨turnsBoot, hlookup'⟩
  have hprobe : fsProbe dev (ext2Init env.fresh []) = .ok (some (m, some root)) := by
    rw [ext2Init, fsRegister, fsProbe, hmount]
    rfl
  have hstart : (md5Init env.ctx).Holds ((List.range (cursorAt kernel.toExt2VfsInode 0)).map kernel.byte) :=
    holds_md5Init env.ctx
  have hturns : kernel.stSize < cursorAt kernel.toExt2VfsInode 0 + (kernel.stSize + 1) := by rw [cursorAt]; omega
  rcases h.chunks.hashFile env (Nat.le_refl 110) hstart hturns with ⟨ctx, hhash, hctx⟩
  rcases hctx.md5Final (show 2 ≤ 110 by decide) with ⟨ctx', hfinal, -⟩
  rcases printkCalls_eq sbFormat (by decide) (oneArg env.sb)
    (by simp [sbFormat, withArgs, Piece.NegativeHex])
    (by simp [sbFormat, withArgs, Piece.NegativeDecimal, convOfLetter, chr]) with ⟨sbText, hsb, hsbvga, hsbser⟩
  rcases printDigest_eq (digestOf kernel.toExt2VfsInode.bytes) with ⟨text, htext, htextvga, htextser⟩
  rcases printkCalls_eq newlineFormat (by decide) noArgs
    (by simp [newlineFormat, withArgs, Piece.NegativeHex]) (by simp [newlineFormat, withArgs, Piece.NegativeDecimal])
    with ⟨newline, hnewline, hnewlinevga, hnewlineser⟩
  have hnewlinetext : renderAll noArgs newlineFormat = [chr '\n'] := rfl
  refine ⟨⟨turnsRoot, turnsBoot, kernel.stSize + 1, 110⟩, sbText ++ text ++ newline, ?_, ?_, ?_⟩
  · have hopen : ext2FileOpen kernel.toExt2VfsInode = ⟨kernel.toExt2VfsInode, (cursorAt kernel.toExt2VfsInode 0 : Nat)⟩ := rfl
    simp only [driveInit, hprobe, hsb, hlookup, hboot.readInode, hlookup', hkernel.readInode, hopen, hhash, hfinal, htext,
      hnewline, Except.toOption, Option.join_some, Option.bind_eq_bind, Option.bind_some]
    rfl
  · rw [vgaChars_append, vgaChars_append, hsbvga, htextvga, hnewlinevga, renderAll_sbFormat, hnewlinetext, driveText]
  · rw [serChars_append, serChars_append, hsbser, htextser, hnewlineser, renderAll_sbFormat, hnewlinetext, driveText]

end

/-! ## A disk -/

/-- The root of what is mounted is inode 2. -/
theorem readInode_root {dev : BlockDevice} {mbr fresh : Mem} {m : Ext2Mount} {root : Option VfsInode} {ps : List (Fin 4)}
    (h : probePartitions dev mbr fresh ps = .ok (some (m, root))) : readInode m fresh 2 = .ok root := by
  induction ps with
  | nil => cases h
  | cons p ps ih =>
    rw [probePartitions] at h
    split at h
    case isTrue => cases h
    case isFalse =>
      split at h
      case isFalse => exact ih h
      case isTrue =>
        rcases Except.bind_eq_ok.1 h with ⟨⟨sb, grpTable⟩, -, h⟩
        dsimp only at h
        split at h
        case isFalse => exact ih h
        case isTrue =>
          rcases Except.bind_eq_ok.1 h with ⟨⟨m', root'⟩, hmount, h⟩
          cases h
          exact (ext2VfsSuperblockInit_eq_ok_iff.1 hmount).2.2

/-- A directory of one block with one entry. -/
def OneEntry (name : CString) (ino : Nat) (dir : VfsInode) : Prop :=
  let block := dir.delivered (fun _ => 0) 0 0
  dir.stMode &&& 0x4000 ≠ 0 ∧ dir.numBlocks = 1 ∧ (dirEntry block 0).entrySize = 1024 ∧
    (dirEntry block 0).name.length = name.chars.length ∧ name.chars.length ≤ 255 ∧ (dirEntry block 0).ino = ino ∧
    cString ((dirEntry block 0).name ++ [0]) = name

instance (name : CString) (ino : Nat) (dir : VfsInode) : Decidable (OneEntry name ino dir) :=
  inferInstanceAs (Decidable (_ ∧ _))

/-- Its name is found. -/
theorem OneEntry.findsName {m : Ext2Mount} {env : DriveEnv} {name : CString} {i ino : Nat} {dir inode : VfsInode}
    (h : OneEntry name ino dir) (hfresh : env.fresh = fun _ => 0) (hc : env.content = 0x1000)
    (hbs : m.blockSize = 1024) (hino : ino ≠ 0) (hdir : readInode m env.fresh i = .ok (some dir))
    (hinode : readInode m env.fresh ino = .ok (some inode)) :
    FindsName m env dir (fun k => [dirEntry (dir.delivered env.fresh 0 k) 0]) name inode := by
  rcases h with ⟨hmode, hnum, hsize, hlen, hshort, hentry, hname⟩
  rw [← hfresh] at hsize hlen hentry hname
  have hyes : DirEntry.used (dirEntry (dir.delivered env.fresh 0 0) 0) = true := by
    rw [DirEntry.used, hentry]
    exact decide_eq_true hino
  have hused : dir.usedEntries (fun k => [dirEntry (dir.delivered env.fresh 0 k) 0]) =
      [dirEntry (dir.delivered env.fresh 0 0) 0] := by
    rw [VfsInode.usedEntries, hnum, List.range_one, List.flatMap_singleton, List.filter_singleton, hyes]
    rfl
  have hcontent : ContentAt m.blockSize env.content := by
    rw [hc, hbs]
    exact ⟨by decide, by decide⟩
  constructor
  case exact =>
    refine (readdirExact_iff_listed hdir hmode hcontent fun k hk => ?_).2 fun k hk => ?_
    · obtain rfl : k = 0 := by omega
      refine .cons ?_ ?_ ?_
      · rw [hsize]
        decide
      · rw [hsize]
        omega
      · rw [hsize, hbs]
        exact .nil
    · obtain rfl : k = 0 := by omega
      rw [listed, if_pos (by decide), List.takeWhile_cons_of_pos hyes, List.takeWhile_nil, List.filter_singleton, hyes]
      rfl
  case named => exact ⟨_, hused ▸ .head _, hname⟩
  case unique =>
    rw [hused, List.forall_mem_singleton, hentry]
    exact fun _ => hinode
  case distinct =>
    rw [hused, List.forall_mem_singleton, hname]
    exact .inl rfl

/-- A disk with a file system of blocks of 1 KiB, whose file `/boot/kernel` is `abc`. -/
def kernelDisk : BlockDevice :=
  diskWith (memWith [(450, 1, 0x83), (454, 4, 1), (458, 4, 1000), (1536, 4, 2048), (1540, 4, 8192), (1568, 4, 8192),
    (1576, 4, 2048), (1592, 2, 0xEF53), (1624, 4, 128), (2568, 4, 5),
    -- the inodes 2 to 4
    (5760, 2, 0x4000), (5764, 4, 1024), (5800, 4, 10), (5888, 2, 0x4000), (5892, 4, 1024), (5928, 4, 11),
    (6016, 2, 0x8000), (6020, 4, 3), (6056, 4, 12),
    -- the two directories and the file
    (10752, 4, 3), (10756, 2, 1024), (10758, 1, 4), (10760, 4, 0x746f6f62),
    (11776, 4, 4), (11780, 2, 1024), (11782, 1, 6), (11784, 6, 0x6c656e72656b), (12800, 3, 0x636261)])

/-- What is known of the kernel's file on it. -/
def IsKernelFile (kernel : VfsInode) : Prop :=
  kernel.stSize = 3 ∧ kernel.vsb.blockSize = 1024 ∧ kernel.extIn.directBlocks 0 = 12 ∧
    kernel.toExt2VfsInode.bytes = [97, 98, 99]

instance (kernel : VfsInode) : Decidable (IsKernelFile kernel) := inferInstanceAs (Decidable (_ ∧ _))

/-- What is known of the file system. -/
def isKernelMount (r : Ext2Mount × Option VfsInode) : Bool :=
  r.1.blockSize = 1024 && r.2.any (fun root => OneEntry bootName 3 root) &&
    (readInode r.1 (fun _ => 0) 3).toOption.join.any (fun boot => OneEntry kernelName 4 boot) &&
    (readInode r.1 (fun _ => 0) 4).toOption.join.any (fun kernel => IsKernelFile kernel)

/-- A file of one direct block is read in one chunk. -/
theorem IsKernelFile.readInChunks {kernel : VfsInode} (h : IsKernelFile kernel) (hreadable : kernel.vsb.Readable) :
    kernel.toExt2VfsInode.ReadInChunks := by
  rcases h with ⟨hsize, hbs, hptr, -⟩
  have hcursor (i : Nat) : cursorAt kernel.toExt2VfsInode i = 0 ∨ cursorAt kernel.toExt2VfsInode i = 3 := by
    induction i with
    | zero => exact .inl rfl
    | succ i ih =>
      rw [cursorAt, hbs, hsize]
      rcases ih with h | h
      all_goals
        rw [h]
        exact .inr rfl
  constructor
  case readable =>
    constructor
    case blockSize_pos => omega
    case blockSize_le => omega
    case stSize_lt => omega
    case delivered =>
      intro fresh dst k hk j hj
      obtain rfl : k = 0 := by
        rw [hbs, hsize] at hk
        omega
      refine mapsBlock_of_lt (show 0 < 12 + 1024 / 4 by decide) kernel.vsb kernel.extIn fresh dst hreadable hbs ?_ j
        (by omega)
      simp [treePath, treeAddress, followPointers, hptr]
  case fits =>
    intro i
    rw [hbs, hsize]
    rcases hcursor i with h | h
    all_goals
      rw [h]
      decide
  case inBuffer =>
    intro i
    rw [hbs, hsize]
    rcases hcursor i with h | h
    all_goals
      rw [h]
      decide

/-- Everything but the contents of the disk is zero. -/
def zeroEnv : DriveEnv := ⟨fun _ => 0, 0x1000, 0, ⟨⟨0, 0, 0, 0⟩, 0, 0, fun _ => 0⟩, 0, fun _ _ => 0, fun _ _ => 0⟩

/-- On this disk the MD5 of `abc` is printed. -/
theorem driveInit_prints_abc : ∃ kernel turns calls, kernel.toExt2VfsInode.bytes = [97, 98, 99] ∧
    driveInit turns zeroEnv kernelDisk = some calls ∧ vgaChars calls = driveText zeroEnv kernel ∧
    serChars calls = driveText zeroEnv kernel := by
  rcases exists_of_any (r := ext2Probe kernelDisk fun _ => 0) (p := isKernelMount) (by decide +kernel)
    with ⟨⟨m, root⟩, hprobe, hmount⟩
  simp only [isKernelMount, Bool.and_eq_true, decide_eq_true_eq] at hmount
  rcases hmount with ⟨⟨⟨hbs, hroot⟩, hboot⟩, hkernel⟩
  rcases exists_of_any hboot with ⟨boot, hboot, hbootEntry⟩
  rcases exists_of_any hkernel with ⟨kernel, hkernel, hfile⟩
  have hfile := of_decide_eq_true hfile
  obtain ⟨root', rfl, hrootEntry⟩ : ∃ root', root = some root' ∧ OneEntry bootName 3 root' := by
    cases root with
    | none => cases hroot
    | some root' => exact ⟨root', rfl, of_decide_eq_true hroot⟩
  have hdev : kernel.vsb.Readable := by
    rcases readInode_some hkernel with ⟨⟨extIn, rfl⟩, -⟩
    have hm : m.dev = kernelDisk := (probePartitions_probed rfl (fun _ => rfl) hprobe).2
    refine ⟨?_, ?_, fun lba => ?_⟩
    all_goals
      simp only [ext2VfsInodeInit, hm, hbs]
      first
      | rfl
      | decide
  have h : KernelFile zeroEnv kernelDisk kernel :=
    ⟨⟨m, root', boot, _, _, hprobe,
      hrootEntry.findsName rfl rfl hbs (by decide) (readInode_root hprobe) hboot,
      (of_decide_eq_true hbootEntry).findsName rfl rfl hbs (by decide) hboot hkernel⟩, hfile.readInChunks hdev⟩
  rcases driveInit_prints h with ⟨turns, calls, hrun, hvga, hser⟩
  exact ⟨kernel, turns, calls, hfile.2.2.2, hrun, hvga, hser⟩

end BanjOS
