import BanjOS.Ext2.InodeLookup
import BanjOS.Ext2.Scratch

/-!
# The scratch memory on the machine

The calls of the file system over demand paging. `FsView` is what is known between two calls: which blocks are in use, what
was written in them, and which of them have pages that were never used. Every call has a triple with the view after it
(`kmalloc_spec` to `readInode_spec`): it returns, or memory is full. `Above X v w` says that the view `w` is `v` with the
scratch blocks `X` on top; when the last one is freed, `v` is back.

A triply indirect block is the exception. `read_inode_block` never writes in `indirecterer_block`, so where this has a second
page, `kfree` halts (`readInodeBlock_halts`).
-/

namespace BanjOS

open ByteMem

/-! ## Views -/

/-- What is known of the heap: the blocks in use, what was written in them, the requests of the drive, the blocks of which
only the page with the header was used, and the pools that are not empty. -/
structure FsView where
  live : List Live
  data : Nat → Option UInt8
  reqs : List Nat
  untouched : List Live
  stock : Set Nat

namespace FsView

/-- A new block. -/
def malloc (v : FsView) (x : Live) : FsView := { v with live := x :: v.live, stock := v.stock \ {poolIndex x.size} }

/-- A new block, of which only the page with the header was used. -/
def reserve (v : FsView) (x : Live) : FsView := { v.malloc x with untouched := x :: v.untouched }

/-- A block is freed. -/
def free (v : FsView) (x : Live) : FsView :=
  { v with live := v.live.erase x, data := forget x v.data, stock := insert (poolIndex x.size) v.stock }

/-- The first `n` bytes of `src` are written. -/
def write (v : FsView) (a n : Nat) (src : Mem) : FsView :=
  { v with data := fun b => if InRange a n b then some (src (b - a)) else v.data b }

/-- The requests of the drive are others. -/
def queue (v : FsView) (reqs : List Nat) : FsView := { v with reqs }

/-- The view `w` knows at least what `v` knows. -/
structure Le (v w : FsView) : Prop where
  live : v.live = w.live
  data : ∀ b c, v.data b = some c → w.data b = some c
  reqs : v.reqs = w.reqs
  untouched : v.untouched ⊆ w.untouched
  stock : v.stock ⊆ w.stock

/-- What was written was written in the blocks in use. -/
def Covered (v : FsView) : Prop := ∀ b c, v.data b = some c → ∃ y ∈ v.live, InRange y.ptr y.size b

/-- The block is apart from those in use. -/
structure Fresh (v : FsView) (x : Live) : Prop where
  new : x ∉ v.live
  apart : ∀ y ∈ v.live, x.payload.Apart y.payload

/-- The range is in a block that is used. If memory may not be full, it is a block of a pool. -/
def Has (full : Prop) (v : FsView) (a n : Nat) : Prop :=
  ∃ x ∈ v.live, x ∉ v.untouched ∧ (full ∨ poolIndex x.size < blockSizesLen) ∧ x.ptr ≤ a ∧ a + n ≤ x.ptr + x.size

/-- The range has these bytes. -/
def Contains (v : FsView) (a n : Nat) (src : Mem) : Prop := ∀ j < n, v.data (a + j) = some (src j)

/-- The pages of the block were used. -/
def Filled (v : FsView) (x : Live) : Prop :=
  ∀ b, InRange x.ptr x.size b → b / pageSize ∈ x.restPages → ∃ c, v.data b = some c

section
variable {full : Prop} {v w : FsView} {x y : Live} {a a' n n' : Nat} {src src' : Mem}

theorem malloc_le_reserve (v : FsView) (x : Live) : (v.malloc x).Le (v.reserve x) :=
  ⟨rfl, fun _ _ h => h, rfl, List.subset_cons_self _ _, Set.Subset.rfl⟩

theorem write_of_mem {b : Nat} (hb : InRange a n b) : (v.write a n src).data b = some (src (b - a)) := if_pos hb

theorem write_of_not_mem {b : Nat} (hb : ¬ InRange a n b) : (v.write a n src).data b = v.data b := if_neg hb

/-- Nothing is written. -/
theorem write_zero (v : FsView) (a : Nat) (src : Mem) : v.write a 0 src = v := by
  have hdata : (v.write a 0 src).data = v.data := funext fun b => write_of_not_mem fun hb => by
    have h₁ := hb.1
    have h₂ := hb.2
    omega
  exact congrArg (fun data => { v with data }) hdata

/-- Only the first bytes of the source matter. -/
theorem write_congr (v : FsView) (a : Nat) (h : ∀ j < n, src j = src' j) : v.write a n src = v.write a n src' := by
  refine congrArg (fun data => { v with data }) (funext fun b => ?_)
  split
  case isTrue hb => rw [h _ (by have h₁ := hb.1; have h₂ := hb.2; omega)]
  case isFalse => rfl

/-- One range is written after another. -/
theorem write_append (h : ∀ j < n', src' j = src (n + j)) :
    (v.write a n src).write (a + n) n' src' = v.write a (n + n') src := by
  refine congrArg (fun data => { v with data }) (funext fun b => ?_)
  dsimp only [write]
  rcases Nat.lt_or_ge b (a + n) with hlt | hge
  · rw [if_neg fun hb : InRange (a + n) n' b => Nat.not_lt.2 hb.1 hlt]
    rcases Nat.lt_or_ge b a with hlow | hle
    · rw [if_neg fun hb : InRange a n b => Nat.not_lt.2 hb.1 hlow, if_neg fun hb => Nat.not_lt.2 hb.1 hlow]
    · rw [if_pos ⟨hle, hlt⟩, if_pos ⟨hle, by omega⟩]
  · rcases Nat.lt_or_ge b (a + n + n') with hlt | hge'
    · rw [if_pos ⟨hge, hlt⟩, if_pos ⟨by omega, by omega⟩, h _ (by omega)]
      exact congrArg (fun j => some (src j)) (by omega)
    · rw [if_neg fun hb => Nat.not_lt.2 hge' hb.2, if_neg fun hb => Nat.not_lt.2 hge hb.2,
        if_neg fun hb => absurd hb.2 (by omega)]

/-- A part of a range in a block. -/
theorem Has.mono (h : v.Has full a n) (ha : a ≤ a') (hn : a' + n' ≤ a + n) : v.Has full a' n' := by
  rcases h with ⟨x, hx, hused, hpool, hlower, hupper⟩
  exact ⟨x, hx, hused, hpool, hlower.trans ha, hn.trans hupper⟩

/-- A block that is used is not the new one. -/
theorem Fresh.notMem_reserve (h : v.Fresh x) (hy : y ∈ v.live) (hused : y ∉ v.untouched) : y ∉ (v.reserve x).untouched :=
  fun hmem => (List.mem_cons.1 hmem).elim (fun heq => h.new (heq ▸ hy)) hused

theorem Has.reserve (h : v.Has full a n) (hx : v.Fresh x) : (v.reserve x).Has full a n := by
  rcases h with ⟨y, hy, hused, hrange⟩
  exact ⟨y, .tail x hy, hx.notMem_reserve hy hused, hrange⟩

/-- The bytes of the range are in the block. -/
theorem Has.covered (h : v.Has full a n) {b : Nat} (hb : InRange a n b) : ∃ y ∈ v.live, InRange y.ptr y.size b := by
  rcases h with ⟨x, hx, -, -, hlower, hupper⟩
  exact ⟨x, hx, hb.mono hlower hupper⟩

/-- A new block has no byte of the old ones. -/
theorem Fresh.not_inRange (h : v.Fresh x) {b : Nat} (hb : ∃ y ∈ v.live, InRange y.ptr y.size b) : ¬ InRange x.ptr x.size b := by
  rcases hb with ⟨y, hy, hin⟩
  exact fun hx => (h.apart y hy).not_inRange hx ⟨Nat.le_refl _, Nat.le_refl _⟩ ⟨Nat.le_refl _, Nat.le_refl _⟩ hin

/-- A range of the old blocks has no byte of a new one. -/
theorem Has.apart (h : v.Has full a n) (hx : v.Fresh x) : ∀ b, InRange x.ptr x.size b → ¬ InRange a n b :=
  fun _ hb hin => hx.not_inRange (h.covered hin) hb

theorem Contains.congr (h : v.Contains a n src) (heq : ∀ j < n, src j = src' j) : v.Contains a n src' :=
  fun j hj => heq j hj ▸ h j hj

/-- What was just written. -/
theorem contains_write (v : FsView) (a n : Nat) (src : Mem) : (v.write a n src).Contains a n src := by
  intro j hj
  rw [write_of_mem ⟨Nat.le_add_right a j, Nat.add_lt_add_left hj a⟩, Nat.add_sub_cancel_left]

/-- A write elsewhere. -/
theorem Contains.write (h : v.Contains a n src) (hap : ∀ b, InRange a n b → ¬ InRange a' n' b) :
    (v.write a' n' src').Contains a n src := by
  intro j hj
  rw [write_of_not_mem (hap _ ⟨Nat.le_add_right a j, Nat.add_lt_add_left hj a⟩)]
  exact h j hj

/-- Another block is freed. -/
theorem Contains.free (h : v.Contains a n src) (hap : ∀ b, InRange a n b → ¬ InRange x.ptr x.size b) :
    (v.free x).Contains a n src := by
  intro j hj
  exact (if_neg (hap _ ⟨Nat.le_add_right a j, Nat.add_lt_add_left hj a⟩)).trans (h j hj)

/-- A block that was written as a whole. -/
theorem Contains.filled (h : v.Contains x.ptr x.size src) : v.Filled x := by
  intro b hb _
  rcases hb.exists_add with ⟨j, hj, rfl⟩
  exact ⟨_, h j hj⟩

/-- A block that fits one page. -/
theorem filled_of_le (h : x.size + headerSize ≤ pageSize) : v.Filled x := by
  intro b _ hrest
  rw [Live.restPages_of_le h] at hrest
  exact hrest.elim

/-! ### Scratch blocks -/

/-- The view `w` is `v` with the blocks `X` on top, which have no byte of the blocks of `v`. -/
structure Above (X : List Live) (v w : FsView) : Prop where
  live : w.live = X ++ v.live
  data : ∀ b c, v.data b = some c → w.data b = some c
  untouched : w.untouched = v.untouched
  stock : ∀ i ∈ v.stock, i ∈ w.stock ∨ ∃ x ∈ X, poolIndex x.size = i
  covered : v.Covered
  new : ∀ x ∈ X, x ∉ v.live
  apart : ∀ x ∈ X, ∀ b, (∃ y ∈ v.live, InRange y.ptr y.size b) → ¬ InRange x.ptr x.size b

/-- A block below the last one is taken out. -/
theorem erase_snd (x y : Live) (X : List Live) : (y :: x :: X).erase x = y :: X := by
  rcases Decidable.em (y = x) with rfl | hne
  · rw [List.erase_cons_head]
  · rw [List.erase_cons_tail (by simpa using hne), List.erase_cons_head]

theorem erase_trd {x z : Live} (hne : z ≠ x) (y : Live) (X : List Live) : (z :: y :: x :: X).erase x = z :: y :: X := by
  rw [List.erase_cons_tail (by simpa using hne), erase_snd]

namespace Above

variable {X : List Live}

theorem refl (hcov : v.Covered) : Above [] v v := ⟨rfl, fun _ _ h => h, rfl, fun _ h => .inl h, hcov, nofun, nofun⟩

/-- The blocks of `v` are among those of `w`. -/
theorem mem_live (h : Above X v w) {y : Live} (hy : y ∈ v.live) : y ∈ w.live := by
  rw [h.live]
  exact List.mem_append_right X hy

theorem mem_live_scratch (h : Above X v w) (hx : x ∈ X) : x ∈ w.live := by
  rw [h.live]
  exact List.mem_append_left v.live hx

/-- One block more. -/
theorem malloc (h : Above X v w) (hf : w.Fresh x) : Above (x :: X) v (w.malloc x) where
  live := congrArg (x :: ·) h.live
  data := h.data
  untouched := h.untouched
  stock i hi := by
    rcases h.stock i hi with hw | ⟨y, hy, hsize⟩
    · rcases Decidable.em (i = poolIndex x.size) with heq | hne
      · exact .inr ⟨x, .head X, heq.symm⟩
      · exact .inl ⟨hw, hne⟩
    · exact .inr ⟨y, .tail x hy, hsize⟩
  covered := h.covered
  new y hy hmem := (List.mem_cons.1 hy).elim (fun heq => hf.new (heq ▸ h.mem_live hmem)) fun hy => h.new y hy hmem
  apart y hy b hb := by
    rcases List.mem_cons.1 hy with rfl | hy
    · rcases hb with ⟨z, hz, hin⟩
      exact hf.not_inRange ⟨z, h.mem_live hz, hin⟩
    · exact h.apart y hy b hb

/-- A write in one of them. -/
theorem writeScratch (h : Above X v w) (hx : x ∈ X) (ha : x.ptr ≤ a) (hn : a + n ≤ x.ptr + x.size) (src : Mem) :
    Above X v (w.write a n src) where
  live := h.live
  data b c hb := by
    rw [write_of_not_mem fun hin => h.apart x hx b (h.covered b c hb) (hin.mono ha hn)]
    exact h.data b c hb
  untouched := h.untouched
  stock := h.stock
  covered := h.covered
  new := h.new
  apart := h.apart

/-- A write in a block of `v`. -/
theorem write (h : Above X v w) (hdst : v.Has full a n) (src : Mem) : Above X (v.write a n src) (w.write a n src) where
  live := h.live
  data b c hb := by
    rcases Classical.em (InRange a n b) with hin | hout
    · rwa [write_of_mem hin] at hb ⊢
    · rw [write_of_not_mem hout] at hb ⊢
      exact h.data b c hb
  untouched := h.untouched
  stock := h.stock
  covered b c hb := by
    rcases Classical.em (InRange a n b) with hin | hout
    · exact hdst.covered hin
    · rw [write_of_not_mem hout] at hb
      exact h.covered b c hb
  new := h.new
  apart := h.apart

/-- The requests of the drive do not matter. -/
theorem queue (h : Above X v w) (reqs : List Nat) : Above X v (w.queue reqs) :=
  ⟨h.live, h.data, h.untouched, h.stock, h.covered, h.new, h.apart⟩

/-- One of them is freed. -/
theorem free (h : Above X v w) (hx : x ∈ X) {Y : List Live} (hY : X.erase x = Y) : Above Y v (w.free x) where
  live := (congrArg (List.erase · x) h.live).trans ((List.erase_append_left v.live hx).trans (congrArg (· ++ v.live) hY))
  data b c hb := (if_neg (h.apart x hx b (h.covered b c hb))).trans (h.data b c hb)
  untouched := h.untouched
  stock i hi := by
    rcases h.stock i hi with hw | ⟨y, hy, hsize⟩
    · exact .inl (.inr hw)
    · rcases Decidable.em (y = x) with rfl | hne
      · exact .inl (.inl hsize.symm)
      · exact .inr ⟨y, hY ▸ (List.mem_erase_of_ne hne).2 hy, hsize⟩
  covered := h.covered
  new y hy := h.new y (List.mem_of_mem_erase (hY.symm ▸ hy))
  apart y hy := h.apart y (List.mem_of_mem_erase (hY.symm ▸ hy))

/-- When all of them are freed, what was known of `v` is known again. -/
theorem le (h : Above [] v w) (hreqs : w.reqs = v.reqs) : v.Le w where
  live := h.live.symm
  data := h.data
  reqs := hreqs.symm
  untouched := h.untouched ▸ List.Subset.refl _
  stock i hi := (h.stock i hi).resolve_right fun ⟨_, hx, _⟩ => nomatch hx

/-- A range in a block of `v`. -/
theorem has (h : Above X v w) (ha : v.Has full a n) : w.Has full a n := by
  rcases ha with ⟨y, hy, hused, hrange⟩
  exact ⟨y, h.mem_live hy, h.untouched ▸ hused, hrange⟩

/-- A scratch block can be used. -/
theorem not_untouched (h : Above X v w) (hunt : v.untouched ⊆ v.live) (hx : x ∈ X) : x ∉ w.untouched :=
  fun hmem => h.new x hx (hunt (h.untouched ▸ hmem))

theorem hasScratch (h : Above X v w) (hunt : v.untouched ⊆ v.live) (hx : x ∈ X)
    (hpool : full ∨ poolIndex x.size < blockSizesLen) : w.Has full x.ptr x.size :=
  ⟨x, h.mem_live_scratch hx, h.not_untouched hunt hx, hpool, Nat.le_refl _, Nat.le_refl _⟩

end Above

end

end FsView

/-! ## Sectors -/

/-- A file system on a drive without read errors, whose sectors are made of words of 16 bits. -/
structure Ext2VfsSuperBlock.OnDrive (vsb : Ext2VfsSuperBlock) : Prop extends vsb.Readable where
  even : 2 ∣ vsb.dev.blkSize

theorem Ext2Mount.Geometry.onDrive {m : Ext2Mount} (h : m.Geometry) (heven : 2 ∣ m.dev.blkSize) :
    m.toExt2VfsSuperBlock.OnDrive := ⟨⟨h.blkSize_pos, h.dvd, h.reads⟩, heven⟩

/-- The blocks of a file system are of less than `2 ^ 31 - 4112` bytes. -/
theorem Ext2Mount.Geometry.blockSize_lt {m : Ext2Mount} (h : m.Geometry) : m.blockSize + 4112 < 2 ^ 31 := by
  rcases h.blockSize with ⟨e, he, hbs⟩
  have hpow : 2 ^ e ≤ 2 ^ 6 := Nat.pow_le_pow_right (by decide) he
  rw [hbs]
  omega

/-- The bytes of the partition from a sector on. -/
def sectorsFrom (vsb : Ext2VfsSuperBlock) (sectorNum : Nat) : Mem := fun j =>
  ((mbrReadBlock vsb (sectorNum + j / vsb.dev.blkSize)).getD fun _ => 0) (j % vsb.dev.blkSize)

theorem sectorsFrom_eq {vsb : Ext2VfsSuperBlock} {sectorNum i j : Nat} {sector : Mem} (hj : j < vsb.dev.blkSize)
    (h : mbrReadBlock vsb (sectorNum + i) = some sector) : sectorsFrom vsb sectorNum (vsb.dev.blkSize * i + j) = sector j := by
  rw [sectorsFrom, Nat.mul_add_div (Nat.zero_lt_of_lt hj), Nat.div_eq_of_lt hj, Nat.add_zero, Nat.mul_add_mod,
    Nat.mod_eq_of_lt hj, h]
  rfl

/-! ## States -/

/-- A kernel after `init_page_table`, with the pool table in its static data. -/
structure MachineEnv where
  all : List Nat
  M : Nat
  root : Nat
  pools : Nat
  m₀ : Mem
  mapped : MappedFrames all M
  static : PoolsStatic all M pools

/-- The state is as the view says. -/
structure Holds (B : MachineEnv) (v : FsView) (s : FsState Kernel) : Prop where
  live_eq : s.live = v.live
  reqs_eq : s.reqs = v.reqs
  untouched : v.untouched ⊆ v.live
  inv : ∃ F flat pages freed, PagedInv B.all B.M B.root B.pools B.m₀ {n | ∃ z ∈ v.untouched, n ∈ z.restPages} F v.live
    v.data flat ⟨s.heap, pages, freed⟩ ∧ ∀ i ∈ v.stock, i < blockSizesLen → F i ≠ []

/-- The only reason to stop is that memory is full. -/
def IfFull (full : Prop) (e : Stop ⊕ CpuFault) : Prop := full ∧ e = .inl .outOfMemory

section
variable {B : MachineEnv} {full : Prop} {v w : FsView} {s : FsState Kernel} {x : Live}

theorem Holds.mono (h : Holds B w s) (hle : v.Le w) : Holds B v s where
  live_eq := h.live_eq.trans hle.live.symm
  reqs_eq := h.reqs_eq.trans hle.reqs.symm
  untouched := fun z hz => hle.live ▸ h.untouched (hle.untouched hz)
  inv := by
    rcases h.inv with ⟨F, flat, pages, freed, hinv, hstock⟩
    rw [← hle.live] at hinv
    refine ⟨F, flat, pages, freed, (hinv.mono_data hle.data).mono_pages ?_, fun i hi => hstock i (hle.stock hi)⟩
    exact fun n ⟨z, hz, hn⟩ => ⟨z, hle.untouched hz, hn⟩

theorem Holds.covered (h : Holds B v s) : v.Covered := by
  rcases h.inv with ⟨F, flat, pages, freed, hinv, -⟩
  exact fun b c hb => (hinv.data b c hb).2

section
variable {pools : Nat} {F : Nat → List Nat} {live : List Live} {flat : Flat}

/-- A block is apart from the other ones. -/
theorem PoolInv.cell_apart (hpool : PoolInv pools F live flat) {y : Live} (hx : x ∈ live) (hy : y ∈ live.erase x) :
    x.cell.Apart y.cell := (hpool.drop hx).2 _ (List.mem_append_right _ (List.mem_map_of_mem hy))

/-- A block is not apart from one at the same address. -/
theorem Live.not_apart {y : Live} (h : x.ptr = y.ptr) : ¬ x.cell.Apart y.cell := by
  have hx := le_blockLen x.size
  have hy := le_blockLen y.size
  have hblock : x.block = y.block := congrArg (· - headerSize) h
  unfold Cell.Apart Live.cell headerSize at *
  dsimp only
  omega

/-- The block that `kmalloc` returns is apart from the other ones. -/
theorem PoolInv.fresh (hpool : PoolInv pools F (x :: v.live) flat) : v.Fresh x where
  new hx := by
    refine Live.not_apart rfl (hpool.cell_apart (y := x) (.head _) ?_)
    rwa [List.erase_cons_head]
  apart y hy := ((List.pairwise_cons.1 hpool.sound.ranges).1 y hy).1

/-- `kfree` is called with the address of one block. -/
theorem PoolInv.eraseP_ptr (hpool : PoolInv pools F live flat) (hx : x ∈ live) :
    (live.eraseP fun y => y.ptr = x.ptr) = live.erase x := by
  have hinj : ∀ y ∈ live, y.ptr = x.ptr → y = x := fun y hy heq => by
    by_contra hne
    exact Live.not_apart heq.symm (hpool.cell_apart hx ((List.mem_erase_of_ne hne).2 hy))
  clear hpool hx
  induction live with
  | nil => rfl
  | cons y live ih =>
    rw [List.eraseP_cons, List.erase_cons, ih fun z hz => hinj z (.tail y hz)]
    rcases Decidable.em (y = x) with rfl | hne
    · simp
    · have hptr : y.ptr ≠ x.ptr := fun heq => hne (hinj y (.head _) heq)
      simp [hne, hptr]

end

/-! ## Memory -/

namespace Fs

/-- A request of less than `2 ^ 31 - 4112` bytes. Only the page with the header of the new block was used. -/
theorem kmalloc_reserve_spec {size : Nat} (hsmall : size + 4112 < 2 ^ 31)
    (he : full ∨ poolIndex size < blockSizesLen ∧ poolIndex size ∈ v.stock) :
    Hoare (Holds B v) (kmalloc B.pools size)
      (fun p s => v.Fresh ⟨p, size⟩ ∧ Holds B (v.reserve ⟨p, size⟩) s) (IfFull full) := by
  intro s h
  rcases h.inv with ⟨F, flat, pages, freed, hinv, hstock⟩
  have hlock (e : Stop) (hfull : full → e = .outOfMemory) := hinv.kmalloc B.mapped B.static hsmall
    (he.imp hfull fun hpool => ⟨hpool.1, .inl (hstock _ hpool.2 hpool.1)⟩)
  rcases Lockstep.upTo (show Stop.outOfMemory ≠ .notAvailable 0 by decide) hlock with
    ⟨hfull, herr⟩ | ⟨⟨p, heap⟩, q, hk, -, hptr, F', pages', freed', hF, hinv'⟩
  · exact .inl ⟨_, by rw [kmalloc, herr]; rfl, hfull, rfl⟩
  · have hrun : kmalloc B.pools size s = .ok (p, { s with heap, live := ⟨p, size⟩ :: s.live }) := by
      rw [kmalloc, hk]
      rfl
    refine .inr ⟨p, _, hrun, hinv'.pool.fresh, congrArg (⟨p, size⟩ :: ·) h.live_eq, h.reqs_eq,
      List.cons_subset_cons _ h.untouched, F', _, pages', freed', hinv'.mono_pages ?_, fun i hi hlt => ?_⟩
    · rintro n ⟨z, hz, hn⟩
      rcases List.mem_cons.1 hz with rfl | hz
      · exact .inr hn
      · exact .inl ⟨z, hz, hn⟩
    · rw [hF i hi.2]
      exact hstock i hi.1 hlt

/-- The same, where it does not matter which pages were used. -/
theorem kmalloc_spec {size : Nat} (hsmall : size + 4112 < 2 ^ 31)
    (he : full ∨ poolIndex size < blockSizesLen ∧ poolIndex size ∈ v.stock) :
    Hoare (Holds B v) (kmalloc B.pools size)
      (fun p s => v.Fresh ⟨p, size⟩ ∧ Holds B (v.malloc ⟨p, size⟩) s) (IfFull full) :=
  (kmalloc_reserve_spec hsmall he).weaken (fun _ h => h) fun _ _ h => ⟨h.1, h.2.mono (FsView.malloc_le_reserve _ _)⟩

/-- A block is freed of which all pages were used. -/
theorem kfree_spec (hx : x ∈ v.live) (hused : x ∉ v.untouched) (hw : v.Filled x) {E : Stop ⊕ CpuFault → Prop} :
    Hoare (Holds B v) (kfree x.ptr) (fun _ => Holds B (v.free x)) E := by
  intro s h
  rcases h.inv with ⟨F, flat, pages, freed, hinv, hstock⟩
  rcases hinv.kfree B.mapped B.static hx with ⟨hunt, -⟩ | ⟨-, k', s', F', pages', freed', hk, -, hF, hself, hinv'⟩
  · exact absurd hunt (hinv.not_untouched B.static hx hw)
  · have hrun : kfree x.ptr s = .ok ((), { s with heap := k', live := v.live.erase x }) := by
      rw [kfree, hk, h.live_eq, hinv.pool.eraseP_ptr hx]
      rfl
    refine .inr ⟨(), _, hrun, rfl, h.reqs_eq, fun z hz => ?_, F', s', pages', freed', hinv', ?_⟩
    · exact (List.mem_erase_of_ne fun heq : z = x => hused (heq ▸ hz)).2 (h.untouched hz)
    · intro i hi hlt
      rcases Decidable.em (i = poolIndex x.size) with rfl | hne
      · exact hself hlt
      · rw [hF i hne]
        exact hstock i (hi.resolve_left hne) hlt

/-- At a block with a page that was never used, `kfree` halts. -/
theorem kfree_halts (hx : x ∈ v.untouched) (hlarge : pageSize < x.size + headerSize) :
    Hoare (Holds B v) (kfree x.ptr) (fun _ _ => False) (· = .inl (.notAvailable 0)) := by
  intro s h
  rcases h.inv with ⟨F, flat, pages, freed, hinv, -⟩
  have hhalt := hinv.kfree_restPages B.mapped B.static (h.untouched hx) (fun n hn => ⟨x, hx, hn⟩) (Live.mem_restPages hlarge)
  exact .inl ⟨_, by rw [kfree, hhalt]; rfl, rfl⟩

/-- A byte of a range that is used is in a block, and none of the pages that were never used has it. -/
theorem Holds.byte {a n b : Nat} {A : Set Nat} {F : Nat → List Nat} {flat : Flat} {hs : HeapState}
    (hinv : PagedInv B.all B.M B.root B.pools B.m₀ A F v.live v.data flat hs) (hunt : v.untouched ⊆ v.live)
    (h : v.Has full a n) (hb : InRange a n b) : ∃ y ∈ v.live, InRange y.ptr y.size b ∧
      (full ∨ poolIndex y.size < blockSizesLen) ∧
        {n | ∃ z ∈ v.untouched, n ∈ z.restPages} ⊆ {n | ∃ z ∈ v.untouched, n ∈ z.restPages} \ {b / pageSize} := by
  rcases h with ⟨y, hy, hused, hpool, hlower, hupper⟩
  have hin := hb.mono hlower hupper
  refine ⟨y, hy, hin, hpool, ?_⟩
  rintro n ⟨z, hz, hn⟩
  refine ⟨⟨z, hz, hn⟩, ?_⟩
  rintro rfl
  exact hinv.notMem_restPages hy (hunt hz) (fun heq => hused (heq ▸ hz)) hin hn

/-- A write of a byte. -/
theorem writeByte_spec {b : Nat} (hb : v.Has full b 1) (c : UInt8) : Hoare (Holds B v) (writeByte b c)
    (fun _ => Holds B (v.write b 1 fun _ => c)) (IfFull full) := by
  intro s h
  rcases h.inv with ⟨F, flat, pages, freed, hinv, hstock⟩
  rcases Holds.byte hinv h.untouched hb ⟨Nat.le_refl b, Nat.lt_succ_self b⟩ with ⟨y, hy, hin, hpool, hpages⟩
  have hlock (e : Stop) (hfull : full → e = .outOfMemory) :=
    hinv.storeByte B.mapped B.static hy hin c (hpool.symm.imp id hfull)
  rcases Lockstep.upTo (show Stop.outOfMemory ≠ .notAvailable 0 by decide) hlock with
    ⟨hfull, herr⟩ | ⟨k', s', hk, -, -, hinv'⟩
  · have hrun : writeByte b c s = .error (.inl .outOfMemory) := by
      have hstore : (PagedBytes.storeByte b c s.heap : Except Stop Kernel) = .error .outOfMemory := herr
      rw [writeByte, access, hstore]
      rfl
    exact .inl ⟨_, hrun, hfull, rfl⟩
  · have hrun : writeByte b c s = .ok ((), { s with heap := k' }) := by
      have hstore : (PagedBytes.storeByte b c s.heap : Except Stop Kernel) = .ok k' := hk
      rw [writeByte, access, hstore]
      rfl
    have hdata : (v.write b 1 fun _ => c).data = Function.update v.data b (some c) := by
      funext d
      rcases Decidable.em (d = b) with rfl | hne
      · rw [Function.update_self]
        exact if_pos ⟨Nat.le_refl d, Nat.lt_succ_self d⟩
      · rw [Function.update_of_ne hne]
        exact if_neg fun hd => hne (Nat.le_antisymm (Nat.le_of_lt_succ hd.2) hd.1)
    refine .inr ⟨(), _, hrun, h.live_eq, h.reqs_eq, h.untouched, F, s', pages, freed, ?_, hstock⟩
    rw [hdata]
    exact hinv'.mono_pages hpages

/-- A read of a byte. -/
theorem readByte_spec {b : Nat} (hb : v.Has full b 1) : Hoare (Holds B v) (readByte b)
    (fun c s => (∀ d, v.data b = some d → c = d) ∧ Holds B v s) (IfFull full) := by
  intro s h
  rcases h.inv with ⟨F, flat, pages, freed, hinv, hstock⟩
  rcases Holds.byte hinv h.untouched hb ⟨Nat.le_refl b, Nat.lt_succ_self b⟩ with ⟨y, hy, hin, hpool, hpages⟩
  have hlock (e : Stop) (hfull : full → e = .outOfMemory) :=
    hinv.read B.mapped B.static hy hin (hpool.symm.imp id hfull)
  rcases Lockstep.upTo (show Stop.outOfMemory ≠ .notAvailable 0 by decide) hlock with
    ⟨hfull, herr⟩ | ⟨⟨c, k'⟩, q, hk, -, -, hval, hinv'⟩
  · have hrun : readByte b s = .error (.inl .outOfMemory) := by
      have hload : (PagedBytes.loadByte b s.heap : Except Stop (UInt8 × Kernel)) = .error .outOfMemory := herr
      rw [readByte, access, hload]
      rfl
    exact .inl ⟨_, hrun, hfull, rfl⟩
  · have hrun : readByte b s = .ok (c, { s with heap := k' }) := by
      have hload : (PagedBytes.loadByte b s.heap : Except Stop (UInt8 × Kernel)) = .ok (c, k') := hk
      rw [readByte, access, hload]
      rfl
    exact .inr ⟨c, _, hrun, fun d hd => (hval d hd).1, h.live_eq, h.reqs_eq, h.untouched, F, _, pages, freed,
      hinv'.mono_pages hpages, hstock⟩

/-- The bytes of a buffer are written. -/
theorem writeBytes_spec {a : Nat} (src : Mem) (n : Nat) (ha : v.Has full a n) : Hoare (Holds B v) (writeBytes a src n)
    (fun _ => Holds B (v.write a n src)) (IfFull full) := by
  induction n with
  | zero => exact .pure _ fun _ h => by rwa [FsView.write_zero]
  | succ n ih =>
    refine (ih (ha.mono (Nat.le_refl a) (Nat.add_le_add_left (Nat.le_succ n) a))).bind fun _ => ?_
    have hlast : (v.write a n src).Has full (a + n) 1 := ha.mono (Nat.le_add_right a n) (Nat.le_refl _)
    have hsplit : (v.write a n src).write (a + n) 1 (fun _ => src n) = v.write a (n + 1) src :=
      FsView.write_append fun j hj => by rw [Nat.lt_one_iff.1 hj, Nat.add_zero]
    exact hsplit ▸ writeByte_spec hlast (src n)

/-- What a read of `n` bytes gives: what was written there, as far as it is known, and nothing behind. -/
structure ReadsAs (v : FsView) (a n : Nat) (bytes : Mem) : Prop where
  known : ∀ src, v.Contains a n src → ∀ j < n, bytes j = src j
  rest : ∀ j, n ≤ j → bytes j = 0

/-- The bytes of a buffer are read. -/
theorem readBytes_spec {a : Nat} (n : Nat) (ha : v.Has full a n) : Hoare (Holds B v) (readBytes a n)
    (fun bytes s => ReadsAs v a n bytes ∧ Holds B v s) (IfFull full) := by
  induction n with
  | zero => exact .pure _ fun _ h => ⟨⟨fun _ _ j hj => absurd hj (Nat.not_lt_zero j), fun _ _ => rfl⟩, h⟩
  | succ n ih =>
    refine (ih (ha.mono (Nat.le_refl a) (Nat.add_le_add_left (Nat.le_succ n) a))).bind_of fun bytes hbytes => ?_
    refine (readByte_spec (ha.mono (Nat.le_add_right a n) (Nat.le_refl _))).bind_of fun c hc => .pure _ fun s h => ⟨?_, h⟩
    refine ⟨fun src hsrc j hj => ?_, fun j hj => ?_⟩
    · rcases Nat.lt_succ_iff_lt_or_eq.1 hj with hlt | rfl
      · rw [Function.update_of_ne hlt.ne]
        exact hbytes.known src (fun i hi => hsrc i (hi.trans (Nat.lt_succ_self n))) j hlt
      · rw [Function.update_self]
        exact hc _ (hsrc j hj)
    · rw [Function.update_of_ne (Nat.ne_of_gt hj)]
      exact hbytes.rest j (Nat.le_of_succ_le hj)

/-- `memcpy` between ranges that do not overlap. -/
theorem memcpy_spec {dst a : Nat} (src : Mem) (n : Nat) (hdst : v.Has full dst n) (ha : v.Has full a n)
    (hsrc : v.Contains a n src) (hap : ∀ b, InRange a n b → ¬ InRange dst n b) : Hoare (Holds B v) (memcpy dst a n)
    (fun _ => Holds B (v.write dst n src)) (IfFull full) := by
  induction n with
  | zero => exact .pure _ fun _ h => by rwa [FsView.write_zero]
  | succ n ih =>
    have hle (a : Nat) : a + n ≤ a + (n + 1) := Nat.add_le_add_left (Nat.le_succ n) a
    have hself (a : Nat) : InRange a (n + 1) (a + n) := ⟨Nat.le_add_right a n, Nat.lt_succ_self _⟩
    refine (ih (hdst.mono (Nat.le_refl dst) (hle dst)) (ha.mono (Nat.le_refl a) (hle a))
      (fun j hj => hsrc j (hj.trans (Nat.lt_succ_self n)))
      fun b hb hb' => hap b (hb.mono (Nat.le_refl a) (hle a)) (hb'.mono (Nat.le_refl dst) (hle dst))).bind fun _ => ?_
    have hbyte : (v.write dst n src).data (a + n) = some (src n) := by
      rw [FsView.write_of_not_mem fun hb => hap _ (hself a) (hb.mono (Nat.le_refl dst) (hle dst))]
      exact hsrc n (Nat.lt_succ_self n)
    have hread : (v.write dst n src).Has full (a + n) 1 := ha.mono (Nat.le_add_right a n) (Nat.le_refl _)
    have hwrite : (v.write dst n src).Has full (dst + n) 1 := hdst.mono (Nat.le_add_right dst n) (Nat.le_refl _)
    refine (readByte_spec hread).bind_of fun c hc => ?_
    obtain rfl := hc _ hbyte
    have hsplit : (v.write dst n src).write (dst + n) 1 (fun _ => src n) = v.write dst (n + 1) src :=
      FsView.write_append fun j hj => by rw [Nat.lt_one_iff.1 hj, Nat.add_zero]
    exact hsplit ▸ writeByte_spec hwrite (src n)

/-- A pointer in a buffer whose contents are known. -/
theorem pointerAt_spec {block size k : Nat} {src : Mem} (hblock : v.Has full block size) (hk : 4 * k + 4 ≤ size)
    (hsrc : v.Contains block size src) : Hoare (Holds B v) (pointerAt block k)
    (fun p s => p = BanjOS.pointerAt src k ∧ Holds B v s) (IfFull full) := by
  refine (readBytes_spec 4 (hblock.mono (Nat.le_add_right _ _) (by omega))).bind_of fun bytes hbytes => ?_
  refine .pure _ fun s h => ⟨loadLE_shift fun i hi => ?_, h⟩
  rw [Nat.zero_add]
  refine hbytes.known (fun j => src (4 * k + j)) (fun j hj => ?_) i hi
  rw [Nat.add_assoc]
  exact hsrc _ (by omega)

/-! ## Sectors and blocks -/

theorem ataReqQueue_spec (req : Nat) {E : Stop ⊕ CpuFault → Prop} :
    Hoare (Holds B v) (ataReqQueue req) (fun _ => Holds B (v.queue (v.reqs ++ [req]))) E :=
  fun _ h => .inr ⟨(), _, rfl, h.live_eq, congrArg (· ++ [req]) h.reqs_eq, h.untouched, h.inv⟩

theorem ataReqUnqueue_spec {req : Nat} {reqs : List Nat} (hreqs : v.reqs = req :: reqs) {E : Stop ⊕ CpuFault → Prop} :
    Hoare (Holds B v) ataReqUnqueue (fun p s => p = req ∧ Holds B (v.queue reqs) s) E := by
  intro s h
  have hs := h.reqs_eq.trans hreqs
  exact .inr ⟨_, _, rfl, congrArg (List.headD · 0) hs, h.live_eq, congrArg List.tail hs, h.untouched, h.inv⟩

/-- A sector is read and the request given back, when no other request is under way. -/
theorem ata48ReadBlock_spec {dev : BlockDevice} (heven : 2 ∣ dev.blkSize) {blkNum dst : Nat} {sector : Mem}
    (hsector : dev.readBlock blkNum = some sector) (hreqs : v.reqs = []) (hdst : v.Has full dst dev.blkSize)
    (he : full ∨ 1 ∈ v.stock) : Hoare (Holds B v) (ata48ReadBlock B.pools dev blkNum dst)
      (fun ok s => ok = true ∧ Holds B (v.write dst dev.blkSize sector) s) (IfFull full) := by
  refine Hoare.of_pre (fun _ h => h.covered) fun hcov => Hoare.of_pre (fun _ h => h.untouched) fun hunt => ?_
  rw [ata48ReadBlock, hsector, Nat.mul_div_cancel' heven]
  refine (kmalloc_spec (show 24 + 4112 < 2 ^ 31 by decide) (he.imp id fun h => ⟨by decide, h⟩)).bind_of fun req hfresh => ?_
  have h₁ := (FsView.Above.refl hcov).malloc hfresh
  have hreq := h₁.hasScratch hunt (.head _) (show full ∨ poolIndex 24 < blockSizesLen from .inr (by decide))
  refine (writeBytes_spec _ 24 hreq).bind fun _ => (ataReqQueue_spec req).bind fun _ => ?_
  have h₂ := (h₁.writeScratch (.head _) (Nat.le_refl req) (Nat.le_refl _) (ataRequest blkNum)).queue (v.reqs ++ [req])
  refine Hoare.bind (writeBytes_spec sector _ (h₂.has hdst)) fun _ => ?_
  have h₃ := h₂.write hdst sector
  refine (ataReqUnqueue_spec (congrArg (· ++ [req]) hreqs)).bind_eq ?_
  have h₄ := h₃.queue []
  refine (kfree_spec (h₄.mem_live_scratch (.head _)) (h₄.not_untouched hunt (.head _)) (FsView.filled_of_le ?_)).bind
    fun _ => .pure _ fun s h => ⟨rfl, h.mono ((h₄.free (.head _) (List.erase_cons_head _ _)).le hreqs.symm)⟩
  exact show 24 + headerSize ≤ pageSize by decide

section
variable {vsb : Ext2VfsSuperBlock} (hdev : vsb.OnDrive) (sectorNum dst : Nat)

/-- One sector after another. -/
theorem write_sectors (v : FsView) (i n : Nat) :
    (v.write (dst + vsb.dev.blkSize * i) vsb.dev.blkSize fun j => sectorsFrom vsb sectorNum (vsb.dev.blkSize * i + j)).write
      (dst + vsb.dev.blkSize * (i + 1)) (vsb.dev.blkSize * n)
        (fun j => sectorsFrom vsb sectorNum (vsb.dev.blkSize * (i + 1) + j)) =
      v.write (dst + vsb.dev.blkSize * i) (vsb.dev.blkSize * (n + 1)) fun j =>
        sectorsFrom vsb sectorNum (vsb.dev.blkSize * i + j) := by
  rw [Nat.mul_succ, ← Nat.add_assoc, FsView.write_append fun j _ => by rw [Nat.add_assoc], Nat.mul_succ,
    Nat.add_comm vsb.dev.blkSize]

/-- The place of the next sector, and that of the ones after it. -/
theorem has_sectors {i n : Nat} (hdst : v.Has full (dst + vsb.dev.blkSize * i) (vsb.dev.blkSize * (n + 1))) :
    v.Has full (dst + vsb.dev.blkSize * i) vsb.dev.blkSize ∧
      v.Has full (dst + vsb.dev.blkSize * (i + 1)) (vsb.dev.blkSize * n) := by
  have hsucc (k : Nat) : vsb.dev.blkSize * (k + 1) = vsb.dev.blkSize * k + vsb.dev.blkSize := Nat.mul_succ _ k
  rw [hsucc n] at hdst
  exact ⟨hdst.mono (Nat.le_refl _) (by omega), hdst.mono (by rw [hsucc i]; omega) (by rw [hsucc i]; omega)⟩

include hdev

/-- A sector of the partition is read to its place in a buffer. -/
theorem mbrReadBlock_spec (i : Nat) (hreqs : v.reqs = [])
    (hdst : v.Has full (dst + vsb.dev.blkSize * i) vsb.dev.blkSize) (he : full ∨ 1 ∈ v.stock) :
    Hoare (Holds B v) (mbrReadBlock B.pools vsb (sectorNum + i) (dst + vsb.dev.blkSize * i)) (fun ok s => ok = true ∧
      Holds B (v.write (dst + vsb.dev.blkSize * i) vsb.dev.blkSize fun j =>
        sectorsFrom vsb sectorNum (vsb.dev.blkSize * i + j)) s) (IfFull full) := by
  rcases Option.isSome_iff_exists.1 (hdev.isSome (sectorNum + i)) with ⟨sector, hsector⟩
  rw [v.write_congr _ fun j hj => sectorsFrom_eq hj hsector]
  exact ata48ReadBlock_spec hdev.even hsector hreqs hdst he

/-- The loop of `ext2_read_block`. -/
theorem readSectors_spec (i n : Nat) {v : FsView} (hreqs : v.reqs = [])
    (hdst : v.Has full (dst + vsb.dev.blkSize * i) (vsb.dev.blkSize * n)) (he : full ∨ 1 ∈ v.stock) :
    Hoare (Holds B v) (readSectors B.pools vsb sectorNum dst i n) (fun _ => Holds B (v.write (dst + vsb.dev.blkSize * i)
      (vsb.dev.blkSize * n) fun j => sectorsFrom vsb sectorNum (vsb.dev.blkSize * i + j))) (IfFull full) := by
  induction n generalizing i v with
  | zero => exact .pure _ fun _ h => by rwa [Nat.mul_zero, FsView.write_zero]
  | succ n ih =>
    rcases has_sectors dst hdst with ⟨hfirst, hrest⟩
    rw [readSectors, ← write_sectors]
    exact (mbrReadBlock_spec hdev sectorNum dst i hreqs hfirst he).bind_eq (ih (i + 1) hreqs hrest he)

/-- The loop of `read_inode`. -/
theorem loadSectors_spec (i n : Nat) {v : FsView} (hreqs : v.reqs = [])
    (hdst : v.Has full (dst + vsb.dev.blkSize * i) (vsb.dev.blkSize * n)) (he : full ∨ 1 ∈ v.stock) :
    Hoare (Holds B v) (loadSectors B.pools vsb sectorNum dst i n) (fun _ => Holds B (v.write (dst + vsb.dev.blkSize * i)
      (vsb.dev.blkSize * n) fun j => sectorsFrom vsb sectorNum (vsb.dev.blkSize * i + j))) (IfFull full) := by
  induction n generalizing i v with
  | zero => exact .pure _ fun _ h => by rwa [Nat.mul_zero, FsView.write_zero]
  | succ n ih =>
    rcases has_sectors dst hdst with ⟨hfirst, hrest⟩
    rw [loadSectors, ← write_sectors]
    exact (mbrReadBlock_spec hdev sectorNum dst i hreqs hfirst he).bind_eq (ih (i + 1) hreqs hrest he)

/-- A block of the disk is read into a buffer. -/
theorem ext2ReadBlock_spec (blockNum : Nat) (hreqs : v.reqs = []) (hdst : v.Has full dst vsb.blockSize)
    (he : full ∨ 1 ∈ v.stock) : Hoare (Holds B v) (ext2ReadBlock B.pools vsb blockNum dst)
      (fun _ => Holds B (v.write dst vsb.blockSize (diskBlock vsb blockNum))) (IfFull full) := by
  have hlen := Nat.mul_div_cancel' hdev.dvd
  have hspec := readSectors_spec (B := B) hdev (blockNum * (vsb.blockSize / vsb.dev.blkSize)) dst 0
    (vsb.blockSize / vsb.dev.blkSize) hreqs (by rwa [hlen, Nat.mul_zero, Nat.add_zero]) he
  simp only [Nat.mul_zero, Nat.add_zero, Nat.zero_add, hlen] at hspec
  exact hspec

end

/-! ## Blocks of a file -/

/-- The indices that the last branch of `read_inode_block` is for. -/
def TriplyIndirect (blockSize block : Nat) : Prop :=
  let numIndirectPer := blockSize / 4
  12 + numIndirectPer + numIndirectPer * numIndirectPer ≤ block ∧
    block - 12 - numIndirectPer - numIndirectPer * numIndirectPer <
      numIndirectPer * numIndirectPer * numIndirectPer % 2 ^ 64

/-- The disk block that is read for a triply indirect one. -/
def triplySource (vsb : Ext2VfsSuperBlock) (extIn : Ext2Inode) (block : Nat) : Nat :=
  let numIndirectPer := vsb.blockSize / 4
  BanjOS.pointerAt (diskBlock vsb extIn.doublyIndirectBlock)
    ((block - 12 - numIndirectPer - numIndirectPer * numIndirectPer) % (numIndirectPer * numIndirectPer) % numIndirectPer)

section
variable {vsb : Ext2VfsSuperBlock} (hdev : vsb.OnDrive) {X Y : List Live}

/-- A scratch block is allocated. -/
theorem mallocScratch_spec (hA : FsView.Above X v w) {size : Nat} (hsmall : size + 4112 < 2 ^ 31)
    (he : full ∨ poolIndex size < blockSizesLen ∧ poolIndex size ∈ w.stock) :
    Hoare (Holds B w) (kmalloc B.pools size) (fun a s => (w.Fresh ⟨a, size⟩ ∧
      FsView.Above (⟨a, size⟩ :: X) v (w.malloc ⟨a, size⟩)) ∧ Holds B (w.malloc ⟨a, size⟩) s) (IfFull full) :=
  (kmalloc_spec hsmall he).weaken (fun _ h => h) fun _ _ h => ⟨⟨h.1, hA.malloc h.1⟩, h.2⟩

/-- A scratch block is freed. -/
theorem freeScratch_spec (hA : FsView.Above X v w) (hunt : v.untouched ⊆ v.live) (hx : x ∈ X) (hY : X.erase x = Y)
    (hw : w.Filled x) {E : Stop ⊕ CpuFault → Prop} : Hoare (Holds B w) (kfree x.ptr)
      (fun _ s => FsView.Above Y v (w.free x) ∧ Holds B (w.free x) s) E :=
  (kfree_spec (hA.mem_live_scratch hx) (hA.not_untouched hunt hx) hw).weaken (fun _ h => h) fun _ _ h => ⟨hA.free hx hY, h⟩

include hdev

/-- A block of the disk is read into a scratch block. -/
theorem loadScratch_spec (hA : FsView.Above X v w) (hunt : v.untouched ⊆ v.live) {a : Nat}
    (hx : (⟨a, vsb.blockSize⟩ : Live) ∈ X) (hpool : full ∨ poolIndex vsb.blockSize < blockSizesLen) (hreqs : w.reqs = [])
    (he : full ∨ 1 ∈ w.stock) (p : Nat) : Hoare (Holds B w) (ext2ReadBlock B.pools vsb p a)
      (fun _ s => (FsView.Above X v (w.write a vsb.blockSize (diskBlock vsb p)) ∧
        (w.write a vsb.blockSize (diskBlock vsb p)).Contains a vsb.blockSize (diskBlock vsb p)) ∧
          Holds B (w.write a vsb.blockSize (diskBlock vsb p)) s) (IfFull full) :=
  (ext2ReadBlock_spec hdev a p hreqs (hA.hasScratch hunt hx hpool) he).weaken (fun _ h => h) fun _ _ h =>
    ⟨⟨hA.writeScratch hx (Nat.le_refl a) (Nat.le_refl _) _, FsView.contains_write _ _ _ _⟩, h⟩

/-- The same for the loop of `read_inode`. -/
theorem loadScratchSectors_spec (hA : FsView.Above X v w) (hunt : v.untouched ⊆ v.live) {a : Nat}
    (hx : (⟨a, vsb.blockSize⟩ : Live) ∈ X) (hpool : full ∨ poolIndex vsb.blockSize < blockSizesLen) (hreqs : w.reqs = [])
    (he : full ∨ 1 ∈ w.stock) (sectorNum : Nat) :
    Hoare (Holds B w) (loadSectors B.pools vsb sectorNum a 0 (vsb.blockSize / vsb.dev.blkSize))
      (fun _ s => (FsView.Above X v (w.write a vsb.blockSize (sectorsFrom vsb sectorNum)) ∧
        (w.write a vsb.blockSize (sectorsFrom vsb sectorNum)).Contains a vsb.blockSize (sectorsFrom vsb sectorNum)) ∧
          Holds B (w.write a vsb.blockSize (sectorsFrom vsb sectorNum)) s) (IfFull full) := by
  have hlen := Nat.mul_div_cancel' hdev.dvd
  have hspec := loadSectors_spec (B := B) hdev sectorNum a 0 (vsb.blockSize / vsb.dev.blkSize) hreqs
    (by rw [hlen, Nat.mul_zero, Nat.add_zero]; exact hA.hasScratch hunt hx hpool) he
  simp only [Nat.mul_zero, Nat.add_zero, Nat.zero_add, hlen] at hspec
  exact hspec.weaken (fun _ h => h) fun _ _ h =>
    ⟨⟨hA.writeScratch hx (Nat.le_refl a) (Nat.le_refl _) _, FsView.contains_write _ _ _ _⟩, h⟩

/-- A block of the disk is read into the buffer of the caller. -/
theorem loadDst_spec (hA : FsView.Above X v w) {dst : Nat} (hdst : v.Has full dst vsb.blockSize) (hreqs : w.reqs = [])
    (he : full ∨ 1 ∈ w.stock) (p : Nat) : Hoare (Holds B w) (ext2ReadBlock B.pools vsb p dst)
      (fun _ s => FsView.Above X (v.write dst vsb.blockSize (diskBlock vsb p)) (w.write dst vsb.blockSize (diskBlock vsb p)) ∧
        Holds B (w.write dst vsb.blockSize (diskBlock vsb p)) s) (IfFull full) :=
  (ext2ReadBlock_spec hdev dst p hreqs (hA.has hdst) he).weaken (fun _ h => h) fun _ _ h => ⟨hA.write hdst _, h⟩

variable {extIn : Ext2Inode} {block dst : Nat} (hreqs : v.reqs = []) (hdst : v.Has full dst vsb.blockSize)
  (hsmall : vsb.blockSize + 4112 < 2 ^ 31)
include hreqs hdst

/-- A direct block. -/
theorem readInodeBlock_direct_spec (he : full ∨ 1 ∈ v.stock) (h : block < 12) :
    Hoare (Holds B v) (readInodeBlock B.pools vsb extIn block dst)
      (fun _ => Holds B (v.write dst vsb.blockSize (diskBlock vsb (extIn.directBlocks ⟨block, h⟩)))) (IfFull full) := by
  rw [readInodeBlock]
  dsimp only
  rw [dif_pos h]
  exact (ext2ReadBlock_spec hdev dst _ hreqs hdst he).bind fun _ => .pure _ fun _ h => h

include hsmall

/-- A singly indirect block. -/
theorem readInodeBlock_singly_spec (he : full ∨ 1 ∈ v.stock \ {poolIndex vsb.blockSize} ∧
      poolIndex vsb.blockSize < blockSizesLen ∧ poolIndex vsb.blockSize ∈ v.stock)
    (h₁ : 12 ≤ block) (h₂ : block - 12 < vsb.blockSize / 4) :
    Hoare (Holds B v) (readInodeBlock B.pools vsb extIn block dst) (fun _ => Holds B (v.write dst vsb.blockSize
      (diskBlock vsb (BanjOS.pointerAt (diskBlock vsb extIn.singlyIndirectBlock) (block - 12))))) (IfFull full) := by
  refine Hoare.of_pre (fun _ h => h.covered) fun hcov => Hoare.of_pre (fun _ h => h.untouched) fun hunt => ?_
  rw [readInodeBlock]
  dsimp only
  rw [dif_neg (Nat.not_lt.2 h₁), if_pos h₂]
  have hpool := he.imp_right fun h => h.2.1
  have hstock := he.imp_right And.left
  have hk : 4 * (block - 12) + 4 ≤ vsb.blockSize := by omega
  refine Hoare.bind_and (mallocScratch_spec (.refl hcov) hsmall (he.imp_right And.right)) fun a ha hA => ?_
  refine Hoare.bind_and (loadScratch_spec hdev hA hunt (.head _) hpool hreqs hstock _) fun _ hA hca => ?_
  refine Hoare.bind_eq (pointerAt_spec (hA.hasScratch hunt (.head _) hpool) hk hca) ?_
  refine Hoare.bind_of (loadDst_spec hdev hA hdst hreqs hstock _) fun _ hA => ?_
  exact (freeScratch_spec hA hunt (.head _) (List.erase_cons_head _ _) (hca.write (hdst.apart ha)).filled).weaken
    (fun _ h => h) fun _ s h => h.2.mono (h.1.le rfl)

omit hdev hreqs hdst in
/-- The number of pointers in two levels of blocks does not wrap. -/
theorem numDoubly_eq : vsb.blockSize / 4 * (vsb.blockSize / 4) % 2 ^ 64 = vsb.blockSize / 4 * (vsb.blockSize / 4) := by
  have hle : vsb.blockSize / 4 ≤ 2 ^ 29 := by omega
  exact Nat.mod_eq_of_lt ((Nat.mul_le_mul hle hle).trans_lt (by decide))

omit hdev hreqs hdst hsmall in
/-- A pointer of a block is in it. -/
theorem pointer_le {k : Nat} (hk : k < vsb.blockSize / 4) : 4 * k + 4 ≤ vsb.blockSize := by omega

/-- A doubly indirect block. -/
theorem readInodeBlock_doubly_spec (hfull : full) (h₁ : 12 + vsb.blockSize / 4 ≤ block)
    (h₂ : block - 12 - vsb.blockSize / 4 < vsb.blockSize / 4 * (vsb.blockSize / 4)) :
    Hoare (Holds B v) (readInodeBlock B.pools vsb extIn block dst) (fun _ => Holds B (v.write dst vsb.blockSize
      (diskBlock vsb (BanjOS.pointerAt (diskBlock vsb extIn.singlyIndirectBlock)
        ((block - 12 - vsb.blockSize / 4) % (vsb.blockSize / 4)))))) (IfFull full) := by
  refine Hoare.of_pre (fun _ h => h.covered) fun hcov => Hoare.of_pre (fun _ h => h.untouched) fun hunt => ?_
  rw [readInodeBlock]
  dsimp only
  rw [dif_neg (by omega), if_neg (by omega), numDoubly_eq hsmall, if_pos h₂]
  -- the two indices are below the number of pointers in a block
  have hn : 0 < vsb.blockSize / 4 := Nat.pos_of_ne_zero fun h0 => by rw [h0] at h₂; omega
  have hk₁ : 4 * ((block - 12 - vsb.blockSize / 4) / (vsb.blockSize / 4)) + 4 ≤ vsb.blockSize :=
    pointer_le (Nat.div_lt_of_lt_mul h₂)
  have hk₂ : 4 * ((block - 12 - vsb.blockSize / 4) % (vsb.blockSize / 4)) + 4 ≤ vsb.blockSize :=
    pointer_le (Nat.mod_lt _ hn)
  refine Hoare.bind_and (mallocScratch_spec (.refl hcov) hsmall (.inl hfull)) fun a ha hA => ?_
  refine Hoare.bind_and (loadScratch_spec hdev hA hunt (.head _) (.inl hfull) hreqs (.inl hfull) _) fun _ hA hca => ?_
  have hdst₁ := hA.has hdst
  refine Hoare.bind_and (mallocScratch_spec hA hsmall (.inl hfull)) fun b hb hA => ?_
  have hab (d : Nat) (hd : InRange a vsb.blockSize d) : ¬ InRange b vsb.blockSize d := hb.not_inRange ⟨_, .head _, hd⟩
  refine Hoare.bind_eq (pointerAt_spec (hA.hasScratch hunt (.tail _ (.head _)) (.inl hfull)) hk₁ hca) ?_
  refine Hoare.bind_and (loadScratch_spec hdev hA hunt (.head _) (.inl hfull) hreqs (.inl hfull) _) fun _ hA hcb => ?_
  refine Hoare.bind_eq (pointerAt_spec (hA.hasScratch hunt (.tail _ (.head _)) (.inl hfull)) hk₂ (hca.write hab)) ?_
  refine Hoare.bind_of (loadDst_spec hdev hA hdst hreqs (.inl hfull) _) fun _ hA => ?_
  refine Hoare.bind_of (freeScratch_spec hA hunt (.tail _ (.head _)) (FsView.erase_snd _ _ _)
    ((hca.write hab).write (hdst.apart ha)).filled) fun _ hA => ?_
  exact (freeScratch_spec hA hunt (.head _) (List.erase_cons_head _ _)
    ((hcb.write (hdst₁.apart hb)).free fun d hd hda => hab d hda hd).filled).weaken
      (fun _ h => h) fun _ s h => h.2.mono (h.1.le rfl)

omit hdev hreqs hdst hsmall in
/-- The pointers that are read for a triply indirect block are in their blocks. -/
theorem triply_pointers_le {n off : Nat} (hn : n = vsb.blockSize / 4) (hoff : off < n * n * n) :
    4 * (off / (n * n)) + 4 ≤ vsb.blockSize ∧ 4 * (off % (n * n) / n) + 4 ≤ vsb.blockSize ∧
      4 * (off % (n * n) % n) + 4 ≤ vsb.blockSize := by
  have hpos : 0 < n := Nat.pos_of_ne_zero fun h0 => by rw [h0] at hoff; omega
  have hmod : off % (n * n) < n * n := Nat.mod_lt _ (Nat.mul_pos hpos hpos)
  subst hn
  exact ⟨pointer_le (Nat.div_lt_of_lt_mul hoff), pointer_le (Nat.div_lt_of_lt_mul hmod), pointer_le (Nat.mod_lt _ hpos)⟩

/-- A triply indirect block, when the scratch blocks are in one page. -/
theorem readInodeBlock_triply_spec (hfull : full) (hpage : vsb.blockSize + headerSize ≤ pageSize)
    (h : TriplyIndirect vsb.blockSize block) : Hoare (Holds B v) (readInodeBlock B.pools vsb extIn block dst)
      (fun _ => Holds B (v.write dst vsb.blockSize (diskBlock vsb (triplySource vsb extIn block)))) (IfFull full) := by
  refine Hoare.of_pre (fun _ h => h.covered) fun hcov => Hoare.of_pre (fun _ h => h.untouched) fun hunt => ?_
  rcases h with ⟨h₁, h₂⟩
  rw [readInodeBlock]
  dsimp only
  rw [dif_neg (by omega), if_neg (by omega), numDoubly_eq hsmall, if_neg (by omega), if_pos h₂]
  rcases triply_pointers_le rfl (h₂.trans_le (Nat.mod_le _ _)) with ⟨hk₁, hk₂, hk₃⟩
  refine Hoare.bind_and (mallocScratch_spec (.refl hcov) hsmall (.inl hfull)) fun a ha hA => ?_
  refine Hoare.bind_and (loadScratch_spec hdev hA hunt (.head _) (.inl hfull) hreqs (.inl hfull) _) fun _ hA hca => ?_
  have hdst₁ := hA.has hdst
  refine Hoare.bind_and (mallocScratch_spec hA hsmall (.inl hfull)) fun b hb hA => ?_
  have hab (d : Nat) (hd : InRange a vsb.blockSize d) : ¬ InRange b vsb.blockSize d := hb.not_inRange ⟨_, .head _, hd⟩
  refine Hoare.bind_eq (pointerAt_spec (hA.hasScratch hunt (.tail _ (.head _)) (.inl hfull)) hk₁ hca) ?_
  refine Hoare.bind_and (loadScratch_spec hdev hA hunt (.head _) (.inl hfull) hreqs (.inl hfull) _) fun _ hA hcb => ?_
  refine Hoare.bind_and (mallocScratch_spec hA hsmall (.inl hfull)) fun c hc hA => ?_
  have hne : (⟨c, vsb.blockSize⟩ : Live) ≠ ⟨a, vsb.blockSize⟩ := fun heq => hc.new (heq ▸ .tail _ (.head _))
  refine Hoare.bind_eq (pointerAt_spec (hA.hasScratch hunt (.tail _ (.head _)) (.inl hfull)) hk₂ hcb) ?_
  -- what is read over the pointers in `indirecter_block` is not used
  refine Hoare.bind_and (loadScratch_spec hdev hA hunt (.tail _ (.head _)) (.inl hfull) hreqs (.inl hfull) _)
    fun _ hA hcb => ?_
  refine Hoare.bind_eq (pointerAt_spec (hA.hasScratch hunt (.tail _ (.tail _ (.head _))) (.inl hfull)) hk₃
    ((hca.write hab).write hab)) ?_
  refine Hoare.bind_of (loadDst_spec hdev hA hdst hreqs (.inl hfull) _) fun _ hA => ?_
  refine Hoare.bind_of (freeScratch_spec hA hunt (.tail _ (.tail _ (.head _))) (FsView.erase_trd hne _ _)
    (FsView.filled_of_le hpage)) fun _ hA => ?_
  refine Hoare.bind_of (freeScratch_spec hA hunt (.tail _ (.head _)) (FsView.erase_snd _ _ _)
    (FsView.filled_of_le hpage)) fun _ hA => ?_
  exact (freeScratch_spec hA hunt (.head _) (List.erase_cons_head _ _) (FsView.filled_of_le hpage)).weaken
    (fun _ h => h) fun _ s h => h.2.mono (h.1.le rfl)

/-- A triply indirect block, when a scratch block has a second page: that of `indirecterer_block` was never used. -/
theorem readInodeBlock_halts (hfull : full) (hpage : pageSize < vsb.blockSize + headerSize)
    (h : TriplyIndirect vsb.blockSize block) : Hoare (Holds B v) (readInodeBlock B.pools vsb extIn block dst)
      (fun _ _ => False) fun e => IfFull full e ∨ e = .inl (.notAvailable 0) := by
  refine Hoare.of_pre (fun _ h => h.covered) fun hcov => Hoare.of_pre (fun _ h => h.untouched) fun hunt => ?_
  rcases h with ⟨h₁, h₂⟩
  rw [readInodeBlock]
  dsimp only
  rw [dif_neg (by omega), if_neg (by omega), numDoubly_eq hsmall, if_neg (by omega), if_pos h₂]
  rcases triply_pointers_le rfl (h₂.trans_le (Nat.mod_le _ _)) with ⟨hk₁, hk₂, hk₃⟩
  have hor {α : Type} {P : FsState Kernel → Prop} {Q : α → FsState Kernel → Prop} {x : FsM Kernel α}
      (h : Hoare P x Q (IfFull full)) : Hoare P x Q fun e => IfFull full e ∨ e = .inl (.notAvailable 0) :=
    h.allow fun _ => .inl
  refine Hoare.bind_and (hor (mallocScratch_spec (.refl hcov) hsmall (.inl hfull))) fun a ha hA => ?_
  refine Hoare.bind_and (hor (loadScratch_spec hdev hA hunt (.head _) (.inl hfull) hreqs (.inl hfull) _))
    fun _ hA hca => ?_
  have hdst₁ := hA.has hdst
  refine Hoare.bind_and (hor (mallocScratch_spec hA hsmall (.inl hfull))) fun b hb hA => ?_
  have hab (d : Nat) (hd : InRange a vsb.blockSize d) : ¬ InRange b vsb.blockSize d := hb.not_inRange ⟨_, .head _, hd⟩
  refine Hoare.bind_eq (hor (pointerAt_spec (hA.hasScratch hunt (.tail _ (.head _)) (.inl hfull)) hk₁ hca)) ?_
  refine Hoare.bind_and (hor (loadScratch_spec hdev hA hunt (.head _) (.inl hfull) hreqs (.inl hfull) _))
    fun _ hA hcb => ?_
  refine Hoare.bind_of (hor (kmalloc_reserve_spec hsmall (.inl hfull))) fun c hc => ?_
  have hba := (hA.hasScratch hunt (.tail _ (.head _)) (.inl hfull)).reserve hc
  have hbb := (hA.hasScratch hunt (.head _) (.inl hfull)).reserve hc
  refine Hoare.bind_eq (hor (pointerAt_spec hbb hk₂ hcb)) ?_
  refine Hoare.bind (hor (ext2ReadBlock_spec hdev b _ hreqs hbb (.inl hfull))) fun _ => ?_
  refine Hoare.bind_eq (hor (pointerAt_spec hba hk₃ ((hca.write hab).write hab))) ?_
  refine Hoare.bind (hor (ext2ReadBlock_spec hdev dst _ hreqs ((hA.has hdst).reserve hc) (.inl hfull))) fun _ => ?_
  have hbne : (⟨b, vsb.blockSize⟩ : Live) ≠ ⟨a, vsb.blockSize⟩ := fun heq => hb.new (heq ▸ .head _)
  have hmem {x : Live} (hx : x ∈ [(⟨b, vsb.blockSize⟩ : Live), ⟨a, vsb.blockSize⟩]) := hA.mem_live_scratch hx
  have hused {x : Live} (hx : x ∈ [(⟨b, vsb.blockSize⟩ : Live), ⟨a, vsb.blockSize⟩]) :=
    hc.notMem_reserve (hmem hx) (hA.not_untouched hunt hx)
  refine Hoare.bind (kfree_spec (x := ⟨a, vsb.blockSize⟩) ?_ ?_ ?_) fun _ => ?_
  · exact .tail _ (hmem (.tail _ (.head _)))
  · exact hused (.tail _ (.head _))
  · exact (((hca.write hab).write hab).write (hdst.apart ha)).filled
  refine Hoare.bind (kfree_spec (x := ⟨b, vsb.blockSize⟩) ?_ ?_ ?_) fun _ => ?_
  · exact (List.mem_erase_of_ne hbne).2 (.tail _ (hmem (.head _)))
  · exact hused (.head _)
  · exact (((FsView.contains_write _ _ _ _).write (hdst₁.apart hb)).free fun d hd hda => hab d hda hd).filled
  exact (kfree_halts (x := ⟨c, vsb.blockSize⟩) (.head _) hpage).allow fun _ => .inr

/-- Outside of the triply indirect blocks, or where the scratch blocks are in one page, `read_inode_block` returns with the
blocks that were in use, and `dst` is filled as without the heap. -/
theorem readInodeBlock_spec (hfull : full)
    (hgives : ¬ (pageSize < vsb.blockSize + headerSize ∧ TriplyIndirect vsb.blockSize block)) :
    Hoare (Holds B v) (readInodeBlock B.pools vsb extIn block dst) (fun _ s => ∃ w, Holds B w s ∧ w.live = v.live ∧
      ∀ fresh old, (vsb.blockSize / 4) ^ 3 < 2 ^ 64 → v.Contains dst vsb.blockSize old →
        w.Contains dst vsb.blockSize (BanjOS.readInodeBlock vsb extIn fresh block old)) (IfFull full) := by
  have hwrite {p : Nat} (hval : ∀ fresh old, (vsb.blockSize / 4) ^ 3 < 2 ^ 64 → ∀ j < vsb.blockSize, diskBlock vsb p j =
      BanjOS.readInodeBlock vsb extIn fresh block old j) (s : FsState Kernel)
      (h : Holds B (v.write dst vsb.blockSize (diskBlock vsb p)) s) : ∃ w, Holds B w s ∧ w.live = v.live ∧
        ∀ fresh old, (vsb.blockSize / 4) ^ 3 < 2 ^ 64 → v.Contains dst vsb.blockSize old →
          w.Contains dst vsb.blockSize (BanjOS.readInodeBlock vsb extIn fresh block old) :=
    ⟨_, h, rfl, fun fresh old hwrap _ => (FsView.contains_write _ _ _ _).congr (hval fresh old hwrap)⟩
  have hdev' := hdev.toReadable
  rcases Nat.lt_or_ge block 12 with hdirect | h₁
  · refine (readInodeBlock_direct_spec hdev hreqs hdst (.inl hfull) hdirect).weaken (fun _ h => h) fun _ =>
      hwrite fun fresh old _ j hj => ?_
    rw [BanjOS.readInodeBlock, dif_pos hdirect, ext2ReadBlock_apply hdev' _ _ hj]
  rcases Nat.lt_or_ge (block - 12) (vsb.blockSize / 4) with hsingly | h₂
  · refine (readInodeBlock_singly_spec hdev hreqs hdst hsmall (.inl hfull) h₁ hsingly).weaken (fun _ h => h) fun _ =>
      hwrite fun fresh old _ j hj => ?_
    rw [BanjOS.readInodeBlock, dif_neg (Nat.not_lt.2 h₁), if_pos hsingly, ext2ReadBlock_apply hdev' _ _ hj,
      pointerAt_ext2ReadBlock hdev' _ _ hsingly]
  rcases Nat.lt_or_ge (block - 12 - vsb.blockSize / 4) (vsb.blockSize / 4 * (vsb.blockSize / 4)) with hdoubly | h₃
  · refine (readInodeBlock_doubly_spec hdev hreqs hdst hsmall hfull (by omega) hdoubly).weaken (fun _ h => h) fun _ =>
      hwrite fun fresh old _ j hj => ?_
    rw [readInodeBlock_doubly hdev' (by omega) (by rw [Nat.pow_two]; omega) hj, Nat.sub_sub]
  have hmid : 12 + vsb.blockSize / 4 + vsb.blockSize / 4 * (vsb.blockSize / 4) ≤ block := by omega
  rcases Nat.lt_or_ge (block - 12 - vsb.blockSize / 4 - vsb.blockSize / 4 * (vsb.blockSize / 4))
    (vsb.blockSize / 4 * (vsb.blockSize / 4) * (vsb.blockSize / 4) % 2 ^ 64) with htriply | h₄
  · have hpage := Nat.le_of_not_lt fun hlt => hgives ⟨hlt, hmid, htriply⟩
    refine (readInodeBlock_triply_spec hdev hreqs hdst hsmall hfull hpage ⟨hmid, htriply⟩).weaken (fun _ h => h) fun _ =>
      hwrite fun fresh old hwrap j hj => ?_
    have hlt := htriply.trans_le (Nat.mod_le _ _)
    rw [readInodeBlock_triply hdev' (by rwa [Nat.pow_two]) (by rw [Nat.pow_succ _ 2, Nat.pow_two]; omega) hj, triplySource,
      Nat.mod_mod_of_dvd _ (Nat.dvd_mul_left _ _), Nat.sub_sub, Nat.sub_sub, ← Nat.add_assoc, Nat.pow_two]
  · rw [readInodeBlock]
    dsimp only
    rw [dif_neg (by omega), if_neg (by omega), numDoubly_eq hsmall, if_neg (by omega), if_neg (by omega)]
    refine .pure _ fun s h => ⟨v, h, rfl, fun fresh old hwrap hold => hold.congr fun j _ => ?_⟩
    rw [Nat.pow_succ _ 2, Nat.pow_two] at hwrap
    rw [Nat.mod_eq_of_lt hwrap] at h₄
    rw [BanjOS.readInodeBlock]
    dsimp only
    rw [dif_neg (by omega), if_neg (by omega), if_neg (by omega), if_neg (by omega)]

end

/-! ## Inodes -/

/-- A division by a number that is not zero. -/
theorem divides_spec {α : Type} {q : Except CpuFault α} {a : α} (hq : q = .ok a) {E : Stop ⊕ CpuFault → Prop} :
    Hoare (Holds B v) (divides q) (fun b s => b = a ∧ Holds B v s) E := by
  intro s h
  rw [hq]
  exact .inr ⟨a, s, rfl, rfl, h⟩

/-- The two objects that `read_inode` returns. -/
def ReadInode.blocks (res : ReadInode) : List Live := [⟨res.vin, 64⟩, ⟨res.extIn, 112⟩]

/-- Only the first bytes of the source are copied. -/
theorem copyTo_congr {dst src src' : Mem} {n : Nat} (h : ∀ j < n, src j = src' j) :
    copyTo dst 0 n src = copyTo dst 0 n src' := by
  funext j
  rw [copyTo, copyTo]
  split
  case isTrue hb => exact h _ (by have h₂ := hb.2; omega)
  case isFalse => rfl

/-- `ext2_vfs_inode_init` of an inode that was written. -/
theorem ext2VfsInodeInit_spec {e ino : Nat} {src : Mem} {vsb : Ext2VfsSuperBlock} (hfull : full)
    (hA : FsView.Above [⟨e, 112⟩] v w) (hunt : v.untouched ⊆ v.live) (hce : w.Contains e 112 src) :
    Hoare (Holds B w) (ext2VfsInodeInit B.pools e ino vsb) (fun res s =>
      res.inode = BanjOS.ext2VfsInodeInit (copyTo (fun _ => 0) 0 112 src) ino vsb ∧
        ∃ w, Holds B w s ∧ w.live = res.blocks ++ v.live) (IfFull full) := by
  refine Hoare.bind_and (mallocScratch_spec hA (show 64 + 4112 < 2 ^ 31 by decide) (.inl hfull)) fun vin hvin hA => ?_
  refine Hoare.bind_of (readBytes_spec 112 (hA.hasScratch hunt (.tail _ (.head _)) (.inl hfull))) fun bytes hbytes => ?_
  refine .pure _ fun s h => ⟨congrArg (BanjOS.ext2VfsInodeInit · ino vsb) (funext fun j => ?_), _, h, hA.live⟩
  rcases Nat.lt_or_ge j 112 with hlt | hge
  · rw [copyTo, if_pos ⟨Nat.zero_le j, by omega⟩]
    exact hbytes.known src hce j hlt
  · rw [copyTo, if_neg fun hb => absurd hb.2 (by omega)]
    exact hbytes.rest j hge

section
variable {m : Ext2Mount} {inodeNum : Nat} (hm : m.Geometry) (heven : 2 ∣ m.dev.blkSize)
include hm heven

/-- The bytes of an inode in its block. -/
theorem sectorsFrom_eq_loadSectors (sectorNum : Nat) {k : Nat} (hk : k < m.blockSize) :
    sectorsFrom m.toExt2VfsSuperBlock sectorNum k = BanjOS.loadSectors (BanjOS.mbrReadBlock m.toExt2VfsSuperBlock)
      m.dev.blkSize sectorNum 0 (m.blockSize / m.dev.blkSize) (fun _ => 0) k := by
  have hlt : k < m.dev.blkSize * (0 + m.blockSize / m.dev.blkSize) := by rwa [Nat.zero_add, hm.sectors.1]
  rw [loadSectors_apply (hm.onDrive heven).isSome _ _ _ _ hlt, if_neg (by simp)]
  rfl

/-- `read_inode` returns with the blocks that were in use and those of the inode, which is the one without the heap. -/
theorem readInode_spec (hfull : full) (hreqs : v.reqs = []) (hi : inodeNum < 2 ^ 64) :
    Hoare (Holds B v) (readInode B.pools m inodeNum) (fun res s =>
      BanjOS.readInode m (fun _ => 0) inodeNum = .ok (res.map ReadInode.inode) ∧
        ∃ w, Holds B w s ∧ w.live = res.elim [] ReadInode.blocks ++ v.live) (IfFull full) := by
  refine Hoare.of_pre (fun _ h => h.covered) fun hcov => Hoare.of_pre (fun _ h => h.untouched) fun hunt => ?_
  have hdev := hm.onDrive heven
  rcases hm.sectors with ⟨hlen, -, hpos⟩
  obtain ⟨group, hgroup⟩ : ∃ group, readInodeGroup m inodeNum = .ok group :=
    ⟨_, readInodeGroup_eq hm.numGroupInodes hi⟩
  rw [readInode, BanjOS.readInode, hgroup, Except.ok_bind]
  refine Hoare.bind_eq (divides_spec rfl) ?_
  cases group with
  | none => exact .pure _ fun s h => ⟨rfl, v, h, rfl⟩
  | some g =>
    dsimp only
    rw [readInodeAt, umod_of_pos hm.numGroupInodes, Except.ok_bind, udiv_of_pos hpos, Except.ok_bind,
      umod_of_pos hpos, Except.ok_bind, udiv_of_pos hm.blkSize_pos, Except.ok_bind]
    generalize hidx : (inodeNum + 2 ^ 64 - 1) % 2 ^ 64 % m.superBlock.numGroupInodes = idx
    have hoff := hm.inode_le idx
    refine Hoare.bind_eq (divides_spec (a := idx) (by rw [← hidx])) ?_
    refine Hoare.bind_eq (divides_spec (udiv_of_pos hpos)) (Hoare.bind_eq (divides_spec (umod_of_pos hpos)) ?_)
    refine Hoare.bind_eq (divides_spec rfl) ?_
    generalize idx * m.superBlock.inodeSize % m.blockSize = off at hoff
    generalize (startBlockAddrInodeTable m.grpTable g + idx * m.superBlock.inodeSize / m.blockSize) *
      (m.blockSize / m.dev.blkSize) % 2 ^ 64 = sectorNum
    refine Hoare.bind_and (mallocScratch_spec (.refl hcov) hm.blockSize_lt (.inl hfull)) fun a ha hA => ?_
    refine Hoare.bind_and (loadScratchSectors_spec hdev hA hunt (.head _) (.inl hfull) hreqs (.inl hfull) sectorNum)
      fun _ hA hca => ?_
    refine Hoare.bind_and (mallocScratch_spec hA (show 112 + 4112 < 2 ^ 31 by decide) (.inl hfull)) fun e he hA => ?_
    have hae (d : Nat) (hd : InRange a m.blockSize d) : ¬ InRange e 112 d := he.not_inRange ⟨_, .head _, hd⟩
    have hlast : a + off + 112 ≤ a + m.blockSize := by omega
    have hsrc : FsView.Contains _ (a + off) 112 fun j => sectorsFrom m.toExt2VfsSuperBlock sectorNum (off + j) :=
      fun j hj => (congrArg _ (Nat.add_assoc a off j)).trans (hca (off + j) (by omega))
    refine Hoare.bind (memcpy_spec _ 112 (hA.hasScratch hunt (.head _) (.inl hfull))
      ((hA.hasScratch hunt (.tail _ (.head _)) (.inl hfull)).mono (Nat.le_add_right a off) hlast) hsrc
      fun d hd => hae d (hd.mono (Nat.le_add_right a off) hlast)) fun _ => ?_
    have hA := hA.writeScratch (.head _) (Nat.le_refl e) (Nat.le_refl _)
      fun j => sectorsFrom m.toExt2VfsSuperBlock sectorNum (off + j)
    have hca := @FsView.Contains.write _ _ _ _ _ _ (fun j => sectorsFrom m.toExt2VfsSuperBlock sectorNum (off + j)) hca hae
    refine Hoare.bind_of (freeScratch_spec hA hunt (.tail _ (.head _)) (FsView.erase_snd _ _ _) hca.filled) fun _ hA => ?_
    refine (ext2VfsInodeInit_spec hfull hA hunt
      ((FsView.contains_write _ e 112 _).free fun d hd hda => hae d hda hd)).bind_of fun res hres => ?_
    refine .pure _ fun s h => ⟨congrArg (fun inode => Except.ok (some inode)) (Eq.trans ?_ hres.symm), h⟩
    refine congrArg (fun bytes => BanjOS.ext2VfsInodeInit bytes inodeNum m.toExt2VfsSuperBlock) (copyTo_congr fun j hj => ?_)
    exact (sectorsFrom_eq_loadSectors hm heven sectorNum (by omega)).symm

end

end Fs

end

/-! ## The three operations -/

/-- A call of one of the three operations. -/
inductive FsOp
  | readInodeBlock (vsb : Ext2VfsSuperBlock) (extIn : Ext2Inode) (block dst : Nat)
  | readInode (m : Ext2Mount) (inodeNum : Nat)
  | ext2FileRead (exfi : Ext2File) (dst : Nat) (len : Int)

/-- Run the call, with at most `fuel` tests of the loop of `ext2_file_read`: the blocks that it hands to its caller, or
`none` if the loop needs more. -/
def FsOp.run {σ : Type} [PagedBytes σ] (pools fuel : Nat) : FsOp → FsM σ (Option (List Live))
  | .readInodeBlock vsb extIn block dst => do
    Fs.readInodeBlock pools vsb extIn block dst
    return some []
  | .readInode m inodeNum => do
    let res ← Fs.readInode pools m inodeNum
    return some (res.elim [] Fs.ReadInode.blocks)
  | .ext2FileRead exfi dst len => do
    let res ← Fs.ext2FileRead pools exfi dst len fuel
    return res.map fun _ => []

/-- What the three operations rely on: a drive that stores whole sectors, blocks whose size does not wrap in `kmalloc`, and
for `read_inode_block` a `dst` in one of the blocks in use. -/
def FsOp.Valid (live : List Live) : FsOp → Prop
  | .readInodeBlock vsb _ _ dst => vsb.OnDrive ∧ vsb.blockSize + 4112 < 2 ^ 31 ∧
    ∃ x ∈ live, x.ptr ≤ dst ∧ dst + vsb.blockSize ≤ x.ptr + x.size
  | .readInode m inodeNum => m.Geometry ∧ 2 ∣ m.dev.blkSize ∧ inodeNum < 2 ^ 64
  | .ext2FileRead _ _ _ => True

/-- The calls that return and give their scratch blocks back: those of `read_inode`, and those of `read_inode_block` at an
index that is not a triply indirect one, or with scratch blocks in one page. -/
def FsOp.GivesBack : FsOp → Prop
  | .readInodeBlock vsb _ block _ => ¬ (pageSize < vsb.blockSize + headerSize ∧ Fs.TriplyIndirect vsb.blockSize block)
  | .readInode _ _ => True
  | .ext2FileRead _ _ _ => False

section
variable {B : MachineEnv} {v : FsView} {fuel : Nat} {op : FsOp} (hreqs : v.reqs = []) (hused : v.untouched = [])
include hreqs hused

/-- These calls return with the blocks that were in use and those that they hand over, unless memory is full. -/
theorem FsOp.run_spec (hvalid : op.Valid v.live) (hgives : op.GivesBack) : Hoare (Holds B v) (op.run B.pools fuel)
    (fun given s => ∃ live, given = some live ∧ s.live = live ++ v.live) (IfFull True) := by
  cases op with
  | readInodeBlock vsb extIn block dst =>
    rcases hvalid with ⟨hdev, hsmall, x, hx, hrange⟩
    have hdst : v.Has True dst vsb.blockSize := ⟨x, hx, by simp [hused], .inl trivial, hrange⟩
    refine (Fs.readInodeBlock_spec hdev hreqs hdst hsmall trivial hgives).bind fun _ => ?_
    exact .pure _ fun s ⟨w, h, hlive, _⟩ => ⟨[], rfl, h.live_eq.trans hlive⟩
  | readInode m inodeNum =>
    rcases hvalid with ⟨hm, heven, hi⟩
    refine (Fs.readInode_spec hm heven trivial hreqs hi).bind fun res => ?_
    exact .pure _ fun s ⟨_, w, h, hlive⟩ => ⟨_, rfl, h.live_eq.trans hlive⟩
  | ext2FileRead => exact hgives.elim

/-- The other ones do not. -/
theorem FsOp.not_run (hvalid : op.Valid v.live) (hgives : ¬ op.GivesBack) {s s' : FsState Kernel} (h : Holds B v s)
    {given : List Live} (hrun : op.run B.pools fuel s = .ok (some given, s')) : s'.live ≠ given ++ v.live := by
  cases op with
  | readInodeBlock vsb extIn block dst =>
    rcases hvalid with ⟨hdev, hsmall, x, hx, hrange⟩
    have hdst : v.Has True dst vsb.blockSize := ⟨x, hx, by simp [hused], .inl trivial, hrange⟩
    rcases Classical.not_not.1 hgives with ⟨hpage, htriply⟩
    have hhalts : Hoare (Holds B v) (FsOp.run B.pools fuel (.readInodeBlock vsb extIn block dst)) (fun _ _ => False) _ :=
      (Fs.readInodeBlock_halts hdev hreqs hdst hsmall trivial hpage htriply).stops
    exact (hhalts.of_ok h hrun).elim
  | readInode => exact absurd trivial hgives
  | ext2FileRead exfi dst len =>
    have howns : Hoare (Fs.Owns [] (s.live.map Live.ptr)) (FsOp.run B.pools fuel (.ext2FileRead exfi dst len))
        (fun given s' => (∀ live, given = some live → live = []) ∧
          ∃ contentBlock, Fs.Owns [] (contentBlock ::ₘ (s.live.map Live.ptr : Multiset Nat)) s') Fs.anyReason :=
      (Fs.ext2FileRead_owns (σ := Kernel) exfi dst len fuel).bind fun res =>
        .pure _ fun _ h => ⟨fun live hlive => by cases res <;> cases hlive; rfl, h⟩
    rcases howns.of_ok ⟨h.reqs_eq.trans hreqs, rfl⟩ hrun with ⟨hgiven, contentBlock, hlive⟩
    rw [hgiven given rfl, ← h.live_eq]
    intro heq
    have hcard := congrArg Multiset.card hlive.live_eq
    rw [List.nil_append] at heq
    simp [heq] at hcard

end

section
variable {regions : List MemRegion} (hr : BootRegions regions) {mem : Mem} {root : Nat} {s₀ : Phys}
  (hinit : initPageTable ⟨mem, 0, regions⟩ = .ok (root, s₀)) {pools : Nat} (hp : PoolsPlaced regions pools) {k₀ : Kernel}
  (halloc : initAlloc pools (⟨s₀, root, addrSpaceKernelHeapBase⟩ : Kernel) = .ok k₀)
include hr hinit hp halloc

/-- What is known after a run of the clients of `kmalloc`. -/
theorem holds_of_trace {es : List KmallocEvent} {t : KmallocState Kernel}
    (hrun : Trace (KmallocStep pools) ⟨k₀, [], fun _ => none⟩ es t) :
    ∃ B : MachineEnv, B.pools = pools ∧ Holds B ⟨t.live, t.data, [], [], ∅⟩ ⟨t.heap, t.live, []⟩ := by
  rcases kmallocRun_inv hr hinit hp with ⟨M, hall, hstatic, k₁, s₁, hk₁, hs₁, hinv⟩
  obtain rfl := Except.ok.inj (hk₁.symm.trans halloc)
  rcases hinv es t hrun with ⟨u, -, -, -, F, pages, freed, hpaged⟩
  refine ⟨⟨_, M, root, pools, s₀.mem, hall, hstatic⟩, rfl, rfl, rfl, nofun, F, u.heap, pages, freed, ?_, nofun⟩
  exact hpaged.mono_pages fun n ⟨z, hz, _⟩ => nomatch hz

end

/-- A block in one page is freed, and then its pool is not empty. -/
theorem Holds.free_step {B : MachineEnv} {t : KmallocState Kernel} {S : Set Nat}
    (h : Holds B ⟨t.live, t.data, [], [], S⟩ ⟨t.heap, t.live, []⟩) {x : Live} (hx : x ∈ t.live)
    (hpage : x.size + headerSize ≤ pageSize) : ∃ t', KmallocStep B.pools t (.free x.ptr) t' ∧ t'.live = t.live.erase x ∧
      Holds B ⟨t'.live, t'.data, [], [], insert (poolIndex x.size) S⟩ ⟨t'.heap, t'.live, []⟩ := by
  rcases Fs.kfree_spec (E := fun _ => False) hx List.not_mem_nil (FsView.filled_of_le hpage) _ h with
    ⟨_, _, hstop⟩ | ⟨_, s', hrun, h'⟩
  · exact hstop.elim
  · rw [Fs.kfree] at hrun
    rcases Except.bind_eq_ok.1 hrun with ⟨heap, hheap, hres⟩
    cases hres
    have hlive := h'.live_eq
    cases hk : kfree x.ptr t.heap with
    | error e =>
      rw [hk] at hheap
      cases hheap
    | ok heap' =>
      rw [hk] at hheap
      cases hheap
      refine ⟨⟨heap, t.live.erase x, forget x t.data⟩, .free hx (Except.bind_eq_ok.2 ⟨heap, hk, rfl⟩), rfl, ?_⟩
      dsimp only at hlive h' ⊢
      rw [hlive] at h'
      exact h'

/-- A request that is served because the heap can grow. -/
theorem Holds.malloc_step {B : MachineEnv} {t : KmallocState Kernel} {S : Set Nat}
    (h : Holds B ⟨t.live, t.data, [], [], S⟩ ⟨t.heap, t.live, []⟩) (hgrow : t.heap.CanGrow) {size : Nat}
    (hsmall : size + 4112 < 2 ^ 31) (hi : poolIndex size < blockSizesLen) :
    ∃ p t', KmallocStep B.pools t (.malloc size p) t' ∧ t'.live = ⟨p, size⟩ :: t.live := by
  rcases h.inv with ⟨F, flat, pages, freed, hinv, -⟩
  rcases Lockstep.returns_of_forall (show Stop.outOfMemory ≠ .notAvailable 0 by decide) fun e =>
    hinv.kmalloc B.mapped B.static hsmall (e := e) (.inr ⟨hi, .inr hgrow⟩) with ⟨⟨p, heap⟩, _, hk, -, -⟩
  exact ⟨p, _, .malloc hsmall (Except.bind_eq_ok.2 ⟨_, hk, rfl⟩), rfl⟩

/-- In every state that the clients of `kmalloc` can bring about from boot on, and for every call, while memory lasts: the
call returns, and the live blocks are those from before and those it hands to its caller, iff it is one of `read_inode`, or
of `read_inode_block` with an index that is not triply indirect or with blocks that fit a page with their header. At the other
calls of `read_inode_block` the last `kfree` halts; `ext2_file_read` never frees its buffer. -/
theorem run_live_iff {regions : List MemRegion} (hr : BootRegions regions) {mem : Mem} {root : Nat} {s₀ : Phys}
    (hinit : initPageTable ⟨mem, 0, regions⟩ = .ok (root, s₀)) {pools : Nat} (hp : PoolsPlaced regions pools) {k₀ : Kernel}
    (halloc : initAlloc pools (⟨s₀, root, addrSpaceKernelHeapBase⟩ : Kernel) = .ok k₀) {es : List KmallocEvent}
    {t : KmallocState Kernel} (hrun : Trace (KmallocStep pools) ⟨k₀, [], fun _ => none⟩ es t) {op : FsOp} {fuel : Nat}
    (hvalid : op.Valid t.live) (hmem : op.run pools fuel ⟨t.heap, t.live, []⟩ ≠ .error (.inl .outOfMemory)) :
    (∃ given s', op.run pools fuel ⟨t.heap, t.live, []⟩ = .ok (some given, s') ∧ s'.live = given ++ t.live) ↔
      op.GivesBack := by
  rcases holds_of_trace hr hinit hp halloc hrun with ⟨B, rfl, hholds⟩
  constructor
  · rintro ⟨given, s', hok, hlive⟩
    by_contra hgives
    exact FsOp.not_run rfl rfl hvalid hgives hholds hok hlive
  · intro hgives
    rcases @FsOp.run_spec _ _ fuel _ rfl rfl hvalid hgives _ hholds with ⟨e, herr, -, rfl⟩ | ⟨_, s', hok, given, rfl, hlive⟩
    · exact absurd herr hmem
    · exact ⟨given, s', hok, hlive⟩

/-- A machine of eleven pages on which a block of 1 KiB is in use, and memory for one more and for a request of the drive is
at hand. -/
theorem holds_eleven_pages : ∃ root s₀ k₀ p es, ∃ t : KmallocState Kernel, ∃ B : MachineEnv,
    initPageTable ⟨fun _ => 0, 0, [⟨0x2000, 0xC000, 0x2000⟩]⟩ = .ok (root, s₀) ∧
      initAlloc 0x1000 (⟨s₀, root, addrSpaceKernelHeapBase⟩ : Kernel) = .ok k₀ ∧
      Trace (KmallocStep 0x1000) ⟨k₀, [], fun _ => none⟩ es t ∧ t.live = [⟨p, 1024⟩] ∧ B.pools = 0x1000 ∧
      Holds B ⟨t.live, t.data, [], [], insert (poolIndex 1024) (insert (poolIndex 24) ∅)⟩ ⟨t.heap, t.live, []⟩ := by
  have hok : (initPageTable ⟨fun _ => 0, 0, [⟨0x2000, 0xC000, 0x2000⟩]⟩ >>= fun x =>
      initAlloc 0x1000 (⟨x.2, x.1, addrSpaceKernelHeapBase⟩ : Kernel) >>= fun k =>
      KmallocState.malloc 0x1000 1024 ⟨k, [], fun _ => none⟩ >>= fun r => KmallocState.malloc 0x1000 1024 r.2 >>= fun r' =>
      if r'.2.heap.CanGrow then .ok () else .error .outOfMemory).isOk = true := by
    decide +kernel
  rcases Except.exists_of_isOk hok with ⟨_, h⟩
  rcases Except.bind_eq_ok.1 h with ⟨⟨root, s₀⟩, hinit, h⟩
  rcases Except.bind_eq_ok.1 h with ⟨k₀, halloc, h⟩
  rcases Except.bind_eq_ok.1 h with ⟨⟨p, t₁⟩, h₁, h⟩
  rcases Except.bind_eq_ok.1 h with ⟨⟨q, t₂⟩, h₂, h⟩
  split at h
  case isFalse => cases h
  case isTrue hgrow =>
    have hrun₂ := (Trace.single (KmallocStep.malloc (show 1024 + 4112 < 2 ^ 31 by decide) h₁)).snoc (.malloc (by decide) h₂)
    rcases Except.bind_eq_ok.1 h₁ with ⟨⟨_, k₁⟩, -, hres₁⟩
    rcases Except.bind_eq_ok.1 h₂ with ⟨⟨_, k₂⟩, -, hres₂⟩
    cases hres₁
    cases hres₂
    -- the request of the drive is allocated, and freed with the second block
    have hof {es t} := @holds_of_trace _ poolsPlaced_eleven_pages.1 _ _ _ hinit _ poolsPlaced_eleven_pages.2 _ halloc es t
    rcases hof hrun₂ with ⟨B₂, hB₂, hholds₂⟩
    rcases hholds₂.malloc_step hgrow (show 24 + 4112 < 2 ^ 31 by decide) (by decide) with ⟨r, t₃, hstep₃, hlive₃⟩
    have hrun₃ := hrun₂.snoc (hB₂ ▸ hstep₃)
    rcases hof hrun₃ with ⟨B, hB, hholds₃⟩
    rcases hholds₃.free_step (x := ⟨r, 24⟩) (hlive₃ ▸ .head _)
      (show 24 + headerSize ≤ pageSize by decide) with ⟨t₄, hstep₄, hlive₄, hholds₄⟩
    rw [hlive₃, List.erase_cons_head] at hlive₄
    rcases hholds₄.free_step (x := ⟨q, 1024⟩) (hlive₄ ▸ .head _)
      (show 1024 + headerSize ≤ pageSize by decide) with ⟨t₅, hstep₅, hlive₅, hholds₅⟩
    rw [hlive₄, List.erase_cons_head] at hlive₅
    rw [hB] at hstep₄ hstep₅
    exact ⟨root, s₀, k₀, p, _, t₅, B, hinit, halloc, (hrun₃.snoc hstep₄).snoc hstep₅, hlive₅, hB, hholds₅⟩

/-- A singly indirect block is read into a buffer on this machine, and its scratch block and its requests are given back. -/
theorem run_live_singly_indirect : ∃ p, ∃ t : KmallocState Kernel, ∃ given s', t.live = [⟨p, 1024⟩] ∧
    (FsOp.readInodeBlock (linkDisk 1024) linkInode 12 p).run 0x1000 0 ⟨t.heap, t.live, []⟩ = .ok (some given, s') ∧
      s'.live = given ++ t.live := by
  rcases holds_eleven_pages with ⟨root, s₀, k₀, p, es, t, B, hinit, halloc, hrun, hlive, hB, hholds⟩
  have hdev : (linkDisk 1024).OnDrive := ⟨readable_linkDisk (by decide), by decide⟩
  have hx : (⟨p, 1024⟩ : Live) ∈ t.live := hlive ▸ .head _
  have hdst : FsView.Has False ⟨t.live, t.data, [], [], insert (poolIndex 1024) (insert (poolIndex 24) ∅)⟩ p 1024 :=
    ⟨_, hx, List.not_mem_nil, .inr (show poolIndex 1024 < blockSizesLen by decide), Nat.le_refl _, Nat.le_refl _⟩
  -- all that the call allocates is at hand
  have hspec : Hoare (Holds B _) ((FsOp.readInodeBlock (linkDisk 1024) linkInode 12 p).run B.pools 0) (fun _ _ => True)
      (IfFull False) :=
    (Fs.readInodeBlock_singly_spec hdev rfl hdst (by decide)
      (.inr ⟨⟨.inr (.inl (by decide)), by decide⟩, by decide, .inl rfl⟩) (by decide) (by decide)).bind fun _ =>
        .pure _ fun _ _ => trivial
  have hmem : (FsOp.readInodeBlock (linkDisk 1024) linkInode 12 p).run 0x1000 0 ⟨t.heap, t.live, []⟩ ≠
      .error (.inl .outOfMemory) := by
    intro herr
    rw [← hB] at herr
    rcases hspec _ hholds with ⟨_, _, hfull, -⟩ | ⟨_, _, hok, -⟩
    · exact hfull
    · cases hok.symm.trans herr
  have hvalid : (FsOp.readInodeBlock (linkDisk 1024) linkInode 12 p).Valid t.live :=
    ⟨hdev, by decide, _, hx, Nat.le_refl _, Nat.le_refl _⟩
  rcases (run_live_iff poolsPlaced_eleven_pages.1 hinit poolsPlaced_eleven_pages.2 halloc hrun hvalid hmem).2
    (fun h => absurd h.1 (by decide)) with ⟨given, s', hok, hgiven⟩
  exact ⟨p, t, given, s', hlive, hok, hgiven⟩

/-- The end of a file is read right after boot: `ext2_file_read` returns, and its buffer is still in use. -/
theorem ext2FileRead_leaks : ∃ root s₀ k₀ given s', initPageTable ⟨fun _ => 0, 0, [⟨0x2000, 0xC000, 0x2000⟩]⟩ = .ok (root, s₀) ∧
    initAlloc 0x1000 (⟨s₀, root, addrSpaceKernelHeapBase⟩ : Kernel) = .ok k₀ ∧
      (FsOp.ext2FileRead ⟨⟨0, linkInode, linkDisk 1024⟩, 0⟩ 0 1).run 0x1000 1 (⟨k₀, [], []⟩ : FsState Kernel) =
        .ok (some given, s') ∧ s'.live ≠ given ++ [] := by
  have hok : (initPageTable ⟨fun _ => 0, 0, [⟨0x2000, 0xC000, 0x2000⟩]⟩ >>= fun x =>
      initAlloc 0x1000 (⟨x.2, x.1, addrSpaceKernelHeapBase⟩ : Kernel) >>= fun k =>
      if ((FsOp.ext2FileRead ⟨⟨0, linkInode, linkDisk 1024⟩, 0⟩ 0 1).run 0x1000 1 (⟨k, [], []⟩ : FsState Kernel)).toOption.any
        fun r => r.1.any fun given => decide (r.2.live ≠ given ++ []) then .ok () else .error .outOfMemory).isOk = true := by
    decide +kernel
  rcases Except.exists_of_isOk hok with ⟨_, h⟩
  rcases Except.bind_eq_ok.1 h with ⟨⟨root, s₀⟩, hinit, h⟩
  rcases Except.bind_eq_ok.1 h with ⟨k₀, halloc, h⟩
  split_ifs at h with hleak
  rcases (Option.any_eq_true _ _).1 hleak with ⟨⟨ret, s'⟩, hret, hleak⟩
  rcases (Option.any_eq_true _ _).1 hleak with ⟨given, rfl, hne⟩
  refine ⟨root, s₀, k₀, given, s', hinit, halloc, ?_, of_decide_eq_true hne⟩
  cases hrun : (FsOp.ext2FileRead ⟨⟨0, linkInode, linkDisk 1024⟩, 0⟩ 0 1).run 0x1000 1 (⟨k₀, [], []⟩ : FsState Kernel)
  case error e =>
    rw [hrun] at hret
    cases hret
  case ok r =>
    rw [hrun] at hret
    cases hret
    rfl

end BanjOS
