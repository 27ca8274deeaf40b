import BanjOS.Lib.Paging
import BanjOS.PageAllocator.Contents

/-!
# What the processor sees

The kernel writes page tables as bit fields and reads them back itself; the processor walks the same words
(`X86.translate`). No code sets a bit above the frame or one of the flags, the page size among them, and whatever is present
is writable (`PlainTables`). So in every state of every run the processor takes each address to where
`page_table_virt_to_phys_addr` says (`heapRun_translate`).
-/

namespace BanjOS

open ByteMem Radix BitFields X86

/-! ## Plain entries -/

/-- The bits that no code sets are clear, and what is present can be written. -/
structure PageEntry.Plain (e : PageEntry) : Prop where
  flags : e.flags = 0
  high : e.high = 0
  readWrite : e.present = true → e.readWrite = true

/-- All entries of all tables are plain. -/
def PlainTables (m : Mem) (root : Nat) : Prop := ∀ t, IsTable m root t → ∀ i, i < 512 → (getEntry m (t + 8 * i)).Plain

section
variable {e : PageEntry}

theorem PageEntry.plain_zero : PageEntry.zero.Plain := ⟨rfl, rfl, nofun⟩

/-- An entry that is made to point to a frame. -/
theorem PageEntry.Plain.point (h : e.Plain) (a : BitVec 40) :
    ({ e with present := true, readWrite := true, addr := a } : PageEntry).Plain := ⟨h.flags, h.high, fun _ => rfl⟩

theorem PageEntry.Plain.mark (h : e.Plain) (n : BitVec 3) : ({ e with available := n } : PageEntry).Plain :=
  ⟨h.flags, h.high, h.readWrite⟩

theorem PageEntry.Plain.unmap (h : e.Plain) : ({ e with present := false } : PageEntry).Plain :=
  ⟨h.flags, h.high, nofun⟩

/-- What the processor reads in the word of a plain entry. -/
theorem PageEntry.decode_plain {w : Nat} (h : (PageEntry.decode w).Plain) :
    (EntryPresent w ↔ (PageEntry.decode w).present = true) ∧ field w 7 1 = 0 ∧
      (field w 1 1 == 1) = (PageEntry.decode w).readWrite ∧ 4096 * field w 12 40 = (PageEntry.decode w).frame := by
  have hflags : w / 2 ^ 2 % 2 ^ 7 = 0 := congrArg BitVec.toNat h.flags
  have hhigh : w / 2 ^ 52 % 2 ^ 12 = 0 := congrArg BitVec.toNat h.high
  refine ⟨?_, by unfold field; omega, rfl, ?_⟩
  · show field w 0 1 = 1 ∧ field w 63 1 = 0 ↔ (w % 2 == 1) = true
    unfold field
    rw [beq_iff_eq]
    omega
  · rw [PageEntry.frame_eq, Nat.mul_comm]
    rfl

end

section
variable {m m' : Mem} {root n slot : Nat}

/-- A plain leaf entry is written. -/
theorem PlainTables.setLeaf (h : PlainTables m root) (hT : TreeOK m root) (hn : n < 2 ^ 36)
    (hs : leafSlot m root n = some slot) {e : PageEntry} (he : e.Plain) : PlainTables (setEntry m slot e) root := by
  intro t ht i hi
  rw [(hT.leafSet hn hs e).isTable_iff] at ht
  rcases eq_or_ne (t + 8 * i) slot with rfl | hne
  · rw [getEntry_setEntry_self]
    exact he
  · rcases id ht with ⟨d, q, hd, hq, htab⟩
    rcases leafSlot_eq_some.1 hs with ⟨u, hu, rfl⟩
    have h₁ := hT.aligned d q t hd hq htab
    have h₂ := hT.aligned 3 _ u (Nat.le_refl 3) (leaf_num_lt hn) hu
    rw [getEntry_setEntry_of_apart (by omega)]
    exact h t ht i hi

/-- The entry of a leaf slot is plain. -/
theorem PlainTables.leaf (h : PlainTables m root) (hn : n < 2 ^ 36) (hs : leafSlot m root n = some slot) :
    (getEntry m slot).Plain := by
  rcases leafSlot_eq_some.1 hs with ⟨t, ht, rfl⟩
  exact h t ⟨3, _, Nat.le_refl 3, leaf_num_lt hn, ht⟩ _ (Nat.mod_lt _ (by decide))

/-- Nothing is written into the tables. -/
theorem PlainTables.outside (h : PlainTables m root) (hT : TreeOK m root)
    (hw : ∀ t, IsTable m root t → ∀ b, InRange t pageSize b → m' b = m b) : PlainTables m' root := by
  intro t ht i hi
  rw [(hT.write_outside hw).1.isTable_iff] at ht
  have hsame : getEntry m' (t + 8 * i) = getEntry m (t + 8 * i) := getEntry_congr fun b hb =>
    hw t ht b (hb.mono (Nat.le_add_right _ _) (by unfold pageSize; omega))
  rw [hsame]
  exact h t ht i hi

/-- A new table is entered in a slot. -/
theorem PlainTables.install (h : PlainTables m root) {p g i : Nat} (hp : IsTable m root p) (hi : i < 512)
    (haligned : ∀ t, IsTable m root t → t % pageSize = 0) (hg : g % pageSize = 0) (hnew : ¬ IsTable m root g)
    (hiff : ∀ f, IsTable (installTable m (p + 8 * i) g) root f ↔ IsTable m root f ∨ f = g) :
    PlainTables (installTable m (p + 8 * i) g) root := by
  intro t ht j hj
  have hpg : p ≠ g := fun heq => hnew (heq ▸ hp)
  have hpmod := haligned p hp
  unfold pageSize at hg hpmod
  rcases (hiff t).1 ht with hold | rfl
  · have htg : t ≠ g := fun heq => hnew (heq ▸ hold)
    have htmod := haligned t hold
    unfold pageSize at htmod
    rcases eq_or_ne (t + 8 * j) (p + 8 * i) with heq | hne
    · -- the slot keeps its flags
      have hkeep : getEntry (fill m g pageSize 0) (p + 8 * i) = getEntry m (p + 8 * i) :=
        getEntry_fill_of_apart (by unfold pageSize; omega)
      rw [heq, installTable, getEntry_setEntry_self, hkeep]
      exact (h p hp i hi).point _
    · rw [installTable_of_apart (by unfold pageSize; omega) (by omega)]
      exact h t hold j hj
  · rw [installTable_blank hj (by omega)]
    exact PageEntry.plain_zero

end

/-! ## Walks that allocate -/

section
variable {all : List Nat} {root : Nat} {held : Set Nat} {s s' : Phys} (hf : Frames all) (hlt : ∀ f ∈ all, f < 2 ^ 52)
include hf hlt

/-- The allocator supplies walks with frames, and the tables stay plain. -/
theorem framesFor_supply_plain (root : Nat) (held : Set Nat) :
    Supply root fun s => FramesFor all root held s ∧ PlainTables s.mem root where
  frame h := (framesFor_supply hf hlt root held).frame h.1
  hang := by
    rintro s s' pf p i ⟨hfor, hplain⟩ ha hp hi hiff
    rcases (framesFor_supply hf hlt root held).frame hfor ha with ⟨hmod, -, hnew⟩
    refine ⟨(framesFor_supply hf hlt root held).hang hfor ha hp hi hiff, hplain.install hp hi (fun t ht => ?_) hmod hnew hiff⟩
    rcases hfor with ⟨out, hinv, hout, -⟩
    exact hf.aligned t (hinv.mem_all ((hout t).2 (.inr ht)))

/-- A walk that allocates page tables. -/
theorem FramesFor.getEntry_plain (h : FramesFor all root held s) (hT : TreeOK s.mem root) (hp : PlainTables s.mem root)
    {v : Nat} {r : Option Nat} (hr : pageTableGetEntry root v true s = .ok (r, s')) :
    FramesFor all root held s' ∧ TreeOK s'.mem root ∧ PlainTables s'.mem root ∧
      ∃ slot, r = some slot ∧ leafSlot s'.mem root (pageOf v) = some slot := by
  rcases (pageTableGetEntry_grown (framesFor_supply_plain hf hlt root held) ⟨h, hp⟩ hT v).1 r s' hr with
    ⟨⟨hfor, hplain⟩, hgrow, hslot⟩
  exact ⟨hfor, hgrow.ok, hplain, hslot⟩

/-- A walk over many pages with a callback that keeps entries plain. -/
theorem walkPages_plain {callback : Nat → PageEntry → PageEntry} (hcb : ∀ a e, e.Plain → (callback a e).Plain) :
    ∀ n addr s, FramesFor all root held s → TreeOK s.mem root → PlainTables s.mem root →
      ∀ s', walkPages root callback n addr s = .ok s' → PlainTables s'.mem root := by
  intro n
  induction n with
  | zero =>
    intro addr s _ _ hp s' hs'
    cases hs'
    exact hp
  | succ n ih =>
    intro addr s h hT hp s' hs'
    rcases Except.bind_eq_ok.1 hs' with ⟨⟨r, s₁⟩, hr, hrest⟩
    rcases h.getEntry_plain hf hlt hT hp hr with ⟨hfor, hok, hplain, slot, rfl, hslot⟩
    have hn := pageOf_lt addr
    exact ih (addr + pageSize) _ (hfor.setLeaf hf hok hn hslot _) (hok.leafSet hn hslot _).ok
      (hplain.setLeaf hok hn hslot (hcb _ _ (hplain.leaf hn hslot))) s' hrest

/-- The tables that `init_page_table` builds. -/
theorem initPageTable_plain {M : Nat} (hinv : FrameInv all s []) (hinit : initPageTable s = .ok (root, s')) :
    PlainTables s'.mem root := by
  rcases Except.bind_eq_ok.1 hinit with ⟨⟨root', s₁⟩, ha, hrest⟩
  rcases Except.bind_eq_ok.1 hrest with ⟨s₂, hwalk, hres⟩
  cases hres
  have hstart := mapInv_start hf hinv ha M
  have hblank (i : Nat) (hi : i < 512) : getEntry (fill s₁.mem root pageSize 0) (root + 8 * i) = .zero :=
    getEntry_fill_zero (Nat.le_add_right _ _) (by unfold pageSize; omega)
  have hplain : PlainTables (fill s₁.mem root pageSize 0) root := by
    rintro t ⟨d, q, -, -, ht⟩ i hi
    have hnone (j : Nat) (hj : j < 512) : child (fill s₁.mem root pageSize 0) (root + 8 * j) = none := by
      rw [child, hblank j hj]
      rfl
    rcases tableAt_blank hnone d q t ht with ⟨-, rfl⟩
    rw [hblank i hi]
    exact PageEntry.plain_zero
  exact walkPages_plain hf hlt (fun _ _ he => he.point _) _ _ _ hstart.frames hstart.ok hplain s' hwalk

end

/-! ## The operations -/

section
variable {all : List Nat} {M root top : Nat} (hall : MappedFrames all M) {k k' : Kernel}
include hall

/-- `MMU_alloc_page`. -/
theorem KernelInv.allocPage_plain (h : KernelInv all M top k) (hp : PlainTables k.phys.mem k.cr3) {v : Nat}
    (hr : mmuAllocPage k = .ok (v, k')) : PlainTables k'.phys.mem k'.cr3 := by
  rcases Except.bind_eq_ok.1 hr with ⟨⟨r, s₁⟩, hget, hres⟩
  cases hres
  rcases h.heap.frames.getEntry_plain hall.toFrames hall.fits52 h.heap.ok hp hget with ⟨-, hok, hplain, slot, rfl, hslot⟩
  have hn := pageOf_lt (sbrk pageSize k).1
  exact hplain.setLeaf hok hn hslot ((hplain.leaf hn hslot).mark 1)

/-- `MMU_alloc_pages`. -/
theorem KernelInv.allocPages_plain (h : KernelInv all M top k) (hp : PlainTables k.phys.mem k.cr3) {num : Int} {v : Nat}
    (hr : mmuAllocPages num k = .ok (v, k')) : PlainTables k'.phys.mem k'.cr3 := by
  rcases Except.bind_eq_ok.1 hr with ⟨s₁, hwalk, hres⟩
  cases hres
  exact walkPages_plain hall.toFrames hall.fits52 (fun _ _ he => he.mark 1) _ _ _ h.heap.frames h.heap.ok hp s₁ hwalk

omit hall in
/-- A use of an address, with its page fault. -/
theorem KernelInv.touch_plain (h : KernelInv all M top k) (hp : PlainTables k.phys.mem k.cr3) {v : Nat}
    (ht : touch v k = .ok k') : PlainTables k'.phys.mem k'.cr3 := by
  rw [touch] at ht
  split at ht
  case isTrue =>
    cases ht
    exact hp
  case isFalse =>
    rw [pageFaultHandler, pageTableGetEntry_lookup] at ht
    cases hs : leafSlot k.phys.mem k.cr3 (pageOf v) with
    | none =>
      simp only [hs, bind, Except.bind] at ht
      cases ht
    | some slot =>
      simp only [hs, bind, Except.bind] at ht
      split at ht
      case isTrue => cases ht
      case isFalse =>
        cases ha : mmuPfAlloc k.phys with
        | error e =>
          rw [ha] at ht
          cases ht
        | ok x =>
          rw [ha] at ht
          cases ht
          have hn := pageOf_lt v
          have hset := hp.setLeaf h.heap.ok hn hs ((hp.leaf hn hs).point (PageEntry.addrOf x.1))
          dsimp only
          rw [mmuPfAlloc_mem ha]
          exact hset

/-- `MMU_free_page` of a resident page: the link is written into a frame that holds no table. -/
theorem KernelInv.freePage_plain (h : KernelInv all M top k) (hp : PlainTables k.phys.mem k.cr3) {v pf : Nat}
    (hback : Backed k.phys.mem k.cr3 (pageOf v) pf) (hr : mmuFreePage v k = .ok k') :
    PlainTables k'.phys.mem k'.cr3 := by
  rcases h.freePage_eq hall hback hr with ⟨hmem, slot, hs, rfl⟩
  rcases h.heap.frames with ⟨out, hinv, hout, hheld⟩
  have hw (t : Nat) (ht : IsTable k.phys.mem k.cr3 t) (b : Nat) (hb : InRange t pageSize b) :
      (mmuPfFree pf k.phys).mem b = k.phys.mem b := by
    refine store64_apply_of_not_mem fun hin => ?_
    have hb' : InRange pf pageSize b := hin.mono (Nat.le_refl _) (by unfold pageSize; omega)
    have htmod := hall.aligned t (hinv.mem_all ((hout t).2 (.inr ht)))
    exact hheld pf ⟨_, hback⟩ (page_unique (hall.aligned pf hmem) htmod hb' hb ▸ ht)
  have hlink := hp.outside h.heap.ok hw
  have hsame := (h.heap.ok.write_outside hw).1
  have hn := pageOf_lt v
  have hs' := (hsame.leafSlot_eq hn).trans hs
  exact hlink.setLeaf hsame.ok hn hs' (hlink.leaf hn hs').unmap

/-- The loop of `MMU_free_pages` over resident pages. -/
theorem KernelInv.freePagesFrom_plain : ∀ n v k, KernelInv all M top k → PlainTables k.phys.mem k.cr3 →
    2 ^ 27 ≤ v / pageSize → v / pageSize + n ≤ 2 ^ 36 →
    (∀ j, v / pageSize ≤ j → j < v / pageSize + n → (k.leaf j).present = true) →
    ∀ k', BanjOS.freePagesFrom n v k = .ok k' → PlainTables k'.phys.mem k'.cr3 := by
  intro n
  induction n with
  | zero =>
    intro v k _ hp _ _ _ k' hk'
    cases hk'
    exact hp
  | succ n ih =>
    intro v k h hp hle hlt hres k' hk'
    rcases h.freePagesFrom_succ hall hle hlt hres hk' with ⟨hpage, hback, k₁, hk₁, h₁, hleaf, hrest⟩
    have hdiv : (v + pageSize) / pageSize = v / pageSize + 1 := Nat.add_div_right v (by decide)
    refine ih (v + pageSize) k₁ h₁ (h.freePage_plain hall hp hback hk₁) (by omega) (by omega) (fun j hj hj' => ?_) k' hrest
    rw [hdiv] at hj hj'
    rw [hleaf j (by omega) (by omega)]
    exact hres j (by omega) (by omega)

/-- Every step of the heap keeps the tables plain. -/
theorem HeapStep.plain {h h' : HeapState} (hst : HeapStep h h') (hinv : RunInv all M root top h)
    (hp : PlainTables h.kernel.phys.mem h.kernel.cr3) : PlainTables h'.kernel.phys.mem h'.kernel.cr3 := by
  have htop := hinv.inv.heap.top_lt hall
  cases hst with
  | allocPage hr => exact hinv.inv.allocPage_plain hall hp hr
  | allocPages _ _ hr => exact hinv.inv.allocPages_plain hall hp hr
  | touch hr => exact hinv.inv.touch_plain hp hr
  | @freePage k k' live freed v hlive hpres hr =>
    have hn := (hinv.marked _).1 (.inl hlive)
    have hpage : pageOf v = v / pageSize := pageOf_eq (by unfold pageSize at hn; omega)
    exact hinv.inv.freePage_plain hall hp ⟨hpage ▸ hn.1, pageOf_lt v, hpage ▸ hpres, rfl⟩ hr
  | @freePages k k' live freed v num hnum hlt hres hr =>
    have hfirst := (hinv.marked _).1 (.inl (hres _ (Nat.le_refl _) (by omega)).1)
    have hlast := (hinv.marked _).1 (.inl (hres (v / pageSize + num - 1) (by omega) (by omega)).1)
    rw [mmuFreePages_eq (by unfold pageSize at hfirst; omega) hlt (pageBytes_natCast hlt)] at hr
    exact KernelInv.freePagesFrom_plain hall num v k hinv.inv hp hfirst.1 (by omega)
      (fun j hj hj' => (hres j hj hj').2) _ hr
  | write hw => exact hp.outside hinv.inv.heap.ok fun t ht => hw t (.inl ht)

end

/-! ## Translation -/

section
variable {m : Mem} {root v : Nat}

/-- The processor takes the digits of the page number as indices. -/
theorem field_levelShift (v : Nat) {l : Nat} (hl : l ≤ 3) : field v (levelShift l) 9 = pageOf v / 512 ^ l % 512 := by
  rw [field, levelShift, pageOf, pageSize]
  rcases (by omega : l = 0 ∨ l = 1 ∨ l = 2 ∨ l = 3) with rfl | rfl | rfl | rfl
  all_goals simp only [Nat.reduceMul, Nat.reduceAdd, Nat.reducePow]; omega

/-- The walk from the table of the address above the level `l`. -/
theorem walkFrom_plain (hp : PlainTables m root) : ∀ l d t, d + l = 3 →
    tableAt (child m) root d (pageOf v / 512 ^ (l + 1)) = some t →
    walkFrom m v l t = if (leafEntry m root (pageOf v)).present then
      some ⟨(leafEntry m root (pageOf v)).frame + v % pageSize, true⟩ else none := by
  have hn := pageOf_lt v
  intro l
  induction l with
  | zero =>
    intro d t hd ht
    obtain rfl : d = 3 := hd
    rw [Nat.zero_add, Nat.pow_one] at ht
    have hslot : leafSlot m root (pageOf v) = some (t + 8 * (pageOf v % 512)) := leafSlot_eq_some.2 ⟨t, ht, rfl⟩
    have hentry : entryFor m v 0 t = load64 m (t + 8 * (pageOf v % 512)) := by
      rw [entryFor, field_levelShift v (by omega), Nat.pow_zero, Nat.div_one]
    rcases PageEntry.decode_plain (hp.leaf hn hslot) with ⟨hpres, -, hrw, hframe⟩
    rw [leafEntry_of_slot hslot]
    rw [← hentry] at hpres hrw hframe
    split
    case isTrue hpr =>
      have hphys : 2 ^ levelShift 0 * field (entryFor m v 0 t) (levelShift 0) (52 - levelShift 0) +
          field v 0 (levelShift 0) = 4096 * field (entryFor m v 0 t) 12 40 + v % pageSize := by
        rw [field, field, field, Nat.pow_zero, Nat.div_one]
        rfl
      have hwrite := (hp.leaf hn hslot).readWrite hpr
      have hpr' : (PageEntry.decode (entryFor m v 0 t)).present = true := by
        rw [hentry]
        exact hpr
      rw [walkFrom_page (hpres.2 hpr'), mapPage, hrw, hphys, hframe, hentry]
      exact congrArg some (congrArg _ hwrite)
    case isFalse habs =>
      refine walkFrom_absent fun h => habs ?_
      have hpr := hpres.1 h
      rw [hentry] at hpr
      exact hpr
  | succ l ih =>
    intro d t hd ht
    have hlt : pageOf v / 512 ^ (l + 1) % 512 < 512 := Nat.mod_lt _ (by decide)
    have hentry : entryFor m v (l + 1) t = load64 m (t + 8 * (pageOf v / 512 ^ (l + 1) % 512)) := by
      rw [entryFor, field_levelShift v (by omega)]
    have hplain := hp t ⟨d, _, by omega, prefix_lt (by omega) hn, ht⟩ _ hlt
    rcases PageEntry.decode_plain hplain with ⟨hpres, hsize, hrw, hframe⟩
    rw [← hentry] at hpres hsize hrw hframe
    rcases Bool.eq_false_or_eq_true (PageEntry.decode (entryFor m v (l + 1) t)).present with hpr | habs
    · have hwrite : field (entryFor m v (l + 1) t) 1 1 = 1 := by
        rw [hentry] at hpr
        rw [← beq_iff_eq, hrw, hentry]
        exact hplain.readWrite hpr
      rw [walkFrom_table (hpres.2 hpr) hsize hwrite, hframe]
      refine ih (d + 1) _ (by omega) ?_
      rw [← prefix_div] at ht
      refine tableAt_succ.2 ⟨t, ht, ?_⟩
      rw [child, getEntry, ← hentry, if_pos hpr]
    · have hnone : leafSlot m root (pageOf v) = none := leafSlot_eq_none_iff.2
        ⟨d, l + 1, t, hd, Nat.succ_pos l, ht, by rw [getEntry, ← hentry]; exact habs⟩
      have hzero : leafEntry m root (pageOf v) = .zero := by simp [leafEntry, hnone]
      rw [hzero, walkFrom_absent fun h => by rw [hpres.1 h] at habs; cases habs]
      rfl

/-- The processor's translation under the kernel's tables. -/
theorem translate_plain (hp : PlainTables m root) (hmod : root % pageSize = 0) (hlt : root < 2 ^ 52) :
    translateAddr m root v = if CanonicalAddr v ∧ (leafEntry m root (pageOf v)).present = true then
      some ⟨(leafEntry m root (pageOf v)).frame + v % pageSize, true⟩ else none := by
  have hroot : 4096 * field root 12 40 = root := by
    unfold field
    unfold pageSize at hmod
    omega
  have hprefix : pageOf v / 512 ^ (3 + 1) = 0 := Nat.div_eq_of_lt (pageOf_lt v)
  rw [translateAddr, hroot, walkFrom_plain hp 3 0 root rfl (by rw [tableAt]), ite_and]

/-- Canonical addresses differ in their page number or in their offset. -/
theorem canonicalAddr_ext {v' : Nat} (hv : CanonicalAddr v) (hv' : CanonicalAddr v') (hpage : pageOf v = pageOf v')
    (hoff : v % pageSize = v' % pageSize) : v = v' := by
  unfold CanonicalAddr at hv hv'
  unfold pageOf pageSize at *
  omega

end

section
variable {all : List Nat} {M root top v : Nat} {h : HeapState} (hall : MappedFrames all M)
include hall

/-- The processor's translation in a state of a run. -/
theorem RunInv.translate_eq (hinv : RunInv all M root top h) (hp : PlainTables h.kernel.phys.mem h.kernel.cr3) :
    translateAddr h.kernel.phys.mem h.kernel.cr3 v =
      if CanonicalAddr v ∧ (h.kernel.leaf (pageOf v)).present = true then
        some ⟨(h.kernel.leaf (pageOf v)).frame + v % pageSize, true⟩ else none := by
  rcases hinv.inv.heap.frames with ⟨out, hframes, hout, -⟩
  have hroot : h.kernel.cr3 ∈ all := hframes.mem_all ((hout _).2 (.inr ⟨0, 0, Nat.zero_le _, Nat.one_pos, rfl⟩))
  exact translate_plain hp (hall.aligned _ hroot) (hall.fits52 _ hroot)

/-- Below the heap it is the identity map. -/
theorem RunInv.translate_ident (hinv : RunInv all M root top h) (hp : PlainTables h.kernel.phys.mem h.kernel.cr3)
    (hv : v < 2 ^ 39) : translateAddr h.kernel.phys.mem h.kernel.cr3 v =
      if pageSize ≤ v ∧ v < pageSize * (M + 1) then some ⟨v, true⟩ else none := by
  have hpage : pageOf v = v / pageSize := pageOf_eq (by omega)
  have hn : v / pageSize < 2 ^ 27 := by
    unfold pageSize
    omega
  have hident : h.kernel.leaf (v / pageSize) = identEntry M (v / pageSize) := hinv.inv.heap.ident _ hn
  have hiff : (1 ≤ v / pageSize ∧ v / pageSize < M + 1) ↔ pageSize ≤ v ∧ v < pageSize * (M + 1) := by
    unfold pageSize
    omega
  rw [hinv.translate_eq hall hp, hpage, hident, identEntry]
  simp only [hiff]
  split
  case isTrue hin =>
    rcases directMapCallback_zero (n := v / pageSize) (by omega) with ⟨hp₁, -, hp₃⟩
    rw [if_pos ⟨.inl (by omega), hp₁⟩, hp₃, Nat.div_add_mod]
  case isFalse =>
    rw [if_neg]
    rintro ⟨-, hpres⟩
    cases hpres

/-- An address of the heap that is translated is in a resident page. -/
theorem RunInv.translate_backed (hinv : RunInv all M root top h) (hp : PlainTables h.kernel.phys.mem h.kernel.cr3)
    (hv : 2 ^ 39 ≤ v) {t : Mapping} (ht : translateAddr h.kernel.phys.mem h.kernel.cr3 v = some t) : CanonicalAddr v ∧
      Backed h.kernel.phys.mem h.kernel.cr3 (pageOf v) (h.kernel.leaf (pageOf v)).frame ∧
      t.phys = (h.kernel.leaf (pageOf v)).frame + v % pageSize := by
  rw [hinv.translate_eq hall hp] at ht
  split at ht
  case isFalse => cases ht
  case isTrue hpres =>
    cases ht
    have hc := hpres.1
    refine ⟨hc, ⟨?_, pageOf_lt v, hpres.2, rfl⟩, rfl⟩
    unfold CanonicalAddr at hc
    unfold pageOf pageSize
    omega

end

section
variable {regions : List MemRegion} (hr : BootRegions regions) {mem : Mem} {root : Nat} {s₀ : Phys}
  (hinit : initPageTable ⟨mem, 0, regions⟩ = .ok (root, s₀))
include hr hinit

/-- The invariant along every run, with plain tables. -/
theorem heapRun_plain {h : HeapState} (hrun : Relation.ReflTransGen HeapStep (.boot root s₀) h) : ∃ M top,
    MappedFrames (allPages regions) M ∧ RunInv (allPages regions) M root top h ∧
      PlainTables h.kernel.phys.mem h.kernel.cr3 ∧ memEnd regions = pageSize * (M + 1) := by
  rcases hr.memEnd_pages with ⟨M, h1, hM, hend⟩
  have hall := hr.mappedFrames h1 hM hend
  have hmap := (initPageTable_mapInv hr.regionsOK.frames hr.allPages_lt (hr.regionsOK.frameInv mem)
    (hM.trans (by decide)) hend).1 root s₀ hinit
  have hplain := initPageTable_plain hr.regionsOK.frames hr.allPages_lt (M := M) (hr.regionsOK.frameInv mem) hinit
  rcases hrun.invariant (fun h => (∃ top, RunInv (allPages regions) M root top h) ∧
      PlainTables h.kernel.phys.mem h.kernel.cr3) ⟨⟨_, hmap.runInv hM⟩, hplain⟩
    fun _ _ hst ⟨⟨_, hinv⟩, hp⟩ => ⟨hst.runInv hall hinv, hst.plain hall hinv hp⟩ with ⟨⟨top, hinv⟩, hp⟩
  exact ⟨M, top, hall, hinv, hp, hend⟩

/-- In every state of every run of the heap the processor takes each canonical address with a present page, and no
other, to where `page_table_virt_to_phys_addr` says it is, and lets it be written. Below the heap these are the addresses
of the memory after page 0, which are their own translations; in the heap no two addresses lead to one byte, and none
leads to a page table or to a frame that the allocator has. -/
theorem heapRun_translate {h : HeapState} (hrun : Relation.ReflTransGen HeapStep (.boot root s₀) h) :
    (∀ v, translateAddr h.kernel.phys.mem h.kernel.cr3 v =
      if CanonicalAddr v ∧ (h.kernel.leaf (pageOf v)).present = true then
        some ⟨(h.kernel.leaf (pageOf v)).frame + v % pageSize, true⟩ else none) ∧
    (∀ v t, translateAddr h.kernel.phys.mem h.kernel.cr3 v = some t →
      pageTableVirtToPhysAddr h.kernel.cr3 v h.kernel.phys = .ok t.phys) ∧
    (∀ v, v < 2 ^ 39 → translateAddr h.kernel.phys.mem h.kernel.cr3 v =
      if pageSize ≤ v ∧ v < memEnd regions then some ⟨v, true⟩ else none) ∧
    ∀ v t, 2 ^ 39 ≤ v → translateAddr h.kernel.phys.mem h.kernel.cr3 v = some t →
      (∀ v', 2 ^ 39 ≤ v' → translateAddr h.kernel.phys.mem h.kernel.cr3 v' = some t → v = v') ∧
      ∀ f, Kept h.kernel.phys h.kernel.cr3 f → ¬ InRange f pageSize t.phys := by
  rcases heapRun_plain hr hinit hrun with ⟨M, top, hall, hinv, hp, hend⟩
  refine ⟨fun v => hinv.translate_eq hall hp, fun v t ht => ?_, fun v hv => ?_,
    fun v t hv ht => ⟨fun v' hv' ht' => ?_, fun f hf hin => ?_⟩⟩
  · rw [hinv.translate_eq hall hp] at ht
    split at ht
    case isFalse => cases ht
    case isTrue hpres =>
      cases ht
      cases hs : leafSlot h.kernel.phys.mem h.kernel.cr3 (pageOf v) with
      | none =>
        have hzero : h.kernel.leaf (pageOf v) = .zero := by simp [Kernel.leaf, leafEntry, hs]
        rw [hzero] at hpres
        cases hpres.2
      | some slot =>
        have hleaf : h.kernel.leaf (pageOf v) = getEntry h.kernel.phys.mem slot := leafEntry_of_slot hs
        rw [pageTableVirtToPhysAddr_eq hs, hleaf]
  · rw [hinv.translate_ident hall hp hv, hend]
  · rcases hinv.translate_backed hall hp hv ht with ⟨hc, hb, hphys⟩
    rcases hinv.translate_backed hall hp hv' ht' with ⟨hc', hb', hphys'⟩
    have hmod := PageEntry.frame_mod (h.kernel.leaf (pageOf v))
    have hmod' := PageEntry.frame_mod (h.kernel.leaf (pageOf v'))
    have hframe : (h.kernel.leaf (pageOf v)).frame = (h.kernel.leaf (pageOf v')).frame := by
      unfold pageSize at *
      omega
    have hoff : v % pageSize = v' % pageSize := by omega
    rw [hframe] at hb
    exact canonicalAddr_ext hc hc' (hinv.inv.heap.inj _ _ _ hb hb') hoff
  · rcases hinv.translate_backed hall hp hv ht with ⟨-, hb, hphys⟩
    have hin' : InRange (h.kernel.leaf (pageOf v)).frame pageSize t.phys := by
      rw [hphys]
      exact ⟨Nat.le_add_right _ _, Nat.add_lt_add_left (Nat.mod_lt _ (by decide)) _⟩
    obtain rfl := page_unique (hall.aligned f (hinv.inv.heap.kept_mem hf)) (PageEntry.frame_mod _) hin hin'
    exact hinv.inv.heap.not_kept hall hb hf

end

/-- A used heap page on a machine of eight pages. -/
theorem heapRun_translate_eight_pages : ∃ root s₀ h f,
    initPageTable ⟨fun _ => 0, 0, [⟨0x1000, 0x9000, 0x1000⟩]⟩ = .ok (root, s₀) ∧
      Relation.ReflTransGen HeapStep (.boot root s₀) h ∧
      translateAddr h.kernel.phys.mem h.kernel.cr3 0x8000000123 = some ⟨f + 0x123, true⟩ := by
  rcases heapRun_eight_pages with ⟨root, s₀, k, k', hinit, halloc, htouch⟩
  have hrun₁ : Relation.ReflTransGen HeapStep (.boot root s₀) ⟨k, _, _⟩ := .single (.allocPage halloc)
  rcases heapRun_inv bootRegions_eight_pages hinit hrun₁ with ⟨M, top, hall, hinv⟩
  have hpres := (hinv.inv.touch_ok hall htouch).2.2.1
  have hrun := hrun₁.tail (.touch htouch)
  have hcanonical : CanonicalAddr 0x8000000123 := .inl (by decide)
  exact ⟨root, s₀, _, _, hinit, hrun,
    ((heapRun_translate bootRegions_eight_pages hinit hrun).1 0x8000000123).trans (if_pos ⟨hcanonical, hpres⟩)⟩

end BanjOS
