import BanjOS.PageAllocator.HeapRuns

/-!
# The contents of memory under demand paging

The memory management writes page tables, frames that become page tables, and the links of frames that it takes back. A
byte is spared (`Spared`) if it is in none of the frames of the region table, or in the frame of a resident heap page; no
operation changes a spared byte, apart from those of a frame that is given back. So what a client has in its heap pages,
and what the kernel has in its static data, stays there across every page fault and every reservation.
-/

namespace BanjOS

open ByteMem Radix

/-- The byte is in no frame, those of `held` apart. -/
def Spared (all : List Nat) (held : Set Nat) (b : Nat) : Prop := ∀ f ∈ all, f ∉ held → ¬ InRange f pageSize b

/-- The frames of the resident heap pages. -/
abbrev backedFrames (m : Mem) (root : Nat) : Set Nat := {f | ∃ n, Backed m root n f}

/-- A byte outside of all frames. -/
theorem spared_of_outside {all : List Nat} {held : Set Nat} {b : Nat} (h : ∀ f ∈ all, ¬ InRange f pageSize b) :
    Spared all held b := fun f hf _ => h f hf

/-- A byte is in one page. -/
theorem page_unique {f g b : Nat} (hf : f % pageSize = 0) (hg : g % pageSize = 0) (hb : InRange f pageSize b)
    (hb' : InRange g pageSize b) : f = g := by
  have h₁ := hb.1
  have h₂ := hb.2
  have h₃ := hb'.1
  have h₄ := hb'.2
  unfold pageSize at *
  omega

/-- A byte of a held frame. -/
theorem Frames.spared_of_mem {all : List Nat} {held : Set Nat} (hf : Frames all) {f b : Nat} (hheld : f ∈ held)
    (hmod : f % pageSize = 0) (hb : InRange f pageSize b) : Spared all held b := by
  intro g hg hnot hb'
  exact hnot (page_unique (hf.aligned g hg) hmod hb' hb ▸ hheld)

section
variable {all : List Nat} {root : Nat} {held : Set Nat} {s s' : Phys} {b : Nat}

/-- A byte of a page table is not spared. -/
theorem FramesFor.not_inRange_table (h : FramesFor all root held s) {t : Nat} (ht : IsTable s.mem root t)
    (hb : Spared all held b) : ¬ InRange t pageSize b := by
  rcases h with ⟨out, hinv, hout, hheld⟩
  exact hb t (hinv.mem_all ((hout t).2 (.inr ht))) fun hmem => hheld t hmem ht

/-- A leaf entry is written into a page table. -/
theorem FramesFor.setEntry_spared (h : FramesFor all root held s) {n slot : Nat} (hn : n < 2 ^ 36)
    (hs : leafSlot s.mem root n = some slot) (e : PageEntry) (hb : Spared all held b) : setEntry s.mem slot e b = s.mem b := by
  rcases leafSlot_eq_some.1 hs with ⟨t, ht, rfl⟩
  have hmod : n % 512 < 512 := Nat.mod_lt _ (by decide)
  refine setEntry_apply_of_not_mem fun hin => ?_
  exact h.not_inRange_table ⟨3, _, Nat.le_refl 3, leaf_num_lt hn, ht⟩ hb
    (hin.mono (Nat.le_add_right _ _) (by unfold pageSize; omega))

variable (hf : Frames all) (hlt : ∀ f ∈ all, f < 2 ^ 52)
include hf hlt

/-- The allocator supplies walks with frames that hold no spared byte. -/
theorem framesFor_supply_spared (root : Nat) (held : Set Nat) (m : Mem) :
    Supply root fun s => FramesFor all root held s ∧ ∀ b, Spared all held b → s.mem b = m b where
  frame h := (framesFor_supply hf hlt root held).frame h.1
  hang := by
    rintro s s' pf p i ⟨hfor, hmem⟩ ha hp hi hiff
    refine ⟨(framesFor_supply hf hlt root held).hang hfor ha hp hi hiff, fun b hb => ?_⟩
    rcases id hfor with ⟨out, hinv, hout, -⟩
    have hinv' := hinv.alloc ha
    have hnew : pf ∉ held := fun hmem => (List.nodup_cons.1 (hinv'.out_nodup hf)).1 ((hout pf).2 (.inl hmem))
    rw [← hmem b hb]
    refine installTable_apply_of_not_mem (hb pf (hinv'.mem_all (.head _)) hnew) fun hin => ?_
    exact hfor.not_inRange_table hp hb (hin.mono (Nat.le_add_right _ _) (by unfold pageSize; omega))

/-- A walk that allocates page tables. -/
theorem FramesFor.getEntry_spared (h : FramesFor all root held s) (hT : TreeOK s.mem root) {v : Nat} {r : Option Nat}
    (hr : pageTableGetEntry root v true s = .ok (r, s')) :
    FramesFor all root held s' ∧ Grown root (pageOf v) s.mem s'.mem ∧
      (∃ slot, r = some slot ∧ leafSlot s'.mem root (pageOf v) = some slot) ∧
      ∀ b, Spared all held b → s'.mem b = s.mem b := by
  rcases (pageTableGetEntry_grown (framesFor_supply_spared hf hlt root held s.mem) ⟨h, fun _ _ => rfl⟩ hT v).1 r s' hr with
    ⟨⟨hfor, hmem⟩, hgrow, hslot⟩
  exact ⟨hfor, hgrow, hslot, hmem⟩

/-- A walk stops only for want of a frame. -/
theorem FramesFor.getEntry_error (h : FramesFor all root held s) (hT : TreeOK s.mem root) {v : Nat} {e : Stop}
    (hr : pageTableGetEntry root v true s = .error e) : e = .outOfMemory := by
  rcases (pageTableGetEntry_grown (framesFor_supply hf hlt root held) h hT v).2 e hr with ⟨s₁, -, -, -, -, ha, -⟩
  exact mmuPfAlloc_error ha

/-- A walk over many pages, with any callback. -/
theorem walkPages_spared (callback : Nat → PageEntry → PageEntry) : ∀ n addr s, FramesFor all root held s →
    TreeOK s.mem root → ∀ s', walkPages root callback n addr s = .ok s' → ∀ b, Spared all held b → s'.mem b = s.mem b := by
  intro n
  induction n with
  | zero =>
    intro addr s _ _ s' hs'
    cases hs'
    exact fun _ _ => rfl
  | succ n ih =>
    intro addr s h hT s' hs' b hb
    rcases Except.bind_eq_ok.1 hs' with ⟨⟨r, s₁⟩, hr, hrest⟩
    rcases h.getEntry_spared hf hlt hT hr with ⟨hfor, hgrow, ⟨slot, rfl, hslot⟩, hmem⟩
    have hn := pageOf_lt addr
    have hset := hgrow.ok.leafSet hn hslot (callback addr (getEntry s₁.mem slot))
    have hrec := ih (addr + pageSize) _ (hfor.setLeaf hf hgrow.ok hn hslot _) hset.ok s' hrest b hb
    exact hrec.trans ((hfor.setEntry_spared hn hslot _ hb).trans (hmem b hb))

/-- A walk over many pages stops only for want of a frame. -/
theorem walkPages_error (callback : Nat → PageEntry → PageEntry) : ∀ n addr s, FramesFor all root held s →
    TreeOK s.mem root → ∀ e, walkPages root callback n addr s = .error e → e = .outOfMemory := by
  intro n
  induction n with
  | zero =>
    intro addr s _ _ e he
    cases he
  | succ n ih =>
    intro addr s h hT e he
    rcases Except.bind_eq_error.1 he with hget | ⟨⟨r, s₁⟩, hr, hrest⟩
    · exact h.getEntry_error hf hlt hT hget
    · rcases h.getEntry_spared hf hlt hT hr with ⟨hfor, hgrow, ⟨slot, rfl, hslot⟩, -⟩
      have hn := pageOf_lt addr
      have hset := hgrow.ok.leafSet hn hslot (callback addr (getEntry s₁.mem slot))
      exact ih (addr + pageSize) _ (hfor.setLeaf hf hgrow.ok hn hslot _) hset.ok e hrest

end

/-! ## The operations -/

section
variable {all : List Nat} {M top : Nat} (hall : MappedFrames all M) {k k' : Kernel} {b : Nat}
include hall

/-- `MMU_alloc_page`. -/
theorem KernelInv.allocPage_spared (h : KernelInv all M top k) {v : Nat} (hr : mmuAllocPage k = .ok (v, k'))
    (hb : Spared all (backedFrames k.phys.mem k.cr3) b) : k'.phys.mem b = k.phys.mem b := by
  rcases Except.bind_eq_ok.1 hr with ⟨⟨r, s₁⟩, hget, hres⟩
  cases hres
  rcases h.heap.frames.getEntry_spared hall.toFrames hall.fits52 h.heap.ok hget with
    ⟨hfor, -, ⟨slot, rfl, hslot⟩, hmem⟩
  exact (hfor.setEntry_spared (pageOf_lt _) hslot _ hb).trans (hmem b hb)

/-- `MMU_alloc_pages`. -/
theorem KernelInv.allocPages_spared (h : KernelInv all M top k) {num : Int} {v : Nat}
    (hr : mmuAllocPages num k = .ok (v, k')) (hb : Spared all (backedFrames k.phys.mem k.cr3) b) :
    k'.phys.mem b = k.phys.mem b := by
  rcases Except.bind_eq_ok.1 hr with ⟨s₁, hwalk, hres⟩
  cases hres
  exact walkPages_spared hall.toFrames hall.fits52 _ _ _ _ h.heap.frames h.heap.ok s₁ hwalk b hb

/-- `MMU_alloc_page` stops only for want of a frame. -/
theorem KernelInv.allocPage_error (h : KernelInv all M top k) {e : Stop} (hr : mmuAllocPage k = .error e) :
    e = .outOfMemory := by
  rcases Except.bind_eq_error.1 hr with hget | ⟨x, -, hres⟩
  · exact h.heap.frames.getEntry_error hall.toFrames hall.fits52 h.heap.ok hget
  · cases hres

/-- `MMU_alloc_pages` stops only for want of a frame. -/
theorem KernelInv.allocPages_error (h : KernelInv all M top k) {num : Int} {e : Stop}
    (hr : mmuAllocPages num k = .error e) : e = .outOfMemory := by
  rcases Except.bind_eq_error.1 hr with hwalk | ⟨x, -, hres⟩
  · exact walkPages_error hall.toFrames hall.fits52 _ _ _ _ h.heap.frames h.heap.ok e hwalk
  · cases hres

omit hall in
/-- A use of an address, with its page fault. -/
theorem KernelInv.touch_spared (h : KernelInv all M top k) {v : Nat} (ht : touch v k = .ok k')
    (hb : Spared all (backedFrames k.phys.mem k.cr3) b) : k'.phys.mem b = k.phys.mem b := by
  rw [touch] at ht
  split at ht
  case isTrue =>
    cases ht
    rfl
  case isFalse =>
    rw [pageFaultHandler, pageTableGetEntry_lookup] at ht
    cases hs : leafSlot k.phys.mem k.cr3 (pageOf v) with
    | none =>
      simp only [hs, bind, Except.bind] at ht
      cases ht
    | some slot =>
      simp only [hs, bind, Except.bind] at ht
      split at ht
      case isTrue => cases ht
      case isFalse =>
        cases ha : mmuPfAlloc k.phys with
        | error e =>
          rw [ha] at ht
          cases ht
        | ok x =>
          rw [ha] at ht
          cases ht
          rw [mmuPfAlloc_mem ha]
          exact h.heap.frames.setEntry_spared (pageOf_lt v) hs _ hb

/-- What `MMU_free_page` of a resident page writes: the link into the frame, and the entry. -/
theorem KernelInv.freePage_eq (h : KernelInv all M top k) {v pf : Nat} (hback : Backed k.phys.mem k.cr3 (pageOf v) pf)
    (hr : mmuFreePage v k = .ok k') : pf ∈ all ∧ ∃ slot, leafSlot k.phys.mem k.cr3 (pageOf v) = some slot ∧
      k' = { k with phys := { mmuPfFree pf k.phys with
        mem := setEntry (mmuPfFree pf k.phys).mem slot
          { getEntry (mmuPfFree pf k.phys).mem slot with present := false } } } := by
  rcases h.heap.exists_slot hback.1 hback.2.1 (h.heap.backed_lt hback) with ⟨slot, hs⟩
  rcases h.heap.frames with ⟨out, hinv, hout, -⟩
  have hmem : pf ∈ all := hinv.mem_all ((hout pf).2 (.inl ⟨_, hback⟩))
  have hframe : (getEntry k.phys.mem slot).frame = pf := by
    rw [← leafEntry_of_slot hs]
    exact hback.2.2.2
  have htouch : touch pf k = .ok k := if_pos (h.heap.frame_present hall hmem)
  rw [mmuFreePage, pageTableGetEntry_found hs] at hr
  simp only [bind, Except.bind, Option.getD_some, hframe, htouch] at hr
  cases hr
  exact ⟨hmem, slot, hs, rfl⟩

/-- The first turn of the loop of `MMU_free_pages` over resident pages. -/
theorem KernelInv.freePagesFrom_succ (h : KernelInv all M top k) {n v : Nat} (hle : 2 ^ 27 ≤ v / pageSize)
    (hlt : v / pageSize + (n + 1) ≤ 2 ^ 36)
    (hres : ∀ j, v / pageSize ≤ j → j < v / pageSize + (n + 1) → (k.leaf j).present = true)
    (hk' : BanjOS.freePagesFrom (n + 1) v k = .ok k') : pageOf v = v / pageSize ∧
      Backed k.phys.mem k.cr3 (pageOf v) (k.leaf (v / pageSize)).frame ∧
      ∃ k₁, mmuFreePage v k = .ok k₁ ∧ KernelInv all M top k₁ ∧
        (∀ j, j < 2 ^ 36 → j ≠ pageOf v → k₁.leaf j = k.leaf j) ∧
        BanjOS.freePagesFrom n (v + pageSize) k₁ = .ok k' := by
  have hpage : pageOf v = v / pageSize := pageOf_eq (by unfold pageSize at hlt; omega)
  have hback : Backed k.phys.mem k.cr3 (pageOf v) (k.leaf (v / pageSize)).frame :=
    ⟨hpage ▸ hle, pageOf_lt v, hpage ▸ hres _ (Nat.le_refl _) (by omega), by rw [hpage]⟩
  rcases h.freePage hall hback with ⟨k₁, hk₁, -, h₁, -, hleaf⟩
  rcases Except.bind_eq_ok.1 hk' with ⟨k₂, hk₂, hrest⟩
  obtain rfl : k₁ = k₂ := Except.ok.inj (hk₁.symm.trans hk₂)
  exact ⟨hpage, hback, k₁, hk₁, h₁, fun j hj hne => (hleaf j hj).trans (if_neg hne), hrest⟩

/-- `MMU_free_page` of a resident page: the link is written into the frame. -/
theorem KernelInv.freePage_spared (h : KernelInv all M top k) {v pf : Nat} (hback : Backed k.phys.mem k.cr3 (pageOf v) pf)
    (hr : mmuFreePage v k = .ok k') (hb : Spared all (backedFrames k.phys.mem k.cr3) b) (hpf : ¬ InRange pf pageSize b) :
    k'.phys.mem b = k.phys.mem b := by
  rcases h.freePage_eq hall hback hr with ⟨-, slot, hs, rfl⟩
  have hlink : (mmuPfFree pf k.phys).mem b = k.phys.mem b :=
    store64_apply_of_not_mem fun hin => hpf (hin.mono (Nat.le_refl _) (by unfold pageSize; omega))
  rcases leafSlot_eq_some.1 hs with ⟨t, ht, rfl⟩
  have hmod : pageOf v % 512 < 512 := Nat.mod_lt _ (by decide)
  refine (setEntry_apply_of_not_mem fun hin => ?_).trans hlink
  exact h.heap.frames.not_inRange_table ⟨3, _, Nat.le_refl 3, leaf_num_lt (pageOf_lt v), ht⟩ hb
    (hin.mono (Nat.le_add_right _ _) (by unfold pageSize; omega))

/-- The loop of `MMU_free_pages` over resident pages. -/
theorem KernelInv.freePagesFrom_spared : ∀ n v k, KernelInv all M top k → 2 ^ 27 ≤ v / pageSize →
    v / pageSize + n ≤ 2 ^ 36 → (∀ j, v / pageSize ≤ j → j < v / pageSize + n → (k.leaf j).present = true) →
    ∀ k', BanjOS.freePagesFrom n v k = .ok k' → Spared all (backedFrames k.phys.mem k.cr3) b →
    (∀ j, v / pageSize ≤ j → j < v / pageSize + n → ¬ InRange (k.leaf j).frame pageSize b) →
    k'.phys.mem b = k.phys.mem b := by
  intro n
  induction n with
  | zero =>
    intro v k _ _ _ _ k' hk' _ _
    cases hk'
    rfl
  | succ n ih =>
    intro v k h hle hlt hres k' hk' hb hframes
    rcases h.freePagesFrom_succ hall hle hlt hres hk' with ⟨hpage, hback, k₁, hk₁, h₁, hleaf, hrest⟩
    have hdiv : (v + pageSize) / pageSize = v / pageSize + 1 := Nat.add_div_right v (by decide)
    have hself := hframes _ (Nat.le_refl _) (by omega)
    have hfirst := h.freePage_spared hall hback hk₁ hb hself
    have hsame (j : Nat) (hj : v / pageSize + 1 ≤ j) (hj' : j < v / pageSize + 1 + n) : k₁.leaf j = k.leaf j :=
      hleaf j (by omega) (by omega)
    -- the frame that was given back holds the byte no more than the others
    have hb₁ : Spared all (backedFrames k₁.phys.mem k₁.cr3) b := by
      intro f hf hnot
      rcases Classical.em (f = (k.leaf (v / pageSize)).frame) with rfl | hne
      · exact hself
      · refine hb f hf fun ⟨j, hle', hj, hp, hfr⟩ => hnot ⟨j, hle', hj, ?_⟩
        have hjv : j ≠ pageOf v := by
          rintro rfl
          rw [hpage] at hfr
          exact hne hfr.symm
        have heq : leafEntry k₁.phys.mem k₁.cr3 j = leafEntry k.phys.mem k.cr3 j := hleaf j hj hjv
        rw [heq]
        exact ⟨hp, hfr⟩
    rw [← hfirst]
    refine ih (v + pageSize) k₁ h₁ (by omega) (by omega) (fun j hj hj' => ?_) k' hrest hb₁ fun j hj hj' => ?_
    · rw [hdiv] at hj hj'
      rw [hsame j hj hj']
      exact hres j (by omega) (by omega)
    · rw [hdiv] at hj hj'
      rw [hsame j hj hj']
      exact hframes j (by omega) (by omega)

end

end BanjOS
