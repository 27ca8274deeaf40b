import BanjOS.Lib.Lockstep
import BanjOS.Allocator.Dedicated
import BanjOS.Allocator.PoolRuns
import BanjOS.PageAllocator.Contents

/-!
# Words over demand paging

What the operations of the paged kernel are for the flat memory that `kmalloc` is proved correct over. `Tracks` relates
the two at a set `D` of bytes, those that were written since their page got its frame: there the flat memory has what the
frames have. Both have the same pages and the same break. The words of `D` are read alike (`Tracks.load`), a store to any
page that is allocated adds its word to `D` (`Tracks.store`), and pages are reserved and released alike, as long as the
frames last (`Tracks.allocPage`, `Tracks.allocPages`, `Tracks.freePages`).
-/

namespace BanjOS

open ByteMem PagedMem

/-- The bytes of the pool table. -/
abbrev poolsLen : Nat := 16 * blockSizesLen

/-- The pool table is static data: it is in the identity map of the pages up to `M`, and in no frame. -/
structure PoolsStatic (all : List Nat) (M pools : Nat) : Prop extends PoolsOK pools where
  aligned : pools % 8 = 0
  lower : pageSize ≤ pools
  upper : pools + poolsLen ≤ pageSize * (M + 1)
  outside : ∀ f ∈ all, ∀ b, InRange pools poolsLen b → ¬ InRange f pageSize b

/-- A byte of the pool table, or one of a resident page. -/
def ReadyByte (pools : Nat) (h : HeapState) (b : Nat) : Prop :=
  InRange pools poolsLen b ∨ b / pageSize ∈ h.live ∧ (h.kernel.leaf (b / pageSize)).present = true

/-- The byte is in no frame and not in the pool table. -/
def OtherStatic (all : List Nat) (pools b : Nat) : Prop :=
  (∀ f ∈ all, ¬ InRange f pageSize b) ∧ ¬ InRange pools poolsLen b

/-- The flat memory `s` follows the paged kernel at the bytes of `D`. The pages of `A` are reserved and were never used. The
other static data is as in `m₀`. -/
structure Tracks (all : List Nat) (M root pools : Nat) (m₀ : Mem) (A D : Set Nat) (s : Flat) (h : HeapState) : Prop where
  run : ∃ top, RunInv all M root top h ∧ s.brk = pageSize * top
  mapped : ∀ n, s.mapped n = true ↔ n ∈ h.live
  ready : ∀ b ∈ D, ReadyByte pools h b
  bytes : ∀ b ∈ D, s.mem b = h.kernel.phys.mem (h.kernel.translate b)
  absent : ∀ n ∈ A, n ∈ h.live ∧ (h.kernel.leaf n).present = false
  static : ∀ b, OtherStatic all pools b → h.kernel.phys.mem b = m₀ b

section
variable {all : List Nat} {M root pools top : Nat} (hall : MappedFrames all M) (hp : PoolsStatic all M pools) {m₀ : Mem}
  {A D : Set Nat} {s : Flat} {h h' : HeapState} {v b : Nat}

/-- The break says where the heap ends. -/
theorem KernelInv.top_unique {k k' : Kernel} {top' : Nat} (h : KernelInv all M top k) (h' : KernelInv all M top' k')
    (hbrk : k.brk = k'.brk) : top = top' := by
  have heq := h.brk.symm.trans (hbrk.trans h'.brk)
  unfold pageSize at heq
  omega

theorem Tracks.mono {D' : Set Nat} (ht : Tracks all M root pools m₀ A D s h) (hD : D' ⊆ D) :
    Tracks all M root pools m₀ A D' s h where
  run := ht.run
  mapped := ht.mapped
  ready b hb := ht.ready b (hD hb)
  bytes b hb := ht.bytes b (hD hb)
  absent := ht.absent
  static := ht.static

theorem Tracks.mono_pages {A' : Set Nat} (ht : Tracks all M root pools m₀ A D s h) (hA : A' ⊆ A) :
    Tracks all M root pools m₀ A' D s h where
  run := ht.run
  mapped := ht.mapped
  ready := ht.ready
  bytes := ht.bytes
  absent n hn := ht.absent n (hA hn)
  static := ht.static

/-- A page that was never used is below the break. -/
theorem Tracks.absent_lt (ht : Tracks all M root pools m₀ A D s h) {n : Nat} (hn : n ∈ A) : n < s.brk / pageSize := by
  rcases ht.run with ⟨top, hrun, hbrk⟩
  have hlt := ((hrun.marked n).1 (.inl (ht.absent n hn).1)).2
  rwa [hbrk, Nat.mul_div_cancel_left _ (by decide)]

/-! ## Addresses -/

include hall in
theorem RunInv.page_lt (hinv : RunInv all M root top h) {n : Nat} (hn : n ∈ h.live) : 2 ^ 27 ≤ n ∧ n < 2 ^ 36 := by
  have htop := hinv.inv.heap.top_lt hall
  have hmarked := (hinv.marked n).1 (.inl hn)
  omega

include hp in
/-- Static data is where the identity map has it. -/
theorem RunInv.translate_static (hinv : RunInv all M root top h) (hM : M < 2 ^ 27) (hb : InRange pools poolsLen b) :
    (h.kernel.leaf (pageOf b)).present = true ∧ h.kernel.translate b = b := by
  have hlower := hp.lower
  have hupper := hp.upper
  have h₁ := hb.1
  have h₂ := hb.2
  unfold pageSize at hlower hupper
  have hpage : pageOf b = b / pageSize := pageOf_eq (by omega)
  have hentry : h.kernel.leaf (pageOf b) = directMapCallback (pageSize * (b / pageSize)) .zero := by
    rw [hpage, Kernel.leaf, hinv.inv.heap.ident _ (by unfold pageSize; omega), identEntry,
      if_pos (by unfold pageSize; omega)]
  rcases directMapCallback_zero (n := b / pageSize) (by unfold pageSize; omega) with ⟨hpres, -, hframe⟩
  rw [Kernel.translate, hentry, hframe]
  exact ⟨hpres, Nat.div_add_mod b pageSize⟩

include hall hp in
/-- A byte that is ready has a present leaf entry. -/
theorem RunInv.present_of_ready (hinv : RunInv all M root top h) (hb : ReadyByte pools h b) :
    (h.kernel.leaf (pageOf b)).present = true := by
  rcases hb with hb | ⟨hlive, hpres⟩
  · exact (hinv.translate_static hp hall.lt hb).1
  · have hlt := hinv.page_lt hall hlive
    rw [pageOf_eq (by unfold pageSize at hlt; omega)]
    exact hpres

include hall in
/-- A byte of a resident page is in the frame of the page. -/
theorem RunInv.translate_heap (hinv : RunInv all M root top h) (hlive : b / pageSize ∈ h.live)
    (hpres : (h.kernel.leaf (b / pageSize)).present = true) :
    Backed h.kernel.phys.mem h.kernel.cr3 (b / pageSize) (h.kernel.leaf (b / pageSize)).frame ∧
      InRange (h.kernel.leaf (b / pageSize)).frame pageSize (h.kernel.translate b) ∧
      h.kernel.translate b = (h.kernel.leaf (b / pageSize)).frame + b % pageSize := by
  have hlt := hinv.page_lt hall hlive
  have hpage : pageOf b = b / pageSize := pageOf_eq (by unfold pageSize at hlt; omega)
  have hmod : b % pageSize < pageSize := Nat.mod_lt _ (by decide)
  refine ⟨⟨hlt.1, hlt.2, hpres, rfl⟩, ?_, by rw [Kernel.translate, hpage]⟩
  rw [Kernel.translate, hpage]
  exact ⟨Nat.le_add_right _ _, Nat.add_lt_add_left hmod _⟩

include hall in
/-- The frame of a resident heap page is a frame of the region table. -/
theorem RunInv.frame_mem (hinv : RunInv all M root top h) {n f : Nat} (hb : Backed h.kernel.phys.mem h.kernel.cr3 n f) :
    f ∈ all ∧ f % pageSize = 0 := by
  rcases hinv.inv.heap.frames with ⟨out, hframes, hout, -⟩
  have hmem : f ∈ all := hframes.mem_all ((hout f).2 (.inl ⟨n, hb⟩))
  exact ⟨hmem, hall.aligned f hmem⟩

include hall hp in
/-- Bytes that are ready are apart in physical memory. -/
theorem RunInv.translate_inj (hinv : RunInv all M root top h) {b' : Nat} (hb : ReadyByte pools h b)
    (hb' : ReadyByte pools h b') (heq : h.kernel.translate b = h.kernel.translate b') : b = b' := by
  rcases hb with hb | ⟨hlive, hpres⟩
  · rw [(hinv.translate_static hp hall.lt hb).2] at heq
    rcases hb' with hb' | ⟨hlive', hpres'⟩
    · rw [heq, (hinv.translate_static hp hall.lt hb').2]
    · rcases hinv.translate_heap hall hlive' hpres' with ⟨hback, hin, -⟩
      rw [← heq] at hin
      exact absurd hin (hp.outside _ (hinv.frame_mem hall hback).1 b hb)
  · rcases hinv.translate_heap hall hlive hpres with ⟨hback, hin, htr⟩
    rcases hb' with hb' | ⟨hlive', hpres'⟩
    · rw [heq, (hinv.translate_static hp hall.lt hb').2] at hin
      exact absurd hin (hp.outside _ (hinv.frame_mem hall hback).1 b' hb')
    · rcases hinv.translate_heap hall hlive' hpres' with ⟨hback', hin', htr'⟩
      have hframe : (h.kernel.leaf (b / pageSize)).frame = (h.kernel.leaf (b' / pageSize)).frame :=
        page_unique (hinv.frame_mem hall hback).2 (hinv.frame_mem hall hback').2 (heq ▸ hin) hin'
      have hpage : b / pageSize = b' / pageSize := hinv.inv.heap.inj _ _ _ hback (hframe ▸ hback')
      have hoff : b % pageSize = b' % pageSize := by omega
      rw [← Nat.div_add_mod b pageSize, hpage, hoff, Nat.div_add_mod]

include hall hp in
/-- A byte that is ready is in no frame that the memory management keeps. -/
theorem RunInv.ready_not_kept (hinv : RunInv all M root top h) (hb : ReadyByte pools h b) {f : Nat}
    (hf : Kept h.kernel.phys h.kernel.cr3 f) : ¬ InRange f pageSize (h.kernel.translate b) := by
  have hmem := hinv.inv.heap.kept_mem hf
  rcases hb with hb | ⟨hlive, hpres⟩
  · rw [(hinv.translate_static hp hall.lt hb).2]
    exact hp.outside f hmem b hb
  · rcases hinv.translate_heap hall hlive hpres with ⟨hback, hin, -⟩
    intro hin'
    obtain rfl := page_unique (hall.aligned f hmem) (hinv.frame_mem hall hback).2 hin' hin
    exact hinv.inv.heap.not_kept hall hback hf

include hall hp in
/-- A byte that is ready is spared by the memory management. -/
theorem RunInv.ready_spared (hinv : RunInv all M root top h) (hb : ReadyByte pools h b) :
    Spared all (backedFrames h.kernel.phys.mem h.kernel.cr3) (h.kernel.translate b) := by
  rcases hb with hb | ⟨hlive, hpres⟩
  · rw [(hinv.translate_static hp hall.lt hb).2]
    exact spared_of_outside fun f hf => hp.outside f hf b hb
  · rcases hinv.translate_heap hall hlive hpres with ⟨hback, hin, -⟩
    exact hall.spared_of_mem ⟨_, hback⟩ (hinv.frame_mem hall hback).2 hin

include hall hp in
/-- After a step of the memory management the flat memory follows at the bytes whose frames are left alone. -/
theorem Tracks.step {A' D' : Set Nat} {s' : Flat} {top' : Nat} (ht : Tracks all M root pools m₀ A D s h)
    (hstep : HeapStep h h') (htop : KernelInv all M top' h'.kernel) (hbrk : s'.brk = pageSize * top')
    (hmapped : ∀ n, s'.mapped n = true ↔ n ∈ h'.live) (hmem : s'.mem = s.mem) (hD : D' ⊆ D)
    (hpages : ∀ b ∈ D', ¬ InRange pools poolsLen b →
      b / pageSize ∈ h'.live ∧ h'.kernel.leaf (b / pageSize) = h.kernel.leaf (b / pageSize))
    (hkept : ∀ b ∈ D', h'.kernel.phys.mem (h.kernel.translate b) = h.kernel.phys.mem (h.kernel.translate b))
    (habsent : ∀ n ∈ A', n ∈ h'.live ∧ (h'.kernel.leaf n).present = false)
    (hstatic : ∀ b, OtherStatic all pools b → h'.kernel.phys.mem b = h.kernel.phys.mem b) :
    Tracks all M root pools m₀ A' D' s' h' := by
  rcases ht.run with ⟨top, hinv, -⟩
  rcases hstep.runInv hall hinv with ⟨top'', hinv'⟩
  rw [hinv'.inv.top_unique htop rfl] at hinv'
  have hready (b : Nat) (hb : b ∈ D') : ReadyByte pools h' b := by
    rcases Classical.em (InRange pools poolsLen b) with hin | hout
    · exact .inl hin
    · rcases hpages b hb hout with ⟨hlive, hleaf⟩
      exact .inr ⟨hlive, (congrArg PageEntry.present hleaf).trans ((ht.ready b (hD hb)).resolve_left hout).2⟩
  refine ⟨⟨top', hinv', hbrk⟩, hmapped, hready, fun b hb => ?_, habsent,
    fun b hb => (hstatic b hb).trans (ht.static b hb)⟩
  have htranslate : h'.kernel.translate b = h.kernel.translate b := by
    rcases Classical.em (InRange pools poolsLen b) with hin | hout
    · rw [(hinv.translate_static hp hall.lt hin).2, (hinv'.translate_static hp hall.lt hin).2]
    · rcases hpages b hb hout with ⟨hlive, hleaf⟩
      rcases (ht.ready b (hD hb)).resolve_left hout with ⟨hlive₀, hpres⟩
      rw [(hinv.translate_heap hall hlive₀ hpres).2.2,
        (hinv'.translate_heap hall hlive ((congrArg PageEntry.present hleaf).trans hpres)).2.2, hleaf]
  rw [hmem, htranslate, hkept b hb]
  exact ht.bytes b (hD hb)

/-! ## Uses -/

include hall in
/-- The first use of a page that is allocated fails only when memory is full. -/
theorem RunInv.touch_error (hinv : RunInv all M root top h) (hlive : v / pageSize ∈ h.live) {e : Stop}
    (ht : touch v h.kernel = .error e) : e = .outOfMemory := by
  have hlt := hinv.page_lt hall hlive
  have htop := ((hinv.marked _).1 (.inl hlive)).2
  have hpage : pageOf v = v / pageSize := pageOf_eq (by unfold pageSize at hlt; omega)
  rw [touch] at ht
  split at ht
  case isTrue => cases ht
  case isFalse habs =>
    rw [Bool.not_eq_true] at habs
    rcases hinv.inv.fault_valid hall (hpage ▸ hlt.1) (hpage ▸ htop) habs with ⟨herr, hok⟩
    cases ha : mmuPfAlloc h.kernel.phys with
    | error e' =>
      rw [herr e' ha] at ht
      cases ht
      exact mmuPfAlloc_error ha
    | ok x =>
      rcases hok x.1 x.2 ha with ⟨k₁, hk₁, -⟩
      rw [hk₁] at ht
      cases ht

include hall hp in
/-- A page that is allocated becomes resident. -/
theorem Tracks.touch (ht : Tracks all M root pools m₀ A D s h) (hlive : v / pageSize ∈ h.live) :
    BanjOS.touch v h.kernel = .error .outOfMemory ∨ ∃ k', BanjOS.touch v h.kernel = .ok k' ∧
      (k'.leaf (v / pageSize)).present = true ∧
        Tracks all M root pools m₀ (A \ {v / pageSize}) D s ⟨k', h.live, h.freed⟩ := by
  rcases ht.run with ⟨top, hinv, hbrk⟩
  have hlt := hinv.page_lt hall hlive
  have hpage : pageOf v = v / pageSize := pageOf_eq (by unfold pageSize at hlt; omega)
  cases hr : BanjOS.touch v h.kernel with
  | error e => exact .inl (congrArg _ (hinv.touch_error hall hlive hr))
  | ok k' =>
    rcases hinv.inv.touch_ok hall hr with ⟨-, hinv', hpres, hleaf⟩
    rw [hpage] at hpres hleaf
    have hstep : HeapStep h ⟨k', h.live, h.freed⟩ := .touch hr
    refine .inr ⟨k', rfl, hpres, ht.step hall hp hstep hinv' hbrk ht.mapped rfl (fun _ hb => hb)
      (fun b hb hout => ?_) (fun b hb => ?_) (fun n hn => ?_) fun b hb => ?_⟩
    · rcases (ht.ready b hb).resolve_left hout with ⟨hlive', hpres'⟩
      exact ⟨hlive', hleaf _ (hinv.page_lt hall hlive').2 (.inr hpres')⟩
    · exact hinv.inv.touch_spared hr (hinv.ready_spared hall hp (ht.ready b hb))
    · rcases ht.absent n hn.1 with ⟨hlive', habs⟩
      exact ⟨hlive', (congrArg PageEntry.present (hleaf n (hinv.page_lt hall hlive').2 (.inl hn.2))).trans habs⟩
    · exact hinv.inv.touch_spared hr (spared_of_outside hb.1)

/-- The bytes of the range are ready, and stand one after the other in physical memory. -/
def ReadyRange (pools : Nat) (h : HeapState) (v n : Nat) : Prop :=
  ∀ i < n, ReadyByte pools h (v + i) ∧ h.kernel.translate (v + i) = h.kernel.translate v + i

include hall hp in
/-- A range of the pool table, or one in a resident page. -/
theorem RunInv.readyRange (hinv : RunInv all M root top h) {n : Nat}
    (hv : pools ≤ v ∧ v + n ≤ pools + poolsLen ∨ v % pageSize + n ≤ pageSize ∧ v / pageSize ∈ h.live ∧
      (h.kernel.leaf (v / pageSize)).present = true) : ReadyRange pools h v n := by
  intro i hi
  rcases hv with ⟨hlower, hupper⟩ | ⟨hfit, hlive, hpres⟩
  · have hin : InRange pools poolsLen (v + i) := ⟨by omega, by omega⟩
    have hin₀ : InRange pools poolsLen v := ⟨hlower, by omega⟩
    rw [(hinv.translate_static hp hall.lt hin).2, (hinv.translate_static hp hall.lt hin₀).2]
    exact ⟨.inl hin, rfl⟩
  · have hpage : (v + i) / pageSize = v / pageSize := by
      unfold pageSize at *
      omega
    have hoff : (v + i) % pageSize = v % pageSize + i := by
      unfold pageSize at *
      omega
    rw [(hinv.translate_heap hall (hpage ▸ hlive) (hpage ▸ hpres)).2.2, (hinv.translate_heap hall hlive hpres).2.2, hpage,
      hoff, Nat.add_assoc]
    exact ⟨.inr ⟨hpage ▸ hlive, hpage ▸ hpres⟩, rfl⟩

include hall hp in
/-- A write to a range that is ready. -/
theorem Tracks.write (ht : Tracks all M root pools m₀ A D s h) {n : Nat} (hr : ReadyRange pools h v n) (x : Nat) :
    Tracks all M root pools m₀ A (D ∪ {b | InRange v n b}) { s with mem := storeLE s.mem v n x } ⟨{ h.kernel with
      phys := { h.kernel.phys with mem := storeLE h.kernel.phys.mem (h.kernel.translate v) n x } }, h.live, h.freed⟩ := by
  rcases ht.run with ⟨top, hinv, hbrk⟩
  -- the range is written where no frame of the memory management is
  have hw (f : Nat) (hf : Kept h.kernel.phys h.kernel.cr3 f) (b : Nat) (hb : InRange f pageSize b) :
      storeLE h.kernel.phys.mem (h.kernel.translate v) n x b = h.kernel.phys.mem b := by
    refine storeLE_apply_of_not_mem fun hin => ?_
    rcases hin.exists_add with ⟨i, hi, rfl⟩
    rcases hr i hi with ⟨hready, htr⟩
    rw [← htr] at hb
    exact hinv.ready_not_kept hall hp hready hf hb
  have hstep : HeapStep h ⟨{ h.kernel with phys := { h.kernel.phys with
      mem := storeLE h.kernel.phys.mem (h.kernel.translate v) n x } }, h.live, h.freed⟩ := .write hw
  rcases hinv.inv.heap.write hw with ⟨hheap', hleaf⟩
  have htranslate (b : Nat) : Kernel.translate { h.kernel with phys := { h.kernel.phys with
      mem := storeLE h.kernel.phys.mem (h.kernel.translate v) n x } } b = h.kernel.translate b :=
    congrArg (fun e => PageEntry.frame e + b % pageSize) (hleaf _ (pageOf_lt b))
  rcases hstep.runInv hall hinv with ⟨top', hinv'⟩
  rw [hinv'.inv.top_unique hinv.inv rfl] at hinv'
  have hold (b : Nat) (hb : b ∈ D ∪ {b | InRange v n b}) : ReadyByte pools h b := by
    rcases hb with hb | hb
    · exact ht.ready b hb
    · rcases InRange.exists_add hb with ⟨i, hi, rfl⟩
      exact (hr i hi).1
  refine ⟨⟨top, hinv', hbrk⟩, ht.mapped, fun b hb => ?_, fun b hb => ?_, fun n hn => ?_, fun b hb => ?_⟩
  · refine (hold b hb).imp_right fun ⟨hlive, hpres⟩ => ⟨hlive, ?_⟩
    exact (congrArg PageEntry.present (hleaf _ (hinv.page_lt hall hlive).2)).trans hpres
  · rw [htranslate]
    rcases Decidable.em (InRange v n b) with hin | hout
    · rcases hin.exists_add with ⟨i, hi, rfl⟩
      rw [(hr i hi).2]
      exact storeLE_shift _ _ v _ x hi
    · have hout' : ¬ InRange (h.kernel.translate v) n (h.kernel.translate b) := fun hin => by
        rcases hin.exists_add with ⟨i, hi, heq⟩
        rcases hr i hi with ⟨hready', htr⟩
        obtain rfl := hinv.translate_inj hall hp (hold b hb) hready' (heq.trans htr.symm)
        exact hout ⟨Nat.le_add_right _ _, Nat.add_lt_add_left hi v⟩
      exact (storeLE_apply_of_not_mem hout).trans
        ((ht.bytes b (hb.resolve_right hout)).trans (storeLE_apply_of_not_mem hout').symm)
  · rcases ht.absent n hn with ⟨hlive, habs⟩
    exact ⟨hlive, (congrArg PageEntry.present (hleaf n (hinv.page_lt hall hlive).2)).trans habs⟩
  · refine (storeLE_apply_of_not_mem fun hin => ?_).trans (ht.static b hb)
    rcases hin.exists_add with ⟨i, hi, rfl⟩
    rcases hr i hi with ⟨hready | ⟨hlive, hpres⟩, htr⟩
    · rw [(hinv.translate_static hp hall.lt hready).2] at htr
      exact hb.2 (htr ▸ hready)
    · rcases hinv.translate_heap hall hlive hpres with ⟨hback, hin', -⟩
      rw [htr] at hin'
      exact hb.1 _ (hinv.frame_mem hall hback).1 hin'

/-! ## Words -/

include hp in
/-- An aligned word that starts in the pool table is in it. -/
theorem PoolsStatic.word_in (hmod : v % 8 = 0) (hv : InRange pools poolsLen v) :
    pools ≤ v ∧ v + 8 ≤ pools + poolsLen := by
  have hal := hp.aligned
  have h₁ := hv.1
  have h₂ := hv.2
  simp only [poolsLen, blockSizesLen] at h₂ ⊢
  omega

include hp in
/-- The words of the pool table and of the pages can be accessed in the flat memory. -/
theorem Tracks.accessible (ht : Tracks all M root pools m₀ A D s h)
    (hv : InRange pools poolsLen v ∨ v / pageSize ∈ h.live) : s.accessible v = true := by
  rcases hv with hv | hv
  · exact Flat.accessible_low (hv.2.trans_le hp.below)
  · simp [Flat.accessible, (ht.mapped _).2 hv]

include hall hp in
/-- A word is read as in the flat memory. -/
theorem Tracks.load (ht : Tracks all M root pools m₀ A D s h) (hmod : v % 8 = 0) (hv : ∀ b, InRange v 8 b → b ∈ D) :
    PagedMem.load v h.kernel = .ok (load64 s.mem v, h.kernel) ∧ PagedMem.load v s = .ok (load64 s.mem v, s) := by
  rcases ht.run with ⟨top, hinv, -⟩
  have hself : v ∈ D := hv v ⟨Nat.le_refl v, by omega⟩
  have hready := ht.ready v hself
  have hrange : ReadyRange pools h v 8 := hinv.readyRange hall hp (hready.imp (hp.word_in hmod) fun hheap =>
    ⟨by unfold pageSize; omega, hheap⟩)
  have hword : load64 s.mem v = load64 h.kernel.phys.mem (h.kernel.translate v) := loadLE_shift fun i hi => by
    rw [ht.bytes _ (hv _ ⟨Nat.le_add_right _ _, Nat.add_lt_add_left hi v⟩), (hrange i hi).2]
  rw [load_present (hinv.present_of_ready hall hp hready), hword, Flat.load_eq (ht.accessible hp (hready.imp_right And.left)),
    hword]
  exact ⟨rfl, rfl⟩

include hall hp in
/-- A word is written as in the flat memory. Only where its page is not resident memory can run out, when the page is first
used. -/
theorem Tracks.store (ht : Tracks all M root pools m₀ A D s h) (hmod : v % 8 = 0) {e : Stop}
    (hv : ReadyByte pools h v ∨ (v / pageSize ∈ h.live ∧ v / pageSize ∉ A) ∧
      (e = .outOfMemory ∨ (BanjOS.touch v h.kernel).isOk)) (x : Nat) :
    Lockstep e (PagedMem.store v x h.kernel) (PagedMem.store v x s) fun k' s' =>
      s' = { s with mem := store64 s.mem v x } ∧
        Tracks all M root pools m₀ A (D ∪ {b | InRange v 8 b}) s' ⟨k', h.live, h.freed⟩ := by
  rcases ht.run with ⟨top, hinv, -⟩
  have hfit : v % pageSize + 8 ≤ pageSize := by
    unfold pageSize
    omega
  rcases hv with hv | ⟨⟨hlive, hnew⟩, he⟩
  · rw [Flat.store_eq (ht.accessible hp (hv.imp_right And.left))]
    have hpres := hinv.present_of_ready hall hp hv
    have hrange := hinv.readyRange hall hp (n := 8) (hv.imp (hp.word_in hmod) fun hheap => ⟨hfit, hheap⟩)
    exact .inr ⟨_, _, Except.bind_eq_ok.2 ⟨h.kernel, if_pos hpres, rfl⟩, rfl, rfl, ht.write hall hp hrange x⟩
  · rw [Flat.store_eq (ht.accessible hp (.inr hlive))]
    rcases ht.touch hall hp hlive with herr | ⟨k₁, hk₁, hpres, ht₁⟩
    · rw [herr] at he
      obtain rfl := he.resolve_right nofun
      exact .inl (Except.bind_eq_error.2 (.inl herr))
    · rw [Set.sdiff_singleton_eq_self hnew] at ht₁
      rcases ht₁.run with ⟨top₁, hinv₁, -⟩
      have hrange := hinv₁.readyRange hall hp (n := 8) (.inr ⟨hfit, hlive, hpres⟩)
      exact .inr ⟨_, _, Except.bind_eq_ok.2 ⟨k₁, hk₁, rfl⟩, rfl, rfl, ht₁.write hall hp hrange x⟩

/-! ## Pages -/

include hall hp in
/-- Reserving `n` pages: those from the break on, none of them resident. -/
theorem Tracks.reserve (ht : Tracks all M root pools m₀ A D s h) {n : Nat} {k' : Kernel} {bytes : Int}
    (hbytes : bytes = pageSize * n) (hinv : RunInv all M root top h) (hinv' : KernelInv all M (top + n) k')
    (hleaf : ∀ j, j < 2 ^ 36 → k'.leaf j = if top ≤ j ∧ j < top + n then markedEntry else h.kernel.leaf j)
    (hstep : HeapStep h ⟨k', h.live ∪ Set.Ico top (top + n), h.freed \ Set.Ico top (top + n)⟩)
    (hspared : ∀ b, Spared all (backedFrames h.kernel.phys.mem h.kernel.cr3) b → k'.phys.mem b = h.kernel.phys.mem b) :
    s.brk = pageSize * top ∧ ∃ s', s.reserve bytes = .ok (s.brk, s') ∧ FlatGrown s s' n ∧
      Tracks all M root pools m₀ (A ∪ Set.Ico (s.brk / pageSize) (s.brk / pageSize + n)) D s'
        ⟨k', h.live ∪ Set.Ico top (top + n), h.freed \ Set.Ico top (top + n)⟩ := by
  have htop := hinv'.heap.top_lt hall
  have hbrk : s.brk = pageSize * top := by
    rcases ht.run with ⟨top', hinv'', hbrk⟩
    rw [hbrk, ← hinv''.inv.brk, hinv.inv.brk]
  have hlimit : ¬ s.reserve bytes = .error .outOfMemory := by
    intro herr
    have hfits : (s.brk : Int) + bytes ≤ 2 ^ 48 := by
      rw [hbrk, hbytes]
      unfold pageSize
      omega
    rw [Flat.reserve, if_pos hfits] at herr
    cases herr
  rcases (s.reserve_pages hbytes).resolve_left hlimit with ⟨s', hres, hg⟩
  refine ⟨hbrk, s', hres, hg, ht.step hall hp hstep hinv' ?_ (fun j => ?_) hg.mem (fun _ hb => hb)
    (fun b hb hout => ?_) (fun b hb => ?_) (fun j hj => ?_) fun b hb => hspared b (spared_of_outside hb.1)⟩
  · rw [hg.brk, hbrk, Nat.mul_add]
  · rw [hg.mapped, ht.mapped, Set.mem_union, Set.mem_Ico, hbrk]
    refine or_congr_right ?_
    unfold pageSize
    omega
  · rcases (ht.ready b hb).resolve_left hout with ⟨hlive, -⟩
    have hlt := (hinv.marked _).1 (.inl hlive)
    refine ⟨.inl hlive, ?_⟩
    dsimp only
    rw [hleaf _ (hinv.page_lt hall hlive).2, if_neg (by omega)]
  · exact hspared _ (hinv.ready_spared hall hp (ht.ready b hb))
  · dsimp only
    rcases hj with hj | hj
    · rcases ht.absent j hj with ⟨hlive, habs⟩
      have hlt := ((hinv.marked j).1 (.inl hlive)).2
      rw [hleaf j (hinv.page_lt hall hlive).2, if_neg (by omega)]
      exact ⟨.inl hlive, habs⟩
    · rw [hbrk, Nat.mul_div_cancel_left _ (by decide)] at hj
      rw [hleaf j (hj.2.trans htop), if_pos ⟨hj.1, hj.2⟩]
      exact ⟨.inr hj, rfl⟩

/-- Pages were reserved at the break of the flat memory `s`: what both versions return. None of them is used yet. -/
def Reserved (all : List Nat) (M root pools : Nat) (m₀ : Mem) (A D : Set Nat) (s : Flat) (n : Nat) (r : Nat × Kernel)
    (q : Nat × Flat) : Prop :=
  r.1 = s.brk ∧ q.1 = s.brk ∧ FlatGrown s q.2 n ∧ ∃ live freed,
    Tracks all M root pools m₀ (A ∪ Set.Ico (s.brk / pageSize) (s.brk / pageSize + n)) D q.2 ⟨r.2, live, freed⟩

include hall hp in
/-- `MMU_alloc_page`. -/
theorem Tracks.allocPage (ht : Tracks all M root pools m₀ A D s h) {e : Stop}
    (he : e = .outOfMemory ∨ (mmuAllocPage h.kernel).isOk) :
    Lockstep e (mmuAllocPage h.kernel) (s.reserve pageSize) (Reserved all M root pools m₀ A D s 1) := by
  rcases ht.run with ⟨top, hinv, -⟩
  cases hr : mmuAllocPage h.kernel with
  | error e' =>
    rw [hr] at he
    obtain rfl := he.resolve_right nofun
    exact .inl (congrArg _ (hinv.inv.allocPage_error hall hr))
  | ok r =>
    have hstep : HeapStep h ⟨r.2, _, _⟩ := .allocPage hr
    rcases hinv.inv.allocPage hall hr with ⟨hv, -, hinv', hleaf⟩
    rw [hv, Nat.mul_div_cancel_left _ (by decide), ← Ico_one] at hstep
    have hleaf' (j : Nat) (hj : j < 2 ^ 36) :
        r.2.leaf j = if top ≤ j ∧ j < top + 1 then markedEntry else h.kernel.leaf j := by
      have hiff : (top ≤ j ∧ j < top + 1) ↔ j = top := by omega
      simp only [hleaf j hj, hiff]
    rcases ht.reserve hall hp (n := 1) rfl hinv hinv' hleaf' hstep
      (fun b hb => hinv.inv.allocPage_spared hall hr hb) with ⟨hbrk, s', hres, hg, ht'⟩
    exact .inr ⟨r, _, rfl, hres, hv.trans hbrk.symm, rfl, hg, _, _, ht'⟩

include hall hp in
/-- `MMU_alloc_pages`. -/
theorem Tracks.allocPages (ht : Tracks all M root pools m₀ A D s h) {num : Int} {n : Nat} (hn0 : 0 < n)
    (hn : pageSize * n < 2 ^ 31) (hnum : pageBytes num = pageSize * n) :
    Lockstep .outOfMemory (mmuAllocPages num h.kernel) (s.reserve (pageBytes num)) (Reserved all M root pools m₀ A D s n) := by
  rcases ht.run with ⟨top, hinv, -⟩
  rw [mmuAllocPages_eq_natCast hn hnum]
  cases hr : mmuAllocPages n h.kernel with
  | error e => exact .inl (congrArg _ (hinv.inv.allocPages_error hall hr))
  | ok r =>
    have hstep : HeapStep h ⟨r.2, _, _⟩ := .allocPages hn0 hn hr
    rcases hinv.inv.allocPages hall hn hr with ⟨hv, -, hinv', hleaf⟩
    rw [hv, Nat.mul_div_cancel_left _ (by decide)] at hstep
    rcases ht.reserve hall hp hnum hinv hinv' hleaf hstep (fun b hb => hinv.inv.allocPages_spared hall hr hb) with
      ⟨hbrk, s', hres, hg, ht'⟩
    exact .inr ⟨r, _, rfl, hres, hv.trans hbrk.symm, rfl, hg, _, _, ht'⟩

include hall hp in
/-- `MMU_free_pages` of pages that are all resident. -/
theorem Tracks.freePages (ht : Tracks all M root pools m₀ A D s h) {num : Int} {n : Nat} (hn0 : 0 < n)
    (hn : pageSize * n < 2 ^ 31) (hnum : pageBytes num = pageSize * n)
    (hres : ∀ j, v / pageSize ≤ j → j < v / pageSize + n → j ∈ h.live ∧ (h.kernel.leaf j).present = true) :
    ∃ k' live freed, mmuFreePages v num h.kernel = .ok k' ∧ Tracks all M root pools m₀ A
      {b | b ∈ D ∧ ¬ (v / pageSize ≤ b / pageSize ∧ b / pageSize < v / pageSize + n)} (s.release v (pageBytes num))
      ⟨k', live, freed⟩ := by
  rcases ht.run with ⟨top, hinv, hbrk⟩
  have htop := hinv.inv.heap.top_lt hall
  have hfirst := (hinv.marked _).1 (.inl (hres _ (Nat.le_refl _) (by omega)).1)
  have hlast := (hinv.marked _).1 (.inl (hres (v / pageSize + n - 1) (by omega) (by omega)).1)
  have heq : mmuFreePages v num h.kernel = BanjOS.freePagesFrom n v h.kernel :=
    mmuFreePages_eq (by unfold pageSize at hfirst; omega) hn hnum
  rcases KernelInv.freePagesFrom hall n v h.kernel hinv.inv hfirst.1 (by omega) (fun j h₁ h₂ => (hres j h₁ h₂).2) with
    ⟨k', hk', -, hinv', -, hleaf⟩
  have hrun : mmuFreePages v n h.kernel = .ok k' := by
    rw [mmuFreePages_eq (by unfold pageSize at hfirst; omega) hn (pageBytes_natCast hn), hk']
  have hstep : HeapStep h ⟨k', _, _⟩ := .freePages hn0 hn hres hrun
  -- the freed frames are those of the freed pages
  have hframes (b : Nat) (hb : ∀ j, v / pageSize ≤ j → j < v / pageSize + n → ¬ InRange (h.kernel.leaf j).frame pageSize b)
      (hspared : Spared all (backedFrames h.kernel.phys.mem h.kernel.cr3) b) : k'.phys.mem b = h.kernel.phys.mem b :=
    KernelInv.freePagesFrom_spared hall n v h.kernel hinv.inv hfirst.1 (by omega) (fun j h₁ h₂ => (hres j h₁ h₂).2) k' hk'
      hspared hb
  have hback (j : Nat) (h₁ : v / pageSize ≤ j) (h₂ : j < v / pageSize + n) :
      Backed h.kernel.phys.mem h.kernel.cr3 j (h.kernel.leaf j).frame :=
    ⟨by omega, by omega, (hres j h₁ h₂).2, rfl⟩
  refine ⟨k', _, _, heq.trans hk', ht.step hall hp hstep hinv' hbrk (fun j => ?_) rfl (fun _ hb => hb.1)
    (fun b hb hout => ?_) (fun b hb => ?_) (fun j hj => ?_) fun b hb => ?_⟩
  · have hiff : ((pageSize * j : Int) < pageSize * (v / pageSize) + pageBytes num) ↔ j < v / pageSize + n := by
      rw [hnum]
      unfold pageSize
      omega
    simp only [Flat.release, Bool.and_eq_true, Bool.not_eq_true', Bool.and_eq_false_iff, decide_eq_false_iff_not, ht.mapped,
      Set.mem_sdiff, Set.mem_Ico, hiff, not_and_or]
  · rcases (ht.ready b hb.1).resolve_left hout with ⟨hlive, -⟩
    refine ⟨⟨hlive, hb.2⟩, ?_⟩
    dsimp only
    rw [hleaf _ (hinv.page_lt hall hlive).2, if_neg hb.2]
  · have hready := ht.ready b hb.1
    refine hframes _ (fun j h₁ h₂ hin => ?_) (hinv.ready_spared hall hp hready)
    rcases hready with hready | ⟨hlive, hpres⟩
    · rw [(hinv.translate_static hp hall.lt hready).2] at hin
      exact hp.outside _ (hinv.frame_mem hall (hback j h₁ h₂)).1 b hready hin
    · rcases hinv.translate_heap hall hlive hpres with ⟨hback', hin', -⟩
      have hframe := page_unique (hinv.frame_mem hall (hback j h₁ h₂)).2 (hinv.frame_mem hall hback').2 hin hin'
      obtain rfl := hinv.inv.heap.inj _ _ _ (hframe ▸ hback j h₁ h₂) hback'
      exact hb.2 ⟨h₁, h₂⟩
  · rcases ht.absent j hj with ⟨hlive, habs⟩
    have hout : ¬ (v / pageSize ≤ j ∧ j < v / pageSize + n) := fun hin => by
      have hpres := (hres j hin.1 hin.2).2
      rw [habs] at hpres
      cases hpres
    refine ⟨⟨hlive, hout⟩, ?_⟩
    dsimp only
    rw [hleaf j (hinv.page_lt hall hlive).2, if_neg hout]
    exact habs
  · exact hframes b (fun j h₁ h₂ => hb.1 _ (hinv.frame_mem hall (hback j h₁ h₂)).1) (spared_of_outside hb.1)

end

end BanjOS
