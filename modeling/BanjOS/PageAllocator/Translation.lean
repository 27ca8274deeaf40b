import BanjOS.PageAllocator.HeapRuns

/-!
# Address translation over the heap's runs

`page_table_virt_to_phys_addr` is to tell mapped addresses from unmapped ones: null for an address whose
page is not present, and else its frame and the offset. The walk stops at a missing table, but the code
does not look at `present` in the leaf entry. In every state of every run a present page is translated
right, and an address that has a leaf table but whose page is not present is translated all the same: page
0, heap pages that were reserved and not used, and pages that were freed (`tellsMapped_iff`).
-/

namespace BanjOS

open ByteMem Radix

/-- `page_table_virt_to_phys_addr` returns null for `v` iff the page of `v` is not present, at whichever
level, and else the frame of its leaf entry and the offset. -/
def TellsMapped (k : Kernel) (v : Nat) : Prop :=
  ∃ r, pageTableVirtToPhysAddr k.cr3 v k.phys = .ok r ∧
    (r = 0 ↔ ¬ (k.leaf (pageOf v)).present) ∧
    ((k.leaf (pageOf v)).present → r = (k.leaf (pageOf v)).addr.toNat * 4096 + v % 4096)

section
variable {all : List Nat} {M root top n : Nat} {s : Phys}

/-- No present page has frame 0. -/
theorem HeapInv.frame_pos (hall : MappedFrames all M) (h : HeapInv all M root top s) (hn : n < 2 ^ 36)
    (hp : (leafEntry s.mem root n).present = true) : 0 < (leafEntry s.mem root n).frame := by
  by_cases hlow : n < 2 ^ 27
  · rw [h.ident n hlow] at hp ⊢
    rw [identEntry] at hp ⊢
    split at hp
    case isFalse => cases hp
    case isTrue hM =>
      rw [if_pos hM, (directMapCallback_zero hn).2.2]
      exact Nat.mul_pos (by decide) hM.1
  · have hb : Backed s.mem root n (leafEntry s.mem root n).frame := ⟨Nat.le_of_not_lt hlow, hn, hp, rfl⟩
    obtain ⟨out, hframes, hout, -⟩ := h.frames
    have hlower := hall.lower _ (hframes.mem_all ((hout _).2 (.inl ⟨n, hb⟩)))
    exact Nat.lt_of_lt_of_le (by decide) hlower

/-- An address without a leaf table. -/
theorem pageTableVirtToPhysAddr_none {v : Nat} (h : leafSlot s.mem root (pageOf v) = none) :
    pageTableVirtToPhysAddr root v s = .ok 0 := by
  refine Except.bind_eq_ok.2 ⟨_, pageTableGetEntry_lookup root v s, ?_⟩
  simp only [h]

end

/-- Translation in any state of any run: it tells whether the page of `v` is mapped exactly if the page is
present, or has no leaf table, or has a leaf entry with frame field 0 and `v` is at its start. -/
theorem tellsMapped_iff {regions : List MemRegion} (hr : BootRegions regions) {mem : Mem} {root : Nat}
    {s₀ : Phys} (hinit : initPageTable ⟨mem, 0, regions⟩ = .ok (root, s₀)) {h : HeapState}
    (hrun : Relation.ReflTransGen HeapStep (.boot root s₀) h) {v : Nat} (hv : v < 2 ^ 48) :
    TellsMapped h.kernel v ↔ (h.kernel.leaf (pageOf v)).present = true ∨
      leafSlot h.kernel.phys.mem h.kernel.cr3 (v / 4096) = none ∨
      (h.kernel.leaf (pageOf v)).addr = 0 ∧ v % 4096 = 0 := by
  obtain ⟨M, top, hall, hinv⟩ := heapRun_inv hr hinit hrun
  have hpage : v / 4096 = pageOf v := (pageOf_eq hv).symm
  rw [hpage]
  cases hslot : leafSlot h.kernel.phys.mem h.kernel.cr3 (pageOf v) with
  | none =>
    have habs : (h.kernel.leaf (pageOf v)).present = false := by
      rw [Kernel.leaf, leafEntry, hslot]
      rfl
    refine iff_of_true ⟨0, pageTableVirtToPhysAddr_none hslot, ?_, ?_⟩ (.inr (.inl rfl))
    · simp [habs]
    · simp [habs]
  | some slot =>
    have hleaf : getEntry h.kernel.phys.mem slot = h.kernel.leaf (pageOf v) :=
      (leafEntry_of_slot hslot).symm
    have hres := pageTableVirtToPhysAddr_eq (v := v) hslot
    rw [hleaf, PageEntry.frame_eq] at hres
    have hpos : (h.kernel.leaf (pageOf v)).present = true →
        0 < (h.kernel.leaf (pageOf v)).addr.toNat * pageSize := fun hp => by
      rw [← PageEntry.frame_eq]
      exact hinv.inv.heap.frame_pos hall (pageOf_lt v) hp
    have hzero : (h.kernel.leaf (pageOf v)).addr = 0 ↔ (h.kernel.leaf (pageOf v)).addr.toNat = 0 := by
      rw [← BitVec.toNat_inj]
      rfl
    rw [TellsMapped, hzero]
    simp only [hres, Except.ok.injEq, exists_eq_left', reduceCtorEq, false_or]
    by_cases hp : (h.kernel.leaf (pageOf v)).present = true
    · -- a present page has a frame, so the result is not null
      refine iff_of_true ⟨iff_of_false ?_ (not_not.2 hp), fun _ => trivial⟩ (.inl hp)
      have := hpos hp
      unfold pageSize at this ⊢
      omega
    · rw [iff_true_right hp, or_iff_right hp]
      constructor
      · rintro ⟨hzero, -⟩
        unfold pageSize at hzero
        omega
      · rintro ⟨haddr, hoff⟩
        exact ⟨by unfold pageSize; omega, fun _ => trivial⟩

/-- The frame of a used heap page, on a machine of eight pages. -/
theorem tellsMapped_eight_pages : ∃ root s₀ h,
    initPageTable ⟨fun _ => 0, 0, [⟨0x1000, 0x9000, 0x1000⟩]⟩ = .ok (root, s₀) ∧
      Relation.ReflTransGen HeapStep (.boot root s₀) h ∧ TellsMapped h.kernel 0x8000000123 := by
  obtain ⟨root, s₀, k, k', hinit, halloc, htouch⟩ := heapRun_eight_pages
  have hrun₁ : Relation.ReflTransGen HeapStep (.boot root s₀) ⟨k, _, _⟩ := .single (.allocPage halloc)
  obtain ⟨M, top, hall, hinv⟩ := heapRun_inv bootRegions_eight_pages hinit hrun₁
  obtain ⟨-, -, hpres, -⟩ := hinv.inv.touch_ok hall htouch
  have hrun := hrun₁.tail (.touch htouch)
  exact ⟨root, s₀, _, hinit, hrun,
    (tellsMapped_iff bootRegions_eight_pages hinit hrun (by decide)).2 (.inl hpres)⟩

/-- Right after boot, the address 1 is translated to 1, although page 0 is not present. -/
theorem tellsMapped_page_zero : ∃ root s₀,
    initPageTable ⟨fun _ => 0, 0, [⟨0x1000, 0x9000, 0x1000⟩]⟩ = .ok (root, s₀) ∧
      (Kernel.leaf ⟨s₀, root, addrSpaceKernelHeapBase⟩ (pageOf 1)).present = false ∧
      pageTableVirtToPhysAddr root 1 s₀ = .ok 1 ∧
      ¬ TellsMapped ⟨s₀, root, addrSpaceKernelHeapBase⟩ 1 := by
  have hrun : ((initPageTable ⟨fun _ => 0, 0, [⟨0x1000, 0x9000, 0x1000⟩]⟩).bind fun x =>
      if (leafEntry x.2.mem x.1 0).present then .error .outOfMemory
      else (pageTableVirtToPhysAddr x.1 1 x.2).bind fun r =>
        if r = 1 then .ok () else .error .outOfMemory).isOk = true := by
    decide +kernel
  obtain ⟨_, hk⟩ := Except.exists_of_isOk hrun
  obtain ⟨⟨root, s₀⟩, hinit, hk⟩ := Except.bind_eq_ok.1 hk
  split at hk
  case isTrue => cases hk
  case isFalse habs =>
    obtain ⟨r, hr, hk⟩ := Except.bind_eq_ok.1 hk
    split at hk
    case isFalse => cases hk
    case isTrue hone =>
      subst hone
      have habs : (Kernel.leaf ⟨s₀, root, addrSpaceKernelHeapBase⟩ (pageOf 1)).present = false :=
        Bool.not_eq_true _ ▸ habs
      refine ⟨root, s₀, hinit, habs, hr, fun ⟨r, hr', hnull, _⟩ => ?_⟩
      obtain rfl : 1 = r := Except.ok.inj (hr.symm.trans hr')
      exact absurd (hnull.2 (by simp [habs])) (by decide)

end BanjOS
