import BanjOS.PageTable.Init

/-!
# Demand paging of the kernel heap

`sbrk`, `page_fault_handler`, `MMU_alloc_page`, `MMU_alloc_pages`, `MMU_free_page` and
`MMU_free_pages` (`page_allocator.c`). Reserving heap addresses only marks their leaf entries as
available; a frame is entered by the page fault of the first use. The kernel's own accesses to frames
and tables go through the identity map, so they are accesses to physical memory; the one place where
the code can leave the identity map is the store of `MMU_pf_free` (`touch`).

`HeapInv` is the invariant of the tables, the frame allocator and the heap together, with the heap
pages marked up to the page `top`. The lemmas about one page (`HeapInv.mark`, `HeapInv.fault`,
`HeapInv.unmap`) say what an operation does to the leaf entries and that it keeps the invariant; the
specifications of the operations follow.
-/

namespace BanjOS

open ByteMem Radix

/-- The memory management state: physical memory with its allocator, the loaded top-level table
(`%cr3`) and the heap break (`brk`). -/
structure Kernel where
  phys : Phys
  cr3 : Nat
  brk : Nat

/-- `ADDR_SPACE_KERNEL_HEAP_BASE`. -/
def addrSpaceKernelHeapBase : Nat := 0x1 <<< 39

/-- `sbrk`: move the break, and return where it was. -/
def sbrk (increment : Int) (k : Kernel) : Nat × Kernel :=
  (k.brk, { k with brk := ((k.brk + increment) % 2 ^ 64).toNat })

/-- The entry with the frame `pf`: the three assignments at the end of `page_fault_handler`. -/
def PageEntry.enter (e : PageEntry) (pf : Nat) : PageEntry :=
  { e with addr := addrOf pf, readWrite := true, present := true }

/-- `page_fault_handler` for the faulting address `addr` (`%cr2`). -/
def pageFaultHandler (addr : Nat) (k : Kernel) : Except Stop Kernel := do
  let (entry, s) ← pageTableGetEntry k.cr3 addr false k.phys
  match entry with
  | none => .error (.outOfRange addr)
  | some slot =>
    if (getEntry s.mem slot).available = 0 then .error (.notAvailable addr)
    else do
      let (pf, s) ← mmuPfAlloc s
      .ok { k with phys := { s with mem := setEntry s.mem slot ((getEntry s.mem slot).enter pf) } }

/-- A use of the address `v`: the CPU takes a page fault if the page is not present. -/
def touch (v : Nat) (k : Kernel) : Except Stop Kernel :=
  if (leafEntry k.phys.mem k.cr3 (pageOf v)).present then .ok k else pageFaultHandler v k

/-- `mark_available_callback`. -/
def markAvailableCallback (_virtAddr : Nat) (entry : PageEntry) : PageEntry :=
  { entry with available := 1 }

/-- `MMU_alloc_page`: reserve a page of addresses. -/
def mmuAllocPage (k : Kernel) : Except Stop (Nat × Kernel) := do
  let (virtAddr, k) := sbrk pageSize k
  let (ptEntry, s) ← pageTableGetEntry k.cr3 virtAddr true k.phys
  let slot := ptEntry.getD 0
  let entry := { getEntry s.mem slot with available := 1 }
  .ok (virtAddr, { k with phys := { s with mem := setEntry s.mem slot entry } })

/-- `MMU_PAGE_SIZE * num`, an `int`. -/
def pageBytes (num : Int) : Int := (pageSize * num).bmod (2 ^ 32)

/-- `MMU_alloc_pages`: reserve `num` consecutive pages of addresses. -/
def mmuAllocPages (num : Int) (k : Kernel) : Except Stop (Nat × Kernel) := do
  let (virtAddr, k) := sbrk (pageBytes num) k
  let endAddr := ((virtAddr + pageBytes num) % 2 ^ 64).toNat
  let s ← pageTableWalk k.cr3 virtAddr endAddr markAvailableCallback k.phys
  .ok (virtAddr, { k with phys := s })

/-- `MMU_free_page`: give the frame of a page back and mark the page as not present. `MMU_pf_free`
stores the link at the frame's own address. -/
def mmuFreePage (virtAddr : Nat) (k : Kernel) : Except Stop Kernel := do
  let (ptEntry, s) ← pageTableGetEntry k.cr3 virtAddr true k.phys
  let slot := ptEntry.getD 0
  let pf := (getEntry s.mem slot).frame
  let k ← touch pf { k with phys := s }
  let s := mmuPfFree pf k.phys
  .ok { k with phys := { s with
    mem := setEntry s.mem slot { getEntry s.mem slot with present := false } } }

/-- `n` iterations of the loop of `MMU_free_pages`, from the address `page` on. -/
def freePagesFrom : (n page : Nat) → Kernel → Except Stop Kernel
  | 0, _, k => .ok k
  | n + 1, page, k => do
    let k ← mmuFreePage page k
    freePagesFrom n (page + pageSize) k

/-- `MMU_free_pages`: the loop runs while `page < virt_addr + MMU_PAGE_SIZE * num`. -/
def mmuFreePages (virtAddr : Nat) (num : Int) (k : Kernel) : Except Stop Kernel :=
  let endAddr := ((virtAddr + pageBytes num) % 2 ^ 64).toNat
  freePagesFrom ((endAddr - virtAddr + (pageSize - 1)) / pageSize) virtAddr k

/-! ## The invariant -/

/-- The heap page `n` is resident, in the frame `f`. The heap begins at page `2 ^ 27`, the first one
of the second top-level entry. -/
def Backed (m : Mem) (root n f : Nat) : Prop :=
  2 ^ 27 ≤ n ∧ n < 2 ^ 36 ∧ (leafEntry m root n).present = true ∧ (leafEntry m root n).frame = f

/-- A frame that belongs to the memory management itself: a table, a page on the free list or one that
was never handed out. -/
def Kept (s : Phys) (root f : Nat) : Prop :=
  IsTable s.mem root f ∨ f ∈ remaining s.regions ∨ ∃ free, Chain s.mem s.freeList free ∧ f ∈ free

/-- The frames of the region table, all of them inside the identity map of the pages `[1, M]`. -/
structure MappedFrames (all : List Nat) (M : Nat) : Prop extends Frames all where
  one_le : 1 ≤ M
  lt : M < 2 ^ 27
  lower : ∀ f ∈ all, pageSize ≤ f
  upper : ∀ f ∈ all, f < pageSize * (M + 1)

/-- The entry of an identity page. -/
def identEntry (M n : Nat) : PageEntry :=
  if 1 ≤ n ∧ n < M + 1 then directMapCallback (pageSize * n) .zero else .zero

/-- The invariant of the kernel's memory: a well-formed tree, the frames of the resident heap pages
distinct and, with the tables, those that are handed out, the identity map as it was at boot, and
exactly the heap pages below `top` marked as available. -/
structure HeapInv (all : List Nat) (M root top : Nat) (s : Phys) : Prop where
  ok : TreeOK s.mem root
  frames : FramesFor all root {f | ∃ n, Backed s.mem root n f} s
  inj : ∀ n n' f, Backed s.mem root n f → Backed s.mem root n' f → n = n'
  ident : ∀ n, n < 2 ^ 27 → leafEntry s.mem root n = identEntry M n
  below : ∀ n, 2 ^ 27 ≤ n → n < 2 ^ 36 → n < top → (leafEntry s.mem root n).available = 1
  above : ∀ n, n < 2 ^ 36 → top ≤ n → leafEntry s.mem root n = .zero
  base : 2 ^ 27 ≤ top

/-- The state `init_page_table` leaves. -/
theorem MapInv.heapInv {all : List Nat} {root M : Nat} {s : Phys} (hM : M < 2 ^ 27)
    (h : MapInv all root M (M + 1) s) : HeapInv all M root (2 ^ 27) s := by
  have hzero : ∀ n, n < 2 ^ 36 → 2 ^ 27 ≤ n → leafEntry s.mem root n = .zero := fun n hn hle => by
    rw [h.entries n hn, if_neg (by omega)]
  have hnone : ∀ n f, ¬ Backed s.mem root n f := by
    rintro n f ⟨hle, hn, hp, -⟩
    rw [hzero n hn hle] at hp
    cases hp
  have hheld : {f | ∃ n, Backed s.mem root n f} = ∅ :=
    Set.eq_empty_of_forall_notMem fun f ⟨n, hb⟩ => hnone n f hb
  exact {
    ok := h.ok
    frames := hheld ▸ h.frames
    inj := fun n _ f hb => absurd hb (hnone n f)
    ident := fun n hn => h.entries n (by omega)
    below := fun n hle _ hlt => absurd hlt (by omega)
    above := fun n hn hle => hzero n hn hle
    base := Nat.le_refl _ }

section
variable {all : List Nat} {M root top : Nat} {s s' : Phys}

/-- The invariant depends on the leaf entries and on who holds the frames. -/
theorem HeapInv.of_leafEntry_eq (h : HeapInv all M root top s) (hok : TreeOK s'.mem root)
    (hframes : FramesFor all root {f | ∃ n, Backed s.mem root n f} s')
    (heq : ∀ n, n < 2 ^ 36 → leafEntry s'.mem root n = leafEntry s.mem root n) :
    HeapInv all M root top s' := by
  have hb : ∀ n f, Backed s'.mem root n f ↔ Backed s.mem root n f := by
    intro n f
    refine and_congr_right fun _ => and_congr_right fun hn => ?_
    rw [heq n hn]
  exact {
    ok := hok
    frames := by simpa only [hb] using hframes
    inj := fun n n' f h₁ h₂ => h.inj n n' f ((hb n f).1 h₁) ((hb n' f).1 h₂)
    ident := fun n hn => by rw [heq n (by omega), h.ident n hn]
    below := fun n hle hn hlt => by rw [heq n hn, h.below n hle hn hlt]
    above := fun n hn hle => by rw [heq n hn, h.above n hn hle]
    base := h.base }

/-- A marked page has a leaf slot. -/
theorem HeapInv.exists_slot (h : HeapInv all M root top s) {n : Nat} (hle : 2 ^ 27 ≤ n)
    (hn : n < 2 ^ 36) (hlt : n < top) : ∃ slot, leafSlot s.mem root n = some slot := by
  have hav := h.below n hle hn hlt
  have hne : leafEntry s.mem root n ≠ .zero := fun hz => by
    rw [hz] at hav
    exact absurd hav (by decide)
  obtain ⟨slot, hslot, -⟩ := exists_slot_of_leafEntry hne
  exact ⟨slot, hslot⟩

/-- A resident page is marked. -/
theorem HeapInv.backed_lt (h : HeapInv all M root top s) {n f : Nat} (hb : Backed s.mem root n f) :
    n < top := by
  by_contra hle
  have hp := hb.2.2.1
  rw [h.above n hb.2.1 (Nat.le_of_not_lt hle)] at hp
  cases hp

/-- The identity pages have leaf slots. -/
theorem HeapInv.exists_slot_ident (h : HeapInv all M root top s) (hM : M < 2 ^ 27) {n : Nat}
    (h₁ : 1 ≤ n) (hn : n ≤ M) : ∃ slot, leafSlot s.mem root n = some slot := by
  have he := h.ident n (by omega)
  rw [identEntry, if_pos (by omega)] at he
  have hne : leafEntry s.mem root n ≠ .zero := fun hz => by
    rw [hz] at he
    exact nomatch congrArg PageEntry.present he
  obtain ⟨slot, hslot, -⟩ := exists_slot_of_leafEntry hne
  exact ⟨slot, hslot⟩

/-! ## How far the heap can grow -/

/-- There are at most as many frames as identity pages. -/
theorem MappedFrames.length_le (hall : MappedFrames all M) : all.length ≤ M := by
  have hsub : all ⊆ (List.range M).map fun j => pageSize * (j + 1) := by
    intro f hf
    have h₁ := hall.aligned f hf
    have h₂ := hall.lower f hf
    have h₃ := hall.upper f hf
    unfold pageSize at h₁ h₂ h₃
    refine List.mem_map.2 ⟨f / 0x1000 - 1, List.mem_range.2 (by omega), ?_⟩
    unfold pageSize
    omega
  simpa using (List.subperm_of_subset hall.nodup hsub).length_le

/-- Every 512 heap pages take a leaf table, so the frames run out before the heap has taken all page
numbers. -/
theorem HeapInv.top_lt (hall : MappedFrames all M) (h : HeapInv all M root top s) : top < 2 ^ 36 := by
  by_contra hge
  have hM := hall.lt
  have hslot : ∀ q n, n / 512 = q → n < 2 ^ 36 → 1 ≤ n ∧ n ≤ M ∨ 2 ^ 27 ≤ n →
      q < 512 ^ 3 ∧ ∃ t, tableAt (child s.mem) root 3 q = some t := by
    intro q n hq hn hcase
    obtain ⟨slot, hs⟩ : ∃ slot, leafSlot s.mem root n = some slot := by
      rcases hcase with ⟨h₁, h₂⟩ | h₁
      · exact h.exists_slot_ident hM h₁ h₂
      · exact h.exists_slot h₁ hn (by omega)
    obtain ⟨t, ht, -⟩ := leafSlot_eq_some.1 hs
    exact ⟨hq ▸ leaf_num_lt hn, t, hq ▸ ht⟩
  -- the numbers of the leaf tables of the identity map and of the heap
  have hqs : ∀ q, q ∈ List.range (M / 512 + 1) ++ (List.range (2 ^ 27 - 2 ^ 18)).map (2 ^ 18 + ·) →
      q < 512 ^ 3 ∧ ∃ t, tableAt (child s.mem) root 3 q = some t := by
    intro q hq
    simp only [List.mem_append, List.mem_range, List.mem_map] at hq
    obtain hq | ⟨j, hj, rfl⟩ := hq
    · by_cases hz : q = 0
      · exact hslot q 1 (by omega) (by omega) (.inl ⟨Nat.le_refl 1, hall.one_le⟩)
      · exact hslot q (512 * q) (by omega) (by omega) (.inl (by omega))
    · exact hslot _ (512 * (2 ^ 18 + j)) (by omega) (by omega) (.inr (by omega))
  have hnd : (List.range (M / 512 + 1) ++ (List.range (2 ^ 27 - 2 ^ 18)).map (2 ^ 18 + ·)).Nodup := by
    refine List.nodup_append.2 ⟨List.nodup_range, List.nodup_range.map fun i j hij => by omega, ?_⟩
    intro a ha b hb
    simp only [List.mem_range, List.mem_map] at ha hb
    obtain ⟨j, -, rfl⟩ := hb
    omega
  obtain ⟨out, hinv, hout, -⟩ := h.frames
  have hnd' : ((List.range (M / 512 + 1) ++ (List.range (2 ^ 27 - 2 ^ 18)).map (2 ^ 18 + ·)).map
      fun q => (tableAt (child s.mem) root 3 q).getD 0).Nodup := by
    refine hnd.map_on fun q hq r hr heq => ?_
    obtain ⟨hq₃, t, ht⟩ := hqs q hq
    obtain ⟨hr₃, u, hu⟩ := hqs r hr
    rw [ht, hu, Option.getD_some, Option.getD_some] at heq
    exact (h.ok.inj 3 3 q r t (Nat.le_refl 3) (Nat.le_refl 3) hq₃ hr₃ ht (heq ▸ hu)).2
  have hsub : ((List.range (M / 512 + 1) ++ (List.range (2 ^ 27 - 2 ^ 18)).map (2 ^ 18 + ·)).map
      fun q => (tableAt (child s.mem) root 3 q).getD 0) ⊆ all := by
    intro f hf
    obtain ⟨q, hq, rfl⟩ := List.mem_map.1 hf
    obtain ⟨hq₃, t, ht⟩ := hqs q hq
    rw [ht, Option.getD_some]
    exact hinv.mem_all ((hout t).2 (.inr ⟨3, q, Nat.le_refl 3, hq₃, ht⟩))
  have hlen := (List.subperm_of_subset hnd' hsub).length_le
  have hM' := hall.length_le
  simp only [List.length_map, List.length_append, List.length_range] at hlen
  omega

/-! ## One page -/

variable (hall : MappedFrames all M)
include hall

theorem MappedFrames.fits52 : ∀ f ∈ all, f < 2 ^ 52 := by
  intro f hf
  have h₁ := hall.upper f hf
  have h₂ := hall.lt
  unfold pageSize at h₁
  omega

/-- A walk with `allocate` set keeps the invariant and every leaf entry. -/
theorem HeapInv.grow (h : HeapInv all M root top s) {v : Nat} {r : Option Nat}
    (hr : pageTableGetEntry root v true s = .ok (r, s')) :
    HeapInv all M root top s' ∧ (∀ n, n < 2 ^ 36 → leafEntry s'.mem root n = leafEntry s.mem root n) ∧
      ∃ slot, r = some slot ∧ leafSlot s'.mem root (pageOf v) = some slot := by
  obtain ⟨hfr, hgrow, hslot⟩ := (pageTableGetEntry_grown
    (framesFor_supply hall.toFrames hall.fits52 root _) h.frames h.ok v).1 r s' hr
  exact ⟨h.of_leafEntry_eq hgrow.ok hfr fun n hn => hgrow.leafEntry_eq hn,
    fun n hn => hgrow.leafEntry_eq hn, hslot⟩

/-- Writing the leaf entry of a heap page, at most the first unmarked one, in a state with the leaf
entries of `s` in which the frames are those of the pages after the write. -/
theorem HeapInv.set (h : HeapInv all M root top s) (s' : Phys) (hok : TreeOK s'.mem root)
    (heq : ∀ k, k < 2 ^ 36 → leafEntry s'.mem root k = leafEntry s.mem root k) {n slot : Nat}
    {e : PageEntry} (hle : 2 ^ 27 ≤ n) (hn : n < 2 ^ 36) (hnt : n ≤ top)
    (hs : leafSlot s'.mem root n = some slot) (hav : e.available = 1)
    (hframes : FramesFor all root
      {f | (e.present = true ∧ e.frame = f) ∨ ∃ k, k ≠ n ∧ Backed s.mem root k f} s')
    (hfresh : e.present = true → ∀ k, k ≠ n → ¬ Backed s.mem root k e.frame) :
    HeapInv all M root (max top (n + 1)) { s' with mem := setEntry s'.mem slot e } ∧
      ∀ k, k < 2 ^ 36 → leafEntry (setEntry s'.mem slot e) root k =
        if k = n then e else leafEntry s.mem root k := by
  have hset := hok.leafSet hn hs e
  have hleaf : ∀ k, k < 2 ^ 36 → leafEntry (setEntry s'.mem slot e) root k =
      if k = n then e else leafEntry s.mem root k := fun k hk => by
    rw [hset.leafEntry_eq hs hk, heq k hk]
  have hself : leafEntry (setEntry s'.mem slot e) root n = e := by rw [hleaf n hn, if_pos rfl]
  have hother : ∀ k, k < 2 ^ 36 → k ≠ n →
      leafEntry (setEntry s'.mem slot e) root k = leafEntry s.mem root k := fun k hk hne => by
    rw [hleaf k hk, if_neg hne]
  have hb : ∀ k f, Backed (setEntry s'.mem slot e) root k f ↔
      (k = n ∧ e.present = true ∧ e.frame = f) ∨ (k ≠ n ∧ Backed s.mem root k f) := by
    intro k f
    by_cases hk : k = n
    · subst hk
      simp only [Backed, hself, true_and, ne_eq, not_true, false_and, or_false]
      exact ⟨fun hb => hb.2.2, fun hb => ⟨hle, hn, hb⟩⟩
    · simp only [hk, false_and, false_or, ne_eq, not_false_iff, true_and]
      refine and_congr_right fun _ => and_congr_right fun hk36 => ?_
      rw [hother k hk36 hk]
  refine ⟨{
    ok := hset.ok
    frames := ?_
    inj := fun k k' f h₁ h₂ => ?_
    ident := fun k hk => by rw [hother k (by omega) (by omega), h.ident k hk]
    below := fun k hk₁ hk₂ hk₃ => ?_
    above := fun k hk₁ hk₂ => by rw [hother k hk₁ (by omega), h.above k hk₁ (by omega)]
    base := h.base.trans (Nat.le_max_left ..) }, hleaf⟩
  · have hheld : {f | (e.present = true ∧ e.frame = f) ∨ ∃ k, k ≠ n ∧ Backed s.mem root k f} =
        {f | ∃ k, Backed (setEntry s'.mem slot e) root k f} := by
      ext f
      simp only [Set.mem_ofPred_eq, hb, exists_or, exists_eq_left]
    exact hheld ▸ hframes.setLeaf hall.toFrames hok hn hs e
  · rw [hb] at h₁ h₂
    rcases h₁ with ⟨rfl, hp, rfl⟩ | ⟨hne, h₁⟩ <;> rcases h₂ with ⟨rfl, hp', hf⟩ | ⟨hne', h₂⟩
    · rfl
    · exact absurd h₂ (hfresh hp k' hne')
    · exact absurd h₁ (hf ▸ hfresh hp' k hne)
    · exact h.inj k k' f h₁ h₂
  · by_cases hk : k = n
    · rw [hk, hself, hav]
    · rw [hother k hk₂ hk, h.below k hk₁ hk₂ (by omega)]

/-- Marking the page `top`. -/
theorem HeapInv.mark (h : HeapInv all M root top s) {v : Nat} (hv : pageOf v = top) {r : Option Nat}
    (hr : pageTableGetEntry root v true s = .ok (r, s')) {m : Mem}
    (hm : m = setEntry s'.mem (r.getD 0) { getEntry s'.mem (r.getD 0) with available := 1 }) :
    HeapInv all M root (top + 1) { s' with mem := m } ∧
      ∀ k, k < 2 ^ 36 → leafEntry m root k =
        if k = top then { PageEntry.zero with available := 1 } else leafEntry s.mem root k := by
  have htop := h.top_lt hall
  obtain ⟨h', heq, slot, rfl, hslot⟩ := h.grow hall hr
  rw [hv] at hslot
  have hzero : getEntry s'.mem slot = .zero := by
    rw [← leafEntry_of_slot hslot, h'.above top htop (Nat.le_refl top)]
  have hnb : ∀ k f, Backed s.mem root k f → k ≠ top := fun k f hb => (h.backed_lt hb).ne
  rw [Option.getD_some, hzero] at hm
  subst hm
  have hmax : max top (top + 1) = top + 1 := by omega
  rw [← hmax]
  refine h.set hall s' h'.ok heq h.base htop (Nat.le_refl top) hslot rfl ?_ nofun
  have hfr := (pageTableGetEntry_grown (framesFor_supply hall.toFrames hall.fits52 root _) h.frames
    h.ok v).1 _ s' hr
  have hheld : {f | ∃ n, Backed s.mem root n f} =
      {f | (({ PageEntry.zero with available := 1 } : PageEntry).present = true ∧
        ({ PageEntry.zero with available := 1 } : PageEntry).frame = f) ∨
          ∃ k, k ≠ top ∧ Backed s.mem root k f} := by
    ext f
    refine ⟨fun ⟨k, hb⟩ => .inr ⟨k, hnb k f hb, hb⟩, fun hf => ?_⟩
    obtain ⟨hp, -⟩ | ⟨k, -, hb⟩ := hf
    · cases hp
    · exact ⟨k, hb⟩
  exact hheld ▸ hfr.1

/-- Entering a frame from `MMU_pf_alloc` in the entry of a marked page that is not resident. -/
theorem HeapInv.fault (h : HeapInv all M root top s) {n slot pf : Nat} (hle : 2 ^ 27 ≤ n)
    (hn : n < 2 ^ 36) (hlt : n < top) (habs : (leafEntry s.mem root n).present = false)
    (hs : leafSlot s.mem root n = some slot) (ha : mmuPfAlloc s = .ok (pf, s')) {e : PageEntry}
    (he : e = (getEntry s'.mem slot).enter pf) :
    HeapInv all M root top { s' with mem := setEntry s'.mem slot e } ∧ pf ∈ all ∧ e.frame = pf ∧
      ∀ k, k < 2 ^ 36 → leafEntry (setEntry s'.mem slot e) root k =
        if k = n then e else leafEntry s.mem root k := by
  obtain ⟨out, hinv, hout, hheld⟩ := h.frames
  have hmem := mmuPfAlloc_mem ha
  have hinv' := hinv.alloc ha
  have hpf := hinv'.mem_all (.head _)
  have hnew : pf ∉ out := (List.nodup_cons.1 (hinv'.out_nodup hall.toFrames)).1
  rw [hmem] at he
  have hframe : e.frame = pf :=
    (congrArg PageEntry.frame he).trans <| PageEntry.addrOf_frame (hall.aligned pf hpf) (hall.fits52 pf hpf)
  have hav : e.available = 1 := by
    have hbelow := h.below n hle hn hlt
    rw [leafEntry_of_slot hs] at hbelow
    exact (congrArg PageEntry.available he).trans hbelow
  have hnb : ∀ k f, Backed s.mem root k f → k ≠ n := by
    rintro k f ⟨-, -, hp, -⟩ rfl
    rw [habs] at hp
    cases hp
  have hpres : e.present = true := congrArg PageEntry.present he
  have hframes : FramesFor all root
      {f | (e.present = true ∧ e.frame = f) ∨ ∃ k, k ≠ n ∧ Backed s.mem root k f} s' := by
    refine ⟨pf :: out, hinv', fun f => ?_, fun f hf => ?_⟩
    · rw [List.mem_cons, hout f, hmem, hframe]
      constructor
      · rintro (rfl | ⟨k, hb⟩ | ht)
        · exact .inl (.inl ⟨hpres, rfl⟩)
        · exact .inl (.inr ⟨k, hnb k f hb, hb⟩)
        · exact .inr ht
      · rintro ((⟨-, rfl⟩ | ⟨k, -, hb⟩) | ht)
        · exact .inl rfl
        · exact .inr (.inl ⟨k, hb⟩)
        · exact .inr (.inr ht)
    · rw [hmem]
      obtain ⟨-, rfl⟩ | ⟨k, -, hb⟩ := hf
      · exact fun ht => hnew ((hout _).2 (.inr (hframe ▸ ht)))
      · exact hheld f ⟨k, hb⟩
  obtain ⟨hinv'', hleaf⟩ := h.set hall s' (hmem ▸ h.ok) (fun k _ => by rw [hmem]) hle hn
    (Nat.le_of_lt hlt) (hmem ▸ hs) hav hframes
    fun _ k _ hb => hnew ((hout pf).2 (.inl ⟨k, hframe ▸ hb⟩))
  rw [Nat.max_eq_left hlt] at hinv''
  exact ⟨hinv'', hpf, hframe, hleaf⟩

/-- Giving back the frame of a resident page and clearing its present bit. -/
theorem HeapInv.unmap (h : HeapInv all M root top s) {n slot pf : Nat} (hb : Backed s.mem root n pf)
    (hs : leafSlot s.mem root n = some slot) {e : PageEntry}
    (he : e = { getEntry (mmuPfFree pf s).mem slot with present := false }) :
    HeapInv all M root top { mmuPfFree pf s with mem := setEntry (mmuPfFree pf s).mem slot e } ∧
      (∀ free, Chain s.mem s.freeList free →
        Chain (setEntry (mmuPfFree pf s).mem slot e) pf (pf :: free)) ∧
      ∀ k, k < 2 ^ 36 → leafEntry (setEntry (mmuPfFree pf s).mem slot e) root k =
        if k = n then { leafEntry s.mem root n with present := false } else leafEntry s.mem root k := by
  obtain ⟨out, hinv, hout, hheld⟩ := h.frames
  have hpf : pf ∈ out := (hout pf).2 (.inl ⟨n, hb⟩)
  have hmod := hall.aligned pf (hinv.mem_all hpf)
  have hfreed : ∀ t, IsTable s.mem root t → ∀ b, InRange t pageSize b →
      (mmuPfFree pf s).mem b = s.mem b := by
    intro t ht b hbt
    refine store64_apply_of_not_mem fun hbp => hheld pf ⟨n, hb⟩ ?_
    have htmod := hall.aligned t (hinv.mem_all ((hout t).2 (.inr ht)))
    have h₁ := hbt.1
    have h₂ := hbt.2
    have h₃ := hbp.1
    have h₄ := hbp.2
    obtain rfl : t = pf := by unfold pageSize at *; omega
    exact ht
  obtain ⟨hsame, heq⟩ := h.ok.write_outside hfreed
  have hlt := h.backed_lt hb
  have hle := hb.1
  have hn := hb.2.1
  have hfr := hb.2.2.2
  have hslot := (hsame.leafSlot_eq hn).trans hs
  have hget : getEntry (mmuPfFree pf s).mem slot = leafEntry s.mem root n := by
    rw [← leafEntry_of_slot hslot, heq n hn]
  rw [hget] at he
  have hav : e.available = 1 := (congrArg PageEntry.available he).trans (h.below n hle hn hlt)
  have hpres : e.present = false := by rw [he]
  have hframes : FramesFor all root
      {f | (e.present = true ∧ e.frame = f) ∨ ∃ k, k ≠ n ∧ Backed s.mem root k f} (mmuPfFree pf s) := by
    refine ⟨out.erase pf, hinv.free hall.toFrames hpf, fun f => ?_, fun f hf => ?_⟩
    · rw [(hinv.out_nodup hall.toFrames).mem_erase_iff, hout f, hsame.isTable_iff, hpres]
      constructor
      · rintro ⟨hne, ⟨k, hk⟩ | ht⟩
        · refine .inl (.inr ⟨k, fun hkn => hne ?_, hk⟩)
          rw [← hk.2.2.2, hkn, hfr]
        · exact .inr ht
      · rintro ((⟨hp', -⟩ | ⟨k, hne, hk⟩) | ht)
        · cases hp'
        · exact ⟨fun hf => hne (h.inj k n pf (hf ▸ hk) hb), .inl ⟨k, hk⟩⟩
        · exact ⟨fun hf => hheld pf ⟨n, hb⟩ (hf ▸ ht), .inr ht⟩
    · rw [hsame.isTable_iff]
      obtain ⟨hp', -⟩ | ⟨k, -, hk⟩ := hf
      · rw [hpres] at hp'
        cases hp'
      · exact hheld f ⟨k, hk⟩
  have hgone : e.present = true → ∀ k, k ≠ n → ¬ Backed s.mem root k e.frame := by
    intro hp
    rw [hpres] at hp
    cases hp
  have hset := h.set hall (mmuPfFree pf s) hsame.ok heq hle hn (Nat.le_of_lt hlt) hslot hav hframes
    hgone
  rw [Nat.max_eq_left hlt] at hset
  refine ⟨hset.1, fun free hc => ?_, fun k hk => by rw [hset.2 k hk, he]⟩
  obtain ⟨t, ht, rfl⟩ := leafSlot_eq_some.1 hs
  have htab : IsTable s.mem root t := ⟨3, _, Nat.le_refl 3, leaf_num_lt hn, ht⟩
  have hne : t ≠ pf := fun heq => hheld pf ⟨n, hb⟩ (heq ▸ htab)
  have hout' : t ∈ out.erase pf := (List.mem_erase_of_ne hne).2 ((hout t).2 (.inr htab))
  refine (hinv.free hall.toFrames hpf).write_chain hall.toFrames (fun b hb => ?_)
    (hinv.free_chain hall.toFrames hpf hc)
  refine setEntry_apply_of_not_mem fun hb' => hb t hout' ⟨?_, ?_⟩
  · have := hb'.1
    omega
  · have := hb'.2
    unfold pageSize
    omega

omit hall in
/-- Frames the memory management keeps are frames of the region table. -/
theorem HeapInv.kept_mem (h : HeapInv all M root top s) {f : Nat} (hf : Kept s root f) : f ∈ all := by
  obtain ⟨out, hinv, hout, -⟩ := h.frames
  obtain ⟨free, hc, hperm⟩ := hinv.split
  rcases hf with ht | hr | ⟨free', hc', hmem⟩
  · exact hinv.mem_all ((hout f).2 (.inr ht))
  · exact hperm.subset (List.mem_append_right _ hr)
  · obtain rfl := hc.det hc'
    exact hperm.subset (List.mem_append_left _ (List.mem_append_left _ hmem))

/-- The frame of a resident heap page is not kept. -/
theorem HeapInv.not_kept (h : HeapInv all M root top s) {n f : Nat} (hb : Backed s.mem root n f) :
    ¬ Kept s root f := by
  obtain ⟨out, hinv, hout, hheld⟩ := h.frames
  obtain ⟨free, hc, hperm⟩ := hinv.split
  have hmem : f ∈ out := (hout f).2 (.inl ⟨n, hb⟩)
  obtain ⟨hnd, -, hrem⟩ := List.nodup_append.1 (hperm.nodup_iff.2 hall.nodup)
  rintro (ht | hr | ⟨free', hc', hf⟩)
  · exact hheld f ⟨n, hb⟩ ht
  · exact hrem f (List.mem_append_right _ hmem) f hr rfl
  · obtain rfl := hc.det hc'
    exact (List.nodup_append.1 hnd).2.2 f hf f hmem rfl

omit hall in
/-- Writing anywhere but into kept frames changes no leaf entry. -/
theorem HeapInv.write (h : HeapInv all M root top s) {mem : Mem}
    (hw : ∀ f, Kept s root f → ∀ b, InRange f pageSize b → mem b = s.mem b) :
    HeapInv all M root top { s with mem } ∧
      ∀ n, n < 2 ^ 36 → leafEntry mem root n = leafEntry s.mem root n := by
  obtain ⟨out, hinv, hout, hheld⟩ := h.frames
  obtain ⟨free, hc, hperm⟩ := hinv.split
  obtain ⟨hsame, hleaf⟩ := h.ok.write_outside fun t ht => hw t (.inl ht)
  have hc' : Chain mem s.freeList free := by
    refine hc.congr fun f hf => load64_congr fun b hb => hw f (.inr (.inr ⟨free, hc, hf⟩)) b ⟨hb.1, ?_⟩
    have := hb.2
    unfold pageSize
    omega
  refine ⟨h.of_leafEntry_eq hsame.ok ⟨out, ⟨⟨free, hc', hperm⟩, hinv.aligned⟩, fun f => ?_,
    fun f hf => ?_⟩ hleaf, hleaf⟩
  · rw [hout f, hsame.isTable_iff]
  · rw [hsame.isTable_iff]
    exact hheld f hf

omit hall in
/-- Page 0 has a leaf slot, with the zero entry. -/
theorem HeapInv.null_slot (h : HeapInv all M root top s) (hM : M < 2 ^ 27) (h1 : 1 ≤ M) :
    ∃ slot, leafSlot s.mem root 0 = some slot ∧ getEntry s.mem slot = .zero := by
  obtain ⟨slot, hslot⟩ := h.exists_slot_ident hM (Nat.le_refl 1) h1
  obtain ⟨t, ht, -⟩ := leafSlot_eq_some.1 hslot
  have hs : leafSlot s.mem root 0 = some t := leafSlot_eq_some.2 ⟨t, ht, rfl⟩
  refine ⟨t, hs, ?_⟩
  rw [← leafEntry_of_slot hs, h.ident 0 (by omega), identEntry, if_neg (by omega)]

/-- The frames are present in the identity map. -/
theorem HeapInv.frame_present (h : HeapInv all M root top s) {f : Nat} (hf : f ∈ all) :
    (leafEntry s.mem root (pageOf f)).present = true := by
  have h₁ := hall.lower f hf
  have h₂ := hall.upper f hf
  have h₃ := hall.lt
  unfold pageSize at h₁ h₂
  have hpage : pageOf f = f / pageSize := pageOf_eq (by omega)
  rw [hpage, h.ident _ (by unfold pageSize; omega), identEntry, if_pos (by unfold pageSize; omega)]
  rfl

end

/-! ## The operations -/

/-- The leaf entry of the page `n` in the loaded table. -/
abbrev Kernel.leaf (k : Kernel) (n : Nat) : PageEntry := leafEntry k.phys.mem k.cr3 n

/-- The invariant of the memory management, with the break at the page `top`. -/
structure KernelInv (all : List Nat) (M top : Nat) (k : Kernel) : Prop where
  heap : HeapInv all M k.cr3 top k.phys
  brk : k.brk = pageSize * top

/-- The entry of a page that is marked and was never used. -/
abbrev markedEntry : PageEntry := { PageEntry.zero with available := 1 }

/-- A size below `2 ^ 31` is what `MMU_PAGE_SIZE * num` computes. -/
theorem pageBytes_natCast {n : Nat} (hn : pageSize * n < 2 ^ 31) : pageBytes n = pageSize * n :=
  Int.bmod_eq_of_le (by omega) (by omega)

/-- The end of `n` pages from `v` on, in a heap below `2 ^ 48`. -/
theorem endAddr_eq {v n : Nat} {num : Int} (hv : v < 2 ^ 48) (hn : pageSize * n < 2 ^ 31)
    (hnum : pageBytes num = pageSize * n) :
    (((v : Int) + pageBytes num) % 2 ^ 64).toNat = v + pageSize * n := by
  rw [hnum]
  omega

/-- The number of iterations over `num` pages. -/
theorem pages_count (v num : Nat) :
    (v + pageSize * num - v + (pageSize - 1)) / pageSize = num := by
  unfold pageSize
  omega

section
variable {all : List Nat} {M top : Nat} (hall : MappedFrames all M)
include hall

/-- Marking `n` pages from `top` on. -/
theorem HeapInv.markPages {root : Nat} : ∀ n top s, HeapInv all M root top s → ∀ s',
    walkPages root markAvailableCallback n (pageSize * top) s = .ok s' →
    HeapInv all M root (top + n) s' ∧ ∀ j, j < 2 ^ 36 → leafEntry s'.mem root j =
      if top ≤ j ∧ j < top + n then markedEntry else leafEntry s.mem root j := by
  intro n
  induction n with
  | zero =>
    intro top s h s' hs'
    cases hs'
    exact ⟨h, fun j _ => by rw [if_neg (by omega)]⟩
  | succ n ih =>
    intro top s h s' hs'
    obtain ⟨⟨r, s₁⟩, hr, hrest⟩ := Except.bind_eq_ok.1 hs'
    obtain ⟨h₁, hleaf₁⟩ := h.mark hall (pageOf_pageSize_mul (h.top_lt hall)) hr rfl
    obtain ⟨h₂, hleaf₂⟩ := ih (top + 1) _ h₁ s' hrest
    rw [Nat.add_right_comm] at h₂
    refine ⟨h₂, fun j hj => ?_⟩
    rw [hleaf₂ j hj, hleaf₁ j hj]
    by_cases hjt : j = top
    · rw [if_neg (by omega), if_pos hjt, if_pos (by omega)]
    · have hiff : (top + 1 ≤ j ∧ j < top + 1 + n) ↔ (top ≤ j ∧ j < top + (n + 1)) := by omega
      simp only [hiff, if_neg hjt]

variable {k k' : Kernel}

/-- The break lies below `2 ^ 48`. -/
theorem KernelInv.brk_lt (h : KernelInv all M top k) : k.brk < 2 ^ 48 := by
  have htop := h.heap.top_lt hall
  rw [h.brk]
  unfold pageSize
  omega

/-- `MMU_alloc_page` marks the page at the break. -/
theorem KernelInv.allocPage (h : KernelInv all M top k) {v : Nat} (hr : mmuAllocPage k = .ok (v, k')) :
    v = pageSize * top ∧ k'.cr3 = k.cr3 ∧ KernelInv all M (top + 1) k' ∧
      ∀ j, j < 2 ^ 36 → k'.leaf j = if j = top then markedEntry else k.leaf j := by
  have htop := h.heap.top_lt hall
  obtain ⟨⟨r, s₁⟩, hget, hres⟩ := Except.bind_eq_ok.1 hr
  cases hres
  dsimp only [sbrk] at hget
  rw [h.brk] at hget
  obtain ⟨h₁, hleaf⟩ := h.heap.mark hall (pageOf_pageSize_mul htop) hget rfl
  refine ⟨h.brk, rfl, ⟨h₁, ?_⟩, hleaf⟩
  dsimp only [sbrk]
  rw [h.brk]
  unfold pageSize
  omega

/-- `MMU_alloc_pages` marks the pages from the break on. -/
theorem KernelInv.allocPages (h : KernelInv all M top k) {num v : Nat} (hnum : pageSize * num < 2 ^ 31)
    (hr : mmuAllocPages num k = .ok (v, k')) :
    v = pageSize * top ∧ k'.cr3 = k.cr3 ∧ KernelInv all M (top + num) k' ∧
      ∀ j, j < 2 ^ 36 → k'.leaf j = if top ≤ j ∧ j < top + num then markedEntry else k.leaf j := by
  have hbrk := h.brk_lt hall
  have hbytes := pageBytes_natCast hnum
  obtain ⟨s₁, hwalk, hres⟩ := Except.bind_eq_ok.1 hr
  cases hres
  dsimp only [sbrk] at hwalk
  rw [endAddr_eq hbrk hnum hbytes, pageTableWalk, pages_count, h.brk] at hwalk
  obtain ⟨h₁, hleaf⟩ := HeapInv.markPages hall num top k.phys h.heap s₁ hwalk
  refine ⟨h.brk, rfl, ⟨h₁, ?_⟩, hleaf⟩
  dsimp only [sbrk]
  rw [endAddr_eq hbrk hnum hbytes, h.brk, Nat.mul_add]

omit hall in
/-- `page_fault_handler` halts at an address outside the marked pages. -/
theorem HeapInv.fault_invalid (h : HeapInv all M k.cr3 top k.phys) {v : Nat}
    (hv : ¬ (2 ^ 27 ≤ pageOf v ∧ pageOf v < top)) :
    ∃ e, pageFaultHandler v k = .error e ∧ e.InvalidAccess v := by
  have hav : (leafEntry k.phys.mem k.cr3 (pageOf v)).available = 0 := by
    by_cases hle : 2 ^ 27 ≤ pageOf v
    · rw [h.above _ (pageOf_lt v) (by omega)]
      rfl
    · rw [h.ident _ (by omega), identEntry]
      split <;> rfl
  cases hs : leafSlot k.phys.mem k.cr3 (pageOf v) with
  | none =>
    refine ⟨.outOfRange v, Except.bind_eq_error.2 (.inr ⟨_, pageTableGetEntry_lookup .., ?_⟩), .inl rfl⟩
    simp only [hs]
  | some slot =>
    refine ⟨.notAvailable v, Except.bind_eq_error.2 (.inr ⟨_, pageTableGetEntry_lookup .., ?_⟩), .inr rfl⟩
    rw [leafEntry_of_slot hs] at hav
    simp only [hs, hav, if_true]

/-- `page_fault_handler` at a marked page that is not resident: it takes a frame, or halts where
`MMU_pf_alloc` does. -/
theorem KernelInv.fault_valid (h : KernelInv all M top k) {v : Nat} (hle : 2 ^ 27 ≤ pageOf v)
    (hlt : pageOf v < top) (habs : (k.leaf (pageOf v)).present = false) :
    (∀ e, mmuPfAlloc k.phys = .error e → pageFaultHandler v k = .error e) ∧
    ∀ pf s', mmuPfAlloc k.phys = .ok (pf, s') → ∃ k', pageFaultHandler v k = .ok k' ∧
      k'.cr3 = k.cr3 ∧ KernelInv all M top k' ∧ Backed k'.phys.mem k'.cr3 (pageOf v) pf ∧
      (k'.leaf (pageOf v)).readWrite = true ∧
      ∀ j, j < 2 ^ 36 → j ≠ pageOf v → k'.leaf j = k.leaf j := by
  have hn := pageOf_lt v
  obtain ⟨slot, hs⟩ := h.heap.exists_slot hle hn hlt
  have hav : (getEntry k.phys.mem slot).available ≠ 0 := by
    rw [← leafEntry_of_slot hs, h.heap.below _ hle hn hlt]
    decide
  have heq : pageFaultHandler v k = (do
      let (pf, s) ← mmuPfAlloc k.phys
      .ok { k with phys := { s with mem := setEntry s.mem slot ((getEntry s.mem slot).enter pf) } }) := by
    rw [pageFaultHandler, pageTableGetEntry_lookup, hs]
    simp only [bind, Except.bind, if_neg hav]
  refine ⟨fun e he => by rw [heq, he]; rfl, fun pf s' ha => ?_⟩
  obtain ⟨h₁, -, hframe, hleaf⟩ := h.heap.fault hall hle hn hlt habs hs ha rfl
  have hself := hleaf _ hn
  rw [if_pos rfl] at hself
  refine ⟨{ k with phys := { s' with mem := setEntry s'.mem slot ((getEntry s'.mem slot).enter pf) } },
    heq.trans (by rw [ha]; rfl), rfl, ⟨h₁, h.brk⟩, ⟨hle, hn, ?_, ?_⟩, ?_, fun j hj hne => ?_⟩
  · exact congrArg PageEntry.present hself
  · exact (congrArg PageEntry.frame hself).trans hframe
  · exact congrArg PageEntry.readWrite hself
  · exact (hleaf j hj).trans (if_neg hne)

/-- `MMU_free_page` of a resident heap page pushes its frame and clears its present bit. -/
theorem KernelInv.freePage (h : KernelInv all M top k) {v pf : Nat}
    (hb : Backed k.phys.mem k.cr3 (pageOf v) pf) :
    ∃ k', mmuFreePage v k = .ok k' ∧ k'.cr3 = k.cr3 ∧ KernelInv all M top k' ∧
      (∀ free, Chain k.phys.mem k.phys.freeList free →
        Chain k'.phys.mem k'.phys.freeList (pf :: free)) ∧
      ∀ j, j < 2 ^ 36 → k'.leaf j =
        if j = pageOf v then { k.leaf (pageOf v) with present := false } else k.leaf j := by
  obtain ⟨slot, hs⟩ := h.heap.exists_slot hb.1 hb.2.1 (h.heap.backed_lt hb)
  obtain ⟨out, hinv, hout, -⟩ := h.heap.frames
  have hpf : pf ∈ all := hinv.mem_all ((hout pf).2 (.inl ⟨_, hb⟩))
  have hframe : (getEntry k.phys.mem slot).frame = pf := by
    rw [← leafEntry_of_slot hs]
    exact hb.2.2.2
  have htouch : touch pf k = .ok k := if_pos (h.heap.frame_present hall hpf)
  obtain ⟨h₁, hchain, hleaf⟩ := h.heap.unmap hall hb hs rfl
  refine ⟨{ k with phys := { mmuPfFree pf k.phys with
      mem := setEntry (mmuPfFree pf k.phys).mem slot
        { getEntry (mmuPfFree pf k.phys).mem slot with present := false } } },
    ?_, rfl, ⟨h₁, h.brk⟩, hchain, hleaf⟩
  refine Except.bind_eq_ok.2 ⟨_, pageTableGetEntry_found hs true, ?_⟩
  refine Except.bind_eq_ok.2 ⟨k, by simp only [Option.getD_some, hframe, htouch], ?_⟩
  simp only [Option.getD_some, hframe]

/-- `MMU_free_page` of a marked page whose entry holds no frame: the store of `MMU_pf_free` to the
null pointer faults, and the fault is an invalid access. -/
theorem KernelInv.freePage_null (h : KernelInv all M top k) {v : Nat} (hle : 2 ^ 27 ≤ pageOf v)
    (hlt : pageOf v < top) (hz : (k.leaf (pageOf v)).frame = 0) :
    mmuFreePage v k = .error (.notAvailable 0) := by
  obtain ⟨slot, hs⟩ := h.heap.exists_slot hle (pageOf_lt v) hlt
  obtain ⟨slot₀, hs₀, hzero⟩ := h.heap.null_slot hall.lt hall.one_le
  have hframe : (getEntry k.phys.mem slot).frame = 0 := by
    rw [← leafEntry_of_slot hs]
    exact hz
  have hnull : leafEntry k.phys.mem k.cr3 (pageOf 0) = .zero := by
    rw [← hzero]
    exact leafEntry_of_slot hs₀
  have htouch : touch 0 k = .error (.notAvailable 0) := by
    rw [touch, hnull, if_neg (by decide)]
    refine Except.bind_eq_error.2 (.inr ⟨_, pageTableGetEntry_lookup .., ?_⟩)
    have hs₀' : leafSlot k.phys.mem k.cr3 (pageOf 0) = some slot₀ := hs₀
    simp only [hs₀', hzero]
    rfl
  refine Except.bind_eq_error.2 (.inr ⟨_, pageTableGetEntry_found hs true, ?_⟩)
  refine Except.bind_eq_error.2 (.inl ?_)
  simp only [Option.getD_some, hframe, htouch]

/-- The frames of the resident pages `[p, p + n)`, the last one first: the order in which
`MMU_free_pages` leaves them on the free list. -/
def Kernel.framesOf (k : Kernel) (p n : Nat) : List Nat :=
  ((List.range' p n).map fun j => (k.leaf j).frame).reverse

/-- The loop of `MMU_free_pages` over resident heap pages. -/
theorem KernelInv.freePagesFrom : ∀ n v k, KernelInv all M top k → 2 ^ 27 ≤ v / pageSize →
    v / pageSize + n ≤ 2 ^ 36 →
    (∀ j, v / pageSize ≤ j → j < v / pageSize + n → (k.leaf j).present = true) →
    ∃ k', freePagesFrom n v k = .ok k' ∧ k'.cr3 = k.cr3 ∧ KernelInv all M top k' ∧
      (∀ free, Chain k.phys.mem k.phys.freeList free →
        Chain k'.phys.mem k'.phys.freeList (k.framesOf (v / pageSize) n ++ free)) ∧
      ∀ j, j < 2 ^ 36 → k'.leaf j =
        if v / pageSize ≤ j ∧ j < v / pageSize + n then { k.leaf j with present := false }
        else k.leaf j := by
  intro n
  induction n with
  | zero =>
    intro v k h _ _ _
    exact ⟨k, rfl, rfl, h, fun free hc => hc, fun j _ => by rw [if_neg (by omega)]⟩
  | succ n ih =>
    intro v k h hle hlt hres
    have hdiv : (v + pageSize) / pageSize = v / pageSize + 1 := Nat.add_div_right v (by decide)
    have hpage : pageOf v = v / pageSize := pageOf_eq (by unfold pageSize at hlt; omega)
    obtain ⟨k₁, hk₁, hcr, h₁, hchain₁, hleaf₁⟩ := h.freePage hall (v := v)
      ⟨hpage ▸ hle, pageOf_lt v, hpage ▸ hres _ (Nat.le_refl _) (by omega), rfl⟩
    rw [hpage] at hleaf₁ hchain₁
    have hrest : ∀ j, v / pageSize + 1 ≤ j → j < v / pageSize + 1 + n → k₁.leaf j = k.leaf j :=
      fun j hj₁ hj₂ => (hleaf₁ j (by omega)).trans (if_neg (by omega))
    obtain ⟨k', hk', hcr', h', hchain', hleaf'⟩ := ih (v + pageSize) k₁ h₁ (by omega) (by omega)
      fun j hj₁ hj₂ => by
        rw [hdiv] at hj₁ hj₂
        rw [hrest j hj₁ hj₂, hres j (by omega) (by omega)]
    rw [hdiv] at hchain' hleaf'
    refine ⟨k', Except.bind_eq_ok.2 ⟨k₁, hk₁, hk'⟩, hcr'.trans hcr, h', fun free hc => ?_,
      fun j hj => ?_⟩
    · have hframes : k.framesOf (v / pageSize) (n + 1) ++ free =
          k₁.framesOf (v / pageSize + 1) n ++ ((k.leaf (v / pageSize)).frame :: free) := by
        have hmap : (List.range' (v / pageSize + 1) n).map (fun j => (k.leaf j).frame) =
            (List.range' (v / pageSize + 1) n).map fun j => (k₁.leaf j).frame := by
          refine List.map_congr_left fun j hj => ?_
          rw [List.mem_range'_1] at hj
          rw [hrest j hj.1 hj.2]
        rw [Kernel.framesOf, Kernel.framesOf, List.range'_succ, List.map_cons, List.reverse_cons,
          List.append_assoc, List.singleton_append, hmap]
      rw [hframes]
      exact hchain' _ (hchain₁ free hc)
    · rw [hleaf' j hj, hleaf₁ j hj]
      by_cases hjv : j = v / pageSize
      · subst hjv
        rw [if_neg (by omega), if_pos rfl, if_pos (by omega)]
      · have hiff : (v / pageSize + 1 ≤ j ∧ j < v / pageSize + 1 + n) ↔
            (v / pageSize ≤ j ∧ j < v / pageSize + (n + 1)) := by omega
        simp only [hiff, if_neg hjv]

omit hall in
theorem mmuFreePages_eq {v n : Nat} {num : Int} (hv : v < 2 ^ 48) (hn : pageSize * n < 2 ^ 31)
    (hnum : pageBytes num = pageSize * n) : mmuFreePages v num k = BanjOS.freePagesFrom n v k := by
  rw [mmuFreePages, endAddr_eq hv hn hnum, pages_count]

/-- The loop of `MMU_free_pages` over marked pages that are resident or hold no frame, one of them not
resident. -/
theorem KernelInv.freePagesFrom_null : ∀ n v k, KernelInv all M top k → 2 ^ 27 ≤ v / pageSize →
    v / pageSize + n ≤ top →
    (∀ j, v / pageSize ≤ j → j < v / pageSize + n →
      (k.leaf j).present = true ∨ (k.leaf j).frame = 0) →
    (∃ j, v / pageSize ≤ j ∧ j < v / pageSize + n ∧ (k.leaf j).present = false) →
    BanjOS.freePagesFrom n v k = .error (.notAvailable 0) := by
  intro n
  induction n with
  | zero =>
    rintro v k _ _ _ _ ⟨j, h₁, h₂, -⟩
    omega
  | succ n ih =>
    intro v k h hle hlt hres habs
    have htop := h.heap.top_lt hall
    have hdiv : (v + pageSize) / pageSize = v / pageSize + 1 := Nat.add_div_right v (by decide)
    have hpage : pageOf v = v / pageSize := pageOf_eq (by unfold pageSize at hlt; omega)
    rcases hres (v / pageSize) (Nat.le_refl _) (by omega) with hp | hz
    · obtain ⟨k₁, hk₁, -, h₁, -, hleaf₁⟩ := h.freePage hall (v := v)
        ⟨hpage ▸ hle, pageOf_lt v, hpage ▸ hp, rfl⟩
      rw [hpage] at hleaf₁
      have hrest : ∀ j, v / pageSize + 1 ≤ j → j < v / pageSize + 1 + n → k₁.leaf j = k.leaf j :=
        fun j hj₁ hj₂ => (hleaf₁ j (by omega)).trans (if_neg (by omega))
      refine Except.bind_eq_error.2 (.inr ⟨k₁, hk₁, ih (v + pageSize) k₁ h₁ (by omega) (by omega)
        (fun j hj₁ hj₂ => ?_) ?_⟩)
      · rw [hdiv] at hj₁ hj₂
        rw [hrest j hj₁ hj₂]
        exact hres j (by omega) (by omega)
      · obtain ⟨j, hj₁, hj₂, hj⟩ := habs
        have hjv : j ≠ v / pageSize := fun heq => by
          rw [heq, hp] at hj
          cases hj
        rw [hdiv]
        exact ⟨j, by omega, by omega, by rw [hrest j (by omega) (by omega), hj]⟩
    · exact Except.bind_eq_error.2 (.inl (h.freePage_null hall (hpage ▸ hle) (by omega) (hpage ▸ hz)))

end

end BanjOS
