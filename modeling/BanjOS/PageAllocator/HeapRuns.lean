import BanjOS.PageAllocator.Demand
import Mathlib.Order.Interval.Set.Basic

/-!
# Runs of the kernel heap

The heap from boot on, under any order of `MMU_alloc_page`, `MMU_alloc_pages`, uses of addresses (with
their page faults), `MMU_free_page`, `MMU_free_pages` and writes. A state of such a run carries its history as two sets of pages: those that are allocated (`live`) and those that were
freed since their allocation (`freed`). `RunInv` ties them to the kernel's invariant: together they are
the marked pages.

Two results about all runs. The frames of resident heap pages are exclusive
(`heapStep_exclusive`). And a fault is resolved exactly on the pages that are marked, which is not what
`MMU_free_page` is for: it leaves the mark, so a page that was freed comes back on its next use
(`heapStep_demandPaged_iff`).
-/

namespace BanjOS

open ByteMem Radix

/-- The kernel with the history of its heap. -/
structure HeapState where
  kernel : Kernel
  live : Set Nat
  freed : Set Nat

/-- A step of the heap. Frees are of allocated, resident pages. -/
inductive HeapStep : HeapState → HeapState → Prop
  /-- `MMU_alloc_page` returns. -/
  | allocPage {k k' : Kernel} {live freed : Set Nat} {v : Nat} : mmuAllocPage k = .ok (v, k') →
      HeapStep ⟨k, live, freed⟩ ⟨k', live ∪ {v / pageSize}, freed \ {v / pageSize}⟩
  /-- `MMU_alloc_pages(num)` returns. -/
  | allocPages {k k' : Kernel} {live freed : Set Nat} {num v : Nat} : 0 < num →
      pageSize * num < 2 ^ 31 → mmuAllocPages num k = .ok (v, k') →
      HeapStep ⟨k, live, freed⟩ ⟨k', live ∪ Set.Ico (v / pageSize) (v / pageSize + num),
        freed \ Set.Ico (v / pageSize) (v / pageSize + num)⟩
  /-- A use of the address `v`, with a page fault that is resolved if the page is not present. -/
  | touch {k k' : Kernel} {live freed : Set Nat} {v : Nat} : touch v k = .ok k' →
      HeapStep ⟨k, live, freed⟩ ⟨k', live, freed⟩
  /-- `MMU_free_page(v)` returns. -/
  | freePage {k k' : Kernel} {live freed : Set Nat} {v : Nat} : v / pageSize ∈ live →
      (k.leaf (v / pageSize)).present = true → mmuFreePage v k = .ok k' →
      HeapStep ⟨k, live, freed⟩ ⟨k', live \ {v / pageSize}, freed ∪ {v / pageSize}⟩
  /-- `MMU_free_pages(v, num)` returns. -/
  | freePages {k k' : Kernel} {live freed : Set Nat} {v num : Nat} : 0 < num →
      pageSize * num < 2 ^ 31 →
      (∀ j, v / pageSize ≤ j → j < v / pageSize + num → j ∈ live ∧ (k.leaf j).present = true) →
      mmuFreePages v num k = .ok k' →
      HeapStep ⟨k, live, freed⟩ ⟨k', live \ Set.Ico (v / pageSize) (v / pageSize + num),
        freed ∪ Set.Ico (v / pageSize) (v / pageSize + num)⟩
  /-- Any change of memory outside the frames the memory management keeps: in resident heap pages and in
  the static data of the kernel. -/
  | write {k : Kernel} {live freed : Set Nat} {mem : Mem} :
      (∀ f, Kept k.phys k.cr3 f → ∀ b, InRange f pageSize b → mem b = k.phys.mem b) →
      HeapStep ⟨k, live, freed⟩ ⟨{ k with phys := { k.phys with mem } }, live, freed⟩

/-- The heap after `init_page_table` has loaded the table `root`. -/
def HeapState.boot (root : Nat) (s : Phys) : HeapState := ⟨⟨s, root, addrSpaceKernelHeapBase⟩, ∅, ∅⟩

/-- The invariant of a run: the marked pages are those that are allocated and those that were freed,
and an allocated page that is not resident was never used. -/
structure RunInv (all : List Nat) (M root top : Nat) (h : HeapState) : Prop where
  inv : KernelInv all M top h.kernel
  cr3 : h.kernel.cr3 = root
  marked : ∀ n, n ∈ h.live ∨ n ∈ h.freed ↔ 2 ^ 27 ≤ n ∧ n < top
  disjoint : ∀ n, n ∈ h.live → n ∉ h.freed
  untouched : ∀ n, n ∈ h.live → (h.kernel.leaf n).present = false → h.kernel.leaf n = markedEntry

/-- The state at boot. -/
theorem MapInv.runInv {all : List Nat} {M root : Nat} {s : Phys} (hM : M < 2 ^ 27)
    (h : MapInv all root M (M + 1) s) : RunInv all M root (2 ^ 27) (.boot root s) where
  inv := ⟨h.heapInv hM, rfl⟩
  cr3 := rfl
  marked n := ⟨fun hn => hn.elim nofun nofun, fun hn => absurd hn.2 (by omega)⟩
  disjoint _ hn := nomatch hn
  untouched _ hn := nomatch hn

/-- The interval of one page. -/
theorem Ico_one (n : Nat) : Set.Ico n (n + 1) = {n} := by
  ext j
  simp only [Set.mem_Ico, Set.mem_singleton_iff]
  omega

section
variable {all : List Nat} {M root top : Nat} (hall : MappedFrames all M)
include hall

/-- A use of an address that returns: the page was resident, or it is marked and gets a frame. -/
theorem KernelInv.touch_ok {k k' : Kernel} (h : KernelInv all M top k) {v : Nat}
    (ht : touch v k = .ok k') : k'.cr3 = k.cr3 ∧ KernelInv all M top k' ∧
      (k'.leaf (pageOf v)).present = true ∧
      ∀ j, j < 2 ^ 36 → j ≠ pageOf v ∨ (k.leaf j).present = true → k'.leaf j = k.leaf j := by
  rw [touch] at ht
  split at ht
  · next hp =>
    cases ht
    exact ⟨rfl, h, hp, fun _ _ _ => rfl⟩
  · next habs =>
    rw [Bool.not_eq_true] at habs
    by_cases hv : 2 ^ 27 ≤ pageOf v ∧ pageOf v < top
    · obtain ⟨herr, hok⟩ := h.fault_valid hall hv.1 hv.2 habs
      cases ha : mmuPfAlloc k.phys with
      | error e =>
        rw [herr e ha] at ht
        cases ht
      | ok x =>
        obtain ⟨k₁, hk₁, hcr, h₁, hb, -, hleaf⟩ := hok x.1 x.2 ha
        rw [hk₁] at ht
        cases ht
        refine ⟨hcr, h₁, hb.2.2.1, fun j hj hor => hleaf j hj ?_⟩
        rintro rfl
        rcases hor with hne | hp
        · exact hne rfl
        · rw [Kernel.leaf, habs] at hp
          cases hp
    · obtain ⟨e, he, -⟩ := h.heap.fault_invalid hv
      rw [he] at ht
      cases ht

/-- What a step does to the kernel: it reserves the pages `[top, top + n)`, it releases allocated pages
`[p, p + n)`, or it changes leaf entries only by making pages resident. -/
inductive HeapEffect (all : List Nat) (M top : Nat) (k k' : Kernel) (live freed : Set Nat) :
    Set Nat → Set Nat → Prop
  | reserve (n : Nat) : KernelInv all M (top + n) k' →
      (∀ j, j < 2 ^ 36 → k'.leaf j = if top ≤ j ∧ j < top + n then markedEntry else k.leaf j) →
      HeapEffect all M top k k' live freed (live ∪ Set.Ico top (top + n)) (freed \ Set.Ico top (top + n))
  | release (p n : Nat) : KernelInv all M top k' → (∀ j, p ≤ j → j < p + n → j ∈ live) →
      (∀ j, j < 2 ^ 36 → ¬ (p ≤ j ∧ j < p + n) → k'.leaf j = k.leaf j) →
      HeapEffect all M top k k' live freed (live \ Set.Ico p (p + n)) (freed ∪ Set.Ico p (p + n))
  | use : KernelInv all M top k' →
      (∀ j, j < 2 ^ 36 → (k'.leaf j).present = true ∨ k'.leaf j = k.leaf j) →
      HeapEffect all M top k k' live freed live freed

/-- Every step has one of the three effects, and none loads another table. -/
theorem HeapStep.effect {h h' : HeapState} (hst : HeapStep h h') (hinv : RunInv all M root top h) :
    HeapEffect all M top h.kernel h'.kernel h.live h.freed h'.live h'.freed ∧
      h'.kernel.cr3 = h.kernel.cr3 := by
  have htop : top < 2 ^ 36 := hinv.inv.heap.top_lt hall
  have hdiv : ∀ n, pageSize * n / pageSize = n := fun n => Nat.mul_div_cancel_left n (by decide)
  cases hst with
  | allocPage hr =>
    obtain ⟨rfl, hcr, hk', hleaf⟩ := hinv.inv.allocPage hall hr
    rw [hdiv, ← Ico_one]
    refine ⟨.reserve 1 hk' fun j hj => ?_, hcr⟩
    have hiff : (top ≤ j ∧ j < top + 1) ↔ j = top := by omega
    simp only [hleaf j hj, hiff]
  | @allocPages _ _ _ _ num _ _ hnum hr =>
    obtain ⟨rfl, hcr, hk', hleaf⟩ := hinv.inv.allocPages hall hnum hr
    rw [hdiv]
    exact ⟨.reserve num hk' hleaf, hcr⟩
  | @touch _ _ _ _ v ht =>
    obtain ⟨hcr, hk', hpres, hleaf⟩ := hinv.inv.touch_ok hall ht
    refine ⟨.use hk' fun j hj => ?_, hcr⟩
    by_cases hjv : j = pageOf v
    · exact .inl (hjv ▸ hpres)
    · exact .inr (hleaf j hj (.inl hjv))
  | @freePage _ _ _ _ v hlive hpres hr =>
    have hv := (hinv.marked _).1 (.inl hlive)
    have hpage : pageOf v = v / pageSize := pageOf_eq (by unfold pageSize at hv; omega)
    obtain ⟨k₁, hk₁, hcr, hk', -, hleaf⟩ := hinv.inv.freePage hall (v := v)
      ⟨hpage ▸ hv.1, pageOf_lt v, hpage ▸ hpres, rfl⟩
    rw [hr] at hk₁
    cases hk₁
    rw [← Ico_one]
    refine ⟨.release _ 1 hk' (fun j h₁ h₂ => ?_) fun j hj hno => ?_, hcr⟩
    · obtain rfl : j = v / pageSize := by omega
      exact hlive
    · exact (hleaf j hj).trans (if_neg (by omega))
  | @freePages k _ _ _ v num hpos hnum hres hr =>
    have hfirst := (hinv.marked _).1 (.inl (hres _ (Nat.le_refl _) (by omega)).1)
    have hlast := (hinv.marked _).1 (.inl (hres (v / pageSize + num - 1) (by omega) (by omega)).1)
    rw [mmuFreePages_eq (by unfold pageSize at hfirst; omega) hnum (pageBytes_natCast hnum)] at hr
    obtain ⟨k₁, hk₁, hcr, hk', -, hleaf⟩ := KernelInv.freePagesFrom hall num v k hinv.inv hfirst.1
      (by omega) fun j h₁ h₂ => (hres j h₁ h₂).2
    rw [hr] at hk₁
    cases hk₁
    exact ⟨.release _ num hk' (fun j h₁ h₂ => (hres j h₁ h₂).1)
      fun j hj hno => (hleaf j hj).trans (if_neg hno), hcr⟩
  | write hw =>
    obtain ⟨hk', hleaf⟩ := hinv.inv.heap.write hw
    exact ⟨.use ⟨hk', hinv.inv.brk⟩ fun j hj => .inr (hleaf j hj), rfl⟩

/-- One step keeps the invariant of runs. -/
theorem HeapStep.runInv {h h' : HeapState} (hst : HeapStep h h') (hinv : RunInv all M root top h) :
    ∃ top', RunInv all M root top' h' := by
  have htop : top < 2 ^ 36 := hinv.inv.heap.top_lt hall
  have hbase : 2 ^ 27 ≤ top := hinv.inv.heap.base
  have hlt : ∀ j, j ∈ h.live → j < top := fun j hj => ((hinv.marked j).1 (.inl hj)).2
  obtain ⟨heff, hcr⟩ := hst.effect hall hinv
  obtain ⟨k, live, freed⟩ := h
  obtain ⟨k', live', freed'⟩ := h'
  dsimp only at heff hcr hlt
  cases heff with
  | reserve n hk' hleaf =>
    have htop' : top + n < 2 ^ 36 := hk'.heap.top_lt hall
    refine ⟨top + n, hk', hcr.trans hinv.cr3, fun j => ?_, fun j => ?_, fun j hj habs => ?_⟩
    · have hj := hinv.marked j
      dsimp only at hj
      simp only [Set.mem_union, Set.mem_sdiff, Set.mem_Ico]
      constructor
      · rintro ((hl | hl) | hl)
        · have := hj.1 (.inl hl)
          omega
        · omega
        · have := hj.1 (.inr hl.1)
          omega
      · intro ⟨h₁, h₂⟩
        by_cases hjt : top ≤ j
        · exact .inl (.inr ⟨hjt, h₂⟩)
        · exact (hj.2 ⟨h₁, by omega⟩).elim (fun hl => .inl (.inl hl))
            fun hf => .inr ⟨hf, fun hI => hjt hI.1⟩
    · rintro (hl | hI) ⟨hf, hno⟩
      · exact hinv.disjoint j hl hf
      · exact hno hI
    · rcases hj with hl | hI
      · have hjt := hlt j hl
        have heq : k'.leaf j = k.leaf j := (hleaf j (by omega)).trans (if_neg (by omega))
        dsimp only at habs ⊢
        rw [heq] at habs ⊢
        exact hinv.untouched j hl habs
      · exact (hleaf j (hI.2.trans htop')).trans (if_pos hI)
  | release p n hk' hlive hleaf =>
    refine ⟨top, hk', hcr.trans hinv.cr3, fun j => ?_, fun j => ?_, fun j hj habs => ?_⟩
    · rw [← hinv.marked j]
      simp only [Set.mem_union, Set.mem_sdiff, Set.mem_Ico]
      constructor
      · rintro (hl | hf | hI)
        · exact .inl hl.1
        · exact .inr hf
        · exact .inl (hlive j hI.1 hI.2)
      · rintro (hl | hf)
        · by_cases hI : p ≤ j ∧ j < p + n
          · exact .inr (.inr hI)
          · exact .inl ⟨hl, hI⟩
        · exact .inr (.inl hf)
    · rintro ⟨hl, hno⟩ (hf | hI)
      · exact hinv.disjoint j hl hf
      · exact hno hI
    · have hjt := hlt j hj.1
      have heq : k'.leaf j = k.leaf j := hleaf j (by omega) hj.2
      dsimp only at habs ⊢
      rw [heq] at habs ⊢
      exact hinv.untouched j hj.1 habs
  | use hk' hleaf =>
    refine ⟨top, hk', hcr.trans hinv.cr3, hinv.marked, hinv.disjoint, fun j hj habs => ?_⟩
    have hjt := hlt j hj
    dsimp only at habs ⊢
    rcases hleaf j (by omega) with hp | heq
    · rw [hp] at habs
      cases habs
    · rw [heq] at habs ⊢
      exact hinv.untouched j hj habs

/-- Every run keeps the invariant. -/
theorem RunInv.run {h h' : HeapState} (hinv : RunInv all M root top h)
    (hrun : Relation.ReflTransGen HeapStep h h') : ∃ top', RunInv all M root top' h' :=
  hrun.invariant (fun h => ∃ top, RunInv all M root top h) ⟨top, hinv⟩
    fun _ _ hst ⟨_, hinv⟩ => hst.runInv hall hinv

/-- A resident page stays resident until it is freed, and a freed page is not allocated again. -/
theorem HeapStep.resident {h h' : HeapState} (hst : HeapStep h h') (hinv : RunInv all M root top h)
    {n : Nat} (hn : n ∈ h.freed ∨ n ∈ h.live ∧ (h.kernel.leaf n).present = true) :
    n ∈ h'.freed ∨ n ∈ h'.live ∧ (h'.kernel.leaf n).present = true := by
  have htop : top < 2 ^ 36 := hinv.inv.heap.top_lt hall
  have hlt : n < top := ((hinv.marked n).1 (hn.elim .inr fun hl => .inl hl.1)).2
  have heff := (hst.effect hall hinv).1
  obtain ⟨k, live, freed⟩ := h
  obtain ⟨k', live', freed'⟩ := h'
  dsimp only at heff hn ⊢
  cases heff with
  | reserve m _ hleaf =>
    refine hn.imp (fun hf => ⟨hf, fun hI => ?_⟩) fun hl => ⟨.inl hl.1, ?_⟩
    · have := hI.1
      omega
    · rw [hleaf n (by omega), if_neg (by omega), hl.2]
  | release p m _ _ hleaf =>
    by_cases hI : p ≤ n ∧ n < p + m
    · exact .inl (.inr hI)
    · exact hn.imp .inl fun hl => ⟨⟨hl.1, hI⟩, by rw [hleaf n (by omega) hI, hl.2]⟩
  | use _ hleaf =>
    refine hn.imp_right fun hl => ⟨hl.1, ?_⟩
    rcases hleaf n (by omega) with hp | heq
    · exact hp
    · rw [heq, hl.2]

/-- The same along a run. -/
theorem heapRun_resident {h h' : HeapState} (hrun : Relation.ReflTransGen HeapStep h h')
    (hinv : RunInv all M root top h) {n : Nat} (hlive : n ∈ h.live)
    (hpres : (h.kernel.leaf n).present = true) (hlive' : n ∈ h'.live) :
    (h'.kernel.leaf n).present = true := by
  obtain ⟨⟨top', hinv'⟩, hn⟩ := hrun.invariant
    (fun h => (∃ top, RunInv all M root top h) ∧
      (n ∈ h.freed ∨ n ∈ h.live ∧ (h.kernel.leaf n).present = true))
    ⟨⟨top, hinv⟩, .inr ⟨hlive, hpres⟩⟩
    fun _ _ hst ⟨⟨_, hinv⟩, hn⟩ => ⟨hst.runInv hall hinv, hst.resident hall hinv hn⟩
  exact hn.elim (fun hf => absurd hf (hinv'.disjoint n hlive')) And.right

end

/-! ## Runs from boot -/

/-- The frames of a region table lie inside the identity map of its pages. -/
theorem BootRegions.mappedFrames {regions : List MemRegion} (hr : BootRegions regions) {M : Nat}
    (h1 : 1 ≤ M) (hM : M < 2 ^ 27) (hend : memEnd regions = pageSize * (M + 1)) :
    MappedFrames (allPages regions) M where
  toFrames := hr.regionsOK.frames
  one_le := h1
  lt := hM
  lower f hf := (hr.mem_allPages hf).2.1
  upper f hf := by
    have h₁ := (hr.mem_allPages hf).2.2
    rw [hend] at h₁
    unfold pageSize at *
    omega

section
variable {regions : List MemRegion} (hr : BootRegions regions) {mem : Mem} {root : Nat} {s₀ : Phys}
  (hinit : initPageTable ⟨mem, 0, regions⟩ = .ok (root, s₀))
include hr hinit

/-- The invariant along every run from the state `init_page_table` leaves. -/
theorem heapRun_inv {h : HeapState} (hrun : Relation.ReflTransGen HeapStep (.boot root s₀) h) :
    ∃ M top, MappedFrames (allPages regions) M ∧ RunInv (allPages regions) M root top h := by
  obtain ⟨M, h1, hM, hend⟩ := hr.memEnd_pages
  have hall := hr.mappedFrames h1 hM hend
  have hmap := (initPageTable_mapInv hr.regionsOK.frames hr.allPages_lt (hr.regionsOK.frameInv mem)
    (hM.trans (by decide)) hend).1 root s₀ hinit
  obtain ⟨top, hinv⟩ := (hmap.runInv hM).run hall hrun
  exact ⟨M, top, hall, hinv⟩

/-- Frames are exclusive. In every state of every run, distinct resident heap pages have distinct
frames, and none of these is on the free list, among the pages never handed out or a table; and no
step changes a present entry of the identity map. -/
theorem heapStep_exclusive {h : HeapState}
    (hrun : Relation.ReflTransGen HeapStep (.boot root s₀) h) :
    (∀ n n' f, Backed h.kernel.phys.mem root n f → Backed h.kernel.phys.mem root n' f → n = n') ∧
    (∃ free, Chain h.kernel.phys.mem h.kernel.phys.freeList free ∧
      ∀ n f, Backed h.kernel.phys.mem root n f →
        f ∉ free ∧ f ∉ remaining h.kernel.phys.regions ∧ ¬ IsTable h.kernel.phys.mem root f) ∧
    ∀ h', HeapStep h h' → ∀ n, n < 2 ^ 27 →
      (leafEntry h.kernel.phys.mem root n).present = true →
      leafEntry h'.kernel.phys.mem root n = leafEntry h.kernel.phys.mem root n := by
  obtain ⟨M, top, hall, hinv⟩ := heapRun_inv hr hinit hrun
  have hheap := hinv.inv.heap
  rw [hinv.cr3] at hheap
  refine ⟨hheap.inj, ?_, fun h' hst n hn _ => ?_⟩
  · obtain ⟨out, hframes, -⟩ := hheap.frames
    obtain ⟨free, hc, -⟩ := hframes.split
    refine ⟨free, hc, fun n f hb => ?_⟩
    have hkept := hheap.not_kept hall hb
    exact ⟨fun hf => hkept (.inr (.inr ⟨free, hc, hf⟩)), fun hf => hkept (.inr (.inl hf)),
      fun ht => hkept (.inl ht)⟩
  · obtain ⟨top', hinv'⟩ := hst.runInv hall hinv
    have hheap' := hinv'.inv.heap
    rw [hinv'.cr3] at hheap'
    rw [hheap.ident n hn, hheap'.ident n hn]

end

/-- A run on a machine of eight pages: the kernel boots, reserves a page and uses it. -/
theorem heapRun_eight_pages : ∃ root s₀ k k',
    initPageTable ⟨fun _ => 0, 0, [⟨0x1000, 0x9000, 0x1000⟩]⟩ = .ok (root, s₀) ∧
      mmuAllocPage ⟨s₀, root, addrSpaceKernelHeapBase⟩ = .ok (addrSpaceKernelHeapBase, k) ∧
      touch addrSpaceKernelHeapBase k = .ok k' := by
  have hrun : ((initPageTable ⟨fun _ => 0, 0, [⟨0x1000, 0x9000, 0x1000⟩]⟩).bind fun x =>
      (mmuAllocPage ⟨x.2, x.1, addrSpaceKernelHeapBase⟩).bind fun y => touch y.1 y.2).isOk = true := by
    decide +kernel
  obtain ⟨k', hk'⟩ := Except.exists_of_isOk hrun
  obtain ⟨⟨root, s₀⟩, hinit, h₁⟩ := Except.bind_eq_ok.1 hk'
  obtain ⟨⟨v, k⟩, halloc, htouch⟩ := Except.bind_eq_ok.1 h₁
  have hv : v = addrSpaceKernelHeapBase := by
    obtain ⟨_, _, hres⟩ := Except.bind_eq_ok.1 halloc
    cases hres
    rfl
  subst hv
  exact ⟨root, s₀, k, k', hinit, halloc, htouch⟩

/-- Its region table is one the kernel can boot from. -/
theorem bootRegions_eight_pages : BootRegions [⟨0x1000, 0x9000, 0x1000⟩] :=
  bootRegions_singleton (by constructor <;> decide) (by decide)

/-- The run has a resident page, whose frame is not a table. -/
theorem heapStep_exclusive_eight_pages : ∃ root s₀ h n f,
    initPageTable ⟨fun _ => 0, 0, [⟨0x1000, 0x9000, 0x1000⟩]⟩ = .ok (root, s₀) ∧
      Relation.ReflTransGen HeapStep (.boot root s₀) h ∧ Backed h.kernel.phys.mem root n f ∧
      ¬ IsTable h.kernel.phys.mem root f := by
  obtain ⟨root, s₀, k, k', hinit, halloc, htouch⟩ := heapRun_eight_pages
  have hrun₁ : Relation.ReflTransGen HeapStep (.boot root s₀) ⟨k, _, _⟩ := .single (.allocPage halloc)
  have hrun := hrun₁.tail (.touch htouch)
  obtain ⟨M, top, hall, hinv⟩ := heapRun_inv bootRegions_eight_pages hinit hrun₁
  obtain ⟨hcr, -, hpres, -⟩ := hinv.inv.touch_ok hall htouch
  have hb : Backed k'.phys.mem root (2 ^ 27) (leafEntry k'.phys.mem root (2 ^ 27)).frame :=
    ⟨Nat.le_refl _, by decide, (hcr.trans hinv.cr3) ▸ hpres, rfl⟩
  obtain ⟨-, ⟨_, -, hex⟩, -⟩ := heapStep_exclusive bootRegions_eight_pages hinit hrun
  exact ⟨root, s₀, _, _, _, hinit, hrun, hb, (hex _ _ hb).2.2⟩

/-! ## Which faults are resolved -/

/-- An address the CPU can fault on: the bits 47 to 63 are equal. -/
def Canonical (v : Nat) : Prop := v < 2 ^ 47 ∨ 2 ^ 64 - 2 ^ 47 ≤ v ∧ v < 2 ^ 64

/-- `page_fault_handler` resolves the fault at `v`: it returns, and the page of `v` is present and
writable in the frame that `MMU_pf_alloc` hands out, which no table and no resident page was using. -/
def Resolves (v : Nat) (k : Kernel) : Prop :=
  ∃ pf s' k', mmuPfAlloc k.phys = .ok (pf, s') ∧ pageFaultHandler v k = .ok k' ∧
    (k'.leaf (pageOf v)).present = true ∧ (k'.leaf (pageOf v)).readWrite = true ∧
    (k'.leaf (pageOf v)).frame = pf ∧ ¬ IsTable k.phys.mem k.cr3 pf ∧
    ∀ n, ¬ Backed k.phys.mem k.cr3 n pf

/-- Demand paging at `v` admits the live heap: the fault is resolved exactly if the page is allocated,
and is an invalid access otherwise. -/
def DemandPaged (h : HeapState) (v : Nat) : Prop :=
  (Resolves v h.kernel ↔ v / pageSize ∈ h.live) ∧
    (v / pageSize ∉ h.live → ∃ e, pageFaultHandler v h.kernel = .error e ∧ e.InvalidAccess v)

section
variable {all : List Nat} {M root top : Nat} (hall : MappedFrames all M) {h : HeapState} {v : Nat}
include hall

/-- A fault at a marked page is resolved while a frame is left. -/
theorem RunInv.resolves_iff (hinv : RunInv all M root top h) (hle : 2 ^ 27 ≤ pageOf v)
    (hlt : pageOf v < top) (habs : (h.kernel.leaf (pageOf v)).present = false) :
    Resolves v h.kernel ↔ FrameLeft h.kernel.phys := by
  rw [← mmuPfAlloc_ok_iff]
  refine ⟨fun ⟨pf, s', _, ha, _⟩ => ⟨(pf, s'), ha⟩, fun ⟨⟨pf, s'⟩, ha⟩ => ?_⟩
  obtain ⟨k', hk', -, -, hb, hrw, -⟩ := (hinv.inv.fault_valid hall hle hlt habs).2 pf s' ha
  obtain ⟨out, hframes, hout, -⟩ := hinv.inv.heap.frames
  have hnew : pf ∉ out := (List.nodup_cons.1 ((hframes.alloc ha).out_nodup hall.toFrames)).1
  exact ⟨pf, s', k', ha, hk', hb.2.2.1, hrw, hb.2.2.2, fun ht => hnew ((hout pf).2 (.inr ht)),
    fun n hb => hnew ((hout pf).2 (.inl ⟨n, hb⟩))⟩

/-- A fault at a marked page is no invalid access. -/
theorem RunInv.not_invalid (hinv : RunInv all M root top h) (hle : 2 ^ 27 ≤ pageOf v)
    (hlt : pageOf v < top) (habs : (h.kernel.leaf (pageOf v)).present = false) {e : Stop}
    (he : pageFaultHandler v h.kernel = .error e) : ¬ e.InvalidAccess v := by
  obtain ⟨herr, hok⟩ := hinv.inv.fault_valid hall hle hlt habs
  cases ha : mmuPfAlloc h.kernel.phys with
  | error e' =>
    rw [herr e' ha] at he
    cases he
    rw [mmuPfAlloc_error ha]
    exact nofun
  | ok x =>
    obtain ⟨k', hk', -⟩ := hok x.1 x.2 ha
    rw [hk'] at he
    cases he

omit hall in
/-- A fault outside the marked pages is not resolved. -/
theorem RunInv.not_resolves (hinv : RunInv all M root top h)
    (hv : ¬ (2 ^ 27 ≤ pageOf v ∧ pageOf v < top)) : ¬ Resolves v h.kernel := by
  intro ⟨_, _, k', _, hk', _⟩
  obtain ⟨e, he, -⟩ := hinv.inv.heap.fault_invalid hv
  rw [hk'] at he
  cases he

end

/-- Exactly where demand paging admits the live heap. In every state of every run from boot, at every
canonical address that is not present: the page must not have been freed since its allocation
(`MMU_free_page` leaves its mark), the address must not be the alias of a heap page in the upper half,
and if the page is allocated a frame must be left. -/
theorem heapStep_demandPaged_iff {regions : List MemRegion} (hr : BootRegions regions) {mem : Mem}
    {root : Nat} {s₀ : Phys} (hinit : initPageTable ⟨mem, 0, regions⟩ = .ok (root, s₀)) {h : HeapState}
    (hrun : Relation.ReflTransGen HeapStep (.boot root s₀) h) {v : Nat} (hv : Canonical v)
    (habs : (h.kernel.leaf (pageOf v)).present = false) :
    DemandPaged h v ↔ pageOf v ∉ h.freed ∧ (2 ^ 47 ≤ v → pageOf v ∉ h.live) ∧
      (v / pageSize ∈ h.live → FrameLeft h.kernel.phys) := by
  obtain ⟨M, top, hall, hinv⟩ := heapRun_inv hr hinit hrun
  have htop := hinv.inv.heap.top_lt hall
  have hlow : v < 2 ^ 47 → pageOf v = v / pageSize := fun h => pageOf_eq (by omega)
  -- an address of the upper half is in no allocated page
  have hhigh : v / pageSize ∈ h.live → v < 2 ^ 47 := by
    intro hl
    have := ((hinv.marked _).1 (.inl hl)).2
    rcases hv with hv | hv
    · exact hv
    · unfold pageSize at this
      omega
  constructor
  · intro ⟨hiff, hinvalid⟩
    have hmarked : pageOf v ∈ h.live ∨ pageOf v ∈ h.freed → v / pageSize ∈ h.live := by
      intro hor
      obtain ⟨hle, hlt⟩ := (hinv.marked _).1 hor
      by_contra hno
      obtain ⟨e, he, hi⟩ := hinvalid hno
      exact hinv.not_invalid hall hle hlt habs he hi
    refine ⟨fun hf => ?_, fun hge hl => absurd (hhigh (hmarked (.inl hl))) (by omega), fun hl => ?_⟩
    · have hl := hmarked (.inr hf)
      rw [hlow (hhigh hl)] at hf
      exact hinv.disjoint _ hl hf
    · have hpage := hlow (hhigh hl)
      obtain ⟨hle, hlt⟩ := (hinv.marked _).1 (.inl hl)
      rw [← hpage] at hle hlt
      exact (hinv.resolves_iff hall hle hlt habs).1 (hiff.2 hl)
  · intro ⟨hfreed, hupper, hleft⟩
    by_cases hl : v / pageSize ∈ h.live
    · have hpage := hlow (hhigh hl)
      obtain ⟨hle, hlt⟩ := (hinv.marked _).1 (.inl hl)
      rw [← hpage] at hle hlt
      exact ⟨⟨fun _ => hl, fun _ => (hinv.resolves_iff hall hle hlt habs).2 (hleft hl)⟩, absurd hl⟩
    · have hno : ¬ (2 ^ 27 ≤ pageOf v ∧ pageOf v < top) := by
        rw [← hinv.marked]
        rintro (hl' | hf)
        · by_cases hge : 2 ^ 47 ≤ v
          · exact hupper hge hl'
          · exact hl (hlow (Nat.lt_of_not_le hge) ▸ hl')
        · exact hfreed hf
      exact ⟨⟨fun hres => absurd hres (hinv.not_resolves hno), fun hl' => absurd hl' hl⟩,
        fun _ => hinv.inv.heap.fault_invalid hno⟩

/-- The page of the run, between its allocation and its first use, is admitted. -/
theorem heapStep_demandPaged_eight_pages : ∃ root s₀ h,
    initPageTable ⟨fun _ => 0, 0, [⟨0x1000, 0x9000, 0x1000⟩]⟩ = .ok (root, s₀) ∧
      Relation.ReflTransGen HeapStep (.boot root s₀) h ∧
      addrSpaceKernelHeapBase / pageSize ∈ h.live ∧ DemandPaged h addrSpaceKernelHeapBase := by
  obtain ⟨root, s₀, k, k', hinit, halloc, htouch⟩ := heapRun_eight_pages
  have hrun : Relation.ReflTransGen HeapStep (.boot root s₀) ⟨k, _, _⟩ := .single (.allocPage halloc)
  obtain ⟨M, top, hall, hboot⟩ := heapRun_inv bootRegions_eight_pages hinit .refl
  obtain ⟨hv, -, hk, hleaf⟩ := hboot.inv.allocPage hall halloc
  obtain rfl : top = 2 ^ 27 := by unfold pageSize addrSpaceKernelHeapBase at hv; omega
  have hfresh : k.leaf (2 ^ 27) = markedEntry := (hleaf _ (by decide)).trans (if_pos rfl)
  have habs : (k.leaf (pageOf addrSpaceKernelHeapBase)).present = false :=
    congrArg PageEntry.present hfresh
  refine ⟨root, s₀, _, hinit, hrun, .inr rfl, ?_⟩
  refine (heapStep_demandPaged_iff bootRegions_eight_pages hinit hrun (.inl (by decide)) habs).2
    ⟨fun hf => hf.2 rfl, fun hge => absurd hge (by decide), fun _ => ?_⟩
  rw [← mmuPfAlloc_ok_iff]
  cases ha : mmuPfAlloc k.phys with
  | ok x => exact ⟨x, rfl⟩
  | error e =>
    rw [touch, habs, (hk.fault_valid hall (by decide) (by decide) habs).1 e ha] at htouch
    cases htouch

/-- After the run frees its page, the next use of the page is resolved, although the page is not
allocated. -/
theorem heapStep_freed_page_resolved : ∃ root s₀ h,
    initPageTable ⟨fun _ => 0, 0, [⟨0x1000, 0x9000, 0x1000⟩]⟩ = .ok (root, s₀) ∧
      Relation.ReflTransGen HeapStep (.boot root s₀) h ∧ Canonical addrSpaceKernelHeapBase ∧
      (h.kernel.leaf (pageOf addrSpaceKernelHeapBase)).present = false ∧
      addrSpaceKernelHeapBase / pageSize ∉ h.live ∧ Resolves addrSpaceKernelHeapBase h.kernel ∧
      ¬ DemandPaged h addrSpaceKernelHeapBase := by
  obtain ⟨root, s₀, k, k', hinit, halloc, htouch⟩ := heapRun_eight_pages
  have hrun : Relation.ReflTransGen HeapStep (.boot root s₀) ⟨k', _, _⟩ :=
    (Relation.ReflTransGen.single (.allocPage halloc)).tail (.touch htouch)
  obtain ⟨M, top, hall, hinv⟩ := heapRun_inv bootRegions_eight_pages hinit
    (Relation.ReflTransGen.single (.allocPage halloc))
  obtain ⟨-, hk', hpres, -⟩ := hinv.inv.touch_ok hall htouch
  obtain ⟨k₂, hk₂, -, -, hchain, hleaf⟩ := hk'.freePage hall (v := addrSpaceKernelHeapBase)
    ⟨by decide, by decide, hpres, rfl⟩
  have hrun₂ := hrun.tail (.freePage (.inr rfl) hpres hk₂)
  have habs : (k₂.leaf (pageOf addrSpaceKernelHeapBase)).present = false := by
    rw [hleaf _ (pageOf_lt _), if_pos rfl]
  obtain ⟨M₂, top₂, hall₂, hinv₂⟩ := heapRun_inv bootRegions_eight_pages hinit hrun₂
  obtain ⟨hle, hlt⟩ := (hinv₂.marked (pageOf addrSpaceKernelHeapBase)).1 (.inr (.inr rfl))
  have hleft : FrameLeft k₂.phys := by
    obtain ⟨out, hframes, -⟩ := hk'.heap.frames
    obtain ⟨free, hc, -⟩ := hframes.split
    refine .inl fun hz => ?_
    have hc₂ := hchain free hc
    rw [hz] at hc₂
    exact nomatch hc₂.eq_nil
  have hres := (hinv₂.resolves_iff hall₂ hle hlt habs).2 hleft
  exact ⟨root, s₀, _, hinit, hrun₂, .inl (by decide), habs, fun hl => hl.2 rfl, hres,
    fun hd => (hd.1.1 hres).2 rfl⟩

end BanjOS
