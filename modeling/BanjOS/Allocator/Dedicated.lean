import BanjOS.Allocator.Kmalloc
import BanjOS.PageAllocator.HeapRuns

/-!
# Dedicated blocks over demand paging

`kmalloc` and `kfree` over the paged kernel: every word access goes through the loaded table and takes
a page fault if the page is not present. A dedicated block is reserved whole, but only the pages that
were used have a frame, and `MMU_free_pages` gives back the frame field of every page's entry. For a
page that was never used that field is 0, and `MMU_pf_free` then stores through the null pointer.
So `kfree` gives back the frames of a block exactly when all its pages are resident
(`kfree_dedicated_iff`).
-/

namespace BanjOS

open ByteMem

/-- The physical address of `v` in the loaded table. -/
def Kernel.translate (k : Kernel) (v : Nat) : Nat := (k.leaf (pageOf v)).frame + v % pageSize

/-- Virtual memory of the paged kernel. The words the allocator touches are aligned, so a word lies in
one page. -/
instance : PagedMem Kernel where
  load v k := do
    let k ← touch v k
    .ok (load64 k.phys.mem (k.translate v), k)
  store v x k := do
    let k ← touch v k
    .ok { k with phys := { k.phys with mem := store64 k.phys.mem (k.translate v) x } }
  allocPage := mmuAllocPage
  allocPages := mmuAllocPages
  freePages := mmuFreePages

/-- No pool of the table at `pools`, which is mapped, holds a request of `size` bytes: `kmalloc` takes
its dedicated path. -/
structure NoPool (k : Kernel) (pools size : Nat) : Prop where
  mapped : ∀ i, i < blockSizesLen → (k.leaf (pageOf (poolAddr pools i))).present = true
  small : ∀ i, i < blockSizesLen → load64 k.phys.mem (k.translate (poolAddr pools i)) < size

/-- The header of a dedicated block, as `kmalloc` writes it: no pool, and the size. -/
def DedicatedHeader (k : Kernel) (block size : Nat) : Prop :=
  load64 k.phys.mem (k.translate block) = 0 ∧ load64 k.phys.mem (k.translate (block + 8)) = size

instance (k : Kernel) (block size : Nat) : Decidable (DedicatedHeader k block size) := inferInstanceAs (Decidable (_ ∧ _))

/-- The frames of those pages of `[p, p + n)` that are resident. -/
def Kernel.residentFrames (k : Kernel) (p n : Nat) : List Nat :=
  ((List.range' p n).filter fun j => (k.leaf j).present).map fun j => (k.leaf j).frame

/-- `kfree` of the block with the user pointer `addr` and the pages `[p, p + n)` returns, and puts on
the free list the frames of the block's resident pages and nothing else. -/
def FreesExactly (k : Kernel) (addr p n : Nat) : Prop :=
  ∃ k' free fs, kfree addr k = .ok k' ∧ Chain k.phys.mem k.phys.freeList free ∧
    fs.Perm (k.residentFrames p n) ∧ Chain k'.phys.mem k'.phys.freeList (fs ++ free)

/-- A load from a resident page. -/
theorem load_present {k : Kernel} {v : Nat} (h : (k.leaf (pageOf v)).present = true) :
    PagedMem.load v k = .ok (load64 k.phys.mem (k.translate v), k) :=
  Except.bind_eq_ok.2 ⟨k, if_pos h, rfl⟩

/-- The pool table at `pools` is mapped, and as `init_alloc` writes it. -/
structure PoolTable (k : Kernel) (pools : Nat) : Prop where
  mapped : ∀ i, i < blockSizesLen → (k.leaf (pageOf (poolAddr pools i))).present = true
  maxSize : ∀ i, i < blockSizesLen → load64 k.phys.mem (k.translate (poolAddr pools i)) = blockSize i - headerSize

instance (k : Kernel) (pools : Nat) : Decidable (PoolTable k pools) :=
  decidable_of_iff (_ ∧ _) ⟨fun h => ⟨h.1, h.2⟩, fun h => ⟨h.mapped, h.maxSize⟩⟩

/-- No pool holds a request of more than 2032 bytes. -/
theorem PoolTable.noPool {k : Kernel} {pools size : Nat} (h : PoolTable k pools) (hsize : 2032 < size) :
    NoPool k pools size where
  mapped := h.mapped
  small i hi := by
    rw [h.maxSize i hi]
    have := blockSize_cases hi
    unfold headerSize
    omega

/-- The search of `kmalloc` passes all pools that are too small. -/
theorem NoPool.findPool_eq {k : Kernel} {pools size : Nat} (h : NoPool k pools size) :
    ∀ n i, i + n = blockSizesLen → findPool pools size n i k = .ok (blockSizesLen, k) := by
  intro n
  induction n with
  | zero =>
    intro i hi
    rw [findPool, ← hi, Nat.add_zero]
  | succ n ih =>
    intro i hi
    have hlt : i < blockSizesLen := by omega
    refine Except.bind_eq_ok.2 ⟨_, load_present (h.mapped i hlt), ?_⟩
    dsimp only
    rw [if_pos (h.small i hlt)]
    exact ih (i + 1) (by omega)

/-- The dedicated path. -/
theorem NoPool.kmalloc_eq {k : Kernel} {pools size : Nat} (h : NoPool k pools size) :
    kmalloc pools size k = kmallocDedicated size k :=
  kmalloc_dedicated (h.findPool_eq _ 0 (Nat.zero_add _))

/-! ## The number of pages -/

/-- `MMU_PAGE_SIZE * num` is a number of pages below `2 ^ 31`, also when it wraps. -/
theorem pageBytes_pages (num : Int) :
    pageBytes num ≤ 0 ∧ -2 ^ 31 ≤ pageBytes num ∨
      ∃ n : Nat, 0 < n ∧ pageSize * n < 2 ^ 31 ∧ pageBytes num = pageSize * n := by
  have hdef : pageBytes num = if 4096 * num % 4294967296 < 2147483648 then 4096 * num % 4294967296
      else 4096 * num % 4294967296 - 4294967296 := Int.bmod_def ..
  by_cases hle : pageBytes num ≤ 0
  · refine .inl ⟨hle, ?_⟩
    rw [hdef]
    split <;> omega
  · refine .inr ⟨(pageBytes num / 4096).toNat, ?_, ?_, ?_⟩
    · split at hdef <;> omega
    · unfold pageSize
      split at hdef <;> omega
    · unfold pageSize
      split at hdef <;> omega

/-- The page allocator sees `num` through `MMU_PAGE_SIZE * num` only. -/
theorem mmuAllocPages_eq_natCast {num : Int} {n : Nat} (hn : pageSize * n < 2 ^ 31) (hnum : pageBytes num = pageSize * n)
    (k : Kernel) : mmuAllocPages num k = mmuAllocPages n k := by
  simp only [mmuAllocPages, hnum, pageBytes_natCast hn]

/-- `MMU_alloc_pages` without a positive number of bytes reserves nothing, and returns the break. -/
theorem mmuAllocPages_none {num : Int} {k k' : Kernel} {v : Nat} (hneg : pageBytes num ≤ 0)
    (hlow : -2 ^ 31 ≤ pageBytes num) (hbrk : 2 ^ 31 ≤ k.brk) (hbrk' : k.brk < 2 ^ 64)
    (h : mmuAllocPages num k = .ok (v, k')) :
    v = k.brk ∧ k'.phys = k.phys ∧ k'.cr3 = k.cr3 := by
  obtain ⟨s, hwalk, hres⟩ := Except.bind_eq_ok.1 h
  cases hres
  dsimp only [sbrk] at hwalk
  rw [pageTableWalk_eq, if_neg (by omega)] at hwalk
  cases hwalk
  exact ⟨rfl, rfl, rfl⟩

/-! ## The block -/

section
variable {all : List Nat} {M root top : Nat} (hall : MappedFrames all M)
include hall

/-- A store to a heap word that returns is a use of its page and a write into its frame. -/
theorem RunInv.store {k k' : Kernel} {live freed : Set Nat} (hinv : RunInv all M root top ⟨k, live, freed⟩)
    {v x : Nat} (hle : 2 ^ 27 ≤ pageOf v) (hfit : v % pageSize + 8 ≤ pageSize) (hx : x < 2 ^ 64)
    (hst : PagedMem.store v x k = .ok k') :
    Relation.ReflTransGen HeapStep ⟨k, live, freed⟩ ⟨k', live, freed⟩ ∧
      (k'.leaf (pageOf v)).present = true ∧
      (∀ j, j < 2 ^ 36 → j ≠ pageOf v → k'.leaf j = k.leaf j) ∧
      load64 k'.phys.mem (k'.translate v) = x ∧
      ∀ w, pageOf w = pageOf v → (k.leaf (pageOf v)).present = true →
        w % pageSize + 8 ≤ v % pageSize ∨ v % pageSize + 8 ≤ w % pageSize →
        load64 k'.phys.mem (k'.translate w) = load64 k.phys.mem (k.translate w) := by
  obtain ⟨k₁, ht, hres⟩ := Except.bind_eq_ok.1 hst
  cases hres
  obtain ⟨-, h₁, hpres, hleaf₁⟩ := hinv.inv.touch_ok hall ht
  have hb : Backed k₁.phys.mem k₁.cr3 (pageOf v) (k₁.leaf (pageOf v)).frame :=
    ⟨hle, pageOf_lt v, hpres, rfl⟩
  have hw : ∀ f, Kept k₁.phys k₁.cr3 f → ∀ b, InRange f pageSize b →
      store64 k₁.phys.mem (k₁.translate v) x b = k₁.phys.mem b := by
    intro f hf b hbf
    refine store64_apply_of_not_mem fun hin => h₁.heap.not_kept hall hb ?_
    have hmod := hall.aligned f (h₁.heap.kept_mem hf)
    have hmod' := (k₁.leaf (pageOf v)).frame_mod
    have h₂ := hbf.1
    have h₃ := hbf.2
    have h₄ := hin.1
    have h₅ := hin.2
    unfold Kernel.translate at h₄ h₅
    obtain rfl : f = (k₁.leaf (pageOf v)).frame := by unfold pageSize at *; omega
    exact hf
  obtain ⟨-, hleaf⟩ := h₁.heap.write hw
  have htrans : ∀ w, Kernel.translate { k₁ with phys := { k₁.phys with
      mem := store64 k₁.phys.mem (k₁.translate v) x } } w = k₁.translate w :=
    fun w => congrArg (fun e => PageEntry.frame e + w % pageSize) (hleaf _ (pageOf_lt w))
  refine ⟨(Relation.ReflTransGen.single (.touch ht)).tail (.write hw), ?_,
    fun j hj hne => (hleaf j hj).trans (hleaf₁ j hj (.inl hne)), ?_, fun w hpage hp hap => ?_⟩
  · exact (congrArg PageEntry.present (hleaf _ (pageOf_lt v))).trans hpres
  · rw [htrans]
    exact load64_store64_of_lt _ _ hx
  · rw [htrans]
    rw [touch, if_pos hp] at ht
    cases ht
    refine load64_store64_of_apart ?_
    rw [Kernel.translate, Kernel.translate, hpage]
    omega

/-- A dedicated block that `kmalloc` returns: some pages at the break are reserved, the header is
written, and so the first page is resident. The others are not. -/
theorem RunInv.kmallocDedicated {k k' : Kernel} {live freed : Set Nat}
    (hinv : RunInv all M root top ⟨k, live, freed⟩) {size addr : Nat}
    (hr : kmallocDedicated size k = .ok (addr, k')) :
    ∃ n, 0 < n ∧ pageSize * n < 2 ^ 31 ∧
      pageBytes (toInt (numPages ((size + headerSize) % 2 ^ 64))) = pageSize * n ∧
      addr = pageSize * top + headerSize ∧
      Relation.ReflTransGen HeapStep ⟨k, live, freed⟩
        ⟨k', live ∪ Set.Ico top (top + n), freed \ Set.Ico top (top + n)⟩ ∧
      (k'.leaf top).present = true ∧ (∀ j, top < j → j < top + n → k'.leaf j = markedEntry) ∧
      DedicatedHeader k' (pageSize * top) ((size + headerSize) % 2 ^ 64) := by
  have htop : top < 2 ^ 36 := hinv.inv.heap.top_lt hall
  have hbase : 2 ^ 27 ≤ top := hinv.inv.heap.base
  have hpage₀ : pageOf (pageSize * top) = top := pageOf_pageSize_mul htop
  have hpage₈ : pageOf (pageSize * top + 8) = top := pageOf_add htop (by decide)
  obtain ⟨⟨v, k₁⟩, halloc, hr⟩ := Except.bind_eq_ok.1 hr
  obtain ⟨k₂, hst₂, hr⟩ := Except.bind_eq_ok.1 hr
  obtain ⟨k₃, hst₃, hr⟩ := Except.bind_eq_ok.1 hr
  cases hr
  rcases pageBytes_pages (toInt (numPages ((size + headerSize) % 2 ^ 64))) with hneg | ⟨n, hn0, hn, hnum⟩
  · -- nothing is reserved, and the store to the header halts
    exfalso
    have hbrk : k.brk = pageSize * top := hinv.inv.brk
    obtain ⟨rfl, hphys, hcr⟩ := mmuAllocPages_none hneg.1 hneg.2 (by rw [hbrk]; unfold pageSize; omega)
      (by rw [hbrk]; unfold pageSize; omega) halloc
    obtain ⟨k₄, ht, -⟩ := Except.bind_eq_ok.1 hst₂
    have hheap : HeapInv all M k₁.cr3 top k₁.phys := hphys ▸ hcr ▸ hinv.inv.heap
    have habs : (leafEntry k₁.phys.mem k₁.cr3 (pageOf k.brk)).present = false := by
      rw [hbrk, hpage₀, hheap.above top htop (Nat.le_refl top)]
      rfl
    obtain ⟨e, he, -⟩ := hheap.fault_invalid (v := k.brk) (by rw [hbrk, hpage₀]; omega)
    rw [touch, habs, if_neg Bool.false_ne_true, he] at ht
    cases ht
  · have halloc' := (mmuAllocPages_eq_natCast hn hnum k).symm.trans halloc
    obtain ⟨rfl, -, hk₁, hleaf₁⟩ := hinv.inv.allocPages hall hn halloc'
    have htop₁ : top + n < 2 ^ 36 := hk₁.heap.top_lt hall
    have hstep : HeapStep ⟨k, live, freed⟩ _ := .allocPages hn0 hn halloc'
    rw [Nat.mul_div_cancel_left _ (by decide)] at hstep
    obtain ⟨top₁, hinv₁⟩ := hstep.runInv hall hinv
    obtain ⟨hrun₂, hpres₂, hleaf₂, hload₂, -⟩ := hinv₁.store hall (hbase.trans_eq hpage₀.symm)
      (by unfold pageSize; omega) (by decide) hst₂
    obtain ⟨top₂, hinv₂⟩ := hinv₁.run hall hrun₂
    obtain ⟨hrun₃, hpres₃, hleaf₃, hload₃, hkeep⟩ := hinv₂.store hall (hbase.trans_eq hpage₈.symm)
      (by unfold pageSize; omega) (Nat.mod_lt _ (by decide)) hst₃
    rw [hpage₀] at hpres₂ hleaf₂
    rw [hpage₈] at hpres₃ hleaf₃ hkeep
    refine ⟨n, hn0, hn, hnum, ?_, (Relation.ReflTransGen.single hstep).trans (hrun₂.trans hrun₃),
      hpres₃, fun j hj₁ hj₂ => ?_, ?_, hload₃⟩
    · exact Nat.mod_eq_of_lt (by unfold pageSize headerSize; omega)
    · rw [hleaf₃ j (by omega) hj₁.ne', hleaf₂ j (by omega) hj₁.ne', hleaf₁ j (by omega),
        if_pos (by omega)]
    · rw [hkeep _ hpage₀ hpres₂ (by unfold pageSize; omega), hload₂]

omit hall in
/-- The header of a block at the page `p` can be read. -/
theorem load_header {k : Kernel} {p size : Nat} (hp : p < 2 ^ 36) (hpres : (k.leaf p).present = true)
    (hhead : DedicatedHeader k (pageSize * p) size) :
    PagedMem.load (pageSize * p) k = .ok (0, k) ∧ PagedMem.load (pageSize * p + 8) k = .ok (size, k) := by
  have hpage₀ : pageOf (pageSize * p) = p := pageOf_pageSize_mul hp
  have hpage₈ : pageOf (pageSize * p + 8) = p := pageOf_add hp (by decide)
  have h₀ := load_present (k := k) (v := pageSize * p) (hpage₀.symm ▸ hpres)
  have h₈ := load_present (k := k) (v := pageSize * p + 8) (hpage₈.symm ▸ hpres)
  rw [hhead.1] at h₀
  rw [hhead.2] at h₈
  exact ⟨h₀, h₈⟩

omit hall in
/-- The block of a user pointer starts at its page. -/
theorem block_of_user {p : Nat} (hp : p < 2 ^ 36) :
    (pageSize * p + headerSize + (2 ^ 64 - headerSize)) % 2 ^ 64 = pageSize * p := by
  unfold pageSize headerSize
  omega

omit hall in
/-- A user pointer lies in the first page of its block. -/
theorem user_div (p : Nat) : (pageSize * p + headerSize) / pageSize = p := by
  unfold pageSize headerSize
  omega

/-- `kfree` of a dedicated block reads its header and frees the pages one after another, from the user
pointer on. -/
theorem RunInv.kfree_eq {h : HeapState} (hinv : RunInv all M root top h) {p n size : Nat}
    (hlt : p < top) (hpres : (h.kernel.leaf p).present = true)
    (hhead : DedicatedHeader h.kernel (pageSize * p) size) (hn : pageSize * n < 2 ^ 31)
    (hnum : pageBytes (toInt (numPages size)) = pageSize * n) :
    kfree (pageSize * p + headerSize) h.kernel =
      freePagesFrom n (pageSize * p + headerSize) h.kernel := by
  have htop : top < 2 ^ 36 := hinv.inv.heap.top_lt hall
  obtain ⟨h₀, h₈⟩ := load_header (hlt.trans htop) hpres hhead
  rw [kfree, block_of_user (hlt.trans htop), h₀]
  simp only [bind, Except.bind, h₈, ne_eq, not_true, if_false]
  exact mmuFreePages_eq (by unfold pageSize headerSize; omega) hn hnum

omit hall in
/-- An allocated page is resident, or its entry holds no frame. -/
theorem RunInv.present_or_zero {h : HeapState} (hinv : RunInv all M root top h) {j : Nat} (hj : j ∈ h.live) :
    (h.kernel.leaf j).present = true ∨ (h.kernel.leaf j).frame = 0 := by
  cases hp : (h.kernel.leaf j).present with
  | true => exact .inl rfl
  | false =>
    rw [hinv.untouched j hj hp]
    exact .inr (by decide)

/-- `kfree` of a block with a page that was never used halts at the store through the null pointer. -/
theorem RunInv.kfree_untouched {h : HeapState} (hinv : RunInv all M root top h) {p n size : Nat}
    (hn : pageSize * n < 2 ^ 31) (hnum : pageBytes (toInt (numPages size)) = pageSize * n)
    (hlive : ∀ j, p ≤ j → j < p + n → j ∈ h.live) (hpres : (h.kernel.leaf p).present = true)
    (hhead : DedicatedHeader h.kernel (pageSize * p) size) {j : Nat} (hj₁ : p ≤ j) (hj₂ : j < p + n)
    (habs : (h.kernel.leaf j).present = false) :
    kfree (pageSize * p + headerSize) h.kernel = .error (.notAvailable 0) := by
  have hfirst := (hinv.marked p).1 (.inl (hlive p (Nat.le_refl p) (by omega)))
  have hlast := (hinv.marked _).1 (.inl (hlive (p + n - 1) (by omega) (by omega)))
  have hdiv := user_div p
  rw [hinv.kfree_eq hall hfirst.2 hpres hhead hn hnum]
  refine KernelInv.freePagesFrom_null hall n _ h.kernel hinv.inv ?_ ?_ (fun i hi₁ hi₂ => ?_) ?_
  · rw [hdiv]
    exact hfirst.1
  · rw [hdiv]
    omega
  · rw [hdiv] at hi₁ hi₂
    exact hinv.present_or_zero (hlive i hi₁ hi₂)
  · rw [hdiv]
    exact ⟨j, hj₁, hj₂, habs⟩

/-- `kfree` gives back exactly the frames of the resident pages when all pages are resident, and never
otherwise. -/
theorem RunInv.freesExactly_iff {h : HeapState} (hinv : RunInv all M root top h) {p n size : Nat}
    (hn0 : 0 < n) (hn : pageSize * n < 2 ^ 31)
    (hnum : pageBytes (toInt (numPages size)) = pageSize * n)
    (hlive : ∀ j, p ≤ j → j < p + n → j ∈ h.live) (hpres : (h.kernel.leaf p).present = true)
    (hhead : DedicatedHeader h.kernel (pageSize * p) size) :
    FreesExactly h.kernel (pageSize * p + headerSize) p n ↔
      ∀ j, p ≤ j → j < p + n → (h.kernel.leaf j).present = true := by
  have htop : top < 2 ^ 36 := hinv.inv.heap.top_lt hall
  have hfirst := (hinv.marked p).1 (.inl (hlive p (Nat.le_refl p) (by omega)))
  have hlast := (hinv.marked _).1 (.inl (hlive (p + n - 1) (by omega) (by omega)))
  have hdiv := user_div p
  constructor
  · rintro ⟨k', free, fs, hk', -⟩ j hj₁ hj₂
    by_contra habs
    rw [Bool.not_eq_true] at habs
    rw [hinv.kfree_untouched hall hn hnum hlive hpres hhead hj₁ hj₂ habs] at hk'
    cases hk'
  · intro hall'
    obtain ⟨k', hk', -, -, hchain, -⟩ := KernelInv.freePagesFrom hall n (pageSize * p + headerSize)
      h.kernel hinv.inv (by rw [hdiv]; exact hfirst.1) (by rw [hdiv]; omega)
      (by rw [hdiv]; exact hall')
    obtain ⟨out, hframes, -⟩ := hinv.inv.heap.frames
    obtain ⟨free, hc, -⟩ := hframes.split
    rw [hdiv] at hchain
    rw [← hinv.kfree_eq hall hfirst.2 hpres hhead hn hnum] at hk'
    refine ⟨k', free, _, hk', hc, ?_, hchain free hc⟩
    have hfilter : (List.range' p n).filter (fun j => (h.kernel.leaf j).present) = List.range' p n :=
      List.filter_eq_self.2 fun j hj => by
        rw [List.mem_range'_1] at hj
        exact hall' j hj.1 hj.2
    rw [Kernel.residentFrames, hfilter]
    exact List.reverse_perm _

end

/-- Freeing demand-paged memory. From any state of any run, let `kmalloc` return a dedicated block,
with the user pointer `addr`: the pages `[p, p + n)`, which the call reserves, with their header. After
any further run in which the block stays allocated and its header is not overwritten, `kfree` puts on
the free list exactly the frames of the block's resident pages if and only if every page of the block
is resident. -/
theorem kfree_dedicated_iff {regions : List MemRegion} (hr : BootRegions regions) {mem : Mem}
    {root : Nat} {s₀ : Phys} (hinit : initPageTable ⟨mem, 0, regions⟩ = .ok (root, s₀)) {h : HeapState}
    (hrun : Relation.ReflTransGen HeapStep (.boot root s₀) h) {pools size addr : Nat} {k₁ : Kernel}
    (hpool : NoPool h.kernel pools size) (hmalloc : kmalloc pools size h.kernel = .ok (addr, k₁)) :
    ∃ p n : Nat, pageBytes (toInt (numPages ((size + headerSize) % 2 ^ 64))) = pageSize * n ∧
      addr = pageSize * p + headerSize ∧
      Relation.ReflTransGen HeapStep h
        ⟨k₁, h.live ∪ Set.Ico p (p + n), h.freed \ Set.Ico p (p + n)⟩ ∧
      DedicatedHeader k₁ (pageSize * p) ((size + headerSize) % 2 ^ 64) ∧
      (k₁.leaf p).present = true ∧
      ∀ h₂, Relation.ReflTransGen HeapStep
          ⟨k₁, h.live ∪ Set.Ico p (p + n), h.freed \ Set.Ico p (p + n)⟩ h₂ →
        (∀ j, p ≤ j → j < p + n → j ∈ h₂.live) →
        DedicatedHeader h₂.kernel (pageSize * p) ((size + headerSize) % 2 ^ 64) →
        (FreesExactly h₂.kernel addr p n ↔
          ∀ j, p ≤ j → j < p + n → (h₂.kernel.leaf j).present = true) := by
  obtain ⟨M, top, hall, hinv⟩ := heapRun_inv hr hinit hrun
  rw [hpool.kmalloc_eq] at hmalloc
  obtain ⟨n, hn0, hn, hnum, rfl, hrun₁, hpres, -, hhead⟩ := hinv.kmallocDedicated hall hmalloc
  refine ⟨top, n, hnum, rfl, hrun₁, hhead, hpres, fun h₂ hrun₂ hlive hhead₂ => ?_⟩
  obtain ⟨top₁, hinv₁⟩ := hinv.run hall hrun₁
  obtain ⟨top₂, hinv₂⟩ := hinv₁.run hall hrun₂
  have hpres₂ := heapRun_resident hall hrun₂ hinv₁ (.inr ⟨Nat.le_refl top, by omega⟩) hpres
    (hlive top (Nat.le_refl top) (by omega))
  exact hinv₂.freesExactly_iff hall hn0 hn hnum hlive hpres₂ hhead₂

/-- A memory whose page 1 holds the pool table that `init_alloc` writes. -/
def poolTableMem : Mem :=
  (List.range blockSizesLen).foldl
    (fun m i => store64 m (poolAddr 0x1000 i) (blockSize i - headerSize)) fun _ => 0

/-- On a machine of nine pages, with the pool table in the first one, `kmalloc` returns a dedicated
block of two or of three pages. -/
theorem kmalloc_nine_pages {size : Nat} (hsize : size = 5000 ∨ size = 9000) : ∃ root s₀ addr k₁,
    initPageTable ⟨poolTableMem, 0, [⟨0x2000, 0xA000, 0x2000⟩]⟩ = .ok (root, s₀) ∧
      PoolTable ⟨s₀, root, addrSpaceKernelHeapBase⟩ 0x1000 ∧
      kmalloc 0x1000 size (⟨s₀, root, addrSpaceKernelHeapBase⟩ : Kernel) = .ok (addr, k₁) := by
  have hrun : ((initPageTable ⟨poolTableMem, 0, [⟨0x2000, 0xA000, 0x2000⟩]⟩).bind fun x =>
      if PoolTable ⟨x.2, x.1, addrSpaceKernelHeapBase⟩ 0x1000
      then kmalloc 0x1000 size (⟨x.2, x.1, addrSpaceKernelHeapBase⟩ : Kernel)
      else .error .outOfMemory).isOk = true := by
    rcases hsize with rfl | rfl <;> decide +kernel
  obtain ⟨⟨addr, k₁⟩, hk⟩ := Except.exists_of_isOk hrun
  obtain ⟨⟨root, s₀⟩, hinit, hk⟩ := Except.bind_eq_ok.1 hk
  split at hk
  · next htable => exact ⟨root, s₀, addr, k₁, hinit, htable, hk⟩
  · cases hk

/-- Its region table is one the kernel can boot from. -/
theorem bootRegions_nine_pages : BootRegions [⟨0x2000, 0xA000, 0x2000⟩] :=
  bootRegions_singleton (by constructor <;> decide) (by decide)

/-- With one page more, a block of two pages can be used at its last byte, in the second page. -/
theorem kmalloc_two_pages : ∃ root s₀ addr k₁ k₂,
    initPageTable ⟨poolTableMem, 0, [⟨0x2000, 0xB000, 0x2000⟩]⟩ = .ok (root, s₀) ∧
      PoolTable ⟨s₀, root, addrSpaceKernelHeapBase⟩ 0x1000 ∧
      kmalloc 0x1000 5000 (⟨s₀, root, addrSpaceKernelHeapBase⟩ : Kernel) = .ok (addr, k₁) ∧
      touch (addr + 4999) k₁ = .ok k₂ ∧ DedicatedHeader k₂ (addr - headerSize) (5000 + headerSize) ∧
      ∀ j, addr / pageSize ≤ j → j < addr / pageSize + 2 → (k₂.leaf j).present = true := by
  have hrun : ((initPageTable ⟨poolTableMem, 0, [⟨0x2000, 0xB000, 0x2000⟩]⟩).bind fun x =>
      if PoolTable ⟨x.2, x.1, addrSpaceKernelHeapBase⟩ 0x1000 then
        (kmalloc 0x1000 5000 (⟨x.2, x.1, addrSpaceKernelHeapBase⟩ : Kernel)).bind fun y =>
        (touch (y.1 + 4999) y.2).bind fun k₂ =>
        if DedicatedHeader k₂ (y.1 - headerSize) (5000 + headerSize) ∧
          ∀ j ∈ List.range' (y.1 / pageSize) 2, (k₂.leaf j).present = true
        then .ok k₂ else .error .outOfMemory
      else .error .outOfMemory).isOk = true := by
    decide +kernel
  obtain ⟨k₃, hk⟩ := Except.exists_of_isOk hrun
  obtain ⟨⟨root, s₀⟩, hinit, hk⟩ := Except.bind_eq_ok.1 hk
  split at hk
  · next htable =>
    obtain ⟨⟨addr, k₁⟩, hmalloc, hk⟩ := Except.bind_eq_ok.1 hk
    obtain ⟨k₂, htouch, hk⟩ := Except.bind_eq_ok.1 hk
    split at hk
    · next hcheck =>
      exact ⟨root, s₀, addr, k₁, k₂, hinit, htable, hmalloc, htouch, hcheck.1,
        fun j h₁ h₂ => hcheck.2 j (List.mem_range'_1.2 ⟨h₁, h₂⟩)⟩
    · cases hk
  · cases hk

/-- A block of two pages that have both been used is freed: their frames go on the free list. -/
theorem kfree_dedicated_two_pages : ∃ root s₀ addr k₁ k₂ p,
    initPageTable ⟨poolTableMem, 0, [⟨0x2000, 0xB000, 0x2000⟩]⟩ = .ok (root, s₀) ∧
      kmalloc 0x1000 5000 (⟨s₀, root, addrSpaceKernelHeapBase⟩ : Kernel) = .ok (addr, k₁) ∧
      touch (addr + 4999) k₁ = .ok k₂ ∧ FreesExactly k₂ addr p 2 := by
  obtain ⟨root, s₀, addr, k₁, k₂, hinit, htable, hmalloc, htouch, hhead, hpres⟩ := kmalloc_two_pages
  have hpool := @PoolTable.noPool _ _ 5000 htable (by decide)
  obtain ⟨p, n, hnum, haddr, -, -, -, hiff⟩ :=
    kfree_dedicated_iff (h := .boot root s₀) (bootRegions_singleton (by constructor <;> decide) (by decide)) hinit .refl hpool hmalloc
  have hbytes : pageBytes (toInt (numPages ((5000 + headerSize) % 2 ^ 64))) = 8192 := by decide
  obtain rfl : n = 2 := by
    rw [hbytes] at hnum
    unfold pageSize at hnum
    omega
  have hpage : addr / pageSize = p := haddr ▸ user_div p
  rw [haddr, Nat.add_sub_cancel] at hhead
  rw [hpage] at hpres
  exact ⟨root, s₀, addr, k₁, k₂, p, hinit, hmalloc, htouch,
    (hiff _ (.single (.touch htouch)) (fun j h₁ h₂ => .inr ⟨h₁, h₂⟩) hhead).2 hpres⟩

/-- A block of two pages is freed right after its allocation: the second page has no frame, and `kfree`
halts at the store through the null pointer. -/
theorem kfree_dedicated_untouched_page : ∃ root s₀ addr k₁ p n,
    initPageTable ⟨poolTableMem, 0, [⟨0x2000, 0xA000, 0x2000⟩]⟩ = .ok (root, s₀) ∧
      NoPool ⟨s₀, root, addrSpaceKernelHeapBase⟩ 0x1000 5000 ∧
      kmalloc 0x1000 5000 (⟨s₀, root, addrSpaceKernelHeapBase⟩ : Kernel) = .ok (addr, k₁) ∧
      addr = pageSize * p + headerSize ∧ n = 2 ∧
      kfree addr k₁ = .error (.notAvailable 0) ∧ ¬ FreesExactly k₁ addr p n := by
  obtain ⟨root, s₀, addr, k₁, hinit, htable, hmalloc⟩ := kmalloc_nine_pages (.inl rfl)
  have hpool := @PoolTable.noPool _ _ 5000 htable (by decide)
  obtain ⟨M, top, hall, hinv⟩ := heapRun_inv bootRegions_nine_pages hinit .refl
  have hded := hpool.kmalloc_eq.symm.trans hmalloc
  obtain ⟨n, hn0, hn, hnum, rfl, hrun, hpres, hrest, hhead⟩ := hinv.kmallocDedicated hall hded
  obtain ⟨top₁, hinv₁⟩ := hinv.run hall hrun
  have hbytes : pageBytes (toInt (numPages ((5000 + headerSize) % 2 ^ 64))) = 8192 := by decide
  obtain rfl : n = 2 := by
    rw [hbytes] at hnum
    unfold pageSize at hnum
    omega
  have habs : (k₁.leaf (top + 1)).present = false := by
    rw [hrest (top + 1) (by omega) (by omega)]
    rfl
  have herr := hinv₁.kfree_untouched hall hn hnum (fun j h₁ h₂ => .inr ⟨h₁, h₂⟩) hpres hhead
    (Nat.le_succ top) (by omega) habs
  refine ⟨root, s₀, _, k₁, top, 2, hinit, hpool, hmalloc, rfl, rfl, herr, ?_⟩
  rintro ⟨k', free, fs, hk', -⟩
  have := herr.symm.trans hk'
  cases this

end BanjOS
