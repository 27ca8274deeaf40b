import BanjOS.Allocator.Dedicated
import BanjOS.Lib.Strides

/-!
# The pages kfree gives back

Which pages `MMU_free_page` is applied to when a dedicated block is freed, against the pages that
`MMU_alloc_pages` marked for it. The loops start 16 bytes apart and compute their page counts from
different words, and yet they go through the same pages (`map_pageOf_range'`). But the loop of
`MMU_free_pages` stops inside a call of `MMU_free_page` at a page that was never used. So every page is
reached exactly when all pages but the last one are resident (`kfree_freesOnce_iff`).
-/

namespace BanjOS

open ByteMem PagedMem

/-! ## Calls -/

/-- One iteration of the loop of `page_table_walk`. -/
def walkPage (table : Nat) (callback : Nat → PageEntry → PageEntry) (addr : Nat) (s : Phys) : Except Stop Phys := do
  let (entry, s) ← pageTableGetEntry table addr true s
  let slot := entry.getD 0
  .ok { s with mem := setEntry s.mem slot (callback addr (getEntry s.mem slot)) }

/-- The addresses whose entries `MMU_alloc_pages(num)` marks. -/
def mmuAllocPagesMarks (num : Int) (k : Kernel) : List Nat :=
  let (virtAddr, k) := sbrk (pageBytes num) k
  let endAddr := ((virtAddr + pageBytes num) % 2 ^ 64).toNat
  strideCalls pageSize (walkPage k.cr3 markAvailableCallback)
    ((endAddr - virtAddr + (pageSize - 1)) / pageSize) virtAddr k.phys

/-- The addresses whose entries `kmalloc(size)` marks by `MMU_alloc_pages`. -/
def kmallocMarks (pools size : Nat) (k : Kernel) : List Nat :=
  match findPool pools size blockSizesLen 0 k with
  | .ok (i, k) =>
    if i < blockSizesLen then [] else mmuAllocPagesMarks (toInt (numPages ((size + headerSize) % 2 ^ 64))) k
  | .error _ => []

/-- The addresses `MMU_free_pages(virt_addr, num)` applies `MMU_free_page` to. -/
def mmuFreePagesCalls (virtAddr : Nat) (num : Int) (k : Kernel) : List Nat :=
  let endAddr := ((virtAddr + pageBytes num) % 2 ^ 64).toNat
  strideCalls pageSize mmuFreePage ((endAddr - virtAddr + (pageSize - 1)) / pageSize) virtAddr k

/-- The two words of the header that `kfree` reads. -/
def readHeader (block : Nat) (k : Kernel) : Except Stop (Nat × Nat × Kernel) := do
  let (pool, k) ← load block k
  let (size, k) ← load (block + 8) k
  .ok (pool, size, k)

/-- The addresses `kfree(addr)` applies `MMU_free_page` to. -/
def kfreeCalls (addr : Nat) (k : Kernel) : List Nat :=
  match readHeader ((addr + (2 ^ 64 - headerSize)) % 2 ^ 64) k with
  | .ok (pool, size, k) => if pool ≠ 0 then [] else mmuFreePagesCalls addr (toInt (numPages size)) k
  | .error _ => []

/-- `kfree(addr)` applies `MMU_free_page` to each of the pages once, and to no other page. -/
def FreesOnce (k : Kernel) (addr : Nat) (pages : List Nat) : Prop :=
  ((kfreeCalls addr k).map pageOf).Nodup ∧ ∀ j, j ∈ (kfreeCalls addr k).map pageOf ↔ j ∈ pages

theorem walkPages_eq (table : Nat) (callback : Nat → PageEntry → PageEntry) :
    ∀ n addr s, walkPages table callback n addr s = strideLoop pageSize (walkPage table callback) n addr s := by
  intro n
  induction n with
  | zero =>
    intro addr s
    rfl
  | succ n ih =>
    intro addr s
    rw [walkPages, strideLoop, walkPage, bind_assoc]
    exact bind_congr fun r => ih _ _

theorem freePagesFrom_eq : ∀ n page k, freePagesFrom n page k = strideLoop pageSize mmuFreePage n page k := by
  intro n
  induction n with
  | zero =>
    intro page k
    rfl
  | succ n ih =>
    intro page k
    exact bind_congr fun k₁ => ih (page + pageSize) k₁

/-- Addresses in steps of a page lie in consecutive pages, wherever in its page the first one is. -/
theorem map_pageOf_range' {p r n : Nat} (hr : r < pageSize) (hp : p + n ≤ 2 ^ 36) :
    (List.range' (pageSize * p + r) n pageSize).map pageOf = List.range' p n := by
  induction n generalizing p with
  | zero => rfl
  | succ n ih =>
    have hpage : pageOf (pageSize * p + r) = p := pageOf_add (by omega) hr
    have hnext : pageSize * p + r + pageSize = pageSize * (p + 1) + r := by
      rw [Nat.mul_succ]
      omega
    rw [List.range'_succ, List.range'_succ, List.map_cons, hpage, hnext, ih (by omega)]

/-- The first pages of a list without repetition are its pages iff they are all of them. -/
theorem freesOnce_iff {k : Kernel} {addr : Nat} {as pages : List Nat} (hcalls : kfreeCalls addr k <+: as)
    (hpages : as.map pageOf = pages) (hnodup : pages.Nodup) : FreesOnce k addr pages ↔ kfreeCalls addr k = as := by
  constructor
  · rintro ⟨-, hmem⟩
    have hle := hnodup.length_le_of_subset fun j hj => (hmem j).2 hj
    rw [← hpages, List.length_map, List.length_map] at hle
    exact hcalls.eq_of_length_le hle
  · intro heq
    rw [FreesOnce, heq, hpages]
    exact ⟨hnodup, fun _ => Iff.rfl⟩

/-! ## The block -/

section
variable {all : List Nat} {M root top : Nat} (hall : MappedFrames all M)
include hall

/-- `kmalloc` marks the pages it reserves. -/
theorem RunInv.kmallocMarks_eq {h : HeapState} (hinv : RunInv all M root top h) {pools size n : Nat}
    {r : Nat × Kernel} (hpool : NoPool h.kernel pools size) (hn : pageSize * n < 2 ^ 31)
    (hnum : pageBytes (toInt (numPages ((size + headerSize) % 2 ^ 64))) = pageSize * n)
    (hmalloc : kmalloc pools size h.kernel = .ok r) :
    (kmallocMarks pools size h.kernel).map pageOf = List.range' top n := by
  have hlt := hinv.inv.brk_lt hall
  rw [hpool.kmalloc_eq] at hmalloc
  obtain ⟨⟨v, k₁⟩, halloc, -⟩ := Except.bind_eq_ok.1 hmalloc
  obtain ⟨s, hwalk, -⟩ := Except.bind_eq_ok.1 halloc
  dsimp only [sbrk] at hwalk
  rw [endAddr_eq hlt hn hnum, pageTableWalk, pages_count, walkPages_eq] at hwalk
  rw [kmallocMarks, hpool.findPool_eq _ 0 (Nat.zero_add _)]
  dsimp only
  rw [if_neg (Nat.lt_irrefl _), mmuAllocPagesMarks]
  dsimp only [sbrk]
  rw [endAddr_eq hlt hn hnum, pages_count, strideCalls_of_ok hwalk, hinv.inv.brk]
  have halloc' := (mmuAllocPages_eq_natCast hn hnum h.kernel).symm.trans halloc
  obtain ⟨-, -, hk₁, -⟩ := hinv.inv.allocPages hall hn halloc'
  have hend : top + n ≤ 2 ^ 36 := (hk₁.heap.top_lt hall).le
  exact @map_pageOf_range' top 0 n (by decide) hend

/-- `kfree` of a dedicated block calls `MMU_free_page` from the user pointer on. -/
theorem RunInv.kfreeCalls_eq {h : HeapState} (hinv : RunInv all M root top h) {p n size : Nat}
    (hlt : p < top) (hpres : (h.kernel.leaf p).present = true)
    (hhead : DedicatedHeader h.kernel (pageSize * p) size) (hn : pageSize * n < 2 ^ 31)
    (hnum : pageBytes (toInt (numPages size)) = pageSize * n) :
    kfreeCalls (pageSize * p + headerSize) h.kernel =
      strideCalls pageSize mmuFreePage n (pageSize * p + headerSize) h.kernel := by
  have htop : top < 2 ^ 36 := hinv.inv.heap.top_lt hall
  obtain ⟨h₀, h₈⟩ := load_header (hlt.trans htop) hpres hhead
  have hread : readHeader (pageSize * p) h.kernel = .ok (0, size, h.kernel) :=
    Except.bind_eq_ok.2 ⟨_, h₀, Except.bind_eq_ok.2 ⟨_, h₈, rfl⟩⟩
  rw [kfreeCalls, block_of_user (hlt.trans htop), hread]
  dsimp only
  rw [if_neg (not_not.2 rfl), mmuFreePagesCalls,
    endAddr_eq (by unfold pageSize headerSize; omega) hn hnum, pages_count]

/-- Every page of a block is freed once iff all its pages but the last one are resident. -/
theorem RunInv.freesOnce_iff {h : HeapState} (hinv : RunInv all M root top h) {p n size : Nat}
    (hn : pageSize * (n + 1) < 2 ^ 31)
    (hnum : pageBytes (toInt (numPages size)) = pageSize * (n + 1))
    (hlive : ∀ j, p ≤ j → j < p + (n + 1) → j ∈ h.live) (hpres : (h.kernel.leaf p).present = true)
    (hhead : DedicatedHeader h.kernel (pageSize * p) size) :
    FreesOnce h.kernel (pageSize * p + headerSize) (List.range' p (n + 1)) ↔
      ∀ j, p ≤ j → j < p + n → (h.kernel.leaf j).present = true := by
  have htop : top < 2 ^ 36 := hinv.inv.heap.top_lt hall
  have hfirst := (hinv.marked p).1 (.inl (hlive p (Nat.le_refl p) (by omega)))
  have hlast := (hinv.marked _).1 (.inl (hlive (p + n) (by omega) (by omega)))
  have hdiv := user_div p
  have hcalls := hinv.kfreeCalls_eq hall hfirst.2 hpres hhead hn hnum
  rw [BanjOS.freesOnce_iff (hcalls ▸ strideCalls_prefix ..) (map_pageOf_range' (by decide) (by omega))
    List.nodup_range', hcalls, strideCalls_succ_eq_iff]
  simp only [← freePagesFrom_eq]
  constructor
  · rintro ⟨k', hk'⟩ j hj₁ hj₂
    by_contra habs
    rw [Bool.not_eq_true] at habs
    have herr := KernelInv.freePagesFrom_null hall n (pageSize * p + headerSize) h.kernel hinv.inv
      (by rw [hdiv]; exact hfirst.1) (by rw [hdiv]; omega)
      (by rw [hdiv]; exact fun i hi₁ hi₂ => hinv.present_or_zero (hlive i hi₁ (by omega)))
      (by rw [hdiv]; exact ⟨j, hj₁, hj₂, habs⟩)
    rw [hk'] at herr
    cases herr
  · intro hres
    obtain ⟨k', hk', -⟩ := KernelInv.freePagesFrom hall n (pageSize * p + headerSize) h.kernel hinv.inv
      (by rw [hdiv]; exact hfirst.1) (by rw [hdiv]; omega) (by rw [hdiv]; exact hres)
    exact ⟨k', hk'⟩

end

/-- From any state of any run, let `kmalloc` return a dedicated block, with the user pointer `addr`. After any
further run in which its pages stay allocated and its header is not overwritten, `kfree` applies
`MMU_free_page` to exactly the pages that were marked for the block, each once, if and only if all of
them but the last one are resident. -/
theorem kfree_freesOnce_iff {regions : List MemRegion} (hr : BootRegions regions) {mem : Mem} {root : Nat}
    {s₀ : Phys} (hinit : initPageTable ⟨mem, 0, regions⟩ = .ok (root, s₀)) {h : HeapState}
    (hrun : Relation.ReflTransGen HeapStep (.boot root s₀) h) {pools size addr : Nat} {k₁ : Kernel}
    (hpools : PoolTable h.kernel pools) (hsize : 2032 < size) (hsmall : size + 4112 < 2 ^ 31)
    (hmalloc : kmalloc pools size h.kernel = .ok (addr, k₁)) {pages : List Nat}
    (hpages : (kmallocMarks pools size h.kernel).map pageOf = pages) {h₂ : HeapState}
    (hrun₂ : Relation.ReflTransGen HeapStep ⟨k₁, h.live ∪ {j | j ∈ pages}, h.freed \ {j | j ∈ pages}⟩ h₂)
    (hlive : ∀ j ∈ pages, j ∈ h₂.live)
    (hhead : DedicatedHeader h₂.kernel (addr - headerSize) (size + headerSize)) :
    FreesOnce h₂.kernel addr pages ↔ ∀ j ∈ pages.dropLast, (h₂.kernel.leaf j).present = true := by
  obtain ⟨M, top, hall, hinv⟩ := heapRun_inv hr hinit hrun
  have hpool := hpools.noPool hsize
  have hmod : (size + headerSize) % 2 ^ 64 = size + headerSize := Nat.mod_eq_of_lt (by unfold headerSize; omega)
  obtain ⟨n, hn0, hn, hnum, rfl, hrun₁, hpres, -, -⟩ :=
    hinv.kmallocDedicated hall (hpool.kmalloc_eq.symm.trans hmalloc)
  rw [hinv.kmallocMarks_eq hall hpool hn hnum hmalloc] at hpages
  subst hpages
  have hset : {j | j ∈ List.range' top n} = Set.Ico top (top + n) := Set.ext fun j => List.mem_range'_1
  rw [hset] at hrun₂
  rw [hmod] at hnum
  rw [Nat.add_sub_cancel] at hhead
  obtain ⟨top₁, hinv₁⟩ := hinv.run hall hrun₁
  obtain ⟨top₂, hinv₂⟩ := hinv₁.run hall hrun₂
  have hlive' : ∀ j, top ≤ j → j < top + n → j ∈ h₂.live := fun j hj₁ hj₂ =>
    hlive j (List.mem_range'_1.2 ⟨hj₁, hj₂⟩)
  have hpres₂ := heapRun_resident hall hrun₂ hinv₁ (.inr ⟨Nat.le_refl top, by omega⟩) hpres
    (hlive' top (Nat.le_refl top) (by omega))
  obtain ⟨m, rfl⟩ := Nat.exists_eq_add_one_of_ne_zero hn0.ne'
  rw [hinv₂.freesOnce_iff hall hn hnum hlive' hpres₂ hhead, List.range'_concat, List.dropLast_concat]
  simp only [List.mem_range'_1, and_imp]

/-- A block of two pages that have both been used is freed: `MMU_free_page` is applied to each of them. -/
theorem kfree_freesOnce_two_pages : ∃ root s₀ addr k₁ k₂,
    initPageTable ⟨poolTableMem, 0, [⟨0x2000, 0xB000, 0x2000⟩]⟩ = .ok (root, s₀) ∧
      kmalloc 0x1000 5000 (⟨s₀, root, addrSpaceKernelHeapBase⟩ : Kernel) = .ok (addr, k₁) ∧
      touch (addr + 4999) k₁ = .ok k₂ ∧
      FreesOnce k₂ addr ((kmallocMarks 0x1000 5000 ⟨s₀, root, addrSpaceKernelHeapBase⟩).map pageOf) := by
  obtain ⟨root, s₀, addr, k₁, k₂, hinit, htable, hmalloc, htouch, hhead, hpres⟩ := kmalloc_two_pages
  have hpool := @PoolTable.noPool _ _ 5000 htable (by decide)
  have hboot : BootRegions [⟨0x2000, 0xB000, 0x2000⟩] := bootRegions_singleton (by constructor <;> decide) (by decide)
  obtain ⟨M, top, hall, hinv⟩ := heapRun_inv hboot hinit .refl
  obtain ⟨n, hn0, hn, hnum, rfl, -⟩ := hinv.kmallocDedicated hall (hpool.kmalloc_eq.symm.trans hmalloc)
  have hpages := hinv.kmallocMarks_eq hall hpool hn hnum hmalloc
  have hbytes : pageBytes (toInt (numPages ((5000 + headerSize) % 2 ^ 64))) = 8192 := by decide
  obtain rfl : n = 2 := by
    rw [hbytes] at hnum
    unfold pageSize at hnum
    omega
  refine ⟨root, s₀, _, k₁, k₂, hinit, hmalloc, htouch, (kfree_freesOnce_iff hboot hinit .refl htable
    (by decide) (by decide) hmalloc rfl (.single (.touch htouch)) (fun j hj => .inr hj) hhead).2 fun j hj => ?_⟩
  rw [user_div] at hpres
  rw [hpages] at hj
  have hmem := List.mem_range'_1.1 (List.dropLast_subset _ hj)
  exact hpres j hmem.1 hmem.2

/-- A block of three pages is freed right after its allocation: the second page has no frame, so `kfree` halts
there, and `MMU_free_page` is never applied to the third one. -/
theorem kfree_freesOnce_three_pages : ∃ root s₀ addr k₁,
    initPageTable ⟨poolTableMem, 0, [⟨0x2000, 0xA000, 0x2000⟩]⟩ = .ok (root, s₀) ∧
      PoolTable ⟨s₀, root, addrSpaceKernelHeapBase⟩ 0x1000 ∧
      kmalloc 0x1000 9000 (⟨s₀, root, addrSpaceKernelHeapBase⟩ : Kernel) = .ok (addr, k₁) ∧
      ¬ FreesOnce k₁ addr ((kmallocMarks 0x1000 9000 ⟨s₀, root, addrSpaceKernelHeapBase⟩).map pageOf) := by
  obtain ⟨root, s₀, addr, k₁, hinit, htable, hmalloc⟩ := kmalloc_nine_pages (.inr rfl)
  have hpool := @PoolTable.noPool _ _ 9000 htable (by decide)
  obtain ⟨M, top, hall, hinv⟩ := heapRun_inv bootRegions_nine_pages hinit .refl
  obtain ⟨n, hn0, hn, hnum, rfl, hrun, hpres, hrest, hhead⟩ :=
    hinv.kmallocDedicated hall (hpool.kmalloc_eq.symm.trans hmalloc)
  have hpages := hinv.kmallocMarks_eq hall hpool hn hnum hmalloc
  obtain ⟨top₁, hinv₁⟩ := hinv.run hall hrun
  have hbytes : pageBytes (toInt (numPages ((9000 + headerSize) % 2 ^ 64))) = 12288 := by decide
  obtain rfl : n = 3 := by
    rw [hbytes] at hnum
    unfold pageSize at hnum
    omega
  refine ⟨root, s₀, _, k₁, hinit, htable, hmalloc, fun hfrees => ?_⟩
  dsimp only [HeapState.boot] at hpages
  rw [hpages] at hfrees
  have hres := (hinv₁.freesOnce_iff hall hn hnum (fun j h₁ h₂ => .inr ⟨h₁, h₂⟩) hpres hhead).1 hfrees
  have habs := hres (top + 1) (by omega) (by omega)
  rw [hrest (top + 1) (by omega) (by omega)] at habs
  cases habs

end BanjOS
