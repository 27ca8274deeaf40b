import BanjOS.Allocator.Dedicated
import BanjOS.PageAllocator.Spare

/-!
# How far kmalloc moves the break

The size of a dedicated request goes through a 64-bit addition, a conversion of the page count to `int` and a
32-bit product. `kmalloc` returns only if the product comes out positive (`RunInv.kmallocDedicated`), and the
product is then `MMU_PAGE_SIZE` times the page count modulo `2 ^ 20` (`pageBytes_toInt`). So a request that
returns has grown the break by its size and its header exactly if both fit `2 ^ 19 - 1` pages. On a machine
with enough frames a request with a positive product does return (`RunInv.kmallocDedicated_returns`), which
settles for which sizes the break always grows enough (`growsBy_iff`).
-/

namespace BanjOS

open ByteMem PagedMem

/-- The bytes `MMU_alloc_pages` is asked for. -/
theorem pageBytes_toInt (n : Nat) : pageBytes (toInt n) =
    if n % 2 ^ 20 < 2 ^ 19 then (pageSize * (n % 2 ^ 20 : Nat) : Int)
    else (pageSize * (n % 2 ^ 20 : Nat) : Int) - 2 ^ 32 := by
  have hmod : 4096 * (n : Int) % 4294967296 = 4096 * (n % 1048576) :=
    Int.mul_emod_mul_of_pos n 1048576 (by decide)
  have hdef : pageBytes (toInt n) = if 4096 * (n : Int) % 4294967296 < 2147483648 then 4096 * (n : Int) % 4294967296
      else 4096 * (n : Int) % 4294967296 - 4294967296 := by
    unfold pageBytes toInt pageSize
    rw [Int.mul_bmod_bmod]
    exact Int.bmod_def ..
  rw [hdef, hmod]
  unfold pageSize
  push_cast
  split <;> split <;> omega

section
variable {all : List Nat} {M root top : Nat} (hall : MappedFrames all M) {k k' : Kernel} {live freed : Set Nat}
include hall

/-- A dedicated block that `kmalloc` returns moves the break by its pages. -/
theorem RunInv.kmallocDedicated_brk (hinv : RunInv all M root top ⟨k, live, freed⟩) {size addr : Nat}
    (hr : BanjOS.kmallocDedicated size k = .ok (addr, k')) :
    ∃ n, 0 < n ∧ pageSize * n < 2 ^ 31 ∧
      pageBytes (toInt (numPages ((size + headerSize) % 2 ^ 64))) = pageSize * n ∧
      k'.brk = k.brk + pageSize * n := by
  obtain ⟨n, hn0, hn, hnum, -, hrun, -⟩ := hinv.kmallocDedicated hall hr
  obtain ⟨top', hinv'⟩ := hinv.run hall hrun
  have hbase : 2 ^ 27 ≤ top := hinv.inv.heap.base
  have hge : top + n ≤ top' := by
    have hlast := (hinv'.marked (top + n - 1)).1 (.inl (.inr ⟨by omega, by omega⟩))
    omega
  have hle : top' ≤ top + n := by
    by_contra hlt
    have hold : ¬ (top + n ∈ live ∨ top + n ∈ freed) := fun hmem => by
      have := (hinv.marked (top + n)).1 hmem
      omega
    rcases (hinv'.marked (top + n)).2 ⟨by omega, by omega⟩ with (hl | hI) | hf
    · exact hold (.inl hl)
    · exact absurd hI.2 (Nat.lt_irrefl _)
    · exact hold (.inr hf.1)
  have hbrk : k.brk = pageSize * top := hinv.inv.brk
  have hbrk' : k'.brk = pageSize * top' := hinv'.inv.brk
  refine ⟨n, hn0, hn, hnum, ?_⟩
  rw [hbrk, hbrk', le_antisymm hle hge, Nat.mul_add]

/-- A request that returns has grown the break by its size and header iff they fit `2 ^ 19 - 1` pages. -/
theorem RunInv.kmallocDedicated_grows_iff (hinv : RunInv all M root top ⟨k, live, freed⟩) {size addr : Nat}
    (hr : BanjOS.kmallocDedicated size k = .ok (addr, k')) :
    (k.brk + (size + headerSize) ≤ k'.brk ∧ k.brk ≤ k'.brk) ↔ size + headerSize ≤ pageSize * (2 ^ 19 - 1) := by
  obtain ⟨n, hn0, hn, hnum, hbrk⟩ := hinv.kmallocDedicated_brk hall hr
  rw [hbrk]
  constructor
  · rintro ⟨hgrow, -⟩
    unfold pageSize at *
    omega
  · intro hfit
    have hpages := le_numPages (size + headerSize)
    have hlt : numPages (size + headerSize) < 2 ^ 19 := by
      unfold numPages pageSize at *
      split <;> omega
    rw [Nat.mod_eq_of_lt (by unfold pageSize at hfit; omega), pageBytes_toInt,
      Nat.mod_eq_of_lt (hlt.trans (by decide)), if_pos hlt] at hnum
    omega

/-! ## Requests that return -/

/-- A use of a marked page returns if the page is resident or there is a frame to spare. -/
theorem KernelInv.touch_returns (h : KernelInv all M top k) {v : Nat} (hle : 2 ^ 27 ≤ pageOf v)
    (hlt : pageOf v < top) (hs : Spare 1 k.phys) : ∃ k', touch v k = .ok k' := by
  cases hp : (k.leaf (pageOf v)).present with
  | true => exact ⟨k, if_pos hp⟩
  | false =>
    obtain ⟨pf, s', ha, -⟩ := Spare.alloc (c := 0) hs
    obtain ⟨k', hk', -⟩ := (h.fault_valid hall hle hlt hp).2 pf s' ha
    refine ⟨k', ?_⟩
    rw [touch, if_neg (by rw [hp]; exact Bool.false_ne_true)]
    exact hk'

/-- With frames to spare for the tables and for the page of the header, a dedicated request of a positive number
of bytes returns. -/
theorem RunInv.kmallocDedicated_returns (hinv : RunInv all M root top ⟨k, live, freed⟩) {size n : Nat}
    (hn0 : 0 < n) (hn : pageSize * n < 2 ^ 31)
    (hnum : pageBytes (toInt (numPages ((size + headerSize) % 2 ^ 64))) = pageSize * n)
    (hs : Spare (3 * n + 1) k.phys) : ∃ r, BanjOS.kmallocDedicated size k = .ok r := by
  have htop : top < 2 ^ 36 := hinv.inv.heap.top_lt hall
  have hbase : 2 ^ 27 ≤ top := hinv.inv.heap.base
  have hbrk : k.brk = pageSize * top := hinv.inv.brk
  have hlt := hinv.inv.brk_lt hall
  have hpage₀ : pageOf k.brk = top := by
    rw [hbrk]
    exact pageOf_pageSize_mul htop
  have hpage₈ : pageOf (k.brk + 8) = top := by
    rw [hbrk]
    exact pageOf_add htop (by decide)
  have hbegin : k.brk % pageSize = 0 := by
    rw [hbrk]
    exact Nat.mul_mod_right ..
  obtain ⟨s₁, hwalk, hs₁⟩ := walkPages_spare k.cr3 markAvailableCallback n k.brk k.phys
    (hs.mono (show 1 + 3 * n ≤ 3 * n + 1 by omega))
  obtain ⟨k₁, halloc, hphys₁⟩ : ∃ k₁, mmuAllocPages (toInt (numPages ((size + headerSize) % 2 ^ 64))) k =
      .ok (k.brk, k₁) ∧ k₁.phys = s₁ := by
    refine ⟨_, Except.bind_eq_ok.2 ⟨s₁, ?_, rfl⟩, rfl⟩
    dsimp only [sbrk]
    rw [endAddr_eq hlt hn hnum, pageTableWalk, pages_count]
    exact hwalk
  have halloc' := (mmuAllocPages_eq_natCast hn hnum k).symm.trans halloc
  obtain ⟨-, -, hk₁, -⟩ := hinv.inv.allocPages hall hn halloc'
  have hstep : HeapStep ⟨k, live, freed⟩ _ := .allocPages hn0 hn halloc'
  obtain ⟨top₁, hinv₁⟩ := hstep.runInv hall hinv
  obtain ⟨k₂, ht⟩ := hk₁.touch_returns hall (v := k.brk) (hbase.trans_eq hpage₀.symm) (by omega) (hphys₁ ▸ hs₁)
  obtain ⟨k₃, hst₂⟩ : ∃ k₃, PagedMem.store k.brk 0 k₁ = .ok k₃ := ⟨_, Except.bind_eq_ok.2 ⟨k₂, ht, rfl⟩⟩
  obtain ⟨-, hpres, -⟩ := hinv₁.store hall (hbase.trans_eq hpage₀.symm)
    (by rw [hbegin]; decide) (by decide) hst₂
  rw [hpage₀, ← hpage₈] at hpres
  obtain ⟨k₄, hst₃⟩ : ∃ k₄, PagedMem.store (k.brk + 8) ((size + headerSize) % 2 ^ 64) k₃ = .ok k₄ :=
    ⟨_, Except.bind_eq_ok.2 ⟨k₃, if_pos hpres, rfl⟩⟩
  exact ⟨_, Except.bind_eq_ok.2 ⟨_, halloc, Except.bind_eq_ok.2 ⟨_, hst₂, Except.bind_eq_ok.2 ⟨_, hst₃, rfl⟩⟩⟩⟩

end

/-! ## A machine with enough frames -/

/-- The pool table that `init_alloc` writes at `0x1000`, in the memory `m`. -/
def storePools (m : Mem) : Mem :=
  (List.range blockSizesLen).foldl (fun m i => store64 m (poolAddr 0x1000 i) (blockSize i - headerSize)) m

theorem storePools_load (m : Mem) {i : Nat} (hi : i < blockSizesLen) :
    load64 (storePools m) (poolAddr 0x1000 i) = blockSize i - headerSize := by
  obtain rfl | rfl | rfl | rfl | rfl | rfl : i = 0 ∨ i = 1 ∨ i = 2 ∨ i = 3 ∨ i = 4 ∨ i = 5 := by
    unfold blockSizesLen at hi
    omega
  all_goals
    simp (disch := decide) only [storePools, List.range, List.range.loop, List.foldl,
      load64_store64_of_apart, load64_store64_of_lt]

theorem storePools_apply (m : Mem) {b : Nat} (hb : 0x2000 ≤ b) : storePools m b = m b := by
  have hout : ∀ i, i < blockSizesLen → ¬ InRange (poolAddr 0x1000 i) 8 b := by
    intro i hi hin
    have hlast := hin.2
    unfold blockSizesLen at hi
    unfold poolAddr at hlast
    omega
  have hfold : ∀ (is : List Nat) (m : Mem), (∀ i ∈ is, i < blockSizesLen) →
      is.foldl (fun m i => store64 m (poolAddr 0x1000 i) (blockSize i - headerSize)) m b = m b := by
    intro is
    induction is with
    | nil =>
      intro m _
      rfl
    | cons i is ih =>
      intro m his
      rw [List.foldl_cons, ih _ fun j hj => his j (.tail _ hj)]
      exact store64_apply_of_not_mem (hout i (his i (.head _)))
  exact hfold _ m fun i hi => List.mem_range.1 hi

/-- A machine whose memory ends at `2 ^ 38`. -/
abbrev roomyRegions : List MemRegion := [⟨0x2000, 2 ^ 38, 0x2000⟩]

theorem bootRegions_roomy : BootRegions roomyRegions := by
  refine ⟨fun r hr => ?_, List.pairwise_singleton .., fun r hr => ?_, by decide⟩
  · rw [List.mem_singleton.1 hr]
    constructor <;> decide
  · rw [List.mem_singleton.1 hr]
    decide

/-- On it the kernel boots, and has frames to spare for a dedicated block of any size. -/
theorem exists_roomy_boot : ∃ root s₀ h, initPageTable ⟨fun _ => 0, 0, roomyRegions⟩ = .ok (root, s₀) ∧
    Relation.ReflTransGen HeapStep (.boot root s₀) h ∧ PoolTable h.kernel 0x1000 ∧
      Spare (3 * 2 ^ 19 + 1) h.kernel.phys := by
  have hr := bootRegions_roomy
  have hend : memEnd roomyRegions = pageSize * (2 ^ 26 - 1 + 1) := rfl
  have hlen : (allPages roomyRegions).length = 2 ^ 26 - 2 := by
    simp [allPages, pagesIn, pageSize]
  have htables : tablesFor (2 ^ 26 - 1) = 131330 := rfl
  obtain ⟨⟨root, s₀⟩, hinit⟩ := (initPageTable_mapInv hr.regionsOK.frames hr.allPages_lt
    (hr.regionsOK.frameInv fun _ => 0) (by decide) hend).2 (by rw [hlen, htables]; decide)
  have hspare := initPageTable_spare hr (by decide) hend hinit
  rw [hlen, htables] at hspare
  obtain ⟨M₀, top₀, hall₀, hinv₀⟩ := heapRun_inv hr hinit .refl
  have hstep : HeapStep (.boot root s₀) ⟨⟨{ s₀ with mem := storePools s₀.mem }, root, addrSpaceKernelHeapBase⟩, ∅, ∅⟩ := by
    refine .write fun f hf b hb => storePools_apply _ ?_
    obtain ⟨r, hmem, hfr⟩ := List.mem_flatMap.1 (hinv₀.inv.heap.kept_mem hf)
    rw [List.mem_singleton.1 hmem] at hfr
    exact ((mem_pagesIn rfl rfl).1 hfr).2.1.trans hb.1
  obtain ⟨M, top, hall, hinv⟩ := heapRun_inv hr hinit (.single hstep)
  have hleaf := hinv.inv.heap.ident 1 (by decide)
  rw [identEntry, if_pos ⟨Nat.le_refl 1, by have := hall.one_le; omega⟩] at hleaf
  obtain ⟨hpres, -, hframe⟩ := directMapCallback_zero (show 1 < 2 ^ 36 by decide)
  have hpage : ∀ i, i < blockSizesLen → pageOf (poolAddr 0x1000 i) = 1 ∧ poolAddr 0x1000 i % pageSize = 16 * i := by
    intro i hi
    unfold blockSizesLen at hi
    have hoff : 16 * i < pageSize := by
      unfold pageSize
      omega
    exact ⟨@pageOf_add 1 (16 * i) (by decide) hoff, (Nat.add_mod_left ..).trans (Nat.mod_eq_of_lt hoff)⟩
  refine ⟨root, s₀, _, hinit, .single hstep, ⟨fun i hi => ?_, fun i hi => ?_⟩,
    (hspare.mono (by decide)).withMem _⟩
  · rw [(hpage i hi).1]
    exact (congrArg PageEntry.present hleaf).trans hpres
  · have htrans : Kernel.translate ⟨{ s₀ with mem := storePools s₀.mem }, root, addrSpaceKernelHeapBase⟩
        (poolAddr 0x1000 i) = poolAddr 0x1000 i := by
      rw [Kernel.translate, (hpage i hi).1, (hpage i hi).2]
      exact (congrArg (fun e => PageEntry.frame e + 16 * i) hleaf).trans (congrArg (· + 16 * i) hframe)
    dsimp only
    rw [htrans]
    exact storePools_load _ hi

/-! ## Which sizes grow the break -/

/-- On every machine, from every state of every run, a dedicated request of `size` bytes that returns has moved
the break up by the size and its header. -/
def GrowsBy (size : Nat) : Prop :=
  ∀ {regions : List MemRegion}, BootRegions regions → ∀ {mem : Mem} {root : Nat} {s₀ : Phys},
    initPageTable ⟨mem, 0, regions⟩ = .ok (root, s₀) → ∀ {h : HeapState},
    Relation.ReflTransGen HeapStep (.boot root s₀) h → ∀ {pools addr : Nat} {k' : Kernel},
    NoPool h.kernel pools size → kmalloc pools size h.kernel = .ok (addr, k') →
      h.kernel.brk + (size + headerSize) ≤ k'.brk ∧ h.kernel.brk ≤ k'.brk

/-- A request that does not fit `2 ^ 19 - 1` pages, but asks for a positive number of bytes after the
conversions, returns on a machine with enough frames, and the break is too low. -/
theorem not_growsBy {size : Nat} (hbig : pageSize * (2 ^ 19 - 1) < size + headerSize)
    (hpos : 0 < numPages ((size + headerSize) % 2 ^ 64) % 2 ^ 20)
    (hlt : numPages ((size + headerSize) % 2 ^ 64) % 2 ^ 20 < 2 ^ 19) : ¬ GrowsBy size := by
  intro hgrows
  obtain ⟨root, s₀, h, hinit, hrun, htable, hspare⟩ := exists_roomy_boot
  obtain ⟨M, top, hall, hinv⟩ := heapRun_inv bootRegions_roomy hinit hrun
  have hpool := @PoolTable.noPool _ _ size htable (by unfold pageSize headerSize at hbig; omega)
  have hnum := pageBytes_toInt (numPages ((size + headerSize) % 2 ^ 64))
  rw [if_pos hlt] at hnum
  obtain ⟨⟨addr, k'⟩, hr⟩ := hinv.kmallocDedicated_returns hall hpos (by unfold pageSize; omega) hnum
    (hspare.mono (by omega))
  have hgrow := hgrows bootRegions_roomy hinit hrun hpool (hpool.kmalloc_eq.trans hr)
  have hfit := (hinv.kmallocDedicated_grows_iff hall hr).1 hgrow
  omega

/-- The sizes whose requests never wrap: with the header they fit `2 ^ 19 - 1` pages, or `MMU_PAGE_SIZE * num` does
not come out positive, and then no request returns. -/
theorem growsBy_iff {size : Nat} : GrowsBy size ↔
    size + headerSize ≤ pageSize * (2 ^ 19 - 1) ∨
      numPages ((size + headerSize) % 2 ^ 64) % 2 ^ 20 = 0 ∨
      2 ^ 19 ≤ numPages ((size + headerSize) % 2 ^ 64) % 2 ^ 20 := by
  constructor
  · intro hgrows
    by_contra hno
    rw [not_or, not_or, Nat.not_le, Nat.not_le] at hno
    exact not_growsBy hno.1 (Nat.pos_of_ne_zero hno.2.1) hno.2.2 hgrows
  · intro hcases regions hr mem root s₀ hinit h hrun pools addr k' hpool hmalloc
    obtain ⟨M, top, hall, hinv⟩ := heapRun_inv hr hinit hrun
    rw [hpool.kmalloc_eq] at hmalloc
    rcases hcases with hfit | hnone
    · exact (hinv.kmallocDedicated_grows_iff hall hmalloc).2 hfit
    · -- no positive number of bytes is asked for, so the call does not return
      exfalso
      obtain ⟨n, hn0, hn, hnum, -⟩ := hinv.kmallocDedicated_brk hall hmalloc
      rw [pageBytes_toInt] at hnum
      unfold pageSize at *
      split at hnum <;> omega

/-- The size with its header wraps to one byte: the break moves up by one page. -/
theorem not_growsBy_wrapped : ¬ GrowsBy (2 ^ 64 - 15) := not_growsBy (by decide) (by decide) (by decide)

end BanjOS
