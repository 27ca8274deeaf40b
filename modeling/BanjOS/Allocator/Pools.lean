import BanjOS.Allocator.Kmalloc
import BanjOS.PageAllocator.Demand
import Mathlib.Logic.Function.Basic

/-!
# The pools of kmalloc

`kmalloc` and `kfree` over a flat virtual memory: the paging layer is taken as given, every heap address
has a byte of its own, and pages come from a break that only grows (`Flat`).

The heap is divided into cells: the free blocks of the six pools and the blocks of the live requests.
`PoolInv` says that the cells are apart and lie in pages that were obtained and not given back, that the
free list of each pool is the chain of its free blocks, and that the header of every live block is what
`kmalloc` wrote. Headers and links share the first words of a cell at different times, so all of it is
restored by the same few lemmas: a write that leaves the links and the headers alone
(`PoolInv.congr`), a new head for one pool (`PoolInv.setHead`), and a cell that joins the free or the
live ones (`PoolInv.push`, `PoolInv.adopt`).
-/

namespace BanjOS

open ByteMem

/-! ## Flat virtual memory -/

/-- Virtual memory over a paging layer in which pages do not alias: the bytes, the heap break, and the
heap pages that were obtained from the page allocator and not given back. -/
structure Flat where
  mem : Mem
  brk : Nat
  mapped : Nat → Bool

namespace Flat

/-- Kernel data below the heap and the mapped heap pages can be accessed. -/
def accessible (s : Flat) (v : Nat) : Bool :=
  decide (v < addrSpaceKernelHeapBase) || s.mapped (v / pageSize)

/-- Reserve `bytes` bytes at the break. The paging layer runs out of tables before the heap reaches
`2 ^ 48` (`HeapInv.top_lt`). -/
def reserve (bytes : Int) (s : Flat) : Except Stop (Nat × Flat) :=
  if s.brk + bytes ≤ 2 ^ 48 then
    .ok (s.brk, { s with
      brk := (s.brk + bytes).toNat
      mapped := fun n => s.mapped n ||
        (decide (s.brk ≤ pageSize * n) && decide ((pageSize * n : Int) < s.brk + bytes)) })
  else .error .outOfMemory

/-- Give back the pages of the addresses `v`, `v + MMU_PAGE_SIZE`, ... below `v + bytes`. -/
def release (v : Nat) (bytes : Int) (s : Flat) : Flat :=
  { s with mapped := fun n => s.mapped n &&
      !(decide (v / pageSize ≤ n) && decide ((pageSize * n : Int) < pageSize * (v / pageSize) + bytes)) }

end Flat

instance : PagedMem Flat where
  load v s := if s.accessible v then .ok (load64 s.mem v, s) else .error (.notAvailable v)
  store v x s :=
    if s.accessible v then .ok { s with mem := store64 s.mem v x } else .error (.notAvailable v)
  allocPage s := s.reserve pageSize
  allocPages num s := s.reserve (pageBytes num)
  freePages v num s := .ok (s.release v (pageBytes num))

theorem Flat.load_eq {s : Flat} {v : Nat} (h : s.accessible v = true) :
    PagedMem.load v s = .ok (load64 s.mem v, s) := if_pos h

theorem Flat.store_eq {s : Flat} {v : Nat} (h : s.accessible v = true) (x : Nat) :
    PagedMem.store v x s = .ok { s with mem := store64 s.mem v x } := if_pos h

/-! ## Cells -/

/-- A piece of the heap. -/
structure Cell where
  addr : Nat
  len : Nat

/-- Two cells do not overlap. -/
def Cell.Apart (c d : Cell) : Prop := c.addr + c.len ≤ d.addr ∨ d.addr + d.len ≤ c.addr

theorem Cell.Apart.symm {c d : Cell} (h : c.Apart d) : d.Apart c := Or.symm h

/-- A byte of a part of one cell is in no part of the other. -/
theorem Cell.Apart.not_inRange {c d : Cell} (h : c.Apart d) {a n a' n' b : Nat} (hb : InRange a n b)
    (hc : c.addr ≤ a ∧ a + n ≤ c.addr + c.len) (hd : d.addr ≤ a' ∧ a' + n' ≤ d.addr + d.len) :
    ¬ InRange a' n' b := fun hb' =>
  (hb.mono hc.1 hc.2).not_of_apart h (hb'.mono hd.1 hd.2)

/-- A live request: the pointer `kmalloc` returned for it and the bytes asked for. -/
structure Live where
  ptr : Nat
  size : Nat
  deriving DecidableEq

namespace Live

/-- The block of a live request starts with its header. -/
def block (l : Live) : Nat := l.ptr - headerSize

/-- The cell of a live request. -/
def cell (l : Live) : Cell := ⟨l.block, blockLen l.size⟩

/-- The bytes the client may use. -/
def payload (l : Live) : Cell := ⟨l.ptr, l.size⟩

/-- The bytes of the header. -/
def header (l : Live) : Cell := ⟨l.block, headerSize⟩

/-- The header `kmalloc` writes: the pool, or no pool and the size with the header. -/
def Header (pools : Nat) (m : Mem) (l : Live) : Prop :=
  if poolIndex l.size < blockSizesLen then
    load64 m l.block = poolAddr pools (poolIndex l.size) ∧ load64 m (l.block + 8) = 0
  else load64 m l.block = 0 ∧ load64 m (l.block + 8) = l.size + headerSize

end Live

/-- The cells of the free blocks, `F i` those of the pool `i`. -/
def freeCells (F : Nat → List Nat) : List Cell :=
  (List.range blockSizesLen).flatMap fun i => (F i).map fun b => ⟨b, blockSize i⟩

/-- All cells. -/
def cells (F : Nat → List Nat) (live : List Live) : List Cell := freeCells F ++ live.map Live.cell

/-- The cell lies in the heap below the break, in mapped pages, and is aligned to its size or to a
page. -/
structure Cell.InHeap (s : Flat) (c : Cell) : Prop where
  lower : addrSpaceKernelHeapBase ≤ c.addr
  upper : c.addr + c.len ≤ s.brk
  mapped : ∀ b, InRange c.addr c.len b → s.mapped (b / pageSize) = true
  aligned : c.addr % min c.len pageSize = 0

/-- The cells of the heap are apart, and the break is at a page below `2 ^ 48`. -/
structure Layout (s : Flat) (cs : List Cell) : Prop where
  apart : cs.Pairwise Cell.Apart
  inHeap : ∀ c ∈ cs, c.InHeap s
  brk_mod : s.brk % pageSize = 0
  base : addrSpaceKernelHeapBase ≤ s.brk
  limit : s.brk ≤ 2 ^ 48

/-- The invariant of the allocator, with the free blocks `F` and the requests `live`. -/
structure PoolInv (pools : Nat) (F : Nat → List Nat) (live : List Live) (s : Flat) : Prop where
  layout : Layout s (cells F live)
  table : ∀ i, i < blockSizesLen → load64 s.mem (poolAddr pools i) = blockSize i - headerSize
  chains : ∀ i, i < blockSizesLen → Chain s.mem (load64 s.mem (headOf (poolAddr pools i))) (F i)
  headers : ∀ l ∈ live, l.Header pools s.mem
  small : ∀ l ∈ live, l.size + 4112 < 2 ^ 31

/-- The pool table is static data below the heap. -/
structure PoolsOK (pools : Nat) : Prop where
  pos : 0 < pools
  below : pools + 16 * blockSizesLen ≤ addrSpaceKernelHeapBase

section
variable {F : Nat → List Nat} {i b : Nat} {l : List Nat} {live : List Live} {s : Flat} {c : Cell}

theorem Layout.perm {cs ds : List Cell} (h : Layout s cs) (hp : cs.Perm ds) : Layout s ds where
  apart := (hp.pairwise_iff fun h => h.symm).1 h.apart
  inHeap c hc := h.inHeap c (hp.mem_iff.2 hc)
  brk_mod := h.brk_mod
  base := h.base
  limit := h.limit

/-- A cell apart from the others joins the layout. -/
theorem Layout.cons {cs : List Cell} (h : Layout s cs) (hin : c.InHeap s)
    (hap : ∀ d ∈ cs, c.Apart d) : Layout s (c :: cs) where
  apart := List.pairwise_cons.2 ⟨hap, h.apart⟩
  inHeap d hd := (List.mem_cons.1 hd).elim (fun he => he ▸ hin) (h.inHeap d)
  brk_mod := h.brk_mod
  base := h.base
  limit := h.limit

/-- A cell leaves the layout. -/
theorem Layout.tail {cs : List Cell} (h : Layout s (c :: cs)) :
    Layout s cs ∧ c.InHeap s ∧ ∀ d ∈ cs, c.Apart d :=
  ⟨⟨h.apart.of_cons, fun d hd => h.inHeap d (.tail _ hd), h.brk_mod, h.base, h.limit⟩,
    h.inHeap c (.head _), (List.pairwise_cons.1 h.apart).1⟩

/-- Adding an element to one of the lists of a `flatMap`. -/
theorem flatMap_update_perm {β : Type} (g : Nat → List Nat) (f : Nat → Nat → β) (i b : Nat) :
    ∀ is : List Nat, is.Nodup → i ∈ is →
      (is.flatMap fun j => (Function.update g i (b :: g i) j).map (f j)).Perm
        (f i b :: is.flatMap fun j => (g j).map (f j)) := by
  intro is
  induction is with
  | nil => intro _ hi; cases hi
  | cons j is ih =>
    intro hnd hi
    obtain ⟨hj, hnd⟩ := List.nodup_cons.1 hnd
    rw [List.flatMap_cons, List.flatMap_cons]
    by_cases hji : j = i
    · subst hji
      have hrest : (is.flatMap fun k => (Function.update g j (b :: g j) k).map (f k)) =
          is.flatMap fun k => (g k).map (f k) :=
        List.flatMap_congr fun k hk => by
          have hne : k ≠ j := fun he => hj (he ▸ hk)
          rw [Function.update_of_ne hne]
      rw [hrest, Function.update_self, List.map_cons, List.cons_append]
    · rw [Function.update_of_ne hji]
      refine ((ih hnd ((List.mem_cons.1 hi).resolve_left fun he => hji he.symm)).append_left _).trans ?_
      exact List.perm_middle

/-- The cells with one more free block. -/
theorem cells_push (hi : i < blockSizesLen) :
    (cells (Function.update F i (b :: F i)) live).Perm (⟨b, blockSize i⟩ :: cells F live) := by
  have h := flatMap_update_perm F (fun j b => (⟨b, blockSize j⟩ : Cell)) i b
    (List.range blockSizesLen) List.nodup_range (List.mem_range.2 hi)
  exact h.append_right _

/-- The cells with one free block less. -/
theorem cells_pop (hi : i < blockSizesLen) (hF : F i = b :: l) :
    (cells F live).Perm (⟨b, blockSize i⟩ :: cells (Function.update F i l) live) := by
  have h : (cells (Function.update (Function.update F i l) i (b :: Function.update F i l i)) live).Perm
      (⟨b, blockSize i⟩ :: cells (Function.update F i l) live) := cells_push hi
  rwa [Function.update_self, Function.update_idem, ← hF, Function.update_eq_self] at h

/-- The cells with one more request. -/
theorem cells_adopt (x : Live) : (cells F (x :: live)).Perm (x.cell :: cells F live) :=
  List.perm_middle

theorem mem_freeCells : c ∈ freeCells F ↔ ∃ i, i < blockSizesLen ∧ ∃ b ∈ F i, ⟨b, blockSize i⟩ = c := by
  simp only [freeCells, List.mem_flatMap, List.mem_range, List.mem_map]

/-- The layout does not depend on the bytes. -/
theorem Layout.withMem {cs : List Cell} (h : Layout s cs) (mem : Mem) : Layout { s with mem } cs :=
  ⟨h.apart, fun c hc => ⟨(h.inHeap c hc).lower, (h.inHeap c hc).upper, (h.inHeap c hc).mapped,
    (h.inHeap c hc).aligned⟩, h.brk_mod, h.base, h.limit⟩

/-- A cell holds a header. -/
theorem Live.le_len (x : Live) : headerSize ≤ x.cell.len :=
  (Nat.le_add_left _ _).trans (le_blockLen x.size)

theorem le_blockSize_of_lt {i : Nat} (hi : i < blockSizesLen) : 32 ≤ blockSize i := by
  have := blockSize_cases hi
  omega

end

/-! ## Changing the memory -/

section
variable {pools : Nat} (hp : PoolsOK pools) {F : Nat → List Nat} {live : List Live} {s : Flat}

/-- A free block is a cell. -/
theorem PoolInv.free_inHeap (h : PoolInv pools F live s) {i a : Nat} (hi : i < blockSizesLen)
    (ha : a ∈ F i) : (⟨a, blockSize i⟩ : Cell).InHeap s :=
  h.layout.inHeap _ (List.mem_append_left _ (mem_freeCells.2 ⟨i, hi, a, ha, rfl⟩))

/-- A live block is a cell. -/
theorem PoolInv.live_inHeap (h : PoolInv pools F live s) {x : Live} (hx : x ∈ live) :
    x.cell.InHeap s :=
  h.layout.inHeap _ (List.mem_append_right _ (List.mem_map.2 ⟨x, hx, rfl⟩))

/-- A header depends on its two words. -/
theorem Live.Header.congr {x : Live} {m m' : Mem} (h : x.Header pools m)
    (hw : ∀ b, InRange x.block headerSize b → m' b = m b) : x.Header pools m' := by
  have h₀ : load64 m' x.block = load64 m x.block := load64_congr fun b hb =>
    hw b (hb.mono (Nat.le_refl _) (by unfold headerSize; omega))
  have h₈ : load64 m' (x.block + 8) = load64 m (x.block + 8) := load64_congr fun b hb =>
    hw b (hb.mono (Nat.le_add_right _ _) (Nat.le_refl _))
  unfold Live.Header at h ⊢
  rw [h₀, h₈]
  exact h

include hp

/-- A change that leaves the static data, the links and the headers alone keeps the invariant. -/
theorem PoolInv.congr (h : PoolInv pools F live s) {mem : Mem}
    (hlow : ∀ b, b < addrSpaceKernelHeapBase → mem b = s.mem b)
    (hfree : ∀ i, i < blockSizesLen → ∀ a ∈ F i, ∀ b, InRange a 8 b → mem b = s.mem b)
    (hlive : ∀ x ∈ live, ∀ b, InRange x.block headerSize b → mem b = s.mem b) :
    PoolInv pools F live { s with mem } := by
  have hbelow := hp.below
  have hword : ∀ a, a + 8 ≤ addrSpaceKernelHeapBase → load64 mem a = load64 s.mem a := fun a ha =>
    load64_congr fun b hb => hlow b (hb.2.trans_le ha)
  refine ⟨h.layout.withMem mem, fun i hi => ?_, fun i hi => ?_, fun x hx => ?_, h.small⟩
  · rw [← h.table i hi]
    exact hword _ (by unfold poolAddr; omega)
  · dsimp only
    rw [hword _ (by unfold headOf poolAddr; omega)]
    exact (h.chains i hi).congr fun a ha => load64_congr (hfree i hi a ha)
  · exact (h.headers x hx).congr (hlive x hx)

/-- A write inside a cell that is neither free nor live. -/
theorem PoolInv.writeApart (h : PoolInv pools F live s) {p n : Nat} (hin : addrSpaceKernelHeapBase ≤ p)
    (hap : ∀ d ∈ cells F live, (⟨p, n⟩ : Cell).Apart d) {a : Nat} (ha : p ≤ a) (ha' : a + 8 ≤ p + n)
    (x : Nat) :
    PoolInv pools F live { s with mem := store64 s.mem a x } := by
  refine h.congr hp (fun b hb => ?_) (fun i hi d hd b hb => ?_) fun y hy b hb => ?_
  · exact store64_apply_of_not_mem fun hab => by
      have := hab.1
      omega
  · have hapart := hap _ (List.mem_append_left _ (mem_freeCells.2 ⟨i, hi, d, hd, rfl⟩))
    have hlen := le_blockSize_of_lt hi
    exact store64_apply_of_not_mem (hapart.symm.not_inRange hb ⟨Nat.le_refl _, by dsimp only; omega⟩ ⟨ha, ha'⟩)
  · have hapart := hap _ (List.mem_append_right _ (List.mem_map.2 ⟨y, hy, rfl⟩))
    exact store64_apply_of_not_mem (hapart.symm.not_inRange hb
      ⟨Nat.le_refl _, Nat.add_le_add_left y.le_len _⟩ ⟨ha, ha'⟩)

/-- A new head for the pool `i`. -/
theorem PoolInv.setHead (h : PoolInv pools F live s) {i v : Nat} {l : List Nat} (hi : i < blockSizesLen)
    (hv : v < 2 ^ 64) (hc : Chain s.mem v l) (hlay : Layout s (cells (Function.update F i l) live)) :
    PoolInv pools (Function.update F i l) live
      { s with mem := store64 s.mem (headOf (poolAddr pools i)) v } := by
  have hbelow := hp.below
  have hheap : ∀ a, addrSpaceKernelHeapBase ≤ a →
      load64 (store64 s.mem (headOf (poolAddr pools i)) v) a = load64 s.mem a := fun a ha =>
    load64_store64_of_apart (by unfold headOf poolAddr; omega)
  have hnode : ∀ j, j < blockSizesLen → ∀ a ∈ Function.update F i l j, addrSpaceKernelHeapBase ≤ a :=
    fun j hj a ha => (hlay.inHeap _ (List.mem_append_left _ (mem_freeCells.2 ⟨j, hj, a, ha, rfl⟩))).lower
  refine ⟨hlay.withMem _, fun j hj => ?_, fun j hj => ?_, fun x hx => ?_, h.small⟩
  · rw [← h.table j hj]
    exact load64_store64_of_apart (by unfold headOf poolAddr; omega)
  · by_cases hji : j = i
    · subst hji
      have hself : load64 (store64 s.mem (headOf (poolAddr pools j)) v) (headOf (poolAddr pools j)) = v :=
        load64_store64_of_lt _ _ hv
      have hnode := hnode j hj
      rw [Function.update_self] at hnode ⊢
      dsimp only
      rw [hself]
      exact hc.congr fun a ha => hheap a (hnode a ha)
    · have hother : load64 (store64 s.mem (headOf (poolAddr pools i)) v) (headOf (poolAddr pools j)) =
          load64 s.mem (headOf (poolAddr pools j)) :=
        load64_store64_of_apart (by unfold headOf poolAddr; omega)
      have hnode := hnode j hj
      rw [Function.update_of_ne hji] at hnode ⊢
      dsimp only
      rw [hother]
      exact (h.chains j hj).congr fun a ha => hheap a (hnode a ha)
  · have hlow := (h.live_inHeap hx).lower
    refine (h.headers x hx).congr fun b hb => store64_apply_of_not_mem fun hab => ?_
    have h₁ := hab.2
    have h₂ := hb.1
    unfold headOf poolAddr at h₁
    unfold Live.cell at hlow
    dsimp only at hlow
    omega

/-- Pushing a cell on the free list of its pool. -/
theorem PoolInv.push (h : PoolInv pools F live s) {i b : Nat} (hi : i < blockSizesLen)
    (hin : (⟨b, blockSize i⟩ : Cell).InHeap s)
    (hap : ∀ d ∈ cells F live, (⟨b, blockSize i⟩ : Cell).Apart d) :
    PoolInv pools (Function.update F i (b :: F i)) live { s with
      mem := store64 (store64 s.mem b (load64 s.mem (headOf (poolAddr pools i))))
        (headOf (poolAddr pools i)) b } := by
  have hlen := le_blockSize_of_lt hi
  have hlow : addrSpaceKernelHeapBase ≤ b := hin.lower
  have hupper : b + blockSize i ≤ s.brk := hin.upper
  have hlimit := h.layout.limit
  have hw := h.writeApart hp hlow hap (Nat.le_refl b) (by omega)
    (load64 s.mem (headOf (poolAddr pools i)))
  have hb0 : b ≠ 0 := by
    unfold addrSpaceKernelHeapBase at hlow
    omega
  have hc : Chain (store64 s.mem b (load64 s.mem (headOf (poolAddr pools i)))) b (b :: F i) := by
    refine (h.chains i hi).push hb0 (load64_lt _ _) fun a ha => ?_
    have := hap _ (List.mem_append_left _ (mem_freeCells.2 ⟨i, hi, a, ha, rfl⟩))
    unfold Cell.Apart at this
    dsimp only at this
    omega
  refine hw.setHead hp hi (by omega) hc ?_
  exact ((h.layout.cons hin hap).perm (cells_push hi).symm).withMem _

omit hp in
/-- A cell becomes a live block once its header is written. -/
theorem PoolInv.adopt (h : PoolInv pools F live s) {x : Live} (hin : x.cell.InHeap s)
    (hap : ∀ d ∈ cells F live, x.cell.Apart d) (hhead : x.Header pools s.mem)
    (hsmall : x.size + 4112 < 2 ^ 31) : PoolInv pools F (x :: live) s where
  layout := (h.layout.cons hin hap).perm (cells_adopt x).symm
  table := h.table
  chains := h.chains
  headers y hy := (List.mem_cons.1 hy).elim (fun he => he ▸ hhead) (h.headers y)
  small y hy := (List.mem_cons.1 hy).elim (fun he => he ▸ hsmall) (h.small y)

omit hp in
/-- A live block is dropped; its cell is then apart from all the others. -/
theorem PoolInv.drop (h : PoolInv pools F live s) {x : Live} (hx : x ∈ live) :
    PoolInv pools F (live.erase x) s ∧ ∀ d ∈ cells F (live.erase x), x.cell.Apart d := by
  have hperm : (cells F live).Perm (x.cell :: cells F (live.erase x)) :=
    (((List.perm_cons_erase hx).map Live.cell).append_left _).trans (cells_adopt x)
  obtain ⟨hlay, -, hap⟩ := (h.layout.perm hperm).tail
  exact ⟨⟨hlay, h.table, h.chains, fun y hy => h.headers y (List.mem_of_mem_erase hy),
    fun y hy => h.small y (List.mem_of_mem_erase hy)⟩, hap⟩

/-- The first free block of a pool is taken off its list; its cell is then apart from all the
others. -/
theorem PoolInv.pop (h : PoolInv pools F live s) {i b : Nat} {l : List Nat} (hi : i < blockSizesLen)
    (hF : F i = b :: l) :
    PoolInv pools (Function.update F i l) live
        { s with mem := store64 s.mem (headOf (poolAddr pools i)) (load64 s.mem b) } ∧
      ∀ d ∈ cells (Function.update F i l) live, (⟨b, blockSize i⟩ : Cell).Apart d := by
  obtain ⟨hlay, -, hap⟩ := (h.layout.perm (cells_pop hi hF)).tail
  have hc := h.chains i hi
  rw [hF] at hc
  exact ⟨h.setHead hp hi (load64_lt _ _) hc.of_cons.2 hlay, hap⟩

end

end BanjOS
