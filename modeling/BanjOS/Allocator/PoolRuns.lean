import BanjOS.Allocator.Pools

/-!
# Runs of kmalloc and kfree

One spec lemma for each function of `allocator.c` over a flat virtual memory, and the run theorem: after
`init_alloc`, whatever the order of `kmalloc`, `kfree` of live pointers and writes of the clients inside
what they asked for, the live ranges are apart from each other, from the headers and from the free
blocks (`poolRun_sound`).
-/

namespace BanjOS

open ByteMem

/-! ## Refilling a pool -/

section
variable {s : Flat}

theorem Flat.accessible_low {v : Nat} (h : v < addrSpaceKernelHeapBase) : s.accessible v = true := by
  simp [accessible, h]

/-- The words of a cell can be accessed. -/
theorem Cell.InHeap.accessible {c : Cell} (h : c.InHeap s) {v : Nat} (hv : InRange c.addr c.len v) :
    s.accessible v = true := by
  simp [Flat.accessible, h.mapped v hv]

/-- What reserving `n` pages does. -/
structure FlatGrown (s s' : Flat) (n : Nat) : Prop where
  mem : s'.mem = s.mem
  brk : s'.brk = s.brk + pageSize * n
  limit : s'.brk ≤ 2 ^ 48
  mapped : ∀ p, s'.mapped p = true ↔
    s.mapped p = true ∨ s.brk ≤ pageSize * p ∧ pageSize * p < s.brk + pageSize * n

/-- Pages are reserved at the break, or the heap is full. -/
theorem Flat.reserve_pages (s : Flat) {n : Nat} {bytes : Int} (hn : bytes = pageSize * n) :
    s.reserve bytes = .error .outOfMemory ∨
      ∃ s', s.reserve bytes = .ok (s.brk, s') ∧ FlatGrown s s' n := by
  subst hn
  by_cases hb : (s.brk : Int) + pageSize * n ≤ 2 ^ 48
  · refine .inr ⟨_, if_pos hb, rfl, ?_, ?_, fun p => ?_⟩
    · dsimp only
      omega
    · dsimp only
      omega
    · simp only [Bool.or_eq_true, Bool.and_eq_true, decide_eq_true_eq]
      have : ((pageSize * p : Int) < s.brk + pageSize * n) ↔ pageSize * p < s.brk + pageSize * n := by
        omega
      rw [this]
  · exact .inl (if_neg hb)

/-- The cells stay where they are when the heap grows. -/
theorem Layout.grow {s' : Flat} {cs : List Cell} {n : Nat} (h : Layout s cs) (hg : FlatGrown s s' n) :
    Layout s' cs where
  apart := h.apart
  inHeap c hc :=
    have hin := h.inHeap c hc
    ⟨hin.lower, by have := hin.upper; have := hg.brk; omega,
      fun b hb => (hg.mapped _).2 (.inl (hin.mapped b hb)), hin.aligned⟩
  brk_mod := by
    rw [hg.brk, Nat.add_mul_mod_self_left]
    exact h.brk_mod
  base := by
    have := h.base
    rw [hg.brk]
    omega
  limit := hg.limit

/-- The new pages are mapped. -/
theorem FlatGrown.mapped_of_le {s' : Flat} {n : Nat} (hg : FlatGrown s s' n) (hs : s.brk % pageSize = 0) {b : Nat}
    (hb : s.brk ≤ b) (hb' : b < s.brk + pageSize * n) : s'.mapped (b / pageSize) = true :=
  (hg.mapped _).2 (.inr ⟨by unfold pageSize at *; omega, by unfold pageSize at *; omega⟩)

end

section
variable {pools : Nat} (hp : PoolsOK pools) {F : Nat → List Nat} {live : List Live} {s : Flat}

/-- The allocator does not see the heap grow. -/
theorem PoolInv.grow {s' : Flat} {n : Nat} (h : PoolInv pools F live s) (hg : FlatGrown s s' n) :
    PoolInv pools F live s' where
  layout := h.layout.grow hg
  table := by
    rw [hg.mem]
    exact h.table
  chains := by
    rw [hg.mem]
    exact h.chains
  headers := by
    rw [hg.mem]
    exact h.headers
  small := h.small

/-- All cells end at the break or before. -/
theorem PoolInv.le_brk (h : PoolInv pools F live s) {c : Cell} (hc : c ∈ cells F live) :
    c.addr + c.len ≤ s.brk := (h.layout.inHeap c hc).upper

include hp

/-- The `head` fields can be accessed. -/
theorem PoolsOK.accessible_head {i : Nat} (hi : i < blockSizesLen) :
    s.accessible (headOf (poolAddr pools i)) = true :=
  Flat.accessible_low (by have := hp.below; unfold headOf poolAddr; omega)

/-- The `max_size` fields can be accessed. -/
theorem PoolsOK.accessible_pool {i : Nat} (hi : i < blockSizesLen) :
    s.accessible (poolAddr pools i) = true :=
  Flat.accessible_low (by have := hp.below; unfold poolAddr; omega)

/-- One iteration of the carving loop. -/
theorem pushBlocks_succ {i b n : Nat} (hi : i < blockSizesLen) (hin : (⟨b, blockSize i⟩ : Cell).InHeap s) :
    pushBlocks (poolAddr pools i) (blockSize i) (n + 1) b s =
      pushBlocks (poolAddr pools i) (blockSize i) n (b + blockSize i) { s with
        mem := store64 (store64 s.mem b (load64 s.mem (headOf (poolAddr pools i))))
          (headOf (poolAddr pools i)) b } := by
  have hlen := le_blockSize_of_lt hi
  have hb : s.accessible b = true := hin.accessible ⟨Nat.le_refl _, by dsimp only; omega⟩
  rw [pushBlocks, Flat.load_eq (hp.accessible_head hi)]
  simp only [bind, Except.bind]
  rw [Flat.store_eq hb]
  simp only
  rw [Flat.store_eq (hp.accessible_head hi)]

/-- The carving loop pushes `n` blocks that lie past all cells. -/
theorem PoolInv.pushBlocks {i : Nat} (hi : i < blockSizesLen) :
    ∀ (n b : Nat) (F : Nat → List Nat) (s : Flat), PoolInv pools F live s →
      (∀ c ∈ cells F live, c.addr + c.len ≤ b) → addrSpaceKernelHeapBase ≤ b →
      b + blockSize i * n ≤ s.brk → b % blockSize i = 0 →
      (∀ a, InRange b (blockSize i * n) a → s.mapped (a / pageSize) = true) →
      ∃ s' l, pushBlocks (poolAddr pools i) (blockSize i) n b s = .ok s' ∧ l.length = n ∧
        PoolInv pools (Function.update F i (l ++ F i)) live s' := by
  intro n
  induction n with
  | zero =>
    intro b F s h _ _ _ _ _
    exact ⟨s, [], rfl, rfl, by rwa [List.nil_append, Function.update_eq_self]⟩
  | succ n ih =>
    intro b F s h hend hlow hup hal hmap
    have hlen := le_blockSize_of_lt hi
    have hcases := blockSize_cases hi
    have hmin : min (blockSize i) pageSize = blockSize i := Nat.min_eq_left (by unfold pageSize; omega)
    rw [Nat.mul_succ] at hup hmap
    have hin : (⟨b, blockSize i⟩ : Cell).InHeap s :=
      ⟨hlow, by dsimp only; omega, fun a ha => hmap a (ha.mono (Nat.le_refl _) (by dsimp only; omega)),
        by dsimp only; rwa [hmin]⟩
    have hpush := h.push hp hi hin fun d hd => .inr (hend d hd)
    rw [pushBlocks_succ hp hi hin]
    obtain ⟨s', l, hrun, hl, hinv⟩ := ih (b + blockSize i) _ _ hpush
      (fun c hc => by
        rcases List.mem_cons.1 ((cells_push hi).mem_iff.1 hc) with rfl | hc
        · exact Nat.le_refl _
        · exact (hend c hc).trans (Nat.le_add_right _ _))
      (by omega) (by dsimp only; omega) (by rw [Nat.add_mod_right]; exact hal)
      fun a ha => hmap a (ha.mono (by omega) (by omega))
    refine ⟨s', l ++ [b], hrun, by simp [hl], ?_⟩
    rwa [Function.update_self, Function.update_idem, List.append_cons] at hinv

/-- `pool_allocate_page` puts a page of blocks on the list of its pool, or the heap is full. -/
theorem PoolInv.poolAllocatePage (h : PoolInv pools F live s) {i : Nat} (hi : i < blockSizesLen) :
    poolAllocatePage (poolAddr pools i) s = .error .outOfMemory ∨
      ∃ s' l, poolAllocatePage (poolAddr pools i) s = .ok s' ∧ l.length = pageSize / blockSize i ∧
        PoolInv pools (Function.update F i (l ++ F i)) live s' := by
  obtain he | ⟨s₁, hres, hg⟩ := s.reserve_pages (n := 1) rfl
  · exact .inl (Except.bind_eq_error.2 (.inl he))
  · have h₁ := h.grow hg
    have hcases := blockSize_cases hi
    have hsize : (load64 s₁.mem (poolAddr pools i) + headerSize) % 2 ^ 64 = blockSize i := by
      rw [h₁.table i hi]
      unfold headerSize
      omega
    have hdvd : pageSize % blockSize i = 0 := by
      unfold pageSize
      rcases hcases with h | h | h | h | h | h <;> rw [h]
    have hcount : blockSize i * ((pageSize + (blockSize i - 1)) / blockSize i) = pageSize ∧
        (pageSize + (blockSize i - 1)) / blockSize i = pageSize / blockSize i := by
      unfold pageSize
      rcases hcases with h | h | h | h | h | h <;> rw [h] <;> decide
    have hmod := h.layout.brk_mod
    obtain ⟨s', l, hrun, hl, hinv⟩ := PoolInv.pushBlocks hp hi
      ((pageSize + (blockSize i - 1)) / blockSize i) s.brk F s₁ h₁ (fun c hc => h.le_brk hc)
      h.layout.base (by rw [hcount.1, hg.brk, Nat.mul_one])
      (Nat.mod_eq_zero_of_dvd ((Nat.dvd_of_mod_eq_zero hdvd).trans (Nat.dvd_of_mod_eq_zero hmod)))
      fun a ha => hg.mapped_of_le hmod ha.1 (by have hlt := ha.2; rwa [hcount.1] at hlt)
    refine .inr ⟨s', l, Except.bind_eq_ok.2 ⟨_, hres, ?_⟩, hl.trans hcount.2, hinv⟩
    refine Except.bind_eq_ok.2 ⟨_, Flat.load_eq (hp.accessible_pool hi), ?_⟩
    dsimp only
    rw [hsize, if_neg (not_not.2 hdvd)]
    exact hrun

/-! ## Requests -/

omit hp in
/-- The search loop finds the pool of the request. -/
theorem PoolInv.findPool (hp : PoolsOK pools) (h : PoolInv pools F live s) (size : Nat) :
    ∀ n i, i + n = blockSizesLen → findPool pools size n i s =
      .ok (i + (blockSizes.drop i).findIdx fun b => decide (size ≤ b - headerSize), s) := by
  intro n
  induction n with
  | zero =>
    intro i hi
    obtain rfl : i = blockSizesLen := hi
    rfl
  | succ n ih =>
    intro i hi
    have hlt : i < blockSizesLen := by omega
    have hdrop : blockSizes.drop i = blockSize i :: blockSizes.drop (i + 1) := by
      have hlt' : i < blockSizes.length := hlt
      rw [blockSize, List.getD_eq_getElem?_getD, List.getElem?_eq_getElem hlt', Option.getD_some]
      exact List.drop_eq_getElem_cons hlt'
    refine Except.bind_eq_ok.2 ⟨_, Flat.load_eq (hp.accessible_pool hlt), ?_⟩
    dsimp only
    rw [h.table i hlt, hdrop, List.findIdx_cons]
    by_cases hle : size ≤ blockSize i - headerSize
    · rw [if_neg (Nat.not_lt.2 hle), decide_eq_true hle]
      rfl
    · rw [if_pos (Nat.lt_of_not_le hle), ih (i + 1) (by omega), decide_eq_false hle, cond_false,
        Nat.add_right_comm, Nat.add_assoc]

/-- A request of `size` bytes is served, or the heap is full. -/
def Served (pools : Nat) (live : List Live) (size : Nat) (r : Except Stop (Nat × Flat)) : Prop :=
  r = .error .outOfMemory ∨
    ∃ p s' F, r = .ok (p, s') ∧ PoolInv pools F (⟨p, size⟩ :: live) s'

omit hp in
@[simp] theorem Live.block_mk (b size : Nat) : (⟨b + headerSize, size⟩ : Live).block = b :=
  Nat.add_sub_cancel ..

/-- Writing the header makes a cell a live block. -/
theorem PoolInv.writeHeader (h : PoolInv pools F live s) {b size : Nat} (w₀ w₈ : Nat)
    (hin : (⟨b, blockLen size⟩ : Cell).InHeap s)
    (hap : ∀ d ∈ cells F live, (⟨b, blockLen size⟩ : Cell).Apart d) (hsmall : size + 4112 < 2 ^ 31)
    (hw : if poolIndex size < blockSizesLen then w₀ = poolAddr pools (poolIndex size) ∧ w₈ = 0
      else w₀ = 0 ∧ w₈ = size + headerSize) :
    PoolInv pools F (⟨b + headerSize, size⟩ :: live)
      { s with mem := store64 (store64 s.mem b w₀) (b + 8) w₈ } := by
  have hlen : size + 16 ≤ blockLen size := le_blockLen size
  have hbelow := hp.below
  have hlow : addrSpaceKernelHeapBase ≤ b := hin.lower
  have hlt : w₀ < 2 ^ 64 ∧ w₈ < 2 ^ 64 := by
    unfold addrSpaceKernelHeapBase at hbelow
    split at hw <;> obtain ⟨rfl, rfl⟩ := hw
    · exact ⟨by unfold poolAddr; omega, by omega⟩
    · exact ⟨by omega, by unfold headerSize; omega⟩
  have h₁ := h.writeApart hp hlow hap (Nat.le_refl b) (by omega) w₀
  have h₂ := h₁.writeApart hp hlow hap (Nat.le_add_right b 8) (by omega) w₈
  have hfirst : load64 (store64 (store64 s.mem b w₀) (b + 8) w₈) b = w₀ := by
    rw [load64_store64_of_apart (by omega), load64_store64_of_lt _ _ hlt.1]
  have hsecond := load64_store64_of_lt (store64 s.mem b w₀) (b + 8) hlt.2
  refine h₂.adopt ?_ ?_ ?_ hsmall
  · unfold Live.cell
    rw [Live.block_mk]
    exact ⟨hin.lower, hin.upper, hin.mapped, hin.aligned⟩
  · unfold Live.cell
    rw [Live.block_mk]
    exact hap
  · unfold Live.Header
    rw [Live.block_mk, hfirst, hsecond]
    exact hw

/-- Taking a block of a pool that is not empty. -/
theorem PoolInv.takeBlock (h : PoolInv pools F live s) {size b : Nat} {l : List Nat}
    (hi : poolIndex size < blockSizesLen) (hF : F (poolIndex size) = b :: l)
    (hsmall : size + 4112 < 2 ^ 31) :
    ∃ s', takeBlock (poolAddr pools (poolIndex size)) s = .ok (b + headerSize, s') ∧
      PoolInv pools (Function.update F (poolIndex size) l) (⟨b + headerSize, size⟩ :: live) s' := by
  have hlen := le_blockSize_of_lt hi
  have hcell : blockLen size = blockSize (poolIndex size) := if_pos hi
  have hmem : b ∈ F (poolIndex size) := by
    rw [hF]
    exact .head l
  have hin := h.free_inHeap hi hmem
  have hacc : ∀ (mem : Mem) (v : Nat), InRange b 32 v → ({ s with mem } : Flat).accessible v = true :=
    fun _ v hv => hin.accessible (v := v) (hv.mono (Nat.le_refl _) (by dsimp only; omega))
  obtain ⟨hpop, hap⟩ := h.pop hp hi hF
  have hchain := h.chains _ hi
  rw [hF] at hchain
  have hupper : b + blockSize (poolIndex size) ≤ s.brk := hin.upper
  have hlimit := h.layout.limit
  have hptr : (b + headerSize) % 2 ^ 64 = b + headerSize := Nat.mod_eq_of_lt (by unfold headerSize; omega)
  rw [← hcell] at hin hap
  have hinv := hpop.writeHeader hp (poolAddr pools (poolIndex size)) 0
    ⟨hin.lower, hin.upper, hin.mapped, hin.aligned⟩ hap hsmall (by rw [if_pos hi]; exact ⟨rfl, rfl⟩)
  refine ⟨_, Except.bind_eq_ok.2 ⟨_, Flat.load_eq (hp.accessible_head hi), ?_⟩, hinv⟩
  dsimp only
  rw [hchain.of_cons.1]
  refine Except.bind_eq_ok.2 ⟨_, Flat.load_eq (hacc s.mem b ⟨by omega, by omega⟩), ?_⟩
  refine Except.bind_eq_ok.2 ⟨_, Flat.store_eq (hp.accessible_head hi) _, ?_⟩
  refine Except.bind_eq_ok.2 ⟨_, Flat.store_eq (hacc _ b ⟨by omega, by omega⟩) _, ?_⟩
  refine Except.bind_eq_ok.2 ⟨_, Flat.store_eq (hacc _ (b + 8) ⟨by omega, by omega⟩) _, ?_⟩
  rw [hptr]

/-- The free blocks after a request of `size` bytes: one of its pool is gone, after a page of them came in if there
was none. -/
def FreeAfter (F F' : Nat → List Nat) (size : Nat) : Prop :=
  ∀ i, i < blockSizesLen → (F' i).length + (if poolIndex size = i then 1 else 0) =
    (F i).length + if poolIndex size = i ∧ F i = [] then pageSize / blockSize i else 0

omit hp in
/-- Only the pool of the request changes. -/
theorem freeAfter_update {size : Nat} {l : List Nat} (hl : l.length + 1 = (F (poolIndex size)).length +
    if F (poolIndex size) = [] then pageSize / blockSize (poolIndex size) else 0) :
    FreeAfter F (Function.update F (poolIndex size) l) size := by
  intro i hi
  by_cases hsize : poolIndex size = i
  · subst hsize
    simpa using hl
  · simp [Function.update_of_ne (Ne.symm hsize), hsize]

/-- The pool branch of `kmalloc`. -/
theorem PoolInv.kmallocPool (h : PoolInv pools F live s) {size : Nat}
    (hi : poolIndex size < blockSizesLen) (hsmall : size + 4112 < 2 ^ 31) :
    kmallocPool (poolAddr pools (poolIndex size)) s = .error .outOfMemory ∨
      ∃ p s' F', kmallocPool (poolAddr pools (poolIndex size)) s = .ok (p, s') ∧
        PoolInv pools F' (⟨p, size⟩ :: live) s' ∧ FreeAfter F F' size := by
  have hload := Flat.load_eq (hp.accessible_head (s := s) hi)
  have hchain := h.chains _ hi
  cases hF : F (poolIndex size) with
  | nil =>
    have hhead : load64 s.mem (headOf (poolAddr pools (poolIndex size))) = 0 := by
      rw [hF] at hchain
      exact hchain.head_nil
    obtain he | ⟨s₁, l, hrun, hl, h₁⟩ := h.poolAllocatePage hp hi
    · refine .inl (Except.bind_eq_error.2 (.inr ⟨_, hload, Except.bind_eq_error.2 (.inl ?_)⟩))
      exact (if_pos hhead).trans he
    · have hcases := blockSize_cases hi
      have hpos : l ≠ [] := by
        rintro rfl
        unfold pageSize at hl
        rcases hcases with h | h | h | h | h | h <;> rw [h] at hl <;> cases hl
      obtain ⟨b, l, rfl⟩ := List.exists_cons_of_ne_nil hpos
      obtain ⟨s', hok, hinv⟩ := h₁.takeBlock hp hi (by rw [Function.update_self, hF, List.append_nil]) hsmall
      rw [Function.update_idem] at hinv
      refine .inr ⟨_, s', _, ?_, hinv, freeAfter_update ?_⟩
      · rw [BanjOS.kmallocPool, hload]
        simp only [bind, Except.bind]
        rw [if_pos hhead, hrun]
        exact hok
      · rw [hF, if_pos rfl, List.length_nil, Nat.zero_add, ← hl, List.length_cons]
  | cons b l =>
    have hhead : load64 s.mem (headOf (poolAddr pools (poolIndex size))) ≠ 0 := by
      rw [hF] at hchain
      rw [hchain.of_cons.1]
      exact hchain.ne_zero (.head l)
    obtain ⟨s', hok, hinv⟩ := h.takeBlock hp hi hF hsmall
    refine .inr ⟨_, s', _, ?_, hinv, freeAfter_update ?_⟩
    · rw [BanjOS.kmallocPool, hload]
      simp only [bind, Except.bind]
      rw [if_neg hhead]
      exact hok
    · rw [hF, if_neg (List.cons_ne_nil b l), List.length_cons, Nat.add_zero]

omit hp in
/-- The pages of a dedicated request. -/
theorem numPages_bounds {size : Nat} (hsmall : size + 4112 < 2 ^ 31) :
    pageBytes (toInt (numPages (size + headerSize))) = pageSize * numPages (size + headerSize) ∧
      pageSize * numPages (size + headerSize) < 2 ^ 31 := by
  have hlt : pageSize * numPages (size + headerSize) < 2 ^ 31 := by
    unfold numPages pageSize headerSize
    split <;> omega
  rw [toInt_of_lt (by unfold pageSize at hlt; omega)]
  exact ⟨pageBytes_natCast hlt, hlt⟩

/-- The branch of `kmalloc` for pages of its own. -/
theorem PoolInv.kmallocDedicated (h : PoolInv pools F live s) {size : Nat}
    (hi : poolIndex size = blockSizesLen) (hsmall : size + 4112 < 2 ^ 31) :
    kmallocDedicated size s = .error .outOfMemory ∨
      ∃ p s', kmallocDedicated size s = .ok (p, s') ∧ PoolInv pools F (⟨p, size⟩ :: live) s' := by
  have hcell : blockLen size = pageSize * numPages (size + headerSize) := if_neg (by omega)
  have hsize : (size + headerSize) % 2 ^ 64 = size + headerSize :=
    Nat.mod_eq_of_lt (by unfold headerSize; omega)
  obtain ⟨hbytes, hlt⟩ := numPages_bounds hsmall
  obtain he | ⟨s₁, hres, hg⟩ := s.reserve_pages hbytes
  · refine .inl (Except.bind_eq_error.2 (.inl ?_))
    rw [hsize]
    exact he
  · have h₁ := h.grow hg
    have hmod := h.layout.brk_mod
    have hlen : size + 16 ≤ blockLen size := le_blockLen size
    have hin : (⟨s.brk, blockLen size⟩ : Cell).InHeap s₁ := by
      refine ⟨h.layout.base, ?_, fun b hb => ?_, ?_⟩
      · dsimp only
        rw [hg.brk, hcell]
      · exact hg.mapped_of_le hmod hb.1 (hcell ▸ hb.2)
      · dsimp only
        rw [hcell, Nat.min_eq_right (by unfold pageSize at *; omega)]
        exact hmod
    have hacc : ∀ (mem : Mem) (v : Nat), InRange s.brk 16 v →
        ({ s₁ with mem } : Flat).accessible v = true :=
      fun _ v hv => hin.accessible (v := v) (hv.mono (Nat.le_refl _) (by dsimp only; omega))
    have hlimit := hg.limit
    have hupper : s.brk + blockLen size ≤ s₁.brk := hin.upper
    have hptr : (s.brk + headerSize) % 2 ^ 64 = s.brk + headerSize :=
      Nat.mod_eq_of_lt (by unfold headerSize; omega)
    have hinv := h₁.writeHeader hp 0 (size + headerSize) hin (fun d hd => .inr (h.le_brk hd)) hsmall
      (by rw [if_neg (by omega)]; exact ⟨rfl, rfl⟩)
    refine .inr ⟨s.brk + headerSize, _, Except.bind_eq_ok.2 ⟨(s.brk, s₁), ?_, ?_⟩, hinv⟩
    · rw [hsize]
      exact hres
    · refine Except.bind_eq_ok.2 ⟨_, Flat.store_eq (hacc s₁.mem s.brk ⟨by omega, by omega⟩) _, ?_⟩
      refine Except.bind_eq_ok.2 ⟨_, Flat.store_eq (hacc _ (s.brk + 8) ⟨by omega, by omega⟩) _, ?_⟩
      dsimp only
      rw [hptr, hsize]

omit hp in
/-- A dedicated request leaves the free blocks alone. -/
theorem freeAfter_dedicated {size : Nat} (hi : poolIndex size = blockSizesLen) : FreeAfter F F size := by
  intro i hlt
  have hne : poolIndex size ≠ i := by omega
  simp [hne]

/-- The search of `kmalloc` decides the branch. -/
theorem PoolInv.kmalloc_eq (h : PoolInv pools F live s) (size : Nat) :
    BanjOS.kmalloc pools size s =
      if poolIndex size < blockSizesLen then BanjOS.kmallocPool (poolAddr pools (poolIndex size)) s
      else BanjOS.kmallocDedicated size s := by
  have hfind := h.findPool hp size blockSizesLen 0 rfl
  rw [Nat.zero_add] at hfind
  rw [BanjOS.kmalloc, hfind]
  rfl

/-- What `kmalloc` does to the free blocks, unless the heap is full. -/
theorem PoolInv.kmalloc_lists (h : PoolInv pools F live s) {size : Nat} (hsmall : size + 4112 < 2 ^ 31) :
    BanjOS.kmalloc pools size s = .error .outOfMemory ∨
      ∃ p s' F', BanjOS.kmalloc pools size s = .ok (p, s') ∧
        PoolInv pools F' (⟨p, size⟩ :: live) s' ∧ FreeAfter F F' size := by
  have hle := poolIndex_le size
  rw [h.kmalloc_eq hp]
  split
  · next hi => exact h.kmallocPool hp hi hsmall
  · have hi : poolIndex size = blockSizesLen := by omega
    obtain he | ⟨p, s', hok, hinv⟩ := h.kmallocDedicated hp hi hsmall
    · exact .inl he
    · exact .inr ⟨p, s', F, hok, hinv, freeAfter_dedicated hi⟩

/-- `kmalloc` serves every request, or the heap is full. -/
theorem PoolInv.kmalloc (h : PoolInv pools F live s) {size : Nat} (hsmall : size + 4112 < 2 ^ 31) :
    Served pools live size (kmalloc pools size s) := by
  obtain he | ⟨p, s', F', hok, hinv, -⟩ := h.kmalloc_lists hp hsmall
  · exact .inl he
  · exact .inr ⟨p, s', F', hok, hinv⟩

/-! ## Frees -/

omit hp in
/-- Where the block of a live request is. -/
theorem PoolInv.ptr_eq (h : PoolInv pools F live s) {x : Live} (hx : x ∈ live) :
    x.ptr = x.block + headerSize ∧ x.block + blockLen x.size ≤ 2 ^ 48 := by
  have hin := h.live_inHeap hx
  have hlow : addrSpaceKernelHeapBase ≤ x.block := hin.lower
  have hup : x.block + blockLen x.size ≤ s.brk := hin.upper
  have hlimit := h.layout.limit
  refine ⟨?_, by omega⟩
  unfold Live.block addrSpaceKernelHeapBase headerSize at *
  omega

omit hp in
/-- Giving back the pages of a cell of whole pages keeps the cells apart from it. -/
theorem Layout.release {cs : List Cell} {b n v : Nat} {bytes : Int} (h : Layout s cs)
    (hb : b % pageSize = 0) (hap : ∀ d ∈ cs, (⟨b, pageSize * n⟩ : Cell).Apart d)
    (hv : v / pageSize = b / pageSize) (hbytes : bytes = pageSize * n) :
    Layout (s.release v bytes) cs := by
  refine ⟨h.apart, fun c hc => ⟨(h.inHeap c hc).lower, (h.inHeap c hc).upper, fun a ha => ?_,
    (h.inHeap c hc).aligned⟩, h.brk_mod, h.base, h.limit⟩
  have hm := (h.inHeap c hc).mapped a ha
  have hapart := hap c hc
  have h₁ := ha.1
  have h₂ := ha.2
  simp only [Flat.release, hm, Bool.true_and, Bool.not_eq_true', Bool.and_eq_false_iff,
    decide_eq_false_iff_not]
  unfold Cell.Apart at hapart
  unfold pageSize at *
  dsimp only at hapart
  omega

omit hp in
/-- The first word of a live block, and the bounds `kfree` needs. -/
theorem PoolInv.kfree_block (h : PoolInv pools F live s) {x : Live} (hx : x ∈ live) :
    (x.ptr + (2 ^ 64 - headerSize)) % 2 ^ 64 = x.block ∧ s.accessible x.block = true ∧
      s.accessible (x.block + 8) = true := by
  obtain ⟨hptr, hup⟩ := h.ptr_eq hx
  have hlen : headerSize ≤ blockLen x.size := x.le_len
  have hin := h.live_inHeap hx
  unfold headerSize at *
  exact ⟨by omega, hin.accessible ⟨Nat.le_refl _, by unfold Live.cell; dsimp only; omega⟩,
    hin.accessible ⟨by unfold Live.cell; dsimp only; omega, by unfold Live.cell; dsimp only; omega⟩⟩

/-- `kfree` of a block of a pool puts it back on the list of its pool. -/
theorem PoolInv.kfree_pool (h : PoolInv pools F live s) {x : Live} (hx : x ∈ live)
    (hi : poolIndex x.size < blockSizesLen) :
    ∃ s', kfree x.ptr s = .ok s' ∧ PoolInv pools
      (Function.update F (poolIndex x.size) (x.block :: F (poolIndex x.size))) (live.erase x) s' := by
  obtain ⟨hblock, hacc₀, hacc₈⟩ := h.kfree_block hx
  obtain ⟨hinv, hap⟩ := h.drop hx
  have hin := h.live_inHeap hx
  have hhead := h.headers x hx
  have hcell : x.cell = ⟨x.block, blockSize (poolIndex x.size)⟩ := by
    rw [Live.cell, blockLen, if_pos hi]
  rw [hcell] at hin hap
  rw [Live.Header, if_pos hi] at hhead
  have hne : poolAddr pools (poolIndex x.size) ≠ 0 := by
    have := hp.pos
    unfold poolAddr
    omega
  refine ⟨_, Except.bind_eq_ok.2 ⟨_, hblock ▸ Flat.load_eq hacc₀, ?_⟩, hinv.push hp hi hin hap⟩
  refine Except.bind_eq_ok.2 ⟨_, hblock ▸ Flat.load_eq hacc₈, ?_⟩
  dsimp only
  rw [hblock, hhead.1, if_pos hne]
  refine Except.bind_eq_ok.2 ⟨_, Flat.load_eq (hp.accessible_head hi), ?_⟩
  refine Except.bind_eq_ok.2 ⟨_, Flat.store_eq hacc₀ _, ?_⟩
  exact Flat.store_eq (hp.accessible_head hi) _

omit hp in
/-- `kfree` of a dedicated block gives back its pages. -/
theorem PoolInv.kfree_dedicated (h : PoolInv pools F live s) {x : Live} (hx : x ∈ live)
    (hi : ¬ poolIndex x.size < blockSizesLen) :
    ∃ s', kfree x.ptr s = .ok s' ∧ PoolInv pools F (live.erase x) s' := by
  obtain ⟨hblock, hacc₀, hacc₈⟩ := h.kfree_block hx
  obtain ⟨hinv, hap⟩ := h.drop hx
  have hin := h.live_inHeap hx
  have hhead := h.headers x hx
  have hcell : x.cell = ⟨x.block, pageSize * numPages (x.size + headerSize)⟩ := by
    rw [Live.cell, blockLen, if_neg hi]
  rw [hcell] at hin hap
  rw [Live.Header, if_neg hi] at hhead
  have hal : x.block % pageSize = 0 := by
    have hpages := le_numPages (x.size + headerSize)
    have := hin.aligned
    rwa [Nat.min_eq_right (by unfold pageSize headerSize at *; dsimp only; omega)] at this
  have hv : x.ptr / pageSize = x.block / pageSize := by
    rw [(h.ptr_eq hx).1]
    unfold pageSize headerSize at *
    omega
  have hlay := hinv.layout.release hal hap hv (numPages_bounds (h.small x hx)).1
  refine ⟨s.release x.ptr (pageBytes (toInt (numPages (x.size + headerSize)))), ?_, hlay, hinv.table,
    hinv.chains, hinv.headers, hinv.small⟩
  refine Except.bind_eq_ok.2 ⟨_, hblock ▸ Flat.load_eq hacc₀, ?_⟩
  refine Except.bind_eq_ok.2 ⟨_, hblock ▸ Flat.load_eq hacc₈, ?_⟩
  dsimp only
  rw [hblock, hhead.1, hhead.2, if_neg (not_not.2 rfl)]
  rfl

/-- `kfree` of a live pointer returns, the request is gone, and the free blocks of its pool are one more. -/
theorem PoolInv.kfree (h : PoolInv pools F live s) {x : Live} (hx : x ∈ live) :
    ∃ s' F', kfree x.ptr s = .ok s' ∧ PoolInv pools F' (live.erase x) s' ∧
      ∀ i, i < blockSizesLen → (F' i).length = (F i).length + if poolIndex x.size = i then 1 else 0 := by
  by_cases hi : poolIndex x.size < blockSizesLen
  · obtain ⟨s', hok, hinv⟩ := h.kfree_pool hp hx hi
    refine ⟨s', _, hok, hinv, fun i _ => ?_⟩
    by_cases hix : poolIndex x.size = i
    · subst hix
      rw [Function.update_self, if_pos rfl, List.length_cons]
    · rw [Function.update_of_ne (Ne.symm hix), if_neg hix, Nat.add_zero]
  · obtain ⟨s', hok, hinv⟩ := h.kfree_dedicated hx hi
    refine ⟨s', F, hok, hinv, fun i hlt => ?_⟩
    rw [if_neg (by omega), Nat.add_zero]

/-! ## The clients -/

omit hp in
/-- Different live blocks are apart. -/
theorem PoolInv.live_apart (h : PoolInv pools F live s) {x y : Live} (hx : x ∈ live) (hy : y ∈ live)
    (hne : x ≠ y) : x.cell.Apart y.cell := by
  have hpw := List.pairwise_map.1 (List.pairwise_append.1 h.layout.apart).2.1
  have : Std.Symm fun x y : Live => x.cell.Apart y.cell := ⟨fun _ _ h => h.symm⟩
  exact hpw.forall hx hy hne

omit hp in
/-- Free blocks are apart from live ones. -/
theorem PoolInv.free_apart (h : PoolInv pools F live s) {i a : Nat} {x : Live} (hi : i < blockSizesLen)
    (ha : a ∈ F i) (hx : x ∈ live) : (⟨a, blockSize i⟩ : Cell).Apart x.cell :=
  (List.pairwise_append.1 h.layout.apart).2.2 _ (mem_freeCells.2 ⟨i, hi, a, ha, rfl⟩) _
    (List.mem_map.2 ⟨x, hx, rfl⟩)

omit hp in
/-- The range of a request follows its header and ends inside its block. -/
theorem PoolInv.payload_in (h : PoolInv pools F live s) {x : Live} (hx : x ∈ live) :
    x.ptr = x.block + headerSize ∧ x.ptr + x.size ≤ x.cell.addr + x.cell.len ∧ x.cell.addr = x.block := by
  have hlen := le_blockLen x.size
  have hptr := (h.ptr_eq hx).1
  refine ⟨hptr, ?_, rfl⟩
  unfold Live.cell
  dsimp only
  omega

/-- Writes of the clients inside their ranges. -/
theorem PoolInv.clientWrite (h : PoolInv pools F live s) {mem : Mem}
    (hw : ∀ b, (∀ x ∈ live, ¬ InRange x.ptr x.size b) → mem b = s.mem b) :
    PoolInv pools F live { s with mem } := by
  refine h.congr hp (fun b hb => hw b fun x hx hxb => ?_)
    (fun i hi a ha b hb => hw b fun x hx hxb => ?_) fun y hy b hb => hw b fun x hx hxb => ?_
  all_goals
    obtain ⟨hptr, hend, haddr⟩ := h.payload_in hx
    have hin : x.cell.addr ≤ x.ptr := by omega
  · have hlow := (h.live_inHeap hx).lower
    have hle := hxb.1
    omega
  · have hlen := le_blockSize_of_lt hi
    exact (h.free_apart hi ha hx).not_inRange hb ⟨Nat.le_refl _, by dsimp only; omega⟩ ⟨hin, hend⟩ hxb
  · by_cases hxy : x = y
    · subst hxy
      exact hb.not_of_apart (.inl (Nat.le_of_eq hptr.symm)) hxb
    · exact (h.live_apart hx hy hxy).symm.not_inRange hb
        ⟨Nat.le_refl _, Nat.add_le_add_left y.le_len _⟩ ⟨hin, hend⟩ hxb

/-! ## Start -/

omit hp in
/-- The loop of `init_alloc` writes the entries of the table from `i` on and nothing before them. -/
theorem initPools_eq (hp : PoolsOK pools) :
    ∀ (sizes : List Nat) (i : Nat) (s : Flat), (∀ n ∈ sizes, n < 2 ^ 64) → i + sizes.length ≤ blockSizesLen →
      ∃ mem, initPools pools sizes i s = .ok { s with mem } ∧
        (∀ a, a + 8 ≤ poolAddr pools i → load64 mem a = load64 s.mem a) ∧
        ∀ j, j < sizes.length →
          load64 mem (poolAddr pools (i + j)) = sizes.getD j 0 - headerSize ∧
            load64 mem (headOf (poolAddr pools (i + j))) = 0 := by
  intro sizes
  induction sizes with
  | nil =>
    intro i s _ _
    exact ⟨s.mem, rfl, fun _ _ => rfl, nofun⟩
  | cons n sizes ih =>
    intro i s hsizes hi
    rw [List.length_cons] at hi
    have hn := hsizes n (.head _)
    have hnext : poolAddr pools (i + 1) = poolAddr pools i + 16 := rfl
    have hhead : headOf (poolAddr pools i) = poolAddr pools i + 8 := rfl
    obtain ⟨mem, hrun, hbefore, hfrom⟩ := ih (i + 1)
      { s with mem := store64 (store64 s.mem (poolAddr pools i) (n - headerSize)) (headOf (poolAddr pools i)) 0 }
      (fun k hk => hsizes k (.tail _ hk)) (by omega)
    refine ⟨mem, ?_, fun a ha => ?_, fun j hj => ?_⟩
    · refine Except.bind_eq_ok.2 ⟨_, Flat.store_eq (hp.accessible_pool (by omega)) _, ?_⟩
      exact Except.bind_eq_ok.2 ⟨_, Flat.store_eq (hp.accessible_head (by omega)) _, hrun⟩
    · rw [hbefore a (by omega), load64_store64_of_apart (by omega), load64_store64_of_apart (by omega)]
    · cases j with
      | zero =>
        have hfirst : load64 mem (poolAddr pools i) = n - headerSize := by
          rw [hbefore _ (by omega), load64_store64_of_apart (by omega),
            load64_store64_of_lt _ _ (by omega)]
        have hsecond : load64 mem (headOf (poolAddr pools i)) = 0 := by
          rw [hbefore _ (by omega), load64_store64_of_lt _ _ (by omega)]
        exact ⟨hfirst, hsecond⟩
      | succ j =>
        have hrest := hfrom j (Nat.lt_of_succ_lt_succ hj)
        rw [Nat.add_assoc, Nat.add_comm 1 j] at hrest
        exact hrest

/-- The kernel before `init_alloc`: the break is at a page of the heap. -/
structure FlatBoot (s : Flat) : Prop where
  brk_mod : s.brk % pageSize = 0
  base : addrSpaceKernelHeapBase ≤ s.brk
  limit : s.brk ≤ 2 ^ 48
  unmapped : ∀ n, s.mapped n = false

/-- `init_alloc` starts the allocator with empty pools. -/
theorem initAlloc_poolInv (hs : FlatBoot s) :
    ∃ mem, initAlloc pools s = .ok { s with mem } ∧ PoolInv pools (fun _ => []) [] { s with mem } := by
  obtain ⟨mem, hrun, -, hfrom⟩ := initPools_eq hp blockSizes 0 s (by decide) (by decide)
  refine ⟨mem, hrun, ⟨.nil, nofun, hs.brk_mod, hs.base, hs.limit⟩, fun i hi => ?_, fun i hi => ?_,
    nofun, nofun⟩
  · have := (hfrom i hi).1
    rwa [Nat.zero_add] at this
  · have := (hfrom i hi).2
    rw [Nat.zero_add] at this
    dsimp only
    rw [this]
    exact .nil

end

/-! ## Runs -/

/-- The virtual memory and the requests that are live in it. -/
structure PoolState where
  flat : Flat
  live : List Live

/-- One step of the clients: a request, the free of a live pointer, or writes inside the ranges asked
for. -/
inductive PoolStep (pools : Nat) : PoolState → PoolState → Prop
  | malloc {s s' : Flat} {live : List Live} {size p : Nat} : size + 4112 < 2 ^ 31 →
      kmalloc pools size s = .ok (p, s') → PoolStep pools ⟨s, live⟩ ⟨s', ⟨p, size⟩ :: live⟩
  | free {s s' : Flat} {live : List Live} {x : Live} : x ∈ live → kfree x.ptr s = .ok s' →
      PoolStep pools ⟨s, live⟩ ⟨s', live.erase x⟩
  | write {s : Flat} {live : List Live} {mem : Mem} :
      (∀ b, (∀ x ∈ live, ¬ InRange x.ptr x.size b) → mem b = s.mem b) →
      PoolStep pools ⟨s, live⟩ ⟨{ s with mem }, live⟩

/-- What the clients of the allocator rely on. -/
structure PoolsSound (pools : Nat) (t : PoolState) : Prop where
  /-- The ranges handed out are pairwise disjoint, and so are their headers. -/
  ranges : t.live.Pairwise fun x y => x.payload.Apart y.payload ∧ x.header.Apart y.header
  /-- No range meets a header, its own or another one. -/
  headers_apart : ∀ x ∈ t.live, ∀ y ∈ t.live, x.payload.Apart y.header
  /-- The ranges lie in pages obtained from the page allocator. -/
  mapped : ∀ x ∈ t.live, ∀ b, InRange x.ptr x.size b → t.flat.mapped (b / pageSize) = true
  /-- The headers are what `kmalloc` wrote. -/
  headers : ∀ x ∈ t.live, x.Header pools t.flat.mem
  /-- The free list of a pool ends, has no repetition, and lists blocks of the pool's size, aligned and
  in obtained pages, that meet no range, no header and no other free block. -/
  pools : ∃ F : Nat → List Nat, (freeCells F).Pairwise Cell.Apart ∧ ∀ i, i < blockSizesLen →
    Chain t.flat.mem (load64 t.flat.mem (headOf (poolAddr pools i))) (F i) ∧ (F i).Nodup ∧
      ∀ a ∈ F i, a % blockSize i = 0 ∧
        (∀ b, InRange a (blockSize i) b → t.flat.mapped (b / pageSize) = true) ∧
        ∀ x ∈ t.live, x.payload.Apart ⟨a, blockSize i⟩ ∧ x.header.Apart ⟨a, blockSize i⟩

/-- The invariant for some free blocks. -/
def PoolState.Inv (pools : Nat) (t : PoolState) : Prop := ∃ F, PoolInv pools F t.live t.flat

section
variable {pools : Nat} (hp : PoolsOK pools)

include hp

/-- One step keeps the invariant. -/
theorem PoolStep.inv {s t : PoolState} (h : PoolStep pools s t) (hs : s.Inv pools) : t.Inv pools := by
  obtain ⟨F, hF⟩ := hs
  cases h with
  | malloc hsmall hrun =>
    obtain he | ⟨p, s', F', hok, hinv⟩ := hF.kmalloc hp hsmall
    · rw [he] at hrun
      cases hrun
    · rw [hok] at hrun
      cases hrun
      exact ⟨F', hinv⟩
  | free hx hrun =>
    obtain ⟨s', F', hok, hinv, -⟩ := hF.kfree hp hx
    rw [hok] at hrun
    cases hrun
    exact ⟨F', hinv⟩
  | write hw => exact ⟨F, hF.clientWrite hp hw⟩

omit hp in
/-- The payload of a request and its header lie in its cell. -/
theorem PoolInv.apart_of_cell {F : Nat → List Nat} {live : List Live} {s : Flat}
    (h : PoolInv pools F live s) {x : Live} (hx : x ∈ live) {d : Cell} (hd : x.cell.Apart d) :
    x.payload.Apart d ∧ x.header.Apart d := by
  obtain ⟨hptr, hend, haddr⟩ := h.payload_in hx
  have hlen := x.le_len
  unfold Cell.Apart Live.payload Live.header at *
  dsimp only
  omega

omit hp in
/-- The invariant gives the clients what they rely on. -/
theorem PoolInv.sound {F : Nat → List Nat} {live : List Live} {s : Flat}
    (h : PoolInv pools F live s) : PoolsSound pools ⟨s, live⟩ where
  ranges := by
    have hpw := List.pairwise_map.1 (List.pairwise_append.1 h.layout.apart).2.1
    refine hpw.imp_of_mem fun hx hy hap => ?_
    obtain ⟨hpay, hhead⟩ := h.apart_of_cell hx hap
    exact ⟨(h.apart_of_cell hy hpay.symm).1.symm, (h.apart_of_cell hy hhead.symm).2.symm⟩
  headers_apart x hx y hy := by
    by_cases hxy : x = y
    · subst hxy
      exact .inr (Nat.le_of_eq (h.payload_in hx).1.symm)
    · exact (h.apart_of_cell hy (h.apart_of_cell hx (h.live_apart hx hy hxy)).1.symm).2.symm
  mapped x hx b hb := by
    obtain ⟨hptr, hend, haddr⟩ := h.payload_in hx
    have h₁ := hb.1
    have h₂ := hb.2
    exact (h.live_inHeap hx).mapped b ⟨by omega, by omega⟩
  headers := h.headers
  pools := by
    refine ⟨F, (List.pairwise_append.1 h.layout.apart).1, fun i hi => ⟨h.chains i hi,
      (h.chains i hi).nodup, fun a ha => ?_⟩⟩
    have hin := h.free_inHeap hi ha
    have hcases := blockSize_cases hi
    have hal := hin.aligned
    rw [Nat.min_eq_left (by unfold pageSize; dsimp only; omega)] at hal
    exact ⟨hal, hin.mapped, fun x hx => h.apart_of_cell hx (h.free_apart hi ha hx).symm⟩

/-- Along every run after `init_alloc` the invariant holds. -/
theorem poolRun_inv {s s₀ : Flat} (hs : FlatBoot s) (hinit : initAlloc pools s = .ok s₀) {t : PoolState}
    (hrun : Relation.ReflTransGen (PoolStep pools) ⟨s₀, []⟩ t) : t.Inv pools := by
  obtain ⟨mem, hok, hinv⟩ := initAlloc_poolInv hp hs
  rw [hok] at hinit
  cases hinit
  exact hrun.invariant (PoolState.Inv pools) ⟨_, hinv⟩ fun _ _ => PoolStep.inv hp

end

/-- After `init_alloc`, in every state the clients can reach, the ranges handed out are disjoint from
each other, from all headers and from all free blocks, they lie in obtained pages, the free lists are
well formed and the headers intact. There every request is served or halts for lack of memory, and
every free returns. -/
theorem poolRun_sound {pools : Nat} (hp : PoolsOK pools) {s s₀ : Flat} (hs : FlatBoot s)
    (hinit : initAlloc pools s = .ok s₀) {t : PoolState}
    (hrun : Relation.ReflTransGen (PoolStep pools) ⟨s₀, []⟩ t) :
    PoolsSound pools t ∧
      (∀ size, size + 4112 < 2 ^ 31 → kmalloc pools size t.flat = .error .outOfMemory ∨
        ∃ p s', kmalloc pools size t.flat = .ok (p, s')) ∧
      ∀ x ∈ t.live, ∃ s', kfree x.ptr t.flat = .ok s' := by
  obtain ⟨F, hF⟩ := poolRun_inv hp hs hinit hrun
  refine ⟨hF.sound, fun size hsize => ?_, fun x hx => ?_⟩
  · obtain he | ⟨p, s', _, hok, _⟩ := hF.kmalloc hp hsize
    · exact .inl he
    · exact .inr ⟨p, s', hok⟩
  · obtain ⟨s', _, hok, -⟩ := hF.kfree hp hx
    exact ⟨s', hok⟩

/-- A request of a pool and a dedicated one, both live. -/
theorem poolRun_sound_two_requests : ∃ s₀ p q s₂,
    initAlloc 0x1000 (⟨fun _ => 0, addrSpaceKernelHeapBase, fun _ => false⟩ : Flat) = .ok s₀ ∧
      Relation.ReflTransGen (PoolStep 0x1000) ⟨s₀, []⟩ ⟨s₂, [⟨q, 3000⟩, ⟨p, 2000⟩]⟩ ∧
      PoolsSound 0x1000 ⟨s₂, [⟨q, 3000⟩, ⟨p, 2000⟩]⟩ := by
  have hok : (initAlloc 0x1000 (⟨fun _ => 0, addrSpaceKernelHeapBase, fun _ => false⟩ : Flat) >>= fun s =>
      kmalloc 0x1000 2000 s >>= fun r => kmalloc 0x1000 3000 r.2).isOk = true := by
    decide +kernel
  obtain ⟨⟨q, s₂⟩, h⟩ := Except.exists_of_isOk hok
  obtain ⟨s₀, hinit, h⟩ := Except.bind_eq_ok.1 h
  obtain ⟨⟨p, s₁⟩, h₁, h₂⟩ := Except.bind_eq_ok.1 h
  have hfirst : PoolStep 0x1000 ⟨s₀, []⟩ ⟨s₁, [⟨p, 2000⟩]⟩ := .malloc (by decide) h₁
  have hrun := (Relation.ReflTransGen.single hfirst).tail (.malloc (by decide) h₂)
  have hp : PoolsOK 0x1000 := ⟨by decide, by decide⟩
  have hs : FlatBoot ⟨fun _ => 0, addrSpaceKernelHeapBase, fun _ => false⟩ :=
    ⟨by decide, by decide, by decide, fun _ => rfl⟩
  exact ⟨s₀, p, q, s₂, hinit, hrun, (poolRun_sound hp hs hinit hrun).1⟩

end BanjOS
