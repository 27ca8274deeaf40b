import BanjOS.Allocator.Paged

/-!
# kmalloc over demand paging

`kmalloc` and `kfree` run over the paged kernel as they do over the flat memory (`PagedInv.kmalloc`, `PagedInv.kfree`), so
what was proved there of the flat allocator holds of the machine, and what the clients wrote stays readable through the
page tables whatever is allocated, freed and faulted in around it (`kmallocRun_sound`). The one difference is a dedicated
block with a page that was never used: over the flat memory it is freed, on the machine `kfree` halts.
-/

namespace BanjOS

open ByteMem PagedMem

section
variable {σ : Type} [PagedMem σ]

/-- Push a block on the list of its pool. -/
def pushBlock (pool block : Nat) (s : σ) : Except Stop σ := do
  let (head, s) ← load (headOf pool) s
  let s ← store block head s
  store (headOf pool) block s

/-- Write a header and return the user pointer. -/
def putHeader (addr pool size : Nat) (s : σ) : Except Stop (Nat × σ) := do
  let s ← store addr pool s
  let s ← store (addr + 8) size s
  .ok ((addr + headerSize) % 2 ^ 64, s)

theorem pushBlocks_step (pool size n block : Nat) (s : σ) : pushBlocks pool size (n + 1) block s =
    pushBlock pool block s >>= fun s => pushBlocks pool size n (block + size) s := by
  simp only [pushBlocks, pushBlock, bind_assoc]

theorem takeBlock_eq (pool : Nat) (s : σ) : takeBlock pool s = load (headOf pool) s >>= fun r => load r.1 r.2 >>= fun q =>
    store (headOf pool) q.1 q.2 >>= fun s => putHeader r.1 pool 0 s := rfl

theorem kmallocDedicated_eq (size : Nat) (s : σ) : kmallocDedicated size s =
    allocPages (toInt (numPages ((size + headerSize) % 2 ^ 64))) s >>= fun r =>
      putHeader r.1 0 ((size + headerSize) % 2 ^ 64) r.2 := rfl

end

/-- The bytes that the allocator reads, the pool table, the links and the headers, and those that the clients wrote. -/
def Known (pools : Nat) (F : Nat → List Nat) (live : List Live) (data : Nat → Option UInt8) : Set Nat :=
  {b | InRange pools poolsLen b ∨ (∃ i, i < blockSizesLen ∧ ∃ a ∈ F i, InRange a 8 b) ∨
    (∃ x ∈ live, InRange x.block headerSize b) ∨ ∃ c, data b = some c}

/-- The allocator on the machine: a flat memory with its invariant follows, and has what the clients wrote. -/
structure PagedInv (all : List Nat) (M root pools : Nat) (m₀ : Mem) (A : Set Nat) (F : Nat → List Nat) (live : List Live)
    (data : Nat → Option UInt8) (s : Flat) (h : HeapState) : Prop where
  pool : PoolInv pools F live s
  tracks : Tracks all M root pools m₀ A (Known pools F live data) s h
  data : ∀ b c, data b = some c → s.mem b = c ∧ ∃ x ∈ live, InRange x.ptr x.size b

section
variable {all : List Nat} {M root pools : Nat} (hall : MappedFrames all M) (hp : PoolsStatic all M pools) {m₀ : Mem}
  {F : Nat → List Nat} {live : List Live} {data : Nat → Option UInt8} {s : Flat} {h : HeapState} {A D : Set Nat}

theorem PagedInv.mono_pages {A' : Set Nat} (hinv : PagedInv all M root pools m₀ A F live data s h) (hA : A' ⊆ A) :
    PagedInv all M root pools m₀ A' F live data s h := ⟨hinv.pool, hinv.tracks.mono_pages hA, hinv.data⟩

/-! ## The pool table -/

include hp in
/-- The words of the table. -/
theorem PoolsStatic.table_word {i : Nat} (hi : i < blockSizesLen) : poolAddr pools i % 8 = 0 ∧
    headOf (poolAddr pools i) % 8 = 0 ∧ (∀ b, InRange (poolAddr pools i) 8 b → InRange pools poolsLen b) ∧
    ∀ b, InRange (headOf (poolAddr pools i)) 8 b → InRange pools poolsLen b := by
  have hal := hp.aligned
  unfold blockSizesLen at hi
  unfold headOf poolAddr
  exact ⟨by omega, by omega, fun b hb => hb.mono (by omega) (by simp only [poolsLen, blockSizesLen]; omega),
    fun b hb => hb.mono (by omega) (by simp only [poolsLen, blockSizesLen]; omega)⟩

include hp in
/-- The head of a list is in the table. -/
theorem PoolsStatic.head_ready {i : Nat} (hi : i < blockSizesLen) : ReadyByte pools h (headOf (poolAddr pools i)) :=
  .inl ((hp.table_word hi).2.2.2 _ ⟨Nat.le_refl _, by omega⟩)

/-- A byte of a live range is in the cell of its request, and in the heap. -/
theorem PoolInv.payload_byte (hpool : PoolInv pools F live s) {x : Live} (hx : x ∈ live) {b : Nat}
    (hb : InRange x.ptr x.size b) : InRange x.cell.addr x.cell.len b ∧ addrSpaceKernelHeapBase ≤ b := by
  obtain ⟨hptr, hend, haddr⟩ := hpool.payload_in hx
  have hin := hb.mono (show x.cell.addr ≤ x.ptr by omega) hend
  exact ⟨hin, (hpool.live_inHeap hx).lower.trans hin.1⟩

include hp in
/-- What is written is in the heap, and so not in the table. -/
theorem PagedInv.data_apart (hinv : PagedInv all M root pools m₀ A F live data s h) {b : Nat} {c : UInt8}
    (hb : data b = some c) : ¬ InRange pools poolsLen b := by
  rcases (hinv.data b c hb).2 with ⟨x, hx, hin⟩
  have hheap := (hinv.pool.payload_byte hx hin).2
  exact fun htable => absurd (htable.2.trans_le hp.below) (by omega)

/-- What is written is not in a cell that is apart from those of the requests. -/
theorem PagedInv.data_not_in (hinv : PagedInv all M root pools m₀ A F live data s h) {c : Cell}
    (hap : ∀ x ∈ live, c.Apart x.cell) {a n b : Nat} {v : UInt8} (hb : data b = some v)
    (ha : c.addr ≤ a ∧ a + n ≤ c.addr + c.len) : ¬ InRange a n b := by
  rcases (hinv.data b v hb).2 with ⟨x, hx, hin⟩
  intro hab
  exact (hap x hx).not_inRange hab ha ⟨Nat.le_refl _, Nat.le_refl _⟩ (hinv.pool.payload_byte hx hin).1

/-! ## Blocks -/

/-- The cells of the pools are aligned to headers. -/
theorem Cell.InHeap.header_aligned {c : Cell} (hin : c.InHeap s) {i : Nat} (hi : i < blockSizesLen) (hc : c.len = blockSize i) :
    c.addr % headerSize = 0 := by
  unfold headerSize
  have hal := hin.aligned
  have hcases := blockSize_cases hi
  rw [hc, Nat.min_eq_left (by unfold pageSize; omega)] at hal
  rcases hcases with hcase | hcase | hcase | hcase | hcase | hcase <;> rw [hcase] at hal <;> omega

theorem Cell.InHeap.word_aligned {c : Cell} (hin : c.InHeap s) {i : Nat} (hi : i < blockSizesLen) (hc : c.len = blockSize i) :
    c.addr % 8 = 0 := by
  have hal := hin.header_aligned hi hc
  unfold headerSize at hal
  omega

/-- The pages of a cell are allocated. -/
theorem Tracks.live_of_inHeap (ht : Tracks all M root pools m₀ A D s h) {c : Cell} (hin : c.InHeap s) {b : Nat}
    (hb : InRange c.addr c.len b) : b / pageSize ∈ h.live := (ht.mapped _).1 (hin.mapped b hb)

include hp in
/-- A byte of the heap that is known is in a resident page. -/
theorem Tracks.ready_heap (ht : Tracks all M root pools m₀ A D s h) {b : Nat} (hb : b ∈ D)
    (hbase : addrSpaceKernelHeapBase ≤ b) : b / pageSize ∈ h.live ∧ (h.kernel.leaf (b / pageSize)).present = true :=
  (ht.ready b hb).resolve_left fun htable => absurd (htable.2.trans_le hp.below) (Nat.not_lt.2 hbase)

include hp in
/-- Such a page was used. -/
theorem Tracks.page_used (ht : Tracks all M root pools m₀ A D s h) {b : Nat} (hb : b ∈ D)
    (hbase : addrSpaceKernelHeapBase ≤ b) : b / pageSize ∉ A := fun hn => by
  have hpres := (ht.ready_heap hp hb hbase).2
  rw [(ht.absent _ hn).2] at hpres
  cases hpres

include hall hp in
/-- Pushing a block. -/
theorem PagedInv.pushBlock (hinv : PagedInv all M root pools m₀ A F live data s h) {i b : Nat} (hi : i < blockSizesLen)
    (hin : (⟨b, blockSize i⟩ : Cell).InHeap s) (hap : ∀ d ∈ cells F live, (⟨b, blockSize i⟩ : Cell).Apart d) {e : Stop}
    (he : ReadyByte pools h b ∨ b / pageSize ∉ A ∧ (e = .outOfMemory ∨ (BanjOS.touch b h.kernel).isOk)) :
    Lockstep e (BanjOS.pushBlock (poolAddr pools i) b h.kernel) (BanjOS.pushBlock (poolAddr pools i) b s) fun k' s' =>
      s'.brk = s.brk ∧ s'.mapped = s.mapped ∧
        PagedInv all M root pools m₀ A (Function.update F i (b :: F i)) live data s' ⟨k', h.live, h.freed⟩ := by
  rcases hp.table_word hi with ⟨-, hmod, -, hhead⟩
  have hlen := le_blockSize_of_lt hi
  have hself : InRange b (blockSize i) b := ⟨Nat.le_refl b, by omega⟩
  have hlive := hinv.tracks.live_of_inHeap hin hself
  rcases hinv.tracks.load hall hp hmod fun c hc => .inl (hhead c hc) with ⟨hk, hs⟩
  rw [BanjOS.pushBlock, BanjOS.pushBlock, hk, hs]
  simp only [Except.ok_bind]
  refine (hinv.tracks.store hall hp (hin.word_aligned hi rfl) (he.imp_right fun he => ⟨⟨hlive, he.1⟩, he.2⟩) _).bind
    fun k₁ s₁ _ hs₁ => ?_
  rcases hs₁ with ⟨rfl, ht₁⟩
  refine (ht₁.store hall hp hmod (.inl (hp.head_ready hi)) _).mono fun k₂ s₂ _ hs₂ => ?_
  rcases hs₂ with ⟨rfl, ht₂⟩
  refine ⟨rfl, rfl, hinv.pool.push hp.toPoolsOK hi hin hap, ht₂.mono fun c hc => ?_, fun c v hc => ?_⟩
  · -- the link of the block is the only new word
    rcases hc with hc | ⟨j, hj, a, ha, hc⟩ | hc
    · exact .inl (.inl (.inl hc))
    · rcases Decidable.em (j = i) with rfl | hne
      · rw [Function.update_self] at ha
        rcases List.mem_cons.1 ha with rfl | ha
        · exact .inl (.inr hc)
        · exact .inl (.inl (.inr (.inl ⟨j, hj, a, ha, hc⟩)))
      · rw [Function.update_of_ne hne] at ha
        exact .inl (.inl (.inr (.inl ⟨j, hj, a, ha, hc⟩)))
    · exact .inl (.inl (.inr (.inr hc)))
  · rcases hinv.data c v hc with ⟨hval, hx⟩
    refine ⟨?_, hx⟩
    have hout : ¬ InRange b 8 c := hinv.data_not_in
      (fun x hx => hap _ (List.mem_append_right _ (List.mem_map_of_mem hx))) hc ⟨Nat.le_refl b, by dsimp only; omega⟩
    exact (store64_apply_of_not_mem fun hc' => hinv.data_apart hp hc (hhead c hc')).trans
      ((store64_apply_of_not_mem hout).trans hval)

include hall hp in
/-- The carving loop, over blocks of one page. Memory can run out only at the first of them. -/
theorem PagedInv.pushBlocks {i : Nat} (hi : i < blockSizesLen) {e : Stop} {page : Nat} : ∀ (n b : Nat)
    (F : Nat → List Nat) (s : Flat) (h : HeapState), PagedInv all M root pools m₀ A F live data s h →
    (∀ c ∈ cells F live, c.addr + c.len ≤ b) → addrSpaceKernelHeapBase ≤ b → b + blockSize i * n ≤ s.brk →
    b % blockSize i = 0 → (∀ a, InRange b (blockSize i * n) a → a / pageSize = page) →
    (n ≠ 0 → s.mapped page = true ∧ page ∉ A ∧ (e = .outOfMemory ∨ (BanjOS.touch b h.kernel).isOk)) →
    Lockstep e (BanjOS.pushBlocks (poolAddr pools i) (blockSize i) n b h.kernel)
      (BanjOS.pushBlocks (poolAddr pools i) (blockSize i) n b s) fun k' s' => ∃ l, l.length = n ∧
        PagedInv all M root pools m₀ A (Function.update F i (l ++ F i)) live data s' ⟨k', h.live, h.freed⟩ := by
  intro n
  induction n with
  | zero =>
    intro b F s h hinv _ _ _ _ _ _
    exact .pure ⟨[], rfl, by rwa [List.nil_append, Function.update_eq_self]⟩
  | succ n ih =>
    intro b F s h hinv hend hlow hup hal hsame hpage
    rcases hpage (Nat.succ_ne_zero n) with ⟨hmap, hnew, he⟩
    have hcases := blockSize_cases hi
    have hmin : min (blockSize i) pageSize = blockSize i := Nat.min_eq_left (by unfold pageSize; omega)
    rw [Nat.mul_succ] at hup hsame
    have hb : b / pageSize = page := hsame b ⟨Nat.le_refl b, by omega⟩
    have hin : (⟨b, blockSize i⟩ : Cell).InHeap s :=
      ⟨hlow, by dsimp only; omega,
        fun a ha => (congrArg s.mapped (hsame a (ha.mono (Nat.le_refl _) (by dsimp only; omega)))).trans hmap,
        by dsimp only; rwa [hmin]⟩
    rw [pushBlocks_step, pushBlocks_step]
    refine (hinv.pushBlock hall hp hi hin (fun d hd => .inr (hend d hd)) (.inr ⟨hb ▸ hnew, he⟩)).bind
      fun k₁ s₁ _ hs₁ => ?_
    rcases hs₁ with ⟨hbrk, hmapped, hinv₁⟩
    refine (ih (b + blockSize i) _ s₁ ⟨k₁, h.live, h.freed⟩ hinv₁ (fun c hc => ?_) (by omega) (by omega)
      (by rw [Nat.add_mod_right]; exact hal) (fun a ha => hsame a (ha.mono (by omega) (by omega)))
      fun hn => ⟨hmapped ▸ hmap, hnew, .inr ?_⟩).mono fun k' s' _ hs' => ?_
    · rcases List.mem_cons.1 ((cells_push hi).mem_iff.1 hc) with rfl | hc
      · exact Nat.le_refl _
      · exact (hend c hc).trans (Nat.le_add_right _ _)
    · -- the block that was pushed is in the same page
      have hnext : (b + blockSize i) / pageSize = page := hsame _ ⟨by omega, Nat.add_lt_add_left
        ((Nat.lt_add_of_pos_left (by have hpos := Nat.pos_of_ne_zero hn; exact Nat.mul_pos (by omega) hpos))) b⟩
      have hknown : b ∈ Known pools (Function.update F i (b :: F i)) live data :=
        .inr (.inl ⟨i, hi, b, by rw [Function.update_self]; exact .head _, Nat.le_refl b, by omega⟩)
      have hready := hinv₁.tracks.ready_heap hp hknown hlow
      rw [hb, ← hnext] at hready
      rcases hinv₁.tracks.run with ⟨top, hrun, -⟩
      exact congrArg Except.isOk (if_pos (hrun.present_of_ready hall hp (.inr hready)))
    · rcases hs' with ⟨l, hl, hinv'⟩
      rw [Function.update_self, Function.update_idem, List.append_cons] at hinv'
      exact ⟨l ++ [b], by rw [List.length_append, hl]; rfl, hinv'⟩

/-- The allocator does not see the heap grow. -/
theorem PagedInv.grow (hinv : PagedInv all M root pools m₀ A F live data s h) {s' : Flat} {h' : HeapState} {n : Nat}
    (hg : FlatGrown s s' n) (ht : Tracks all M root pools m₀ A (Known pools F live data) s' h') :
    PagedInv all M root pools m₀ A F live data s' h' :=
  ⟨hinv.pool.grow hg, ht, fun b c hb => ⟨hg.mem ▸ (hinv.data b c hb).1, (hinv.data b c hb).2⟩⟩

/-- The heap can grow by one page: the next page can be allocated, and then used. -/
def Kernel.CanGrow (k : Kernel) : Prop := (mmuAllocPage k >>= fun r => BanjOS.touch r.1 r.2).isOk = true

instance (k : Kernel) : Decidable k.CanGrow := inferInstanceAs (Decidable (_ = true))

include hall hp in
/-- Refilling a pool. Memory can run out only where the heap does not grow. -/
theorem PagedInv.poolAllocatePage (hinv : PagedInv all M root pools m₀ A F live data s h) {i : Nat} (hi : i < blockSizesLen)
    {e : Stop} (he : e = .outOfMemory ∨ h.kernel.CanGrow) :
    Lockstep e (BanjOS.poolAllocatePage (poolAddr pools i) h.kernel)
      (BanjOS.poolAllocatePage (poolAddr pools i) s) fun k' s' => ∃ l pages freed, l ≠ [] ∧
        PagedInv all M root pools m₀ A (Function.update F i (l ++ F i)) live data s' ⟨k', pages, freed⟩ := by
  have hcases := blockSize_cases hi
  have hmod := hinv.pool.layout.brk_mod
  have hgrow : e = .outOfMemory ∨
      ∃ r, mmuAllocPage h.kernel = .ok r ∧ (BanjOS.touch r.1 r.2).isOk := he.imp_right fun he => by
    rcases Except.exists_of_isOk he with ⟨k', hk'⟩
    rcases Except.bind_eq_ok.1 hk' with ⟨r, hr, htouch⟩
    exact ⟨r, hr, by rw [htouch]; rfl⟩
  refine (hinv.tracks.allocPage hall hp (hgrow.imp_right fun ⟨r, hr, _⟩ => by rw [hr]; rfl)).bind_of_ok
    fun r q hrun hres => ?_
  rcases r with ⟨page, k₁⟩
  rcases q with ⟨page', s₁⟩
  rcases hres with ⟨rfl, rfl, hg, pages, freed, ht₁⟩
  dsimp only at hg ht₁ ⊢
  have htouch : e = .outOfMemory ∨ (BanjOS.touch s.brk k₁).isOk := hgrow.imp_right fun ⟨r, hr, htouch⟩ => by
    obtain rfl := Except.ok.inj (hr.symm.trans hrun)
    exact htouch
  have hnew (n : Nat) (hn : n ∈ A) : n < s.brk / pageSize := hinv.tracks.absent_lt hn
  replace ht₁ := ht₁.mono_pages (Set.subset_union_left (s := A))
  have hinv₁ := hinv.grow hg ht₁
  rcases hp.table_word hi with ⟨hword, -, htable, -⟩
  rcases ht₁.load hall hp hword fun c hc => .inl (htable c hc) with ⟨hk, hs⟩
  rw [hk, hs]
  simp only [Except.ok_bind]
  have hsize : (load64 s₁.mem (poolAddr pools i) + headerSize) % 2 ^ 64 = blockSize i := by
    rw [hinv₁.pool.table i hi]
    unfold headerSize
    omega
  have hdvd : pageSize % blockSize i = 0 := by
    unfold pageSize
    rcases hcases with h | h | h | h | h | h <;> rw [h]
  have hcount : blockSize i * ((pageSize + (blockSize i - 1)) / blockSize i) = pageSize ∧
      0 < (pageSize + (blockSize i - 1)) / blockSize i := by
    unfold pageSize
    rcases hcases with h | h | h | h | h | h <;> rw [h] <;> decide
  have hsame (a : Nat) (ha : InRange s.brk pageSize a) : a / pageSize = s.brk / pageSize := by
    have h₁ := ha.1
    have h₂ := ha.2
    unfold pageSize at *
    omega
  rw [hsize, if_neg (not_not.2 hdvd), if_neg (not_not.2 hdvd)]
  refine (PagedInv.pushBlocks hall hp hi _ s.brk F s₁ ⟨k₁, pages, freed⟩ hinv₁ (fun c hc => hinv.pool.le_brk hc)
    hinv.pool.layout.base (by rw [hcount.1, hg.brk, Nat.mul_one])
    (Nat.mod_eq_zero_of_dvd ((Nat.dvd_of_mod_eq_zero hdvd).trans (Nat.dvd_of_mod_eq_zero hmod)))
    (by rw [hcount.1]; exact hsame) fun _ => ⟨hg.mapped_of_le hmod (Nat.le_refl _) ?_,
      fun ha => absurd (hnew _ ha) (Nat.lt_irrefl _), htouch⟩).mono fun k' s' _ hs' => ?_
  · exact Nat.lt_add_of_pos_right (by decide)
  rcases hs' with ⟨l, hl, hinv'⟩
  refine ⟨l, pages, freed, fun hnil => ?_, hinv'⟩
  rw [hnil] at hl
  exact absurd hcount.2 (hl ▸ Nat.lt_irrefl 0)

/-! ## Requests -/

/-- The pages of a request after the one with its header. -/
def Live.restPages (x : Live) : Set Nat :=
  Set.Ioo (x.block / pageSize) (x.block / pageSize + numPages (x.size + headerSize))

/-- A block that fits one page has no such page. -/
theorem Live.restPages_of_le {x : Live} (h : x.size + headerSize ≤ pageSize) : x.restPages = ∅ := by
  have hone : numPages (x.size + headerSize) ≤ 1 := by
    unfold numPages pageSize at *
    split <;> omega
  refine Set.eq_empty_of_forall_notMem fun n hn => ?_
  have hlower := hn.1
  have hupper := hn.2
  omega

theorem Live.restPages_pool {x : Live} (hi : poolIndex x.size < blockSizesLen) : x.restPages = ∅ := by
  have hle := le_blockSize hi
  have hcases := blockSize_cases hi
  exact Live.restPages_of_le (by unfold pageSize; omega)

/-- The other ones have. -/
theorem Live.mem_restPages {x : Live} (h : pageSize < x.size + headerSize) : x.block / pageSize + 1 ∈ x.restPages := by
  have htwo : 2 ≤ numPages (x.size + headerSize) := by
    unfold numPages pageSize at *
    split <;> omega
  exact ⟨by omega, by omega⟩

include hall hp in
/-- The search loop reads the table only. -/
theorem PagedInv.findPool (hinv : PagedInv all M root pools m₀ A F live data s h) (size : Nat) :
    ∀ n i, i + n = blockSizesLen → ∃ j, BanjOS.findPool pools size n i h.kernel = .ok (j, h.kernel) ∧
      BanjOS.findPool pools size n i s = .ok (j, s) := by
  intro n
  induction n with
  | zero => exact fun i _ => ⟨i, rfl, rfl⟩
  | succ n ih =>
    intro i hi
    rcases hp.table_word (show i < blockSizesLen by omega) with ⟨hword, -, htable, -⟩
    rcases hinv.tracks.load hall hp hword fun c hc => .inl (htable c hc) with ⟨hk, hs⟩
    rw [BanjOS.findPool, BanjOS.findPool, hk, hs]
    simp only [Except.ok_bind]
    rcases Decidable.em (size > load64 s.mem (poolAddr pools i)) with hgt | hle
    · rw [if_pos hgt, if_pos hgt]
      exact ih (i + 1) (by omega)
    · rw [if_neg hle, if_neg hle]
      exact ⟨i, rfl, rfl⟩

include hall hp in
/-- Writing a header into a page that is allocated. It stops only if the page was not used and memory is full. -/
theorem Tracks.putHeader (ht : Tracks all M root pools m₀ A D s h) {addr : Nat} (hmod : addr % 8 = 0)
    (hpage : addr / pageSize ∈ h.live ∧ addr / pageSize ∉ A) (hsame : (addr + 8) / pageSize = addr / pageSize) {e : Stop}
    (he : (addr ∈ D ∧ addrSpaceKernelHeapBase ≤ addr) ∨ e = .outOfMemory) (pool size : Nat) :
    Lockstep e (BanjOS.putHeader addr pool size h.kernel) (BanjOS.putHeader addr pool size s) fun r q =>
      r.1 = q.1 ∧ q = ((addr + headerSize) % 2 ^ 64, { s with mem := store64 (store64 s.mem addr pool) (addr + 8) size }) ∧
        Tracks all M root pools m₀ A (D ∪ {b | InRange addr headerSize b}) q.2 ⟨r.2, h.live, h.freed⟩ := by
  refine (ht.store hall hp hmod (he.imp (fun hb => .inr (ht.ready_heap hp hb.1 hb.2)) fun he => ⟨hpage, .inl he⟩) _).bind
    fun k₁ s₁ _ hs₁ => ?_
  rcases hs₁ with ⟨rfl, ht₁⟩
  have he₈ : ReadyByte pools ⟨k₁, h.live, h.freed⟩ (addr + 8) ∨
      ((addr + 8) / pageSize ∈ h.live ∧ (addr + 8) / pageSize ∉ A) ∧
        (e = .outOfMemory ∨ (BanjOS.touch (addr + 8) k₁).isOk) := by
    rw [ReadyByte, hsame]
    exact he.imp (fun hb => .inr (ht₁.ready_heap hp (.inl hb.1) hb.2)) fun he => ⟨hpage, .inl he⟩
  refine (ht₁.store hall hp (by omega) he₈ _).bind fun k₂ s₂ _ hs₂ => ?_
  rcases hs₂ with ⟨rfl, ht₂⟩
  refine .pure ⟨rfl, rfl, ht₂.mono fun c hc => ?_⟩
  rcases hc with hc | hc
  · exact .inl (.inl hc)
  · have h₁ := hc.1
    have h₂ := hc.2
    unfold headerSize at h₂
    rcases Nat.lt_or_ge c (addr + 8) with hlt | hge
    · exact .inl (.inr ⟨h₁, hlt⟩)
    · exact .inr ⟨hge, by omega⟩

/-- A new request: its header is known, and nothing that was written is in its block. -/
theorem PagedInv.adopt (hinv : PagedInv all M root pools m₀ A F live data s h) {A' : Set Nat} {F' : Nat → List Nat} {x : Live}
    {s' : Flat} {h' : HeapState} (hpool : PoolInv pools F' (x :: live) s') (hF : ∀ i, i < blockSizesLen → ∀ a ∈ F' i, a ∈ F i)
    (ht : Tracks all M root pools m₀ A' (Known pools F live data ∪ {b | InRange x.block headerSize b}) s' h')
    (hmem : ∀ b c, data b = some c → s'.mem b = s.mem b) :
    PagedInv all M root pools m₀ A' F' (x :: live) data s' h' := by
  refine ⟨hpool, ht.mono fun c hc => ?_, fun b c hb => ?_⟩
  · rcases hc with hc | ⟨i, hi, a, ha, hc⟩ | ⟨y, hy, hc⟩ | hc
    · exact .inl (.inl hc)
    · exact .inl (.inr (.inl ⟨i, hi, a, hF i hi a ha, hc⟩))
    · rcases List.mem_cons.1 hy with rfl | hy
      · exact .inr hc
      · exact .inl (.inr (.inr (.inl ⟨y, hy, hc⟩)))
    · exact .inl (.inr (.inr (.inr hc)))
  · rcases hinv.data b c hb with ⟨hval, y, hy, hin⟩
    exact ⟨(hmem b c hb).trans hval, y, .tail x hy, hin⟩

include hall hp in
/-- Taking a block of a pool that is not empty. -/
theorem PagedInv.takeBlock (hinv : PagedInv all M root pools m₀ A F live data s h) {size b : Nat} {l : List Nat}
    (hi : poolIndex size < blockSizesLen) (hF : F (poolIndex size) = b :: l) (hsmall : size + 4112 < 2 ^ 31) (e : Stop) :
    Lockstep e (BanjOS.takeBlock (poolAddr pools (poolIndex size)) h.kernel)
      (BanjOS.takeBlock (poolAddr pools (poolIndex size)) s) fun r q => r.1 = q.1 ∧
        PagedInv all M root pools m₀ A (Function.update F (poolIndex size) l) (⟨r.1, size⟩ :: live) data q.2
          ⟨r.2, h.live, h.freed⟩ := by
  rcases hp.table_word hi with ⟨-, hmod, -, hhead⟩
  have hlen := le_blockSize_of_lt hi
  have hmem : b ∈ F (poolIndex size) := by
    rw [hF]
    exact .head l
  have hin := hinv.pool.free_inHeap hi hmem
  have hbmod : b % 8 = 0 := hin.word_aligned hi rfl
  have hchain := hinv.pool.chains _ hi
  rw [hF] at hchain
  have hlive : b / pageSize ∈ h.live := hinv.tracks.live_of_inHeap hin ⟨Nat.le_refl b, by dsimp only; omega⟩
  -- the link is in the page, so the page is resident
  have hlink : b ∈ Known pools F live data := .inr (.inl ⟨_, hi, b, hmem, Nat.le_refl b, by omega⟩)
  have hnew := hinv.tracks.page_used hp hlink hin.lower
  have hpage₈ : (b + 8) / pageSize = b / pageSize := by
    have hal : b % headerSize = 0 := hin.header_aligned hi rfl
    unfold headerSize at hal
    unfold pageSize
    omega
  rcases hinv.pool.takeBlock hp.toPoolsOK hi hF hsmall with ⟨s', hok, hpool⟩
  rcases hinv.tracks.load hall hp hmod fun c hc => .inl (hhead c hc) with ⟨hk, hs⟩
  rw [hchain.of_cons.1] at hk hs
  rcases hinv.tracks.load hall hp hbmod fun c hc => .inr (.inl ⟨_, hi, b, hmem, hc⟩) with ⟨hk', hs'⟩
  rw [takeBlock_eq, hs] at hok
  rw [takeBlock_eq, takeBlock_eq, hk, hs]
  simp only [Except.ok_bind, hk', hs'] at hok ⊢
  refine (hinv.tracks.store hall hp hmod (.inl (hp.head_ready hi)) _).bind fun k₁ s₁ hrun₁ hs₁ => ?_
  rcases hs₁ with ⟨rfl, ht₁⟩
  rw [hrun₁] at hok
  refine (ht₁.putHeader hall hp hbmod ⟨hlive, hnew⟩ hpage₈ (.inl ⟨.inl hlink, hin.lower⟩) _ _).mono
    fun r q hrun₂ hs₂ => ?_
  rcases hs₂ with ⟨hptr, hq, ht₂⟩
  obtain rfl : q = (b + headerSize, s') := Except.ok.inj (hrun₂.symm.trans hok)
  have hs₂ := congrArg (fun q : Nat × Flat => q.2.mem) hq
  dsimp only at hptr hs₂ ht₂
  refine ⟨hptr, ?_⟩
  rw [hptr]
  refine hinv.adopt hpool (fun i _ a ha => ?_) (ht₂.mono fun c hc => ?_) fun c v hc => ?_
  · rcases Decidable.em (i = poolIndex size) with rfl | hne
    · rw [Function.update_self] at ha
      rw [hF]
      exact .tail b ha
    · rwa [Function.update_of_ne hne] at ha
  · rw [Live.block_mk] at hc
    exact hc.imp_left .inl
  · have hout : ∀ a n, b ≤ a → a + n ≤ b + blockSize (poolIndex size) → ¬ InRange a n c := fun a n h₁ h₂ =>
      hinv.data_not_in (fun x hx => hinv.pool.free_apart hi hmem hx) hc ⟨h₁, h₂⟩
    rw [hs₂]
    calc store64 (store64 (store64 s.mem (headOf (poolAddr pools (poolIndex size))) (load64 s.mem b)) b _) (b + 8) 0 c
        = store64 (store64 s.mem (headOf (poolAddr pools (poolIndex size))) (load64 s.mem b)) b _ c :=
          store64_apply_of_not_mem (hout _ _ (by omega) (by omega))
      _ = store64 s.mem (headOf (poolAddr pools (poolIndex size))) (load64 s.mem b) c :=
          store64_apply_of_not_mem (hout _ _ (by omega) (by omega))
      _ = s.mem c := store64_apply_of_not_mem fun hc' => hinv.data_apart hp hc (hhead c hc')

include hall hp in
/-- The branch of `kmalloc` for a pool. It stops only if the pool is empty and memory is full. -/
theorem PagedInv.kmallocPool (hinv : PagedInv all M root pools m₀ A F live data s h) {size : Nat}
    (hi : poolIndex size < blockSizesLen) (hsmall : size + 4112 < 2 ^ 31) {e : Stop}
    (he : e = .outOfMemory ∨ F (poolIndex size) ≠ [] ∨ h.kernel.CanGrow) :
    Lockstep e (BanjOS.kmallocPool (poolAddr pools (poolIndex size)) h.kernel)
      (BanjOS.kmallocPool (poolAddr pools (poolIndex size)) s) fun r q => r.1 = q.1 ∧ ∃ l pages freed,
        PagedInv all M root pools m₀ A (Function.update F (poolIndex size) l) (⟨r.1, size⟩ :: live) data q.2
          ⟨r.2, pages, freed⟩ := by
  rcases hp.table_word hi with ⟨-, hmod, -, hhead⟩
  have hchain := hinv.pool.chains _ hi
  rcases hinv.tracks.load hall hp hmod fun c hc => .inl (hhead c hc) with ⟨hk, hs⟩
  rw [BanjOS.kmallocPool, BanjOS.kmallocPool, hk, hs]
  simp only [Except.ok_bind]
  cases hF : F (poolIndex size) with
  | nil =>
    rw [hF] at hchain
    rw [if_pos hchain.head_nil, if_pos hchain.head_nil]
    refine (hinv.poolAllocatePage hall hp hi (he.imp_right fun he => he.resolve_left fun hne => hne hF)).bind fun k₁ s₁ _ hs₁ => ?_
    rcases hs₁ with ⟨l, pages, freed, hne, hinv₁⟩
    obtain ⟨b, l, rfl⟩ := List.exists_cons_of_ne_nil hne
    refine (hinv₁.takeBlock hall hp hi (by rw [Function.update_self]; rfl) hsmall _).mono fun r q _ hq => ?_
    rw [Function.update_idem] at hq
    exact ⟨hq.1, _, pages, freed, hq.2⟩
  | cons b l =>
    rw [hF] at hchain
    have hhead : load64 s.mem (headOf (poolAddr pools (poolIndex size))) ≠ 0 := by
      rw [hchain.of_cons.1]
      exact hchain.ne_zero (.head l)
    rw [if_neg hhead, if_neg hhead]
    simp only [Except.ok_bind]
    exact (hinv.takeBlock hall hp hi hF hsmall e).mono fun r q _ hq => ⟨hq.1, l, _, _, hq.2⟩

include hall hp in
/-- The branch of `kmalloc` for pages of its own. -/
theorem PagedInv.kmallocDedicated (hinv : PagedInv all M root pools m₀ A F live data s h) {size : Nat}
    (hi : poolIndex size = blockSizesLen) (hsmall : size + 4112 < 2 ^ 31) :
    Lockstep .outOfMemory (BanjOS.kmallocDedicated size h.kernel) (BanjOS.kmallocDedicated size s) fun r q =>
      r.1 = q.1 ∧ ∃ pages freed, PagedInv all M root pools m₀ (A ∪ (⟨r.1, size⟩ : Live).restPages) F
        (⟨r.1, size⟩ :: live) data q.2 ⟨r.2, pages, freed⟩ := by
  have hsize : (size + headerSize) % 2 ^ 64 = size + headerSize :=
    Nat.mod_eq_of_lt (by unfold headerSize; omega)
  have hbrk := hinv.pool.layout.brk_mod
  have hpages : 16 ≤ pageSize * numPages (size + headerSize) :=
    (Nat.le_add_left _ _).trans (le_numPages (size + headerSize))
  rcases numPages_bounds hsmall with ⟨hbytes, hlt⟩
  have hserved := hinv.pool.kmallocDedicated hp.toPoolsOK hi hsmall
  rw [kmallocDedicated_eq, hsize] at hserved
  rw [kmallocDedicated_eq, kmallocDedicated_eq, hsize]
  refine (hinv.tracks.allocPages hall hp (by unfold pageSize headerSize at *; omega) hlt hbytes).bind
    fun r q hrun hres => ?_
  rcases r with ⟨addr, k₁⟩
  rcases q with ⟨addr', s₁⟩
  rcases hres with ⟨rfl, rfl, hg, pages, freed, ht₁⟩
  dsimp only at hg ht₁ ⊢
  have hrun' : PagedMem.allocPages (toInt (numPages (size + headerSize))) s = .ok (s.brk, s₁) := hrun
  rw [hrun', Except.ok_bind] at hserved
  dsimp only at hserved
  -- the header makes the first page resident, and leaves the other ones unused
  have hnew (n : Nat) (hn : n ∈ A) : n < s.brk / pageSize := hinv.tracks.absent_lt hn
  have hrest : A ∪ Set.Ioo (s.brk / pageSize) (s.brk / pageSize + numPages (size + headerSize)) ⊆
      A ∪ Set.Ico (s.brk / pageSize) (s.brk / pageSize + numPages (size + headerSize)) :=
    Set.union_subset_union_right _ Set.Ioo_subset_Ico_self
  replace ht₁ := ht₁.mono_pages hrest
  have hpage (n : Nat) (hn : n < 16) : (s.brk + n) / pageSize ∈ pages ∧ (s.brk + n) / pageSize ∉
      A ∪ Set.Ioo (s.brk / pageSize) (s.brk / pageSize + numPages (size + headerSize)) := by
    refine ⟨(ht₁.mapped _).1 (hg.mapped_of_le hbrk (Nat.le_add_right _ n) (by omega)), fun hin => ?_⟩
    have hsame : (s.brk + n) / pageSize = s.brk / pageSize := by
      unfold pageSize at *
      omega
    rw [hsame] at hin
    exact hin.elim (fun hin => absurd (hnew _ hin) (Nat.lt_irrefl _)) fun hin => Nat.lt_irrefl _ hin.1
  have hfirst := hpage 0 (by omega)
  rw [Nat.add_zero] at hfirst
  have hsame : (s.brk + 8) / pageSize = s.brk / pageSize := by
    unfold pageSize at *
    omega
  refine (ht₁.putHeader hall hp (by unfold pageSize at hbrk; omega) hfirst hsame (.inr rfl) _ _).mono
    fun r q hrun₂ hs₂ => ?_
  rcases hs₂ with ⟨hptr, hq, ht₂⟩
  rw [hrun₂] at hserved
  rcases hserved with hserved | ⟨p, s', hok, hpool⟩
  · cases hserved
  · obtain rfl : q = (p, s') := Except.ok.inj hok
    have hs₂ := congrArg (fun q : Nat × Flat => q.2.mem) hq
    have hlimit := hg.limit
    have hbrk' := hg.brk
    have hp' : p = s.brk + headerSize := by
      have hmod : (s.brk + headerSize) % 2 ^ 64 = s.brk + headerSize :=
        Nat.mod_eq_of_lt (by unfold headerSize; omega)
      exact (congrArg Prod.fst hq).trans hmod
    dsimp only at hptr hs₂ ht₂
    refine ⟨hptr, pages, freed, ?_⟩
    rw [hptr]
    have hblock : (⟨p, size⟩ : Live).block = s.brk := by rw [hp', Live.block_mk]
    rw [Live.restPages, hblock]
    refine hinv.adopt hpool (fun i _ a ha => ha) (ht₂.mono fun c hc => ?_) fun c v hc => ?_
    · rw [hblock] at hc
      exact hc
    · -- all that is written is below the old break
      rcases (hinv.data c v hc).2 with ⟨x, hx, hin⟩
      have hupper := (hinv.pool.live_inHeap hx).upper
      have hbyte := (hinv.pool.payload_byte hx hin).1.2
      rw [hs₂]
      calc store64 (store64 s₁.mem s.brk 0) (s.brk + 8) (size + headerSize) c
          = store64 s₁.mem s.brk 0 c := store64_apply_of_not_mem fun hc' => absurd hc'.1 (by omega)
        _ = s₁.mem c := store64_apply_of_not_mem fun hc' => absurd hc'.1 (by omega)
        _ = s.mem c := congrFun hg.mem c

include hall hp in
/-- `kmalloc`. Of the pages of a new block only the one with the header is used. A block of a pool that is not empty, or that
can grow, is served in any case. -/
theorem PagedInv.kmalloc (hinv : PagedInv all M root pools m₀ A F live data s h) {size : Nat}
    (hsmall : size + 4112 < 2 ^ 31) {e : Stop}
    (he : e = .outOfMemory ∨ poolIndex size < blockSizesLen ∧ (F (poolIndex size) ≠ [] ∨ h.kernel.CanGrow)) :
    Lockstep e (BanjOS.kmalloc pools size h.kernel) (BanjOS.kmalloc pools size s) fun r q =>
      r.1 = q.1 ∧ ∃ F' pages freed, (∀ i, i ≠ poolIndex size → F' i = F i) ∧
        PagedInv all M root pools m₀ (A ∪ (⟨r.1, size⟩ : Live).restPages) F' (⟨r.1, size⟩ :: live) data q.2
          ⟨r.2, pages, freed⟩ := by
  rcases hinv.findPool hall hp size blockSizesLen 0 rfl with ⟨j, hk, hs⟩
  have hj : BanjOS.findPool pools size blockSizesLen 0 s = .ok (0 + poolIndex size, s) :=
    hinv.pool.findPool hp.toPoolsOK size blockSizesLen 0 rfl
  obtain rfl : j = poolIndex size := by
    cases hs.symm.trans hj
    exact Nat.zero_add _
  rw [BanjOS.kmalloc, BanjOS.kmalloc, hk, hs]
  simp only [Except.ok_bind]
  rcases Nat.lt_or_ge (poolIndex size) blockSizesLen with hi | hi
  · rw [if_pos hi, if_pos hi]
    refine (hinv.kmallocPool hall hp hi hsmall (he.imp_right And.right)).mono fun r q _ hq => ?_
    rcases hq with ⟨hptr, l, pages, freed, hinv'⟩
    rw [Live.restPages_pool hi, Set.union_empty]
    exact ⟨hptr, _, pages, freed, fun i hne => Function.update_of_ne hne .., hinv'⟩
  · obtain rfl := he.resolve_right fun hpool => absurd hpool.1 (Nat.not_lt.2 hi)
    rw [if_neg (Nat.not_lt.2 hi), if_neg (Nat.not_lt.2 hi)]
    refine (hinv.kmallocDedicated hall hp (Nat.le_antisymm (poolIndex_le size) hi) hsmall).mono fun r q _ hq => ?_
    rcases hq with ⟨hptr, pages, freed, hinv'⟩
    exact ⟨hptr, F, pages, freed, fun i _ => rfl, hinv'⟩

/-! ## Frees -/

/-- What was written in the range of a request is gone with it. -/
def forget (x : Live) (data : Nat → Option UInt8) : Nat → Option UInt8 := fun b =>
  if InRange x.ptr x.size b then none else data b

theorem forget_eq_some {x : Live} {b : Nat} {c : UInt8} (hb : forget x data b = some c) :
    ¬ InRange x.ptr x.size b ∧ data b = some c := by
  unfold forget at hb
  split at hb
  case isTrue => cases hb
  case isFalse hout => exact ⟨hout, hb⟩

/-- What is known of the other requests. -/
theorem known_erase (x : Live) : Known pools F (live.erase x) (forget x data) ⊆ Known pools F live data := by
  intro b hb
  rcases hb with hb | hb | ⟨y, hy, hb⟩ | ⟨c, hb⟩
  · exact .inl hb
  · exact .inr (.inl hb)
  · exact .inr (.inr (.inl ⟨y, List.mem_of_mem_erase hy, hb⟩))
  · exact .inr (.inr (.inr ⟨c, (forget_eq_some hb).2⟩))

/-- What is written for the other requests. -/
theorem PagedInv.data_erase (hinv : PagedInv all M root pools m₀ A F live data s h) (x : Live) {b : Nat} {c : UInt8}
    (hb : forget x data b = some c) : s.mem b = c ∧ ∃ y ∈ live.erase x, InRange y.ptr y.size b := by
  rcases forget_eq_some hb with ⟨hout, hb⟩
  rcases hinv.data b c hb with ⟨hval, y, hy, hin⟩
  have hne : y ≠ x := fun heq => hout (heq ▸ hin)
  exact ⟨hval, y, (List.mem_erase_of_ne hne).2 hy, hin⟩

/-- A dedicated block is made of whole pages. -/
theorem PoolInv.dedicated_block (hpool : PoolInv pools F live s) {x : Live} (hx : x ∈ live)
    (hi : ¬ poolIndex x.size < blockSizesLen) :
    x.cell.len = pageSize * numPages (x.size + headerSize) ∧ x.block % pageSize = 0 := by
  have hlen : x.cell.len = pageSize * numPages (x.size + headerSize) := if_neg hi
  have hal := (hpool.live_inHeap hx).aligned
  have hle := le_numPages (x.size + headerSize)
  rw [hlen, Nat.min_eq_right (by unfold pageSize headerSize at *; omega)] at hal
  exact ⟨hlen, hal⟩

/-- Blocks are aligned to words. -/
theorem PoolInv.block_aligned (hpool : PoolInv pools F live s) {x : Live} (hx : x ∈ live) : x.block % 8 = 0 := by
  rcases Nat.lt_or_ge (poolIndex x.size) blockSizesLen with hi | hi
  · exact (hpool.live_inHeap hx).word_aligned hi (if_pos hi)
  · have hal := (hpool.dedicated_block hx (Nat.not_lt.2 hi)).2
    unfold pageSize at hal
    omega

include hall hp in
/-- `kfree` reads the header of the request. -/
theorem PagedInv.header (hinv : PagedInv all M root pools m₀ A F live data s h) {x : Live} (hx : x ∈ live) :
    (x.ptr + (2 ^ 64 - headerSize)) % 2 ^ 64 = x.block ∧
      (PagedMem.load x.block h.kernel = .ok (load64 s.mem x.block, h.kernel) ∧
        PagedMem.load x.block s = .ok (load64 s.mem x.block, s)) ∧
      PagedMem.load (x.block + 8) h.kernel = .ok (load64 s.mem (x.block + 8), h.kernel) ∧
        PagedMem.load (x.block + 8) s = .ok (load64 s.mem (x.block + 8), s) := by
  have hmod := hinv.pool.block_aligned hx
  have hhead (n : Nat) (hn : n ≤ 8) (b : Nat) (hb : InRange (x.block + n) 8 b) : b ∈ Known pools F live data :=
    .inr (.inr (.inl ⟨x, hx, hb.mono (Nat.le_add_right _ _) (by unfold headerSize; omega)⟩))
  exact ⟨(hinv.pool.kfree_block hx).1, hinv.tracks.load hall hp hmod (hhead 0 (by omega)),
    hinv.tracks.load hall hp (by omega) (hhead 8 (Nat.le_refl 8))⟩

include hall hp in
/-- `kfree` of a block of a pool. -/
theorem PagedInv.kfree_pool (hinv : PagedInv all M root pools m₀ A F live data s h) {x : Live} (hx : x ∈ live)
    (hi : poolIndex x.size < blockSizesLen) (e : Stop) :
    Lockstep e (BanjOS.kfree x.ptr h.kernel) (BanjOS.kfree x.ptr s) fun k' s' => ∃ pages freed,
      PagedInv all M root pools m₀ A (Function.update F (poolIndex x.size) (x.block :: F (poolIndex x.size)))
        (live.erase x) (forget x data) s' ⟨k', pages, freed⟩ := by
  rcases hinv.header hall hp hx with ⟨hblock, ⟨hk₀, hs₀⟩, hk₈, hs₈⟩
  have hhead := hinv.pool.headers x hx
  rw [Live.Header, if_pos hi] at hhead
  have hne : poolAddr pools (poolIndex x.size) ≠ 0 := by
    have hpos := hp.pos
    unfold poolAddr
    omega
  rcases hinv.pool.drop hx with ⟨hpool, hap⟩
  have hin := hinv.pool.live_inHeap hx
  have hcell : x.cell = ⟨x.block, blockSize (poolIndex x.size)⟩ := by
    rw [Live.cell, blockLen, if_pos hi]
  rw [hcell] at hap hin
  have hinv₁ : PagedInv all M root pools m₀ A F (live.erase x) (forget x data) s h :=
    ⟨hpool, hinv.tracks.mono (known_erase x), fun b c hb => hinv.data_erase x hb⟩
  have hready : ReadyByte pools h x.block :=
    hinv.tracks.ready _ (.inr (.inr (.inl ⟨x, hx, Nat.le_refl _, by unfold headerSize; omega⟩)))
  have hkernel : BanjOS.kfree x.ptr h.kernel = BanjOS.pushBlock (poolAddr pools (poolIndex x.size)) x.block h.kernel := by
    rw [BanjOS.kfree, hblock, hk₀]
    simp only [Except.ok_bind, hk₈, hhead.1, if_pos hne]
    rfl
  have hflat : BanjOS.kfree x.ptr s = BanjOS.pushBlock (poolAddr pools (poolIndex x.size)) x.block s := by
    rw [BanjOS.kfree, hblock, hs₀]
    simp only [Except.ok_bind, hs₈, hhead.1, if_pos hne]
    rfl
  rw [hkernel, hflat]
  exact (hinv₁.pushBlock hall hp hi hin hap (.inl hready)).mono fun k' s' _ hs' => ⟨_, _, hs'.2.2⟩

theorem freePages_kernel (v : Nat) (num : Int) (k : Kernel) : PagedMem.freePages v num k = mmuFreePages v num k := rfl

theorem freePages_flat (v : Nat) (num : Int) (s : Flat) :
    PagedMem.freePages v num s = .ok (s.release v (pageBytes num)) := rfl

include hall hp in
/-- `kfree` of a dedicated block gives back its pages. -/
theorem PagedInv.kfree_dedicated_eq (hinv : PagedInv all M root pools m₀ A F live data s h) {x : Live} (hx : x ∈ live)
    (hi : ¬ poolIndex x.size < blockSizesLen) :
    BanjOS.kfree x.ptr h.kernel = mmuFreePages x.ptr (toInt (numPages (x.size + headerSize))) h.kernel ∧
      BanjOS.kfree x.ptr s = .ok (s.release x.ptr (pageBytes (toInt (numPages (x.size + headerSize))))) := by
  rcases hinv.header hall hp hx with ⟨hblock, ⟨hk₀, hs₀⟩, hk₈, hs₈⟩
  have hhead := hinv.pool.headers x hx
  rw [Live.Header, if_neg hi] at hhead
  constructor
  · rw [BanjOS.kfree, hblock, hk₀, Except.ok_bind]
    dsimp only
    rw [hk₈, Except.ok_bind]
    dsimp only
    rw [hhead.1, hhead.2, if_neg (not_not.2 rfl), freePages_kernel]
  · rw [BanjOS.kfree, hblock, hs₀, Except.ok_bind]
    dsimp only
    rw [hs₈, Except.ok_bind]
    dsimp only
    rw [hhead.1, hhead.2, if_neg (not_not.2 rfl), freePages_flat]

/-- The pages of a dedicated block. -/
theorem PoolInv.dedicated_pages (hpool : PoolInv pools F live s) {x : Live} (hx : x ∈ live)
    (hi : ¬ poolIndex x.size < blockSizesLen) (b : Nat) : InRange x.cell.addr x.cell.len b ↔
      x.ptr / pageSize ≤ b / pageSize ∧ b / pageSize < x.ptr / pageSize + numPages (x.size + headerSize) := by
  rcases hpool.dedicated_block hx hi with ⟨hlen, hal⟩
  have hptr := (hpool.ptr_eq hx).1
  have haddr : x.cell.addr = x.block := rfl
  rw [hlen, haddr]
  unfold InRange pageSize headerSize at *
  omega

/-- The pages of a dedicated block are reserved, and each has bytes of it. -/
theorem PagedInv.dedicated_page (hinv : PagedInv all M root pools m₀ A F live data s h) {x : Live} (hx : x ∈ live)
    (hi : ¬ poolIndex x.size < blockSizesLen) {j : Nat} (h₁ : x.ptr / pageSize ≤ j)
    (h₂ : j < x.ptr / pageSize + numPages (x.size + headerSize)) :
    j ∈ h.live ∧ ∃ b, InRange x.cell.addr x.cell.len b ∧ b / pageSize = j := by
  have hdiv : pageSize * j / pageSize = j := Nat.mul_div_cancel_left j (by decide)
  have hbyte := (hinv.pool.dedicated_pages hx hi (pageSize * j)).2 ⟨hdiv.symm ▸ h₁, hdiv.symm ▸ h₂⟩
  have hlive := hinv.tracks.live_of_inHeap (hinv.pool.live_inHeap hx) hbyte
  rw [hdiv] at hlive
  exact ⟨hlive, _, hbyte, hdiv⟩

include hall hp in
/-- A dedicated block with all pages resident is freed. -/
theorem PagedInv.kfree_dedicated (hinv : PagedInv all M root pools m₀ A F live data s h) {x : Live} (hx : x ∈ live)
    (hi : ¬ poolIndex x.size < blockSizesLen)
    (hres : ∀ b, InRange x.cell.addr x.cell.len b → (h.kernel.leaf (b / pageSize)).present = true) :
    ∃ k' s' pages freed, BanjOS.kfree x.ptr h.kernel = .ok k' ∧ BanjOS.kfree x.ptr s = .ok s' ∧
      PagedInv all M root pools m₀ A F (live.erase x) (forget x data) s' ⟨k', pages, freed⟩ := by
  rcases hinv.kfree_dedicated_eq hall hp hx hi with ⟨hk, hs⟩
  rcases hinv.pool.kfree_dedicated hx hi with ⟨s', hok, hpool⟩
  have hpages := hinv.pool.dedicated_pages hx hi
  have hin := hinv.pool.live_inHeap hx
  have hap := (hinv.pool.drop hx).2
  obtain rfl := Except.ok.inj (hok.symm.trans hs)
  have hle := le_numPages (x.size + headerSize)
  rcases numPages_bounds (hinv.pool.small x hx) with ⟨hbytes, hlt⟩
  have hpage (j : Nat) (h₁ : x.ptr / pageSize ≤ j) (h₂ : j < x.ptr / pageSize + numPages (x.size + headerSize)) :
      j ∈ h.live ∧ (h.kernel.leaf j).present = true := by
    rcases hinv.dedicated_page hx hi h₁ h₂ with ⟨hlive, b, hb, rfl⟩
    exact ⟨hlive, hres b hb⟩
  rcases hinv.tracks.freePages hall hp (by unfold pageSize headerSize at *; omega) hlt hbytes hpage with
    ⟨k', pages, freed, hrun, ht⟩
  refine ⟨k', _, pages, freed, hk.trans hrun, hs, hpool, ht.mono fun b hb => ⟨known_erase x hb, fun hb' => ?_⟩,
    fun b c hb => hinv.data_erase x hb⟩
  -- what is known of the others is in no page of the block
  have hcell := (hpages b).2 hb'
  rcases hb with hb | ⟨i, hi, a, ha, hb⟩ | ⟨y, hy, hb⟩ | ⟨c, hb⟩
  · have hlow := hin.lower
    have hbelow : pools + poolsLen ≤ addrSpaceKernelHeapBase := hp.below
    have h₁ := hb.2
    have h₂ := hcell.1
    omega
  · have hlen := le_blockSize_of_lt hi
    exact (hap _ (List.mem_append_left _ (mem_freeCells.2 ⟨i, hi, a, ha, rfl⟩))).not_inRange hcell
      ⟨Nat.le_refl _, Nat.le_refl _⟩ ⟨Nat.le_refl _, by dsimp only; omega⟩ hb
  · exact (hap _ (List.mem_append_right _ (List.mem_map_of_mem hy))).not_inRange hcell
      ⟨Nat.le_refl _, Nat.le_refl _⟩ ⟨Nat.le_refl _, Nat.add_le_add_left y.le_len _⟩ hb
  · rcases (hinv.data_erase x hb).2 with ⟨y, hy, hin'⟩
    have hy' := hinv.pool.payload_byte (List.mem_of_mem_erase hy) hin'
    exact (hap _ (List.mem_append_right _ (List.mem_map_of_mem hy))).not_inRange hcell
      ⟨Nat.le_refl _, Nat.le_refl _⟩ ⟨Nat.le_refl _, Nat.le_refl _⟩ hy'.1

include hall hp in
/-- A dedicated block with a page that was never used is not. -/
theorem PagedInv.kfree_untouched (hinv : PagedInv all M root pools m₀ A F live data s h) {x : Live} (hx : x ∈ live)
    (hi : ¬ poolIndex x.size < blockSizesLen) {b : Nat} (hb : InRange x.cell.addr x.cell.len b)
    (habs : (h.kernel.leaf (b / pageSize)).present = false) :
    BanjOS.kfree x.ptr h.kernel = .error (.notAvailable 0) := by
  have hpages := hinv.pool.dedicated_pages hx hi
  have hin := hinv.pool.live_inHeap hx
  rcases hinv.tracks.run with ⟨top, hrun, -⟩
  have htop := hrun.inv.heap.top_lt hall
  rcases numPages_bounds (hinv.pool.small x hx) with ⟨hbytes, hlt⟩
  have hlive (j : Nat) (h₁ : x.ptr / pageSize ≤ j) (h₂ : j < x.ptr / pageSize + numPages (x.size + headerSize)) :
      j ∈ h.live := (hinv.dedicated_page hx hi h₁ h₂).1
  rcases (hpages b).1 hb with ⟨hle, hlt'⟩
  have hfirst := (hrun.marked _).1 (.inl (hlive _ (Nat.le_refl _) (by omega)))
  have hlast := (hrun.marked _).1 (.inl (hlive (x.ptr / pageSize + numPages (x.size + headerSize) - 1) (by omega)
    (by omega)))
  rw [(hinv.kfree_dedicated_eq hall hp hx hi).1, mmuFreePages_eq (by unfold pageSize at hfirst; omega) hlt hbytes]
  exact KernelInv.freePagesFrom_null hall _ _ h.kernel hrun.inv hfirst.1 (by omega)
    (fun j h₁ h₂ => hrun.present_or_zero (hlive j h₁ h₂)) ⟨b / pageSize, hle, hlt', habs⟩

end

end BanjOS
