import BanjOS.Allocator.PoolRuns
import BanjOS.Lib.Refill

/-!
# The pages of the pools

How many pages a pool takes from `MMU_alloc_page`. The calls are counted by running `kmalloc` over a
memory that counts them (`Tallied`); the code is the same, and the count changes nothing else
(`kmalloc_tallied`). Over the counted runs of `kmalloc`, `kfree` and writes of the clients, a pool is a
`Refilled` pool whose batch is the blocks of a page (`counted_pools`).
-/

namespace BanjOS

open ByteMem PagedMem

/-! ## Counting the calls -/

/-- A memory and the number of calls of `MMU_alloc_page`. -/
structure Tallied (σ : Type) where
  state : σ
  calls : Nat

namespace Tallied

variable {σ α : Type}

/-- The result of a call over the memory alone, at the count `n`. -/
def result (n : Nat) (r : α × σ) : α × Tallied σ := (r.1, ⟨r.2, n⟩)

instance [PagedMem σ] : PagedMem (Tallied σ) where
  load v t := result t.calls <$> load v t.state
  store v x t := (fun s => ⟨s, t.calls⟩) <$> store v x t.state
  allocPage t := result (t.calls + 1) <$> allocPage t.state
  allocPages num t := result t.calls <$> allocPages num t.state
  freePages v num t := (fun s => ⟨s, t.calls⟩) <$> freePages v num t.state

variable {β γ : Type} {n : Nat}

/-- A sequence of calls over the counting memory, call by call. -/
theorem bind_result {x : Except Stop (α × σ)} {f : α × Tallied σ → Except Stop γ} {g : α × σ → Except Stop β}
    {h : β → γ} (hfg : ∀ a s, f (a, ⟨s, n⟩) = h <$> g (a, s)) : (result n <$> x >>= f) = h <$> (x >>= g) := by
  rw [bind_map_left, map_bind]
  exact bind_congr fun r => hfg r.1 r.2

/-- The same for a first call that returns nothing. -/
theorem bind_state {x : Except Stop σ} {f : Tallied σ → Except Stop γ} {g : σ → Except Stop β}
    {h : β → γ} (hfg : ∀ s, f ⟨s, n⟩ = h <$> g s) : ((fun s => ⟨s, n⟩) <$> x >>= f) = h <$> (x >>= g) := by
  rw [bind_map_left, map_bind]
  exact bind_congr hfg

end Tallied

section
variable {σ : Type} [PagedMem σ]

open Tallied

/-- The search takes no page. -/
theorem findPool_tallied (pools size : Nat) (n : Nat) :
    ∀ (k i : Nat) (s : σ), findPool pools size k i (⟨s, n⟩ : Tallied σ) =
      result n <$> findPool pools size k i s := by
  intro k
  induction k with
  | zero =>
    intro i s
    rfl
  | succ k ih =>
    intro i s
    refine bind_result fun maxSize s₁ => ?_
    dsimp only
    split
    · exact ih (i + 1) s₁
    · rfl

/-- The carving loop takes no page. -/
theorem pushBlocks_tallied (pool size n : Nat) :
    ∀ (k block : Nat) (s : σ), pushBlocks pool size k block (⟨s, n⟩ : Tallied σ) =
      (fun s => (⟨s, n⟩ : Tallied σ)) <$> pushBlocks pool size k block s := by
  intro k
  induction k with
  | zero =>
    intro block s
    rfl
  | succ k ih =>
    intro block s
    refine bind_result fun head s₁ => ?_
    refine bind_state fun s₂ => ?_
    exact bind_state fun s₃ => ih (block + size) s₃

/-- `pool_allocate_page` takes one page. -/
theorem poolAllocatePage_tallied (pool n : Nat) (s : σ) :
    poolAllocatePage pool (⟨s, n⟩ : Tallied σ) =
      (fun s => (⟨s, n + 1⟩ : Tallied σ)) <$> poolAllocatePage pool s := by
  refine bind_result fun page s₁ => ?_
  refine bind_result fun maxSize s₂ => ?_
  dsimp only
  split_ifs
  · rfl
  · exact pushBlocks_tallied ..

/-- Taking a block takes no page. -/
theorem takeBlock_tallied (pool n : Nat) (s : σ) :
    takeBlock pool (⟨s, n⟩ : Tallied σ) = result n <$> takeBlock pool s := by
  refine bind_result fun addr s₁ => ?_
  refine bind_result fun next s₂ => ?_
  refine bind_state fun s₃ => ?_
  refine bind_state fun s₄ => ?_
  exact bind_state fun s₅ => rfl

/-- The pool branch takes a page iff the list is empty. -/
theorem kmallocPool_tallied {pool head : Nat} (n : Nat) {s : σ} (hload : load (headOf pool) s = .ok (head, s)) :
    kmallocPool pool (⟨s, n⟩ : Tallied σ) =
      result (n + if head = 0 then 1 else 0) <$> kmallocPool pool s := by
  have hload' : load (headOf pool) (⟨s, n⟩ : Tallied σ) = .ok (head, ⟨s, n⟩) := congrArg (result n <$> ·) hload
  rw [kmallocPool, kmallocPool, hload, hload', Except.ok_bind, Except.ok_bind]
  dsimp only
  rcases Decidable.em (head = 0) with h0 | h0
  · rw [if_pos h0, if_pos h0, if_pos h0, poolAllocatePage_tallied]
    exact bind_state fun s₁ => takeBlock_tallied pool (n + 1) s₁
  · rw [if_neg h0, if_neg h0, if_neg h0]
    exact takeBlock_tallied pool n s

/-- The dedicated branch takes its pages from `MMU_alloc_pages`. -/
theorem kmallocDedicated_tallied (size n : Nat) (s : σ) :
    kmallocDedicated size (⟨s, n⟩ : Tallied σ) = result n <$> kmallocDedicated size s := by
  refine bind_result fun addr s₁ => ?_
  refine bind_state fun s₂ => ?_
  exact bind_state fun s₃ => rfl

end

/-! ## Runs -/

/-- The live blocks of the pool `i`. -/
def liveIn (i : Nat) (live : List Live) : Nat := live.countP fun x => poolIndex x.size = i

/-- The virtual memory, the live requests, and for each pool the pages it took from `MMU_alloc_page` and the
most blocks of it that were live at once. -/
structure CountedState where
  flat : Flat
  live : List Live
  pages : Nat → Nat
  peak : Nat → Nat

/-- The state after a call that leaves the memory `flat` and the requests `live`. -/
def CountedState.next (t : CountedState) (flat : Flat) (live : List Live) : CountedState where
  flat := flat
  live := live
  pages := t.pages
  peak := fun i => max (t.peak i) (liveIn i live)

/-- The pool `i` takes `n` pages. -/
def CountedState.takePages (t : CountedState) (i n : Nat) : CountedState :=
  { t with pages := Function.update t.pages i (t.pages i + n) }

/-- The state after `init_alloc`. -/
def CountedState.start (s : Flat) : CountedState := ⟨s, [], fun _ => 0, fun _ => 0⟩

/-- One step of the clients, as in `PoolStep`. The pages `kmalloc` takes go to the pool its search finds. -/
inductive CountedStep (pools : Nat) : CountedState → CountedState → Prop
  | malloc {t : CountedState} {s₁ s' : Flat} {size p i n : Nat} : size + 4112 < 2 ^ 31 →
      findPool pools size blockSizesLen 0 t.flat = .ok (i, s₁) →
      kmalloc pools size (⟨t.flat, 0⟩ : Tallied Flat) = .ok (p, ⟨s', n⟩) →
      CountedStep pools t ((t.next s' (⟨p, size⟩ :: t.live)).takePages i n)
  | free {t : CountedState} {s' : Flat} {x : Live} : x ∈ t.live → kfree x.ptr t.flat = .ok s' →
      CountedStep pools t (t.next s' (t.live.erase x))
  | write {t : CountedState} {mem : Mem} :
      (∀ b, (∀ x ∈ t.live, ¬ InRange x.ptr x.size b) → mem b = t.flat.mem b) →
      CountedStep pools t (t.next { t.flat with mem } t.live)

/-- The invariant: every pool is a refilled one. -/
structure CountedInv (pools : Nat) (F : Nat → List Nat) (t : CountedState) : Prop where
  inv : PoolInv pools F t.live t.flat
  refilled : ∀ i, i < blockSizesLen →
    Refilled (pageSize / blockSize i) (F i).length (liveIn i t.live) (t.pages i) (t.peak i)

section
variable {pools : Nat} (hp : PoolsOK pools) {F : Nat → List Nat} {live : List Live} {s : Flat}

theorem liveIn_cons (i : Nat) (x : Live) :
    liveIn i (x :: live) = liveIn i live + if poolIndex x.size = i then 1 else 0 := by
  rw [liveIn, List.countP_cons]
  simp only [decide_eq_true_eq]
  rfl

theorem liveIn_erase (i : Nat) {x : Live} (hx : x ∈ live) :
    liveIn i live = liveIn i (live.erase x) + if poolIndex x.size = i then 1 else 0 := by
  rw [← liveIn_cons]
  exact (List.perm_cons_erase hx).countP_eq _

/-- A page holds at least two blocks. -/
theorem blocks_pos {i : Nat} (hi : i < blockSizesLen) : 0 < pageSize / blockSize i := by
  unfold pageSize
  rcases blockSize_cases hi with h | h | h | h | h | h <;> rw [h] <;> decide

include hp

/-- `kmalloc` takes one page if the list of its pool is empty, and none otherwise. -/
theorem PoolInv.kmalloc_tallied (h : PoolInv pools F live s) (size n : Nat) :
    BanjOS.kmalloc pools size (⟨s, n⟩ : Tallied Flat) =
      Tallied.result (n + if poolIndex size < blockSizesLen ∧ F (poolIndex size) = [] then 1 else 0) <$>
        BanjOS.kmalloc pools size s := by
  have hfind := h.findPool hp size blockSizesLen 0 rfl
  rw [Nat.zero_add] at hfind
  have hsearch : BanjOS.kmalloc pools size (⟨s, n⟩ : Tallied Flat) =
      if poolIndex size < blockSizesLen then
        BanjOS.kmallocPool (poolAddr pools (poolIndex size)) (⟨s, n⟩ : Tallied Flat)
      else BanjOS.kmallocDedicated size (⟨s, n⟩ : Tallied Flat) := by
    rw [BanjOS.kmalloc, findPool_tallied, hfind]
    rfl
  rw [hsearch, h.kmalloc_eq hp]
  rcases Nat.lt_or_ge (poolIndex size) blockSizesLen with hi | hi
  · have hchain := h.chains _ hi
    have hempty : load64 s.mem (headOf (poolAddr pools (poolIndex size))) = 0 ↔ F (poolIndex size) = [] := by
      refine ⟨fun h0 => ?_, fun hF => ?_⟩
      · rw [h0] at hchain
        exact hchain.eq_nil
      · rw [hF] at hchain
        exact hchain.head_nil
    rw [if_pos hi, if_pos hi, kmallocPool_tallied n (Flat.load_eq (hp.accessible_head hi))]
    simp only [hempty, hi, true_and]
  · have hge : ¬ poolIndex size < blockSizesLen := Nat.not_lt.2 hi
    rw [if_neg hge, if_neg hge, if_neg fun h => hge h.1]
    exact kmallocDedicated_tallied size n s

/-- A request keeps the invariant. -/
theorem CountedInv.malloc {t : CountedState} (h : CountedInv pools F t) {s₁ s' : Flat} {size p i n : Nat}
    (hsmall : size + 4112 < 2 ^ 31) (hfind : findPool pools size blockSizesLen 0 t.flat = .ok (i, s₁))
    (hrun : kmalloc pools size (⟨t.flat, 0⟩ : Tallied Flat) = .ok (p, ⟨s', n⟩)) :
    ∃ F', CountedInv pools F' ((t.next s' (⟨p, size⟩ :: t.live)).takePages i n) := by
  have hsearch := h.inv.findPool hp size blockSizesLen 0 rfl
  rw [Nat.zero_add, hfind] at hsearch
  obtain rfl : i = poolIndex size := congrArg Prod.fst (Except.ok.inj hsearch)
  rw [h.inv.kmalloc_tallied hp] at hrun
  obtain he | ⟨q, s'', F', hok, hinv, hfree⟩ := h.inv.kmalloc_lists hp hsmall
  · rw [he] at hrun
    cases hrun
  · rw [hok] at hrun
    cases hrun
    refine ⟨F', hinv, fun j hj => ?_⟩
    have hj' := h.refilled j hj
    have hlen := hfree j hj
    show Refilled _ _ (liveIn j (⟨q, size⟩ :: t.live)) (Function.update t.pages _ _ j)
      (max (t.peak j) (liveIn j (⟨q, size⟩ :: t.live)))
    rw [liveIn_cons]
    dsimp only
    by_cases hsize : poolIndex size = j
    · subst hsize
      rw [Function.update_self, if_pos rfl, Nat.zero_add]
      simp only [hj, true_and, ↓reduceIte, ← List.length_eq_zero_iff] at hlen ⊢
      exact hj'.take (blocks_pos hj) hlen
    · rw [Function.update_of_ne (Ne.symm hsize), if_neg hsize, Nat.add_zero, hj'.max_peak]
      simp only [hsize, false_and, ↓reduceIte, Nat.add_zero] at hlen
      rwa [hlen]

/-- A free keeps the invariant. -/
theorem CountedInv.free {t : CountedState} (h : CountedInv pools F t) {s' : Flat} {x : Live}
    (hx : x ∈ t.live) (hrun : kfree x.ptr t.flat = .ok s') :
    ∃ F', CountedInv pools F' (t.next s' (t.live.erase x)) := by
  obtain ⟨s'', F', hok, hinv, hlen⟩ := h.inv.kfree hp hx
  rw [hok] at hrun
  cases hrun
  refine ⟨F', hinv, fun j hj => ?_⟩
  have hj' := h.refilled j hj
  have hput : Refilled (pageSize / blockSize j) (F' j).length (liveIn j (t.live.erase x)) (t.pages j)
      (t.peak j) := by
    rw [liveIn_erase j hx] at hj'
    rw [hlen j hj]
    split
    · next hsize =>
      rw [if_pos hsize] at hj'
      exact hj'.put
    · next hsize =>
      rw [if_neg hsize] at hj'
      exact hj'
  show Refilled _ _ _ _ (max (t.peak j) (liveIn j (t.live.erase x)))
  rw [hput.max_peak]
  exact hput

/-- One step keeps the invariant. -/
theorem CountedStep.inv {t t' : CountedState} (h : CountedStep pools t t') (ht : ∃ F, CountedInv pools F t) :
    ∃ F, CountedInv pools F t' := by
  obtain ⟨F, hF⟩ := ht
  cases h with
  | malloc hsmall hfind hrun => exact hF.malloc hp hsmall hfind hrun
  | free hx hrun => exact hF.free hp hx hrun
  | write hw =>
    refine ⟨F, hF.inv.clientWrite hp hw, fun j hj => ?_⟩
    show Refilled _ _ _ _ (max (t.peak j) (liveIn j t.live))
    rw [(hF.refilled j hj).max_peak]
    exact hF.refilled j hj

omit hp in
/-- The header of a live block names its pool. -/
theorem PoolInv.header_eq_iff (hp : PoolsOK pools) (h : PoolInv pools F live s) {x : Live} (hx : x ∈ live)
    {i : Nat} (hi : i < blockSizesLen) :
    load64 s.mem x.block = poolAddr pools i ↔ poolIndex x.size = i := by
  have hhead := h.headers x hx
  have hpos := hp.pos
  unfold Live.Header at hhead
  unfold poolAddr at *
  split at hhead
  · rw [hhead.1]
    omega
  · rw [hhead.1]
    omega

end

/-- Pools never leak blocks. After `init_alloc`, in every state the clients can reach, the free and the live
blocks of a pool are the blocks of the pages it took, and it took as many pages as its busiest moment
needed. The live blocks of a pool are those whose header names it. -/
theorem counted_pools {pools : Nat} (hp : PoolsOK pools) {s s₀ : Flat} (hs : FlatBoot s)
    (hinit : initAlloc pools s = .ok s₀) {t : CountedState}
    (hrun : Relation.ReflTransGen (CountedStep pools) (.start s₀) t) {i : Nat} (hi : i < blockSizesLen) :
    t.pages i = t.peak i ⌈/⌉ (pageSize / blockSize i) ∧
      (∃ free, Chain t.flat.mem (load64 t.flat.mem (headOf (poolAddr pools i))) free ∧
        free.length + liveIn i t.live = t.pages i * (pageSize / blockSize i)) ∧
      ∀ x ∈ t.live, load64 t.flat.mem x.block = poolAddr pools i ↔ poolIndex x.size = i := by
  obtain ⟨mem, hok, hinv⟩ := initAlloc_poolInv hp hs
  rw [hok] at hinit
  cases hinit
  have hstart : ∃ F, CountedInv pools F (.start { s with mem }) := ⟨_, hinv, fun _ _ => .start⟩
  obtain ⟨F, hF⟩ := hrun.invariant (fun t => ∃ F, CountedInv pools F t) hstart fun _ _ => CountedStep.inv hp
  have hpool := hF.refilled i hi
  exact ⟨hpool.batches_eq, ⟨F i, hF.inv.chains i hi, hpool.total⟩, fun x hx => hF.inv.header_eq_iff hp hx hi⟩

/-- Two requests of 2000 bytes are the two blocks of one page. -/
theorem counted_pools_two_requests : ∃ s₀ t,
    initAlloc 0x1000 (⟨fun _ => 0, addrSpaceKernelHeapBase, fun _ => false⟩ : Flat) = .ok s₀ ∧
      Relation.ReflTransGen (CountedStep 0x1000) (.start s₀) t ∧ liveIn 5 t.live = 2 ∧ t.pages 5 = 1 := by
  have hok : (initAlloc 0x1000 (⟨fun _ => 0, addrSpaceKernelHeapBase, fun _ => false⟩ : Flat) >>= fun s =>
      findPool 0x1000 2000 blockSizesLen 0 s >>= fun _ =>
      kmalloc 0x1000 2000 (⟨s, 0⟩ : Tallied Flat) >>= fun r =>
      findPool 0x1000 2000 blockSizesLen 0 r.2.state >>= fun _ =>
      kmalloc 0x1000 2000 (⟨r.2.state, 0⟩ : Tallied Flat)).isOk = true := by
    decide +kernel
  obtain ⟨⟨q, s₂, n₂⟩, h⟩ := Except.exists_of_isOk hok
  obtain ⟨s₀, hinit, h⟩ := Except.bind_eq_ok.1 h
  obtain ⟨⟨i, _⟩, hfind₁, h⟩ := Except.bind_eq_ok.1 h
  obtain ⟨⟨p, s₁, n₁⟩, hrun₁, h⟩ := Except.bind_eq_ok.1 h
  obtain ⟨⟨j, _⟩, hfind₂, hrun₂⟩ := Except.bind_eq_ok.1 h
  have hfirst := CountedStep.malloc (t := .start s₀) (by decide) hfind₁ hrun₁
  have hrun := (Relation.ReflTransGen.single hfirst).tail (.malloc (by decide) hfind₂ hrun₂)
  have hp : PoolsOK 0x1000 := ⟨by decide, by decide⟩
  have hs : FlatBoot ⟨fun _ => 0, addrSpaceKernelHeapBase, fun _ => false⟩ :=
    ⟨by decide, by decide, by decide, fun _ => rfl⟩
  have hpages := (counted_pools hp hs hinit hrun (i := 5) (by decide)).1
  have hlive : liveIn 5 [⟨p, 2000⟩] = 1 ∧ liveIn 5 [⟨q, 2000⟩, ⟨p, 2000⟩] = 2 := ⟨rfl, rfl⟩
  refine ⟨s₀, _, hinit, hrun, hlive.2, hpages.trans ?_⟩
  show max (max 0 (liveIn 5 [⟨p, 2000⟩])) (liveIn 5 [⟨q, 2000⟩, ⟨p, 2000⟩]) ⌈/⌉ (pageSize / blockSize 5) = 1
  rw [hlive.1, hlive.2]
  decide

end BanjOS
