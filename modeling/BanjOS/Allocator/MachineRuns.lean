import BanjOS.Allocator.PagedRuns
import BanjOS.Lib.Trace

/-!
# Runs of kmalloc on the machine

The clients of `kmalloc`, from boot on: they allocate, free, and read and write bytes of what they asked for. On the machine
every access goes through the page tables and can fault; over the flat memory none does. `PagedInv.step` matches each step
on the machine by the same one over the flat memory, so the two have the same histories (`kmallocRun_refines`), and what was
written last at a byte is what is read there (`kmallocRun_sound`).

The clients ask for less than `2 ^ 31 - 4112` bytes at a time, where no size wraps (`growsBy_iff` says what happens above).
-/

namespace BanjOS

open ByteMem PagedMem

/-! ## Clients -/

/-- The memory that clients of `kmalloc` work in: bytes at virtual addresses. -/
class PagedBytes (σ : Type) extends PagedMem σ where
  /-- Read the byte at a virtual address. -/
  loadByte : Nat → σ → Except Stop (UInt8 × σ)
  /-- Write the byte at a virtual address. -/
  storeByte : Nat → UInt8 → σ → Except Stop σ

/-- A client reads the byte at a virtual address. -/
def Kernel.loadByte (v : Nat) (k : Kernel) : Except Stop (UInt8 × Kernel) := do
  let k ← touch v k
  .ok (k.phys.mem (k.translate v), k)

/-- A client writes the byte at a virtual address. -/
def Kernel.storeByte (v : Nat) (c : UInt8) (k : Kernel) : Except Stop Kernel := do
  let k ← touch v k
  .ok { k with phys := { k.phys with mem := storeLE k.phys.mem (k.translate v) 1 c.toNat } }

instance : PagedBytes Kernel := ⟨Kernel.loadByte, Kernel.storeByte⟩

/-- The same over the flat memory. -/
def Flat.loadByte (v : Nat) (s : Flat) : Except Stop (UInt8 × Flat) :=
  if s.accessible v then .ok (s.mem v, s) else .error (.notAvailable v)

def Flat.storeByte (v : Nat) (c : UInt8) (s : Flat) : Except Stop Flat :=
  if s.accessible v then .ok { s with mem := storeLE s.mem v 1 c.toNat } else .error (.notAvailable v)

instance : PagedBytes Flat := ⟨Flat.loadByte, Flat.storeByte⟩

/-- The heap, the live requests (each of less than `2 ^ 31 - 4112` bytes: `KmallocStep.malloc`), and what the clients have
written in them. -/
structure KmallocState (σ : Type) where
  heap : σ
  live : List Live
  data : Nat → Option UInt8

namespace KmallocState

variable {σ : Type} [PagedBytes σ]

/-- A call of `kmalloc`. -/
def malloc (pools size : Nat) (t : KmallocState σ) : Except Stop (Nat × KmallocState σ) := do
  let (p, heap) ← kmalloc pools size t.heap
  .ok (p, ⟨heap, ⟨p, size⟩ :: t.live, t.data⟩)

/-- A call of `kfree`. -/
def free (x : Live) (t : KmallocState σ) : Except Stop (KmallocState σ) := do
  let heap ← kfree x.ptr t.heap
  .ok ⟨heap, t.live.erase x, forget x t.data⟩

/-- A read of a byte. -/
def read (b : Nat) (t : KmallocState σ) : Except Stop (UInt8 × KmallocState σ) := do
  let (c, heap) ← PagedBytes.loadByte b t.heap
  .ok (c, { t with heap })

/-- A write of a byte. -/
def write (b : Nat) (c : UInt8) (t : KmallocState σ) : Except Stop (KmallocState σ) := do
  let heap ← PagedBytes.storeByte b c t.heap
  .ok { t with heap, data := Function.update t.data b (some c) }

end KmallocState

/-- What a client asks for and gets. A read of a byte that was not written since it was handed out gets anything. -/
inductive KmallocEvent
  | malloc (size p : Nat)
  | free (p : Nat)
  | read (b : Nat) (c : Option UInt8)
  | write (b : Nat) (c : UInt8)
  deriving DecidableEq

/-- One step of the clients: a request of less than `2 ^ 31 - 4112` bytes, the free of a live block, or a read or a write in
one. -/
inductive KmallocStep {σ : Type} [PagedBytes σ] (pools : Nat) : KmallocState σ → KmallocEvent → KmallocState σ → Prop
  | malloc {t t' : KmallocState σ} {size p : Nat} : size + 4112 < 2 ^ 31 → t.malloc pools size = .ok (p, t') →
      KmallocStep pools t (.malloc size p) t'
  | free {t t' : KmallocState σ} {x : Live} : x ∈ t.live → t.free x = .ok t' → KmallocStep pools t (.free x.ptr) t'
  | read {t t' : KmallocState σ} {x : Live} {b : Nat} {c : UInt8} : x ∈ t.live → InRange x.ptr x.size b →
      t.read b = .ok (c, t') → KmallocStep pools t (.read b ((t.data b).map fun _ => c)) t'
  | write {t t' : KmallocState σ} {x : Live} {b : Nat} {c : UInt8} : x ∈ t.live → InRange x.ptr x.size b →
      t.write b c = .ok t' → KmallocStep pools t (.write b c) t'

/-- Where the pool table is: static data of the kernel, below the end of memory and in no usable region. -/
structure PoolsPlaced (regions : List MemRegion) (pools : Nat) : Prop where
  aligned : pools % 8 = 0
  lower : pageSize ≤ pools
  upper : pools + poolsLen ≤ memEnd regions
  outside : ∀ r ∈ regions, pools + poolsLen ≤ r.start ∨ r.stop ≤ pools

theorem PoolsPlaced.static {regions : List MemRegion} (hr : BootRegions regions) {M pools : Nat} (hM : M < 2 ^ 27)
    (hend : memEnd regions = pageSize * (M + 1)) (hp : PoolsPlaced regions pools) :
    PoolsStatic (allPages regions) M pools where
  pos := (show 0 < pageSize by decide).trans_le hp.lower
  below := by
    have hupper := hp.upper
    unfold poolsLen at hupper
    unfold pageSize at hend
    unfold addrSpaceKernelHeapBase
    omega
  aligned := hp.aligned
  lower := hp.lower
  upper := hend ▸ hp.upper
  outside f hf b hb hb' := by
    rcases List.mem_flatMap.1 hf with ⟨r, hmem, hfr⟩
    have hfresh := hr.fresh r hmem
    rcases (mem_pagesIn hfresh.start_mod hfresh.stop_mod).1 hfr with ⟨hmod, hle, hlt⟩
    have hstop := hfresh.stop_mod
    have hout := hp.outside r hmem
    have h₁ := hb.1
    have h₂ := hb.2
    have h₃ := hb'.1
    have h₄ := hb'.2
    unfold pageSize at *
    omega

section
variable {all : List Nat} {M root pools : Nat} (hall : MappedFrames all M) (hp : PoolsStatic all M pools) {m₀ : Mem}
  {F : Nat → List Nat} {live : List Live} {data : Nat → Option UInt8} {s : Flat} {h : HeapState} {A : Set Nat}

/-! ## Start -/

include hall hp in
/-- The loop of `init_alloc` writes the entries of the table from `i` on. -/
theorem Tracks.initPools : ∀ (sizes : List Nat) (i : Nat) (D : Set Nat) (s : Flat) (h : HeapState),
    i + sizes.length ≤ blockSizesLen → Tracks all M root pools m₀ A D s h → ∀ e : Stop,
    Lockstep e (BanjOS.initPools pools sizes i h.kernel) (BanjOS.initPools pools sizes i s) fun k' s' =>
      Tracks all M root pools m₀ A (D ∪ {b | InRange (poolAddr pools i) (16 * sizes.length) b}) s' ⟨k', h.live, h.freed⟩ := by
  intro sizes
  induction sizes with
  | nil =>
    intro i D s h _ ht e
    exact .pure (ht.mono fun b hb => hb.resolve_right fun hin => absurd hin.2 (Nat.not_lt.2 hin.1))
  | cons size sizes ih =>
    intro i D s h hi ht e
    rw [List.length_cons] at hi
    have hlt : i < blockSizesLen := by omega
    rcases hp.table_word hlt with ⟨hword, hmod, htable, -⟩
    have hready : ReadyByte pools h (poolAddr pools i) := .inl (htable _ ⟨Nat.le_refl _, by omega⟩)
    refine (ht.store hall hp hword (.inl hready) _).bind fun k₁ s₁ _ hs₁ => ?_
    rcases hs₁ with ⟨-, ht₁⟩
    refine (ht₁.store hall hp hmod (.inl (hp.head_ready hlt)) _).bind fun k₂ s₂ _ hs₂ => ?_
    rcases hs₂ with ⟨-, ht₂⟩
    refine (ih (i + 1) _ s₂ ⟨k₂, h.live, h.freed⟩ (by omega) ht₂ e).mono fun k' s' _ ht' => ht'.mono fun b hb => ?_
    rcases hb with hb | hb
    · exact .inl (.inl (.inl hb))
    · -- the two words of the entry, or the entries after it
      have h₁ := hb.1
      have h₂ := hb.2
      rw [List.length_cons] at h₂
      unfold poolAddr at h₁ h₂
      rcases Nat.lt_or_ge b (pools + 16 * i + 8) with hlt₈ | hge₈
      · exact .inl (.inl (.inr ⟨h₁, hlt₈⟩))
      · rcases Nat.lt_or_ge b (pools + 16 * i + 16) with hlt₁₆ | hge₁₆
        · exact .inl (.inr ⟨hge₈, hlt₁₆⟩)
        · exact .inr ⟨by unfold poolAddr; omega, by unfold poolAddr; omega⟩

/-- The flat memory at boot. -/
def Flat.boot : Flat := ⟨fun _ => 0, addrSpaceKernelHeapBase, fun _ => false⟩

theorem flatBoot : FlatBoot .boot := ⟨by decide, by decide, by decide, fun _ => rfl⟩

include hall hp in
/-- `init_alloc` starts the allocator on the machine. -/
theorem initAlloc_pagedInv {s₀ : Phys} (hinv : RunInv all M root (2 ^ 27) (.boot root s₀)) :
    ∃ k₀ s₁, initAlloc pools (⟨s₀, root, addrSpaceKernelHeapBase⟩ : Kernel) = .ok k₀ ∧ initAlloc pools Flat.boot = .ok s₁ ∧
      PagedInv all M root pools s₀.mem ∅ (fun _ => []) [] (fun _ => none) s₁ ⟨k₀, ∅, ∅⟩ := by
  have ht : Tracks all M root pools s₀.mem ∅ ∅ .boot (.boot root s₀) :=
    ⟨⟨2 ^ 27, hinv, rfl⟩, fun n => ⟨nofun, nofun⟩, nofun, nofun, nofun, fun _ _ => rfl⟩
  rcases initAlloc_poolInv hp.toPoolsOK flatBoot with ⟨mem, hok, hpool⟩
  -- no page is used, so no reason to stop is possible
  rcases Lockstep.returns_of_forall (show Stop.outOfMemory ≠ .notAvailable 0 by decide)
    (Tracks.initPools hall hp blockSizes 0 ∅ .boot (.boot root s₀) (by decide) ht) with ⟨k₀, s₁, hk, hs, ht₀⟩
  obtain rfl : Flat.mk mem _ _ = s₁ := Except.ok.inj (hok.symm.trans hs)
  refine ⟨k₀, _, hk, hs, hpool, ht₀.mono fun b hb => ?_, nofun⟩
  rcases hb with hb | ⟨i, -, a, ha, -⟩ | ⟨x, hx, -⟩ | ⟨c, hc⟩
  · exact .inr hb
  · cases ha
  · cases hx
  · cases hc

/-! ## Uses -/

/-- It is enough to know less of what was written. -/
theorem PagedInv.mono_data (hinv : PagedInv all M root pools m₀ A F live data s h) {data' : Nat → Option UInt8}
    (hdata : ∀ b c, data' b = some c → data b = some c) : PagedInv all M root pools m₀ A F live data' s h where
  pool := hinv.pool
  tracks := hinv.tracks.mono fun _ hb => hb.imp_right fun hb => hb.imp_right fun hb =>
    hb.imp_right fun ⟨c, hc⟩ => ⟨c, hdata _ c hc⟩
  data b c hc := hinv.data b c (hdata b c hc)

/-- A block of a pool is in one page. -/
theorem PoolInv.pool_page (hpool : PoolInv pools F live s) {x : Live} (hx : x ∈ live) (hi : poolIndex x.size < blockSizesLen)
    {b : Nat} (hb : InRange x.cell.addr x.cell.len b) : b / pageSize = x.block / pageSize := by
  have hlen : x.cell.len = blockSize (poolIndex x.size) := if_pos hi
  have haddr : x.cell.addr = x.block := rfl
  have hal := (hpool.live_inHeap hx).aligned
  have hcases := blockSize_cases hi
  rcases hb with ⟨h₁, h₂⟩
  rw [hlen, haddr, Nat.min_eq_left (by unfold pageSize; omega)] at hal
  rw [hlen, haddr] at h₂
  rw [haddr] at h₁
  unfold pageSize
  rcases hcases with hcase | hcase | hcase | hcase | hcase | hcase <;> rw [hcase] at hal h₂ <;> omega

/-- A byte of a header is known. -/
theorem header_known {x : Live} (hx : x ∈ live) {b : Nat} (hb : InRange x.block headerSize b) : b ∈ Known pools F live data :=
  .inr (.inr (.inl ⟨x, hx, hb⟩))

include hall hp in
/-- A client's byte is in a page that is allocated; after a use of it the flat memory still follows. The page of a block of
a pool is resident. -/
theorem PagedInv.touch (hinv : PagedInv all M root pools m₀ A F live data s h) {x : Live} (hx : x ∈ live) {b : Nat}
    (hb : InRange x.ptr x.size b) {e : Stop} (he : poolIndex x.size < blockSizesLen ∨ e = .outOfMemory) :
    BanjOS.touch b h.kernel = .error e ∨
      ∃ k', BanjOS.touch b h.kernel = .ok k' ∧ b / pageSize ∈ h.live ∧ (k'.leaf (b / pageSize)).present = true ∧
        PagedInv all M root pools m₀ (A \ {b / pageSize}) F live data s ⟨k', h.live, h.freed⟩ := by
  have hin := hinv.pool.live_inHeap hx
  have hbyte := (hinv.pool.payload_byte hx hb).1
  have hlive := hinv.tracks.live_of_inHeap hin hbyte
  rcases he with hi | rfl
  · have hready := hinv.tracks.ready_heap hp
      (header_known hx ⟨Nat.le_refl x.block, Nat.lt_add_of_pos_right (show 0 < headerSize by decide)⟩) hin.lower
    rw [← hinv.pool.pool_page hx hi hbyte] at hready
    rcases hinv.tracks.run with ⟨top, hrun, -⟩
    exact .inr ⟨h.kernel, if_pos (hrun.present_of_ready hall hp (.inr hready)), hlive, hready.2,
      hinv.mono_pages Set.sdiff_subset⟩
  · refine (hinv.tracks.touch hall hp hlive).imp_right fun ⟨k', hk', hpres, ht⟩ => ?_
    exact ⟨k', hk', hlive, hpres, hinv.pool, ht, hinv.data⟩

include hall hp in
/-- A write of a client. -/
theorem PagedInv.write (hinv : PagedInv all M root pools m₀ A F live data s h) {x : Live} (hx : x ∈ live) {b : Nat}
    (hb : InRange x.ptr x.size b) (hlive : b / pageSize ∈ h.live) (hpres : (h.kernel.leaf (b / pageSize)).present = true)
    (c : UInt8) : PagedInv all M root pools m₀ A F live (Function.update data b (some c))
      { s with mem := storeLE s.mem b 1 c.toNat } ⟨{ h.kernel with phys := { h.kernel.phys with
        mem := storeLE h.kernel.phys.mem (h.kernel.translate b) 1 c.toNat } }, h.live, h.freed⟩ := by
  rcases hinv.tracks.run with ⟨top, hrun, -⟩
  have hrange : ReadyRange pools h b 1 :=
    hrun.readyRange hall hp (.inr ⟨Nat.mod_lt _ (by decide), hlive, hpres⟩)
  have hout {b' : Nat} (hne : b' ≠ b) : ¬ InRange b 1 b' := fun hin => hne (by
    have h₁ := hin.1
    have h₂ := hin.2
    omega)
  have hval : storeLE s.mem b 1 c.toNat b = c := by
    rw [storeLE, if_pos ⟨Nat.le_refl b, Nat.lt_succ_self b⟩, Nat.sub_self, Nat.pow_zero, Nat.div_one, UInt8.ofNat_toNat]
  refine ⟨hinv.pool.clientWrite hp.toPoolsOK fun b' hb' => storeLE_apply_of_not_mem (hout fun heq => hb' x hx (heq ▸ hb)),
    (hinv.tracks.write hall hp hrange c.toNat).mono fun b' hb' => ?_, fun b' c' hc' => ?_⟩
  · rcases hb' with hb' | hb' | hb' | ⟨c', hc'⟩
    · exact .inl (.inl hb')
    · exact .inl (.inr (.inl hb'))
    · exact .inl (.inr (.inr (.inl hb')))
    · rcases Decidable.em (b' = b) with rfl | hne
      · exact .inr ⟨Nat.le_refl _, Nat.lt_succ_self _⟩
      · rw [Function.update_of_ne hne] at hc'
        exact .inl (.inr (.inr (.inr ⟨c', hc'⟩)))
  · rcases Decidable.em (b' = b) with rfl | hne
    · rw [Function.update_self] at hc'
      cases hc'
      exact ⟨hval, x, hx, hb⟩
    · rw [Function.update_of_ne hne] at hc'
      exact ⟨(storeLE_apply_of_not_mem (hout hne)).trans (hinv.data b' c' hc').1, (hinv.data b' c' hc').2⟩

include hall hp in
/-- What was written is read back. -/
theorem PagedInv.loadByte (hinv : PagedInv all M root pools m₀ A F live data s h) {b : Nat} {c : UInt8}
    (hb : data b = some c) : h.kernel.loadByte b = .ok (c, h.kernel) := by
  have hknown : b ∈ Known pools F live data := .inr (.inr (.inr ⟨c, hb⟩))
  rcases hinv.tracks.run with ⟨top, hrun, -⟩
  have hpres := hrun.present_of_ready hall hp (hinv.tracks.ready b hknown)
  have hval := (hinv.tracks.bytes b hknown).symm.trans (hinv.data b c hb).1
  exact Except.bind_eq_ok.2 ⟨h.kernel, if_pos hpres, by rw [hval]⟩

include hp in
/-- A client's byte can be accessed in the flat memory. -/
theorem PagedInv.accessible (hinv : PagedInv all M root pools m₀ A F live data s h) {x : Live} (hx : x ∈ live) {b : Nat}
    (hb : InRange x.ptr x.size b) : s.accessible b = true :=
  hinv.tracks.accessible hp
    (.inr (hinv.tracks.live_of_inHeap (hinv.pool.live_inHeap hx) (hinv.pool.payload_byte hx hb).1))

include hall hp in
/-- A read of a client's byte: what was written, if it was. -/
theorem PagedInv.read (hinv : PagedInv all M root pools m₀ A F live data s h) {x : Live} (hx : x ∈ live) {b : Nat}
    (hb : InRange x.ptr x.size b) {e : Stop} (he : poolIndex x.size < blockSizesLen ∨ e = .outOfMemory) :
    Lockstep e (h.kernel.loadByte b) (PagedBytes.loadByte b s) fun r q => q.2 = s ∧
      (∀ v, data b = some v → r.1 = v ∧ q.1 = v) ∧
        PagedInv all M root pools m₀ (A \ {b / pageSize}) F live data s ⟨r.2, h.live, h.freed⟩ := by
  have hflat : PagedBytes.loadByte b s = .ok (s.mem b, s) := if_pos (hinv.accessible hp hx hb)
  rcases hinv.touch hall hp hx hb he with herr | ⟨k', hk', -, -, hinv'⟩
  · exact .inl (Except.bind_eq_error.2 (.inl herr))
  · refine .inr ⟨_, _, Except.bind_eq_ok.2 ⟨k', hk', rfl⟩, hflat, rfl, fun v hv => ⟨?_, (hinv.data b v hv).1⟩, hinv'⟩
    have hknown : b ∈ Known pools F live data := .inr (.inr (.inr ⟨v, hv⟩))
    exact (hinv'.tracks.bytes b hknown).symm.trans (hinv'.data b v hv).1

include hall hp in
/-- A write of a client's byte. -/
theorem PagedInv.storeByte (hinv : PagedInv all M root pools m₀ A F live data s h) {x : Live} (hx : x ∈ live) {b : Nat}
    (hb : InRange x.ptr x.size b) (c : UInt8) {e : Stop} (he : poolIndex x.size < blockSizesLen ∨ e = .outOfMemory) :
    Lockstep e (h.kernel.storeByte b c) (PagedBytes.storeByte b c s) fun k' s' =>
      s' = { s with mem := storeLE s.mem b 1 c.toNat } ∧ PagedInv all M root pools m₀ (A \ {b / pageSize}) F live
        (Function.update data b (some c)) s' ⟨k', h.live, h.freed⟩ := by
  have hflat : PagedBytes.storeByte b c s = .ok { s with mem := storeLE s.mem b 1 c.toNat } :=
    if_pos (hinv.accessible hp hx hb)
  rcases hinv.touch hall hp hx hb he with herr | ⟨k', hk', hlive, hpres, hinv'⟩
  · exact .inl (Except.bind_eq_error.2 (.inl herr))
  · exact .inr ⟨_, _, Except.bind_eq_ok.2 ⟨k', hk', rfl⟩, hflat, rfl, hinv'.write hall hp hx hb hlive hpres c⟩

/-! ## Steps -/

/-- A dedicated block with a page that was never used. -/
def Untouched (k : Kernel) (x : Live) : Prop :=
  ¬ poolIndex x.size < blockSizesLen ∧
    ∃ b, InRange x.cell.addr x.cell.len b ∧ (k.leaf (b / pageSize)).present = false

include hall hp in
/-- `kfree` of a request returns as over the flat memory, or the block has a page that was never used, and `kfree` halts. -/
theorem PagedInv.kfree (hinv : PagedInv all M root pools m₀ A F live data s h) {x : Live} (hx : x ∈ live) :
    (Untouched h.kernel x ∧ BanjOS.kfree x.ptr h.kernel = .error (.notAvailable 0)) ∨
      ¬ Untouched h.kernel x ∧ ∃ k' s' F' pages freed, BanjOS.kfree x.ptr h.kernel = .ok k' ∧
        BanjOS.kfree x.ptr s = .ok s' ∧ (∀ i, i ≠ poolIndex x.size → F' i = F i) ∧
        (poolIndex x.size < blockSizesLen → F' (poolIndex x.size) ≠ []) ∧
        PagedInv all M root pools m₀ A F' (live.erase x) (forget x data) s' ⟨k', pages, freed⟩ := by
  rcases Classical.em (Untouched h.kernel x) with hunt | hno
  · rcases id hunt with ⟨hi, b, hb, habs⟩
    exact .inl ⟨hunt, hinv.kfree_untouched hall hp hx hi hb habs⟩
  · refine .inr ⟨hno, ?_⟩
    rcases Decidable.em (poolIndex x.size < blockSizesLen) with hi | hi
    · rcases Lockstep.returns_of_forall (show Stop.outOfMemory ≠ .notAvailable 0 by decide)
        (hinv.kfree_pool hall hp hx hi) with ⟨k', s', hk, hs, pages, freed, hinv'⟩
      refine ⟨k', s', _, pages, freed, hk, hs, fun i hne => Function.update_of_ne hne .., fun _ => ?_, hinv'⟩
      rw [Function.update_self]
      exact List.cons_ne_nil _ _
    · rcases hinv.kfree_dedicated hall hp hx hi (fun b hb => Bool.of_not_eq_false fun habs => hno ⟨hi, b, hb, habs⟩) with
        ⟨k', s', pages, freed, hk, hs, hinv'⟩
      exact ⟨k', s', F, pages, freed, hk, hs, fun i _ => rfl, fun hi' => absurd hi' hi, hinv'⟩

include hp in
/-- A block that was written as a whole, but for the page of its header, has no unused page. -/
theorem PagedInv.not_untouched (hinv : PagedInv all M root pools m₀ A F live data s h) {x : Live} (hx : x ∈ live)
    (hw : ∀ b, InRange x.ptr x.size b → b / pageSize ∈ x.restPages → ∃ c, data b = some c) :
    ¬ Untouched h.kernel x := by
  rintro ⟨hi, b, hb, habs⟩
  have hin := hinv.pool.live_inHeap hx
  rcases hinv.pool.payload_in hx with ⟨hptr, -, haddr⟩
  rcases hinv.pool.dedicated_block hx hi with ⟨hlen, hal⟩
  have hlast : pageSize * numPages (x.size + headerSize) < x.size + headerSize + pageSize := by
    unfold numPages pageSize
    split <;> omega
  rw [hlen, haddr] at hb
  -- each page of the block has a byte of the header or one that was written
  have hknown : ∃ d ∈ Known pools F live data, x.block ≤ d ∧ d / pageSize = b / pageSize := by
    have h₁ := hb.1
    have h₂ := hb.2
    have hdiv : pageSize * (b / pageSize) / pageSize = b / pageSize := Nat.mul_div_cancel_left _ (by decide)
    rcases Decidable.em (b / pageSize = x.block / pageSize) with hfirst | hrest
    · exact ⟨x.block, header_known hx ⟨Nat.le_refl _, Nat.lt_add_of_pos_right (show 0 < headerSize by decide)⟩,
        Nat.le_refl _, hfirst.symm⟩
    · refine ⟨pageSize * (b / pageSize), .inr (.inr (.inr (hw _ ?_ ?_))), ?_, hdiv⟩
      · unfold InRange pageSize headerSize at *
        omega
      · rw [hdiv]
        unfold Live.restPages pageSize at *
        exact ⟨by omega, by omega⟩
      · unfold pageSize at *
        omega
  rcases hknown with ⟨d, hmem, hle, hsame⟩
  have hready := hinv.tracks.ready_heap hp hmem (hin.lower.trans (haddr ▸ hle))
  rw [hsame, habs] at hready
  cases hready.2

/-- The unused pages of a request have no byte of another one. -/
theorem PagedInv.notMem_restPages (hinv : PagedInv all M root pools m₀ A F live data s h) {x z : Live} (hx : x ∈ live)
    (hz : z ∈ live) (hne : x ≠ z) {b : Nat} (hb : InRange x.ptr x.size b) : b / pageSize ∉ z.restPages := by
  intro hn
  have hi : ¬ poolIndex z.size < blockSizesLen := fun hi => by
    rw [Live.restPages_pool hi] at hn
    exact hn
  have hcell : InRange z.cell.addr z.cell.len b := by
    rcases hinv.pool.dedicated_block hz hi with ⟨hlen, hal⟩
    have haddr : z.cell.addr = z.block := rfl
    have h₁ := hn.1
    have h₂ := hn.2
    rw [hlen, haddr]
    unfold InRange pageSize at *
    omega
  have hap := (hinv.pool.drop hz).2 x.cell (List.mem_append_right _ (List.mem_map_of_mem ((List.mem_erase_of_ne hne).2 hx)))
  exact hap.not_inRange hcell ⟨Nat.le_refl _, Nat.le_refl _⟩ ⟨Nat.le_refl _, Nat.le_refl _⟩ (hinv.pool.payload_byte hx hb).1

include hall hp in
/-- `kfree` halts at a request with a page that was never used. -/
theorem PagedInv.kfree_restPages (hinv : PagedInv all M root pools m₀ A F live data s h) {x : Live} (hx : x ∈ live)
    (hA : x.restPages ⊆ A) {n : Nat} (hn : n ∈ x.restPages) :
    BanjOS.kfree x.ptr h.kernel = .error (.notAvailable 0) := by
  have hi : ¬ poolIndex x.size < blockSizesLen := fun hi => by
    rw [Live.restPages_pool hi] at hn
    exact hn
  have hbyte : InRange x.cell.addr x.cell.len (pageSize * n) := by
    rcases hinv.pool.dedicated_block hx hi with ⟨hlen, hal⟩
    have haddr : x.cell.addr = x.block := rfl
    have h₁ := hn.1
    have h₂ := hn.2
    rw [hlen, haddr]
    unfold InRange pageSize at *
    omega
  refine hinv.kfree_untouched hall hp hx hi hbyte ?_
  rw [Nat.mul_div_cancel_left n (by decide)]
  exact (hinv.tracks.absent n (hA hn)).2

end

/-! ## Steps over the two memories -/

/-- The clients on the machine and those over the flat memory have the same requests and have written the same. -/
structure SameClients (all : List Nat) (M root pools : Nat) (m₀ : Mem) (t : KmallocState Kernel) (u : KmallocState Flat) :
    Prop where
  live : u.live = t.live
  data : u.data = t.data
  inv : ∃ F pages freed, PagedInv all M root pools m₀ ∅ F t.live t.data u.heap ⟨t.heap, pages, freed⟩

section
variable {all : List Nat} {M root pools : Nat} (hall : MappedFrames all M) (hp : PoolsStatic all M pools) {m₀ : Mem}
  {t t' : KmallocState Kernel} {u : KmallocState Flat} {e : KmallocEvent}

include hall hp in
/-- A step on the machine is the same step over the flat memory. -/
theorem SameClients.step (h : SameClients all M root pools m₀ t u) (hst : KmallocStep pools t e t') :
    ∃ u', KmallocStep pools u e u' ∧ SameClients all M root pools m₀ t' u' := by
  rcases t with ⟨k, live, data⟩
  rcases u with ⟨s, live', data'⟩
  rcases h with ⟨hlive, hdata, F, pages, freed, hinv⟩
  dsimp only at hlive hdata hinv
  subst hlive hdata
  cases hst with
  | @malloc _ size p hsmall hk =>
    rcases Except.bind_eq_ok.1 hk with ⟨⟨q, k'⟩, hrun, hres⟩
    cases hres
    rcases (hinv.kmalloc hall hp hsmall (.inl rfl)).of_ok hrun with ⟨⟨p', s'⟩, hs, hptr, F', pages', freed', -, hinv'⟩
    obtain rfl : p = p' := hptr
    exact ⟨⟨s', _, _⟩, .malloc hsmall (Except.bind_eq_ok.2 ⟨_, hs, rfl⟩), rfl, rfl, F', pages', freed',
      hinv'.mono_pages (Set.empty_subset _)⟩
  | @free _ x hx hk =>
    rcases Except.bind_eq_ok.1 hk with ⟨k', hrun, hres⟩
    cases hres
    rcases hinv.kfree hall hp hx with ⟨-, herr⟩ | ⟨-, k₁, s', F', pages', freed', hk₁, hs, -, -, hinv'⟩
    · cases herr.symm.trans hrun
    · obtain rfl := Except.ok.inj (hk₁.symm.trans hrun)
      exact ⟨⟨s', _, _⟩, .free hx (Except.bind_eq_ok.2 ⟨s', hs, rfl⟩), rfl, rfl, F', pages', freed', hinv'⟩
  | @read _ x b c hx hb hk =>
    rcases Except.bind_eq_ok.1 hk with ⟨⟨_, k'⟩, hrun, hres⟩
    cases hres
    rcases (hinv.read hall hp hx hb (.inr rfl)).of_ok hrun with ⟨⟨c', s'⟩, hs, hsame, hval, hinv'⟩
    obtain rfl : s' = s := hsame
    have hevent : (data' b).map (fun _ => c) = (data' b).map fun _ => c' := by
      cases hb' : data' b with
      | none => rfl
      | some v => exact congrArg some ((hval v hb').1.trans (hval v hb').2.symm)
    dsimp only
    rw [hevent]
    exact ⟨⟨s', _, _⟩, .read hx hb (Except.bind_eq_ok.2 ⟨_, hs, rfl⟩), rfl, rfl, F, _, _,
      hinv'.mono_pages (Set.empty_subset _)⟩
  | @write _ x b c hx hb hk =>
    rcases Except.bind_eq_ok.1 hk with ⟨k', hrun, hres⟩
    cases hres
    rcases (hinv.storeByte hall hp hx hb c (.inr rfl)).of_ok hrun with ⟨s', hs, -, hinv'⟩
    exact ⟨⟨s', _, _⟩, .write hx hb (Except.bind_eq_ok.2 ⟨s', hs, rfl⟩), rfl, rfl, F, _, _,
      hinv'.mono_pages (Set.empty_subset _)⟩

/-- A step over the flat memory is one of the clients of the pools, or none. -/
theorem KmallocStep.poolRun {u u' : KmallocState Flat} (hst : KmallocStep pools u e u') :
    Relation.ReflTransGen (PoolStep pools) ⟨u.heap, u.live⟩ ⟨u'.heap, u'.live⟩ := by
  cases hst with
  | malloc hsmall hk =>
    rcases Except.bind_eq_ok.1 hk with ⟨_, hrun, hres⟩
    cases hres
    exact .single (.malloc hsmall hrun)
  | free hx hk =>
    rcases Except.bind_eq_ok.1 hk with ⟨_, hrun, hres⟩
    cases hres
    exact .single (.free hx hrun)
  | @read _ _ b _ hx hb hk =>
    rcases Except.bind_eq_ok.1 hk with ⟨⟨_, s'⟩, hrun, hres⟩
    cases hres
    have hrun : Flat.loadByte b u.heap = .ok (_, s') := hrun
    rw [Flat.loadByte] at hrun
    split at hrun
    case isTrue =>
      cases hrun
      exact .refl
    case isFalse => cases hrun
  | @write _ x b c hx hb hk =>
    rcases Except.bind_eq_ok.1 hk with ⟨s', hrun, hres⟩
    cases hres
    have hrun : Flat.storeByte b c u.heap = .ok s' := hrun
    rw [Flat.storeByte] at hrun
    split at hrun
    case isTrue =>
      cases hrun
      refine .single (.write fun b' hb' => storeLE_apply_of_not_mem fun hin => hb' x hx ?_)
      have h₁ := hin.1
      have h₂ := hin.2
      obtain rfl : b' = b := by omega
      exact hb
    case isFalse => cases hrun

end

/-! ## Runs -/

section
variable {regions : List MemRegion} (hr : BootRegions regions) {mem : Mem} {root : Nat} {s₀ : Phys}
  (hinit : initPageTable ⟨mem, 0, regions⟩ = .ok (root, s₀)) {pools : Nat} (hp : PoolsPlaced regions pools)
include hr hinit hp

/-- Every run from boot has a run over the flat memory with the same history. -/
theorem kmallocRun_inv : ∃ M, MappedFrames (allPages regions) M ∧ PoolsStatic (allPages regions) M pools ∧
    ∃ k₀ s₁, initAlloc pools (⟨s₀, root, addrSpaceKernelHeapBase⟩ : Kernel) = .ok k₀ ∧
      initAlloc pools Flat.boot = .ok s₁ ∧
      ∀ es t, Trace (KmallocStep pools) ⟨k₀, [], fun _ => none⟩ es t →
        ∃ u, Trace (KmallocStep pools) ⟨s₁, [], fun _ => none⟩ es u ∧
          SameClients (allPages regions) M root pools s₀.mem t u := by
  rcases hr.memEnd_pages with ⟨M, h1, hM, hend⟩
  have hall := hr.mappedFrames h1 hM hend
  have hstatic := hp.static hr hM hend
  have hmap := (initPageTable_mapInv hr.regionsOK.frames hr.allPages_lt (hr.regionsOK.frameInv mem)
    (hM.trans (by decide)) hend).1 root s₀ hinit
  rcases initAlloc_pagedInv hall hstatic (hmap.runInv hM) with ⟨k₀, s₁, hk₀, hs₁, hinv⟩
  refine ⟨M, hall, hstatic, k₀, s₁, hk₀, hs₁, fun es t hrun => ?_⟩
  exact hrun.simulate (SameClients (allPages regions) M root pools s₀.mem) ⟨rfl, rfl, _, _, _, hinv⟩
    fun t e t' u hst h => h.step hall hstatic hst

end

/-- What the clients of the allocator on the machine rely on. -/
structure KmallocSound (regions : List MemRegion) (m₀ : Mem) (pools : Nat) (t : KmallocState Kernel) : Prop where
  /-- What was written last at a byte of a live range is what is read there. -/
  read : ∀ b c, t.data b = some c → t.heap.loadByte b = .ok (c, t.heap)
  /-- The ranges handed out do not overlap. -/
  apart : t.live.Pairwise fun x y => x.payload.Apart y.payload
  /-- Every byte of them can be read and written, unless memory is full. -/
  use : ∀ x ∈ t.live, ∀ b, InRange x.ptr x.size b →
    (t.heap.loadByte b = .error .outOfMemory ∨ ∃ r, t.heap.loadByte b = .ok r) ∧
      ∀ c, t.heap.storeByte b c = .error .outOfMemory ∨ ∃ k', t.heap.storeByte b c = .ok k'
  /-- Every request of less than `2 ^ 31 - 4112` bytes is served, unless memory is full. -/
  malloc : ∀ size, size + 4112 < 2 ^ 31 →
    kmalloc pools size t.heap = .error .outOfMemory ∨ ∃ r, kmalloc pools size t.heap = .ok r
  /-- Every block is freed, except a dedicated one with a page that was never used: there `kfree` halts. -/
  free : ∀ x ∈ t.live, (Untouched t.heap x ∧ kfree x.ptr t.heap = .error (.notAvailable 0)) ∨
    ¬ Untouched t.heap x ∧ ∃ k', kfree x.ptr t.heap = .ok k'
  /-- The allocator and the memory management write to no other static data of the kernel than the pool table. (Where the
  processor pushes the frame of a page fault is not part of this memory: `criticalStack_unused`.) -/
  static : ∀ b, OtherStatic (allPages regions) pools b → t.heap.phys.mem b = m₀ b

/-- On the machine the allocator does what it does over a flat memory, for requests of less than `2 ^ 31 - 4112` bytes:
every run from boot has the history of a run over the flat memory, where the same requests are served at the same addresses
in the same order, the same blocks are freed and the same written bytes are read; that run is one of the clients of the
pools, it has the same live requests and what they have written, and its heap ends at the same break. -/
theorem kmallocRun_refines {regions : List MemRegion} (hr : BootRegions regions) {mem : Mem} {root : Nat} {s₀ : Phys}
    (hinit : initPageTable ⟨mem, 0, regions⟩ = .ok (root, s₀)) {pools : Nat} (hp : PoolsPlaced regions pools) {k₀ : Kernel}
    (halloc : initAlloc pools (⟨s₀, root, addrSpaceKernelHeapBase⟩ : Kernel) = .ok k₀) {es : List KmallocEvent}
    {t : KmallocState Kernel} (hrun : Trace (KmallocStep pools) ⟨k₀, [], fun _ => none⟩ es t) :
    ∃ s₁, ∃ u : KmallocState Flat, initAlloc pools Flat.boot = .ok s₁ ∧
      Trace (KmallocStep pools) ⟨s₁, [], fun _ => none⟩ es u ∧
      Relation.ReflTransGen (PoolStep pools) ⟨s₁, []⟩ ⟨u.heap, u.live⟩ ∧ u.live = t.live ∧ u.data = t.data ∧
      u.heap.brk = t.heap.brk ∧ ∀ b c, t.data b = some c → u.heap.mem b = c := by
  rcases kmallocRun_inv hr hinit hp with ⟨M, hall, hstatic, k₁, s₁, hk₁, hs₁, hinv⟩
  obtain rfl := Except.ok.inj (hk₁.symm.trans halloc)
  rcases hinv es t hrun with ⟨u, htrace, hlive, hdata, F, pages, freed, hpaged⟩
  rcases hpaged.tracks.run with ⟨top, hruninv, hbrk⟩
  have hpools := htrace.invariant
    (fun u => Relation.ReflTransGen (PoolStep pools) ⟨s₁, []⟩ ⟨u.heap, u.live⟩) .refl
    fun _ _ _ hst hpre => hpre.trans hst.poolRun
  exact ⟨s₁, u, hs₁, htrace, hpools, hlive, hdata, hbrk.trans hruninv.inv.brk.symm, fun b c hb => (hpaged.data b c hb).1⟩

/-- From boot on, whatever the clients allocate (less than `2 ^ 31 - 4112` bytes at a time), free, read and write, and
wherever this faults: what they wrote is there, their ranges do not overlap, no such request and no access stops for another
reason than that memory is full, `kfree` stops only for a dedicated block with an unused page, and the code writes to no
other static data. -/
theorem kmallocRun_sound {regions : List MemRegion} (hr : BootRegions regions) {mem : Mem} {root : Nat} {s₀ : Phys}
    (hinit : initPageTable ⟨mem, 0, regions⟩ = .ok (root, s₀)) {pools : Nat} (hp : PoolsPlaced regions pools) {k₀ : Kernel}
    (halloc : initAlloc pools (⟨s₀, root, addrSpaceKernelHeapBase⟩ : Kernel) = .ok k₀) {es : List KmallocEvent}
    {t : KmallocState Kernel} (hrun : Trace (KmallocStep pools) ⟨k₀, [], fun _ => none⟩ es t) :
    KmallocSound regions s₀.mem pools t := by
  rcases kmallocRun_inv hr hinit hp with ⟨M, hall, hstatic, k₁, s₁, hk₁, hs₁, hinv⟩
  obtain rfl := Except.ok.inj (hk₁.symm.trans halloc)
  rcases hinv es t hrun with ⟨u, -, -, -, F, pages, freed, hpaged⟩
  exact {
    read b c hb := hpaged.loadByte hall hstatic hb
    apart := hpaged.pool.sound.ranges.imp And.left
    use x hx b hb :=
      ⟨(hpaged.read hall hstatic hx hb (.inr rfl)).returns, fun c =>
        (hpaged.storeByte hall hstatic hx hb c (.inr rfl)).returns⟩
    malloc size hsize := (hpaged.kmalloc hall hstatic hsize (.inl rfl)).returns
    free x hx := (hpaged.kfree hall hstatic hx).imp_right fun ⟨hno, k', _, _, _, _, hk', _⟩ => ⟨hno, k', hk'⟩
    static := hpaged.tracks.static }

/-- A machine of eleven pages, with the pool table in the first one. -/
theorem poolsPlaced_eleven_pages : BootRegions [⟨0x2000, 0xC000, 0x2000⟩] ∧
    PoolsPlaced [⟨0x2000, 0xC000, 0x2000⟩] 0x1000 := by
  refine ⟨bootRegions_singleton (by constructor <;> decide) (by decide), by decide, by decide, by decide, fun r hr => ?_⟩
  rw [List.mem_singleton.1 hr]
  decide

/-- A run on this machine: a request of a pool, one of two pages of its own, a write in the second of these, which makes it
present, and the free of the first request. -/
theorem kmallocRun_eleven_pages : ∃ root s₀ k₀ p q, ∃ t : KmallocState Kernel,
    initPageTable ⟨fun _ => 0, 0, [⟨0x2000, 0xC000, 0x2000⟩]⟩ = .ok (root, s₀) ∧
      initAlloc 0x1000 (⟨s₀, root, addrSpaceKernelHeapBase⟩ : Kernel) = .ok k₀ ∧
      Trace (KmallocStep 0x1000) ⟨k₀, [], fun _ => none⟩
        [.malloc 2000 p, .malloc 5000 q, .write (q + 4090) 7, .free p] t ∧
      t.live = [⟨q, 5000⟩] ∧ t.data (q + 4090) = some 7 ∧ q % pageSize = headerSize ∧
      (t.heap.leaf (q / pageSize)).present = true ∧ (t.heap.leaf (q / pageSize + 1)).present = true := by
  have hok : (initPageTable ⟨fun _ => 0, 0, [⟨0x2000, 0xC000, 0x2000⟩]⟩ >>= fun x =>
      initAlloc 0x1000 (⟨x.2, x.1, addrSpaceKernelHeapBase⟩ : Kernel) >>= fun k =>
      KmallocState.malloc 0x1000 2000 ⟨k, [], fun _ => none⟩ >>= fun r =>
      KmallocState.malloc 0x1000 5000 r.2 >>= fun r' => KmallocState.write (r'.1 + 4090) 7 r'.2 >>= fun t =>
      KmallocState.free ⟨r.1, 2000⟩ t >>= fun t =>
      if ¬ InRange r.1 2000 (r'.1 + 4090) ∧ r'.1 % pageSize = headerSize ∧ (t.heap.leaf (r'.1 / pageSize)).present = true ∧
        (t.heap.leaf (r'.1 / pageSize + 1)).present = true then .ok t else .error .outOfMemory).isOk = true := by
    decide +kernel
  rcases Except.exists_of_isOk hok with ⟨t, h⟩
  rcases Except.bind_eq_ok.1 h with ⟨⟨root, s₀⟩, hinit, h⟩
  rcases Except.bind_eq_ok.1 h with ⟨k₀, halloc, h⟩
  rcases Except.bind_eq_ok.1 h with ⟨⟨p, t₁⟩, h₁, h⟩
  rcases Except.bind_eq_ok.1 h with ⟨⟨q, t₂⟩, h₂, h⟩
  rcases Except.bind_eq_ok.1 h with ⟨t₃, h₃, h⟩
  rcases Except.bind_eq_ok.1 h with ⟨t₄, h₄, h⟩
  split at h
  case isFalse => cases h
  case isTrue hcond =>
    rcases hcond with ⟨hout, hmod, hfst, hsnd⟩
    cases h
    rcases Except.bind_eq_ok.1 h₁ with ⟨⟨_, k₁⟩, -, hres₁⟩
    rcases Except.bind_eq_ok.1 h₂ with ⟨⟨_, k₂⟩, -, hres₂⟩
    rcases Except.bind_eq_ok.1 h₃ with ⟨k₃, -, hres₃⟩
    rcases Except.bind_eq_ok.1 h₄ with ⟨k₄, -, hres₄⟩
    cases hres₁
    cases hres₂
    cases hres₃
    cases hres₄
    have hstep₁ := Trace.single (KmallocStep.malloc (show 2000 + 4112 < 2 ^ 31 by decide) h₁)
    have hstep₂ := hstep₁.snoc (.malloc (by decide) h₂)
    have hstep₃ := hstep₂.snoc (.write (x := ⟨q, 5000⟩) (.head _)
      ⟨Nat.le_add_right q _, Nat.add_lt_add_left (show 4090 < 5000 by decide) q⟩ h₃)
    have hstep₄ := hstep₃.snoc (.free (x := ⟨p, 2000⟩) (.tail _ (.head _)) h₄)
    have hlive : [(⟨q, 5000⟩ : Live), ⟨p, 2000⟩].erase ⟨p, 2000⟩ = [⟨q, 5000⟩] := by
      rw [List.erase_cons_tail (by simp), List.erase_cons_head]
    refine ⟨root, s₀, k₀, p, q, _, hinit, halloc, hstep₄, hlive, ?_, hmod, hfst, hsnd⟩
    dsimp only
    rw [forget, if_neg hout, Function.update_self]

/-- The run over the flat memory has the same history, and the byte. -/
theorem kmallocRun_refines_eleven_pages : ∃ p q s₁, ∃ u : KmallocState Flat, initAlloc 0x1000 Flat.boot = .ok s₁ ∧
    Trace (KmallocStep 0x1000) ⟨s₁, [], fun _ => none⟩
      [.malloc 2000 p, .malloc 5000 q, .write (q + 4090) 7, .free p] u ∧
      u.live = [⟨q, 5000⟩] ∧ u.heap.mem (q + 4090) = 7 := by
  rcases kmallocRun_eleven_pages with ⟨root, s₀, k₀, p, q, t, hinit, halloc, hrun, hlive, hdata, -⟩
  rcases kmallocRun_refines poolsPlaced_eleven_pages.1 hinit poolsPlaced_eleven_pages.2 halloc hrun with
    ⟨s₁, u, hs₁, htrace, -, hlive', -, -, hbytes⟩
  exact ⟨p, q, s₁, u, hs₁, htrace, hlive'.trans hlive, hbytes _ 7 hdata⟩

/-- After the first block is freed the byte in the dedicated one is read. Both its pages were used, so it can be freed. -/
theorem kmallocRun_sound_eleven_pages : ∃ q, ∃ t : KmallocState Kernel, t.live = [⟨q, 5000⟩] ∧
    t.heap.loadByte (q + 4090) = .ok (7, t.heap) ∧ ∃ k', kfree q t.heap = .ok k' := by
  rcases kmallocRun_eleven_pages with ⟨root, s₀, k₀, p, q, t, hinit, halloc, hrun, hlive, hdata, hmod, hfst, hsnd⟩
  have hsound := kmallocRun_sound poolsPlaced_eleven_pages.1 hinit poolsPlaced_eleven_pages.2 halloc hrun
  refine ⟨q, t, hlive, hsound.read _ 7 hdata, ?_⟩
  rcases hsound.free ⟨q, 5000⟩ (hlive ▸ .head _) with ⟨⟨-, b, hb, habs⟩, -⟩ | ⟨-, hfree⟩
  · -- the two pages of the block
    have haddr : (⟨q, 5000⟩ : Live).cell.addr = q - headerSize := rfl
    have hlen : (⟨q, 5000⟩ : Live).cell.len = 2 * pageSize := show blockLen 5000 = 2 * pageSize by decide
    have hpage : b / pageSize = q / pageSize ∨ b / pageSize = q / pageSize + 1 := by
      rw [haddr, hlen] at hb
      unfold InRange headerSize pageSize at *
      omega
    rcases hpage with hpage | hpage
    · cases (hpage ▸ habs).symm.trans hfst
    · cases (hpage ▸ habs).symm.trans hsnd
  · exact hfree

end BanjOS
