import BanjOS.MultibootTags.Regions
import BanjOS.Lib.Chain
import Mathlib.Data.List.Perm.Basic
import Mathlib.Data.List.Flatten

/-!
# The frame allocator

`MMU_pf_alloc` and `MMU_pf_free` (`page_allocator.c`). Freed frames form a list threaded through the
frames themselves; frames that were never handed out are the rests `[next, end)` of the regions.
`FrameInv all s out` is the invariant that ties the three together: the free list, the frames `out`
in other hands and the rests of the regions are, as one list, a permutation of the frames `all`. Every
operation keeps it (`FrameInv.alloc`, `FrameInv.free`, `FrameInv.write`), whatever the holders of
frames write into them, so it holds along every run of the allocator and its clients (`FrameStep`).
-/

namespace BanjOS

open ByteMem

/-- Physical memory and the state of its allocator: the memory, the head of the free list
(`free_list`) and the region table (`mem_regions`). -/
structure Phys where
  mem : Mem
  freeList : Nat
  regions : List MemRegion

/-- The loop of `MMU_pf_alloc` over the region table: take the next page of the first region that
has one left. -/
def takeNext : List MemRegion → Option (Nat × List MemRegion)
  | [] => none
  | r :: rs =>
    if r.next < r.stop then some (r.next, { r with next := r.next + pageSize } :: rs)
    else (takeNext rs).map fun (addr, rs) => (addr, r :: rs)

/-- `MMU_pf_alloc`: the first frame of the free list, else the next page of a region. -/
def mmuPfAlloc (s : Phys) : Except Stop (Nat × Phys) :=
  if s.freeList ≠ 0 then .ok (s.freeList, { s with freeList := load64 s.mem s.freeList })
  else match takeNext s.regions with
    | some (addr, regions) => .ok (addr, { s with regions })
    | none => .error .outOfMemory

/-- `MMU_pf_free`: push the frame, its first word taking the link. -/
def mmuPfFree (pf : Nat) (s : Phys) : Phys :=
  { s with mem := store64 s.mem pf s.freeList, freeList := pf }

/-! ## Frames -/

/-- The page addresses of `[a, b)`. -/
def pagesIn (a b : Nat) : List Nat := (List.range ((b - a) / pageSize)).map (a + pageSize * ·)

/-- The pages of all regions. -/
def allPages (regions : List MemRegion) : List Nat := regions.flatMap fun r => pagesIn r.start r.stop

/-- The pages of the regions that were never handed out: `[next, end)` of each. -/
def remaining (regions : List MemRegion) : List Nat := regions.flatMap fun r => pagesIn r.next r.stop

/-- A region table as `build_mem_regions` leaves it, in any order: fresh disjoint regions of 64-bit
addresses. -/
structure RegionsOK (regions : List MemRegion) : Prop where
  fresh : ∀ r ∈ regions, r.Fresh
  disjoint : regions.Pairwise fun r r' => r.stop ≤ r'.start ∨ r'.stop ≤ r.start
  fits : ∀ r ∈ regions, r.stop < 2 ^ 64

/-- Distinct page-aligned addresses of 64 bits, none of them null. -/
structure Frames (all : List Nat) : Prop where
  nodup : all.Nodup
  aligned : ∀ f ∈ all, f % pageSize = 0
  ne_zero : ∀ f ∈ all, f ≠ 0
  fits : ∀ f ∈ all, f < 2 ^ 64

theorem mem_pagesIn {a b f : Nat} (ha : a % pageSize = 0) (hb : b % pageSize = 0) :
    f ∈ pagesIn a b ↔ f % pageSize = 0 ∧ a ≤ f ∧ f < b := by
  unfold pagesIn pageSize at *
  simp only [List.mem_map, List.mem_range]
  constructor
  · rintro ⟨i, hi, rfl⟩
    omega
  · rintro ⟨h₁, h₂, h₃⟩
    exact ⟨(f - a) / 4096, by omega, by omega⟩

theorem nodup_pagesIn (a b : Nat) : (pagesIn a b).Nodup := by
  refine List.Nodup.map (fun i j hij => ?_) List.nodup_range
  dsimp only [pageSize] at hij
  omega

/-- The first page of a non-empty interval, and the rest. -/
theorem pagesIn_eq_cons {a b : Nat} (ha : a % pageSize = 0) (hb : b % pageSize = 0) (h : a < b) :
    pagesIn a b = a :: pagesIn (a + pageSize) b := by
  have hn : (b - a) / pageSize = (b - (a + pageSize)) / pageSize + 1 := by unfold pageSize at *; omega
  rw [pagesIn, hn, List.range_succ_eq_map, List.map_cons, List.map_map]
  congr 1
  refine List.map_congr_left fun i _ => ?_
  dsimp only [Function.comp, pageSize]
  omega

theorem pagesIn_eq_nil {a b : Nat} (h : b ≤ a) : pagesIn a b = [] := by
  rw [pagesIn, Nat.sub_eq_zero_of_le h]
  rfl

/-- Nothing of a fresh table was handed out. -/
theorem remaining_of_fresh {regions : List MemRegion} (h : ∀ r ∈ regions, r.Fresh) :
    remaining regions = allPages regions :=
  List.flatMap_congr fun r hr => by rw [(h r hr).next_eq]

/-- The pages of a region table are frames. -/
theorem RegionsOK.frames {regions : List MemRegion} (h : RegionsOK regions) :
    Frames (allPages regions) := by
  have hmem : ∀ f ∈ allPages regions, ∃ r ∈ regions, f % pageSize = 0 ∧ r.start ≤ f ∧ f < r.stop := by
    intro f hf
    obtain ⟨r, hr, hf⟩ := List.mem_flatMap.1 hf
    exact ⟨r, hr, (mem_pagesIn (h.fresh r hr).start_mod (h.fresh r hr).stop_mod).1 hf⟩
  refine ⟨?_, fun f hf => ?_, fun f hf => ?_, fun f hf => ?_⟩
  · rw [allPages, List.nodup_flatMap]
    refine ⟨fun r _ => nodup_pagesIn _ _, h.disjoint.imp_of_mem fun hr hr' hd f hf hf' => ?_⟩
    have h₁ := (mem_pagesIn (h.fresh _ hr).start_mod (h.fresh _ hr).stop_mod).1 hf
    have h₂ := (mem_pagesIn (h.fresh _ hr').start_mod (h.fresh _ hr').stop_mod).1 hf'
    omega
  · obtain ⟨_, _, hf, _⟩ := hmem f hf
    exact hf
  · obtain ⟨r, hr, -, hf, -⟩ := hmem f hf
    have := (h.fresh r hr).pos
    omega
  · obtain ⟨r, hr, -, -, hf⟩ := hmem f hf
    exact hf.trans (h.fits r hr)

/-- The table `build_mem_regions` builds is one the allocator can start from. -/
theorem buildMemRegions_regionsOK {mem : List TagMemMapEntry} {elf : List TagELFEntry}
    {rs : List MemRegion} (h : buildMemRegions mem elf [] = .ok rs) (hmem : MemMapOK mem)
    (helf : SectionsBounded elf) : RegionsOK rs := by
  have htable := buildMemRegions_tableBelow h hmem helf
  exact ⟨htable.fresh, htable.ascending.imp .inl,
    fun r hr => (htable.below r hr).trans_lt (by decide)⟩

/-! ## The invariant -/

/-- The allocator's invariant over the frames `all`, with the frames `out` handed out. -/
structure FrameInv (all : List Nat) (s : Phys) (out : List Nat) : Prop where
  split : ∃ free, Chain s.mem s.freeList free ∧ (free ++ out ++ remaining s.regions).Perm all
  aligned : ∀ r ∈ s.regions, r.next % pageSize = 0 ∧ r.stop % pageSize = 0

/-- The allocator's state at boot. -/
theorem RegionsOK.frameInv {regions : List MemRegion} (h : RegionsOK regions) (mem : Mem) :
    FrameInv (allPages regions) ⟨mem, 0, regions⟩ [] := by
  refine ⟨⟨[], .nil, ?_⟩, fun r hr => ?_⟩
  · simp [remaining_of_fresh h.fresh]
  · have hr := h.fresh r hr
    exact ⟨hr.next_eq ▸ hr.start_mod, hr.stop_mod⟩

/-- What `takeNext` returns is the first of the remaining pages. -/
theorem takeNext_eq_some {rs rs' : List MemRegion} {f : Nat} (h : takeNext rs = some (f, rs'))
    (hal : ∀ r ∈ rs, r.next % pageSize = 0 ∧ r.stop % pageSize = 0) :
    remaining rs = f :: remaining rs' ∧
      ∀ r ∈ rs', r.next % pageSize = 0 ∧ r.stop % pageSize = 0 := by
  induction rs generalizing rs' with
  | nil => cases h
  | cons r rs ih =>
    obtain ⟨hn, hs⟩ := hal r (.head _)
    have hal' : ∀ r ∈ rs, r.next % pageSize = 0 ∧ r.stop % pageSize = 0 :=
      fun r hr => hal r (.tail _ hr)
    rw [takeNext] at h
    split at h
    · next hlt =>
      cases h
      refine ⟨?_, fun r' hr' => ?_⟩
      · simp only [remaining, List.flatMap_cons]
        rw [pagesIn_eq_cons hn hs hlt, List.cons_append]
      · rcases List.mem_cons.1 hr' with rfl | hr'
        · exact ⟨by simpa using hn, hs⟩
        · exact hal' r' hr'
    · next hge =>
      obtain ⟨⟨f', rs₁⟩, hrs₁, he⟩ := Option.map_eq_some_iff.1 h
      cases he
      obtain ⟨hrem, hal₁⟩ := ih hrs₁ hal'
      refine ⟨?_, fun r' hr' => ?_⟩
      · simp only [remaining, List.flatMap_cons] at hrem ⊢
        rw [pagesIn_eq_nil (Nat.le_of_not_lt hge), List.nil_append, List.nil_append, hrem]
      · rcases List.mem_cons.1 hr' with rfl | hr'
        · exact ⟨hn, hs⟩
        · exact hal₁ r' hr'

/-- `takeNext` fails only when no page remains. -/
theorem takeNext_eq_none {rs : List MemRegion} (h : takeNext rs = none) : remaining rs = [] := by
  induction rs with
  | nil => rfl
  | cons r rs ih =>
    rw [takeNext] at h
    split at h
    · cases h
    · next hge =>
      simp only [remaining, List.flatMap_cons] at ih ⊢
      rw [pagesIn_eq_nil (Nat.le_of_not_lt hge), List.nil_append, ih (by simpa using h)]

/-- `MMU_pf_alloc` writes no memory. -/
theorem mmuPfAlloc_mem {s s' : Phys} {pf : Nat} (h : mmuPfAlloc s = .ok (pf, s')) :
    s'.mem = s.mem := by
  unfold mmuPfAlloc at h
  split at h
  · cases h; rfl
  · split at h
    · cases h; rfl
    · cases h

/-- `MMU_pf_alloc` stops only for want of a frame. -/
theorem mmuPfAlloc_error {s : Phys} {e : Stop} (h : mmuPfAlloc s = .error e) : e = .outOfMemory := by
  unfold mmuPfAlloc at h
  split at h
  · cases h
  · split at h
    · cases h
    · cases h; rfl

/-- A frame is left: a freed one, or a page of a region. -/
def FrameLeft (s : Phys) : Prop := s.freeList ≠ 0 ∨ ∃ r ∈ s.regions, r.next < r.stop

/-- `takeNext` succeeds exactly when a region has a page left. -/
theorem takeNext_isSome {rs : List MemRegion} :
    (∃ x, takeNext rs = some x) ↔ ∃ r ∈ rs, r.next < r.stop := by
  induction rs with
  | nil => simp [takeNext]
  | cons r rs ih =>
    rw [takeNext]
    split
    · next hlt => exact ⟨fun _ => ⟨r, .head _, hlt⟩, fun _ => ⟨_, rfl⟩⟩
    · next hge =>
      simp only [Option.map_eq_some_iff, List.exists_mem_cons_iff, hge, false_or, ← ih]
      exact ⟨fun ⟨_, x, hx, _⟩ => ⟨x, hx⟩, fun ⟨x, hx⟩ => ⟨_, x, hx, rfl⟩⟩

/-- `MMU_pf_alloc` returns exactly when a frame is left. -/
theorem mmuPfAlloc_ok_iff {s : Phys} : (∃ x, mmuPfAlloc s = .ok x) ↔ FrameLeft s := by
  rw [FrameLeft, ← takeNext_isSome, mmuPfAlloc]
  split
  · next hne => exact ⟨fun _ => .inl hne, fun _ => ⟨_, rfl⟩⟩
  · next hz =>
    split
    · next heq => exact ⟨fun _ => .inr ⟨_, heq⟩, fun _ => ⟨_, rfl⟩⟩
    · next heq =>
      refine ⟨fun ⟨_, h⟩ => (nomatch h), fun h => ?_⟩
      rcases h with h | ⟨x, hx⟩
      · exact absurd h hz
      · rw [heq] at hx
        cases hx

section
variable {all out : List Nat} {s s' : Phys} {pf : Nat}

/-- A successful `MMU_pf_alloc` hands out the frame it returns. -/
theorem FrameInv.alloc (h : FrameInv all s out) (ha : mmuPfAlloc s = .ok (pf, s')) :
    FrameInv all s' (pf :: out) := by
  obtain ⟨⟨free, hc, hperm⟩, hal⟩ := h
  unfold mmuPfAlloc at ha
  split at ha
  · next hne =>
    cases ha
    obtain ⟨free', rfl, hc'⟩ := hc.exists_cons hne
    refine ⟨⟨free', hc', ?_⟩, hal⟩
    refine List.Perm.trans ?_ hperm
    rw [List.cons_append, List.cons_append, List.append_assoc, List.cons_append]
    exact List.perm_middle.trans (by rw [List.append_assoc])
  · next hz =>
    rw [not_not] at hz
    split at ha
    · next f rs heq =>
      cases ha
      obtain ⟨hrem, hal'⟩ := takeNext_eq_some heq hal
      refine ⟨⟨free, hc, ?_⟩, hal'⟩
      refine List.Perm.trans ?_ hperm
      rw [hrem, List.append_assoc, List.append_assoc, List.cons_append]
      exact List.Perm.append_left free List.perm_middle.symm
    · cases ha

/-- `MMU_pf_alloc` stops only when all frames are handed out. -/
theorem FrameInv.alloc_error (h : FrameInv all s out) {e : Stop} (ha : mmuPfAlloc s = .error e) :
    out.Perm all := by
  obtain ⟨⟨free, hc, hperm⟩, -⟩ := h
  unfold mmuPfAlloc at ha
  split at ha
  · cases ha
  · next hz =>
    rw [not_not] at hz
    split at ha
    · cases ha
    · next hnone =>
      cases ha
      rw [hz] at hc
      rw [hc.eq_nil, takeNext_eq_none hnone] at hperm
      simpa using hperm

/-- The frames handed out are frames of the table. -/
theorem FrameInv.mem_all (h : FrameInv all s out) (hpf : pf ∈ out) : pf ∈ all := by
  obtain ⟨⟨free, -, hperm⟩, -⟩ := h
  exact hperm.subset (List.mem_append_left _ (List.mem_append_right _ hpf))

variable (hf : Frames all)
include hf

/-- The frames handed out are distinct frames. -/
theorem FrameInv.out_nodup (h : FrameInv all s out) : out.Nodup := by
  obtain ⟨⟨free, -, hperm⟩, -⟩ := h
  exact (List.nodup_append.1 (List.nodup_append.1 (hperm.nodup_iff.2 hf.nodup)).1).2.1

/-- A frame that is handed out is not on the free list, so its page meets no link word. -/
theorem FrameInv.free_apart (h : FrameInv all s out) (hpf : pf ∈ out) {free : List Nat}
    (hc : Chain s.mem s.freeList free) {a : Nat} (ha : a ∈ free) :
    pf + pageSize ≤ a ∨ a + pageSize ≤ pf := by
  obtain ⟨⟨free', hc', hperm⟩, -⟩ := h
  obtain rfl := hc.det hc'
  have hnd := hperm.nodup_iff.2 hf.nodup
  have hne : a ≠ pf := fun he => (List.nodup_append.1 (List.nodup_append.1 hnd).1).2.2 a ha pf hpf he
  have h₁ := hf.aligned a (hperm.subset (List.mem_append_left _ (List.mem_append_left _ ha)))
  have h₂ := hf.aligned pf (hperm.subset (List.mem_append_left _ (List.mem_append_right _ hpf)))
  unfold pageSize at *
  omega

/-- Writing into frames that are handed out leaves the free list alone. -/
theorem FrameInv.write_chain (h : FrameInv all s out) {mem : Mem}
    (hw : ∀ b, (∀ pf ∈ out, ¬ InRange pf pageSize b) → mem b = s.mem b) {free : List Nat}
    (hc : Chain s.mem s.freeList free) : Chain mem s.freeList free := by
  refine hc.congr fun a ha => load64_congr fun b hb => hw b fun pf hpf => ?_
  have hframe : InRange a pageSize b := hb.mono (Nat.le_refl a) (by unfold pageSize; omega)
  exact hframe.not_of_apart (h.free_apart hf hpf hc ha).symm

/-- Writing into frames that are handed out keeps the invariant. -/
theorem FrameInv.write (h : FrameInv all s out) {mem : Mem}
    (hw : ∀ b, (∀ pf ∈ out, ¬ InRange pf pageSize b) → mem b = s.mem b) :
    FrameInv all { s with mem } out := by
  obtain ⟨free, hc, hperm⟩ := h.split
  exact ⟨⟨free, h.write_chain hf hw hc, hperm⟩, h.aligned⟩

/-- `MMU_pf_free` of a frame that is handed out pushes it. -/
theorem FrameInv.free_chain (h : FrameInv all s out) (hpf : pf ∈ out) {free : List Nat}
    (hc : Chain s.mem s.freeList free) :
    Chain (mmuPfFree pf s).mem (mmuPfFree pf s).freeList (pf :: free) := by
  obtain ⟨free', hc', hperm⟩ := h.split
  obtain rfl := hc.det hc'
  have hhead : s.freeList < 2 ^ 64 := by
    by_cases hz : s.freeList = 0
    · rw [hz]; decide
    · obtain ⟨free', rfl, -⟩ := hc.exists_cons hz
      exact hf.fits _ (hperm.subset (by simp))
  refine hc.push (hf.ne_zero pf (h.mem_all hpf)) hhead fun a ha => ?_
  have := h.free_apart hf hpf hc ha
  unfold pageSize at this
  omega

/-- `MMU_pf_free` of a frame that is handed out takes it back. -/
theorem FrameInv.free (h : FrameInv all s out) (hpf : pf ∈ out) :
    FrameInv all (mmuPfFree pf s) (out.erase pf) := by
  obtain ⟨free, hc, hperm⟩ := h.split
  refine ⟨⟨pf :: free, h.free_chain hf hpf hc, ?_⟩, h.aligned⟩
  refine List.Perm.trans ?_ hperm
  refine List.Perm.append_right _ ?_
  rw [List.cons_append]
  exact List.perm_middle.symm.trans ((List.perm_cons_erase hpf).symm.append_left free)

end

/-! ## Runs -/

/-- A step of the allocator or of a holder of frames; `out` are the frames handed out. -/
inductive FrameStep : Phys × List Nat → Phys × List Nat → Prop
  /-- A call of `MMU_pf_alloc` that returns. -/
  | alloc {s s' : Phys} {out : List Nat} {pf : Nat} :
      mmuPfAlloc s = .ok (pf, s') → FrameStep (s, out) (s', pf :: out)
  /-- A call of `MMU_pf_free` with a frame that is handed out. -/
  | free {s : Phys} {out : List Nat} {pf : Nat} :
      pf ∈ out → FrameStep (s, out) (mmuPfFree pf s, out.erase pf)
  /-- Any change of memory inside the frames that are handed out. -/
  | write {s : Phys} {out : List Nat} {mem : Mem} :
      (∀ b, (∀ pf ∈ out, ¬ InRange pf pageSize b) → mem b = s.mem b) →
      FrameStep (s, out) ({ s with mem }, out)

/-- One step keeps the invariant. -/
theorem FrameStep.frameInv {all : List Nat} (hf : Frames all) {s t : Phys × List Nat}
    (h : FrameStep s t) (hs : FrameInv all s.1 s.2) : FrameInv all t.1 t.2 := by
  cases h with
  | alloc ha => exact hs.alloc ha
  | free hpf => exact hs.free hf hpf
  | write hw => exact hs.write hf hw

/-- Along every run from a fresh region table, the frames of the free list, the frames handed out
and the rests of the regions are disjoint, without duplicates and together the pages of the regions;
`MMU_pf_alloc` returns no frame that is still handed out, and runs out of memory only when every
page is handed out. -/
theorem frameStep_conserves {regions : List MemRegion} (hr : RegionsOK regions) (mem : Mem)
    {s : Phys} {out : List Nat}
    (h : Relation.ReflTransGen FrameStep (⟨mem, 0, regions⟩, []) (s, out)) :
    ∃ free, Chain s.mem s.freeList free ∧
      (free ++ out ++ remaining s.regions).Nodup ∧
      (∀ f, f ∈ free ++ out ++ remaining s.regions ↔ f ∈ allPages regions) ∧
      (∀ pf s', mmuPfAlloc s = .ok (pf, s') → pf ∉ out) ∧
      ∀ e, mmuPfAlloc s = .error e → ∀ f ∈ allPages regions, f ∈ out := by
  have hf := hr.frames
  have hinv : FrameInv (allPages regions) s out :=
    h.invariant (fun t => FrameInv (allPages regions) t.1 t.2) (hr.frameInv mem)
      fun _ _ hst hs => hst.frameInv hf hs
  obtain ⟨free, hc, hperm⟩ := hinv.split
  refine ⟨free, hc, hperm.nodup_iff.2 hf.nodup, fun f => hperm.mem_iff, fun pf s' ha => ?_,
    fun e ha f hfa => ?_⟩
  · exact (List.nodup_cons.1 ((hinv.alloc ha).out_nodup hf)).1
  · exact (hinv.alloc_error ha).mem_iff.2 hfa

/-- A run that takes the two pages of a region and gives the first one back. -/
theorem frameStep_conserves_two_pages :
    let regions : List MemRegion := [⟨0x1000, 0x3000, 0x1000⟩]
    let s : Phys := mmuPfFree 0x1000 ⟨fun _ => 0, 0, [⟨0x1000, 0x3000, 0x3000⟩]⟩
    Relation.ReflTransGen FrameStep (⟨fun _ => 0, 0, regions⟩, []) (s, [0x2000]) ∧
    ∃ free, Chain s.mem s.freeList free ∧
      ∀ f, f ∈ free ++ [0x2000] ++ remaining s.regions ↔ f ∈ allPages regions := by
  intro regions s
  have hok : RegionsOK regions := by
    refine ⟨fun r hr => ?_, List.pairwise_singleton .., by decide⟩
    rw [List.mem_singleton.1 hr]
    constructor <;> decide
  have hrun : Relation.ReflTransGen FrameStep (⟨fun _ => 0, 0, regions⟩, []) (s, [0x2000]) :=
    ((Relation.ReflTransGen.single (.alloc rfl)).tail (.alloc rfl)).tail
      (.free (show 0x1000 ∈ [0x2000, 0x1000] by decide))
  obtain ⟨free, hc, -, hmem, -⟩ := frameStep_conserves hok _ hrun
  exact ⟨hrun, free, hc, hmem⟩

end BanjOS
