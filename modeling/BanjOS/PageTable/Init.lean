import BanjOS.PageTable.Walk

/-!
# The page table at boot

`page_table_walk`, `direct_map_callback` and `init_page_table` (`page_table.c`). The tables of the
identity map come from the memory that is being mapped, while the loop runs.

`MapInv` is the invariant of the loop: pages `[1, k)` have their direct-map entry, every other leaf
entry there is is zero, and the tables are nodes on the paths of the pages of the range. The last
point bounds their number (`tables_length_lt`), which is what makes `tablesFor` frames enough.
-/

namespace BanjOS

open ByteMem Radix

/-- `direct_map_callback`: a present, writable entry whose frame is the address itself. -/
def directMapCallback (addr : Nat) (e : PageEntry) : PageEntry :=
  { e with present := true, readWrite := true, addr := PageEntry.addrOf addr }

/-- `n` iterations of the loop of `page_table_walk` from `addr` on: the callback gets the address and
the leaf entry. -/
def walkPages (table : Nat) (callback : Nat → PageEntry → PageEntry) :
    (n addr : Nat) → Phys → Except Stop Phys
  | 0, _, s => .ok s
  | n + 1, addr, s => do
    let (entry, s) ← pageTableGetEntry table addr true s
    let slot := entry.getD 0
    let s := { s with mem := setEntry s.mem slot (callback addr (getEntry s.mem slot)) }
    walkPages table callback n (addr + pageSize) s

/-- `page_table_walk`: the loop runs while `addr < end_addr`, in steps of a page. -/
def pageTableWalk (table startAddr endAddr : Nat) (callback : Nat → PageEntry → PageEntry)
    (s : Phys) : Except Stop Phys :=
  walkPages table callback ((endAddr - startAddr + (pageSize - 1)) / pageSize) startAddr s

/-- `mem_end`: the end of the last region. -/
def memEnd (regions : List MemRegion) : Nat := (regions.getLast?.map MemRegion.stop).getD 0

/-- `init_page_table`, up to loading the table: a cleared top-level table, and the direct map of
`[MMU_PAGE_SIZE, mem_end)`. (Without any region `MMU_pf_alloc` has stopped before `mem_end` is
read.) -/
def initPageTable (s : Phys) : Except Stop (Nat × Phys) := do
  let (pml4Table, s) ← mmuPfAlloc s
  let s := { s with mem := fill s.mem pml4Table pageSize 0 }
  let s ← pageTableWalk pml4Table pageSize (memEnd s.regions) directMapCallback s
  .ok (pml4Table, s)

/-- `page_table_walk` is the loop of the source. -/
theorem pageTableWalk_eq (table a b : Nat) (callback : Nat → PageEntry → PageEntry) (s : Phys) :
    pageTableWalk table a b callback s =
      if a < b then do
        let (entry, s) ← pageTableGetEntry table a true s
        let slot := entry.getD 0
        pageTableWalk table (a + pageSize) b callback
          { s with mem := setEntry s.mem slot (callback a (getEntry s.mem slot)) }
      else .ok s := by
  unfold pageTableWalk
  split
  · next h =>
    have hn : (b - a + (pageSize - 1)) / pageSize =
        (b - (a + pageSize) + (pageSize - 1)) / pageSize + 1 := by unfold pageSize; omega
    rw [hn, walkPages]
  · next h =>
    have hn : (b - a + (pageSize - 1)) / pageSize = 0 := by unfold pageSize; omega
    rw [hn, walkPages]

/-- The walk of the direct map, from page 1 to page `M`. -/
theorem pageTableWalk_pages (table M : Nat) (callback : Nat → PageEntry → PageEntry) (s : Phys) :
    pageTableWalk table pageSize (pageSize * (M + 1)) callback s =
      walkPages table callback M (pageSize * 1) s := by
  have hcount : (pageSize * (M + 1) - pageSize + (pageSize - 1)) / pageSize = M := by
    unfold pageSize
    omega
  rw [pageTableWalk, hcount, Nat.mul_one]

/-! ## Counting tables -/

/-- The nodes on the paths of the pages up to `M`. -/
def nodesTo (M : Nat) : List (Nat × Nat) :=
  [(0, 0)] ++ (List.range (M / 512 ^ 3 + 1)).map (1, ·) ++
    (List.range (M / 512 ^ 2 + 1)).map (2, ·) ++ (List.range (M / 512 + 1)).map (3, ·)

/-- The number of tables a map of the pages up to `M` takes. -/
def tablesFor (M : Nat) : Nat := 1 + (M / 512 ^ 3 + 1) + (M / 512 ^ 2 + 1) + (M / 512 + 1)

theorem length_nodesTo (M : Nat) : (nodesTo M).length = tablesFor M := by
  simp [nodesTo, tablesFor]
  omega

theorem mem_nodesTo {M d l q : Nat} (hM : M < 2 ^ 36) (hdl : d + l = 4) (hd : d ≤ 3)
    (hq : q ≤ M / 512 ^ l) : (d, q) ∈ nodesTo M := by
  obtain ⟨rfl, rfl⟩ | ⟨rfl, rfl⟩ | ⟨rfl, rfl⟩ | ⟨rfl, rfl⟩ :
      (d = 0 ∧ l = 4) ∨ (d = 1 ∧ l = 3) ∨ (d = 2 ∧ l = 2) ∨ (d = 3 ∧ l = 1) := by omega
  · have : q = 0 := by omega
    simp [nodesTo, this]
  all_goals
    simp only [nodesTo, List.mem_append, List.mem_map, List.mem_range, Prod.mk.injEq, Nat.pow_one] at hq ⊢
    simp
    omega

/-- Every table of the tree lies on the path of a page up to `M`. -/
def TablesTo (root M : Nat) (m : Mem) : Prop :=
  ∀ d l q t, d + l = 4 → d ≤ 3 → q < 512 ^ d → tableAt (child m) root d q = some t → q ≤ M / 512 ^ l

/-- The tables are those at the nodes on the paths of the pages up to `M`. -/
theorem tables_subset {root M : Nat} {m : Mem} (hM : M < 2 ^ 36) (hto : TablesTo root M m)
    {out : List Nat} (hout : ∀ f ∈ out, IsTable m root f) :
    out ⊆ (nodesTo M).filterMap fun x => tableAt (child m) root x.1 x.2 := by
  intro f hf
  obtain ⟨e, r, he, hr, hfr⟩ := hout f hf
  exact List.mem_filterMap.2 ⟨(e, r),
    mem_nodesTo hM (l := 4 - e) (by omega) he (hto e (4 - e) r f (by omega) he hr hfr), hfr⟩

/-- There are at most `tablesFor M` tables. -/
theorem tables_length_le {root M : Nat} {m : Mem} (hM : M < 2 ^ 36) (hto : TablesTo root M m)
    {out : List Nat} (hnd : out.Nodup) (hout : ∀ f ∈ out, IsTable m root f) : out.length ≤ tablesFor M := by
  have hle := (List.subperm_of_subset hnd (tables_subset hM hto hout)).length_le
  have hnodes := List.length_filterMap_le (fun x => tableAt (child m) root x.1 x.2) (nodesTo M)
  rw [length_nodesTo] at hnodes
  exact hle.trans hnodes

/-- While a node on the paths of the pages up to `M` is missing, there are fewer than `tablesFor M`
tables. -/
theorem tables_length_lt {root M : Nat} {m : Mem} (hM : M < 2 ^ 36) (hto : TablesTo root M m)
    {out : List Nat} (hnd : out.Nodup) (hout : ∀ f ∈ out, IsTable m root f) {d l q : Nat}
    (hdl : d + l = 4) (hd : d ≤ 3) (hq : q ≤ M / 512 ^ l)
    (hmiss : tableAt (child m) root d q = none) : out.length < tablesFor M := by
  have hle := (List.subperm_of_subset hnd (tables_subset hM hto hout)).length_le
  have hlt : ((nodesTo M).filterMap fun x => tableAt (child m) root x.1 x.2).length <
      (nodesTo M).length :=
    List.length_filterMap_lt_length_iff_exists.2 ⟨(d, q), mem_nodesTo hM hdl hd hq, hmiss⟩
  rw [length_nodesTo] at hlt
  omega

/-! ## The loop -/

/-- The loop invariant of the direct map, with the pages `[1, k)` mapped and no table beyond the paths
of the pages up to `M`. -/
structure MapInv (all : List Nat) (root M k : Nat) (s : Phys) : Prop where
  frames : FramesFor all root ∅ s
  ok : TreeOK s.mem root
  tables : TablesTo root M s.mem
  entries : ∀ n, n < 2 ^ 36 → leafEntry s.mem root n =
    if 1 ≤ n ∧ n < k then directMapCallback (pageSize * n) .zero else .zero

/-- The path of a page in the range stays in the range. -/
theorem TablesTo.grown {root M k : Nat} {m m' : Mem} (h : TablesTo root M m) (hk : k ≤ M) (hg : Grown root k m m') :
    TablesTo root M m' := by
  intro d l q t hdl hd hq ht
  rcases hg.path d l q t hdl hd hq ht with hold | rfl
  · exact h d l q t hdl hd hq hold
  · exact Nat.div_le_div_right hk

section
variable {all : List Nat} {root M k : Nat} {s s' : Phys} (hf : Frames all)
  (hlt : ∀ f ∈ all, f < 2 ^ 52)
include hf hlt

/-- One iteration of the direct map. -/
theorem MapInv.step (h : MapInv all root M k s) (hk1 : 1 ≤ k) (hkM : k ≤ M) (hM : M < 2 ^ 36)
    {r : Option Nat} (hr : pageTableGetEntry root (pageSize * k) true s = .ok (r, s')) :
    MapInv all root M (k + 1) { s' with
      mem := setEntry s'.mem (r.getD 0) (directMapCallback (pageSize * k) (getEntry s'.mem (r.getD 0))) } := by
  have hk : k < 2 ^ 36 := by omega
  have hpage := pageOf_pageSize_mul hk
  obtain ⟨hfr, hgrow, slot, rfl, hslot⟩ :=
    (pageTableGetEntry_grown (framesFor_supply hf hlt root ∅) h.frames h.ok _).1 r s' hr
  rw [hpage] at hgrow hslot
  have hzero : getEntry s'.mem slot = .zero := by
    rw [← leafEntry_of_slot hslot, hgrow.leafEntry_eq hk, h.entries k hk, if_neg (by omega)]
  rw [Option.getD_some, hzero]
  have hset := hgrow.ok.leafSet hk hslot (directMapCallback (pageSize * k) .zero)
  refine ⟨hfr.setLeaf hf hgrow.ok hk hslot _, hset.ok, fun d l q t hdl hd hq ht => ?_, fun n hn => ?_⟩
  · rw [hset.tables d q hd hq] at ht
    exact h.tables.grown hkM hgrow d l q t hdl hd hq ht
  · rw [hset.leafEntry_eq hslot hn, hgrow.leafEntry_eq hn, h.entries n hn]
    split
    · next heq => rw [heq, if_pos (by omega)]
    · next hne =>
      have hiff : 1 ≤ n ∧ n < k + 1 ↔ 1 ≤ n ∧ n < k := by omega
      simp only [hiff]

/-- With `tablesFor M` frames no iteration runs out of memory. -/
theorem MapInv.step_ok (h : MapInv all root M k s) (hkM : k ≤ M) (hM : M < 2 ^ 36)
    (hen : tablesFor M ≤ all.length) :
    ∃ x, pageTableGetEntry root (pageSize * k) true s = .ok x := by
  cases hr : pageTableGetEntry root (pageSize * k) true s with
  | ok x => exact ⟨x, rfl⟩
  | error e =>
    exfalso
    have hpage : pageOf (pageSize * k) = k := pageOf_pageSize_mul (by omega)
    obtain ⟨s₁, d, l, ⟨out, hinv, hout, -⟩, hgrow, ha, hdl, hd, hmiss⟩ :=
      (pageTableGetEntry_grown (framesFor_supply hf hlt root ∅) h.frames h.ok _).2 e hr
    rw [hpage] at hgrow hmiss
    have hlen := (hinv.alloc_error ha).length_eq
    have hcount := tables_length_lt hM (h.tables.grown hkM hgrow) (hinv.out_nodup hf)
      (fun f hf => ((hout f).1 hf).resolve_left (nomatch ·)) hdl hd (Nat.div_le_div_right hkM) hmiss
    omega

/-- The whole loop of the direct map: what it leaves when it returns, and that it does return with
`tablesFor M` frames. -/
theorem MapInv.walk (hM : M < 2 ^ 36) : ∀ n k s, k + n = M + 1 → 1 ≤ k → MapInv all root M k s →
    (∀ s', walkPages root directMapCallback n (pageSize * k) s = .ok s' →
      MapInv all root M (M + 1) s') ∧
    (tablesFor M ≤ all.length → ∃ s', walkPages root directMapCallback n (pageSize * k) s = .ok s') := by
  intro n
  induction n with
  | zero =>
    intro k s hk _ h
    obtain rfl : k = M + 1 := hk
    refine ⟨fun s' hs' => ?_, fun _ => ⟨s, rfl⟩⟩
    cases hs'
    exact h
  | succ n ih =>
    intro k s hk hk1 h
    have hkM : k ≤ M := by omega
    refine ⟨fun s' hs' => ?_, fun hen => ?_⟩
    · obtain ⟨⟨r, s₁⟩, hr, hrest⟩ := Except.bind_eq_ok.1 hs'
      exact (ih (k + 1) _ (by omega) (by omega) (h.step hf hlt hk1 hkM hM hr)).1 s' hrest
    · obtain ⟨⟨r, s₁⟩, hr⟩ := h.step_ok hf hlt hkM hM hen
      obtain ⟨s', hs'⟩ := (ih (k + 1) _ (by omega) (by omega) (h.step hf hlt hk1 hkM hM hr)).2 hen
      exact ⟨s', Except.bind_eq_ok.2 ⟨_, hr, hs'⟩⟩

end

/-! ## The boot state -/

/-- The first iteration's state: the top-level table alone, cleared. -/
theorem mapInv_start {all : List Nat} (hf : Frames all) {s s₁ : Phys} {root : Nat}
    (hinv : FrameInv all s []) (ha : mmuPfAlloc s = .ok (root, s₁)) (M : Nat) :
    MapInv all root M 1 { s₁ with mem := fill s₁.mem root pageSize 0 } := by
  have hinv₁ := hinv.alloc ha
  have hmod := hf.aligned root (hinv₁.mem_all (.head _))
  have hzero : ∀ i, i < 512 → getEntry (fill s₁.mem root pageSize 0) (root + 8 * i) = .zero :=
    fun i hi => getEntry_fill_zero (by omega) (by unfold pageSize; omega)
  have hblank : ∀ i, i < 512 → child (fill s₁.mem root pageSize 0) (root + 8 * i) = none :=
    fun i hi => by simp [child, hzero i hi, PageEntry.zero]
  have honly := tableAt_blank hblank
  refine ⟨⟨[root], hinv₁.write hf fun b hb => fill_apply_of_not_mem (hb root (.head _)), fun f => ?_, ?_⟩,
    separate_blank hmod hblank, fun d l q t _ _ hq ht => ?_, fun n hn => ?_⟩
  · constructor
    · intro hmem
      rw [List.mem_singleton.1 hmem]
      exact .inr ⟨0, 0, by omega, by omega, rfl⟩
    · rintro (hmem | ⟨d, q, -, -, ht⟩)
      · cases hmem
      · rw [(honly d q f ht).2]
        exact .head _
  · exact fun f hf => absurd hf (Set.notMem_empty f)
  · obtain ⟨rfl, -⟩ := honly d q t ht
    obtain rfl : q = 0 := by omega
    exact Nat.zero_le _
  · have hnone : leafSlot (fill s₁.mem root pageSize 0) root n = none := by
      refine leafSlot_eq_none.2 (Option.eq_none_iff_forall_ne_some.2 fun t ht => ?_)
      have := (honly 3 _ t ht).1
      omega
    rw [if_neg (by omega), leafEntry, hnone]
    rfl

/-- A region table the kernel can boot from: fresh regions in ascending order, at least one, all below
the `2 ^ 39` bytes of one top-level entry. -/
structure BootRegions (regions : List MemRegion) : Prop where
  fresh : ∀ r ∈ regions, r.Fresh
  ascending : regions.Pairwise fun r r' => r.stop ≤ r'.start
  below : ∀ r ∈ regions, r.stop ≤ 2 ^ 39
  ne_nil : regions ≠ []

/-- A table of one region. -/
theorem bootRegions_singleton {r : MemRegion} (hr : r.Fresh) (hstop : r.stop ≤ 2 ^ 39) : BootRegions [r] where
  fresh _ hr' := List.mem_singleton.1 hr' ▸ hr
  ascending := List.pairwise_singleton ..
  below _ hr' := List.mem_singleton.1 hr' ▸ hstop
  ne_nil := List.cons_ne_nil _ _

namespace BootRegions

variable {regions : List MemRegion} (h : BootRegions regions)
include h

theorem regionsOK : RegionsOK regions :=
  ⟨h.fresh, h.ascending.imp .inl, fun r hr => (h.below r hr).trans_lt (by decide)⟩

theorem memEnd_eq : memEnd regions = (regions.getLast h.ne_nil).stop := by
  rw [memEnd, List.getLast?_eq_some_getLast h.ne_nil]
  rfl

theorem memEnd_le : memEnd regions ≤ 2 ^ 39 := by
  rw [h.memEnd_eq]
  exact h.below _ (List.getLast_mem h.ne_nil)

/-- No region ends after the last one. -/
theorem stop_le_memEnd {r : MemRegion} (hr : r ∈ regions) : r.stop ≤ memEnd regions := by
  rw [h.memEnd_eq]
  have hlast := h.fresh _ (List.getLast_mem h.ne_nil)
  have hasc := h.ascending
  rw [← List.dropLast_append_getLast h.ne_nil] at hr hasc
  rcases List.mem_append.1 hr with hr | hr
  · exact ((List.pairwise_append.1 hasc).2.2 r hr _ (.head _)).trans hlast.nonempty.le
  · rw [List.mem_singleton.1 hr]

/-- The frames of the table lie between page 1 and the end of the last region. -/
theorem mem_allPages {f : Nat} (hf : f ∈ allPages regions) :
    f % pageSize = 0 ∧ pageSize ≤ f ∧ f + pageSize ≤ memEnd regions := by
  obtain ⟨r, hr, hfr⟩ := List.mem_flatMap.1 hf
  have hfresh := h.fresh r hr
  obtain ⟨hmod, hle, hlt⟩ := (mem_pagesIn hfresh.start_mod hfresh.stop_mod).1 hfr
  have hend := h.stop_le_memEnd hr
  have h₁ := hfresh.start_mod
  have h₂ := hfresh.stop_mod
  have h₃ := hfresh.pos
  unfold pageSize at *
  omega

theorem allPages_lt : ∀ f ∈ allPages regions, f < 2 ^ 52 := by
  intro f hf
  have h₁ := (h.mem_allPages hf).2.2
  have h₂ := h.memEnd_le
  unfold pageSize at h₁
  omega

/-- The end of the last region is a page boundary, and page 1 lies before it. -/
theorem memEnd_pages : ∃ M, 1 ≤ M ∧ M < 2 ^ 27 ∧ memEnd regions = pageSize * (M + 1) := by
  have hlast := h.fresh _ (List.getLast_mem h.ne_nil)
  have h₁ := hlast.start_mod
  have h₂ := hlast.stop_mod
  have h₃ := hlast.pos
  have h₄ := hlast.nonempty
  have h₅ := h.memEnd_le
  rw [h.memEnd_eq] at h₅ ⊢
  unfold pageSize at *
  exact ⟨(regions.getLast h.ne_nil).stop / 0x1000 - 1, by omega, by omega, by omega⟩

end BootRegions

/-- `takeNext` moves the end of no region. -/
theorem takeNext_stops {rs rs' : List MemRegion} {f : Nat} (h : takeNext rs = some (f, rs')) :
    rs'.map MemRegion.stop = rs.map MemRegion.stop := by
  induction rs generalizing rs' with
  | nil => cases h
  | cons r rs ih =>
    rw [takeNext] at h
    split at h
    · cases h
      rfl
    · obtain ⟨⟨f', rs₁⟩, hrs₁, he⟩ := Option.map_eq_some_iff.1 h
      cases he
      rw [List.map_cons, List.map_cons, ih hrs₁]

/-- `MMU_pf_alloc` leaves `mem_end` where it is. -/
theorem mmuPfAlloc_memEnd {s s' : Phys} {pf : Nat} (h : mmuPfAlloc s = .ok (pf, s')) :
    memEnd s'.regions = memEnd s.regions := by
  have hstops : s'.regions.map MemRegion.stop = s.regions.map MemRegion.stop := by
    unfold mmuPfAlloc at h
    split at h
    · cases h
      rfl
    · split at h
      · next heq =>
        cases h
        exact takeNext_stops heq
      · cases h
  rw [memEnd, memEnd, ← List.getLast?_map, hstops, List.getLast?_map]

/-- `init_page_table` from an allocator that has handed out nothing, when the last region ends at
page `M + 1`: if it returns the map is complete, and `tablesFor M` frames make it return. -/
theorem initPageTable_mapInv {all : List Nat} (hf : Frames all) (hlt : ∀ f ∈ all, f < 2 ^ 52)
    {s : Phys} (hinv : FrameInv all s []) {M : Nat} (hM : M < 2 ^ 36)
    (hend : memEnd s.regions = pageSize * (M + 1)) :
    (∀ root s', initPageTable s = .ok (root, s') → MapInv all root M (M + 1) s') ∧
      (tablesFor M ≤ all.length → ∃ x, initPageTable s = .ok x) := by
  have hwalk : ∀ root s₁, mmuPfAlloc s = .ok (root, s₁) →
      (∀ s', pageTableWalk root pageSize (memEnd s₁.regions) directMapCallback
        { s₁ with mem := fill s₁.mem root pageSize 0 } = .ok s' → MapInv all root M (M + 1) s') ∧
      (tablesFor M ≤ all.length →
        ∃ s', pageTableWalk root pageSize (memEnd s₁.regions) directMapCallback
          { s₁ with mem := fill s₁.mem root pageSize 0 } = .ok s') := by
    intro root s₁ ha
    rw [mmuPfAlloc_memEnd ha, hend, pageTableWalk_pages]
    exact (mapInv_start hf hinv ha M).walk hf hlt hM M 1 _ (by omega) (Nat.le_refl 1)
  refine ⟨fun root s' h => ?_, fun hen => ?_⟩
  · obtain ⟨⟨root, s₁⟩, ha, h⟩ := Except.bind_eq_ok.1 h
    obtain ⟨s₂, hw, h⟩ := Except.bind_eq_ok.1 h
    cases h
    exact (hwalk _ s₁ ha).1 _ hw
  · cases ha : mmuPfAlloc s with
    | error e =>
      have hlen := (hinv.alloc_error ha).length_eq
      unfold tablesFor at hen
      simp only [List.length_nil] at hlen
      omega
    | ok x =>
      obtain ⟨root, s₁⟩ := x
      obtain ⟨s', hw⟩ := (hwalk root s₁ ha).2 hen
      exact ⟨(root, s'), Except.bind_eq_ok.2 ⟨_, ha, Except.bind_eq_ok.2 ⟨s', hw, rfl⟩⟩⟩

/-- A direct-map entry is present, writable and points to the page itself. -/
theorem directMapCallback_zero {n : Nat} (hn : n < 2 ^ 36) :
    (directMapCallback (pageSize * n) .zero).present = true ∧
      (directMapCallback (pageSize * n) .zero).readWrite = true ∧
      (directMapCallback (pageSize * n) .zero).frame = pageSize * n :=
  ⟨rfl, rfl, PageEntry.addrOf_frame (Nat.mul_mod_right ..) (by unfold pageSize; omega)⟩

/-- `page_table_virt_to_phys_addr` follows the leaf entry. -/
theorem pageTableVirtToPhysAddr_eq {s : Phys} {root v slot : Nat}
    (h : leafSlot s.mem root (pageOf v) = some slot) :
    pageTableVirtToPhysAddr root v s = .ok ((getEntry s.mem slot).frame + v % pageSize) := by
  have hoff : (splitVirtAddr v).2 = v % pageSize := Nat.and_two_pow_sub_one_eq_mod v 12
  refine Except.bind_eq_ok.2 ⟨_, pageTableGetEntry_lookup root v s, ?_⟩
  simp only [h, hoff]

/-- The identity map at boot. With a frame for each table, `init_page_table` returns; then every page
from page 1 to the end of the last region has a present, writable leaf entry with its own frame, no
other page is present, and every table lies in the mapped range, where it is its own translation. -/
theorem initPageTable_identity {regions : List MemRegion} (hr : BootRegions regions) (mem : Mem)
    (hen : tablesFor (memEnd regions / pageSize - 1) ≤ (allPages regions).length) :
    ∃ root s', initPageTable ⟨mem, 0, regions⟩ = .ok (root, s') ∧
      (∀ n, 1 ≤ n → pageSize * n < memEnd regions → ∃ slot, leafSlot s'.mem root n = some slot ∧
        (getEntry s'.mem slot).present = true ∧ (getEntry s'.mem slot).readWrite = true ∧
        (getEntry s'.mem slot).frame = pageSize * n) ∧
      (∀ n slot, n < 2 ^ 36 → n = 0 ∨ memEnd regions ≤ pageSize * n →
        leafSlot s'.mem root n = some slot → (getEntry s'.mem slot).present = false) ∧
      ∀ f, IsTable s'.mem root f → pageSize ≤ f ∧ f + pageSize ≤ memEnd regions ∧
        ∀ a, InRange f pageSize a → pageTableVirtToPhysAddr root a s' = .ok a := by
  obtain ⟨M, hM1, hM, hend⟩ := hr.memEnd_pages
  have hMeq : memEnd regions / pageSize - 1 = M := by
    rw [hend, Nat.mul_div_cancel_left _ (by decide), Nat.add_sub_cancel]
  have hMlt : ∀ n, pageSize * n < memEnd regions ↔ n < M + 1 := fun n => by
    rw [hend]
    exact Nat.mul_lt_mul_left (by decide)
  rw [hMeq] at hen
  obtain ⟨hmap, hret⟩ := initPageTable_mapInv hr.regionsOK.frames hr.allPages_lt
    (hr.regionsOK.frameInv mem) (by omega) hend
  obtain ⟨⟨root, s'⟩, hinit⟩ := hret hen
  have hmap := hmap root s' hinit
  have hmapped : ∀ n, 1 ≤ n → n < M + 1 → ∃ slot, leafSlot s'.mem root n = some slot ∧
      getEntry s'.mem slot = directMapCallback (pageSize * n) .zero := by
    intro n hn1 hn
    have he : leafEntry s'.mem root n = directMapCallback (pageSize * n) .zero := by
      rw [hmap.entries n (by omega), if_pos ⟨hn1, hn⟩]
    obtain ⟨slot, hslot, hentry⟩ := exists_slot_of_leafEntry
      (show leafEntry s'.mem root n ≠ .zero by rw [he]; exact fun h => nomatch congrArg PageEntry.present h)
    exact ⟨slot, hslot, hentry.trans he⟩
  refine ⟨root, s', hinit, fun n hn1 hn => ?_, fun n slot hn36 hn hs => ?_, fun f hf => ?_⟩
  · rw [hMlt] at hn
    obtain ⟨slot, hslot, he⟩ := hmapped n hn1 hn
    refine ⟨slot, hslot, ?_⟩
    rw [he]
    exact directMapCallback_zero (by omega)
  · have hout : ¬ (1 ≤ n ∧ n < M + 1) := by
      intro ⟨h1, h2⟩
      have := (hMlt n).2 h2
      omega
    rw [← leafEntry_of_slot hs, hmap.entries n hn36, if_neg hout]
    rfl
  · obtain ⟨out, hinv, hout, -⟩ := hmap.frames
    obtain ⟨hmod, hlo, hhi⟩ := hr.mem_allPages (hinv.mem_all ((hout f).2 (.inr hf)))
    refine ⟨hlo, hhi, fun a ha => ?_⟩
    have h₁ := ha.1
    have h₂ := ha.2
    have hle := hr.memEnd_le
    have hpage : pageOf a = a / pageSize := pageOf_eq (by unfold pageSize at *; omega)
    have hn1 : 1 ≤ a / pageSize := by unfold pageSize at *; omega
    have hnM : pageSize * (a / pageSize) < memEnd regions := by unfold pageSize at *; omega
    rw [hMlt] at hnM
    obtain ⟨slot, hslot, he⟩ := hmapped _ hn1 hnM
    rw [← hpage] at hslot
    rw [pageTableVirtToPhysAddr_eq hslot, he, (directMapCallback_zero (by omega)).2.2,
      Nat.div_add_mod]

/-- The map of 15 pages, which takes four of them. -/
theorem initPageTable_identity_15_pages :
    let regions : List MemRegion := [⟨0x1000, 0x10000, 0x1000⟩]
    ∃ root s', initPageTable ⟨fun _ => 0, 0, regions⟩ = .ok (root, s') ∧
      ∃ slot, leafSlot s'.mem root 7 = some slot ∧ (getEntry s'.mem slot).frame = 0x7000 := by
  intro regions
  have hr : BootRegions regions := bootRegions_singleton (by constructor <;> decide) (by decide)
  obtain ⟨root, s', hinit, hmapped, -, -⟩ := initPageTable_identity hr (fun _ => 0) (by decide)
  obtain ⟨slot, hslot, -, -, hframe⟩ := hmapped 7 (by decide) (by decide)
  exact ⟨root, s', hinit, slot, hslot, hframe⟩

end BanjOS
