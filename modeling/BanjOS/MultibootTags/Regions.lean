import BanjOS.Basic
import BanjOS.Lib.Run
import Mathlib.Data.List.Pairwise

/-!
# The region table

`build_mem_regions` (`multiboot_tags.c`) subtracts the ELF sections of the kernel image from the
usable entries of the memory map and rounds what is left to whole pages. It is a merge of two
tables with one cursor each: the cursor of the sections is shared by all memory entries, and stays
where it is when a section runs past the end of an entry.

The module gives the model and its exact meaning (`buildMemRegions_hasPage`): a page is in the table
iff it lies in a usable entry and the first section that ends above it, in the order of the
section table, starts at or above its end. That holds for every order of the section table; the
two results about the kernel image at the end read it for sorted and for arbitrary tables.
-/

namespace BanjOS

/-- `struct TagMemMapEntry`. -/
structure TagMemMapEntry where
  startingAddr : Nat
  length : Nat
  type : Nat
  deriving DecidableEq, Repr

/-- `struct TagELFEntry`, the fields `build_mem_regions` reads. -/
structure TagELFEntry where
  sectionType : Nat
  segmentAddress : Nat
  segmentSize : Nat
  deriving DecidableEq, Repr

/-- `struct MemRegion`: the pages of `[start, stop)`, of which those from `next` on have never been
handed out. -/
structure MemRegion where
  start : Nat
  stop : Nat
  next : Nat
  deriving DecidableEq, Repr

/-- `segment_address + segment_size`, in 64 bits. -/
def TagELFEntry.segmentEnd (e : TagELFEntry) : Nat := (e.segmentAddress + e.segmentSize) % 2 ^ 64

/-- `starting_addr + length`, in 64 bits. -/
def TagMemMapEntry.endAddr (m : TagMemMapEntry) : Nat := (m.startingAddr + m.length) % 2 ^ 64

/-- The `start` of an entry's scan: null is not a valid address, so address 0 is stepped over. -/
def TagMemMapEntry.scanStart (m : TagMemMapEntry) : Nat :=
  if m.startingAddr = 0 then m.startingAddr + 1 else m.startingAddr

/-- `add_region`: append `[start, stop)`, shrunk to whole pages, unless nothing is left of it. The
capacity of the table is asserted first, also for a region that turns out empty. -/
def addRegion (regions : List MemRegion) (start stop : Nat) : Except Stop (List MemRegion) :=
  if regions.length < memRegionsLen then
    let start := alignPointer start pageSize true
    let stop := alignPointer stop pageSize false
    if start < stop then .ok (regions ++ [{ start, stop, next := start }]) else .ok regions
  else .error (.assertion "mem_regions.size < MEM_REGIONS_LEN && \"Number of memory regions must fit into static regions table\"")

/-- The first inner loop: step over null sections and sections at or before `start`. -/
def skipSections (start : Nat) (elf : List TagELFEntry) : List TagELFEntry :=
  elf.dropWhile fun e => e.sectionType == 0 || decide (e.segmentEnd ≤ start)

/-- The second inner loop: emit the gap before each section that starts below `stop`. Returns
`cur_start`, the section cursor and the table. The cursor does not advance past a section that
reaches `stop`. -/
def carveSections (stop : Nat) : (curStart : Nat) → List TagELFEntry → List MemRegion →
    Except Stop (Nat × List TagELFEntry × List MemRegion)
  | curStart, [], regions => .ok (curStart, [], regions)
  | curStart, e :: elf, regions =>
    if e.segmentAddress < stop then do
      let regions ← (if e.segmentAddress > curStart then
        addRegion regions curStart (min e.segmentAddress stop) else .ok regions)
      let curStart := max curStart e.segmentEnd
      if curStart ≥ stop then .ok (curStart, e :: elf, regions)
      else carveSections stop curStart elf regions
    else .ok (curStart, e :: elf, regions)

/-- The body of the outer loop for a usable entry: both inner loops and the region after the last
section. Returns the section cursor and the table. -/
def carveEntry (m : TagMemMapEntry) (elf : List TagELFEntry) (regions : List MemRegion) :
    Except Stop (List TagELFEntry × List MemRegion) := do
  let elf := skipSections m.scanStart elf
  let (curStart, elf, regions) ← carveSections m.endAddr m.scanStart elf regions
  let regions ←
    (if curStart < m.endAddr then addRegion regions curStart m.endAddr else .ok regions)
  .ok (elf, regions)

/-- `build_mem_regions`, from the table `regions`. The cursors `i` and `j` are the suffixes of the
two tables still to be read. -/
def buildMemRegions : List TagMemMapEntry → List TagELFEntry → List MemRegion →
    Except Stop (List MemRegion)
  | [], _, regions => .ok regions
  | m :: mem, elf, regions =>
    if m.type ≠ 1 then buildMemRegions mem elf regions
    else do
      let (elf, regions) ← carveEntry m elf regions
      buildMemRegions mem elf regions

/-! ## Pages, sections and well-formed tables -/

/-- The page at `p` lies in one of the regions. -/
def HasPage (regions : List MemRegion) (p : Nat) : Prop :=
  ∃ r ∈ regions, r.start ≤ p ∧ p + pageSize ≤ r.stop

/-- The page at `p` has an address of the section. -/
def TagELFEntry.Meets (e : TagELFEntry) (p : Nat) : Prop :=
  ∃ a, (p ≤ a ∧ a < p + pageSize) ∧ e.segmentAddress ≤ a ∧ a < e.segmentAddress + e.segmentSize

/-- The first section, in the order of the table, that ends above `p`. -/
def firstAbove (p : Nat) (elf : List TagELFEntry) : Option TagELFEntry :=
  elf.find? fun e => decide (p < e.segmentEnd)

/-- The first section that ends above `p` leaves the page at `p` free. -/
def PageClear (p : Nat) (elf : List TagELFEntry) : Prop :=
  ∀ e, firstAbove p elf = some e → p + pageSize ≤ e.segmentAddress

/-- Section addresses are physical addresses. -/
def SectionsBounded (elf : List TagELFEntry) : Prop :=
  ∀ e ∈ elf, e.segmentAddress + e.segmentSize ≤ 2 ^ 52

/-- A memory map with entries of physical addresses in ascending order and without overlap. -/
structure MemMapOK (mem : List TagMemMapEntry) : Prop where
  bounded : ∀ m ∈ mem, m.startingAddr + m.length ≤ 2 ^ 52
  ascending : mem.Pairwise fun m m' => m.startingAddr + m.length ≤ m'.startingAddr

/-- A freshly built region: whole pages, at least one of them, not page 0, none handed out. -/
structure MemRegion.Fresh (r : MemRegion) : Prop where
  start_mod : r.start % pageSize = 0
  stop_mod : r.stop % pageSize = 0
  nonempty : r.start < r.stop
  pos : 0 < r.start
  next_eq : r.next = r.start

/-- The table under construction: fresh regions in ascending order, all of them below `hi`. -/
structure TableBelow (hi : Nat) (regions : List MemRegion) : Prop where
  fresh : ∀ r ∈ regions, r.Fresh
  ascending : regions.Pairwise fun r r' => r.stop ≤ r'.start
  below : ∀ r ∈ regions, r.stop ≤ hi

theorem TagELFEntry.segmentEnd_eq {e : TagELFEntry}
    (h : e.segmentAddress + e.segmentSize ≤ 2 ^ 52) :
    e.segmentEnd = e.segmentAddress + e.segmentSize := Nat.mod_eq_of_lt (by omega)

theorem TagMemMapEntry.endAddr_eq {m : TagMemMapEntry} (h : m.startingAddr + m.length ≤ 2 ^ 52) :
    m.endAddr = m.startingAddr + m.length := Nat.mod_eq_of_lt (by omega)

theorem TagMemMapEntry.scanStart_pos (m : TagMemMapEntry) : 0 < m.scanStart := by
  unfold scanStart; split <;> omega

/-- On page boundaries the scan starts at the entry, page 0 apart. -/
theorem TagMemMapEntry.scanStart_le {m : TagMemMapEntry} {p : Nat} :
    m.scanStart ≤ p ↔ m.startingAddr ≤ p ∧ p ≠ 0 := by
  unfold scanStart; split <;> omega

theorem hasPage_append {rs rs' : List MemRegion} {p : Nat} :
    HasPage (rs ++ rs') p ↔ HasPage rs p ∨ HasPage rs' p := by
  simp only [HasPage, List.mem_append, or_and_right, exists_or]

/-- A section the scan has passed does not decide a page above it. -/
theorem pageClear_cons_of_le {e : TagELFEntry} {elf : List TagELFEntry} {p : Nat}
    (h : e.segmentEnd ≤ p) : PageClear p (e :: elf) ↔ PageClear p elf := by
  rw [PageClear, PageClear, firstAbove, firstAbove, List.find?_cons_of_neg (by simpa using h)]

/-- The first section that ends above a page decides it. -/
theorem pageClear_cons_of_lt {e : TagELFEntry} {elf : List TagELFEntry} {p : Nat}
    (h : p < e.segmentEnd) : PageClear p (e :: elf) ↔ p + pageSize ≤ e.segmentAddress := by
  rw [PageClear, firstAbove, List.find?_cons_of_pos (by simpa using h)]
  exact ⟨fun H => H e rfl, fun H e' he' => by cases he'; exact H⟩

/-! ## `add_region` -/

/-- `add_region` adds exactly the whole pages of its interval. -/
theorem addRegion_hasPage {rs rs' : List MemRegion} {a b p : Nat} (h : addRegion rs a b = .ok rs')
    (ha : a ≤ 2 ^ 52) (hp : p % pageSize = 0) :
    HasPage rs' p ↔ HasPage rs p ∨ (a ≤ p ∧ p + pageSize ≤ b) := by
  have hp' : (p + pageSize) % pageSize = 0 := by simpa using hp
  have hin : (alignPointer a pageSize true ≤ p ∧ p + pageSize ≤ alignPointer b pageSize false) ↔
      (a ≤ p ∧ p + pageSize ≤ b) :=
    and_congr (alignPointer_after_le ha hp) (le_alignPointer_before hp')
  unfold addRegion at h
  split at h
  · dsimp only at h
    split at h
    · cases h
      rw [hasPage_append, ← hin]
      simp [HasPage]
    · next hlt =>
      cases h
      -- nothing is left of the interval, so no page fits it
      have : ¬ (a ≤ p ∧ p + pageSize ≤ b) := by
        rw [← hin]
        unfold pageSize at *
        omega
      simp [this]
  · cases h

/-- `add_region` keeps the table in order when its interval starts above the table. -/
theorem addRegion_tableBelow {rs rs' : List MemRegion} {a b hi hi' : Nat}
    (h : addRegion rs a b = .ok rs') (hrs : TableBelow hi rs) (hpos : 0 < a) (ha : a ≤ 2 ^ 52)
    (hia : hi ≤ a) (hib : hi ≤ hi') (hb : b ≤ hi') : TableBelow hi' rs' := by
  have hstart := (alignPointer_after_le ha alignPointer_after_mod).1 (Nat.le_refl _)
  have hstop : alignPointer b pageSize false ≤ b :=
    (le_alignPointer_before alignPointer_before_mod).1 (Nat.le_refl _)
  unfold addRegion at h
  split at h
  · dsimp only at h
    split at h
    · next hlt =>
      cases h
      refine ⟨fun r hr => ?_, ?_, fun r hr => ?_⟩
      · rcases List.mem_append.1 hr with hr | hr
        · exact hrs.fresh r hr
        · rw [List.mem_singleton.1 hr]
          exact ⟨alignPointer_after_mod, alignPointer_before_mod, hlt, by dsimp only; omega, rfl⟩
      · refine List.pairwise_append.2 ⟨hrs.ascending, List.pairwise_singleton .., ?_⟩
        intro r hr r' hr'
        rw [List.mem_singleton.1 hr']
        exact (hrs.below r hr).trans (hia.trans hstart)
      · rcases List.mem_append.1 hr with hr | hr
        · exact (hrs.below r hr).trans hib
        · rw [List.mem_singleton.1 hr]
          exact hstop.trans hb
    · cases h
      exact ⟨hrs.fresh, hrs.ascending, fun r hr => (hrs.below r hr).trans hib⟩
  · cases h

/-! ## The scan of one entry -/

/-- The sections a scan passes end below the end of the entry. -/
theorem carveSections_cursor {stop cur cur' : Nat} {elf elf' : List TagELFEntry}
    {rs rs' : List MemRegion} (h : carveSections stop cur elf rs = .ok (cur', elf', rs')) :
    ∃ pre, elf = pre ++ elf' ∧ ∀ e ∈ pre, e.segmentEnd ≤ stop := by
  induction elf generalizing cur rs with
  | nil => cases h; exact ⟨[], rfl, nofun⟩
  | cons e elf ih =>
    rw [carveSections] at h
    split at h
    · obtain ⟨rs₁, -, h⟩ := Except.bind_eq_ok.1 h
      dsimp only at h
      split at h
      · cases h; exact ⟨[], rfl, nofun⟩
      · next hlt =>
        obtain ⟨pre, rfl, hpre⟩ := ih h
        refine ⟨e :: pre, rfl, fun e' he' => ?_⟩
        rcases List.mem_cons.1 he' with rfl | he'
        · omega
        · exact hpre e' he'
    · cases h; exact ⟨[], rfl, nofun⟩

/-- What the scan of an entry, with the region after its last section, adds to the table: the pages
of `[cur, stop)` that the first section ending above them leaves free. By induction on the sections
still to be read; `cur` is above every section already passed. -/
theorem carveSections_hasPage {stop cur cur' p : Nat} {elf elf' : List TagELFEntry}
    {rs rs' rs'' : List MemRegion} (h : carveSections stop cur elf rs = .ok (cur', elf', rs'))
    (hlast : (if cur' < stop then addRegion rs' cur' stop else .ok rs') = .ok rs'')
    (helf : SectionsBounded elf) (hcur : cur ≤ 2 ^ 52) (hp : p % pageSize = 0) :
    HasPage rs'' p ↔ HasPage rs p ∨ (cur ≤ p ∧ p + pageSize ≤ stop ∧ PageClear p elf) := by
  -- the region after the last section, when the scan ends at `cur`
  have hend : ∀ {elf₁ : List TagELFEntry} {rs₁ : List MemRegion} {cur₁ : Nat}, cur₁ ≤ 2 ^ 52 →
      (if cur₁ < stop then addRegion rs₁ cur₁ stop else .ok rs₁) = .ok rs'' →
      (p + pageSize ≤ stop → PageClear p elf₁) →
      (HasPage rs'' p ↔ HasPage rs₁ p ∨ (cur₁ ≤ p ∧ p + pageSize ≤ stop ∧ PageClear p elf₁)) := by
    intro elf₁ rs₁ cur₁ hc₁ hl hclear
    split at hl
    · rw [addRegion_hasPage hl hc₁ hp]
      exact or_congr_right (and_congr_right fun _ => ⟨fun h => ⟨h, hclear h⟩, And.left⟩)
    · cases hl
      exact ⟨.inl, fun h => h.elim id fun h => by unfold pageSize at h; omega⟩
  induction elf generalizing cur rs with
  | nil =>
    cases h
    exact hend hcur hlast fun _ e he => nomatch he
  | cons e elf ih =>
    have he := helf e (.head _)
    have hee := TagELFEntry.segmentEnd_eq he
    rw [carveSections] at h
    split at h
    · next hlt =>
      obtain ⟨rs₁, hgap, h⟩ := Except.bind_eq_ok.1 h
      dsimp only at h
      -- the gap before the section
      have hA : HasPage rs₁ p ↔ HasPage rs p ∨ (cur ≤ p ∧ p + pageSize ≤ e.segmentAddress) := by
        split at hgap
        · rw [Nat.min_eq_left (Nat.le_of_lt hlt)] at hgap
          exact addRegion_hasPage hgap hcur hp
        · cases hgap
          exact ⟨.inl, fun h => h.elim id fun h => by unfold pageSize at h; omega⟩
      split at h
      · next hge =>
        cases h
        rw [if_neg (by omega)] at hlast
        cases hlast
        rw [hA]
        refine or_congr_right ⟨fun ⟨h₁, h₂⟩ => ⟨h₁, by omega, ?_⟩, fun ⟨h₁, h₂, h₃⟩ => ⟨h₁, ?_⟩⟩
        · exact (pageClear_cons_of_lt (by unfold pageSize at h₂; omega)).2 h₂
        · exact (pageClear_cons_of_lt (by unfold pageSize at h₂; omega)).1 h₃
      · next hlt' =>
        have hih := ih h (fun e' he' => helf e' (.tail _ he')) (by omega)
        refine hih.trans ?_
        rw [hA, or_assoc]
        refine or_congr_right ?_
        by_cases hpe : e.segmentEnd ≤ p
        · rw [pageClear_cons_of_le hpe]
          unfold pageSize
          constructor
          · rintro (⟨h₁, h₂⟩ | ⟨h₁, h₂, h₃⟩)
            · omega
            · exact ⟨by omega, h₂, h₃⟩
          · rintro ⟨h₁, h₂, h₃⟩
            exact .inr ⟨by omega, h₂, h₃⟩
        · rw [pageClear_cons_of_lt (by omega)]
          constructor
          · rintro (⟨h₁, h₂⟩ | ⟨h₁, h₂, h₃⟩)
            · exact ⟨h₁, by omega, h₂⟩
            · omega
          · rintro ⟨h₁, h₂, h₃⟩
            exact .inl ⟨h₁, h₃⟩
    · next hge =>
      cases h
      refine hend hcur hlast fun hs => ?_
      exact (pageClear_cons_of_lt (by unfold pageSize at hs; omega)).2 (by omega)

/-- The scan of an entry keeps the table in order. -/
theorem carveSections_tableBelow {stop cur cur' : Nat} {elf elf' : List TagELFEntry}
    {rs rs' rs'' : List MemRegion} (h : carveSections stop cur elf rs = .ok (cur', elf', rs'))
    (hlast : (if cur' < stop then addRegion rs' cur' stop else .ok rs') = .ok rs'')
    (helf : SectionsBounded elf) (hcur : cur ≤ 2 ^ 52) (hpos : 0 < cur) (hi : Nat) (hhi : hi ≤ cur)
    {top : Nat} (hstop : stop ≤ top) (hcurt : hi ≤ top) (hrs : TableBelow hi rs) :
    TableBelow top rs'' := by
  have hend : ∀ {rs₁ : List MemRegion} {cur₁ : Nat}, 0 < cur₁ → cur₁ ≤ 2 ^ 52 →
      ∀ hi₁, hi₁ ≤ cur₁ → hi₁ ≤ top → TableBelow hi₁ rs₁ →
      (if cur₁ < stop then addRegion rs₁ cur₁ stop else .ok rs₁) = .ok rs'' →
      TableBelow top rs'' := by
    intro rs₁ cur₁ hp₁ hc₁ hi₁ hle ht hrs₁ hl
    split at hl
    · exact addRegion_tableBelow hl hrs₁ hp₁ hc₁ hle ht hstop
    · cases hl
      exact ⟨hrs₁.fresh, hrs₁.ascending, fun r hr => (hrs₁.below r hr).trans ht⟩
  induction elf generalizing cur rs hi with
  | nil => cases h; exact hend hpos hcur hi hhi hcurt hrs hlast
  | cons e elf ih =>
    have he := helf e (.head _)
    have hee := TagELFEntry.segmentEnd_eq he
    rw [carveSections] at h
    split at h
    · next hlt =>
      obtain ⟨rs₁, hgap, h⟩ := Except.bind_eq_ok.1 h
      dsimp only at h
      have hA : TableBelow (max hi e.segmentAddress) rs₁ := by
        split at hgap
        · rw [Nat.min_eq_left (Nat.le_of_lt hlt)] at hgap
          exact addRegion_tableBelow hgap hrs hpos hcur hhi (by omega) (by omega)
        · cases hgap
          exact ⟨hrs.fresh, hrs.ascending, fun r hr => (hrs.below r hr).trans (by omega)⟩
      split at h
      · cases h
        exact hend (by omega) (by omega) (max hi e.segmentAddress) (by omega) (by omega) hA hlast
      · exact ih h (fun e' he' => helf e' (.tail _ he')) (by omega) (by omega)
          (max hi e.segmentAddress) (by omega) (by omega) hA
    · cases h; exact hend hpos hcur hi hhi hcurt hrs hlast

/-! ## The scan of the map -/

/-- A section the first inner loop steps over. -/
theorem skipSections_cons_of_pos {a : Nat} {e : TagELFEntry} {elf : List TagELFEntry}
    (h : e.sectionType = 0 ∨ e.segmentEnd ≤ a) : skipSections a (e :: elf) = skipSections a elf :=
  List.dropWhile_cons_of_pos (by simpa using h)

/-- A section the first inner loop stops at. -/
theorem skipSections_cons_of_neg {a : Nat} {e : TagELFEntry} {elf : List TagELFEntry}
    (h : ¬ (e.sectionType = 0 ∨ e.segmentEnd ≤ a)) : skipSections a (e :: elf) = e :: elf :=
  List.dropWhile_cons_of_neg (by simpa using h)

/-- Stepping over sections once more from a later start reads as stepping over them once. -/
theorem skipSections_skipSections {a b : Nat} (h : a ≤ b) (elf : List TagELFEntry) :
    skipSections b (skipSections a elf) = skipSections b elf := by
  induction elf with
  | nil => rfl
  | cons e elf ih =>
    by_cases he : e.sectionType = 0 ∨ e.segmentEnd ≤ a
    · rw [skipSections_cons_of_pos he, ih,
        skipSections_cons_of_pos (he.imp_right fun hle => hle.trans h)]
    · rw [skipSections_cons_of_neg he]

/-- Sections that end at or before the start are stepped over. -/
theorem skipSections_append {a : Nat} {pre elf : List TagELFEntry}
    (h : ∀ e ∈ pre, e.segmentEnd ≤ a) : skipSections a (pre ++ elf) = skipSections a elf := by
  induction pre with
  | nil => rfl
  | cons e pre ih =>
    rw [List.cons_append, skipSections_cons_of_pos (.inr (h e (.head _)))]
    exact ih fun e' he' => h e' (.tail _ he')

/-- The entry `m` offers the page at `p`: it is usable, holds the whole page, and the first section
of the table that ends above the page, once the sections before the entry are stepped over, leaves
it free. -/
structure TagMemMapEntry.Offers (m : TagMemMapEntry) (elf : List TagELFEntry) (p : Nat) : Prop where
  usable : m.type = 1
  start_le : m.startingAddr ≤ p
  le_end : p + pageSize ≤ m.startingAddr + m.length
  clear : PageClear p (skipSections m.scanStart elf)

/-- What the body of the outer loop does: the table gains the pages the entry offers, stays in
order, and the cursor the loop hands on reads, for every later start, as the whole table. -/
theorem carveEntry_spec {m : TagMemMapEntry} {elf elf₀ elf' : List TagELFEntry}
    {rs rs' : List MemRegion} (h : carveEntry m elf rs = .ok (elf', rs'))
    (hm : m.startingAddr + m.length ≤ 2 ^ 52) (helf₀ : SectionsBounded elf₀)
    (hcursor : ∀ a, 0 < a → m.startingAddr ≤ a → skipSections a elf = skipSections a elf₀)
    (hrs : TableBelow m.startingAddr rs) (hty : m.type = 1) :
    (∀ p, p % pageSize = 0 → (HasPage rs' p ↔ HasPage rs p ∨ (m.Offers elf₀ p ∧ p ≠ 0))) ∧
    TableBelow (m.startingAddr + m.length) rs' ∧
    ∀ a, 0 < a → m.startingAddr + m.length ≤ a → skipSections a elf' = skipSections a elf₀ := by
  have hstart : m.startingAddr ≤ m.scanStart := by unfold TagMemMapEntry.scanStart; split <;> omega
  have hend := TagMemMapEntry.endAddr_eq hm
  have hb : SectionsBounded (skipSections m.scanStart elf₀) := fun e he =>
    helf₀ e ((List.dropWhile_sublist _).subset he)
  have hss : m.scanStart ≤ 2 ^ 52 := by unfold TagMemMapEntry.scanStart; split <;> omega
  unfold carveEntry at h
  rw [hcursor _ m.scanStart_pos hstart] at h
  obtain ⟨⟨cur', elf₁, rs₁⟩, hcarve, h⟩ := Except.bind_eq_ok.1 h
  obtain ⟨rs₂, hlast, h⟩ := Except.bind_eq_ok.1 h
  cases h
  refine ⟨fun p hp => ?_, ?_, fun a ha₀ ha => ?_⟩
  · have hpage := carveSections_hasPage hcarve hlast hb hss hp
    rw [hpage, hend, TagMemMapEntry.scanStart_le]
    exact or_congr_right
      ⟨fun ⟨⟨h₁, h₂⟩, h₃, h₄⟩ => ⟨⟨hty, h₁, h₃, h₄⟩, h₂⟩, fun ⟨h₁, h₂⟩ =>
        ⟨⟨h₁.start_le, h₂⟩, h₁.le_end, h₁.clear⟩⟩
  · exact carveSections_tableBelow hcarve hlast hb hss m.scanStart_pos _ hstart (Nat.le_of_eq hend)
      (by omega) hrs
  · obtain ⟨pre, hpre, hle⟩ := carveSections_cursor hcarve
    rw [← skipSections_append fun e he => (hle e he).trans (hend.trans_le ha), ← hpre]
    -- a later start lies after this entry's
    exact skipSections_skipSections (by unfold TagMemMapEntry.scanStart; split <;> omega) _

/-- The exact meaning of the region table, for every order of the section table: it holds the pages
the entries of the map offer, in order. By induction on the entries; the section cursor is any
suffix that reads as the whole table from the next entry on. -/
theorem buildMemRegions_spec {mem : List TagMemMapEntry} {elf elf₀ : List TagELFEntry}
    {rs rs' : List MemRegion} (h : buildMemRegions mem elf rs = .ok rs') (hmem : MemMapOK mem)
    (helf₀ : SectionsBounded elf₀) (lo : Nat) (hlo : ∀ m ∈ mem, lo ≤ m.startingAddr)
    (hcursor : ∀ a, 0 < a → lo ≤ a → skipSections a elf = skipSections a elf₀) (hrs : TableBelow lo rs) :
    (∀ p, p % pageSize = 0 →
      (HasPage rs' p ↔ HasPage rs p ∨ ((∃ m ∈ mem, m.Offers elf₀ p) ∧ p ≠ 0))) ∧
    TableBelow (max lo (2 ^ 52)) rs' := by
  induction mem generalizing elf rs lo with
  | nil =>
    cases h
    exact ⟨fun p _ => by simp, hrs.fresh, hrs.ascending,
      fun r hr => (hrs.below r hr).trans (Nat.le_max_left ..)⟩
  | cons m mem ih =>
    obtain ⟨hmm, hms⟩ := List.pairwise_cons.1 hmem.ascending
    have hmem' : MemMapOK mem := ⟨fun m' hm' => hmem.bounded m' (.tail _ hm'), hms⟩
    rw [buildMemRegions] at h
    split at h
    · next hty =>
      obtain ⟨hpage, hbelow⟩ := ih h hmem' lo (fun m' hm' => hlo m' (.tail _ hm')) hcursor hrs
      refine ⟨fun p hp => ?_, hbelow⟩
      have : ¬ m.Offers elf₀ p := fun ho => hty ho.usable
      rw [hpage p hp]
      simp [this]
    · next hty =>
      obtain ⟨⟨elf₁, rs₁⟩, hc, h⟩ := Except.bind_eq_ok.1 h
      have hlom := hlo m (.head _)
      have hmb := hmem.bounded m (.head _)
      obtain ⟨hpage₁, hbelow₁, hcursor₁⟩ := carveEntry_spec hc hmb helf₀
        (fun a ha₀ ha => hcursor a ha₀ (hlom.trans ha))
        ⟨hrs.fresh, hrs.ascending, fun r hr => (hrs.below r hr).trans hlom⟩ (not_not.1 hty)
      obtain ⟨hpage, hbelow⟩ := ih h hmem' _ hmm hcursor₁ hbelow₁
      refine ⟨fun p hp => ?_, hbelow.fresh, hbelow.ascending,
        fun r hr => (hbelow.below r hr).trans (by omega)⟩
      rw [hpage p hp, hpage₁ p hp, or_assoc, ← or_and_right]
      simp

/-- `buildMemRegions_spec` for the call the kernel makes, with an empty table. -/
theorem buildMemRegions_hasPage {mem : List TagMemMapEntry} {elf : List TagELFEntry}
    {rs : List MemRegion} (h : buildMemRegions mem elf [] = .ok rs) (hmem : MemMapOK mem)
    (helf : SectionsBounded elf) {p : Nat} (hp : p % pageSize = 0) :
    HasPage rs p ↔ (∃ m ∈ mem, m.Offers elf p) ∧ p ≠ 0 := by
  have hspec := buildMemRegions_spec h hmem helf 0 (fun _ _ => Nat.zero_le _)
    (fun _ _ _ => rfl) ⟨nofun, .nil, nofun⟩
  rw [hspec.1 p hp]
  simp [HasPage]

/-- The table is in order, its regions are fresh and end at or below `2 ^ 52`. -/
theorem buildMemRegions_tableBelow {mem : List TagMemMapEntry} {elf : List TagELFEntry}
    {rs : List MemRegion} (h : buildMemRegions mem elf [] = .ok rs) (hmem : MemMapOK mem)
    (helf : SectionsBounded elf) : TableBelow (2 ^ 52) rs := by
  have hspec := buildMemRegions_spec h hmem helf 0 (fun _ _ => Nat.zero_le _)
    (fun _ _ _ => rfl) ⟨nofun, .nil, nofun⟩
  simpa using hspec.2

/-! ## Sorted section tables -/

/-- A section table in ascending order of address. Null sections are all zero, the others are not
empty; sections may overlap or nest. -/
structure SectionsSorted (elf : List TagELFEntry) : Prop where
  bounded : SectionsBounded elf
  ascending : elf.Pairwise fun e e' => e.segmentAddress ≤ e'.segmentAddress
  nonempty : ∀ e ∈ elf, e.sectionType ≠ 0 → 0 < e.segmentSize
  null : ∀ e ∈ elf, e.sectionType = 0 → e.segmentAddress = 0 ∧ e.segmentSize = 0

/-- In a sorted table the first section that ends above a page decides for all of them. -/
theorem SectionsSorted.pageClear_iff {elf : List TagELFEntry} (h : SectionsSorted elf) {p : Nat} :
    PageClear p elf ↔ ∀ e ∈ elf, e.sectionType ≠ 0 → ¬ e.Meets p := by
  induction elf with
  | nil => exact ⟨fun _ => nofun, fun _ _ he => nomatch he⟩
  | cons e elf ih =>
    obtain ⟨hmin, hasc⟩ := List.pairwise_cons.1 h.ascending
    have hb := h.bounded e (.head _)
    have hend := TagELFEntry.segmentEnd_eq hb
    have htail : SectionsSorted elf :=
      ⟨fun e he => h.bounded e (.tail _ he), hasc, fun e he => h.nonempty e (.tail _ he),
        fun e he => h.null e (.tail _ he)⟩
    by_cases hpe : e.segmentEnd ≤ p
    · rw [pageClear_cons_of_le hpe, ih htail, List.forall_mem_cons]
      refine (and_iff_right fun _ ⟨a, ha⟩ => ?_).symm
      omega
    · rw [pageClear_cons_of_lt (by omega)]
      constructor
      · rintro hfree e' he' - ⟨a, ha⟩
        rcases List.mem_cons.1 he' with rfl | he'
        · omega
        · have := hmin e' he'
          omega
      · intro hall
        -- a null section ends at 0, so this one is not null
        have hne : e.sectionType ≠ 0 := fun h0 => by
          have := h.null e (.head _) h0
          omega
        have hpos := h.nonempty e (.head _) hne
        by_contra hlt
        refine hall e (.head _) hne ⟨max p e.segmentAddress, ?_⟩
        unfold pageSize at *
        omega

/-- Stepping over the sections before an entry drops none that meets a page of the entry. -/
theorem SectionsSorted.skipSections_pageClear_iff {elf : List TagELFEntry} (h : SectionsSorted elf)
    {a p : Nat} (hap : a ≤ p) :
    PageClear p (skipSections a elf) ↔ ∀ e ∈ elf, e.sectionType ≠ 0 → ¬ e.Meets p := by
  induction elf with
  | nil => exact ⟨fun _ => nofun, fun _ _ he => nomatch he⟩
  | cons e elf ih =>
    by_cases he : e.sectionType = 0 ∨ e.segmentEnd ≤ a
    · have hasc := (List.pairwise_cons.1 h.ascending).2
      have htail : SectionsSorted elf :=
        ⟨fun e he => h.bounded e (.tail _ he), hasc, fun e he => h.nonempty e (.tail _ he),
          fun e he => h.null e (.tail _ he)⟩
      rw [skipSections_cons_of_pos he, ih htail, List.forall_mem_cons]
      refine (and_iff_right fun hne ⟨a, ha⟩ => ?_).symm
      have hend := TagELFEntry.segmentEnd_eq (h.bounded e (.head _))
      have := he.resolve_left hne
      omega
    · rw [skipSections_cons_of_neg he, h.pageClear_iff]

/-- For a sorted section table the region table is ascending, disjoint, of non-empty regions of
whole pages with nothing handed out, and holds exactly the pages, page 0 apart, that lie in one
usable entry and meet no section of the image. -/
theorem buildMemRegions_exact {mem : List TagMemMapEntry} {elf : List TagELFEntry}
    {rs : List MemRegion} (h : buildMemRegions mem elf [] = .ok rs) (hmem : MemMapOK mem)
    (helf : SectionsSorted elf) :
    (rs.Pairwise fun r r' => r.stop ≤ r'.start) ∧
    (∀ r ∈ rs, r.start % pageSize = 0 ∧ r.stop % pageSize = 0 ∧ r.start < r.stop ∧
      r.next = r.start) ∧
    ∀ p, p % pageSize = 0 → (HasPage rs p ↔ p ≠ 0 ∧
      (∃ m ∈ mem, m.type = 1 ∧ m.startingAddr ≤ p ∧ p + pageSize ≤ m.startingAddr + m.length) ∧
      ∀ e ∈ elf, e.sectionType ≠ 0 → ¬ e.Meets p) := by
  have htable := buildMemRegions_tableBelow h hmem helf.bounded
  refine ⟨htable.ascending, fun r hr => ?_, fun p hp => ?_⟩
  · have hr := htable.fresh r hr
    exact ⟨hr.start_mod, hr.stop_mod, hr.nonempty, hr.next_eq⟩
  · rw [buildMemRegions_hasPage h hmem helf.bounded hp]
    constructor
    · rintro ⟨⟨m, hm, ho⟩, hp0⟩
      have hstart := TagMemMapEntry.scanStart_le.2 ⟨ho.start_le, hp0⟩
      exact ⟨hp0, ⟨m, hm, ho.usable, ho.start_le, ho.le_end⟩,
        (helf.skipSections_pageClear_iff hstart).1 ho.clear⟩
    · rintro ⟨hp0, ⟨m, hm, h₁, h₂, h₃⟩, hfree⟩
      have hstart := TagMemMapEntry.scanStart_le.2 ⟨h₂, hp0⟩
      exact ⟨⟨m, hm, h₁, h₂, h₃, (helf.skipSections_pageClear_iff hstart).2 hfree⟩, hp0⟩

/-- A map with low memory, a reserved entry and a usable entry that a nested pair of sections
splits. -/
theorem buildMemRegions_exact_nested :
    let mem : List TagMemMapEntry := [⟨0, 0x9fc00, 1⟩, ⟨0x9fc00, 0x400, 2⟩, ⟨0x100000, 0x10000, 1⟩]
    let elf : List TagELFEntry := [⟨0, 0, 0⟩, ⟨1, 0x102000, 0x3000⟩, ⟨1, 0x103000, 0x1000⟩]
    let rs : List MemRegion := [⟨0x1000, 0x9f000, 0x1000⟩, ⟨0x100000, 0x102000, 0x100000⟩,
      ⟨0x105000, 0x110000, 0x105000⟩]
    buildMemRegions mem elf [] = .ok rs ∧ (rs.Pairwise fun r r' => r.stop ≤ r'.start) := by
  intro mem elf rs
  have hmem : MemMapOK mem := ⟨by decide, by decide⟩
  have helf : SectionsSorted elf :=
    ⟨by simp [SectionsBounded, elf], by decide, by decide, by decide⟩
  have h : buildMemRegions mem elf [] = .ok rs := rfl
  exact ⟨h, (buildMemRegions_exact h hmem helf).1⟩

/-! ## Section tables in any order -/

/-- No region holds an address of a section of the image. -/
def ImageKept (rs : List MemRegion) (elf : List TagELFEntry) : Prop :=
  ∀ r ∈ rs, ∀ e ∈ elf, e.sectionType ≠ 0 → ∀ a, r.start ≤ a → a < r.stop →
    ¬ (e.segmentAddress ≤ a ∧ a < e.segmentAddress + e.segmentSize)

/-- The order of the section table is harmless for the map: for every page of a usable entry that a
section of the image meets, the first section of the table that ends above the page, past the
sections the entry's scan steps over, starts below the page's end. -/
def OrderHarmless (mem : List TagMemMapEntry) (elf : List TagELFEntry) : Prop :=
  ∀ m ∈ mem, m.type = 1 → ∀ p, p % pageSize = 0 → p ≠ 0 → m.startingAddr ≤ p →
    p + pageSize ≤ m.startingAddr + m.length → (∃ e ∈ elf, e.sectionType ≠ 0 ∧ e.Meets p) →
    ∃ f, firstAbove p (skipSections m.scanStart elf) = some f ∧ f.segmentAddress < p + pageSize

/-- The region table keeps clear of the kernel image exactly when the order of the section table is
harmless. A section that stands in the table behind one that starts beyond the current entry is
never looked at for that entry. -/
theorem buildMemRegions_imageKept_iff {mem : List TagMemMapEntry} {elf : List TagELFEntry}
    {rs : List MemRegion} (h : buildMemRegions mem elf [] = .ok rs) (hmem : MemMapOK mem)
    (helf : SectionsBounded elf) : ImageKept rs elf ↔ OrderHarmless mem elf := by
  have hpage : ∀ {p : Nat}, p % pageSize = 0 → _ := fun hp => buildMemRegions_hasPage h hmem helf hp
  have htable := buildMemRegions_tableBelow h hmem helf
  constructor
  · intro hkept m hm hty p hp hp0 hstart hend hmeet
    by_contra hno
    obtain ⟨e, he, hne, a, ⟨ha₁, ha₂⟩, hsec⟩ := hmeet
    -- the scan of `m` takes the page to be free
    have hclear : PageClear p (skipSections m.scanStart elf) := fun f hf => by
      by_contra hlt
      exact hno ⟨f, hf, by omega⟩
    obtain ⟨r, hr, hr₁, hr₂⟩ := (hpage hp).2 ⟨⟨m, hm, hty, hstart, hend, hclear⟩, hp0⟩
    exact hkept r hr e he hne a (hr₁.trans ha₁) (ha₂.trans_le hr₂) hsec
  · intro hord r hr e he hne a ha₁ ha₂ ⟨hs₁, hs₂⟩
    have hf := htable.fresh r hr
    have hmod₁ := hf.start_mod
    have hmod₂ := hf.stop_mod
    -- the page of `a` is a page of the region
    obtain ⟨p, hp, hpa, hap⟩ : ∃ p, p % pageSize = 0 ∧ p ≤ a ∧ a < p + pageSize :=
      ⟨a - a % pageSize, by unfold pageSize; omega, by omega, by unfold pageSize; omega⟩
    have hin : HasPage rs p := ⟨r, hr, by unfold pageSize at *; omega, by unfold pageSize at *; omega⟩
    obtain ⟨⟨m, hm, ho⟩, hp0⟩ := (hpage hp).1 hin
    obtain ⟨f, hfirst, hlt⟩ := hord m hm ho.usable p hp hp0 ho.start_le ho.le_end
      ⟨e, he, hne, a, ⟨hpa, hap⟩, hs₁, hs₂⟩
    have := ho.clear f hfirst
    omega

/-- Two sections in descending order, both inside the entry: the second is missed, as the first
starts above the entry's end. -/
theorem buildMemRegions_misses_section :
    ¬ ∀ (mem : List TagMemMapEntry) (elf : List TagELFEntry) (rs : List MemRegion),
      MemMapOK mem → SectionsBounded elf → buildMemRegions mem elf [] = .ok rs →
      ImageKept rs elf := by
  intro H
  refine H [⟨0x100000, 0x100000, 1⟩] [⟨1, 0x300000, 0x1000⟩, ⟨1, 0x150000, 0x1000⟩]
    [⟨0x100000, 0x200000, 0x100000⟩] ⟨by decide, by decide⟩ ?_ rfl
    ⟨0x100000, 0x200000, 0x100000⟩ (.head _) ⟨1, 0x150000, 0x1000⟩ (.tail _ (.head _)) (by decide)
    0x150000 (by decide) (by decide) ⟨by decide, by decide⟩
  simp [SectionsBounded]

/-- The exact condition at an image whose only section is in the middle of the usable entry: there is a region before it and
one after it. -/
theorem buildMemRegions_imageKept_one_section :
    buildMemRegions [⟨0x100000, 0x4000, 1⟩] [⟨1, 0x101000, 0x1800⟩] [] =
      .ok [⟨0x100000, 0x101000, 0x100000⟩, ⟨0x103000, 0x104000, 0x103000⟩] ∧
    OrderHarmless [⟨0x100000, 0x4000, 1⟩] [⟨1, 0x101000, 0x1800⟩] := by
  have h : buildMemRegions [⟨0x100000, 0x4000, 1⟩] [⟨1, 0x101000, 0x1800⟩] [] =
      .ok [⟨0x100000, 0x101000, 0x100000⟩, ⟨0x103000, 0x104000, 0x103000⟩] := rfl
  refine ⟨h, (buildMemRegions_imageKept_iff h ⟨by decide, by decide⟩ ?_).1 fun r hr e he _ a h₁ h₂ => ?_⟩
  · simp [SectionsBounded]
  · rw [List.mem_singleton.1 he]
    simp only [List.mem_cons, List.not_mem_nil, or_false] at hr
    rcases hr with rfl | rfl <;> dsimp only at h₁ h₂ ⊢ <;> omega

end BanjOS
