import BanjOS.MultibootTags.Tags
import BanjOS.PageAllocator.HeapRuns

/-!
# Memory from the boot loader to the heap

`multiboot_tags_parse_to_mem_regions`, `init_page_table` and `MMU_alloc_init`, as `kmain` (`kmain.c`) calls them one after
the other. What the kernel does with physical memory from then on is told by the information of the boot loader alone: in
every state of every run of the heap, each usable page that the kernel image does not meet has one of four roles, and no
other page has any (`kmainMemory_accounts`). So no frame is lost, none is used twice, and neither a heap page nor a page
table ever lies in the image or outside of usable memory.
-/

namespace BanjOS

open ByteMem Radix

/-! ## The calls -/

/-- `multiboot_tags_parse_to_mem_regions`, `init_page_table` and `MMU_alloc_init`, over the memory that the boot loader
leaves; the break is where `brk` is initialised to. -/
def kmainMemory (m : Mem) (fuel multibootTagAddr : Nat) (memEntries elfEntries : TagEntries) :
    Option (Except Stop Kernel) :=
  (multibootTagsParseToMemRegions m fuel multibootTagAddr memEntries elfEntries).map fun regions => do
    let (root, s) ← initPageTable ⟨m, 0, ← regions⟩
    return ⟨s, root, addrSpaceKernelHeapBase⟩

/-- The boot loader's information at an address: the tags, the last memory map and the last ELF sections of them. -/
structure MultibootInfo (m : Mem) (multibootTagAddr : Nat) (tags : List Tag) (mem : List MemMapRecord)
    (elf : List ElfRecord) : Prop where
  wf : ∀ t ∈ tags, t.WF
  entries : ∀ t ∈ tags, ∀ entrySize entryVersion entries, t ≠ .memMapOf entrySize entryVersion entries
  aligned : multibootTagAddr % 8 = 0
  fits : terminatorAt (multibootTagAddr + 8) tags + 8 ≤ 2 ^ 64
  laidOut : TagsLaidOut m (multibootTagAddr + 8) tags
  memMap : lastMemMap tags = some mem
  sections : lastElf tags = some elf

/-- A memory map and sections in ascending order, with usable memory below the heap. -/
structure MachineMemory (mem : List TagMemMapEntry) (elf : List TagELFEntry) : Prop where
  memMap : MemMapOK mem
  sections : SectionsSorted elf
  below : ∀ e ∈ mem, e.type = 1 → e.startingAddr + e.length ≤ 2 ^ 39

/-! ## Usable pages -/

/-- The page lies in one entry of usable memory, meets no section of the image and is not page 0. -/
def UsablePage (mem : List TagMemMapEntry) (elf : List TagELFEntry) (p : Nat) : Prop :=
  p ≠ 0 ∧ (∃ e ∈ mem, e.type = 1 ∧ e.startingAddr ≤ p ∧ p + pageSize ≤ e.startingAddr + e.length) ∧
    ∀ e ∈ elf, e.sectionType ≠ 0 → ¬ e.Meets p

section
variable {mem : List TagMemMapEntry} {elf : List TagELFEntry} {regions : List MemRegion} {p : Nat}

/-- The regions have the usable pages. -/
theorem hasPage_iff_usablePage (h : buildMemRegions mem elf [] = .ok regions) (hm : MachineMemory mem elf)
    (hp : p % pageSize = 0) : HasPage regions p ↔ UsablePage mem elf p := by
  rw [buildMemRegions_hasPage h hm.memMap hm.sections.bounded hp]
  have hclear {e : TagMemMapEntry} (hle : e.startingAddr ≤ p) (hp0 : p ≠ 0) :=
    hm.sections.skipSections_pageClear_iff (TagMemMapEntry.scanStart_le.2 ⟨hle, hp0⟩)
  constructor
  · rintro ⟨⟨e, he, ho⟩, hp0⟩
    exact ⟨hp0, ⟨e, he, ho.usable, ho.start_le, ho.le_end⟩, (hclear ho.start_le hp0).1 ho.clear⟩
  · rintro ⟨hp0, ⟨e, he, husable, hstart, hend⟩, hmeets⟩
    exact ⟨⟨e, he, husable, hstart, hend, (hclear hstart hp0).2 hmeets⟩, hp0⟩

/-- The frames of the regions are their pages. -/
theorem mem_allPages_iff (hr : ∀ r ∈ regions, r.Fresh) : p ∈ allPages regions ↔ p % pageSize = 0 ∧ HasPage regions p := by
  rw [allPages, List.mem_flatMap]
  constructor
  · rintro ⟨r, hr', hp⟩
    have hfresh := hr r hr'
    rcases (mem_pagesIn hfresh.start_mod hfresh.stop_mod).1 hp with ⟨hmod, hle, hlt⟩
    have hstop := hfresh.stop_mod
    exact ⟨hmod, r, hr', hle, by unfold pageSize at *; omega⟩
  · rintro ⟨hmod, r, hr', hle, hlt⟩
    have hfresh := hr r hr'
    exact ⟨r, hr', (mem_pagesIn hfresh.start_mod hfresh.stop_mod).2 ⟨hmod, hle, by unfold pageSize at *; omega⟩⟩

/-- There is no page table without a region. -/
theorem ne_nil_of_initPageTable {m : Mem} {r : Nat × Phys} (h : initPageTable ⟨m, 0, regions⟩ = .ok r) :
    regions ≠ [] := by
  rintro rfl
  rcases Except.bind_eq_ok.1 h with ⟨x, hx, -⟩
  cases hx

/-- The regions are such that the kernel can boot from them. -/
theorem bootRegions_of_usable (h : buildMemRegions mem elf [] = .ok regions) (hm : MachineMemory mem elf)
    (hne : regions ≠ []) : BootRegions regions := by
  have htable := buildMemRegions_tableBelow h hm.memMap hm.sections.bounded
  refine ⟨htable.fresh, htable.ascending, fun r hr => ?_, hne⟩
  have hfresh := htable.fresh r hr
  have hstart := hfresh.start_mod
  have hstop := hfresh.stop_mod
  have hlt := hfresh.nonempty
  -- the last page of the region is a page of usable memory
  have hpage : HasPage regions (r.stop - pageSize) := ⟨r, hr, by unfold pageSize at *; omega, by unfold pageSize at *; omega⟩
  have hmod : (r.stop - pageSize) % pageSize = 0 := by unfold pageSize at *; omega
  rcases (hasPage_iff_usablePage h hm hmod).1 hpage with ⟨-, ⟨e, he, husable, -, hend⟩, -⟩
  have hbelow := hm.below e he husable
  unfold pageSize at *
  omega

end

/-! ## The roles of a page -/

/-- What a page of physical memory is used for. -/
inductive FrameRole
  /-- It backs the heap page `n`. -/
  | heap (n : Nat)
  /-- It is a page table. -/
  | table
  /-- It is on the free list of the page allocator. -/
  | free
  /-- It was never handed out. -/
  | unused
  deriving DecidableEq

/-- The page at `p` has the role. -/
def HasRole (k : Kernel) (p : Nat) : FrameRole → Prop
  | .heap n => Backed k.phys.mem k.cr3 n p
  | .table => IsTable k.phys.mem k.cr3 p
  | .free => ∃ free, Chain k.phys.mem k.phys.freeList free ∧ p ∈ free
  | .unused => p ∈ remaining k.phys.regions

section
variable {all : List Nat} {M top p : Nat} {k : Kernel}

/-- The pages that have a role are the frames. -/
theorem HeapInv.hasRole_iff (h : HeapInv all M k.cr3 top k.phys) : p ∈ all ↔ ∃ role, HasRole k p role := by
  rcases h.frames with ⟨out, hinv, hout, -⟩
  rcases hinv.split with ⟨free, hchain, hperm⟩
  rw [← hperm.mem_iff, List.mem_append, List.mem_append, hout]
  constructor
  · rintro ((hfree | ⟨n, hn⟩ | htable) | hunused)
    · exact ⟨.free, free, hchain, hfree⟩
    · exact ⟨.heap n, hn⟩
    · exact ⟨.table, htable⟩
    · exact ⟨.unused, hunused⟩
  · rintro ⟨role, hrole⟩
    cases role with
    | heap n => exact .inl (.inr (.inl ⟨n, hrole⟩))
    | table => exact .inl (.inr (.inr hrole))
    | free =>
      rcases hrole with ⟨free', hchain', hp⟩
      rw [hchain'.det hchain] at hp
      exact .inl (.inl hp)
    | unused => exact .inr hrole

/-- No page has two roles. -/
theorem HeapInv.role_unique (hall : MappedFrames all M) (h : HeapInv all M k.cr3 top k.phys) {role role' : FrameRole}
    (hrole : HasRole k p role) (hrole' : HasRole k p role') : role = role' := by
  rcases h.frames with ⟨out, hinv, hout, hheld⟩
  rcases hinv.split with ⟨free, hchain, hperm⟩
  have hnodup := hperm.nodup_iff.2 hall.nodup
  rw [List.nodup_append, List.nodup_append] at hnodup
  rcases hnodup with ⟨⟨-, -, hfreeout⟩, -, hrest⟩
  -- the four lists that the roles stand for have no page in common
  have hfree (h : HasRole k p .free) : p ∈ free := by
    rcases h with ⟨free', hchain', hp⟩
    rwa [hchain'.det hchain] at hp
  have hheap {n : Nat} (h : HasRole k p (.heap n)) : p ∈ out := (hout p).2 (.inl ⟨n, h⟩)
  have htable (h : HasRole k p .table) : p ∈ out := (hout p).2 (.inr h)
  have hfo (h : p ∈ free) (h' : p ∈ out) : False := hfreeout p h p h' rfl
  have hfr (h : p ∈ free) (h' : HasRole k p .unused) : False := hrest p (List.mem_append_left _ h) p h' rfl
  have hor (h : p ∈ out) (h' : HasRole k p .unused) : False := hrest p (List.mem_append_right _ h) p h' rfl
  have hht {n : Nat} (h : HasRole k p (.heap n)) (h' : HasRole k p .table) : False := hheld p ⟨n, h⟩ h'
  have hinj (n n' : Nat) (h₁ : HasRole k p (.heap n)) (h₂ : HasRole k p (.heap n')) : n = n' := h.inj n n' p h₁ h₂
  cases role <;> cases role' <;> grind

end

/-! ## From the boot loader to the heap -/

section
variable {m : Mem} {multibootTagAddr fuel : Nat} {tags : List Tag} {mem₀ elf₀ : TagEntries} {mem : List MemMapRecord}
  {elf : List ElfRecord} {k : Kernel}

/-- The regions are those of the last memory map and the last sections. -/
theorem MultibootInfo.parse_eq (h : MultibootInfo m multibootTagAddr tags mem elf) (hfuel : tags.length < fuel) :
    multibootTagsParseToMemRegions m fuel multibootTagAddr mem₀ elf₀ =
      some (buildMemRegions (mem.map MemMapRecord.toTagMemMapEntry) (elf.map ElfRecord.toTagELFEntry) []) := by
  have hst : TagLoop.Reads m none none ⟨multibootTagAddr + 8, mem₀, elf₀⟩ := ⟨nofun, nofun⟩
  have hal := h.aligned
  have hcur : (multibootTagAddr + 8) % 8 = 0 := by omega
  rcases tagLoop_run h.wf h.entries hcur h.fits h.laidOut hst hfuel with ⟨st, hloop, -, -, hreads⟩
  rw [multibootTagsParseToMemRegions, hloop, Option.map_some, Except.ok_bind, hreads.mem_eq mem h.memMap,
    hreads.elf_eq elf h.sections]

/-- In every state of every run, the usable pages are those that have a role, and none has two. -/
theorem kmainMemory_accounts (h : MultibootInfo m multibootTagAddr tags mem elf)
    (hm : MachineMemory (mem.map MemMapRecord.toTagMemMapEntry) (elf.map ElfRecord.toTagELFEntry))
    (hfuel : tags.length < fuel) (hk : kmainMemory m fuel multibootTagAddr mem₀ elf₀ = some (.ok k)) {t : HeapState}
    (hrun : Relation.ReflTransGen HeapStep ⟨k, ∅, ∅⟩ t) {p : Nat} (hp : p % pageSize = 0) :
    (UsablePage (mem.map MemMapRecord.toTagMemMapEntry) (elf.map ElfRecord.toTagELFEntry) p ↔
      ∃ role, HasRole t.kernel p role) ∧
      ∀ role role', HasRole t.kernel p role → HasRole t.kernel p role' → role = role' := by
  rw [kmainMemory, h.parse_eq hfuel, Option.map_some, Option.some_inj] at hk
  rcases Except.bind_eq_ok.1 hk with ⟨regions, hbuild, hk⟩
  rcases Except.bind_eq_ok.1 hk with ⟨⟨root, s⟩, hinit, hk⟩
  cases hk
  have hboot := bootRegions_of_usable hbuild hm (ne_nil_of_initPageTable hinit)
  rcases heapRun_inv hboot hinit hrun with ⟨M, top, hall, hinv⟩
  have hheap := hinv.inv.heap
  refine ⟨?_, fun role role' => hheap.role_unique hall⟩
  rw [← hheap.hasRole_iff, mem_allPages_iff hboot.fresh, hasPage_iff_usablePage hbuild hm hp]
  exact ⟨fun husable => ⟨hp, husable⟩, And.right⟩

end

/-- Sixteen pages of usable memory, with the image in the fourth one. -/
def smallTags : List Tag := [.memMap 0 [⟨⟨0, 0x10000, 1⟩, 0⟩], .elf 0 [⟨⟨1, 0x3000, 0x800⟩, 0, 0, 0, 0, 0, 0, 0⟩]]

theorem multibootInfo_smallTags : MultibootInfo (tagMem smallTags) 8 smallTags [⟨⟨0, 0x10000, 1⟩, 0⟩]
    [⟨⟨1, 0x3000, 0x800⟩, 0, 0, 0, 0, 0, 0, 0⟩] where
  wf := by
    intro t ht
    simp only [smallTags, List.mem_cons, List.not_mem_nil, or_false] at ht
    rcases ht with rfl | rfl
    · refine ⟨by decide, fun e he => ?_⟩
      obtain rfl := List.mem_singleton.1 he
      constructor <;> decide
    · refine ⟨by decide, fun e he => ?_⟩
      obtain rfl := List.mem_singleton.1 he
      constructor <;> decide
  entries := by simp [smallTags]
  aligned := by decide
  fits := by decide
  laidOut := by decide +kernel
  memMap := rfl
  sections := rfl

theorem machineMemory_smallTags : MachineMemory [⟨0, 0x10000, 1⟩] [⟨1, 0x3000, 0x800⟩] where
  memMap := ⟨by decide, by decide⟩
  sections := ⟨by simp [SectionsBounded], by decide, by decide, by decide⟩
  below := by decide

/-- A page of the heap is allocated, and used, with a page fault. Then the page after the image has a role, and the page of
the image has none. -/
theorem kmainMemory_accounts_smallTags : ∃ k v k₁ k₂, kmainMemory (tagMem smallTags) 3 8 ⟨0, 0⟩ ⟨0, 0⟩ = some (.ok k) ∧
    mmuAllocPage k = .ok (v, k₁) ∧ (k₁.leaf (pageOf v)).present = false ∧ touch v k₁ = .ok k₂ ∧
    (∃ role, HasRole k₂ 0x4000 role) ∧ ∀ role, ¬ HasRole k₂ 0x3000 role := by
  have hrun : ((kmainMemory (tagMem smallTags) 3 8 ⟨0, 0⟩ ⟨0, 0⟩).any fun r => (r.bind fun k =>
      (mmuAllocPage k).bind fun y =>
      if (y.2.leaf (pageOf y.1)).present = false then touch y.1 y.2 else .error .outOfMemory).isOk) = true := by
    decide +kernel
  rcases (Option.any_eq_true _ _).1 hrun with ⟨r, hr, hok⟩
  rcases Except.exists_of_isOk hok with ⟨k₂, hk₂⟩
  rcases Except.bind_eq_ok.1 hk₂ with ⟨k, rfl, halloctouch⟩
  rcases Except.bind_eq_ok.1 halloctouch with ⟨⟨v, k₁⟩, halloc, htouch⟩
  split at htouch
  case isFalse => cases htouch
  case isTrue habsent =>
    have hsteps : Relation.ReflTransGen HeapStep ⟨k, ∅, ∅⟩ _ := .tail (.single (.allocPage halloc)) (.touch htouch)
    have haccounts {p : Nat} (hp : p % pageSize = 0) :=
      kmainMemory_accounts multibootInfo_smallTags machineMemory_smallTags (show 2 < 3 by decide) hr hsteps hp
    refine ⟨k, v, k₁, k₂, hr, halloc, habsent, htouch, (haccounts (by decide)).1.1 ⟨by decide, by decide, ?_⟩,
      fun role hrole => ?_⟩
    · simp [TagELFEntry.Meets]
      omega
    · rcases (haccounts (by decide)).1.2 ⟨role, hrole⟩ with ⟨-, -, hmeets⟩
      exact hmeets _ (.head _) (by decide) ⟨0x3000, by decide, by decide, by decide⟩

end BanjOS
