import BanjOS.PageAllocator.Frames

/-!
# The self-test of the frame allocator

`MMU_memtest` (`page_allocator.c`) takes and gives back frames and asserts what it expects, then takes all frames there are,
writes its own address into each word of each, and asserts that it finds them again, twice. The asserts that are about the
memory and about the free list never fail; one is about the memory map and one about the size of a table
(`mmuMemtest_passes_iff`).
-/

namespace BanjOS

open ByteMem

/-! ## The test -/

/-- `assert`. -/
def assertThat (cond : Bool) (text : String) : Except Stop Unit := if cond then .ok () else .error (.assertion text)

/-- The condition of the first assert. -/
def memtestOrdered : String := "addr1 + MMU_PAGE_SIZE == addr2 && \"Addresses should be allocated in order\""

/-- The condition of the assert on the number of pages. -/
def memtestStorable : String :=
  "total_pages <= MEMTEST_ADDR_CAPACITY && \"Pages must be less than the capacity of memtest to store addresses\""

/-- The loop that writes the address of a page to its first `n` words. -/
def fillPage (page : Nat) (m : Mem) : (n : Nat) → Mem
  | 0 => m
  | n + 1 => store64 (fillPage page m n) (page + 8 * n) page

/-- The words of a page hold its address. -/
def pageMatches (page : Nat) (m : Mem) : Bool := (List.range (pageSize / 8)).all fun j => load64 m (page + 8 * j) = page

/-- The loop that allocates and writes `n` pages. -/
def memtestAlloc : (n : Nat) → Phys → Except Stop (List Nat × Phys)
  | 0, s => .ok ([], s)
  | n + 1, s => do
    let (page, s) ← mmuPfAlloc s
    let (pages, s) ← memtestAlloc n { s with mem := fillPage page s.mem (pageSize / 8) }
    .ok (page :: pages, s)

/-- The loop that verifies and frees the pages of `memtest_addrs`. -/
def memtestVerify : List Nat → Phys → Except Stop Phys
  | [], s => .ok s
  | page :: pages, s => do
    assertThat (pageMatches page s.mem)
      "page[j] == (uintptr_t)page && \"bit pattern before and after should match!\""
    memtestVerify pages (mmuPfFree page s)

/-- `n` cycles over all pages. -/
def memtestCycles (totalPages : Nat) : (n : Nat) → Phys → Except Stop Phys
  | 0, s => .ok s
  | n + 1, s => do
    let (pages, s) ← memtestAlloc totalPages s
    let s ← memtestVerify pages s
    memtestCycles totalPages n s

/-- The number of pages of the regions. -/
def memtestTotal (regions : List MemRegion) : Nat := regions.foldl (fun n r => n + (r.stop - r.start) / pageSize) 0

/-- `MEMTEST_ADDR_CAPACITY`. -/
def memtestAddrCapacity : Nat := 0x8000

/-- `MMU_memtest`. -/
def mmuMemtest (s : Phys) : Except Stop Phys := do
  let (addr1, s) ← mmuPfAlloc s
  let (addr2, s) ← mmuPfAlloc s
  assertThat (addr1 + pageSize = addr2) memtestOrdered
  let s := mmuPfFree addr2 (mmuPfFree addr1 s)
  let (addr2New, s) ← mmuPfAlloc s
  let (addr1New, s) ← mmuPfAlloc s
  assertThat (addr1 = addr1New) "addr1 == addr1_new && \"Addresses should be reused\""
  assertThat (addr2 = addr2New) "addr2 == addr2_new && \"In reverse order\""
  let s := mmuPfFree addr2New (mmuPfFree addr1New s)
  let totalPages := memtestTotal s.regions
  assertThat (totalPages ≤ memtestAddrCapacity) memtestStorable
  memtestCycles totalPages 2 s

/-! ## Pages -/

theorem assertThat_of_true {cond : Bool} (h : cond = true) (text : String) : assertThat cond text = .ok () := if_pos h

theorem assertThat_of_not {cond : Bool} (h : ¬ cond = true) (text : String) :
    assertThat cond text = .error (.assertion text) := if_neg h

section
variable {page n b : Nat} {m m' : Mem}

/-- Only the page is written. -/
theorem fillPage_apply_of_not_mem (h : ¬ InRange page (8 * n) b) : fillPage page m n b = m b := by
  induction n with
  | zero => rfl
  | succ n ih =>
    rw [fillPage, store64_apply_of_not_mem fun hin => h (hin.mono (Nat.le_add_right _ _) (by omega))]
    exact ih fun hin => h (hin.mono (Nat.le_refl _) (by omega))

theorem load64_fillPage (hpage : page < 2 ^ 64) {j : Nat} (hj : j < n) :
    load64 (fillPage page m n) (page + 8 * j) = page := by
  induction n with
  | zero => cases hj
  | succ n ih =>
    rw [fillPage]
    rcases Nat.lt_succ_iff_lt_or_eq.1 hj with hlt | rfl
    · rw [load64_store64_of_apart (.inr (by omega)), ih hlt]
    · exact load64_store64_of_lt _ _ hpage

theorem pageMatches_iff : pageMatches page m = true ↔ ∀ j, j < pageSize / 8 → load64 m (page + 8 * j) = page := by
  simp only [pageMatches, List.all_eq_true, List.mem_range, decide_eq_true_eq]

theorem pageMatches_fillPage (hpage : page < 2 ^ 64) : pageMatches page (fillPage page m (pageSize / 8)) = true :=
  pageMatches_iff.2 fun _ hj => load64_fillPage hpage hj

/-- Whether a page matches is up to its bytes. -/
theorem pageMatches_congr (h : ∀ b, InRange page pageSize b → m' b = m b) (hm : pageMatches page m = true) :
    pageMatches page m' = true :=
  pageMatches_iff.2 fun j hj => by
    have hsame : load64 m' (page + 8 * j) = load64 m (page + 8 * j) :=
      load64_congr fun b hb => h b (hb.mono (Nat.le_add_right _ _) (by unfold pageSize at *; omega))
    rw [hsame, pageMatches_iff.1 hm j hj]

end

/-- The table counts the pages of the regions. -/
theorem memtestTotal_eq (regions : List MemRegion) : memtestTotal regions = (allPages regions).length := by
  have hfold (n : Nat) : regions.foldl (fun n r => n + (r.stop - r.start) / pageSize) n = n + (allPages regions).length := by
    induction regions generalizing n with
    | nil => rfl
    | cons r rs ih =>
      have hlength : (allPages (r :: rs)).length = (r.stop - r.start) / pageSize + (allPages rs).length := by
        rw [allPages, List.flatMap_cons, List.length_append, pagesIn, List.length_map, List.length_range, allPages]
      rw [List.foldl_cons, ih, hlength, Nat.add_assoc]
  exact (hfold 0).trans (Nat.zero_add _)

/-- `takeNext` moves nothing but a `next`. -/
theorem takeNext_allPages {rs rs' : List MemRegion} {f : Nat} (h : takeNext rs = some (f, rs')) :
    allPages rs' = allPages rs := by
  induction rs generalizing rs' with
  | nil => cases h
  | cons r rs ih =>
    rw [takeNext] at h
    split at h
    case isTrue =>
      cases h
      rfl
    case isFalse =>
      rcases Option.map_eq_some_iff.1 h with ⟨⟨f', rs₁⟩, hrs₁, heq⟩
      cases heq
      rw [allPages, List.flatMap_cons, ← allPages, ih hrs₁]
      rfl

theorem mmuPfAlloc_allPages {s s' : Phys} {pf : Nat} (h : mmuPfAlloc s = .ok (pf, s')) :
    allPages s'.regions = allPages s.regions := by
  unfold mmuPfAlloc at h
  split at h
  case isTrue =>
    cases h
    rfl
  case isFalse =>
    split at h
    case h_1 hnext =>
      cases h
      exact takeNext_allPages hnext
    case h_2 => cases h

/-- A frame that is given back is written, and nothing else. -/
theorem mmuPfFree_apply_of_not_mem {s : Phys} {pf b : Nat} (h : ¬ InRange pf pageSize b) :
    (mmuPfFree pf s).mem b = s.mem b :=
  store64_apply_of_not_mem fun hin => h (hin.mono (Nat.le_refl _) (by unfold pageSize; omega))

/-- With an empty free list the first of the remaining pages is handed out. -/
theorem mmuPfAlloc_of_empty {s s' : Phys} {pf : Nat} (hempty : s.freeList = 0) (h : mmuPfAlloc s = .ok (pf, s'))
    (hal : ∀ r ∈ s.regions, r.next % pageSize = 0 ∧ r.stop % pageSize = 0) :
    remaining s.regions = pf :: remaining s'.regions ∧ s'.freeList = 0 := by
  rw [mmuPfAlloc, if_neg (not_not.2 hempty)] at h
  split at h
  case h_1 hnext =>
    cases h
    exact ⟨(takeNext_eq_some hnext hal).1, hempty⟩
  case h_2 => cases h

/-- The first frame of the free list is handed out first. -/
theorem mmuPfAlloc_of_chain {s : Phys} {a : Nat} {free : List Nat} (h : Chain s.mem s.freeList (a :: free)) :
    mmuPfAlloc s = .ok (a, { s with freeList := load64 s.mem a }) ∧ Chain s.mem (load64 s.mem a) free := by
  have hne : s.freeList ≠ 0 := fun hzero => by
    rw [hzero] at h
    cases h.eq_nil
  rcases h.of_cons with ⟨hhead, hrest⟩
  refine ⟨?_, hrest⟩
  rw [mmuPfAlloc, if_pos hne, hhead]

/-! ## The cycles -/

section
variable {all out : List Nat} {s : Phys} (hf : Frames all)

theorem FrameInv.of_perm {out' : List Nat} (h : FrameInv all s out) (hperm : out.Perm out') : FrameInv all s out' := by
  rcases h with ⟨⟨free, hc, hsplit⟩, hal⟩
  exact ⟨⟨free, hc, ((hperm.symm.append_left free).append_right _).trans hsplit⟩, hal⟩

include hf

/-- A write into one frame that is handed out meets no other. -/
theorem Frames.not_inRange {f g b : Nat} (hfall : f ∈ all) (hgall : g ∈ all) (hne : f ≠ g) (hb : InRange f pageSize b) :
    ¬ InRange g pageSize b := by
  have hfmod := hf.aligned f hfall
  have hgmod := hf.aligned g hgall
  refine hb.not_of_apart ?_
  unfold pageSize at *
  omega

/-- While frames are left, the loop takes them, and the words of all frames taken so far match. -/
theorem memtestAlloc_spec (n : Nat) (h : FrameInv all s out) (hn : out.length + n ≤ all.length)
    (hmatch : ∀ p ∈ out, pageMatches p s.mem = true) :
    ∃ pages s', memtestAlloc n s = .ok (pages, s') ∧ FrameInv all s' (pages.reverse ++ out) ∧ pages.length = n ∧
      (∀ p ∈ pages.reverse ++ out, pageMatches p s'.mem = true) ∧ allPages s'.regions = allPages s.regions ∧
      ∀ b, (∀ f ∈ all, ¬ InRange f pageSize b) → s'.mem b = s.mem b := by
  induction n generalizing s out with
  | zero => exact ⟨[], s, rfl, h, rfl, hmatch, rfl, fun _ _ => rfl⟩
  | succ n ih =>
    cases halloc : mmuPfAlloc s with
    | error e =>
      have hlength := (h.alloc_error halloc).length_eq
      omega
    | ok x =>
      rcases x with ⟨page, s₁⟩
      have h₁ := h.alloc halloc
      have hnodup := List.nodup_cons.1 (h₁.out_nodup hf)
      have hpage := h₁.mem_all (List.mem_cons_self ..)
      -- the frame is written
      have hfill : ∀ b, ¬ InRange page pageSize b → fillPage page s₁.mem (pageSize / 8) b = s.mem b := fun b hb =>
        (fillPage_apply_of_not_mem hb).trans (congrFun (mmuPfAlloc_mem halloc) b)
      have h₂ : FrameInv all { s₁ with mem := fillPage page s₁.mem (pageSize / 8) } (page :: out) :=
        h₁.write hf fun b hb => fillPage_apply_of_not_mem (hb page (List.mem_cons_self ..))
      have hmatch₂ : ∀ p ∈ page :: out, pageMatches p (fillPage page s₁.mem (pageSize / 8)) = true := by
        intro p hp
        rcases List.mem_cons.1 hp with rfl | hp
        · exact pageMatches_fillPage (hf.fits _ hpage)
        · refine pageMatches_congr (fun b hb => hfill b ?_) (hmatch p hp)
          exact hf.not_inRange (h.mem_all hp) hpage (fun heq => hnodup.1 (heq ▸ hp)) hb
      rcases ih h₂ (by rw [List.length_cons]; omega) hmatch₂ with
        ⟨pages, s', hrun, hinv, hlength, hall, hregions, hout⟩
      refine ⟨page :: pages, s', ?_, ?_, by rw [List.length_cons, hlength], ?_,
        hregions.trans (show allPages s₁.regions = allPages s.regions from mmuPfAlloc_allPages halloc),
        fun b hb => (hout b hb).trans (hfill b (hb page hpage))⟩
      · rw [memtestAlloc, halloc, Except.ok_bind]
        dsimp only
        rw [hrun]
        rfl
      · rwa [List.reverse_cons, List.append_assoc]
      · rwa [List.reverse_cons, List.append_assoc]

/-- Frames whose words match pass, and are given back. -/
theorem memtestVerify_spec (pages : List Nat) (h : FrameInv all s pages)
    (hmatch : ∀ p ∈ pages, pageMatches p s.mem = true) :
    ∃ s', memtestVerify pages s = .ok s' ∧ FrameInv all s' [] ∧ s'.regions = s.regions ∧
      ∀ b, (∀ f ∈ all, ¬ InRange f pageSize b) → s'.mem b = s.mem b := by
  induction pages generalizing s with
  | nil => exact ⟨s, rfl, h, rfl, fun _ _ => rfl⟩
  | cons page pages ih =>
    have hnodup := List.nodup_cons.1 (h.out_nodup hf)
    have hpage := h.mem_all (List.mem_cons_self ..)
    have h₁ : FrameInv all (mmuPfFree page s) pages := by
      have hfree := h.free hf (List.mem_cons_self ..)
      rwa [List.erase_cons_head] at hfree
    have hmatch₁ : ∀ p ∈ pages, pageMatches p (mmuPfFree page s).mem = true := fun p hp => by
      refine pageMatches_congr (fun b hb => mmuPfFree_apply_of_not_mem ?_) (hmatch p (.tail _ hp))
      exact hf.not_inRange (h.mem_all (.tail _ hp)) hpage (fun heq => hnodup.1 (heq ▸ hp)) hb
    rcases ih h₁ hmatch₁ with ⟨s', hrun, hinv, hregions, hout⟩
    refine ⟨s', ?_, hinv, hregions, fun b hb => (hout b hb).trans (mmuPfFree_apply_of_not_mem (hb page hpage))⟩
    rw [memtestVerify, assertThat_of_true (hmatch page (List.mem_cons_self ..)), Except.ok_bind]
    exact hrun

/-- Every cycle passes, and all frames are free after it. -/
theorem memtestCycles_spec (n : Nat) (h : FrameInv all s []) :
    ∃ s', memtestCycles all.length n s = .ok s' ∧ FrameInv all s' [] ∧
      (remaining s.regions = [] ∨ 0 < n → remaining s'.regions = []) ∧
      ∀ b, (∀ f ∈ all, ¬ InRange f pageSize b) → s'.mem b = s.mem b := by
  induction n generalizing s with
  | zero => exact ⟨s, rfl, h, fun hempty => hempty.resolve_right (Nat.lt_irrefl 0), fun _ _ => rfl⟩
  | succ n ih =>
    rcases memtestAlloc_spec hf all.length h (by rw [List.length_nil]; omega) nofun with
      ⟨pages, s₁, hrun₁, h₁, hlength, hmatch, -, hout₁⟩
    rw [List.append_nil] at h₁ hmatch
    have hperm := List.reverse_perm pages
    rcases memtestVerify_spec hf pages (h₁.of_perm hperm) (fun p hp => hmatch p (hperm.mem_iff.2 hp)) with
      ⟨s₂, hrun₂, h₂, hregions₂, hout₂⟩
    -- all frames were taken, so no region has one left
    have hempty : remaining s₂.regions = [] := by
      rcases h₁.split with ⟨free, -, hsplit⟩
      have hle := hsplit.length_eq
      rw [List.length_append, List.length_append, List.length_reverse, hlength] at hle
      rw [hregions₂]
      exact List.eq_nil_of_length_eq_zero (by omega)
    rcases ih h₂ with ⟨s', hrun, hinv, hremaining, hout⟩
    refine ⟨s', ?_, hinv, fun _ => hremaining (.inl hempty), fun b hb =>
      (hout b hb).trans ((hout₂ b hb).trans (hout₁ b hb))⟩
    rw [memtestCycles, hrun₁, Except.ok_bind]
    dsimp only
    rw [hrun₂, Except.ok_bind]
    exact hrun

end

/-! ## The test passes -/

/-- The memory map that the test asks for: two consecutive pages come first, and the table has room for all pages. -/
def MemtestFits (regions : List MemRegion) : Prop :=
  (∃ a rest, allPages regions = a :: (a + pageSize) :: rest) ∧ (allPages regions).length ≤ memtestAddrCapacity

section
variable {all : List Nat} {s : Phys} (hf : Frames all) {a₁ a₂ : Nat}
include hf

/-- Two frames that are given back come out again in reverse order, and are given back again. -/
theorem memtest_reuse (h : FrameInv all s [a₂, a₁]) (hempty : s.freeList = 0) :
    ∃ s₄ s₅, mmuPfAlloc (mmuPfFree a₂ (mmuPfFree a₁ s)) = .ok (a₂, s₄) ∧ mmuPfAlloc s₄ = .ok (a₁, s₅) ∧
      FrameInv all (mmuPfFree a₂ (mmuPfFree a₁ s₅)) [] ∧ (mmuPfFree a₂ (mmuPfFree a₁ s₅)).regions = s.regions ∧
      ∀ b, (∀ f ∈ all, ¬ InRange f pageSize b) → (mmuPfFree a₂ (mmuPfFree a₁ s₅)).mem b = s.mem b := by
  have hne : a₂ ≠ a₁ := fun heq => (List.nodup_cons.1 (h.out_nodup hf)).1 (heq ▸ List.mem_cons_self ..)
  have ha₁ := h.mem_all (.tail _ (List.mem_cons_self ..))
  have ha₂ := h.mem_all (List.mem_cons_self ..)
  -- giving back both, from any state in which they are handed out
  have hgive {s : Phys} (h : FrameInv all s [a₂, a₁]) : FrameInv all (mmuPfFree a₁ s) [a₂] ∧
      FrameInv all (mmuPfFree a₂ (mmuPfFree a₁ s)) [] := by
    have h₁ := h.free hf (.tail _ (List.mem_cons_self ..))
    rw [List.erase_cons_tail (by simp [hne]), List.erase_cons_head] at h₁
    have h₂ := h₁.free hf (List.mem_cons_self ..)
    rw [List.erase_cons_head] at h₂
    exact ⟨h₁, h₂⟩
  rcases hgive h with ⟨h₁, h₂⟩
  have hc₀ : Chain s.mem s.freeList [] := hempty ▸ .nil
  have hc₁ := h.free_chain hf (.tail _ (List.mem_cons_self ..)) hc₀
  have hc₂ := h₁.free_chain hf (List.mem_cons_self ..) hc₁
  rcases mmuPfAlloc_of_chain hc₂ with ⟨hrun₄, hc₄⟩
  rcases @mmuPfAlloc_of_chain { mmuPfFree a₂ (mmuPfFree a₁ s) with
    freeList := load64 (mmuPfFree a₂ (mmuPfFree a₁ s)).mem a₂ } _ _ hc₄ with ⟨hrun₅, -⟩
  have h₅ := ((h₂.alloc hrun₄).alloc hrun₅).of_perm (List.Perm.swap a₂ a₁ [])
  refine ⟨_, _, hrun₄, hrun₅, (hgive h₅).2, rfl, fun b hb => ?_⟩
  rw [mmuPfFree_apply_of_not_mem (hb a₂ ha₂), mmuPfFree_apply_of_not_mem (hb a₁ ha₁)]
  exact (mmuPfFree_apply_of_not_mem (hb a₂ ha₂)).trans (mmuPfFree_apply_of_not_mem (hb a₁ ha₁))

end

/-- The three ways in which the test ends. -/
theorem mmuMemtest_cases {regions : List MemRegion} (hr : RegionsOK regions) (mem : Mem) :
    (∃ s', mmuMemtest ⟨mem, 0, regions⟩ = .ok s' ∧ MemtestFits regions ∧ FrameInv (allPages regions) s' [] ∧
      remaining s'.regions = [] ∧ ∀ b, (∀ f ∈ allPages regions, ¬ InRange f pageSize b) → s'.mem b = mem b) ∨
    ∃ e, mmuMemtest ⟨mem, 0, regions⟩ = .error e ∧ ¬ MemtestFits regions ∧
      (e = .outOfMemory ∨ e = .assertion memtestOrdered ∨ e = .assertion memtestStorable) := by
  have hf := hr.frames
  have hinv₀ := hr.frameInv mem
  have hrem₀ : remaining regions = allPages regions := remaining_of_fresh hr.fresh
  unfold mmuMemtest
  cases halloc₁ : mmuPfAlloc ⟨mem, 0, regions⟩ with
  | error e =>
    refine .inr ⟨e, rfl, ?_, .inl (mmuPfAlloc_error halloc₁)⟩
    rintro ⟨⟨a, rest, hall⟩, -⟩
    have hperm := hinv₀.alloc_error halloc₁
    rw [hall] at hperm
    cases hperm.symm.eq_nil
  | ok x₁ =>
    rcases x₁ with ⟨a₁, s₁⟩
    rcases mmuPfAlloc_of_empty rfl halloc₁ hinv₀.aligned with ⟨hrem₁, hempty₁⟩
    have hinv₁ := hinv₀.alloc halloc₁
    rw [Except.ok_bind]
    dsimp only
    cases halloc₂ : mmuPfAlloc s₁ with
    | error e =>
      refine .inr ⟨e, rfl, ?_, .inl (mmuPfAlloc_error halloc₂)⟩
      rintro ⟨⟨a, rest, hall⟩, -⟩
      have hlength := (hinv₁.alloc_error halloc₂).length_eq
      rw [hall, List.length_singleton, List.length_cons, List.length_cons] at hlength
      omega
    | ok x₂ =>
      rcases x₂ with ⟨a₂, s₂⟩
      rcases mmuPfAlloc_of_empty hempty₁ halloc₂ hinv₁.aligned with ⟨hrem₂, hempty₂⟩
      have hinv₂ := hinv₁.alloc halloc₂
      have hall : allPages regions = a₁ :: a₂ :: remaining s₂.regions := by rw [← hrem₀, hrem₁, hrem₂]
      have hpages : allPages s₂.regions = allPages regions :=
        (mmuPfAlloc_allPages halloc₂).trans (mmuPfAlloc_allPages halloc₁)
      rw [Except.ok_bind]
      dsimp only
      rcases Decidable.em (a₁ + pageSize = a₂) with hnext | hnext
      case inr =>
        rw [assertThat_of_not (by rwa [decide_eq_true_eq]), Except.error_bind]
        refine .inr ⟨_, rfl, ?_, .inr (.inl rfl)⟩
        rintro ⟨⟨a, rest, hall'⟩, -⟩
        rw [hall] at hall'
        cases hall'
        exact hnext rfl
      rcases memtest_reuse hf hinv₂ hempty₂ with ⟨s₄, s₅, hrun₄, hrun₅, hinv₆, hregions₆, hout₆⟩
      rw [assertThat_of_true (decide_eq_true hnext), Except.ok_bind, hrun₄, Except.ok_bind]
      dsimp only
      rw [hrun₅, Except.ok_bind]
      dsimp only
      rw [assertThat_of_true (decide_eq_true rfl), Except.ok_bind, assertThat_of_true (decide_eq_true rfl),
        Except.ok_bind, hregions₆, memtestTotal_eq, hpages]
      rcases Decidable.em ((allPages regions).length ≤ memtestAddrCapacity) with hle | hgt
      case inr =>
        rw [assertThat_of_not (by rwa [decide_eq_true_eq]), Except.error_bind]
        exact .inr ⟨_, rfl, fun hfits => hgt hfits.2, .inr (.inr rfl)⟩
      rw [assertThat_of_true (decide_eq_true hle), Except.ok_bind]
      rcases memtestCycles_spec hf 2 hinv₆ with ⟨s', hrun, hinv', hremaining, hout'⟩
      refine .inl ⟨s', hrun, ⟨⟨a₁, _, hnext ▸ hall⟩, hle⟩, hinv', hremaining (.inr (by decide)), fun b hb => ?_⟩
      rw [hout' b hb, hout₆ b hb, mmuPfAlloc_mem halloc₂, mmuPfAlloc_mem halloc₁]

/-- `MMU_memtest` passes exactly if the first two pages are consecutive and the addresses of all pages fit its table. No
other assert ever fails: frames that are given back come out again in reverse order, and what was written into a frame is
found there while all others are written. After it all pages are on the free list, and no byte outside of them has
changed. -/
theorem mmuMemtest_passes_iff {regions : List MemRegion} (hr : RegionsOK regions) (mem : Mem) :
    ((∃ s', mmuMemtest ⟨mem, 0, regions⟩ = .ok s') ↔ MemtestFits regions) ∧
    (∀ e, mmuMemtest ⟨mem, 0, regions⟩ = .error e →
      e = .outOfMemory ∨ e = .assertion memtestOrdered ∨ e = .assertion memtestStorable) ∧
    ∀ s', mmuMemtest ⟨mem, 0, regions⟩ = .ok s' →
      (∃ free, Chain s'.mem s'.freeList free ∧ free.Perm (allPages regions)) ∧
      ∀ b, (∀ f ∈ allPages regions, ¬ InRange f pageSize b) → s'.mem b = mem b := by
  rcases mmuMemtest_cases hr mem with ⟨s', hrun, hfits, hinv, hremaining, hout⟩ | ⟨e, hrun, hfits, herror⟩
  · refine ⟨iff_of_true ⟨s', hrun⟩ hfits, fun e he => ?_, fun s'' hs'' => ?_⟩
    · rw [hrun] at he
      cases he
    · rw [hrun] at hs''
      cases hs''
      rcases hinv.split with ⟨free, hc, hperm⟩
      rw [hremaining, List.append_nil, List.append_nil] at hperm
      exact ⟨⟨free, hc, hperm⟩, hout⟩
  · refine ⟨iff_of_false (fun ⟨s', hs'⟩ => ?_) hfits, fun e' he' => ?_, fun s' hs' => ?_⟩
    · rw [hrun] at hs'
      cases hs'
    · rw [hrun] at he'
      cases he'
      exact herror
    · rw [hrun] at hs'
      cases hs'

/-- A region of three pages. -/
theorem mmuMemtest_passes_three_pages : ∃ s', mmuMemtest ⟨fun _ => 0, 0, [⟨0x1000, 0x4000, 0x1000⟩]⟩ = .ok s' := by
  have hok : RegionsOK [⟨0x1000, 0x4000, 0x1000⟩] := by
    refine ⟨fun r hr => ?_, List.pairwise_singleton .., by decide⟩
    rw [List.mem_singleton.1 hr]
    constructor <;> decide
  exact (mmuMemtest_passes_iff hok _).1.2 ⟨⟨0x1000, [0x3000], by decide⟩, by decide⟩

end BanjOS
