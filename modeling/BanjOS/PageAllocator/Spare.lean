import BanjOS.PageAllocator.HeapRuns

/-!
# Frames to spare

When a walk or a page fault returns. `Spare c s` says that at least `c` frames were never handed out. A call of
`MMU_pf_alloc` takes at most one of them and a walk with `allocate` set at most three, so a loop of
`page_table_walk` over `n` pages returns with `3 * n` of them (`walkPages_spare`). `init_page_table` takes
at most `tablesFor M` of them (`initPageTable_spare`).
-/

namespace BanjOS

open ByteMem Radix

/-- At least `c` frames of the regions were never handed out. -/
structure Spare (c : Nat) (s : Phys) : Prop where
  aligned : ∀ r ∈ s.regions, r.next % pageSize = 0 ∧ r.stop % pageSize = 0
  le : c ≤ (remaining s.regions).length

section
variable {c c' : Nat} {s : Phys}

theorem Spare.mono (h : Spare c s) (hc : c' ≤ c) : Spare c' s := ⟨h.aligned, hc.trans h.le⟩

/-- The bytes of the memory do not matter. -/
theorem Spare.withMem (h : Spare c s) (mem : Mem) : Spare c { s with mem } := ⟨h.aligned, h.le⟩

/-- `MMU_pf_alloc` returns while there is a frame to spare, and takes at most one. -/
theorem Spare.alloc (h : Spare (c + 1) s) : ∃ pf s', mmuPfAlloc s = .ok (pf, s') ∧ Spare c s' := by
  rw [mmuPfAlloc]
  split
  · exact ⟨_, _, rfl, h.aligned, (Nat.le_succ c).trans h.le⟩
  · cases hnext : takeNext s.regions with
    | none =>
      have hle := h.le
      rw [takeNext_eq_none hnext] at hle
      cases hle
    | some x =>
      obtain ⟨f, rs⟩ := x
      obtain ⟨hrem, hal⟩ := takeNext_eq_some hnext h.aligned
      have hle := h.le
      rw [hrem, List.length_cons] at hle
      exact ⟨f, _, rfl, hal, Nat.le_of_succ_le_succ hle⟩

/-- A walk down `l` levels takes at most `l` frames. -/
theorem getEntryFrom_spare {indices : Nat → Nat} : ∀ (l table : Nat) (s : Phys), Spare (c + l) s →
    ∃ r s', getEntryFrom indices true l table s = .ok (r, s') ∧ Spare c s' := by
  intro l
  induction l with
  | zero =>
    intro table s h
    exact ⟨_, s, rfl, h⟩
  | succ l ih =>
    intro table s h
    rw [getEntryFrom]
    dsimp only
    split
    · exact ih _ s (h.mono (Nat.le_succ _))
    · obtain ⟨pf, s₁, ha, h₁⟩ := h.alloc
      rw [if_pos rfl, ha]
      exact ih _ _ (h₁.withMem _)

/-- A loop of `page_table_walk` over `n` pages takes at most three frames for each. -/
theorem walkPages_spare (table : Nat) (callback : Nat → PageEntry → PageEntry) :
    ∀ (n addr : Nat) (s : Phys), Spare (c + 3 * n) s →
      ∃ s', walkPages table callback n addr s = .ok s' ∧ Spare c s' := by
  intro n
  induction n with
  | zero =>
    intro addr s h
    exact ⟨s, rfl, h⟩
  | succ n ih =>
    intro addr s h
    obtain ⟨r, s₁, hget, h₁⟩ := @getEntryFrom_spare _ (splitVirtAddr addr).1 3 table s
      (h.mono (show c + 3 * n + 3 ≤ c + 3 * (n + 1) by omega))
    obtain ⟨s', hwalk, h'⟩ := ih (addr + pageSize) _ (h₁.withMem _)
    exact ⟨s', Except.bind_eq_ok.2 ⟨_, hget, hwalk⟩, h'⟩

end

/-! ## At boot -/

section
variable {s s' : Phys}

/-- The free list stays empty while frames are only taken. -/
theorem mmuPfAlloc_freeList {pf : Nat} (h : s.freeList = 0) (ha : mmuPfAlloc s = .ok (pf, s')) :
    s'.freeList = 0 := by
  rw [mmuPfAlloc, if_neg (not_not.2 h)] at ha
  split at ha
  · cases ha
    exact h
  · cases ha

theorem getEntryFrom_freeList {indices : Nat → Nat} {allocate : Bool} : ∀ (l table : Nat) (s : Phys) {r : Option Nat},
    getEntryFrom indices allocate l table s = .ok (r, s') → s.freeList = 0 → s'.freeList = 0 := by
  intro l
  induction l with
  | zero =>
    intro table s r hget h
    cases hget
    exact h
  | succ l ih =>
    intro table s r hget h
    rw [getEntryFrom] at hget
    dsimp only at hget
    split at hget
    · exact ih _ s hget h
    · split at hget
      · obtain ⟨⟨pf, s₁⟩, ha, hget⟩ := Except.bind_eq_ok.1 hget
        have h₁ := mmuPfAlloc_freeList h ha
        exact ih _ _ hget h₁
      · cases hget
        exact h

theorem walkPages_freeList {table : Nat} {callback : Nat → PageEntry → PageEntry} :
    ∀ (n addr : Nat) (s : Phys), walkPages table callback n addr s = .ok s' → s.freeList = 0 →
      s'.freeList = 0 := by
  intro n
  induction n with
  | zero =>
    intro addr s hwalk h
    cases hwalk
    exact h
  | succ n ih =>
    intro addr s hwalk h
    obtain ⟨⟨r, s₁⟩, hget, hwalk⟩ := Except.bind_eq_ok.1 hwalk
    have h₁ := getEntryFrom_freeList 3 table s hget h
    exact ih _ _ hwalk h₁

/-- `init_page_table` takes at most `tablesFor M` frames, and returns none. -/
theorem initPageTable_spare {regions : List MemRegion} (hr : BootRegions regions) {mem : Mem} {root M : Nat}
    {s₀ : Phys} (hM : M < 2 ^ 36) (hend : memEnd regions = pageSize * (M + 1))
    (hinit : initPageTable ⟨mem, 0, regions⟩ = .ok (root, s₀)) :
    Spare ((allPages regions).length - tablesFor M) s₀ := by
  have hmap := (initPageTable_mapInv hr.regionsOK.frames hr.allPages_lt (hr.regionsOK.frameInv mem) hM hend).1
    root s₀ hinit
  have hempty : s₀.freeList = 0 := by
    obtain ⟨⟨pml4, s₁⟩, ha, hrest⟩ := Except.bind_eq_ok.1 hinit
    obtain ⟨s₂, hwalk, hrest⟩ := Except.bind_eq_ok.1 hrest
    cases hrest
    have h₁ := mmuPfAlloc_freeList rfl ha
    exact walkPages_freeList _ _ _ hwalk h₁
  obtain ⟨out, hinv, hout, -⟩ := hmap.frames
  have hcount := tables_length_le hM hmap.tables (hinv.out_nodup hr.regionsOK.frames)
    fun f hf => ((hout f).1 hf).resolve_left (nomatch ·)
  obtain ⟨⟨free, hc, hperm⟩, hal⟩ := hinv
  rw [hempty] at hc
  have hlen := hperm.length_eq
  rw [hc.eq_nil, List.nil_append, List.length_append] at hlen
  exact ⟨hal, by omega⟩

end

end BanjOS
