import BanjOS.PageTable.Entry
import BanjOS.PageAllocator.Frames
import BanjOS.Lib.RadixTree

/-!
# The page-table walk

`split_virt_addr`, `page_table_get_entry` and `page_table_virt_to_phys_addr` (`page_table.c`). A
four-level table is a radix tree of depth 3 (`Radix.tableAt`): the node `q` at depth `d` is the table
that the top `9 * d` bits of a 36-bit page number select, and the leaf slots are the 512 slots of the
tables at depth 3.

Walking with `allocate` set hangs the missing tables of one path under the tree. `Grown` is the effect
of such a walk: the tree stays separate, keeps its tables and its leaf entries, and what is new lies on
the path and is zero. Frames come from `MMU_pf_alloc`; that it hands out frames outside the tree is the
one assumption (`Supply`), which the allocator's invariant provides (`framesFor_supply`).
-/

namespace BanjOS

open ByteMem Radix

/-- `split_virt_addr`: the table index at each level, and the offset in the page. -/
def splitVirtAddr (virtAddr : Nat) : (Nat → Nat) × Nat :=
  (fun l => (virtAddr >>> (9 * l + 12)) &&& 0x1FF, virtAddr &&& 0xFFF)

/-- Clear the frame `nextTable` and enter it at `slot` as a present, writable table. -/
def installTable (m : Mem) (slot nextTable : Nat) : Mem :=
  let m := fill m nextTable pageSize 0
  setEntry m slot
    { getEntry m slot with present := true, readWrite := true, addr := PageEntry.addrOf nextTable }

/-- The loop of `page_table_get_entry` from level `l` down, at `table`. -/
def getEntryFrom (indices : Nat → Nat) (allocate : Bool) :
    (l table : Nat) → Phys → Except Stop (Option Nat × Phys)
  | 0, table, s => .ok (some (table + 8 * indices 0), s)
  | l + 1, table, s =>
    let slot := table + 8 * indices (l + 1)
    if (getEntry s.mem slot).present then
      getEntryFrom indices allocate l (getEntry s.mem slot).frame s
    else if allocate then do
      let (nextTable, s) ← mmuPfAlloc s
      let s := { s with mem := installTable s.mem slot nextTable }
      getEntryFrom indices allocate l (getEntry s.mem slot).frame s
    else .ok (none, s)

/-- `page_table_get_entry`: the address of the leaf entry of `virtAddr`, or null. -/
def pageTableGetEntry (table virtAddr : Nat) (allocate : Bool) (s : Phys) :
    Except Stop (Option Nat × Phys) :=
  getEntryFrom (splitVirtAddr virtAddr).1 allocate 3 table s

/-- `page_table_virt_to_phys_addr`: the frame of the leaf entry plus the offset, or null. -/
def pageTableVirtToPhysAddr (table virtAddr : Nat) (s : Phys) : Except Stop Nat := do
  let (entry, s) ← pageTableGetEntry table virtAddr false s
  match entry with
  | none => .ok 0
  | some slot => .ok ((getEntry s.mem slot).frame + (splitVirtAddr virtAddr).2)

/-! ## The tree of a table -/

/-- The table a slot points to, if its entry is present. -/
def child (m : Mem) (slot : Nat) : Option Nat :=
  if (getEntry m slot).present then some (getEntry m slot).frame else none

/-- A well-formed four-level table: every table down to the leaf tables lies in a frame of its own. -/
abbrev TreeOK (m : Mem) (root : Nat) : Prop := Separate (child m) root 3

/-- The frame holds a table of the tree. -/
def IsTable (m : Mem) (root f : Nat) : Prop :=
  ∃ d q, d ≤ 3 ∧ q < 512 ^ d ∧ tableAt (child m) root d q = some f

/-- The leaf slot of the page number `n`, if its leaf table is there. -/
def leafSlot (m : Mem) (root n : Nat) : Option Nat :=
  (tableAt (child m) root 3 (n / 512)).map (· + 8 * (n % 512))

/-- The page number of a virtual address: its bits 12 to 47. -/
def pageOf (virtAddr : Nat) : Nat := virtAddr / pageSize % 2 ^ 36

theorem pageOf_lt (v : Nat) : pageOf v < 2 ^ 36 := Nat.mod_lt _ (by decide)

theorem pageOf_eq {v : Nat} (h : v < 2 ^ 48) : pageOf v = v / pageSize :=
  Nat.mod_eq_of_lt (by unfold pageSize; omega)

/-- The page number of a page's address. -/
theorem pageOf_pageSize_mul {n : Nat} (hn : n < 2 ^ 36) : pageOf (pageSize * n) = n := by
  rw [pageOf_eq (by unfold pageSize; omega), Nat.mul_div_cancel_left _ (by decide)]

/-- The page number of an address inside a page. -/
theorem pageOf_add {n r : Nat} (hn : n < 2 ^ 36) (hr : r < pageSize) : pageOf (pageSize * n + r) = n := by
  unfold pageSize at *
  rw [pageOf_eq (by omega)]
  unfold pageSize
  omega

/-- The index at level `l` is the digit of the page number there. -/
theorem splitVirtAddr_index (v : Nat) {l : Nat} (hl : l ≤ 3) :
    (splitVirtAddr v).1 l = pageOf v / 512 ^ l % 512 := by
  have h : (splitVirtAddr v).1 l = v / 2 ^ (9 * l + 12) % 512 := by
    simp only [splitVirtAddr, Nat.shiftRight_eq_div_pow]
    exact Nat.and_two_pow_sub_one_eq_mod _ 9
  rw [h, pageOf, pageSize]
  obtain rfl | rfl | rfl | rfl : l = 0 ∨ l = 1 ∨ l = 2 ∨ l = 3 := by omega
  all_goals simp only [Nat.reduceMul, Nat.reduceAdd, Nat.reducePow]; omega

theorem leafSlot_eq_some {m : Mem} {root n slot : Nat} : leafSlot m root n = some slot ↔
    ∃ t, tableAt (child m) root 3 (n / 512) = some t ∧ t + 8 * (n % 512) = slot := by
  rw [leafSlot, Option.map_eq_some_iff]

theorem leafSlot_eq_none {m : Mem} {root n : Nat} :
    leafSlot m root n = none ↔ tableAt (child m) root 3 (n / 512) = none := by
  rw [leafSlot, Option.map_eq_none_iff]

/-- The number of a page's leaf table. -/
theorem leaf_num_lt {n : Nat} (hn : n < 2 ^ 36) : n / 512 < 512 ^ 3 := by omega

/-- Distinct pages have distinct leaf slots. -/
theorem TreeOK.leafSlot_inj {m : Mem} {root n k slot : Nat} (h : TreeOK m root) (hn : n < 2 ^ 36)
    (hk : k < 2 ^ 36) (h₁ : leafSlot m root n = some slot) (h₂ : leafSlot m root k = some slot) :
    n = k := by
  obtain ⟨t, ht, he⟩ := leafSlot_eq_some.1 h₁
  obtain ⟨u, hu, he'⟩ := leafSlot_eq_some.1 h₂
  have := h.slot_inj (Nat.le_refl 3) (Nat.le_refl 3) (leaf_num_lt hn) (leaf_num_lt hk) ht hu
    (Nat.mod_lt _ (by omega)) (Nat.mod_lt _ (by omega)) (he.trans he'.symm)
  omega

/-! ## Hanging a table -/

section
variable {m : Mem} {root d q p g : Nat}

/-- The entries `installTable` changes: the slot now points to the table, the table is clear. -/
theorem installTable_self (hg : g % pageSize = 0) (hlt : g < 2 ^ 52) (slot : Nat) :
    (getEntry (installTable m slot g) slot).present = true ∧
      (getEntry (installTable m slot g) slot).frame = g := by
  simp only [installTable, getEntry_setEntry_self, PageEntry.frame]
  exact ⟨trivial, PageEntry.addrOf_frame hg hlt⟩

/-- `installTable` reaches the new frame and the slot only. -/
theorem installTable_of_apart {slot x : Nat} (h₁ : g + pageSize ≤ x ∨ x + 8 ≤ g)
    (h₂ : slot + 8 ≤ x ∨ x + 8 ≤ slot) : getEntry (installTable m slot g) x = getEntry m x := by
  rw [installTable, getEntry_setEntry_of_apart h₂, getEntry_fill_of_apart h₁]

/-- The slots of the new table are zero. -/
theorem installTable_blank {slot i : Nat} (hi : i < 512)
    (h : slot + 8 ≤ g + 8 * i ∨ g + 8 * i + 8 ≤ slot) :
    getEntry (installTable m slot g) (g + 8 * i) = .zero := by
  rw [installTable, getEntry_setEntry_of_apart h]
  exact getEntry_fill_zero (by omega) (by unfold pageSize; omega)

/-- Entries of other slots of the tree are as before. -/
theorem TreeOK.installTable_entry (h : TreeOK m root) (hd : d ≤ 3) (hq : q < 512 ^ d)
    (hp : tableAt (child m) root d q = some p) {j : Nat} (hg : g % pageSize = 0)
    (hnew : ¬ IsTable m root g) {e r t i : Nat} (he : e ≤ 3) (hr : r < 512 ^ e)
    (ht : tableAt (child m) root e r = some t) (hi : i < 512) (hne : t + 8 * i ≠ p + 8 * j) :
    getEntry (installTable m (p + 8 * j) g) (t + 8 * i) = getEntry m (t + 8 * i) := by
  have h₁ := h.aligned d q p hd hq hp
  have h₂ := h.aligned e r t he hr ht
  have h₃ : t ≠ g := fun heq => hnew ⟨e, r, he, hr, heq ▸ ht⟩
  unfold pageSize at hg
  exact installTable_of_apart (by unfold pageSize; omega) (by omega)

/-- Entering a frame outside the tree in an absent slot hangs a table there. -/
theorem TreeOK.hang (h : TreeOK m root) (hd : d < 3) (hq : q < 512 ^ (d + 1))
    (hp : tableAt (child m) root d (q / 512) = some p)
    (habs : (getEntry m (p + 8 * (q % 512))).present = false) (hg : g % pageSize = 0)
    (hlt : g < 2 ^ 52) (hnew : ¬ IsTable m root g) :
    Hang (child m) (child (installTable m (p + 8 * (q % 512)) g)) root 3 d q p g := by
  have h₁ := h.aligned d _ p (by omega) (div_lt_pow hq) hp
  have h₂ : p ≠ g := fun heq => hnew ⟨d, _, by omega, div_lt_pow hq, heq ▸ hp⟩
  obtain ⟨hpres, hframe⟩ := installTable_self (m := m) hg hlt (p + 8 * (q % 512))
  exact {
    depth := hd
    num := hq
    parent := hp
    empty := by simp [child, habs]
    aligned := hg
    fresh := fun e r he hr ht => hnew ⟨e, r, he, hr, ht⟩
    hung := by simp [child, hpres, hframe]
    blank := fun i hi => by
      have hz : getEntry (installTable m (p + 8 * (q % 512)) g) (g + 8 * i) = .zero :=
        installTable_blank hi (by unfold pageSize at hg; omega)
      simp [child, hz, PageEntry.zero]
    rest := fun e r t i he hr ht hi hne => by
      simp only [child, h.installTable_entry (Nat.le_of_lt hd) (div_lt_pow hq) hp hg hnew he hr
        ht hi hne] }

end

/-! ## Growth along one path -/

/-- The effect of a walk for the page `n`: the tree stays well formed and keeps its tables and leaf
entries; new tables lie on the path of `n`, and the leaf entries of new tables are zero. -/
structure Grown (root n : Nat) (m m' : Mem) : Prop where
  ok : TreeOK m' root
  old : ∀ d q t, d ≤ 3 → q < 512 ^ d → tableAt (child m) root d q = some t →
    tableAt (child m') root d q = some t
  entry : ∀ q t i, q < 512 ^ 3 → i < 512 → tableAt (child m) root 3 q = some t →
    getEntry m' (t + 8 * i) = getEntry m (t + 8 * i)
  blank : ∀ q t i, q < 512 ^ 3 → i < 512 → tableAt (child m) root 3 q = none →
    tableAt (child m') root 3 q = some t → getEntry m' (t + 8 * i) = .zero
  path : ∀ d l q t, d + l = 4 → d ≤ 3 → q < 512 ^ d → tableAt (child m') root d q = some t →
    tableAt (child m) root d q = some t ∨ q = n / 512 ^ l

section
variable {root n : Nat} {m m' m'' : Mem}

theorem Grown.refl (h : TreeOK m root) : Grown root n m m where
  ok := h
  old _ _ _ _ _ ht := ht
  entry _ _ _ _ _ _ := rfl
  blank q t i hq hi hn hs := by rw [hn] at hs; cases hs
  path _ _ _ _ _ _ _ ht := .inl ht

theorem Grown.trans (h : Grown root n m m') (h' : Grown root n m' m'') : Grown root n m m'' where
  ok := h'.ok
  old d q t hd hq ht := h'.old d q t hd hq (h.old d q t hd hq ht)
  entry q t i hq hi ht := by
    rw [h'.entry q t i hq hi (h.old 3 q t (Nat.le_refl 3) hq ht), h.entry q t i hq hi ht]
  blank q t i hq hi hn hs := by
    cases hm : tableAt (child m') root 3 q with
    | none => exact h'.blank q t i hq hi hm hs
    | some u =>
      obtain rfl : t = u := by
        have := h'.old 3 q u (Nat.le_refl 3) hq hm
        rw [hs] at this
        exact Option.some.inj this
      rw [h'.entry q t i hq hi hm, h.blank q t i hq hi hn hm]
  path d l q t hl hd hq ht := (h'.path d l q t hl hd hq ht).elim (h.path d l q t hl hd hq) .inr

/-- The number of the node of `n` above the one at level `l`. -/
theorem prefix_div (n l : Nat) : n / 512 ^ l / 512 = n / 512 ^ (l + 1) := by
  rw [Nat.pow_succ, Nat.div_div_eq_div_mul]

/-- The prefixes of a page number name nodes. -/
theorem prefix_lt {d l : Nat} (hdl : d + l = 4) (hn : n < 2 ^ 36) : n / 512 ^ l < 512 ^ d := by
  have h : (2 : Nat) ^ 36 = 512 ^ d * 512 ^ l := by rw [← Nat.pow_add, hdl]; rfl
  exact Nat.div_lt_of_lt_mul (by rw [Nat.mul_comm, ← h]; exact hn)

/-- Hanging the table of the path of `n` at depth `d + 1` is a growth. -/
theorem TreeOK.grown_installTable (h : TreeOK m root) {d l p g : Nat} (hdl : d + l = 3) (hl : 0 < l)
    (hn : n < 2 ^ 36) (hp : tableAt (child m) root d (n / 512 ^ (l + 1)) = some p)
    (habs : (getEntry m (p + 8 * (n / 512 ^ l % 512))).present = false)
    (hg : g % pageSize = 0) (hlt : g < 2 ^ 52) (hnew : ¬ IsTable m root g) :
    Grown root n m (installTable m (p + 8 * (n / 512 ^ l % 512)) g) ∧
      tableAt (child (installTable m (p + 8 * (n / 512 ^ l % 512)) g)) root (d + 1) (n / 512 ^ l) =
        some g ∧
      ∀ f, IsTable (installTable m (p + 8 * (n / 512 ^ l % 512)) g) root f ↔
        IsTable m root f ∨ f = g := by
  have hq : n / 512 ^ l < 512 ^ (d + 1) := prefix_lt (by omega) hn
  have hq' := div_lt_pow hq
  rw [← prefix_div] at hp
  have hhang := h.hang (by omega) hq hp habs hg hlt hnew
  refine ⟨⟨hhang.separate h, hhang.tableAt_old, fun q t i hq₃ hi ht => ?_,
    fun q t i hq₃ hi hnone hs => ?_, fun e k r t hek he hr ht => ?_⟩, hhang.tableAt_new,
    fun f => ⟨?_, ?_⟩⟩
  · refine h.installTable_entry (by omega) hq' hp hg hnew (Nat.le_refl 3) hq₃ ht hi fun heq => ?_
    -- a leaf slot is not a slot of the table at depth `d`
    have := (h.slot_inj (Nat.le_refl 3) (by omega) hq₃ hq' ht hp hi (Nat.mod_lt _ (by omega)) heq).1
    omega
  · rcases hhang.tableAt_inv h 3 q t (Nat.le_refl 3) hq₃ hs with hold | ⟨-, -, rfl⟩
    · rw [hnone] at hold; cases hold
    · have h₁ := h.aligned d _ p (by omega) hq' hp
      have h₂ : p ≠ t := fun heq => hnew ⟨d, _, by omega, hq', heq ▸ hp⟩
      have h₃ : n / 512 ^ l % 512 < 512 := Nat.mod_lt _ (by omega)
      unfold pageSize at hg
      exact installTable_blank hi (by omega)
  · refine (hhang.tableAt_inv h e r t he hr ht).imp_right ?_
    rintro ⟨rfl, rfl, -⟩
    obtain rfl : k = l := by omega
    rfl
  · rintro ⟨e, r, he, hr, ht⟩
    rcases hhang.tableAt_inv h e r f he hr ht with hold | ⟨-, -, rfl⟩
    · exact .inl ⟨e, r, he, hr, hold⟩
    · exact .inr rfl
  · rintro (⟨e, r, he, hr, ht⟩ | rfl)
    · exact ⟨e, r, he, hr, hhang.tableAt_old e r f he hr ht⟩
    · exact ⟨d + 1, _, by omega, hq, hhang.tableAt_new⟩

end

/-! ## Frames for the walk -/

/-- What a walk asks of `MMU_pf_alloc`, in the states `P` in which it allocates: the frame it returns
lies outside the tree, and once the walk has hung that frame under the tree the state is in `P`
again. -/
structure Supply (root : Nat) (P : Phys → Prop) : Prop where
  frame : ∀ {s s' : Phys} {pf : Nat}, P s → mmuPfAlloc s = .ok (pf, s') →
    pf % pageSize = 0 ∧ pf < 2 ^ 52 ∧ ¬ IsTable s.mem root pf
  hang : ∀ {s s' : Phys} {pf p i : Nat}, P s → mmuPfAlloc s = .ok (pf, s') →
    IsTable s.mem root p → i < 512 →
    (∀ f, IsTable (installTable s.mem (p + 8 * i) pf) root f ↔ IsTable s.mem root f ∨ f = pf) →
    P { s' with mem := installTable s.mem (p + 8 * i) pf }

/-- `installTable` changes bytes of the new frame and of the slot only. -/
theorem installTable_apply_of_not_mem {m : Mem} {slot g b : Nat} (h₁ : ¬ InRange g pageSize b)
    (h₂ : ¬ InRange slot 8 b) : installTable m slot g b = m b := by
  rw [installTable, setEntry_apply_of_not_mem h₂, fill_apply_of_not_mem h₁]

/-- The allocator's invariant with the tables of the tree and the frames `held`, none of them a table,
handed out. -/
def FramesFor (all : List Nat) (root : Nat) (held : Set Nat) (s : Phys) : Prop :=
  ∃ out, FrameInv all s out ∧ (∀ f, f ∈ out ↔ f ∈ held ∨ IsTable s.mem root f) ∧
    ∀ f ∈ held, ¬ IsTable s.mem root f

/-- The allocator supplies walks with frames. -/
theorem framesFor_supply {all : List Nat} (hf : Frames all) (hlt : ∀ f ∈ all, f < 2 ^ 52)
    (root : Nat) (held : Set Nat) : Supply root (FramesFor all root held) where
  frame := by
    rintro s s' pf ⟨out, hinv, hout, -⟩ ha
    have hinv' := hinv.alloc ha
    have hmem := hinv'.mem_all (.head _)
    refine ⟨hf.aligned pf hmem, hlt pf hmem, fun ht => ?_⟩
    exact (List.nodup_cons.1 (hinv'.out_nodup hf)).1 ((hout pf).2 (.inr ht))
  hang := by
    rintro s s' pf p i ⟨out, hinv, hout, hheld⟩ ha hp hi hiff
    have hinv' := hinv.alloc ha
    refine ⟨pf :: out, hinv'.write hf fun b hb => ?_, fun f => ?_, fun f hfh => ?_⟩
    · rw [mmuPfAlloc_mem ha]
      refine installTable_apply_of_not_mem (hb pf (.head _)) fun hb' => ?_
      refine hb p (.tail _ ((hout p).2 (.inr hp))) ⟨?_, ?_⟩
      · have := hb'.1; omega
      · have := hb'.2; unfold pageSize; omega
    · rw [List.mem_cons, hout f, hiff f]
      exact ⟨fun h => h.elim (fun h => .inr (.inr h)) fun h => h.imp_right .inl,
        fun h => h.elim (fun h => .inr (.inl h)) fun h => h.elim (fun h => .inr (.inr h)) .inl⟩
    · rw [hiff f]
      refine fun h => h.elim (hheld f hfh) fun heq => ?_
      exact (List.nodup_cons.1 (hinv'.out_nodup hf)).1 (heq ▸ (hout f).2 (.inl hfh))

/-! ## The walk -/

/-- A path that ends above the leaf tables has no leaf table. -/
theorem leaf_none {m : Mem} {root n d l : Nat} (hdl : d + l = 2)
    (h : tableAt (child m) root (d + 1) (n / 512 ^ (l + 1)) = none) :
    tableAt (child m) root 3 (n / 512) = none := by
  induction l generalizing d with
  | zero =>
    obtain rfl : d = 2 := hdl
    simpa using h
  | succ l ih =>
    have hnext : tableAt (child m) root (d + 1 + 1) (n / 512 ^ (l + 1)) = none := by
      rw [tableAt, prefix_div, h]
      rfl
    exact ih (by omega) hnext

section
variable {root n : Nat} {indices : Nat → Nat} (hidx : ∀ l, l ≤ 3 → indices l = n / 512 ^ l % 512)
include hidx

/-- The loop from the table of `n` above level `l`, when the page has a leaf slot: nothing changes. -/
theorem getEntryFrom_found {s : Phys} {slot : Nat} (hs : leafSlot s.mem root n = some slot)
    (allocate : Bool) : ∀ l d t, d + l = 3 →
      tableAt (child s.mem) root d (n / 512 ^ (l + 1)) = some t →
      getEntryFrom indices allocate l t s = .ok (some slot, s) := by
  intro l
  induction l with
  | zero =>
    intro d t hd ht
    obtain rfl : d = 3 := hd
    obtain ⟨u, hu, rfl⟩ := leafSlot_eq_some.1 hs
    simp only [Nat.zero_add, Nat.pow_one] at ht
    rw [hu] at ht
    cases ht
    rw [getEntryFrom, hidx 0 (by omega), Nat.pow_zero, Nat.div_one]
  | succ l ih =>
    intro d t hd ht
    rw [getEntryFrom]
    dsimp only
    rw [hidx (l + 1) (by omega)]
    split
    · next hpres =>
      rw [← prefix_div] at ht
      exact ih (d + 1) _ (by omega) (tableAt_succ.2 ⟨t, ht, by simp [child, hpres]⟩)
    · next habs =>
      have hnone : tableAt (child s.mem) root (d + 1) (n / 512 ^ (l + 1)) = none := by
        rw [tableAt, prefix_div, ht]
        simp [child, habs]
      rw [leafSlot_eq_none.2 (leaf_none (by omega) hnone)] at hs
      cases hs

/-- The loop with `allocate` clear, from the table of `n` above level `l`, when the page has no leaf
slot. -/
theorem getEntryFrom_missing {s : Phys} (hs : leafSlot s.mem root n = none) :
    ∀ l d t, d + l = 3 → tableAt (child s.mem) root d (n / 512 ^ (l + 1)) = some t →
      getEntryFrom indices false l t s = .ok (none, s) := by
  intro l
  induction l with
  | zero =>
    intro d t hd ht
    obtain rfl : d = 3 := hd
    rw [leafSlot_eq_none] at hs
    simp only [Nat.zero_add, Nat.pow_one] at ht
    rw [hs] at ht
    cases ht
  | succ l ih =>
    intro d t hd ht
    rw [getEntryFrom]
    dsimp only
    rw [hidx (l + 1) (by omega)]
    split
    · next hpres =>
      rw [← prefix_div] at ht
      exact ih (d + 1) _ (by omega) (tableAt_succ.2 ⟨t, ht, by simp [child, hpres]⟩)
    · simp

variable {P : Phys → Prop} (hP : Supply root P) (hn : n < 2 ^ 36)
include hP hn

/-- The loop with `allocate` set, from the table of `n` above level `l`. It returns the leaf slot in
a grown tree, or stops where `MMU_pf_alloc` does, with a table of the path still missing. -/
theorem getEntryFrom_grown : ∀ l d t s, d + l = 3 → P s → TreeOK s.mem root →
    tableAt (child s.mem) root d (n / 512 ^ (l + 1)) = some t →
    (∀ r s', getEntryFrom indices true l t s = .ok (r, s') →
      P s' ∧ Grown root n s.mem s'.mem ∧ ∃ slot, r = some slot ∧ leafSlot s'.mem root n = some slot) ∧
    ∀ e, getEntryFrom indices true l t s = .error e →
      ∃ s₁ d k, P s₁ ∧ Grown root n s.mem s₁.mem ∧ mmuPfAlloc s₁ = .error e ∧ d + k = 4 ∧ d ≤ 3 ∧
        tableAt (child s₁.mem) root d (n / 512 ^ k) = none := by
  intro l
  induction l with
  | zero =>
    intro d t s hd hPs hT ht
    obtain rfl : d = 3 := hd
    refine ⟨fun r s' h => ?_, fun e h => nomatch h⟩
    cases h
    refine ⟨hPs, .refl hT, _, rfl, leafSlot_eq_some.2 ⟨t, by simpa using ht, ?_⟩⟩
    rw [hidx 0 (by omega)]
    simp
  | succ l ih =>
    intro d t s hd hPs hT ht
    rw [getEntryFrom]
    dsimp only
    rw [hidx (l + 1) (by omega)]
    split
    · next hpres =>
      rw [← prefix_div] at ht
      exact ih (d + 1) _ s (by omega) hPs hT (tableAt_succ.2 ⟨t, ht, by simp [child, hpres]⟩)
    · next habs =>
      rw [Bool.not_eq_true] at habs
      rw [if_pos rfl]
      cases ha : mmuPfAlloc s with
      | error e' =>
        refine ⟨fun r s' h => (nomatch h), fun e h => ?_⟩
        cases h
        refine ⟨s, d + 1, l + 1, hPs, .refl hT, ha, by omega, by omega, ?_⟩
        rw [tableAt, prefix_div, ht]
        simp [child, habs]
      | ok x =>
        obtain ⟨pf, s₁⟩ := x
        obtain ⟨hmod, hlt, hnew⟩ := hP.frame hPs ha
        obtain ⟨hgrow, hnext, htab⟩ := hT.grown_installTable hd (by omega) hn ht habs hmod hlt hnew
        have hP₁ := hP.hang hPs ha ⟨d, _, by omega, prefix_lt (by omega) hn, ht⟩
          (Nat.mod_lt _ (by omega)) htab
        have hself := (installTable_self (m := s.mem) hmod hlt (t + 8 * (n / 512 ^ (l + 1) % 512))).2
        have hstep := ih (d + 1) pf _ (by omega) hP₁ hgrow.ok hnext
        simp only [bind, Except.bind, mmuPfAlloc_mem ha, hself]
        refine ⟨fun r s' h => ?_, fun e h => ?_⟩
        · obtain ⟨h₁, h₂, h₃⟩ := hstep.1 r s' h
          exact ⟨h₁, hgrow.trans h₂, h₃⟩
        · obtain ⟨s₂, d₂, k, h₁, h₂, h₃⟩ := hstep.2 e h
          exact ⟨s₂, d₂, k, h₁, hgrow.trans h₂, h₃⟩

end

section
variable {root : Nat} {s : Phys}

theorem splitVirtAddr_digits (v : Nat) :
    ∀ l, l ≤ 3 → (splitVirtAddr v).1 l = pageOf v / 512 ^ l % 512 :=
  fun _ hl => splitVirtAddr_index v hl

/-- `page_table_get_entry` finds a leaf slot that is there, and changes nothing. -/
theorem pageTableGetEntry_found {v slot : Nat} (hs : leafSlot s.mem root (pageOf v) = some slot)
    (allocate : Bool) : pageTableGetEntry root v allocate s = .ok (some slot, s) :=
  getEntryFrom_found (splitVirtAddr_digits v) hs allocate 3 0 root rfl rfl

/-- `page_table_get_entry(table, v, false)` changes nothing and returns the leaf slot. -/
theorem pageTableGetEntry_lookup (root v : Nat) (s : Phys) :
    pageTableGetEntry root v false s = .ok (leafSlot s.mem root (pageOf v), s) := by
  cases hs : leafSlot s.mem root (pageOf v) with
  | none => exact getEntryFrom_missing (splitVirtAddr_digits v) hs 3 0 root rfl rfl
  | some slot => exact pageTableGetEntry_found hs false

/-- `page_table_get_entry(table, v, true)` returns the leaf slot of `v` in a tree grown along the
path of `v`, or stops where `MMU_pf_alloc` does. -/
theorem pageTableGetEntry_grown {P : Phys → Prop} (hP : Supply root P) (hs : P s)
    (hT : TreeOK s.mem root) (v : Nat) :
    (∀ r s', pageTableGetEntry root v true s = .ok (r, s') →
      P s' ∧ Grown root (pageOf v) s.mem s'.mem ∧
        ∃ slot, r = some slot ∧ leafSlot s'.mem root (pageOf v) = some slot) ∧
    ∀ e, pageTableGetEntry root v true s = .error e →
      ∃ s₁ d k, P s₁ ∧ Grown root (pageOf v) s.mem s₁.mem ∧ mmuPfAlloc s₁ = .error e ∧
        d + k = 4 ∧ d ≤ 3 ∧ tableAt (child s₁.mem) root d (pageOf v / 512 ^ k) = none :=
  getEntryFrom_grown (splitVirtAddr_digits v) hP (pageOf_lt v) 3 0 root s rfl hs hT rfl

/-- A leaf slot survives a growth, with its entry. -/
theorem Grown.leafSlot_old {n k slot : Nat} {m m' : Mem} (h : Grown root n m m') (hk : k < 2 ^ 36)
    (hs : leafSlot m root k = some slot) :
    leafSlot m' root k = some slot ∧ getEntry m' slot = getEntry m slot := by
  obtain ⟨t, ht, rfl⟩ := leafSlot_eq_some.1 hs
  have hmod : k % 512 < 512 := Nat.mod_lt _ (by omega)
  exact ⟨leafSlot_eq_some.2 ⟨t, h.old 3 _ t (Nat.le_refl 3) (leaf_num_lt hk) ht, rfl⟩,
    h.entry _ t _ (leaf_num_lt hk) hmod ht⟩

/-- A leaf entry that a growth makes reachable is zero. -/
theorem Grown.leafSlot_new {n k slot : Nat} {m m' : Mem} (h : Grown root n m m') (hk : k < 2 ^ 36)
    (hnone : leafSlot m root k = none) (hs : leafSlot m' root k = some slot) :
    getEntry m' slot = .zero := by
  obtain ⟨t, ht, rfl⟩ := leafSlot_eq_some.1 hs
  exact h.blank _ t _ (leaf_num_lt hk) (Nat.mod_lt _ (by omega)) (leafSlot_eq_none.1 hnone) ht

/-- The leaf entry of the page `n`; where the page has no leaf table, the zero entry. -/
@[irreducible] def leafEntry (m : Mem) (root n : Nat) : PageEntry :=
  ((leafSlot m root n).map (getEntry m)).getD .zero

theorem leafEntry_of_slot {m : Mem} {n slot : Nat} (h : leafSlot m root n = some slot) :
    leafEntry m root n = getEntry m slot := by simp [leafEntry, h]

/-- A leaf entry that is not zero has a slot. -/
theorem exists_slot_of_leafEntry {m : Mem} {n : Nat} (h : leafEntry m root n ≠ .zero) :
    ∃ slot, leafSlot m root n = some slot ∧ getEntry m slot = leafEntry m root n := by
  cases hs : leafSlot m root n with
  | none => exact absurd (by simp [leafEntry, hs]) h
  | some slot => exact ⟨slot, rfl, (leafEntry_of_slot hs).symm⟩

/-- A growth changes no leaf entry. -/
theorem Grown.leafEntry_eq {n k : Nat} {m m' : Mem} (h : Grown root n m m') (hk : k < 2 ^ 36) :
    leafEntry m' root k = leafEntry m root k := by
  cases hold : leafSlot m root k with
  | some slot =>
    obtain ⟨hs, he⟩ := h.leafSlot_old hk hold
    rw [leafEntry_of_slot hs, leafEntry_of_slot hold, he]
  | none =>
    have hz : leafEntry m root k = .zero := by simp [leafEntry, hold]
    cases hnew : leafSlot m' root k with
    | none => rw [hz, leafEntry, hnew, Option.map_none, Option.getD_none]
    | some slot => rw [hz, leafEntry_of_slot hnew, h.leafSlot_new hk hold hnew]

/-- A leaf slot is missing exactly when some entry on the way to it is not present. -/
theorem leafSlot_eq_none_iff {m : Mem} {n : Nat} : leafSlot m root n = none ↔
    ∃ d l t, d + l = 3 ∧ 0 < l ∧ tableAt (child m) root d (n / 512 ^ (l + 1)) = some t ∧
      (getEntry m (t + 8 * (n / 512 ^ l % 512))).present = false := by
  rw [leafSlot_eq_none]
  constructor
  · intro hnone
    by_contra hno
    push Not at hno
    -- no entry on the path is absent, so the path reaches the leaf table
    have hreach : ∀ l d, d + l = 3 → ∃ t, tableAt (child m) root d (n / 512 ^ (l + 1)) = some t := by
      intro l d
      induction d generalizing l with
      | zero => intro _; exact ⟨root, rfl⟩
      | succ d ih =>
        intro hdl
        obtain ⟨t, ht⟩ := ih (l + 1) (by omega)
        have hpres := Bool.eq_true_of_not_eq_false (hno d (l + 1) t (by omega) (by omega) ht)
        rw [← prefix_div] at ht
        exact ⟨_, tableAt_succ.2 ⟨t, ht, if_pos hpres⟩⟩
    obtain ⟨t, ht⟩ := hreach 0 3 rfl
    simp only [Nat.zero_add, Nat.pow_one] at ht
    rw [hnone] at ht
    cases ht
  · rintro ⟨d, l, t, hdl, hl, ht, habs⟩
    obtain ⟨l, rfl⟩ : ∃ k, l = k + 1 := ⟨l - 1, by omega⟩
    refine leaf_none (d := d) (l := l) (by omega) ?_
    rw [tableAt, prefix_div, ht]
    simp [child, habs]

/-- `m'` has the tables of `m`. -/
structure SameTables (root : Nat) (m m' : Mem) : Prop where
  ok : TreeOK m' root
  tables : ∀ d q, d ≤ 3 → q < 512 ^ d → tableAt (child m') root d q = tableAt (child m) root d q

/-- Leaf slots depend on the tables only. -/
theorem SameTables.leafSlot_eq {m m' : Mem} {k : Nat} (h : SameTables root m m') (hk : k < 2 ^ 36) :
    leafSlot m' root k = leafSlot m root k := by
  rw [leafSlot, leafSlot, h.tables 3 _ (Nat.le_refl 3) (leaf_num_lt hk)]

theorem SameTables.isTable_iff {m m' : Mem} {f : Nat} (h : SameTables root m m') :
    IsTable m' root f ↔ IsTable m root f := by
  constructor
  · rintro ⟨d, q, hd, hq, hf⟩
    exact ⟨d, q, hd, hq, h.tables d q hd hq ▸ hf⟩
  · rintro ⟨d, q, hd, hq, hf⟩
    exact ⟨d, q, hd, hq, (h.tables d q hd hq).trans hf⟩

/-- A well-formed tree stays well formed where its tables stay. -/
theorem TreeOK.sameTables {m m' : Mem} (h : TreeOK m root)
    (htables : ∀ d q, d ≤ 3 → q < 512 ^ d →
      tableAt (child m') root d q = tableAt (child m) root d q) : SameTables root m m' := by
  refine ⟨⟨fun d q u hd hq hu => ?_, fun d e q r u hd he hq hr hu hu' => ?_⟩, htables⟩
  · exact h.aligned d q u hd hq (htables d q hd hq ▸ hu)
  · exact h.inj d e q r u hd he hq hr (htables d q hd hq ▸ hu) (htables e r he hr ▸ hu')

/-- Writing outside the tables changes neither the tables nor a leaf entry. -/
theorem TreeOK.write_outside {m m' : Mem} (h : TreeOK m root)
    (hw : ∀ t, IsTable m root t → ∀ b, InRange t pageSize b → m' b = m b) :
    SameTables root m m' ∧ ∀ n, n < 2 ^ 36 → leafEntry m' root n = leafEntry m root n := by
  have hentry : ∀ t i, IsTable m root t → i < 512 → getEntry m' (t + 8 * i) = getEntry m (t + 8 * i) :=
    fun t i ht hi => getEntry_congr fun b hb => hw t ht b
      (hb.mono (by omega) (by unfold pageSize; omega))
  have hsame : SameTables root m m' := h.sameTables <| tableAt_congr fun d q u i hd hq hu hi => by
    rw [child, child, hentry u i ⟨d, q, Nat.le_of_lt hd, hq, hu⟩ hi]
  refine ⟨hsame, fun n hn => ?_⟩
  cases hs : leafSlot m root n with
  | none => simp [leafEntry, hs, hsame.leafSlot_eq hn]
  | some slot =>
    obtain ⟨t, ht, rfl⟩ := leafSlot_eq_some.1 hs
    rw [leafEntry_of_slot ((hsame.leafSlot_eq hn).trans hs), leafEntry_of_slot hs]
    exact hentry t _ ⟨3, _, Nat.le_refl 3, leaf_num_lt hn, ht⟩ (Nat.mod_lt _ (by omega))

/-- The effect of writing the entry `e` in the leaf slot of the page `n`: the tables stay, and so does
every other leaf entry. -/
structure LeafSet (root n : Nat) (e : PageEntry) (m m' : Mem) : Prop extends SameTables root m m' where
  self : ∀ slot, leafSlot m root n = some slot → getEntry m' slot = e
  other : ∀ k slot, k < 2 ^ 36 → k ≠ n → leafSlot m root k = some slot →
    getEntry m' slot = getEntry m slot

/-- Writing a leaf entry is what `LeafSet` says. -/
theorem TreeOK.leafSet {m : Mem} {n slot : Nat} (h : TreeOK m root) (hn : n < 2 ^ 36)
    (hs : leafSlot m root n = some slot) (e : PageEntry) :
    LeafSet root n e m (setEntry m slot e) := by
  obtain ⟨t, ht, hslot⟩ := leafSlot_eq_some.1 hs
  have hmod : n % 512 < 512 := Nat.mod_lt _ (by omega)
  have hsame : SameTables root m (setEntry m slot e) :=
      h.sameTables <| tableAt_congr fun d q u i hd hq hu hi => by
    have happ := h.apart (Nat.le_of_lt hd) (Nat.le_refl 3) hq (leaf_num_lt hn) hu ht
      fun heq => by have := heq.1; omega
    rw [child, child, getEntry_setEntry_of_apart (by omega)]
  refine ⟨hsame, fun x hx => ?_, fun k x hk hne hx => ?_⟩
  · rw [hs] at hx
    cases hx
    exact getEntry_setEntry_self
  · obtain ⟨u, hu, rfl⟩ := leafSlot_eq_some.1 hx
    have h₁ := h.aligned 3 _ t (Nat.le_refl 3) (leaf_num_lt hn) ht
    have h₂ := h.aligned 3 _ u (Nat.le_refl 3) (leaf_num_lt hk) hu
    have h₃ : u + 8 * (k % 512) ≠ slot := fun heq => hne (h.leafSlot_inj hk hn (heq ▸ hx) hs)
    exact getEntry_setEntry_of_apart (by omega)

/-- Writing a leaf entry changes the leaf entry of its page only. -/
theorem LeafSet.leafEntry_eq {m m' : Mem} {n k slot : Nat} {e : PageEntry} (h : LeafSet root n e m m')
    (hs : leafSlot m root n = some slot) (hk : k < 2 ^ 36) :
    leafEntry m' root k = if k = n then e else leafEntry m root k := by
  split
  · next heq =>
    rw [heq] at hk ⊢
    rw [leafEntry_of_slot ((h.leafSlot_eq hk).trans hs), h.self slot hs]
  · next hne =>
    cases hold : leafSlot m root k with
    | none =>
      have hnew := (h.leafSlot_eq hk).trans hold
      simp [leafEntry, hold, hnew]
    | some x =>
      rw [leafEntry_of_slot ((h.leafSlot_eq hk).trans hold), leafEntry_of_slot hold,
        h.other k x hk hne hold]

/-- Writing a leaf entry keeps the allocator's invariant: the slot lies in a table. -/
theorem FramesFor.setLeaf {all : List Nat} {held : Set Nat} (hf : Frames all) {n slot : Nat}
    (h : FramesFor all root held s) (hT : TreeOK s.mem root) (hn : n < 2 ^ 36)
    (hs : leafSlot s.mem root n = some slot) (e : PageEntry) :
    FramesFor all root held { s with mem := setEntry s.mem slot e } := by
  obtain ⟨out, hinv, hout, hheld⟩ := h
  have hiff := fun f => (hT.leafSet hn hs e).isTable_iff (f := f)
  obtain ⟨t, ht, rfl⟩ := leafSlot_eq_some.1 hs
  have htab : t ∈ out := (hout t).2 (.inr ⟨3, _, Nat.le_refl 3, leaf_num_lt hn, ht⟩)
  refine ⟨out, hinv.write hf fun b hb => setEntry_apply_of_not_mem fun hb' => ?_, fun f => ?_,
    fun f hfh => ?_⟩
  · have h₁ := hb'.1
    have h₂ := hb'.2
    exact hb t htab ⟨by omega, by unfold pageSize; omega⟩
  · rw [hout f, hiff f]
  · rw [hiff f]
    exact hheld f hfh

/-- The walk is injective and framed. With `allocate` set it leaves a well-formed tree, returns the
same slot for two addresses exactly when they lie on one page, keeps every leaf entry that was
reachable and makes only zero entries reachable; it stops only when `MMU_pf_alloc` does. With
`allocate` clear it changes nothing, and returns null exactly when an entry above the leaf on the
path of the address is not present. -/
theorem pageTableGetEntry_framed {P : Phys → Prop} (hP : Supply root P) (hs : P s)
    (hT : TreeOK s.mem root) {v : Nat} (hv : v < 2 ^ 48) :
    (∀ r s', pageTableGetEntry root v true s = .ok (r, s') →
      TreeOK s'.mem root ∧ r ≠ none ∧ r = leafSlot s'.mem root (v / pageSize) ∧
      (∀ w, w < 2 ^ 48 → ∀ r' s'', pageTableGetEntry root w true s' = .ok (r', s'') →
        (r' = r ↔ w / pageSize = v / pageSize)) ∧
      (∀ w, w < 2 ^ 48 → ∀ slot, leafSlot s.mem root (w / pageSize) = some slot →
        leafSlot s'.mem root (w / pageSize) = some slot ∧
          getEntry s'.mem slot = getEntry s.mem slot) ∧
      ∀ w, w < 2 ^ 48 → ∀ slot, leafSlot s.mem root (w / pageSize) = none →
        leafSlot s'.mem root (w / pageSize) = some slot → getEntry s'.mem slot = .zero) ∧
    (∀ e, pageTableGetEntry root v true s = .error e → e = .outOfMemory) ∧
    ∃ r, pageTableGetEntry root v false s = .ok (r, s) ∧
      (r = none ↔ ∃ d l t, d + l = 3 ∧ 0 < l ∧
        tableAt (child s.mem) root d (v / pageSize / 512 ^ (l + 1)) = some t ∧
        (getEntry s.mem (t + 8 * (v / pageSize / 512 ^ l % 512))).present = false) := by
  have hlt : ∀ w, w < 2 ^ 48 → w / pageSize < 2 ^ 36 := fun w hw => pageOf_eq hw ▸ pageOf_lt w
  obtain ⟨hok, herr⟩ := pageTableGetEntry_grown hP hs hT v
  refine ⟨fun r s' h => ?_, fun e h => ?_, _, pageTableGetEntry_lookup root v s, ?_⟩
  · obtain ⟨hPs', hgrow, slot, rfl, hslot⟩ := hok r s' h
    rw [pageOf_eq hv] at hslot
    refine ⟨hgrow.ok, nofun, hslot.symm, fun w hw r' s'' h' => ?_,
      fun w hw slot' => hgrow.leafSlot_old (hlt w hw), fun w hw slot' => hgrow.leafSlot_new (hlt w hw)⟩
    obtain ⟨-, hgrow', slot', rfl, hslot'⟩ :=
      (pageTableGetEntry_grown hP hPs' hgrow.ok w).1 r' s'' h'
    rw [pageOf_eq hw] at hslot'
    have hstay := (hgrow'.leafSlot_old (hlt v hv) hslot).1
    constructor
    · intro heq
      cases heq
      exact hgrow'.ok.leafSlot_inj (hlt w hw) (hlt v hv) hslot' hstay
    · intro heq
      rw [heq, hstay] at hslot'
      exact hslot'.symm
  · obtain ⟨s₁, -, -, -, -, ha, -⟩ := herr e h
    exact mmuPfAlloc_error ha
  · rw [pageOf_eq hv]
    exact leafSlot_eq_none_iff

/-- A walk from an empty table at `0x1000`, with four frames left: it takes three of them. -/
theorem pageTableGetEntry_framed_empty :
    let s : Phys := ⟨fun _ => 0, 0, [⟨0x1000, 0x6000, 0x2000⟩]⟩
    ∃ s', pageTableGetEntry 0x1000 0x8000201000 true s = .ok (some 0x4008, s') ∧
      TreeOK s'.mem 0x1000 ∧ some 0x4008 = leafSlot s'.mem 0x1000 (0x8000201000 / pageSize) := by
  intro s
  have hok : RegionsOK [⟨0x1000, 0x6000, 0x1000⟩] := by
    refine ⟨fun r hr => ?_, List.pairwise_singleton .., by decide⟩
    rw [List.mem_singleton.1 hr]
    constructor <;> decide
  have hinv : FrameInv (allPages [⟨0x1000, 0x6000, 0x1000⟩]) s [0x1000] :=
    (hok.frameInv fun _ => 0).alloc rfl
  have hblank : ∀ i, i < 512 → child s.mem (0x1000 + 8 * i) = none := fun i _ => by
    simp [child, s, getEntry_zero, PageEntry.zero]
  have hs : FramesFor (allPages [⟨0x1000, 0x6000, 0x1000⟩]) 0x1000 ∅ s := by
    refine ⟨[0x1000], hinv, fun f => ⟨fun hf => .inr ⟨0, 0, by omega, by omega, ?_⟩, ?_⟩, nofun⟩
    · rw [List.mem_singleton.1 hf]
      rfl
    · rintro (hf | ⟨d, q, -, -, hf⟩)
      · cases hf
      · rw [(tableAt_blank hblank d q f hf).2]
        exact .head _
  have hP := framesFor_supply hok.frames (by decide) 0x1000 ∅
  have hrun : ((pageTableGetEntry 0x1000 0x8000201000 true s).toOption.map Prod.fst) =
      some (some 0x4008) := by decide +kernel
  have hframed := pageTableGetEntry_framed hP hs (separate_blank rfl hblank)
    (show 0x8000201000 < 2 ^ 48 by omega)
  cases h : pageTableGetEntry 0x1000 0x8000201000 true s with
  | error e => simp [h, Except.toOption] at hrun
  | ok x =>
    obtain ⟨r, s'⟩ := x
    obtain rfl : r = some 0x4008 := by simpa [h, Except.toOption] using hrun
    obtain ⟨hT, -, hslot, -⟩ := hframed.1 _ _ h
    exact ⟨s', rfl, hT, hslot⟩

end

end BanjOS
