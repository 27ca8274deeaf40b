import BanjOS.Lib.Encoding
import BanjOS.MultibootTags.Regions

/-!
# Parsing the multiboot tags

The loop of `multiboot_tags_parse_to_mem_regions` (`multiboot_tags.c`) over the tags in memory, and the encoding
that it inverts. A tag gives its own size, and the next one starts at the next multiple of 8, whatever the type.
Of the memory-map tags and of the ELF tags the last one counts; a memory map whose entries are not those of
`struct TagMemMapEntry` stops the kernel (`tagLoop_encoded`).
-/

namespace BanjOS

open ByteMem

/-! ## The code -/

/-- `struct TagMemMapEntry` with its reserved bytes. -/
structure MemMapRecord extends TagMemMapEntry where
  reserved : Nat
  deriving DecidableEq

/-- All of `struct TagELFEntry`. -/
structure ElfRecord extends TagELFEntry where
  sectionName : Nat
  flags : Nat
  segmentOffset : Nat
  tableIndexLink : Nat
  extraInfo : Nat
  addressAlignment : Nat
  fixedEntrySizeIff : Nat
  deriving DecidableEq

/-- The `struct TagMemMapEntry` at an address. -/
def memMapRecordAt (m : Mem) (a : Nat) : MemMapRecord where
  startingAddr := loadLE m a 8
  length := loadLE m (a + 8) 8
  type := loadLE m (a + 16) 4
  reserved := loadLE m (a + 20) 4

/-- The `struct TagELFEntry` at an address. -/
def elfRecordAt (m : Mem) (a : Nat) : ElfRecord where
  sectionName := loadLE m a 4
  sectionType := loadLE m (a + 4) 4
  flags := loadLE m (a + 8) 8
  segmentAddress := loadLE m (a + 16) 8
  segmentOffset := loadLE m (a + 24) 8
  segmentSize := loadLE m (a + 32) 8
  tableIndexLink := loadLE m (a + 40) 4
  extraInfo := loadLE m (a + 44) 4
  addressAlignment := loadLE m (a + 48) 8
  fixedEntrySizeIff := loadLE m (a + 56) 8

/-- `struct TagMemMapEntries` and `struct TagElfEntries`: the address of the first entry and the number of them. -/
structure TagEntries where
  d : Nat
  size : Nat
  deriving DecidableEq

/-- The entries that `mem_entries` stands for. -/
def TagEntries.memMap (m : Mem) (e : TagEntries) : List MemMapRecord := arrayAt (memMapRecordAt m) 24 e.d e.size

/-- The entries that `elf_entries` stands for. -/
def TagEntries.elf (m : Mem) (e : TagEntries) : List ElfRecord := arrayAt (elfRecordAt m) 64 e.d e.size

/-- `is_tags_terminator`. -/
def isTagsTerminator (m : Mem) (tag : Nat) : Bool := loadLE m tag 4 == 0 && loadLE m (tag + 4) 4 == 8

/-- The variables of the loop. -/
structure TagLoop where
  curtag : Nat
  memEntries : TagEntries
  elfEntries : TagEntries
  deriving DecidableEq

/-- What the body of the loop does with the current tag. -/
def visitTag (m : Mem) (st : TagLoop) : Except Stop TagLoop :=
  let type := loadLE m st.curtag 4
  let size := loadLE m (st.curtag + 4) 4
  if type = 6 then
    let entrySize := loadLE m (st.curtag + 8) 4
    if entrySize = 24 then
      .ok { st with memEntries := ⟨st.curtag + 16, (size + (2 ^ 64 - 16)) % 2 ^ 64 / entrySize⟩ }
    else .error (.assertion "memheader->entry_size == sizeof(struct TagMemMapEntry) && \"Entry size must map entry struct size\"")
  else if type = 9 then .ok { st with elfEntries := ⟨st.curtag + 20, loadLE m (st.curtag + 8) 4⟩ }
  else .ok st

/-- The address of the tag after one with a size. -/
def nextTag (tag size : Nat) : Nat := alignPointer ((tag + size) % 2 ^ 64) 8 true

/-- The loop of `multiboot_tags_parse_to_mem_regions`, for at most `fuel` tests: the variables at the terminator, or
`none` if it needs more. -/
def tagLoop (m : Mem) : (fuel : Nat) → TagLoop → Option (Except Stop TagLoop)
  | 0, _ => none
  | fuel + 1, st =>
    if isTagsTerminator m st.curtag then some (.ok st)
    else match visitTag m st with
      | .error e => some (.error e)
      | .ok st => tagLoop m fuel { st with curtag := nextTag st.curtag (loadLE m (st.curtag + 4) 4) }

/-- `multiboot_tags_parse_to_mem_regions`, with the tags at `multiboot_tag_addr`. The two tables are not
initialised. -/
def multibootTagsParseToMemRegions (m : Mem) (fuel multibootTagAddr : Nat) (memEntries elfEntries : TagEntries) :
    Option (Except Stop (List MemRegion)) :=
  (tagLoop m fuel ⟨multibootTagAddr + 8, memEntries, elfEntries⟩).map fun res => do
    let st ← res
    buildMemRegions ((st.memEntries.memMap m).map MemMapRecord.toTagMemMapEntry)
      ((st.elfEntries.elf m).map ElfRecord.toTagELFEntry) []

/-! ## The encoding -/

/-- The bytes of an entry of the memory map. -/
def MemMapRecord.encode (e : MemMapRecord) : List UInt8 :=
  leBytes 8 e.startingAddr ++ leBytes 8 e.length ++ leBytes 4 e.type ++ leBytes 4 e.reserved

/-- The bytes of a section header. -/
def ElfRecord.encode (e : ElfRecord) : List UInt8 :=
  leBytes 4 e.sectionName ++ leBytes 4 e.sectionType ++ leBytes 8 e.flags ++ leBytes 8 e.segmentAddress ++
    leBytes 8 e.segmentOffset ++ leBytes 8 e.segmentSize ++ leBytes 4 e.tableIndexLink ++ leBytes 4 e.extraInfo ++
    leBytes 8 e.addressAlignment ++ leBytes 8 e.fixedEntrySizeIff

/-- The fields fit their widths. -/
structure MemMapRecord.Fits (e : MemMapRecord) : Prop where
  startingAddr : e.startingAddr < 256 ^ 8
  length : e.length < 256 ^ 8
  type : e.type < 256 ^ 4
  reserved : e.reserved < 256 ^ 4

/-- The fields fit their widths. -/
structure ElfRecord.Fits (e : ElfRecord) : Prop where
  sectionName : e.sectionName < 256 ^ 4
  sectionType : e.sectionType < 256 ^ 4
  flags : e.flags < 256 ^ 8
  segmentAddress : e.segmentAddress < 256 ^ 8
  segmentOffset : e.segmentOffset < 256 ^ 8
  segmentSize : e.segmentSize < 256 ^ 8
  tableIndexLink : e.tableIndexLink < 256 ^ 4
  extraInfo : e.extraInfo < 256 ^ 4
  addressAlignment : e.addressAlignment < 256 ^ 8
  fixedEntrySizeIff : e.fixedEntrySizeIff < 256 ^ 8

/-- A multiboot tag. -/
inductive Tag
  /-- A memory map. -/
  | memMap (entryVersion : Nat) (entries : List MemMapRecord)
  /-- A memory map whose entries do not have 24 bytes. -/
  | memMapOf (entrySize entryVersion : Nat) (entries : List UInt8)
  /-- The ELF sections. -/
  | elf (stringTableIndex : Nat) (entries : List ElfRecord)
  /-- ELF sections whose entries do not have 64 bytes. -/
  | elfOf (numEntries entrySize stringTableIndex : Nat) (entries : List UInt8)
  /-- Any other tag. -/
  | other (type : Nat) (body : List UInt8)

namespace Tag

/-- The `type` of a tag. -/
def type : Tag → Nat
  | memMap .. | memMapOf .. => 6
  | elf .. | elfOf .. => 9
  | other type _ => type

/-- What follows the `type` and the `size` of a tag. -/
def body : Tag → List UInt8
  | memMap entryVersion entries => leBytes 4 24 ++ leBytes 4 entryVersion ++ entries.flatMap MemMapRecord.encode
  | memMapOf entrySize entryVersion entries => leBytes 4 entrySize ++ leBytes 4 entryVersion ++ entries
  | elf stringTableIndex entries =>
    leBytes 4 entries.length ++ leBytes 4 64 ++ leBytes 4 stringTableIndex ++ entries.flatMap ElfRecord.encode
  | elfOf numEntries entrySize stringTableIndex entries =>
    leBytes 4 numEntries ++ leBytes 4 entrySize ++ leBytes 4 stringTableIndex ++ entries
  | other _ body => body

/-- The `size` of a tag. -/
def size (t : Tag) : Nat := 8 + t.body.length

/-- The bytes of a tag. -/
def encode (t : Tag) : List UInt8 := leBytes 4 t.type ++ leBytes 4 t.size ++ t.body

/-- The tag is one: its numbers fit their fields, and it is what its constructor says. -/
def WF (t : Tag) : Prop :=
  t.size < 256 ^ 4 ∧ match t with
    | memMap _ entries => ∀ e ∈ entries, e.Fits
    | memMapOf entrySize _ _ => entrySize < 256 ^ 4 ∧ entrySize ≠ 24
    | elf _ entries => ∀ e ∈ entries, e.Fits
    | elfOf numEntries entrySize _ _ => numEntries < 256 ^ 4 ∧ entrySize < 256 ^ 4 ∧ entrySize ≠ 64
    | other type body => type < 256 ^ 4 ∧ type ≠ 6 ∧ type ≠ 9 ∧ ¬ (type = 0 ∧ body = [])

/-- The bytes that a tag takes up, with those up to the next multiple of 8. -/
def paddedSize (t : Tag) : Nat := (t.size + 7) / 8 * 8

end Tag

/-- The address of the terminator after the tags. -/
def terminatorAt (a : Nat) (tags : List Tag) : Nat := a + (tags.map Tag.paddedSize).sum

/-- The tags are laid out from the address `a` on, with whatever padding, and followed by the terminator. -/
def TagsLaidOut (m : Mem) : (a : Nat) → List Tag → Prop
  | a, [] => BytesAt m a (leBytes 4 0 ++ leBytes 4 8)
  | a, t :: tags => BytesAt m a t.encode ∧ TagsLaidOut m (a + t.paddedSize) tags

/-- The entries of the last memory-map tag so far, if they have 24 bytes. -/
def Tag.memMapOr (last : Option (List MemMapRecord)) : Tag → Option (List MemMapRecord)
  | memMap _ entries => some entries
  | memMapOf .. => none
  | _ => last

/-- The entries of the last ELF tag so far, if they have 64 bytes. -/
def Tag.elfOr (last : Option (List ElfRecord)) : Tag → Option (List ElfRecord)
  | elf _ entries => some entries
  | elfOf .. => none
  | _ => last

/-- The entries of the last memory-map tag, if they have 24 bytes. -/
def lastMemMap (tags : List Tag) : Option (List MemMapRecord) := tags.foldl Tag.memMapOr none

/-- The entries of the last ELF tag, if they have 64 bytes. -/
def lastElf (tags : List Tag) : Option (List ElfRecord) := tags.foldl Tag.elfOr none

/-! ## One tag -/

@[simp] theorem MemMapRecord.length_encode (e : MemMapRecord) : e.encode.length = 24 := by simp [encode]

@[simp] theorem ElfRecord.length_encode (e : ElfRecord) : e.encode.length = 64 := by simp [encode]

section
variable {m : Mem} {a : Nat}

/-- An entry of the memory map is read back. -/
theorem memMapRecordAt_encode {e : MemMapRecord} (hfits : e.Fits) (h : BytesAt m a e.encode) :
    memMapRecordAt m a = e := by
  simp only [MemMapRecord.encode, bytesAt_append, List.length_append, length_leBytes] at h
  obtain ⟨⟨⟨haddr, hlength⟩, htype⟩, hreserved⟩ := h
  rw [memMapRecordAt, haddr.loadLE_of_lt hfits.startingAddr, hlength.loadLE_of_lt hfits.length,
    htype.loadLE_of_lt hfits.type, hreserved.loadLE_of_lt hfits.reserved]

/-- A section header is read back. -/
theorem elfRecordAt_encode {e : ElfRecord} (hfits : e.Fits) (h : BytesAt m a e.encode) : elfRecordAt m a = e := by
  simp only [ElfRecord.encode, bytesAt_append, List.length_append, length_leBytes] at h
  obtain ⟨⟨⟨⟨⟨⟨⟨⟨⟨hname, htype⟩, hflags⟩, haddr⟩, hoff⟩, hsize⟩, hlink⟩, hinfo⟩, halign⟩, hentry⟩ := h
  rw [elfRecordAt, hname.loadLE_of_lt hfits.sectionName, htype.loadLE_of_lt hfits.sectionType,
    hflags.loadLE_of_lt hfits.flags, haddr.loadLE_of_lt hfits.segmentAddress, hoff.loadLE_of_lt hfits.segmentOffset,
    hsize.loadLE_of_lt hfits.segmentSize, hlink.loadLE_of_lt hfits.tableIndexLink,
    hinfo.loadLE_of_lt hfits.extraInfo, halign.loadLE_of_lt hfits.addressAlignment,
    hentry.loadLE_of_lt hfits.fixedEntrySizeIff]

/-- The header of a tag that stands at `a`. -/
structure TagAt (m : Mem) (a : Nat) (t : Tag) : Prop where
  type_eq : loadLE m a 4 = t.type
  size_eq : loadLE m (a + 4) 4 = t.size
  body : BytesAt m (a + 8) t.body

theorem Tag.WF.type_lt {t : Tag} (h : t.WF) : t.type < 256 ^ 4 := by
  cases t with
  | other => exact h.2.1
  | _ => simp [Tag.type]

theorem Tag.WF.tagAt {t : Tag} (hwf : t.WF) (h : BytesAt m a t.encode) : TagAt m a t := by
  simp only [Tag.encode, bytesAt_append, List.length_append, length_leBytes] at h
  obtain ⟨⟨htype, hsize⟩, hbody⟩ := h
  exact ⟨htype.loadLE_of_lt hwf.type_lt, hsize.loadLE_of_lt hwf.1, hbody⟩

/-- A tag is not taken for the terminator. -/
theorem Tag.WF.isTagsTerminator {t : Tag} (hwf : t.WF) (h : TagAt m a t) : isTagsTerminator m a = false := by
  rw [BanjOS.isTagsTerminator, h.type_eq, h.size_eq]
  cases t with
  | other type body =>
    obtain ⟨-, -, -, -, hne⟩ := hwf
    simp only [Tag.type, Tag.size, Tag.body, Bool.and_eq_false_iff, beq_eq_false_iff_ne]
    by_cases htype : type = 0
    · refine .inr fun hlen => hne ⟨htype, List.length_eq_zero_iff.1 (by omega)⟩
    · exact .inl htype
  | _ => rfl

/-- The terminator is found. -/
theorem isTagsTerminator_of_bytesAt (h : BytesAt m a (leBytes 4 0 ++ leBytes 4 8)) : isTagsTerminator m a = true := by
  obtain ⟨htype, hsize⟩ := bytesAt_append.1 h
  rw [isTagsTerminator, htype.loadLE_of_lt (by decide)]
  rw [length_leBytes] at hsize
  rw [hsize.loadLE_of_lt (by decide)]
  rfl

/-- The next tag starts after the padding. -/
theorem nextTag_eq {t : Tag} (hal : a % 8 = 0) (hfit : a + t.paddedSize < 2 ^ 64) :
    nextTag a t.size = a + t.paddedSize := by
  simp only [Tag.paddedSize] at hfit ⊢
  simp only [nextTag, alignPointer, if_true]
  split <;> omega

/-- The variables stand for the entries of the last tags so far. -/
structure TagLoop.Reads (m : Mem) (mem : Option (List MemMapRecord)) (elf : Option (List ElfRecord)) (st : TagLoop) :
    Prop where
  mem_eq : ∀ es, mem = some es → st.memEntries.memMap m = es
  elf_eq : ∀ es, elf = some es → st.elfEntries.elf m = es

/-- The body of the loop: it remembers the entries of a memory-map tag and of an ELF tag. -/
theorem visitTag_spec {t : Tag} {st : TagLoop} {mem : Option (List MemMapRecord)} {elf : Option (List ElfRecord)}
    (hwf : t.WF) (h24 : ∀ entrySize entryVersion entries, t ≠ .memMapOf entrySize entryVersion entries)
    (h : TagAt m st.curtag t) (hst : st.Reads m mem elf) :
    ∃ st', visitTag m st = .ok st' ∧ st'.curtag = st.curtag ∧ st'.Reads m (t.memMapOr mem) (t.elfOr elf) := by
  have htype := h.type_eq
  have hbody := h.body
  cases t with
  | memMap entryVersion entries =>
    simp only [Tag.body, bytesAt_append, length_leBytes, List.length_append] at hbody
    obtain ⟨⟨hentry, -⟩, hentries⟩ := hbody
    have hsize : loadLE m (st.curtag + 4) 4 = 16 + 24 * entries.length := by
      rw [h.size_eq, Tag.size, Tag.body, List.length_append, length_flatMap_of_width MemMapRecord.length_encode]
      simp only [List.length_append, length_leBytes]
      omega
    have hcount : (16 + 24 * entries.length + (2 ^ 64 - 16)) % 2 ^ 64 / 24 = entries.length := by
      have hlt := hwf.1
      rw [← h.size_eq, hsize] at hlt
      omega
    refine ⟨{ st with memEntries := ⟨st.curtag + 16, entries.length⟩ }, ?_, rfl, ?_, hst.elf_eq⟩
    · simp only [visitTag, htype, Tag.type, hentry.loadLE_of_lt (show 24 < 256 ^ 4 by decide), hsize, hcount, if_true]
    · rintro es ⟨⟩
      exact hentries.arrayAt_eq MemMapRecord.length_encode fun e he _ => memMapRecordAt_encode (hwf.2 e he)
  | memMapOf => exact absurd rfl (h24 _ _ _)
  | elf stringTableIndex entries =>
    simp only [Tag.body, bytesAt_append, length_leBytes, List.length_append] at hbody
    obtain ⟨⟨⟨hcount, -⟩, -⟩, hentries⟩ := hbody
    have hlt : entries.length < 256 ^ 4 := by
      have hsize := hwf.1
      rw [Tag.size, Tag.body, List.length_append, length_flatMap_of_width ElfRecord.length_encode] at hsize
      omega
    refine ⟨{ st with elfEntries := ⟨st.curtag + 20, entries.length⟩ }, ?_, rfl, hst.mem_eq, ?_⟩
    · simp [visitTag, htype, Tag.type, hcount.loadLE_of_lt hlt]
    · rintro es ⟨⟩
      exact hentries.arrayAt_eq ElfRecord.length_encode fun e he _ => elfRecordAt_encode (hwf.2 e he)
  | elfOf =>
    refine ⟨{ st with elfEntries := ⟨st.curtag + 20, loadLE m (st.curtag + 8) 4⟩ }, ?_, rfl, hst.mem_eq, ?_⟩
    · simp [visitTag, htype, Tag.type]
    · rintro es ⟨⟩
  | other type body =>
    obtain ⟨-, -, h6, h9, -⟩ := hwf
    refine ⟨st, ?_, rfl, hst⟩
    rw [visitTag, htype]
    exact (if_neg h6).trans (if_neg h9)

end

/-! ## All tags -/

section
variable {m : Mem} {tags : List Tag} {fuel : Nat}

/-- The loop over the tags that are left. -/
theorem tagLoop_run {st : TagLoop} {mem : Option (List MemMapRecord)} {elf : Option (List ElfRecord)}
    (hwf : ∀ t ∈ tags, t.WF)
    (h24 : ∀ t ∈ tags, ∀ entrySize entryVersion entries, t ≠ .memMapOf entrySize entryVersion entries)
    (hal : st.curtag % 8 = 0) (hfit : terminatorAt st.curtag tags + 8 ≤ 2 ^ 64) (hlaid : TagsLaidOut m st.curtag tags)
    (hst : st.Reads m mem elf) (hfuel : tags.length < fuel) :
    ∃ st', tagLoop m fuel st = some (.ok st') ∧ st'.curtag = terminatorAt st.curtag tags ∧
      isTagsTerminator m st'.curtag = true ∧
      st'.Reads m (tags.foldl Tag.memMapOr mem) (tags.foldl Tag.elfOr elf) := by
  induction tags generalizing st mem elf fuel with
  | nil =>
    obtain ⟨fuel, rfl⟩ : ∃ f, fuel = f + 1 := ⟨fuel - 1, by omega⟩
    have hend : isTagsTerminator m st.curtag = true := isTagsTerminator_of_bytesAt hlaid
    exact ⟨st, by rw [tagLoop, if_pos hend], rfl, hend, hst⟩
  | cons t tags ih =>
    obtain ⟨fuel, rfl⟩ : ∃ f, fuel = f + 1 := ⟨fuel - 1, by omega⟩
    have hterm : terminatorAt st.curtag (t :: tags) = terminatorAt (st.curtag + t.paddedSize) tags := by
      rw [terminatorAt, terminatorAt, List.map_cons, List.sum_cons, Nat.add_assoc]
    have hle : st.curtag + t.paddedSize ≤ terminatorAt (st.curtag + t.paddedSize) tags := Nat.le_add_right ..
    rw [hterm] at hfit
    have ht := hwf t (.head tags)
    have htag : TagAt m st.curtag t := ht.tagAt hlaid.1
    obtain ⟨st₁, hvisit, hcur, hreads⟩ := visitTag_spec ht (h24 t (.head tags)) htag hst
    have hnext : nextTag st₁.curtag (loadLE m (st₁.curtag + 4) 4) = st.curtag + t.paddedSize := by
      rw [hcur, htag.size_eq]
      exact nextTag_eq hal (by omega)
    have hal₁ : (st.curtag + t.paddedSize) % 8 = 0 := by
      simp only [Tag.paddedSize]
      omega
    have hst₁ : TagLoop.Reads m (t.memMapOr mem) (t.elfOr elf) { st₁ with curtag := st.curtag + t.paddedSize } :=
      ⟨hreads.mem_eq, hreads.elf_eq⟩
    have hfuel₁ : tags.length < fuel := Nat.lt_of_succ_lt_succ hfuel
    obtain ⟨st₂, hloop, hcur₂, hend, hreads₂⟩ := ih (fun t ht => hwf t (.tail _ ht))
      (fun t ht => h24 t (.tail _ ht)) hal₁ hfit hlaid.2 hst₁ hfuel₁
    refine ⟨st₂, ?_, hterm ▸ hcur₂, hend, hreads₂⟩
    rw [tagLoop, if_neg (by rw [ht.isTagsTerminator htag]; decide), hvisit]
    simp only [hnext]
    exact hloop

end

/-- For every list of multiboot tags that is laid out from a multiple of 8 on, whose memory maps all have entries of
24 bytes and whose last ELF tag has entries of 64 bytes: the loop ends at the terminator, and the two tables, which
are not initialised, are the entries of the last memory map and of the last ELF tag. The regions are then built
from these. -/
theorem tagLoop_encoded {m : Mem} {multibootTagAddr fuel : Nat} {tags : List Tag} {mem₀ elf₀ : TagEntries}
    {mem : List MemMapRecord} {elf : List ElfRecord} (hwf : ∀ t ∈ tags, t.WF)
    (h24 : ∀ t ∈ tags, ∀ entrySize entryVersion entries, t ≠ .memMapOf entrySize entryVersion entries)
    (hal : multibootTagAddr % 8 = 0) (hfit : terminatorAt (multibootTagAddr + 8) tags + 8 ≤ 2 ^ 64)
    (hlaid : TagsLaidOut m (multibootTagAddr + 8) tags) (hmem : lastMemMap tags = some mem)
    (helf : lastElf tags = some elf) (hfuel : tags.length < fuel) :
    (∃ st, tagLoop m fuel ⟨multibootTagAddr + 8, mem₀, elf₀⟩ = some (.ok st) ∧
      st.curtag = terminatorAt (multibootTagAddr + 8) tags ∧ isTagsTerminator m st.curtag = true ∧
      st.memEntries.memMap m = mem ∧ st.elfEntries.elf m = elf) ∧
    multibootTagsParseToMemRegions m fuel multibootTagAddr mem₀ elf₀ =
      some (buildMemRegions (mem.map MemMapRecord.toTagMemMapEntry) (elf.map ElfRecord.toTagELFEntry) []) := by
  have hst : TagLoop.Reads m none none ⟨multibootTagAddr + 8, mem₀, elf₀⟩ := ⟨nofun, nofun⟩
  obtain ⟨st, hloop, hcur, hend, hreads⟩ := tagLoop_run hwf h24 (by simpa using hal) hfit hlaid hst hfuel
  have hmem' := hreads.mem_eq mem hmem
  have helf' := hreads.elf_eq elf helf
  refine ⟨⟨st, hloop, hcur, hend, hmem', helf'⟩, ?_⟩
  rw [multibootTagsParseToMemRegions, hloop, Option.map_some, Except.ok_bind, hmem', helf']

/-- The tags as they are laid out with zeros between them. -/
def encodeTags : List Tag → List UInt8
  | [] => leBytes 4 0 ++ leBytes 4 8
  | t :: tags => t.encode ++ List.replicate (t.paddedSize - t.size) 0 ++ encodeTags tags

/-- A memory with the tags at the address 16. -/
def tagMem (tags : List Tag) : Mem := memOf (List.replicate 16 0 ++ encodeTags tags)

instance decidableTagsLaidOut (m : Mem) : (a : Nat) → (tags : List Tag) → Decidable (TagsLaidOut m a tags)
  | a, [] => decidableBytesAt m a _
  | a, t :: tags => @instDecidableAnd _ _ (decidableBytesAt m a _) (decidableTagsLaidOut m (a + t.paddedSize) tags)

/-- A section of the kernel. -/
def someSection : ElfRecord := ⟨⟨1, 0x100000, 0x5000⟩, 0, 0, 0, 0, 0, 0, 0⟩

/-- Usable memory. -/
def someMemMap : List MemMapRecord := [⟨⟨0, 0x9FC00, 1⟩, 0⟩, ⟨⟨0x100000, 0x7EE0000, 1⟩, 0⟩]

/-- A boot loader's name, an empty memory map, ELF sections and another memory map. -/
def someTags : List Tag :=
  [.other 2 [0x67, 0x72, 0x75, 0x62, 0], .memMap 0 [], .elf 0 [someSection], .memMap 0 someMemMap]

theorem wf_someTags : ∀ t ∈ someTags, t.WF := by
  intro t ht
  simp only [someTags, List.mem_cons, List.not_mem_nil, or_false] at ht
  rcases ht with rfl | rfl | rfl | rfl
  · exact ⟨by decide, by decide⟩
  · exact ⟨by decide, fun e he => absurd he List.not_mem_nil⟩
  · refine ⟨by decide, fun e he => ?_⟩
    obtain rfl := List.mem_singleton.1 he
    constructor <;> decide
  · refine ⟨by decide, fun e he => ?_⟩
    simp only [someMemMap, List.mem_cons, List.not_mem_nil, or_false] at he
    rcases he with rfl | rfl <;> constructor <;> decide

/-- The last memory map is the one that is read. -/
theorem tagLoop_encoded_someTags : ∃ st, tagLoop (tagMem someTags) 5 ⟨16, ⟨0, 0⟩, ⟨0, 0⟩⟩ = some (.ok st) ∧
    st.memEntries.memMap (tagMem someTags) = someMemMap ∧ st.elfEntries.elf (tagMem someTags) = [someSection] := by
  obtain ⟨⟨st, hloop, -, -, hmem, helf⟩, -⟩ := @tagLoop_encoded (tagMem someTags) 8 5 someTags ⟨0, 0⟩ ⟨0, 0⟩ _ _
    wf_someTags (by simp [someTags]) (by decide) (by decide) (by decide +kernel) rfl rfl (by decide)
  exact ⟨st, hloop, hmem, helf⟩

/-- A memory map with entries of 32 bytes before one with entries of 24 bytes. -/
def tagsWithOtherMemMap : List Tag := [.memMapOf 32 0 (List.replicate 32 0), .elf 0 [someSection], .memMap 0 []]

/-- An ELF tag with entries of 40 bytes after one with entries of 64 bytes. -/
def tagsWithOtherElf : List Tag := [.memMap 0 [], .elf 0 [someSection], .elfOf 1 40 0 (List.replicate 40 0)]

/-- The first one stops the kernel, and the ELF entries of the second one reach past the last tag. -/
theorem tagLoop_other_entries :
    (TagsLaidOut (tagMem tagsWithOtherMemMap) 16 tagsWithOtherMemMap ∧
      ∀ st, tagLoop (tagMem tagsWithOtherMemMap) 4 ⟨16, ⟨0, 0⟩, ⟨0, 0⟩⟩ ≠ some (.ok st)) ∧
    TagsLaidOut (tagMem tagsWithOtherElf) 16 tagsWithOtherElf ∧
      ∃ st, tagLoop (tagMem tagsWithOtherElf) 4 ⟨16, ⟨0, 0⟩, ⟨0, 0⟩⟩ = some (.ok st) ∧
        terminatorAt 16 tagsWithOtherElf + 8 < st.elfEntries.d + 64 * st.elfEntries.size := by
  refine ⟨⟨by decide +kernel, fun st hst => ?_⟩, by decide +kernel, ?_⟩
  · have hstop : (tagLoop (tagMem tagsWithOtherMemMap) 4 ⟨16, ⟨0, 0⟩, ⟨0, 0⟩⟩).any Except.isOk = false := by
      decide +kernel
    rw [hst] at hstop
    cases hstop
  · have hpast : (tagLoop (tagMem tagsWithOtherElf) 4 ⟨16, ⟨0, 0⟩, ⟨0, 0⟩⟩).any (fun r => r.toOption.any fun st =>
        decide (terminatorAt 16 tagsWithOtherElf + 8 < st.elfEntries.d + 64 * st.elfEntries.size)) = true := by
      decide +kernel
    obtain ⟨r, hloop, hr⟩ := (Option.any_eq_true _ _).1 hpast
    obtain ⟨st, hst, hlt⟩ := (Option.any_eq_true _ _).1 hr
    cases r with
    | error e => cases hst
    | ok st' =>
      cases hst
      exact ⟨st, hloop, of_decide_eq_true hlt⟩

end BanjOS
