import BanjOS.Isr.Handler
import BanjOS.Lib.Descriptors

/-!
# The descriptor tables

`GDT_setup` (`gdt.c`) and what `IRQ_init` (`interrupts.c`) writes for the processor: the task state segment, its
descriptor and the 256 interrupt gates. Through these tables a processor that is given a vector comes to the stub of that
vector, in the kernel's code segment and on the stack that the interrupt path (`enterGate`) takes it to have
(`irqInit_delivers`), whatever was in memory before.

The interrupt stack table holds the lowest addresses of the four critical stacks, while a stack grows downwards: nothing
that is pushed on the way to `irq_handler` is inside one of the arrays, whose bytes stay as they are
(`criticalStack_unused`).
-/

namespace BanjOS

open ByteMem BitFields X86

/-! ## The tables -/

/-- `GDT_SIZE`: the number of words in the global table. -/
abbrev gdtSize : Nat := 8

/-- `IDT_MAX_DESCRIPTORS`. -/
abbrev idtMaxDescriptors : Nat := 256

/-- `sizeof(struct TaskStateSegment)`. -/
abbrev sizeofTss : Nat := 104

/-- `CRITICAL_STACK_SIZE`. -/
abbrev criticalStackSize : Nat := 4096

/-- Where the linker puts the tables, the listing and the critical stacks. -/
structure TableEnv where
  text : Word
  dfStack : Word
  pfStack : Word
  gpStack : Word
  exStack : Word
  gdt : Nat
  idt : Nat
  tss : Nat
  gdt_idt : gdt + 8 * gdtSize ≤ idt ∨ idt + 16 * idtMaxDescriptors ≤ gdt
  gdt_tss : gdt + 8 * gdtSize ≤ tss ∨ tss + sizeofTss ≤ gdt
  idt_tss : idt + 16 * idtMaxDescriptors ≤ tss ∨ tss + sizeofTss ≤ idt
  tss_lt : tss + sizeofTss ≤ 2 ^ 64

/-- The tables in memory, the variables of `gdt.c`, and the registers that the processor has been given. -/
structure Tables where
  mem : Mem
  top : Nat
  kernelDescOffset : Nat
  gdtr : TableReg
  idtr : TableReg
  tr : TableReg

/-- `GDT_push_dq`: the offset of the word, and the tables with it. -/
def gdtPushDq (T : TableEnv) (data : Nat) (s : Tables) : Nat × Tables :=
  (8 * s.top, { s with mem := store64 s.mem (T.gdt + 8 * s.top) data, top := s.top + 1 })

/-- `GDT_push`. -/
def gdtPush (T : TableEnv) (data : List Nat) (s : Tables) : Nat × Tables :=
  (8 * s.top, data.foldl (fun s d => (gdtPushDq T d s).2) s)

/-- `GDT_load`. -/
def gdtLoad (T : TableEnv) (s : Tables) : Tables := { s with gdtr := ⟨(8 * s.top + (2 ^ 16 - 1)) % 2 ^ 16, T.gdt⟩ }

/-- `DESCRIPTOR_FLAG_USER_SEGMENT | DESCRIPTOR_FLAG_PRESENT | DESCRIPTOR_FLAG_EXECUTABLE | DESCRIPTOR_FLAG_LONG_MODE`. -/
def kernelDescriptor : Nat := 1 <<< 44 ||| 1 <<< 47 ||| 1 <<< 43 ||| 1 <<< 53

/-- `GDT_setup`. -/
def gdtSetup (T : TableEnv) (s : Tables) : Tables :=
  let (_, s) := gdtPushDq T 0 s
  let (offset, s) := gdtPushDq T kernelDescriptor s
  gdtLoad T { s with kernelDescOffset := offset }

/-- The fields of `struct TaskStateSegmentDescriptor`, as `tss_set_descriptor` sets them. -/
def tssFields (base : Nat) : List (Nat × Nat) :=
  [ (16, sizeofTss - 1), -- limit_low
    (24, base % 2 ^ 24), -- base_low
    (4, 0x9), -- type
    (1, 0), -- zero
    (2, 0), -- privilege
    (1, 1), -- present
    (4, 0), -- limit_mid
    (1, 0), -- available
    (2, 0), -- ignored
    (1, 0), -- granularity
    (8, base / 2 ^ 24 % 2 ^ 8), -- base_mid
    (32, base / 2 ^ 32 % 2 ^ 32), -- base_high
    (32, 0) ] -- reserved

/-- `tss_set_descriptor`. -/
def tssSetDescriptor (T : TableEnv) : Nat := pack (tssFields T.tss)

/-- `tss.interrupt_stack_table[i - 1]`. -/
def interruptStackTable (T : TableEnv) (i : Nat) : Nat := T.tss + 36 + 8 * (i - 1)

/-- `IRQ_init_tss`, up to `ltr`, and the offset that `ltr` is given. -/
def irqInitTss (T : TableEnv) (s : Tables) : Nat × Tables :=
  let mem := fill s.mem T.tss sizeofTss 0
  let mem := store64 mem (interruptStackTable T 1) T.dfStack.toNat
  let mem := store64 mem (interruptStackTable T 2) T.pfStack.toNat
  let mem := store64 mem (interruptStackTable T 3) T.gpStack.toNat
  let mem := store64 mem (interruptStackTable T 4) T.exStack.toNat
  let d := tssSetDescriptor T
  let (offset, s) := gdtPush T [d % 2 ^ 64, d / 2 ^ 64] { s with mem }
  (offset, gdtLoad T s)

/-- The fields of `struct IdtEntry`, as `idt_set_descriptor` sets them. -/
def idtFields (kernelDescOffset isr ist : Nat) : List (Nat × Nat) :=
  [ (16, isr % 2 ^ 16), -- isr_low
    (16, kernelDescOffset), -- kernel_cs
    (3, ist), -- ist
    (5, 0), -- reserved1
    (4, 0xE), -- type
    (1, 0), -- zero
    (2, 0), -- dpl
    (1, 1), -- present
    (16, isr / 2 ^ 16 % 2 ^ 16), -- isr_mid
    (32, isr / 2 ^ 32 % 2 ^ 32), -- isr_high
    (32, 0) ] -- reserved2

/-- `idt_set_descriptor`. -/
def idtSetDescriptor (kernelDescOffset isr ist : Nat) : Nat := pack (idtFields kernelDescOffset isr ist)

/-- `isr_stub_table[i]`. -/
def isrStubTable (T : TableEnv) (i : Nat) : Nat :=
  ((isrProgram T.text).addr (isrTarget (.isrStub ⟨i % 256, Nat.mod_lt i (by decide)⟩))).toNat

/-- The stack index that the loop of `IRQ_init` gives to a vector. -/
def istIndex (i : Nat) : Nat :=
  match i with
  | 0x8 => 1
  | 0xE => 2
  | 0xD => 3
  | 0x81 => 4
  | _ => 0

/-- The tables that `IRQ_init` writes and loads; `none` is a fault at `ltr`. -/
def irqInitTables (T : TableEnv) (s : Tables) : Option Tables := do
  let (offset, s) := irqInitTss T s
  let (mem, tr) ← ltr s.mem s.gdtr (offset % 2 ^ 16)
  let gate i := idtSetDescriptor s.kernelDescOffset (isrStubTable T i) (istIndex i)
  let limit := (16 * idtMaxDescriptors - 1) % 2 ^ 16
  return { s with mem := storeTable mem T.idt gate idtMaxDescriptors, tr, idtr := ⟨limit, T.idt⟩ }

/-- The variables as the image has them, with the memory and the registers that the boot code leaves. -/
def Tables.start (mem : Mem) (gdtr idtr tr : TableReg) : Tables := ⟨mem, 0, 0, gdtr, idtr, tr⟩

/-- What the interrupt path is told about the tables. -/
def Tables.isrEnv (T : TableEnv) (s : Tables) : IsrEnv :=
  ⟨T.text, BitVec.ofNat 16 s.kernelDescOffset, T.dfStack, T.pfStack, T.gpStack, T.exStack⟩

/-! ## The fields -/

section
variable {isr ist k base : Nat}

/-- The fields of a gate that the processor reads. -/
theorem idtSetDescriptor_fields (hisr : isr < 2 ^ 64) (hist : ist < 8) (hk : k < 2 ^ 16) :
    IsInterruptGate (idtSetDescriptor k isr ist) ∧ field (idtSetDescriptor k isr ist) 16 16 = k ∧
      field (idtSetDescriptor k isr ist) 32 3 = ist ∧
      field (idtSetDescriptor k isr ist) 0 16 + 2 ^ 16 * field (idtSetDescriptor k isr ist) 48 16 +
        2 ^ 32 * field (idtSetDescriptor k isr ist) 64 32 = isr := by
  rw [idtSetDescriptor]
  have hlow : field (pack (idtFields k isr ist)) 0 16 = _ := field_pack [] _ 16 _ rfl rfl
  have hcs : field (pack (idtFields k isr ist)) 16 16 = _ := field_pack [_] _ 16 _ rfl rfl
  have hist' : field (pack (idtFields k isr ist)) 32 3 = _ := field_pack [_, _] _ 3 _ rfl rfl
  have htype : field (pack (idtFields k isr ist)) 40 4 = _ := field_pack [_, _, _, _] _ 4 _ rfl rfl
  have hzero : field (pack (idtFields k isr ist)) 44 1 = _ := field_pack [_, _, _, _, _] _ 1 _ rfl rfl
  have hpresent : field (pack (idtFields k isr ist)) 47 1 = _ := field_pack [_, _, _, _, _, _, _] _ 1 _ rfl rfl
  have hmid : field (pack (idtFields k isr ist)) 48 16 = _ := field_pack [_, _, _, _, _, _, _, _] _ 16 _ rfl rfl
  have hhigh : field (pack (idtFields k isr ist)) 64 32 = _ :=
    field_pack [_, _, _, _, _, _, _, _, _] _ 32 _ rfl rfl
  refine ⟨⟨htype, hzero, hpresent⟩, ?_, ?_, ?_⟩
  · rw [hcs, Nat.mod_eq_of_lt hk]
  · rw [hist']
    exact Nat.mod_eq_of_lt hist
  · rw [hlow, hmid, hhigh]
    omega

/-- The descriptor of the task state segment is one that `ltr` takes, and says where the segment is. -/
theorem tssSetDescriptor_fields (T : TableEnv) :
    IsAvailableTss (tssSetDescriptor T) ∧ tssOf (tssSetDescriptor T) = ⟨sizeofTss - 1, T.tss⟩ := by
  rw [tssSetDescriptor]
  have hlt := T.tss_lt
  have hlimit : field (pack (tssFields T.tss)) 0 16 = _ := field_pack [] _ 16 _ rfl rfl
  have hlow : field (pack (tssFields T.tss)) 16 24 = _ := field_pack [_] _ 24 _ rfl rfl
  have htype : field (pack (tssFields T.tss)) 40 4 = _ := field_pack [_, _] _ 4 _ rfl rfl
  have hzero : field (pack (tssFields T.tss)) 44 1 = _ := field_pack [_, _, _] _ 1 _ rfl rfl
  have hpresent : field (pack (tssFields T.tss)) 47 1 = _ := field_pack [_, _, _, _, _] _ 1 _ rfl rfl
  have hlimit' : field (pack (tssFields T.tss)) 48 4 = _ := field_pack [_, _, _, _, _, _] _ 4 _ rfl rfl
  have hgranularity : field (pack (tssFields T.tss)) 55 1 = _ := field_pack [_, _, _, _, _, _, _, _, _] _ 1 _ rfl rfl
  have hmid : field (pack (tssFields T.tss)) 56 8 = _ := field_pack [_, _, _, _, _, _, _, _, _, _] _ 8 _ rfl rfl
  have hhigh : field (pack (tssFields T.tss)) 64 32 = _ := field_pack [_, _, _, _, _, _, _, _, _, _, _] _ 32 _ rfl rfl
  refine ⟨⟨htype, hzero, hpresent⟩, ?_⟩
  rw [tssOf, hlimit, hlimit', hgranularity, hlow, hmid, hhigh]
  simp only [sizeofTss] at hlt ⊢
  congr 1
  omega

theorem tssSetDescriptor_lt (T : TableEnv) : tssSetDescriptor T < 2 ^ 128 := pack_lt _

end

/-! ## What is in memory -/

/-- The stack that the interrupt stack table has for an index. -/
def criticalStack (T : TableEnv) (i : Nat) : Word :=
  match i with
  | 1 => T.dfStack
  | 2 => T.pfStack
  | 3 => T.gpStack
  | _ => T.exStack

theorem istIndex_le (i : Nat) : istIndex i ≤ 4 := by
  unfold istIndex
  split <;> decide

/-- The stack of a vector, as the interrupt path has it, is that of its index. -/
theorem istStack_isrEnv (T : TableEnv) (s : Tables) (v : Fin 256) :
    (s.isrEnv T).istStack v = if istIndex v = 0 then none else some (criticalStack T (istIndex v)) := by
  rw [IsrEnv.istStack]
  split
  case isTrue h =>
    subst h
    rfl
  split
  case isTrue h =>
    subst h
    rfl
  split
  case isTrue h =>
    subst h
    rfl
  split
  case isTrue h =>
    subst h
    rfl
  case isFalse hdf hpf hgp hex =>
    have hzero : istIndex v = 0 := by
      unfold istIndex
      split
      · exact absurd (Fin.ext ‹_›) hdf
      · exact absurd (Fin.ext ‹_›) hpf
      · exact absurd (Fin.ext ‹_›) hgp
      · exact absurd (Fin.ext ‹_›) hex
      · rfl
    rw [if_pos hzero]

/-- The words that the processor reads, before the task register is loaded. -/
structure Tables.BeforeLtr (T : TableEnv) (s : Tables) : Prop where
  kernelDescOffset : s.kernelDescOffset = 8
  gdtr : s.gdtr = ⟨31, T.gdt⟩
  code : load64 s.mem (T.gdt + 8) = kernelDescriptor
  tss : loadLE s.mem (T.gdt + 16) 16 = tssSetDescriptor T
  stack : ∀ i, 1 ≤ i → i ≤ 4 → load64 s.mem (interruptStackTable T i) = (criticalStack T i).toNat

/-- The task state segment of `IRQ_init_tss`. -/
def storeStacks (T : TableEnv) (m : Mem) : Mem :=
  store64 (store64 (store64 (store64 (fill m T.tss sizeofTss 0) (interruptStackTable T 1) T.dfStack.toNat)
    (interruptStackTable T 2) T.pfStack.toNat) (interruptStackTable T 3) T.gpStack.toNat)
    (interruptStackTable T 4) T.exStack.toNat

theorem load64_storeStacks (T : TableEnv) (m : Mem) {i : Nat} (hi : 1 ≤ i) (hi' : i ≤ 4) :
    load64 (storeStacks T m) (interruptStackTable T i) = (criticalStack T i).toNat := by
  have hapart (j k : Nat) (h : j < k) : interruptStackTable T (j + 1) + 8 ≤ interruptStackTable T (k + 1) := by
    simp only [interruptStackTable]
    omega
  rw [storeStacks]
  obtain rfl | rfl | rfl | rfl : i = 1 ∨ i = 2 ∨ i = 3 ∨ i = 4 := by omega
  · rw [load64_store64_of_apart (.inr (hapart 0 3 (by decide))), load64_store64_of_apart (.inr (hapart 0 2 (by decide))),
      load64_store64_of_apart (.inr (hapart 0 1 (by decide))), load64_store64_of_lt _ _ T.dfStack.isLt]
    rfl
  · rw [load64_store64_of_apart (.inr (hapart 1 3 (by decide))), load64_store64_of_apart (.inr (hapart 1 2 (by decide))),
      load64_store64_of_lt _ _ T.pfStack.isLt]
    rfl
  · rw [load64_store64_of_apart (.inr (hapart 2 3 (by decide))), load64_store64_of_lt _ _ T.gpStack.isLt]
    rfl
  · rw [load64_store64_of_lt _ _ T.exStack.isLt]
    rfl

theorem load64_storeStacks_of_apart {T : TableEnv} {m : Mem} {b : Nat}
    (h : T.tss + sizeofTss ≤ b ∨ b + 8 ≤ T.tss) : load64 (storeStacks T m) b = load64 m b := by
  have hin {i : Nat} (hi : 1 ≤ i) (hi' : i ≤ 4) : interruptStackTable T i + 8 ≤ b ∨ b + 8 ≤ interruptStackTable T i := by
    simp only [interruptStackTable, sizeofTss] at h ⊢
    omega
  rw [storeStacks, load64_store64_of_apart (hin (by decide) (by decide)),
    load64_store64_of_apart (hin (by decide) (by decide)), load64_store64_of_apart (hin (by decide) (by decide)),
    load64_store64_of_apart (hin (by decide) (by decide)), load64_fill_of_apart h]

/-- `GDT_setup` and `IRQ_init_tss`, whatever was in memory before. -/
theorem beforeLtr_irqInitTss (T : TableEnv) {s : Tables} (htop : s.top = 0) :
    (irqInitTss T (gdtSetup T s)).1 = 16 ∧ (irqInitTss T (gdtSetup T s)).2.BeforeLtr T := by
  have hgt := T.gdt_tss
  have hlt := tssSetDescriptor_lt T
  simp only [gdtSize, sizeofTss] at hgt
  have hmem : (irqInitTss T (gdtSetup T s)).2.mem =
      store64 (store64 (storeStacks T (store64 (store64 s.mem T.gdt 0) (T.gdt + 8) kernelDescriptor))
        (T.gdt + 16) (tssSetDescriptor T % 2 ^ 64)) (T.gdt + 24) (tssSetDescriptor T / 2 ^ 64) := by
    simp only [irqInitTss, gdtSetup, gdtPush, gdtPushDq, gdtLoad, htop, List.foldl_cons, List.foldl_nil]
    rfl
  have hkernel : kernelDescriptor < 2 ^ 64 := by decide
  refine ⟨?_, ⟨?_, ?_, ?_, ?_, fun i hi hi' => ?_⟩⟩
  · simp only [irqInitTss, gdtSetup, gdtPush, gdtPushDq, gdtLoad, htop]
  · simp only [irqInitTss, gdtSetup, gdtPush, gdtPushDq, gdtLoad, htop, List.foldl_cons, List.foldl_nil]
  · simp only [irqInitTss, gdtSetup, gdtPush, gdtPushDq, gdtLoad, htop, List.foldl_cons, List.foldl_nil]
    rfl
  · rw [hmem, load64_store64_of_apart (by omega), load64_store64_of_apart (by omega),
      load64_storeStacks_of_apart (by simp only [sizeofTss]; omega), load64_store64_of_lt _ _ hkernel]
  · rw [hmem, loadLE_sixteen, load64_store64_of_apart (by omega), load64_store64_of_lt _ _ (by omega),
      show T.gdt + 16 + 8 = T.gdt + 24 from rfl, load64_store64_of_lt _ _ (by omega)]
    omega
  · have hout : T.gdt + 8 * 4 ≤ interruptStackTable T i ∨ interruptStackTable T i + 8 ≤ T.gdt := by
      simp only [interruptStackTable]
      omega
    rw [hmem, load64_store64_of_apart (by omega), load64_store64_of_apart (by omega), load64_storeStacks T _ hi hi']

/-- The tables that are loaded. -/
structure Tables.Loaded (T : TableEnv) (s : Tables) : Prop where
  kernelDescOffset : s.kernelDescOffset = 8
  gdtr : s.gdtr = ⟨31, T.gdt⟩
  idtr : s.idtr = ⟨4095, T.idt⟩
  tr : s.tr = ⟨103, T.tss⟩
  code : load64 s.mem (T.gdt + 8) = kernelDescriptor
  stack : ∀ i, 1 ≤ i → i ≤ 4 → load64 s.mem (interruptStackTable T i) = (criticalStack T i).toNat
  gate : ∀ v < 256, loadLE s.mem (T.idt + 16 * v) 16 = idtSetDescriptor 8 (isrStubTable T v) (istIndex v)

theorem loaded_irqInitTables (T : TableEnv) {s : Tables} (htop : s.top = 0) :
    ∃ s', irqInitTables T (gdtSetup T s) = some s' ∧ s'.Loaded T := by
  have hgt := T.gdt_tss
  have hgi := T.gdt_idt
  have hit := T.idt_tss
  simp only [gdtSize, sizeofTss, idtMaxDescriptors] at hgt hgi hit
  rcases beforeLtr_irqInitTss T htop with ⟨hoffset, h⟩
  rcases tssSetDescriptor_fields T with ⟨havail, htss⟩
  rw [irqInitTables]
  generalize irqInitTss T (gdtSetup T s) = r at hoffset h
  rcases r with ⟨offset, s₁⟩
  dsimp only at hoffset h ⊢
  have hsel : Selects s₁.gdtr (offset % 2 ^ 16) 16 := by
    rw [h.gdtr, hoffset]
    exact ⟨by decide, by decide, show 8 * field 16 3 13 + 16 ≤ 31 + 1 by decide⟩
  have haddr : s₁.gdtr.descriptor (offset % 2 ^ 16) = T.gdt + 16 := by
    rw [h.gdtr, hoffset]
    rfl
  have hltr : ltr s₁.mem s₁.gdtr (offset % 2 ^ 16) =
      some (storeLE s₁.mem (T.gdt + 16) 16 (tssSetDescriptor T + 2 ^ 41), ⟨103, T.tss⟩) := by
    rw [ltr, haddr, h.tss]
    exact (if_pos ⟨hsel, havail⟩).trans (by rw [htss]; rfl)
  rw [hltr]
  refine ⟨_, rfl, ⟨h.kernelDescOffset, h.gdtr, rfl, rfl, ?_, fun i hi hi' => ?_, fun v hv => ?_⟩⟩
  · rw [load64_storeTable_of_apart (by rw [idtMaxDescriptors]; omega), load64_storeLE_of_apart (by omega), h.code]
  · have hin : T.tss + 36 ≤ interruptStackTable T i ∧ interruptStackTable T i + 8 ≤ T.tss + 104 := by
      simp only [interruptStackTable]
      omega
    rw [load64_storeTable_of_apart (by rw [idtMaxDescriptors]; omega), load64_storeLE_of_apart (by omega), h.stack i hi hi']
  · rw [loadLE_storeTable hv, h.kernelDescOffset]
    exact Nat.mod_eq_of_lt (pack_lt _)

/-! ## The way to the stub -/

section
variable {T : TableEnv} {s : Tables} (m : Cpu) (v : Fin 256) (e : Word)

theorem isrStubTable_lt (T : TableEnv) (i : Nat) : isrStubTable T i < 2 ^ 64 := by
  rw [isrStubTable]
  exact BitVec.isLt _

/-- The gate of a vector has the address of the stub, as the interrupt path has it. -/
theorem rip_interrupt : (interrupt (s.isrEnv T) m v e).rip.toNat = isrStubTable T v := by
  have hv : (⟨(v : Nat) % 256, Nat.mod_lt _ (by decide)⟩ : Fin 256) = v := Fin.ext (Nat.mod_eq_of_lt v.isLt)
  rw [isrStubTable, hv]
  rfl

theorem cs_interrupt (hs : s.Loaded T) : ((interrupt (s.isrEnv T) m v e).seg .cs).toNat = 8 := by
  have hseg : (interrupt (s.isrEnv T) m v e).seg .cs = (s.isrEnv T).kernelCs := by
    simp only [interrupt, Program.goto, Machine.pushes_seg, enterGate, Function.update_self]
  rw [hseg, Tables.isrEnv, hs.kernelDescOffset]
  rfl

/-- The processor selects the stack that the interrupt path has for the vector. -/
theorem gateStack_eq (hs : s.Loaded T) : gateStack s.mem s.tr (istIndex v) (m.reg .rsp).toNat =
    some (((s.isrEnv T).istStack v).getD (m.reg .rsp)).toNat := by
  have hle := istIndex_le v
  rw [gateStack, istStack_isrEnv, hs.tr]
  split
  case isTrue h => rfl
  case isFalse h =>
    have hpos : 1 ≤ istIndex v := Nat.one_le_iff_ne_zero.2 h
    have haddr : T.tss + 8 * istIndex v + 28 = interruptStackTable T (istIndex v) := by
      rw [interruptStackTable]
      omega
    rw [if_pos (show 8 * istIndex v + 36 ≤ 103 + 1 by omega), haddr, hs.stack _ hpos hle]
    rfl

/-- Through the tables that are loaded, the processor goes to the stub. -/
theorem Tables.Loaded.deliver_eq (hs : s.Loaded T) : deliver s.mem s.gdtr s.idtr s.tr (m.reg .rsp).toNat v =
    some ⟨((interrupt (s.isrEnv T) m v e).seg .cs).toNat, (interrupt (s.isrEnv T) m v e).rip.toNat,
      ((enterGate (s.isrEnv T) m v).reg .rsp).toNat⟩ := by
  have hv := v.isLt
  have hist : istIndex v < 8 := (istIndex_le v).trans_lt (by decide)
  rcases idtSetDescriptor_fields (isrStubTable_lt T v) hist (show 8 < 2 ^ 16 by decide) with ⟨hgate, hcs, hix, hrip⟩
  have hsel : Selects s.gdtr 8 8 := by
    rw [hs.gdtr]
    exact ⟨by decide, by decide, show 8 * field 8 3 13 + 8 ≤ 31 + 1 by decide⟩
  have hcode : IsKernelCode (load64 s.mem (s.gdtr.descriptor 8)) := by
    have haddr : s.gdtr.descriptor 8 = T.gdt + 8 := by
      rw [hs.gdtr]
      rfl
    rw [haddr, hs.code]
    decide
  have hlimit : 16 * v.val + 16 ≤ s.idtr.limit + 1 := by
    rw [hs.idtr]
    change 16 * v.val + 16 ≤ 4095 + 1
    omega
  have hg : loadLE s.mem (s.idtr.base + 16 * v) 16 = idtSetDescriptor 8 (isrStubTable T v) (istIndex v) := by
    rw [hs.idtr]
    exact hs.gate v hv
  rw [deliver, hg, hcs, hix, hrip, if_pos ⟨hlimit, hgate, hsel, hcode⟩, gateStack_eq m v hs, cs_interrupt m v e hs, rip_interrupt,
    enterGate_rsp, toNat_and_not_15]
  rfl

end

/-- After `GDT_setup` and `IRQ_init`, whatever was in memory and in the registers before, the processor goes for every vector
to the stub of the vector, in the kernel's code segment and on the stack that the interrupt path has for it. -/
theorem irqInit_delivers (T : TableEnv) (mem : Mem) (gdtr idtr tr : TableReg) : ∃ s,
    irqInitTables T (gdtSetup T (Tables.start mem gdtr idtr tr)) = some s ∧ ∀ (m : Cpu) (v : Fin 256) (e : Word),
      deliver s.mem s.gdtr s.idtr s.tr (m.reg .rsp).toNat v =
        some ⟨((interrupt (s.isrEnv T) m v e).seg .cs).toNat, (interrupt (s.isrEnv T) m v e).rip.toNat,
          ((enterGate (s.isrEnv T) m v).reg .rsp).toNat⟩ := by
  rcases loaded_irqInitTables T (s := Tables.start mem gdtr idtr tr) rfl with ⟨s, hrun, hs⟩
  exact ⟨s, hrun, fun m v e => hs.deliver_eq m v e⟩

/-! ## The critical stacks -/

/-- The word at `a` has a byte in the array of the critical stack at `sp`. -/
def InCriticalStack (sp a : Word) : Prop :=
  ∃ i j, i < 8 ∧ j < criticalStackSize ∧ a + BitVec.ofNat 64 i = sp + BitVec.ofNat 64 j

/-- On the way from a vector that has a critical stack to `irq_handler` and in it, nothing is pushed into the array of the
stack: when the handler is entered, the array holds what it held when the interrupt came; and wherever below the frame the
stack grows to, it does not come to the array. -/
theorem criticalStack_unused (T : TableEnv) (s : Tables) (callee : IsrCall → Cpu → Cpu) {m c : Cpu} {v : Fin 256}
    {e sp : Word} (hist : (s.isrEnv T).istStack v = some sp) (h : EntersHandler (s.isrEnv T) callee m v e c) :
    (∀ a, InCriticalStack sp a → c.mem a = m.mem a) ∧
    ∀ k j, k < 2 ^ 63 → j < criticalStackSize → c.reg .rsp + 112#64 - BitVec.ofNat 64 k ≠ sp + BitVec.ofNat 64 j := by
  rcases exec_isrStub (s.isrEnv T) callee m v e with ⟨s₁, hexec, hat⟩
  have hc : c = handlerEntry (s.isrEnv T) s₁ := h.eq hexec
  have halign := toNat_and_not_15 sp
  have hrsp := hat.rsp
  have hmem := hat.mem
  rw [enterGate_rsp_of_ist _ _ _ hist] at hrsp hmem
  generalize sp &&& ~~~15#64 = top at halign hrsp hmem
  refine ⟨fun a ⟨i, j, hi, hj, ha⟩ => ?_, fun k j hk hj => ?_⟩
  · -- the words of the frame, of the registers and of the return address are all below the array
    have hbelow (n : Nat) (hn : n < 15) : top - BitVec.ofNat 64 (8 * (n + 1)) ≠ a := by
      simp only [criticalStackSize] at hj
      bv_omega
    have hret : s₁.reg .rsp - 8#64 = top - BitVec.ofNat 64 (8 * (14 + 1)) := by bv_omega
    calc c.mem a = s₁.mem a := by rw [hc]; exact Function.update_of_ne (hret ▸ (hbelow 14 (by decide)).symm) ..
      _ = m.mem a := hmem a hbelow
  · rw [hc, handlerEntry_rsp, hrsp]
    simp only [criticalStackSize] at hj
    bv_omega

/-- An image at 1 MiB. -/
def imageTables : TableEnv where
  text := 0x100000
  dfStack := 0x110000
  pfStack := 0x111000
  gpStack := 0x112000
  exStack := 0x113008
  gdt := 0x114000
  idt := 0x115000
  tss := 0x116000
  gdt_idt := .inl (by decide)
  gdt_tss := .inl (by decide)
  idt_tss := .inl (by decide)
  tss_lt := by decide

/-- A double fault: the array holds the zeros that were there, and the frame is not in it. -/
theorem criticalStack_unused_df : ∃ c,
    EntersHandler ((Tables.start (fun _ => 0) ⟨0, 0⟩ ⟨0, 0⟩ ⟨0, 0⟩).isrEnv imageTables) (fun _ c => c)
      ⟨fun _ => 0, fun _ => 8, 0, 0, fun _ => 0, fun _ => 0⟩ 8 0 c ∧
    c.mem 0x110000 = 0 ∧ c.reg .rsp + 112#64 - BitVec.ofNat 64 112 ≠ 0x110000 + BitVec.ofNat 64 0 := by
  rcases exec_isrStub ((Tables.start (fun _ => 0) ⟨0, 0⟩ ⟨0, 0⟩ ⟨0, 0⟩).isrEnv imageTables) (fun _ c => c)
    ⟨fun _ => 0, fun _ => 8, 0, 0, fun _ => 0, fun _ => 0⟩ 8 0 with ⟨s, hexec, -⟩
  have henter := hexec.trans (exec_call _ (fun _ c => c) s)
  have hunused := criticalStack_unused imageTables _ (fun _ c => c) rfl ⟨_, henter⟩
  exact ⟨_, ⟨_, henter⟩, hunused.1 _ ⟨0, 0, by decide, by decide, rfl⟩, hunused.2 _ _ (by decide) (by decide)⟩

end BanjOS
