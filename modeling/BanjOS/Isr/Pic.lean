import BanjOS.Lib.I8259
import BanjOS.Lib.Run

/-!
# The interrupt controllers

`PIC_remap`, `IRQ_set_mask`, `IRQ_clear_mask` (`interrupts.c`) and `PIC_sendEOI` (`interrupts.h`) on the pair of 8259A
chips. Whatever state the chips are in, `PIC_remap` leaves the lines 0 to 15 on the vectors from `offset` on, all masked
(`picRemap_remapped`), and the mask calls after it change nothing but the line they are for.
-/

namespace BanjOS

/-! ## Ports -/

/-- `PIC1_COMMAND`. -/
abbrev pic1Command : UInt16 := 0x20

/-- `PIC1_DATA`. -/
abbrev pic1Data : UInt16 := 0x21

/-- `PIC2_COMMAND`. -/
abbrev pic2Command : UInt16 := 0xA0

/-- `PIC2_DATA`. -/
abbrev pic2Data : UInt16 := 0xA1

/-- `PIC_EOI`. -/
abbrev picEoi : UInt8 := 0x20

/-- `outb` to one of the ports of the controllers. -/
def picOutb (port : UInt16) (v : UInt8) (p : I8259Pair) : I8259Pair :=
  if port = pic1Command then { p with master := p.master.writeCommand v }
  else if port = pic1Data then { p with master := p.master.writeData v }
  else if port = pic2Command then { p with slave := p.slave.writeCommand v }
  else if port = pic2Data then { p with slave := p.slave.writeData v }
  else p

/-- `inb` from a data port: the mask. -/
def picInb (port : UInt16) (p : I8259Pair) : UInt8 := if port = pic1Data then p.master.imr else p.slave.imr

/-! ## Calls -/

/-- `PIC_remap`. -/
def picRemap (offset : UInt8) (p : I8259Pair) : I8259Pair :=
  let p := picOutb pic1Command (0x10 ||| 0x01) p
  let p := picOutb pic2Command (0x10 ||| 0x01) p
  let p := picOutb pic1Data offset p
  let p := picOutb pic2Data (offset + 8) p
  let p := picOutb pic1Data 4 p
  let p := picOutb pic2Data 2 p
  let p := picOutb pic1Data 0x01 p
  let p := picOutb pic2Data 0x01 p
  let p := picOutb pic1Data 0xFF p
  picOutb pic2Data 0xFF p

/-- `PIC_sendEOI`. -/
def picSendEoi (irq : UInt8) (p : I8259Pair) : I8259Pair :=
  let p := if 8 ≤ irq then picOutb pic2Command picEoi p else p
  picOutb pic1Command picEoi p

/-- The data port of a line, and its number there. -/
def picPort (line : UInt8) : UInt16 × UInt8 := if line < 8 then (pic1Data, line) else (pic2Data, line - 8)

/-- `IRQ_set_mask`. -/
def irqSetMask (line : UInt8) (p : I8259Pair) : I8259Pair :=
  let (port, line) := picPort line
  let value := picInb port p ||| UInt8.ofNat (1 <<< line.toNat)
  picOutb port value p

/-- `IRQ_clear_mask`. -/
def irqClearMask (line : UInt8) (p : I8259Pair) : I8259Pair :=
  let (port, line) := picPort line
  let value := picInb port p &&& ~~~UInt8.ofNat (1 <<< line.toNat)
  picOutb port value p

/-! ## Lines -/

/-- `enum IRQLine`. -/
abbrev IrqLine := Fin 16

/-- The line that the slave is on. -/
abbrev irq2 : IrqLine := ⟨2, by decide⟩

/-- The input of a line at its chip. -/
def irqInput (n : IrqLine) : Fin 8 := ⟨n.val % 8, Nat.mod_lt _ (by decide)⟩

/-- The chip of a line. -/
def irqChip (p : I8259Pair) (n : IrqLine) : I8259 := if n.val < 8 then p.master else p.slave

/-- The line is masked at its chip. -/
def irqMasked (p : I8259Pair) (n : IrqLine) : Bool := I8259.bit (irqChip p n).imr (irqInput n)

/-- The pair is as `PIC_remap(offset)` sets it up: both chips in 8086 mode with ends of interrupts by hand, and the slave
on the input 2 of the master. -/
structure Remapped (offset : UInt8) (p : I8259Pair) : Prop where
  master : p.master.expects = .ocw1 ∧ p.master.vectorBase = offset ∧ p.master.cascade = 4 ∧ p.master.mode = 1
  slave : p.slave.expects = .ocw1 ∧ p.slave.vectorBase = offset + 8 ∧ p.slave.cascade = 2 ∧ p.slave.mode = 1

/-- From any state of the chips, also in the middle of an initialization, `PIC_remap` sets them up, with all lines masked
and nothing requested or in service. -/
theorem picRemap_remapped {offset : UInt8} (hoff : offset &&& 0xF8 = offset) (hoff' : (offset + 8) &&& 0xF8 = offset + 8)
    (p : I8259Pair) : Remapped offset (picRemap offset p) ∧ (∀ n, irqMasked (picRemap offset p) n = true) ∧
      ∀ k, (picRemap offset p).master.irr k = false ∧ (picRemap offset p).master.isr k = false ∧
        (picRemap offset p).slave.irr k = false ∧ (picRemap offset p).slave.isr k = false := by
  have hrun : picRemap offset p = ⟨⟨.ocw1, false, true, offset &&& 0xF8, 4, 1, 0xFF, fun _ => false, fun _ => false⟩,
      ⟨.ocw1, false, true, (offset + 8) &&& 0xF8, 2, 1, 0xFF, fun _ => false, fun _ => false⟩⟩ := rfl
  rw [hrun, hoff, hoff']
  refine ⟨⟨⟨rfl, rfl, rfl, rfl⟩, rfl, rfl, rfl, rfl⟩, fun n => ?_, fun k => ⟨rfl, rfl, rfl, rfl⟩⟩
  unfold irqMasked irqChip
  split <;> exact (show ∀ k, I8259.bit 0xFF k = true by decide) _

/-! ## Masks -/

section
variable {offset : UInt8} {p : I8259Pair}

theorem bit_or (v : UInt8) (k j : Fin 8) :
    I8259.bit (v ||| UInt8.ofNat (1 <<< k.val)) j = (I8259.bit v j || decide (j = k)) := by
  have hone : ∀ k j : Fin 8, (UInt8.ofNat (1 <<< k.val)).toNat.testBit j = decide (j = k) := by decide
  rw [I8259.bit, UInt8.toNat_or, Nat.testBit_or, hone, I8259.bit]

theorem bit_and_not (v : UInt8) (k j : Fin 8) :
    I8259.bit (v &&& ~~~UInt8.ofNat (1 <<< k.val)) j = (I8259.bit v j && !decide (j = k)) := by
  have hone : ∀ k j : Fin 8, (~~~UInt8.ofNat (1 <<< k.val)).toNat.testBit j = !decide (j = k) := by decide
  rw [I8259.bit, UInt8.toNat_and, Nat.testBit_and, hone, I8259.bit]

/-- A line is named by its chip and its input there. -/
theorem irqLine_ext {n m : IrqLine} (hchip : n.val < 8 ↔ m.val < 8) (hinput : irqInput n = irqInput m) : n = m := by
  have hval := congrArg Fin.val hinput
  unfold irqInput at hval
  dsimp only at hval
  exact Fin.ext (by omega)

/-- The port of a line and its number there. -/
theorem picPort_line (n : IrqLine) : picPort (UInt8.ofNat n) =
    (if n.val < 8 then pic1Data else pic2Data, UInt8.ofNat (irqInput n)) := by
  revert n
  decide

/-- Writing the mask of the chip of a line changes this chip's mask. -/
theorem picOutb_mask (h : Remapped offset p) (n : IrqLine) (v : UInt8) :
    picOutb (if n.val < 8 then pic1Data else pic2Data) v p =
      if n.val < 8 then { p with master := { p.master with imr := v } }
      else { p with slave := { p.slave with imr := v } } := by
  split
  · show { p with master := p.master.writeData v } = _
    rw [I8259.writeData_mask h.master.1]
  · show { p with slave := p.slave.writeData v } = _
    rw [I8259.writeData_mask h.slave.1]

/-- The mask of the chip of a line is what is read at its port. -/
theorem picInb_line (n : IrqLine) : picInb (if n.val < 8 then pic1Data else pic2Data) p = (irqChip p n).imr := by
  unfold irqChip
  split <;> rfl

/-- What a write of a mask leaves as it was. -/
structure SameButMasks (p p' : I8259Pair) : Prop where
  master : p'.master = { p.master with imr := p'.master.imr }
  slave : p'.slave = { p.slave with imr := p'.slave.imr }

theorem SameButMasks.remapped {p' : I8259Pair} (hs : SameButMasks p p') (h : Remapped offset p) : Remapped offset p' := by
  refine ⟨?_, ?_⟩
  · rw [hs.master]
    exact h.master
  · rw [hs.slave]
    exact h.slave

/-- A call that writes `f` of the mask of a line's chip, where `f` changes the bit of the line only. -/
theorem irqMask_call (h : Remapped offset p) (n : IrqLine) {v : UInt8} {b : Bool}
    (hv : ∀ j, I8259.bit v j = if j = irqInput n then b else I8259.bit (irqChip p n).imr j) :
    SameButMasks p (picOutb (if n.val < 8 then pic1Data else pic2Data) v p) ∧
      ∀ m, irqMasked (picOutb (if n.val < 8 then pic1Data else pic2Data) v p) m =
        if m = n then b else irqMasked p m := by
  rw [picOutb_mask h]
  refine ⟨by split <;> exact ⟨rfl, rfl⟩, fun m => ?_⟩
  rcases Decidable.em (n.val < 8 ↔ m.val < 8) with hsame | hother
  · have hnew : irqMasked (if n.val < 8 then { p with master := { p.master with imr := v } }
        else { p with slave := { p.slave with imr := v } }) m = I8259.bit v (irqInput m) := by
      unfold irqMasked irqChip
      rcases Decidable.em (n.val < 8) with hn | hn
      · rw [if_pos hn, if_pos (hsame.1 hn)]
      · rw [if_neg hn, if_neg fun hm => hn (hsame.2 hm)]
    have hchip : irqChip p n = irqChip p m := by
      unfold irqChip
      simp only [hsame]
    rw [hnew, hv, hchip]
    rcases Decidable.em (m = n) with rfl | hne
    · rw [if_pos rfl, if_pos rfl]
    · rw [if_neg hne, if_neg fun hin => hne (irqLine_ext hsame.symm hin)]
      rfl
  · have hne : m ≠ n := fun heq => hother (by rw [heq])
    rw [if_neg hne]
    unfold irqMasked irqChip
    rcases Decidable.em (n.val < 8) with hn | hn
    · have hm : ¬ m.val < 8 := fun hm => hother ⟨fun _ => hm, fun _ => hn⟩
      rw [if_pos hn, if_neg hm, if_neg hm]
    · have hm : m.val < 8 := Classical.not_not.1 fun hm => hother ⟨fun h => absurd h hn, fun h => absurd h hm⟩
      rw [if_neg hn, if_pos hm, if_pos hm]

/-- The shift of the masks. -/
theorem toNat_irqInput (n : IrqLine) : (UInt8.ofNat (irqInput n)).toNat = (irqInput n).val :=
  Nat.mod_eq_of_lt ((irqInput n).isLt.trans (by decide))

/-- `IRQ_set_mask` masks its line and changes no other. -/
theorem irqSetMask_spec (h : Remapped offset p) (n : IrqLine) : SameButMasks p (irqSetMask (UInt8.ofNat n) p) ∧
    ∀ m, irqMasked (irqSetMask (UInt8.ofNat n) p) m = if m = n then true else irqMasked p m := by
  have hcall : irqSetMask (UInt8.ofNat n) p = picOutb (if n.val < 8 then pic1Data else pic2Data)
      ((irqChip p n).imr ||| UInt8.ofNat (1 <<< (irqInput n).val)) p := by
    rw [irqSetMask, picPort_line]
    dsimp only
    rw [picInb_line, toNat_irqInput]
  rw [hcall]
  refine irqMask_call h n fun j => ?_
  rw [bit_or]
  split
  case isTrue hj => rw [decide_eq_true hj, Bool.or_true]
  case isFalse hj => rw [decide_eq_false hj, Bool.or_false]

/-- `IRQ_clear_mask` unmasks its line and changes no other. -/
theorem irqClearMask_spec (h : Remapped offset p) (n : IrqLine) : SameButMasks p (irqClearMask (UInt8.ofNat n) p) ∧
    ∀ m, irqMasked (irqClearMask (UInt8.ofNat n) p) m = if m = n then false else irqMasked p m := by
  have hcall : irqClearMask (UInt8.ofNat n) p = picOutb (if n.val < 8 then pic1Data else pic2Data)
      ((irqChip p n).imr &&& ~~~UInt8.ofNat (1 <<< (irqInput n).val)) p := by
    rw [irqClearMask, picPort_line]
    dsimp only
    rw [picInb_line, toNat_irqInput]
  rw [hcall]
  refine irqMask_call h n fun j => ?_
  rw [bit_and_not]
  split
  case isTrue hj => rw [decide_eq_true hj, Bool.not_true, Bool.and_false]
  case isFalse hj => rw [decide_eq_false hj, Bool.not_false, Bool.and_true]

end

end BanjOS
