import Mathlib.Data.List.FinRange
import Mathlib.Logic.Function.Basic

/-!
# The 8259A interrupt controller

The chip and the pair that a PC has, as a driver sees them: the initialization words, the mask, non-specific and specific
ends of interrupts, fully nested priorities, and the slave on one of the inputs of the master. Inputs are edge triggered:
a request stays until it is acknowledged. Rotation, the special modes and the registers that an OCW3 selects for reading
are left out.
-/

/-- The word that a chip expects at its data port. -/
inductive I8259.Expects
  | icw2
  | icw3
  | icw4
  | ocw1
  deriving DecidableEq

/-- One chip: the initialization words, the mask, and the requests and interrupts in service on its eight inputs. -/
structure I8259 where
  expects : I8259.Expects
  single : Bool
  needsIcw4 : Bool
  vectorBase : UInt8
  cascade : UInt8
  mode : UInt8
  imr : UInt8
  irr : Fin 8 → Bool
  isr : Fin 8 → Bool

namespace I8259

/-- The bit of a register for an input. -/
def bit (v : UInt8) (n : Fin 8) : Bool := v.toNat.testBit n

/-- The input of the highest priority. -/
def first (p : Fin 8 → Bool) : Option (Fin 8) := (List.finRange 8).find? p

/-- The input to serve next: requested, not masked, and no interrupt of the same or a higher priority is in service. -/
def request (c : I8259) : Option (Fin 8) := first fun n =>
  c.irr n && !bit c.imr n && decide (∀ k ≤ n, c.isr k = false)

/-- The end of the interrupt of the highest priority. -/
def eoi (c : I8259) : I8259 :=
  match first c.isr with
  | none => c
  | some n => { c with isr := Function.update c.isr n false }

/-- A write to the command port: ICW1 restarts the chip, OCW2 ends interrupts. -/
def writeCommand (c : I8259) (v : UInt8) : I8259 :=
  if v &&& 0x10 ≠ 0 then { c with
    expects := .icw2, single := v &&& 0x02 ≠ 0, needsIcw4 := v &&& 0x01 ≠ 0, mode := 0, imr := 0
    irr := fun _ => false, isr := fun _ => false }
  else if v &&& 0xF8 = 0x20 then c.eoi
  else if v &&& 0xF8 = 0x60 then { c with isr := Function.update c.isr ⟨v.toNat % 8, Nat.mod_lt _ (by decide)⟩ false }
  else c

/-- A write to the data port. -/
def writeData (c : I8259) (v : UInt8) : I8259 :=
  match c.expects with
  | .icw2 => { c with
      vectorBase := v &&& 0xF8, expects := if c.single then (if c.needsIcw4 then .icw4 else .ocw1) else .icw3 }
  | .icw3 => { c with cascade := v, expects := if c.needsIcw4 then .icw4 else .ocw1 }
  | .icw4 => { c with mode := v, expects := .ocw1 }
  | .ocw1 => { c with imr := v }

/-- An input goes high. -/
def raise (c : I8259) (n : Fin 8) : I8259 := { c with irr := Function.update c.irr n true }

/-- The request on an input is acknowledged; in automatic mode it is not kept in service. -/
def accept (c : I8259) (n : Fin 8) : I8259 :=
  { c with irr := Function.update c.irr n false, isr := Function.update c.isr n (c.mode &&& 0x02 = 0) }

/-- The vector of an input. -/
def vector (c : I8259) (n : Fin 8) : UInt8 := c.vectorBase + UInt8.ofNat n

end I8259

/-- The pair: the output of the slave is an input of the master. -/
structure I8259Pair where
  master : I8259
  slave : I8259

namespace I8259Pair

open I8259

/-- The master with the inputs that its cascade word names driven by the slave. -/
def driven (p : I8259Pair) : I8259 :=
  { p.master with irr := fun n => if bit p.master.cascade n then p.slave.request.isSome else p.master.irr n }

/-- The processor acknowledges an interrupt and gets its vector. Without a request the master answers with its last
input, and the slave too where the master has chosen it. -/
def acknowledge (p : I8259Pair) : UInt8 × I8259Pair :=
  match p.driven.request with
  | none => (p.master.vector 7, p)
  | some n =>
    if bit p.master.cascade n then
      match p.slave.request with
      | none => (p.slave.vector 7, { p with master := p.master.accept n })
      | some k => (p.slave.vector k, ⟨p.master.accept n, p.slave.accept k⟩)
    else (p.master.vector n, { p with master := p.master.accept n })

end I8259Pair

/-! ## Priorities -/

namespace I8259

variable {p : Fin 8 → Bool} {n : Fin 8} {c : I8259}

/-- The input of the highest priority is the lowest one. -/
theorem first_eq_some_iff : first p = some n ↔ p n = true ∧ ∀ k < n, p k = false := by
  rw [first, List.find?_eq_some_iff_getElem]
  simp only [List.getElem_finRange, List.length_finRange, Bool.not_eq_true']
  constructor
  · rintro ⟨hp, i, hi, rfl, hbefore⟩
    exact ⟨hp, fun k hk => hbefore k hk⟩
  · rintro ⟨hp, hbefore⟩
    exact ⟨hp, n, n.isLt, rfl, fun j hj => hbefore ⟨j, hj.trans n.isLt⟩ hj⟩

/-- No input is found when none is there. -/
theorem first_eq_none_iff : first p = none ↔ ∀ n, p n = false := by
  rw [first, List.find?_eq_none]
  simp only [List.mem_finRange, true_implies, Bool.not_eq_true]

/-- What the chip asks for. -/
theorem request_eq_some_iff : c.request = some n ↔
    (c.irr n = true ∧ bit c.imr n = false ∧ ∀ k ≤ n, c.isr k = false) ∧
      ∀ k < n, ¬ (c.irr k = true ∧ bit c.imr k = false ∧ ∀ j ≤ k, c.isr j = false) := by
  simp only [request, first_eq_some_iff, Bool.and_eq_true, Bool.not_eq_true', decide_eq_true_eq, and_assoc,
    ← Bool.not_eq_true (_ && _)]

/-- With nothing in service the chip asks exactly when a request is not masked. -/
theorem request_isSome_iff (hisr : ∀ n, c.isr n = false) :
    c.request.isSome = true ↔ ∃ n, c.irr n = true ∧ bit c.imr n = false := by
  constructor
  · intro hsome
    rcases Option.isSome_iff_exists.1 hsome with ⟨n, hn⟩
    rcases (request_eq_some_iff.1 hn).1 with ⟨hirr, himr, -⟩
    exact ⟨n, hirr, himr⟩
  · rintro ⟨n, hirr, himr⟩
    rw [Option.isSome_iff_ne_none]
    intro hnone
    have hno := first_eq_none_iff.1 hnone n
    simp only [hirr, himr, hisr, Bool.not_false, Bool.and_true, implies_true, decide_true] at hno
    cases hno

/-- Once the chip is initialized a write to its data port sets the mask. -/
theorem writeData_mask (h : c.expects = .ocw1) (v : UInt8) : c.writeData v = { c with imr := v } := by
  unfold writeData
  split
  case h_1 heq => cases h.symm.trans heq
  case h_2 heq => cases h.symm.trans heq
  case h_3 heq => cases h.symm.trans heq
  case h_4 => rfl

/-- The end of the only interrupt in service. -/
theorem eoi_isr (hisr : ∀ k, c.isr k = decide (k = n)) : c.eoi = { c with isr := fun _ => false } := by
  have hfirst : first c.isr = some n := first_eq_some_iff.2 ⟨by rw [hisr, decide_eq_true rfl], fun k hk => by
    rw [hisr, decide_eq_false (Fin.ne_of_lt hk)]⟩
  have hupdate : Function.update c.isr n false = fun _ => false := funext fun k => by
    rcases eq_or_ne k n with rfl | hne
    · rw [Function.update_self]
    · rw [Function.update_of_ne hne, hisr, decide_eq_false hne]
  rw [eoi, hfirst]
  dsimp only
  rw [hupdate]

/-- The end of an interrupt changes no request. -/
@[simp]
theorem eoi_irr (c : I8259) : c.eoi.irr = c.irr := by
  unfold eoi
  split <;> rfl

/-- An end of interrupt with nothing in service does nothing. -/
theorem eoi_idle (hisr : ∀ k, c.isr k = false) : c.eoi = c := by
  rw [eoi, first_eq_none_iff.2 hisr]

end I8259
