import BanjOS.Isr.Pic

/-!
# From a device to its handler

`irq_handler` and `IRQ_handler_set` (`interrupts.c`), the set-up of the three drivers that use a line of the controllers
(`SER_init`, `ps2_initialize`, `ata_probe`), and the interrupts in between. A driver sets its handler before it unmasks its
line, and its handler ends the interrupt, so no line is ever served without its handler, nothing stays in service, and no
request is lost (`irqRun_served`).

`PIC_sendEOI` is called with the vector, not the line, so it always ends an interrupt at the slave too. No handler runs
while another one's interrupt is in service, so this ends nothing else.
-/

namespace BanjOS

open I8259

/-! ## Acknowledging -/

/-- The input of the master that a line comes in at. -/
def irqUp (n : IrqLine) : Fin 8 := if n.val < 8 then irqInput n else irqInput irq2

/-- The device of the line has raised it. -/
def IrqRaised (p : I8259Pair) (n : IrqLine) : Prop := (irqChip p n).irr (irqInput n) = true

/-- The line asks for service: its device raised it, and it is not masked, nor the slave with it. The line 2 is the
slave's. -/
def IrqWanted (p : I8259Pair) (n : IrqLine) : Prop :=
  n ≠ irq2 ∧ IrqRaised p n ∧ irqMasked p n = false ∧ (8 ≤ n.val → irqMasked p irq2 = false)

/-- Nothing is in service. -/
structure IrqIdle (p : I8259Pair) : Prop where
  master : ∀ k, p.master.isr k = false
  slave : ∀ k, p.slave.isr k = false

/-- The device of the line raises it. -/
def irqRaise (n : IrqLine) (p : I8259Pair) : I8259Pair :=
  if n.val < 8 then { p with master := p.master.raise (irqInput n) }
  else { p with slave := p.slave.raise (irqInput n) }

/-- The pair after the request of the line is acknowledged. -/
def irqAccepted (p : I8259Pair) (n : IrqLine) : I8259Pair :=
  ⟨p.master.accept (irqUp n), if n.val < 8 then p.slave else p.slave.accept (irqInput n)⟩

/-- The line comes before the other one. -/
def IrqBefore (n m : IrqLine) : Prop := irqUp n < irqUp m ∨ irqUp n = irqUp m ∧ n ≤ m

section
variable {offset : UInt8} {p : I8259Pair}

/-- The vectors of the lines are consecutive. -/
theorem irqVector (n : IrqLine) (hn : ¬ n.val < 8) : offset + 8 + UInt8.ofNat (irqInput n) = offset + UInt8.ofNat n := by
  have hsum : ∀ n : IrqLine, ¬ n.val < 8 → 8 + UInt8.ofNat (irqInput n) = UInt8.ofNat n := by decide
  rw [UInt8.add_assoc, hsum n hn]

/-- The lines of the slave, by its inputs. -/
theorem slaveLine : ∀ k : Fin 8, (¬ (k.natAdd 8 : IrqLine).val < 8) ∧ (k.natAdd 8 : IrqLine) ≠ 2 ∧
    irqInput (k.natAdd 8) = k := by decide

/-- The line that the slave is on is the master's only one at its input. -/
theorem irqLine_eq_irq2 : ∀ n : IrqLine, n.val < 8 → irqInput n = irqInput irq2 → n = irq2 := by decide

/-- The slave asks exactly if one of its lines does. -/
theorem slave_request_isSome (hi : IrqIdle p) : p.slave.request.isSome = true ∧ irqMasked p irq2 = false ↔
    ∃ n : IrqLine, ¬ n.val < 8 ∧ IrqWanted p n := by
  rw [request_isSome_iff hi.slave]
  constructor
  · rintro ⟨⟨k, hirr, himr⟩, hmask⟩
    rcases slaveLine k with ⟨hge, hne, hinput⟩
    refine ⟨k.natAdd 8, hge, hne, ?_, ?_, fun _ => hmask⟩
    · rw [IrqRaised, irqChip, if_neg hge, hinput]
      exact hirr
    · rw [irqMasked, irqChip, if_neg hge, hinput]
      exact himr
  · rintro ⟨n, hge, -, hirr, himr, hmask⟩
    rw [IrqRaised, irqChip, if_neg hge] at hirr
    rw [irqMasked, irqChip, if_neg hge] at himr
    exact ⟨⟨irqInput n, hirr, himr⟩, hmask (Nat.not_lt.1 hge)⟩

/-- What the master sees at an input. -/
theorem driven_wanted (h : Remapped offset p) (hi : IrqIdle p) (k : Fin 8) :
    (p.driven.irr k = true ∧ bit p.driven.imr k = false) ↔ ∃ n, IrqWanted p n ∧ irqUp n = k := by
  have hcascade : ∀ k : Fin 8, bit 4 k = decide (k = 2) := by decide
  have hirr : p.driven.irr k = if k = 2 then p.slave.request.isSome else p.master.irr k := by
    simp only [I8259Pair.driven, h.master.2.2.1, hcascade, decide_eq_true_eq]
  have himr : bit p.driven.imr k = bit p.master.imr k := rfl
  rw [hirr, himr]
  rcases Decidable.em (k = 2) with rfl | hne
  · have hmask : irqMasked p irq2 = bit p.master.imr 2 := rfl
    rw [if_pos rfl, ← hmask, slave_request_isSome hi]
    refine exists_congr fun n => ⟨fun ⟨hge, hw⟩ => ⟨hw, if_neg hge⟩, fun ⟨hw, hup⟩ => ⟨fun hlt => ?_, hw⟩⟩
    rw [irqUp, if_pos hlt] at hup
    exact hw.1 (irqLine_eq_irq2 n hlt hup)
  · rw [if_neg hne]
    have hline : ∀ k : Fin 8, (k.castLE (by decide) : IrqLine).val < 8 ∧ irqInput (k.castLE (by decide)) = k ∧
      (k ≠ 2 → (k.castLE (by decide) : IrqLine) ≠ 2) := by decide
    rcases hline k with ⟨hlt, hinput, htwo⟩
    constructor
    · rintro ⟨hreq, hmask⟩
      refine ⟨k.castLE (by decide), ⟨htwo hne, ?_, ?_, fun hge => absurd hlt (Nat.not_lt.2 hge)⟩, ?_⟩
      · rw [IrqRaised, irqChip, if_pos hlt, hinput]
        exact hreq
      · rw [irqMasked, irqChip, if_pos hlt, hinput]
        exact hmask
      · rw [irqUp, if_pos hlt, hinput]
    · rintro ⟨n, ⟨-, hreq, hmask, -⟩, hup⟩
      unfold irqUp at hup
      split at hup
      case isTrue hn =>
        rw [IrqRaised, irqChip, if_pos hn, hup] at hreq
        rw [irqMasked, irqChip, if_pos hn, hup] at hmask
        exact ⟨hreq, hmask⟩
      case isFalse hn => exact absurd hup.symm hne

/-- With nothing in service the pair asks for the wanted line of the highest priority, with the vector of this line. -/
theorem acknowledge_wanted (h : Remapped offset p) (hi : IrqIdle p) :
    (p.driven.request = none ∧ ∀ n, ¬ IrqWanted p n) ∨ ∃ n, IrqWanted p n ∧ (∀ m, IrqWanted p m → IrqBefore n m) ∧
      p.driven.request = some (irqUp n) ∧ p.acknowledge = (offset + UInt8.ofNat n, irqAccepted p n) := by
  have hcascade : ∀ k : Fin 8, bit 4 k = decide (k = 2) := by decide
  cases hreq : p.driven.request with
  | none =>
    refine .inl ⟨rfl, fun n hn => ?_⟩
    have hsome := (request_isSome_iff (c := p.driven) hi.master).2 ⟨_, (driven_wanted h hi (irqUp n)).2 ⟨n, hn, rfl⟩⟩
    rw [hreq] at hsome
    cases hsome
  | some k =>
    right
    rcases request_eq_some_iff.1 hreq with ⟨⟨hirr, himr, -⟩, hbefore⟩
    have hfirst (m : IrqLine) (hm : IrqWanted p m) : k ≤ irqUp m := by
      rcases (driven_wanted h hi (irqUp m)).2 ⟨m, hm, rfl⟩ with ⟨hmirr, hmimr⟩
      exact Fin.not_lt.1 fun hlt => hbefore _ hlt ⟨hmirr, hmimr, fun j _ => hi.master j⟩
    rcases (driven_wanted h hi k).1 ⟨hirr, himr⟩ with ⟨n₀, hn₀, hup₀⟩
    rcases Decidable.em (k = 2) with rfl | hne
    · -- the slave has a request: its line of the highest priority
      have hge₀ : ¬ n₀.val < 8 := fun hlt => by
        rw [irqUp, if_pos hlt] at hup₀
        exact hn₀.1 (irqLine_eq_irq2 n₀ hlt hup₀)
      rcases (slave_request_isSome hi).2 ⟨n₀, hge₀, hn₀⟩ with ⟨hsome, hmask⟩
      rcases Option.isSome_iff_exists.1 hsome with ⟨j, hj⟩
      rcases request_eq_some_iff.1 hj with ⟨⟨hjirr, hjimr, -⟩, hjbefore⟩
      rcases slaveLine j with ⟨hge, htwo, hinput⟩
      have hup : irqUp (j.natAdd 8) = 2 := if_neg hge
      have hwanted : IrqWanted p (j.natAdd 8) := by
        refine ⟨htwo, ?_, ?_, fun _ => hmask⟩
        · rw [IrqRaised, irqChip, if_neg hge, hinput]
          exact hjirr
        · rw [irqMasked, irqChip, if_neg hge, hinput]
          exact hjimr
      refine ⟨j.natAdd 8, hwanted, fun m hm => ?_, by rw [hup], ?_⟩
      · rcases lt_or_eq_of_le (hfirst m hm) with hlt | heq
        · exact .inl (hup ▸ hlt)
        · refine .inr ⟨hup.trans heq, Fin.not_lt.1 fun hlt => ?_⟩
          have hgem : ¬ m.val < 8 := fun hltm => by
            rw [irqUp, if_pos hltm] at heq
            exact hm.1 (irqLine_eq_irq2 m hltm heq.symm)
          have hmirr := hm.2.1
          have hmimr := hm.2.2.1
          rw [IrqRaised, irqChip, if_neg hgem] at hmirr
          rw [irqMasked, irqChip, if_neg hgem] at hmimr
          have hinputs : ∀ (m : IrqLine) (j : Fin 8), ¬ m.val < 8 → m < j.natAdd 8 → irqInput m < j := by decide
          exact hjbefore _ (hinputs m j hgem hlt) ⟨hmirr, hmimr, fun i _ => hi.slave i⟩
      · rw [I8259Pair.acknowledge, hreq]
        dsimp only
        rw [h.master.2.2.1, hcascade, if_pos (decide_eq_true rfl), hj]
        dsimp only
        rw [irqAccepted, hup, if_neg hge, hinput, vector, h.slave.2.1, ← irqVector _ hge, hinput]
    · have hlt₀ : n₀.val < 8 := Classical.not_not.1 fun hge => hne (hup₀.symm.trans (if_neg hge))
      have hinput : irqInput n₀ = k := by
        rw [irqUp, if_pos hlt₀] at hup₀
        exact hup₀
      refine ⟨n₀, hn₀, fun m hm => ?_, by rw [hup₀], ?_⟩
      · rcases lt_or_eq_of_le (hfirst m hm) with hlt | heq
        · exact .inl (hup₀.symm ▸ hlt)
        · refine .inr ⟨hup₀.trans heq, Fin.le_of_eq ?_⟩
          have hltm : m.val < 8 := Classical.not_not.1 fun hge => hne (heq.trans (if_neg hge))
          rw [irqUp, if_pos hltm] at heq
          exact irqLine_ext ⟨fun _ => hltm, fun _ => hlt₀⟩ (hinput.trans heq)
      · have hvalue : ∀ n : IrqLine, n.val < 8 → (irqInput n).val = n.val := by decide
        rw [I8259Pair.acknowledge, hreq]
        dsimp only
        rw [h.master.2.2.1, hcascade, if_neg (by rw [decide_eq_false hne]; exact Bool.false_ne_true), irqAccepted, hup₀,
          if_pos hlt₀, vector, h.master.2.1, ← hinput, hvalue n₀ hlt₀]

end

/-! ## The interrupt table -/

/-- The functions that are set as handlers. -/
inductive IrqHandler
  | serialTransmitReady
  | ps2
  | readBlock
  | pageFault
  | noop
  | kexit
  deriving DecidableEq

/-- The handler ends with `PIC_sendEOI(number)`. -/
def IrqHandler.SendsEoi (f : IrqHandler) : Prop := f = .serialTransmitReady ∨ f = .ps2 ∨ f = .readBlock

instance (f : IrqHandler) : Decidable f.SendsEoi := inferInstanceAs (Decidable (_ ∨ _))

/-- `struct IRQTableEntry`. -/
structure IrqTableEntry where
  handler : Option IrqHandler
  arg : Nat

/-- `irq_table`. -/
abbrev IrqTable := Nat → IrqTableEntry

/-- `IRQ_handler_set`. -/
def irqHandlerSet (number : Nat) (handler : Option IrqHandler) (arg : Nat) (table : IrqTable) : IrqTable :=
  Function.update table number ⟨handler, arg⟩

/-- What `irq_handler` calls. -/
inductive IrqCall
  | handler (f : IrqHandler) (number : Int) (arg : Nat)
  | unhandled (number : Int)
  | invalid (number : Int)
  deriving DecidableEq

/-- `irq_handler`. -/
def irqHandler (table : IrqTable) (number : Int) : IrqCall :=
  if number < 0 ∨ number ≥ 256 then .invalid number
  else
    match (table number.toNat).handler with
    | none => .unhandled number
    | some f => .handler f number (table number.toNat).arg

/-- What a call of `irq_handler` does at the controllers. -/
def IrqCall.atPics (c : IrqCall) (p : I8259Pair) : I8259Pair :=
  match c with
  | .handler f number _ => if f.SendsEoi then picSendEoi (UInt8.ofNat number.toNat) p else p
  | _ => p

/-! ## The drivers -/

/-- The drivers that use a line. -/
inductive IrqDriver
  | serial
  | keyboard
  | ata
  deriving DecidableEq

/-- A call of a driver's set-up. -/
inductive IrqSetup
  | handlerSet (number : Nat) (handler : IrqHandler)
  | clearMask (line : IrqLine)

namespace IrqDriver

/-- The line. -/
def line : IrqDriver → IrqLine
  | serial => ⟨4, by decide⟩
  | keyboard => ⟨1, by decide⟩
  | ata => ⟨14, by decide⟩

/-- The handler. -/
def handler : IrqDriver → IrqHandler
  | serial => .serialTransmitReady
  | keyboard => .ps2
  | ata => .readBlock

/-- The calls of `SER_init`, `ps2_initialize` and `ata_probe` that are about interrupts, in their order. -/
def setup : IrqDriver → List IrqSetup
  | serial => [.handlerSet (0x20 + 4) .serialTransmitReady, .clearMask ⟨4, by decide⟩]
  | keyboard => [.handlerSet 0x21 .ps2, .clearMask ⟨1, by decide⟩]
  | ata => [.handlerSet (0x20 + 14) .readBlock, .clearMask irq2, .clearMask ⟨14, by decide⟩]

end IrqDriver

/-! ## Runs -/

/-- The controllers, the table, what each driver has still to do, and the vector that is being served. -/
structure IrqSystem where
  pics : I8259Pair
  table : IrqTable
  todo : IrqDriver → List IrqSetup
  serving : Option UInt8

/-- `IRQ_init`, as far as it is about the controllers and the table. -/
def irqInit (p : I8259Pair) : IrqSystem := ⟨picRemap 0x20 p, fun _ => ⟨none, 0⟩, fun _ => [], none⟩

/-- A step. While a vector is served interrupts are disabled, but devices may raise their lines. -/
inductive IrqStep : IrqSystem → IrqSystem → Prop
  /-- A device raises its line. -/
  | raise {s : IrqSystem} {n : IrqLine} : n ≠ irq2 → IrqStep s { s with pics := irqRaise n s.pics }
  /-- Kernel code masks a line. -/
  | setMask {s : IrqSystem} (n : IrqLine) : IrqStep s { s with pics := irqSetMask (UInt8.ofNat n) s.pics }
  /-- `MMU_alloc_init` and `PROC_run` set handlers of vectors that are no line's. -/
  | handlerSet {s : IrqSystem} {number : Nat} (handler : Option IrqHandler) (arg : Nat) :
      number < 0x20 ∨ 0x30 ≤ number → IrqStep s { s with table := irqHandlerSet number handler arg s.table }
  /-- A driver is set up. -/
  | start {s : IrqSystem} (d : IrqDriver) : s.todo d = [] →
      IrqStep s { s with todo := Function.update s.todo d d.setup }
  /-- The next call of its set-up. -/
  | setupHandler {s : IrqSystem} {d : IrqDriver} {number : Nat} {f : IrqHandler} {rest : List IrqSetup} (arg : Nat) :
      s.todo d = .handlerSet number f :: rest → IrqStep s { s with
        table := irqHandlerSet number (some f) arg s.table, todo := Function.update s.todo d rest }
  | setupMask {s : IrqSystem} {d : IrqDriver} {n : IrqLine} {rest : List IrqSetup} :
      s.todo d = .clearMask n :: rest → IrqStep s { s with
        pics := irqClearMask (UInt8.ofNat n) s.pics, todo := Function.update s.todo d rest }
  /-- The processor takes an interrupt. -/
  | accept {s : IrqSystem} : s.serving = none → s.pics.driven.request.isSome = true →
      IrqStep s { s with pics := s.pics.acknowledge.2, serving := some s.pics.acknowledge.1 }
  /-- `irq_handler` runs and interrupts are enabled again. -/
  | finish {s : IrqSystem} {v : UInt8} : s.serving = some v →
      IrqStep s { s with pics := (irqHandler s.table v.toNat).atPics s.pics, serving := none }

/-- The handler of the line's driver is set. -/
def LineReady (table : IrqTable) (n : IrqLine) : Prop :=
  ∃ d : IrqDriver, d.line = n ∧ (table (0x20 + n)).handler = some d.handler

/-- In service are the inputs of the line, if one is served. -/
def InService (p : I8259Pair) : Option IrqLine → Prop
  | none => IrqIdle p
  | some n => (∀ k, p.master.isr k = decide (k = irqUp n)) ∧
      ∀ k, p.slave.isr k = (decide (¬ n.val < 8) && decide (k = irqInput n))

/-- What is served is a line with its handler, and only this is in service. -/
def Serving (s : IrqSystem) : Prop :=
  match s.serving with
  | none => InService s.pics none
  | some v => ∃ n : IrqLine, v = 0x20 + UInt8.ofNat n ∧ LineReady s.table n ∧ InService s.pics (some n)

/-- The invariant of runs. -/
structure IrqInv (s : IrqSystem) : Prop where
  remapped : Remapped 0x20 s.pics
  /-- A line that is not masked has its handler. -/
  unmasked : ∀ n, n ≠ irq2 → irqMasked s.pics n = false → LineReady s.table n
  /-- A driver that has set its handler has still to unmask its line, or it has finished. -/
  todo : ∀ d : IrqDriver, s.todo d <:+ d.setup ∧
    (s.todo d ≠ d.setup → s.todo d ≠ [] → (s.table (0x20 + d.line)).handler = some d.handler)
  serving : Serving s

/-! ## What a step keeps -/

/-- The chips differ in their requests and in what is in service. -/
structure SameSetup (p p' : I8259Pair) : Prop where
  master : p'.master = { p.master with irr := p'.master.irr, isr := p'.master.isr }
  slave : p'.slave = { p.slave with irr := p'.slave.irr, isr := p'.slave.isr }

section
variable {offset : UInt8} {p p' : I8259Pair} {s s' : IrqSystem}

theorem SameSetup.remapped (hs : SameSetup p p') (h : Remapped offset p) : Remapped offset p' := by
  refine ⟨?_, ?_⟩
  · rw [hs.master]
    exact h.master
  · rw [hs.slave]
    exact h.slave

theorem SameSetup.irqMasked (hs : SameSetup p p') (n : IrqLine) : BanjOS.irqMasked p' n = BanjOS.irqMasked p n := by
  unfold BanjOS.irqMasked irqChip
  split
  · rw [hs.master]
  · rw [hs.slave]

/-- The end of an interrupt. -/
theorem eoi_same (c : I8259) : c.eoi = { c with irr := c.eoi.irr, isr := c.eoi.isr } := by
  unfold eoi
  split <;> rfl

/-- `PIC_sendEOI` with a vector ends an interrupt at both chips. -/
theorem picSendEoi_vector {v : UInt8} (hv : 8 ≤ v) : picSendEoi v p = ⟨p.master.eoi, p.slave.eoi⟩ := by
  have hcommand (c : I8259) : c.writeCommand picEoi = c.eoi := rfl
  rw [picSendEoi, if_pos hv]
  show (⟨p.master.writeCommand picEoi, p.slave.writeCommand picEoi⟩ : I8259Pair) = _
  rw [hcommand, hcommand]

/-- After the end of the interrupt of the line that is served nothing is in service. -/
theorem InService.eoi {n : IrqLine} (h : InService p (some n)) : IrqIdle ⟨p.master.eoi, p.slave.eoi⟩ := by
  rcases h with ⟨hmaster, hslave⟩
  refine ⟨fun k => ?_, fun k => ?_⟩
  · dsimp only
    rw [eoi_isr hmaster]
  · dsimp only
    rcases Decidable.em (n.val < 8) with hlt | hge
    · have hidle : ∀ k, p.slave.isr k = false := fun k => by
        rw [hslave, decide_eq_false (not_not.2 hlt), Bool.false_and]
      rw [eoi_idle hidle, hidle]
    · have hone : ∀ k, p.slave.isr k = decide (k = irqInput n) := fun k => by
        rw [hslave, decide_eq_true hge, Bool.true_and]
      rw [eoi_isr hone]

/-- The line that was acknowledged is in service. -/
theorem irqAccepted_inService (h : Remapped offset p) (hi : IrqIdle p) (n : IrqLine) :
    InService (irqAccepted p n) (some n) ∧ SameSetup p (irqAccepted p n) := by
  have hmode : ∀ c : I8259, c.mode = 1 → ∀ k, (c.accept k).isr = Function.update c.isr k true := by
    intro c hc k
    rw [accept, hc]
    rfl
  refine ⟨⟨fun k => ?_, fun k => ?_⟩, rfl, ?_⟩
  · show (p.master.accept (irqUp n)).isr k = _
    rw [hmode _ h.master.2.2.2, Function.update_apply, hi.master]
    split
    case isTrue heq => rw [decide_eq_true heq]
    case isFalse hne => rw [decide_eq_false hne]
  · unfold irqAccepted
    dsimp only
    rcases Decidable.em (n.val < 8) with hlt | hge
    · rw [if_pos hlt, hi.slave, decide_eq_false (not_not.2 hlt), Bool.false_and]
    · rw [if_neg hge, hmode _ h.slave.2.2.2, Function.update_apply, hi.slave, decide_eq_true hge, Bool.true_and]
      split
      case isTrue heq => rw [decide_eq_true heq]
      case isFalse hne => rw [decide_eq_false hne]
  · unfold irqAccepted
    dsimp only
    split <;> rfl

/-- Each line has one driver. -/
theorem IrqDriver.line_inj {d d' : IrqDriver} (h : d.line = d'.line) : d = d' := by
  cases d <;> cases d' <;> first | rfl | exact absurd h (by decide)

/-- The first call of a set-up sets the handler of the line. -/
theorem IrqDriver.setup_handler {d : IrqDriver} {number : Nat} {f : IrqHandler} {rest : List IrqSetup}
    (h : .handlerSet number f :: rest <:+ d.setup) : number = 0x20 + d.line ∧ f = d.handler ∧ rest ≠ d.setup := by
  have hlen : rest ≠ d.setup := fun heq => by
    have hle := h.length_le
    rw [heq, List.length_cons] at hle
    omega
  refine and_assoc.1 ⟨?_, hlen⟩
  cases d with
  | serial | keyboard | ata =>
    simp only [setup, List.suffix_cons_iff, List.suffix_nil, List.cons.injEq, IrqSetup.handlerSet.injEq, reduceCtorEq,
      false_and, or_false] at h
    exact h.1

/-- The other calls unmask the line, or that of the slave. -/
theorem IrqDriver.setup_mask {d : IrqDriver} {n : IrqLine} {rest : List IrqSetup} (h : .clearMask n :: rest <:+ d.setup) :
    (n = d.line ∨ n = irq2) ∧ .clearMask n :: rest ≠ d.setup ∧ rest ≠ d.setup := by
  have hlen : rest ≠ d.setup := fun heq => by
    have hle := h.length_le
    rw [heq, List.length_cons] at hle
    omega
  have hfirst : .clearMask n :: rest ≠ d.setup := fun heq => by
    cases d with
    | serial | keyboard | ata => cases heq
  refine ⟨?_, hfirst, hlen⟩
  cases d with
  | serial | keyboard =>
    simp only [setup, List.suffix_cons_iff, List.suffix_nil, List.cons.injEq, IrqSetup.clearMask.injEq, reduceCtorEq,
      false_and, false_or, or_false] at h
    exact .inl h.1
  | ata =>
    simp only [setup, List.suffix_cons_iff, List.suffix_nil, List.cons.injEq, IrqSetup.clearMask.injEq, reduceCtorEq,
      false_and, false_or, or_false] at h
    exact h.symm.imp And.left And.left

/-! ## Steps -/

/-- The invariant does not depend on the table outside of the vectors of the lines. -/
theorem LineReady.set {table : IrqTable} {n : IrqLine} (h : LineReady table n) {number : Nat} {e : IrqTableEntry}
    (hn : number = 0x20 + n → ∃ d : IrqDriver, d.line = n ∧ e.handler = some d.handler) :
    LineReady (Function.update table number e) n := by
  rcases Decidable.em ((0x20 + n : Nat) = number) with heq | hne
  · rcases hn heq.symm with ⟨d, hd, he⟩
    exact ⟨d, hd, by rw [heq, Function.update_self, he]⟩
  · rcases h with ⟨d, hd, he⟩
    exact ⟨d, hd, by rw [Function.update_of_ne hne, he]⟩

theorem Serving.of_same (h : Serving s) (hserving : s'.serving = s.serving)
    (htable : ∀ n, LineReady s.table n → LineReady s'.table n)
    (hisr : s'.pics.master.isr = s.pics.master.isr ∧ s'.pics.slave.isr = s.pics.slave.isr) : Serving s' := by
  have hin (n : Option IrqLine) (hn : InService s.pics n) : InService s'.pics n := by
    cases n with
    | none => exact ⟨fun k => by rw [hisr.1, hn.master], fun k => by rw [hisr.2, hn.slave]⟩
    | some n => exact ⟨fun k => by rw [hisr.1, hn.1], fun k => by rw [hisr.2, hn.2]⟩
  unfold Serving at h ⊢
  rw [hserving]
  split at h
  case h_1 => exact hin none h
  case h_2 v _ =>
    rcases h with ⟨n, hv, hready, hn⟩
    exact ⟨n, hv, htable n hready, hin (some n) hn⟩

/-- The vector of a line as the number that `irq_handler` gets. -/
theorem irqVector_toNat (n : IrqLine) : (0x20 + UInt8.ofNat n).toNat = 0x20 + n := by
  revert n
  decide

/-- `irq_handler` calls the handler of the line's driver. -/
theorem irqHandler_ready {table : IrqTable} {n : IrqLine} {f : IrqHandler} (h : (table (0x20 + n)).handler = some f) :
    irqHandler table (0x20 + UInt8.ofNat n).toNat = .handler f (0x20 + n : Nat) (table (0x20 + n)).arg := by
  have hlt := n.isLt
  rw [irqVector_toNat, irqHandler, if_neg (by omega), Int.toNat_natCast]
  rw [h]

/-- The handlers of the drivers end the interrupt. -/
theorem IrqDriver.sendsEoi (d : IrqDriver) : d.handler.SendsEoi := by
  cases d <;> decide

/-- The call for the line that is served ends its interrupt, at both chips. -/
theorem irqHandler_atPics {table : IrqTable} {n : IrqLine} (h : LineReady table n) :
    (irqHandler table (0x20 + UInt8.ofNat n).toNat).atPics p = ⟨p.master.eoi, p.slave.eoi⟩ := by
  rcases h with ⟨d, -, hd⟩
  have hvector : (8 : UInt8) ≤ UInt8.ofNat (0x20 + n : Nat) := by
    clear hd
    revert n
    decide
  rw [irqHandler_ready hd]
  unfold IrqCall.atPics
  dsimp only
  rw [if_pos d.sendsEoi, Int.toNat_natCast, picSendEoi_vector hvector]

/-- Nothing is in service while no vector is served. -/
theorem IrqInv.idle (h : IrqInv s) (hnone : s.serving = none) : IrqIdle s.pics := by
  have hserving := h.serving
  rw [Serving, hnone] at hserving
  exact hserving

/-- The vector that is served is that of a line that is ready, and in service. -/
theorem IrqInv.served (h : IrqInv s) {v : UInt8} (hv : s.serving = some v) :
    ∃ n : IrqLine, v = 0x20 + UInt8.ofNat n ∧ LineReady s.table n ∧ InService s.pics (some n) := by
  have hserving := h.serving
  rw [Serving, hv] at hserving
  exact hserving

/-- One step keeps the invariant. -/
theorem IrqStep.inv (hst : IrqStep s s') (h : IrqInv s) : IrqInv s' := by
  cases hst with
  | @raise n hn =>
    have hsame : SameSetup s.pics (irqRaise n s.pics) := by
      unfold irqRaise
      split <;> exact ⟨rfl, rfl⟩
    refine ⟨hsame.remapped h.remapped, fun m hm hmask => ?_, h.todo, Serving.of_same h.serving rfl (fun _ hr => hr) ?_⟩
    · rw [hsame.irqMasked] at hmask
      exact h.unmasked m hm hmask
    · dsimp only [irqRaise]
      split <;> exact ⟨rfl, rfl⟩
  | setMask n =>
    rcases irqSetMask_spec h.remapped n with ⟨hsame, hmasks⟩
    refine ⟨hsame.remapped h.remapped, fun m hm hmask => ?_, h.todo, Serving.of_same h.serving rfl (fun _ hr => hr)
      ⟨?_, ?_⟩⟩
    · dsimp only at hmask
      rw [hmasks] at hmask
      split at hmask
      case isTrue => cases hmask
      case isFalse => exact h.unmasked m hm hmask
    · exact (congrArg I8259.isr hsame.master).trans rfl
    · exact (congrArg I8259.isr hsame.slave).trans rfl
  | @handlerSet number handler arg hnumber =>
    have hready (n : IrqLine) (hr : LineReady s.table n) : LineReady (irqHandlerSet number handler arg s.table) n :=
      hr.set fun heq => absurd n.isLt (by omega)
    refine ⟨h.remapped, fun m hm hmask => hready m (h.unmasked m hm hmask), fun d => ⟨(h.todo d).1, fun h₁ h₂ => ?_⟩,
      Serving.of_same h.serving rfl hready ⟨rfl, rfl⟩⟩
    have hlt := d.line.isLt
    show (Function.update s.table number _ (0x20 + d.line)).handler = _
    rw [Function.update_of_ne (by omega)]
    exact (h.todo d).2 h₁ h₂
  | start d hd =>
    refine ⟨h.remapped, h.unmasked, fun d' => ?_, h.serving⟩
    dsimp only
    rcases Decidable.em (d' = d) with rfl | hne
    · rw [Function.update_self]
      exact ⟨List.suffix_refl _, fun hno => absurd rfl hno⟩
    · rw [Function.update_of_ne hne]
      exact h.todo d'
  | @setupHandler d number f rest arg hd =>
    have hsuffix := (h.todo d).1
    rw [hd] at hsuffix
    rcases IrqDriver.setup_handler hsuffix with ⟨rfl, rfl, -⟩
    have hready (n : IrqLine) (hr : LineReady s.table n) :
        LineReady (irqHandlerSet (0x20 + d.line) (some d.handler) arg s.table) n :=
      hr.set fun heq => ⟨d, Fin.ext (by omega), rfl⟩
    refine ⟨h.remapped, fun m hm hmask => hready m (h.unmasked m hm hmask), fun d' => ?_,
      Serving.of_same h.serving rfl hready ⟨rfl, rfl⟩⟩
    dsimp only
    rcases Decidable.em (d' = d) with rfl | hne
    · rw [Function.update_self]
      refine ⟨(List.suffix_cons _ _).trans hsuffix, fun _ _ => ?_⟩
      rw [irqHandlerSet, Function.update_self]
    · have hlines : 0x20 + d'.line.val ≠ 0x20 + d.line.val := fun heq =>
        hne (IrqDriver.line_inj (Fin.ext (by omega)))
      rw [Function.update_of_ne hne, irqHandlerSet, Function.update_of_ne hlines]
      exact h.todo d'
  | @setupMask d n rest hd =>
    have hsuffix := (h.todo d).1
    rw [hd] at hsuffix
    rcases IrqDriver.setup_mask hsuffix with ⟨hline, hfirst, -⟩
    -- the handler of the line is set before the line is unmasked
    have hset : (s.table (0x20 + d.line)).handler = some d.handler :=
      (h.todo d).2 (by rw [hd]; exact hfirst) (by rw [hd]; exact List.cons_ne_nil _ _)
    rcases irqClearMask_spec h.remapped n with ⟨hsame, hmasks⟩
    refine ⟨hsame.remapped h.remapped, fun m hm hmask => ?_, fun d' => ?_, Serving.of_same h.serving rfl
      (fun _ hr => hr) ⟨?_, ?_⟩⟩
    · dsimp only at hmask
      rw [hmasks] at hmask
      split at hmask
      case isTrue heq =>
        rcases hline with rfl | htwo
        · rw [heq]
          exact ⟨d, rfl, hset⟩
        · exact absurd (heq.trans htwo) hm
      case isFalse => exact h.unmasked m hm hmask
    · dsimp only
      rcases Decidable.em (d' = d) with rfl | hne
      · rw [Function.update_self]
        exact ⟨(List.suffix_cons _ _).trans hsuffix, fun _ _ => hset⟩
      · rw [Function.update_of_ne hne]
        exact h.todo d'
    · exact (congrArg I8259.isr hsame.master).trans rfl
    · exact (congrArg I8259.isr hsame.slave).trans rfl
  | accept hnone hreq =>
    have hidle := h.idle hnone
    rcases acknowledge_wanted h.remapped hidle with ⟨hno, -⟩ | ⟨n, hwanted, -, -, hack⟩
    · rw [hno] at hreq
      cases hreq
    · rcases irqAccepted_inService h.remapped hidle n with ⟨hin, hsame⟩
      rw [hack]
      refine ⟨hsame.remapped h.remapped, fun m hm hmask => ?_, h.todo, n, rfl, h.unmasked n hwanted.1 hwanted.2.2.1, hin⟩
      dsimp only at hmask
      rw [hsame.irqMasked] at hmask
      exact h.unmasked m hm hmask
  | @finish v hv =>
    rcases h.served hv with ⟨n, rfl, hready, hin⟩
    have hsame : SameSetup s.pics ⟨s.pics.master.eoi, s.pics.slave.eoi⟩ := ⟨eoi_same _, eoi_same _⟩
    rw [irqHandler_atPics hready]
    refine ⟨hsame.remapped h.remapped, fun m hm hmask => ?_, h.todo, hin.eoi⟩
    dsimp only at hmask
    rw [hsame.irqMasked] at hmask
    exact h.unmasked m hm hmask

/-- A call that changes the masks only loses no request. -/
theorem SameButMasks.raised (hs : SameButMasks p p') {n : IrqLine} (h : IrqRaised p n) : IrqRaised p' n := by
  unfold IrqRaised irqChip at h ⊢
  split at h
  case isTrue hlt =>
    rw [if_pos hlt, hs.master]
    exact h
  case isFalse hge =>
    rw [if_neg hge, hs.slave]
    exact h

/-- Raising a line loses no request. -/
theorem irqRaise_raised (n : IrqLine) {m : IrqLine} (h : IrqRaised p m) : IrqRaised (irqRaise n p) m := by
  have hup (irr : Fin 8 → Bool) (hj : irr (irqInput m) = true) :
      Function.update irr (irqInput n) true (irqInput m) = true := by
    rw [Function.update_apply, hj, ite_self]
  unfold IrqRaised irqChip at h ⊢
  unfold irqRaise
  rcases Decidable.em (n.val < 8) with hn | hn
  · rw [if_pos hn]
    dsimp only
    split at h
    case isTrue hlt =>
      rw [if_pos hlt]
      exact hup _ h
    case isFalse hge =>
      rw [if_neg hge]
      exact h
  · rw [if_neg hn]
    dsimp only
    split at h
    case isTrue hlt =>
      rw [if_pos hlt]
      exact h
    case isFalse hge =>
      rw [if_neg hge]
      exact hup _ h

/-- Acknowledging one line loses no request of another one. -/
theorem irqAccepted_raised {n m : IrqLine} (htwo : m ≠ irq2) (hne : m ≠ n) (h : IrqRaised p m) :
    IrqRaised (irqAccepted p n) m := by
  have hmaster : ∀ n m : IrqLine, m ≠ irq2 → m ≠ n → m.val < 8 → irqInput m ≠ irqUp n := by decide
  unfold IrqRaised irqChip at h ⊢
  split at h
  case isTrue hlt =>
    rw [if_pos hlt]
    show Function.update p.master.irr (irqUp n) false (irqInput m) = true
    rw [Function.update_of_ne (hmaster n m htwo hne hlt)]
    exact h
  case isFalse hge =>
    rw [if_neg hge, irqAccepted]
    dsimp only
    rcases Decidable.em (n.val < 8) with hlt | hgen
    · rw [if_pos hlt]
      exact h
    · have hinput : irqInput m ≠ irqInput n := fun heq =>
        hne (irqLine_ext ⟨fun hlt => absurd hlt hge, fun hlt => absurd hlt hgen⟩ heq)
      rw [if_neg hgen]
      show Function.update p.slave.irr (irqInput n) false (irqInput m) = true
      rw [Function.update_of_ne hinput]
      exact h

/-- A request stays until the line is served. -/
theorem IrqStep.raised (hst : IrqStep s s') (h : IrqInv s) {m : IrqLine} (htwo : m ≠ irq2) (hm : IrqRaised s.pics m) :
    IrqRaised s'.pics m ∨ s.serving = none ∧ s'.serving = some (0x20 + UInt8.ofNat m) := by
  cases hst with
  | @raise n hn =>
    left
    exact irqRaise_raised n hm
  | setMask n => exact .inl ((irqSetMask_spec h.remapped n).1.raised hm)
  | handlerSet | start | setupHandler => exact .inl hm
  | @setupMask d n rest hd => exact .inl ((irqClearMask_spec h.remapped n).1.raised hm)
  | accept hnone hreq =>
    have hidle := h.idle hnone
    rcases acknowledge_wanted h.remapped hidle with ⟨hno, -⟩ | ⟨n, -, -, -, hack⟩
    · rw [hno] at hreq
      cases hreq
    · rw [hack]
      rcases eq_or_ne m n with rfl | hne
      · exact .inr ⟨hnone, rfl⟩
      · exact .inl (irqAccepted_raised htwo hne hm)
  | @finish v hv =>
    left
    rcases h.served hv with ⟨n, rfl, hready, -⟩
    unfold IrqRaised irqChip at hm ⊢
    dsimp only
    rw [irqHandler_atPics hready]
    dsimp only
    split
    case isTrue hlt =>
      rw [if_pos hlt] at hm
      rw [eoi_irr]
      exact hm
    case isFalse hge =>
      rw [if_neg hge] at hm
      rw [eoi_irr]
      exact hm

end

/-- The states that are reached from `IRQ_init`, whatever state the controllers were in before. -/
def IrqReachable (s : IrqSystem) : Prop := ∃ p, Relation.ReflTransGen IrqStep (irqInit p) s

/-- Every reachable state keeps the invariant. -/
theorem IrqReachable.inv {s : IrqSystem} (h : IrqReachable s) : IrqInv s := by
  rcases h with ⟨p, hrun⟩
  rcases @picRemap_remapped 0x20 (by decide) (by decide) p with ⟨hremapped, hmasked, hidle⟩
  refine hrun.invariant IrqInv ⟨hremapped, fun n _ hmask => ?_, fun d => ⟨List.nil_suffix, fun _ h => absurd rfl h⟩,
    fun k => (hidle k).2.1, fun k => (hidle k).2.2.2⟩ fun s t hst hs => hst.inv hs
  cases (hmasked n).symm.trans hmask

/-- In every run after `IRQ_init`, in which drivers set themselves up, lines are raised and interrupts are taken in any
order: an interrupt that is taken is a line's, `irq_handler` calls the handler that the line's driver has set, and after
it nothing is in service; when nothing is served the controllers ask exactly if some line is wanted, for the one of the
highest priority with its own vector; and no step loses a request. -/
theorem irqRun_served {s : IrqSystem} (h : IrqReachable s) :
    (∀ v, s.serving = some v → ∃ d : IrqDriver, v = 0x20 + UInt8.ofNat d.line ∧
      (∃ arg, irqHandler s.table v.toNat = .handler d.handler (0x20 + d.line : Nat) arg) ∧
        IrqIdle ((irqHandler s.table v.toNat).atPics s.pics)) ∧
    (s.serving = none → (s.pics.driven.request = none ∧ ∀ n, ¬ IrqWanted s.pics n) ∨
      ∃ n, IrqWanted s.pics n ∧ (∀ m, IrqWanted s.pics m → IrqBefore n m) ∧
        s.pics.driven.request = some (irqUp n) ∧ s.pics.acknowledge = (0x20 + UInt8.ofNat n, irqAccepted s.pics n)) ∧
    ∀ s' n, IrqStep s s' → n ≠ irq2 → IrqRaised s.pics n →
      IrqRaised s'.pics n ∨ s.serving = none ∧ s'.serving = some (0x20 + UInt8.ofNat n) := by
  have hinv := h.inv
  refine ⟨fun v hv => ?_, fun hnone => ?_, fun s' n hst htwo hn => hst.raised hinv htwo hn⟩
  · rcases hinv.served hv with ⟨n, rfl, hready, hin⟩
    rw [irqHandler_atPics hready]
    rcases hready with ⟨d, rfl, hd⟩
    exact ⟨d, rfl, ⟨_, irqHandler_ready hd⟩, hin.eoi⟩
  · exact acknowledge_wanted hinv.remapped (hinv.idle hnone)

/-- A chip in the middle of an initialization. -/
def i8259Powered : I8259 := ⟨.icw3, false, true, 0, 0, 0, 0, fun _ => true, fun _ => true⟩

/-- The serial port is set up, its line is raised, and the interrupt is taken. -/
theorem irqRun_served_serial : ∃ s : IrqSystem, s.serving = some 0x24 ∧
    IrqIdle ((irqHandler s.table 0x24).atPics s.pics) := by
  have hrun : IrqReachable _ := ⟨⟨i8259Powered, i8259Powered⟩, ((((Relation.ReflTransGen.single
    (.start .serial rfl)).tail (.setupHandler (d := .serial) 7 rfl)).tail (.setupMask (d := .serial) rfl)).tail
    (.raise (n := 4) (by decide))).tail (.accept rfl (by decide))⟩
  rcases (irqRun_served hrun).1 0x24 (by rfl) with ⟨d, -, -, hidle⟩
  exact ⟨_, by rfl, hidle⟩

end BanjOS
