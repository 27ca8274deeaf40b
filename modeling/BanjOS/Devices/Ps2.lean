import Mathlib.Data.Int.Notation
import Mathlib.Data.Nat.Find
import Mathlib.Tactic.SplitIfs

/-!
# Reading from the PS/2 controller

`ps2_get_status`, `ps2_read_data` and `ps2_read_data_block` (`ps2.c`). The loop of `ps2_read_data` ends when a
status says that there is a byte, or when the timeout has counted down to 0, and the code after it looks at
the timeout only. So a byte is left behind exactly when it is there for the first time at the last poll
(`ps2ReadData_keepsByte_iff`).
-/

namespace BanjOS

/-- The controller: what the reads of its status port and of its data port give, one value for each read. -/
structure Ps2Controller where
  status : Nat → UInt8
  data : Nat → UInt8

/-- How many times each of the two ports has been read. -/
structure Ps2Reads where
  status : Nat
  data : Nat
  deriving DecidableEq

/-- The bit `output_status` of `struct Ps2Status`. -/
def outputStatus (status : UInt8) : Bool := status &&& 0x01 != 0

/-- `ps2_get_status`. -/
def ps2GetStatus (c : Ps2Controller) (r : Ps2Reads) : UInt8 × Ps2Reads :=
  (c.status r.status, { r with status := r.status + 1 })

/-- At most `fuel` tests of the loop of `ps2_read_data`: the timeout that is left, or `none` if it needs more. -/
def ps2ReadDataLoop (c : Ps2Controller) : (fuel : Nat) → UInt8 → Int → Ps2Reads → Option (Int × Ps2Reads)
  | 0, _, _, _ => none
  | fuel + 1, status, timeout, r =>
    if !outputStatus status && timeout != 0 then
      let (status, r) := ps2GetStatus c r
      ps2ReadDataLoop c fuel status (if timeout > 0 then timeout - 1 else timeout) r
    else some (timeout, r)

/-- What `ps2_read_data` returns, and the byte at `data` after it, where `data` is not `NULL`. -/
structure Ps2Result where
  ok : Bool
  data : Option UInt8
  reads : Ps2Reads
  deriving DecidableEq

/-- `ps2_read_data`. `data` is the byte at the pointer, if the pointer is not `NULL`. -/
def ps2ReadData (c : Ps2Controller) (fuel : Nat) (data : Option UInt8) (timeout : Int) (r : Ps2Reads) :
    Option Ps2Result :=
  let (status, r) := ps2GetStatus c r
  (ps2ReadDataLoop c fuel status timeout r).map fun (timeout, r) =>
    if timeout ≠ 0 then ⟨true, data.map fun _ => c.data r.data, { r with data := r.data + 1 }⟩
    else ⟨false, data, r⟩

/-- `ps2_read_data_block`: wait without a timeout. -/
def ps2ReadDataBlock (c : Ps2Controller) (fuel : Nat) (r : Ps2Reads) : Option Ps2Result :=
  ps2ReadData c fuel (some 0) (-1) r

/-- What a call of `ps2_read_data` that made the polls `r.status`, `r.status + 1`, ... is for: if one of them
said that there is a byte, then the data port was read once, the byte stored and `true` returned; and
`false` is returned, without a read, only if none of them did. -/
structure Ps2Result.KeepsByte (c : Ps2Controller) (data : Option UInt8) (r : Ps2Reads) (res : Ps2Result) : Prop where
  seen : ∀ i, r.status ≤ i → i < res.reads.status → outputStatus (c.status i) →
    res.ok = true ∧ res.reads.data = r.data + 1 ∧ res.data = data.map fun _ => c.data r.data
  unseen : res.ok = false → res.reads.data = r.data ∧
    ∀ i, r.status ≤ i → i < res.reads.status → ¬ outputStatus (c.status i)

/-- The byte is there for the first time at poll `k` of the call. -/
def ReadyAt (c : Ps2Controller) (r : Ps2Reads) (k : Nat) : Prop :=
  (∀ j, j < k → ¬ outputStatus (c.status (r.status + j))) ∧ outputStatus (c.status (r.status + k))

/-- `ps2_read_data` with this timeout keeps the byte: it returns if it counts down or a byte comes, and
whenever it returns it has kept the byte. -/
structure KeepsByte (c : Ps2Controller) (data : Option UInt8) (timeout : Int) (r : Ps2Reads) : Prop where
  returns : 0 < timeout ∨ (∃ k, ReadyAt c r k) → ∃ fuel, (ps2ReadData c fuel data timeout r).isSome
  keeps : ∀ fuel res, ps2ReadData c fuel data timeout r = some res → res.KeepsByte c data r

section
variable {c : Ps2Controller} {r : Ps2Reads} {fuel k : Nat} {timeout : Int} {data : Option UInt8}

/-- The timeout after `k` turns of the loop. -/
def timeoutAfter (timeout : Int) (k : Nat) : Int := if 0 < timeout then timeout - k else timeout

/-- The loop turns as long as there is no byte and the timeout has not counted down. -/
theorem ps2ReadDataLoop_turns (hclear : ∀ j, j < k → ¬ outputStatus (c.status (r.status + j)))
    (hk : timeout < 0 ∨ (k : Int) ≤ timeout) :
    ps2ReadDataLoop c (fuel + k) (c.status r.status) timeout { r with status := r.status + 1 } =
      ps2ReadDataLoop c fuel (c.status (r.status + k)) (timeoutAfter timeout k)
        { r with status := r.status + k + 1 } := by
  induction k generalizing fuel with
  | zero => simp [timeoutAfter]
  | succ k ih =>
    have hturn : (!outputStatus (c.status (r.status + k)) && timeoutAfter timeout k != 0) = true := by
      have hne : timeoutAfter timeout k ≠ 0 := by
        rw [timeoutAfter]
        split <;> omega
      simpa [hne] using hclear k (Nat.lt_succ_self k)
    have hnext : (if timeoutAfter timeout k > 0 then timeoutAfter timeout k - 1 else timeoutAfter timeout k) =
        timeoutAfter timeout (k + 1) := by
      simp only [timeoutAfter]
      split_ifs <;> omega
    have hfuel : fuel + (k + 1) = fuel + 1 + k := by omega
    rw [hfuel, ih (fun j hj => hclear j (by omega)) (by omega), ps2ReadDataLoop, if_pos hturn, hnext]
    rfl

/-- As many turns as the fuel allows. -/
theorem ps2ReadDataLoop_eq_none (hclear : ∀ j, j < k → ¬ outputStatus (c.status (r.status + j)))
    (hk : timeout < 0 ∨ (k : Int) ≤ timeout) :
    ps2ReadDataLoop c k (c.status r.status) timeout { r with status := r.status + 1 } = none := by
  have hturns := @ps2ReadDataLoop_turns c r 0 k timeout hclear hk
  rw [Nat.zero_add] at hturns
  rw [hturns, ps2ReadDataLoop]

/-- The loop ends after `k` turns: with a byte, or with the timeout at 0. -/
structure EndsAfter (c : Ps2Controller) (r : Ps2Reads) (timeout : Int) (k : Nat) : Prop where
  clear : ∀ j, j < k → ¬ outputStatus (c.status (r.status + j))
  left : timeout < 0 ∨ (k : Int) ≤ timeout
  stop : outputStatus (c.status (r.status + k)) ∨ timeoutAfter timeout k = 0

/-- The result after `k` turns. -/
def resultAfter (c : Ps2Controller) (data : Option UInt8) (timeout : Int) (r : Ps2Reads) (k : Nat) : Ps2Result :=
  if timeoutAfter timeout k ≠ 0 then
    ⟨true, data.map fun _ => c.data r.data, ⟨r.status + k + 1, r.data + 1⟩⟩
  else ⟨false, data, ⟨r.status + k + 1, r.data⟩⟩

/-- A call whose loop ends after `k` turns. -/
theorem EndsAfter.ps2ReadData (h : EndsAfter c r timeout k) (data : Option UInt8) (fuel : Nat) :
    ps2ReadData c fuel data timeout r = if fuel ≤ k then none else some (resultAfter c data timeout r k) := by
  rw [BanjOS.ps2ReadData]
  dsimp only [ps2GetStatus]
  split
  case isTrue hle =>
    have hleft := h.left
    rw [ps2ReadDataLoop_eq_none (fun j hj => h.clear j (by omega)) (by omega)]
    rfl
  case isFalse hlt =>
    obtain ⟨f, rfl⟩ : ∃ f, fuel = f + 1 + k := ⟨fuel - k - 1, by omega⟩
    have hstop : ¬ (!outputStatus (c.status (r.status + k)) && timeoutAfter timeout k != 0) = true := by
      obtain hout | hzero := h.stop
      · simp [hout]
      · simp [hzero]
    rw [ps2ReadDataLoop_turns h.clear h.left, ps2ReadDataLoop, if_neg hstop, Option.map_some, resultAfter]

/-- A loop that does not end: there is no timeout and never a byte. -/
theorem ps2ReadData_waits (h : ∀ k, ¬ EndsAfter c r timeout k) (hne : timeout ≠ 0) :
    timeout < 0 ∧ (∀ k, ¬ ReadyAt c r k) ∧ ∀ fuel data, ps2ReadData c fuel data timeout r = none := by
  have hclear : ∀ k : Nat, (timeout < 0 ∨ (k : Int) ≤ timeout) → ∀ j : Nat, j < k →
      ¬ outputStatus (c.status (r.status + j)) := by
    intro k hk j
    induction j using Nat.strong_induction_on with
    | _ j ih =>
      intro hj hout
      exact h j ⟨fun i hi => ih i hi (by omega), by omega, .inl hout⟩
  have hneg : timeout < 0 := by
    by_contra hpos
    refine h timeout.toNat ⟨hclear _ (by omega), by omega, .inr ?_⟩
    rw [timeoutAfter, if_pos (by omega)]
    omega
  refine ⟨hneg, fun k hk => h k ⟨hk.1, .inl hneg, .inl hk.2⟩, fun fuel data => ?_⟩
  rw [ps2ReadData]
  dsimp only [ps2GetStatus]
  rw [ps2ReadDataLoop_eq_none (hclear fuel (.inl hneg)) (.inl hneg)]
  rfl

/-- The only way to leave a byte behind: it comes when the timeout has just counted down. -/
theorem EndsAfter.keepsByte_iff (h : EndsAfter c r timeout k) :
    (resultAfter c data timeout r k).KeepsByte c data r ↔ ¬ ((k : Int) = timeout ∧ ReadyAt c r k) := by
  have hzero : timeoutAfter timeout k = 0 ↔ (k : Int) = timeout := by
    have := h.left
    rw [timeoutAfter]
    split_ifs <;> omega
  by_cases heq : (k : Int) = timeout
  case neg =>
    have hres : resultAfter c data timeout r k =
        ⟨true, data.map fun _ => c.data r.data, ⟨r.status + k + 1, r.data + 1⟩⟩ :=
      if_pos fun h0 => heq (hzero.1 h0)
    rw [hres]
    exact iff_of_true ⟨fun i _ _ _ => ⟨rfl, rfl, rfl⟩, nofun⟩ fun hc => heq hc.1
  case pos =>
    have hres : resultAfter c data timeout r k = ⟨false, data, ⟨r.status + k + 1, r.data⟩⟩ :=
      if_neg (not_not.2 (hzero.2 heq))
    rw [hres]
    constructor
    · intro hk ⟨_, hready⟩
      have hseen := hk.seen (r.status + k) (Nat.le_add_right ..) (Nat.lt_succ_self _) hready.2
      cases hseen.1
    · intro hno
      have hclear : ∀ i, r.status ≤ i → i < r.status + k + 1 → ¬ outputStatus (c.status i) := by
        intro i hi hlt hout
        obtain ⟨j, rfl⟩ := Nat.exists_eq_add_of_le hi
        obtain hj | rfl : j < k ∨ j = k := by omega
        · exact h.clear j hj hout
        · exact hno ⟨heq, h.clear, hout⟩
      exact ⟨fun i hi hlt hout => absurd hout (hclear i hi hlt), fun _ => ⟨rfl, hclear⟩⟩

/-- Without a timeout the first byte that comes is read. -/
theorem ReadyAt.ps2ReadDataBlock (h : ReadyAt c r k) (hfuel : k < fuel) :
    ps2ReadDataBlock c fuel r = some ⟨true, some (c.data r.data), ⟨r.status + k + 1, r.data + 1⟩⟩ := by
  have hends : EndsAfter c r (-1) k := ⟨h.1, .inl (by decide), .inl h.2⟩
  rw [BanjOS.ps2ReadDataBlock, hends.ps2ReadData, if_neg (Nat.not_le_of_lt hfuel)]
  rfl

end

/-- For every controller and every timeout but 0: `ps2_read_data` keeps the byte iff the byte is not there for
the first time at the last poll before the timeout. -/
theorem ps2ReadData_keepsByte_iff {c : Ps2Controller} {r : Ps2Reads} {timeout : Int} {data : Option UInt8}
    (hne : timeout ≠ 0) : KeepsByte c data timeout r ↔ ¬ ∃ k : Nat, (k : Int) = timeout ∧ ReadyAt c r k := by
  by_cases hends : ∃ k, EndsAfter c r timeout k
  case pos =>
    obtain ⟨k, hk⟩ := hends
    have hresult : KeepsByte c data timeout r ↔ (resultAfter c data timeout r k).KeepsByte c data r := by
      constructor
      · intro h
        exact h.keeps (k + 1) _ (by rw [hk.ps2ReadData, if_neg (by omega)])
      · intro h
        refine ⟨fun _ => ⟨k + 1, by rw [hk.ps2ReadData, if_neg (by omega)]; rfl⟩, fun fuel res hres => ?_⟩
        rw [hk.ps2ReadData] at hres
        split at hres
        · cases hres
        · cases hres
          exact h
    rw [hresult, hk.keepsByte_iff, not_iff_not]
    constructor
    · intro h
      exact ⟨k, h⟩
    · rintro ⟨k', htimeout, hready⟩
      have hkk : k = k' := by
        have hleft := hk.left
        obtain hout | hzero := hk.stop
        · have hle : ¬ k < k' := fun hlt => hready.1 k hlt hout
          omega
        · rw [timeoutAfter] at hzero
          split at hzero <;> omega
      exact hkk ▸ ⟨htimeout, hready⟩
  case neg =>
    obtain ⟨hneg, hnever, hnone⟩ := ps2ReadData_waits (not_exists.1 hends) hne
    refine iff_of_true ⟨?_, fun fuel res hres => ?_⟩ fun ⟨k, _, hk⟩ => hnever k hk
    · rintro (hpos | ⟨k, hk⟩)
      · omega
      · exact absurd hk (hnever k)
    · rw [hnone] at hres
      cases hres

/-- A controller that has a byte from its third status on. -/
def latePs2Controller : Ps2Controller := ⟨fun i => if 2 ≤ i then 1 else 0, fun _ => 0xFA⟩

/-- With a timeout of 3 the byte is kept. -/
theorem ps2ReadData_keepsByte_three : KeepsByte latePs2Controller (some 0) 3 ⟨0, 0⟩ := by
  refine (ps2ReadData_keepsByte_iff (by decide)).2 ?_
  rintro ⟨k, htimeout, hready⟩
  obtain rfl : k = 3 := by omega
  exact hready.1 2 (by decide) (by decide)

/-- With a timeout of 2 the third status, which is the last one, says that there is a byte, and `false` is
returned. -/
theorem ps2ReadData_drops_byte : ps2ReadData latePs2Controller 3 (some 0) 2 ⟨0, 0⟩ = some ⟨false, some 0, ⟨3, 0⟩⟩ ∧
    outputStatus (latePs2Controller.status 2) = true ∧ ¬ KeepsByte latePs2Controller (some 0) 2 ⟨0, 0⟩ := by
  have hrun : ps2ReadData latePs2Controller 3 (some 0) 2 ⟨0, 0⟩ = some ⟨false, some 0, ⟨3, 0⟩⟩ := by decide
  refine ⟨hrun, by decide, fun h => ?_⟩
  have hseen := (h.keeps 3 _ hrun).seen 2 (by decide) (by decide) (by decide)
  cases hseen.1

end BanjOS
