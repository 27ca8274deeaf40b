import Mathlib.Data.List.Basic

/-!
# Bounded queues

A queue that holds at most `cap` elements, as a list with its next element first. `FifoOp.step` is one
operation and what the caller gets; a `wait` has no result on an empty queue. `fifoRun_conserves` is what
makes it a queue: over a run, the elements that came out followed by those still held are those held at the
start followed by those that were taken in. `runFrom_simulation` carries a run of an implementation over to
a run of the queue, from one lemma on a single operation.
-/

variable {α β σ τ ρ : Type}

/-- The operations of a queue: the two that report failure, and the one that waits for an element. -/
inductive FifoOp (α : Type) where
  | put (a : α)
  | take
  | wait

/-- What an operation returns. -/
inductive FifoResult (α : Type) where
  | put (accepted : Bool)
  | got (a : Option α)
  deriving DecidableEq

/-- One operation on a queue of capacity `cap`; `none` when it has to wait. -/
def FifoOp.step (cap : Nat) : FifoOp α → List α → Option (FifoResult α × List α)
  | .put a, l => if l.length < cap then some (.put true, l ++ [a]) else some (.put false, l)
  | .take, [] => some (.got none, [])
  | .wait, [] => none
  | .take, a :: l | .wait, a :: l => some (.got (some a), l)

/-- The operations `ops` in order, with their results; `none` when one of them has to wait. -/
def runFrom (step : ρ → σ → Option (τ × σ)) : List ρ → σ → Option (List τ × σ)
  | [], s => some ([], s)
  | op :: ops, s => (step op s).bind fun p => (runFrom step ops p.2).map fun q => (p.1 :: q.1, q.2)

/-- The elements that came out. -/
def fifoOutputs (rs : List (FifoResult α)) : List α :=
  rs.filterMap fun
    | .got a => a
    | .put _ => none

/-- The elements that were taken in. -/
def fifoAccepted : List (FifoOp α) → List (FifoResult α) → List α
  | .put a :: ops, .put true :: rs => a :: fifoAccepted ops rs
  | _ :: ops, _ :: rs => fifoAccepted ops rs
  | _, _ => []

section
variable {step : ρ → σ → Option (τ × σ)} {op : ρ} {ops : List ρ} {s s' : σ} {rs : List τ}

@[simp] theorem runFrom_nil : runFrom step [] s = some ([], s) := rfl

/-- A run takes its first step and goes on from there. -/
theorem runFrom_cons_eq_some : runFrom step (op :: ops) s = some (rs, s') ↔
    ∃ r s₁ rs', step op s = some (r, s₁) ∧ runFrom step ops s₁ = some (rs', s') ∧ rs = r :: rs' := by
  simp only [runFrom, Option.bind_eq_some_iff, Option.map_eq_some_iff, Prod.exists, Prod.mk.injEq]
  constructor
  · rintro ⟨r, s₁, h₁, rs', _, h₂, rfl, rfl⟩
    exact ⟨r, s₁, rs', h₁, h₂, rfl⟩
  · rintro ⟨r, s₁, rs', h₁, h₂, rfl⟩
    exact ⟨r, s₁, h₁, rs', s', h₂, rfl, rfl⟩

/-- What a step preserves, a run preserves. -/
theorem runFrom_invariant (Inv : σ → Prop)
    (hstep : ∀ op s r s', step op s = some (r, s') → Inv s → Inv s')
    (h : runFrom step ops s = some (rs, s')) (hs : Inv s) : Inv s' := by
  induction ops generalizing s rs with
  | nil =>
    cases h
    exact hs
  | cons op ops ih =>
    obtain ⟨r, s₁, rs', h₁, h₂, rfl⟩ := runFrom_cons_eq_some.1 h
    exact ih h₂ (hstep _ _ _ _ h₁ hs)

/-- Two machines whose steps agree through `abs` have runs that agree through `abs`. -/
theorem runFrom_simulation {step' : ρ → β → Option (τ × β)} (abs : σ → β) (Inv : σ → Prop)
    (hinv : ∀ op s r s', step op s = some (r, s') → Inv s → Inv s')
    (hsim : ∀ op s, Inv s → (step op s).map (Prod.map id abs) = step' op (abs s)) (hs : Inv s) :
    (runFrom step ops s).map (Prod.map id abs) = runFrom step' ops (abs s) := by
  induction ops generalizing s with
  | nil => rfl
  | cons op ops ih =>
    simp only [runFrom, ← hsim op s hs]
    cases h : step op s with
    | none => rfl
    | some p =>
      have hrun := ih (hinv _ _ _ _ h hs)
      simp only [Option.bind_some, Option.map_some, Prod.map_snd, ← hrun, Option.map_map]
      rfl

end

section
variable {cap : Nat} {op : FifoOp α} {ops : List (FifoOp α)} {l l' : List α} {r : FifoResult α}
  {rs : List (FifoResult α)}

/-- One operation neither loses nor invents an element. -/
theorem FifoOp.step_conserves (h : op.step cap l = some (r, l')) :
    fifoOutputs [r] ++ l' = l ++ fifoAccepted [op] [r] := by
  cases op with
  | put a =>
    simp only [FifoOp.step] at h
    split at h <;> cases h <;> simp [fifoOutputs, fifoAccepted]
  | take | wait => cases l <;> cases h <;> simp [fifoOutputs, fifoAccepted]

theorem fifoOutputs_cons : fifoOutputs (r :: rs) = fifoOutputs [r] ++ fifoOutputs rs := by
  rw [fifoOutputs, ← List.singleton_append, List.filterMap_append]
  rfl

theorem fifoAccepted_cons : fifoAccepted (op :: ops) (r :: rs) = fifoAccepted [op] [r] ++ fifoAccepted ops rs := by
  cases op <;> cases r
  case put.put b => cases b <;> simp [fifoAccepted]
  all_goals simp [fifoAccepted]

/-- What came out, followed by what is still held, is what was held at first and then taken in. -/
theorem fifoRun_conserves (h : runFrom (FifoOp.step cap) ops l = some (rs, l')) :
    fifoOutputs rs ++ l' = l ++ fifoAccepted ops rs := by
  induction ops generalizing l rs with
  | nil =>
    cases h
    simp [fifoOutputs, fifoAccepted]
  | cons op ops ih =>
    obtain ⟨r, l₁, rs', h₁, h₂, rfl⟩ := runFrom_cons_eq_some.1 h
    calc fifoOutputs (r :: rs') ++ l' = fifoOutputs [r] ++ (fifoOutputs rs' ++ l') := by
          rw [fifoOutputs_cons, List.append_assoc]
      _ = fifoOutputs [r] ++ l₁ ++ fifoAccepted ops rs' := by rw [ih h₂, List.append_assoc]
      _ = l ++ fifoAccepted (op :: ops) (r :: rs') := by
          rw [FifoOp.step_conserves h₁, List.append_assoc, ← fifoAccepted_cons]

end
