import Mathlib.Logic.Relation

/-!
# Computations that may stop, and runs of steps

Code that can halt is a function into `Except`; `Except.bind_eq_ok` and its two companions take a
sequence of such calls apart without unfolding them. A run is the reflexive transitive closure of a
step relation, and `Relation.ReflTransGen.invariant` is the one induction behind every safety
theorem: what holds at the start and survives a step holds along the run.
-/

variable {ε α β : Type}

/-- A sequence of two calls returns iff both do. -/
theorem Except.bind_eq_ok {x : Except ε α} {f : α → Except ε β} {b : β} :
    (x >>= f) = .ok b ↔ ∃ a, x = .ok a ∧ f a = .ok b := by
  cases x with
  | error e => exact ⟨nofun, nofun⟩
  | ok a => exact ⟨fun h => ⟨a, rfl, h⟩, fun ⟨_, ha, h⟩ => by cases ha; exact h⟩

/-- A call after one that returns. -/
@[simp] theorem Except.ok_bind (a : α) (f : α → Except ε β) : (Except.ok a >>= f) = f a := rfl

/-- Nothing is called after a call that stops. -/
@[simp] theorem Except.error_bind (e : ε) (f : α → Except ε β) :
    ((Except.error e : Except ε α) >>= f) = .error e := rfl

/-- A sequence of two calls stops where the first or the second does. -/
theorem Except.bind_eq_error {x : Except ε α} {f : α → Except ε β} {e : ε} :
    (x >>= f) = .error e ↔ x = .error e ∨ ∃ a, x = .ok a ∧ f a = .error e := by
  cases x with
  | error e' => exact ⟨fun h => .inl (by cases h; rfl), fun h => h.elim (by rintro ⟨⟩; rfl) nofun⟩
  | ok a => exact ⟨fun h => .inr ⟨a, rfl, h⟩, fun h => h.elim nofun fun ⟨_, ha, h⟩ => by
      cases ha; exact h⟩

/-- A call that is evaluated to return does return. -/
theorem Except.exists_of_isOk {x : Except ε α} (h : x.isOk = true) : ∃ a, x = .ok a := by
  cases x with
  | error e => cases h
  | ok a => exact ⟨a, rfl⟩

/-- What holds at the start of a run and survives every step holds at its end. -/
theorem Relation.ReflTransGen.invariant {r : α → α → Prop} {s t : α}
    (h : Relation.ReflTransGen r s t) (Inv : α → Prop) (h₀ : Inv s) (hstep : ∀ s t, r s t → Inv s → Inv t) :
    Inv t := by
  induction h with
  | refl => exact h₀
  | tail _ hst ih => exact hstep _ _ hst ih
