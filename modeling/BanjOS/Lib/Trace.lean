import Mathlib.Init

/-!
# Runs with their history

A run of a system whose steps are labelled with events: `Trace step s es t` goes from `s` to `t` by the events `es`, in
order. `Trace.simulate` is forward simulation: if every step of one system can be matched by a step of another one with the
same event, then the two have the same histories.
-/

variable {α β ε : Type}

/-- A run, with the events on the way. -/
inductive Trace (step : α → ε → α → Prop) : α → List ε → α → Prop
  | nil (s : α) : Trace step s [] s
  | snoc {s t u : α} {es : List ε} {e : ε} : Trace step s es t → step t e u → Trace step s (es ++ [e]) u

namespace Trace

variable {step : α → ε → α → Prop} {step' : β → ε → β → Prop} {s t : α} {es : List ε}

/-- One step. -/
theorem single {e : ε} (h : step s e t) : Trace step s [e] t := snoc (nil s) h

/-- What holds at the start and survives every step holds at the end. -/
theorem invariant (h : Trace step s es t) (Inv : α → Prop) (h₀ : Inv s) (hstep : ∀ s e t, step s e t → Inv s → Inv t) :
    Inv t := by
  induction h with
  | nil => exact h₀
  | snoc _ hst ih => exact hstep _ _ _ hst ih

/-- Forward simulation: the other system has a run with the same events. -/
theorem simulate (h : Trace step s es t) (R : α → β → Prop) {s' : β} (h₀ : R s s')
    (hstep : ∀ s e t s', step s e t → R s s' → ∃ t', step' s' e t' ∧ R t t') : ∃ t', Trace step' s' es t' ∧ R t t' := by
  induction h with
  | nil => exact ⟨s', nil s', h₀⟩
  | snoc _ hst ih =>
    rcases ih with ⟨t', htrace, hR⟩
    rcases hstep _ _ _ _ hst hR with ⟨u', hst', hR'⟩
    exact ⟨u', snoc htrace hst', hR'⟩

end Trace
