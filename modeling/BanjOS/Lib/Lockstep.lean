import BanjOS.Lib.Run

/-!
# Computations in lockstep

Two versions of one piece of code, each of which may stop: `x` over a machine with a resource that can run out, `y` over
a simpler one. `Lockstep e x y P` says that `x` returns and so does `y`, with results related by `P`, unless `x` stops
with `e`. The rules follow the shape of the code, so a simulation between the two versions is proved call by call.
-/

variable {ε ε' α α' β β' : Type}

/-- `x` stops with `e`, or both return, with results that `P` relates. -/
def Lockstep (e : ε) (x : Except ε α) (y : Except ε' β) (P : α → β → Prop) : Prop :=
  x = .error e ∨ ∃ a b, x = .ok a ∧ y = .ok b ∧ P a b

namespace Lockstep

variable {e : ε} {x : Except ε α} {y : Except ε' β} {P P' : α → β → Prop} {f : α → Except ε α'} {g : β → Except ε' β'}
  {Q : α' → β' → Prop}

/-- Both return. -/
theorem pure {a : α} {b : β} (h : P a b) : Lockstep e (.ok a) (.ok b : Except ε' β) P := .inr ⟨a, b, rfl, rfl, h⟩

/-- One call after another. -/
theorem bind (h : Lockstep e x y P) (hf : ∀ a b, y = .ok b → P a b → Lockstep e (f a) (g b) Q) :
    Lockstep e (x >>= f) (y >>= g) Q := by
  rcases h with rfl | ⟨a, b, rfl, rfl, hP⟩
  · exact .inl rfl
  · exact hf a b rfl hP

/-- The same, where it matters what the first call of `x` returned. -/
theorem bind_of_ok (h : Lockstep e x y P) (hf : ∀ a b, x = .ok a → P a b → Lockstep e (f a) (g b) Q) :
    Lockstep e (x >>= f) (y >>= g) Q := by
  rcases h with rfl | ⟨a, b, rfl, rfl, hP⟩
  · exact .inl rfl
  · exact hf a b rfl hP

/-- A weaker relation. -/
theorem mono (h : Lockstep e x y P) (hP : ∀ a b, y = .ok b → P a b → P' a b) : Lockstep e x y P' := by
  rcases h with he | ⟨a, b, hx, hy, hab⟩
  · exact .inl he
  · exact .inr ⟨a, b, hx, hy, hP a b hy hab⟩

/-- What `x` returns is related to what `y` returns. -/
theorem of_ok (h : Lockstep e x y P) {a : α} (hx : x = .ok a) : ∃ b, y = .ok b ∧ P a b := by
  rcases h with he | ⟨a', b, hx', hy, hP⟩
  · cases hx.symm.trans he
  · obtain rfl : a = a' := Except.ok.inj (hx.symm.trans hx')
    exact ⟨b, hy, hP⟩

/-- Where `x` can only run out if `full`, it returns or `full` is the case. -/
theorem upTo {full : Prop} {e' : ε} (hne : e ≠ e') (h : ∀ e₁, (full → e₁ = e) → Lockstep e₁ x y P) :
    (full ∧ x = .error e) ∨ ∃ a b, x = .ok a ∧ y = .ok b ∧ P a b := by
  rcases h e fun _ => rfl with he | hok
  · rcases Classical.em full with hfull | hno
    · exact .inl ⟨hfull, he⟩
    · exact .inr ((h e' fun hfull => absurd hfull hno).resolve_left fun he' =>
        hne (Except.error.inj (he.symm.trans he')))
  · exact .inr hok

/-- If nothing can run out, both return. -/
theorem returns_of_forall {e' : ε} (hne : e ≠ e') (h : ∀ e₁, Lockstep e₁ x y P) : ∃ a b, x = .ok a ∧ y = .ok b ∧ P a b :=
  (upTo hne fun e₁ (_ : False → e₁ = e) => h e₁).resolve_left fun hfull => hfull.1

/-- If it does not run out, `x` returns. -/
theorem returns (h : Lockstep e x y P) : x = .error e ∨ ∃ a, x = .ok a :=
  h.imp_right fun ⟨a, _, hx, _⟩ => ⟨a, hx⟩

end Lockstep
