import Mathlib.Logic.Basic

/-!
# Triples for code with a state that may stop

Code is a function from a state to what it returns and the next state, or to the reason why it stops. `Hoare P x Q E` says
that `x`, started where `P` holds, returns and then `Q` holds of what it returns and of the state after it, or stops for a
reason in `E`. With all reasons in `E` this is partial correctness, with none total correctness. The rules take a program
apart along its sequences of calls.
-/

section
variable {σ ε α β : Type}

/-- If `x` starts where `P` holds, it stops for a reason in `E`, or it returns and `Q` holds. -/
def Hoare (P : σ → Prop) (x : StateT σ (Except ε) α) (Q : α → σ → Prop) (E : ε → Prop) : Prop :=
  ∀ s, P s → (∃ e, x s = .error e ∧ E e) ∨ ∃ a s', x s = .ok (a, s') ∧ Q a s'

namespace Hoare

variable {P P' : σ → Prop} {Q Q' : α → σ → Prop} {R : β → σ → Prop} {E E' : ε → Prop} {x : StateT σ (Except ε) α}
  {f : α → StateT σ (Except ε) β}

/-- Code that does nothing. -/
theorem pure (a : α) (h : ∀ s, P s → Q a s) : Hoare P (Pure.pure a : StateT σ (Except ε) α) Q E :=
  fun s hP => .inr ⟨a, s, rfl, h s hP⟩

/-- One call after another. -/
theorem bind (hx : Hoare P x Q E) (hf : ∀ a, Hoare (Q a) (f a) R E) : Hoare P (x >>= f) R E := by
  intro s hP
  have hbind : (x >>= f) s = x s >>= fun r => f r.1 r.2 := rfl
  rw [hbind]
  rcases hx s hP with ⟨e, he, hE⟩ | ⟨a, s', ha, hQ⟩
  · rw [he]
    exact .inl ⟨e, rfl, hE⟩
  · rw [ha]
    exact hf a s' hQ

/-- A call after one that returns a value with a property. -/
theorem bind_of {p : α → Prop} (hx : Hoare P x (fun a s => p a ∧ Q a s) E) (hf : ∀ a, p a → Hoare (Q a) (f a) R E) :
    Hoare P (x >>= f) R E :=
  hx.bind fun a s h => hf a h.1 s h.2

/-- A call after one that returns a value with two properties. -/
theorem bind_and {p q : α → Prop} (hx : Hoare P x (fun a s => (p a ∧ q a) ∧ Q a s) E)
    (hf : ∀ a, p a → q a → Hoare (Q a) (f a) R E) : Hoare P (x >>= f) R E :=
  hx.bind_of fun a h => hf a h.1 h.2

/-- A call after one of which it is known what it returns. -/
theorem bind_eq {a : α} (hx : Hoare P x (fun b s => b = a ∧ P' s) E) (hf : Hoare P' (f a) R E) : Hoare P (x >>= f) R E :=
  hx.bind_of fun _ hb => hb ▸ hf

/-- What follows a call that never returns is not run. -/
theorem stops (hx : Hoare P x (fun _ _ => False) E) : Hoare P (x >>= f) R E := hx.bind fun _ _ h => h.elim

/-- A weaker statement. -/
theorem weaken (h : Hoare P x Q E) (hP : ∀ s, P' s → P s) (hQ : ∀ a s, Q a s → Q' a s) : Hoare P' x Q' E :=
  fun s hP' => (h s (hP s hP')).imp_right fun ⟨a, s', ha, hQ'⟩ => ⟨a, s', ha, hQ a s' hQ'⟩

/-- More reasons to stop. -/
theorem allow (h : Hoare P x Q E) (hE : ∀ e, E e → E' e) : Hoare P x Q E' :=
  fun s hP => (h s hP).imp_left fun ⟨e, he, hE'⟩ => ⟨e, he, hE e hE'⟩

/-- A fact that does not depend on the state. -/
theorem of_pre {p : Prop} (hp : ∀ s, P s → p) (h : p → Hoare P x Q E) : Hoare P x Q E := fun s hP => h (hp s hP) s hP

/-- What holds when `x` has returned. -/
theorem of_ok (h : Hoare P x Q E) {s s' : σ} {a : α} (hP : P s) (hx : x s = .ok (a, s')) : Q a s' := by
  rcases h s hP with ⟨e, he, -⟩ | ⟨b, s'', hb, hQ⟩
  · cases hx.symm.trans he
  · cases hx.symm.trans hb
    exact hQ

end Hoare

end
