import BanjOS.Lib.Run

/-!
# Loops over addresses in equal steps

`strideLoop` calls a body that may stop at `a`, `a + stride`, and so on. `strideCalls` are the addresses it is
called at, the call that stops the loop included. They are the first addresses of the loop, and they are
all of them if and only if every call but the last one returns (`strideCalls_succ_eq_iff`).
-/

section
variable {σ ε : Type} (stride : Nat) (f : Nat → σ → Except ε σ)

/-- `n` iterations from the address `a` on. -/
def strideLoop : (n a : Nat) → σ → Except ε σ
  | 0, _, s => .ok s
  | n + 1, a, s => f a s >>= strideLoop n (a + stride)

/-- The addresses of the calls. -/
def strideCalls : (n a : Nat) → σ → List Nat
  | 0, _, _ => []
  | n + 1, a, s =>
    a :: match f a s with
      | .ok s => strideCalls n (a + stride) s
      | .error _ => []

variable {stride f} {s s' : σ} {n a : Nat}

/-- The calls are at the first addresses of the loop. -/
theorem strideCalls_prefix (n a : Nat) (s : σ) : strideCalls stride f n a s <+: List.range' a n stride := by
  induction n generalizing a s with
  | zero => exact List.prefix_rfl
  | succ n ih =>
    rw [strideCalls, List.range'_succ, List.cons_prefix_cons]
    refine ⟨rfl, ?_⟩
    cases f a s with
    | error e => exact List.nil_prefix
    | ok s₁ => exact ih (a + stride) s₁

/-- A loop that returns has called its body at all addresses. -/
theorem strideCalls_of_ok (h : strideLoop stride f n a s = .ok s') :
    strideCalls stride f n a s = List.range' a n stride := by
  induction n generalizing a s with
  | zero => rfl
  | succ n ih =>
    obtain ⟨s₁, hf, hloop⟩ := Except.bind_eq_ok.1 h
    rw [strideCalls, List.range'_succ, hf]
    exact congrArg (List.cons a) (ih hloop)

/-- All addresses are called iff all calls but the last one return. -/
theorem strideCalls_succ_eq_iff : strideCalls stride f (n + 1) a s = List.range' a (n + 1) stride ↔
    ∃ s', strideLoop stride f n a s = .ok s' := by
  induction n generalizing a s with
  | zero =>
    refine ⟨fun _ => ⟨s, rfl⟩, fun _ => ?_⟩
    rw [strideCalls]
    cases f a s <;> rfl
  | succ n ih =>
    rw [strideCalls, List.range'_succ, List.cons.injEq, strideLoop]
    cases f a s with
    | error e =>
      constructor
      · rintro ⟨-, h⟩
        cases h
      · rintro ⟨s', h⟩
        cases h
    | ok s₁ => exact ⟨fun h => ih.1 h.2, fun h => ⟨rfl, ih.2 h⟩⟩

end
