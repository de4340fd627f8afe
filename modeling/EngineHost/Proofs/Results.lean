/-!
# Taking results apart

The facts every inversion in these proofs starts from: a sequence of computations succeeds exactly
when its first step does and the rest succeeds on what that step gave (`bind_eq_ok_iff`); it fails
exactly when its first step does, or the rest on what that step gave (`bind_eq_error_iff`); and a
computation whose result or whose failure is mapped succeeds exactly when the computation does
(`map_eq_ok_iff`, `mapError_eq_ok_iff`).
-/

namespace EngineHost

variable {ε δ α β : Type}

/-- A sequence succeeds if its first step does, and the rest on what that gave. -/
theorem bind_eq_ok_iff {x : Except ε α} {f : α → Except ε β} {b : β} :
    (x >>= f) = .ok b ↔ ∃ a, x = .ok a ∧ f a = .ok b := by
  rcases x with e | a
  · exact ⟨fun h => absurd h (by simp [bind, Except.bind]), fun ⟨_, h, _⟩ => absurd h (by simp)⟩
  · exact ⟨fun h => ⟨a, rfl, h⟩, fun ⟨_, h, hf⟩ => by cases h; exact hf⟩

/-- A step that succeeded leaves the rest. -/
theorem ok_bind (a : α) (f : α → Except ε β) : (Except.ok a >>= f) = f a :=
  rfl

/-- A sequence fails if its first step does, or the rest on what that gave. -/
theorem bind_eq_error_iff {x : Except ε α} {f : α → Except ε β} {e : ε} :
    (x >>= f) = .error e ↔ x = .error e ∨ ∃ a, x = .ok a ∧ f a = .error e := by
  rcases x with e' | a
  · simp [bind, Except.bind]
  · refine ⟨fun h => .inr ⟨a, rfl, h⟩, fun h => ?_⟩
    rcases h with h | ⟨_, h, hf⟩
    · cases h
    · cases h
      exact hf

/-- A mapped result is there if the result is. -/
theorem map_eq_ok_iff {x : Except ε α} {f : α → β} {b : β} :
    x.map f = .ok b ↔ ∃ a, x = .ok a ∧ f a = b := by
  rcases x with e | a
  · exact ⟨fun h => absurd h (by simp [Except.map]), fun ⟨_, h, _⟩ => absurd h (by simp)⟩
  · simp [Except.map]

/-- Rewording a failure does not make a success. -/
theorem mapError_eq_ok_iff {x : Except ε α} {f : ε → δ} {a : α} :
    x.mapError f = .ok a ↔ x = .ok a := by
  rcases x with e | b
  · exact ⟨nofun, nofun⟩
  · exact ⟨fun h => by cases h; rfl, fun h => by cases h; rfl⟩

/-- A computation that succeeds has the result it succeeds with. -/
theorem eq_ok_get {x : Except ε α} (h : x.toOption.isSome = true) : x = .ok (x.toOption.get h) := by
  rcases x with e | a
  · cases h
  · rfl

end EngineHost
