/-!
# One step after another

How a sequence of two steps runs that change a state and may fail: the second runs on what the first
gives and leaves, unless the first fails.
-/

namespace Script

variable {ε σ α β γ : Type} {s s' : σ}

theorem bind_ok {x : EStateM ε σ α} {f : α → EStateM ε σ β} {a : α} (h : x s = .ok a s') :
    (x >>= f) s = f a s' := by
  show EStateM.bind x f s = _
  rw [EStateM.bind, h]

theorem bind_error {x : EStateM ε σ α} {f : α → EStateM ε σ β} {e : ε}
    (h : x s = .error e s') : (x >>= f) s = .error e s' := by
  show EStateM.bind x f s = _
  rw [EStateM.bind, h]

theorem bind_bind_ok {x : EStateM ε σ α} {f : α → EStateM ε σ β} {g : β → EStateM ε σ γ} {a : α}
    (h : x s = .ok a s') : ((x >>= f) >>= g) s = (f a >>= g) s' := by
  rw [bind_assoc, bind_ok h]

theorem bind_congr_left {x y : EStateM ε σ α} {f : α → EStateM ε σ β} (h : x s = y s') :
    (x >>= f) s = (y >>= f) s' := by
  show EStateM.bind x f s = EStateM.bind y f s'
  rw [EStateM.bind, EStateM.bind, h]

/-- Where the first step has led, the second may be replaced by one that does the same there. -/
theorem bind_congr_right {x : EStateM ε σ α} {f g : α → EStateM ε σ β}
    (h : ∀ a s', x s = .ok a s' → f a s' = g a s') : (x >>= f) s = (x >>= g) s := by
  cases hx : x s with
  | ok a s' => rw [bind_ok hx, bind_ok hx, h a s' hx]
  | error e s' => rw [bind_error hx, bind_error hx]

theorem get_bind {f : σ → EStateM ε σ α} : (get >>= f) s = f s s :=
  rfl

/-- A sequence succeeds exactly if both steps do, the second where the first has left off. -/
theorem bind_eq_ok_iff {x : EStateM ε σ α} {f : α → EStateM ε σ β} {b : β} {s'' : σ} :
    (x >>= f) s = .ok b s'' ↔ ∃ a s', x s = .ok a s' ∧ f a s' = .ok b s'' := by
  constructor
  · intro h
    cases hx : x s with
    | ok a s' =>
      rw [bind_ok hx] at h
      exact ⟨a, s', rfl, h⟩
    | error e s' =>
      rw [bind_error hx] at h
      cases h
  · rintro ⟨a, s', hx, hf⟩
    rw [bind_ok hx, hf]

end Script
