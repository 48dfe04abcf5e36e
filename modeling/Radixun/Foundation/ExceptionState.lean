import Mathlib.Init

/-! Rules for computations that carry a state and may stop with an error, the state
at that moment being kept. States, errors and results are arbitrary. -/
namespace Radixun.Foundation.ExceptionState
universe u
variable {σ ε α β : Type u}

theorem bind_ok {x : EStateM ε σ α} {f : α → EStateM ε σ β} {s s' : σ} {a : α} (h : x s = .ok a s') :
    (x >>= f) s = f a s' := by
  change EStateM.bind x f s = _
  rw [EStateM.bind, h]

theorem bind_error {x : EStateM ε σ α} {f : α → EStateM ε σ β} {s s' : σ} {e : ε} (h : x s = .error e s') :
    (x >>= f) s = .error e s' := by
  change EStateM.bind x f s = _
  rw [EStateM.bind, h]

/-- A sequence that finished passed through a finished first part. -/
theorem bind_eq_ok {x : EStateM ε σ α} {f : α → EStateM ε σ β} {s t : σ} {b : β} (h : (x >>= f) s = .ok b t) :
    ∃ a s', x s = .ok a s' ∧ f a s' = .ok b t := by
  cases hx : x s with
  | ok a s' => exact ⟨a,s',rfl,by rwa [bind_ok hx] at h⟩
  | error e s' => rw [bind_error hx] at h; cases h

@[simp] theorem ok_bind (a : α) (f : α → Except ε β) : (.ok a >>= f : Except ε β) = f a := rfl
@[simp] theorem error_bind (e : ε) (f : α → Except ε β) : (.error e >>= f : Except ε β) = .error e := rfl

@[simp] theorem ofExcept_ok (a : α) (s : σ) : (ofExcept (.ok a) : EStateM ε σ α) s = .ok a s := rfl
@[simp] theorem ofExcept_error (e : ε) (s : σ) : (ofExcept (.error e) : EStateM ε σ α) s = .error e s := rfl

theorem get_run (f : σ → EStateM ε σ β) (s : σ) : (get >>= f) s = f s s := rfl

theorem ofExcept_bind {r : Except ε α} {a : α} (h : r = .ok a) (f : α → EStateM ε σ β) (s : σ) :
    (MonadExcept.ofExcept r >>= f) s = f a s := by
  subst h
  rfl

theorem ofExcept_stop {r : Except ε α} {e : ε} (h : r = .error e) (f : α → EStateM ε σ β) (s : σ) :
    (MonadExcept.ofExcept r >>= f) s = .error e s := by
  subst h
  rfl

/-- Every ending of `x` that the caller survives leaves a state in `I`. -/
def Keeps (survived : ε → Prop) (I : σ → Prop) (x : EStateM ε σ α) : Prop :=
  ∀ s, I s → match x s with
    | .ok _ s' => I s'
    | .error e s' => survived e → I s'

namespace Keeps
variable {survived : ε → Prop} {I : σ → Prop}

theorem pure (a : α) : Keeps survived I (pure a : EStateM ε σ α) := fun _ hs => hs

theorem throw (e : ε) : Keeps survived I (throw e : EStateM ε σ α) := fun _ hs _ => hs

theorem ofExcept (r : Except ε α) : Keeps survived I (MonadExcept.ofExcept r : EStateM ε σ α) := by
  intro s hs
  cases r with
  | ok a => exact hs
  | error e => exact fun _ => hs

theorem bind {x : EStateM ε σ α} {f : α → EStateM ε σ β} (hx : Keeps survived I x)
    (hf : ∀ a, Keeps survived I (f a)) : Keeps survived I (x >>= f) := by
  intro s hs
  have h := hx s hs
  cases he : x s with
  | ok a s' => rw [he] at h; rw [bind_ok he]; exact hf a s' h
  | error e s' => rw [he] at h; rw [bind_error he]; exact h

theorem map {x : EStateM ε σ α} (f : α → β) (hx : Keeps survived I x) : Keeps survived I (f <$> x) := by
  intro s hs
  have h := hx s hs
  change match EStateM.map f x s with | .ok _ s' => I s' | .error e s' => survived e → I s'
  cases he : x s with
  | ok a s' => rw [he] at h; simpa only [EStateM.map, he] using h
  | error e s' => rw [he] at h; simpa only [EStateM.map, he] using h

theorem get_bind {f : σ → EStateM ε σ β} (hf : ∀ s, I s → Keeps survived I (f s)) :
    Keeps survived I (get >>= f) := fun s hs => hf s hs s hs

end Keeps
end Radixun.Foundation.ExceptionState
