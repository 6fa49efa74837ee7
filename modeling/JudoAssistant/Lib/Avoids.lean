import JudoAssistant.Lib.Effect

/-!
# Errors that a computation does not end in

`Avoids e x s` says that the computation does not fail with the error `e` in the state `s`.  The rules follow
how a computation is built; a computation that is run after another one starts where that one has returned.
-/

namespace Effect

variable {ε σ α β : Type} {e : ε} {s : σ}

theorem except_bind_ne {x : Except ε α} {f : α → Except ε β} (hx : x ≠ .error e)
    (hf : ∀ a, x = .ok a → f a ≠ .error e) : (x >>= f) ≠ .error e := by
  cases x with
  | error e' =>
    intro h
    cases h
    exact hx rfl
  | ok a => exact hf a rfl

/-- The computation does not fail with the error. -/
def Avoids (e : ε) (x : EStateM ε σ α) (s : σ) : Prop := ∀ s', x s ≠ .error e s'

namespace Avoids

theorem pure {a : α} : Avoids e (Pure.pure a : EStateM ε σ α) s := fun _ h => nomatch h

theorem throw {e' : ε} (h : e' ≠ e) : Avoids e (MonadExcept.throw e' : EStateM ε σ α) s := by
  intro s' hthrow
  cases hthrow
  exact h rfl

theorem bind {x : EStateM ε σ α} {f : α → EStateM ε σ β} (hx : Avoids e x s)
    (hf : ∀ a s₁, x s = .ok a s₁ → Avoids e (f a) s₁) : Avoids e (x >>= f) s := by
  intro s' herror
  change EStateM.bind x f s = _ at herror
  unfold EStateM.bind at herror
  cases hrun : x s with
  | error e' s₁ =>
    rw [hrun] at herror
    cases herror
    exact hx s' hrun
  | ok a s₁ =>
    rw [hrun] at herror
    exact hf a s₁ hrun s' herror

theorem get : Avoids e (MonadState.get : EStateM ε σ σ) s := fun _ h => nomatch h

theorem set {s₁ : σ} : Avoids e (MonadStateOf.set s₁ : EStateM ε σ PUnit) s := fun _ h => nomatch h

theorem modify {f : σ → σ} : Avoids e (modify f : EStateM ε σ PUnit) s := fun _ h => nomatch h

theorem lift {x : Except ε α} (h : x ≠ .error e) : Avoids e (lift x : EStateM ε σ α) s := by
  intro s' hlift
  cases x with
  | error e' =>
    cases hlift
    exact h rfl
  | ok a => cases hlift

theorem error {x : EStateM ε σ α} {f : α → EStateM ε σ β} {s' : σ} (hx : x s = .error e s') :
    ¬Avoids e (x >>= f) s := by
  intro h
  refine h s' ?_
  show EStateM.bind x f s = _
  unfold EStateM.bind
  rw [hx]

/-- What is run after a computation that returns. -/
theorem after {x : EStateM ε σ α} {f : α → EStateM ε σ β} {a : α} {s₁ : σ} (h : Avoids e (x >>= f) s)
    (hx : x s = .ok a s₁) : Avoids e (f a) s₁ := by
  intro s' herror
  refine h s' ?_
  show EStateM.bind x f s = _
  unfold EStateM.bind
  rw [hx]
  exact herror

theorem first {x : EStateM ε σ α} {f : α → EStateM ε σ β} (h : Avoids e (x >>= f) s) : Avoids e x s :=
  fun _ herror => error herror h

theorem of_lift {x : Except ε α} (h : Avoids e (Effect.lift x : EStateM ε σ α) s) : x ≠ .error e := by
  rintro rfl
  exact h s rfl

end Avoids

end Effect
