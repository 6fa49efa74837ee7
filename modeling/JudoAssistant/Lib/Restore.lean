import JudoAssistant.Lib.Effect

/-!
# Computations that are restored

A computation is restorable if what `undo` makes of its result returns from every state that looks like
the one it has left, and then the state looks as before.  Unlike `Revocable` this says that the undo does
not fail.
-/

namespace Effect

variable {ε σ α β γ : Type} {J I : σ → Prop} {view : σ → γ} {P : β → Prop} {o o' : γ}

/-- The computation keeps the one invariant, and from every state under the other one that looks like the
one it has left, what `undo` makes of its result returns and restores the view. -/
def Restorable (J I : σ → Prop) (view : σ → γ) (x : EStateM ε σ α) (undo : α → EStateM ε σ β)
    (P : β → Prop) : Prop :=
  ∀ ⦃t a t'⦄, J t → x t = .ok a t' → J t' ∧ Recovers I view (undo a) P (view t') (view t)

namespace Recovers

theorem map {y : EStateM ε σ α} {f : α → β} {Q : α → Prop} (h : Recovers I view y Q o o')
    (hf : ∀ a, Q a → P (f a)) : Recovers I view (f <$> y) P o o' := by
  intro u hu ho
  obtain ⟨a, u', ha, hu', ho', hQ⟩ := h hu ho
  exact ⟨f a, u', map_ok.2 ⟨a, ha, rfl⟩, hu', ho', hf a hQ⟩

/-- A part of the state that the computation leaves is restored with the view. -/
theorem prod {δ : Type} {part : σ → δ} {d : δ} {y : EStateM ε σ β} (h : Recovers I view y P o o')
    (hframe : Frame part y) : Recovers I (fun s => (view s, part s)) y P (o, d) (o', d) := by
  intro u hu ho
  obtain ⟨ho, hd⟩ := Prod.mk.inj ho
  obtain ⟨b, u', hb, hu', ho', hP⟩ := h hu ho
  exact ⟨b, u', hb, hu', Prod.ext ho' ((hframe hb).trans hd), hP⟩

end Recovers

end Effect
