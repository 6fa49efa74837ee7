import Mathlib.Logic.Function.Basic
import Mathlib.Order.Nat

/-!
# Shifting the contents of numbered names

A store keeps a content under some of its names.  The contents of the names with the numbers from `n` to
`r` are moved to the next number, from the greatest number down, so that only the content of the number `r`
is overwritten.
-/

namespace Shift

variable {Name α : Type} {f f' : Name → Option α} {name : ℕ → Name} {n r : ℕ}

/-- Move the content of a name to another name. -/
def move [DecidableEq Name] (f : Name → Option α) (source target : Name) : Name → Option α :=
  Function.update (Function.update f source none) target (f source)

/-- The contents of the numbers from `n` up to `r` are moved to the next number, and nothing else changes. -/
structure Shifted (name : ℕ → Name) (n r : ℕ) (f f' : Name → Option α) : Prop where
  moved : ∀ i, n ≤ i → i < r → f' (name (i + 1)) = f (name i)
  vacated : n < r → f' (name n) = none
  untouched : ∀ x, (n < r → ∀ i, n ≤ i → i ≤ r → x ≠ name i) → f' x = f x

theorem Shifted.refl (name : ℕ → Name) (n : ℕ) (f : Name → Option α) : Shifted name n n f f where
  moved _ hle hlt := absurd hle (Nat.not_le.2 hlt)
  vacated hlt := absurd hlt (lt_irrefl n)
  untouched _ _ := rfl

/-- A content that is not under the last number is kept, under its own number or under the next one. -/
theorem Shifted.kept (h : Shifted name n r f f') {x : Name} (hx : n < r → x ≠ name r) :
    f' x = f x ∨ ∃ i, n ≤ i ∧ i < r ∧ x = name i ∧ f' (name (i + 1)) = f x := by
  by_cases hmoved : ∃ i, n ≤ i ∧ i < r ∧ x = name i
  · obtain ⟨i, hle, hlt, rfl⟩ := hmoved
    exact .inr ⟨i, hle, hlt, rfl, h.moved i hle hlt⟩
  · refine .inl (h.untouched x fun hlt i hle hir heq => ?_)
    obtain rfl | hir := hir.eq_or_lt
    · exact hx hlt heq
    · exact hmoved ⟨i, hle, hir, heq⟩

variable [DecidableEq Name]

theorem move_source {source target : Name} (h : source ≠ target) : move f source target source = none := by
  rw [move, Function.update_of_ne h, Function.update_self]

theorem move_target {source target : Name} : move f source target target = f source := Function.update_self _ _ _

theorem move_of_ne {source target x : Name} (hs : x ≠ source) (ht : x ≠ target) : move f source target x = f x := by
  rw [move, Function.update_of_ne ht, Function.update_of_ne hs]

/-- One more content is moved after those above it. -/
theorem Shifted.move (hname : Function.Injective name) (h : Shifted name (n + 1) r f f') (hlt : n < r) :
    Shifted name n r f (move f' (name n) (name (n + 1))) := by
  have hbelow : f' (name n) = f (name n) :=
    h.untouched _ fun _ i hle _ heq => absurd (hname heq) (Nat.ne_of_lt hle)
  have hne : ∀ {i j : ℕ}, i ≠ j → name i ≠ name j := fun hij heq => hij (hname heq)
  refine ⟨fun i hle hi => ?_, fun _ => move_source (hne n.succ_ne_self.symm), fun x hx => ?_⟩
  · obtain rfl | hgt := hle.eq_or_lt
    · rw [move_target, hbelow]
    · rw [move_of_ne (hne (by omega)) (hne (by omega)), h.moved i hgt hi]
  · have hx := hx hlt
    rw [move_of_ne (hx n le_rfl hlt.le) (hx (n + 1) n.le_succ hlt)]
    exact h.untouched x fun _ i hle => hx i (n.le_succ.trans hle)

end Shift
