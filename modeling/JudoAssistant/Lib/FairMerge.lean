import Mathlib.Algebra.Order.Group.Int
import Mathlib.Algebra.Order.Group.Unbundled.Abs
import Mathlib.Tactic.Linarith

/-!
# Merges of two lists that are fair

A merge of two lists is a list of elements that are marked with the list they come from.  It is fair if
after every prefix the fractions of the two lists that have been taken are close to each other.
-/

namespace FairMerge

variable {α : Type}

/-- The elements that come from the first list. -/
def lefts (order : List (α ⊕ α)) : List α := order.filterMap Sum.getLeft?

/-- The elements that come from the second list. -/
def rights (order : List (α ⊕ α)) : List α := order.filterMap Sum.getRight?

/-- The merged list. -/
def merged (order : List (α ⊕ α)) : List α := order.map (Sum.elim id id)

@[simp] theorem lefts_nil : lefts ([] : List (α ⊕ α)) = [] := rfl

@[simp] theorem rights_nil : rights ([] : List (α ⊕ α)) = [] := rfl

@[simp] theorem merged_nil : merged ([] : List (α ⊕ α)) = [] := rfl

@[simp] theorem lefts_inl (a : α) (order : List (α ⊕ α)) : lefts (.inl a :: order) = a :: lefts order := rfl

@[simp] theorem lefts_inr (a : α) (order : List (α ⊕ α)) : lefts (.inr a :: order) = lefts order := rfl

@[simp] theorem rights_inl (a : α) (order : List (α ⊕ α)) : rights (.inl a :: order) = rights order := rfl

@[simp] theorem rights_inr (a : α) (order : List (α ⊕ α)) : rights (.inr a :: order) = a :: rights order := rfl

@[simp] theorem merged_inl (a : α) (order : List (α ⊕ α)) : merged (.inl a :: order) = a :: merged order := rfl

@[simp] theorem merged_inr (a : α) (order : List (α ⊕ α)) : merged (.inr a :: order) = a :: merged order := rfl

theorem perm_merged (order : List (α ⊕ α)) : (merged order).Perm (lefts order ++ rights order) := by
  induction order with
  | nil => exact .refl _
  | cons x order ih =>
    cases x with
    | inl a => exact ih.cons a
    | inr a => exact (ih.cons a).trans List.perm_middle.symm

/-- The fractions `a / n` and `b / k` differ by at most one element of the shorter list. -/
def Balanced (n k a b : ℕ) : Prop := |(a : ℤ) * k - b * n| ≤ max (n : ℤ) k

/-- After every prefix the fractions are balanced, where `a` and `b` elements have been taken before. -/
def Fair (n k a b : ℕ) (order : List (α ⊕ α)) : Prop :=
  ∀ pre, pre <+: order → Balanced n k (a + (lefts pre).length) (b + (rights pre).length)

variable {n k a b : ℕ} {order : List (α ⊕ α)}

theorem balanced_zero (n k : ℕ) : Balanced n k 0 0 := by
  unfold Balanced
  simp

theorem Balanced.swap (h : Balanced n k a b) : Balanced k n b a := by
  unfold Balanced at h ⊢
  rwa [abs_sub_comm, max_comm]

/-- An element of the list that is behind is taken. -/
theorem Balanced.left (h : Balanced n k a b) (hbehind : a * k ≤ b * n) : Balanced n k (a + 1) b := by
  unfold Balanced at h ⊢
  have hbehind : (a : ℤ) * k ≤ b * n := by exact_mod_cast hbehind
  have hmax : (k : ℤ) ≤ max (n : ℤ) k := le_max_right _ _
  have hk : (0 : ℤ) ≤ k := Int.natCast_nonneg k
  rw [abs_le] at h ⊢
  push_cast
  constructor <;> linarith [h.1]

theorem Balanced.right (h : Balanced n k a b) (hbehind : b * n ≤ a * k) : Balanced n k a (b + 1) :=
  (h.swap.left hbehind).swap

theorem fair_nil (h : Balanced n k a b) : Fair n k a b ([] : List (α ⊕ α)) := by
  intro pre hpre
  rw [List.prefix_nil.1 hpre]
  exact h

theorem Fair.inl (h : Balanced n k a b) (hfair : Fair n k (a + 1) b order) (x : α) :
    Fair n k a b (.inl x :: order) := by
  intro pre hpre
  cases pre with
  | nil => exact h
  | cons y pre =>
    obtain ⟨rfl, hrest⟩ := List.cons_prefix_cons.1 hpre
    have hnext := hfair pre hrest
    rwa [Nat.add_right_comm] at hnext

theorem Fair.inr (h : Balanced n k a b) (hfair : Fair n k a (b + 1) order) (x : α) :
    Fair n k a b (.inr x :: order) := by
  intro pre hpre
  cases pre with
  | nil => exact h
  | cons y pre =>
    obtain ⟨rfl, hrest⟩ := List.cons_prefix_cons.1 hpre
    have hnext := hfair pre hrest
    rwa [Nat.add_right_comm] at hnext

end FairMerge
