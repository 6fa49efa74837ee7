import Mathlib.Algebra.GroupWithZero.Nat
import Mathlib.Data.List.Nodup
import Mathlib.Data.List.Flatten
import Mathlib.Algebra.BigOperators.Group.List.Basic

/-!
# Lists that take turns

The round robin of lists has their first elements, then their second elements, and so on, where a list
that has ended is passed over.  It is what a queue of the lists gives: the list at its front gives its
next element and goes to the back.
-/

namespace Turns

variable {α : Type}

/-- The elements at a position, in the order of the lists. -/
def round (lists : List (List α)) (i : ℕ) : List α := lists.filterMap (·[i]?)

/-- The number of rounds until all lists have ended. -/
def longest (lists : List (List α)) : ℕ := (lists.map List.length).foldr max 0

/-- The first elements of the lists, then the second elements, and so on. -/
def roundRobin (lists : List (List α)) : List α := (List.range (longest lists)).flatMap (round lists)

/-- What is given where the lists of `front` have had one turn less than those of `back`. -/
def served (front back : List (List α)) : List α :=
  front.filterMap List.head? ++ roundRobin (back ++ (front.filter (· ≠ [])).map List.tail)

variable {x : α} {l : List α} {front back lists : List (List α)} {n : ℕ}

theorem length_le_longest (hl : l ∈ lists) : l.length ≤ longest lists := by
  induction lists with
  | nil => cases hl
  | cons l' lists ih =>
    have hcons : longest (l' :: lists) = max l'.length (longest lists) := rfl
    rw [hcons]
    obtain rfl | hl := List.mem_cons.1 hl
    · exact Nat.le_max_left _ _
    · exact Nat.le_trans (ih hl) (Nat.le_max_right _ _)

/-- More rounds give nothing. -/
theorem roundRobin_eq (hn : ∀ l ∈ lists, l.length ≤ n) :
    roundRobin lists = (List.range n).flatMap (round lists) := by
  have hle : longest lists ≤ n := by
    induction lists with
    | nil => exact Nat.zero_le n
    | cons l lists ih =>
      exact Nat.max_le.2 ⟨hn l List.mem_cons_self, ih fun l' hl' => hn l' (List.mem_cons_of_mem l hl')⟩
  obtain ⟨k, rfl⟩ := Nat.exists_eq_add_of_le hle
  have hnone : ((List.range k).map (longest lists + ·)).flatMap (round lists) = [] := by
    refine List.flatMap_eq_nil_iff.2 fun i hi => ?_
    obtain ⟨j, -, rfl⟩ := List.mem_map.1 hi
    refine List.filterMap_eq_nil_iff.2 fun l hl => List.getElem?_eq_none ?_
    exact Nat.le_trans (length_le_longest hl) (Nat.le_add_right _ _)
  rw [List.range_add, List.flatMap_append, hnone, List.append_nil]
  rfl

/-- The first round and the others. -/
theorem roundRobin_eq_served (lists : List (List α)) : roundRobin lists = served lists [] := by
  have hround : ∀ i, round lists (i + 1) = round ((lists.filter (· ≠ [])).map List.tail) i := by
    intro i
    induction lists with
    | nil => rfl
    | cons l lists ih =>
      cases l with
      | nil => exact ih
      | cons x l =>
        unfold round at ih ⊢
        rw [List.filter_cons_of_pos (by simp), List.map_cons, List.filterMap_cons, List.filterMap_cons, ih]
        rfl
  have hfirst : round lists 0 = lists.filterMap List.head? :=
    List.filterMap_congr fun l _ => (List.head?_eq_getElem? (l := l)).symm
  have hle : ∀ l ∈ lists, l.length ≤ longest lists + 1 := fun l hl => Nat.le_succ_of_le (length_le_longest hl)
  have hle' : ∀ l ∈ (lists.filter (· ≠ [])).map List.tail, l.length ≤ longest lists := by
    intro l hl
    obtain ⟨l', hl', rfl⟩ := List.mem_map.1 hl
    rw [List.length_tail]
    exact Nat.le_trans (Nat.sub_le _ _) (length_le_longest (List.mem_of_mem_filter hl'))
  rw [roundRobin_eq hle, List.range_succ_eq_map, List.flatMap_cons, hfirst, List.flatMap_map, served, List.nil_append,
    roundRobin_eq hle']
  exact congrArg _ (List.flatMap_congr fun i _ => hround i)

theorem served_nil (back : List (List α)) : served [] back = served back [] := by
  rw [← roundRobin_eq_served]
  exact congrArg roundRobin (List.append_nil back)

@[simp] theorem served_nil_cons : served ([] :: front) back = served front back := rfl

@[simp] theorem served_cons : served ((x :: l) :: front) back = x :: served front (back ++ [l]) := by
  unfold served
  rw [List.filter_cons_of_pos (by simp), List.map_cons, List.append_assoc]
  rfl

/-- The list whose turn it is. -/
theorem exists_served_cons (h : front ++ back = l :: lists) :
    ∃ front' back', lists = front' ++ back' ∧ served front back = served (l :: front') back' := by
  cases front with
  | nil =>
    obtain rfl : back = l :: lists := h
    exact ⟨lists, [], (List.append_nil lists).symm, served_nil _⟩
  | cons l' front =>
    obtain ⟨rfl, rfl⟩ := List.cons.inj h
    exact ⟨front, back, rfl, rfl⟩

/-- Every element of the lists is given once. -/
theorem perm_served {k : ℕ} (hk : ((front ++ back).map fun l => l.length + 1).sum ≤ k) :
    (served front back).Perm (front ++ back).flatten := by
  induction k generalizing front back with
  | zero =>
    cases hlists : front ++ back with
    | nil =>
      obtain ⟨rfl, rfl⟩ := List.append_eq_nil_iff.1 hlists
      exact .refl _
    | cons l lists =>
      rw [hlists, List.map_cons, List.sum_cons] at hk
      omega
  | succ k ih =>
    cases hlists : front ++ back with
    | nil =>
      obtain ⟨rfl, rfl⟩ := List.append_eq_nil_iff.1 hlists
      exact .refl _
    | cons l lists =>
      rw [hlists, List.map_cons, List.sum_cons] at hk
      obtain ⟨front', back', rfl, heq⟩ := exists_served_cons hlists
      rw [heq]
      cases l with
      | nil =>
        rw [served_nil_cons]
        exact ih (by omega)
      | cons x l =>
        rw [served_cons, List.flatten_cons]
        refine ((ih ?_).cons x).trans (.cons x ?_)
        · rw [← List.append_assoc, List.map_append, List.sum_append, List.map_singleton, List.sum_singleton]
          rw [List.length_cons] at hk
          omega
        · rw [← List.append_assoc, List.flatten_append, List.flatten_singleton]
          exact List.perm_append_comm

theorem perm_roundRobin (lists : List (List α)) : (roundRobin lists).Perm lists.flatten := by
  rw [roundRobin_eq_served]
  have hperm := @perm_served α lists [] _ (Nat.le_refl _)
  rwa [List.append_nil] at hperm

end Turns
