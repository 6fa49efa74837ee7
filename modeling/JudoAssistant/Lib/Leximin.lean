import Mathlib.Algebra.GroupWithZero.Nat
import Mathlib.Data.List.Sort
import Mathlib.Algebra.BigOperators.Group.List.Basic
import Mathlib.Algebra.Order.BigOperators.Group.List
import Mathlib.Algebra.Order.Group.Nat

/-!
# Groupings and their smallest groups

A list is cut into runs that fit, and two such groupings are compared by their smallest groups: first by
the smallest, then by the second smallest, and so on.  The comparison is kept when both groupings get one
more group, also where only a number of smallest groups is looked at.
-/

namespace Leximin

section Order

variable {α : Type} [LinearOrder α]

/-- The first list is greater at the first place where the two differ, or it ends there. -/
def AtLeast : List α → List α → Prop
  | [], _ => True
  | _ :: _, [] => False
  | a :: as, b :: bs => b < a ∨ a = b ∧ AtLeast as bs

/-- The first list is greater at the first place where the two differ. -/
def Above : List α → List α → Prop
  | a :: as, b :: bs => b < a ∨ a = b ∧ Above as bs
  | _, _ => False

variable {as bs cs : List α}

theorem AtLeast.refl (as : List α) : AtLeast as as := by
  induction as with
  | nil => trivial
  | cons a as ih => exact .inr ⟨rfl, ih⟩

theorem AtLeast.trans (h : AtLeast as bs) (h' : AtLeast bs cs) : AtLeast as cs := by
  induction as generalizing bs cs with
  | nil => trivial
  | cons a as ih =>
    cases bs with
    | nil => cases h
    | cons b bs =>
      cases cs with
      | nil => cases h'
      | cons c cs =>
        obtain hab | ⟨rfl, h⟩ := h
        · obtain hbc | ⟨rfl, -⟩ := h'
          · exact .inl (hbc.trans hab)
          · exact .inl hab
        · obtain hac | ⟨rfl, h'⟩ := h'
          · exact .inl hac
          · exact .inr ⟨rfl, ih h h'⟩

theorem Above.atLeast (h : Above as bs) : AtLeast as bs := by
  induction as generalizing bs with
  | nil => trivial
  | cons a as ih =>
    cases bs with
    | nil => cases h
    | cons b bs => exact h.imp_right fun h => ⟨h.1, ih h.2⟩

/-- Where no list is greater at a first difference, one of them is the beginning of the other. -/
theorem atLeast_or (as bs : List α) : AtLeast as bs ∨ Above bs as ∨ bs <+: as := by
  induction as generalizing bs with
  | nil => exact .inl trivial
  | cons a as ih =>
    cases bs with
    | nil => exact .inr (.inr (List.nil_prefix))
    | cons b bs =>
      obtain hba | rfl | hab := lt_trichotomy b a
      · exact .inl (.inl hba)
      · obtain h | h | h := ih bs
        · exact .inl (.inr ⟨rfl, h⟩)
        · exact .inr (.inl (.inr ⟨rfl, h⟩))
        · exact .inr (.inr (List.cons_prefix_cons.2 ⟨rfl, h⟩))
      · exact .inr (.inl (.inl hab))

/-- Up to beginnings, the comparison is the lexicographic one. -/
theorem AtLeast.not_lex (h : AtLeast as bs) (hbegins : as <+: bs → as = bs) : ¬List.Lex (· < ·) as bs := by
  induction as generalizing bs with
  | nil =>
    rw [← hbegins List.nil_prefix]
    exact fun hlex => (nomatch hlex)
  | cons a as ih =>
    intro hlex
    cases hlex with
    | rel hab =>
      obtain hba | ⟨rfl, -⟩ := h
      · exact lt_asymm hab hba
      · exact lt_irrefl a hab
    | cons hlex =>
      obtain haa | ⟨-, h⟩ := h
      · exact lt_irrefl a haa
      · refine ih h (fun hpre => ?_) hlex
        exact (List.cons.inj (hbegins (List.cons_prefix_cons.2 ⟨rfl, hpre⟩))).2

theorem AtLeast.orderedInsert (s : α) (h : AtLeast as bs) :
    AtLeast (as.orderedInsert (· ≤ ·) s) (bs.orderedInsert (· ≤ ·) s) := by
  induction as generalizing bs with
  | nil =>
    cases bs with
    | nil => exact .refl [s]
    | cons b bs =>
      rw [List.orderedInsert_cons]
      split
      · exact .inr ⟨rfl, trivial⟩
      · next hsb => exact .inl (not_le.1 hsb)
  | cons a as ih =>
    cases bs with
    | nil => cases h
    | cons b bs =>
      rw [List.orderedInsert_cons, List.orderedInsert_cons]
      split
      · next hsa =>
        split
        · exact .inr ⟨rfl, h⟩
        · next hsb => exact .inl (not_le.1 hsb)
      · next hsa =>
        obtain hba | ⟨rfl, h⟩ := h
        · rw [if_neg fun hsb => hsa (hsb.trans hba.le)]
          exact .inl hba
        · rw [if_neg hsa]
          exact .inr ⟨rfl, ih h⟩

theorem AtLeast.take (k : ℕ) (h : AtLeast as bs) : AtLeast (as.take k) (bs.take k) := by
  induction k generalizing as bs with
  | zero => exact .refl []
  | succ k ih =>
    cases as with
    | nil => trivial
    | cons a as =>
      cases bs with
      | nil => cases h
      | cons b bs => exact h.imp_right fun h => ⟨h.1, ih h.2⟩

/-- What is cut off before an insertion would be cut off after it. -/
theorem take_orderedInsert (s : α) (k : ℕ) (as : List α) :
    ((as.take k).orderedInsert (· ≤ ·) s).take k = (as.orderedInsert (· ≤ ·) s).take k := by
  induction k generalizing as with
  | zero => rfl
  | succ k ih =>
    cases as with
    | nil => rfl
    | cons a as =>
      rw [List.take_succ_cons, List.orderedInsert_cons, List.orderedInsert_cons]
      split
      · have hcut : a :: as.take k = (a :: as).take (k + 1) := List.take_succ_cons.symm
        rw [List.take_succ_cons, List.take_succ_cons, hcut, List.take_take, min_eq_left (Nat.le_succ k)]
      · rw [List.take_succ_cons, List.take_succ_cons, ih]

end Order

section Grouping

variable {β : Type} (Fits : List β → Prop)

/-- The list is cut into runs that fit. -/
structure Grouping (l : List β) (parts : List (List β)) : Prop where
  flatten : parts.flatten = l
  nonempty : ∀ g ∈ parts, g ≠ []
  fits : ∀ g ∈ parts, Fits g

/-- The sizes of the smallest groups in ascending order. -/
def smallest (k : ℕ) (parts : List (List β)) : List ℕ := ((parts.map List.length).insertionSort (· ≤ ·)).take k

variable {Fits} {k : ℕ} {l l' : List β} {g : List β} {parts parts' : List (List β)}

theorem grouping_nil : Grouping Fits [] parts ↔ parts = [] := by
  refine ⟨fun h => ?_, fun h => ?_⟩
  · cases parts with
    | nil => rfl
    | cons g parts => exact absurd (List.append_eq_nil_iff.1 h.flatten).1 (h.nonempty g List.mem_cons_self)
  · subst h
    exact ⟨rfl, fun g hg => (nomatch hg), fun g hg => (nomatch hg)⟩

theorem grouping_cons : Grouping Fits l (g :: parts) ↔
    g ≠ [] ∧ Fits g ∧ ∃ rest, l = g ++ rest ∧ Grouping Fits rest parts := by
  refine ⟨fun h => ?_, ?_⟩
  · refine ⟨h.nonempty g List.mem_cons_self, h.fits g List.mem_cons_self, parts.flatten, h.flatten.symm,
      rfl, ?_, ?_⟩
    · exact fun g' hg' => h.nonempty g' (List.mem_cons_of_mem g hg')
    · exact fun g' hg' => h.fits g' (List.mem_cons_of_mem g hg')
  · rintro ⟨hne, hfits, rest, rfl, h⟩
    exact ⟨congrArg (g ++ ·) h.flatten, List.forall_mem_cons.2 ⟨hne, h.nonempty⟩,
      List.forall_mem_cons.2 ⟨hfits, h.fits⟩⟩

@[simp] theorem smallest_nil : smallest k ([] : List (List β)) = [] := by
  cases k <;> rfl

/-- One more group is one more size among those kept. -/
theorem smallest_cons (k : ℕ) (g : List β) (parts : List (List β)) :
    smallest k (g :: parts) = ((smallest k parts).orderedInsert (· ≤ ·) g.length).take k :=
  (take_orderedInsert g.length k _).symm

theorem length_smallest_le (k : ℕ) (parts : List (List β)) : (smallest k parts).length ≤ k :=
  List.length_take_le _ _

theorem AtLeast.smallest_cons (h : AtLeast (smallest k parts) (smallest k parts')) {g g' : List β}
    (hlength : g.length = g'.length) : AtLeast (smallest k (g :: parts)) (smallest k (g' :: parts')) := by
  rw [Leximin.smallest_cons, Leximin.smallest_cons, hlength]
  exact (h.orderedInsert g'.length).take k

theorem sum_sizes (parts : List (List β)) :
    ((parts.map List.length).insertionSort (· ≤ ·)).sum = (parts.map List.length).sum :=
  (List.perm_insertionSort _ _).sum_eq

theorem Grouping.pos_of_mem (h : Grouping Fits l parts) {n : ℕ}
    (hn : n ∈ (parts.map List.length).insertionSort (· ≤ ·)) : 0 < n := by
  obtain ⟨g, hg, rfl⟩ := List.mem_map.1 ((List.perm_insertionSort _ _).mem_iff.1 hn)
  exact List.length_pos_iff.2 (h.nonempty g hg)

/-- The sizes of one grouping are not the beginning of those of another. -/
theorem Grouping.eq_of_prefix (h : Grouping Fits l parts) (h' : Grouping Fits l parts')
    (hbegins : smallest k parts <+: smallest k parts') : smallest k parts = smallest k parts' := by
  by_cases hfull : (smallest k parts).length = k
  · exact hbegins.eq_of_length_le ((length_smallest_le k parts').trans hfull.ge)
  · -- All sizes of the first grouping are there, and they add up to as much as those of the second.
    have hall : smallest k parts = (parts.map List.length).insertionSort (· ≤ ·) := by
      refine List.take_of_length_le ?_
      by_contra hmore
      exact hfull (List.length_take_of_le (not_le.1 hmore).le)
    have hbegin : (parts.map List.length).insertionSort (· ≤ ·) <+:
        (parts'.map List.length).insertionSort (· ≤ ·) :=
      hall ▸ hbegins.trans (List.take_prefix _ _)
    obtain ⟨rest, hrest⟩ := hbegin
    have hsum : ((parts.map List.length).insertionSort (· ≤ ·) ++ rest).sum =
        ((parts.map List.length).insertionSort (· ≤ ·)).sum := by
      rw [hrest, sum_sizes, sum_sizes, ← List.length_flatten, ← List.length_flatten, h.flatten, h'.flatten]
    have hzero : rest.sum = 0 := by
      rw [List.sum_append] at hsum
      omega
    have hnone : rest = [] := by
      refine List.eq_nil_iff_forall_not_mem.2 fun n hn => ?_
      have hpos : 0 < n := h'.pos_of_mem (hrest ▸ List.mem_append_right _ hn)
      have hle : n ≤ rest.sum := List.le_sum_of_mem hn
      omega
    rw [hnone, List.append_nil] at hrest
    rw [smallest, smallest, hrest]

end Grouping

end Leximin
