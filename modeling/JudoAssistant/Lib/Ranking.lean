import Mathlib.Data.Prod.Lex
import Mathlib.Data.List.Perm.Basic

/-!
# Ranking in passes

A list is ranked by one key after another: it is sorted by the first key and cut into groups of equal keys,
and each group is then ranked by the next key.  The result is ranked by the lexicographic key, whatever
sort is used.
-/

namespace Ranking

variable {α κ κ' : Type}

/-! ### Sorts -/

/-- A comparison by which one may sort. -/
structure StrictWeak (lt : α → α → Bool) : Prop where
  asymm : ∀ a b, lt a b = true → lt b a = false
  negTrans : ∀ a b c, lt a b = false → lt b c = false → lt a c = false

/-- A sort, which may put elements that compare equal in any order. -/
structure LawfulSort (sort : (α → α → Bool) → List α → List α) : Prop where
  perm : ∀ lt l, StrictWeak lt → (sort lt l).Perm l
  pairwise : ∀ lt l, StrictWeak lt → (sort lt l).Pairwise fun a b => lt b a = false

variable [LinearOrder κ] [LinearOrder κ']

theorem strictWeak_of_key {lt : α → α → Bool} {key : α → κ} (h : ∀ a b, lt a b = true ↔ key a < key b) :
    StrictWeak lt := by
  have hle : ∀ a b, lt a b = false ↔ key b ≤ key a := by
    intro a b
    rw [← not_lt, ← h, Bool.not_eq_true]
  refine ⟨fun a b hab => ?_, fun a b c hab hbc => ?_⟩
  · rw [hle]
    exact ((h a b).1 hab).le
  · rw [hle] at hab hbc ⊢
    exact hbc.trans hab

/-- A list that is sorted by a comparison of keys is sorted by its keys. -/
theorem LawfulSort.pairwise_key {sort : (α → α → Bool) → List α → List α} (hsort : LawfulSort sort)
    {lt : α → α → Bool} {key : α → κ} (h : ∀ a b, lt a b = true ↔ key a < key b) (l : List α) :
    (sort lt l).Pairwise fun a b => key a ≤ key b := by
  refine (hsort.pairwise lt l (strictWeak_of_key h)).imp fun hba => ?_
  rw [← not_lt, ← h, hba]
  exact Bool.false_ne_true

/-! ### Groups -/

/-- A list is cut into groups of equal keys, and the groups are in the order of their keys. -/
structure Groups (key : α → κ) (l : List α) (gs : List (List α)) : Prop where
  perm : gs.flatten.Perm l
  nonempty : ∀ g ∈ gs, g ≠ []
  tied : ∀ g ∈ gs, ∀ a ∈ g, ∀ b ∈ g, key a = key b
  ordered : gs.Pairwise fun g g' => ∀ a ∈ g, ∀ b ∈ g', key a < key b

namespace Groups

variable {key : α → κ} {key' : α → κ'} {l : List α} {gs : List (List α)}

theorem mem_of_mem (h : Groups key l gs) {g : List α} (hg : g ∈ gs) {a : α} (ha : a ∈ g) : a ∈ l :=
  h.perm.mem_iff.1 (List.mem_flatten.2 ⟨g, hg, ha⟩)

/-- A group has all elements of the list with its key. -/
theorem mem_iff (h : Groups key l gs) {g : List α} (hg : g ∈ gs) {a b : α} (ha : a ∈ g) :
    b ∈ g ↔ b ∈ l ∧ key b = key a := by
  refine ⟨fun hb => ⟨h.mem_of_mem hg hb, h.tied g hg b hb a ha⟩, fun ⟨hb, hkey⟩ => ?_⟩
  obtain ⟨g', hg', hb⟩ := List.mem_flatten.1 (h.perm.mem_iff.2 hb)
  by_cases hne : g' = g
  · rwa [hne] at hb
  · -- Elements of different groups have different keys.
    have hapart : (∀ a ∈ g, ∀ b ∈ g', key a < key b) ∨ ∀ b ∈ g', ∀ a ∈ g, key b < key a := by
      obtain ⟨i, hi, rfl⟩ := List.mem_iff_getElem.1 hg
      obtain ⟨j, hj, rfl⟩ := List.mem_iff_getElem.1 hg'
      rcases Nat.lt_trichotomy i j with hij | rfl | hij
      · exact .inl (List.pairwise_iff_getElem.1 h.ordered i j hi hj hij)
      · exact absurd rfl hne
      · exact .inr (List.pairwise_iff_getElem.1 h.ordered j i hj hi hij)
    rcases hapart with hlt | hlt
    · exact absurd hkey (hlt a ha b hb).ne'
    · exact absurd hkey (hlt b hb a ha).ne

theorem congr (h : Groups key l gs) {key₂ : α → κ} (hkey : ∀ a ∈ l, key a = key₂ a) :
    Groups key₂ l gs := by
  refine ⟨h.perm, h.nonempty, fun g hg a ha b hb => ?_, ?_⟩
  · rw [← hkey a (h.mem_of_mem hg ha), ← hkey b (h.mem_of_mem hg hb)]
    exact h.tied g hg a ha b hb
  · refine h.ordered.imp_of_mem fun {g g'} hg hg' hlt a ha b hb => ?_
    rw [← hkey a (h.mem_of_mem hg ha), ← hkey b (h.mem_of_mem hg' hb)]
    exact hlt a ha b hb

/-- One element is a group. -/
theorem single (key : α → κ) (a : α) : Groups key [a] [[a]] := by
  refine ⟨by simp, by simp, ?_, by simp⟩
  intro g hg b hb c hc
  obtain rfl := List.mem_singleton.1 hg
  rw [List.mem_singleton.1 hb, List.mem_singleton.1 hc]

/-- Every group is cut by a second key. -/
theorem refine (h : Groups key l gs) {f : List α → List (List α)} (hf : ∀ g ∈ gs, Groups key' g (f g)) :
    Groups (fun a => toLex (key a, key' a)) l (gs.flatMap f) := by
  have hflatten : ∀ gs : List (List α), (∀ g ∈ gs, Groups key' g (f g)) →
      (gs.flatMap f).flatten.Perm gs.flatten := by
    intro gs hf
    induction gs with
    | nil => exact .refl _
    | cons g gs ih =>
      rw [List.flatMap_cons, List.flatten_append, List.flatten_cons]
      exact (hf g List.mem_cons_self).perm.append (ih fun g' hg' => hf g' (List.mem_cons_of_mem _ hg'))
  refine ⟨(hflatten gs hf).trans h.perm, ?_, ?_, ?_⟩
  · intro g' hg'
    obtain ⟨g, hg, hg'⟩ := List.mem_flatMap.1 hg'
    exact (hf g hg).nonempty g' hg'
  · intro g' hg' a ha b hb
    obtain ⟨g, hg, hg'⟩ := List.mem_flatMap.1 hg'
    rw [h.tied g hg a ((hf g hg).mem_of_mem hg' ha) b ((hf g hg).mem_of_mem hg' hb),
      (hf g hg).tied g' hg' a ha b hb]
  · rw [List.pairwise_flatMap]
    constructor
    · intro g hg
      refine (hf g hg).ordered.imp_of_mem fun {g₁ g₂} hg₁ hg₂ hlt a ha b hb => ?_
      refine Prod.Lex.toLex_lt_toLex.2 (.inr ⟨?_, hlt a ha b hb⟩)
      exact h.tied g hg a ((hf g hg).mem_of_mem hg₁ ha) b ((hf g hg).mem_of_mem hg₂ hb)
    · refine h.ordered.imp_of_mem fun {g g'} hg hg' hlt g₁ hg₁ g₂ hg₂ a ha b hb => ?_
      refine Prod.Lex.toLex_lt_toLex.2 (.inl ?_)
      exact hlt a ((hf g hg).mem_of_mem hg₁ ha) b ((hf g' hg').mem_of_mem hg₂ hb)

/-- A list without ties is a list of groups of one. -/
theorem of_pairwise {l' : List α} (hperm : l'.Perm l) (hlt : l'.Pairwise fun a b => key a < key b) :
    Groups key l (l'.map ([·])) := by
  refine ⟨?_, ?_, ?_, ?_⟩
  · rw [← List.flatMap_def, List.flatMap_singleton']
    exact hperm
  · intro g hg
    obtain ⟨a, -, rfl⟩ := List.mem_map.1 hg
    exact List.cons_ne_nil _ _
  · intro g hg b hb c hc
    obtain ⟨a, -, rfl⟩ := List.mem_map.1 hg
    rw [List.mem_singleton.1 hb, List.mem_singleton.1 hc]
  · rw [List.pairwise_map]
    refine hlt.imp fun hab c hc d hd => ?_
    rwa [List.mem_singleton.1 hc, List.mem_singleton.1 hd]

theorem pairwise_of_map {l' : List α} (h : Groups key l (l'.map ([·]))) :
    l'.Perm l ∧ l'.Pairwise fun a b => key a < key b := by
  constructor
  · have hperm := h.perm
    rwa [← List.flatMap_def, List.flatMap_singleton'] at hperm
  · have hordered := h.ordered
    rw [List.pairwise_map] at hordered
    exact hordered.imp fun hlt => hlt _ (List.mem_singleton_self _) _ (List.mem_singleton_self _)

end Groups

/-! ### The groups of a sorted list -/

/-- The groups of a list whose neighbours with equal keys belong together, after a group that ends with the
given element. -/
def runsFrom (key : α → κ) : α → List α → List α → List (List α)
  | _, g, [] => [g]
  | prev, g, a :: l => if key a = key prev then runsFrom key a (g ++ [a]) l else g :: runsFrom key a [a] l

theorem groups_runsFrom {key : α → κ} {prev : α} {g l : List α} (hne : g ≠ [])
    (htied : ∀ a ∈ g, key a = key prev)
    (hsorted : (g ++ l).Pairwise fun a b => key a ≤ key b) : Groups key (g ++ l) (runsFrom key prev g l) := by
  induction l generalizing prev g with
  | nil =>
    rw [List.append_nil, runsFrom]
    refine ⟨by simp, by simpa using hne, ?_, by simp⟩
    intro g' hg' a ha b hb
    obtain rfl := List.mem_singleton.1 hg'
    rw [htied a ha, htied b hb]
  | cons a l ih =>
    rw [runsFrom]
    split
    · next hkey =>
      have happend : g ++ a :: l = g ++ [a] ++ l := by simp
      rw [happend] at hsorted ⊢
      refine ih (by simp) ?_ hsorted
      intro b hb
      rcases List.mem_append.1 hb with hb | hb
      · rw [htied b hb, hkey]
      · rw [List.mem_singleton.1 hb]
    · next hkey =>
      obtain ⟨-, hrest, hacross⟩ := List.pairwise_append.1 hsorted
      have hgroups : Groups key ([a] ++ l) (runsFrom key a [a] l) := ih (by simp) (by simp) hrest
      refine ⟨?_, ?_, ?_, List.pairwise_cons.2 ⟨?_, hgroups.ordered⟩⟩
      · rw [List.flatten_cons]
        exact hgroups.perm.append_left g
      · intro g' hg'
        rcases List.mem_cons.1 hg' with rfl | hg'
        · exact hne
        · exact hgroups.nonempty g' hg'
      · intro g' hg' b hb c hc
        rcases List.mem_cons.1 hg' with rfl | hg'
        · rw [htied b hb, htied c hc]
        · exact hgroups.tied g' hg' b hb c hc
      · -- The key grows from the group to the next element, and does not fall after it.
        intro g' hg' b hb c hc
        have hmem : c ∈ a :: l := hgroups.mem_of_mem hg' hc
        have hnext : key b < key a := by
          refine lt_of_le_of_ne (hacross b hb a List.mem_cons_self) fun heq => hkey ?_
          rw [← heq, htied b hb]
        refine hnext.trans_le ?_
        rcases List.mem_cons.1 hmem with rfl | hc
        · exact le_rfl
        · exact (List.pairwise_cons.1 hrest).1 c hc

end Ranking
