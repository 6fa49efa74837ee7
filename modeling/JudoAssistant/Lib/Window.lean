import Mathlib.Data.List.Nodup
import Mathlib.Data.List.TakeWhile

/-!
# A window on a list that is kept by its changes

A window shows the elements in front of a list that satisfy a condition.  The elements that were looked
at are numbered, so that one that satisfies the condition again finds its place.  The lemmas of this file
say that an element that is taken out or put back leaves the numbered elements that satisfy the new
condition, and when two lists agree in front although some of their elements differ.
-/

namespace Window

variable {α β : Type}

/-- Put an element in front of the first one with a greater key. -/
def insertBy (key : β → ℕ) (b : β) (l : List β) : List β :=
  l.takeWhile (fun c => !decide (key b < key c)) ++ b :: l.dropWhile fun c => !decide (key b < key c)

section Keyed

variable {key : β → ℕ} {l : List β}

/-- A list that increases is split at one of its elements. -/
theorem split_of_mem (hl : l.Pairwise fun a b => key a < key b) {b : β} (hb : b ∈ l) :
    ∃ before after, l = before ++ b :: after ∧ (∀ a ∈ before, key a < key b) ∧
      ∀ a ∈ after, key b < key a := by
  obtain ⟨before, after, rfl⟩ := List.append_of_mem hb
  rw [List.pairwise_append, List.pairwise_cons] at hl
  exact ⟨before, after, rfl, fun a ha => hl.2.2 a ha b List.mem_cons_self, hl.2.1.1⟩

theorem insertBy_append {b : β} {before after : List β} (hbefore : ∀ a ∈ before, key a < key b)
    (hafter : ∀ a ∈ after, key b < key a) :
    insertBy key b (before ++ after) = before ++ b :: after := by
  have hbefore' : ∀ a ∈ before, (!decide (key b < key a)) = true := by
    intro a ha
    simpa using (hbefore a ha).le
  have htake : after.takeWhile (fun c => !decide (key b < key c)) = [] := by
    cases after with
    | nil => rfl
    | cons a after => simp [hafter a List.mem_cons_self]
  have hdrop : after.dropWhile (fun c => !decide (key b < key c)) = after := by
    cases after with
    | nil => rfl
    | cons a after => simp [hafter a List.mem_cons_self]
  unfold insertBy
  rw [List.takeWhile_append_of_pos hbefore', List.dropWhile_append_of_pos hbefore', htake, hdrop,
    List.append_nil]

variable {p q : β → Bool} {b : β}

/-- An element that satisfies the condition again is put back. -/
theorem insertBy_filter (hl : l.Pairwise fun a b => key a < key b) (hb : b ∈ l) (hp : p b = false)
    (hq : q b = true) (hsame : ∀ a ∈ l, a ≠ b → p a = q a) :
    insertBy key b (l.filter p) = l.filter q := by
  obtain ⟨before, after, rfl, hbefore, hafter⟩ := split_of_mem hl hb
  have hfilter : ∀ l' : List β, (∀ a ∈ l', a ∈ before ++ b :: after) → (∀ a ∈ l', a ≠ b) →
      l'.filter p = l'.filter q := by
    intro l' hl' hne
    exact List.filter_congr fun a ha => hsame a (hl' a ha) (hne a ha)
  have h₁ := hfilter before (fun a ha => List.mem_append_left _ ha)
    fun a ha hab => (hab ▸ hbefore a ha).false
  have h₂ := hfilter after (fun a ha => List.mem_append_right _ (List.mem_cons_of_mem _ ha))
    fun a ha hab => (hab ▸ hafter a ha).false
  rw [List.filter_append, List.filter_append, List.filter_cons_of_neg (by simp [hp]),
    List.filter_cons_of_pos hq, h₁, h₂]
  exact insertBy_append (fun a ha => hbefore a (List.mem_filter.1 ha).1)
    fun a ha => hafter a (List.mem_filter.1 ha).1

/-- An element that no longer satisfies the condition is taken out. -/
theorem eraseP_filter {r : β → Bool} (hl : l.Pairwise fun a b => key a < key b) (hb : b ∈ l)
    (hp : p b = true) (hq : q b = false) (hr : r b = true) (hsame : ∀ a ∈ l, a ≠ b → p a = q a)
    (hother : ∀ a ∈ l, a ≠ b → r a = false) : (l.filter p).eraseP r = l.filter q := by
  obtain ⟨before, after, rfl, hbefore, hafter⟩ := split_of_mem hl hb
  have hne₁ : ∀ a ∈ before, a ≠ b := fun a ha hab => (hab ▸ hbefore a ha).false
  have hne₂ : ∀ a ∈ after, a ≠ b := fun a ha hab => (hab ▸ hafter a ha).false
  have h₁ : before.filter p = before.filter q :=
    List.filter_congr fun a ha => hsame a (List.mem_append_left _ ha) (hne₁ a ha)
  have h₂ : after.filter p = after.filter q :=
    List.filter_congr fun a ha =>
      hsame a (List.mem_append_right _ (List.mem_cons_of_mem _ ha)) (hne₂ a ha)
  have hskip : ∀ a ∈ before.filter q, ¬r a = true := by
    intro a ha
    have ha' := (List.mem_filter.1 ha).1
    rw [hother a (List.mem_append_left _ ha') (hne₁ a ha')]
    exact Bool.false_ne_true
  rw [List.filter_append, List.filter_append, List.filter_cons_of_pos hp,
    List.filter_cons_of_neg (by simp [hq]), h₁, h₂, List.eraseP_append_right _ hskip,
    List.eraseP_cons_of_pos hr]

end Keyed

/-- The elements of a list are numbered in their order. -/
theorem pairwise_zipIdx (l : List α) (n : ℕ) : (l.zipIdx n).Pairwise fun a b => a.2 < b.2 := by
  induction l generalizing n with
  | nil => exact .nil
  | cons a l ih =>
    rw [List.zipIdx_cons, List.pairwise_cons]
    refine ⟨fun e he => ?_, ih (n + 1)⟩
    have := List.mem_zipIdx he
    omega

/-- An element has one number if it is in the list once. -/
theorem eq_of_mem_zipIdx {l : List α} (hl : l.Nodup) {e e' : α × ℕ} (he : e ∈ l.zipIdx)
    (he' : e' ∈ l.zipIdx) (h : e.1 = e'.1) : e = e' := by
  rw [List.mem_zipIdx_iff_getElem?] at he he'
  refine Prod.ext h ?_
  obtain ⟨hi, hi'⟩ := List.getElem?_eq_some_iff.1 he
  obtain ⟨hj, hj'⟩ := List.getElem?_eq_some_iff.1 he'
  exact (hl.getElem_inj_iff).1 (by rw [hi', hj', h])

/-- An element that is in the list once is not in front of its place. -/
theorem notMem_take_of_getElem? {l : List α} (hl : l.Nodup) {k : ℕ} {a : α} (ha : l[k]? = some a) :
    a ∉ l.take k := by
  intro hmem
  obtain ⟨i, hi, hia⟩ := List.mem_take_iff_getElem.1 hmem
  obtain ⟨hk, hka⟩ := List.getElem?_eq_some_iff.1 ha
  have hik : i = k := hl.getElem_inj_iff.1 (hia.trans hka.symm)
  omega

/-- Lists that agree but for some elements, which neither has in front, agree in front. -/
theorem take_eq_of_filter_eq {l l' : List α} {p : α → Bool} {k : ℕ} (h : l.filter p = l'.filter p)
    (hk : k ≤ l.length) (hl : ∀ a ∈ l.take k, p a = true) (hl' : ∀ a ∈ l'.take k, p a = true) :
    l'.take k = l.take k := by
  have hfront : ∀ m : List α, (∀ a ∈ m.take k, p a = true) → m.take k <+: m.filter p := by
    intro m hm
    refine ⟨(m.drop k).filter p, ?_⟩
    nth_rewrite 1 [← List.filter_eq_self.2 hm]
    rw [← List.filter_append, List.take_append_drop]
  have hpre : l.take k <+: l'.filter p := h ▸ hfront l hl
  have hlength : (l.take k).length = k := by simp [hk]
  refine List.IsPrefix.eq_of_length (List.prefix_of_prefix_length_le (hfront l' hl') hpre ?_) ?_
  · rw [hlength, List.length_take]
    exact min_le_left _ _
  · have hle := hpre.length_le.trans (List.length_filter_le p l')
    rw [hlength] at hle
    rw [hlength, List.length_take, min_eq_left hle]

end Window
