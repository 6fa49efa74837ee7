import Mathlib.Algebra.BigOperators.Group.Finset.Piecewise
import Mathlib.Algebra.GroupWithZero.Nat
import Mathlib.Data.Finset.Prod
import Mathlib.Data.List.Count
import Mathlib.Algebra.Group.Nat.Even
import Mathlib.Data.Nat.Choose.Basic

/-!
# Lists of meetings

A list of meetings is complete for a relation between opponents if every meeting is between related
opponents, and every two related opponents meet once.
-/

namespace Fixtures

variable {π β γ : Type} {between : π → π → β → Bool} {R R' : π → π → Prop} {l l' : List β}

/-- Every meeting is between related opponents, and every two related opponents meet once. -/
structure Complete (between : π → π → β → Bool) (R : π → π → Prop) (l : List β) : Prop where
  only : ∀ b ∈ l, ∃ p q, R p q ∧ between p q b = true
  once : ∀ p q, R p q → l.countP (between p q) = 1

/-- A meeting has two sides, which are told apart by nothing. -/
structure TwoSided (between : π → π → β → Bool) : Prop where
  symm : ∀ p q b, between p q b = between q p b
  unique : ∀ p q p' q' b, between p q b = true → between p' q' b = true → p = p' ∧ q = q' ∨ p = q' ∧ q = p'

theorem complete_nil (h : ∀ p q, ¬R p q) : Complete between R [] :=
  ⟨by simp, fun p q hpq => (h p q hpq).elim⟩

theorem card_offDiag (S : Finset π) : S.offDiag.card = 2 * S.card.choose 2 := by
  rw [Finset.offDiag_card, Nat.choose_two_right, ← Nat.mul_sub_one,
    Nat.two_mul_div_two_of_even (Nat.even_mul_pred_self _)]

namespace Complete

theorem perm (h : Complete between R l) (hl : l.Perm l') : Complete between R l' :=
  ⟨fun b hb => h.only b (hl.mem_iff.2 hb), fun p q hpq => (hl.countP_eq _).symm.trans (h.once p q hpq)⟩

theorem congr (h : Complete between R l) (hR : ∀ p q, R p q ↔ R' p q) : Complete between R' l := by
  refine ⟨fun b hb => ?_, fun p q hpq => h.once p q ((hR p q).2 hpq)⟩
  obtain ⟨p, q, hpq, hb⟩ := h.only b hb
  exact ⟨p, q, (hR p q).1 hpq, hb⟩

theorem map {between' : π → π → γ → Bool} {f : β → γ} (h : Complete between R l)
    (hf : ∀ b ∈ l, ∀ p q, between' p q (f b) = between p q b) : Complete between' R (l.map f) := by
  refine ⟨fun c hc => ?_, fun p q hpq => ?_⟩
  · obtain ⟨b, hb, rfl⟩ := List.mem_map.1 hc
    obtain ⟨p, q, hpq, hbetween⟩ := h.only b hb
    exact ⟨p, q, hpq, (hf b hb p q).trans hbetween⟩
  · rw [List.countP_map, ← h.once p q hpq]
    exact List.countP_congr fun b hb => by rw [Function.comp_apply, hf b hb p q]

/-- The meeting of two opponents. -/
theorem meeting (h : Complete between R l) {p q : π} (hpq : R p q) :
    ∃ b ∈ l, between p q b = true ∧ ∀ b' ∈ l, between p q b' = true → b' = b := by
  have hone := h.once p q hpq
  rw [List.countP_eq_length_filter] at hone
  obtain ⟨b, hb⟩ := List.length_eq_one_iff.1 hone
  have hmem : ∀ b', b' ∈ l ∧ between p q b' = true ↔ b' = b := by
    intro b'
    rw [← List.mem_filter, hb, List.mem_singleton]
  obtain ⟨hl, hmeet⟩ := (hmem b).2 rfl
  exact ⟨b, hl, hmeet, fun b' hb' hmeet' => (hmem b').1 ⟨hb', hmeet'⟩⟩

/-- Opponents of the one relation do not meet in a list that is complete for another one. -/
theorem countP_eq_zero (h : Complete between R l) (hbetween : TwoSided between)
    (hR : ∀ p q, R p q → ¬R' p q ∧ ¬R' q p) {p q : π} (hpq : R' p q) : l.countP (between p q) = 0 := by
  refine List.countP_eq_zero.2 fun b hb hmeet => ?_
  obtain ⟨p', q', hpq', hmeet'⟩ := h.only b hb
  obtain ⟨rfl, rfl⟩ | ⟨rfl, rfl⟩ := hbetween.unique p q p' q' b hmeet hmeet'
  · exact (hR p q hpq').1 hpq
  · exact (hR q p hpq').2 hpq

theorem append (h : Complete between R l) (h' : Complete between R' l') (hbetween : TwoSided between)
    (hR : ∀ p q, R p q → ¬R' p q ∧ ¬R' q p) : Complete between (fun p q => R p q ∨ R' p q) (l ++ l') := by
  refine ⟨fun b hb => ?_, fun p q hpq => ?_⟩
  · rcases List.mem_append.1 hb with hb | hb
    · obtain ⟨p, q, hpq, hmeet⟩ := h.only b hb
      exact ⟨p, q, .inl hpq, hmeet⟩
    · obtain ⟨p, q, hpq, hmeet⟩ := h'.only b hb
      exact ⟨p, q, .inr hpq, hmeet⟩
  · have hR' : ∀ p q, R' p q → ¬R p q ∧ ¬R q p := fun p q hpq =>
      ⟨fun hpq' => (hR p q hpq').1 hpq, fun hpq' => (hR q p hpq').2 hpq⟩
    rw [List.countP_append]
    rcases hpq with hpq | hpq
    · rw [h.once p q hpq, h'.countP_eq_zero hbetween hR' hpq]
    · rw [h'.once p q hpq, h.countP_eq_zero hbetween hR hpq]

variable [DecidableEq π] {T : Finset (π × π)}

/-- Counted over all ordered pairs of opponents, every meeting counts twice. -/
theorem sum_countP (hbetween : TwoSided between) (hsymm : ∀ p q, (p, q) ∈ T → (q, p) ∈ T)
    (hne : ∀ p q, (p, q) ∈ T → p ≠ q) (hl : ∀ b ∈ l, ∃ p q, (p, q) ∈ T ∧ between p q b = true) :
    ∑ x ∈ T, l.countP (between x.1 x.2) = 2 * l.length := by
  induction l with
  | nil => simp
  | cons b l ih =>
    obtain ⟨p, q, hpq, hmeet⟩ := hl b List.mem_cons_self
    have hpairs : T.filter (fun x => between x.1 x.2 b = true) = {(p, q), (q, p)} := by
      ext x
      simp only [Finset.mem_filter, Finset.mem_insert, Finset.mem_singleton, Prod.ext_iff]
      constructor
      · rintro ⟨-, hx⟩
        exact hbetween.unique x.1 x.2 p q b hx hmeet
      · rintro (⟨rfl, rfl⟩ | ⟨rfl, rfl⟩)
        · exact ⟨hpq, hmeet⟩
        · exact ⟨hsymm _ _ hpq, (hbetween.symm _ _ b).trans hmeet⟩
    have hone : ∑ x ∈ T, (if between x.1 x.2 b = true then 1 else 0) = 2 := by
      rw [← Finset.card_filter, hpairs, Finset.card_pair]
      exact fun heq => hne p q hpq (congrArg Prod.fst heq)
    simp only [List.countP_cons, Finset.sum_add_distrib, hone, ih fun b hb => hl b (List.mem_cons_of_mem _ hb),
      List.length_cons]
    omega

/-- There are half as many meetings as there are ordered pairs of opponents. -/
theorem card_eq (h : Complete between (fun p q => (p, q) ∈ T) l) (hbetween : TwoSided between)
    (hsymm : ∀ p q, (p, q) ∈ T → (q, p) ∈ T) (hne : ∀ p q, (p, q) ∈ T → p ≠ q) :
    T.card = 2 * l.length := by
  rw [← sum_countP hbetween hsymm hne h.only, Finset.card_eq_sum_ones]
  exact Finset.sum_congr rfl fun x hx => (h.once x.1 x.2 hx).symm

variable {S S' : Finset π}

/-- A list that is complete for all pairs of a set has as many meetings as there are pairs. -/
theorem length_eq (h : Complete between (fun p q => p ∈ S ∧ q ∈ S ∧ p ≠ q) l) (hbetween : TwoSided between) :
    l.length = S.card.choose 2 := by
  have hT : Complete between (fun p q => (p, q) ∈ S.offDiag) l := h.congr fun p q => by rw [Finset.mem_offDiag]
  have hcard := hT.card_eq hbetween (fun p q hpq => ?_) fun p q hpq => (Finset.mem_offDiag.1 hpq).2.2
  · rw [card_offDiag] at hcard
    omega
  · obtain ⟨hp, hq, hne⟩ := Finset.mem_offDiag.1 hpq
    exact Finset.mem_offDiag.2 ⟨hq, hp, hne.symm⟩

/-- And so has one for the pairs of two sets that share nothing. -/
theorem length_eq_add
    (h : Complete between (fun p q => (p ∈ S ∧ q ∈ S ∧ p ≠ q) ∨ p ∈ S' ∧ q ∈ S' ∧ p ≠ q) l)
    (hbetween : TwoSided between) (hdisjoint : Disjoint S S') : l.length = S.card.choose 2 + S'.card.choose 2 := by
  have hT : Complete between (fun p q => (p, q) ∈ S.offDiag ∪ S'.offDiag) l :=
    h.congr fun p q => by simp only [Finset.mem_union, Finset.mem_offDiag]
  have hcard := hT.card_eq hbetween (fun p q hpq => ?_) fun p q hpq => ?_
  · rw [Finset.card_union_of_disjoint, card_offDiag, card_offDiag] at hcard
    · omega
    · refine Finset.disjoint_left.2 fun x hx hx' => Finset.disjoint_left.1 hdisjoint (Finset.mem_offDiag.1 hx).1 ?_
      exact (Finset.mem_offDiag.1 hx').1
  · simp only [Finset.mem_union, Finset.mem_offDiag] at hpq ⊢
    exact hpq.imp (fun hpq => ⟨hpq.2.1, hpq.1, hpq.2.2.symm⟩) fun hpq => ⟨hpq.2.1, hpq.1, hpq.2.2.symm⟩
  · simp only [Finset.mem_union, Finset.mem_offDiag] at hpq
    exact hpq.elim (·.2.2) (·.2.2)

end Complete

/-- If every meeting has one winner, there are as many wins as there are meetings. -/
theorem sum_wins [DecidableEq π] {S : Finset π} {wonBy : π → β → Bool}
    (h : ∀ b ∈ l, ∃ p ∈ S, ∀ q, wonBy q b = true ↔ q = p) : ∑ p ∈ S, l.countP (wonBy p) = l.length := by
  induction l with
  | nil => simp
  | cons b l ih =>
    obtain ⟨p, hp, hwon⟩ := h b List.mem_cons_self
    have hone : ∑ q ∈ S, (if wonBy q b = true then 1 else 0) = 1 := by
      simp only [hwon, Finset.sum_ite_eq', if_pos hp]
    simp only [List.countP_cons, Finset.sum_add_distrib, hone, ih fun b hb => h b (List.mem_cons_of_mem _ hb),
      List.length_cons]

end Fixtures
