import Mathlib.Algebra.Order.Field.Basic
import Mathlib.Data.Prod.Lex
import JudoAssistant.Tournament.PoolMerge

/-!
# The order of the merge queue

The elements of the queue that merges two pools are ordered by the fraction of matches taken, the greatest
first, then by the number of matches and then by the index (`src/core/misc/merge_queue_element.hpp`).  The
comparison of two elements of the same fraction goes on to the indices when the first has more matches, so
the order is lawful where the indices agree with the numbers of matches.
-/

namespace JudoAssistant.MergeQueueElement

open OrderDual

/-- `operator<`, whose products are words of 64 bits. -/
def ltWord (a b : MergeQueueElement) : Bool :=
  let left := a.matchCount * b.totalMatchCount % 2 ^ 64
  let right := b.matchCount * a.totalMatchCount % 2 ^ 64
  if left ≠ right then decide (right < left)
  else if a.totalMatchCount < b.totalMatchCount then decide (a.totalMatchCount < b.totalMatchCount)
  else decide (a.index < b.index)

/-- The elements that the queue may hold: no pool is empty or over-full, and no product overflows. -/
structure Admissible (S : Set MergeQueueElement) : Prop where
  pos : ∀ a ∈ S, 0 < a.totalMatchCount
  le : ∀ a ∈ S, a.matchCount ≤ a.totalMatchCount
  product : ∀ a ∈ S, ∀ b ∈ S, a.matchCount * b.totalMatchCount < 2 ^ 64

/-- Of two elements with the same fraction, the one with fewer matches does not have the greater index. -/
def IndicesAgree (S : Set MergeQueueElement) : Prop :=
  ∀ a ∈ S, ∀ b ∈ S, a.matchCount * b.totalMatchCount = b.matchCount * a.totalMatchCount →
    a.totalMatchCount < b.totalMatchCount → a.index ≤ b.index

variable {a b : MergeQueueElement} {S : Set MergeQueueElement}

theorem ltWord_eq (hab : a.matchCount * b.totalMatchCount < 2 ^ 64) (hba : b.matchCount * a.totalMatchCount < 2 ^ 64) :
    a.ltWord b = a.lt b := by
  unfold ltWord lt
  rw [Nat.mod_eq_of_lt hab, Nat.mod_eq_of_lt hba]

/-! ### Where the indices agree -/

/-- The fraction of matches taken. -/
def fraction (a : MergeQueueElement) : ℚ := a.matchCount / a.totalMatchCount

/-- What the elements are meant to be ordered by. -/
def key (a : MergeQueueElement) : ℚᵒᵈ ×ₗ ℕ ×ₗ ℕ :=
  toLex (toDual a.fraction, toLex (a.totalMatchCount, a.index))

theorem key_lt_iff : a.key < b.key ↔ b.fraction < a.fraction ∨ a.fraction = b.fraction ∧
    (a.totalMatchCount < b.totalMatchCount ∨ a.totalMatchCount = b.totalMatchCount ∧ a.index < b.index) := by
  unfold key
  rw [Prod.Lex.toLex_lt_toLex, Prod.Lex.toLex_lt_toLex]
  exact or_congr toDual_lt_toDual (and_congr_left' toDual_inj)

theorem fraction_lt_iff (ha : 0 < a.totalMatchCount) (hb : 0 < b.totalMatchCount) :
    b.fraction < a.fraction ↔ b.matchCount * a.totalMatchCount < a.matchCount * b.totalMatchCount := by
  unfold fraction
  rw [div_lt_div_iff₀ (Nat.cast_pos.2 hb) (Nat.cast_pos.2 ha)]
  norm_cast

theorem fraction_eq_iff (ha : 0 < a.totalMatchCount) (hb : 0 < b.totalMatchCount) :
    a.fraction = b.fraction ↔ a.matchCount * b.totalMatchCount = b.matchCount * a.totalMatchCount := by
  unfold fraction
  rw [div_eq_div_iff (Nat.cast_ne_zero.2 ha.ne') (Nat.cast_ne_zero.2 hb.ne')]
  norm_cast

theorem lt_iff : a.lt b = true ↔ b.matchCount * a.totalMatchCount < a.matchCount * b.totalMatchCount ∨
    a.matchCount * b.totalMatchCount = b.matchCount * a.totalMatchCount ∧
      (a.totalMatchCount < b.totalMatchCount ∨ b.totalMatchCount ≤ a.totalMatchCount ∧ a.index < b.index) := by
  unfold lt
  split
  · next hne =>
    rw [decide_eq_true_eq]
    exact ⟨.inl, fun h => h.resolve_right fun heq => hne heq.1⟩
  · next heq =>
    have heq := not_not.1 heq
    split
    · next hlt => simp [heq, hlt]
    · next hnot => simp [heq, hnot, Nat.not_lt.1 hnot]

/-- Where the indices agree with the numbers of matches, the elements are ordered by their keys. -/
theorem lt_iff_key_lt (hpos : ∀ a ∈ S, 0 < a.totalMatchCount) (hagree : IndicesAgree S) (ha : a ∈ S)
    (hb : b ∈ S) : a.lt b = true ↔ a.key < b.key := by
  rw [lt_iff, key_lt_iff, fraction_lt_iff (hpos a ha) (hpos b hb), fraction_eq_iff (hpos a ha) (hpos b hb)]
  refine or_congr_right (and_congr_right fun heq => or_congr_right ?_)
  refine ⟨fun ⟨hle, hindex⟩ => ⟨?_, hindex⟩, fun ⟨htotal, hindex⟩ => ⟨htotal.ge, hindex⟩⟩
  refine (hle.eq_or_lt.resolve_right fun hlt => ?_).symm
  exact absurd (hagree b hb a ha heq.symm hlt) (Nat.not_le.2 hindex)

/-- An order by keys is lawful. -/
theorem isStrictWeakOrder_of_indicesAgree (hpos : ∀ a ∈ S, 0 < a.totalMatchCount) (hagree : IndicesAgree S) :
    IsStrictWeakOrder S fun a b => a.1.lt b.1 = true := by
  have hkey : (fun a b : S => a.1.lt b.1 = true) = Function.onFun (· < ·) fun a : S => a.1.key :=
    funext fun a => funext fun b => propext (lt_iff_key_lt hpos hagree a.2 b.2)
  have hconnected : IsStrictWeakOrder (ℚᵒᵈ ×ₗ ℕ ×ₗ ℕ) (· < ·) := isStrictWeakOrder_of_isOrderConnected
  rw [hkey]
  infer_instance

/-- Elements whose indices disagree with their numbers of matches are each before the other. -/
theorem lt_of_indices (heq : a.matchCount * b.totalMatchCount = b.matchCount * a.totalMatchCount)
    (htotal : a.totalMatchCount < b.totalMatchCount) (hindex : b.index < a.index) : a.lt b = true ∧ b.lt a = true :=
  ⟨lt_iff.2 (.inr ⟨heq, .inl htotal⟩), lt_iff.2 (.inr ⟨heq.symm, .inr ⟨htotal.le, hindex⟩⟩)⟩

/-- The elements of the two pools of a double pool, of which the first does not have more matches. -/
def pools (n k : ℕ) : Set MergeQueueElement :=
  {e | e.matchCount ≤ e.totalMatchCount ∧
    (e.index = 0 ∧ e.totalMatchCount = n ∨ e.index = 1 ∧ e.totalMatchCount = k)}

theorem admissible_pools {n k : ℕ} (hpos : 0 < n) (hle : n ≤ k) (hk : k < 2 ^ 32) : Admissible (pools n k) := by
  have htotal : ∀ a ∈ pools n k, n ≤ a.totalMatchCount ∧ a.totalMatchCount ≤ k := by
    rintro a ⟨-, ⟨-, h⟩ | ⟨-, h⟩⟩ <;> omega
  refine ⟨fun a ha => hpos.trans_le (htotal a ha).1, fun a ha => ha.1, fun a ha b hb => ?_⟩
  have hcount : a.matchCount ≤ k := ha.1.trans (htotal a ha).2
  calc a.matchCount * b.totalMatchCount ≤ k * k := Nat.mul_le_mul hcount (htotal b hb).2
    _ < 2 ^ 32 * 2 ^ 32 := Nat.mul_lt_mul'' hk hk
    _ = 2 ^ 64 := by norm_num

theorem indicesAgree_pools {n k : ℕ} (hle : n ≤ k) : IndicesAgree (pools n k) := by
  rintro a ⟨-, ha⟩ b ⟨-, hb⟩ - hlt
  obtain ⟨ha, hn⟩ | ⟨ha, hn⟩ := ha <;> obtain ⟨hb, hk⟩ | ⟨hb, hk⟩ := hb <;> omega

/-- The order of admissible elements is a strict weak ordering if and only if the indices agree with the numbers
of matches. -/
theorem isStrictWeakOrder_iff (S : Set MergeQueueElement) (h : Admissible S) :
    IsStrictWeakOrder S (fun a b => a.1.ltWord b.1 = true) ↔ IndicesAgree S := by
  have hword : (fun a b : S => a.1.ltWord b.1 = true) = fun a b : S => a.1.lt b.1 = true :=
    funext fun a => funext fun b => by rw [ltWord_eq (h.product a.1 a.2 b.1 b.2) (h.product b.1 b.2 a.1 a.2)]
  rw [hword]
  refine ⟨fun horder a ha b hb heq htotal => ?_, isStrictWeakOrder_of_indicesAgree h.pos⟩
  by_contra hindex
  obtain ⟨hab, hba⟩ := lt_of_indices heq htotal (Nat.not_le.1 hindex)
  have haa := horder.trans ⟨a, ha⟩ ⟨b, hb⟩ ⟨a, ha⟩ hab hba
  exact horder.irrefl ⟨a, ha⟩ haa

/-- The queue of a double pool is ordered lawfully. -/
theorem isStrictWeakOrder_iff_pools : IsStrictWeakOrder (pools 3 6) fun a b => a.1.ltWord b.1 = true :=
  (isStrictWeakOrder_iff (pools 3 6) (admissible_pools (by decide) (by decide) (by decide))).2
    (indicesAgree_pools (by decide))

/-- Two elements without matches taken, of which the one with fewer matches has the greater index. -/
def disagreeing : Set MergeQueueElement := {⟨1, 0, 1⟩, ⟨0, 0, 2⟩}

theorem admissible_disagreeing : Admissible disagreeing where
  pos := by rintro a (rfl | rfl) <;> decide
  le := by rintro a (rfl | rfl) <;> decide
  product := by rintro a (rfl | rfl) b (rfl | rfl) <;> decide

theorem not_isStrictWeakOrder_disagreeing :
    Admissible disagreeing ∧ ¬IsStrictWeakOrder disagreeing fun a b => a.1.ltWord b.1 = true := by
  refine ⟨admissible_disagreeing, fun horder => ?_⟩
  have hfirst := horder.trans ⟨⟨1, 0, 1⟩, .inl rfl⟩ ⟨⟨0, 0, 2⟩, .inr rfl⟩
    ⟨⟨1, 0, 1⟩, .inl rfl⟩ rfl rfl
  exact horder.irrefl ⟨⟨1, 0, 1⟩, .inl rfl⟩ hfirst

/-! ### The merge -/

/-- `std::priority_queue::push` on a queue of at most one element, with the order of the words. -/
def pushWord (e : MergeQueueElement) : List MergeQueueElement → List MergeQueueElement
  | [] => [e]
  | x :: queue => if x.ltWord e then e :: x :: queue else x :: e :: queue

/-- A pool of fewer than `2 ^ 32` matches, of which one is left. -/
def Small (a : MergeQueueElement) : Prop := a.matchCount < a.totalMatchCount ∧ a.totalMatchCount < 2 ^ 32

theorem Small.product (ha : a.Small) (hb : b.Small) : a.matchCount * b.totalMatchCount < 2 ^ 64 :=
  calc a.matchCount * b.totalMatchCount < 2 ^ 32 * 2 ^ 32 := Nat.mul_lt_mul'' (ha.1.trans ha.2) hb.2
    _ = 2 ^ 64 := by norm_num

theorem pushWord_eq {queue : List MergeQueueElement} (ha : a.Small) (hqueue : ∀ x ∈ queue, x.Small) :
    a.pushWord queue = a.push queue := by
  cases queue with
  | nil => rfl
  | cons x queue =>
    have hx := hqueue x List.mem_cons_self
    rw [pushWord, push, ltWord_eq (hx.product ha) (ha.product hx)]

/-- The loop that merges the matches of the two pools, with the order of the words. -/
def mergeActionsWord : ℕ → List MergeQueueElement → List AddMatchAction → List AddMatchAction →
    Except Failure (List AddMatchAction)
  | _, [], _, _ => .ok []
  | 0, _ :: _, _, _ => .error .unbounded
  | fuel + 1, e :: queue, first, second =>
    let e' := { e with matchCount := e.matchCount + 1 }
    let queue := if e'.matchCount = e'.totalMatchCount then queue else e'.pushWord queue
    if e.index = 0 then match first with
      | [] => .error .outOfRange
      | action :: first => do
        let actions ← mergeActionsWord fuel queue first second
        return action :: actions
    else match second with
      | [] => .error .outOfRange
      | action :: second => do
        let actions ← mergeActionsWord fuel queue first second
        return action :: actions

/-- No product of a merge overflows. -/
theorem mergeActionsWord_eq {fuel : ℕ} {queue : List MergeQueueElement} {first second : List AddMatchAction}
    (hqueue : ∀ x ∈ queue, x.Small) :
    mergeActionsWord fuel queue first second = DoublePoolDrawSystem.mergeActions fuel queue first second := by
  induction fuel generalizing queue first second with
  | zero =>
    cases queue with
    | nil => rfl
    | cons e queue => rfl
  | succ fuel ih =>
    cases queue with
    | nil => rfl
    | cons e queue =>
      have he := hqueue e List.mem_cons_self
      have hrest : ∀ x ∈ queue, x.Small := fun x hx => hqueue x (List.mem_cons_of_mem e hx)
      simp only [mergeActionsWord, DoublePoolDrawSystem.mergeActions]
      by_cases hlast : e.matchCount + 1 = e.totalMatchCount
      · rw [if_pos hlast]
        split <;> split <;> first | rfl | rw [ih hrest]
      · have hnext : Small { e with matchCount := e.matchCount + 1 } := ⟨Nat.lt_of_le_of_ne he.1 hlast, he.2⟩
        have hpush : ∀ x ∈ push { e with matchCount := e.matchCount + 1 } queue, x.Small := by
          intro x hx
          rcases List.mem_cons.1 ((perm_push _ queue).mem_iff.1 hx) with rfl | hx
          · exact hnext
          · exact hrest x hx
        rw [if_neg hlast, pushWord_eq hnext hrest]
        split <;> split <;> first | rfl | rw [ih hpush]

/-- The pools of a double pool are merged by the order of the code, as long as they have fewer than `2 ^ 32` matches. -/
theorem mergeActionsWord_initialQueue {first second : List AddMatchAction} (hfirst : first ≠ [])
    (hsecond : second ≠ []) (hfirstSize : first.length < 2 ^ 32)
    (hsecondSize : second.length < 2 ^ 32) (fuel : ℕ) :
    mergeActionsWord fuel (pushWord ⟨1, 0, second.length⟩ (pushWord ⟨0, 0, first.length⟩ [])) first second =
      DoublePoolDrawSystem.mergeActions fuel
        (push ⟨1, 0, second.length⟩ (push ⟨0, 0, first.length⟩ [])) first second := by
  have hone : Small ⟨0, 0, first.length⟩ := ⟨List.length_pos_of_ne_nil hfirst, hfirstSize⟩
  have htwo : Small ⟨1, 0, second.length⟩ := ⟨List.length_pos_of_ne_nil hsecond, hsecondSize⟩
  have hstart : ∀ x ∈ [(⟨0, 0, first.length⟩ : MergeQueueElement)], x.Small := fun x hx => by
    rw [List.mem_singleton.1 hx]
    exact hone
  rw [show pushWord ⟨0, 0, first.length⟩ [] = [⟨0, 0, first.length⟩] from rfl,
    show push ⟨0, 0, first.length⟩ [] = [⟨0, 0, first.length⟩] from rfl, pushWord_eq htwo hstart]
  refine mergeActionsWord_eq fun x hx => ?_
  rcases List.mem_cons.1 ((perm_push _ _).mem_iff.1 hx) with rfl | hx
  · exact htwo
  · exact hstart x hx

end JudoAssistant.MergeQueueElement
