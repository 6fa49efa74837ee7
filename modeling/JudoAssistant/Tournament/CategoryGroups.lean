import Mathlib.Algebra.Order.Field.Rat
import Mathlib.Tactic.Linarith
import JudoAssistant.Lib.Leximin
import JudoAssistant.Tournament.CategoryActions

/-!
# The groups of automatic categories

The constructor of `AutoAddCategoriesAction` cuts the players, in the order of their weights, into
groups: no group is too large, no group spreads too far, and the smallest groups are as large as they
can be.  A dynamic program over the suffixes of the players finds the groups.
-/

namespace JudoAssistant

open Leximin

namespace AutoAddCategoriesAction

/-- `Solution`: the sizes of the smallest groups in ascending order, and where the second group begins. -/
structure Solution where
  possible : Bool
  sizes : List ℕ := []
  next : ℕ := 0

/-- The comparison of the sizes in `Solution::operator<`. -/
def sizesLt : List ℕ → List ℕ → Bool
  | x :: xs, y :: ys => if x ≠ y then decide (y < x) else sizesLt xs ys
  | _, _ => false

/-- `Solution::operator<` -/
def Solution.lt (a b : Solution) : Bool :=
  if a.possible ≠ b.possible then a.possible else sizesLt a.sizes b.sizes

/-- One more size among the sizes that are kept. -/
def insertSize (size : ℕ) (sizes : List ℕ) : List ℕ :=
  let sizes := sizes.orderedInsert (· ≤ ·) size
  if 50 < sizes.length then sizes.dropLast else sizes

/-- A player with his weight. -/
abbrev Weighted := ℚ × PlayerId

/-- The comparison of pairs. -/
def weightLt (a b : Weighted) : Bool := a.1 < b.1 || (!decide (b.1 < a.1) && decide (a.2.value < b.2.value))

/-- The players that exist and have a weight. -/
def weightedPlayers (t : TournamentStore) (playerIds : List PlayerId) : List Weighted :=
  playerIds.filterMap fun id => (t.players id).bind fun p => p.fields.weight.map fun w => (w, id)

variable (maxDifference : ℚ) (maxSize : ℕ)

/-- The loop over the last players of a first group: `i` is the first player, with the weight `lightest`, and the
players and solutions are those from `j` and from `j + 1` on. -/
def bestFrom (i : ℕ) (lightest : ℚ) : ℕ → List Weighted → List Solution → Solution → Solution
  | j, w :: weights, next :: dp, best =>
    let size := j - i + 1
    if maxSize < size then best
    else if maxDifference < 100 * (w.1 - lightest) / w.1 then best
    else
      let current : Solution := {
        possible := next.possible
        sizes := if next.possible then insertSize size next.sizes else []
        next := j + 1 }
      bestFrom i lightest (j + 1) weights dp (if current.lt best then current else best)
  | _, _, _, best => best

/-- The solutions for the suffixes of the players, where `i` players come before. -/
def solutions : ℕ → List Weighted → List Solution
  | _, [] => [{ possible := true }]
  | i, w :: weights =>
    let dp := solutions (i + 1) weights
    bestFrom maxDifference maxSize i w.1 i (w :: weights) dp { possible := false } :: dp

/-- The loop that reads the groups off the solutions. -/
def readGroups (weights : List Weighted) (dp : List Solution) : ℕ → ℕ → Except Failure (List (List PlayerId))
  | 0, next => if next = weights.length then .ok [] else .error .unbounded
  | n + 1, next =>
    if next = weights.length then .ok []
    else match dp[next]? with
      | none => .error .outOfRange
      | some solution => do
        let groups ← readGroups weights dp n solution.next
        return ((weights.drop next).take (solution.next - next)).map (·.2) :: groups

/-- The groups of players that the constructor stores. -/
def playerGroups (t : TournamentStore) (playerIds : List PlayerId) : Except Failure (List (List PlayerId)) :=
  let weights := stdSort weightLt (weightedPlayers t playerIds)
  if weights = [] then .ok []
  else
    let dp := solutions maxDifference maxSize 0 weights
    match dp with
    | [] => .error .outOfRange
    | first :: _ => if !first.possible then .ok [] else readGroups weights dp weights.length 0

/-- A group is not too large and does not spread too far. -/
def Fits (g : List Weighted) : Prop :=
  g.length ≤ maxSize ∧ ∀ lightest ∈ g, ∀ heaviest ∈ g,
    (∀ w ∈ g, lightest.1 ≤ w.1 ∧ w.1 ≤ heaviest.1) →
    100 * (heaviest.1 - lightest.1) / heaviest.1 ≤ maxDifference

variable {maxDifference maxSize} {g h ws : List Weighted} {i k : ℕ} {dp : List Solution} {sol : Solution}

/-! ### Groups that fit -/

/-- A list of players in the order of their weights, which are positive. -/
structure Ordered (ws : List Weighted) : Prop where
  sorted : ws.Pairwise fun a b => a.1 ≤ b.1
  pos : ∀ w ∈ ws, 0 < w.1

theorem Ordered.drop (h : Ordered ws) (k : ℕ) : Ordered (ws.drop k) :=
  ⟨h.sorted.sublist (List.drop_sublist k ws), fun w hw => h.pos w (List.mem_of_mem_drop hw)⟩

theorem spread_mono {a b c : ℚ} (ha : 0 < a) (hb : 0 < b) (hle : b ≤ c) :
    100 * (b - a) / b ≤ 100 * (c - a) / c := by
  have hc : 0 < c := hb.trans_le hle
  rw [div_le_div_iff₀ hb hc]
  have hab : a * b ≤ a * c := mul_le_mul_of_nonneg_left hle ha.le
  linarith

/-- The beginning of a group that fits. -/
theorem Fits.of_append (hfits : Fits maxDifference maxSize (g ++ h)) (hordered : Ordered (g ++ h)) :
    Fits maxDifference maxSize g := by
  refine ⟨?_, fun lightest hl heaviest hh hbetween => ?_⟩
  · have hle := hfits.1
    rw [List.length_append] at hle
    omega
  · have hne : g ++ h ≠ [] := List.ne_nil_of_mem (List.mem_append_left h hl)
    have hlast : (g ++ h).getLast hne ∈ g ++ h := List.getLast_mem hne
    have hsorted := hordered.sorted
    have hmost : ∀ w ∈ g ++ h, w.1 ≤ ((g ++ h).getLast hne).1 := fun w hw =>
      hsorted.rel_getLast_of_rel_getLast_getLast hw le_rfl
    have hleast : ∀ w ∈ g ++ h, lightest.1 ≤ w.1 := fun w hw => by
      obtain hw | hw := List.mem_append.1 hw
      · exact (hbetween w hw).1
      · exact (List.pairwise_append.1 hsorted).2.2 lightest hl w hw
    have hspread := hfits.2 lightest (List.mem_append_left h hl) _ hlast fun w hw => ⟨hleast w hw, hmost w hw⟩
    refine le_trans (spread_mono ?_ ?_ (hmost heaviest (List.mem_append_left h hh))) hspread
    · exact hordered.pos lightest (List.mem_append_left h hl)
    · exact hordered.pos heaviest (List.mem_append_left h hh)

/-- What the code looks at: the first and the last player of a group. -/
theorem fits_iff {a w : Weighted} (hsorted : (g ++ [w]).Pairwise fun a b => a.1 ≤ b.1)
    (hhead : (g ++ [w]).head? = some a) :
    Fits maxDifference maxSize (g ++ [w]) ↔
      g.length + 1 ≤ maxSize ∧ 100 * (w.1 - a.1) / w.1 ≤ maxDifference := by
  have ha : a ∈ g ++ [w] := List.mem_of_mem_head? hhead
  have hw : w ∈ g ++ [w] := List.mem_append_right g List.mem_cons_self
  have hleast : ∀ v ∈ g ++ [w], a.1 ≤ v.1 := fun v hv => by
    obtain ⟨rest, hrest⟩ := List.head?_eq_some_iff.1 hhead
    rw [hrest] at hsorted hv
    obtain rfl | hv := List.mem_cons.1 hv
    · exact le_rfl
    · exact (List.pairwise_cons.1 hsorted).1 v hv
  have hmost : ∀ v ∈ g ++ [w], v.1 ≤ w.1 := fun v hv => by
    obtain hv | hv := List.mem_append.1 hv
    · exact (List.pairwise_append.1 hsorted).2.2 v hv w List.mem_cons_self
    · rw [List.mem_singleton.1 hv]
  refine and_congr (by rw [List.length_append]; rfl)
    ⟨fun hspread => ?_, fun hspread lightest hl heaviest hh hbetween => ?_⟩
  · exact hspread a ha w hw fun v hv => ⟨hleast v hv, hmost v hv⟩
  · have hlight : lightest.1 = a.1 := le_antisymm (hbetween a ha).1 (hleast lightest hl)
    have hheavy : heaviest.1 = w.1 := le_antisymm (hmost heaviest hh) (hbetween w hw).2
    rw [hlight, hheavy]
    exact hspread

/-! ### Solutions -/

theorem insertSize_smallest (size : ℕ) (g : List Weighted) (hsize : g.length = size) (parts : List (List Weighted)) :
    insertSize size (smallest 50 parts) = smallest 50 (g :: parts) := by
  have hle := length_smallest_le 50 parts
  have hlength : ((smallest 50 parts).orderedInsert (· ≤ ·) size).length = (smallest 50 parts).length + 1 :=
    List.orderedInsert_length (· ≤ ·) _ size
  rw [smallest_cons, hsize, insertSize]
  split
  · rw [List.dropLast_eq_take]
    congr 1
    omega
  · rw [List.take_of_length_le]
    omega

theorem sizesLt_iff (xs ys : List ℕ) : sizesLt xs ys = true ↔ Above xs ys := by
  induction xs generalizing ys with
  | nil => exact ⟨fun h => (nomatch h), fun h => (nomatch h)⟩
  | cons x xs ih =>
    cases ys with
    | nil => exact ⟨fun h => (nomatch h), fun h => (nomatch h)⟩
    | cons y ys =>
      unfold sizesLt Above
      split
      · next hne => simp [hne]
      · next heq =>
        rw [not_not] at heq
        simp [heq, ih]

/-- The solution `sol` for the players `ws`, of whom `i` come before: its first group is followed by the solution of
the remaining players, and it is as good as every grouping whose first group has at most `k` players. -/
structure Solves (maxDifference : ℚ) (maxSize i : ℕ) (ws : List Weighted) (dp : List Solution) (k : ℕ)
    (sol : Solution) : Prop where
  step : sol.possible = true → ∃ n next, n < ws.length ∧ dp[n]? = some next ∧ next.possible = true ∧
    sol.next = i + n + 1 ∧ Fits maxDifference maxSize (ws.take (n + 1)) ∧ sol.sizes = insertSize (n + 1) next.sizes
  best : ∀ g parts, Grouping (Fits maxDifference maxSize) ws (g :: parts) → g.length ≤ k →
    sol.possible = true ∧ AtLeast sol.sizes (smallest 50 (g :: parts))

/-- The solutions for all suffixes of the players. -/
def Solved (maxDifference : ℚ) (maxSize : ℕ) : ℕ → List Weighted → List Solution → Prop
  | _, [], dp => ∃ sol, dp = [sol] ∧ sol.possible = true ∧ sol.sizes = []
  | i, w :: ws, dp => ∃ sol rest, dp = sol :: rest ∧ Solved maxDifference maxSize (i + 1) ws rest ∧
    Solves maxDifference maxSize i (w :: ws) rest (ws.length + 1) sol

/-- The solution for a suffix. -/
theorem Solved.drop (hsolved : Solved maxDifference maxSize i ws dp) (hk : k ≤ ws.length) :
    ∃ sol rest, dp.drop k = sol :: rest ∧ dp[k]? = some sol ∧
      Solved maxDifference maxSize (i + k) (ws.drop k) (sol :: rest) := by
  induction k generalizing i ws dp with
  | zero =>
    cases ws with
    | nil =>
      obtain ⟨sol, rfl, hsol⟩ := hsolved
      exact ⟨sol, [], rfl, rfl, sol, rfl, hsol⟩
    | cons w ws =>
      obtain ⟨sol, rest, rfl, hrest, hsol⟩ := hsolved
      exact ⟨sol, rest, rfl, rfl, sol, rest, rfl, hrest, hsol⟩
  | succ k ih =>
    cases ws with
    | nil => exact absurd hk (Nat.not_succ_le_zero k)
    | cons w ws =>
      obtain ⟨sol, rest, rfl, hrest, -⟩ := hsolved
      obtain ⟨sol', rest', hdrop, hget, hsolved'⟩ := ih hrest (Nat.le_of_succ_le_succ hk)
      refine ⟨sol', rest', hdrop, hget, ?_⟩
      rwa [show i + (k + 1) = i + 1 + k by omega]

theorem Solved.best {parts : List (List Weighted)} {rest : List Solution}
    (hsolved : Solved maxDifference maxSize i ws (sol :: rest))
    (hparts : Grouping (Fits maxDifference maxSize) ws parts) :
    sol.possible = true ∧ AtLeast sol.sizes (smallest 50 parts) := by
  cases ws with
  | nil =>
    obtain ⟨_, heq, hpossible, hsizes⟩ := hsolved
    cases heq
    exact ⟨hpossible, by rw [hsizes]; trivial⟩
  | cons w ws =>
    obtain ⟨_, _, heq, -, hsol⟩ := hsolved
    cases heq
    cases parts with
    | nil => exact absurd hparts.flatten (List.cons_ne_nil w ws).symm
    | cons g parts =>
      refine hsol.best g parts hparts ?_
      have hlength := congrArg List.length hparts.flatten
      rw [List.flatten_cons, List.length_append] at hlength
      exact (Nat.le_add_right _ _).trans hlength.le

/-- A first group and a grouping of the remaining players. -/
theorem grouping_take {n : ℕ} {parts : List (List Weighted)} (hn : n < ws.length)
    (hfits : Fits maxDifference maxSize (ws.take (n + 1)))
    (hparts : Grouping (Fits maxDifference maxSize) (ws.drop (n + 1)) parts) :
    Grouping (Fits maxDifference maxSize) ws (ws.take (n + 1) :: parts) := by
  refine grouping_cons.2 ⟨fun hnil => ?_, hfits, _, (List.take_append_drop (n + 1) ws).symm, hparts⟩
  have hlength := congrArg List.length hnil
  rw [List.length_take_of_le hn] at hlength
  cases hlength

/-- The sizes of a solution are those of a grouping. -/
theorem attains_of_step {w : Weighted} {tail : List Weighted}
    (hattains : ∀ n sol rest, n < tail.length + 1 →
      Solved maxDifference maxSize (i + 1 + n) (tail.drop n) (sol :: rest) →
      sol.possible = true → ∃ parts, Grouping (Fits maxDifference maxSize) (tail.drop n) parts ∧
        sol.sizes = smallest 50 parts)
    (hsolved : Solved maxDifference maxSize (i + 1) tail dp)
    (hsol : Solves maxDifference maxSize i (w :: tail) dp k sol) (hpossible : sol.possible = true) :
    ∃ parts, Grouping (Fits maxDifference maxSize) (w :: tail) parts ∧ sol.sizes = smallest 50 parts := by
  obtain ⟨n, next, hn, hget, hnext, -, hfits, hsizes⟩ := hsol.step hpossible
  obtain ⟨sol', rest', -, hget', hsolved'⟩ := hsolved.drop (Nat.le_of_lt_succ hn)
  rw [hget] at hget'
  cases hget'
  obtain ⟨parts, hparts, hsizes'⟩ := hattains n next rest' hn hsolved' hnext
  refine ⟨(w :: tail).take (n + 1) :: parts, grouping_take hn hfits hparts, ?_⟩
  rw [hsizes, hsizes']
  exact insertSize_smallest (n + 1) _ (List.length_take_of_le hn) parts

theorem Solved.attains {rest : List Solution} (hsolved : Solved maxDifference maxSize i ws (sol :: rest))
    (hpossible : sol.possible = true) :
    ∃ parts, Grouping (Fits maxDifference maxSize) ws parts ∧ sol.sizes = smallest 50 parts := by
  induction hlength : ws.length using Nat.strong_induction_on generalizing i ws sol rest with
  | _ length ih =>
    cases ws with
    | nil =>
      obtain ⟨_, heq, -, hsizes⟩ := hsolved
      cases heq
      exact ⟨[], grouping_nil.2 rfl, hsizes⟩
    | cons w tail =>
      obtain ⟨_, _, heq, hrest, hsol⟩ := hsolved
      cases heq
      refine attains_of_step (fun n sol' rest' hn hsolved' hpossible' => ?_) hrest hsol hpossible
      refine ih (tail.drop n).length ?_ hsolved' hpossible' rfl
      rw [List.length_drop, ← hlength, List.length_cons]
      omega

/-- The solution whose first group has `size` players and ends before the player `n`. -/
def candidate (size n : ℕ) (next : Solution) : Solution where
  possible := next.possible
  sizes := if next.possible then insertSize size next.sizes else []
  next := n

/-- The loop goes on with one more player in the first group. -/
theorem Solves.extend {w : Weighted} {tail : List Weighted} {best next : Solution}
    (hsolved : Solved maxDifference maxSize (i + 1) tail dp)
    (hbest : Solves maxDifference maxSize i (w :: tail) dp k best) (hk : k < (w :: tail).length)
    (hfits : Fits maxDifference maxSize ((w :: tail).take (k + 1))) (hnext : dp[k]? = some next) :
    Solves maxDifference maxSize i (w :: tail) dp (k + 1)
      (if (candidate (k + 1) (i + k + 1) next).lt best then candidate (k + 1) (i + k + 1) next else best) := by
  have hattains : ∀ n sol rest, n < tail.length + 1 →
      Solved maxDifference maxSize (i + 1 + n) (tail.drop n) (sol :: rest) → sol.possible = true →
      ∃ parts, Grouping (Fits maxDifference maxSize) (tail.drop n) parts ∧ sol.sizes = smallest 50 parts :=
    fun _ _ _ _ hsolved' hpossible => hsolved'.attains hpossible
  obtain ⟨_, rest', -, hget, hnextSolved⟩ := hsolved.drop (Nat.le_of_lt_succ hk)
  rw [hnext] at hget
  cases hget
  -- The groupings whose first group is the one that is tried now.
  have hnow : ∀ g parts, Grouping (Fits maxDifference maxSize) (w :: tail) (g :: parts) → g.length = k + 1 →
      next.possible = true ∧ AtLeast (insertSize (k + 1) next.sizes) (smallest 50 (g :: parts)) := by
    intro g parts hparts hlength
    obtain ⟨-, -, rest, hrest, hothers⟩ := grouping_cons.1 hparts
    have hdrop : tail.drop k = rest := by
      have hdrop := congrArg (List.drop (k + 1)) hrest
      rwa [List.drop_left' hlength, List.drop_succ_cons] at hdrop
    obtain ⟨hpossible, hbetter⟩ := hnextSolved.best (hdrop ▸ hothers)
    refine ⟨hpossible, ?_⟩
    obtain ⟨parts', -, hsizes⟩ := hnextSolved.attains hpossible
    rw [hsizes] at hbetter ⊢
    rw [insertSize_smallest (k + 1) g hlength]
    exact hbetter.smallest_cons rfl
  cases hpossible : next.possible with
  | false =>
    have hcandidate : (candidate (k + 1) (i + k + 1) next).lt best = false := by
      unfold Solution.lt candidate
      rw [hpossible]
      split <;> rfl
    rw [hcandidate, if_neg Bool.false_ne_true]
    refine ⟨hbest.step, fun g parts hparts hle => ?_⟩
    obtain hless | heq := Nat.lt_or_eq_of_le hle
    · exact hbest.best g parts hparts (Nat.le_of_lt_succ hless)
    · rw [(hnow g parts hparts heq).1] at hpossible
      cases hpossible
  | true =>
    have hsizes : (candidate (k + 1) (i + k + 1) next).sizes = insertSize (k + 1) next.sizes := if_pos hpossible
    have hstep : Solves maxDifference maxSize i (w :: tail) dp 0 (candidate (k + 1) (i + k + 1) next) := by
      refine ⟨fun _ => ⟨k, next, hk, hnext, hpossible, rfl, hfits, hsizes⟩, fun g parts hparts hle => ?_⟩
      exact absurd (List.length_eq_zero_iff.1 (Nat.le_zero.1 hle)) (grouping_cons.1 hparts).1
    rw [← hsizes] at hnow
    cases hfound : best.possible with
    | false =>
      have hcandidate : (candidate (k + 1) (i + k + 1) next).lt best = true := by
        unfold Solution.lt candidate
        rw [hpossible, hfound]
        rfl
      rw [if_pos hcandidate]
      refine ⟨hstep.step, fun g parts hparts hle => ?_⟩
      obtain hless | heq := Nat.lt_or_eq_of_le hle
      · have hcontra := (hbest.best g parts hparts (Nat.le_of_lt_succ hless)).1
        rw [hfound] at hcontra
        cases hcontra
      · exact hnow g parts hparts heq
    | true =>
      have hcandidate : (candidate (k + 1) (i + k + 1) next).lt best =
          sizesLt (candidate (k + 1) (i + k + 1) next).sizes best.sizes := by
        unfold Solution.lt candidate
        rw [hpossible, hfound]
        rfl
      rw [hcandidate]
      split
      · next hless =>
        have habove := (sizesLt_iff _ _).1 hless
        refine ⟨hstep.step, fun g parts hparts hle => ?_⟩
        obtain hless | heq := Nat.lt_or_eq_of_le hle
        · exact ⟨hpossible, habove.atLeast.trans (hbest.best g parts hparts (Nat.le_of_lt_succ hless)).2⟩
        · exact hnow g parts hparts heq
      · next hless =>
        rw [sizesLt_iff] at hless
        have hkept : AtLeast best.sizes (candidate (k + 1) (i + k + 1) next).sizes := by
          obtain hkept | habove | hbegins := atLeast_or best.sizes (candidate (k + 1) (i + k + 1) next).sizes
          · exact hkept
          · exact absurd habove hless
          · -- Both are sizes of groupings of the same players, so neither ends before the other.
            obtain ⟨parts, hparts, heq⟩ := attains_of_step hattains hsolved hbest hfound
            obtain ⟨parts', hparts', heq'⟩ := attains_of_step hattains hsolved hstep hpossible
            rw [heq, heq'] at hbegins ⊢
            rw [hparts'.eq_of_prefix hparts hbegins]
            exact .refl _
        refine ⟨hbest.step, fun g parts hparts hle => ?_⟩
        obtain hless | heq := Nat.lt_or_eq_of_le hle
        · exact hbest.best g parts hparts (Nat.le_of_lt_succ hless)
        · exact ⟨hfound, hkept.trans (hnow g parts hparts heq).2⟩

/-- The loop stops where no larger first group fits. -/
theorem Solves.stop {best : Solution} (hordered : Ordered ws) (hbest : Solves maxDifference maxSize i ws dp k best)
    (hfits : ¬Fits maxDifference maxSize (ws.take (k + 1))) : Solves maxDifference maxSize i ws dp ws.length best := by
  refine ⟨hbest.step, fun g parts hparts _ => ?_⟩
  by_cases hle : g.length ≤ k
  · exact hbest.best g parts hparts hle
  · obtain ⟨-, hg, rest, rfl, -⟩ := grouping_cons.1 hparts
    refine absurd ?_ hfits
    have htake : (g ++ rest).take (k + 1) = g.take (k + 1) := List.take_append_of_le_length (by omega)
    rw [htake]
    rw [← List.take_append_drop (k + 1) g] at hg hordered
    rw [List.append_assoc] at hordered
    have hg' : Ordered (g.take (k + 1) ++ g.drop (k + 1)) := by
      rw [← List.append_assoc] at hordered
      exact ⟨(List.pairwise_append.1 hordered.sorted).1, fun w hw => hordered.pos w (List.mem_append_left rest hw)⟩
    exact hg.of_append hg'

theorem solves_bestFrom {w : Weighted} {tail pre weights : List Weighted} {table : List Solution} {best : Solution}
    (hordered : Ordered (w :: tail)) (hsolved : Solved maxDifference maxSize (i + 1) tail dp)
    (hweights : pre ++ weights = w :: tail) (htable : dp.drop pre.length = table)
    (hbest : Solves maxDifference maxSize i (w :: tail) dp pre.length best) :
    Solves maxDifference maxSize i (w :: tail) dp (w :: tail).length
      (bestFrom maxDifference maxSize i w.1 (i + pre.length) weights table best) := by
  induction weights generalizing pre table best with
  | nil =>
    rw [List.append_nil] at hweights
    rw [← hweights]
    cases table <;> exact hweights ▸ hbest
  | cons v weights ih =>
    have hlength : pre.length ≤ tail.length := by
      have hlength := congrArg List.length hweights
      simp only [List.length_append, List.length_cons] at hlength
      omega
    obtain ⟨next, table', hdrop, hget, -⟩ := hsolved.drop hlength
    rw [hdrop] at htable
    subst htable
    have htake : (w :: tail).take (pre.length + 1) = pre ++ [v] := by
      rw [← hweights, List.take_append, List.take_of_length_le (Nat.le_succ _)]
      simp
    have hweights' : (pre ++ [v]) ++ weights = w :: tail := by rw [List.append_assoc]; exact hweights
    have hsorted : (pre ++ [v]).Pairwise fun a b => a.1 ≤ b.1 :=
      (List.pairwise_append.1 (hweights' ▸ hordered.sorted)).1
    have hhead : (pre ++ [v]).head? = some w := by
      rw [← htake]
      rfl
    have hfits : Fits maxDifference maxSize (pre ++ [v]) ↔ _ := fits_iff hsorted hhead
    rw [← htake] at hfits
    have hsize : i + pre.length - i + 1 = pre.length + 1 := by omega
    unfold bestFrom
    simp only [hsize]
    split
    · next hmore => exact hbest.stop hordered fun h => absurd (hfits.1 h).1 (not_le.2 hmore)
    split
    · next hmore => exact hbest.stop hordered fun h => absurd (hfits.1 h).2 (not_le.2 hmore)
    next hsmall hclose =>
    have hext := hbest.extend hsolved (Nat.lt_succ_of_le hlength) (hfits.2 ⟨not_lt.1 hsmall, not_lt.1 hclose⟩) hget
    have hlength' : (pre ++ [v]).length = pre.length + 1 := List.length_append
    rw [← hlength'] at hext
    have hrest := ih hweights' (by rw [hlength', ← List.drop_drop, hdrop]) hext
    rw [hlength', ← Nat.add_assoc] at hrest
    exact hrest

theorem solved_solutions (hordered : Ordered ws) :
    Solved maxDifference maxSize i ws (solutions maxDifference maxSize i ws) := by
  induction ws generalizing i with
  | nil => exact ⟨_, rfl, rfl, rfl⟩
  | cons w ws ih =>
    have hrest := ih (i := i + 1) (hordered.drop 1)
    refine ⟨_, _, rfl, hrest, ?_⟩
    have hnone : Solves maxDifference maxSize i (w :: ws) (solutions maxDifference maxSize (i + 1) ws) 0
        { possible := false } := by
      refine ⟨fun hpossible => (nomatch hpossible), fun g parts hparts hle => ?_⟩
      exact absurd (List.length_eq_zero_iff.1 (Nat.le_zero.1 hle)) (grouping_cons.1 hparts).1
    have hweights : [] ++ w :: ws = w :: ws := List.nil_append (w :: ws)
    exact solves_bestFrom hordered hrest hweights rfl hnone

theorem readGroups_last {weights : List Weighted} {n : ℕ} {rest : List Solution}
    (hsolved : Solved maxDifference maxSize weights.length (weights.drop weights.length) (sol :: rest)) :
    ∃ parts, Grouping (Fits maxDifference maxSize) (weights.drop weights.length) parts ∧
      sol.sizes = smallest 50 parts ∧ readGroups weights dp n weights.length = .ok (parts.map (·.map (·.2))) := by
  rw [List.drop_length] at hsolved ⊢
  obtain ⟨_, heq, -, hsizes⟩ := hsolved
  cases heq
  refine ⟨[], grouping_nil.2 rfl, hsizes.trans smallest_nil.symm, ?_⟩
  cases n <;> exact if_pos rfl

/-- The groups that are read off are those of a grouping with the sizes of the solution. -/
theorem readGroups_spec {weights : List Weighted} {n : ℕ} {rest : List Solution}
    (hsolved : Solved maxDifference maxSize i (weights.drop i) (sol :: rest)) (hi : i ≤ weights.length)
    (hdp : dp.drop i = sol :: rest) (hn : weights.length ≤ n + i) (hpossible : sol.possible = true) :
    ∃ parts, Grouping (Fits maxDifference maxSize) (weights.drop i) parts ∧ sol.sizes = smallest 50 parts ∧
      readGroups weights dp n i = .ok (parts.map (·.map (·.2))) := by
  induction n generalizing i sol rest with
  | zero =>
    obtain rfl : i = weights.length := by omega
    exact readGroups_last hsolved
  | succ n ih =>
    obtain rfl | hlt := Nat.eq_or_lt_of_le hi
    · exact readGroups_last hsolved
    have hget : dp[i]? = some sol := by
      rw [← List.head?_drop, hdp]
      rfl
    have hweights : weights.drop i = weights[i] :: weights.drop (i + 1) := List.drop_eq_getElem_cons hlt
    rw [hweights] at hsolved
    obtain ⟨_, _, heq, hrest, hsol⟩ := hsolved
    cases heq
    rw [← hweights] at hsol
    obtain ⟨m, next, hm, hnext, hnextPossible, hsolNext, hfits, hsizes⟩ := hsol.step hpossible
    rw [List.length_drop] at hm
    obtain ⟨next', rest', hdrop, hnext', hsolved'⟩ := hrest.drop (k := m) (by rw [List.length_drop]; omega)
    rw [hnext] at hnext'
    cases hnext'
    have hplace : i + 1 + m = i + m + 1 := by omega
    rw [List.drop_drop, hplace] at hsolved'
    have htable : dp.drop (i + m + 1) = next :: rest' := by
      rw [← hplace, ← List.drop_drop, ← hdrop, ← List.tail_drop, hdp, List.tail_cons]
    obtain ⟨parts, hparts, hsizes', hread⟩ := ih hsolved' (by omega) htable (by omega) hnextPossible
    refine ⟨(weights.drop i).take (m + 1) :: parts, ?_, ?_, ?_⟩
    · refine grouping_take (by rw [List.length_drop]; exact hm) hfits ?_
      rwa [List.drop_drop, ← Nat.add_assoc]
    · rw [hsizes, hsizes']
      exact insertSize_smallest (m + 1) _ (List.length_take_of_le (by rw [List.length_drop]; exact hm)) parts
    · have hsize : i + m + 1 - i = m + 1 := by omega
      unfold readGroups
      rw [if_neg hlt.ne, hget]
      simp only [hsolNext, hread, hsize]
      rfl

/-! ### The groups of the constructor -/

/-- The players are cut into runs in an order of their weights, and every run fits. -/
def Divides (maxDifference : ℚ) (maxSize : ℕ) (weights : List Weighted) (parts : List (List Weighted)) : Prop :=
  ∃ ws, ws.Perm weights ∧ ws.Pairwise (fun a b => a.1 ≤ b.1) ∧ Grouping (Fits maxDifference maxSize) ws parts

/-- Only the weights of a group count. -/
theorem Fits.congr (hweights : g.map (·.1) = h.map (·.1)) (hfits : Fits maxDifference maxSize g) :
    Fits maxDifference maxSize h := by
  have hmem : ∀ w ∈ h, ∃ v ∈ g, v.1 = w.1 := fun w hw => by
    have hw' : w.1 ∈ g.map (·.1) := hweights ▸ List.mem_map_of_mem hw
    exact List.mem_map.1 hw'
  have hmem' : ∀ v ∈ g, ∃ w ∈ h, w.1 = v.1 := fun v hv => by
    have hv' : v.1 ∈ h.map (·.1) := hweights ▸ List.mem_map_of_mem hv
    exact List.mem_map.1 hv'
  have hlength : g.length = h.length := by simpa using congrArg List.length hweights
  refine ⟨hlength ▸ hfits.1, fun lightest hl heaviest hh hbetween => ?_⟩
  obtain ⟨l, hl', heq⟩ := hmem lightest hl
  obtain ⟨m, hm', heq'⟩ := hmem heaviest hh
  rw [← heq, ← heq'] at hbetween ⊢
  refine hfits.2 l hl' m hm' fun v hv => ?_
  obtain ⟨w, hw, hwv⟩ := hmem' v hv
  exact hwv ▸ hbetween w hw

/-- Players of the same weights are cut at the same places. -/
theorem Grouping.of_weights {ws' : List Weighted} {parts : List (List Weighted)}
    (hparts : Grouping (Fits maxDifference maxSize) ws parts) (hweights : ws.map (·.1) = ws'.map (·.1)) :
    ∃ parts', Grouping (Fits maxDifference maxSize) ws' parts' ∧ smallest k parts' = smallest k parts := by
  induction parts generalizing ws ws' with
  | nil =>
    obtain rfl : [] = ws := hparts.flatten
    obtain rfl : ws' = [] := List.map_eq_nil_iff.1 hweights.symm
    exact ⟨[], grouping_nil.2 rfl, rfl⟩
  | cons g parts ih =>
    obtain ⟨hne, hg, rest, rfl, hrest⟩ := grouping_cons.1 hparts
    rw [List.map_append] at hweights
    obtain ⟨g', rest', rfl, hg', hrest'⟩ := List.map_eq_append_iff.1 hweights.symm
    obtain ⟨parts', hparts', hsizes⟩ := ih hrest hrest'.symm
    have hlength : g'.length = g.length := by simpa using congrArg List.length hg'
    refine ⟨g' :: parts', grouping_cons.2 ⟨?_, hg.congr hg'.symm, rest', rfl, hparts'⟩, ?_⟩
    · exact List.length_pos_iff.1 (hlength ▸ List.length_pos_iff.2 hne)
    · rw [smallest_cons, smallest_cons, hsizes, hlength]

/-- One order of the weights is as good as another. -/
theorem Divides.grouping {weights : List Weighted} {parts : List (List Weighted)}
    (hparts : Divides maxDifference maxSize weights parts) (hperm : ws.Perm weights)
    (hsorted : ws.Pairwise fun a b => a.1 ≤ b.1) :
    ∃ parts', Grouping (Fits maxDifference maxSize) ws parts' ∧ smallest k parts' = smallest k parts := by
  obtain ⟨ws', hperm', hsorted', hgrouping⟩ := hparts
  refine Grouping.of_weights hgrouping (List.Perm.eq_of_pairwise (fun a b _ _ hab hba => le_antisymm hab hba) ?_ ?_ ?_)
  · exact List.pairwise_map.2 hsorted'
  · exact List.pairwise_map.2 hsorted
  · exact (hperm'.trans hperm.symm).map _

theorem sorted_stdSort (weights : List Weighted) : (stdSort weightLt weights).Pairwise fun a b => a.1 ≤ b.1 := by
  refine pairwise_stdSort (fun x y z hxy hyz => hxy.trans hyz) (fun x y hlt => ?_) (fun x y hlt => ?_) weights
  · rw [weightLt, Bool.or_eq_true, Bool.and_eq_true, Bool.not_eq_true', decide_eq_false_iff_not] at hlt
    obtain hlt | ⟨hle, -⟩ := hlt
    · exact (of_decide_eq_true hlt).le
    · exact not_lt.1 hle
  · rw [weightLt, Bool.or_eq_false_iff] at hlt
    exact not_lt.1 (of_decide_eq_false hlt.1)

/-- The groups that are stored divide the players so that the smallest groups are as large as they can be, and no
groups are stored only where the players cannot be divided. -/
theorem playerGroups_optimal (maxDifference : ℚ) (maxSize : ℕ) (t : TournamentStore) (playerIds : List PlayerId)
    (hpos : ∀ w ∈ weightedPlayers t playerIds, 0 < w.1) :
    ∃ groups, playerGroups maxDifference maxSize t playerIds = .ok groups ∧
      (groups = [] ↔
        weightedPlayers t playerIds = [] ∨ ¬∃ parts,
          Divides maxDifference maxSize (weightedPlayers t playerIds) parts) ∧
      (groups ≠ [] → ∃ parts, Divides maxDifference maxSize (weightedPlayers t playerIds) parts ∧
        groups = parts.map (·.map (·.2)) ∧
        ∀ parts', Divides maxDifference maxSize (weightedPlayers t playerIds) parts' →
          ¬List.Lex (· < ·) (smallest 50 parts) (smallest 50 parts')) := by
  have hperm : (stdSort weightLt (weightedPlayers t playerIds)).Perm (weightedPlayers t playerIds) := perm_stdSort _
  have hsorted := sorted_stdSort (weightedPlayers t playerIds)
  unfold playerGroups
  generalize hws : stdSort weightLt (weightedPlayers t playerIds) = ws at hperm hsorted
  have hordered : Ordered ws := ⟨hsorted, fun w hw => hpos w (hperm.mem_iff.1 hw)⟩
  have hnil : ws = [] ↔ weightedPlayers t playerIds = [] :=
    ⟨fun h => (h ▸ hperm).nil_eq.symm, fun h => (h ▸ hperm).eq_nil⟩
  simp only
  split
  · next h => exact ⟨[], rfl, iff_of_true rfl (.inl (hnil.1 h)), fun hne => absurd rfl hne⟩
  next hne =>
  have hsolved : Solved maxDifference maxSize 0 ws (solutions maxDifference maxSize 0 ws) := solved_solutions hordered
  obtain ⟨sol, rest, hdp, -, -⟩ := hsolved.drop (Nat.zero_le _)
  rw [List.drop_zero] at hdp
  rw [hdp] at hsolved ⊢
  simp only
  cases hpossible : sol.possible with
  | false =>
    refine ⟨[], rfl, iff_of_true rfl (.inr ?_), fun hne => absurd rfl hne⟩
    rintro ⟨parts, hparts⟩
    obtain ⟨parts', hparts', -⟩ := hparts.grouping (k := 50) hperm hsorted
    rw [(hsolved.best hparts').1] at hpossible
    cases hpossible
  | true =>
    have hdrop : (sol :: rest).drop 0 = sol :: rest := List.drop_zero
    obtain ⟨parts, hparts, hsizes, hread⟩ :=
      readGroups_spec (n := ws.length) hsolved (Nat.zero_le _) hdrop (Nat.le_refl _) hpossible
    rw [List.drop_zero] at hparts
    have hdivides : Divides maxDifference maxSize (weightedPlayers t playerIds) parts :=
      ⟨ws, hperm, hsorted, hparts⟩
    refine ⟨_, hread, iff_of_false (fun h => ?_) ?_, fun _ => ⟨parts, hdivides, rfl, fun parts' hparts' => ?_⟩⟩
    · exact hne (hparts.flatten ▸ (List.map_eq_nil_iff.1 h ▸ rfl))
    · exact not_or.2 ⟨fun h => hne (hnil.2 h), not_not.2 ⟨parts, hdivides⟩⟩
    · obtain ⟨parts₁, hparts₁, heq⟩ := hparts'.grouping (k := 50) hperm hsorted
      rw [← heq]
      have hbest := (hsolved.best hparts₁).2
      rw [hsizes] at hbest
      exact hbest.not_lex fun hbegins => hparts.eq_of_prefix hparts₁ hbegins

/-- Every player weighs a kilogram more than the one before. -/
def kilogramTournament : TournamentStore where
  players p := some (.init p { weight := some (70 + p.value) })

def groupedIds : List PlayerId := [⟨4⟩, ⟨1⟩, ⟨3⟩, ⟨2⟩]

/-- Two groups of two come before a group of one and a group of three. -/
example : playerGroups 5 3 kilogramTournament groupedIds = .ok [[⟨1⟩, ⟨2⟩], [⟨3⟩, ⟨4⟩]] :=
  by decide +kernel

theorem playerGroups_optimal_kilogram :
    ∃ groups, playerGroups 5 3 kilogramTournament groupedIds = .ok groups ∧
      (groups = [] ↔ weightedPlayers kilogramTournament groupedIds = [] ∨
        ¬∃ parts, Divides 5 3 (weightedPlayers kilogramTournament groupedIds) parts) ∧
      (groups ≠ [] → ∃ parts, Divides 5 3 (weightedPlayers kilogramTournament groupedIds) parts ∧
        groups = parts.map (·.map (·.2)) ∧
        ∀ parts', Divides 5 3 (weightedPlayers kilogramTournament groupedIds) parts' →
          ¬List.Lex (· < ·) (smallest 50 parts) (smallest 50 parts')) :=
  playerGroups_optimal 5 3 kilogramTournament groupedIds (by decide +kernel)

end AutoAddCategoriesAction

end JudoAssistant
