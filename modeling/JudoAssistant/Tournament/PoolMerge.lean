import JudoAssistant.Lib.FairMerge
import JudoAssistant.Tournament.PoolRounds
import JudoAssistant.Tournament.Specs

/-!
# The order of the matches of a double pool

A double pool merges the matches of its two pools by a priority queue with the pool that is behind at its
top.  The merge keeps the order of both pools, and the pools advance evenly.
-/

namespace JudoAssistant

open Effect FairMerge

namespace MergeQueueElement

variable {a b : MergeQueueElement}

/-- An element before another one in the queue is not ahead of it. -/
theorem le_of_lt (h : a.lt b = true) : b.matchCount * a.totalMatchCount ≤ a.matchCount * b.totalMatchCount := by
  unfold lt at h
  split at h
  · exact (of_decide_eq_true h).le
  · next heq => exact (not_not.1 heq).ge

theorem le_of_not_lt (h : ¬a.lt b = true) : a.matchCount * b.totalMatchCount ≤ b.matchCount * a.totalMatchCount := by
  unfold lt at h
  split at h
  · exact not_lt.1 fun hlt => h (decide_eq_true hlt)
  · next heq => exact (not_not.1 heq).le

theorem perm_push (e : MergeQueueElement) (queue : List MergeQueueElement) : (e.push queue).Perm (e :: queue) := by
  cases queue with
  | nil => exact .refl _
  | cons x queue =>
    show List.Perm (if x.lt e then e :: x :: queue else x :: e :: queue) _
    split
    · exact .refl _
    · exact .swap e x queue

end MergeQueueElement

/-- A pool of at least two players returns matches if the players exist and the category has none yet. -/
theorem PoolDrawSystem.exists_initCategory {t : TournamentStore} {c : CategoryStore} {players : List PlayerId}
    (hnodup : players.Nodup) (hlength : 2 ≤ players.length) (hplayers : ∀ p ∈ players, t.containsPlayer p = true)
    (hempty : ∀ id, c.containsMatch id = false) (d : PoolDrawSystem) (seed : ℕ) :
    ∃ r, d.initCategory t c players seed = .ok r ∧ r.2 ≠ [] := by
  obtain ⟨order, honce, hmem, heq⟩ := initCategory_eq hnodup hlength t c d seed
  obtain ⟨actions, hactions⟩ := createMatches_total hempty d.composited (fun m hm => hplayers m.1 (hmem m hm).1)
    (Mt19937.init seed)
  rw [heq, hactions]
  refine ⟨_, rfl, ?_⟩
  rintro rfl
  have hpair : players[0] ≠ players[1] := fun h => absurd (hnodup.getElem_inj_iff.1 h) Nat.zero_ne_one
  have hcount := countP_createMatches hactions players[0] players[1]
  rw [honce _ (List.getElem_mem _) _ (List.getElem_mem _) hpair] at hcount
  exact absurd hcount Nat.zero_ne_one

namespace DoublePoolDrawSystem

/-- What the queue holds for a pool of which some matches are left. -/
def pending (index total : ℕ) (actions : List AddMatchAction) : MergeQueueElement :=
  ⟨index, total - actions.length, total⟩

/-- The queue holds nothing for a pool that has been merged. -/
def Rest (index total : ℕ) (actions : List AddMatchAction) (queue : List MergeQueueElement) : Prop :=
  queue = [] ∧ actions = [] ∨ queue = [pending index total actions]

/-- The queue holds the pools of which matches are left, and the pool at the top is not ahead of the other one. -/
inductive Waiting (i n : ℕ) (first : List AddMatchAction) (j k : ℕ) (second : List AddMatchAction) :
    List MergeQueueElement → Prop
  | done : first = [] → second = [] → Waiting i n first j k second []
  | first {queue} : Rest j k second queue → (n - first.length) * k ≤ (k - second.length) * n →
    Waiting i n first j k second (pending i n first :: queue)
  | second {queue} : Rest i n first queue → (k - second.length) * n ≤ (n - first.length) * k →
    Waiting i n first j k second (pending j k second :: queue)

variable {i j n k : ℕ} {a : AddMatchAction} {first second : List AddMatchAction} {queue : List MergeQueueElement}

theorem Waiting.swap (h : Waiting i n first j k second queue) : Waiting j k second i n first queue := by
  cases h with
  | done hfirst hsecond => exact .done hsecond hfirst
  | first hrest hle => exact .second hrest hle
  | second hrest hle => exact .first hrest hle

theorem waiting_push (hrest : Rest j k second queue) :
    Waiting i n first j k second ((pending i n first).push queue) := by
  obtain ⟨rfl, rfl⟩ | rfl := hrest
  · refine .first (.inl ⟨rfl, rfl⟩) ?_
    rw [List.length_nil, Nat.sub_zero, Nat.mul_comm k n]
    exact Nat.mul_le_mul_right k (Nat.sub_le _ _)
  · show Waiting _ _ _ _ _ _ (if (pending j k second).lt (pending i n first) = true then _ else _)
    split
    · next hlt => exact .first (.inr rfl) (MergeQueueElement.le_of_lt hlt)
    · next hlt => exact .second (.inr rfl) (MergeQueueElement.le_of_not_lt hlt)

/-- The element of a pool is pushed again unless the pool has been merged. -/
theorem waiting_requeue {e : MergeQueueElement} (he : e = pending i n first) (hlength : first.length ≤ n)
    (hrest : Rest j k second queue) :
    Waiting i n first j k second (if e.matchCount = e.totalMatchCount then queue else e.push queue) := by
  subst he
  split
  · next hall =>
    have hcount : n - first.length = n := hall
    have hnil : first = [] := List.length_eq_zero_iff.1 (by omega)
    obtain ⟨rfl, hsecond⟩ | rfl := hrest
    · exact .done hnil hsecond
    · refine .second (.inl ⟨rfl, hnil⟩) ?_
      rw [hcount, Nat.mul_comm n k]
      exact Nat.mul_le_mul_right n (Nat.sub_le _ _)
  · exact waiting_push hrest

/-- The pool is at the top of the queue and its next match is taken. -/
theorem next_pending (hlength : (a :: first).length ≤ n) :
    { pending i n (a :: first) with matchCount := (pending i n (a :: first)).matchCount + 1 } = pending i n first := by
  rw [List.length_cons] at hlength
  simp only [pending, List.length_cons, MergeQueueElement.mk.injEq, true_and, and_true]
  omega

/-- No pool is pushed without matches. -/
theorem pending_mem_requeue {e : MergeQueueElement}
    (hmem : pending j k [] ∈ if e.matchCount = e.totalMatchCount then queue else e.push queue) :
    pending j k [] ∈ queue := by
  split at hmem
  · exact hmem
  · next hleft =>
    obtain heq | hqueue := List.mem_cons.1 ((MergeQueueElement.perm_push _ _).mem_iff.1 hmem)
    · exact absurd (by rw [← heq]; rfl) hleft
    · exact hqueue

/-- The merge interleaves the matches of the pools evenly, unless the queue has a pool without matches. -/
theorem mergeActions_spec (fuel : ℕ) (hwaiting : Waiting 0 n first 1 k second queue) (hn : first.length ≤ n)
    (hk : second.length ≤ k) (hfuel : first.length + second.length < fuel)
    (hbalanced : Balanced n k (n - first.length) (k - second.length)) :
    (∃ order, mergeActions fuel queue first second = .ok (merged order) ∧ lefts order = first ∧
      rights order = second ∧ Fair n k (n - first.length) (k - second.length) order) ∨
    mergeActions fuel queue first second = .error .outOfRange ∧
      (pending 0 n [] ∈ queue ∨ pending 1 k [] ∈ queue) := by
  induction fuel generalizing queue first second with
  | zero => exact absurd hfuel (Nat.not_lt_zero _)
  | succ fuel ih =>
    cases hwaiting with
    | done hfirst hsecond =>
      subst hfirst hsecond
      exact .inl ⟨[], rfl, rfl, rfl, fair_nil hbalanced⟩
    | @first queue hrest hle =>
      cases first with
      | nil => exact .inr ⟨rfl, .inl List.mem_cons_self⟩
      | cons a first =>
        have hnext := next_pending (i := 0) hn
        have htaken : n - (a :: first).length + 1 = n - first.length := by
          rw [List.length_cons] at hn ⊢
          omega
        have hbalanced' := hbalanced.left hle
        rw [htaken] at hbalanced'
        have hwaiting' := waiting_requeue hnext ((Nat.le_succ _).trans hn) hrest
        have hfuel' : first.length + second.length < fuel := by
          rw [List.length_cons] at hfuel
          omega
        unfold mergeActions
        simp only
        rw [if_pos (show (pending 0 n (a :: first)).index = 0 from rfl)]
        obtain ⟨order, hok, hlefts, hrights, hfair⟩ | ⟨herror, hmem⟩ :=
          ih hwaiting' ((Nat.le_succ _).trans hn) hk hfuel' hbalanced'
        · refine .inl ⟨.inl a :: order, ?_, congrArg (a :: ·) hlefts, hrights, ?_⟩
          · rw [hok]
            rfl
          · rw [← htaken] at hfair
            exact hfair.inl hbalanced a
        · refine .inr ⟨by rw [herror]; rfl, ?_⟩
          exact hmem.imp (fun h => List.mem_cons_of_mem _ (pending_mem_requeue h))
            fun h => List.mem_cons_of_mem _ (pending_mem_requeue h)
    | @second queue hrest hle =>
      cases second with
      | nil => exact .inr ⟨rfl, .inr List.mem_cons_self⟩
      | cons a second =>
        have hnext := next_pending (i := 1) hk
        have htaken : k - (a :: second).length + 1 = k - second.length := by
          rw [List.length_cons] at hk ⊢
          omega
        have hbalanced' := hbalanced.right hle
        rw [htaken] at hbalanced'
        have hwaiting' := (waiting_requeue hnext ((Nat.le_succ _).trans hk) hrest).swap
        have hfuel' : first.length + second.length < fuel := by
          rw [List.length_cons] at hfuel
          omega
        unfold mergeActions
        simp only
        rw [if_neg (show ¬(pending 1 k (a :: second)).index = 0 from Nat.one_ne_zero)]
        obtain ⟨order, hok, hlefts, hrights, hfair⟩ | ⟨herror, hmem⟩ :=
          ih hwaiting' hn ((Nat.le_succ _).trans hk) hfuel' hbalanced'
        · refine .inl ⟨.inr a :: order, ?_, hlefts, congrArg (a :: ·) hrights, ?_⟩
          · rw [hok]
            rfl
          · rw [← htaken] at hfair
            exact hfair.inr hbalanced a
        · refine .inr ⟨by rw [herror]; rfl, ?_⟩
          exact hmem.imp (fun h => List.mem_cons_of_mem _ (pending_mem_requeue h))
            fun h => List.mem_cons_of_mem _ (pending_mem_requeue h)

/-- The queue with which the merge begins. -/
def initialQueue (n k : ℕ) : List MergeQueueElement :=
  MergeQueueElement.push ⟨1, 0, k⟩ (MergeQueueElement.push ⟨0, 0, n⟩ [])

theorem waiting_initialQueue (first second : List AddMatchAction) :
    Waiting 0 first.length first 1 second.length second (initialQueue first.length second.length) := by
  have hpending : ∀ (i : ℕ) (actions : List AddMatchAction),
    pending i actions.length actions = ⟨i, 0, actions.length⟩ :=
    fun i actions => by rw [pending, Nat.sub_self]
  have hwaiting : Waiting 1 second.length second 0 first.length first
      ((pending 1 second.length second).push [pending 0 first.length first]) := waiting_push (.inr rfl)
  rw [hpending, hpending] at hwaiting
  exact hwaiting.swap

theorem mergeActions_initialQueue (first second : List AddMatchAction) :
    (∃ order, mergeActions (first.length + second.length + 2) (initialQueue first.length second.length) first second =
        .ok (merged order) ∧ lefts order = first ∧ rights order = second ∧
        Fair first.length second.length 0 0 order) ∨
      mergeActions (first.length + second.length + 2) (initialQueue first.length second.length) first second =
        .error .outOfRange ∧ (first = [] ∨ second = []) := by
  have hzero : ∀ actions : List AddMatchAction, actions.length - actions.length = 0 := fun _ => Nat.sub_self _
  have hspec := mergeActions_spec (first.length + second.length + 2) (waiting_initialQueue first second) le_rfl le_rfl
    (by omega) (by rw [hzero, hzero]; exact balanced_zero _ _)
  rw [hzero, hzero] at hspec
  refine hspec.imp_right (And.imp_right fun hempty => ?_)
  have hmem : ∀ e ∈ initialQueue first.length second.length, e.matchCount = 0 := by
    intro e he
    obtain rfl | he := List.mem_cons.1 ((MergeQueueElement.perm_push _ _).mem_iff.1 he)
    · rfl
    · rw [List.mem_singleton.1 he]
  exact hempty.imp (fun h => List.length_eq_zero_iff.1 (hmem _ h)) fun h => List.length_eq_zero_iff.1 (hmem _ h)

/-- The merge keeps all matches of both pools. -/
theorem subset_mergeActions {actions : List AddMatchAction}
    (h : mergeActions (first.length + second.length + 2)
      (initialQueue first.length second.length) first second = .ok actions) :
    first ⊆ actions ∧ second ⊆ actions := by
  obtain ⟨order, hok, rfl, rfl, -⟩ | ⟨herror, -⟩ := mergeActions_initialQueue first second
  · rw [hok] at h
    cases h
    have hperm := perm_merged order
    exact ⟨fun x hx => hperm.mem_iff.2 (List.mem_append_left _ hx),
      fun x hx => hperm.mem_iff.2 (List.mem_append_right _ hx)⟩
  · rw [herror] at h
    cases h

/-! ### The draw -/

variable (t : TournamentStore) (c : CategoryStore)

/-- The matches of the two pools are merged evenly, and the semifinals and the final follow. -/
def DrawsMerged (playerIds : List PlayerId) (d : DoublePoolDrawSystem) (actions : List AddMatchAction) : Prop :=
  ∃ firstPool secondPool firstSeed secondSeed order x y z,
    d.players.Perm playerIds ∧ d.firstPool = some firstPool ∧ d.secondPool = some secondPool ∧
    PoolDrawSystem.initCategory t c { composited := true } (d.players.take (d.players.length / 2)) firstSeed =
      .ok (firstPool, lefts order) ∧
    PoolDrawSystem.initCategory t c { composited := true } (d.players.drop (d.players.length / 2)) secondSeed =
      .ok (secondPool, rights order) ∧
    actions = merged order ++ [finalMatch c "Semi-Final" x, finalMatch c "Semi-Final" y, finalMatch c "Final" z] ∧
    d.matchIds = actions.map (·.combinedId.matchId) ∧
    ∀ pre, pre <+: order →
      |((lefts pre).length : ℤ) * (rights order).length - (rights pre).length * (lefts order).length| ≤
        max ((lefts order).length : ℤ) (rights order).length

variable {t c} {d d' : DoublePoolDrawSystem} {playerIds : List PlayerId} {seed : ℕ} {actions : List AddMatchAction}

theorem drawsMerged_initCategory (hfour : 4 ≤ playerIds.length)
    (h : d.initCategory t c playerIds seed = .ok (d', actions)) :
    DrawsMerged t c playerIds d' actions := by
  simp only [initCategory, except_bind_ok] at h
  generalize Mt19937.period = n at h
  obtain ⟨_, -, h⟩ := h
  rw [if_neg (Nat.not_lt.2 hfour)] at h
  simp only [except_bind_ok] at h
  obtain ⟨⟨firstPool, firstActions⟩, hfirst, ⟨secondPool, secondActions⟩, hsecond, actions', hmerged,
    ⟨x, _⟩, -, ⟨y, _⟩, -, ⟨z, _⟩, -, heq⟩ := h
  obtain ⟨rfl, rfl⟩ := Prod.mk.inj (except_pure_ok.1 heq)
  obtain ⟨order, hok, rfl, rfl, hfair⟩ | ⟨herror, -⟩ := mergeActions_initialQueue firstActions secondActions
  · have hactions : merged order = actions' := Except.ok.inj (hok.symm.trans hmerged)
    refine ⟨firstPool, secondPool, _, _, order, x, y, z, perm_shuffle _ _, rfl, rfl, hfirst, hsecond, ?_, rfl,
      fun pre hpre => ?_⟩
    · rw [hactions]
    · have hbalanced := hfair pre hpre
      rw [Nat.zero_add, Nat.zero_add] at hbalanced
      exact hbalanced
  · exact absurd (hmerged.symm.trans herror) (fun h => (nomatch h))

theorem exists_initCategory (hnodup : playerIds.Nodup) (hfour : 4 ≤ playerIds.length)
    (hcard : playerIds.length = c.players.card) (hplayers : ∀ p ∈ playerIds, t.containsPlayer p = true)
    (hempty : ∀ id, c.containsMatch id = false) :
    ∃ d' actions, d.initCategory t c playerIds seed = .ok (d', actions) := by
  have hperm := perm_shuffle playerIds (Mt19937.init seed)
  have hids := PoolDrawSystem.generateMatchId_total hempty
  simp only [initCategory, except_bind_ok, Exec.check_ok, decide_eq_true_eq]
  generalize Mt19937.period = n at hids
  rw [if_neg (Nat.not_lt.2 hfour)]
  simp only [except_bind_ok]
  generalize shuffle playerIds (Mt19937.init seed) = r at hperm
  have hnodup' : r.1.Nodup := hperm.nodup_iff.2 hnodup
  have hlength : 4 ≤ r.1.length := hperm.length_eq ▸ hfour
  have hplayers' : ∀ p ∈ r.1, t.containsPlayer p = true := fun p hp => hplayers p (hperm.mem_iff.1 hp)
  obtain ⟨⟨firstPool, firstActions⟩, hfirst, hfirstNe⟩ := PoolDrawSystem.exists_initCategory
    (hnodup'.sublist (List.take_sublist (r.1.length / 2) r.1)) (by rw [List.length_take]; omega)
    (fun p hp => hplayers' p (List.mem_of_mem_take hp)) hempty { composited := true } r.2.next.1
  obtain ⟨⟨secondPool, secondActions⟩, hsecond, hsecondNe⟩ := PoolDrawSystem.exists_initCategory
    (hnodup'.sublist (List.drop_sublist (r.1.length / 2) r.1)) (by rw [List.length_drop]; omega)
    (fun p hp => hplayers' p (List.mem_of_mem_drop hp)) hempty { composited := true } r.2.next.2.next.1
  obtain ⟨order, hok, -⟩ | ⟨-, hnone⟩ := mergeActions_initialQueue firstActions secondActions
  · obtain ⟨⟨x, g₁⟩, hx⟩ := hids (Mt19937.init seed)
    obtain ⟨⟨y, g₂⟩, hy⟩ := hids g₁
    obtain ⟨⟨z, g₃⟩, hz⟩ := hids g₂
    exact ⟨_, _, (), hcard, _, hfirst, _, hsecond, _, hok, _, hx, _, hy, _, hz, rfl⟩
  · exact (hnone.elim hfirstNe hsecondNe).elim

/-- A double pool of at least four players draws the matches of its two pools, merged evenly, the semifinals and the
final.  It returns if the players are those of the category and exist, and the category has no matches, as it is when
a category is drawn. -/
theorem initCategory_merged (t : TournamentStore) (c : CategoryStore) (d : DoublePoolDrawSystem)
    (playerIds : List PlayerId) (seed : ℕ) (hnodup : playerIds.Nodup) (hfour : 4 ≤ playerIds.length) :
    (∀ d' actions, d.initCategory t c playerIds seed = .ok (d', actions) → DrawsMerged t c playerIds d' actions) ∧
      (playerIds.length = c.players.card → (∀ p ∈ playerIds, t.containsPlayer p = true) →
        (∀ id, c.containsMatch id = false) →
          ∃ d' actions, d.initCategory t c playerIds seed = .ok (d', actions)) :=
  ⟨fun _ _ => drawsMerged_initCategory hfour, exists_initCategory hnodup hfour⟩

/-- A category of four players that is drawn as a double pool. -/
def fourPlayers : CategoryStore :=
  { CategoryStore.init ⟨1⟩ "" .twentyEighteen
    (.doublePool {}) with players := {⟨1⟩, ⟨2⟩, ⟨3⟩, ⟨4⟩} }

theorem initCategory_merged_fourPlayers : ∃ d' actions,
    ({} : DoublePoolDrawSystem).initCategory { players p := some (.init p {}) } fourPlayers
      [⟨1⟩, ⟨2⟩, ⟨3⟩, ⟨4⟩] 0 =
      .ok (d', actions) ∧
    DrawsMerged { players p := some (.init p {}) } fourPlayers [⟨1⟩, ⟨2⟩, ⟨3⟩, ⟨4⟩] d' actions := by
  obtain ⟨hmerged, hreturns⟩ := initCategory_merged { players p := some (.init p {}) } fourPlayers {}
    [⟨1⟩, ⟨2⟩, ⟨3⟩, ⟨4⟩] 0 (by decide) (by decide)
  obtain ⟨d', actions, h⟩ := hreturns rfl (fun _ _ => rfl) fun _ => rfl
  exact ⟨d', actions, h, hmerged d' actions h⟩

end DoublePoolDrawSystem

end JudoAssistant
