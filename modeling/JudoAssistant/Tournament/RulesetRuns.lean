import JudoAssistant.Tournament.BestOfThree
import JudoAssistant.Tournament.RulesetChecks
import JudoAssistant.Tournament.UpdateTwice

/-!
# Match events and the assertions of the rulesets

A match event violates the assertion of `resume` when `StartOsaekomiAction` resumes the clock of a bye
(`src/core/actions/start_osaekomi_action.cpp`).  The draw systems ask for the winners of other matches, and only the
double pool trusts the counters of the category for that.  It violates the assertion of `getWinner` when they say too
early that the eliminations are finished.
-/

namespace JudoAssistant

open Effect Exec TournamentStore
open BestOfThreeDrawSystem (tally isFinished_increment)

variable {t t₁ : TournamentStore} {c c' : CategoryStore} {x : MatchId} {m m' : MatchStore}
  {move : Option (MatchStatus × MatchStatus)}

/-! ### Counters -/

theorem tally_append (ms ms' : List MatchStore) (m : MatchStore) :
    tally (ms ++ m :: ms') = (tally (ms ++ ms')).increment m.getStatus := by
  induction ms with
  | nil => rfl
  | cons n ms ih =>
    show (tally (ms ++ m :: ms')).increment n.getStatus =
      ((tally (ms ++ ms')).increment n.getStatus).increment m.getStatus
    rw [ih, CategoryStatus.increment_comm]

namespace CategoryStore

/-- A written match stands where the old one stood. -/
theorem Rewrites.matchList (h : c.Rewrites x m m' move c') :
    ∃ ms ms', c.matchList = ms ++ m :: ms' ∧ c'.matchList = ms ++ m' :: ms' := by
  have hold := h.old
  rw [h.frame.2.2.2]
  unfold CategoryStore.getMatch at hold
  cases hx : c.matchMap x with
  | none =>
    rw [hx] at hold
    cases hold
  | some i =>
    simp only [hx] at hold
    cases hi : c.matchList[i]? with
    | none =>
      rw [hi] at hold
      cases hold
    | some n =>
      rw [hi] at hold
      cases hold
      obtain ⟨hlt, rfl⟩ := List.getElem?_eq_some_iff.1 hi
      refine ⟨c.matchList.take i, c.matchList.drop (i + 1), ?_, ?_⟩
      · rw [List.getElem_cons_drop, List.take_append_drop]
      · simp only [setMatch, hx, List.set_eq_take_append_cons_drop, hlt, if_true]

theorem getStatus_setMatch (c : CategoryStore) (x : MatchId) (m : MatchStore) (type : MatchType) :
    (c.setMatch x m).getStatus type = c.getStatus type := by
  unfold setMatch
  split <;> rfl

theorem Rewrites.status_of_ne (h : c.Rewrites x m m' move c') {type : MatchType} (hne : m'.type ≠ type) :
    c'.getStatus type = c.getStatus type := by
  cases move with
  | none =>
    obtain rfl : c' = c.setMatch x m' := h.new
    exact getStatus_setMatch c x m' type
  | some move =>
    obtain ⟨s, -, rfl⟩ := recount_ok.1 h.new
    exact (ByType.get_set_of_ne _ hne _).trans (getStatus_setMatch c x m' type)

end CategoryStore

namespace DoublePoolDrawSystem

variable {d : DoublePoolDrawSystem}

/-- The counters say that the eliminations are finished, but a match of the pools is not. -/
def Premature (c : CategoryStore) (d : DoublePoolDrawSystem) : Prop :=
  (c.getStatus .elimination).isFinished = true ∧
    ∃ id ∈ d.poolMatchIds, ∃ m, c.getMatch id = .ok m ∧ m.getStatus ≠ .finished

theorem over_of_not_premature (h : ¬d.Premature c) (hfinished : (c.getStatus .elimination).isFinished = true) :
    PoolDrawSystem.Over c d.poolMatchIds := by
  intro id hid m hm
  by_contra hstatus
  exact h ⟨hfinished, id, hid, m, hm, hstatus⟩

/-- The double pool sets players. -/
theorem setMatchPlayer_of_updateCategory {actions : List DrawAction} (h : updateCategory t c d = .ok actions) :
    ∀ a ∈ actions, ∃ b, a = .setMatchPlayer b := by
  have hassign (m : MatchStore) (i : PlayerIndex) (p : Option PlayerId) :
      ∀ a ∈ assign m i p, ∃ b, a = .setMatchPlayer b := by
    intro a ha
    unfold assign at ha
    split at ha
    · cases ha
    · exact ⟨_, List.mem_singleton.1 ha⟩
  have hboth (m : MatchStore) (ps : Option PlayerId × Option PlayerId) :
      ∀ a ∈ assignBoth m ps, ∃ b, a = .setMatchPlayer b := fun a ha =>
    (List.mem_append.1 ha).elim (hassign m _ _ a) (hassign m _ _ a)
  by_cases hfour : 4 ≤ d.players.length
  · obtain ⟨first, second, final, s, -, -, -, -, rfl⟩ := (updateCategory_ok hfour).1 h
    intro a ha
    simp only [seatAll, List.mem_append] at ha
    rcases ha with (ha | ha) | ha
    · exact hboth _ _ a ha
    · exact hboth _ _ a ha
    · exact hboth _ _ a ha
  · rw [updateCategory, if_pos (Nat.lt_of_not_le hfour)] at h
    cases h
    simp

end DoublePoolDrawSystem

/-- The draw system trusts counters that are wrong. -/
def DrawSystem.Premature (c : CategoryStore) : DrawSystem → Prop
  | doublePool d => 4 ≤ d.players.length ∧ d.Premature c
  | _ => False

theorem DrawSystem.updateCategory_ne {d : DrawSystem} (h : ¬d.Premature c) :
    d.updateCategory t c ≠ .error (.assertion .ruleset) := by
  cases d with
  | pool d => exact fun herror => nomatch herror
  | doublePool d =>
    exact DoublePoolDrawSystem.updateCategory_ne fun hfour =>
        DoublePoolDrawSystem.over_of_not_premature fun hpremature =>
      h ⟨hfour, hpremature⟩
  | bestOfThree d => exact BestOfThreeDrawSystem.updateCategory_ne c d

/-- The best of three sets or lifts at most one bye. -/
theorem BestOfThreeDrawSystem.setMatchBye_of_updateCategory {d : BestOfThreeDrawSystem} {actions : List DrawAction}
    (h : updateCategory c d = .ok actions) :
    actions = [] ∨ ∃ y bye, actions = [.setMatchBye ⟨c.id, y⟩ bye .unwritten []] := by
  unfold updateCategory at h
  split at h
  · cases h
    exact .inl rfl
  · split at h
    · simp only [except_bind_ok, except_pure_ok] at h
      obtain ⟨-, -, -, -, bye, -, -, -, rfl⟩ := h
      split
      · exact .inl rfl
      · exact .inr ⟨_, bye, rfl⟩
    · cases h

/-! ### Events -/

section

variable {run : DrawAction → Exec DrawAction} {kind : MatchEventKind} {x : CombinedId} {stack : List DrawAction}

theorem findMatch_eq_some : t.findMatch x = some c ↔
    t.categories x.categoryId = some c ∧ c.containsMatch x.matchId = true := by
  unfold TournamentStore.findMatch
  cases t.categories x.categoryId with
  | none => simp
  | some c₀ =>
    simp only [Option.ite_none_right_eq_some, Option.some.injEq]
    constructor
    · rintro ⟨hcontains, rfl⟩
      exact ⟨rfl, hcontains⟩
    · rintro ⟨rfl, hcontains⟩
      exact ⟨hcontains, rfl⟩

/-- The errors of an event are those of its effect and of the update of the draw system. -/
theorem MatchEventAction.avoids_redoWith (ht : t.Indexed)
    (hbye : ∀ c m, t.findMatch x = some c → c.getMatch x.matchId = .ok m → kind.rules.guard c.ruleset m = true →
      kind.resumesBye c.ruleset m = false)
    (hdraw : ∀ c m m' c' t₁, t.findMatch x = some c → kind.rules.guard c.ruleset m = true →
      kind.rules.effect c.ruleset m = .ok m' → (m.getStatus = .finished ∨ m'.getStatus = .finished) →
      c.Rewrites x.matchId m m' (counterMove m.getStatus m'.getStatus) c' → t₁.Shows x.categoryId (some c') →
      Avoids (.assertion .ruleset) (updateDraw run x.categoryId stack) t₁) (saved : Saved) :
    Avoids (.assertion .ruleset) (redoWith run kind.rules x saved stack) t := by
  refine Avoids.get.bind fun t₀ t₁ hread => ?_
  obtain ⟨rfl, rfl⟩ := get_ok.1 hread
  cases hfind : t₁.findMatch x with
  | none => exact .pure
  | some c =>
    obtain ⟨hc, -⟩ := findMatch_eq_some.1 hfind
    refine Avoids.bind (.lift (c.getMatch_ne _)) fun m t₁ hget => ?_
    obtain ⟨hm, rfl⟩ := lift_ok.1 hget
    split
    · next hguard =>
      refine Avoids.bind (avoids_editMatch fun c₀ m₀ hc₀ hm₀ herror => ?_) fun _ t₁ hedit =>
        Avoids.bind ?_ fun _ _ _ => .pure
      · obtain rfl := Option.some.inj (hc.symm.trans hc₀)
        obtain rfl := Except.ok.inj (hm.symm.trans hm₀)
        rw [MatchEventKind.effect_eq_error hguard, hbye c m hfind hm hguard] at herror
        cases herror
      · refine avoids_getMatch.bind fun m' t₂ hget' =>
          Avoids.bind (avoids_doIf (avoids_moveCounter _ _ _ _)) fun _ t₃ hcount => ?_
        obtain ⟨hid, c', heffect, hrewrites, hshows⟩ := notify_own ht hc hm hedit hget' hcount
        split
        · next hover =>
          rw [hid]
          exact hdraw c m m' c' t₃ hfind hguard heffect hover hrewrites hshows
        · exact .pure
    · exact .pure

/-- An event that resumes a bye fails. -/
theorem MatchEventAction.not_avoids_redoWith (hfind : t.findMatch x = some c)
    (hm : c.getMatch x.matchId = .ok m) (hguard : kind.rules.guard c.ruleset m = true)
    (hbye : kind.resumesBye c.ruleset m = true) (saved : Saved) :
    ¬Avoids (.assertion .ruleset) (redoWith run kind.rules x saved stack) t := by
  intro h
  have hmatch := h.after (get_ok.2 ⟨rfl, rfl⟩)
  rw [hfind] at hmatch
  have hchecked := hmatch.after (lift_ok.2 ⟨hm, rfl⟩)
  rw [if_pos hguard] at hchecked
  refine (hchecked.first.after (getCategory_ok.2 ⟨(findMatch_eq_some.1 hfind).1, rfl⟩)).first.of_lift ?_
  show (c.getMatch x.matchId >>= _) = _
  rw [hm]
  show (kind.rules.effect c.ruleset m >>= _) = _
  rw [(MatchEventKind.effect_eq_error hguard).2 hbye]
  rfl

theorem avoids_runAll {actions : List DrawAction}
    (h : ∀ a ∈ actions, ∀ t, Avoids (.assertion .ruleset) (run a) t) :
    Avoids (.assertion .ruleset) (runAll run actions stack) t := by
  induction actions generalizing t stack with
  | nil => exact .pure
  | cons a actions ih =>
    exact (h a List.mem_cons_self t).bind fun _ _ _ => ih fun b hb => h b (List.mem_cons_of_mem a hb)

theorem avoids_setMatchPlayer (n : ℕ) (a : SetMatchPlayerAction) :
    Avoids (.assertion .ruleset) ((DrawAction.setMatchPlayer a).redo n) t := by
  cases n <;> exact a.avoids_redo.bind fun _ _ _ => .pure

/-- The update of a draw system fails only if setting a bye does. -/
theorem avoids_updateDraw_of {id : CategoryId} (ht : t.Indexed) (hc : t.categories id = some c)
    (hcalm : ¬c.drawSystem.Premature c)
    (hplayer : ∀ a t, Avoids (.assertion .ruleset) (run (.setMatchPlayer a)) t)
    (hbye : ∀ d, c.drawSystem = .bestOfThree d → ∀ y bye,
      Avoids (.assertion .ruleset) (run (.setMatchBye ⟨id, y⟩ bye .unwritten [])) t) :
    Avoids (.assertion .ruleset) (updateDraw run id stack) t := by
  refine avoids_getCategory.bind fun c₀ t₀ hget => ?_
  obtain ⟨hc₀, rfl⟩ := getCategory_ok.1 hget
  obtain rfl := Option.some.inj (hc.symm.trans hc₀)
  refine Avoids.bind (avoids_read (DrawSystem.updateCategory_ne hcalm)) fun actions t₁ hread => ?_
  obtain ⟨hactions, rfl⟩ := read_ok.1 hread
  cases hdraw : c.drawSystem with
  | pool d =>
    rw [hdraw] at hactions
    cases hactions
    exact .pure
  | doublePool d =>
    rw [hdraw] at hactions
    refine avoids_runAll fun a ha t => ?_
    obtain ⟨b, rfl⟩ := DoublePoolDrawSystem.setMatchPlayer_of_updateCategory hactions a ha
    exact hplayer b t
  | bestOfThree d =>
    rw [hdraw] at hactions
    obtain rfl | ⟨y, bye, rfl⟩ := BestOfThreeDrawSystem.setMatchBye_of_updateCategory hactions
    · exact .pure
    · rw [ht.category id c hc]
      exact (hbye d hdraw y bye).bind fun _ _ _ => .pure

/-- The update of a draw system, with all the updates that it leads to. -/
theorem avoids_updateDraw (n : ℕ) {id : CategoryId} (ht : t.Indexed) (hc : t.categories id = some c)
    (hcalm : ¬c.drawSystem.Premature c) :
    Avoids (.assertion .ruleset) (updateDraw (DrawAction.redo n) id stack) t := by
  induction n generalizing t c stack with
  | zero => exact avoids_updateDraw_of ht hc hcalm (fun a _ => avoids_setMatchPlayer 0 a) fun _ _ _ _ =>
      .throw (by decide)
  | succ n ih =>
    refine avoids_updateDraw_of ht hc hcalm (fun a _ => avoids_setMatchPlayer (n + 1) a) fun d hd y bye =>
      Avoids.bind ?_ fun _ _ _ => .pure
    refine @MatchEventAction.avoids_redoWith _ _ (.setMatchBye bye) ⟨id, y⟩ _ ht (fun _ _ _ _ _ => rfl)
      (fun c₀ m m' c' t₁ hfind _ _ _ hrewrites hshows => ih hshows.1 hshows.2 ?_) _
    -- A best of three stays one.
    obtain rfl := Option.some.inj (hc.symm.trans (findMatch_eq_some.1 hfind).1)
    rw [hrewrites.frame.2.1, hd]
    exact not_false

end

/-- Two players are drawn for a best of three, and white wins the first two matches. -/
def MatchEventAction.byeSet : List Session.Event :=
  [.redo (.addPlayers ⟨[(⟨1⟩, {}), (⟨2⟩, {})]⟩),
    .redo (.addCategoryWithPlayers
      { id := ⟨1⟩, name := "", ruleset := .twentyEighteen, drawSystem := .bestOfThree,
        playerIds := [⟨1⟩, ⟨2⟩], seed := 0 }),
    DoublePoolDrawSystem.fight ⟨2357136044⟩ (.awardIppon .white 0 false),
    DoublePoolDrawSystem.fight ⟨2546248239⟩ (.awardIppon .white 0 false)]

end JudoAssistant
