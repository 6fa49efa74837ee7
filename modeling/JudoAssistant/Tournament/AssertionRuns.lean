import JudoAssistant.Tournament.Tallies

/-!
# The assertions of the rulesets in every session

A match event violates an assertion of a ruleset when it resumes the clock of a bye.  A double pool would violate
another one if its counters said too early that the eliminations are finished.  They do not in a session in which
match events that are run again happen again and no bye that is underway is reset.
-/

namespace JudoAssistant

open Effect Exec TournamentStore

namespace MatchEventAction

/-! ### What goes wrong -/

/-- The action starts an osaekomi on a bye whose clock stands, and whose time is not over. -/
def ResumesBye (a : MatchEventAction) (t : TournamentStore) : Prop :=
  ∃ c m, t.findMatch a.combinedId = some c ∧ c.getMatch a.combinedId.matchId = .ok m ∧
    a.kind.rules.guard c.ruleset m = true ∧ a.kind.resumesBye c.ruleset m = true

/-- The match is finished before or after the action, and with the match the counters of a double pool say that the
eliminations are finished, but a match of the pools is not. -/
def Misleads (a : MatchEventAction) (t : TournamentStore) : Prop :=
  ∃ c m m' c', t.findMatch a.combinedId = some c ∧ a.kind.rules.guard c.ruleset m = true ∧
    a.kind.rules.effect c.ruleset m = .ok m' ∧ (m.getStatus = .finished ∨ m'.getStatus = .finished) ∧
    c.Rewrites a.combinedId.matchId m m' (counterMove m.getStatus m'.getStatus) c' ∧ c.drawSystem.Premature c'

/-- The run of the action violates no assertion of a ruleset. -/
def KeepsAssertions (a : MatchEventAction) (t : TournamentStore) : Prop :=
  ∀ t', a.redoImpl t ≠ .error (.assertion .ruleset) t'

theorem not_keepsAssertions_of_resumesBye {a : MatchEventAction} {t : TournamentStore} (h : a.ResumesBye t) :
    ¬a.KeepsAssertions t := by
  obtain ⟨c, m, hfind, hm, hguard, hbye⟩ := h
  exact fun hkeeps => not_avoids_redoWith hfind hm hguard hbye a.saved (Avoids.first hkeeps)

theorem keepsAssertions_of_not {a : MatchEventAction} {t : TournamentStore} (ht : t.Indexed) (hbye : ¬a.ResumesBye t)
    (hcounters : ¬a.Misleads t) : a.KeepsAssertions t := by
  refine Avoids.bind ?_ fun _ _ _ => .pure
  refine avoids_redoWith ht (fun c m hfind hm hguard => ?_)
    (fun c m m' c' t₁ hfind hguard heffect hover hrewrites hshows => ?_) a.saved
  · by_contra hresumes
    exact hbye ⟨c, m, hfind, hm, hguard, Bool.eq_true_of_not_eq_false hresumes⟩
  · refine avoids_updateDraw _ hshows.1 hshows.2 fun hpremature => ?_
    rw [hrewrites.frame.2.1] at hpremature
    exact hcounters ⟨c, m, m', c', hfind, hguard, heffect, hover, hrewrites, hpremature⟩

end MatchEventAction

/-! ### Counters -/

section

variable {c : CategoryStore}

theorem finished_of_tally {ms : List MatchStore} (h : (BestOfThreeDrawSystem.tally ms).isFinished = true) :
    ∀ m ∈ ms, m.getStatus = .finished := by
  induction ms with
  | nil => simp
  | cons m ms ih =>
    obtain ⟨hm, hrest⟩ := BestOfThreeDrawSystem.isFinished_increment h
    exact List.forall_mem_cons.2 ⟨hm, ih hrest⟩

/-- Counters that are right do not say too early that the pools are finished. -/
theorem CategoryStore.Accounted.not_premature (h : c.Accounted) (hc : c.Indexed) : ¬c.drawSystem.Premature c := by
  have htyped := h.typed
  cases hdraw : c.drawSystem with
  | pool d => exact not_false
  | doublePool d =>
    rintro ⟨hfour, hfinished, x, hx, m, hm, hstatus⟩
    obtain ⟨hmem, rfl⟩ := hc.getMatch_ok.1 hm
    rw [hdraw] at htyped
    rw [h.tallied] at hfinished
    exact hstatus (finished_of_tally hfinished m
      (List.mem_filter.2 ⟨hmem, decide_eq_true (htyped hfour m hmem hx)⟩))
  | bestOfThree d => exact not_false

theorem MatchEventAction.not_misleads_of_careful {s : Session} (hs : Session.ReachableBy Session.Careful s)
    (a : MatchEventAction) : ¬a.Misleads s.tournament := by
  rintro ⟨c, m, m', c', hfind, -, heffect, -, hrewrites, hpremature⟩
  have harranged := Session.arranged_of_reachableBy hs
  obtain ⟨hc, -⟩ := findMatch_eq_some.1 hfind
  have hsame := MatchStore.SameFight.effect c.ruleset heffect
  have haccounted := hrewrites.accounted (harranged.all _ c not_false hc) hsame.type
    (congrArg CombinedId.matchId hsame.combinedId) (counted_counterMove m m')
  refine haccounted.not_premature (hrewrites.indexed (harranged.orderly.indexed.index _ c hc) hsame) ?_
  rwa [hrewrites.frame.2.1]

end

/-! ### Sessions -/

theorem Action.constructed_of_contests {a : Action} (h : a.contests = true) : a.Constructed := by
  cases a with
  | setTatamiCount a => cases h
  | _ => trivial

namespace MatchEventAction

/-- In every state of a session, a match event violates an assertion of a ruleset if and only if it resumes the clock
of a bye, where the counters of a double pool do not mislead it.  They do not in a session in which match events that
are run again happen again and no bye that is underway is reset. -/
theorem keepsAssertions_iff {s : Session} (hs : s.Constructed) (a : MatchEventAction)
    (h : Session.ReachableBy Session.Careful s ∨ ¬a.Misleads s.tournament) :
    a.KeepsAssertions s.tournament ↔ ¬a.ResumesBye s.tournament := by
  refine ⟨fun hkeeps hbye => not_keepsAssertions_of_resumesBye hbye hkeeps, fun hbye => ?_⟩
  refine keepsAssertions_of_not hs.indexed hbye (h.elim (fun hcareful => ?_) id)
  exact not_misleads_of_careful hcareful a

/-- A double pool of four players is drawn; white wins the match of one pool, and that of the other one has begun. -/
def poolsUnderway : List Session.Event :=
  [.redo (.addPlayers ⟨[(⟨1⟩, {}), (⟨2⟩, {}), (⟨3⟩, {}), (⟨4⟩, {})]⟩),
    .redo (.changeDrawSystemPreferenceIdentifier ⟨1, .doublePool⟩),
    .redo (.addCategoryWithPlayers
      { id := ⟨1⟩, name := "", ruleset := .twentyEighteen, drawSystem := .doublePool,
        playerIds := [⟨1⟩, ⟨2⟩, ⟨3⟩, ⟨4⟩], seed := 0 }),
    DoublePoolDrawSystem.fight ⟨1656774023⟩ (.resumeMatch 0),
    DoublePoolDrawSystem.fight ⟨1656774023⟩ (.awardIppon .white 1 false),
    DoublePoolDrawSystem.fight ⟨2095368171⟩ (.resumeMatch 2)]

/-- White wins the other pool. -/
def winsPool : MatchEventAction := ⟨⟨⟨1⟩, ⟨2095368171⟩⟩, .awardIppon .white 3 false, .unwritten, []⟩

/-- After the event the eliminations are finished, and the semifinalists are the winners of the pools. -/
theorem keepsAssertions_poolsUnderway : ∃ s : Session, Runs.run Session.next poolsUnderway {} = some s ∧
    s.Constructed ∧ winsPool.KeepsAssertions s.tournament := by
  obtain ⟨s, hs⟩ := Option.isSome_iff_exists.1
    (by decide +kernel : (Runs.run Session.next poolsUnderway {}).isSome = true)
  have hcareful : Session.ReachableBy Session.Careful s := Session.careful_of_new
    (by simp [poolsUnderway, DoublePoolDrawSystem.fight, Session.Event.Constructed, Action.Constructed])
    (by decide +kernel) hs
  have hconstructed := Session.constructed_of_careful hcareful
  refine ⟨s, hs, hconstructed, (keepsAssertions_iff hconstructed winsPool (.inl hcareful)).2 ?_⟩
  rintro ⟨c, m, -, -, -, hbye⟩
  cases hbye

/-- The failure of the action after a run. -/
def failureAfter (es : List Session.Event) (a : MatchEventAction) : Option Failure := do
  let s ← Runs.run Session.next es {}
  match a.redoImpl s.tournament with
  | .ok _ _ => none
  | .error e _ => some e

theorem not_keepsAssertions_of_failureAfter {es : List Session.Event} {a : MatchEventAction}
    (h : failureAfter es a = some (.assertion .ruleset)) :
    ∃ s : Session, Runs.run Session.next es {} = some s ∧ ¬a.KeepsAssertions s.tournament := by
  obtain ⟨s, hs, herror⟩ := Option.bind_eq_some_iff.1 h
  refine ⟨s, hs, fun hkeeps => ?_⟩
  split at herror
  · cases herror
  · next e t' hredo =>
    cases herror
    exact hkeeps t' hredo

/-- An osaekomi is started on the third match, which is a bye. -/
def startsOsaekomi : MatchEventAction := ⟨⟨⟨1⟩, ⟨3071714933⟩⟩, .startOsaekomi .white 0, .unwritten, []⟩

theorem not_keepsAssertions_byeSet : ∃ s : Session, Runs.run Session.next byeSet {} = some s ∧
    s.Constructed ∧ ¬startsOsaekomi.KeepsAssertions s.tournament := by
  obtain ⟨s, hs, hnot⟩ := not_keepsAssertions_of_failureAfter
    (by decide +kernel : failureAfter byeSet startsOsaekomi = some (.assertion .ruleset))
  exact ⟨s, hs, Session.constructed_of_run
    (by simp [byeSet, DoublePoolDrawSystem.fight, Session.Event.Constructed, Action.Constructed]) hs, hnot⟩

/-- The match of a pool is made a bye and no bye again, and both are undone.  It is resumed and reset, and the action
that has lifted the bye is run again, when there is none, and undone: it restores the finished match of the bye.  Then
the reset is undone, and takes the match from those that are not started once more. -/
def byeLiftedAgain : List Session.Event :=
  poolsUnderway.take 3 ++
  [DoublePoolDrawSystem.fight ⟨1656774023⟩ (.setMatchBye true),
    DoublePoolDrawSystem.fight ⟨1656774023⟩ (.setMatchBye false), .undo, .undo,
    DoublePoolDrawSystem.fight ⟨1656774023⟩ (.resumeMatch 0),
    .redo (.resetMatches { categoryIds := [⟨1⟩], matchId := some ⟨1656774023⟩ }), .redoAgain 1, .undo, .undo]

/-- White wins the match. -/
def winsFirstPool : MatchEventAction :=
  ⟨⟨⟨1⟩, ⟨1656774023⟩⟩, .awardIppon .white 1 false, .unwritten, []⟩

theorem constructed_byeLiftedAgain {s : Session} (hs : Runs.run Session.next byeLiftedAgain {} = some s) :
    s.Constructed := by
  obtain ⟨s₁, hs₁, hagain⟩ := Option.map_eq_some_iff.1 (by decide +kernel :
    (Runs.run Session.next (byeLiftedAgain.take 9) {}).map (fun s => s.undone.all (·.contests)) = some true)
  have hconstructed : s₁.Constructed := Session.constructed_of_run
    (by simp [byeLiftedAgain, poolsUnderway, DoublePoolDrawSystem.fight, Session.Event.Constructed, Action.Constructed])
    hs₁
  obtain ⟨es, hes, hrun⟩ := hconstructed
  have hrest : Runs.run Session.next [.redoAgain 1, .undo, .undo] s₁ = some s := by
    have hall : Runs.run Session.next (byeLiftedAgain.take 9 ++ [.redoAgain 1, .undo, .undo]) {} = some s := hs
    rwa [Runs.run_append, hs₁, Option.bind_some] at hall
  refine ⟨es ++ [.redoAgain 1, .undo, .undo], Runs.guarded_append hes hrun ?_, ?_⟩
  · refine Runs.guarded_cons (fun a ha => ?_) fun s₂ _ => Runs.guarded_of_forall (fun e he u a ha => ?_) s₂
    · exact Action.constructed_of_contests (List.all_eq_true.1 hagain a (List.mem_of_getElem? ha))
    · simp only [List.mem_cons, List.not_mem_nil, or_false, or_self] at he
      subst he
      cases ha
  · rw [Runs.run_append, hrun]
    exact hrest

/-- No elimination is counted as not started then, and the double pool asks for the winner of the other pool, whose
match has not begun. -/
theorem not_keepsAssertions_byeLiftedAgain : ∃ s : Session, Runs.run Session.next byeLiftedAgain {} = some s ∧
    s.Constructed ∧ ¬winsFirstPool.KeepsAssertions s.tournament := by
  obtain ⟨s, hs, hnot⟩ := not_keepsAssertions_of_failureAfter
    (by decide +kernel : failureAfter byeLiftedAgain winsFirstPool = some (.assertion .ruleset))
  exact ⟨s, hs, constructed_byeLiftedAgain hs, hnot⟩

end MatchEventAction

end JudoAssistant
