import JudoAssistant.Tournament.BestOfThree
import JudoAssistant.Tournament.DrawShapes

/-!
# Best of three over a session

A drawn category in which match events and resets are run, undone and run again keeps the right bye and the
right results, as long as no step is taken that makes the bye wrong.
-/

namespace JudoAssistant

open Effect Exec TournamentStore

/-! ### Steps that keep the bye right -/

/-- The undo fields were written. -/
def Saved.isState : Saved → Bool
  | .state _ _ => true
  | _ => false

/-- The match exists and the check of the event succeeds. -/
def MatchEventAction.applies (a : MatchEventAction) (t : TournamentStore) : Bool :=
  match t.categories a.combinedId.categoryId with
  | none => false
  | some c => match c.getMatch a.combinedId.matchId with
    | .ok m => a.kind.rules.guard c.ruleset m
    | .error _ => false

/-- Only a third match is to be reset that has begun and is not over, while the same player has won the
first two. -/
def ResetMatchesAction.opensThird (a : ResetMatchesAction) (id : CategoryId) (c : CategoryStore) : Bool :=
  match c.matchList with
  | [first, second, third] => a.categoryIds = [id] && a.matchId = some third.id &&
    BestOfThreeDrawSystem.Agreed first second && third.getStatus ≠ .notStarted && third.getStatus ≠ .finished
  | _ => false

/-- Running the action keeps the bye of the category right.  An event on one of its matches is not
`SetMatchByeAction`, which comes from the draw system only, and applies if it was run before. -/
def Action.keepsBye (id : CategoryId) (t : TournamentStore) : Action → Bool
  | .matchEvent a => a.combinedId.categoryId ≠ id ||
    a.kind.masterTime.isSome && (!a.saved.isState || a.applies t)
  | .resetMatches a => match t.categories id with
    | none => true
    | some c => !a.opensThird id c
  | _ => false

/-- Undoing the action undoes no change of the bye of the category. -/
def Action.leavesBye (id : CategoryId) : Action → Bool
  | .matchEvent a => a.drawActions.all fun b => !b.setsBye id
  | .resetMatches a => a.drawActions.all fun b => !b.setsBye id
  | _ => false

/-- The event is the run or the undo of a match event or a reset and keeps the bye of the category right.  What is
undone has a flag `mDidSave` to read. -/
def Session.keepsBye (id : CategoryId) (s : Session) : Session.Event → Bool
  | .redo a => !a.isFresh || a.keepsBye id s.tournament
  | .redoAgain i => s.undone[i]?.all (·.keepsBye id s.tournament)
  | .undo => s.done.head?.all fun a => a.isWritten && a.leavesBye id

section

variable {s s' : Session} {e : Session.Event} {id : CategoryId} {t t' : TournamentStore} {c : CategoryStore}
  {v : Option CategoryStore}

theorem Session.keepsBye_redone {a : Action} (h : s.keepsBye id e = true) (ha : s.redone e = some a) :
    a.keepsBye id s.tournament = true := by
  cases e with
  | redo b =>
    simp only [redone] at ha
    split at ha
    · next hfresh =>
      cases ha
      simpa [keepsBye, hfresh] using h
    · cases ha
  | redoAgain i =>
    have hi : s.undone[i]? = some a := ha
    simpa [keepsBye, hi] using h
  | undo => cases ha

theorem Session.leavesBye_done {a : Action} {done : List Action} (h : s.keepsBye id .undo = true)
    (hdone : s.done = a :: done) : a.leavesBye id = true := by
  rw [keepsBye, hdone, List.head?_cons, Option.all_some, Bool.and_eq_true] at h
  exact h.2

/-- Match events and resets erase no category. -/
theorem matchBlind_isSome (id : CategoryId) : MatchBlind fun t => (t.categories id).isSome where
  player _ _ _ _ _ _ := rfl
  category t k c c' hc _ := by
    by_cases hk : id = k
    · subst hk
      rw [categories_setCategory_self, hc]
      rfl
    · exact congrArg Option.isSome (Function.update_of_ne hk _ _)
  tatamis _ _ _ := rfl

theorem Session.isSome_next (h : s.keepsBye id e = true) (hnext : s.next e = some s') :
    (s'.tournament.categories id).isSome = (s.tournament.categories id).isSome := by
  have hblind := matchBlind_isSome id
  obtain rfl | ⟨a, a', t', undone, ha, -, -, hredo, rfl⟩ | ⟨a, done, a', t', rfl, hdone, hundo, rfl⟩ :=
    step_cases (next_eq_some.1 hnext)
  · rfl
  · have hkeeps := keepsBye_redone h ha
    cases a with
    | matchEvent a =>
      obtain ⟨b, hb, -⟩ := map_ok.1 hredo
      exact hblind.matchEvent_redo hb
    | resetMatches a =>
      obtain ⟨b, hb, -⟩ := map_ok.1 hredo
      exact hblind.resetMatches_redo hb
    | _ => cases hkeeps
  · have hleaves := leavesBye_done h hdone
    cases a with
    | matchEvent a =>
      obtain ⟨b, hb, -⟩ := map_ok.1 hundo
      exact hblind.matchEvent_undo hb
    | resetMatches a =>
      obtain ⟨b, hb, -⟩ := map_ok.1 hundo
      exact hblind.resetMatches_undo hb
    | _ => cases hleaves

/-! ### Events on other categories -/

/-- An event on another category, or its undo, cannot be seen. -/
theorem MatchEventAction.event_other {a a' : MatchEventAction} (hne : a.combinedId.categoryId ≠ id)
    (hidle : a.drawActions = []) (ht : t.Shows id v) (hredo : a.redoImpl t = .ok a' t') :
    t'.Shows id v ∧ LeadsBack Indexed (·.categories id) a'.undoImpl (fun b => b.drawActions = []) v v := by
  have hclear := drawActions_redoImpl hredo
  obtain ⟨p, t₁, hwith, hrest⟩ := bind_ok.1 hredo
  obtain ⟨rfl, rfl⟩ := pure_ok.1 hrest
  have hempty : ∀ b ∈ a.drawActions, b.On a.combinedId.categoryId := by simp [hidle]
  obtain ⟨ht', hstack⟩ := keeps_redoWith_other hne (fun _ => DrawAction.keeps_redo_other hne _) hempty a.kind rfl
    a.saved ht hwith
  refine ⟨ht', fun u b u' hu hview hundo => ?_⟩
  unfold undoImpl at hundo
  cases hsaved : p.1 with
  | unwritten =>
    rw [hsaved] at hundo
    exact (throw_ok.1 hundo).elim
  | clear =>
    rw [hsaved] at hundo
    obtain ⟨rfl, rfl⟩ := pure_ok.1 hundo
    exact ⟨hu, hview, (hclear.resolve_left fun hwritten => hwritten hsaved).trans hidle⟩
  | state state n =>
    rw [hsaved] at hundo
    obtain ⟨_, u₁, hall, hrest⟩ := bind_ok.1 hundo
    obtain ⟨_, u₂, hrestore, hrest⟩ := bind_ok.1 hrest
    obtain ⟨rfl, rfl⟩ := pure_ok.1 hrest
    obtain ⟨hu₁, -⟩ := DrawAction.keeps_undoAll_other hne p.2 hstack ⟨hu, hview⟩ hall
    obtain ⟨⟨hu', hview'⟩, -⟩ := MatchEventAction.keeps_restore_other hne state n hu₁ hrestore
    exact ⟨hu', hview', rfl⟩

/-- An event that does not apply and whose undo fields were not written leaves nothing to undo. -/
theorem MatchEventAction.leadsBack_of_unwritten {a : MatchEventAction} (hidle : a.drawActions = [])
    (hsaved : a.saved.isState = false) (v : Option CategoryStore) :
    LeadsBack Indexed (·.categories id) a.undoImpl (fun b => b.drawActions = []) v v := by
  intro u b u' hu hview hundo
  unfold undoImpl at hundo
  cases hcase : a.saved with
  | unwritten =>
    rw [hcase] at hundo
    exact (throw_ok.1 hundo).elim
  | clear =>
    rw [hcase] at hundo
    obtain ⟨rfl, rfl⟩ := pure_ok.1 hundo
    exact ⟨hu, hview, hidle⟩
  | state state n =>
    rw [hcase] at hsaved
    cases hsaved

end

namespace BestOfThreeDrawSystem

variable {s s' : Session} {e : Session.Event} {id : CategoryId} {t t' : TournamentStore} {c : CategoryStore}

/-! ### The discipline -/

theorem event_keepsBye {a a' : MatchEventAction} (hkeeps : (Action.matchEvent a).keepsBye id t = true)
    (hidle : a.drawActions = []) (ht : t.Shows id (some c)) (hc : Sound c) (hredo : a.redoImpl t = .ok a' t') :
    ∃ c', t'.Shows id (some c') ∧ Sound c' ∧ ((∀ b ∈ a'.drawActions, b.setsBye id = false) →
      TakesBack id a'.undoImpl c' c fun b => b.drawActions = []) := by
  by_cases hid : a.combinedId.categoryId = id
  · rw [Action.keepsBye, hid, Bool.or_eq_true, Bool.and_eq_true] at hkeeps
    obtain ⟨htime, hold⟩ := hkeeps.resolve_left (by simp)
    obtain ⟨time, htime⟩ := Option.isSome_iff_exists.1 htime
    obtain ⟨c', ht', hc', ⟨rfl, rfl, hguard⟩ | hback⟩ := event_cases hid htime ht hc hidle hredo
    · refine ⟨c', ht', hc', fun _ => MatchEventAction.leadsBack_of_unwritten hidle ?_ _⟩
      rw [Bool.or_eq_true, Bool.not_eq_true'] at hold
      refine hold.resolve_right fun happlies => ?_
      rw [MatchEventAction.applies, hid, ht.2] at happlies
      simp only at happlies
      split at happlies
      · next m hm =>
        rw [hguard m hm] at happlies
        cases happlies
      · cases happlies
    · exact ⟨c', ht', hc', hback⟩
  · obtain ⟨ht', hback⟩ := MatchEventAction.event_other hid hidle ht hredo
    exact ⟨c, ht', hc, fun _ => hback⟩

theorem reset_keepsBye {a a' : ResetMatchesAction} (hkeeps : (Action.resetMatches a).keepsBye id t = true)
    (hidle : a.changedMatches = [] ∧ a.drawActions = []) (ht : t.Shows id (some c)) (hc : Sound c)
    (hredo : a.redoImpl t = .ok a' t') :
    ∃ c', t'.Shows id (some c') ∧ Sound c' ∧ ((∀ b ∈ a'.drawActions, b.setsBye id = false) →
      TakesBack id a'.undoImpl c' c fun b => b.changedMatches = [] ∧ b.drawActions = []) := by
  refine reset_cases ht hc hidle (fun first second third hlist hone hmatch hagreed => ?_) hredo
  rw [Action.keepsBye, ht.2] at hkeeps
  simp only [ResetMatchesAction.opensThird, hlist, hone, hmatch] at hkeeps
  by_contra hopen
  rw [not_or] at hopen
  simp [hagreed, hopen.1, hopen.2] at hkeeps

/-- Match events and resets that keep the bye right are undone in reverse order. -/
def discipline (id : CategoryId) : Session.Discipline (Option CategoryStore) where
  Inv := Indexed
  view t := t.categories id
  Sane v := ∀ c, v = some c → Sound c
  allowed s e := s.keepsBye id e = true ∧ (s.tournament.categories id).isSome = true
  safe a _ := a.leavesBye id = true
  init := ⟨⟨by simp, by simp, by simp⟩, fun _ hc => nomatch hc⟩
  safe_of_allowed _ _ _ hallowed hdone := Session.leavesBye_done hallowed.1 hdone
  redo := by
    intro s e a a' t' hallowed ha hidle hs hsane hredo
    obtain ⟨c, hc⟩ := Option.isSome_iff_exists.1 hallowed.2
    have hkeeps := Session.keepsBye_redone hallowed.1 ha
    have hsound := hsane c hc
    cases a with
    | matchEvent a =>
      obtain ⟨b, hb, rfl⟩ := map_ok.1 hredo
      obtain ⟨c', ht', hc', hback⟩ := event_keepsBye hkeeps hidle ⟨hs, hc⟩ hsound hb
      refine ⟨ht'.1, fun c₁ hc₁ => ?_, fun u d u' hu hview hleaves hundo => ?_⟩
      · rw [ht'.2] at hc₁
        cases hc₁
        exact hc'
      · obtain ⟨d, hd, rfl⟩ := map_ok.1 hundo
        have hquiet : ∀ b' ∈ b.drawActions, b'.setsBye id = false := by simpa [Action.leavesBye] using hleaves
        obtain ⟨hu', hview', hd'⟩ := hback hquiet hu (hview.trans ht'.2) hd
        exact ⟨hu', hview'.trans hc.symm, hd'⟩
    | resetMatches a =>
      obtain ⟨b, hb, rfl⟩ := map_ok.1 hredo
      obtain ⟨c', ht', hc', hback⟩ := reset_keepsBye hkeeps hidle ⟨hs, hc⟩ hsound hb
      refine ⟨ht'.1, fun c₁ hc₁ => ?_, fun u d u' hu hview hleaves hundo => ?_⟩
      · rw [ht'.2] at hc₁
        cases hc₁
        exact hc'
      · obtain ⟨d, hd, rfl⟩ := map_ok.1 hundo
        have hquiet : ∀ b' ∈ b.drawActions, b'.setsBye id = false := by simpa [Action.leavesBye] using hleaves
        obtain ⟨hu', hview', hd'⟩ := hback hquiet hu (hview.trans ht'.2) hd
        exact ⟨hu', hview'.trans hc.symm, hd'⟩
    | _ => cases hkeeps

/-! ### Drawn categories -/

/-- The category was drawn for two players, and nothing has happened since. -/
def Drawn (c : CategoryStore) : Prop :=
  ∃ (d : BestOfThreeDrawSystem) (first second third : MatchId) (white blue : PlayerId),
    c.drawSystem = .bestOfThree d ∧ d.players.length = 2 ∧ d.matchIds = [first, second, third] ∧
    c.matchList = d.matchIds.map (fun x =>
      MatchStore.init ⟨c.id, x⟩ .elimination "Best-of-Three" false (some white) (some blue)) ∧
    c.status = DrawCategoriesAction.computeStatus c.matchList

theorem winnerSound_init (r : RulesetIdentifier) (x : CombinedId) (white blue : PlayerId) :
    r.WinnerSound (.init x .elimination "Best-of-Three" false (some white) (some blue)) :=
  (RulesetIdentifier.statusSound_init x .elimination "Best-of-Three" white blue).winnerSound

theorem Drawn.sound (h : Drawn c) : Sound c := by
  obtain ⟨d, first, second, third, white, blue, hdraw, hplayers, hids, hlist, hstatus⟩ := h
  rw [hids] at hlist
  refine ⟨_, _, _, ⟨hlist, ⟨d, hdraw, hplayers, hids⟩, by simp [MatchStore.init], by simp [MatchStore.init],
    winnerSound_init _ _ _ _, winnerSound_init _ _ _ _, fun _ => winnerSound_init _ _ _ _, fun hbye => (nomatch hbye),
    ?_⟩, fun hbye => (nomatch hbye), fun hagreed => (nomatch hagreed.1)⟩
  show c.status.get .elimination = _
  rw [hstatus, hlist]
  rfl

/-- What the draw of a category of two players leaves. -/
theorem drawn_of_drawCategory {seed : ℕ} {drawn : DrawnCategory} {d : BestOfThreeDrawSystem} (ht : t.Indexed)
    (hc : t.categories id = some c) (hdraw : c.drawSystem = .bestOfThree d) (htwo : c.players.card = 2)
    (hplayers : ∀ p ∈ c.players, t.players p ≠ none)
    (h : DrawCategoriesAction.drawCategory seed id t = .ok drawn t') :
    ∃ c', t'.categories id = some c' ∧ Drawn c' := by
  obtain ⟨c₀, c', ms, u, hdraws, hstatus, hinit⟩ := DrawCategoriesAction.drawCategory_initCategory ht h
  have hc₀ := hdraws.category
  rw [hc] at hc₀
  cases hc₀
  obtain ⟨actions, hdrawn, hms, -⟩ := hdraws.drawn
  rw [hdraw, hdrawn] at hinit
  obtain ⟨⟨d', actions'⟩, hbest, heq⟩ := except_bind_ok.1 hinit
  obtain ⟨hsystem, rfl⟩ := Prod.mk.inj (except_pure_ok.1 heq)
  have hlength : (inOrder c.players).length = 2 := (congrArg Multiset.card (coe_inOrder c.players)).trans htwo
  obtain ⟨first, second, third, white, blue, hwhite, hblue, hd', hids, hactions⟩ := initCategory_two hlength hbest
  have hid : c'.id = c.id := by
    have hsame := hdraws.same
    unfold CategoryStore.SameButBouts at hsame
    exact (CategoryStore.mk.inj hsame).1
  refine ⟨c', hdraws.stored, d', first, second, third, white, blue, hsystem.symm, ?_, hids, ?_, hstatus⟩
  · rw [hd', hlength]
  · have hexists : ∀ p ∈ inOrder c.players, AddMatchAction.existing t (some p) = some p := fun p hp =>
      AddMatchAction.existing_eq_some.2 ⟨rfl, hplayers p (mem_inOrder.1 hp)⟩
    rw [hdraws.matchList, hms, hactions, List.map_map, hid]
    refine List.map_congr_left fun x _ => ?_
    show MatchStore.init _ _ _ _ (AddMatchAction.existing t (some white)) (AddMatchAction.existing t (some blue)) = _
    rw [hexists white hwhite, hexists blue hblue]
    rfl

/-! ### Runs -/

/-- In a session of match events and resets that keep the bye right, the bye and the results of a drawn
category are right. -/
theorem right_run {es : List Session.Event} (ht : t.Indexed) (hc : t.categories id = some c) (hdrawn : Drawn c)
    (hes : Runs.Guarded Session.next (fun s e => s.keepsBye id e = true) es ⟨t, [], []⟩)
    (hrun : Runs.run Session.next es ⟨t, [], []⟩ = some s) :
    ∃ c', s.tournament.categories id = some c' ∧ Right c' := by
  have hinit : (discipline id).Sound ⟨t, [], []⟩ := by
    refine ⟨ht, fun c₁ hc₁ => ?_, trivial, by simp⟩
    obtain rfl : c = c₁ := Option.some.inj (hc.symm.trans hc₁)
    exact hdrawn.sound
  have hinv : (discipline id).Sound s ∧ (s.tournament.categories id).isSome = true := by
    have hstep : ∀ s e s', (discipline id).Sound s ∧ (s.tournament.categories id).isSome = true →
        s.keepsBye id e = true → s.next e = some s' →
        (discipline id).Sound s' ∧ (s'.tournament.categories id).isSome = true := fun s e s' hs hkeeps hnext =>
      ⟨(discipline id).sound_next hs.1 ⟨hkeeps, hs.2⟩ hnext, (Session.isSome_next hkeeps hnext).trans hs.2⟩
    exact Runs.run_inv hstep ⟨hinit, congrArg Option.isSome hc⟩ hes hrun
  obtain ⟨c', hc'⟩ := Option.isSome_iff_exists.1 hinv.2
  exact ⟨c', hc', Sound.right (hinv.1.sane c' hc') (hinv.1.inv.index id c' hc')⟩

/-- A category drawn for two players. -/
def drawnCategory : CategoryStore where
  id := ⟨1⟩
  name := ""
  players := {⟨1⟩, ⟨2⟩}
  matchList := [⟨1⟩, ⟨2⟩, ⟨3⟩].map fun x =>
    .init ⟨⟨1⟩, x⟩ .elimination "Best-of-Three" false (some ⟨1⟩) (some ⟨2⟩)
  matchMap x := if x = ⟨1⟩ then some 0 else if x = ⟨2⟩ then some 1 else if x = ⟨3⟩ then some 2 else none
  matchCount := ⟨3, 0⟩
  status := ⟨{ notStartedMatches := 3 }, {}⟩
  location := ⟨none, none⟩
  ruleset := .twentyEighteen
  drawSystem := .bestOfThree { matchIds := [⟨1⟩, ⟨2⟩, ⟨3⟩], players := [⟨1⟩, ⟨2⟩] }
  matchesHidden := false

/-- The tournament with the drawn category. -/
def drawnTournament : TournamentStore := TournamentStore.setCategory {} ⟨1⟩ drawnCategory

/-- An event on a match of the category. -/
def fight (x : MatchId) (kind : MatchEventKind) : Session.Event :=
  .redo (.matchEvent ⟨⟨⟨1⟩, x⟩, kind, .unwritten, []⟩)

/-- White wins the first two matches. -/
def whiteWins : List Session.Event :=
  [fight ⟨1⟩ (.resumeMatch 0), fight ⟨1⟩ (.awardIppon .white 1 false), fight ⟨2⟩ (.resumeMatch 2),
    fight ⟨2⟩ (.awardIppon .white 3 false)]

theorem drawn_drawnCategory : Drawn drawnCategory :=
  ⟨_, ⟨1⟩, ⟨2⟩, ⟨3⟩, ⟨1⟩, ⟨2⟩, rfl, rfl, rfl, rfl, rfl⟩

theorem indexed_drawnCategory : drawnCategory.Indexed := by
  refine ⟨fun x i => ?_, by simp [drawnCategory, MatchStore.init], by simp [drawnCategory, MatchStore.init], ?_⟩
  · simp only [drawnCategory, List.map_cons, List.map_nil]
    rcases i with _ | _ | _ | i <;> grind [MatchStore.init, MatchStore.id]
  · intro type
    cases type <;> rfl

theorem indexed_drawnTournament : drawnTournament.Indexed := by
  have hcategory : ∀ k c, drawnTournament.categories k = some c → k = ⟨1⟩ ∧ c = drawnCategory := by
    intro k c hc
    by_cases hk : k = ⟨1⟩
    · subst hk
      rw [drawnTournament, categories_setCategory_self] at hc
      cases hc
      exact ⟨rfl, rfl⟩
    · have hnone : drawnTournament.categories k = none := Function.update_of_ne hk _ _
      rw [hnone] at hc
      cases hc
  refine ⟨fun p q hq => (nomatch hq), fun k c hc => ?_, fun k c hc => ?_⟩
  · obtain ⟨rfl, rfl⟩ := hcategory k c hc
    rfl
  · obtain ⟨rfl, rfl⟩ := hcategory k c hc
    exact indexed_drawnCategory

theorem right_run_whiteWins : ∃ s, Runs.run Session.next whiteWins ⟨drawnTournament, [], []⟩ = some s ∧
    ∃ c', s.tournament.categories ⟨1⟩ = some c' ∧ Right c' := by
  have hrun : (Runs.run Session.next whiteWins ⟨drawnTournament, [], []⟩).isSome = true := by decide +kernel
  obtain ⟨s, hs⟩ := Option.isSome_iff_exists.1 hrun
  refine ⟨s, hs, right_run indexed_drawnTournament (categories_setCategory_self _ _ _) drawn_drawnCategory ?_ hs⟩
  decide +kernel

/-- Status and bye of the matches of the category. -/
def courses (c : CategoryStore) : List (Option (MatchStatus × Bool)) :=
  match c.drawSystem with
  | .bestOfThree d => [0, 1, 2].map fun i => (matchAt c d i).toOption.map fun m => (m.getStatus, m.bye)
  | _ => []

/-- Where the bye is right, a third match that is a bye comes after two finished ones. -/
theorem Right.finished {first second third : MatchStatus} (h : Right c)
    (hcourses : courses c = [some (first, false), some (second, false), some (third, true)]) :
    first = .finished ∧ second = .finished := by
  obtain ⟨d, m₁, m₂, m₃, hdraw, h₁, h₂, h₃, -, hbye, -⟩ := h
  simp only [courses, hdraw, List.map_cons, List.map_nil, h₁, h₂, h₃, Except.toOption, Option.map_some,
    List.cons.injEq, Option.some.injEq, Prod.mk.injEq, and_true] at hcourses
  obtain ⟨⟨rfl, -⟩, ⟨rfl, -⟩, -, htrue⟩ := hcourses
  have hagreed : Agreed m₁ m₂ := by
    by_contra hnot
    rw [hbye hnot] at htrue
    cases htrue
  exact ⟨hagreed.1, hagreed.2.1⟩

/-- When the second win of white is undone, the third match stays a bye. -/
theorem not_right_undo : drawnTournament.Indexed ∧ drawnTournament.categories ⟨1⟩ = some drawnCategory ∧
    Drawn drawnCategory ∧ ∃ s c', Runs.run Session.next (whiteWins ++ [.undo])
      ⟨drawnTournament, [], []⟩ = some s ∧ s.tournament.categories ⟨1⟩ = some c' ∧ ¬Right c' := by
  refine ⟨indexed_drawnTournament, categories_setCategory_self _ _ _, drawn_drawnCategory, ?_⟩
  have hrun : ((Runs.run Session.next (whiteWins ++ [.undo]) ⟨drawnTournament, [], []⟩).bind fun s =>
      (s.tournament.categories ⟨1⟩).map courses) =
      some [some (.finished, false), some (.unpaused, false), some (.notStarted, true)] := by decide +kernel
  obtain ⟨s, hs, hcategory⟩ := Option.bind_eq_some_iff.1 hrun
  obtain ⟨c', hc', hcourses⟩ := Option.map_eq_some_iff.1 hcategory
  exact ⟨s, c', hs, hc', fun hright => (nomatch (hright.finished hcourses).2)⟩

end BestOfThreeDrawSystem

end JudoAssistant
