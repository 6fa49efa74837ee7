import JudoAssistant.Tournament.Layout
import JudoAssistant.Tournament.Specs

/-!
# What the actions leave

An action changes a few fields of the players and the categories.  A function of the tournament that
is blind to these fields has the same value after the action as before.
-/

namespace JudoAssistant

open Effect Exec

/-- The players differ only in their matches. -/
def PlayerStore.SameButMatches (p p' : PlayerStore) : Prop := p' = { p with matchIds := p'.matchIds }

/-- The categories differ only in their matches and the counters of these. -/
def CategoryStore.SameButMatches (c c' : CategoryStore) : Prop :=
  c' = { c with
    matchList := c'.matchList
    matchMap := c'.matchMap
    matchCount := c'.matchCount
    status := c'.status }

section

variable {γ : Type}

/-- A function of the tournament that does not see the matches. -/
structure MatchBlind (g : TournamentStore → γ) : Prop where
  player : ∀ ⦃t id p p'⦄, t.players id = some p → p.SameButMatches p' → g (t.setPlayer id p') = g t
  category : ∀ ⦃t id c c'⦄, t.categories id = some c → c.SameButMatches c' →
    g (t.setCategory id c') = g t
  tatamis : ∀ ⦃t : TournamentStore⦄ ⦃tatamis⦄, tatamis.layout = t.tatamis.layout →
    g { t with tatamis := tatamis } = g t

/-- A function of the tournament that does not see who is in a category. -/
structure MemberBlind (g : TournamentStore → γ) : Prop where
  player : ∀ ⦃t : TournamentStore⦄ ⦃id p categories⦄, t.players id = some p →
    g (t.setPlayer id { p with categories := categories }) = g t
  category : ∀ ⦃t : TournamentStore⦄ ⦃id c players⦄, t.categories id = some c →
    g (t.setCategory id { c with players := players }) = g t

/-- A function of the tournament that does not see the names, ages and so on of the players. -/
def FieldBlind (g : TournamentStore → γ) : Prop :=
  ∀ ⦃t : TournamentStore⦄ ⦃id p fields⦄, t.players id = some p →
    g (t.setPlayer id (p.setFields fields)) = g t

/-- A function of the tournament that does not see the draw systems. -/
def DrawSystemBlind (g : TournamentStore → γ) : Prop :=
  ∀ ⦃t : TournamentStore⦄ ⦃id c drawSystem⦄, t.categories id = some c →
    g (t.setCategory id (c.setDrawSystem drawSystem)) = g t

/-- A function of the tournament that sees neither the tatamis nor the locations. -/
structure LayoutBlind (g : TournamentStore → γ) : Prop where
  tatamis : ∀ (t : TournamentStore) tatamis, g { t with tatamis := tatamis } = g t
  location : ∀ ⦃t : TournamentStore⦄ ⦃id c type location⦄, t.categories id = some c →
    g (t.setCategory id (c.setLocation type location)) = g t

/-- A function of the tournament that does not see the names, rulesets and flags of the categories. -/
structure LabelBlind (g : TournamentStore → γ) : Prop where
  name : ∀ ⦃t : TournamentStore⦄ ⦃id c name⦄, t.categories id = some c →
    g (t.setCategory id (c.setName name)) = g t
  ruleset : ∀ ⦃t : TournamentStore⦄ ⦃id c ruleset⦄, t.categories id = some c →
    g (t.setCategory id (c.setRuleset ruleset)) = g t
  hidden : ∀ ⦃t : TournamentStore⦄ ⦃id c hidden⦄, t.categories id = some c →
    g (t.setCategory id (c.setMatchesHidden hidden)) = g t

/-- A function of the tournament that sees only the players, the categories and the tatamis. -/
def ValueBlind (g : TournamentStore → γ) : Prop :=
  ∀ ⦃t t' : TournamentStore⦄, t'.players = t.players → t'.categories = t.categories →
    t'.tatamis = t.tatamis → g t' = g t

end

/-! ### The course of the matches -/

section

variable {I : TournamentStore → Prop} {Q : DrawAction → Prop}

/-- An invariant that match events and resets keep, given what holds of the actions of the draw
systems. -/
structure Course (I : TournamentStore → Prop) (Q : DrawAction → Prop) : Prop where
  follow : ∀ ⦃t id c actions⦄, I t → t.categories id = some c →
    c.drawSystem.updateCategory t c = .ok actions → ∀ a ∈ actions, Q a
  assign : ∀ a, Q (.setMatchPlayer a) → Keeps I a.redoImpl fun _ => True
  event : ∀ id (kind : MatchEventKind) r, Keeps I (editMatch id (kind.rules.effect r)) fun _ => True
  clear : ∀ id, Keeps I (editMatch id fun m => .ok (m.clearState.setEvents [])) fun _ => True
  counter : ∀ id m source target, Keeps I (moveCounter id m source target) fun _ => True

/-- An invariant that undoing match events and resets keeps. -/
structure CourseBack (I : TournamentStore → Prop) : Prop where
  unassign : ∀ a : SetMatchPlayerAction, Keeps I a.undoImpl fun _ => True
  recover : ∀ id (f : MatchStore → MatchState × List MatchEvent) (ok : MatchStore → Bool),
    Keeps I (editMatch id fun m => do
      check .action (ok m)
      return (m.setState (f m).1).setEvents (f m).2) fun _ => True
  counter : ∀ id m source target, Keeps I (moveCounter id m source target) fun _ => True

theorem keeps_read {α : Type} {f : TournamentStore → Except Failure α} :
    Keeps I (read f) fun a => ∃ t, I t ∧ f t = .ok a := by
  intro t a t' ht h
  obtain ⟨ha, rfl⟩ := read_ok.1 h
  exact ⟨ht, t, ht, ha⟩

theorem keeps_getCategory {id : CategoryId} :
    Keeps I (getCategory id) fun c => ∃ t, I t ∧ t.categories id = some c := by
  intro t c t' ht h
  obtain ⟨hc, rfl⟩ := getCategory_ok.1 h
  exact ⟨ht, t, ht, hc⟩

theorem keeps_getMatch {id : CombinedId} : Keeps I (getMatch id) fun _ => True :=
  keeps_getCategory.bind fun _ _ => .lift fun _ _ => trivial

theorem keeps_doIf {b : Bool} {x : Exec Unit} (h : Keeps I x fun _ => True) :
    Keeps I (doIf b x) fun _ => True := by
  cases b
  · exact .pure trivial
  · exact h

namespace Course

theorem runAll {run : DrawAction → Exec DrawAction} (hrun : ∀ a, Q a → Keeps I (run a) fun _ => True)
    {as : List DrawAction} (has : ∀ a ∈ as, Q a) (stack : List DrawAction) :
    Keeps I (runAll run as stack) fun _ => True := by
  induction as generalizing stack with
  | nil => exact .pure trivial
  | cons a as ih =>
    refine (hrun a (has a List.mem_cons_self)).bind fun a _ => ?_
    exact ih (fun b hb => has b (List.mem_cons_of_mem _ hb)) (a :: stack)

variable (h : Course I Q)

include h

theorem updateDraw {run : DrawAction → Exec DrawAction} (hrun : ∀ a, Q a → Keeps I (run a) fun _ => True)
    (id : CategoryId) (stack : List DrawAction) : Keeps I (updateDraw run id stack) fun _ => True := by
  intro t s t' ht hs
  simp only [JudoAssistant.updateDraw, bind_ok, getCategory_ok, read_ok] at hs
  obtain ⟨c, _, ⟨hc, rfl⟩, actions, _, ⟨hactions, rfl⟩, hs⟩ := hs
  exact runAll hrun (h.follow ht hc hactions) stack ht hs

theorem redoWith {run : DrawAction → Exec DrawAction} (hrun : ∀ a, Q a → Keeps I (run a) fun _ => True)
    (kind : MatchEventKind) (id : CombinedId) (saved : Saved) (stack : List DrawAction) :
    Keeps I (MatchEventAction.redoWith run kind.rules id saved stack) fun _ => True := by
  refine Keeps.get.bind fun t _ => ?_
  split
  · exact .pure trivial
  · refine Keeps.bind (.lift fun _ _ => trivial) fun m _ => ?_
    split
    · refine (h.event id kind _).bind fun _ _ => Keeps.bind (P := fun _ => True) ?_ fun _ _ => .pure trivial
      refine keeps_getMatch.bind fun m' _ => (keeps_doIf (h.counter _ _ _ _)).bind fun _ _ => ?_
      split
      · exact h.updateDraw hrun _ _
      · exact .pure trivial
    · exact .pure trivial

theorem drawAction_redo (n : ℕ) (a : DrawAction) (ha : Q a) : Keeps I (a.redo n) fun _ => True := by
  induction n generalizing a with
  | zero =>
    cases a with
    | setMatchPlayer a => exact (h.assign a ha).bind fun _ _ => .pure trivial
    | setMatchBye => exact .throw
  | succ n ih =>
    cases a with
    | setMatchPlayer a => exact (h.assign a ha).bind fun _ _ => .pure trivial
    | setMatchBye id bye saved stack =>
      exact (h.redoWith ih (.setMatchBye bye) id saved stack).bind fun _ _ => .pure trivial

theorem updateDraws (ids : List CategoryId) (stack : List DrawAction) :
    Keeps I (ResetMatchesAction.updateDraws ids stack) fun _ => True := by
  induction ids generalizing stack with
  | nil => exact .pure trivial
  | cons id ids ih => exact (h.updateDraw (h.drawAction_redo _) id stack).bind fun stack _ => ih stack

theorem matchEvent_redo (a : MatchEventAction) : Keeps I a.redoImpl fun _ => True :=
  (h.redoWith (h.drawAction_redo _) a.kind a.combinedId a.saved a.drawActions).bind fun _ _ => .pure trivial

theorem resetMatches_redo (a : ResetMatchesAction) : Keeps I a.redoImpl fun _ => True := by
  refine keeps_read.bind fun ids _ => Keeps.bind (keeps_forEach_unit fun id _ => ?_) fun resets _ =>
    (h.updateDraws _ _).bind fun _ _ => .pure trivial
  exact keeps_getMatch.bind fun m _ => (h.clear id).bind fun _ _ => keeps_getMatch.bind fun m' _ =>
    (keeps_doIf (h.counter _ _ _ _)).bind fun _ _ => .pure trivial

end Course

namespace CourseBack

theorem restore (h : CourseBack I) (id : CombinedId) (prevState : MatchState) (prevEventSize : ℕ) :
    Keeps I (MatchEventAction.restore id prevState prevEventSize) fun _ => True :=
  keeps_getMatch.bind fun _ _ =>
    (h.recover id (fun m => (prevState, m.events.take prevEventSize))
      (fun m => prevEventSize ≤ m.events.length)).bind fun _ _ =>
    keeps_getMatch.bind fun _ _ => keeps_doIf (h.counter _ _ _ _)

mutual

theorem drawAction_undo (h : CourseBack I) : ∀ a : DrawAction, Keeps I a.undo fun _ => True
  | .setMatchPlayer a => by
    rw [DrawAction.undo]
    exact h.unassign a
  | .setMatchBye id bye saved stack => by
    cases saved with
    | unwritten =>
      rw [DrawAction.undo]
      exact .throw
    | clear =>
      rw [DrawAction.undo]
      exact .pure trivial
    | state prevState prevEventSize =>
      rw [DrawAction.undo]
      exact (drawAction_undoAll h stack).bind fun _ _ => h.restore _ _ _

theorem drawAction_undoAll (h : CourseBack I) : ∀ stack : List DrawAction,
    Keeps I (DrawAction.undoAll stack) fun _ => True
  | [] => by
    rw [DrawAction.undoAll]
    exact .pure trivial
  | a :: stack => by
    rw [DrawAction.undoAll]
    exact (drawAction_undo h a).bind fun _ _ => drawAction_undoAll h stack

end

variable (h : CourseBack I)

include h

theorem matchEvent_undo (a : MatchEventAction) : Keeps I a.undoImpl fun _ => True := by
  unfold MatchEventAction.undoImpl
  split
  · exact .throw
  · exact .pure trivial
  · exact (h.drawAction_undoAll _).bind fun _ _ => (h.restore _ _ _).bind fun _ _ => .pure trivial

theorem recoverMatch (r : ResetMatch) : Keeps I (ResetMatchesAction.recoverMatch r) fun _ => True := by
  have hedit : Keeps I (editMatch r.combinedId fun m => .ok ((m.setState r.prevState).setEvents r.prevEvents))
      fun _ => True := h.recover r.combinedId (fun _ => (r.prevState, r.prevEvents)) fun _ => true
  exact keeps_getMatch.bind fun _ _ => hedit.bind fun _ _ =>
    keeps_getMatch.bind fun _ _ => keeps_doIf (h.counter _ _ _ _)

theorem resetMatches_undo (a : ResetMatchesAction) : Keeps I a.undoImpl fun _ => True := by
  unfold ResetMatchesAction.undoImpl
  split
  · exact .pure trivial
  · exact (h.drawAction_undoAll _).bind fun _ _ =>
      (keeps_forEach_unit fun r _ => h.recoverMatch r).bind fun _ _ => .pure trivial

end CourseBack

end

namespace MatchBlind

variable {γ : Type} {g : TournamentStore → γ} (hg : MatchBlind g)

include hg

theorem editCategory {id : CategoryId} {f : CategoryStore → Except Failure CategoryStore}
    (h : ∀ c c', f c = .ok c' → c.SameButMatches c') : Frame g (Exec.editCategory id f) :=
  frame_editCategory fun _ c c' hc hf => hg.category hc (h c c' hf)

theorem editMatch {id : CombinedId} {f : MatchStore → Except Failure MatchStore} :
    Frame g (Exec.editMatch id f) := by
  refine hg.editCategory fun c c' h => ?_
  simp only [except_bind_ok, except_pure_ok] at h
  obtain ⟨_, _, _, _, rfl⟩ := h
  unfold CategoryStore.setMatch
  split <;> rfl

theorem addTo {id : CombinedId} {player : Option PlayerId} :
    Frame g (SetMatchPlayerAction.addTo id player) := by
  cases player with
  | none => exact Frame.pure
  | some p =>
    refine frame_editPlayer fun t p p' hp h => hg.player hp ?_
    simp only [PlayerStore.addMatch, except_bind_ok, except_pure_ok] at h
    obtain ⟨_, _, rfl⟩ := h
    rfl

theorem eraseFrom {id : CombinedId} {player : Option PlayerId} :
    Frame g (SetMatchPlayerAction.eraseFrom id player) := by
  cases player with
  | none => exact Frame.pure
  | some p =>
    refine frame_editPlayer fun t p p' hp h => hg.player hp ?_
    cases h
    rfl

theorem setMatchPlayer_redo {a : SetMatchPlayerAction} : Frame g a.redoImpl := by
  refine Frame.get.bind fun t => ?_
  split
  · exact frame_getMatch.bind fun _ => hg.editMatch.bind fun _ => hg.addTo.bind fun _ =>
      hg.eraseFrom.bind fun _ => Frame.pure
  · exact Frame.pure

theorem setMatchPlayer_undo {a : SetMatchPlayerAction} : Frame g a.undoImpl := by
  refine Frame.get.bind fun t => ?_
  split
  · exact hg.editMatch.bind fun _ => hg.addTo.bind fun _ => hg.eraseFrom
  · exact Frame.pure

theorem moveCounter {id : CategoryId} {m : MatchStore} {source target : MatchStatus} :
    Frame g (moveCounter id m source target) := by
  refine Frame.bind (hg.editCategory fun c c' h => ?_) fun _ => frame_getCategory.bind fun c => ?_
  · simp only [except_bind_ok, except_pure_ok] at h
    obtain ⟨_, _, rfl⟩ := h
    rfl
  · split
    · exact Frame.pure
    · exact frame_editTatamis fun t tatamis h => hg.tatamis (TatamiList.layout_updateStatus h)

theorem course (v : γ) : Course (fun t => g t = v) fun _ => True where
  follow _ _ _ _ _ _ _ _ _ := trivial
  assign _ _ := hg.setMatchPlayer_redo.keeps v
  event _ _ _ := hg.editMatch.keeps v
  clear _ := hg.editMatch.keeps v
  counter _ _ _ _ := hg.moveCounter.keeps v

theorem courseBack (v : γ) : CourseBack fun t => g t = v where
  unassign _ := hg.setMatchPlayer_undo.keeps v
  recover _ _ _ := hg.editMatch.keeps v
  counter _ _ _ _ := hg.moveCounter.keeps v

theorem updateDraws (ids : List CategoryId) (stack : List DrawAction) :
    Frame g (ResetMatchesAction.updateDraws ids stack) :=
  Frame.of_keeps fun v => (hg.course v).updateDraws ids stack

theorem drawAction_undoAll (stack : List DrawAction) : Frame g (DrawAction.undoAll stack) :=
  Frame.of_keeps fun v => (hg.courseBack v).drawAction_undoAll stack

theorem resetMatches_redo {a : ResetMatchesAction} : Frame g a.redoImpl :=
  Frame.of_keeps fun v => (hg.course v).resetMatches_redo a

theorem resetMatches_undo {a : ResetMatchesAction} : Frame g a.undoImpl :=
  Frame.of_keeps fun v => (hg.courseBack v).resetMatches_undo a

theorem matchEvent_redo {a : MatchEventAction} : Frame g a.redoImpl :=
  Frame.of_keeps fun v => (hg.course v).matchEvent_redo a

theorem matchEvent_undo {a : MatchEventAction} : Frame g a.undoImpl :=
  Frame.of_keeps fun v => (hg.courseBack v).matchEvent_undo a

/-! ### Draws -/

theorem pushMatch {id : CategoryId} {m : MatchStore} : Frame g (Exec.editCategory id (·.pushMatch m)) := by
  refine hg.editCategory fun c c' h => ?_
  simp only [CategoryStore.pushMatch, except_bind_ok, except_pure_ok] at h
  obtain ⟨_, _, rfl⟩ := h
  rfl

theorem addMatch_redo {a : AddMatchAction} : Frame g a.redoImpl := by
  refine Frame.get.bind fun t => ?_
  split
  · exact Frame.pure
  · split
    · exact Frame.throw
    · exact hg.addTo.bind fun _ => hg.addTo.bind fun _ => hg.pushMatch

theorem addMatch_undo {a : AddMatchAction} : Frame g a.undoImpl := by
  refine Frame.get.bind fun t => ?_
  split
  · refine hg.eraseFrom.bind fun _ => hg.eraseFrom.bind fun _ => hg.editCategory fun c c' h => ?_
    unfold CategoryStore.popMatch at h
    split at h
    · cases h
    · cases h
      rfl
  · exact Frame.pure

theorem releasePlayers {id : CombinedId} {m : MatchStore} :
    Frame g (DrawCategoriesAction.releasePlayers id m) :=
  Frame.get.bind fun _ => hg.eraseFrom.bind fun _ => hg.eraseFrom

theorem engagePlayers {m : MatchStore} : Frame g (DrawCategoriesAction.engagePlayers m) :=
  Frame.get.bind fun _ => hg.addTo.bind fun _ => hg.addTo

theorem recomputeGroups {ids : List CategoryId} : Frame g (DrawCategoriesAction.recomputeGroups ids) :=
  Frame.get.bind fun _ => frame_editTatamis fun _ _ h => hg.tatamis (TatamiList.layout_recomputeBlocks h)

end MatchBlind

namespace DrawCategoriesAction

variable {γ : Type} {g : TournamentStore → γ} (hg : MatchBlind g) (hdraw : DrawSystemBlind g)

include hg hdraw

theorem frame_drawCategory {seed : ℕ} {id : CategoryId} : Frame g (drawCategory seed id) := by
  refine frame_getCategory.bind fun c => (frame_forEach fun m _ => hg.releasePlayers).bind fun _ =>
    (hg.editCategory fun c c' h => ?_).bind fun _ => frame_getCategory.bind fun cleared =>
    frame_read.bind fun p => ?_
  · cases h
    rfl
  · refine Frame.bind (frame_editCategory fun t c c' hc h => ?_) fun _ =>
      (frame_forEach fun a _ => hg.addMatch_redo).bind fun _ =>
      (hg.editCategory fun c c' h => ?_).bind fun _ => Frame.pure
    · cases h
      exact hdraw hc
    · cases h
      rfl

theorem frame_redoImpl {a : DrawCategoriesAction} : Frame g a.redoImpl :=
  frame_read.bind fun _ => (frame_forEach fun _ _ => frame_drawCategory hg hdraw).bind fun _ =>
    hg.recomputeGroups.bind fun _ => Frame.pure

theorem frame_recoverCategory {d : DrawnCategory} : Frame g (recoverCategory d) := by
  refine frame_getCategory.bind fun _ => (frame_forEach fun a _ => hg.addMatch_undo).bind fun _ =>
    Frame.bind (frame_editCategory fun t c c' hc h => ?_) fun _ =>
    (hg.editCategory fun c c' h => ?_).bind fun _ =>
    (frame_forEach fun m _ => hg.engagePlayers.bind fun _ => hg.pushMatch).bind fun _ => Frame.pure
  · cases h
    exact hdraw hc
  · cases h
    rfl

theorem frame_undoImpl {a : DrawCategoriesAction} : Frame g a.undoImpl :=
  (frame_forEach fun _ _ => frame_recoverCategory hg hdraw).bind fun _ =>
    hg.recomputeGroups.bind fun _ => Frame.pure

end DrawCategoriesAction

/-! ### Locations -/

namespace LayoutBlind

variable {γ : Type} {g : TournamentStore → γ} (hg : LayoutBlind g)

include hg

theorem editTatamis {f : Categories → TatamiList → Except Failure TatamiList} :
    Frame g (Exec.editTatamis f) := frame_editTatamis fun t _ _ => hg.tatamis t _

theorem setLocation {id : CategoryId} {type : MatchType} {location : Option BlockLocation} :
    Frame g (Exec.editCategory id fun c => .ok (c.setLocation type location)) := by
  refine frame_editCategory fun t c c' hc h => ?_
  cases h
  exact hg.location hc

theorem setTatamiLocation_redo {a : SetTatamiLocationAction} : Frame g a.redoImpl := by
  refine Frame.get.bind fun t => ?_
  split
  · exact Frame.pure
  · split
    · exact hg.editTatamis.bind fun _ => hg.setLocation.bind fun _ => Frame.pure
    · exact Frame.pure

theorem setTatamiLocation_undo {a : SetTatamiLocationAction} : Frame g a.undoImpl := by
  unfold SetTatamiLocationAction.undoImpl
  split
  · exact hg.editTatamis.bind fun _ => hg.setLocation.bind fun _ => Frame.pure
  · exact Frame.pure

theorem setTatamiCount_redo {a : SetTatamiCountAction} : Frame g a.redoImpl := by
  refine Frame.get.bind fun t => ?_
  simp only
  split
  · exact hg.editTatamis.bind fun _ => Frame.pure
  · refine (frame_forEach fun l _ => ?_).bind fun _ => Frame.pure
    exact frame_read.bind fun _ => hg.editTatamis.bind fun _ => Frame.lift.bind fun blocks =>
      (frame_forEach fun b _ => hg.setLocation).bind fun _ => Frame.pure

theorem setTatamiCount_undo {a : SetTatamiCountAction} : Frame g a.undoImpl := by
  refine Frame.get.bind fun t => ?_
  simp only
  split
  · exact (frame_forEach fun l _ => hg.editTatamis).bind fun _ => Frame.pure
  · split
    · refine (frame_forEach fun e _ => ?_).bind fun _ => hg.editTatamis.bind fun _ => Frame.pure
      exact Frame.lift.bind fun blocks => (frame_forEach fun b _ => hg.setLocation).bind fun _ => Frame.pure
    · exact Frame.pure

end LayoutBlind

/-! ### Draw systems -/

namespace ChangeCategoriesDrawSystemAction

variable {γ : Type} {g : TournamentStore → γ}

theorem frame_setDrawSystem (hdraw : DrawSystemBlind g) {id : CategoryId} {drawSystem : DrawSystem} :
    Frame g (Exec.editCategory id fun c => .ok (c.setDrawSystem drawSystem)) := by
  refine frame_editCategory fun t c c' hc h => ?_
  cases h
  exact hdraw hc

variable (hg : MatchBlind g) (hdraw : DrawSystemBlind g) (hlayout : LayoutBlind g)

include hg hdraw hlayout

theorem frame_redoImpl {a : ChangeCategoriesDrawSystemAction} : Frame g a.redoImpl := by
  refine frame_read.bind fun ids => Frame.bind ?_ fun locationActions =>
    (frame_forEach fun id _ => ?_).bind fun _ =>
    (DrawCategoriesAction.frame_redoImpl hg hdraw).bind fun _ => Frame.pure
  · unfold removeFinals
    split
    · exact Frame.pure
    · refine (frame_forEach fun id _ => frame_getCategory.bind fun c => ?_).bind fun _ => Frame.pure
      split
      · exact hlayout.setTatamiLocation_redo.bind fun _ => Frame.pure
      · exact Frame.pure
  · exact frame_getCategory.bind fun _ => (frame_setDrawSystem hdraw).bind fun _ => Frame.pure

theorem frame_undoImpl {a : ChangeCategoriesDrawSystemAction} : Frame g a.undoImpl := by
  unfold undoImpl
  split
  · exact Frame.throw
  · exact (DrawCategoriesAction.frame_undoImpl hg hdraw).bind fun _ =>
      (frame_forEach fun p _ => frame_setDrawSystem hdraw).bind fun _ =>
      (frame_forEach fun a _ => hlayout.setTatamiLocation_undo).bind fun _ => Frame.pure

end ChangeCategoriesDrawSystemAction

namespace RedrawAction

variable {γ : Type} {g : TournamentStore → γ} (hg : MatchBlind g) (hdraw : DrawSystemBlind g)
  (hlayout : LayoutBlind g)

include hg hdraw hlayout

theorem frame_run {id : CategoryId} {seed : ℕ} : Frame g (run id seed) := by
  refine frame_getCategory.bind fun c => frame_read.bind fun a => ?_
  cases a with
  | draw a => exact (DrawCategoriesAction.frame_redoImpl hg hdraw).bind fun _ => Frame.pure
  | changeDrawSystem a =>
    exact (ChangeCategoriesDrawSystemAction.frame_redoImpl hg hdraw hlayout).bind fun _ => Frame.pure

theorem frame_undo (a : RedrawAction) : Frame g a.undo := by
  cases a with
  | draw a => exact (DrawCategoriesAction.frame_undoImpl hg hdraw).bind fun _ => Frame.pure
  | changeDrawSystem a =>
    exact (ChangeCategoriesDrawSystemAction.frame_undoImpl hg hdraw hlayout).bind fun _ => Frame.pure

end RedrawAction

/-! ### The players of a category -/

namespace MemberBlind

variable {γ : Type} {g : TournamentStore → γ} (hg : MemberBlind g)

include hg

theorem joinCategory {id : CategoryId} {player : PlayerId} : Frame g (joinCategory id player) := by
  refine Frame.bind (frame_editPlayer fun t p p' hp h => ?_) fun _ =>
    frame_editCategory fun t c c' hc h => ?_
  · simp only [PlayerStore.addCategory, except_bind_ok, except_pure_ok] at h
    obtain ⟨_, _, rfl⟩ := h
    exact hg.player hp
  · simp only [CategoryStore.addPlayer, except_bind_ok, except_pure_ok] at h
    obtain ⟨_, _, rfl⟩ := h
    exact hg.category hc

theorem leaveCategory {id : CategoryId} {player : PlayerId} : Frame g (leaveCategory id player) := by
  refine Frame.bind (frame_editPlayer fun t p p' hp h => ?_) fun _ =>
    frame_editCategory fun t c c' hc h => ?_
  · simp only [PlayerStore.eraseCategory, except_bind_ok, except_pure_ok] at h
    obtain ⟨_, _, rfl⟩ := h
    exact hg.player hp
  · simp only [CategoryStore.erasePlayer, except_bind_ok, except_pure_ok] at h
    obtain ⟨_, _, rfl⟩ := h
    exact hg.category hc

end MemberBlind

theorem frame_changeMembers {γ : Type} {g : TournamentStore → γ} {id : CategoryId} {inside : Bool}
    {change : PlayerId → Exec Unit} (h : ∀ p, Frame g (change p)) (ids : List PlayerId) :
    Frame g (changeMembers id inside change ids) := by
  induction ids with
  | nil => exact Frame.pure
  | cons p ids ih =>
    refine Frame.get.bind fun t => ?_
    split
    · exact (h p).bind fun _ => ih.bind fun _ => Frame.pure
    · exact ih

/-! ### Fields of the players -/

section

variable {γ α : Type} {g : TournamentStore → γ} {field : PlayerField α}

theorem frame_setField (hg : FieldBlind g) {id : PlayerId} {value : α} :
    Frame g (editPlayer id fun p => .ok (p.setFields (field.set value p.fields))) := by
  refine frame_editPlayer fun t p p' hp h => ?_
  cases h
  exact hg hp

theorem frame_changeField [DecidableEq α] (hg : FieldBlind g) {value : α} (ids : List PlayerId) :
    Frame g (changeField field value ids) := by
  induction ids with
  | nil => exact Frame.pure
  | cons id ids ih =>
    refine Frame.get.bind fun t => ?_
    split
    · exact ih
    · split
      · exact ih
      · exact (frame_setField hg).bind fun _ => ih.bind fun _ => Frame.pure

theorem frame_restoreField (hg : FieldBlind g) {changed : List (PlayerId × α)} :
    Frame g (restoreField field changed) :=
  (frame_forEach fun _ _ => frame_setField hg).bind fun _ => Frame.pure

end

/-! ### Names, rulesets and flags of the categories -/

namespace LabelBlind

variable {γ : Type} {g : TournamentStore → γ} (hg : LabelBlind g)

include hg

theorem setName {id : CategoryId} {name : String} :
    Frame g (Exec.editCategory id fun c => .ok (c.setName name)) := by
  refine frame_editCategory fun t c c' hc h => ?_
  cases h
  exact hg.name hc

theorem setRuleset {id : CategoryId} {ruleset : RulesetIdentifier} :
    Frame g (Exec.editCategory id fun c => .ok (c.setRuleset ruleset)) := by
  refine frame_editCategory fun t c c' hc h => ?_
  cases h
  exact hg.ruleset hc

theorem changeName {value : String} (ids : List CategoryId) :
    Frame g (ChangeCategoriesNameAction.changeName value ids) := by
  induction ids with
  | nil => exact Frame.pure
  | cons id ids ih =>
    refine Frame.get.bind fun t => ?_
    split
    · exact ih
    · split
      · exact ih
      · exact hg.setName.bind fun _ => ih.bind fun _ => Frame.pure

theorem changeName_redo {a : ChangeCategoriesNameAction} : Frame g a.redoImpl :=
  (hg.changeName _).bind fun _ => Frame.pure

theorem changeName_undo {a : ChangeCategoriesNameAction} : Frame g a.undoImpl :=
  (frame_forEach fun _ _ => hg.setName).bind fun _ => Frame.pure

theorem changeRuleset_redo (hmatch : MatchBlind g) {a : ChangeCategoriesRulesetAction} :
    Frame g a.redoImpl := by
  refine frame_read.bind fun ids => (frame_forEach fun id _ => ?_).bind fun _ =>
    hmatch.resetMatches_redo.bind fun _ => Frame.pure
  exact frame_getCategory.bind fun _ => hg.setRuleset.bind fun _ => Frame.pure

theorem changeRuleset_undo (hmatch : MatchBlind g) {a : ChangeCategoriesRulesetAction} :
    Frame g a.undoImpl := by
  unfold ChangeCategoriesRulesetAction.undoImpl
  split
  · exact Frame.throw
  · exact hmatch.resetMatches_undo.bind fun _ => (frame_forEach fun p _ => hg.setRuleset).bind fun _ => Frame.pure

theorem setHidden (hmatch : MatchBlind g) {hidden : Bool} {ids : List CategoryId} :
    Frame g (SetCategoriesMatchesHiddenAction.setHidden hidden ids) := by
  refine (frame_forEach fun id _ => frame_editCategory fun t c c' hc h => ?_).bind fun _ =>
    hmatch.recomputeGroups
  cases h
  exact hg.hidden hc

end LabelBlind

/-! ### Other values -/

namespace ValueBlind

variable {γ α : Type} {g : TournamentStore → γ} (hg : ValueBlind g)

include hg

theorem editPreferences {f : List DrawSystemPreference → Except Failure (List DrawSystemPreference)} :
    Frame g (editPreferences f) := by
  intro t _ t' h
  simp only [JudoAssistant.editPreferences, bind_ok, get_ok, lift_ok, set_ok] at h
  obtain ⟨_, _, ⟨rfl, rfl⟩, _, _, ⟨-, rfl⟩, rfl⟩ := h
  exact hg rfl rfl rfl

omit hg in
theorem changeValue_redo {field : TournamentField α} {a : ChangeValueAction α}
    (h : ∀ v t, g (field.set v t) = g t) : Frame g (a.redoImpl field) := by
  intro t _ t' ha
  simp only [ChangeValueAction.redoImpl, bind_ok, get_ok, set_ok, pure_ok] at ha
  obtain ⟨_, _, ⟨rfl, rfl⟩, _, _, rfl, rfl, rfl⟩ := ha
  exact h _ _

omit hg in
theorem changeValue_undo {field : TournamentField α} {a : ChangeValueAction α}
    (h : ∀ v t, g (field.set v t) = g t) : Frame g (a.undoImpl field) := by
  unfold ChangeValueAction.undoImpl
  split
  · exact Frame.throw
  · intro t _ t' ha
    simp only [bind_ok, modify_ok, pure_ok] at ha
    obtain ⟨_, _, rfl, rfl, rfl⟩ := ha
    exact h _ _

theorem addRow_redo {a : AddDrawSystemPreferenceRow} : Frame g a.redoImpl :=
  hg.editPreferences.bind fun _ => Frame.pure

theorem addRow_undo {a : AddDrawSystemPreferenceRow} : Frame g a.undoImpl :=
  hg.editPreferences.bind fun _ => Frame.pure

theorem eraseRow_redo {a : EraseDrawSystemPreferenceRow} : Frame g a.redoImpl := by
  refine Frame.get.bind fun t => ?_
  simp only
  split
  · exact Frame.pure
  · exact hg.editPreferences.bind fun _ => Frame.pure

theorem eraseRow_undo {a : EraseDrawSystemPreferenceRow} : Frame g a.undoImpl :=
  hg.editPreferences.bind fun _ => Frame.pure

theorem changeLimit_redo {a : ChangeDrawSystemPreferenceLimitAction} : Frame g a.redoImpl := by
  refine Frame.get.bind fun t => ?_
  simp only
  split
  · exact Frame.pure
  · split
    · exact Frame.pure
    · exact hg.editPreferences.bind fun _ => Frame.pure

theorem changeLimit_undo {a : ChangeDrawSystemPreferenceLimitAction} : Frame g a.undoImpl :=
  hg.editPreferences.bind fun _ => Frame.pure

end ValueBlind

end JudoAssistant
