import JudoAssistant.Lib.Run
import JudoAssistant.Tournament.Actions

/-!
# Sessions

A session is what redoing and undoing actions makes of the empty tournament.  The actions that are
done are a stack, since an action is undone only after every later one; an action that was undone
can be redone, with the undo fields that it has kept.
-/

namespace JudoAssistant

/-- The undo fields of the action are as a constructor leaves them. -/
def Action.isFresh : Action → Bool
  | .addCategory _ | .addDrawSystemPreferenceRow _ | .addPlayers _ | .autoAddCategories _
  | .changeDrawSystemPreferenceIdentifier _ => true
  | .addCategoryWithPlayers a => a.categoryAction.isNone && a.playersAction.isNone
  | .addPlayersToCategory a => a.addedPlayerIds.isEmpty && a.drawAction.isNone
  | .addPlayersWithCategories a =>
    a.addPlayersAction.isNone && a.addCategoryActions.isEmpty && a.addPlayersToCategoryActions.isEmpty
  | .changeCategoriesDrawSystem a =>
    a.changedCategories.isEmpty && a.drawAction.isNone && a.locationActions.isEmpty
  | .changeCategoriesName a => a.changedCategories.isEmpty
  | .changeCategoriesRuleset a => a.changedCategories.isEmpty && a.resetAction.isNone
  | .changeDrawSystemPreferenceLimit a => a.prevAboveLimits.isEmpty && a.prevBelowLimits.isEmpty
  | .changeMatchCardStylePreference a => a.oldValue.isNone
  | .changePlayersAge a => a.changedPlayers.isEmpty
  | .changePlayersBlueJudogiHint a => a.changedPlayers.isEmpty && a.drawAction.isNone
  | .changePlayersClub a => a.changedPlayers.isEmpty
  | .changePlayersCountry a => a.changedPlayers.isEmpty
  | .changePlayersFirstName a => a.changedPlayers.isEmpty
  | .changePlayersLastName a => a.changedPlayers.isEmpty
  | .changePlayersRank a => a.changedPlayers.isEmpty
  | .changePlayersSex a => a.changedPlayers.isEmpty
  | .changePlayersWeight a => a.changedPlayers.isEmpty && a.drawActions.isEmpty
  | .changeScoreboardStylePreference a => a.oldValue.isNone
  | .changeTournamentDate a => a.oldValue.isNone
  | .changeTournamentLocation a => a.oldValue.isNone
  | .changeTournamentName a => a.oldValue.isNone
  | .changeTournamentWebName a => a.oldValue.isNone
  | .drawCategories a => a.drawn.isEmpty
  | .eraseCategories a => a.categories.isEmpty && a.blocks.isEmpty
  | .eraseDrawSystemPreferenceRow a => a.prevValue.isNone
  | .erasePlayers a => a.erasedPlayerIds.isEmpty && a.players.isEmpty && a.actions.isEmpty
  | .erasePlayersFromAllCategories a => a.actions.isEmpty
  | .erasePlayersFromCategory a => a.erasedPlayerIds.isEmpty && a.drawAction.isNone
  | .matchEvent a => (a.saved == .unwritten || a.saved == .clear) && a.drawActions.isEmpty
  | .resetMatches a => a.changedMatches.isEmpty && a.drawActions.isEmpty
  | .setCategoriesMatchesHidden a => a.changedCategories.isEmpty
  | .setTatamiCount a => a.erasedTatamis.isEmpty
  | .setTatamiLocation a => !a.positionSet && a.oldLocation.isNone

/-- The undo of the action reads no flag `mDidSave` that was never written.  This is the flag of a match event that came
from no network and has not applied, also of one that sets a bye for a draw system. -/
def Action.isWritten : Action → Bool
  | .matchEvent a => a.saved.isWritten && DrawAction.allWritten a.drawActions
  | .resetMatches a => DrawAction.allWritten a.drawActions
  | .changeCategoriesRuleset a => a.resetAction.all fun r => DrawAction.allWritten r.drawActions
  | .changePlayersWeight a => DrawAction.allWritten a.drawActions
  | _ => true

/-- A tournament, the actions that are done, the last one first, and the actions that were undone. -/
structure Session where
  tournament : TournamentStore := {}
  done : List Action := []
  undone : List Action := []

/-- What can happen in a session: a new action is run, an undone one is redone, or the last one that
is done is undone. -/
inductive Session.Event where
  | redo (a : Action)
  | redoAgain (i : ℕ)
  | undo

namespace Session

/-- Redo an action. -/
def perform (t : TournamentStore) (a : Action) (done undone : List Action) : Except Failure Session :=
  match a.redoImpl t with
  | .ok a t => .ok ⟨t, a :: done, undone⟩
  | .error e _ => .error e

/-- Undo an action. -/
def revert (t : TournamentStore) (a : Action) (done undone : List Action) : Except Failure Session :=
  match a.undoImpl t with
  | .ok a t => .ok ⟨t, done, a :: undone⟩
  | .error e _ => .error e

/-- What an event makes of a session.  An event that is none for the session leaves it. -/
def step (s : Session) : Event → Except Failure Session
  | .redo a => if a.isFresh then perform s.tournament a s.done s.undone else .ok s
  | .redoAgain i => match s.undone[i]? with
    | some a => perform s.tournament a s.done (s.undone.eraseIdx i)
    | none => .ok s
  | .undo => match s.done with
    | a :: done => revert s.tournament a done s.undone
    | [] => .ok s

/-- The session after an event that does not fail. -/
def next (s : Session) (e : Event) : Option Session := (s.step e).toOption

/-- The action that an event redoes. -/
def redone (s : Session) : Event → Option Action
  | .redo a => if a.isFresh then some a else none
  | .redoAgain i => s.undone[i]?
  | .undo => none

/-- The sessions that a run reaches from the empty tournament, where every event is one that is
allowed. -/
def ReachableBy (ok : Session → Event → Prop) (s : Session) : Prop :=
  ∃ es, Runs.Guarded next ok es {} ∧ Runs.run next es {} = some s

/-- The sessions that a run reaches from the empty tournament. -/
def Reachable (s : Session) : Prop := ReachableBy (fun _ _ => True) s

theorem perform_ok {t : TournamentStore} {a : Action} {done undone : List Action} {s : Session} :
    perform t a done undone = .ok s ↔
      ∃ a' t', a.redoImpl t = .ok a' t' ∧ s = ⟨t', a' :: done, undone⟩ := by
  unfold perform
  cases a.redoImpl t <;> simp [eq_comm]

theorem revert_ok {t : TournamentStore} {a : Action} {done undone : List Action} {s : Session} :
    revert t a done undone = .ok s ↔
      ∃ a' t', a.undoImpl t = .ok a' t' ∧ s = ⟨t', done, a' :: undone⟩ := by
  unfold revert
  cases a.undoImpl t <;> simp [eq_comm]

/-- What an event that does not fail does: it changes nothing, it redoes an action or it undoes the
last one. -/
theorem step_cases {s s' : Session} {e : Event} (h : s.step e = .ok s') :
    s' = s ∨
    (∃ a a' t' undone, s.redone e = some a ∧ (∀ b ∈ undone, b ∈ s.undone) ∧
      (a.isFresh = true ∨ a ∈ s.undone) ∧ a.redoImpl s.tournament = .ok a' t' ∧
      s' = ⟨t', a' :: s.done, undone⟩) ∨
    (∃ a done a' t', e = .undo ∧ s.done = a :: done ∧ a.undoImpl s.tournament = .ok a' t' ∧
      s' = ⟨t', done, a' :: s.undone⟩) := by
  cases e with
  | redo a =>
    simp only [step] at h
    split at h
    · next hf =>
      obtain ⟨a', t', hr, rfl⟩ := perform_ok.1 h
      exact .inr (.inl ⟨a, a', t', s.undone, if_pos hf, fun _ hb => hb, .inl hf, hr, rfl⟩)
    · cases h
      exact .inl rfl
  | redoAgain i =>
    simp only [step] at h
    split at h
    · next a hi =>
      obtain ⟨a', t', hr, rfl⟩ := perform_ok.1 h
      exact .inr (.inl ⟨a, a', t', _, hi, fun b hb => List.mem_of_mem_eraseIdx hb,
        .inr (List.mem_of_getElem? hi), hr, rfl⟩)
    · cases h
      exact .inl rfl
  | undo =>
    simp only [step] at h
    split at h
    · next a done hd =>
      obtain ⟨a', t', hr, rfl⟩ := revert_ok.1 h
      exact .inr (.inr ⟨a, done, a', t', rfl, hd, hr, rfl⟩)
    · cases h
      exact .inl rfl

theorem next_eq_some {s s' : Session} {e : Event} : s.next e = some s' ↔ s.step e = .ok s' := by
  unfold next
  cases s.step e <;> simp [Except.toOption]

end Session

/-! ### Undoing in reverse order -/

/-- The lists among the undo fields are empty, as they are before a `redo`. -/
def Action.Idle : Action → Prop
  | .addPlayersToCategory a => a.addedPlayerIds = [] ∧ a.drawAction = none
  | .addPlayersWithCategories a => a.addCategoryActions = [] ∧ a.addPlayersToCategoryActions = []
  | .changeCategoriesDrawSystem a => a.changedCategories = [] ∧ a.locationActions = []
  | .changeCategoriesName a => a.changedCategories = []
  | .changeCategoriesRuleset a => a.changedCategories = []
  | .changePlayersAge a => a.changedPlayers = []
  | .changePlayersBlueJudogiHint a => a.changedPlayers = []
  | .changePlayersClub a => a.changedPlayers = []
  | .changePlayersCountry a => a.changedPlayers = []
  | .changePlayersFirstName a => a.changedPlayers = []
  | .changePlayersLastName a => a.changedPlayers = []
  | .changePlayersRank a => a.changedPlayers = []
  | .changePlayersSex a => a.changedPlayers = []
  | .changePlayersWeight a => a.changedPlayers = [] ∧ a.drawActions = []
  | .drawCategories a => a.drawn = []
  | .eraseCategories a => a.categories = [] ∧ a.blocks = []
  | .erasePlayers a => a.erasedPlayerIds = [] ∧ a.players = [] ∧ a.actions = []
  | .erasePlayersFromAllCategories a => a.actions = []
  | .erasePlayersFromCategory a => a.erasedPlayerIds = [] ∧ a.drawAction = none
  | .matchEvent a => a.drawActions = []
  | .resetMatches a => a.changedMatches = [] ∧ a.drawActions = []
  | .setTatamiCount a => a.erasedTatamis = []
  | _ => True

theorem Action.idle_of_isFresh {a : Action} (h : a.isFresh = true) : a.Idle := by
  cases a <;> simp_all [isFresh, Idle]

end JudoAssistant

namespace Effect

open JudoAssistant

/-- The actions of one kind among all actions. -/
theorem Revocable.wrap {α δ : Type} {J I : TournamentStore → Prop} {view : TournamentStore → δ}
    {wrap : α → Action} {x : Exec α} {undo : α → Exec α} {P : α → Prop} (h : Revocable J I view x undo P)
    (hundo : ∀ a, (wrap a).undoImpl = wrap <$> undo a) (hP : ∀ a, P a → (wrap a).Idle) :
    Revocable J I view (wrap <$> x) Action.undoImpl Action.Idle := by
  intro t a t' ht ha
  obtain ⟨b, hb, rfl⟩ := map_ok.1 ha
  obtain ⟨ht', hback⟩ := h ht hb
  refine ⟨ht', ?_⟩
  rw [hundo]
  exact hback.map hP

end Effect

namespace JudoAssistant

/-- A view of the tournament that undoing in reverse order restores: every action takes a tournament
with the invariant to one with the invariant, and its `undoImpl` leads from every tournament with the
new view back to the old view.  The view may be restored only by steps that are allowed. -/
structure Session.Discipline (β : Type) where
  Inv : TournamentStore → Prop
  view : TournamentStore → β
  /-- What holds of the views between two actions. -/
  Sane : β → Prop
  allowed : Session → Event → Prop
  /-- A condition on the tournament in which an action is undone. -/
  safe : Action → TournamentStore → Prop
  init : Inv {} ∧ Sane (view {})
  safe_of_allowed : ∀ s a done, allowed s .undo → s.done = a :: done → safe a s.tournament
  redo : ∀ s e a a' t', allowed s e → s.redone e = some a → a.Idle → Inv s.tournament →
    Sane (view s.tournament) → a.redoImpl s.tournament = .ok a' t' →
    Inv t' ∧ Sane (view t') ∧ ∀ u b u', Inv u → view u = view t' → safe a' u →
      a'.undoImpl u = .ok b u' → Inv u' ∧ view u' = view s.tournament ∧ b.Idle

namespace Session.Discipline

variable {β : Type} (D : Discipline β)

/-- The action leads back from one view to another. -/
def Undoes (a : Action) (after before : β) : Prop :=
  ∀ u b u', D.Inv u → D.view u = after → D.safe a u → a.undoImpl u = .ok b u' →
    D.Inv u' ∧ D.view u' = before ∧ b.Idle

/-- The done actions lead back, one after the other, to sane views. -/
def Chain : List Action → β → Prop
  | [], _ => True
  | a :: done, after => ∃ before, D.Sane before ∧ D.Undoes a after before ∧ Chain done before

/-- The invariant of the sessions. -/
structure Sound (s : Session) : Prop where
  inv : D.Inv s.tournament
  sane : D.Sane (D.view s.tournament)
  chain : D.Chain s.done (D.view s.tournament)
  idle : ∀ a ∈ s.undone, a.Idle

theorem sound_next {s s' : Session} {e : Event} (h : D.Sound s) (hok : D.allowed s e)
    (hnext : s.next e = some s') : D.Sound s' := by
  obtain rfl | ⟨a, a', t', undone, ha, hundone, hnew, hredo, rfl⟩ |
    ⟨a, done, a', t', rfl, hdone, hundo, rfl⟩ := step_cases (next_eq_some.1 hnext)
  · exact h
  · have hidle : a.Idle := hnew.elim Action.idle_of_isFresh (h.idle a)
    obtain ⟨hinv, hsane, hback⟩ := D.redo s e a a' t' hok ha hidle h.inv h.sane hredo
    exact ⟨hinv, hsane, ⟨_, h.sane, hback, h.chain⟩, fun b hb => h.idle b (hundone b hb)⟩
  · have hchain := h.chain
    rw [hdone] at hchain
    obtain ⟨before, hbefore, hback, hchain⟩ := hchain
    obtain ⟨hinv, hview, hidle⟩ :=
      hback _ a' t' h.inv rfl (D.safe_of_allowed s a done hok hdone) hundo
    refine ⟨hinv, by rw [hview]; exact hbefore, by rw [hview]; exact hchain, ?_⟩
    intro b hb
    rcases List.mem_cons.1 hb with rfl | hb
    · exact hidle
    · exact h.idle b hb

theorem sound_init : D.Sound {} := ⟨D.init.1, D.init.2, trivial, by simp⟩

theorem sound_of_reachableBy {s : Session} (h : ReachableBy D.allowed s) : D.Sound s := by
  obtain ⟨es, hguarded, hrun⟩ := h
  exact Runs.run_inv (fun _ _ _ hs hok hnext => D.sound_next hs hok hnext) D.sound_init hguarded hrun

/-- A further invariant that every action and its `undoImpl` keep. -/
def strengthen (J : TournamentStore → Prop) (hinit : J {})
    (hredo : ∀ a : Action, a.Idle →
      Effect.Keeps J a.redoImpl fun a => Effect.Keeps J a.undoImpl fun _ => True) : Discipline β where
  Inv t := D.Inv t ∧ J t
  view := D.view
  Sane := D.Sane
  allowed := D.allowed
  safe := D.safe
  init := ⟨⟨D.init.1, hinit⟩, D.init.2⟩
  safe_of_allowed := D.safe_of_allowed
  redo := by
    intro s e a a' t' hallowed hredone hidle hinv hsane h
    obtain ⟨hinv', hsane', hback⟩ := D.redo s e a a' t' hallowed hredone hidle hinv.1 hsane h
    obtain ⟨hJ, hundo⟩ := hredo a hidle hinv.2 h
    refine ⟨⟨hinv', hJ⟩, hsane', fun u b u' hu hview hsafe hb => ?_⟩
    obtain ⟨hu', hview', hidle'⟩ := hback u b u' hu.1 hview hsafe hb
    exact ⟨⟨hu', (hundo hu.2 hb).1⟩, hview', hidle'⟩

end Session.Discipline

/-! ### Action objects -/

/-- An `Action` with its flag `mDone`. -/
structure ActionObject where
  action : Action
  isDone : Bool := false

/-- How a call on an action object ends: with a result or an exception, with the object and the
tournament as they are then.  The undo fields after an exception are left out. -/
structure ActionCall where
  result : Except Failure Unit
  object : ActionObject
  tournament : TournamentStore

namespace ActionObject

/-- How a call of `redoImpl` or `undoImpl` ends, after the flag was set. -/
def finish (o : ActionObject) : EStateM.Result Failure TournamentStore Action → ActionCall
  | .ok a t => ⟨.ok (), { o with action := a }, t⟩
  | .error e t => ⟨.error e, o, t⟩

/-- `Action::redo` -/
def redo (o : ActionObject) (t : TournamentStore) : ActionCall :=
  if o.isDone then ⟨.error (.actionExecution "The action has already been executed."), o, t⟩
  else finish { o with isDone := true } (o.action.redoImpl t)

/-- `Action::undo` -/
def undo (o : ActionObject) (t : TournamentStore) : ActionCall :=
  if o.isDone then finish { o with isDone := false } (o.action.undoImpl t)
  else ⟨.error (.actionExecution "The action has not been executed."), o, t⟩

@[simp] theorem isDone_finish (o : ActionObject) (r : EStateM.Result Failure TournamentStore Action) :
    (o.finish r).object.isDone = o.isDone := by
  cases r <;> rfl

/-- A call of `redo` on an object that is not done sets the flag, however it ends. -/
theorem isDone_redo {o : ActionObject} (h : o.isDone = false) (t : TournamentStore) :
    (o.redo t).object.isDone = true := by
  unfold redo
  rw [if_neg (by simp [h]), isDone_finish]

/-- A session redoes an object that is not done and goes on only if the call returns. -/
theorem redo_ok {o : ActionObject} (h : o.isDone = false) {t : TournamentStore} :
    (o.redo t).result = .ok () ↔ ∃ a' t', o.action.redoImpl t = .ok a' t' ∧
      (o.redo t).object = ⟨a', true⟩ ∧ (o.redo t).tournament = t' := by
  unfold redo
  rw [if_neg (by simp [h])]
  cases o.action.redoImpl t <;> simp [finish]

/-- A `redo` that throws leaves the tournament as it was and the object not done. -/
def AtomicOnFailure (o : ActionObject) (t : TournamentStore) : Prop :=
  ∀ what, (o.redo t).result = .error (.actionExecution what) →
    (o.redo t).tournament = t ∧ (o.redo t).object.isDone = false

/-- No `redo` that throws is atomic: the flag was set before. -/
theorem redo_not_atomic (o : ActionObject) (t : TournamentStore) (what : String)
    (hnew : o.isDone = false) (hthrow : (o.redo t).result = .error (.actionExecution what)) :
    ¬ o.AtomicOnFailure t := by
  intro h
  have hdone := (h what hthrow).2
  rw [isDone_redo hnew] at hdone
  cases hdone

/-- The action that adds a category with an id. -/
def addCategory (id : CategoryId) : ActionObject where
  action := .addCategory ⟨id, "", .twentyEighteen, .pool⟩

/-- The tournament with one category. -/
def oneCategory : TournamentStore := ((addCategory ⟨1⟩).redo {}).tournament

theorem redo_not_atomic_addCategory : ¬ (addCategory ⟨1⟩).AtomicOnFailure oneCategory :=
  redo_not_atomic _ _ "Failed to redo AddCategoryAction. Category already exists." rfl rfl

/-- The action that adds a player and a category. -/
def addPlayerAndCategory (player : PlayerId) (category : CategoryId) : ActionObject where
  action := .addPlayersWithCategories
    { players := [⟨player, {}, some category⟩], newCategories := [(category, "")], seed := 0 }

/-- With a category that exists, `AddPlayersWithCategoriesAction` throws after it has added the
player, and the object is done. -/
theorem redo_keeps_players_of_clash :
    ∃ s : Session, s.Reachable ∧ ∃ o : ActionObject, o.isDone = false ∧ o.action.isFresh = true ∧
      (o.redo s.tournament).result =
        .error (.actionExecution "Failed to redo AddCategoryAction. Category already exists.") ∧
      (o.redo s.tournament).tournament ≠ s.tournament ∧
      (o.redo s.tournament).object.isDone = true := by
  refine ⟨⟨oneCategory, [(addCategory ⟨1⟩).action], []⟩, ⟨[.redo (addCategory ⟨1⟩).action], ?_, rfl⟩,
    addPlayerAndCategory ⟨2⟩ ⟨1⟩, rfl, rfl, rfl, ?_, rfl⟩
  · exact ⟨trivial, trivial⟩
  · intro h
    have hplayer : (oneCategory.players ⟨2⟩).isSome = true := by
      rw [show oneCategory.players = _ from congrArg TournamentStore.players h.symm]
      rfl
    cases hplayer

end ActionObject

end JudoAssistant
