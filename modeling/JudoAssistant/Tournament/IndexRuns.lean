import JudoAssistant.Tournament.Lasting
import JudoAssistant.Tournament.LayoutRuns
import JudoAssistant.Tournament.Links

/-!
# Ids and indices in every session

No action stores a player or a category under another id than its own, and every action that adds,
removes or writes matches keeps the index of the category.  The undo fields hold categories, players
and matches that were stored under these conditions, so undoing keeps them too.
-/

namespace JudoAssistant

open Effect Exec TournamentStore

section

variable {α β : Type}

/-- The computation keeps ids and indices, and so does what `undo` makes of its result. -/
def IndexRevocable (x : Exec α) (undo : α → Exec β) : Prop :=
  Keeps Indexed x fun a => Keeps Indexed (undo a) fun _ => True

theorem keeps_indexed_of_keys {x : Exec α} (h : Frame keys x) : Keeps Indexed x fun _ => True :=
  fun _ _ _ ht hx => ⟨ht.of_keys (h hx), trivial⟩

end

/-! ### Writing -/

theorem keeps_editCategory_indexed {id : CategoryId} {f : CategoryStore → Except Failure CategoryStore}
    (h : ∀ c c', c.id = id → c.Indexed → f c = .ok c' → c'.id = c.id ∧ c'.Indexed) :
    Keeps Indexed (editCategory id f) fun _ => True := by
  intro t u t' ht hu
  obtain ⟨c, c', hc, hf, rfl⟩ := editCategory_ok.1 hu
  have hid := ht.category id c hc
  obtain ⟨hid', hindexed⟩ := h c c' hid (ht.index id c hc) hf
  exact ⟨ht.setCategory (hid'.trans hid) hindexed, trivial⟩

/-- An edit of a match that leaves its ids, its type and whether it is a permanent bye. -/
theorem keeps_editMatch_indexed {id : CombinedId} {f : MatchStore → Except Failure MatchStore}
    (h : ∀ m m', f m = .ok m' → m'.combinedId = m.combinedId ∧ m'.type = m.type ∧
      m'.permanentBye = m.permanentBye) : Keeps Indexed (editMatch id f) fun _ => True := by
  refine keeps_editCategory_indexed fun c c' _ hindexed hf => ?_
  simp only [except_bind_ok, except_pure_ok] at hf
  obtain ⟨m, hm, m', hm', rfl⟩ := hf
  obtain ⟨hid, htype, hbye⟩ := h m m' hm'
  refine ⟨?_, hindexed.setMatch hm hid htype hbye⟩
  unfold CategoryStore.setMatch
  split <;> rfl

theorem keeps_addTo_indexed (id : CombinedId) (player : Option PlayerId) :
    Keeps Indexed (SetMatchPlayerAction.addTo id player) fun _ => True := by
  cases player with
  | none => exact .pure trivial
  | some p =>
    intro t u t' ht hu
    obtain ⟨q, q', hq, hf, rfl⟩ := editPlayer_ok.1 hu
    simp only [PlayerStore.addMatch, except_bind_ok, except_pure_ok] at hf
    obtain ⟨_, _, rfl⟩ := hf
    exact ⟨ht.setPlayer (ht.player p q hq), trivial⟩

theorem keeps_eraseFrom_indexed (id : CombinedId) (player : Option PlayerId) :
    Keeps Indexed (SetMatchPlayerAction.eraseFrom id player) fun _ => True := by
  cases player with
  | none => exact .pure trivial
  | some p =>
    intro t u t' ht hu
    obtain ⟨q, q', hq, hf, rfl⟩ := editPlayer_ok.1 hu
    cases hf
    exact ⟨ht.setPlayer (ht.player p q hq), trivial⟩

theorem keeps_addPlayer_indexed (p : PlayerStore) : Keeps Indexed (addPlayer p) fun _ => True := by
  intro t u t' ht hu
  obtain ⟨-, rfl⟩ := addPlayer_ok.1 hu
  exact ⟨ht.setPlayer rfl, trivial⟩

theorem keeps_erasePlayer_indexed (id : PlayerId) : Keeps Indexed (erasePlayer id) fun _ => True := by
  intro t p t' ht hp
  obtain ⟨-, rfl⟩ := erasePlayer_ok.1 hp
  refine ⟨⟨fun i q hq => ?_, ht.category, ht.index⟩, trivial⟩
  change Function.update t.players id none i = some q at hq
  by_cases hi : i = id
  · subst hi
    rw [Function.update_self] at hq
    cases hq
  · rw [Function.update_of_ne hi] at hq
    exact ht.player i q hq

theorem keeps_addCategory_indexed {c : CategoryStore} (hc : c.Indexed) :
    Keeps Indexed (addCategory c) fun _ => True := by
  intro t u t' ht hu
  obtain ⟨-, rfl⟩ := addCategory_ok.1 hu
  exact ⟨ht.setCategory rfl hc, trivial⟩

theorem keeps_eraseCategory_indexed (id : CategoryId) :
    Keeps Indexed (eraseCategory id) CategoryStore.Indexed := by
  intro t c t' ht herase
  obtain ⟨hc, rfl⟩ := eraseCategory_ok.1 herase
  have hcases : ∀ i d, Function.update t.categories id none i = some d → t.categories i = some d := by
    intro i d hd
    by_cases hi : i = id
    · subst hi
      rw [Function.update_self] at hd
      cases hd
    · rwa [Function.update_of_ne hi] at hd
  exact ⟨⟨ht.player, fun i d hd => ht.category i d (hcases i d hd),
    fun i d hd => ht.index i d (hcases i d hd)⟩, ht.index id c hc⟩

/-! ### The course of the matches -/

theorem SetMatchPlayerAction.keeps_redo_indexed (a : SetMatchPlayerAction) :
    Keeps Indexed a.redoImpl fun _ => True := by
  refine Keeps.get.bind fun t _ => ?_
  split
  · refine keeps_getMatch.bind fun m _ => Keeps.bind (keeps_editMatch_indexed fun m m' h => ?_) fun _ _ =>
      (keeps_addTo_indexed _ _).bind fun _ _ => (keeps_eraseFrom_indexed _ _).bind fun _ _ => .pure trivial
    cases h
    cases a.playerIndex <;> exact ⟨rfl, rfl, rfl⟩
  · exact .pure trivial

theorem SetMatchPlayerAction.keeps_undo_indexed (a : SetMatchPlayerAction) :
    Keeps Indexed a.undoImpl fun _ => True := by
  refine Keeps.get.bind fun t _ => ?_
  split
  · refine Keeps.bind (keeps_editMatch_indexed fun m m' h => ?_) fun _ _ =>
      (keeps_addTo_indexed _ _).bind fun _ _ => keeps_eraseFrom_indexed _ _
    cases h
    cases a.playerIndex <;> exact ⟨rfl, rfl, rfl⟩
  · exact .pure trivial

theorem keeps_moveCounter_indexed (id : CategoryId) (m : MatchStore) (source target : MatchStatus) :
    Keeps Indexed (moveCounter id m source target) fun _ => True := by
  refine Keeps.bind (keeps_editCategory_indexed fun c c' _ hindexed h => ?_) fun _ _ =>
    keeps_getCategory.bind fun c _ => ?_
  · simp only [except_bind_ok, except_pure_ok] at h
    obtain ⟨_, _, rfl⟩ := h
    exact ⟨rfl, hindexed.of_eq rfl rfl rfl rfl⟩
  · split
    · exact .pure trivial
    · exact keeps_indexed_of_keys layoutBlind_keys.editTatamis

theorem course_indexed : Course Indexed fun _ => True where
  follow _ _ _ _ _ _ _ _ _ := trivial
  assign a _ := a.keeps_redo_indexed
  event _ _ r := keeps_editMatch_indexed fun _ _ h =>
    have hsame := MatchStore.SameFight.effect r h
    ⟨hsame.combinedId, hsame.type, hsame.permanentBye⟩
  clear _ := keeps_editMatch_indexed fun _ _ h => by
    cases h
    exact ⟨rfl, rfl, rfl⟩
  counter := keeps_moveCounter_indexed

theorem courseBack_indexed : CourseBack Indexed where
  unassign a := a.keeps_undo_indexed
  recover _ _ _ := keeps_editMatch_indexed fun _ _ h => by
    simp only [except_bind_ok, except_pure_ok] at h
    obtain ⟨_, _, rfl⟩ := h
    exact ⟨rfl, rfl, rfl⟩
  counter := keeps_moveCounter_indexed

/-! ### Draws -/

theorem AddMatchAction.keeps_redo_indexed {a : AddMatchAction} (hbye : a.bye = false) :
    Keeps Indexed a.redoImpl fun _ => True := by
  refine Keeps.get.bind fun t _ => ?_
  split
  · exact .pure trivial
  · split
    · exact .throw
    · refine (keeps_addTo_indexed _ _).bind fun _ _ => (keeps_addTo_indexed _ _).bind fun _ _ =>
        keeps_editCategory_indexed fun c c' hid hindexed h => ?_
      refine ⟨?_, hindexed.pushMatch hid.symm hbye h⟩
      obtain ⟨-, rfl⟩ := CategoryStore.pushMatch_ok h
      rfl

theorem AddMatchAction.keeps_undo_indexed (a : AddMatchAction) : Keeps Indexed a.undoImpl fun _ => True := by
  refine Keeps.get.bind fun t _ => ?_
  split
  · refine (keeps_eraseFrom_indexed _ _).bind fun _ _ => (keeps_eraseFrom_indexed _ _).bind fun _ _ =>
      keeps_editCategory_indexed fun c c' hid hindexed h => ⟨?_, hindexed.popMatch h⟩
    obtain ⟨m, -, rfl⟩ := CategoryStore.popMatch_ok h
    rfl
  · exact .pure trivial

/-- The matches that a draw action keeps are those of the category. -/
def DrawnCategory.Recoverable (d : DrawnCategory) : Prop :=
  ∀ m ∈ d.oldMatches, m.combinedId.categoryId = d.categoryId ∧ m.permanentBye = false

namespace DrawCategoriesAction

theorem keeps_recomputeGroups_indexed (ids : List CategoryId) :
    Keeps Indexed (recomputeGroups ids) fun _ => True :=
  keeps_indexed_of_keys (Frame.get.bind fun _ => layoutBlind_keys.editTatamis)

theorem keeps_drawCategory_indexed (seed : ℕ) (id : CategoryId) :
    Keeps Indexed (drawCategory seed id) DrawnCategory.Recoverable := by
  refine keeps_getCategory.bind fun c hc => ?_
  have hold : ∀ m ∈ c.matchList, m.combinedId.categoryId = id ∧ m.permanentBye = false := by
    obtain ⟨t, ht, hc⟩ := hc
    intro m hm
    have hindexed := ht.index id c hc
    exact ⟨(hindexed.ids m hm).trans (ht.category id c hc), hindexed.permanentBye m hm⟩
  refine (keeps_forEach_unit fun m _ => Keeps.get.bind fun _ _ => (keeps_eraseFrom_indexed _ _).bind fun _ _ =>
    keeps_eraseFrom_indexed _ _).bind fun _ _ => ?_
  have hclear : Keeps Indexed (editCategory id fun c => .ok c.clearMatches) fun _ => True :=
    keeps_editCategory_indexed fun c c' _ _ h => by
      cases h
      exact ⟨rfl, CategoryStore.indexed_clearMatches c⟩
  refine hclear.bind fun _ _ => keeps_getCategory.bind fun cleared _ => keeps_read.bind fun p hp => ?_
  obtain ⟨t, -, hp⟩ := hp
  have hactions := (DrawSystem.among_initCategory hp).1
  have hset : Keeps Indexed (editCategory id fun c => .ok (c.setDrawSystem p.1)) fun _ => True :=
    keeps_indexed_of_keys (ChangeCategoriesDrawSystemAction.frame_setDrawSystem drawSystemBlind_keys)
  have hcount : Keeps Indexed (editCategory id fun c => .ok { c with status := computeStatus c.matchList })
      fun _ => True := keeps_editCategory_indexed fun c c' _ hindexed h => by
    cases h
    exact ⟨rfl, hindexed.of_eq rfl rfl rfl rfl⟩
  exact hset.bind fun _ _ =>
    (keeps_forEach_unit fun a ha => AddMatchAction.keeps_redo_indexed (hactions a ha).bye).bind fun _ _ =>
    hcount.bind fun _ _ => .pure hold

theorem keeps_recoverCategory_indexed {d : DrawnCategory} (hd : d.Recoverable) :
    Keeps Indexed (recoverCategory d) fun _ => True := by
  have hset : Keeps Indexed (editCategory d.categoryId fun c => .ok (c.setDrawSystem d.oldDrawSystem))
      fun _ => True :=
    keeps_indexed_of_keys (ChangeCategoriesDrawSystemAction.frame_setDrawSystem drawSystemBlind_keys)
  have hcount : Keeps Indexed (editCategory d.categoryId fun c => .ok { c with status := d.oldStatus })
      fun _ => True := keeps_editCategory_indexed fun c c' _ hindexed h => by
    cases h
    exact ⟨rfl, hindexed.of_eq rfl rfl rfl rfl⟩
  refine keeps_getCategory.bind fun _ _ => (keeps_forEach_unit fun a _ => a.keeps_undo_indexed).bind fun _ _ =>
    hset.bind fun _ _ => hcount.bind fun _ _ => Keeps.bind (keeps_forEach_unit fun m hm => ?_)
    fun _ _ => .pure trivial
  refine Keeps.bind (P := fun _ => True) (Keeps.get.bind fun _ _ => (keeps_addTo_indexed _ _).bind fun _ _ =>
    keeps_addTo_indexed _ _) fun _ _ => keeps_editCategory_indexed fun c c' hid hindexed h => ?_
  refine ⟨?_, hindexed.pushMatch ((hd m hm).1.trans hid.symm) (hd m hm).2 h⟩
  obtain ⟨-, rfl⟩ := CategoryStore.pushMatch_ok h
  rfl

end DrawCategoriesAction

/-! ### All actions -/

theorem lasting_indexed : Lasting keys Indexed CategoryStore.Indexed (fun _ => True) DrawnCategory.Recoverable where
  congr _ _ hkeys ht := ht.of_keys hkeys
  member := memberBlind_keys
  field := fieldBlind_keys
  layout := layoutBlind_keys
  label := labelBlind_keys
  value := valueBlind_project
  course := course_indexed
  courseBack := courseBack_indexed
  addTo := keeps_addTo_indexed
  eraseFrom := keeps_eraseFrom_indexed
  addPlayer := keeps_addPlayer_indexed
  erasePlayer := keeps_erasePlayer_indexed
  addCategory _ hc := keeps_addCategory_indexed hc
  eraseCategory := keeps_eraseCategory_indexed
  drawSystem _ _ _ _ _ := trivial
  getDrawSystem _ := trivial
  init _ _ _ _ _ := CategoryStore.indexed_init _ _ _ _
  setDrawSystem _ _ _ :=
    keeps_indexed_of_keys (ChangeCategoriesDrawSystemAction.frame_setDrawSystem drawSystemBlind_keys)
  drawCategory := DrawCategoriesAction.keeps_drawCategory_indexed
  recoverCategory _ hd := DrawCategoriesAction.keeps_recoverCategory_indexed hd

/-- Every action keeps ids and indices, and so does its `undoImpl`. -/
theorem Action.indexRevocable {a : Action} (hidle : a.Idle) : IndexRevocable a.redoImpl undoImpl :=
  lasting_indexed.action hidle

/-- Ids, indices and the layout are as they should be in every session. -/
def indexDiscipline : Session.Discipline Outline :=
  layoutDiscipline.strengthen Indexed ⟨by simp, by simp, by simp⟩ fun _ hidle => Action.indexRevocable hidle

/-- A session of actions that the repository constructs. -/
def Session.Constructed (s : Session) : Prop :=
  ReachableBy (fun s e => ∀ a, s.redone e = some a → a.Constructed) s

/-- An event that redoes no old action, and runs one that the repository constructs. -/
def Session.Event.Constructed : Session.Event → Prop
  | .redo a => a.Constructed
  | .redoAgain _ => False
  | .undo => True

theorem Session.constructed_of_run {es : List Event} {s : Session} (hes : ∀ e ∈ es, e.Constructed)
    (hrun : Runs.run next es {} = some s) : s.Constructed := by
  refine ⟨es, Runs.guarded_of_forall (fun e he s a ha => ?_) _, hrun⟩
  have hnew := hes e he
  cases e with
  | redo b =>
    simp only [redone] at ha
    split at ha
    · cases ha
      exact hnew
    · cases ha
  | redoAgain i => exact hnew.elim
  | undo => cases ha

theorem SetTatamiCountAction.constructed_singleton (id : PositionId) :
    SetTatamiCountAction.Constructed { locations := [⟨⟨id, 0⟩⟩] } := by
  intro i l hl
  cases i with
  | zero =>
    cases hl
    rfl
  | succ i => cases hl

theorem Session.Constructed.layoutSound {s : Session} (h : s.Constructed) : LayoutSound s.tournament :=
  have hsound := layoutDiscipline.sound_of_reachableBy h
  ⟨hsound.inv, hsound.sane⟩

theorem Session.Constructed.indexed {s : Session} (h : s.Constructed) : s.tournament.Indexed :=
  (indexDiscipline.sound_of_reachableBy h).inv.2

end JudoAssistant
