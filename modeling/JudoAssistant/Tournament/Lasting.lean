import JudoAssistant.Tournament.Frames
import JudoAssistant.Tournament.Session

/-!
# Invariants of all actions

An invariant that the steps of the actions keep is kept by every action, and by its `undoImpl`.  What the
undo fields hold is what the tournament held before.
-/

namespace JudoAssistant

open Effect Exec TournamentStore

section

variable {α β γ : Type} {I : TournamentStore → Prop}

/-- The computation keeps the invariant, and so does what `undo` makes of its result. -/
def Lasts (I : TournamentStore → Prop) (x : Exec α) (undo : α → Exec β) : Prop :=
  Keeps I x fun a => Keeps I (undo a) fun _ => True

theorem Lasts.wrap {wrap : α → Action} {x : Exec α} {undo : α → Exec α} (h : Lasts I x undo)
    (hundo : ∀ a, (wrap a).undoImpl = wrap <$> undo a) : Lasts I (wrap <$> x) Action.undoImpl := by
  refine h.map fun a ha => ?_
  rw [hundo]
  exact ha.map fun _ _ => trivial

/-- The invariant depends on the view alone, and the steps that touch the view keep it.  `W` holds of the
categories that are stored, `D` of their draw systems, and `R` of what a draw replaces. -/
structure Lasting (view : TournamentStore → γ) (I : TournamentStore → Prop) (W : CategoryStore → Prop)
    (D : DrawSystem → Prop) (R : DrawnCategory → Prop) : Prop where
  congr : ∀ ⦃t t'⦄, view t' = view t → I t → I t'
  member : MemberBlind view
  field : FieldBlind view
  layout : LayoutBlind view
  label : LabelBlind view
  value : ValueBlind view
  course : Course I fun _ => True
  courseBack : CourseBack I
  addTo : ∀ id player, Keeps I (SetMatchPlayerAction.addTo id player) fun _ => True
  eraseFrom : ∀ id player, Keeps I (SetMatchPlayerAction.eraseFrom id player) fun _ => True
  addPlayer : ∀ p, Keeps I (addPlayer p) fun _ => True
  erasePlayer : ∀ id, Keeps I (erasePlayer id) fun _ => True
  addCategory : ∀ c, W c → Keeps I (addCategory c) fun _ => True
  eraseCategory : ∀ id, Keeps I (eraseCategory id) W
  drawSystem : ∀ ⦃t id c⦄, I t → t.categories id = some c → D c.drawSystem
  getDrawSystem : ∀ identifier, D (DrawSystem.getDrawSystem identifier)
  init : ∀ id name ruleset drawSystem, D drawSystem → W (.init id name ruleset drawSystem)
  setDrawSystem : ∀ id drawSystem, D drawSystem →
    Keeps I (editCategory id fun c => .ok (c.setDrawSystem drawSystem)) fun _ => True
  drawCategory : ∀ seed id, Keeps I (DrawCategoriesAction.drawCategory seed id) R
  recoverCategory : ∀ d, R d → Keeps I (DrawCategoriesAction.recoverCategory d) fun _ => True

end

namespace Lasting

variable {α β γ : Type} {view : TournamentStore → γ} {I : TournamentStore → Prop} {W : CategoryStore → Prop}
  {D : DrawSystem → Prop} {R : DrawnCategory → Prop} (h : Lasting view I W D R)

include h

theorem of_frame {x : Exec α} (hx : Frame view x) : Keeps I x fun _ => True :=
  fun _ _ _ ht hrun => ⟨h.congr (hx hrun) ht, trivial⟩

theorem lasts_of_frame {x : Exec α} {undo : α → Exec β} (hx : Frame view x) (hundo : ∀ a, Frame view (undo a)) :
    Lasts I x undo := (h.of_frame hx).mono fun a _ => h.of_frame (hundo a)

/-! ### Draws -/

theorem recomputeGroups (ids : List CategoryId) : Keeps I (DrawCategoriesAction.recomputeGroups ids) fun _ => True :=
  h.of_frame (Frame.get.bind fun _ => h.layout.editTatamis)

theorem drawCategories {a : DrawCategoriesAction} (hidle : a.drawn = []) :
    Lasts I a.redoImpl DrawCategoriesAction.undoImpl := by
  refine keeps_read.bind fun ids _ => (keeps_forEach fun id _ => h.drawCategory a.seed id).bind fun drawn hdrawn =>
    (h.recomputeGroups ids).bind fun _ _ => .pure ?_
  refine Keeps.bind (keeps_forEach_unit fun d hd => h.recoverCategory d ?_) fun _ _ =>
    (h.recomputeGroups _).bind fun _ _ => .pure trivial
  rw [hidle, List.append_nil] at hd
  exact hdrawn d (List.mem_reverse.1 hd)

theorem removeFinals (drawSystem : DrawSystem) (ids : List CategoryId) :
    Keeps I (ChangeCategoriesDrawSystemAction.removeFinals drawSystem ids) fun _ => True := by
  unfold ChangeCategoriesDrawSystemAction.removeFinals
  split
  · exact .pure trivial
  · refine Keeps.bind (keeps_forEach_unit fun id _ => keeps_getCategory.bind fun c _ => ?_) fun _ _ => .pure trivial
    split
    · exact (h.of_frame h.layout.setTatamiLocation_redo).bind fun _ _ => .pure trivial
    · exact .pure trivial

theorem changeDrawSystem (drawSystem : DrawSystem) (hdraw : D drawSystem) (id : CategoryId) :
    Keeps I (ChangeCategoriesDrawSystemAction.changeDrawSystem drawSystem id) fun p => D p.2 := by
  refine keeps_getCategory.bind fun c hc => (h.setDrawSystem id drawSystem hdraw).bind fun _ _ => .pure ?_
  obtain ⟨t, ht, hc⟩ := hc
  exact h.drawSystem ht hc

theorem changeCategoriesDrawSystem {a : ChangeCategoriesDrawSystemAction} (hidle : a.changedCategories = []) :
    Lasts I a.redoImpl ChangeCategoriesDrawSystemAction.undoImpl := by
  refine keeps_read.bind fun ids _ => (h.removeFinals _ ids).bind fun locationActions _ =>
    (keeps_forEach fun id _ => h.changeDrawSystem _ (h.getDrawSystem _) id).bind fun old hold =>
    (h.drawCategories rfl).bind fun drawAction hdraw => .pure ?_
  rw [hidle, List.append_nil]
  exact Keeps.bind hdraw fun _ _ =>
    (keeps_forEach_unit fun p hp => h.setDrawSystem p.1 p.2 (hold p (List.mem_reverse.1 hp))).bind fun _ _ =>
    (keeps_forEach_unit fun l _ => h.of_frame h.layout.setTatamiLocation_undo).bind fun _ _ => .pure trivial

theorem redraw (id : CategoryId) (seed : ℕ) : Lasts I (RedrawAction.run id seed) RedrawAction.undo := by
  refine keeps_getCategory.bind fun c _ => keeps_read.bind fun a ha => ?_
  obtain ⟨t, -, ha⟩ := ha
  simp only [RedrawAction.create, except_bind_ok, except_pure_ok] at ha
  obtain ⟨preferred, -, rfl⟩ := ha
  split
  · exact (h.changeCategoriesDrawSystem rfl).bind fun a ha => .pure (Keeps.bind ha fun _ _ => .pure trivial)
  · exact (h.drawCategories rfl).bind fun a ha => .pure (Keeps.bind ha fun _ _ => .pure trivial)

/-! ### The players of a category -/

theorem changeMembers {id : CategoryId} {inside : Bool} {change : PlayerId → Exec Unit}
    (hchange : ∀ p, Frame view (change p)) (ids : List PlayerId) :
    Keeps I (changeMembers id inside change ids) fun _ => True := h.of_frame (frame_changeMembers hchange ids)

theorem addPlayersToCategory {a : AddPlayersToCategoryAction} (hdraw : a.drawAction = none) :
    Lasts I a.redoImpl AddPlayersToCategoryAction.undoImpl := by
  have hleave : ∀ b : AddPlayersToCategoryAction, Keeps I (RedrawAction.undoOption b.drawAction) (fun _ => True) →
      Keeps I b.undoImpl fun _ => True := by
    intro b hb
    refine Keeps.get.bind fun t _ => ?_
    split
    · exact (keeps_forEach_unit fun p _ => h.of_frame h.member.leaveCategory).bind
        fun _ _ => hb.bind fun _ _ => .pure trivial
    · exact .pure trivial
  have hnone : Keeps I (RedrawAction.undoOption a.drawAction) fun _ => True := by
    rw [hdraw]
    exact .pure trivial
  refine Keeps.get.bind fun t _ => ?_
  split
  · refine (h.changeMembers (fun p => h.member.joinCategory) _).bind fun added _ => ?_
    simp only
    split
    · exact .pure (hleave a hnone)
    · exact (h.redraw _ _).bind fun r hr => .pure (hleave _ hr)
  · exact .pure (hleave a hnone)

theorem erasePlayersFromCategory {a : ErasePlayersFromCategoryAction} (hdraw : a.drawAction = none) :
    Lasts I a.redoImpl ErasePlayersFromCategoryAction.undoImpl := by
  have hjoin : ∀ b : ErasePlayersFromCategoryAction,
      Keeps I (RedrawAction.undoOption b.drawAction) (fun _ => True) → Keeps I b.undoImpl fun _ => True := by
    intro b hb
    refine Keeps.get.bind fun t _ => ?_
    split
    · exact (keeps_forEach_unit fun p _ => h.of_frame h.member.joinCategory).bind
        fun _ _ => hb.bind fun _ _ => .pure trivial
    · exact .pure trivial
  have hnone : Keeps I (RedrawAction.undoOption a.drawAction) fun _ => True := by
    rw [hdraw]
    exact .pure trivial
  refine Keeps.get.bind fun t _ => ?_
  split
  · refine (h.changeMembers (fun p => h.member.leaveCategory) _).bind fun erased _ => ?_
    simp only
    split
    · exact .pure (hjoin a hnone)
    · exact (h.redraw _ _).bind fun r hr => .pure (hjoin _ hr)
  · exact .pure (hjoin a hnone)

theorem eraseFromCategories (playerIds : List PlayerId) (seed : ℕ) (ids : List CategoryId) :
    Lasts I (eraseFromCategories playerIds seed ids) (forEach ErasePlayersFromCategoryAction.undoImpl) := by
  refine Keeps.bind (keeps_forEach fun id _ => h.erasePlayersFromCategory rfl) fun actions hactions => .pure ?_
  exact keeps_forEach_unit fun a ha => hactions a (List.mem_reverse.1 ha)

theorem erasePlayersFromAllCategories {a : ErasePlayersFromAllCategoriesAction} (hidle : a.actions = []) :
    Lasts I a.redoImpl ErasePlayersFromAllCategoriesAction.undoImpl := by
  refine Keeps.get.bind fun t _ => (h.eraseFromCategories _ _ _).bind fun actions hactions => .pure ?_
  rw [hidle, List.append_nil]
  exact Keeps.bind hactions fun _ _ => .pure trivial

theorem erasePlayers {a : ErasePlayersAction} (hidle : a.actions = []) :
    Lasts I a.redoImpl ErasePlayersAction.undoImpl := by
  refine Keeps.get.bind fun t _ => (h.eraseFromCategories _ _ _).bind fun actions hactions =>
    (keeps_forEach_unit fun id _ => h.erasePlayer id).bind fun players _ => .pure ?_
  rw [hidle, List.append_nil]
  exact (keeps_forEach_unit fun p _ => h.addPlayer p).bind fun _ _ => Keeps.bind hactions fun _ _ => .pure trivial

theorem changePlayersBlueJudogiHint (a : ChangePlayersBlueJudogiHintAction) :
    Lasts I a.redoImpl ChangePlayersBlueJudogiHintAction.undoImpl := by
  have hrestore : ∀ changed : List (PlayerId × Bool),
      Keeps I (restoreField blueJudogiHintField changed) fun _ => True :=
    fun changed => h.of_frame (frame_restoreField h.field)
  have hdraw : ∀ ids seed, Keeps I (ChangePlayersBlueJudogiHintAction.drawAll ids seed) fun d => ∀ b, d = some b →
      Keeps I b.undoImpl fun _ => True := by
    intro ids seed
    unfold ChangePlayersBlueJudogiHintAction.drawAll
    split
    · exact .pure (by simp)
    · refine (h.drawCategories rfl).bind fun b hb => .pure fun b' hb' => ?_
      cases hb'
      exact hb
  refine (h.of_frame (frame_changeField h.field _)).bind fun changed _ =>
    keeps_read.bind fun ids _ => (hdraw _ _).bind fun drawAction hdraw => .pure ?_
  cases drawAction with
  | none => exact (hrestore _).bind fun _ _ => .pure trivial
  | some b => exact (hrestore _).bind fun _ _ => (hdraw b rfl).bind fun _ _ => .pure trivial

/-! ### Adding and erasing -/

theorem addPlayers (a : AddPlayersAction) : Lasts I a.redoImpl AddPlayersAction.undoImpl := by
  refine Keeps.get.bind fun t _ => ?_
  split
  · exact .throw
  · exact (keeps_forEach_unit fun p _ => h.addPlayer _).bind fun _ _ => .pure
      ((keeps_forEach_unit fun p _ => h.erasePlayer _).bind fun _ _ => .pure trivial)

theorem addCategoryAction (a : AddCategoryAction) : Lasts I a.redoImpl AddCategoryAction.undoImpl := by
  refine Keeps.get.bind fun t _ => ?_
  split
  · exact .throw
  · exact (h.addCategory _ (h.init _ _ _ _ (h.getDrawSystem _))).bind fun _ _ => .pure
      ((h.eraseCategory _).bind fun _ _ => .pure trivial)

theorem addCategoryWithPlayers (a : AddCategoryWithPlayersAction) :
    Lasts I a.redoImpl AddCategoryWithPlayersAction.undoImpl := by
  refine (h.addCategoryAction _).bind fun b hb => ?_
  have hcategory : ∀ p, Keeps I (do
      let _ ← b.undoImpl
      return { a with categoryAction := none, playersAction := p } : Exec AddCategoryWithPlayersAction)
        fun _ => True := fun p => Keeps.bind hb fun _ _ => .pure trivial
  unfold AddCategoryWithPlayersAction.addPlayers
  split
  · next hnil =>
    refine Keeps.bind (P := fun _ => True) (.pure trivial) fun p _ => .pure ?_
    refine Keeps.bind (P := fun _ => True) ?_ fun _ _ => hcategory none
    unfold AddCategoryWithPlayersAction.erasePlayers
    rw [if_pos hnil]
    exact .pure trivial
  · next hne =>
    refine Keeps.bind ((h.addPlayersToCategory rfl).bind
      (Q := fun d => ∀ c, d = some c → Keeps I c.undoImpl fun _ => True) fun c hc => .pure ?_) fun p hp => .pure ?_
    · intro c' hc'
      cases hc'
      exact hc
    · refine Keeps.bind (P := fun _ => True) ?_ fun _ _ => hcategory none
      unfold AddCategoryWithPlayersAction.erasePlayers
      rw [if_neg hne]
      cases p with
      | none => exact .throw
      | some c => exact (hp c rfl).bind fun _ _ => .pure trivial

theorem addPlayersWithCategories {a : AddPlayersWithCategoriesAction} (hcategories : a.addCategoryActions = [])
    (hplayers : a.addPlayersToCategoryActions = []) : Lasts I a.redoImpl AddPlayersWithCategoriesAction.undoImpl := by
  refine (h.addPlayers _).bind fun b hb =>
    (keeps_forEach fun c _ => h.addCategoryAction _).bind fun cs hcs =>
    (keeps_forEach fun c _ => h.addPlayersToCategory rfl).bind fun ps hps => .pure ?_
  rw [hcategories, hplayers, List.append_nil, List.append_nil]
  exact (keeps_forEach_unit fun p hp => hps p (List.mem_reverse.1 hp)).bind fun _ _ =>
    (keeps_forEach_unit fun c hc => hcs c (List.mem_reverse.1 hc)).bind fun _ _ =>
    Keeps.bind hb fun _ _ => .pure trivial

theorem eraseOne (id : CategoryId) : Keeps I (EraseCategoriesAction.eraseOne id) W := by
  refine keeps_getCategory.bind fun c _ => ?_
  have hplayers : Keeps I (forEach (fun p => editPlayer p (·.eraseCategory id)) (inOrder c.players))
      fun _ => True := keeps_forEach_unit fun p _ => h.of_frame (frame_editPlayer fun t q q' hq herase => by
    simp only [PlayerStore.eraseCategory, except_bind_ok, except_pure_ok] at herase
    obtain ⟨_, _, rfl⟩ := herase
    exact h.member.player hq)
  exact hplayers.bind fun _ _ => (keeps_forEach_unit fun m _ => (h.eraseFrom _ _).bind fun _ _ =>
    h.eraseFrom _ _).bind fun _ _ => h.eraseCategory id

theorem recoverOne {c : CategoryStore} (hc : W c) : Keeps I (EraseCategoriesAction.recoverOne c) fun _ => True := by
  have hplayers : Keeps I (forEach (fun p => editPlayer p (·.addCategory c.id)) (inOrder c.players))
      fun _ => True := keeps_forEach_unit fun p _ => h.of_frame (frame_editPlayer fun t q q' hq hadd => by
    simp only [PlayerStore.addCategory, except_bind_ok, except_pure_ok] at hadd
    obtain ⟨_, _, rfl⟩ := hadd
    exact h.member.player hq)
  exact hplayers.bind fun _ _ => (keeps_forEach_unit fun m _ => (h.addTo _ _).bind fun _ _ =>
    h.addTo _ _).bind fun _ _ => h.addCategory c hc

theorem eraseCategories {a : EraseCategoriesAction} (hidle : a.categories = []) :
    Lasts I a.redoImpl EraseCategoriesAction.undoImpl := by
  have hmoves : ∀ (blocks : List PlacedBlock) (f : PlacedBlock → Categories → TatamiList →
      Except Failure TatamiList), Keeps I (forEach (fun b => editTatamis (f b)) blocks) fun _ => True :=
    fun blocks f => keeps_forEach_unit fun b _ => h.of_frame h.layout.editTatamis
  refine Keeps.get.bind fun t _ => keeps_read.bind fun blocks _ =>
    (hmoves blocks fun b categories tatamis => tatamis.moveBlock categories b.1 (some b.2) none).bind fun _ _ =>
    (keeps_forEach fun id _ => h.eraseOne id).bind fun categories hcategories => .pure ?_
  rw [hidle, List.append_nil]
  exact (keeps_forEach_unit fun c hc => h.recoverOne (hcategories c (List.mem_reverse.1 hc))).bind
    fun _ _ => (hmoves _ fun b categories tatamis => tatamis.moveBlock categories b.1 none (some b.2)).bind
    fun _ _ => .pure trivial

theorem autoAddCategories (a : AutoAddCategoriesAction) : Lasts I a.redoImpl AutoAddCategoriesAction.undoImpl := by
  refine Keeps.get.bind fun t _ => ?_
  split
  · exact .throw
  · refine (keeps_forEach_unit fun g _ => keeps_read.bind fun d _ =>
      h.addCategory _ (h.init _ _ _ _ (h.getDrawSystem _))).bind fun _ _ =>
      (keeps_forEach fun g _ => h.addPlayersToCategory rfl).bind fun _ _ => .pure ?_
    exact (h.eraseCategories rfl).bind fun _ _ => .pure trivial

/-! ### All actions -/

theorem changeValue {field : TournamentField α} {a : ChangeValueAction α}
    (hfield : ∀ v t, view (field.set v t) = view t) :
    Lasts I (a.redoImpl field) (ChangeValueAction.undoImpl field) :=
  h.lasts_of_frame (ValueBlind.changeValue_redo hfield) fun _ => ValueBlind.changeValue_undo hfield

theorem changePlayers [DecidableEq α] (field : PlayerField α) (a : ChangePlayersAction α) :
    Lasts I (a.redoImpl field) (ChangePlayersAction.undoImpl field) :=
  h.lasts_of_frame ((frame_changeField h.field _).bind fun _ => Frame.pure)
    fun _ => (frame_restoreField h.field).bind fun _ => Frame.pure

theorem resetMatches (a : ResetMatchesAction) : Lasts I a.redoImpl ResetMatchesAction.undoImpl :=
  (h.course.resetMatches_redo a).mono fun b _ => h.courseBack.resetMatches_undo b

theorem matchEvent (a : MatchEventAction) : Lasts I a.redoImpl MatchEventAction.undoImpl :=
  (h.course.matchEvent_redo a).mono fun b _ => h.courseBack.matchEvent_undo b

theorem changeCategoriesRuleset (a : ChangeCategoriesRulesetAction) :
    Lasts I a.redoImpl ChangeCategoriesRulesetAction.undoImpl := by
  have hset : ∀ id ruleset, Keeps I (editCategory id fun c => .ok (c.setRuleset ruleset)) fun _ => True :=
    fun id ruleset => h.of_frame h.label.setRuleset
  refine keeps_read.bind fun ids _ => (keeps_forEach_unit fun id _ => keeps_getCategory.bind fun c _ =>
    (hset id _).bind fun _ _ => .pure trivial).bind fun old _ => (h.resetMatches _).bind fun r hr => .pure ?_
  exact Keeps.bind hr fun _ _ => (keeps_forEach_unit fun p _ => hset p.1 p.2).bind fun _ _ => .pure trivial

theorem changePlayersWeight (a : ChangePlayersWeightAction) :
    Lasts I a.redoImpl ChangePlayersWeightAction.undoImpl := by
  refine (h.of_frame (frame_changeField h.field _)).bind fun changed _ =>
    keeps_read.bind fun ids _ => (h.course.updateDraws _ _).bind fun stack _ => .pure ?_
  exact (h.courseBack.drawAction_undoAll _).bind fun _ _ =>
    (h.of_frame (frame_restoreField h.field)).bind fun _ _ => .pure trivial

theorem setHidden (hidden : Bool) (ids : List CategoryId) :
    Keeps I (SetCategoriesMatchesHiddenAction.setHidden hidden ids) fun _ => True := by
  refine Keeps.bind (keeps_forEach_unit fun id _ => h.of_frame (frame_editCategory fun t c c' hc hset => ?_))
    fun _ _ => h.recomputeGroups ids
  cases hset
  exact h.label.hidden hc

theorem setCategoriesMatchesHidden (a : SetCategoriesMatchesHiddenAction) :
    Lasts I a.redoImpl SetCategoriesMatchesHiddenAction.undoImpl :=
  keeps_read.bind fun _ _ => (h.setHidden _ _).bind fun _ _ =>
    .pure ((h.setHidden _ _).bind fun _ _ => .pure trivial)

/-- Every action keeps the invariant, and so does its `undoImpl`. -/
theorem action {a : Action} (hidle : a.Idle) : Lasts I a.redoImpl Action.undoImpl := by
  cases a with
  | addCategory a => exact (h.addCategoryAction a).wrap fun _ => rfl
  | addCategoryWithPlayers a => exact (h.addCategoryWithPlayers a).wrap fun _ => rfl
  | addDrawSystemPreferenceRow a =>
    exact (h.lasts_of_frame h.value.addRow_redo fun _ => h.value.addRow_undo).wrap fun _ => rfl
  | addPlayers a => exact (h.addPlayers a).wrap fun _ => rfl
  | addPlayersToCategory a => exact (h.addPlayersToCategory hidle.2).wrap fun _ => rfl
  | addPlayersWithCategories a => exact (h.addPlayersWithCategories hidle.1 hidle.2).wrap fun _ => rfl
  | autoAddCategories a => exact (h.autoAddCategories a).wrap fun _ => rfl
  | changeCategoriesDrawSystem a => exact (h.changeCategoriesDrawSystem hidle.1).wrap fun _ => rfl
  | changeCategoriesName a =>
    exact (h.lasts_of_frame h.label.changeName_redo fun _ => h.label.changeName_undo).wrap fun _ => rfl
  | changeCategoriesRuleset a => exact (h.changeCategoriesRuleset a).wrap fun _ => rfl
  | changeDrawSystemPreferenceIdentifier a =>
    exact (h.lasts_of_frame (h.value.editPreferences.bind fun _ => Frame.pure)
      fun _ => h.value.editPreferences.bind fun _ => Frame.pure).wrap fun _ => rfl
  | changeDrawSystemPreferenceLimit a =>
    exact (h.lasts_of_frame h.value.changeLimit_redo fun _ => h.value.changeLimit_undo).wrap fun _ => rfl
  | changeMatchCardStylePreference a => exact (h.changeValue fun _ _ => h.value rfl rfl rfl).wrap fun _ => rfl
  | changePlayersAge a => exact (h.changePlayers ageField a).wrap fun _ => rfl
  | changePlayersBlueJudogiHint a => exact (h.changePlayersBlueJudogiHint a).wrap fun _ => rfl
  | changePlayersClub a => exact (h.changePlayers clubField a).wrap fun _ => rfl
  | changePlayersCountry a => exact (h.changePlayers countryField a).wrap fun _ => rfl
  | changePlayersFirstName a => exact (h.changePlayers firstNameField a).wrap fun _ => rfl
  | changePlayersLastName a => exact (h.changePlayers lastNameField a).wrap fun _ => rfl
  | changePlayersRank a => exact (h.changePlayers rankField a).wrap fun _ => rfl
  | changePlayersSex a => exact (h.changePlayers sexField a).wrap fun _ => rfl
  | changePlayersWeight a => exact (h.changePlayersWeight a).wrap fun _ => rfl
  | changeScoreboardStylePreference a => exact (h.changeValue fun _ _ => h.value rfl rfl rfl).wrap fun _ => rfl
  | changeTournamentDate a => exact (h.changeValue fun _ _ => h.value rfl rfl rfl).wrap fun _ => rfl
  | changeTournamentLocation a => exact (h.changeValue fun _ _ => h.value rfl rfl rfl).wrap fun _ => rfl
  | changeTournamentName a => exact (h.changeValue fun _ _ => h.value rfl rfl rfl).wrap fun _ => rfl
  | changeTournamentWebName a => exact (h.changeValue fun _ _ => h.value rfl rfl rfl).wrap fun _ => rfl
  | drawCategories a => exact (h.drawCategories hidle).wrap fun _ => rfl
  | eraseCategories a => exact (h.eraseCategories hidle.1).wrap fun _ => rfl
  | eraseDrawSystemPreferenceRow a =>
    exact (h.lasts_of_frame h.value.eraseRow_redo fun _ => h.value.eraseRow_undo).wrap fun _ => rfl
  | erasePlayers a => exact (h.erasePlayers hidle.2.2).wrap fun _ => rfl
  | erasePlayersFromAllCategories a => exact (h.erasePlayersFromAllCategories hidle).wrap fun _ => rfl
  | erasePlayersFromCategory a => exact (h.erasePlayersFromCategory hidle.2).wrap fun _ => rfl
  | matchEvent a => exact (h.matchEvent a).wrap fun _ => rfl
  | resetMatches a => exact (h.resetMatches a).wrap fun _ => rfl
  | setCategoriesMatchesHidden a => exact (h.setCategoriesMatchesHidden a).wrap fun _ => rfl
  | setTatamiCount a =>
    exact (h.lasts_of_frame h.layout.setTatamiCount_redo fun _ => h.layout.setTatamiCount_undo).wrap fun _ => rfl
  | setTatamiLocation a =>
    exact (h.lasts_of_frame h.layout.setTatamiLocation_redo fun _ => h.layout.setTatamiLocation_undo).wrap fun _ => rfl

end Lasting

end JudoAssistant
