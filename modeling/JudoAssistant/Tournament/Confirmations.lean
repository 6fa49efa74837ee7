import JudoAssistant.Tournament.Tallies

/-!
# Confirmations

The user interface asks before it runs an action that says so in `doesRequireConfirmation`
(`src/core/actions/confirmable_action.hpp`).  The answer is read off the counters of the categories.  Where these are
right, an action that asks for nothing leaves every category that has begun.
-/

namespace JudoAssistant

open Effect Exec TournamentStore

/-! ### Asking for a confirmation -/

/-- `CategoryStore::isStarted` -/
def CategoryStore.isStarted (c : CategoryStore) : Bool :=
  (c.getStatus .final).isStarted || (c.getStatus .elimination).isStarted

/-- The loop over the categories that an action changes. -/
def TournamentStore.anyStarted (t : TournamentStore) : List CategoryId → Except Failure Bool
  | [] => .ok false
  | id :: ids => do
    let c ← t.getCategory id
    if c.isStarted then return true else t.anyStarted ids

/-- `DrawCategoriesAction::doesRequireConfirmation` -/
def DrawCategoriesAction.doesRequireConfirmation (a : DrawCategoriesAction) (t : TournamentStore) :
    Except Failure Bool := t.anyStarted (a.categoryIds.filter t.containsCategory)

/-- `EraseCategoriesAction::doesRequireConfirmation` -/
def EraseCategoriesAction.doesRequireConfirmation (a : EraseCategoriesAction) (t : TournamentStore) :
    Except Failure Bool := t.anyStarted (a.categoryIds.filter t.containsCategory)

/-- `ChangeCategoriesDrawSystemAction::doesRequireConfirmation` -/
def ChangeCategoriesDrawSystemAction.doesRequireConfirmation (a : ChangeCategoriesDrawSystemAction)
    (t : TournamentStore) : Except Failure Bool := t.anyStarted (a.getCategoriesThatChange t)

/-- `ChangeCategoriesRulesetAction::doesRequireConfirmation` -/
def ChangeCategoriesRulesetAction.doesRequireConfirmation (a : ChangeCategoriesRulesetAction) (t : TournamentStore) :
    Except Failure Bool := t.anyStarted (a.getCategoriesThatChange t)

/-- `SetCategoriesMatchesHiddenAction::doesRequireConfirmation` -/
def SetCategoriesMatchesHiddenAction.doesRequireConfirmation (a : SetCategoriesMatchesHiddenAction)
    (t : TournamentStore) : Except Failure Bool :=
  if a.hidden then t.anyStarted (a.getCategoriesThatChange t) else .ok false

/-- `AddPlayersToCategoryAction::doesRequireConfirmation` -/
def AddPlayersToCategoryAction.doesRequireConfirmation (a : AddPlayersToCategoryAction) (t : TournamentStore) :
    Except Failure Bool :=
  if t.containsCategory a.categoryId then do
    let c ← t.getCategory a.categoryId
    return c.isStarted
  else return false

/-- `ErasePlayersFromCategoryAction::doesRequireConfirmation`, which does not ask whether the category exists. -/
def ErasePlayersFromCategoryAction.doesRequireConfirmation (a : ErasePlayersFromCategoryAction) (t : TournamentStore) :
    Except Failure Bool :=
  if a.playerIds.any t.containsPlayer then do
    let c ← t.getCategory a.categoryId
    return c.isStarted
  else return false

/-- `ErasePlayersAction::doesRequireConfirmation` -/
def ErasePlayersAction.doesRequireConfirmation (a : ErasePlayersAction) (t : TournamentStore) : Except Failure Bool :=
  t.anyStarted (categoriesOf t a.playerIds)

/-- `ErasePlayersFromAllCategoriesAction::doesRequireConfirmation` -/
def ErasePlayersFromAllCategoriesAction.doesRequireConfirmation (a : ErasePlayersFromAllCategoriesAction)
    (t : TournamentStore) : Except Failure Bool := t.anyStarted (categoriesOf t a.playerIds)

/-- `ChangePlayersBlueJudogiHintAction::doesRequireConfirmation` -/
def ChangePlayersBlueJudogiHintAction.doesRequireConfirmation (a : ChangePlayersBlueJudogiHintAction)
    (t : TournamentStore) : Except Failure Bool :=
  t.anyStarted (categoriesOf t (a.playerIds.filter fun id => match t.players id with
    | none => false
    | some p => p.fields.blueJudogiHint ≠ a.value))

/-- `ResetMatchesAction::doesRequireConfirmation`.  The constructor asserts that there is one category if there is a
match. -/
def ResetMatchesAction.doesRequireConfirmation (a : ResetMatchesAction) (t : TournamentStore) : Except Failure Bool :=
  match a.matchId with
  | none => t.anyStarted (a.categoryIds.filter t.containsCategory)
  | some matchId => match a.categoryIds with
    | [] => .error (.assertion .action)
    | categoryId :: _ => match t.findMatch ⟨categoryId, matchId⟩ with
      | none => .ok false
      | some c => do
        let m ← c.getMatch matchId
        return m.getStatus ≠ .notStarted

/-- What an action answers that is a `ConfirmableAction`. -/
def Action.doesRequireConfirmation (t : TournamentStore) : Action → Option (Except Failure Bool)
  | .addPlayersToCategory a => some (a.doesRequireConfirmation t)
  | .changeCategoriesDrawSystem a => some (a.doesRequireConfirmation t)
  | .changeCategoriesRuleset a => some (a.doesRequireConfirmation t)
  | .changePlayersBlueJudogiHint a => some (a.doesRequireConfirmation t)
  | .drawCategories a => some (a.doesRequireConfirmation t)
  | .eraseCategories a => some (a.doesRequireConfirmation t)
  | .erasePlayers a => some (a.doesRequireConfirmation t)
  | .erasePlayersFromAllCategories a => some (a.doesRequireConfirmation t)
  | .erasePlayersFromCategory a => some (a.doesRequireConfirmation t)
  | .resetMatches a => some (a.doesRequireConfirmation t)
  | .setCategoriesMatchesHidden a => some (a.doesRequireConfirmation t)
  | _ => none

/-! ### Categories that have not begun -/

section

variable {t : TournamentStore} {c : CategoryStore} {id : CategoryId} {ids : List CategoryId}

/-- The category has not begun, as far as its counters say, or does not exist. -/
def TournamentStore.Calm (t : TournamentStore) (id : CategoryId) : Prop :=
  ∀ c ∈ t.categories id, c.isStarted = false

instance (t : TournamentStore) : DecidablePred t.Calm :=
  fun id => inferInstanceAs (Decidable (∀ c ∈ t.categories id, c.isStarted = false))

theorem calm_of_getCategory (h : (do
    let c ← t.getCategory id
    return c.isStarted) = Except.ok (ε := Failure) false) : t.Calm id := by
  obtain ⟨c, hc, hstarted⟩ := except_bind_ok.1 h
  intro e he
  cases (getCategory_eq_ok.1 hc).symm.trans he
  exact except_pure_ok.1 hstarted

theorem calm_of_anyStarted (h : t.anyStarted ids = .ok false) : ∀ i ∈ ids, t.Calm i := by
  induction ids with
  | nil => simp
  | cons id ids ih =>
    obtain ⟨c, hc, hrest⟩ := except_bind_ok.1 h
    split at hrest
    · cases hrest
    · next hstarted =>
      refine List.forall_mem_cons.2 ⟨fun e he => ?_, ih hrest⟩
      cases (getCategory_eq_ok.1 hc).symm.trans he
      exact Bool.eq_false_iff.2 hstarted

theorem calm_of_not_containsCategory (h : ¬ t.containsCategory id = true) : t.Calm id := by
  intro c hc
  exact (h (by rw [containsCategory, Option.mem_def.1 hc]; rfl)).elim

theorem calm_of_anyStarted_contained (h : t.anyStarted (ids.filter t.containsCategory) = .ok false) :
    ∀ i ∈ ids, t.Calm i := by
  intro i hi
  by_cases hcontains : t.containsCategory i = true
  · exact calm_of_anyStarted h i (List.mem_filter.2 ⟨hi, hcontains⟩)
  · exact calm_of_not_containsCategory hcontains

/-- Where the counters are right, a category that has not begun has no match that has. -/
theorem CategoryStore.Tallied.notStarted (h : c.Tallied) (hstarted : c.isStarted = false) :
    ∀ m ∈ c.matchList, m.getStatus = .notStarted := by
  intro m hm
  have htype : (c.getStatus m.type).isStarted = false := by
    rw [isStarted, Bool.or_eq_false_iff] at hstarted
    cases m.type
    · exact hstarted.2
    · exact hstarted.1
  have hmem : m ∈ c.matchList.filter fun n => n.type = m.type := List.mem_filter.2 ⟨hm, decide_eq_true rfl⟩
  obtain ⟨-, hstartedCount, hfinishedCount⟩ := tally_counters (c.matchList.filter fun n => n.type = m.type)
  rw [h m.type, CategoryStatus.isStarted, Bool.or_eq_false_iff, decide_eq_false_iff_not, decide_eq_false_iff_not,
    hstartedCount, hfinishedCount, List.countP_pos_iff, List.countP_pos_iff] at htype
  cases hstatus : m.getStatus with
  | notStarted => rfl
  | paused => exact (htype.1 ⟨m, hmem, by simp [hstatus]⟩).elim
  | unpaused => exact (htype.1 ⟨m, hmem, by simp [hstatus]⟩).elim
  | finished => exact (htype.2 ⟨m, hmem, by simp [hstatus]⟩).elim

end

/-! ### What an action that asks for nothing leaves alone -/

section

variable {β : Type} {k : CategoryStore → β} {S : CategoryId → Prop} [DecidablePred S] {t t' : TournamentStore}
  {id : CategoryId} {pids : List PlayerId}

theorem categoriesOf_filter (keep : PlayerId → Bool) (h : id ∈ categoriesOf t (pids.filter keep)) :
    id ∈ categoriesOf t pids := by
  obtain ⟨pid, hpid, hrest⟩ := mem_categoriesOf_iff.1 h
  exact mem_categoriesOf_iff.2 ⟨pid, List.mem_of_mem_filter hpid, hrest⟩

theorem changeMembers_subset {joining inside : Bool} {changed : List PlayerId}
    (h : changeMembers id inside (changeOne joining id) pids t = .ok changed t') : changed ⊆ pids := by
  induction pids generalizing t changed with
  | nil =>
    obtain ⟨rfl, -⟩ := pure_ok.1 h
    exact List.Subset.refl _
  | cons pid pids ih =>
    simp only [changeMembers, bind_ok, get_ok] at h
    obtain ⟨s, s', hs, hrest⟩ := h
    rw [hs.1, hs.2] at hrest
    split at hrest
    · simp only [bind_ok, pure_ok] at hrest
      obtain ⟨_, t₁, -, rest, _, hrest, rfl, rfl⟩ := hrest
      exact List.cons_subset_cons _ (ih hrest)
    · exact List.subset_cons_of_subset _ (ih hrest)

/-- Nothing but the category is written, and nothing at all if no player of the list exists. -/
theorem ErasePlayersFromCategoryAction.elsewhere_redoImpl {a a' : ErasePlayersFromCategoryAction}
    (herased : a.erasedPlayerIds = []) (ht : t.Indexed)
    (hid : (∃ pid ∈ a.playerIds, t.players pid ≠ none) → S a.categoryId) (h : a.redoImpl t = .ok a' t') :
    elsewhere k S t' = elsewhere k S t := by
  obtain ⟨-, rfl, -⟩ | ⟨erased, t₁, -, hmembers, hrest⟩ := redoImpl_ok h
  · rfl
  · have hmembers' : changeMembers a.categoryId true (changeOne false a.categoryId) a.playerIds t = .ok erased t₁ :=
      hmembers
    rw [herased, List.nil_append] at hrest
    cases erased with
    | nil =>
      obtain ⟨rfl, -, -⟩ := changeMembers_ok hmembers'
      obtain ⟨-, -, rfl⟩ | ⟨hne, -⟩ := hrest
      · rw [List.toFinset_nil, enlist_empty]
      · exact (hne rfl).elim
    | cons pid erased =>
      obtain ⟨-, -, hcandidates⟩ := changeMembers_ok hmembers'
      obtain ⟨p, hp, -⟩ := (hcandidates pid List.mem_cons_self).player
      have hexists : t.players pid ≠ none := by simp [hp]
      refine elsewhere_changeMembers ht
        (hid ⟨pid, changeMembers_subset hmembers' List.mem_cons_self, hexists⟩) hmembers' ?_
      obtain ⟨hnil, -⟩ | ⟨-, r, hrun, -⟩ := hrest
      · cases hnil
      · exact .inr ⟨a.seed, r, hrun⟩

theorem elsewhere_eraseFromCategories {seed : ℕ} {ids : List CategoryId} {as : List ErasePlayersFromCategoryAction}
    (ht : Orderly t) (hids : ∀ i ∈ ids, S i)
    (h : eraseFromCategories pids seed ids t = .ok as t') : elsewhere k S t' = elsewhere k S t := by
  simp only [eraseFromCategories, bind_ok, pure_ok] at h
  obtain ⟨as', _, has, -, rfl⟩ := h
  induction ids generalizing t as' with
  | nil =>
    obtain ⟨-, rfl⟩ := forEach_nil_ok.1 has
    rfl
  | cons i ids ih =>
    obtain ⟨a, t₁, as'', ha, hrest, -⟩ := forEach_cons_ok.1 has
    have ht₁ := (ErasePlayersFromCategoryAction.restorable profileSight_unit boutSight_ties rfl rfl ht ha).1
    have hfirst := ErasePlayersFromCategoryAction.elsewhere_redoImpl (k := k) (S := S) rfl ht.indexed
      (fun _ => hids i List.mem_cons_self) ha
    exact (ih ht₁ (fun j hj => hids j (List.mem_cons_of_mem _ hj)) as'' hrest).trans hfirst

theorem ErasePlayersAction.elsewhere_redoImpl {a a' : ErasePlayersAction} (ht : Orderly t)
    (hids : ∀ i ∈ categoriesOf t a.playerIds, S i)
    (h : a.redoImpl t = .ok a' t') : elsewhere k S t' = elsewhere k S t := by
  simp only [redoImpl, bind_ok, get_ok, pure_ok] at h
  obtain ⟨s, s', hs, as, t₁, has, ps, t₂, hps, rfl, rfl⟩ := h
  rw [hs.1, hs.2] at has
  rw [hs.1] at hps
  have ht₁ : Orderly t₁ := (restorable_eraseFromCategories profileSight_unit boutSight_ties _ _ _ ht has).1
  have hfirst : elsewhere k S t₁ = elsewhere k S t :=
    elsewhere_eraseFromCategories ht (fun i hi => hids i (categoriesOf_filter _ hi)) has
  obtain ⟨hadded, -⟩ := eraseAll_ok ht₁.indexed hps
  refine Eq.trans ?_ hfirst
  unfold elsewhere
  rw [hadded.categories]

theorem ErasePlayersFromAllCategoriesAction.elsewhere_redoImpl {a a' : ErasePlayersFromAllCategoriesAction}
    (ht : Orderly t) (hids : ∀ i ∈ categoriesOf t a.playerIds, S i)
    (h : a.redoImpl t = .ok a' t') : elsewhere k S t' = elsewhere k S t := by
  simp only [redoImpl, bind_ok, get_ok, pure_ok] at h
  obtain ⟨s, s', hs, as, t₁, has, -, rfl⟩ := h
  rw [hs.1, hs.2] at has
  exact elsewhere_eraseFromCategories ht (fun i hi => hids i (categoriesOf_filter _ hi)) has

theorem EraseCategoriesAction.elsewhere_redoImpl {a a' : EraseCategoriesAction} (ht : Orderly t)
    (hids : ∀ i ∈ a.categoryIds, S i) (h : a.redoImpl t = .ok a' t') : elsewhere k S t' = elsewhere k S t := by
  obtain ⟨-, -, hcategories⟩ := linked_redoImpl profileSight_unit ht.linked ht.indexed h
  funext cid
  unfold elsewhere
  split
  · rfl
  · next hcid => rw [hcategories, if_neg fun hin => hcid (hids cid hin)]

theorem changeField_subset {κ : Type} [DecidableEq κ] {field : PlayerField κ} {value : κ}
    {changed : List (PlayerId × κ)} (h : changeField field value pids t = .ok changed t') :
    changed.map (·.1) ⊆ pids := by
  induction pids generalizing t changed with
  | nil =>
    obtain ⟨rfl, -⟩ := pure_ok.1 h
    exact List.Subset.refl _
  | cons pid pids ih =>
    simp only [changeField, bind_ok, get_ok] at h
    obtain ⟨s, s', hs, hrest⟩ := h
    rw [hs.1, hs.2] at hrest
    cases hp : t.players pid with
    | none =>
      rw [hp] at hrest
      exact List.subset_cons_of_subset _ (ih hrest)
    | some p =>
      simp only [hp] at hrest
      split at hrest
      · exact List.subset_cons_of_subset _ (ih hrest)
      · simp only [bind_ok, pure_ok] at hrest
        obtain ⟨_, t₁, -, rest, _, hrest, rfl, rfl⟩ := hrest
        exact List.cons_subset_cons _ (ih hrest)

/-- The players whose field is changed are those who are asked for and have another value. -/
theorem FieldChanged.categoriesOf {κ : Type} [DecidableEq κ] {field : PlayerField κ} {value : κ}
    {changed : List (PlayerId × κ)} (h : FieldChanged field value t changed t') (hsub : changed.map (·.1) ⊆ pids)
    (hid : id ∈ JudoAssistant.categoriesOf t' (changed.map (·.1))) :
    ∃ pid ∈ pids, ∃ p, t.players pid = some p ∧ field.get p.fields ≠ value ∧ id ∈ p.categories := by
  obtain ⟨pid, hpid, p', hp', hid⟩ := mem_categoriesOf_iff.1 hid
  obtain ⟨q, hq, rfl⟩ := List.mem_map.1 hpid
  obtain ⟨p, hp, hget, hne, hedited⟩ := h.edited q hq
  cases hedited.symm.trans hp'
  exact ⟨q.1, hsub hpid, p, hp, by rwa [hget], hid⟩

theorem ChangePlayersBlueJudogiHintAction.elsewhere_redoImpl {a a' : ChangePlayersBlueJudogiHintAction}
    (ht : t.Indexed) (hids : ∀ i pid p, pid ∈ a.playerIds → t.players pid = some p →
      p.fields.blueJudogiHint ≠ a.value → i ∈ p.categories → S i) (h : a.redoImpl t = .ok a' t') :
    elsewhere k S t' = elsewhere k S t := by
  simp only [redoImpl, bind_ok, read_ok, pure_ok, Except.ok.injEq] at h
  obtain ⟨changed, t₁, hchange, ids, _, ⟨rfl, rfl⟩, drawAction, _, hdraw, rfl, rfl⟩ := h
  have hblind : FieldBlind TournamentStore.categories := fun _ _ _ _ _ => rfl
  have hcategories : t₁.categories = t.categories := frame_changeField hblind _ hchange
  have hfirst : elsewhere k S t₁ = elsewhere k S t := by
    unfold elsewhere
    rw [hcategories]
  unfold drawAll at hdraw
  split at hdraw
  · obtain ⟨-, rfl⟩ := pure_ok.1 hdraw
    exact hfirst
  · simp only [bind_ok, pure_ok] at hdraw
    obtain ⟨b, t', hb, -, rfl⟩ := hdraw
    have ht₁ : t₁.Indexed := ht.of_keys (frame_changeField fieldBlind_keys _ hchange)
    refine (DrawCategoriesAction.elsewhere_redoImpl ht₁ (fun i hi _ => ?_) hb).trans hfirst
    obtain ⟨pid, hpid, p, hp, hne, hid⟩ :=
      (changeField_ok lawful_blueJudogiHintField hchange).categoriesOf (changeField_subset hchange) hi
    exact hids i pid p hpid hp hne hid

/-- Where no match is to be reset, nothing is done. -/
theorem ResetMatchesAction.redoImpl_of_targets {a a' : ResetMatchesAction} (hids : a.targets t = .ok [])
    (h : a.redoImpl t = .ok a' t') : t' = t := by
  obtain ⟨ids, s, hread, hresets⟩ := bind_ok.1 h
  obtain ⟨htargets, rfl⟩ := read_ok.1 hread
  cases hids.symm.trans htargets
  obtain ⟨ps, t₁, hps, hupdates⟩ := bind_ok.1 hresets
  obtain ⟨rfl, rfl⟩ := forEach_nil_ok.1 hps
  obtain ⟨stack, t₂, hstack, hrest⟩ := bind_ok.1 hupdates
  obtain ⟨-, rfl⟩ := pure_ok.1 hrest
  obtain ⟨-, rfl⟩ := pure_ok.1 hstack
  rfl

theorem calm_of_seen (h : t'.seen CategoryStore.bouts = t.seen CategoryStore.bouts) (hcalm : t.Calm id) :
    t'.Calm id := by
  intro c hc
  obtain ⟨e, he, hbouts⟩ := Option.map_eq_some_iff.1 ((categories_of_project h id).symm.trans (by rw [hc]; rfl))
  have hstatus : e.status = c.status := congrArg (fun b => b.2.2) hbouts
  have hstarted := hcalm e he
  unfold CategoryStore.isStarted CategoryStore.getStatus at hstarted ⊢
  rwa [hstatus] at hstarted

theorem SetCategoriesMatchesHiddenAction.elsewhere_redoImpl (hk : ∀ c hidden, k (c.setMatchesHidden hidden) = k c)
    {a a' : SetCategoriesMatchesHiddenAction} (h : a.redoImpl t = .ok a' t') : elsewhere k S t' = elsewhere k S t := by
  obtain ⟨ids, s, hread, hrest⟩ := bind_ok.1 h
  obtain ⟨-, rfl⟩ := read_ok.1 hread
  obtain ⟨_, t₁, hset, hrest⟩ := bind_ok.1 hrest
  obtain ⟨-, rfl⟩ := pure_ok.1 hrest
  obtain ⟨us, t₂, hus, hrecompute⟩ := bind_ok.1 hset
  obtain ⟨tatamis, rfl⟩ := DrawCategoriesAction.recomputeGroups_ok hrecompute
  have hflags : elsewhere k S t₂ = elsewhere k S t := by
    refine frame_forEach (fun i _ => frame_editCategory fun u c c' hc hf => ?_) hus
    cases hf
    exact elsewhere_setCategory_of_eq hc (hk c a.hidden)
  exact hflags

namespace ResetMatchesAction

/-- A category that has not begun has nothing to reset. -/
theorem targets_of_calm {a : ResetMatchesAction} {ids : List CombinedId} (ht : t.Indexed)
    (hall : t.All CategoryStore.Accounted) (hcalm : ∀ i ∈ a.categoryIds, t.Calm i) (hids : a.targets t = .ok ids) :
    ids = [] := by
  refine List.eq_nil_iff_forall_not_mem.2 fun x hx => ?_
  obtain ⟨c, m, hc, hm, -, hstarted, hcid, -⟩ := mem_targets ht hids hx
  exact hstarted ((hall _ c not_false hc).tallied.notStarted (hcalm _ hcid c hc) m hm)

theorem targets_of_doesRequireConfirmation {a : ResetMatchesAction} {ids : List CombinedId} (ht : t.Indexed)
    (hall : t.All CategoryStore.Accounted) (hask : a.doesRequireConfirmation t = .ok false)
    (hids : a.targets t = .ok ids) : ids = [] := by
  cases hmatchId : a.matchId with
  | none =>
    unfold doesRequireConfirmation at hask
    rw [hmatchId] at hask
    exact targets_of_calm ht hall (calm_of_anyStarted_contained hask) hids
  | some y =>
    refine List.eq_nil_iff_forall_not_mem.2 fun x hx => ?_
    obtain ⟨c, m, hc, hm, hid, hstarted, hcid, hmatch⟩ := mem_targets ht hids hx
    have hy : x.matchId = y := hmatch y hmatchId
    simp only [targets, hmatchId] at hids
    split at hids
    · next i hcategoryIds =>
      rw [hcategoryIds, List.mem_singleton] at hcid
      have hfind : t.findMatch ⟨i, y⟩ = some c := by
        rw [← hcid, ← hy]
        exact findMatch_eq_some.2 ⟨hc, (ht.index _ c hc).containsMatch_iff.2 ⟨m, hm, hid⟩⟩
      simp only [doesRequireConfirmation, hmatchId, hcategoryIds, hfind] at hask
      obtain ⟨n, hn, hnot⟩ := except_bind_ok.1 hask
      obtain ⟨hmem, hnid⟩ := (ht.index _ c hc).getMatch_ok.1 hn
      obtain rfl := (ht.index _ c hc).eq_of_id hm hmem (by rw [hid, hnid, hy])
      exact of_decide_eq_false (except_pure_ok.1 hnot) hstarted
    · cases hids

theorem eq_of_doesRequireConfirmation {a a' : ResetMatchesAction} (ht : t.Indexed)
    (hall : t.All CategoryStore.Accounted)
    (hask : a.doesRequireConfirmation t = .ok false) (h : a.redoImpl t = .ok a' t') : t' = t := by
  obtain ⟨ids, s, hread, -⟩ := bind_ok.1 h
  obtain ⟨hids, -⟩ := read_ok.1 hread
  rw [targets_of_doesRequireConfirmation ht hall hask hids] at hids
  exact redoImpl_of_targets hids h

end ResetMatchesAction

theorem ChangeCategoriesRulesetAction.elsewhere_redoImpl {a a' : ChangeCategoriesRulesetAction} (ht : t.Indexed)
    (hall : t.All CategoryStore.Accounted) (hcalm : ∀ i ∈ a.getCategoriesThatChange t, t.Calm i)
    (h : a.redoImpl t = .ok a' t') : elsewhere k t.Calm t' = elsewhere k t.Calm t := by
  obtain ⟨ids, s, hread, hrest⟩ := bind_ok.1 h
  obtain ⟨hids, rfl⟩ := read_ok.1 hread
  obtain ⟨old, t₁, hold, hrest⟩ := bind_ok.1 hrest
  obtain ⟨r, t₂, hr, hrest⟩ := bind_ok.1 hrest
  obtain ⟨rfl, rfl⟩ := pure_ok.1 hrest
  cases hids
  have hseen : t₁.seen CategoryStore.bouts = t.seen CategoryStore.bouts :=
    frame_changeRulesets drawLaw_accounted.labelBlind hold
  have ht₁ : t₁.Indexed := ht.of_keys (frame_changeRulesets labelBlind_keys hold)
  -- the rulesets are no part of what decides about the matches
  obtain ⟨targets, s, hread, -⟩ := bind_ok.1 hr
  obtain ⟨htargets, -⟩ := read_ok.1 hread
  rw [ResetMatchesAction.targets_of_calm ht₁ (drawLaw_accounted.of_seen hall hseen)
    (fun i hi => calm_of_seen hseen (hcalm i hi)) htargets] at htargets
  rw [ResetMatchesAction.redoImpl_of_targets htargets hr]
  exact frame_forEach (fun i hi => frame_getCategory.bind fun _ =>
    (frame_editCategory_elsewhere (hcalm i hi)).bind fun _ => Frame.pure) hold

/-- The players of a category, its matches with their counters, its ruleset and its draw system. -/
def CategoryStore.contest (c : CategoryStore) :
    Finset PlayerId × List MatchStore × ByType CategoryStatus × RulesetIdentifier × DrawSystem :=
  (c.players, c.matchList, c.status, c.ruleset, c.drawSystem)

/-- An action that asks for no confirmation leaves every category that has begun. -/
theorem Action.elsewhere_calm {a a' : Action} (hidle : a.Idle) (ht : Arranged CategoryStore.Accounted t)
    (hask : a.doesRequireConfirmation t = some (.ok false)) (h : a.redoImpl t = .ok a' t') :
    elsewhere CategoryStore.contest t.Calm t' = elsewhere CategoryStore.contest t.Calm t := by
  have hindexed : t.Indexed := ht.orderly.indexed
  cases a with
  | addPlayersToCategory a =>
    obtain ⟨b, hb, -⟩ := map_ok.1 h
    have hask := Option.some.inj hask
    unfold AddPlayersToCategoryAction.doesRequireConfirmation at hask
    refine AddPlayersToCategoryAction.elsewhere_redoImpl hindexed ?_ hb
    split at hask
    · exact calm_of_getCategory hask
    · next hnone => exact calm_of_not_containsCategory hnone
  | changeCategoriesDrawSystem a =>
    obtain ⟨b, hb, -⟩ := map_ok.1 h
    exact ChangeCategoriesDrawSystemAction.elsewhere_redoImpl hindexed
      (calm_of_anyStarted (Option.some.inj hask)) hb
  | changeCategoriesRuleset a =>
    obtain ⟨b, hb, -⟩ := map_ok.1 h
    exact ChangeCategoriesRulesetAction.elsewhere_redoImpl hindexed ht.all (calm_of_anyStarted (Option.some.inj hask))
      hb
  | changePlayersBlueJudogiHint a =>
    obtain ⟨b, hb, -⟩ := map_ok.1 h
    refine ChangePlayersBlueJudogiHintAction.elsewhere_redoImpl hindexed (fun i pid p hpid hp hne hi => ?_) hb
    refine calm_of_anyStarted (Option.some.inj hask) i
      (mem_categoriesOf_iff.2 ⟨pid, List.mem_filter.2 ⟨hpid, ?_⟩, p, hp, hi⟩)
    rw [hp]
    exact decide_eq_true hne
  | drawCategories a =>
    obtain ⟨b, hb, -⟩ := map_ok.1 h
    exact DrawCategoriesAction.elsewhere_redoImpl hindexed
      (fun i hi _ => calm_of_anyStarted_contained (Option.some.inj hask) i hi) hb
  | eraseCategories a =>
    obtain ⟨b, hb, -⟩ := map_ok.1 h
    exact EraseCategoriesAction.elsewhere_redoImpl ht.orderly (calm_of_anyStarted_contained (Option.some.inj hask)) hb
  | erasePlayers a =>
    obtain ⟨b, hb, -⟩ := map_ok.1 h
    exact ErasePlayersAction.elsewhere_redoImpl ht.orderly (calm_of_anyStarted (Option.some.inj hask)) hb
  | erasePlayersFromAllCategories a =>
    obtain ⟨b, hb, -⟩ := map_ok.1 h
    exact ErasePlayersFromAllCategoriesAction.elsewhere_redoImpl ht.orderly
      (calm_of_anyStarted (Option.some.inj hask)) hb
  | erasePlayersFromCategory a =>
    obtain ⟨b, hb, -⟩ := map_ok.1 h
    have hask := Option.some.inj hask
    unfold ErasePlayersFromCategoryAction.doesRequireConfirmation at hask
    refine ErasePlayersFromCategoryAction.elsewhere_redoImpl hidle.1 hindexed ?_ hb
    rintro ⟨pid, hpid, hp⟩
    rw [if_pos (List.any_eq_true.2 ⟨pid, hpid, Option.isSome_iff_ne_none.2 hp⟩)] at hask
    exact calm_of_getCategory hask
  | resetMatches a =>
    obtain ⟨b, hb, -⟩ := map_ok.1 h
    rw [ResetMatchesAction.eq_of_doesRequireConfirmation hindexed ht.all (Option.some.inj hask) hb]
  | setCategoriesMatchesHidden a =>
    obtain ⟨b, hb, -⟩ := map_ok.1 h
    exact SetCategoriesMatchesHiddenAction.elsewhere_redoImpl (fun _ _ => rfl) hb
  | _ => cases hask

end

/-! ### Sessions -/

/-- Whatever is done or redone in a session without that it asks for a confirmation, a category of which a match has
been started keeps its players, its matches with all their results, its ruleset and its draw system. -/
theorem Session.confirmation_complete (s s' : Session) (hs : ReachableBy Careful s) (e : Event) (a : Action)
    (he : s.redone e = some a) (hask : a.doesRequireConfirmation s.tournament = some (.ok false))
    (hnext : s.next e = some s') (cid : CategoryId) (c : CategoryStore) (hc : s.tournament.categories cid = some c)
    (hbegun : ∃ m ∈ c.matchList, m.getStatus ≠ .notStarted) :
    ∃ c', s'.tournament.categories cid = some c' ∧ c'.contest = c.contest := by
  have ht := arranged_of_reachableBy hs
  obtain rfl | ⟨b, a', t', undone, hb, -, hnew, hredo, rfl⟩ | ⟨_, _, _, _, rfl, -⟩ :=
    step_cases (next_eq_some.1 hnext)
  · exact ⟨c, hc, rfl⟩
  · cases he.symm.trans hb
    have hidle : a.Idle := hnew.elim Action.idle_of_isFresh ((tallyDiscipline.sound_of_reachableBy hs).idle a)
    have hcalm : ¬ s.tournament.Calm cid := by
      intro hcalm
      obtain ⟨m, hm, hstarted⟩ := hbegun
      exact hstarted ((ht.all cid c not_false hc).tallied.notStarted (hcalm c hc) m hm)
    have hsame := category_of_elsewhere (Action.elsewhere_calm hidle ht hask hredo) hcalm
    rw [hc, Option.map_some] at hsame
    exact Option.map_eq_some_iff.1 hsame
  · cases he

/-- Two matches of three are won, and there is a second category, without players. -/
def secondCategory : List Session.Event :=
  MatchEventAction.byeSet ++ [.redo (.addCategory ⟨⟨2⟩, "", .twentyEighteen, .bestOfThree⟩)]

/-- The player joins the second category. -/
def joinsSecond : Action := .addPlayersToCategory { categoryId := ⟨2⟩, playerIds := [⟨1⟩], seed := 0 }

theorem Session.confirmation_complete_secondCategory : ∃ s s' c c', Runs.run next secondCategory {} = some s ∧
    s.next (.redo joinsSecond) = some s' ∧ s.tournament.categories ⟨1⟩ = some c ∧
    s'.tournament.categories ⟨1⟩ = some c' ∧ c'.contest = c.contest := by
  have hrun : ((Runs.run next secondCategory {}).bind fun s => (s.next (.redo joinsSecond)).bind fun _ =>
      (s.tournament.categories ⟨1⟩).map fun c => (joinsSecond.doesRequireConfirmation s.tournament,
        decide (∃ m ∈ c.matchList, m.getStatus ≠ .notStarted))) = some (some (.ok false), true) :=
          by decide +kernel
  obtain ⟨s, hs, hrest⟩ := Option.bind_eq_some_iff.1 hrun
  obtain ⟨s', hs', hrest⟩ := Option.bind_eq_some_iff.1 hrest
  obtain ⟨c, hc, hpair⟩ := Option.map_eq_some_iff.1 hrest
  obtain ⟨hask, hbegun⟩ := Prod.mk.inj hpair
  have hcareful : ReachableBy Careful s := careful_of_new
    (by simp [secondCategory, MatchEventAction.byeSet, DoublePoolDrawSystem.fight, Event.Constructed,
      Action.Constructed])
    (by decide +kernel) hs
  obtain ⟨c', hc', hsame⟩ := confirmation_complete s s' hcareful (.redo joinsSecond) joinsSecond rfl hask hs'
    ⟨1⟩ c hc (of_decide_eq_true hbegun)
  exact ⟨s, s', c, c', hs, hs', hc, hc', hsame⟩

/-- Where a bye that was underway is reset, the counters do not show that it is finished, and the category is erased
without a question. -/
theorem not_confirmation_complete_byeReset : ∃ s s' c, Runs.run Session.next byeReset {} = some s ∧
    s.next (.redo (.eraseCategories { categoryIds := [⟨1⟩] })) = some s' ∧
    (Action.eraseCategories { categoryIds := [⟨1⟩] }).doesRequireConfirmation s.tournament = some (.ok false) ∧
    s.tournament.categories ⟨1⟩ = some c ∧ (∃ m ∈ c.matchList, m.getStatus = .finished) ∧
    s'.tournament.categories ⟨1⟩ = none := by
  have hrun : ((Runs.run Session.next byeReset {}).bind fun s =>
      (s.next (.redo (.eraseCategories { categoryIds := [⟨1⟩] }))).bind fun s' =>
      (s.tournament.categories ⟨1⟩).map fun c =>
        ((Action.eraseCategories { categoryIds := [⟨1⟩] }).doesRequireConfirmation s.tournament,
          decide (∃ m ∈ c.matchList, m.getStatus = .finished), (s'.tournament.categories ⟨1⟩).isNone)) =
      some (some (.ok false), true, true) := by decide +kernel
  obtain ⟨s, hs, hrest⟩ := Option.bind_eq_some_iff.1 hrun
  obtain ⟨s', hs', hrest⟩ := Option.bind_eq_some_iff.1 hrest
  obtain ⟨c, hc, htriple⟩ := Option.map_eq_some_iff.1 hrest
  obtain ⟨hask, hrest⟩ := Prod.mk.inj htriple
  obtain ⟨hfinished, herased⟩ := Prod.mk.inj hrest
  exact ⟨s, s', c, hs, hs', hask, hc, of_decide_eq_true hfinished, Option.isNone_iff_eq_none.1 herased⟩

end JudoAssistant
