import JudoAssistant.Tournament.Confirmations

/-!
# What is discarded without a question

An action that erases or resets a match that has been fought is to ask first
(`src/core/actions/confirmable_action.hpp`).  Where the counters are right, every action does so but one:
`AddPlayersWithCategoriesAction` draws a category again that one of its players joins, and asks for nothing.
-/

namespace JudoAssistant

open Effect Exec TournamentStore

/-! ### Fought matches -/

/-- The state and the events of a match that is no bye and has begun. -/
def MatchStore.fought (m : MatchStore) : Option (MatchState × List MatchEvent) :=
  if m.bye = false ∧ m.getStatus ≠ .notStarted then some (m.state, m.events) else none

def CategoryStore.fought (c : CategoryStore) (x : MatchId) : Option (MatchState × List MatchEvent) :=
  (c.matchList.find? fun m => m.id = x).bind MatchStore.fought

def TournamentStore.fought (t : TournamentStore) (x : CombinedId) : Option (MatchState × List MatchEvent) :=
  (t.categories x.categoryId).bind fun c => c.fought x.matchId

/-- The match has been fought in the one tournament, and in the other one its state or its events are not there. -/
def TournamentStore.Discards (t t' : TournamentStore) (x : CombinedId) : Prop :=
  t.fought x ≠ none ∧ t'.fought x ≠ t.fought x

instance (t t' : TournamentStore) (x : CombinedId) : Decidable (t.Discards t' x) :=
  inferInstanceAs (Decidable (_ ∧ _))

section

variable {t t' : TournamentStore} {c c' : CategoryStore} {m m' : MatchStore} {x : CombinedId} {y : MatchId}
  {move : Option (MatchStatus × MatchStatus)}

theorem MatchStore.fought_eq_none_of_bye (h : m.bye = true) : m.fought = none := if_neg fun hm => by
  rw [h] at hm
  cases hm.1

theorem MatchStore.fought_eq_none_of_notStarted (h : m.getStatus = .notStarted) : m.fought = none :=
  if_neg fun hm => hm.2 h

/-- A match that is written is the only one whose state changes. -/
theorem CategoryStore.Rewrites.fought (h : c.Rewrites y m m' move c') (hid : m'.id = m.id) {z : MatchId}
    (hz : z ≠ m.id ∨ m'.fought = m.fought) : c'.fought z = c.fought z := by
  obtain ⟨ms, ms', hlist, hlist'⟩ := h.matchList
  unfold CategoryStore.fought
  rw [hlist, hlist', List.find?_append, List.find?_append, List.find?_cons, List.find?_cons, hid]
  by_cases hm : m.id = z
  · rw [decide_eq_true hm]
    cases ms.find? fun n => n.id = z with
    | some n => rfl
    | none => exact hz.resolve_left fun hne => hne hm.symm
  · rw [decide_eq_false hm]

theorem TournamentStore.Rewritten.fought (ht : t.categories x.categoryId = some c)
    (hrewrites : c.Rewrites x.matchId m m' move c') (h : t.Rewritten x.categoryId c' t') (hid : m'.id = m.id)
    {z : CombinedId} (hz : z.categoryId ≠ x.categoryId ∨ z.matchId ≠ m.id ∨ m'.fought = m.fought) :
    t'.fought z = t.fought z := by
  unfold TournamentStore.fought
  by_cases hcid : z.categoryId = x.categoryId
  · rw [hcid, h.category, ht]
    exact hrewrites.fought hid (hz.resolve_left fun hne => hne hcid)
  · rw [h.other _ hcid]

/-! ### Draws that follow -/

/-- A bye is set in a match that has not begun, and taken from one that is a bye: neither has been fought. -/
theorem MatchEventKind.Writes.fought_setMatchBye {bye : Bool}
    (h : MatchEventKind.Writes (.setMatchBye bye) x t c m m' c' t') : t'.fought = t.fought := by
  have hsame := MatchStore.SameFight.effect c.ruleset h.effect
  have heffect : (m.setStatus (if bye then .finished else .notStarted)).setBye bye = .ok m' := h.effect
  have hguard : (m.bye != bye && (!bye || m.getStatus == .notStarted)) = true := h.guard
  obtain ⟨-, -, heffect⟩ := except_bind_ok.1 heffect
  cases except_pure_ok.1 heffect
  refine funext fun z => h.rewritten.fought h.category h.rewrites (congrArg CombinedId.matchId hsame.combinedId)
    (.inr (.inr ?_))
  cases bye with
  | true =>
    have hstatus : m.getStatus = .notStarted := by
      rw [Bool.and_eq_true, Bool.not_true, Bool.false_or, beq_iff_eq] at hguard
      exact hguard.2
    rw [MatchStore.fought_eq_none_of_notStarted hstatus, MatchStore.fought_eq_none_of_bye rfl]
  | false =>
    have hbye : m.bye = true := by
      cases hm : m.bye
      · rw [hm] at hguard
        cases hguard
      · rfl
    rw [MatchStore.fought_eq_none_of_bye hbye, MatchStore.fought_eq_none_of_notStarted rfl]

/-- The fought matches of a tournament with its indices in line. -/
def Fought (v : CombinedId → Option (MatchState × List MatchEvent)) (t : TournamentStore) : Prop :=
  t.Indexed ∧ t.fought = v

section

variable {v : CombinedId → Option (MatchState × List MatchEvent)}

theorem SetMatchPlayerAction.keeps_redo_fought (a : SetMatchPlayerAction) :
    Keeps (Fought v) a.redoImpl fun _ => True := by
  rintro t a' t' ⟨ht, rfl⟩ h
  refine ⟨⟨(a.keeps_redo_indexed ht h).1, ?_⟩, trivial⟩
  obtain ⟨-, -, rfl⟩ | ⟨c, m, hc, hm, -, -, -, rfl⟩ := redoImpl_cases ht h
  · rfl
  · have hrewrites : c.Rewrites a.combinedId.matchId m (m.setPlayer a.playerIndex a.playerId) none
        (c.setMatch a.combinedId.matchId (m.setPlayer a.playerIndex a.playerId)) := ⟨hm, rfl⟩
    funext z
    unfold TournamentStore.fought
    by_cases hcid : z.categoryId = a.combinedId.categoryId
    · rw [hcid, hc]
      show (Function.update t.categories a.combinedId.categoryId (some _) a.combinedId.categoryId).bind _ = _
      rw [Function.update_self]
      exact hrewrites.fought rfl (.inr rfl)
    · show (Function.update t.categories a.combinedId.categoryId (some _) z.categoryId).bind _ = _
      rw [Function.update_of_ne hcid]

theorem keeps_updateDraw_fought {run : DrawAction → Exec DrawAction}
    (hrun : ∀ a, Keeps (Fought v) (run a) fun _ => True) (id : CategoryId) (stack : List DrawAction) :
    Keeps (Fought v) (updateDraw run id stack) fun _ => True :=
  keeps_getCategory.bind fun _ _ => keeps_read.bind fun _ _ =>
    Course.runAll (Q := fun _ => True) (fun a _ => hrun a) (fun _ _ => trivial) stack

theorem DrawAction.keeps_redo_fought (n : ℕ) (a : DrawAction) : Keeps (Fought v) (a.redo n) fun _ => True := by
  induction n generalizing a with
  | zero =>
    cases a with
    | setMatchPlayer a => exact a.keeps_redo_fought.bind fun _ _ => .pure trivial
    | setMatchBye => exact .throw
  | succ n ih =>
    cases a with
    | setMatchPlayer a => exact a.keeps_redo_fought.bind fun _ _ => .pure trivial
    | setMatchBye x bye saved stack =>
      refine Keeps.bind (P := fun _ => True) ?_ fun _ _ => .pure trivial
      rintro t ⟨saved', stack'⟩ t' ⟨ht, rfl⟩ h
      have h : MatchEventAction.redoWith (DrawAction.redo n) (MatchEventKind.setMatchBye bye).rules x saved stack t =
        .ok (saved', stack') t' := h
      obtain ⟨-, -, rfl, -⟩ | ⟨c, m, m', c', t₁, hwrites, -, hrest⟩ := MatchEventAction.redoWith_writes ht h
      · exact ⟨⟨ht, rfl⟩, trivial⟩
      · have ht₁ : Fought t.fought t₁ := ⟨hwrites.steady.1, hwrites.fought_setMatchBye⟩
        obtain ⟨-, rfl⟩ | hupdate := hrest
        · exact ⟨ht₁, trivial⟩
        · exact keeps_updateDraw_fought ih _ _ ht₁ hupdate

theorem keeps_updateDraws_fought (ids : List CategoryId) (stack : List DrawAction) :
    Keeps (Fought v) (ResetMatchesAction.updateDraws ids stack) fun _ => True := by
  induction ids generalizing stack with
  | nil => exact .pure trivial
  | cons id ids ih =>
    exact (keeps_updateDraw_fought (DrawAction.keeps_redo_fought _) id stack).bind fun stack _ => ih stack

end

/-- A match event leaves the other matches that have been fought. -/
theorem MatchEventAction.fought_redoImpl {a a' : MatchEventAction} (ht : t.Indexed) (h : a.redoImpl t = .ok a' t')
    (hx : a.combinedId ≠ x) : t'.fought x = t.fought x := by
  obtain ⟨⟨saved, stack⟩, t₁, hevent, hrest⟩ := bind_ok.1 h
  obtain ⟨-, rfl⟩ := pure_ok.1 hrest
  obtain ⟨-, -, rfl, -⟩ | ⟨c, m, m', c', t₂, hwrites, -, hrest⟩ := redoWith_writes ht hevent
  · rfl
  · have hsame := MatchStore.SameFight.effect c.ruleset hwrites.effect
    obtain ⟨-, hid⟩ := (ht.index _ c hwrites.category).getMatch_ok.1 hwrites.rewrites.old
    have hfirst : t₂.fought x = t.fought x := by
      refine hwrites.rewritten.fought hwrites.category hwrites.rewrites
        (congrArg CombinedId.matchId hsame.combinedId) ?_
      by_cases hcid : x.categoryId = a.combinedId.categoryId
      · refine .inr (.inl fun hmatch => hx ?_)
        rw [hid] at hmatch
        rw [show x = ⟨x.categoryId, x.matchId⟩ from rfl, hcid, hmatch]
      · exact .inl hcid
    obtain ⟨-, rfl⟩ | hupdate := hrest
    · exact hfirst
    · have hrest := (keeps_updateDraw_fought (DrawAction.keeps_redo_fought _) _ _ ⟨hwrites.steady.1, rfl⟩ hupdate).1.2
      rw [hrest, hfirst]

/-! ### Actions that ask -/

theorem TournamentStore.anyStarted_total (ids : List CategoryId) (h : ∀ id ∈ ids, t.categories id ≠ none) :
    ∃ b, t.anyStarted ids = .ok b := by
  induction ids with
  | nil => exact ⟨false, rfl⟩
  | cons id ids ih =>
    obtain ⟨c, hc⟩ := Option.ne_none_iff_exists'.1 (h id List.mem_cons_self)
    obtain ⟨b, hb⟩ := ih fun i hi => h i (List.mem_cons_of_mem _ hi)
    cases hstarted : c.isStarted with
    | true => exact ⟨true, except_bind_ok.2 ⟨c, getCategory_eq_ok.2 hc, by rw [if_pos hstarted]; rfl⟩⟩
    | false =>
      exact ⟨b, except_bind_ok.2 ⟨c, getCategory_eq_ok.2 hc, by rw [if_neg (Bool.eq_false_iff.1 hstarted)]; exact hb⟩⟩

theorem anyStarted_contained (ids : List CategoryId) : ∃ b, t.anyStarted (ids.filter t.containsCategory) = .ok b :=
  anyStarted_total _ fun _ hid => Option.isSome_iff_ne_none.1 (List.mem_filter.1 hid).2

theorem anyStarted_categoriesOf (ht : t.Linked) (pids : List PlayerId) :
    ∃ b, t.anyStarted (categoriesOf t pids) = .ok b := by
  refine anyStarted_total _ fun id hid => ?_
  obtain ⟨pid, -, p, hp, hmem⟩ := mem_categoriesOf_iff.1 hid
  obtain ⟨c, hc, -⟩ := (ht.member id pid p hp).1 hmem
  simp [hc]

theorem ResetMatchesAction.answers {a : ResetMatchesAction} {ids : List CombinedId} (hids : a.targets t = .ok ids) :
    ∃ b, a.doesRequireConfirmation t = .ok b := by
  cases hmatchId : a.matchId with
  | none =>
    simp only [doesRequireConfirmation, hmatchId]
    exact anyStarted_contained a.categoryIds
  | some y =>
    rcases hcategoryIds : a.categoryIds with _ | ⟨cid, _ | ⟨cid', rest⟩⟩
    · simp only [targets, hmatchId, hcategoryIds] at hids
      cases hids
    · cases hfind : t.findMatch ⟨cid, y⟩ with
      | none => exact ⟨false, by simp only [doesRequireConfirmation, hmatchId, hcategoryIds, hfind]⟩
      | some c =>
        simp only [targets, hmatchId, hcategoryIds, hfind] at hids
        simp only [doesRequireConfirmation, hmatchId, hcategoryIds, hfind]
        obtain ⟨m, hm, -⟩ := except_bind_ok.1 hids
        exact ⟨_, except_bind_ok.2 ⟨m, hm, rfl⟩⟩
    · simp only [targets, hmatchId, hcategoryIds] at hids
      cases hids

/-- An action that returns has an answer, or is none that asks, or does nothing. -/
theorem Action.answers {a a' : Action} (ht : Orderly t) (h : a.redoImpl t = .ok a' t') :
    a.doesRequireConfirmation t = none ∨ (∃ b, a.doesRequireConfirmation t = some (.ok b)) ∨ t' = t := by
  cases a with
  | addPlayersToCategory a =>
    refine .inr (.inl ?_)
    show ∃ b, some (a.doesRequireConfirmation t) = _
    unfold AddPlayersToCategoryAction.doesRequireConfirmation
    split
    · next hcontains =>
      obtain ⟨c, hc⟩ := Option.isSome_iff_exists.1 hcontains
      exact ⟨c.isStarted, congrArg some (except_bind_ok.2 ⟨c, getCategory_eq_ok.2 hc, rfl⟩)⟩
    · exact ⟨false, rfl⟩
  | changeCategoriesDrawSystem a =>
    obtain ⟨b, hb⟩ := anyStarted_total (a.getCategoriesThatChange t) fun id hid hnone => by
      have hchanges := (List.mem_filter.1 hid).2
      rw [hnone] at hchanges
      cases hchanges
    exact .inr (.inl ⟨b, congrArg some hb⟩)
  | changeCategoriesRuleset a =>
    obtain ⟨b, hb⟩ := anyStarted_total (a.getCategoriesThatChange t) fun id hid hnone => by
      have hchanges := (List.mem_filter.1 hid).2
      rw [hnone] at hchanges
      cases hchanges
    exact .inr (.inl ⟨b, congrArg some hb⟩)
  | changePlayersBlueJudogiHint a =>
    obtain ⟨b, hb⟩ := anyStarted_categoriesOf ht.linked _
    exact .inr (.inl ⟨b, congrArg some hb⟩)
  | drawCategories a =>
    obtain ⟨b, hb⟩ := anyStarted_contained (t := t) a.categoryIds
    exact .inr (.inl ⟨b, congrArg some hb⟩)
  | eraseCategories a =>
    obtain ⟨b, hb⟩ := anyStarted_contained (t := t) a.categoryIds
    exact .inr (.inl ⟨b, congrArg some hb⟩)
  | erasePlayers a =>
    obtain ⟨b, hb⟩ := anyStarted_categoriesOf ht.linked _
    exact .inr (.inl ⟨b, congrArg some hb⟩)
  | erasePlayersFromAllCategories a =>
    obtain ⟨b, hb⟩ := anyStarted_categoriesOf ht.linked _
    exact .inr (.inl ⟨b, congrArg some hb⟩)
  | erasePlayersFromCategory a =>
    -- The question is put to a category that may not exist; the action then does nothing.
    by_cases hcontains : t.categories a.categoryId = none
    · obtain ⟨b, hb, -⟩ := map_ok.1 h
      obtain ⟨-, rfl, -⟩ | ⟨erased, t₁, hexists, -⟩ := ErasePlayersFromCategoryAction.redoImpl_ok hb
      · exact .inr (.inr rfl)
      · exact (hexists hcontains).elim
    · obtain ⟨c, hc⟩ := Option.ne_none_iff_exists'.1 hcontains
      refine .inr (.inl ?_)
      show ∃ b, some (a.doesRequireConfirmation t) = _
      unfold ErasePlayersFromCategoryAction.doesRequireConfirmation
      split
      · exact ⟨c.isStarted, congrArg some (except_bind_ok.2 ⟨c, getCategory_eq_ok.2 hc, rfl⟩)⟩
      · exact ⟨false, rfl⟩
  | resetMatches a =>
    obtain ⟨b, hb, -⟩ := map_ok.1 h
    obtain ⟨ids, s, hread, -⟩ := bind_ok.1 hb
    obtain ⟨b, hask⟩ := ResetMatchesAction.answers (read_ok.1 hread).1
    exact .inr (.inl ⟨b, congrArg some hask⟩)
  | setCategoriesMatchesHidden a =>
    refine .inr (.inl ?_)
    show ∃ b, some (a.doesRequireConfirmation t) = _
    unfold SetCategoriesMatchesHiddenAction.doesRequireConfirmation
    split
    · obtain ⟨b, hb⟩ := anyStarted_total (a.getCategoriesThatChange t) fun id hid hnone => by
        have hchanges := (List.mem_filter.1 hid).2
        rw [hnone] at hchanges
        cases hchanges
      exact ⟨b, congrArg some hb⟩
    · exact ⟨false, rfl⟩
  | _ => exact .inl rfl

/-! ### Actions that ask nothing -/

theorem TournamentStore.fought_congr (h : (t'.categories x.categoryId).map CategoryStore.matchList =
    (t.categories x.categoryId).map CategoryStore.matchList) : t'.fought x = t.fought x := by
  unfold TournamentStore.fought
  cases hc : t.categories x.categoryId with
  | none =>
    rw [hc, Option.map_none, Option.map_eq_none_iff] at h
    rw [h]
  | some c =>
    rw [hc, Option.map_some, Option.map_eq_some_iff] at h
    obtain ⟨e, he, hlist⟩ := h
    rw [he, Option.bind_some, Option.bind_some, CategoryStore.fought, hlist]
    rfl

theorem TournamentStore.ne_of_fought {id : CategoryId} (hid : t.categories id = none) (hx : t.fought x ≠ none) :
    x.categoryId ≠ id := by
  rintro rfl
  exact hx (by rw [TournamentStore.fought, hid]; rfl)

theorem fought_of_frame {γ : Type} {y : Exec γ} {a : γ} (hy : Frame (seen CategoryStore.matchList) y)
    (h : y t = .ok a t') : t'.fought x = t.fought x :=
  TournamentStore.fought_congr (categories_of_project (hy h) _)

theorem fought_of_wrapped {γ : Type} {y : Exec γ} {wrap : γ → Action} {a : Action}
    (hy : Frame (seen CategoryStore.matchList) y) (h : (wrap <$> y) t = .ok a t') : t'.fought x = t.fought x := by
  obtain ⟨b, hb, -⟩ := map_ok.1 h
  exact fought_of_frame hy hb

theorem AddCategoryAction.categories_redoImpl {a a' : AddCategoryAction} {id : CategoryId}
    (hid : t.categories id ≠ none) (h : a.redoImpl t = .ok a' t') : t'.categories id = t.categories id := by
  obtain ⟨-, hnone, rfl⟩ := redoImpl_ok h
  refine Function.update_of_ne ?_ _ _
  rintro rfl
  exact hid hnone

theorem AddCategoryWithPlayersAction.fought_redoImpl {a a' : AddCategoryWithPlayersAction} (ht : Orderly t)
    (hx : t.fought x ≠ none) (h : a.redoImpl t = .ok a' t') : t'.fought x = t.fought x := by
  obtain ⟨b, t₁, hb, hrest⟩ := bind_ok.1 h
  obtain ⟨c, t₂, hplayers, hrest⟩ := bind_ok.1 hrest
  obtain ⟨-, rfl⟩ := pure_ok.1 hrest
  obtain ⟨-, hnone, -⟩ := AddCategoryAction.redoImpl_ok hb
  have hne := TournamentStore.ne_of_fought hnone hx
  have hsome : t.categories x.categoryId ≠ none := fun hc => TournamentStore.ne_of_fought hc hx rfl
  refine TournamentStore.fought_congr ?_
  rw [← AddCategoryAction.categories_redoImpl hsome hb]
  have ht₁ : Orderly t₁ :=
    (AddCategoryAction.restorable _ (f := fun _ => ()) (h := CategoryStore.ties) ht hb).1
  unfold addPlayers at hplayers
  split at hplayers
  · obtain ⟨-, rfl⟩ := pure_ok.1 hplayers
    rfl
  · obtain ⟨d, t₃, hd, hrest⟩ := bind_ok.1 hplayers
    obtain ⟨-, rfl⟩ := pure_ok.1 hrest
    exact category_of_elsewhere (AddPlayersToCategoryAction.elsewhere_redoImpl (k := CategoryStore.matchList)
      (S := (· = a.id)) ht₁.indexed rfl hd) hne

/-- Adding categories leaves those that exist. -/
theorem AddCategoryAction.categories_addAll {ids : List (CategoryId × String)} {cs : List AddCategoryAction}
    {id : CategoryId} (hid : t.categories id ≠ none) (h : forEach (fun c => AddCategoryAction.redoImpl
      ⟨c.1, c.2, RulesetIdentifier.default, .pool⟩) ids t = .ok cs t') : t'.categories id = t.categories id := by
  induction ids generalizing t cs with
  | nil =>
    obtain ⟨-, rfl⟩ := forEach_nil_ok.1 h
    rfl
  | cons c ids ih =>
    obtain ⟨c', t₁, cs', hc, hcs, -⟩ := forEach_cons_ok.1 h
    have hfirst := categories_redoImpl hid hc
    exact (ih (by rwa [hfirst]) hcs).trans hfirst

namespace AddPlayersWithCategoriesAction

/-- The tournament before players join: with the new players and the new categories. -/
theorem added_redoImpl {a : AddPlayersWithCategoriesAction} {b : AddPlayersAction} {cs : List AddCategoryAction}
    {t₁ : TournamentStore} (ht : Orderly t)
    (hb : AddPlayersAction.redoImpl ⟨a.players.map fun p => (p.id, p.fields)⟩ t = .ok b t₁)
    (hcs : forEach (fun c => AddCategoryAction.redoImpl ⟨c.1, c.2, RulesetIdentifier.default, .pool⟩)
      a.newCategories t₁ = .ok cs t') :
    Orderly t' ∧ (∀ id, t.categories id ≠ none → t'.categories id = t.categories id) ∧
      ∀ p ∈ a.players, t.players p.id = none ∧ t'.players p.id ≠ none := by
  obtain ⟨-, hadded⟩ := AddPlayersAction.redoImpl_ok hb
  have ht₁ : Orderly t₁ := (AddPlayersAction.restorable _ (f := fun _ => ()) (h := CategoryStore.ties) ht hb).1
  refine ⟨(restorable_forEach (fun c _ => AddCategoryAction.restorable _ (f := fun _ => ())
    (h := CategoryStore.ties)) ht₁ hcs).1, fun id hid => ?_, fun p hp => ?_⟩
  · rw [← hadded.categories] at hid ⊢
    exact AddCategoryAction.categories_addAll hid hcs
  · have hmem : PlayerStore.init p.id p.fields ∈
        AddPlayersAction.stores ⟨a.players.map fun p => (p.id, p.fields)⟩ :=
      List.mem_map.2 ⟨(p.id, p.fields), List.mem_map.2 ⟨p, hp, rfl⟩, rfl⟩
    have hplayers : t'.players = t₁.players :=
      frame_forEach (fun c _ s d s' hd => by
        obtain ⟨-, -, rfl⟩ := AddCategoryAction.redoImpl_ok hd
        rfl) hcs
    have hsome : t₁.players p.id = some (.init p.id p.fields) := hadded.added _ hmem
    exact ⟨hadded.new _ hmem, by rw [hplayers, hsome]; exact Option.some_ne_none _⟩

/-- The categories that players of the action join are the only ones that it draws again. -/
theorem fought_redoImpl {a a' : AddPlayersWithCategoriesAction} (ht : Orderly t)
    (hx : t.fought x ≠ none) (hjoin : ∀ p ∈ a.players, p.category ≠ some x.categoryId)
    (h : a.redoImpl t = .ok a' t') : t'.fought x = t.fought x := by
  simp only [redoImpl, bind_ok, pure_ok] at h
  obtain ⟨b, t₁, hb, cs, t₂, hcs, ps, t₃, hps, -, rfl⟩ := h
  obtain ⟨ht₂, hsame, -⟩ := added_redoImpl ht hb hcs
  refine TournamentStore.fought_congr ?_
  rw [← hsame _ fun hc => TournamentStore.ne_of_fought hc hx rfl]
  refine (AutoAddCategoriesAction.addPlayers_orderly (k := CategoryStore.matchList) profileSight_unit ht₂ hps).2.2 _
    fun hmem => ?_
  obtain ⟨g, hg, hid⟩ := List.mem_map.1 hmem
  obtain ⟨id, hid', rfl⟩ := List.mem_map.1 hg
  obtain ⟨p, hp, hcategory⟩ := List.mem_filterMap.1 (List.mem_toFinset.1 (mem_inOrder.1 hid'))
  exact hjoin p hp (hcategory.trans (congrArg some hid))

end AddPlayersWithCategoriesAction

theorem AutoAddCategoriesAction.fought_redoImpl {a a' : AutoAddCategoriesAction} (ht : Orderly t)
    (hx : t.fought x ≠ none) (h : a.redoImpl t = .ok a' t') : t'.fought x = t.fought x := by
  obtain ⟨rfl, hnew, us, t₁, as, hus, has⟩ := redoImpl_ok h
  have hnot : x.categoryId ∉ a'.groups.map (·.1) := fun hmem => TournamentStore.ne_of_fought (hnew _ hmem) hx rfl
  obtain ⟨hsound₁, -⟩ := addGroups_spec ht.sound hus
  obtain ⟨ht₁, -, hcategories⟩ := addGroups_linked ⟨ht.linked, ht.indexed⟩ hus
  rw [map_zipIdx_groups] at hcategories
  refine TournamentStore.fought_congr ?_
  rw [← hcategories _ hnot]
  exact (addPlayers_orderly profileSight_unit ⟨hsound₁, ht₁.indexed, ht₁.linked⟩ has).2.2 _ hnot

theorem ChangePlayersWeightAction.fought_redoImpl {a a' : ChangePlayersWeightAction} (ht : t.Indexed)
    (h : a.redoImpl t = .ok a' t') : t'.fought = t.fought := by
  obtain ⟨changed, t₁, hchange, hrest⟩ := bind_ok.1 h
  obtain ⟨ids, s, hread, hrest⟩ := bind_ok.1 hrest
  obtain ⟨-, rfl⟩ := read_ok.1 hread
  obtain ⟨stack, t₂, hupdates, hrest⟩ := bind_ok.1 hrest
  obtain ⟨rfl, rfl⟩ := pure_ok.1 hrest
  have hfirst : t₁.fought = t.fought := funext fun z =>
    fought_of_frame (frame_changeField DrawLaw.fieldBlind _) hchange
  exact (keeps_updateDraws_fought _ _ ⟨ht.of_keys (frame_changeField fieldBlind_keys _ hchange), hfirst⟩ hupdates).1.2

/-- The players of the action join no category of which a match has been fought. -/
def Action.LeavesFought (t : TournamentStore) : Action → Prop
  | .addPlayersWithCategories a => ∀ p ∈ a.players, ∀ id ∈ p.category, ∀ y, t.fought ⟨id, y⟩ = none
  | _ => True

/-- An action that never asks discards nothing but what its own event writes. -/
theorem Action.fought_of_asks_none {a a' : Action} (ht : Orderly t) (hleaves : a.LeavesFought t)
    (hask : a.doesRequireConfirmation t = none) (hevent : ∀ b, a = .matchEvent b → b.combinedId ≠ x)
    (hx : t.fought x ≠ none) (h : a.redoImpl t = .ok a' t') : t'.fought x = t.fought x := by
  have hvalue : ValueBlind (seen CategoryStore.matchList) := valueBlind_project
  have hlayout : LayoutBlind (seen CategoryStore.matchList) := layoutBlind_project fun _ _ _ => rfl
  have hlabel : LabelBlind (seen CategoryStore.matchList) :=
    labelBlind_project (fun _ _ => rfl) (fun _ _ => rfl) fun _ _ => rfl
  have hplayers : ∀ {κ : Type} [DecidableEq κ] (field : PlayerField κ) (b : ChangePlayersAction κ),
      Frame (seen CategoryStore.matchList) (b.redoImpl field) := fun field b =>
    (frame_changeField DrawLaw.fieldBlind _).bind fun _ => Frame.pure
  cases a with
  | addCategory a =>
    obtain ⟨b, hb, -⟩ := map_ok.1 h
    have hsome : t.categories x.categoryId ≠ none := fun hc => TournamentStore.ne_of_fought hc hx rfl
    exact TournamentStore.fought_congr (by rw [AddCategoryAction.categories_redoImpl hsome hb])
  | addCategoryWithPlayers a =>
    obtain ⟨b, hb, -⟩ := map_ok.1 h
    exact AddCategoryWithPlayersAction.fought_redoImpl ht hx hb
  | addDrawSystemPreferenceRow a => exact fought_of_wrapped hvalue.addRow_redo h
  | addPlayers a =>
    obtain ⟨b, hb, -⟩ := map_ok.1 h
    obtain ⟨-, hadded⟩ := AddPlayersAction.redoImpl_ok hb
    exact TournamentStore.fought_congr (by rw [hadded.categories])
  | addPlayersWithCategories a =>
    obtain ⟨b, hb, -⟩ := map_ok.1 h
    exact AddPlayersWithCategoriesAction.fought_redoImpl ht hx
      (fun p hp hcategory => hx (hleaves p hp x.categoryId hcategory x.matchId)) hb
  | autoAddCategories a =>
    obtain ⟨b, hb, -⟩ := map_ok.1 h
    exact AutoAddCategoriesAction.fought_redoImpl ht hx hb
  | changeCategoriesName a => exact fought_of_wrapped hlabel.changeName_redo h
  | changeDrawSystemPreferenceIdentifier a =>
    exact fought_of_wrapped (hvalue.editPreferences.bind fun _ => Frame.pure) h
  | changeDrawSystemPreferenceLimit a => exact fought_of_wrapped hvalue.changeLimit_redo h
  | changeMatchCardStylePreference a => exact fought_of_wrapped (ValueBlind.changeValue_redo fun _ _ => rfl) h
  | changePlayersAge a => exact fought_of_wrapped (hplayers ageField a) h
  | changePlayersClub a => exact fought_of_wrapped (hplayers clubField a) h
  | changePlayersCountry a => exact fought_of_wrapped (hplayers countryField a) h
  | changePlayersFirstName a => exact fought_of_wrapped (hplayers firstNameField a) h
  | changePlayersLastName a => exact fought_of_wrapped (hplayers lastNameField a) h
  | changePlayersRank a => exact fought_of_wrapped (hplayers rankField a) h
  | changePlayersSex a => exact fought_of_wrapped (hplayers sexField a) h
  | changePlayersWeight a =>
    obtain ⟨b, hb, -⟩ := map_ok.1 h
    exact congrFun (ChangePlayersWeightAction.fought_redoImpl ht.indexed hb) x
  | matchEvent a =>
    obtain ⟨b, hb, -⟩ := map_ok.1 h
    exact MatchEventAction.fought_redoImpl ht.indexed hb (hevent a rfl)
  | changeScoreboardStylePreference a => exact fought_of_wrapped (ValueBlind.changeValue_redo fun _ _ => rfl) h
  | changeTournamentDate a => exact fought_of_wrapped (ValueBlind.changeValue_redo fun _ _ => rfl) h
  | changeTournamentLocation a => exact fought_of_wrapped (ValueBlind.changeValue_redo fun _ _ => rfl) h
  | changeTournamentName a => exact fought_of_wrapped (ValueBlind.changeValue_redo fun _ _ => rfl) h
  | changeTournamentWebName a => exact fought_of_wrapped (ValueBlind.changeValue_redo fun _ _ => rfl) h
  | eraseDrawSystemPreferenceRow a => exact fought_of_wrapped hvalue.eraseRow_redo h
  | setTatamiCount a => exact fought_of_wrapped hlayout.setTatamiCount_redo h
  | setTatamiLocation a => exact fought_of_wrapped hlayout.setTatamiLocation_redo h
  | _ => cases hask

/-! ### Actions that discard -/

/-- Where the counters are right, an action that asks for nothing leaves the matches that have been fought. -/
theorem Action.fought_of_asks_false {a a' : Action} (hidle : a.Idle) (ht : Arranged CategoryStore.Accounted t)
    (hask : a.doesRequireConfirmation t = some (.ok false)) (hx : t.fought x ≠ none) (h : a.redoImpl t = .ok a' t') :
    t'.fought x = t.fought x := by
  refine TournamentStore.fought_congr ?_
  have hcalm : ¬ t.Calm x.categoryId := by
    intro hcalm
    refine hx ?_
    unfold TournamentStore.fought
    cases hc : t.categories x.categoryId with
    | none => rfl
    | some c =>
      rw [Option.bind_some, CategoryStore.fought, Option.bind_eq_none_iff]
      intro m hm
      exact MatchStore.fought_eq_none_of_notStarted
        ((ht.all _ c not_false hc).tallied.notStarted (hcalm c hc) m (List.mem_of_find?_eq_some hm))
  have hsame := category_of_elsewhere (Action.elsewhere_calm hidle ht hask h) hcalm
  have hlist := congrArg (Option.map fun v => v.2.1) hsame
  rw [Option.map_map, Option.map_map] at hlist
  exact hlist

/-- The action asks about every match that it discards, but for the match of its own event. -/
def Action.Warns (a : Action) (t t' : TournamentStore) : Prop :=
  ∀ x, t.Discards t' x → (∀ b, a = .matchEvent b → b.combinedId ≠ x) → a.doesRequireConfirmation t = some (.ok true)

theorem Action.warns_of_leavesFought {a a' : Action} (hidle : a.Idle) (ht : Arranged CategoryStore.Accounted t)
    (hleaves : a.LeavesFought t) (h : a.redoImpl t = .ok a' t') : a.Warns t t' := by
  rintro x ⟨hx, hlost⟩ hevent
  obtain hask | ⟨b, hask⟩ | rfl := Action.answers ht.orderly h
  · exact (hlost (fought_of_asks_none ht.orderly hleaves hask hevent hx h)).elim
  · cases b with
    | true => exact hask
    | false => exact (hlost (fought_of_asks_false hidle ht hask hx h)).elim
  · exact (hlost rfl).elim

/-! ### The action that discards without asking -/

/-- No match of the category has been fought. -/
def CategoryStore.Unfought (c : CategoryStore) : Prop := ∀ m ∈ c.matchList, m.fought = none

theorem CategoryStore.Unfought.fought (h : c.Unfought) (z : MatchId) : c.fought z = none :=
  Option.bind_eq_none_iff.2 fun m hm => h m (List.mem_of_find?_eq_some hm)

/-- The matches of a draw have not been fought. -/
theorem drawLaw_unfought : DrawLaw CategoryStore.matchList CategoryStore.Unfought where
  congr hlist h := by
    unfold CategoryStore.Unfought
    rw [hlist]
    exact h
  setLocation _ _ _ := rfl
  setName _ _ := rfl
  setRuleset _ _ := rfl
  setMatchesHidden _ _ := rfl
  init _ _ _ _ := fun _ hm => (List.not_mem_nil hm).elim
  draw ht _ h hc := by
    obtain ⟨c₀, e, ms, hdraws⟩ := DrawCategoriesAction.drawCategory_draws ht h
    obtain ⟨actions, -, hms, -⟩ := hdraws.drawn
    rw [hdraws.stored] at hc
    cases hc
    intro m hm
    rw [hdraws.matchList, hms] at hm
    obtain ⟨a, -, rfl⟩ := List.mem_map.1 hm
    cases hbye : a.bye
    · refine MatchStore.fought_eq_none_of_notStarted ?_
      show (MatchState.init a.bye).status = _
      rw [hbye]
      rfl
    · exact MatchStore.fought_eq_none_of_bye hbye

theorem changeMembers_ne_nil {id : CategoryId} {joining inside : Bool} {pids changed : List PlayerId} {pid : PlayerId}
    (hpid : pid ∈ pids) (hcandidate : membersIn id inside t pid = true)
    (h : changeMembers id inside (changeOne joining id) pids t = .ok changed t') : changed ≠ [] := by
  induction pids with
  | nil => exact (List.not_mem_nil hpid).elim
  | cons p pids ih =>
    simp only [changeMembers, bind_ok, get_ok] at h
    obtain ⟨_, _, ⟨rfl, rfl⟩, h⟩ := h
    split at h
    · obtain ⟨_, t₁, -, h⟩ := bind_ok.1 h
      obtain ⟨rest, t₂, -, h⟩ := bind_ok.1 h
      obtain ⟨rfl, -⟩ := pure_ok.1 h
      exact List.cons_ne_nil _ _
    · next hnot =>
      rcases List.mem_cons.1 hpid with rfl | hpid
      · exact (hnot hcandidate).elim
      · exact ih hpid h

/-- A category that a player joins is drawn again. -/
theorem AddPlayersToCategoryAction.unfought_redoImpl {a a' : AddPlayersToCategoryAction} {pid : PlayerId}
    (ht : Orderly t) (hid : t.categories a.categoryId ≠ none) (hpid : pid ∈ a.playerIds)
    (hcandidate : membersIn a.categoryId false t pid = true) (h : a.redoImpl t = .ok a' t') :
    t'.AllBut CategoryStore.Unfought (· ≠ a.categoryId) := by
  obtain ⟨-, -, hnone⟩ | ⟨added, t₁, -, hmembers, hrest⟩ := redoImpl_ok h
  · exact (hid hnone).elim
  · have hmembers' : changeMembers a.categoryId false
      (changeOne true a.categoryId) a.playerIds t = .ok added t₁ := hmembers
    have hadded := changeMembers_ne_nil hpid hcandidate hmembers'
    obtain ⟨hnil, -⟩ | ⟨-, r, hrun, -⟩ := hrest
    · exact (hadded (List.append_eq_nil_iff.1 hnil).2).elim
    · obtain ⟨rfl, hnodup, hcandidates⟩ := changeMembers_ok hmembers'
      have hplan := enlist_of_blind memberBlind_plan hnodup hcandidates
      have hkeys := enlist_of_blind memberBlind_keys hnodup hcandidates
      have hlinked : LinkedOff (· = a.categoryId) (t.enlist true a.categoryId added.toFinset) :=
        linkedOff_enlist ht.linked fun pid hpid => hcandidates pid (List.mem_toFinset.1 hpid)
      have hall : (t.enlist true a.categoryId added.toFinset).AllBut CategoryStore.Unfought fun _ => True :=
        fun _ _ hoff => (hoff trivial).elim
      exact (drawLaw_unfought.run (ht.sound.of_plan hplan) (ht.indexed.of_keys hkeys) hlinked hall hrun).mono
        fun _ _ hi => hi.2

namespace AddPlayersWithCategoriesAction

/-- A category that a player of the action joins has no fought match left. -/
theorem unfought_redoImpl {a a' : AddPlayersWithCategoriesAction} {p : NewPlayer} {id : CategoryId} (ht : Orderly t)
    (hp : p ∈ a.players) (hjoin : p.category = some id) (hid : t.categories id ≠ none)
    (h : a.redoImpl t = .ok a' t') : t'.AllBut CategoryStore.Unfought (· ≠ id) := by
  simp only [redoImpl, bind_ok, pure_ok] at h
  obtain ⟨b, t₁, hb, cs, t₂, hcs, ps, t₃, hps, -, rfl⟩ := h
  obtain ⟨ht₂, hsame, hadded⟩ := added_redoImpl ht hb hcs
  obtain ⟨hnew, hexists⟩ := hadded p hp
  -- the group of the category among the groups
  have hmem : (id, (a.players.filter fun q => q.category = some id).map (·.id)) ∈ categoryPlayers a.players :=
    List.mem_map.2 ⟨id, mem_inOrder.2 (List.mem_toFinset.2 (List.mem_filterMap.2 ⟨p, hp, hjoin⟩)), rfl⟩
  have hnodup : ((categoryPlayers a.players).map (·.1)).Nodup := by
    unfold categoryPlayers
    rw [List.map_map]
    exact (List.map_id _).symm ▸ nodup_inOrder _
  obtain ⟨gs, gs', hsplit⟩ := List.append_of_mem hmem
  rw [hsplit, List.map_append, List.map_cons] at hnodup
  rw [hsplit] at hps
  obtain ⟨as, as', u, hgs, hrest, -⟩ := forEach_append_ok.1 hps
  obtain ⟨d, u', as'', hd, hgs', -⟩ := forEach_cons_ok.1 hrest
  obtain ⟨hu, hplayers, hcategories⟩ :=
    AutoAddCategoriesAction.addPlayers_orderly (k := fun c => c) profileSight_unit ht₂ hgs
  have hbefore : id ∉ gs.map (·.1) := fun hin =>
    (List.nodup_append.1 hnodup).2.2 id hin id List.mem_cons_self rfl
  have hafter : id ∉ gs'.map (·.1) := (List.nodup_cons.1 (List.nodup_append.1 hnodup).2.1).1
  obtain ⟨c, hc⟩ := Option.ne_none_iff_exists'.1 hid
  have hcu : u.categories id = some c := by
    have hmap := hcategories id hbefore
    rw [Option.map_id', Option.map_id'] at hmap
    rw [hmap, hsame id hid, hc]
  have hcandidate : membersIn id false u p.id = true := by
    unfold membersIn
    cases hq : u.players p.id with
    | none =>
      have hmap := hplayers p.id
      rw [hq, Option.map_none, eq_comm, Option.map_eq_none_iff] at hmap
      exact (hexists hmap).elim
    | some q =>
      have hnot : id ∉ q.categories := by
        intro hin
        obtain ⟨e, he, hmember⟩ := (hu.linked.member id p.id q hq).1 hin
        cases hcu.symm.trans he
        exact ht.linked.members_exist id c p.id hc hmember hnew
      simp [hnot]
  have hu' := AddPlayersToCategoryAction.unfought_redoImpl hu (by rw [hcu]; exact Option.some_ne_none _)
    (List.mem_map.2 ⟨p, List.mem_filter.2 ⟨hp, decide_eq_true hjoin⟩, rfl⟩) hcandidate hd
  have hlast := (AutoAddCategoriesAction.addPlayers_orderly (k := CategoryStore.matchList) profileSight_unit
    (AddPlayersToCategoryAction.restorable profileSight_unit boutSight_ties rfl rfl hu hd).1 hgs').2.2 id hafter
  refine drawLaw_unfought.of_map hu' fun cid hcid => ⟨hcid, ?_⟩
  rwa [not_not.1 hcid]

end AddPlayersWithCategoriesAction

theorem Action.leavesFought_of_warns {a a' : Action} (ht : Orderly t) (hwarns : a.Warns t t')
    (h : a.redoImpl t = .ok a' t') : a.LeavesFought t := by
  cases a with
  | addPlayersWithCategories a =>
    intro p hp id hid y
    by_contra hfought
    have hsome : t.categories id ≠ none := fun hc => TournamentStore.ne_of_fought hc hfought rfl
    obtain ⟨b, hb, -⟩ := map_ok.1 h
    have hall := AddPlayersWithCategoriesAction.unfought_redoImpl ht hp hid hsome hb
    have hnone : t'.fought ⟨id, y⟩ = none := by
      unfold TournamentStore.fought
      cases hc : t'.categories id with
      | none => rfl
      | some c => exact (hall id c (not_not.2 rfl) hc).fought y
    have hask := hwarns ⟨id, y⟩ ⟨hfought, by rw [hnone]; exact Ne.symm hfought⟩ (by rintro b ⟨⟩)
    cases hask
  | _ => trivial

end

/-! ### Sessions -/

/-- In every session that resets no bye that is underway, an action asks about every fought match that it discards
exactly where its players join no category of which a match has been fought. -/
theorem Session.warns_iff (s : Session) (hs : ReachableBy Careful s) (a a' : Action) (t' : TournamentStore)
    (hold : a.isFresh = true ∨ a ∈ s.undone) (h : a.redoImpl s.tournament = .ok a' t') :
    a.Warns s.tournament t' ↔ a.LeavesFought s.tournament := by
  have ht := arranged_of_reachableBy hs
  have hidle : a.Idle := hold.elim Action.idle_of_isFresh ((tallyDiscipline.sound_of_reachableBy hs).idle a)
  exact ⟨fun hwarns => Action.leavesFought_of_warns ht.orderly hwarns h,
    fun hleaves => Action.warns_of_leavesFought hidle ht hleaves h⟩

/-- Two players are drawn, and white wins their first match. -/
def matchFought : List Session.Event :=
  [.redo (.addPlayers ⟨[(⟨1⟩, {}), (⟨2⟩, {})]⟩),
    .redo (.addCategoryWithPlayers
      { id := ⟨1⟩, name := "", ruleset := .twentyEighteen, drawSystem := .bestOfThree,
        playerIds := [⟨1⟩, ⟨2⟩], seed := 0 }),
    DoublePoolDrawSystem.fight ⟨2357136044⟩ (.awardIppon .white 0 false)]

/-- A new player who joins the category. -/
def latecomer : AddPlayersWithCategoriesAction := { players := [⟨⟨3⟩, {}, some ⟨1⟩⟩], newCategories := [], seed := 0 }

theorem Session.warns_iff_matchFought : ∃ (s : Session) (a' : Action) (t' : TournamentStore),
    Runs.run next matchFought {} = some s ∧
    (Action.eraseCategories { categoryIds := [⟨1⟩] }).redoImpl s.tournament = .ok a' t' ∧
    (Action.eraseCategories { categoryIds := [⟨1⟩] }).Warns s.tournament t' := by
  have hrun : ((Runs.run next matchFought {}).bind fun s =>
      (s.next (.redo (.eraseCategories { categoryIds := [⟨1⟩] }))).map (·.done.length)) = some 4 := by decide +kernel
  obtain ⟨s, hs, hnext⟩ := Option.bind_eq_some_iff.1 hrun
  obtain ⟨s', hs', -⟩ := Option.map_eq_some_iff.1 hnext
  have hperform : perform s.tournament (.eraseCategories { categoryIds := [⟨1⟩] }) s.done s.undone = .ok s' :=
    next_eq_some.1 hs'
  obtain ⟨a', t', hredo, -⟩ := perform_ok.1 hperform
  have hcareful : ReachableBy Careful s := careful_of_new
    (by simp [matchFought, DoublePoolDrawSystem.fight, Event.Constructed, Action.Constructed]) (by decide +kernel) hs
  exact ⟨s, a', t', hs, hredo, (warns_iff s hcareful _ a' t' (.inl rfl) hredo).2 trivial⟩

/-- The match that has been won is erased, and nobody is asked. -/
theorem Session.not_warns_latecomer : ∃ (s : Session) (a' : Action) (t' : TournamentStore),
    Runs.run next matchFought {} = some s ∧ (Action.addPlayersWithCategories latecomer).isFresh = true ∧
    (Action.addPlayersWithCategories latecomer).redoImpl s.tournament = .ok a' t' ∧
    s.tournament.Discards t' ⟨⟨1⟩, ⟨2357136044⟩⟩ ∧
    (Action.addPlayersWithCategories latecomer).doesRequireConfirmation s.tournament = none ∧
    ¬ (Action.addPlayersWithCategories latecomer).Warns s.tournament t' := by
  have hrun : ((Runs.run next matchFought {}).bind fun s =>
      (s.next (.redo (.addPlayersWithCategories latecomer))).map fun s' =>
        decide (s.tournament.Discards s'.tournament ⟨⟨1⟩, ⟨2357136044⟩⟩)) = some true := by decide +kernel
  obtain ⟨s, hs, hnext⟩ := Option.bind_eq_some_iff.1 hrun
  obtain ⟨s', hs', hdiscards⟩ := Option.map_eq_some_iff.1 hnext
  have hperform : perform s.tournament (.addPlayersWithCategories latecomer) s.done s.undone = .ok s' :=
    next_eq_some.1 hs'
  obtain ⟨a', t', hredo, rfl⟩ := perform_ok.1 hperform
  have hdiscards := of_decide_eq_true hdiscards
  refine ⟨s, a', t', hs, rfl, hredo, hdiscards, rfl, fun hwarns => ?_⟩
  cases hwarns _ hdiscards (by rintro b ⟨⟩)

/-- Where a bye that was underway is reset, the next match that is won makes it none, and takes it from the counter of
the finished matches that only counts the match that is won.  The category is erased, and nobody is asked. -/
theorem Session.not_warns_byeReset : ∃ (s : Session) (a' : Action) (t' : TournamentStore),
    Runs.run next (byeReset ++ [DoublePoolDrawSystem.fight ⟨2357136044⟩ (.awardIppon .white 0 false)]) {} = some s ∧
    (Action.eraseCategories { categoryIds := [⟨1⟩] }).redoImpl s.tournament = .ok a' t' ∧
    s.tournament.Discards t' ⟨⟨1⟩, ⟨2357136044⟩⟩ ∧
    (Action.eraseCategories { categoryIds := [⟨1⟩] }).doesRequireConfirmation s.tournament = some (.ok false) := by
  have hrun : ((Runs.run next
      (byeReset ++ [DoublePoolDrawSystem.fight ⟨2357136044⟩ (.awardIppon .white 0 false)]) {}).bind fun s =>
      (s.next (.redo (.eraseCategories { categoryIds := [⟨1⟩] }))).map fun s' =>
        (decide (s.tournament.Discards s'.tournament ⟨⟨1⟩, ⟨2357136044⟩⟩),
          (Action.eraseCategories { categoryIds := [⟨1⟩] }).doesRequireConfirmation s.tournament)) =
      some (true, some (.ok false)) := by decide +kernel
  obtain ⟨s, hs, hnext⟩ := Option.bind_eq_some_iff.1 hrun
  obtain ⟨s', hs', hpair⟩ := Option.map_eq_some_iff.1 hnext
  obtain ⟨hdiscards, hask⟩ := Prod.mk.inj hpair
  have hperform : perform s.tournament (.eraseCategories { categoryIds := [⟨1⟩] }) s.done s.undone = .ok s' :=
    next_eq_some.1 hs'
  obtain ⟨a', t', hredo, rfl⟩ := perform_ok.1 hperform
  exact ⟨s, a', t', hs, hredo, of_decide_eq_true hdiscards, hask⟩

end JudoAssistant
