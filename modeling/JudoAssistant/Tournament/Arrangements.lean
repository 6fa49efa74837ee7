import JudoAssistant.Tournament.LinkRuns

/-!
# What every draw establishes

A property of single categories that a draw establishes, and that a new category has, is kept by all the actions that
add, erase, move, enrol and draw.  A category whose players have changed is off until it is drawn again.
-/

namespace JudoAssistant

open Effect Exec TournamentStore

section

variable {β γ : Type} {k : CategoryStore → β} {Q : CategoryStore → Prop} {off off' : CategoryId → Prop}
  {t t' : TournamentStore}

/-- The categories but for those in `off` have the property. -/
def TournamentStore.AllBut (Q : CategoryStore → Prop) (off : CategoryId → Prop) (t : TournamentStore) : Prop :=
  ∀ cid c, ¬ off cid → t.categories cid = some c → Q c

abbrev TournamentStore.All (Q : CategoryStore → Prop) (t : TournamentStore) : Prop := t.AllBut Q fun _ => False

/-- The property depends on what is seen of a category, new categories have it, and a draw establishes it. -/
structure DrawLaw (k : CategoryStore → β) (Q : CategoryStore → Prop) : Prop where
  congr : ∀ {c e : CategoryStore}, k e = k c → Q c → Q e
  setLocation : ∀ (c : CategoryStore) (type : MatchType) (l : Option BlockLocation), k (c.setLocation type l) = k c
  setName : ∀ (c : CategoryStore) (name : String), k (c.setName name) = k c
  setRuleset : ∀ (c : CategoryStore) (ruleset : RulesetIdentifier), k (c.setRuleset ruleset) = k c
  setMatchesHidden : ∀ (c : CategoryStore) (hidden : Bool), k (c.setMatchesHidden hidden) = k c
  init : ∀ (id : CategoryId) (name : String) (ruleset : RulesetIdentifier) (kind : DrawSystemIdentifier),
    Q (.init id name ruleset (DrawSystem.getDrawSystem kind))
  draw : ∀ {off : CategoryId → Prop} {t t' : TournamentStore} {seed : ℕ} {id : CategoryId} {d : DrawnCategory}
    {c : CategoryStore}, t.Indexed → LinkedOff off t → DrawCategoriesAction.drawCategory seed id t = .ok d t' →
    t'.categories id = some c → Q c

theorem TournamentStore.AllBut.mono (h : t.AllBut Q off)
    (hsub : ∀ cid, t.categories cid ≠ none → off cid → off' cid) :
    t.AllBut Q off' :=
  fun cid c hcid hc => h cid c (fun hoff => hcid (hsub cid (by simp [hc]) hoff)) hc

/-- One category is written. -/
theorem TournamentStore.AllBut.put {id : CategoryId} {c : CategoryStore} (h : t.AllBut Q off)
    (hc : t'.categories id = some c) (hother : ∀ cid, cid ≠ id →
      t'.categories cid = t.categories cid) (hQ : Q c) :
    t'.AllBut Q off := by
  intro cid e hcid he
  by_cases heq : cid = id
  · rw [heq, hc] at he
    cases he
    exact hQ
  · rw [hother cid heq] at he
    exact h cid e hcid he

/-- What is seen of the categories. -/
def TournamentStore.seen (k : CategoryStore → β) : TournamentStore →
    (PlayerId → Option Unit) × (CategoryId → Option β) :=
  project (fun _ => ()) k

namespace DrawLaw

variable (hlaw : DrawLaw k Q)

include hlaw

theorem of_map (h : t.AllBut Q off) (hsame : ∀ cid, ¬ off' cid → ¬ off cid ∧
    (t'.categories cid).map k = (t.categories cid).map k) : t'.AllBut Q off' := by
  intro cid e hcid he
  obtain ⟨hoff, hmap⟩ := hsame cid hcid
  rw [he, Option.map_some, eq_comm, Option.map_eq_some_iff] at hmap
  obtain ⟨c, hc, hmap⟩ := hmap
  exact hlaw.congr hmap.symm (h cid c hoff hc)

theorem of_seen (h : t.AllBut Q off) (hseen : t'.seen k = t.seen k) : t'.AllBut Q off :=
  hlaw.of_map h fun cid hcid => ⟨hcid, categories_of_project hseen cid⟩

/-- Only what is off has changed. -/
theorem of_elsewhere {S : CategoryId → Prop} [DecidablePred S] (h : t.AllBut Q off) (hS : ∀ i, S i → off i)
    (hother : elsewhere k S t' = elsewhere k S t) : t'.AllBut Q off :=
  hlaw.of_map h fun cid hcid => ⟨hcid, category_of_elsewhere hother fun hin => hcid (hS cid hin)⟩

theorem layoutBlind : LayoutBlind (seen k) := layoutBlind_project hlaw.setLocation

theorem labelBlind : LabelBlind (seen k) := labelBlind_project hlaw.setName hlaw.setRuleset hlaw.setMatchesHidden

omit hlaw in
theorem fieldBlind : FieldBlind (seen k) := fieldBlind_project fun _ _ => rfl

/-! ### Drawing again -/

theorem drawCategory {seed : ℕ} {id : CategoryId} {d : DrawnCategory} (ht : t.Indexed) (hlinked : LinkedOff off' t)
    (hall : t.AllBut Q off) (h : DrawCategoriesAction.drawCategory seed id t = .ok d t') :
    t'.AllBut Q fun i => off i ∧ i ≠ id := by
  obtain ⟨c, c', ms, hdraws⟩ := DrawCategoriesAction.drawCategory_draws ht h
  intro cid e hoff he
  by_cases hcid : cid = id
  · subst hcid
    exact hlaw.draw ht hlinked h he
  · rw [hdraws.tournament] at he
    change Function.update t.categories id (some c') cid = some e at he
    rw [Function.update_of_ne hcid] at he
    exact hall cid e (fun hin => hoff ⟨hin, hcid⟩) he

theorem drawAll {seed : ℕ} {ids : List CategoryId} {ds : List DrawnCategory} (ht : Intact t)
    (hlinked : LinkedOff off' t) (hall : t.AllBut Q off)
    (h : forEach (DrawCategoriesAction.drawCategory seed) ids t = .ok ds t') :
    t'.AllBut Q fun i => off i ∧ i ∉ ids := by
  induction ids generalizing t ds off off' with
  | nil =>
    obtain ⟨-, rfl⟩ := forEach_nil_ok.1 h
    exact hall.mono fun i _ hi => ⟨hi, List.not_mem_nil⟩
  | cons id ids ih =>
    obtain ⟨d, t₁, ds', hd, hds, -⟩ := forEach_cons_ok.1 h
    obtain ⟨ht₁, hlinked₁, -⟩ := DrawCategoriesAction.drawCategory_recovers boutSight_ties ht hlinked hd
    refine (ih ht₁ hlinked₁ (hlaw.drawCategory ht.indexed hlinked hall hd) hds).mono fun i _ hi => ⟨hi.1.1, ?_⟩
    rw [List.mem_cons, not_or]
    exact ⟨hi.1.2, hi.2⟩

theorem drawCategories {a a' : DrawCategoriesAction} (ht : Intact t) (hlinked : LinkedOff off' t)
    (hall : t.AllBut Q off) (h : a.redoImpl t = .ok a' t') : t'.AllBut Q fun i => off i ∧ i ∉ a.categoryIds := by
  have hmembers : members (fun _ => ()) t' = members (fun _ => ()) t :=
    DrawCategoriesAction.frame_redoImpl (matchBlind_members profileSight_unit) drawSystemBlind_members h
  simp only [DrawCategoriesAction.redoImpl, bind_ok, read_ok, pure_ok, Except.ok.injEq] at h
  obtain ⟨_, _, ⟨rfl, rfl⟩, ds, t₁, hds, _, _, hrecompute, rfl, rfl⟩ := h
  obtain ⟨tatamis, rfl⟩ := DrawCategoriesAction.recomputeGroups_ok hrecompute
  have hall₁ : TournamentStore.AllBut Q _ ({ t₁ with tatamis := tatamis } : TournamentStore) :=
    hlaw.of_seen (hlaw.drawAll ht hlinked hall hds) rfl
  refine hall₁.mono fun i hi hoff => ⟨hoff.1, fun hmem => hoff.2 (List.mem_filter.2 ⟨hmem, ?_⟩)⟩
  obtain ⟨c, hc⟩ := Option.ne_none_iff_exists'.1 hi
  obtain ⟨e, he, -⟩ := category_of_members hmembers.symm hc
  unfold TournamentStore.containsCategory
  rw [he]
  rfl

/-- The categories whose draw system is replaced are off until they are drawn. -/
theorem changeDrawSystems {drawSystem : DrawSystem} {ids : List CategoryId} {ps : List (CategoryId × DrawSystem)}
    (hall : t.AllBut Q off) (hoff : ∀ i ∈ ids, off i)
    (h : forEach (ChangeCategoriesDrawSystemAction.changeDrawSystem drawSystem) ids t = .ok ps t') : t'.AllBut Q off :=
  hlaw.of_elsewhere (S := (· ∈ ids)) hall hoff (frame_forEach (fun _ hi => frame_getCategory.bind fun _ =>
    (frame_editCategory_elsewhere hi).bind fun _ => Frame.pure) h)

theorem changeCategoriesDrawSystem {a a' : ChangeCategoriesDrawSystemAction} (ht : LayoutSound t) (hindexed : t.Indexed)
    (hlinked : LinkedOff off' t) (hall : t.AllBut Q off) (h : a.redoImpl t = .ok a' t') :
    t'.AllBut Q fun i => off i ∧ i ∉ a.getCategoriesThatChange t := by
  obtain ⟨as, t₁, old, t₂, drawAction, has, hold, hdraw, -⟩ := ChangeCategoriesDrawSystemAction.redoImpl_ok h
  have hlinks : t₁.links = t.links := layoutBlind_links.removeFinals _ _ has
  have ht₁ : Intact t₁ := ⟨(ChangeCategoriesDrawSystemAction.removeFinals_sound ht has).1.placed,
    hindexed.of_keys (layoutBlind_keys.removeFinals _ _ has)⟩
  obtain ⟨ht₂, hlinked₂, -⟩ :=
    ChangeCategoriesDrawSystemAction.changeDrawSystems_recovers boutSight_ties ht₁ (hlinked.of_links hlinks) hold
  have hall₁ : t₁.AllBut Q fun i => off i ∨ i ∈ a.getCategoriesThatChange t :=
    (hlaw.of_seen hall (hlaw.layoutBlind.removeFinals _ _ has)).mono fun i _ hi => .inl hi
  have hall₂ := hlaw.changeDrawSystems hall₁ (fun i hi => .inr hi) hold
  refine (hlaw.drawCategories ht₂ hlinked₂ hall₂ hdraw).mono fun i _ hi => ⟨?_, hi.2⟩
  exact hi.1.resolve_right hi.2

/-- A category whose players have changed is drawn again. -/
theorem run {id : CategoryId} {seed : ℕ} {r : RedrawAction} (ht : LayoutSound t) (hindexed : t.Indexed)
    (hlinked : LinkedOff off' t) (hall : t.AllBut Q off) (h : RedrawAction.run id seed t = .ok r t') :
    t'.AllBut Q fun i => off i ∧ i ≠ id := by
  have hkeys : ∀ {i}, t'.categories i ≠ none → t.categories i ≠ none := by
    intro i hi
    obtain ⟨c, hc⟩ := Option.ne_none_iff_exists'.1 hi
    have hmembers :=
      RedrawAction.frame_run (matchBlind_members profileSight_unit) drawSystemBlind_members layoutBlind_members h
    obtain ⟨e, he, -⟩ := category_of_members hmembers.symm hc
    simp [he]
  obtain ⟨b, hb, -⟩ | ⟨kind, b, hother, hb, -⟩ := RedrawAction.run_ok h
  · refine (hlaw.drawCategories ⟨ht.placed, hindexed⟩ hlinked hall hb).mono fun i _ hi => ⟨hi.1, ?_⟩
    rintro rfl
    exact hi.2 (List.mem_singleton_self i)
  · refine (hlaw.changeCategoriesDrawSystem ht hindexed hlinked hall hb).mono fun i hi hoff => ⟨hoff.1, ?_⟩
    rintro rfl
    refine hoff.2 ?_
    obtain ⟨c, hc⟩ := Option.ne_none_iff_exists'.1 (hkeys hi)
    refine List.mem_filter.2 ⟨List.mem_singleton_self _, ?_⟩
    rw [hc]
    exact decide_eq_true (hother c hc)

end DrawLaw

/-! ### Actions -/

/-- The actions that write the matches themselves. -/
def Action.contests : Action → Bool
  | .changeCategoriesRuleset _ | .changePlayersWeight _ | .matchEvent _ | .resetMatches _ => true
  | _ => false

/-- A tournament in order whose categories have the property. -/
structure Arranged (Q : CategoryStore → Prop) (t : TournamentStore) : Prop where
  orderly : Orderly t
  all : t.All Q

/-- The computation keeps the order and the property. -/
abbrev Arranges (Q : CategoryStore → Prop) (x : Exec γ) : Prop := Keeps (Arranged Q) x fun _ => True

/-- The computation keeps the property of a tournament that is in order. -/
def Maintains (Q : CategoryStore → Prop) (x : Exec γ) : Prop :=
  ∀ ⦃t a t'⦄, Arranged Q t → x t = .ok a t' → t'.All Q

theorem Maintains.of_arranges {x : Exec γ} (hx : Arranges Q x) : Maintains Q x := fun _ _ _ ht ha => (hx ht ha).1.all

theorem Maintains.wrap {x : Exec γ} {wrap : γ → Action} (hx : Maintains Q x) : Maintains Q (wrap <$> x) := by
  intro t a t' ht ha
  obtain ⟨b, hb, -⟩ := map_ok.1 ha
  exact hx ht hb

theorem Maintains.arranges {δ : Type} {x : Exec γ} {undo : γ → Exec δ} {P : δ → Prop} (hx : Maintains Q x)
    (hrestorable : RegisterRestorable (fun _ => ()) CategoryStore.ties x undo P) : Arranges Q x :=
  fun _ _ _ ht ha => ⟨⟨(hrestorable ht.orderly ha).1, hx ht ha⟩, trivial⟩

namespace DrawLaw

variable (hlaw : DrawLaw k Q)

include hlaw

theorem maintains_of_frame {x : Exec γ} (hx : Frame (seen k) x) : Maintains Q x :=
  fun _ _ _ ht ha => hlaw.of_seen ht.all (hx ha)

/-- Where players join or leave a category, it is off until it is drawn. -/
theorem redraw {joining : Bool} {id : CategoryId} {seed : ℕ} {changed : List PlayerId} {r : RedrawAction}
    (ht : Arranged Q t) (hnodup : changed.Nodup) (hcandidates : ∀ pid ∈ changed, t.Candidate joining id pid)
    (hrun : RedrawAction.run id seed (t.enlist joining id changed.toFinset) = .ok r t') : t'.All Q := by
  have hplan := enlist_of_blind memberBlind_plan hnodup hcandidates
  have hkeys := enlist_of_blind memberBlind_keys hnodup hcandidates
  have hlinked : LinkedOff (· = id) (t.enlist joining id changed.toFinset) :=
    linkedOff_enlist ht.orderly.linked fun pid hpid => hcandidates pid (List.mem_toFinset.1 hpid)
  have hall : (t.enlist joining id changed.toFinset).AllBut Q (· = id) :=
    hlaw.of_map ht.all fun cid hcid => ⟨not_false, by rw [categories_enlist_of_ne hcid]⟩
  exact (hlaw.run (ht.orderly.sound.of_plan hplan) (ht.orderly.indexed.of_keys hkeys) hlinked hall hrun).mono
    fun _ _ hi => hi.2 hi.1

theorem addPlayersToCategory {a : AddPlayersToCategoryAction} (hadded : a.addedPlayerIds = [])
    (hdraw : a.drawAction = none) : Arranges Q a.redoImpl := by
  refine Maintains.arranges (fun t a' t' ht hredo => ?_)
    (AddPlayersToCategoryAction.restorable profileSight_unit boutSight_ties hadded hdraw)
  obtain ⟨rfl, rfl, -⟩ | ⟨added, t₁, -, hmembers, hrest⟩ := AddPlayersToCategoryAction.redoImpl_ok hredo
  · exact ht.all
  · have hmembers' : changeMembers a.categoryId false
      (changeOne true a.categoryId) a.playerIds t = .ok added t₁ := hmembers
    obtain ⟨rfl, hnodup, hcandidates⟩ := changeMembers_ok hmembers'
    rw [hadded, List.nil_append] at hrest
    obtain ⟨rfl, rfl, rfl⟩ | ⟨-, r, hrun, rfl⟩ := hrest
    · rw [List.toFinset_nil, enlist_empty]
      exact ht.all
    · exact hlaw.redraw ht hnodup hcandidates hrun

theorem erasePlayersFromCategory {a : ErasePlayersFromCategoryAction} (herased : a.erasedPlayerIds = [])
    (hdraw : a.drawAction = none) : Arranges Q a.redoImpl := by
  refine Maintains.arranges (fun t a' t' ht hredo => ?_)
    (ErasePlayersFromCategoryAction.restorable profileSight_unit boutSight_ties herased hdraw)
  obtain ⟨rfl, rfl, -⟩ | ⟨erased, t₁, -, hmembers, hrest⟩ := ErasePlayersFromCategoryAction.redoImpl_ok hredo
  · exact ht.all
  · have hmembers' : changeMembers a.categoryId true
      (changeOne false a.categoryId) a.playerIds t = .ok erased t₁ := hmembers
    obtain ⟨rfl, hnodup, hcandidates⟩ := changeMembers_ok hmembers'
    rw [herased, List.nil_append] at hrest
    obtain ⟨rfl, rfl, rfl⟩ | ⟨-, r, hrun, rfl⟩ := hrest
    · rw [List.toFinset_nil, enlist_empty]
      exact ht.all
    · exact hlaw.redraw ht hnodup hcandidates hrun

theorem eraseFromCategories (playerIds : List PlayerId) (seed : ℕ) (ids : List CategoryId) :
    Arranges Q (JudoAssistant.eraseFromCategories playerIds seed ids) :=
  (keeps_forEach_unit fun _ _ => hlaw.erasePlayersFromCategory rfl rfl).bind fun _ _ => .pure trivial

theorem found (ht : t.All Q) (id : CategoryId) (name : String) (ruleset : RulesetIdentifier)
    (kind : DrawSystemIdentifier) :
    (t.setCategory id (.init id name ruleset (DrawSystem.getDrawSystem kind))).All Q :=
  ht.put (categories_setCategory_self _ _ _) (fun _ hcid => Function.update_of_ne hcid _ _)
    (hlaw.init id name ruleset kind)

theorem addCategory (a : AddCategoryAction) : Arranges Q a.redoImpl := by
  refine Maintains.arranges (fun t a' t' ht hredo => ?_) a.restorable
  obtain ⟨rfl, -, rfl⟩ := AddCategoryAction.redoImpl_ok hredo
  exact hlaw.found ht.all _ _ _ _

theorem addPlayers (a : AddPlayersAction) : Arranges Q a.redoImpl := by
  refine Maintains.arranges (fun t a' t' ht hredo => ?_) a.restorable
  obtain ⟨rfl, hadded⟩ := AddPlayersAction.redoImpl_ok hredo
  exact hlaw.of_map ht.all fun cid hcid => ⟨hcid, by rw [hadded.categories]⟩

theorem addCategoryWithPlayers (a : AddCategoryWithPlayersAction) : Arranges Q a.redoImpl := by
  refine (hlaw.addCategory _).bind fun b _ => Keeps.bind (P := fun _ => True) ?_ fun _ _ => .pure trivial
  unfold AddCategoryWithPlayersAction.addPlayers
  split
  · exact .pure trivial
  · exact (hlaw.addPlayersToCategory rfl rfl).bind fun _ _ => .pure trivial

theorem addPlayersWithCategories (a : AddPlayersWithCategoriesAction) : Arranges Q a.redoImpl :=
  (hlaw.addPlayers _).bind fun _ _ =>
    (keeps_forEach_unit fun _ _ => hlaw.addCategory _).bind fun _ _ =>
      (keeps_forEach_unit fun _ _ => hlaw.addPlayersToCategory rfl rfl).bind fun _ _ => .pure trivial

theorem autoAddCategories (a : AutoAddCategoriesAction) : Maintains Q a.redoImpl := by
  intro t a' t' ht h
  obtain ⟨s, s', hget, hrest⟩ := bind_ok.1 h
  obtain ⟨hs, hs'⟩ := get_ok.1 hget
  rw [hs, hs'] at hrest
  split at hrest
  · exact (throw_ok.1 hrest).elim
  · obtain ⟨us, t₁, hus, hrest⟩ := bind_ok.1 hrest
    obtain ⟨as, t₂, has, hrest⟩ := bind_ok.1 hrest
    obtain ⟨rfl, rfl⟩ := pure_ok.1 hrest
    obtain ⟨hsound₁, -⟩ := AutoAddCategoriesAction.addGroups_spec ht.orderly.sound hus
    obtain ⟨ht₁, -⟩ := AutoAddCategoriesAction.addGroups_linked ⟨ht.orderly.linked, ht.orderly.indexed⟩ hus
    have hall₁ : t₁.All Q := by
      refine (keeps_forEach_unit (fun g _ => ?_) ht.all hus).1
      refine keeps_read.bind fun kind _ t u t' ht hadd => ⟨?_, trivial⟩
      obtain ⟨-, rfl⟩ := addCategory_ok.1 hadd
      exact hlaw.found ht _ _ _ _
    exact (keeps_forEach_unit (fun g _ => hlaw.addPlayersToCategory rfl rfl)
      ⟨⟨hsound₁, ht₁.indexed, ht₁.linked⟩, hall₁⟩ has).1.all

omit hlaw in
theorem eraseCategories (a : EraseCategoriesAction) : Maintains Q a.redoImpl := by
  intro t a' t' ht h cid c hcid hc
  obtain ⟨-, -, hcategories⟩ :=
    EraseCategoriesAction.linked_redoImpl profileSight_unit ht.orderly.linked ht.orderly.indexed h
  rw [hcategories] at hc
  split at hc
  · cases hc
  · exact ht.all cid c hcid hc

theorem erasePlayers (a : ErasePlayersAction) : Maintains Q a.redoImpl := by
  intro t a' t' ht h
  simp only [ErasePlayersAction.redoImpl, bind_ok, get_ok, pure_ok] at h
  obtain ⟨s, s', hs, as, t₁, has, ps, t₂, hps, rfl, rfl⟩ := h
  rw [hs.2] at has
  obtain ⟨ht₁, -⟩ := hlaw.eraseFromCategories _ _ _ ht has
  obtain ⟨hadded, -⟩ := JudoAssistant.eraseAll_ok ht₁.orderly.indexed hps
  exact hlaw.of_map ht₁.all fun cid hcid => ⟨hcid, by rw [hadded.categories]⟩

theorem erasePlayersFromAllCategories (a : ErasePlayersFromAllCategoriesAction) : Arranges Q a.redoImpl :=
  Keeps.get.bind fun _ _ => (hlaw.eraseFromCategories _ _ _).bind fun _ _ => .pure trivial

theorem changePlayersBlueJudogiHint (a : ChangePlayersBlueJudogiHintAction) : Maintains Q a.redoImpl := by
  intro t a' t' ht h
  simp only [ChangePlayersBlueJudogiHintAction.redoImpl, bind_ok, read_ok, pure_ok, Except.ok.injEq] at h
  obtain ⟨changed, t₁, hchange, ids, _, ⟨rfl, rfl⟩, drawAction, _, hdraw, rfl, rfl⟩ := h
  have hlinks := frame_changeField fieldBlind_links _ hchange
  have hall₁ : t₁.All Q := hlaw.of_seen ht.all (frame_changeField fieldBlind _ hchange)
  unfold ChangePlayersBlueJudogiHintAction.drawAll at hdraw
  split at hdraw
  · obtain ⟨rfl, rfl⟩ := pure_ok.1 hdraw
    exact hall₁
  · simp only [bind_ok, pure_ok] at hdraw
    obtain ⟨b, t', hb, rfl, rfl⟩ := hdraw
    have ht₁ : Intact t₁ := ⟨ht.orderly.sound.placed.of_plan (frame_changeField fieldBlind_plan _ hchange),
      ht.orderly.indexed.of_keys (frame_changeField fieldBlind_keys _ hchange)⟩
    exact (hlaw.drawCategories ht₁ (ht.orderly.linked.of_links hlinks) hall₁ hb).mono fun _ _ hi => hi.1

/-- Every action that leaves the contests alone keeps the property. -/
theorem maintains {a : Action} (hidle : a.Idle) (ha : a.contests = false) : Maintains Q a.redoImpl := by
  have hvalue : ValueBlind (seen k) := valueBlind_project
  have hplayers : ∀ {κ : Type} [DecidableEq κ] (field : PlayerField κ) (a : ChangePlayersAction κ),
      Maintains Q (a.redoImpl field) := fun field a =>
    hlaw.maintains_of_frame ((frame_changeField fieldBlind _).bind fun _ => Frame.pure)
  cases a with
  | addCategory a => exact (Maintains.of_arranges (hlaw.addCategory a)).wrap
  | addCategoryWithPlayers a => exact (Maintains.of_arranges (hlaw.addCategoryWithPlayers a)).wrap
  | addDrawSystemPreferenceRow a => exact (hlaw.maintains_of_frame hvalue.addRow_redo).wrap
  | addPlayers a => exact (Maintains.of_arranges (hlaw.addPlayers a)).wrap
  | addPlayersToCategory a => exact (Maintains.of_arranges (hlaw.addPlayersToCategory hidle.1 hidle.2)).wrap
  | addPlayersWithCategories a => exact (Maintains.of_arranges (hlaw.addPlayersWithCategories a)).wrap
  | autoAddCategories a => exact (hlaw.autoAddCategories a).wrap
  | changeCategoriesDrawSystem a =>
    refine Maintains.wrap fun t b t' ht h => ?_
    exact (hlaw.changeCategoriesDrawSystem ht.orderly.sound ht.orderly.indexed ht.orderly.linked ht.all h).mono
      fun _ _ hi => hi.1
  | changeCategoriesName a => exact (hlaw.maintains_of_frame hlaw.labelBlind.changeName_redo).wrap
  | changeDrawSystemPreferenceIdentifier a =>
    exact (hlaw.maintains_of_frame (hvalue.editPreferences.bind fun _ => Frame.pure)).wrap
  | changeDrawSystemPreferenceLimit a => exact (hlaw.maintains_of_frame hvalue.changeLimit_redo).wrap
  | changeMatchCardStylePreference a =>
    exact (hlaw.maintains_of_frame (ValueBlind.changeValue_redo fun _ _ => rfl)).wrap
  | changePlayersAge a => exact (hplayers ageField a).wrap
  | changePlayersBlueJudogiHint a => exact (hlaw.changePlayersBlueJudogiHint a).wrap
  | changePlayersClub a => exact (hplayers clubField a).wrap
  | changePlayersCountry a => exact (hplayers countryField a).wrap
  | changePlayersFirstName a => exact (hplayers firstNameField a).wrap
  | changePlayersLastName a => exact (hplayers lastNameField a).wrap
  | changePlayersRank a => exact (hplayers rankField a).wrap
  | changePlayersSex a => exact (hplayers sexField a).wrap
  | changeScoreboardStylePreference a =>
    exact (hlaw.maintains_of_frame (ValueBlind.changeValue_redo fun _ _ => rfl)).wrap
  | changeTournamentDate a => exact (hlaw.maintains_of_frame (ValueBlind.changeValue_redo fun _ _ => rfl)).wrap
  | changeTournamentLocation a => exact (hlaw.maintains_of_frame (ValueBlind.changeValue_redo fun _ _ => rfl)).wrap
  | changeTournamentName a => exact (hlaw.maintains_of_frame (ValueBlind.changeValue_redo fun _ _ => rfl)).wrap
  | changeTournamentWebName a => exact (hlaw.maintains_of_frame (ValueBlind.changeValue_redo fun _ _ => rfl)).wrap
  | drawCategories a =>
    refine Maintains.wrap fun t b t' ht h => ?_
    exact (hlaw.drawCategories ht.orderly.intact ht.orderly.linked ht.all h).mono fun _ _ hi => hi.1
  | eraseCategories a => exact (eraseCategories a).wrap
  | eraseDrawSystemPreferenceRow a => exact (hlaw.maintains_of_frame hvalue.eraseRow_redo).wrap
  | erasePlayers a => exact (hlaw.erasePlayers a).wrap
  | erasePlayersFromAllCategories a => exact (Maintains.of_arranges (hlaw.erasePlayersFromAllCategories a)).wrap
  | erasePlayersFromCategory a =>
    exact (Maintains.of_arranges (hlaw.erasePlayersFromCategory hidle.1 hidle.2)).wrap
  | setCategoriesMatchesHidden a =>
    exact (hlaw.maintains_of_frame (frame_read.bind fun _ =>
      (SetCategoriesMatchesHiddenAction.frame_setHidden hlaw.labelBlind _ _).bind fun _ => Frame.pure)).wrap
  | setTatamiCount a => exact (hlaw.maintains_of_frame hlaw.layoutBlind.setTatamiCount_redo).wrap
  | setTatamiLocation a => exact (hlaw.maintains_of_frame hlaw.layoutBlind.setTatamiLocation_redo).wrap
  | _ => cases ha

end DrawLaw

end

end JudoAssistant
