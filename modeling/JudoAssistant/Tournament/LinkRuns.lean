import JudoAssistant.Tournament.CategoryChanges
import JudoAssistant.Tournament.DrawsBack

/-!
# Cross references in every session

Every action keeps the cross references in line, and its undo brings back what they were.  So players,
categories and matches refer to each other in every session, and what a draw system assigns is between
players of the category.
-/

namespace JudoAssistant

open Effect Exec TournamentStore

/-! ### The other categories -/

section

variable {β : Type} {k : CategoryStore → β} {S : CategoryId → Prop} [DecidablePred S] {id : CategoryId}
  {t t' : TournamentStore}

/-- What is seen of the categories but for those in `S`. -/
def elsewhere (k : CategoryStore → β) (S : CategoryId → Prop) [DecidablePred S] (t : TournamentStore)
    (cid : CategoryId) : Option β :=
  if S cid then none else (t.categories cid).map k

theorem category_of_elsewhere {cid : CategoryId} (h : elsewhere k S t' = elsewhere k S t) (hcid : ¬ S cid) :
    (t'.categories cid).map k = (t.categories cid).map k := by
  have heq := congrFun h cid
  unfold elsewhere at heq
  rwa [if_neg hcid, if_neg hcid] at heq

theorem elsewhere_setCategory (hid : S id) (c : CategoryStore) :
    elsewhere k S (t.setCategory id c) = elsewhere k S t := by
  funext cid
  unfold elsewhere
  split
  · rfl
  · next hcid =>
    have hne : cid ≠ id := by
      rintro rfl
      exact hcid hid
    show (Function.update t.categories id (some c) cid).map k = _
    rw [Function.update_of_ne hne]

theorem elsewhere_setCategory_of_eq {c c' : CategoryStore} (hc : t.categories id = some c) (hsame : k c' = k c) :
    elsewhere k S (t.setCategory id c') = elsewhere k S t := by
  funext cid
  unfold elsewhere
  split
  · rfl
  · show (Function.update t.categories id (some c') cid).map k = _
    by_cases hcid : cid = id
    · rw [hcid, Function.update_self, hc, Option.map_some, Option.map_some, hsame]
    · rw [Function.update_of_ne hcid]

theorem frame_editCategory_elsewhere (hid : S id) {f : CategoryStore → Except Failure CategoryStore} :
    Frame (elsewhere k S) (editCategory id f) := frame_editCategory fun _ _ _ _ _ => elsewhere_setCategory hid _

theorem DrawCategoriesAction.elsewhere_drawCategories {seed : ℕ} {ids : List CategoryId} {ds : List DrawnCategory}
    (ht : t.Indexed) (hids : ∀ i ∈ ids, S i) (h : forEach (drawCategory seed) ids t = .ok ds t') :
    elsewhere k S t' = elsewhere k S t := by
  induction ids generalizing t ds with
  | nil =>
    obtain ⟨-, rfl⟩ := forEach_nil_ok.1 h
    rfl
  | cons i ids ih =>
    obtain ⟨d, t₁, ds', hd, hds, -⟩ := forEach_cons_ok.1 h
    obtain ⟨c, c', ms, hdraws⟩ := drawCategory_draws ht hd
    have hfirst : elsewhere k S t₁ = elsewhere k S t := by
      rw [hdraws.tournament]
      exact elsewhere_setCategory (hids i List.mem_cons_self) c'
    exact (ih (keeps_drawCategory_indexed seed i ht hd).1 (fun j hj => hids j (List.mem_cons_of_mem _ hj)) hds).trans
      hfirst

theorem DrawCategoriesAction.elsewhere_redoImpl {a a' : DrawCategoriesAction} (ht : t.Indexed)
    (hids : ∀ i ∈ a.categoryIds, t.categories i ≠ none → S i) (h : a.redoImpl t = .ok a' t') :
    elsewhere k S t' = elsewhere k S t := by
  simp only [redoImpl, bind_ok, read_ok, pure_ok, Except.ok.injEq] at h
  obtain ⟨_, _, ⟨rfl, rfl⟩, ds, t₁, hds, _, _, hrecompute, rfl, rfl⟩ := h
  obtain ⟨tatamis, rfl⟩ := recomputeGroups_ok hrecompute
  refine (elsewhere_drawCategories ht (fun i hi => ?_) hds : elsewhere k S t₁ = _)
  obtain ⟨hi, hcontains⟩ := List.mem_filter.1 hi
  exact hids i hi (Option.isSome_iff_ne_none.1 hcontains)

theorem LayoutBlind.removeFinal {γ : Type} {g : TournamentStore → γ} (hg : LayoutBlind g) (id : CategoryId) :
    Frame g (ChangeCategoriesDrawSystemAction.removeFinal id) := by
  refine frame_getCategory.bind fun c => ?_
  split
  · exact hg.setTatamiLocation_redo.bind fun _ => Frame.pure
  · exact Frame.pure

theorem LayoutBlind.removeFinals {γ : Type} {g : TournamentStore → γ} (hg : LayoutBlind g) (drawSystem : DrawSystem)
    (ids : List CategoryId) : Frame g (ChangeCategoriesDrawSystemAction.removeFinals drawSystem ids) := by
  unfold ChangeCategoriesDrawSystemAction.removeFinals
  split
  · exact Frame.pure
  · exact (frame_forEach fun id _ => hg.removeFinal id).bind fun _ => Frame.pure

theorem SetTatamiLocationAction.elsewhere_redoImpl {a a' : SetTatamiLocationAction} (hid : S a.block.1)
    (h : a.redoImpl t = .ok a' t') : elsewhere k S t' = elsewhere k S t := by
  obtain ⟨-, rfl, -⟩ | ⟨c, tatamis, -, -, -, -, rfl⟩ := redoImpl_ok h
  · rfl
  · exact elsewhere_setCategory hid _

theorem ChangeCategoriesDrawSystemAction.elsewhere_removeFinal {a : Option SetTatamiLocationAction}
    (ht : t.Indexed) (hid : S id) (h : removeFinal id t = .ok a t') : elsewhere k S t' = elsewhere k S t := by
  simp only [removeFinal, bind_ok, getCategory_ok] at h
  obtain ⟨c, _, ⟨hc, rfl⟩, h⟩ := h
  split at h
  · obtain ⟨a, _, ha, hrest⟩ := bind_ok.1 h
    obtain ⟨-, rfl⟩ := pure_ok.1 hrest
    refine SetTatamiLocationAction.elsewhere_redoImpl (a := { block := (c.id, .final), location := none }) ?_ ha
    show S c.id
    rwa [ht.category id c hc]
  · obtain ⟨-, rfl⟩ := pure_ok.1 h
    rfl

theorem ChangeCategoriesDrawSystemAction.elsewhere_removeFinals {drawSystem : DrawSystem} {ids : List CategoryId}
    {as : List SetTatamiLocationAction} (ht : t.Indexed) (hids : ∀ i ∈ ids, S i)
    (h : removeFinals drawSystem ids t = .ok as t') : elsewhere k S t' = elsewhere k S t := by
  unfold removeFinals at h
  split at h
  · obtain ⟨-, rfl⟩ := pure_ok.1 h
    rfl
  · obtain ⟨as', t₁, has, hrest⟩ := bind_ok.1 h
    obtain ⟨-, rfl⟩ := pure_ok.1 hrest
    clear h hrest
    induction ids generalizing t as' with
    | nil =>
      obtain ⟨-, rfl⟩ := forEach_nil_ok.1 has
      rfl
    | cons i ids ih =>
      obtain ⟨a, t₂, as'', ha, has, -⟩ := forEach_cons_ok.1 has
      exact (ih (ht.of_keys (layoutBlind_keys.removeFinal i ha)) (fun j hj => hids j (List.mem_cons_of_mem _ hj)) as''
        has).trans (elsewhere_removeFinal ht (hids i List.mem_cons_self) ha)

theorem ChangeCategoriesDrawSystemAction.elsewhere_redoImpl {a a' : ChangeCategoriesDrawSystemAction}
    (ht : t.Indexed) (hids : ∀ i ∈ a.getCategoriesThatChange t, S i)
    (h : a.redoImpl t = .ok a' t') : elsewhere k S t' = elsewhere k S t := by
  obtain ⟨as, t₁, old, t₂, drawAction, has, hold, hdraw, -⟩ := redoImpl_ok h
  have h₁ : elsewhere k S t₁ = elsewhere k S t := elsewhere_removeFinals ht hids has
  have ht₁ : t₁.Indexed := ht.of_keys (layoutBlind_keys.removeFinals _ _ has)
  have h₂ : elsewhere k S t₂ = elsewhere k S t₁ :=
    frame_forEach (fun i hi => frame_getCategory.bind fun c =>
      (frame_editCategory_elsewhere (hids i hi)).bind fun _ => Frame.pure) hold
  have ht₂ : t₂.Indexed := ht₁.of_keys (frame_forEach (fun i _ => frame_getCategory.bind fun c =>
    (frame_setDrawSystem drawSystemBlind_keys).bind fun _ => Frame.pure) hold)
  exact (DrawCategoriesAction.elsewhere_redoImpl ht₂ (fun i hi _ => hids i hi) hdraw).trans (h₂.trans h₁)

theorem RedrawAction.elsewhere_run {seed : ℕ} {r : RedrawAction} (ht : t.Indexed) (hid : S id)
    (h : run id seed t = .ok r t') : elsewhere k S t' = elsewhere k S t := by
  obtain ⟨b, hb, -⟩ | ⟨kind, b, -, hb, -⟩ := run_ok h
  · refine DrawCategoriesAction.elsewhere_redoImpl ht (fun i hi _ => ?_) hb
    rwa [List.mem_singleton.1 hi]
  · refine ChangeCategoriesDrawSystemAction.elsewhere_redoImpl ht (fun i hi => ?_) hb
    rwa [List.mem_singleton.1 (List.mem_filter.1 hi).1]

/-- A category that players join or leave and that is drawn again. -/
theorem elsewhere_changeMembers {joining inside : Bool} {pids changed : List PlayerId} {t₁ : TournamentStore}
    (ht : t.Indexed) (hid : S id)
    (hmembers : changeMembers id inside (changeOne joining id) pids t = .ok changed t₁)
    (hrest : t' = t₁ ∨ ∃ seed r, RedrawAction.run id seed t₁ = .ok r t') :
    elsewhere k S t' = elsewhere k S t := by
  obtain ⟨rfl, hnodup, hcandidates⟩ := changeMembers_ok hmembers
  have hfirst : elsewhere k S (t.enlist joining id changed.toFinset) = elsewhere k S t := by
    funext cid
    unfold elsewhere
    split
    · rfl
    · next hcid =>
      have hne : cid ≠ id := by
        rintro rfl
        exact hcid hid
      rw [categories_enlist_of_ne hne]
  obtain rfl | ⟨seed, r, hrun⟩ := hrest
  · exact hfirst
  · exact (RedrawAction.elsewhere_run (ht.of_keys (enlist_of_blind memberBlind_keys hnodup hcandidates))
      hid hrun).trans hfirst

theorem AddPlayersToCategoryAction.elsewhere_redoImpl {a a' : AddPlayersToCategoryAction} (ht : t.Indexed)
    (hid : S a.categoryId) (h : a.redoImpl t = .ok a' t') :
    elsewhere k S t' = elsewhere k S t := by
  obtain ⟨-, rfl, -⟩ | ⟨added, t₁, -, hmembers, hrest⟩ := redoImpl_ok h
  · rfl
  · have hmembers' : changeMembers a.categoryId false
      (changeOne true a.categoryId) a.playerIds t = .ok added t₁ := hmembers
    refine elsewhere_changeMembers ht hid hmembers' ?_
    obtain ⟨-, -, rfl⟩ | ⟨-, r, hrun, -⟩ := hrest
    · exact .inl rfl
    · exact .inr ⟨a.seed, r, hrun⟩

end

/-! ### Automatic categories -/

section

variable {t t' u : TournamentStore}

/-- What the cross references read of a category. -/
def CategoryStore.bonds (c : CategoryStore) : Finset PlayerId × List Fight × DrawSystem :=
  (c.players, c.matchList.map (·.fight), c.drawSystem)

/-- Where the references agree, they follow from the categories. -/
theorem TournamentStore.Linked.links_ext (ht : t.Linked) (hu : u.Linked)
    (hplayers : ∀ pid, u.players pid = none ↔ t.players pid = none)
    (hcategories : ∀ cid, (u.categories cid).map CategoryStore.bonds = (t.categories cid).map CategoryStore.bonds) :
    u.links = t.links := by
  have hcategory : ∀ {s s' : TournamentStore},
      (∀ cid, (s.categories cid).map CategoryStore.bonds = (s'.categories cid).map CategoryStore.bonds) →
      ∀ {cid : CategoryId} {c : CategoryStore}, s.categories cid = some c →
      ∃ e, s'.categories cid = some e ∧ e.players = c.players ∧ fights e.matchList = fights c.matchList := by
    intro s s' hsame cid c hc
    have hsame := hsame cid
    rw [hc, Option.map_some, eq_comm, Option.map_eq_some_iff] at hsame
    obtain ⟨e, he, heq⟩ := hsame
    obtain ⟨hmembers, hrest⟩ := Prod.mk.inj heq
    exact ⟨e, he, hmembers, fights_congr (Prod.mk.inj hrest).1⟩
  have hback := fun cid => (hcategories cid).symm
  refine Prod.ext (funext fun pid => ?_) (funext hcategories)
  show (u.players pid).map _ = (t.players pid).map _
  cases hq : u.players pid with
  | none => rw [(hplayers pid).1 hq]
  | some q =>
    cases hp : t.players pid with
    | none => cases hq.symm.trans ((hplayers pid).2 hp)
    | some p =>
      refine congrArg some (Prod.ext (Finset.ext fun cid => ?_) (Finset.ext fun x => ?_))
      · show cid ∈ q.categories ↔ cid ∈ p.categories
        rw [hu.member cid pid q hq, ht.member cid pid p hp]
        constructor
        · rintro ⟨c, hc, hpid⟩
          obtain ⟨e, he, hmembers, -⟩ := hcategory hcategories hc
          exact ⟨e, he, by rwa [hmembers]⟩
        · rintro ⟨c, hc, hpid⟩
          obtain ⟨e, he, hmembers, -⟩ := hcategory hback hc
          exact ⟨e, he, by rwa [hmembers]⟩
      · show x ∈ q.matchIds ↔ x ∈ p.matchIds
        have hfight : ∀ {s : TournamentStore}, (∃ c m, s.categories x.categoryId = some c ∧ m ∈ c.matchList ∧
            m.combinedId = x ∧ m.Has pid) ↔ ∃ c, s.categories x.categoryId = some c ∧
              x ∈ fights c.matchList pid := by
          intro s
          simp only [mem_fights]
          constructor
          · rintro ⟨c, m, hc, hm, hx, hhas⟩
            exact ⟨c, hc, m, hm, hhas, hx⟩
          · rintro ⟨c, hc, m, hm, hhas, hx⟩
            exact ⟨c, m, hc, hm, hx, hhas⟩
        rw [hu.fight x pid q hq, ht.fight x pid p hp, hfight, hfight]
        constructor
        · rintro ⟨c, hc, hx⟩
          obtain ⟨e, he, -, hfights⟩ := hcategory hcategories hc
          exact ⟨e, he, by rwa [hfights]⟩
        · rintro ⟨c, hc, hx⟩
          obtain ⟨e, he, -, hfights⟩ := hcategory hback hc
          exact ⟨e, he, by rwa [hfights]⟩

variable {α β : Type} {f : PlayerStore → α} {k : CategoryStore → β}

namespace EraseCategoriesAction

theorem linked_erases (hf : ProfileSight f) {ids : List CategoryId} {cs : List CategoryStore} (ht : t.Linked)
    (hindexed : t.Indexed) (h : forEach eraseOne ids t = .ok cs t') : t'.Linked ∧
      (∀ pid, (t'.players pid).map f = (t.players pid).map f) ∧
      ∀ cid, t'.categories cid = if cid ∈ ids then none else t.categories cid := by
  induction ids generalizing t cs with
  | nil =>
    obtain ⟨-, rfl⟩ := forEach_nil_ok.1 h
    exact ⟨ht, fun _ => rfl, by simp⟩
  | cons id ids ih =>
    obtain ⟨c, t₁, cs', hc, hcs, -⟩ := forEach_cons_ok.1 h
    have hsome := (eraseOne_ok hc).1
    have heq := (eraseOne_eq ht hsome).symm.trans hc
    cases heq
    obtain ⟨hlinked, hplayers, hcategories⟩ :=
      ih (ht.dissolve hindexed hsome) (lasting_indexed.eraseOne id hindexed hc).1 hcs
    refine ⟨hlinked, fun pid => (hplayers pid).trans ?_, fun cid => ?_⟩
    · cases hp : t.players pid with
      | none => rw [players_dissolve_eq_none.2 hp]
      | some p =>
        obtain ⟨p', hp', -, -, hsame⟩ := @players_dissolve _ _ t id c hf pid p hp
        rw [hp', Option.map_some, Option.map_some, hsame]
    · rw [hcategories]
      show (if cid ∈ ids then none else Function.update t.categories id none cid) = _
      by_cases hcid : cid = id
      · subst hcid
        simp
      · rw [Function.update_of_ne hcid]
        simp [hcid]

/-- The action erases the categories that exist, and the references agree as before. -/
theorem linked_redoImpl (hf : ProfileSight f) {a a' : EraseCategoriesAction} (ht : t.Linked) (hindexed : t.Indexed)
    (h : a.redoImpl t = .ok a' t') : t'.Linked ∧ (∀ pid, (t'.players pid).map f = (t.players pid).map f) ∧
      ∀ cid, t'.categories cid = if cid ∈ a.categoryIds then none else t.categories cid := by
  obtain ⟨ps, us, t₁, cs, -, hus, hcs, -⟩ := redoImpl_ok h
  obtain ⟨tatamis, rfl, -⟩ := moves_ok hus
  have ht₁ : ({ t with tatamis := tatamis } : TournamentStore).Linked := ht.of_links rfl
  obtain ⟨hlinked, hplayers, hcategories⟩ := linked_erases hf ht₁ (hindexed.of_keys rfl) hcs
  refine ⟨hlinked, hplayers, fun cid => (hcategories cid).trans ?_⟩
  by_cases hcid : cid ∈ a.categoryIds
  · cases hc : t.categories cid <;> simp [hcid, hc, TournamentStore.containsCategory]
  · simp [hcid]

theorem placedBlocks_unplaced {ids : List CategoryId} (hexist : ∀ id ∈ ids, t.categories id ≠ none)
    (hfree : ∀ id ∈ ids, ∀ type, t.outline.place (id, type) = none) : placedBlocks t ids = .ok [] := by
  have hblock : ∀ b ∈ ids.flatMap fun id => [(id, MatchType.elimination), (id, MatchType.final)],
      ∃ p, placedBlock t b = .ok p := by
    intro b hb
    obtain ⟨id, hid, hb⟩ := List.mem_flatMap.1 hb
    obtain rfl : b.1 = id := by
      rcases List.mem_pair.1 hb with rfl | rfl <;> rfl
    obtain ⟨c, hc⟩ := Option.ne_none_iff_exists'.1 (hexist b.1 hid)
    have hplace := hfree b.1 hid b.2
    rw [place_outline, hc, Option.bind_some, Option.map_eq_none_iff] at hplace
    refine ⟨none, except_bind_ok.2 ⟨c, getCategory_eq_ok.2 hc, ?_⟩⟩
    rw [hplace]
    rfl
  obtain ⟨rs, hrs⟩ := except_mapM_total hblock
  have hps : placedBlocks t ids = .ok (rs.reduceOption.foldl (fun s b => insertPlaced b s) []) :=
    except_bind_ok.2 ⟨rs, hrs, rfl⟩
  have hcollected := collected_placedBlocks hps
  refine hps.trans (congrArg Except.ok (List.eq_nil_iff_forall_not_mem.2 fun p hp => ?_))
  exact Option.some_ne_none _ ((hcollected.place p hp).symm.trans (hfree _ (hcollected.mem_ids p hp) p.1.2))

theorem erases_total {ids : List CategoryId} (hnodup : ids.Nodup) (ht : t.Linked) (hindexed : t.Indexed)
    (hexist : ∀ id ∈ ids, t.categories id ≠ none) : ∃ cs t', forEach eraseOne ids t = .ok cs t' := by
  induction ids generalizing t with
  | nil => exact ⟨[], t, forEach_nil_ok.2 ⟨rfl, rfl⟩⟩
  | cons id ids ih =>
    obtain ⟨hnot, hnodup⟩ := List.nodup_cons.1 hnodup
    obtain ⟨c, hc⟩ := Option.ne_none_iff_exists'.1 (hexist id List.mem_cons_self)
    have heq := eraseOne_eq ht hc
    obtain ⟨cs, t', hcs⟩ := ih hnodup (ht.dissolve hindexed hc) (lasting_indexed.eraseOne id hindexed heq).1
      fun i hi => by
        show Function.update t.categories id none i ≠ none
        rw [Function.update_of_ne (ne_of_mem_of_not_mem hi hnot)]
        exact hexist i (List.mem_cons_of_mem _ hi)
    exact ⟨c :: cs, t', forEach_cons_ok.2 ⟨c, _, cs, heq, hcs, rfl⟩⟩

/-- Categories none of whose blocks is placed can always be erased. -/
theorem redoImpl_total {a : EraseCategoriesAction} (hnodup : a.categoryIds.Nodup) (ht : t.Linked)
    (hindexed : t.Indexed) (hfree : ∀ id ∈ a.categoryIds, ∀ type, t.outline.place (id, type) = none) :
    ∃ a' t', a.redoImpl t = .ok a' t' := by
  have hexist : ∀ id ∈ a.categoryIds.filter t.containsCategory, t.categories id ≠ none := fun id hid =>
    Option.isSome_iff_ne_none.1 (List.mem_filter.1 hid).2
  have hblocks := placedBlocks_unplaced hexist fun id hid => hfree id (List.mem_of_mem_filter hid)
  obtain ⟨cs, t', hcs⟩ := erases_total (hnodup.filter _) ht hindexed hexist
  refine ⟨_, t', bind_ok.2 ⟨t, t, get_ok.2 ⟨rfl, rfl⟩, bind_ok.2 ⟨[], t, read_ok.2 ⟨hblocks, rfl⟩,
    bind_ok.2 ⟨[], t, forEach_nil_ok.2 ⟨rfl, rfl⟩, bind_ok.2 ⟨cs, t', hcs, pure_ok.2 ⟨rfl, rfl⟩⟩⟩⟩⟩⟩

end EraseCategoriesAction

theorem AddPlayersToCategoryAction.players_redoImpl (hf : ProfileSight f) {a a' : AddPlayersToCategoryAction}
    (h : a.redoImpl t = .ok a' t') (pid : PlayerId) : (t'.players pid).map f = (t.players pid).map f := by
  have hframe : t'.project f (fun _ => ()) = t.project f fun _ => () := by
    have hmember : MemberBlind (project f fun _ => ()) := memberBlind_project hf.categories fun _ _ => rfl
    obtain ⟨-, rfl, -⟩ | ⟨added, t₁, -, hmembers, hrest⟩ := redoImpl_ok h
    · rfl
    · have hfirst := frame_changeMembers (fun _ => hmember.joinCategory) _ hmembers
      obtain ⟨-, -, rfl⟩ | ⟨-, r, hrun, -⟩ := hrest
      · exact hfirst
      · exact (RedrawAction.frame_run (matchBlind_project hf.matchIds fun _ _ _ _ _ => rfl)
          (drawSystemBlind_project fun _ _ => rfl) (layoutBlind_project fun _ _ _ => rfl) hrun).trans hfirst
  exact players_of_project hframe pid

namespace AutoAddCategoriesAction

theorem addGroups_linked {baseName : String} {groups : List ((CategoryId × List PlayerId) × ℕ)} {us : List Unit}
    (ht : t.InLine) (h : forEach (addGroup baseName) groups t = .ok us t') :
    t'.InLine ∧ t'.players = t.players ∧ ∀ cid, cid ∉ groups.map (·.1.1) →
      t'.categories cid = t.categories cid := by
  induction groups generalizing t us with
  | nil =>
    obtain ⟨-, rfl⟩ := forEach_nil_ok.1 h
    exact ⟨ht, rfl, fun _ _ => rfl⟩
  | cons g groups ih =>
    obtain ⟨_, t₁, us', hg, hgroups, -⟩ := forEach_cons_ok.1 h
    simp only [addGroup, bind_ok, read_ok, addCategory_ok] at hg
    obtain ⟨kind, _, ⟨-, rfl⟩, hnone, rfl⟩ := hg
    obtain ⟨ht', hplayers, hcategories⟩ := ih ⟨ht.linked.found hnone rfl rfl (CategoryStore.roster_init _ _ _ _),
      ht.indexed.setCategory rfl (CategoryStore.indexed_init _ _ _ _)⟩ hgroups
    refine ⟨ht', hplayers, fun cid hcid => ?_⟩
    rw [List.map_cons, List.mem_cons, not_or] at hcid
    exact (hcategories cid hcid.2).trans (Function.update_of_ne hcid.1 _ _)

theorem addPlayers_orderly (hf : ProfileSight f) {seed : ℕ} {groups : List (CategoryId × List PlayerId)}
    {as : List AddPlayersToCategoryAction} (ht : Orderly t)
    (h : forEach (fun g => AddPlayersToCategoryAction.redoImpl
      { categoryId := g.1, playerIds := g.2, seed := seed }) groups t = .ok as t') :
    Orderly t' ∧ (∀ pid, (t'.players pid).map f = (t.players pid).map f) ∧ ∀ cid, cid ∉ groups.map (·.1) →
      (t'.categories cid).map k = (t.categories cid).map k := by
  induction groups generalizing t as with
  | nil =>
    obtain ⟨-, rfl⟩ := forEach_nil_ok.1 h
    exact ⟨ht, fun _ => rfl, fun _ _ => rfl⟩
  | cons g groups ih =>
    obtain ⟨a, t₁, as', ha, has, -⟩ := forEach_cons_ok.1 h
    obtain ⟨ht₁, -⟩ := AddPlayersToCategoryAction.restorable profileSight_unit boutSight_ties rfl rfl ht ha
    have hfirst := AddPlayersToCategoryAction.elsewhere_redoImpl (k := k) (S := (· = g.1)) ht.indexed rfl ha
    obtain ⟨ht', hplayers, hcategories⟩ := ih ht₁ has
    refine ⟨ht', fun pid => (hplayers pid).trans (AddPlayersToCategoryAction.players_redoImpl hf ha pid),
      fun cid hcid => ?_⟩
    rw [List.map_cons, List.mem_cons, not_or] at hcid
    exact (hcategories cid hcid.2).trans (category_of_elsewhere hfirst hcid.1)

theorem nodup_addGroups {baseName : String} {groups : List ((CategoryId × List PlayerId) × ℕ)} {us : List Unit}
    (h : forEach (addGroup baseName) groups t = .ok us t') :
    (groups.map (·.1.1)).Nodup ∧ ∀ id ∈ groups.map (·.1.1), t.categories id = none := by
  induction groups generalizing t us with
  | nil => exact ⟨List.nodup_nil, fun id hid => (List.not_mem_nil hid).elim⟩
  | cons g groups ih =>
    obtain ⟨_, t₁, us', hg, hgroups, -⟩ := forEach_cons_ok.1 h
    simp only [addGroup, bind_ok, read_ok, addCategory_ok] at hg
    obtain ⟨kind, _, ⟨-, rfl⟩, hnone, rfl⟩ := hg
    obtain ⟨hnodup, hnew⟩ := ih hgroups
    have hne : ∀ id ∈ groups.map (·.1.1), id ≠ g.1.1 := by
      rintro id hid rfl
      have hsome : (t.setCategory g.1.1 (CategoryStore.init g.1.1 (baseName ++ " " ++ toString (g.2 + 1))
        RulesetIdentifier.default (DrawSystem.getDrawSystem kind))).categories g.1.1 = some _ :=
        Function.update_self _ _ _
      cases hsome.symm.trans (hnew _ hid)
    refine ⟨List.nodup_cons.2 ⟨fun hmem => hne _ hmem rfl, hnodup⟩, fun id hid => ?_⟩
    rcases List.mem_cons.1 hid with rfl | hid
    · exact hnone
    · exact (Function.update_of_ne (hne id hid) _ _).symm.trans (hnew id hid)

/-- The new categories are different, and none of their blocks is placed. -/
theorem unplaced_redoImpl {a a' : AutoAddCategoriesAction} (ht : LayoutSound t) (h : a.redoImpl t = .ok a' t') :
    (a'.groups.map (·.1)).Nodup ∧
      ∀ id ∈ a'.groups.map (·.1), ∀ type, t'.outline.place (id, type) = none := by
  obtain ⟨rfl, hnew, us, t₁, as, hus, has⟩ := redoImpl_ok h
  have hnodup := (nodup_addGroups hus).1
  rw [map_zipIdx_groups] at hnodup
  refine ⟨hnodup, fun id hid type => unplaced_addPlayers (addGroups_spec ht hus).1 (unplaced_addGroups ?_ hus) has⟩
  rw [place_outline, hnew id hid]
  rfl

/-- The undo erases the categories of the groups, whatever is in them, and leaves the players and the other
categories. -/
theorem undo_erases (hf : ProfileSight f) {a a' : AutoAddCategoriesAction} (ht : Orderly t)
    (h : a.redoImpl t = .ok a' t') : Orderly t' ∧
      ∀ ⦃u b u'⦄, u.Indexed → u.links = t'.links →
        (∀ pid, (u.players pid).map f = (t'.players pid).map f) →
        (∀ cid, (u.categories cid).map k = (t'.categories cid).map k) → a'.undoImpl u = .ok b u' →
        u'.Indexed ∧ u'.Linked ∧ (∀ pid, (u'.players pid).map f = (t.players pid).map f) ∧
          ∀ cid, (u'.categories cid).map k = (t.categories cid).map k := by
  obtain ⟨rfl, hnew, us, t₁, as, hus, has⟩ := redoImpl_ok h
  obtain ⟨hsound₁, -⟩ := addGroups_spec ht.sound hus
  obtain ⟨ht₁, hplayers₁, hcategories₁⟩ := addGroups_linked ⟨ht.linked, ht.indexed⟩ hus
  obtain ⟨ht', hplayers₂, hcategories₂⟩ :=
    addPlayers_orderly hf ⟨hsound₁, ht₁.indexed, ht₁.linked⟩ has
  rw [map_zipIdx_groups] at hcategories₁
  refine ⟨ht', fun u b u' hu hview hplayers hcategories hundo => ?_⟩
  obtain ⟨e, u₁, he, hrest⟩ := bind_ok.1 hundo
  obtain ⟨rfl, rfl⟩ := pure_ok.1 hrest
  obtain ⟨hlinked', hplayers', hcategories'⟩ :=
    EraseCategoriesAction.linked_redoImpl hf (ht'.linked.of_links hview) hu he
  refine ⟨(lasting_indexed.eraseCategories rfl hu he).1, hlinked', fun pid => ?_, fun cid => ?_⟩
  · rw [hplayers', hplayers, hplayers₂, hplayers₁]
  · rw [hcategories']
    by_cases hcid : cid ∈ a'.groups.map (·.1)
    · rw [if_pos hcid, hnew cid hcid]
    · rw [if_neg hcid, ← hcategories₁ cid hcid, ← hcategories₂ cid hcid]
      exact hcategories cid

theorem links_back {a a' : AutoAddCategoriesAction} (ht : Orderly t) (h : a.redoImpl t = .ok a' t') :
    t'.Linked ∧ LinksBack a'.undoImpl t'.links t.links := by
  obtain ⟨ht', hundone⟩ := undo_erases (k := CategoryStore.bonds) profileSight_unit ht h
  refine ⟨ht'.linked, fun u b u' hu hview hundo => ?_⟩
  have hnone : ∀ {s s' : TournamentStore} {pid : PlayerId},
      (s'.players pid).map (fun _ => ()) = (s.players pid).map (fun _ => ()) →
        (s'.players pid = none ↔ s.players pid = none) := by
    intro s s' pid hpid
    cases hs : s.players pid <;> cases hs' : s'.players pid <;> simp_all
  have hplayers : ∀ pid, (u.players pid).map (fun _ => ()) = (t'.players pid).map fun _ => () := by
    intro pid
    have hpid := players_of_project hview pid
    cases hu : u.players pid <;> cases ht : t'.players pid <;> simp_all
  obtain ⟨hindexed', hlinked', hplayers', hcategories'⟩ :=
    hundone hu hview hplayers (categories_of_project hview) hundo
  exact ⟨hindexed', ht.linked.links_ext hlinked' (fun pid => hnone (hplayers' pid)) hcategories', trivial⟩

end AutoAddCategoriesAction

end

/-! ### All actions -/

section

variable {α β γ δ ζ : Type} {f : PlayerStore → α} {h : CategoryStore → β} {t t' u : TournamentStore}

theorem labelBlind_links : LabelBlind links := labelBlind_project (fun _ _ => rfl) (fun _ _ => rfl) fun _ _ => rfl

/-- Where the blocks are, and what the cross references read. -/
abbrev tied : TournamentStore → (Outline × (PlayerId → Option (Finset CombinedId)) ×
    (CategoryId → Option (List Fight × DrawSystem))) ×
      (PlayerId → Option (Finset CategoryId × Unit)) × (CategoryId → Option (Finset PlayerId)) :=
  register (fun _ => ()) CategoryStore.ties

theorem tied_eq_iff : tied u = tied t ↔ u.outline = t.outline ∧ u.links = t.links := by
  constructor
  · intro hview
    have hbouts : bouts CategoryStore.ties u = bouts CategoryStore.ties t := congrArg (fun v => v.1.2) hview
    have hmembers : members (fun _ => ()) u = members (fun _ => ()) t := congrArg Prod.snd hview
    refine ⟨congrArg (fun v => v.1.1) hview, Prod.ext (funext fun pid => ?_) (funext fun cid => ?_)⟩
    · have h₁ := players_of_project hbouts pid
      have h₂ := players_of_project hmembers pid
      show (u.players pid).map _ = (t.players pid).map _
      cases hp : u.players pid <;> cases hq : t.players pid <;> simp_all
    · have h₁ := categories_of_project hbouts cid
      have h₂ := categories_of_project hmembers cid
      show (u.categories cid).map _ = (t.categories cid).map _
      cases hp : u.categories cid <;> cases hq : t.categories cid <;> simp_all [CategoryStore.ties]
  · rintro ⟨houtline, hlinks⟩
    have hplayers := players_of_project hlinks
    have hcategories := categories_of_project hlinks
    refine Prod.ext (Prod.ext houtline (Prod.ext (funext fun pid => ?_) (funext fun cid => ?_)))
      (Prod.ext (funext fun pid => ?_) (funext fun cid => ?_))
    · show (u.players pid).map _ = (t.players pid).map _
      have hpid := hplayers pid
      cases hp : u.players pid <;> cases hq : t.players pid <;> simp_all
    · show (u.categories cid).map _ = (t.categories cid).map _
      have hcid := hcategories cid
      cases hp : u.categories cid <;> cases hq : t.categories cid <;> simp_all [CategoryStore.ties]
    · show (u.players pid).map _ = (t.players pid).map _
      have hpid := hplayers pid
      cases hp : u.players pid <;> cases hq : t.players pid <;> simp_all
    · show (u.categories cid).map _ = (t.categories cid).map _
      have hcid := hcategories cid
      cases hp : u.categories cid <;> cases hq : t.categories cid <;> simp_all

/-- The computation keeps the references in line, and its undo brings back the view. -/
def Kept (view : TournamentStore → ζ) (x : Exec γ) (undo : γ → Exec δ) : Prop :=
  ∀ ⦃t a t'⦄, Orderly t → x t = .ok a t' → t'.Linked ∧
    ∀ ⦃u b u'⦄, Intact u → u.outline = t'.outline → view u = view t' → undo a u = .ok b u' →
      view u' = view t

namespace Kept

variable {view : TournamentStore → ζ} {x : Exec γ} {undo : γ → Exec δ}

/-- The register is the outline with the view. -/
theorem of_restorable {P : δ → Prop} (hregister : ∀ {u t : TournamentStore},
    register f h u = register f h t ↔ u.outline = t.outline ∧ view u = view t)
    (hx : RegisterRestorable f h x undo P) : Kept view x undo := by
  intro t a t' ht ha
  obtain ⟨ht', hback⟩ := hx ht ha
  refine ⟨ht'.linked, fun u b u' hu houtline hview hb => ?_⟩
  obtain ⟨-, hrest, -⟩ := hback.leadsBack hu (hregister.2 ⟨houtline, hview⟩) hb
  exact (hregister.1 hrest).2

theorem of_revocable (hx : Revocable InLine Indexed view x undo fun _ => True) : Kept view x undo := by
  intro t a t' ht ha
  obtain ⟨ht', hback⟩ := hx ⟨ht.linked, ht.indexed⟩ ha
  exact ⟨ht'.linked, fun u b u' hu _ hview hb => (hback hu.indexed hview hb).2.1⟩

theorem of_frame (hlinks : ∀ {u t : TournamentStore}, view u = view t → u.links = t.links) (hx : Frame view x)
    (hundo : ∀ a, Frame view (undo a)) : Kept view x undo := by
  intro t a t' ht ha
  have hview := hx ha
  exact ⟨ht.linked.of_links (hlinks hview), fun u b u' _ _ hview' hb => (hundo a hb).trans (hview'.trans hview)⟩

theorem wrap {wrap : γ → Action} {undo : γ → Exec γ} (hx : Kept view x undo)
    (hundo : ∀ a, (wrap a).undoImpl = wrap <$> undo a) : Kept view (wrap <$> x) Action.undoImpl := by
  intro t a t' ht ha
  obtain ⟨b, hb, rfl⟩ := map_ok.1 ha
  obtain ⟨ht', hback⟩ := hx ht hb
  refine ⟨ht', fun u d u' hu houtline hview hd => ?_⟩
  rw [hundo] at hd
  obtain ⟨e, he, -⟩ := map_ok.1 hd
  exact hback hu houtline hview he

end Kept

/-- The computation keeps the references in line, and its undo brings back what they read. -/
abbrev LinksKept (x : Exec γ) (undo : γ → Exec δ) : Prop := Kept links x undo

theorem LinksKept.of_restorable {x : Exec γ} {undo : γ → Exec δ} {P : δ → Prop}
    (hx : RegisterRestorable (fun _ => ()) CategoryStore.ties x undo P) : LinksKept x undo :=
  Kept.of_restorable tied_eq_iff hx

theorem LinksKept.of_frame {x : Exec γ} {undo : γ → Exec δ} (hx : Frame links x)
    (hundo : ∀ a, Frame links (undo a)) : LinksKept x undo := Kept.of_frame (fun h => h) hx hundo

theorem SetTatamiLocationAction.restorable (hsight : BoutSight h) (a : SetTatamiLocationAction) :
    RegisterRestorable f h a.redoImpl undoImpl fun _ => True := by
  intro t a' t' ht hredo
  obtain ⟨hlinked, hback⟩ := recovers hsight ht.sound ht.linked hredo
  have hindexed : t'.Indexed := ht.indexed.of_keys (layoutBlind_keys.setTatamiLocation_redo hredo)
  exact ⟨⟨(revocable a ht.sound hredo).1, hindexed, hlinked⟩,
    restores_of_sight hback layoutBlind_members.setTatamiLocation_undo
      (layoutBlind_members.setTatamiLocation_redo hredo)⟩

theorem ChangeCategoriesDrawSystemAction.restorable (hf : ProfileSight f) (hsight : BoutSight h)
    {a : ChangeCategoriesDrawSystemAction} (hchanged : a.changedCategories = []) (hlocations : a.locationActions = []) :
    RegisterRestorable f h a.redoImpl undoImpl fun a => a.changedCategories = [] ∧ a.locationActions = [] := by
  intro t a' t' ht hredo
  obtain ⟨hlinked, hback⟩ := recovers hsight hchanged hlocations ht.sound ht.indexed ht.linked hredo
  have hindexed := (lasting_indexed.changeCategoriesDrawSystem hchanged ht.indexed hredo).1
  have hmembers : members f t' = members f t :=
    frame_redoImpl (matchBlind_members hf) drawSystemBlind_members layoutBlind_members hredo
  exact ⟨⟨(revocable hchanged hlocations ht.sound hredo).1, hindexed, hlinked.mono fun i _ hi => hi.1⟩,
    restores_of_sight hback (frame_undoImpl (matchBlind_members hf) drawSystemBlind_members layoutBlind_members)
      hmembers⟩

theorem ChangeCategoriesRulesetAction.frame_changeRulesets {γ : Type} {g : TournamentStore → γ} (hg : LabelBlind g)
    {ruleset : RulesetIdentifier} {ids : List CategoryId} : Frame g (forEach (changeRuleset ruleset) ids) :=
  frame_forEach fun _ _ => frame_getCategory.bind fun _ => hg.setRuleset.bind fun _ => Frame.pure

theorem ChangeCategoriesRulesetAction.linksKept (a : ChangeCategoriesRulesetAction) :
    LinksKept a.redoImpl undoImpl := by
  refine .of_revocable fun t a' t' ht hredo => ?_
  obtain ⟨ids, s, hread, hrest⟩ := bind_ok.1 hredo
  obtain ⟨-, rfl⟩ := read_ok.1 hread
  obtain ⟨old, t₁, hold, hrest⟩ := bind_ok.1 hrest
  obtain ⟨r, t₂, hr, hrest⟩ := bind_ok.1 hrest
  obtain ⟨rfl, rfl⟩ := pure_ok.1 hrest
  have hlinks : t₁.links = t.links := frame_changeRulesets labelBlind_links hold
  have hkeys : t₁.keys = t.keys := frame_changeRulesets labelBlind_keys hold
  obtain ⟨ht', hback⟩ := ResetMatchesAction.links_revocable rfl rfl
    ⟨ht.linked.of_links hlinks, ht.indexed.of_keys hkeys⟩ hr
  rw [hlinks] at hback
  exact ⟨ht', hback.bind fun _ _ => (LeadsBack.of_frame (keeps_forEach_unit fun p _ =>
    keeps_indexed_of_keys labelBlind_keys.setRuleset) (frame_forEach fun p _ => labelBlind_links.setRuleset)).bind
    fun _ _ => .pure trivial⟩

theorem ChangePlayersWeightAction.linksKept {a : ChangePlayersWeightAction} (hdraw : a.drawActions = []) :
    LinksKept a.redoImpl undoImpl := by
  refine .of_revocable fun t a' t' ht hredo => ?_
  obtain ⟨changed, t₁, hchange, hrest⟩ := bind_ok.1 hredo
  obtain ⟨ids, s, hread, hrest⟩ := bind_ok.1 hrest
  obtain ⟨-, rfl⟩ := read_ok.1 hread
  obtain ⟨stack, t₂, hupdates, hrest⟩ := bind_ok.1 hrest
  obtain ⟨rfl, rfl⟩ := pure_ok.1 hrest
  have hlinks := frame_changeField fieldBlind_links _ hchange
  have hindexed := ht.indexed.of_keys (frame_changeField fieldBlind_keys _ hchange)
  have hstack : StackBack links a.drawActions t₁.links t.links := by
    rw [hdraw, hlinks]
    exact stackBack_nil _
  obtain ⟨ht', hback⟩ :=
    drawsBack_links.updateDraws ⟨ht.linked.of_links hlinks, hindexed⟩ hstack hupdates
  exact ⟨ht', hback.bind fun _ _ => (LeadsBack.of_frame (keeps_indexed_of_keys (frame_restoreField fieldBlind_keys))
    (frame_restoreField fieldBlind_links)).bind fun _ _ => .pure trivial⟩

theorem LinksKept.changePlayers [DecidableEq γ] (field : PlayerField γ) (a : ChangePlayersAction γ) :
    LinksKept (a.redoImpl field) (ChangePlayersAction.undoImpl field) :=
  .of_frame ((frame_changeField fieldBlind_links _).bind fun _ => Frame.pure)
    fun _ => (frame_restoreField fieldBlind_links).bind fun _ => Frame.pure

theorem LinksKept.changeValue {field : TournamentField γ} {a : ChangeValueAction γ}
    (hfield : ∀ v t, links (field.set v t) = links t) :
    LinksKept (a.redoImpl field) (ChangeValueAction.undoImpl field) :=
  .of_frame (ValueBlind.changeValue_redo hfield) fun _ => ValueBlind.changeValue_undo hfield

theorem SetCategoriesMatchesHiddenAction.frame_setHidden {α β : Type} {f : PlayerStore → α}
    {h : CategoryStore → β} (hlabel : LabelBlind (project f h)) (hidden : Bool) (ids : List CategoryId) :
    Frame (project f h) (setHidden hidden ids) := by
  refine Frame.bind (frame_forEach fun id _ => frame_editCategory fun t c c' hc hset => ?_) fun _ => ?_
  · cases hset
    exact hlabel.hidden hc
  · intro t v t' h
    obtain ⟨tatamis, rfl⟩ := DrawCategoriesAction.recomputeGroups_ok h
    rfl

/-- Every action keeps the references in line, and its undo brings back what they read. -/
theorem Action.linksKept {a : Action} (hidle : a.Idle) : LinksKept a.redoImpl Action.undoImpl := by
  have hvalue : ValueBlind links := valueBlind_project
  cases a with
  | addCategory a => exact (LinksKept.of_restorable a.restorable).wrap fun _ => rfl
  | addCategoryWithPlayers a =>
    exact (LinksKept.of_restorable (a.restorable profileSight_unit boutSight_ties)).wrap fun _ => rfl
  | addDrawSystemPreferenceRow a =>
    exact (LinksKept.of_frame hvalue.addRow_redo fun _ => hvalue.addRow_undo).wrap fun _ => rfl
  | addPlayers a => exact (LinksKept.of_restorable a.restorable).wrap fun _ => rfl
  | addPlayersToCategory a =>
    exact (LinksKept.of_restorable (AddPlayersToCategoryAction.restorable profileSight_unit boutSight_ties
      hidle.1 hidle.2)).wrap fun _ => rfl
  | addPlayersWithCategories a =>
    exact (LinksKept.of_restorable (AddPlayersWithCategoriesAction.restorable profileSight_unit boutSight_ties
      hidle.1 hidle.2)).wrap fun _ => rfl
  | autoAddCategories a =>
    refine Kept.wrap (fun t b t' ht hredo => ?_) fun _ => rfl
    obtain ⟨ht', hback⟩ := AutoAddCategoriesAction.links_back ht hredo
    exact ⟨ht', fun u d u' hu _ hview hundo => (hback hu.indexed hview hundo).2.1⟩
  | changeCategoriesDrawSystem a =>
    exact (LinksKept.of_restorable (ChangeCategoriesDrawSystemAction.restorable profileSight_unit boutSight_ties
      hidle.1 hidle.2)).wrap fun _ => rfl
  | changeCategoriesName a =>
    exact (LinksKept.of_frame labelBlind_links.changeName_redo fun _ => labelBlind_links.changeName_undo).wrap
      fun _ => rfl
  | changeCategoriesRuleset a => exact a.linksKept.wrap fun _ => rfl
  | changeDrawSystemPreferenceIdentifier a =>
    exact (LinksKept.of_frame (hvalue.editPreferences.bind fun _ => Frame.pure)
      fun _ => hvalue.editPreferences.bind fun _ => Frame.pure).wrap fun _ => rfl
  | changeDrawSystemPreferenceLimit a =>
    exact (LinksKept.of_frame hvalue.changeLimit_redo fun _ => hvalue.changeLimit_undo).wrap fun _ => rfl
  | changeMatchCardStylePreference a => exact (LinksKept.changeValue fun _ _ => rfl).wrap fun _ => rfl
  | changePlayersAge a => exact (LinksKept.changePlayers ageField a).wrap fun _ => rfl
  | changePlayersBlueJudogiHint a =>
    exact (LinksKept.of_restorable (ChangePlayersBlueJudogiHintAction.restorable profileSight_unit boutSight_ties
      hidle)).wrap fun _ => rfl
  | changePlayersClub a => exact (LinksKept.changePlayers clubField a).wrap fun _ => rfl
  | changePlayersCountry a => exact (LinksKept.changePlayers countryField a).wrap fun _ => rfl
  | changePlayersFirstName a => exact (LinksKept.changePlayers firstNameField a).wrap fun _ => rfl
  | changePlayersLastName a => exact (LinksKept.changePlayers lastNameField a).wrap fun _ => rfl
  | changePlayersRank a => exact (LinksKept.changePlayers rankField a).wrap fun _ => rfl
  | changePlayersSex a => exact (LinksKept.changePlayers sexField a).wrap fun _ => rfl
  | changePlayersWeight a => exact (ChangePlayersWeightAction.linksKept hidle.2).wrap fun _ => rfl
  | changeScoreboardStylePreference a => exact (LinksKept.changeValue fun _ _ => rfl).wrap fun _ => rfl
  | changeTournamentDate a => exact (LinksKept.changeValue fun _ _ => rfl).wrap fun _ => rfl
  | changeTournamentLocation a => exact (LinksKept.changeValue fun _ _ => rfl).wrap fun _ => rfl
  | changeTournamentName a => exact (LinksKept.changeValue fun _ _ => rfl).wrap fun _ => rfl
  | changeTournamentWebName a => exact (LinksKept.changeValue fun _ _ => rfl).wrap fun _ => rfl
  | drawCategories a =>
    exact (LinksKept.of_restorable (DrawCategoriesAction.restorable profileSight_unit boutSight_ties hidle)).wrap
      fun _ => rfl
  | eraseCategories a =>
    exact (LinksKept.of_restorable (EraseCategoriesAction.restorable profileSight_unit hidle.1 hidle.2)).wrap
      fun _ => rfl
  | eraseDrawSystemPreferenceRow a =>
    exact (LinksKept.of_frame hvalue.eraseRow_redo fun _ => hvalue.eraseRow_undo).wrap fun _ => rfl
  | erasePlayers a =>
    exact (LinksKept.of_restorable (ErasePlayersAction.restorable profileSight_unit boutSight_ties hidle.1 hidle.2.1
      hidle.2.2)).wrap fun _ => rfl
  | erasePlayersFromAllCategories a =>
    exact (LinksKept.of_restorable (ErasePlayersFromAllCategoriesAction.restorable profileSight_unit boutSight_ties
      hidle)).wrap fun _ => rfl
  | erasePlayersFromCategory a =>
    exact (LinksKept.of_restorable (ErasePlayersFromCategoryAction.restorable profileSight_unit boutSight_ties
      hidle.1 hidle.2)).wrap fun _ => rfl
  | matchEvent a => exact (Kept.of_revocable (MatchEventAction.links_revocable hidle)).wrap fun _ => rfl
  | resetMatches a => exact (Kept.of_revocable (ResetMatchesAction.links_revocable hidle.1 hidle.2)).wrap fun _ => rfl
  | setCategoriesMatchesHidden a =>
    exact (LinksKept.of_frame (frame_read.bind fun _ =>
      (SetCategoriesMatchesHiddenAction.frame_setHidden labelBlind_links _ _).bind fun _ => Frame.pure) fun _ =>
      (SetCategoriesMatchesHiddenAction.frame_setHidden labelBlind_links _ _).bind fun _ =>
        Frame.pure).wrap fun _ => rfl
  | setTatamiCount a =>
    exact (LinksKept.of_frame layoutBlind_links.setTatamiCount_redo fun _ => layoutBlind_links.setTatamiCount_undo).wrap
      fun _ => rfl
  | setTatamiLocation a => exact (LinksKept.of_restorable (a.restorable boutSight_ties)).wrap fun _ => rfl

end

/-! ### Sessions -/

theorem orderly_empty : Orderly {} := by
  obtain ⟨hplaced, hallowed⟩ := layoutDiscipline.init
  exact ⟨⟨hplaced, hallowed⟩, ⟨by simp, by simp, by simp⟩,
    ⟨by simp, by simp, by simp, by simp, by simp, by simp, by simp⟩⟩

theorem Orderly.of_tied {t u : TournamentStore} (hu : Orderly u) (ht : Intact t) (hview : tied t = tied u) :
    Orderly t := by
  obtain ⟨houtline, hlinks⟩ := tied_eq_iff.1 hview
  exact ⟨⟨ht.placed, by rw [houtline]; exact hu.sound.allowed⟩, ht.indexed, hu.linked.of_links hlinks⟩

/-- The register is restored by undoing in reverse order. -/
def linkDiscipline : Session.Discipline ((Outline × (PlayerId → Option (Finset CombinedId)) ×
    (CategoryId → Option (List Fight × DrawSystem))) ×
      (PlayerId → Option (Finset CategoryId × Unit)) × (CategoryId → Option (Finset PlayerId))) where
  Inv := Intact
  view := tied
  Sane v := ∃ t, Orderly t ∧ tied t = v
  allowed s e := ∀ a, s.redone e = some a → a.Constructed
  safe _ _ := True
  init := ⟨orderly_empty.intact, {}, orderly_empty, rfl⟩
  safe_of_allowed := fun _ _ _ _ _ => trivial
  redo := by
    intro s e a a' t' hallowed hredone hidle hinv hsane h
    obtain ⟨u, hu, hview⟩ := hsane
    have ht : Orderly s.tournament := hu.of_tied hinv hview.symm
    obtain ⟨hsound', hlayout⟩ := Action.revocable hidle (hallowed a hredone) ht.sound h
    obtain ⟨hindexed', hkeeps⟩ := Action.indexRevocable hidle ht.indexed h
    obtain ⟨hlinked', hback⟩ := Action.linksKept hidle ht h
    refine ⟨⟨hsound'.placed, hindexed'⟩, ⟨t', ⟨hsound', hindexed', hlinked'⟩, rfl⟩,
      fun v b v' hv hview _ hundo => ?_⟩
    obtain ⟨houtline, hlinks⟩ := tied_eq_iff.1 hview
    obtain ⟨hplaced, houtline', hidle'⟩ := hlayout hv.placed houtline hundo
    exact ⟨⟨hplaced, (hkeeps hv.indexed hundo).1⟩,
      tied_eq_iff.2 ⟨houtline', hback hv houtline hlinks hundo⟩, hidle'⟩

theorem Session.Constructed.orderly {s : Session} (h : s.Constructed) : Orderly s.tournament := by
  have hsound := linkDiscipline.sound_of_reachableBy h
  obtain ⟨u, hu, hview⟩ := hsound.sane
  exact hu.of_tied hsound.inv hview.symm

/-- In every session a player has the categories that have him, and the matches of these that he is in, and the
matches of a category are between different players of the category. -/
theorem Session.references_agree (s : Session) (hs : s.Constructed) :
    (∀ pid p cid, s.tournament.players pid = some p →
      (cid ∈ p.categories ↔ ∃ c, s.tournament.categories cid = some c ∧ pid ∈ c.players)) ∧
    (∀ pid p x, s.tournament.players pid = some p → (x ∈ p.matchIds ↔
      ∃ c m, s.tournament.categories x.categoryId = some c ∧ m ∈ c.matchList ∧ m.combinedId = x ∧
        m.Has pid)) ∧
    ∀ cid c, s.tournament.categories cid = some c → (∀ pid ∈ c.players, s.tournament.players pid ≠ none) ∧
      ∀ m ∈ c.matchList, m.combinedId.categoryId = cid ∧ (∀ pid, m.Has pid → pid ∈ c.players) ∧
        ∀ pid, ¬ (m.players.white = some pid ∧ m.players.blue = some pid) := by
  have hlinked := hs.orderly.linked
  have hindexed := hs.indexed
  refine ⟨fun pid p cid hp => hlinked.member cid pid p hp, fun pid p x hp => hlinked.fight x pid p hp,
    fun cid c hc => ⟨fun pid hpid => hlinked.members_exist cid c pid hc hpid, fun m hm => ⟨?_, ?_, ?_⟩⟩⟩
  · exact ((hindexed.index cid c hc).ids m hm).trans (hindexed.category cid c hc)
  · exact fun pid hhas => hlinked.within cid c m pid not_false hc hm hhas
  · exact fun pid => hlinked.distinct cid c m pid hc hm

/-- The semifinals of a double pool have been won, and the final has its players. -/
theorem Session.references_agree_semiFinalsWon : ∃ s : Session,
    Runs.run next DoublePoolDrawSystem.semiFinalsWon {} = some s ∧ ∀ pid p x, s.tournament.players pid = some p →
      (x ∈ p.matchIds ↔ ∃ c m, s.tournament.categories x.categoryId = some c ∧ m ∈ c.matchList ∧
        m.combinedId = x ∧ m.Has pid) := by
  have hrun : (Runs.run Session.next DoublePoolDrawSystem.semiFinalsWon {}).isSome = true := by decide +kernel
  obtain ⟨s, hs⟩ := Option.isSome_iff_exists.1 hrun
  exact ⟨s, hs, (references_agree s (DoublePoolDrawSystem.constructed_semiFinalsWon hs)).2.1⟩

/-- In every session players and categories are stored under their ids, a category finds a match by its id exactly
where its list has one, no two matches of it share an id, and the matches of both types are counted. -/
theorem Session.indices_agree (s : Session) (hs : s.Constructed) :
    (∀ pid p, s.tournament.players pid = some p → p.id = pid) ∧
    ∀ cid c, s.tournament.categories cid = some c → c.id = cid ∧
      (∀ x m, c.getMatch x = .ok m ↔ m ∈ c.matchList ∧ m.combinedId = ⟨cid, x⟩) ∧
      (c.matchList.map (·.combinedId)).Nodup ∧
      ∀ type, c.matchCount.get type = UInt64.ofNat (c.matchList.countP fun m => m.type = type) := by
  have hindexed := hs.indexed
  refine ⟨hindexed.player, fun cid c hc => ?_⟩
  have hcx := hindexed.index cid c hc
  have hid := hindexed.category cid c hc
  refine ⟨hid, fun x m => ?_, ?_, hcx.count⟩
  · rw [hcx.getMatch_ok]
    refine and_congr_right fun hm => ⟨fun hx => ?_, fun heq => congrArg CombinedId.matchId heq⟩
    have hcategory := (hcx.ids m hm).trans hid
    cases hmid : m.combinedId
    rw [MatchStore.id, hmid] at hx
    rw [hmid] at hcategory
    cases hx
    cases hcategory
    rfl
  · have hnodup : ((c.matchList.map (·.combinedId)).map (·.matchId)).Nodup := by
      rw [List.map_map]
      exact hcx.nodup_ids
    exact hnodup.of_map _

theorem Session.indices_agree_semiFinalsWon : ∃ s c, Runs.run next DoublePoolDrawSystem.semiFinalsWon {} = some s ∧
    s.tournament.categories ⟨1⟩ = some c ∧ c.matchList.length = 5 ∧ (c.matchList.map (·.combinedId)).Nodup ∧
      ∀ type, c.matchCount.get type = UInt64.ofNat (c.matchList.countP fun m => m.type = type) := by
  have hrun : ((Runs.run Session.next DoublePoolDrawSystem.semiFinalsWon {}).bind fun s =>
      (s.tournament.categories ⟨1⟩).map fun c => c.matchList.length) = some 5 := by decide +kernel
  obtain ⟨s, hs, hrest⟩ := Option.bind_eq_some_iff.1 hrun
  obtain ⟨c, hc, hlength⟩ := Option.map_eq_some_iff.1 hrest
  obtain ⟨-, -, hnodup, hcount⟩ :=
    (indices_agree s (DoublePoolDrawSystem.constructed_semiFinalsWon hs)).2 ⟨1⟩ c hc
  exact ⟨s, c, hs, hc, hlength, hnodup, hcount⟩

end JudoAssistant
