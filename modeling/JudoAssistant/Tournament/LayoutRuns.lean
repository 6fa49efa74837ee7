import JudoAssistant.Tournament.TatamiCount

/-!
# The layout in every session

The remaining actions keep the layout sound and restore the outline.  With them every action does,
so the tatamis and the locations of the categories agree in every session.
-/

namespace JudoAssistant

open Effect Exec TournamentStore

/-! ### Adding categories -/

/-- The outlines differ only in some categories. -/
structure Outline.SameOff (ids : List CategoryId) (o o' : Outline) : Prop where
  tatamis : o'.tatamis = o.tatamis
  categories : ∀ id, id ∉ ids → o'.categories id = o.categories id

theorem Outline.SameOff.refl (ids : List CategoryId) (o : Outline) : o.SameOff ids o :=
  ⟨rfl, fun _ _ => rfl⟩

theorem Outline.SameOff.trans {ids : List CategoryId} {o o' o'' : Outline} (h : o.SameOff ids o')
    (h' : o'.SameOff ids o'') : o.SameOff ids o'' :=
  ⟨h'.tatamis.trans h.tatamis, fun id hid => (h'.categories id hid).trans (h.categories id hid)⟩

theorem Outline.SameOff.mono {ids ids' : List CategoryId} {o o' : Outline} (h : o.SameOff ids o')
    (hsub : ids ⊆ ids') : o.SameOff ids' o' :=
  ⟨h.tatamis, fun id hid => h.categories id fun hmem => hid (hsub hmem)⟩

theorem Outline.sameOff_adjust {o : Outline} (id : CategoryId) (f : CategoryOutline → CategoryOutline) :
    o.SameOff [id] (o.adjust id f) := by
  refine ⟨rfl, fun i hi => ?_⟩
  rw [categories_adjust, if_neg (by simpa using hi)]

/-- Taking a block off the tatamis places no block. -/
theorem Outline.place_setPlace_none {o : Outline} {b b' : Block} (h : o.place b = none) :
    (o.setPlace b' none).place b = none := by
  by_cases hb : o.categories b'.1 = none
  · rwa [show o.setPlace b' none = o from adjust_of_eq fun c hc => by rw [hb] at hc; cases hc]
  · rw [place_setPlace hb]
    by_cases heq : b = b'
    · rw [heq, Function.update_self]
    · rwa [Function.update_of_ne heq]

/-- A new category has no blocks on the tatamis. -/
theorem layoutSound_addCategory {t : TournamentStore} (ht : LayoutSound t) {id : CategoryId}
    (hid : t.categories id = none) (name : String) (ruleset : RulesetIdentifier) (drawSystem : DrawSystem) :
    LayoutSound (t.setCategory id (.init id name ruleset drawSystem)) := by
  have houtline := outline_setCategory (t := t) id (.init id name ruleset drawSystem)
  have hcategories : ∀ i c, (t.setCategory id (.init id name ruleset drawSystem)).outline.categories i = some c →
      (i = id ∧ c = (CategoryStore.init id name ruleset drawSystem).outline) ∨
        t.outline.categories i = some c := by
    intro i c hc
    rw [houtline] at hc
    change Function.update t.outline.categories id (some _) i = some c at hc
    by_cases hi : i = id
    · subst hi
      rw [Function.update_self] at hc
      exact .inl ⟨rfl, (Option.some.inj hc).symm⟩
    · rw [Function.update_of_ne hi] at hc
      exact .inr hc
  have hplace : (t.setCategory id (.init id name ruleset drawSystem)).outline.place = t.outline.place := by
    funext b
    obtain ⟨i, type⟩ := b
    rw [place_outline, place_outline]
    show (Function.update t.categories id (some _) i).bind _ = _
    by_cases hi : i = id
    · subst hi
      rw [Function.update_self, hid]
      cases type <;> rfl
    · rw [Function.update_of_ne hi]
  refine ⟨?_, fun i c hc => ?_, fun i c hc hfinal => ?_, fun i j ks hks hplaced => ?_⟩
  · unfold Placed
    rw [hplace]
    exact ht.placed
  · obtain ⟨rfl, rfl⟩ | hc := hcategories i c hc
    · rfl
    · exact ht.allowed.keyed i c hc
  · obtain ⟨rfl, rfl⟩ | hc := hcategories i c hc
    · exact (hfinal rfl).elim
    · exact ht.allowed.final i c hc hfinal
  · rw [hplace] at hplaced
    exact ht.allowed.bounded i j ks hks hplaced

theorem AddCategoryAction.redoImpl_ok {a a' : AddCategoryAction} {t t' : TournamentStore}
    (h : a.redoImpl t = .ok a' t') : a' = a ∧ t.categories a.id = none ∧
      t' = t.setCategory a.id (.init a.id a.name a.ruleset (DrawSystem.getDrawSystem a.drawSystem)) := by
  simp only [redoImpl, bind_ok, get_ok] at h
  obtain ⟨_, _, ⟨rfl, rfl⟩, h⟩ := h
  split at h
  · exact (throw_ok.1 h).elim
  · simp only [bind_ok, addCategory_ok, pure_ok] at h
    obtain ⟨_, _, ⟨hnone, rfl⟩, rfl, rfl⟩ := h
    exact ⟨rfl, hnone, rfl⟩

theorem AddCategoryAction.revocable (a : AddCategoryAction) :
    LayoutRevocable a.redoImpl undoImpl fun _ => True := by
  intro t a' t' ht h
  obtain ⟨rfl, hnone, rfl⟩ := redoImpl_ok h
  refine ⟨layoutSound_addCategory ht hnone _ _ _, ?_⟩
  intro u b u' hu ho h
  simp only [undoImpl, bind_ok, eraseCategory_ok, pure_ok] at h
  obtain ⟨c, _, ⟨hc, rfl⟩, rfl, rfl⟩ := h
  have houtline := outline_eraseCategory (t := u) a'.id
  have hback : ({ u with categories := Function.update u.categories a'.id none } : TournamentStore).outline =
      t.outline := by
    rw [houtline, ho, outline_setCategory]
    refine Outline.ext rfl ?_
    show Function.update (Function.update t.outline.categories a'.id _) a'.id none = _
    rw [Function.update_idem, Function.update_eq_self_iff, categories_outline_eq_none.2 hnone]
  have hplace : t.outline.place = u.outline.place := by
    funext b
    rw [ho, outline_setCategory]
    unfold Outline.place
    show _ = (Function.update t.outline.categories a'.id (some _) b.1).bind _
    by_cases hb : b.1 = a'.id
    · rw [hb, Function.update_self, categories_outline_eq_none.2 hnone]
      cases b.2 <;> rfl
    · rw [Function.update_of_ne hb]
  refine ⟨?_, hback, trivial⟩
  unfold Placed
  rw [hback, hplace]
  exact hu

/-! ### Changes of one category -/

namespace ChangeCategoriesDrawSystemAction

theorem sameOff_removeFinals {ids : List CategoryId} {t t' : TournamentStore}
    {as : List (Option SetTatamiLocationAction)} (ht : LayoutSound t)
    (h : forEach removeFinal ids t = .ok as t') : t.outline.SameOff ids t'.outline := by
  induction ids generalizing t as with
  | nil =>
    obtain ⟨rfl, rfl⟩ := forEach_nil_ok.1 h
    exact .refl _ _
  | cons id ids ih =>
    obtain ⟨a, t₁, as', ha, has, rfl⟩ := forEach_cons_ok.1 h
    obtain ⟨ht₁, houtline, -⟩ := removeFinal_spec ht ha
    have hfirst : t.outline.SameOff (id :: ids) t₁.outline := by
      rw [houtline]
      exact (Outline.sameOff_adjust id _).mono (by simp)
    exact hfirst.trans ((ih ht₁ has).mono (by simp))

theorem sameOff_redoImpl {a a' : ChangeCategoriesDrawSystemAction} {t t' : TournamentStore}
    (ht : LayoutSound t) (h : a.redoImpl t = .ok a' t') :
    t.outline.SameOff a.categoryIds t'.outline := by
  obtain ⟨as, t₁, old, t₂, drawAction, has, hold, hdraw, -⟩ := redoImpl_ok h
  have hsub : a.getCategoriesThatChange t ⊆ a.categoryIds := List.filter_subset_self _
  obtain ⟨ht₁, -, -, -⟩ := removeFinals_sound ht has
  have h₁ : t.outline.SameOff a.categoryIds t₁.outline := by
    unfold removeFinals at has
    split at has
    · obtain ⟨rfl, rfl⟩ := pure_ok.1 has
      exact .refl _ _
    · simp only [bind_ok, pure_ok] at has
      obtain ⟨as', _, has, rfl, rfl⟩ := has
      exact (sameOff_removeFinals ht has).mono hsub
  obtain ⟨-, houtline₂, -⟩ := changeDrawSystems_spec ht₁.placed hold
  have htatamis : ∀ (ids : List CategoryId) (o : Outline) (kind : DrawSystemIdentifier),
      (ids.foldl (fun o id => o.setKind id kind) o).tatamis = o.tatamis := by
    intro ids
    induction ids with
    | nil => intro o kind; rfl
    | cons id ids ih => intro o kind; exact ih _ _
  have h₂ : t₁.outline.SameOff a.categoryIds t₂.outline := by
    rw [houtline₂]
    refine ⟨htatamis _ _ _, fun id hid => ?_⟩
    rw [(foldl_setKind _ _ _).2, if_neg fun hmem => hid (hsub hmem)]
  have houtline : t'.outline = t₂.outline :=
    congrArg Prod.snd (DrawCategoriesAction.plan_redoImpl rfl hdraw).1
  rw [houtline]
  exact h₁.trans h₂

theorem unplaced_removeFinals {ids : List CategoryId} {t t' : TournamentStore} {b : Block}
    {as : List (Option SetTatamiLocationAction)} (ht : LayoutSound t) (hb : t.outline.place b = none)
    (h : forEach removeFinal ids t = .ok as t') : t'.outline.place b = none := by
  induction ids generalizing t as with
  | nil =>
    obtain ⟨-, rfl⟩ := forEach_nil_ok.1 h
    exact hb
  | cons id ids ih =>
    obtain ⟨a, t₁, as', ha, has, -⟩ := forEach_cons_ok.1 h
    obtain ⟨ht₁, houtline, -⟩ := removeFinal_spec ht ha
    refine ih ht₁ ?_ has
    rw [houtline]
    exact Outline.place_setPlace_none hb

/-- The action places no block. -/
theorem unplaced_redoImpl {a a' : ChangeCategoriesDrawSystemAction} {t t' : TournamentStore} {b : Block}
    (ht : LayoutSound t) (hb : t.outline.place b = none) (h : a.redoImpl t = .ok a' t') :
    t'.outline.place b = none := by
  obtain ⟨as, t₁, old, t₂, drawAction, has, hold, hdraw, -⟩ := redoImpl_ok h
  obtain ⟨ht₁, -, -, -⟩ := removeFinals_sound ht has
  have hb₁ : t₁.outline.place b = none := by
    unfold removeFinals at has
    split at has
    · obtain ⟨-, rfl⟩ := pure_ok.1 has
      exact hb
    · obtain ⟨as', _, has', hrest⟩ := bind_ok.1 has
      obtain ⟨-, rfl⟩ := pure_ok.1 hrest
      exact unplaced_removeFinals ht hb has'
  obtain ⟨-, houtline₂, -⟩ := changeDrawSystems_spec ht₁.placed hold
  have houtline : t'.outline = t₂.outline :=
    congrArg Prod.snd (DrawCategoriesAction.plan_redoImpl rfl hdraw).1
  rwa [houtline, houtline₂, (foldl_setKind _ _ _).1]

end ChangeCategoriesDrawSystemAction

theorem AddPlayersToCategoryAction.sameOff_redoImpl {a a' : AddPlayersToCategoryAction}
    {t t' : TournamentStore} (ht : LayoutSound t) (h : a.redoImpl t = .ok a' t') :
    t.outline.SameOff [a.categoryId] t'.outline := by
  obtain ⟨rfl, rfl, -⟩ | ⟨added, t₁, -, hmembers, h⟩ := redoImpl_ok h
  · exact .refl _ _
  · have hplan : t₁.plan = t.plan := frame_changeMembers (fun _ => memberBlind_plan.joinCategory) _ hmembers
    have houtline : t₁.outline = t.outline := congrArg Prod.snd hplan
    rw [← houtline]
    obtain ⟨-, rfl, rfl⟩ | ⟨-, r, hr, rfl⟩ := h
    · exact .refl _ _
    · obtain ⟨b, hb, rfl⟩ | ⟨drawSystem, b, -, hb, rfl⟩ := RedrawAction.run_ok hr
      · have houtline' : t'.outline = t₁.outline :=
          congrArg Prod.snd (DrawCategoriesAction.plan_redoImpl rfl hb).1
        rw [houtline']
        exact .refl _ _
      · exact ChangeCategoriesDrawSystemAction.sameOff_redoImpl (ht.of_plan hplan) hb

/-- Players who join a category place no block. -/
theorem AddPlayersToCategoryAction.unplaced_redoImpl {a a' : AddPlayersToCategoryAction}
    {t t' : TournamentStore} {b : Block} (ht : LayoutSound t) (hb : t.outline.place b = none)
    (h : a.redoImpl t = .ok a' t') : t'.outline.place b = none := by
  obtain ⟨-, rfl, -⟩ | ⟨added, t₁, -, hmembers, h⟩ := redoImpl_ok h
  · exact hb
  · have hplan : t₁.plan = t.plan := frame_changeMembers (fun _ => memberBlind_plan.joinCategory) _ hmembers
    have houtline : t₁.outline = t.outline := congrArg Prod.snd hplan
    rw [← houtline] at hb
    obtain ⟨-, -, rfl⟩ | ⟨-, r, hr, -⟩ := h
    · exact hb
    · obtain ⟨c, hc, -⟩ | ⟨drawSystem, c, -, hc, -⟩ := RedrawAction.run_ok hr
      · have houtline' : t'.outline = t₁.outline :=
          congrArg Prod.snd (DrawCategoriesAction.plan_redoImpl rfl hc).1
        rwa [houtline']
      · exact ChangeCategoriesDrawSystemAction.unplaced_redoImpl (ht.of_plan hplan) hb hc

/-! ### Actions with sub-actions -/

theorem AddCategoryWithPlayersAction.revocable (a : AddCategoryWithPlayersAction) :
    LayoutRevocable a.redoImpl undoImpl fun _ => True := by
  intro t a' t' ht h
  simp only [redoImpl, bind_ok, pure_ok] at h
  obtain ⟨b, t₁, hb, playersAction, t₂, hplayers, rfl, rfl⟩ := h
  obtain ⟨ht₁, hback₁⟩ := AddCategoryAction.revocable _ ht hb
  have hcategory : LayoutBack (do
      let _ ← b.undoImpl
      return { a with categoryAction := none, playersAction := none } :
        Exec AddCategoryWithPlayersAction) (fun _ => True) t₁.outline t.outline :=
    hback₁.bind fun _ _ => .pure trivial
  unfold addPlayers at hplayers
  split at hplayers
  · next hnil =>
    obtain ⟨rfl, rfl⟩ := pure_ok.1 hplayers
    refine ⟨ht₁, LeadsBack.bind (P := fun _ => True) ?_ fun _ _ => hcategory⟩
    unfold erasePlayers
    rw [if_pos hnil]
    exact .pure trivial
  · next hne =>
    simp only [bind_ok, pure_ok] at hplayers
    obtain ⟨c, _, hc, rfl, rfl⟩ := hplayers
    obtain ⟨ht₂, hback₂⟩ := AddPlayersToCategoryAction.revocable rfl rfl ht₁ hc
    refine ⟨ht₂, LeadsBack.bind (P := fun _ => True) ?_ fun _ _ => hcategory⟩
    unfold erasePlayers
    rw [if_neg hne]
    exact hback₂.bind fun _ _ => .pure trivial

theorem AddPlayersAction.plan_redoImpl {a : AddPlayersAction} : Frame plan a.redoImpl := by
  refine Frame.get.bind fun t => ?_
  split
  · exact Frame.throw
  · exact (frame_forEach fun _ _ => plan_addPlayer).bind fun _ => Frame.pure

theorem AddPlayersAction.plan_undoImpl {a : AddPlayersAction} : Frame plan a.undoImpl :=
  (frame_forEach fun _ _ => plan_erasePlayer).bind fun _ => Frame.pure

theorem AddPlayersWithCategoriesAction.revocable {a : AddPlayersWithCategoriesAction}
    (hcategories : a.addCategoryActions = []) (hplayers : a.addPlayersToCategoryActions = []) :
    LayoutRevocable a.redoImpl undoImpl
      fun a => a.addCategoryActions = [] ∧ a.addPlayersToCategoryActions = [] := by
  intro t a' t' ht h
  simp only [redoImpl, bind_ok, pure_ok] at h
  obtain ⟨b, t₁, hb, cs, t₂, hcs, ps, t₃, hps, rfl, rfl⟩ := h
  have hplan : t₁.plan = t.plan := AddPlayersAction.plan_redoImpl hb
  have houtline : t₁.outline = t.outline := congrArg Prod.snd hplan
  obtain ⟨ht₂, hback₂⟩ := revocable_forEach (fun _ _ => AddCategoryAction.revocable _) (ht.of_plan hplan) hcs
  obtain ⟨ht₃, hback₃⟩ :=
    revocable_forEach (fun _ _ => AddPlayersToCategoryAction.revocable rfl rfl) ht₂ hps
  refine ⟨ht₃, ?_⟩
  rw [houtline] at hback₂
  rw [hcategories, hplayers, List.append_nil, List.append_nil]
  exact hback₃.bind fun _ _ => hback₂.bind fun _ _ =>
    (layoutBack_of_plan AddPlayersAction.plan_undoImpl).bind fun _ _ => .pure ⟨rfl, rfl⟩

namespace AutoAddCategoriesAction

theorem addGroups_spec {baseName : String} {groups : List ((CategoryId × List PlayerId) × ℕ)}
    {t t' : TournamentStore} {us : List Unit} (ht : LayoutSound t)
    (h : forEach (addGroup baseName) groups t = .ok us t') :
    LayoutSound t' ∧ t.outline.SameOff (groups.map (·.1.1)) t'.outline := by
  induction groups generalizing t us with
  | nil =>
    obtain ⟨rfl, rfl⟩ := forEach_nil_ok.1 h
    exact ⟨ht, .refl _ _⟩
  | cons g groups ih =>
    obtain ⟨_, t₁, us', hg, hgroups, rfl⟩ := forEach_cons_ok.1 h
    simp only [addGroup, bind_ok, read_ok, addCategory_ok] at hg
    obtain ⟨drawSystem, _, ⟨-, rfl⟩, hnone, rfl⟩ := hg
    obtain ⟨ht', hoff⟩ := ih (layoutSound_addCategory ht hnone _ _ _) hgroups
    refine ⟨ht', Outline.SameOff.trans ?_ (hoff.mono (by simp))⟩
    rw [outline_setCategory]
    refine ⟨rfl, fun id hid => ?_⟩
    show Function.update _ _ _ id = _
    rw [Function.update_of_ne]
    rintro rfl
    exact hid (by simp [CategoryStore.init])

theorem addPlayers_spec {seed : ℕ} {groups : List (CategoryId × List PlayerId)} {t t' : TournamentStore}
    {as : List AddPlayersToCategoryAction} (ht : LayoutSound t)
    (h : forEach (fun g => AddPlayersToCategoryAction.redoImpl
      { categoryId := g.1, playerIds := g.2, seed := seed }) groups t = .ok as t') :
    LayoutSound t' ∧ t.outline.SameOff (groups.map (·.1)) t'.outline := by
  induction groups generalizing t as with
  | nil =>
    obtain ⟨rfl, rfl⟩ := forEach_nil_ok.1 h
    exact ⟨ht, .refl _ _⟩
  | cons g groups ih =>
    obtain ⟨a, t₁, as', ha, has, rfl⟩ := forEach_cons_ok.1 h
    have hoff := AddPlayersToCategoryAction.sameOff_redoImpl ht ha
    obtain ⟨ht₁, -⟩ := AddPlayersToCategoryAction.revocable rfl rfl ht ha
    obtain ⟨ht', hoff'⟩ := ih ht₁ has
    exact ⟨ht', (hoff.mono (by simp)).trans (hoff'.mono (by simp))⟩

theorem unplaced_addGroups {baseName : String} {groups : List ((CategoryId × List PlayerId) × ℕ)}
    {t t' : TournamentStore} {us : List Unit} {b : Block} (hb : t.outline.place b = none)
    (h : forEach (addGroup baseName) groups t = .ok us t') : t'.outline.place b = none := by
  induction groups generalizing t us with
  | nil =>
    obtain ⟨-, rfl⟩ := forEach_nil_ok.1 h
    exact hb
  | cons g groups ih =>
    obtain ⟨_, t₁, us', hg, hgroups, -⟩ := forEach_cons_ok.1 h
    simp only [addGroup, bind_ok, read_ok, addCategory_ok] at hg
    obtain ⟨drawSystem, _, ⟨-, rfl⟩, hnone, rfl⟩ := hg
    refine ih ?_ hgroups
    obtain ⟨id, type⟩ := b
    rw [place_outline] at hb ⊢
    show (Function.update t.categories g.1.1 (some _) id).bind _ = none
    by_cases hid : id = g.1.1
    · rw [hid, Function.update_self]
      cases type <;> rfl
    · rwa [Function.update_of_ne hid]

theorem unplaced_addPlayers {seed : ℕ} {groups : List (CategoryId × List PlayerId)} {t t' : TournamentStore}
    {as : List AddPlayersToCategoryAction} {b : Block} (ht : LayoutSound t) (hb : t.outline.place b = none)
    (h : forEach (fun g => AddPlayersToCategoryAction.redoImpl
      { categoryId := g.1, playerIds := g.2, seed := seed }) groups t = .ok as t') :
    t'.outline.place b = none := by
  induction groups generalizing t as with
  | nil =>
    obtain ⟨-, rfl⟩ := forEach_nil_ok.1 h
    exact hb
  | cons g groups ih =>
    obtain ⟨a, t₁, as', ha, has, -⟩ := forEach_cons_ok.1 h
    obtain ⟨ht₁, -⟩ := AddPlayersToCategoryAction.revocable rfl rfl ht ha
    exact ih ht₁ (AddPlayersToCategoryAction.unplaced_redoImpl ht hb ha) has

theorem map_zipIdx_groups (groups : List (CategoryId × List PlayerId)) :
    groups.zipIdx.map (·.1.1) = groups.map (·.1) := by
  rw [← List.zipIdx_map_fst 0 groups, List.map_map]
  simp

/-- The categories of the groups are new; the action adds them and lets the players join. -/
theorem redoImpl_ok {a a' : AutoAddCategoriesAction} {t t' : TournamentStore} (h : a.redoImpl t = .ok a' t') :
    a' = a ∧ (∀ id ∈ a.groups.map (·.1), t.categories id = none) ∧ ∃ us t₁ as,
      forEach (addGroup a.baseName) a.groups.zipIdx t = .ok us t₁ ∧
      forEach (fun g => AddPlayersToCategoryAction.redoImpl
        { categoryId := g.1, playerIds := g.2, seed := a.seed }) a.groups t₁ = .ok as t' := by
  simp only [redoImpl, bind_ok, get_ok] at h
  obtain ⟨_, _, ⟨hget, hsame⟩, h⟩ := h
  rw [hget, hsame] at h
  split at h
  · exact (throw_ok.1 h).elim
  · next hnew =>
    simp only [bind_ok, pure_ok] at h
    obtain ⟨us, t₁, hus, as, _, has, rfl, rfl⟩ := h
    refine ⟨rfl, fun id hid => ?_, us, t₁, as, hus, has⟩
    obtain ⟨g, hg, rfl⟩ := List.mem_map.1 hid
    by_contra hne
    exact hnew (List.any_eq_true.2 ⟨g, hg, Option.isSome_iff_ne_none.2 hne⟩)

/-- `undoImpl` erases the categories, wherever their blocks are. -/
theorem revocable (a : AutoAddCategoriesAction) : LayoutRevocable a.redoImpl undoImpl fun _ => True := by
  intro t a' t' ht h
  obtain ⟨rfl, hnew, us, t₁, as, hus, has⟩ := redoImpl_ok h
  obtain ⟨ht₁, hoff₁⟩ := addGroups_spec ht hus
  obtain ⟨ht', hoff₂⟩ := addPlayers_spec ht₁ has
  rw [map_zipIdx_groups] at hoff₁
  have hoff := hoff₁.trans hoff₂
  refine ⟨ht', ?_⟩
  intro u b u' hu ho h
  simp only [undoImpl, bind_ok, pure_ok] at h
  obtain ⟨e, _, he, rfl, rfl⟩ := h
  obtain ⟨hplaced, houtline⟩ := EraseCategoriesAction.placed_redoImpl hu he
  refine ⟨hplaced, ?_, trivial⟩
  rw [houtline]
  refine Outline.ext (by rw [← hoff.tatamis, ← ho]; rfl) (funext fun id => ?_)
  show (if id ∈ (a'.groups.map (·.1)).filter u.containsCategory then none
    else u.outline.categories id) = t.outline.categories id
  by_cases hid : id ∈ a'.groups.map (·.1)
  · rw [categories_outline_eq_none.2 (hnew id hid)]
    split
    · rfl
    · next hnot =>
      rw [List.mem_filter, not_and] at hnot
      have := hnot hid
      rw [categories_outline_eq_none]
      simpa [TournamentStore.containsCategory] using this
  · rw [if_neg fun hmem => hid (List.mem_of_mem_filter hmem), ho, hoff.categories id hid]

end AutoAddCategoriesAction

/-! ### Actions that leave the plan -/

section

variable {α β : Type} {P : β → Prop}

/-- An action that leaves the plan can be taken back. -/
theorem layoutRevocable_of_plan_result {x : Exec α} {undo : α → Exec β} (hx : Frame plan x)
    (hundo : ∀ a, Frame plan (undo a))
    (hP : ∀ ⦃t a t' u b u'⦄, x t = .ok a t' → undo a u = .ok b u' → P b) : LayoutRevocable x undo P := by
  intro t a t' ht ha
  obtain ⟨ht', hback⟩ := layoutRevocable_of_plan hx hundo ht ha
  refine ⟨ht', fun u b u' hu ho hb => ?_⟩
  obtain ⟨hu', ho', -⟩ := hback hu ho hb
  exact ⟨hu', ho', hP ha hb⟩

end

/-- A match event that keeps no state has run no draw actions. -/
theorem MatchEventAction.drawActions_redoImpl {a a' : MatchEventAction} {t t' : TournamentStore}
    (h : a.redoImpl t = .ok a' t') : a'.saved ≠ .clear ∨ a'.drawActions = a.drawActions := by
  simp only [redoImpl, redoWith, bind_ok, get_ok] at h
  obtain ⟨⟨saved, stack⟩, _, ⟨t₀, _, -, h⟩, h'⟩ := h
  obtain ⟨rfl, rfl⟩ := pure_ok.1 h'
  cases hfind : t₀.findMatch a.combinedId with
  | none =>
    rw [hfind] at h
    obtain ⟨heq, -⟩ := pure_ok.1 h
    cases heq
    exact .inr rfl
  | some c =>
    rw [hfind] at h
    obtain ⟨m, _, -, h⟩ := bind_ok.1 h
    split at h
    · simp only [bind_ok, pure_ok] at h
      obtain ⟨_, _, -, _, _, -, heq, -⟩ := h
      cases heq
      exact .inl (by simp)
    · obtain ⟨heq, -⟩ := pure_ok.1 h
      cases heq
      exact .inr rfl

theorem MatchEventAction.revocable {a : MatchEventAction} (hidle : a.drawActions = []) :
    LayoutRevocable a.redoImpl undoImpl fun a => a.drawActions = [] := by
  refine layoutRevocable_of_plan_result matchBlind_plan.matchEvent_redo
    (fun _ => matchBlind_plan.matchEvent_undo) fun t a' t' u b u' h hundo => ?_
  have hclear := drawActions_redoImpl h
  unfold undoImpl at hundo
  cases hsaved : a'.saved with
  | unwritten =>
    rw [hsaved] at hundo
    exact (throw_ok.1 hundo).elim
  | clear =>
    rw [hsaved] at hundo
    obtain ⟨rfl, -⟩ := pure_ok.1 hundo
    exact (hclear.resolve_left fun hne => hne hsaved).trans hidle
  | state prevState prevEventSize =>
    rw [hsaved] at hundo
    simp only [bind_ok, pure_ok] at hundo
    obtain ⟨_, _, -, _, _, -, rfl, -⟩ := hundo
    rfl

theorem ResetMatchesAction.revocable {a : ResetMatchesAction} (hmatches : a.changedMatches = [])
    (hdraw : a.drawActions = []) :
    LayoutRevocable a.redoImpl undoImpl fun a => a.changedMatches = [] ∧ a.drawActions = [] := by
  refine layoutRevocable_of_plan_result matchBlind_plan.resetMatches_redo
    (fun _ => matchBlind_plan.resetMatches_undo)
    fun t a' t' u b u' h hundo => ?_
  simp only [redoImpl, bind_ok, pure_ok] at h
  obtain ⟨ids, _, -, resets, _, -, stack, _, hstack, rfl, -⟩ := h
  unfold undoImpl at hundo
  split at hundo
  · next hnil =>
    obtain ⟨rfl, -⟩ := pure_ok.1 hundo
    have hresets : resets = [] := by simpa [hmatches] using hnil
    subst hresets
    obtain ⟨rfl, -⟩ := pure_ok.1 hstack
    exact ⟨hnil, hdraw⟩
  · simp only [bind_ok, pure_ok] at hundo
    obtain ⟨_, _, -, _, _, -, rfl, -⟩ := hundo
    exact ⟨rfl, rfl⟩

theorem ChangePlayersAction.revocable {α : Type} [DecidableEq α] (field : PlayerField α)
    (a : ChangePlayersAction α) :
    LayoutRevocable (a.redoImpl field) (undoImpl field) fun a => a.changedPlayers = [] := by
  refine layoutRevocable_of_plan_result ((frame_changeField fieldBlind_plan _).bind fun _ => Frame.pure)
    (fun _ => (frame_restoreField fieldBlind_plan).bind fun _ => Frame.pure) fun t a' t' u b u' _ hundo => ?_
  simp only [undoImpl, bind_ok, pure_ok] at hundo
  obtain ⟨_, _, -, rfl, -⟩ := hundo
  rfl

theorem ChangeCategoriesNameAction.revocable (a : ChangeCategoriesNameAction) :
    LayoutRevocable a.redoImpl undoImpl fun a => a.changedCategories = [] := by
  refine layoutRevocable_of_plan_result labelBlind_plan.changeName_redo
    (fun _ => labelBlind_plan.changeName_undo) fun t a' t' u b u' _ hundo => ?_
  simp only [undoImpl, bind_ok, pure_ok] at hundo
  obtain ⟨_, _, -, rfl, -⟩ := hundo
  rfl

theorem ChangeCategoriesRulesetAction.revocable (a : ChangeCategoriesRulesetAction) :
    LayoutRevocable a.redoImpl undoImpl fun a => a.changedCategories = [] := by
  refine layoutRevocable_of_plan_result (labelBlind_plan.changeRuleset_redo matchBlind_plan)
    (fun _ => labelBlind_plan.changeRuleset_undo matchBlind_plan)
    fun t a' t' u b u' _ hundo => ?_
  unfold undoImpl at hundo
  cases hreset : a'.resetAction with
  | none =>
    rw [hreset] at hundo
    exact (throw_ok.1 hundo).elim
  | some resetAction =>
    rw [hreset] at hundo
    simp only [bind_ok, pure_ok] at hundo
    obtain ⟨_, _, -, _, _, -, rfl, -⟩ := hundo
    rfl

theorem ChangePlayersWeightAction.revocable (a : ChangePlayersWeightAction) :
    LayoutRevocable a.redoImpl undoImpl fun a => a.changedPlayers = [] ∧ a.drawActions = [] := by
  refine layoutRevocable_of_plan_result ((frame_changeField fieldBlind_plan _).bind fun _ => frame_read.bind fun _ =>
    (matchBlind_plan.updateDraws _ _).bind fun _ => Frame.pure)
    (fun _ => (matchBlind_plan.drawAction_undoAll _).bind fun _ =>
      (frame_restoreField fieldBlind_plan).bind fun _ => Frame.pure)
    fun t a' t' u b u' _ hundo => ?_
  simp only [undoImpl, bind_ok, pure_ok] at hundo
  obtain ⟨_, _, -, _, _, -, rfl, -⟩ := hundo
  exact ⟨rfl, rfl⟩

/-- The action is one that the repository constructs. -/
def Action.Constructed : Action → Prop
  | .setTatamiCount a => a.Constructed
  | _ => True

/-- Every action keeps the layout sound, and its `undoImpl` restores the outline. -/
theorem Action.revocable {a : Action} (hidle : a.Idle) (hnew : a.Constructed) :
    LayoutRevocable a.redoImpl undoImpl Idle := by
  cases a with
  | addCategory a => exact a.revocable.wrap (fun _ => rfl) fun _ _ => trivial
  | addCategoryWithPlayers a => exact a.revocable.wrap (fun _ => rfl) fun _ _ => trivial
  | addDrawSystemPreferenceRow a =>
    exact (layoutRevocable_of_plan valueBlind_plan.addRow_redo fun _ => valueBlind_plan.addRow_undo).wrap
      (fun _ => rfl) fun _ _ => trivial
  | addPlayers a =>
    exact (layoutRevocable_of_plan AddPlayersAction.plan_redoImpl
      fun _ => AddPlayersAction.plan_undoImpl).wrap (fun _ => rfl) fun _ _ => trivial
  | addPlayersToCategory a =>
    exact (AddPlayersToCategoryAction.revocable hidle.1 hidle.2).wrap (fun _ => rfl) fun _ h => h
  | addPlayersWithCategories a =>
    exact (AddPlayersWithCategoriesAction.revocable hidle.1 hidle.2).wrap (fun _ => rfl) fun _ h => h
  | autoAddCategories a => exact a.revocable.wrap (fun _ => rfl) fun _ _ => trivial
  | changeCategoriesDrawSystem a =>
    exact (ChangeCategoriesDrawSystemAction.revocable hidle.1 hidle.2).wrap (fun _ => rfl) fun _ h => h
  | changeCategoriesName a => exact a.revocable.wrap (fun _ => rfl) fun _ h => h
  | changeCategoriesRuleset a => exact a.revocable.wrap (fun _ => rfl) fun _ h => h
  | changeDrawSystemPreferenceIdentifier a =>
    exact (layoutRevocable_of_plan (valueBlind_plan.editPreferences.bind fun _ => Frame.pure)
      fun _ => valueBlind_plan.editPreferences.bind fun _ => Frame.pure).wrap (fun _ => rfl) fun _ _ => trivial
  | changeDrawSystemPreferenceLimit a =>
    exact (layoutRevocable_of_plan valueBlind_plan.changeLimit_redo
      fun _ => valueBlind_plan.changeLimit_undo).wrap (fun _ => rfl) fun _ _ => trivial
  | changeMatchCardStylePreference a =>
    exact (layoutRevocable_of_plan (ValueBlind.changeValue_redo fun _ _ => rfl)
      fun _ => ValueBlind.changeValue_undo fun _ _ => rfl).wrap (fun _ => rfl) fun _ _ => trivial
  | changePlayersAge a => exact (a.revocable ageField).wrap (fun _ => rfl) fun _ h => h
  | changePlayersBlueJudogiHint a => exact a.revocable.wrap (fun _ => rfl) fun _ h => h
  | changePlayersClub a => exact (a.revocable clubField).wrap (fun _ => rfl) fun _ h => h
  | changePlayersCountry a => exact (a.revocable countryField).wrap (fun _ => rfl) fun _ h => h
  | changePlayersFirstName a => exact (a.revocable firstNameField).wrap (fun _ => rfl) fun _ h => h
  | changePlayersLastName a => exact (a.revocable lastNameField).wrap (fun _ => rfl) fun _ h => h
  | changePlayersRank a => exact (a.revocable rankField).wrap (fun _ => rfl) fun _ h => h
  | changePlayersSex a => exact (a.revocable sexField).wrap (fun _ => rfl) fun _ h => h
  | changePlayersWeight a => exact a.revocable.wrap (fun _ => rfl) fun _ h => h
  | changeScoreboardStylePreference a =>
    exact (layoutRevocable_of_plan (ValueBlind.changeValue_redo fun _ _ => rfl)
      fun _ => ValueBlind.changeValue_undo fun _ _ => rfl).wrap (fun _ => rfl) fun _ _ => trivial
  | changeTournamentDate a =>
    exact (layoutRevocable_of_plan (ValueBlind.changeValue_redo fun _ _ => rfl)
      fun _ => ValueBlind.changeValue_undo fun _ _ => rfl).wrap (fun _ => rfl) fun _ _ => trivial
  | changeTournamentLocation a =>
    exact (layoutRevocable_of_plan (ValueBlind.changeValue_redo fun _ _ => rfl)
      fun _ => ValueBlind.changeValue_undo fun _ _ => rfl).wrap (fun _ => rfl) fun _ _ => trivial
  | changeTournamentName a =>
    exact (layoutRevocable_of_plan (ValueBlind.changeValue_redo fun _ _ => rfl)
      fun _ => ValueBlind.changeValue_undo fun _ _ => rfl).wrap (fun _ => rfl) fun _ _ => trivial
  | changeTournamentWebName a =>
    exact (layoutRevocable_of_plan (ValueBlind.changeValue_redo fun _ _ => rfl)
      fun _ => ValueBlind.changeValue_undo fun _ _ => rfl).wrap (fun _ => rfl) fun _ _ => trivial
  | drawCategories a => exact (DrawCategoriesAction.revocable hidle).wrap (fun _ => rfl) fun _ h => h
  | eraseCategories a =>
    exact (EraseCategoriesAction.revocable hidle.1 hidle.2).wrap (fun _ => rfl) fun _ h => h
  | eraseDrawSystemPreferenceRow a =>
    exact (layoutRevocable_of_plan valueBlind_plan.eraseRow_redo
      fun _ => valueBlind_plan.eraseRow_undo).wrap (fun _ => rfl) fun _ _ => trivial
  | erasePlayers a =>
    exact (ErasePlayersAction.revocable hidle.2.2).wrap (fun _ => rfl) fun _ h => h
  | erasePlayersFromAllCategories a =>
    exact (ErasePlayersFromAllCategoriesAction.revocable hidle).wrap (fun _ => rfl) fun _ h => h
  | erasePlayersFromCategory a =>
    exact (ErasePlayersFromCategoryAction.revocable hidle.1 hidle.2).wrap (fun _ => rfl) fun _ h => h
  | matchEvent a => exact (MatchEventAction.revocable hidle).wrap (fun _ => rfl) fun _ h => h
  | resetMatches a =>
    exact (ResetMatchesAction.revocable hidle.1 hidle.2).wrap (fun _ => rfl) fun _ h => h
  | setCategoriesMatchesHidden a =>
    exact (layoutRevocable_of_plan (frame_read.bind fun _ =>
      (labelBlind_plan.setHidden matchBlind_plan).bind fun _ => Frame.pure)
      fun _ => (labelBlind_plan.setHidden matchBlind_plan).bind fun _ => Frame.pure).wrap
        (fun _ => rfl) fun _ _ => trivial
  | setTatamiCount a => exact (SetTatamiCountAction.revocable hnew hidle).wrap (fun _ => rfl) fun _ h => h
  | setTatamiLocation a =>
    exact (SetTatamiLocationAction.revocable a).wrap (fun _ => rfl) fun _ _ => trivial

/-- The outline is restored by undoing in reverse order. -/
def layoutDiscipline : Session.Discipline Outline where
  Inv := Placed
  view := outline
  Sane := Outline.Allowed
  allowed s e := ∀ a, s.redone e = some a → a.Constructed
  safe _ _ := True
  init := by
    refine ⟨Layout.holds_iff.2 ⟨PositionManager.sound_empty, fun i => ?_⟩, by simp [outline], by simp [outline],
      fun i j ks hks h => ?_⟩
    · exact Layout.tatamiHolds_of_empty (.inl rfl) fun b j k hb => by cases hb
    · cases ks with
      | nil => simp
      | cons k ks =>
        obtain ⟨b, hb⟩ := h k List.mem_cons_self
        cases hb
  safe_of_allowed := fun _ _ _ _ _ => trivial
  redo := by
    intro s e a a' t' hallowed hredone hidle hinv hsane h
    obtain ⟨ht', hback⟩ := Action.revocable hidle (hallowed a hredone) ⟨hinv, hsane⟩ h
    exact ⟨ht'.placed, ht'.allowed, fun u b u' hu ho _ hundo => hback hu ho hundo⟩

/-! ### Consistency -/

/-- The concurrent group of a tatami. -/
def TatamiList.IsConcurrent (t : TatamiList) (i j : PositionId) (group : ConcurrentBlockGroup) : Prop :=
  ∃ tatami, t.tatamis.elements i = some tatami ∧ tatami.groups.elements j = some group

/-- The sequential group with the ids. -/
def TatamiList.IsSequential (t : TatamiList) (g : GroupId) (group : SequentialBlockGroup) : Prop :=
  ∃ concurrent, t.IsConcurrent g.tatami g.concurrent concurrent ∧
    concurrent.groups.elements g.sequential = some group

/-- The block has the location. -/
def TournamentStore.IsAt (t : TournamentStore) (b : Block) (l : BlockLocation) : Prop :=
  ∃ c, t.categories b.1 = some c ∧ c.getLocation b.2 = some l

/-- The tatamis and the locations of the categories are consistent. -/
structure TournamentStore.Consistent (t : TournamentStore) : Prop where
  /-- A block with a location is in the group that the location names, once. -/
  inside : ∀ b l, t.IsAt b l → ∃ group, t.tatamis.IsSequential l.groupId group ∧ group.blocks.count b = 1
  /-- A block of a group has a location that names the group. -/
  only : ∀ g group b, t.tatamis.IsSequential g group → b ∈ group.blocks → ∃ l, t.IsAt b l ∧ l.groupId = g
  sequential : ∀ g group, t.tatamis.IsSequential g group → group.blocks ≠ []
  concurrent : ∀ i j group, t.tatamis.IsConcurrent i j group → group.groups.size ≠ 0
  bounded : ∀ i j group, t.tatamis.IsConcurrent i j group →
    group.groups.size ≤ ConcurrentBlockGroup.maxGroupCount
  final : ∀ id c, t.categories id = some c → c.getLocation .final ≠ none → c.drawSystem.hasFinalBlock = true
  /-- The order lists of the position managers are the keys of their maps, without duplicates. -/
  tatamis : t.tatamis.tatamis.Sound
  groups : ∀ i tatami, t.tatamis.tatamis.elements i = some tatami → tatami.groups.Sound
  subgroups : ∀ i j group, t.tatamis.IsConcurrent i j group → group.groups.Sound
  refresh : ∀ b l, t.IsAt b l → ∃ l', t.tatamis.refreshLocation l b = .ok l'

theorem TatamiList.group_layout {t : TatamiList} {i j : PositionId} {group : ConcurrentBlockGroup}
    (h : t.IsConcurrent i j group) : t.layout.group i j = some group.layout := by
  obtain ⟨tatami, htatami, hgroup⟩ := h
  show (Option.map _ (t.tatamis.elements i)).bind _ = _
  rw [htatami]
  show Option.map _ (tatami.groups.elements j) = _
  rw [hgroup]
  rfl

theorem TatamiList.blocks_layout {t : TatamiList} {g : GroupId} {group : SequentialBlockGroup}
    (h : t.IsSequential g group) : t.layout.blocks g = group.blocks := by
  obtain ⟨concurrent, hconcurrent, hgroup⟩ := h
  unfold Layout.blocks
  rw [group_layout hconcurrent]
  show (Option.map _ (concurrent.groups.elements g.sequential)).getD [] = _
  rw [hgroup]
  rfl

theorem TatamiList.isSequential_of_mem {t : TatamiList} {g : GroupId} {b : Block}
    (h : b ∈ t.layout.blocks g) : ∃ group, t.IsSequential g group := by
  cases htatami : t.tatamis.elements g.tatami with
  | none =>
    rw [show t.layout.blocks g = [] by
      show ((Option.bind (Option.map _ (t.tatamis.elements g.tatami)) _).bind _).getD [] = _
      rw [htatami]
      rfl] at h
    cases h
  | some tatami =>
    cases hconcurrent : tatami.groups.elements g.concurrent with
    | none =>
      rw [show t.layout.blocks g = [] by
        show ((Option.bind (Option.map _ (t.tatamis.elements g.tatami)) _).bind _).getD [] = _
        rw [htatami]
        show ((Option.map _ (tatami.groups.elements g.concurrent)).bind _).getD [] = _
        rw [hconcurrent]
        rfl] at h
      cases h
    | some concurrent =>
      cases hgroup : concurrent.groups.elements g.sequential with
      | none =>
        rw [show t.layout.blocks g = [] by
          unfold Layout.blocks
          rw [group_layout ⟨tatami, htatami, hconcurrent⟩]
          show (Option.map _ (concurrent.groups.elements g.sequential)).getD [] = _
          rw [hgroup]
          rfl] at h
        cases h
      | some group => exact ⟨group, concurrent, ⟨tatami, htatami, hconcurrent⟩, hgroup⟩

theorem TournamentStore.isAt_iff {t : TournamentStore} {b : Block} {g : GroupId} :
    t.outline.place b = some g ↔ ∃ l, t.IsAt b l ∧ l.groupId = g := by
  obtain ⟨id, type⟩ := b
  rw [place_outline, Option.bind_eq_some_iff]
  constructor
  · rintro ⟨c, hc, hl⟩
    obtain ⟨l, hl', rfl⟩ := Option.map_eq_some_iff.1 hl
    exact ⟨l, ⟨c, hc, hl'⟩, rfl⟩
  · rintro ⟨l, ⟨c, hc, hl⟩, rfl⟩
    refine ⟨c, hc, ?_⟩
    change c.getLocation type = some l at hl
    rw [hl]
    rfl

theorem PositionManager.Sound.getIndex {α : Type} {p : PositionManager α} (hp : p.Sound)
    (handle : PositionHandle) (h : p.elements handle.id ≠ none) : ∃ i, p.getIndex handle = .ok i := by
  refine ⟨p.ids.idxOf handle.id, ?_⟩
  unfold PositionManager.getIndex
  rw [decide_eq_true (hp.mem_ids.2 h)]
  rfl

theorem consistent_of_layoutSound {t : TournamentStore} (ht : LayoutSound t) : t.Consistent := by
  obtain ⟨hplaced, hallowed⟩ := ht
  have hsub : ∀ i j group, t.tatamis.IsConcurrent i j group → group.groups.Sound := by
    intro i j group hgroup
    exact (hplaced.ordered.sequential i j _ (TatamiList.group_layout hgroup)).of_map
  have hgroups : ∀ i tatami, t.tatamis.tatamis.elements i = some tatami → tatami.groups.Sound := by
    intro i tatami htatami
    refine (hplaced.ordered.concurrent i tatami.layout ?_).of_map
    show Option.map _ (t.tatamis.tatamis.elements i) = _
    rw [htatami]
    rfl
  have hinside : ∀ b l, t.IsAt b l →
      b ∈ t.tatamis.layout.blocks l.groupId ∧ ∃ group, t.tatamis.IsSequential l.groupId group := by
    intro b l hl
    have hmem := (hplaced.mem_blocks b l.groupId).2 (isAt_iff.2 ⟨l, hl, rfl⟩)
    exact ⟨hmem, TatamiList.isSequential_of_mem hmem⟩
  refine ⟨fun b l hl => ?_, fun g group b hgroup hb => ?_, fun g group hgroup => ?_,
    fun i j group hgroup => ?_, fun i j group hgroup => ?_, fun id c hc hfinal => ?_,
    hplaced.ordered.tatamis.of_map, hgroups, hsub, fun b l hl => ?_⟩
  · obtain ⟨hmem, group, hgroup⟩ := hinside b l hl
    have hblocks := TatamiList.blocks_layout hgroup
    refine ⟨group, hgroup, ?_⟩
    rw [← hblocks]
    exact List.count_eq_one_of_mem (hplaced.nodup _) hmem
  · rw [← TatamiList.blocks_layout hgroup, hplaced.mem_blocks, isAt_iff] at hb
    exact hb
  · obtain ⟨concurrent, hconcurrent, hsequential⟩ := hgroup
    have hfull := (hplaced.full _ _ _ (TatamiList.group_layout hconcurrent)).2 g.sequential
    refine hfull group.blocks ?_
    show Option.map _ (concurrent.groups.elements g.sequential) = _
    rw [hsequential]
    rfl
  · have hfull := (hplaced.full _ _ _ (TatamiList.group_layout hgroup)).1
    exact fun hzero => hfull (List.length_eq_zero_iff.1 hzero)
  · have hG := TatamiList.group_layout hgroup
    exact hallowed.bounded i j group.groups.ids (hplaced.ordered.sequential i j _ hG).nodup
      fun k hk => (hplaced.mem_group_ids hG k).1 hk
  · have hkind := hallowed.final id c.outline (categories_outline hc) (by
      show Option.map _ (c.getLocation .final) ≠ none
      simpa using hfinal)
    change (DrawSystem.getDrawSystem c.drawSystem.getIdentifier).hasFinalBlock = true at hkind
    revert hkind
    cases c.drawSystem <;> exact fun hkind => hkind
  · obtain ⟨hmem, group, hgroup⟩ := hinside b l hl
    have hblocks := TatamiList.blocks_layout hgroup
    obtain ⟨concurrent, ⟨tatami, htatami, hconcurrent⟩, hsequential⟩ := hgroup
    obtain ⟨i, hi⟩ := hplaced.ordered.tatamis.of_map.getIndex l.getTatamiHandle
      (by rw [show t.tatamis.tatamis.elements l.getTatamiHandle.id = some tatami from htatami]; simp)
    obtain ⟨j, hj⟩ := (hgroups _ _ htatami).getIndex l.getConcurrentGroupHandle
      (by rw [show tatami.groups.elements l.getConcurrentGroupHandle.id = some concurrent from hconcurrent]
          simp)
    obtain ⟨k, hk⟩ := (hsub _ _ _ ⟨tatami, htatami, hconcurrent⟩).getIndex
      l.getSequentialGroupHandle
      (by rw [show concurrent.groups.elements l.getSequentialGroupHandle.id = some group from hsequential]
          simp)
    rw [hblocks] at hmem
    simp only [TatamiList.refreshLocation, except_bind_ok, PositionManager.at'_ok, check_ok,
      except_pure_ok, decide_eq_true_eq]
    exact ⟨_, i, hi, tatami, htatami, j, hj, concurrent, hconcurrent, k, hk, group, hsequential, (), hmem, rfl⟩

/-- In every session the tatamis and the locations of the categories are consistent. -/
theorem layout_consistent_of_reachable (s : Session)
    (h : Session.ReachableBy (fun s e => ∀ a, s.redone e = some a → a.Constructed) s) :
    s.tournament.Consistent := by
  have hsound := layoutDiscipline.sound_of_reachableBy h
  exact consistent_of_layoutSound ⟨hsound.inv, hsound.sane⟩

/-- A run that adds a category and a tatami and places the elimination block of the category. -/
def placeBlock : List Session.Event :=
  [.redo (.addCategory ⟨⟨1⟩, "", .twentyEighteen, .pool⟩),
    .redo (.setTatamiCount { locations := [⟨⟨⟨1⟩, 0⟩⟩] }),
    .redo (.setTatamiLocation
      { block := (⟨1⟩, .elimination)
        location := some ⟨⟨⟨⟨⟨⟨1⟩, 0⟩⟩, ⟨⟨2⟩, 0⟩⟩, ⟨⟨3⟩, 0⟩⟩, 0⟩ })]

theorem layout_consistent_of_placeBlock :
    ∃ s, Runs.run Session.next placeBlock {} = some s ∧ s.tournament.Consistent ∧
      s.tournament.tatamis.layout.blocks ⟨⟨1⟩, ⟨2⟩, ⟨3⟩⟩ = [(⟨1⟩, .elimination)] := by
  refine ⟨⟨_, _, _⟩, rfl, layout_consistent_of_reachable ⟨_, _, _⟩ ⟨placeBlock, ?_, rfl⟩, rfl⟩
  refine ⟨?_, ?_, ?_, trivial⟩
  · intro a ha
    cases ha
    trivial
  · intro a ha
    cases ha
    intro i l hl
    cases i with
    | zero =>
      cases hl
      rfl
    | succ i => cases hl
  · intro a ha
    cases ha
    trivial

end JudoAssistant
