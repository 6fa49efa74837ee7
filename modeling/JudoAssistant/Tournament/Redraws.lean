import JudoAssistant.Tournament.Linked
import JudoAssistant.Tournament.LocationUndo

/-!
# Redrawing categories and taking it back

The draw of several categories, the change of their draw system and the draw that follows a change of
the players.  From every tournament that looks like the drawn one, the undo returns and restores what
was seen of the matches, and the layout up to the order in the groups.
-/

namespace JudoAssistant

open Effect Exec TournamentStore

/-- The layout agrees with the locations, and the indices with the lists. -/
structure Intact (t : TournamentStore) : Prop where
  placed : Placed t
  indexed : t.Indexed

theorem layoutBlind_links : LayoutBlind links := layoutBlind_project fun _ _ _ => rfl

section

variable {α β : Type} {h : CategoryStore → β} {off : CategoryId → Prop} {t t' : TournamentStore}

/-- Where the blocks are, and what is seen of the matches. -/
def sight (h : CategoryStore → β) (t : TournamentStore) :
    Outline × (PlayerId → Option (Finset CombinedId)) × (CategoryId → Option β) := (t.outline, bouts h t)

/-- The layout and the indices are taken care of elsewhere. -/
theorem recovers_of_parts {y : Exec α} {P Q : α → Prop} (hlayout : LayoutBack y P t'.outline t.outline)
    (hindexed : Keeps Indexed y Q) (hreturn : ∀ u, Intact u → sight h u = sight h t' →
      ∃ a u', y u = .ok a u' ∧ bouts h u' = bouts h t) :
    Recovers Intact (sight h) y P (sight h t') (sight h t) := by
  intro u hu hview
  obtain ⟨a, u', ha, hbouts⟩ := hreturn u hu hview
  obtain ⟨hplaced, houtline, hP⟩ := hlayout hu.placed (congrArg Prod.fst hview) ha
  exact ⟨a, u', ha, ⟨hplaced, (hindexed hu.indexed ha).1⟩, Prod.ext houtline hbouts, hP⟩

/-! ### Drawing -/

namespace DrawCategoriesAction

theorem recomputeGroups_ok {ids : List CategoryId} {u : Unit} (h : recomputeGroups ids t = .ok u t') :
    ∃ tatamis, t' = { t with tatamis := tatamis } := by
  simp only [recomputeGroups, bind_ok, get_ok, editTatamis_ok] at h
  obtain ⟨_, _, ⟨rfl, rfl⟩, tatamis, -, rfl⟩ := h
  exact ⟨tatamis, rfl⟩

theorem recovers_recomputeGroups (ids : List CategoryId) :
    Recovers Intact (sight h) (recomputeGroups ids) (fun _ => True) (sight h t) (sight h t) := by
  have hlayout : LayoutBack (recomputeGroups ids) (fun _ => True) t.outline t.outline :=
    layoutBack_of_plan matchBlind_plan.recomputeGroups
  refine recovers_of_parts hlayout (keeps_recomputeGroups_indexed ids) fun u hu hview => ?_
  obtain ⟨u', hu'⟩ := recomputeGroups_total hu.placed hu.indexed ids
  obtain ⟨tatamis, rfl⟩ := recomputeGroups_ok hu'
  exact ⟨(), _, hu', congrArg Prod.snd hview⟩

theorem drawCategory_recovers (hsight : BoutSight h) {seed : ℕ} {id : CategoryId} {d : DrawnCategory}
    (ht : Intact t) (hlinked : LinkedOff off t) (hdraw : drawCategory seed id t = .ok d t') :
    Intact t' ∧ LinkedOff (fun i => off i ∧ i ≠ id) t' ∧
      Recovers Intact (sight h) (recoverCategory d) (fun _ => True) (sight h t') (sight h t) := by
  obtain ⟨c, c', ms, hdraws⟩ := drawCategory_draws ht.indexed hdraw
  obtain ⟨hplan, hkind⟩ := plan_drawCategory hdraw
  have houtline : t'.outline = t.outline := congrArg Prod.snd hplan
  obtain ⟨hindexed, hold⟩ := keeps_drawCategory_indexed seed id ht.indexed hdraw
  refine ⟨⟨ht.placed.of_plan hplan, hindexed⟩, hdraws.linked ht.indexed hlinked,
    recovers_of_parts ?_ (keeps_recoverCategory_indexed hold) fun u hu hview => ?_⟩
  · rw [houtline]
    intro u b u' hu ho hb
    have hplan' := plan_recoverCategory hb (by rw [ho]; exact hkind)
    exact ⟨hu.of_plan hplan', (congrArg Prod.snd hplan').trans ho, trivial⟩
  · obtain ⟨u', hu', hbouts⟩ :=
      bouts_recoverCategory hsight ht.indexed hlinked hdraws hu.indexed (congrArg Prod.snd hview)
    exact ⟨(), u', hu', hbouts⟩

theorem drawCategories_recovers (hsight : BoutSight h) {seed : ℕ} {ids : List CategoryId}
    {ds : List DrawnCategory} (ht : Intact t) (hlinked : LinkedOff off t)
    (hdraw : forEach (drawCategory seed) ids t = .ok ds t') :
    Intact t' ∧ LinkedOff (fun i => off i ∧ i ∉ ids) t' ∧
      Recovers Intact (sight h) (forEach recoverCategory ds.reverse) (fun _ => True) (sight h t')
        (sight h t) := by
  induction ids generalizing t ds off with
  | nil =>
    obtain ⟨rfl, rfl⟩ := forEach_nil_ok.1 hdraw
    exact ⟨ht, hlinked.mono fun i _ hi => ⟨hi, by simp⟩, recovers_nil⟩
  | cons id ids ih =>
    obtain ⟨d, t₁, ds', hd, hds, rfl⟩ := forEach_cons_ok.1 hdraw
    obtain ⟨ht₁, hlinked₁, hback₁⟩ := drawCategory_recovers hsight ht hlinked hd
    obtain ⟨ht', hlinked', hback'⟩ := ih ht₁ hlinked₁ hds
    refine ⟨ht', hlinked'.mono fun i _ hi => ⟨hi.1.1, ?_⟩, ?_⟩
    · rw [List.mem_cons, not_or]
      exact ⟨hi.1.2, hi.2⟩
    · rw [List.reverse_cons]
      exact recovers_append hback' (recovers_singleton hback₁)

theorem recovers (hsight : BoutSight h) {a a' : DrawCategoriesAction} (hidle : a.drawn = [])
    (ht : Intact t) (hlinked : LinkedOff off t) (hredo : a.redoImpl t = .ok a' t') :
    Intact t' ∧ LinkedOff (fun i => off i ∧ i ∉ a.categoryIds) t' ∧
      Recovers Intact (sight h) a'.undoImpl (fun b => b.drawn = []) (sight h t') (sight h t) := by
  have hdomain : t'.outline = t.outline := congrArg Prod.snd (plan_redoImpl hidle hredo).1
  simp only [redoImpl, bind_ok, read_ok, pure_ok, Except.ok.injEq] at hredo
  obtain ⟨ids, _, ⟨rfl, rfl⟩, ds, t₁, hds, _, _, hrecompute, rfl, rfl⟩ := hredo
  obtain ⟨ht₁, hlinked₁, hback⟩ := drawCategories_recovers hsight ht hlinked hds
  have hplan := matchBlind_plan.recomputeGroups hrecompute
  obtain ⟨tatamis, rfl⟩ := recomputeGroups_ok hrecompute
  refine ⟨⟨ht₁.placed.of_plan hplan, (keeps_recomputeGroups_indexed _ ht₁.indexed hrecompute).1⟩, ?_, ?_⟩
  · have hlinked' : LinkedOff _ { t₁ with tatamis := tatamis } := hlinked₁.of_links rfl
    refine hlinked'.mono fun i hi hoff => ⟨hoff.1, fun hmem => hoff.2 (List.mem_filter.2 ⟨hmem, ?_⟩)⟩
    have hexists : t.categories i ≠ none := by
      rw [ne_eq, ← categories_outline_eq_none, ← hdomain, categories_outline_eq_none]
      exact hi
    unfold TournamentStore.containsCategory
    exact Option.isSome_iff_ne_none.2 hexists
  · rw [hidle, List.append_nil]
    have hsame : sight h { t₁ with tatamis := tatamis } = sight h t₁ :=
      Prod.ext (congrArg Prod.snd hplan) rfl
    rw [hsame]
    exact hback.bind fun _ _ => (recovers_recomputeGroups _).bind fun _ _ => .pure rfl

end DrawCategoriesAction

/-! ### Moving a block -/

theorem setLocation_back (c : CategoryStore) (type : MatchType) (l : Option BlockLocation) :
    (c.setLocation type l).setLocation type (c.getLocation type) = c := by
  cases type <;> rfl

theorem SetTatamiLocationAction.recovers (hsight : BoutSight h) {a a' : SetTatamiLocationAction}
    (ht : LayoutSound t) (hlinked : LinkedOff off t) (hredo : a.redoImpl t = .ok a' t') :
    LinkedOff off t' ∧ Recovers Intact (sight h) a'.undoImpl (fun _ => True) (sight h t') (sight h t) := by
  refine ⟨hlinked.of_links (layoutBlind_links.setTatamiLocation_redo hredo), ?_⟩
  obtain ⟨ht', hback⟩ := revocable a ht hredo
  refine recovers_of_parts hback (keeps_indexed_of_keys layoutBlind_keys.setTatamiLocation_undo)
    fun u hu hview => ?_
  obtain ⟨rfl, rfl, -⟩ | ⟨c, tatamis, hc, hallowed, hmove, rfl, rfl⟩ := redoImpl_ok hredo
  · exact ⟨_, u, rfl, congrArg Prod.snd hview⟩
  · obtain ⟨cu, hcu, hseen⟩ := category_of_bouts (congrArg Prod.snd hview) (categories_setCategory_self _ _ _)
    have htatami : ∀ l, a.location = some l → l.groupId.tatami ∈ t.outline.tatamis :=
      fun l hl => tatami_mem_of_allowed ht.placed (hl ▸ hallowed)
    have hplace : u.outline.place a.block = a.location.map (·.groupId) := by
      have houtline : u.outline = t.outline.setPlace a.block (a.location.map (·.groupId)) :=
        (congrArg Prod.fst hview).trans (placed_moveBlock ht.placed hc rfl htatami hmove).2
      rw [houtline, Outline.place_setPlace (by rw [categories_outline hc]; simp), Function.update_self]
    obtain ⟨tatamis', hmove'⟩ := (readable_of_placed hu.placed hu.indexed).moveBlock (b := a.block)
      ⟨cu, hcu, hu.indexed.category _ cu hcu, hu.indexed.index _ cu hcu⟩ a.location (c.getLocation a.block.2)
      fun k hk => (hu.placed.mem_blocks _ _).2 (by rw [hplace, hk]; rfl)
    have hundo := undoImpl_of_moveBlock
      (a := { a with positionSet := true, oldLocation := c.getLocation a.block.2 }) rfl hcu hmove'
    refine ⟨_, _, hundo, ?_⟩
    have hseen' : h (cu.setLocation a.block.2 (c.getLocation a.block.2)) = h c := by
      rw [hsight.setLocation cu _ _ _ hseen, setLocation_back]
    refine (bouts_setCategory (congrArg Prod.snd hview) hseen').trans ?_
    rw [setCategory_setCategory]
    exact project_setCategory hc rfl

/-! ### Changing the draw system -/

namespace ChangeCategoriesDrawSystemAction

theorem removeFinals_recovers (hsight : BoutSight h) {ids : List CategoryId}
    {as : List (Option SetTatamiLocationAction)} (ht : LayoutSound t) (hlinked : LinkedOff off t)
    (hremove : forEach removeFinal ids t = .ok as t') :
    LinkedOff off t' ∧ Recovers Intact (sight h)
      (forEach SetTatamiLocationAction.undoImpl as.reduceOption.reverse) (fun _ => True) (sight h t')
      (sight h t) := by
  induction ids generalizing t as with
  | nil =>
    obtain ⟨rfl, rfl⟩ := forEach_nil_ok.1 hremove
    exact ⟨hlinked, recovers_nil⟩
  | cons id ids ih =>
    obtain ⟨a, t₁, as', ha, has, rfl⟩ := forEach_cons_ok.1 hremove
    obtain ⟨ht₁, -, -⟩ := removeFinal_spec ht ha
    simp only [removeFinal, bind_ok, getCategory_ok] at ha
    obtain ⟨c, _, ⟨hc, rfl⟩, ha⟩ := ha
    split at ha
    · simp only [bind_ok, pure_ok] at ha
      obtain ⟨b, _, hb, rfl, rfl⟩ := ha
      obtain ⟨hlinked₁, hback₁⟩ := SetTatamiLocationAction.recovers hsight ht hlinked hb
      obtain ⟨hlinked', hback'⟩ := ih ht₁ hlinked₁ has
      rw [List.reduceOption_cons_of_some, List.reverse_cons]
      exact ⟨hlinked', recovers_append hback' (recovers_singleton hback₁)⟩
    · obtain ⟨rfl, rfl⟩ := pure_ok.1 ha
      rw [List.reduceOption_cons_of_none]
      exact ih ht hlinked has

theorem rosterPlayers_getDrawSystem (kind : DrawSystemIdentifier) :
    (DrawSystem.getDrawSystem kind).rosterPlayers = [] := by
  cases kind <;> rfl

/-- A new draw system has no players. -/
theorem linkedOff_setDrawSystem (hlinked : LinkedOff off t) {id : CategoryId} {c : CategoryStore}
    (hc : t.categories id = some c) (kind : DrawSystemIdentifier) :
    LinkedOff off (t.setCategory id (c.setDrawSystem (DrawSystem.getDrawSystem kind))) := by
  have hcategory : ∀ cid e, (t.setCategory id (c.setDrawSystem (DrawSystem.getDrawSystem kind))).categories
      cid = some e → ∃ c₀, t.categories cid = some c₀ ∧ e.players = c₀.players ∧
        e.matchList = c₀.matchList ∧
        ∀ pid ∈ e.drawSystem.rosterPlayers, pid ∈ c₀.drawSystem.rosterPlayers := by
    intro cid e he
    change Function.update t.categories id (some _) cid = some e at he
    by_cases hcid : cid = id
    · subst hcid
      rw [Function.update_self] at he
      cases he
      refine ⟨c, hc, rfl, rfl, fun pid hpid => ?_⟩
      change pid ∈ (DrawSystem.getDrawSystem kind).rosterPlayers at hpid
      rw [rosterPlayers_getDrawSystem] at hpid
      cases hpid
    · rw [Function.update_of_ne hcid] at he
      exact ⟨e, he, rfl, rfl, fun _ hpid => hpid⟩
  have hback : ∀ cid c₀, t.categories cid = some c₀ → ∃ e,
      (t.setCategory id (c.setDrawSystem (DrawSystem.getDrawSystem kind))).categories cid = some e ∧
        e.players = c₀.players ∧ e.matchList = c₀.matchList := by
    intro cid c₀ hc₀
    by_cases hcid : cid = id
    · subst hcid
      cases hc.symm.trans hc₀
      exact ⟨_, categories_setCategory_self _ _ _, rfl, rfl⟩
    · exact ⟨c₀, (Function.update_of_ne hcid _ _).trans hc₀, rfl, rfl⟩
  refine ⟨fun cid pid p hp => ?_, fun cid e pid he hpid => ?_, fun x pid p hp => ?_,
    fun cid e m pid he hm => ?_, fun cid e m pid he hm => ?_, fun cid e m pid hoff he hm hhas => ?_,
    fun cid e pid hoff he hpid => ?_⟩
  · rw [hlinked.member cid pid p hp]
    constructor
    · rintro ⟨c₀, hc₀, hpid⟩
      obtain ⟨e, he, hplayers, -⟩ := hback cid c₀ hc₀
      exact ⟨e, he, by rwa [hplayers]⟩
    · rintro ⟨e, he, hpid⟩
      obtain ⟨c₀, hc₀, hplayers, -⟩ := hcategory cid e he
      exact ⟨c₀, hc₀, by rwa [← hplayers]⟩
  · obtain ⟨c₀, hc₀, hplayers, -⟩ := hcategory cid e he
    exact hlinked.members_exist cid c₀ pid hc₀ (by rwa [← hplayers])
  · rw [hlinked.fight x pid p hp]
    constructor
    · rintro ⟨c₀, m, hc₀, hm, hrest⟩
      obtain ⟨e, he, -, hlist⟩ := hback _ c₀ hc₀
      exact ⟨e, m, he, by rwa [hlist], hrest⟩
    · rintro ⟨e, m, he, hm, hrest⟩
      obtain ⟨c₀, hc₀, -, hlist, -⟩ := hcategory _ e he
      exact ⟨c₀, m, hc₀, by rwa [← hlist], hrest⟩
  · obtain ⟨c₀, hc₀, -, hlist, -⟩ := hcategory cid e he
    exact hlinked.fighters_exist cid c₀ m pid hc₀ (by rwa [← hlist])
  · obtain ⟨c₀, hc₀, -, hlist, -⟩ := hcategory cid e he
    exact hlinked.distinct cid c₀ m pid hc₀ (by rwa [← hlist])
  · obtain ⟨c₀, hc₀, hplayers, hlist, -⟩ := hcategory cid e he
    rw [hplayers]
    exact hlinked.within cid c₀ m pid hoff hc₀ (by rwa [← hlist]) hhas
  · obtain ⟨c₀, hc₀, hplayers, -, hroster⟩ := hcategory cid e he
    rw [hplayers]
    exact hlinked.roster cid c₀ pid hoff hc₀ (hroster pid hpid)

theorem changeDrawSystem_recovers (hsight : BoutSight h) {kind : DrawSystemIdentifier} {id : CategoryId}
    {p : CategoryId × DrawSystem} (ht : Intact t) (hlinked : LinkedOff off t)
    (hchange : changeDrawSystem (DrawSystem.getDrawSystem kind) id t = .ok p t') :
    Intact t' ∧ LinkedOff off t' ∧ Recovers Intact (sight h)
      (editCategory p.1 fun c => .ok (c.setDrawSystem p.2)) (fun _ => True) (sight h t') (sight h t) := by
  obtain ⟨hplaced, -, hback⟩ := changeDrawSystem_spec ht.placed hchange
  have hset : ∀ id drawSystem, Keeps Indexed (editCategory id fun c => .ok (c.setDrawSystem drawSystem))
      fun _ => True := fun id drawSystem =>
    keeps_indexed_of_keys (frame_setDrawSystem drawSystemBlind_keys)
  simp only [changeDrawSystem, bind_ok, getCategory_ok, pure_ok] at hchange
  obtain ⟨c, _, ⟨hc, rfl⟩, _, _, hedit, rfl, rfl⟩ := hchange
  have hindexed := (hset _ _ ht.indexed hedit).1
  obtain ⟨c', _, hc', hok, rfl⟩ := editCategory_ok.1 hedit
  cases hok
  cases hc.symm.trans hc'
  refine ⟨⟨hplaced, hindexed⟩, linkedOff_setDrawSystem hlinked hc kind,
    recovers_of_parts hback (hset _ _) fun u hu hview => ?_⟩
  obtain ⟨cu, hcu, hseen⟩ := category_of_bouts (congrArg Prod.snd hview) (categories_setCategory_self _ _ _)
  refine ⟨(), _, editCategory_ok.2 ⟨cu, _, hcu, rfl, rfl⟩, ?_⟩
  have hseen' : h (cu.setDrawSystem c.drawSystem) = h c := by
    rw [hsight.setDrawSystem cu _ c.drawSystem hseen]
    rfl
  refine (bouts_setCategory (congrArg Prod.snd hview) hseen').trans ?_
  rw [setCategory_setCategory]
  exact project_setCategory hc rfl

theorem changeDrawSystems_recovers (hsight : BoutSight h) {kind : DrawSystemIdentifier} {ids : List CategoryId}
    {ps : List (CategoryId × DrawSystem)} (ht : Intact t) (hlinked : LinkedOff off t)
    (hchange : forEach (changeDrawSystem (DrawSystem.getDrawSystem kind)) ids t = .ok ps t') :
    Intact t' ∧ LinkedOff off t' ∧ Recovers Intact (sight h)
      (forEach (fun p => editCategory p.1 fun c => .ok (c.setDrawSystem p.2)) ps.reverse) (fun _ => True)
      (sight h t') (sight h t) := by
  induction ids generalizing t ps with
  | nil =>
    obtain ⟨rfl, rfl⟩ := forEach_nil_ok.1 hchange
    exact ⟨ht, hlinked, recovers_nil⟩
  | cons id ids ih =>
    obtain ⟨p, t₁, ps', hp, hps, rfl⟩ := forEach_cons_ok.1 hchange
    obtain ⟨ht₁, hlinked₁, hback₁⟩ := changeDrawSystem_recovers hsight ht hlinked hp
    obtain ⟨ht', hlinked', hback'⟩ := ih ht₁ hlinked₁ hps
    rw [List.reverse_cons]
    exact ⟨ht', hlinked', recovers_append hback' (recovers_singleton hback₁)⟩

theorem recovers (hsight : BoutSight h) {a a' : ChangeCategoriesDrawSystemAction}
    (hchanged : a.changedCategories = []) (hlocations : a.locationActions = []) (ht : LayoutSound t)
    (hindexed : t.Indexed) (hlinked : LinkedOff off t) (hredo : a.redoImpl t = .ok a' t') :
    LinkedOff (fun i => off i ∧ i ∉ a.getCategoriesThatChange t) t' ∧
      Recovers Intact (sight h) a'.undoImpl (fun b => b.changedCategories = [] ∧ b.locationActions = [])
        (sight h t') (sight h t) := by
  obtain ⟨as, t₁, old, t₂, drawAction, has, hold, hdraw, rfl⟩ := redoImpl_ok hredo
  have hremove : LayoutSound t₁ ∧ t₁.Indexed ∧ LinkedOff off t₁ ∧ Recovers Intact (sight h)
      (forEach SetTatamiLocationAction.undoImpl as.reverse) (fun _ => True) (sight h t₁) (sight h t) := by
    refine ⟨(removeFinals_sound ht has).1, ?_⟩
    unfold removeFinals at has
    split at has
    · obtain ⟨rfl, rfl⟩ := pure_ok.1 has
      exact ⟨hindexed, hlinked, recovers_nil⟩
    · simp only [bind_ok, pure_ok] at has
      obtain ⟨as', _, has, rfl, rfl⟩ := has
      obtain ⟨hlinked₁, hback⟩ := removeFinals_recovers hsight ht hlinked has
      refine ⟨(keeps_indexed_of_keys (frame_forEach fun id _ => frame_getCategory.bind fun c => ?_) hindexed
        has).1, hlinked₁, hback⟩
      split
      · exact layoutBlind_keys.setTatamiLocation_redo.bind fun _ => Frame.pure
      · exact Frame.pure
  obtain ⟨ht₁, hindexed₁, hlinked₁, hback₁⟩ := hremove
  obtain ⟨ht₂, hlinked₂, hback₂⟩ :=
    changeDrawSystems_recovers hsight ⟨ht₁.placed, hindexed₁⟩ hlinked₁ hold
  obtain ⟨-, hlinked₃, hback₃⟩ := DrawCategoriesAction.recovers hsight rfl ht₂ hlinked₂ hdraw
  refine ⟨hlinked₃, ?_⟩
  rw [hchanged, hlocations, List.append_nil, List.append_nil]
  exact hback₃.bind fun _ _ => hback₂.bind fun _ _ => hback₁.bind fun _ _ => .pure ⟨rfl, rfl⟩

end ChangeCategoriesDrawSystemAction

/-- The draw after a change of the players of a category. -/
theorem RedrawAction.recovers (hsight : BoutSight h) {id : CategoryId} {seed : ℕ} {r : RedrawAction}
    (ht : LayoutSound t) (hindexed : t.Indexed) (hlinked : LinkedOff (· = id) t)
    (hrun : run id seed t = .ok r t') :
    t'.Linked ∧ Recovers Intact (sight h) r.undo (fun _ => True) (sight h t') (sight h t) := by
  obtain ⟨b, hb, rfl⟩ | ⟨drawSystem, b, hother, hb, rfl⟩ := run_ok hrun
  · obtain ⟨-, hlinked', hback⟩ := DrawCategoriesAction.recovers hsight rfl ⟨ht.placed, hindexed⟩ hlinked hb
    exact ⟨hlinked'.mono fun i _ hi => hi.2 (by rw [hi.1]; exact List.mem_singleton_self _),
      hback.bind fun _ _ => .pure trivial⟩
  · obtain ⟨hlinked', hback⟩ := ChangeCategoriesDrawSystemAction.recovers hsight rfl rfl ht hindexed hlinked hb
    refine ⟨hlinked'.mono fun i hexists hi => hi.2 ?_, hback.bind fun _ _ => .pure trivial⟩
    obtain ⟨rfl, -⟩ := hi
    refine List.mem_filter.2 ⟨List.mem_singleton_self _, ?_⟩
    have hne : t.categories i ≠ none := by
      rw [ne_eq, ← categories_outline_eq_none,
        ← ChangeCategoriesDrawSystemAction.domain_redoImpl ht hb, categories_outline_eq_none]
      exact hexists
    obtain ⟨c, hc⟩ := Option.ne_none_iff_exists'.1 hne
    rw [hc]
    exact decide_eq_true (hother c hc)

end

end JudoAssistant
