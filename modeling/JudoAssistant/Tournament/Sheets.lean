import JudoAssistant.Tournament.Ledger

/-!
# Detours that leave every sheet as it was

What a session does after some point and then undoes leaves the players, the sheets of the categories and the places
of their blocks as they were, whatever the actions are.  A match event that is redone has to happen again: where it
has saved a state and does not happen, its undo writes the old state into a match that it has not changed.
-/

namespace JudoAssistant

open Effect Exec TournamentStore

/-! ### The register of the sheets -/

section

variable {t t' u u' : TournamentStore} {c c' : CategoryStore} {id : CategoryId}

/-- A sheet without players. -/
def CategoryStore.blank (c : CategoryStore) : CategoryStore := c.sheet.vacant

theorem CategoryStore.fights_blank (c : CategoryStore) :
    c.blank.matchList.map (·.fight) = c.matchList.map (·.fight) := by
  show (c.matchList.map MatchStore.plain).map (·.fight) = _
  rw [List.map_map]
  rfl

theorem boutSight_blank : BoutSight CategoryStore.blank where
  fights c c' h := by rw [← c.fights_blank, ← c'.fights_blank, h]
  withBouts b c c' h := by
    have hrest := congrArg (DrawCategoriesAction.withBouts b) h
    cases c
    cases c'
    simp_all [CategoryStore.blank, CategoryStore.sheet, CategoryStore.vacant, DrawCategoriesAction.withBouts]
  setDrawSystem c c' d h := congrArg (fun e : CategoryStore => e.setDrawSystem d) h
  setLocation c c' type l h := h
  setPlayers _ _ := rfl

theorem layoutBlind_ledger : LayoutBlind ledger := layoutBlind_project fun _ _ _ => rfl

theorem ledger_eq_iff : u.ledger = t.ledger ↔ bouts CategoryStore.blank u = bouts CategoryStore.blank t ∧
    members PlayerStore.profile u = members PlayerStore.profile t := by
  constructor
  · intro hview
    have hplayers := players_of_ledger hview
    refine ⟨Prod.ext (funext fun pid => ?_) (funext fun cid => ?_),
      Prod.ext (funext fun pid => ?_) (funext fun cid => ?_)⟩
    · show (u.players pid).map _ = (t.players pid).map _
      rw [hplayers]
    · have hcid := congrArg (Option.map CategoryStore.vacant) (categories_of_project hview cid)
      rwa [Option.map_map, Option.map_map] at hcid
    · show (u.players pid).map _ = (t.players pid).map _
      rw [hplayers]
    · have hcid := congrArg (Option.map CategoryStore.players) (categories_of_project hview cid)
      rwa [Option.map_map, Option.map_map] at hcid
  · rintro ⟨hbouts, hmembers⟩
    refine Prod.ext (funext fun pid => ?_) (funext fun cid => ?_)
    · show (u.players pid).map _ = (t.players pid).map _
      rw [players_of_parts hbouts hmembers]
    · refine category_of_parts (fun c e hblank hplayers => ?_) hbouts hmembers cid
      have heq := CategoryStore.eq_of_vacant hblank
      rw [show c.sheet.players = e.sheet.players from hplayers] at heq
      exact heq

theorem register_blank_iff : register PlayerStore.profile CategoryStore.blank u =
    register PlayerStore.profile CategoryStore.blank t ↔ u.outline = t.outline ∧ u.ledger = t.ledger := by
  rw [ledger_eq_iff]
  constructor
  · exact fun h => ⟨congrArg (fun v => v.1.1) h, congrArg (fun v => v.1.2) h, congrArg Prod.snd h⟩
  · rintro ⟨houtline, hbouts, hmembers⟩
    exact Prod.ext (Prod.ext houtline hbouts) hmembers

/-- Where the references agree, the ledger shows what the sheets and the fields of the players show. -/
theorem TournamentStore.Linked.ledger_ext (ht : t.Linked) (hu : u.Linked)
    (hplayers : ∀ pid, (u.players pid).map PlayerStore.profile = (t.players pid).map PlayerStore.profile)
    (hcategories : ∀ cid, (u.categories cid).map CategoryStore.sheet = (t.categories cid).map CategoryStore.sheet) :
    u.ledger = t.ledger := by
  have hlinks : u.links = t.links := by
    refine ht.links_ext hu (fun pid => ?_) fun cid => ?_
    · have hpid := hplayers pid
      cases hp : u.players pid <;> cases hq : t.players pid <;> simp_all
    · have hbonds : CategoryStore.bonds = CategoryStore.bonds ∘ CategoryStore.sheet := by
        funext e
        show (_, e.matchList.map (·.fight), _) = (_, e.blank.matchList.map (·.fight), _)
        rw [e.fights_blank]
        rfl
      have hcid := congrArg (Option.map CategoryStore.bonds) (hcategories cid)
      rw [Option.map_map, Option.map_map] at hcid
      rw [hbonds]
      exact hcid
  refine Prod.ext (funext fun pid => ?_) (funext hcategories)
  have hids := players_of_project hlinks pid
  have hprofile := hplayers pid
  show (u.players pid).map _ = (t.players pid).map _
  cases hp : u.players pid with
  | none => cases hq : t.players pid <;> simp_all
  | some p =>
    cases hq : t.players pid with
    | none => simp_all
    | some q =>
      rw [hp, hq] at hids hprofile
      obtain ⟨hsets, hmatchIds⟩ := Prod.mk.inj (Option.some.inj hids)
      obtain ⟨hid, hfields⟩ := Prod.mk.inj (Option.some.inj hprofile)
      cases p
      cases q
      simp_all

end

/-! ### Labels of categories -/

section

variable {t t' u u' : TournamentStore} {c c' : CategoryStore} {id : CategoryId}

theorem editCategory_rewritten {f : CategoryStore → Except Failure CategoryStore} {v : Unit}
    (h : editCategory id f t = .ok v t') : ∃ c c', t.categories id = some c ∧ f c = .ok c' ∧
    t.Rewritten id c' t' := by
  obtain ⟨c, c', hc, hf, rfl⟩ := editCategory_ok.1 h
  exact ⟨c, c', hc, hf, Function.update_self _ _ _, fun cid hcid => Function.update_of_ne hcid _ _, rfl⟩

/-- A ruleset that was set can be set back. -/
theorem ChangeCategoriesRulesetAction.changeRuleset_revocable (ruleset : RulesetIdentifier) (id : CategoryId) :
    Revocable InLine Indexed ledger (changeRuleset ruleset id)
      (fun p => editCategory p.1 fun c => .ok (c.setRuleset p.2)) fun _ => True := by
  intro t p t' ht h
  obtain ⟨c₀, t₁, hget, hrest⟩ := bind_ok.1 h
  obtain ⟨hc₀, rfl⟩ := getCategory_ok.1 hget
  obtain ⟨_, t₂, hedit, hrest⟩ := bind_ok.1 hrest
  obtain ⟨rfl, rfl⟩ := pure_ok.1 hrest
  obtain ⟨c, c', hc, hset, hrewritten⟩ := editCategory_rewritten hedit
  cases hc₀.symm.trans hc
  cases hset
  refine ⟨⟨ht.linked.of_links (labelBlind_links.setRuleset hedit),
      ht.indexed.of_keys (labelBlind_keys.setRuleset hedit)⟩,
    fun u v u' hu hview hundo => ⟨hu.of_keys (labelBlind_keys.setRuleset hundo), ?_, trivial⟩⟩
  obtain ⟨cu, cu', hcu, hset, hback⟩ := editCategory_rewritten hundo
  cases hset
  refine hrewritten.ledger hback hview hc ?_
  obtain ⟨e, he, hsheet⟩ := category_of_ledger hview hrewritten.category
  cases hcu.symm.trans he
  show cu.sheet.setRuleset c₀.ruleset = c₀.sheet
  rw [hsheet]
  rfl

theorem ChangeCategoriesRulesetAction.ledger_revocable {a : ChangeCategoriesRulesetAction}
    (hidle : a.changedCategories = []) : Revocable InLine Indexed ledger a.redoImpl undoImpl fun _ => True := by
  intro t a' t' ht h
  obtain ⟨ids, s, hread, hrest⟩ := bind_ok.1 h
  obtain ⟨-, rfl⟩ := read_ok.1 hread
  obtain ⟨old, t₁, hold, hrest⟩ := bind_ok.1 hrest
  obtain ⟨r, t₂, hr, hrest⟩ := bind_ok.1 hrest
  obtain ⟨rfl, rfl⟩ := pure_ok.1 hrest
  obtain ⟨ht₁, hrestore⟩ := revocable_forEach (fun id _ => changeRuleset_revocable a.ruleset id) ht hold
  obtain ⟨ht', hreset⟩ := ResetMatchesAction.ledger_revocable rfl rfl ht₁ hr
  refine ⟨ht', ?_⟩
  unfold undoImpl
  rw [hidle, List.append_nil]
  exact hreset.bind fun _ _ => hrestore.bind fun _ _ => .pure trivial

/-- The categories whose name is changed, and how they are after it. -/
structure NameChanged (value : String) (t : TournamentStore) (changed : List (CategoryId × String))
    (t' : TournamentStore) : Prop where
  nodup : (changed.map (·.1)).Nodup
  renamed : ∀ q ∈ changed, ∃ c, t.categories q.1 = some c ∧ c.name = q.2 ∧ q.2 ≠ value ∧
    t'.categories q.1 = some (c.setName value)
  other : ∀ cid, cid ∉ changed.map (·.1) → t'.categories cid = t.categories cid
  players : t'.players = t.players

theorem changeName_ok {value : String} {ids : List CategoryId} {changed : List (CategoryId × String)}
    (h : ChangeCategoriesNameAction.changeName value ids t = .ok changed t') : NameChanged value t changed t' := by
  induction ids generalizing t changed with
  | nil =>
    obtain ⟨rfl, rfl⟩ := pure_ok.1 h
    exact ⟨List.nodup_nil, by simp, fun _ _ => rfl, rfl⟩
  | cons id ids ih =>
    simp only [ChangeCategoriesNameAction.changeName, bind_ok, get_ok] at h
    obtain ⟨s, s', hs, h⟩ := h
    rw [hs.1, hs.2] at h
    cases hc : t.categories id with
    | none =>
      rw [hc] at h
      exact ih h
    | some c =>
      simp only [hc] at h
      split at h
      · exact ih h
      · next hne =>
        obtain ⟨_, t₁, hedit, h⟩ := bind_ok.1 h
        obtain ⟨rest, t₂, hrest, h⟩ := bind_ok.1 h
        obtain ⟨rfl, rfl⟩ := pure_ok.1 h
        obtain ⟨c₀, c', hc₀, hset, hrewritten⟩ := editCategory_rewritten hedit
        cases hc.symm.trans hc₀
        cases hset
        obtain ⟨hnodup, hrenamed, hother, hplayers⟩ := ih hrest
        -- the category has the new name now, so that it is not met again
        have hnot : id ∉ rest.map (·.1) := by
          intro hmem
          obtain ⟨q, hq, rfl⟩ := List.mem_map.1 hmem
          obtain ⟨e, he, hname, hold, -⟩ := hrenamed q hq
          cases hrewritten.category.symm.trans he
          exact hold hname.symm
        refine ⟨List.nodup_cons.2 ⟨hnot, hnodup⟩, fun q hq => ?_, fun cid hcid => ?_,
          hplayers.trans hrewritten.players⟩
        · rcases List.mem_cons.1 hq with rfl | hq
          · exact ⟨c, hc, rfl, hne, (hother id hnot).trans hrewritten.category⟩
          · obtain ⟨e, he, hrest'⟩ := hrenamed q hq
            have hq' : q.1 ≠ id := fun heq => hnot (List.mem_map.2 ⟨q, hq, heq⟩)
            rw [hrewritten.other _ hq'] at he
            exact ⟨e, he, hrest'⟩
        · rw [List.map_cons, List.mem_cons, not_or] at hcid
          exact (hother cid hcid.2).trans (hrewritten.other cid hcid.1)

/-- The categories after labels of some of them have been written. -/
theorem editCategories_ok {κ : Type} {g : κ → CategoryStore → CategoryStore} {qs : List (CategoryId × κ)}
    {us : List Unit} (hnodup : (qs.map (·.1)).Nodup)
    (h : forEach (fun q : CategoryId × κ => editCategory q.1 fun c => .ok (g q.2 c)) qs t = .ok us t') :
    (∀ q ∈ qs, t'.categories q.1 = (t.categories q.1).map (g q.2)) ∧
      (∀ cid, cid ∉ qs.map (·.1) → t'.categories cid = t.categories cid) ∧ t'.players = t.players := by
  induction qs generalizing t us with
  | nil =>
    obtain ⟨-, rfl⟩ := forEach_nil_ok.1 h
    exact ⟨by simp, fun _ _ => rfl, rfl⟩
  | cons q qs ih =>
    obtain ⟨_, t₁, us', hedit, hrest, -⟩ := forEach_cons_ok.1 h
    obtain ⟨hnot, hnodup⟩ := List.nodup_cons.1 hnodup
    obtain ⟨c, c', hc, hg, hrewritten⟩ := editCategory_rewritten hedit
    cases hg
    obtain ⟨hedited, hother, hplayers⟩ := ih hnodup hrest
    refine ⟨fun q' hq' => ?_, fun cid hcid => ?_, hplayers.trans hrewritten.players⟩
    · rcases List.mem_cons.1 hq' with rfl | hq'
      · rw [hother _ hnot, hrewritten.category, hc]
        rfl
      · have hne : q'.1 ≠ q.1 := fun heq => hnot (List.mem_map.2 ⟨q', hq', heq⟩)
        rw [hedited q' hq', hrewritten.other _ hne]
    · rw [List.map_cons, List.mem_cons, not_or] at hcid
      exact (hother cid hcid.2).trans (hrewritten.other cid hcid.1)

/-- Names that were changed can be set back. -/
theorem ChangeCategoriesNameAction.ledger_back {a a' : ChangeCategoriesNameAction} (hidle : a.changedCategories = [])
    (h : a.redoImpl t = .ok a' t') {b : ChangeCategoriesNameAction} (hview : u.ledger = t'.ledger)
    (hundo : a'.undoImpl u = .ok b u') : u'.ledger = t.ledger := by
  obtain ⟨changed, t₁, hchange, hrest⟩ := bind_ok.1 h
  obtain ⟨rfl, rfl⟩ := pure_ok.1 hrest
  obtain ⟨us, u₁, hus, hrest⟩ := bind_ok.1 hundo
  obtain ⟨rfl, rfl⟩ := pure_ok.1 hrest
  rw [hidle, List.nil_append] at hus
  obtain ⟨hnodup, hrenamed, hother, hplayers⟩ := changeName_ok hchange
  obtain ⟨hback, hother', hplayers'⟩ :=
    @editCategories_ok u _ String (fun name c => c.setName name) changed us hnodup hus
  refine Prod.ext (funext fun pid => ?_) (funext fun cid => ?_)
  · show (u₁.players pid).map _ = (t.players pid).map _
    rw [hplayers', players_of_ledger hview, hplayers]
  · show (u₁.categories cid).map CategoryStore.sheet = (t.categories cid).map CategoryStore.sheet
    by_cases hcid : cid ∈ changed.map (·.1)
    · obtain ⟨q, hq, rfl⟩ := List.mem_map.1 hcid
      obtain ⟨c, hc, hname, -, hc'⟩ := hrenamed q hq
      obtain ⟨cu, hcu, hsheet⟩ := category_of_ledger hview hc'
      rw [hback q hq, hcu, hc, Option.map_some, Option.map_some, Option.map_some]
      refine congrArg some ?_
      show cu.sheet.setName q.2 = c.sheet
      rw [hsheet, ← hname]
      rfl
    · rw [hother' cid hcid, ← hother cid hcid]
      exact categories_of_project hview cid

theorem SetCategoriesMatchesHiddenAction.setHidden_ok {hidden : Bool} {ids : List CategoryId} {v : Unit}
    (h : setHidden hidden ids t = .ok v t') : t'.players = t.players ∧ ∀ cid, t'.categories cid =
      if cid ∈ ids then (t.categories cid).map (·.setMatchesHidden hidden) else t.categories cid := by
  obtain ⟨us, t₁, hus, hrecompute⟩ := bind_ok.1 h
  obtain ⟨tatamis, rfl⟩ := DrawCategoriesAction.recomputeGroups_ok hrecompute
  show t₁.players = t.players ∧ ∀ cid, t₁.categories cid = _
  clear h hrecompute
  induction ids generalizing t us with
  | nil =>
    obtain ⟨-, rfl⟩ := forEach_nil_ok.1 hus
    exact ⟨rfl, by simp⟩
  | cons id ids ih =>
    obtain ⟨_, t₂, us', hedit, hrest, -⟩ := forEach_cons_ok.1 hus
    obtain ⟨c, c', hc, hset, hrewritten⟩ := editCategory_rewritten hedit
    cases hset
    obtain ⟨hplayers, hcategories⟩ := ih us' hrest
    refine ⟨hplayers.trans hrewritten.players, fun cid => (hcategories cid).trans ?_⟩
    by_cases hcid : cid = id
    · subst hcid
      rw [hrewritten.category, hc, if_pos List.mem_cons_self]
      split <;> rfl
    · rw [hrewritten.other cid hcid]
      simp [hcid]

/-- Flags that were set were the other way before. -/
theorem SetCategoriesMatchesHiddenAction.ledger_back {a a' : SetCategoriesMatchesHiddenAction}
    (h : a.redoImpl t = .ok a' t') {b : SetCategoriesMatchesHiddenAction} (hview : u.ledger = t'.ledger)
    (hundo : a'.undoImpl u = .ok b u') : u'.ledger = t.ledger := by
  obtain ⟨ids, s, hread, hrest⟩ := bind_ok.1 h
  obtain ⟨hids, rfl⟩ := read_ok.1 hread
  cases hids
  obtain ⟨_, t₁, hset, hrest⟩ := bind_ok.1 hrest
  obtain ⟨rfl, rfl⟩ := pure_ok.1 hrest
  obtain ⟨_, u₁, hset', hrest⟩ := bind_ok.1 hundo
  obtain ⟨rfl, rfl⟩ := pure_ok.1 hrest
  obtain ⟨hplayers, hcategories⟩ := setHidden_ok hset
  obtain ⟨hplayers', hcategories'⟩ := setHidden_ok hset'
  refine Prod.ext (funext fun pid => ?_) (funext fun cid => ?_)
  · show (u₁.players pid).map _ = (t.players pid).map _
    rw [hplayers', players_of_ledger hview, hplayers]
  · show (u₁.categories cid).map CategoryStore.sheet = (t.categories cid).map CategoryStore.sheet
    have hsheet : (u.categories cid).map CategoryStore.sheet = (t₁.categories cid).map CategoryStore.sheet :=
      categories_of_project hview cid
    rw [hcategories']
    rw [hcategories] at hsheet
    by_cases hcid : cid ∈ a.getCategoriesThatChange t
    · obtain ⟨-, hchanges⟩ := List.mem_filter.1 hcid
      rw [if_pos (List.mem_reverse.2 hcid)]
      rw [if_pos hcid] at hsheet
      cases hc : t.categories cid with
      | none =>
        rw [hc] at hchanges
        cases hchanges
      | some c =>
        simp only [hc, decide_eq_true_eq] at hchanges
        rw [hc, Option.map_some, Option.map_some, Option.map_eq_some_iff] at hsheet
        obtain ⟨cu, hcu, hsheet⟩ := hsheet
        rw [hcu, Option.map_some, Option.map_some, Option.map_some]
        refine congrArg some ?_
        show cu.sheet.setMatchesHidden (!a.hidden) = c.sheet
        have hhidden : (!a.hidden) = c.matchesHidden := by
          cases hflag : a.hidden <;> cases hflag' : c.matchesHidden <;> simp_all
        rw [hsheet, hhidden]
        rfl
    · rw [if_neg fun hmem => hcid (List.mem_reverse.1 hmem)]
      rwa [if_neg hcid] at hsheet

end

/-! ### Fields of players -/

section

variable {κ : Type} [DecidableEq κ] {field : PlayerField κ} {t t' u u' : TournamentStore}

theorem restoreField_ledger (hfield : field.Lawful) {value : κ} {ids : List PlayerId} {changed : List (PlayerId × κ)}
    (hchange : changeField field value ids t = .ok changed t') (hview : u.ledger = t'.ledger) {v : Unit}
    (hrestore : restoreField field changed u = .ok v u') : u'.ledger = t.ledger := by
  obtain ⟨hbouts, hmembers⟩ := ledger_eq_iff.1 hview
  obtain ⟨u'', hu'', hmembers'⟩ := restoreField_back profileSight_profile hfield hchange hmembers
  cases hu''.symm.trans hrestore
  refine ledger_eq_iff.2 ⟨?_, hmembers'⟩
  exact (frame_restoreField fieldBlind_bouts hrestore).trans
    (hbouts.trans (frame_changeField fieldBlind_bouts _ hchange))

theorem ChangePlayersAction.ledger_kept (hfield : field.Lawful) {a : ChangePlayersAction κ}
    (hidle : a.changedPlayers = []) : Kept ledger (a.redoImpl field) (undoImpl field) := by
  intro t a' t' ht h
  refine ⟨(LinksKept.changePlayers field a ht h).1, fun u b u' _ _ hview hundo => ?_⟩
  obtain ⟨changed, t₁, hchange, hrest⟩ := bind_ok.1 h
  obtain ⟨rfl, rfl⟩ := pure_ok.1 hrest
  obtain ⟨_, u₁, hrestore, hrest⟩ := bind_ok.1 hundo
  obtain ⟨rfl, rfl⟩ := pure_ok.1 hrest
  rw [hidle, List.nil_append] at hrestore
  exact restoreField_ledger hfield hchange hview hrestore

theorem ChangePlayersWeightAction.ledger_revocable {a : ChangePlayersWeightAction} (hidle : a.changedPlayers = [])
    (hdraw : a.drawActions = []) : Revocable InLine Indexed ledger a.redoImpl undoImpl fun _ => True := by
  intro t a' t' ht h
  obtain ⟨changed, t₁, hchange, hrest⟩ := bind_ok.1 h
  obtain ⟨ids, s, hread, hrest⟩ := bind_ok.1 hrest
  obtain ⟨-, rfl⟩ := read_ok.1 hread
  obtain ⟨stack, t₂, hupdates, hrest⟩ := bind_ok.1 hrest
  obtain ⟨rfl, rfl⟩ := pure_ok.1 hrest
  have ht₁ : t₁.InLine := ⟨ht.linked.of_links (frame_changeField fieldBlind_links _ hchange),
    ht.indexed.of_keys (frame_changeField fieldBlind_keys _ hchange)⟩
  rw [hdraw] at hupdates
  obtain ⟨ht', hback⟩ := drawsBack_ledger.updateDraws ht₁ (stackBack_nil t₁.ledger) hupdates
  refine ⟨ht', hback.bind fun _ _ => LeadsBack.bind (P := fun _ => True) ?_ fun _ _ => .pure trivial⟩
  intro u v u' hu hview hrestore
  rw [hidle, List.nil_append] at hrestore
  exact ⟨(keeps_indexed_of_keys (frame_restoreField fieldBlind_keys) hu hrestore).1,
    restoreField_ledger ⟨fun _ _ => rfl, fun _ _ => rfl⟩ hchange hview hrestore, trivial⟩

end

/-! ### All actions -/

section

variable {t t' : TournamentStore}

theorem AutoAddCategoriesAction.ledger_kept (a : AutoAddCategoriesAction) : Kept ledger a.redoImpl undoImpl := by
  intro t a' t' ht h
  obtain ⟨ht', hundone⟩ := undo_erases (k := CategoryStore.sheet) profileSight_profile ht h
  refine ⟨ht'.linked, fun u b u' hu _ hview hundo => ?_⟩
  obtain ⟨-, hlinked', hplayers', hcategories'⟩ := hundone hu.indexed (links_of_ledger hview)
    (fun pid => by rw [players_of_ledger hview]) (categories_of_project hview) hundo
  exact ht.linked.ledger_ext hlinked' hplayers' hcategories'

/-- A match event that has saved a state happens where it is redone. -/
def Action.Recorded (t : TournamentStore) : Action → Prop
  | .matchEvent a => ∀ prevState prevEventSize, a.saved = .state prevState prevEventSize →
    a.kind.Happens a.combinedId t
  | _ => True

/-- A new action has saved nothing. -/
theorem Action.recorded_of_isFresh {a : Action} (h : a.isFresh = true) : a.Recorded t := by
  cases a with
  | matchEvent a =>
    intro prevState prevEventSize hsaved
    simp [isFresh, hsaved] at h
  | _ => trivial

/-- In a run of new actions no action is out of place. -/
theorem Session.recorded_of_new {es : List Event} (hes : ∀ e ∈ es, e.Constructed) (s : Session) :
    Runs.Guarded next (fun u e => ∀ a, u.redone e = some a → a.Constructed ∧ a.Recorded u.tournament) es s := by
  refine Runs.guarded_of_forall (fun e he u a ha => ?_) s
  have hnew := hes e he
  cases e with
  | redo b =>
    simp only [redone] at ha
    split at ha
    · next hfresh =>
      cases ha
      exact ⟨hnew, Action.recorded_of_isFresh hfresh⟩
    · cases ha
  | redoAgain i => exact hnew.elim
  | undo => cases ha

/-- The undo of every action but a match event brings back the ledger. -/
theorem Action.ledger_kept {a : Action} (hidle : a.Idle) (hevent : ∀ b, a ≠ .matchEvent b) :
    Kept ledger a.redoImpl Action.undoImpl := by
  have hvalue : ValueBlind ledger := valueBlind_project
  by_cases hauto : ∃ b, a = .autoAddCategories b
  · obtain ⟨b, rfl⟩ := hauto
    exact b.ledger_kept.wrap fun _ => rfl
  by_cases hrearranges : a.rearranges = true
  · exact .of_restorable register_blank_iff
      (Action.restorable profileSight_profile boutSight_blank hidle hrearranges fun b hb => hauto ⟨b, hb⟩)
  cases a with
  | addDrawSystemPreferenceRow a =>
    exact (Kept.of_frame links_of_ledger hvalue.addRow_redo fun _ => hvalue.addRow_undo).wrap fun _ => rfl
  | changeCategoriesName a =>
    refine Kept.wrap (fun t b t' ht h => ?_) fun _ => rfl
    exact ⟨ht.linked.of_links (labelBlind_links.changeName_redo h),
      fun u d u' _ _ hview hundo => ChangeCategoriesNameAction.ledger_back hidle h hview hundo⟩
  | changeCategoriesRuleset a =>
    exact (Kept.of_revocable (ChangeCategoriesRulesetAction.ledger_revocable hidle)).wrap fun _ => rfl
  | changeDrawSystemPreferenceIdentifier a =>
    exact (Kept.of_frame links_of_ledger (hvalue.editPreferences.bind fun _ => Frame.pure)
      fun _ => hvalue.editPreferences.bind fun _ => Frame.pure).wrap fun _ => rfl
  | changeDrawSystemPreferenceLimit a =>
    exact (Kept.of_frame links_of_ledger hvalue.changeLimit_redo fun _ => hvalue.changeLimit_undo).wrap fun _ => rfl
  | changeMatchCardStylePreference a =>
    exact (Kept.of_frame links_of_ledger (ValueBlind.changeValue_redo fun _ _ => rfl)
      fun _ => ValueBlind.changeValue_undo fun _ _ => rfl).wrap fun _ => rfl
  | changePlayersAge a =>
    exact (ChangePlayersAction.ledger_kept ⟨fun _ _ => rfl, fun _ _ => rfl⟩ hidle).wrap fun _ => rfl
  | changePlayersClub a =>
    exact (ChangePlayersAction.ledger_kept ⟨fun _ _ => rfl, fun _ _ => rfl⟩ hidle).wrap fun _ => rfl
  | changePlayersCountry a =>
    exact (ChangePlayersAction.ledger_kept ⟨fun _ _ => rfl, fun _ _ => rfl⟩ hidle).wrap fun _ => rfl
  | changePlayersFirstName a =>
    exact (ChangePlayersAction.ledger_kept ⟨fun _ _ => rfl, fun _ _ => rfl⟩ hidle).wrap fun _ => rfl
  | changePlayersLastName a =>
    exact (ChangePlayersAction.ledger_kept ⟨fun _ _ => rfl, fun _ _ => rfl⟩ hidle).wrap fun _ => rfl
  | changePlayersRank a =>
    exact (ChangePlayersAction.ledger_kept ⟨fun _ _ => rfl, fun _ _ => rfl⟩ hidle).wrap fun _ => rfl
  | changePlayersSex a =>
    exact (ChangePlayersAction.ledger_kept ⟨fun _ _ => rfl, fun _ _ => rfl⟩ hidle).wrap fun _ => rfl
  | changePlayersWeight a =>
    exact (Kept.of_revocable (ChangePlayersWeightAction.ledger_revocable hidle.1 hidle.2)).wrap fun _ => rfl
  | changeScoreboardStylePreference a =>
    exact (Kept.of_frame links_of_ledger (ValueBlind.changeValue_redo fun _ _ => rfl)
      fun _ => ValueBlind.changeValue_undo fun _ _ => rfl).wrap fun _ => rfl
  | changeTournamentDate a =>
    exact (Kept.of_frame links_of_ledger (ValueBlind.changeValue_redo fun _ _ => rfl)
      fun _ => ValueBlind.changeValue_undo fun _ _ => rfl).wrap fun _ => rfl
  | changeTournamentLocation a =>
    exact (Kept.of_frame links_of_ledger (ValueBlind.changeValue_redo fun _ _ => rfl)
      fun _ => ValueBlind.changeValue_undo fun _ _ => rfl).wrap fun _ => rfl
  | changeTournamentName a =>
    exact (Kept.of_frame links_of_ledger (ValueBlind.changeValue_redo fun _ _ => rfl)
      fun _ => ValueBlind.changeValue_undo fun _ _ => rfl).wrap fun _ => rfl
  | changeTournamentWebName a =>
    exact (Kept.of_frame links_of_ledger (ValueBlind.changeValue_redo fun _ _ => rfl)
      fun _ => ValueBlind.changeValue_undo fun _ _ => rfl).wrap fun _ => rfl
  | eraseDrawSystemPreferenceRow a =>
    exact (Kept.of_frame links_of_ledger hvalue.eraseRow_redo fun _ => hvalue.eraseRow_undo).wrap fun _ => rfl
  | matchEvent a => exact (hevent a rfl).elim
  | resetMatches a =>
    exact (Kept.of_revocable (ResetMatchesAction.ledger_revocable hidle.1 hidle.2)).wrap fun _ => rfl
  | setCategoriesMatchesHidden a =>
    refine Kept.wrap (fun t b t' ht h => ?_) fun _ => rfl
    have hlinks : Frame links a.redoImpl := frame_read.bind fun _ =>
      (SetCategoriesMatchesHiddenAction.frame_setHidden labelBlind_links _ _).bind fun _ => Frame.pure
    exact ⟨ht.linked.of_links (hlinks h),
      fun u d u' _ _ hview hundo => SetCategoriesMatchesHiddenAction.ledger_back h hview hundo⟩
  | setTatamiCount a =>
    exact (Kept.of_frame links_of_ledger layoutBlind_ledger.setTatamiCount_redo
      fun _ => layoutBlind_ledger.setTatamiCount_undo).wrap fun _ => rfl
  | _ => exact (hrearranges rfl).elim

/-- The undo of a match event brings back the ledger. -/
theorem MatchEventAction.ledger_back {a a' : MatchEventAction} (hidle : a.drawActions = [])
    (hrecorded : (Action.matchEvent a).Recorded t) (ht : t.InLine) (h : a.redoImpl t = .ok a' t') :
    LedgerBack a'.undoImpl t'.ledger t.ledger := by
  obtain ⟨-, ⟨rfl, rfl, hnot⟩ | hback⟩ := drawsBack_ledger.matchEvent hidle ht h
  · unfold undoImpl
    cases hsaved : a'.saved with
    | unwritten =>
      intro u b u' _ _ hundo
      exact (throw_ok.1 hundo).elim
    | clear => exact .pure trivial
    | state prevState prevEventSize => exact (hnot (hrecorded prevState prevEventSize hsaved)).elim
  · exact hback

/-- Where the blocks are, and the ledger. -/
def chart (t : TournamentStore) : Outline × (PlayerId → Option PlayerStore) ×
    (CategoryId → Option CategoryStore) :=
  (t.outline, t.ledger)

/-- The undo of every action leads back to the chart of before. -/
theorem Action.chart_back {a a' : Action} (hidle : a.Idle) (hnew : a.Constructed) (hrecorded : a.Recorded t)
    (ht : Orderly t) (h : a.redoImpl t = .ok a' t') : LeadsBack Intact chart a'.undoImpl Idle (chart t') (chart t) := by
  intro u b u' hu hview hundo
  obtain ⟨houtline, hledger⟩ := Prod.mk.inj hview
  obtain ⟨-, hlayout⟩ := Action.revocable hidle hnew ht.sound h
  obtain ⟨-, hkeeps⟩ := Action.indexRevocable hidle ht.indexed h
  obtain ⟨hplaced, houtline', hidle'⟩ := hlayout hu.placed houtline hundo
  have hledger' : u'.ledger = t.ledger := by
    by_cases hevent : ∃ e, a = .matchEvent e
    · obtain ⟨e, rfl⟩ := hevent
      obtain ⟨e', he', rfl⟩ := map_ok.1 h
      obtain ⟨d, hd, -⟩ := map_ok.1 hundo
      exact (MatchEventAction.ledger_back hidle hrecorded ⟨ht.linked, ht.indexed⟩ he' hu.indexed hledger hd).2.1
    · have hother : ∀ e, a ≠ .matchEvent e := fun e heq => hevent ⟨e, heq⟩
      exact (Action.ledger_kept hidle hother ht h).2 hu houtline hledger hundo
  exact ⟨⟨hplaced, (hkeeps hu.indexed hundo).1⟩, Prod.ext houtline' hledger', hidle'⟩

end

/-! ### Sessions -/

/-- A detour of any actions that undoes no match event without a value of its flag and has undone all that it did
leaves the players, the categories with all their matches but for the flags of the byes, and the places of the blocks
as they were. -/
theorem Session.detour_sheets {s s' : Session} {es : List Event} (hs : s.Constructed)
    (hes : Runs.Guarded next (fun u e => (∀ a, u.redone e = some a → a.Constructed ∧ a.Recorded u.tournament) ∧
      (e = .undo → s.done.length < u.done.length ∧ ∀ a ∈ u.done.head?, a.isWritten = true)) es s)
    (hrun : Runs.run next es s = some s')
    (hlength : s'.done.length = s.done.length) : s'.done = s.done ∧
      s'.tournament.players = s.tournament.players ∧
      (∀ cid, (s'.tournament.categories cid).map CategoryStore.sheet =
        (s.tournament.categories cid).map CategoryStore.sheet) ∧
      s'.tournament.outline = s.tournament.outline := by
  have hretraces : Retraces (fun a => LeadsBack Intact chart a.undoImpl Action.Idle) chart
      fun u e => ∀ a, u.redone e = some a → a.Constructed ∧ a.Recorded u.tournament := by
    refine ⟨fun _ _ a hok ha => (hok a ha).1, fun u e a a' t' hu hok ha hidle hredo => ?_, fun _ _ _ h => h⟩
    exact Action.chart_back hidle (hok a ha).1 (hok a ha).2 hu.orderly hredo
  have haway :
      Runs.Guarded next (fun u e => (∀ a, u.redone e = some a → a.Constructed ∧ a.Recorded u.tournament) ∧
      s.Away u e) es s := Runs.guarded_imp (fun _ _ hstep => ⟨hstep.1, fun he => (hstep.2 he).1⟩) hes
  obtain ⟨-, ds, hdone, hhome⟩ := hretraces.onDetour hs haway hrun
  have hnil : ds = [] := by
    rw [hdone, List.length_append] at hlength
    exact List.length_eq_zero_iff.1 (by omega)
  subst hnil
  obtain ⟨houtline, hledger⟩ := Prod.mk.inj hhome
  exact ⟨hdone, players_of_ledger hledger, categories_of_project hledger, houtline⟩

/-- A drawn category gets another name and another ruleset, which resets its match, and all of it is undone. -/
def rulesetTakenBack : List Session.Event :=
  [.redo (.addPlayers ⟨[(⟨1⟩, {}), (⟨2⟩, {})]⟩),
    .redo (.addCategoryWithPlayers
      { id := ⟨1⟩, name := "", ruleset := .twentyEighteen, drawSystem := .bestOfThree,
        playerIds := [⟨1⟩, ⟨2⟩], seed := 0 }),
    DoublePoolDrawSystem.fight ⟨2357136044⟩ (.awardIppon .white 0 false),
    .redo (.changeCategoriesName { categoryIds := [⟨1⟩, ⟨1⟩], value := "U18" }),
    .redo (.changeCategoriesRuleset { categoryIds := [⟨1⟩, ⟨1⟩], ruleset := .twentyEighteenTwoMinute }),
    .undo, .undo, .undo, .undo, .undo]

theorem Session.detour_sheets_rulesetTakenBack : ∃ s' : Session, Runs.run next rulesetTakenBack {} = some s' ∧
    s'.tournament.players = TournamentStore.players {} ∧
    ∀ cid, (s'.tournament.categories cid).map CategoryStore.sheet = none := by
  have hrun : (Runs.run Session.next rulesetTakenBack {}).map (·.done.length) = some 0 := by decide +kernel
  obtain ⟨s', hs', hlength⟩ := Option.map_eq_some_iff.1 hrun
  have haway : Runs.Guarded next (fun u e => e = .undo → 0 < u.done.length ∧
      ∀ a ∈ u.done.head?, a.isWritten = true)
      rulesetTakenBack {} := by decide +kernel
  have hrecorded := recorded_of_new
    (by simp [rulesetTakenBack, DoublePoolDrawSystem.fight, Event.Constructed, Action.Constructed] :
      ∀ e ∈ rulesetTakenBack, e.Constructed) {}
  obtain ⟨-, hplayers, hsheets, -⟩ :=
    detour_sheets constructed_empty (Runs.guarded_and hrecorded haway) hs' hlength
  exact ⟨s', hs', hplayers, hsheets⟩

end JudoAssistant
