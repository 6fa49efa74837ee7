import JudoAssistant.Tournament.LinkRuns

/-!
# Detours

A detour of a session redoes actions and undoes them again, in any order, and never undoes what was done
before it.  Where it has undone all that it did, the tournament is as it was.
-/

namespace JudoAssistant

open Effect Exec TournamentStore

/-! ### Complete sights -/

section

/-- The id and the fields of a player. -/
def PlayerStore.profile (p : PlayerStore) : PlayerId × PlayerFields := (p.id, p.fields)

/-- A category without its players. -/
def CategoryStore.vacant (c : CategoryStore) : CategoryStore := { c with players := ∅ }

theorem profileSight_profile : ProfileSight PlayerStore.profile where
  matchIds _ _ := rfl
  categories _ _ := rfl
  setFields p q edit heq := by
    obtain ⟨hid, hfields⟩ := Prod.mk.inj heq
    exact Prod.ext hid (congrArg edit hfields)

theorem CategoryStore.eq_of_vacant {c c' : CategoryStore} (h : c.vacant = c'.vacant) :
    c = { c' with players := c.players } := by
  unfold vacant at h
  cases c
  cases c'
  simp_all

theorem boutSight_vacant : BoutSight CategoryStore.vacant where
  fights c c' h := by rw [CategoryStore.eq_of_vacant h]
  withBouts b c c' h := by
    rw [CategoryStore.eq_of_vacant h]
    rfl
  setDrawSystem c c' d h := by
    rw [CategoryStore.eq_of_vacant h]
    rfl
  setLocation c c' type l h := by
    rw [CategoryStore.eq_of_vacant h]
    cases type <;> rfl
  setPlayers _ _ := rfl

variable {t u : TournamentStore}

theorem players_of_parts {β : Type} {h : CategoryStore → β} (hbouts : bouts h u = bouts h t)
    (hmembers : members PlayerStore.profile u = members PlayerStore.profile t) : u.players = t.players := by
  funext pid
  have hmatchIds := players_of_project hbouts pid
  have hrest := players_of_project hmembers pid
  cases hp : u.players pid with
  | none => cases hq : t.players pid <;> simp_all
  | some p =>
    cases hq : t.players pid with
    | none => simp_all
    | some q =>
      rw [hp, hq] at hmatchIds hrest
      obtain ⟨hcategories, hprofile⟩ := Prod.mk.inj (Option.some.inj hrest)
      obtain ⟨hid, hfields⟩ := Prod.mk.inj hprofile
      have hmatchIds := Option.some.inj hmatchIds
      cases p
      cases q
      simp_all

/-- What is seen of the categories but for their players shows all of it with them. -/
theorem category_of_parts {β γ : Type} {h : CategoryStore → β} {k : CategoryStore → γ}
    (hk : ∀ c e : CategoryStore, h c = h e → c.players = e.players → k c = k e) (hbouts : bouts h u = bouts h t)
    (hmembers : members PlayerStore.profile u = members PlayerStore.profile t) (cid : CategoryId) :
    (u.categories cid).map k = (t.categories cid).map k := by
  have hrest := categories_of_project hbouts cid
  have hplayers := categories_of_project hmembers cid
  cases hc : u.categories cid with
  | none => cases he : t.categories cid <;> simp_all
  | some c =>
    cases he : t.categories cid with
    | none => simp_all
    | some e =>
      rw [hc, he] at hrest hplayers
      exact congrArg some (hk c e (Option.some.inj hrest) (Option.some.inj hplayers))

/-- The complete register shows the players and the categories. -/
theorem eq_of_register (h : register PlayerStore.profile CategoryStore.vacant u =
    register PlayerStore.profile CategoryStore.vacant t) :
    u.players = t.players ∧ u.categories = t.categories ∧ u.outline = t.outline := by
  have hbouts : bouts CategoryStore.vacant u = bouts CategoryStore.vacant t := congrArg (fun v => v.1.2) h
  have hmembers : members PlayerStore.profile u = members PlayerStore.profile t := congrArg Prod.snd h
  refine ⟨players_of_parts hbouts hmembers, funext fun cid => ?_, congrArg (fun v => v.1.1) h⟩
  have hcid : (u.categories cid).map id = (t.categories cid).map id := by
    refine category_of_parts (fun c e hvacant hplayers => ?_) hbouts hmembers cid
    have heq := CategoryStore.eq_of_vacant hvacant
    rw [hplayers] at heq
    exact heq
  rwa [Option.map_id, id, id] at hcid

/-- Where the references agree, the players follow from their fields and the categories. -/
theorem TournamentStore.Linked.players_ext (ht : t.Linked) (hu : u.Linked) (hcategories : u.categories = t.categories)
    (hplayers : ∀ pid, (u.players pid).map PlayerStore.profile = (t.players pid).map PlayerStore.profile) :
    u.players = t.players := by
  have hnone : ∀ pid, u.players pid = none ↔ t.players pid = none := by
    intro pid
    have hpid := hplayers pid
    cases hq : u.players pid <;> cases hp : t.players pid <;> simp_all
  have hlinks := ht.links_ext hu hnone fun cid => by rw [hcategories]
  funext pid
  have hlink := players_of_project hlinks pid
  have hprofile := hplayers pid
  cases hq : u.players pid with
  | none => rw [(hnone pid).1 hq]
  | some q =>
    cases hp : t.players pid with
    | none => cases hq.symm.trans ((hnone pid).2 hp)
    | some p =>
      rw [hq, hp] at hlink hprofile
      obtain ⟨hcategories, hmatchIds⟩ := Prod.mk.inj (Option.some.inj hlink)
      obtain ⟨hid, hfields⟩ := Prod.mk.inj (Option.some.inj hprofile)
      cases p
      cases q
      simp_all

/-- The undo of `AutoAddCategoriesAction` never fails: the categories that it erases have no blocks on the
tatamis. -/
theorem AutoAddCategoriesAction.restorable (a : AutoAddCategoriesAction) :
    RegisterRestorable PlayerStore.profile CategoryStore.vacant a.redoImpl undoImpl fun _ => True := by
  intro t a' t' ht h
  obtain ⟨ht', hundone⟩ := undo_erases (k := id) profileSight_profile ht h
  obtain ⟨hnodup, hfree⟩ := unplaced_redoImpl ht.sound h
  refine ⟨ht', restores_of_parts (revocable a ht.sound h).2 (lasting_indexed.autoAddCategories a ht.indexed h).2
    fun u hu hview => ?_⟩
  obtain ⟨hplayers, hcategories, houtline⟩ := eq_of_register hview
  have hlinks : u.links = t'.links := by
    unfold TournamentStore.links TournamentStore.project
    rw [hplayers, hcategories]
  obtain ⟨e, u', he⟩ := EraseCategoriesAction.redoImpl_total (a := { categoryIds := a'.groups.map (·.1) }) hnodup
    (ht'.linked.of_links hlinks) hu.indexed (by rwa [houtline])
  have hundo : a'.undoImpl u = .ok a' u' := bind_ok.2 ⟨e, u', he, pure_ok.2 ⟨rfl, rfl⟩⟩
  obtain ⟨-, hlinked', hplayers', hcategories'⟩ :=
    hundone hu.indexed hlinks (fun pid => by rw [hplayers]) (fun cid => by rw [hcategories]) hundo
  have hcategories'' : u'.categories = t.categories := funext fun cid => by
    have hcid := hcategories' cid
    rwa [Option.map_id, id, id] at hcid
  have hplayers'' := ht.linked.players_ext hlinked' hcategories'' hplayers'
  refine ⟨a', u', hundo, ?_, ?_⟩
  · unfold bouts TournamentStore.project
    rw [hplayers'', hcategories'']
  · unfold members TournamentStore.project
    rw [hplayers'', hcategories'']

end

/-! ### Detours -/

namespace Session

variable {s s' : Session} {e : Event} {es : List Event} {V : Type}

theorem constructed_empty : Session.Constructed {} := ⟨[], trivial, rfl⟩

theorem Constructed.next (hs : s.Constructed) (ha : ∀ a, s.redone e = some a → a.Constructed)
    (h : s.next e = some s') : s'.Constructed := by
  obtain ⟨es, hes, hrun⟩ := hs
  refine ⟨es ++ [e], Runs.guarded_append hes hrun ?_, (Runs.run_concat hrun e).trans h⟩
  exact Runs.guarded_cons ha fun _ _ => trivial

theorem Constructed.idle (hs : s.Constructed) : ∀ a ∈ s.undone, a.Idle :=
  (linkDiscipline.sound_of_reachableBy hs).idle

/-- Undoing the actions leads from one view back to another, where `U` tells what the undo of an action
does. -/
def Homeward (U : Action → V → V → Prop) : List Action → V → V → Prop
  | [], after, home => after = home
  | a :: ds, after, home => ∃ before, U a after before ∧ Homeward U ds before home

/-- Undoes nothing that was done before the session `s`. -/
def Away (s u : Session) (e : Event) : Prop := e = .undo → s.done.length < u.done.length

/-- The session `u` lies on a detour of the session `s`. -/
structure OnDetour (U : Action → V → V → Prop) (view : TournamentStore → V) (s u : Session) : Prop where
  constructed : u.Constructed
  homeward : ∃ ds, u.done = ds ++ s.done ∧ Homeward U ds (view u.tournament) (view s.tournament)

variable {U : Action → V → V → Prop} {view : TournamentStore → V} {ok : Session → Event → Prop}

/-- What a detour has to know of its actions. -/
structure Retraces (U : Action → V → V → Prop) (view : TournamentStore → V) (ok : Session → Event → Prop) :
    Prop where
  constructed : ∀ u e a, ok u e → u.redone e = some a → a.Constructed
  redo : ∀ u e a a' t', u.Constructed → ok u e → u.redone e = some a → a.Idle →
    a.redoImpl u.tournament = .ok a' t' → U a' (view t') (view u.tournament)
  undo : ∀ a after before, U a after before → LeadsBack Intact view a.undoImpl Action.Idle after before

theorem Retraces.onDetour_next (h : Retraces U view ok) {u u' : Session} (hu : OnDetour U view s u)
    (hok : ok u e) (haway : s.Away u e) (hnext : u.next e = some u') : OnDetour U view s u' := by
  obtain ⟨hconstructed, ds, hdone, hback⟩ := hu
  refine ⟨hconstructed.next (fun a => h.constructed u e a hok) hnext, ?_⟩
  obtain rfl | ⟨a, a', t', undone, ha, -, hold, hredo, rfl⟩ | ⟨a, done, a', t', rfl, hdone', hundo, rfl⟩ :=
    step_cases (next_eq_some.1 hnext)
  · exact ⟨ds, hdone, hback⟩
  · have hidle : a.Idle := hold.elim Action.idle_of_isFresh (hconstructed.idle a)
    exact ⟨a' :: ds, by rw [hdone, List.cons_append], _, h.redo u e a a' t' hconstructed hok ha hidle hredo, hback⟩
  · cases ds with
    | nil =>
      have hlength := haway rfl
      rw [hdone, List.nil_append] at hlength
      exact (lt_irrefl _ hlength).elim
    | cons b ds =>
      rw [hdone', List.cons_append] at hdone
      obtain ⟨rfl, rfl⟩ := List.cons.inj hdone
      obtain ⟨before, hU, hrest⟩ := hback
      obtain ⟨-, hview, -⟩ := h.undo _ _ _ hU hconstructed.orderly.intact rfl hundo
      exact ⟨ds, rfl, by rw [hview]; exact hrest⟩

theorem Retraces.onDetour (h : Retraces U view ok) (hs : s.Constructed)
    (hes : Runs.Guarded next (fun u e => ok u e ∧ s.Away u e) es s) (hrun : Runs.run next es s = some s') :
    OnDetour U view s s' :=
  Runs.run_inv (fun _ _ _ hu hok hnext => h.onDetour_next hu hok.1 hok.2 hnext) ⟨hs, [], rfl, rfl⟩ hes hrun

/-- Where the undos return, they lead all the way home. -/
theorem OnDetour.home (htotal : ∀ a after before, U a after before →
    Recovers Intact view a.undoImpl Action.Idle after before)
    {u : Session} (hu : OnDetour U view s u) :
    ∃ u', Runs.run next (List.replicate (u.done.length - s.done.length) .undo) u =
      some u' ∧ u'.done = s.done ∧ view u'.tournament = view s.tournament := by
  obtain ⟨hconstructed, ds, hdone, hback⟩ := hu
  have hlength : u.done.length - s.done.length = ds.length := by
    rw [hdone, List.length_append, Nat.add_sub_cancel]
  rw [hlength]
  clear hlength
  induction ds generalizing u with
  | nil => exact ⟨u, rfl, hdone, hback⟩
  | cons a ds ih =>
    obtain ⟨before, hU, hrest⟩ := hback
    obtain ⟨b, t', hundo, -, hview, -⟩ := htotal _ _ _ hU hconstructed.orderly.intact rfl
    have hnext : u.next .undo = some ⟨t', ds ++ s.done, b :: u.undone⟩ := by
      rw [next_eq_some, step, hdone]
      exact revert_ok.2 ⟨b, t', hundo, rfl⟩
    obtain ⟨u', hrun, hhome⟩ := ih (hconstructed.next (by rintro a ⟨⟩) hnext) rfl (by rw [hview]; exact hrest)
    exact ⟨u', by rw [List.length_cons, List.replicate_succ, Runs.run, hnext, Option.bind_some, hrun], hhome⟩

end Session

/-! ### References -/

/-- A detour of any actions that has undone all that it did leaves the references, the fights, the draws and
the places of the blocks as they were. -/
theorem Session.detour_links {s s' : Session} {es : List Event} (hs : s.Constructed)
    (hes : Runs.Guarded next (fun u e => (∀ a, u.redone e = some a → a.Constructed) ∧
      (e = .undo → s.done.length < u.done.length)) es s) (hrun : Runs.run next es s = some s')
    (hlength : s'.done.length = s.done.length) : s'.done = s.done ∧
      s'.tournament.links = s.tournament.links ∧ s'.tournament.outline = s.tournament.outline := by
  have hretraces : Retraces (fun a => LeadsBack Intact tied a.undoImpl Action.Idle) tied
      fun u e => ∀ a, u.redone e = some a → a.Constructed := by
    refine ⟨fun _ _ a hok => hok a, fun u e a a' t' hu hok ha hidle hredo => ?_, fun _ _ _ h => h⟩
    obtain ⟨-, -, hback⟩ := linkDiscipline.redo u e a a' t' hok ha hidle hu.orderly.intact
      ⟨_, hu.orderly, rfl⟩ hredo
    exact fun v b v' hv hview hundo => hback v b v' hv hview trivial hundo
  obtain ⟨-, ds, hdone, hhome⟩ := hretraces.onDetour hs hes hrun
  have hnil : ds = [] := by
    rw [hdone, List.length_append] at hlength
    exact List.length_eq_zero_iff.1 (by omega)
  subst hnil
  obtain ⟨houtline, hlinks⟩ := tied_eq_iff.1 hhome
  exact ⟨hdone, hlinks, houtline⟩

instance decidableUndo : ∀ e : Session.Event, Decidable (e = .undo)
  | .redo _ => .isFalse (by rintro ⟨⟩)
  | .redoAgain _ => .isFalse (by rintro ⟨⟩)
  | .undo => .isTrue rfl

/-- A category of two players is drawn, white wins the match, and all of it is undone. -/
def matchTakenBack : List Session.Event :=
  [.redo (.addPlayers ⟨[(⟨1⟩, {}), (⟨2⟩, {})]⟩),
    .redo (.addCategoryWithPlayers
      { id := ⟨1⟩, name := "", ruleset := .twentyEighteen, drawSystem := .bestOfThree,
        playerIds := [⟨1⟩, ⟨2⟩], seed := 0 }),
    DoublePoolDrawSystem.fight ⟨2357136044⟩ (.awardIppon .white 0 false), .undo, .undo, .undo]

theorem Session.detour_links_matchTakenBack : ∃ s' : Session, Runs.run next matchTakenBack {} = some s' ∧
    s'.tournament.links = TournamentStore.links {} := by
  have hrun : (Runs.run Session.next matchTakenBack {}).map (·.done.length) = some 0 := by decide +kernel
  obtain ⟨s', hs', hlength⟩ := Option.map_eq_some_iff.1 hrun
  have haway : Runs.Guarded next (fun u e => e = .undo → 0 < u.done.length) matchTakenBack {} := by decide +kernel
  have hconstructed : Runs.Guarded next (fun u e => ∀ a, u.redone e = some a →
      a.Constructed) matchTakenBack {} := by
    refine Runs.guarded_of_forall (fun e he u a ha => ?_) _
    simp only [matchTakenBack, DoublePoolDrawSystem.fight, List.mem_cons, List.not_mem_nil, or_false] at he
    rcases he with rfl | rfl | rfl | rfl | rfl | rfl <;> cases ha <;> trivial
  exact ⟨s', hs', (detour_links constructed_empty
    (Runs.guarded_and hconstructed haway) hs' hlength).2.1⟩

/-! ### Actions that can always be taken back -/

/-- The actions that add, erase, move, enrol and draw players and categories. -/
def Action.rearranges : Action → Bool
  | .addCategory _ | .addCategoryWithPlayers _ | .addPlayers _ | .addPlayersToCategory _
  | .addPlayersWithCategories _ | .autoAddCategories _ | .changeCategoriesDrawSystem _
  | .changePlayersBlueJudogiHint _ | .drawCategories _ | .eraseCategories _ | .erasePlayers _
  | .erasePlayersFromAllCategories _ | .erasePlayersFromCategory _ | .setTatamiLocation _ => true
  | _ => false

section

variable {α β γ : Type} {f : PlayerStore → α} {h : CategoryStore → β}

theorem RegisterRestorable.wrap {wrap : γ → Action} {x : Exec γ} {undo : γ → Exec γ} {P : γ → Prop}
    (hx : RegisterRestorable f h x undo P) (hundo : ∀ a, (wrap a).undoImpl = wrap <$> undo a)
    (hP : ∀ a, P a → (wrap a).Idle) : RegisterRestorable f h (wrap <$> x) Action.undoImpl Action.Idle := by
  intro t a t' ht ha
  obtain ⟨b, hb, rfl⟩ := map_ok.1 ha
  obtain ⟨ht', hback⟩ := hx ht hb
  refine ⟨ht', ?_⟩
  rw [hundo]
  exact hback.map hP

theorem Action.restorable (hf : ProfileSight f) (hsight : BoutSight h) {a : Action} (hidle : a.Idle)
    (ha : a.rearranges = true) (hauto : ∀ b, a ≠ .autoAddCategories b) :
    RegisterRestorable f h a.redoImpl Action.undoImpl Idle := by
  cases a with
  | autoAddCategories a => exact (hauto a rfl).elim
  | addCategory a => exact a.restorable.wrap (fun _ => rfl) fun _ _ => trivial
  | addCategoryWithPlayers a => exact (a.restorable hf hsight).wrap (fun _ => rfl) fun _ _ => trivial
  | addPlayers a => exact a.restorable.wrap (fun _ => rfl) fun _ _ => trivial
  | addPlayersToCategory a =>
    exact (AddPlayersToCategoryAction.restorable hf hsight hidle.1 hidle.2).wrap (fun _ => rfl) fun _ h => h
  | addPlayersWithCategories a =>
    exact (AddPlayersWithCategoriesAction.restorable hf hsight hidle.1 hidle.2).wrap (fun _ => rfl) fun _ h => h
  | changeCategoriesDrawSystem a =>
    exact (ChangeCategoriesDrawSystemAction.restorable hf hsight hidle.1 hidle.2).wrap (fun _ => rfl) fun _ h => h
  | changePlayersBlueJudogiHint a =>
    exact (ChangePlayersBlueJudogiHintAction.restorable hf hsight hidle).wrap (fun _ => rfl) fun _ h => h
  | drawCategories a => exact (DrawCategoriesAction.restorable hf hsight hidle).wrap (fun _ => rfl) fun _ h => h
  | eraseCategories a =>
    exact (EraseCategoriesAction.restorable hf hidle.1 hidle.2).wrap (fun _ => rfl) fun _ h => h
  | erasePlayers a =>
    exact (ErasePlayersAction.restorable hf hsight hidle.1 hidle.2.1 hidle.2.2).wrap (fun _ => rfl) fun _ h => h
  | erasePlayersFromAllCategories a =>
    exact (ErasePlayersFromAllCategoriesAction.restorable hf hsight hidle).wrap (fun _ => rfl) fun _ h => h
  | erasePlayersFromCategory a =>
    exact (ErasePlayersFromCategoryAction.restorable hf hsight hidle.1 hidle.2).wrap (fun _ => rfl) fun _ h => h
  | setTatamiLocation a => exact (a.restorable hsight).wrap (fun _ => rfl) fun _ _ => trivial
  | _ => cases ha

end

theorem Action.restorable_register {a : Action} (hidle : a.Idle) (ha : a.rearranges = true) :
    RegisterRestorable PlayerStore.profile CategoryStore.vacant a.redoImpl Action.undoImpl Idle := by
  by_cases hauto : ∃ b, a = .autoAddCategories b
  · obtain ⟨b, rfl⟩ := hauto
    exact b.restorable.wrap (fun _ => rfl) fun _ _ => trivial
  · exact restorable profileSight_profile boutSight_vacant hidle ha fun b hb => hauto ⟨b, hb⟩

/-- Such an action, new or undone before, can be undone right after its redo, which leads back to the players and
the categories of before, with all that is in them. -/
theorem Session.undo_restores {s : Session} (hs : s.Constructed) {a a' : Action} {t' : TournamentStore}
    (hold : a.isFresh = true ∨ a ∈ s.undone) (ha : a.rearranges = true)
    (hredo : a.redoImpl s.tournament = .ok a' t') :
    ∃ a'' t'', a'.undoImpl t' = .ok a'' t'' ∧ t''.players = s.tournament.players ∧
      t''.categories = s.tournament.categories ∧ t''.outline = s.tournament.outline := by
  have hidle : a.Idle := hold.elim Action.idle_of_isFresh (hs.idle a)
  obtain ⟨ht', hback⟩ := Action.restorable_register hidle ha hs.orderly hredo
  obtain ⟨a'', t'', hundo, -, hview, -⟩ := hback ht'.intact rfl
  exact ⟨a'', t'', hundo, eq_of_register hview⟩

/-- Two categories are added for three players, and both are drawn. -/
def groupsAdded : AutoAddCategoriesAction := ⟨[(⟨1⟩, [⟨1⟩, ⟨2⟩]), (⟨2⟩, [⟨3⟩])], "U18", 0⟩

theorem Session.undo_restores_groupsAdded : ∃ (s : Session) (a' : Action) (t' : TournamentStore),
    Runs.run next [.redo (.addPlayers ⟨[(⟨1⟩, {}), (⟨2⟩, {}), (⟨3⟩, {})]⟩)] {} = some s ∧
    (Action.autoAddCategories groupsAdded).redoImpl s.tournament = .ok a' t' ∧
    ∃ a'' t'', a'.undoImpl t' = .ok a'' t'' ∧ t''.players = s.tournament.players ∧
      t''.categories = s.tournament.categories := by
  have hrun : ((Runs.run next [.redo (.addPlayers ⟨[(⟨1⟩, {}), (⟨2⟩, {}), (⟨3⟩, {})]⟩)] {}).bind
      fun s => (s.next (.redo (.autoAddCategories groupsAdded))).map (·.done.length)) = some 2 := by
    decide +kernel
  obtain ⟨s, hs, hnext⟩ := Option.bind_eq_some_iff.1 hrun
  obtain ⟨s', hs', -⟩ := Option.map_eq_some_iff.1 hnext
  have hperform : perform s.tournament (.autoAddCategories groupsAdded) s.done s.undone = .ok s' :=
    next_eq_some.1 hs'
  obtain ⟨a', t', hredo, -⟩ := perform_ok.1 hperform
  have hconstructed : s.Constructed := ⟨_, Runs.guarded_of_forall (fun e he u a ha => by
    obtain rfl := List.mem_singleton.1 he
    cases ha
    trivial) _, hs⟩
  obtain ⟨a'', t'', hundo, hplayers, hcategories, -⟩ :=
    undo_restores (a := .autoAddCategories groupsAdded) hconstructed (.inl rfl) rfl hredo
  exact ⟨s, a', t', hs, hredo, a'', t'', hundo, hplayers, hcategories⟩

end JudoAssistant
