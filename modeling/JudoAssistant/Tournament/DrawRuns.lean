import JudoAssistant.Tournament.Arrangements
import JudoAssistant.Tournament.Drawn

/-!
# The draws of every session

The matches of a category are those of its draw.  Actions that change the players draw again, match events
only fill semifinals and finals, and undoing an action brings back what was drawn before it.
-/

namespace JudoAssistant

open Effect Exec TournamentStore

/-! ### Drawn tournaments -/

/-- The matches of the category are those of its draw. -/
def CategoryStore.Drawn (c : CategoryStore) : Prop := c.drawSystem.Drawn c.players (c.matchList.map (·.fight))

/-- The categories are drawn. -/
abbrev TournamentStore.Drawn (t : TournamentStore) : Prop := t.All CategoryStore.Drawn

theorem CategoryStore.Drawn.of_bonds {c e : CategoryStore} (h : c.Drawn) (hbonds : e.bonds = c.bonds) : e.Drawn := by
  obtain ⟨hplayers, hrest⟩ := Prod.mk.inj hbonds
  obtain ⟨hfights, hsystem⟩ := Prod.mk.inj hrest
  unfold CategoryStore.Drawn
  rw [hplayers, hfights, hsystem]
  exact h

/-- A draw establishes it. -/
theorem drawLaw_drawn : DrawLaw CategoryStore.bonds CategoryStore.Drawn where
  congr hbonds h := h.of_bonds hbonds
  setLocation _ _ _ := rfl
  setName _ _ := rfl
  setRuleset _ _ := rfl
  setMatchesHidden _ _ := rfl
  init _ _ _ kind := DrawSystem.drawn_getDrawSystem kind
  draw {off t t' seed id d c'} ht hlinked h hc' := by
    obtain ⟨c, e, ms, u, hdraws, -, hinit⟩ := DrawCategoriesAction.drawCategory_initCategory ht h
    obtain ⟨actions, rfl, hms, hamong⟩ := hdraws.drawn
    rw [hdraws.tournament] at hc'
    change Function.update t.categories id (some e) id = some c' at hc'
    rw [Function.update_self] at hc'
    cases hc'
    have hplayers : c'.players = c.players := by
      have hsame := hdraws.same
      unfold CategoryStore.SameButBouts at hsame
      rw [hsame]
    have hexists : ∀ player : Option PlayerId, (∀ pid, player = some pid → pid ∈ inOrder c.players) →
        AddMatchAction.existing t player = player := by
      intro player hplayer
      cases player with
      | none => rfl
      | some pid =>
        have hmember := mem_inOrder.1 (hplayer pid rfl)
        exact AddMatchAction.existing_eq_some.2 ⟨rfl, hlinked.members_exist id c pid hdraws.category hmember⟩
    have hfights : c'.matchList.map (·.fight) = actions.map AddMatchAction.fight := by
      rw [hdraws.matchList, hms, List.map_map]
      refine List.map_congr_left fun a ha => ?_
      show Fight.mk a.combinedId ⟨AddMatchAction.existing t a.whitePlayerId,
        AddMatchAction.existing t a.bluePlayerId⟩ = _
      rw [hexists _ (hamong a ha).white, hexists _ (hamong a ha).blue]
      rfl
    unfold CategoryStore.Drawn
    rw [hplayers, hfights, ← EraseCategoriesAction.inOrder_toFinset c.players]
    exact DrawSystem.drawn_initCategory (nodup_inOrder _) hinit

theorem drawn_of_links {t t' : TournamentStore} (h : t.Drawn) (hlinks : t'.links = t.links) : t'.Drawn :=
  drawLaw_drawn.of_map h fun cid hcid => ⟨hcid, categories_of_project hlinks cid⟩

/-! ### Semifinals and finals -/

namespace DoublePoolDrawSystem

variable {t : TournamentStore} {c : CategoryStore} {d : DoublePoolDrawSystem}

/-- The action sets a player of one of the last three matches. -/
def SetsFinal (c : CategoryStore) (d : DoublePoolDrawSystem) (a : DrawAction) : Prop :=
  ∃ n m b, 1 ≤ n ∧ n ≤ 3 ∧ matchFromEnd c d n = .ok m ∧ a = .setMatchPlayer b ∧
    b.combinedId = m.combinedId

theorem setsFinal_assignBoth {n : ℕ} {m : MatchStore} (hone : 1 ≤ n) (hthree : n ≤ 3)
    (hm : matchFromEnd c d n = .ok m)
    (players : Option PlayerId × Option PlayerId) : ∀ a ∈ assignBoth m players, SetsFinal c d a := by
  intro a ha
  unfold assignBoth assign at ha
  rcases List.mem_append.1 ha with ha | ha
  · split at ha
    · cases ha
    · exact ⟨n, m, _, hone, hthree, hm, List.mem_singleton.1 ha, rfl⟩
  · split at ha
    · cases ha
    · exact ⟨n, m, _, hone, hthree, hm, List.mem_singleton.1 ha, rfl⟩

/-- The draw system sets players of the semifinals and of the final only. -/
theorem setsFinal_updateCategory {actions : List DrawAction} (h : updateCategory t c d = .ok actions) :
    ∀ a ∈ actions, 4 ≤ d.players.length ∧ SetsFinal c d a := by
  by_cases hfour : 4 ≤ d.players.length
  · obtain ⟨first, second, final, s, hfirst, hsecond, hfinal, -, rfl⟩ := (updateCategory_ok hfour).1 h
    intro a ha
    refine ⟨hfour, ?_⟩
    simp only [seatAll, List.mem_append] at ha
    rcases ha with (ha | ha) | ha
    · exact setsFinal_assignBoth (by omega) le_rfl hfirst _ a ha
    · exact setsFinal_assignBoth (by omega) (by omega) hsecond _ a ha
    · exact setsFinal_assignBoth le_rfl (by omega) hfinal _ a ha
  · rw [updateCategory, if_pos (Nat.lt_of_not_le hfour)] at h
    cases h
    simp

end DoublePoolDrawSystem

/-- The match is one of the last three of a double pool. -/
def DrawSystem.Fills (d : DrawSystem) (x : MatchId) : Prop := ∃ (e : DoublePoolDrawSystem) (n : ℕ),
  d = .doublePool e ∧ 4 ≤ e.players.length ∧ 1 ≤ n ∧ n ≤ 3 ∧ e.matchIds[e.matchIds.length - n]? = some x

section

variable {t t' : TournamentStore} {c : CategoryStore} {S : Finset PlayerId} {bs : List Fight} {d : DrawSystem}

theorem DrawSystem.fills_updateCategory {id : CategoryId} {a : SetMatchPlayerAction} {actions : List DrawAction}
    (ht : t.Indexed) (hc : t.categories id = some c) (h : c.drawSystem.updateCategory t c = .ok actions)
    (ha : .setMatchPlayer a ∈ actions) : a.combinedId.categoryId = id ∧
    c.drawSystem.Fills a.combinedId.matchId := by
  have hcx := ht.index id c hc
  cases hsystem : c.drawSystem with
  | pool d =>
    rw [hsystem] at h
    cases h
    cases ha
  | doublePool d =>
    rw [hsystem] at h
    obtain ⟨hlength, n, m, b, hone, hthree, hm, heq, hid⟩ := DoublePoolDrawSystem.setsFinal_updateCategory h _ ha
    cases heq
    rw [hid]
    refine ⟨(hcx.ids m (DoublePoolDrawSystem.matchFromEnd_mem hm)).trans (ht.category id c hc), d, n, rfl,
      hlength, hone, hthree, ?_⟩
    unfold DoublePoolDrawSystem.matchFromEnd at hm
    split at hm
    · cases hm
    · split at hm
      · cases hm
      · next x hx =>
        rw [hx]
        exact congrArg some (hcx.getMatch_ok.1 hm).2.symm
  | bestOfThree d =>
    rw [hsystem] at h
    obtain rfl | ⟨x, bye, rfl⟩ := BestOfThreeDrawSystem.setMatchBye_of_updateCategory h
    · cases ha
    · cases List.mem_singleton.1 ha

/-- Setting players of the last three matches of a double pool keeps it drawn. -/
theorem DrawSystem.Drawn.putPlayer (h : d.Drawn S bs) (hnodup : (bs.map (·.combinedId.matchId)).Nodup) {x : MatchId}
    (hx : d.Fills x) (i : PlayerIndex) (player : Option PlayerId) :
    d.Drawn S (bs.map (JudoAssistant.putPlayer x i player)) := by
  have hids : ∀ bs : List Fight, (bs.map (JudoAssistant.putPlayer x i player)).map (·.combinedId.matchId) =
      bs.map (·.combinedId.matchId) := by
    intro bs
    rw [List.map_map]
    refine List.map_congr_left fun b _ => ?_
    show (JudoAssistant.putPlayer x i player b).combinedId.matchId = _
    unfold JudoAssistant.putPlayer
    split <;> rfl
  refine ⟨h.nodup, h.players, h.matchIds.trans (hids bs).symm, ?_⟩
  obtain ⟨e, n, rfl, hfour, hone, hthree, hget⟩ := hx
  have hcard : S.card = e.players.length := by
    rw [← h.players]
    exact List.toFinset_card_of_nodup h.nodup
  obtain ⟨first, second, pools, finals, hsplits⟩ := h.meets.2 (by omega)
  refine ⟨fun hlt => by omega, fun _ =>
    ⟨first, second, pools, finals.map (JudoAssistant.putPlayer x i player), hsplits.union,
    hsplits.disjoint, hsplits.half, ?_, by rw [List.length_map, hsplits.finals], hsplits.complete⟩⟩
  have hmatchIds : e.matchIds = pools.map (·.combinedId.matchId) ++ finals.map (·.combinedId.matchId) := by
    rw [← List.map_append, ← hsplits.fights]
    exact h.matchIds
  -- the match is one of the finals, and no match of a pool
  have hfinal : x ∈ finals.map (·.combinedId.matchId) := by
    have hlength := hsplits.finals
    rw [hmatchIds, List.getElem?_append_right (by simp only [List.length_append, List.length_map]; omega)] at hget
    exact List.mem_of_getElem? hget
  rw [hsplits.fights, List.map_append, List.nodup_append] at hnodup
  have hpools : pools.map (JudoAssistant.putPlayer x i player) = pools := by
    refine List.map_congr_left (fun b hb => ?_) |>.trans (List.map_id pools)
    refine if_neg fun heq => hnodup.2.2 x ?_ x hfinal rfl
    rw [← heq]
    exact List.mem_map_of_mem hb
  rw [hsplits.fights, List.map_append, hpools]

/-! ### Match events -/

/-- The draw systems of the categories. -/
def TournamentStore.drawSystems (t : TournamentStore) (cid : CategoryId) : Option DrawSystem :=
  (t.categories cid).map (·.drawSystem)

/-- A drawn tournament with given draw systems. -/
structure TournamentStore.Holds (v : CategoryId → Option DrawSystem) (t : TournamentStore) : Prop where
  indexed : t.Indexed
  drawSystems : t.drawSystems = v
  drawn : t.Drawn

/-- The action sets a player of one of the last three matches of a double pool. -/
def DrawAction.FillsIn (v : CategoryId → Option DrawSystem) : DrawAction → Prop
  | setMatchPlayer a => ∃ d, v a.combinedId.categoryId = some d ∧ d.Fills a.combinedId.matchId
  | setMatchBye .. => True

section

variable {v : CategoryId → Option DrawSystem}

theorem drawSystems_of_links (h : t'.links = t.links) : t'.drawSystems = t.drawSystems := by
  funext cid
  have heq := categories_of_project h cid
  show (t'.categories cid).map _ = (t.categories cid).map _
  cases hc : t.categories cid <;> cases hc' : t'.categories cid <;> simp_all

theorem TournamentStore.Holds.of_steady (h : t.Holds v) (hsteady : Steady t.links t') : t'.Holds v :=
  ⟨hsteady.1, (drawSystems_of_links hsteady.2).trans h.drawSystems, drawn_of_links h.drawn hsteady.2⟩

theorem keeps_holds {γ : Type} {x : Exec γ} (hx : ∀ v, Keeps (Steady v) x fun _ => True) :
    Keeps (Holds v) x fun _ => True := by
  intro t a t' ht ha
  exact ⟨ht.of_steady (hx t.links ⟨ht.indexed, rfl⟩ ha).1, trivial⟩

theorem SetMatchPlayerAction.keeps_redo_holds {a : SetMatchPlayerAction}
    (ha : DrawAction.FillsIn v (.setMatchPlayer a)) : Keeps (Holds v) a.redoImpl fun _ => True := by
  intro t a' t' ht h
  have hindexed : t'.Indexed := (a.keeps_redo_indexed ht.indexed h).1
  obtain ⟨-, rfl, rfl⟩ | ⟨c, m, hc, hm, -, -, rfl, rfl⟩ := redoImpl_cases ht.indexed h
  · exact ⟨ht, trivial⟩
  · have hcx := ht.indexed.index _ c hc
    have hset := fights_setMatch hcx hm a.playerIndex a.playerId
    have hsame : (c.setMatch a.combinedId.matchId (m.setPlayer a.playerIndex a.playerId)).players = c.players ∧
        (c.setMatch a.combinedId.matchId (m.setPlayer a.playerIndex a.playerId)).drawSystem = c.drawSystem := by
      unfold CategoryStore.setMatch
      split <;> exact ⟨rfl, rfl⟩
    refine ⟨⟨hindexed, ?_, fun cid e _ he => ?_⟩, trivial⟩
    · rw [← ht.drawSystems]
      funext cid
      show (Function.update t.categories a.combinedId.categoryId _ cid).map _ = (t.categories cid).map _
      by_cases hcid : cid = a.combinedId.categoryId
      · rw [hcid, Function.update_self, hc, Option.map_some, Option.map_some, hsame.2]
      · rw [Function.update_of_ne hcid]
    · change Function.update t.categories a.combinedId.categoryId (some _) cid = some e at he
      by_cases hcid : cid = a.combinedId.categoryId
      · subst hcid
        rw [Function.update_self] at he
        cases he
        obtain ⟨d, hd, hfills⟩ := ha
        have hsystem : c.drawSystem = d := by
          have hv := congrFun ht.drawSystems a.combinedId.categoryId
          rw [hd, TournamentStore.drawSystems, hc] at hv
          exact Option.some.inj hv
        have hnodup : ((c.matchList.map (·.fight)).map (·.combinedId.matchId)).Nodup := by
          rw [List.map_map]
          exact hcx.nodup_ids
        unfold CategoryStore.Drawn
        rw [hsame.1, hsame.2, hset]
        exact (ht.drawn _ c not_false hc).putPlayer hnodup (by rwa [hsystem]) _ _
      · rw [Function.update_of_ne hcid] at he
        exact ht.drawn cid e not_false he

/-- Match events keep the draws. -/
theorem course_holds (v : CategoryId → Option DrawSystem) : Course (Holds v) (DrawAction.FillsIn v) where
  follow t id c actions ht hc h a ha := by
    cases a with
    | setMatchPlayer a =>
      obtain ⟨hid, hfills⟩ := DrawSystem.fills_updateCategory ht.indexed hc h ha
      refine ⟨c.drawSystem, ?_, hfills⟩
      rw [hid, ← ht.drawSystems, TournamentStore.drawSystems, hc]
      rfl
    | setMatchBye => trivial
  assign a ha := SetMatchPlayerAction.keeps_redo_holds ha
  event id kind r := keeps_holds fun _ => keeps_editMatch_steady fun _ _ h => MatchStore.SameFight.effect r h
  clear id := keeps_holds fun _ => keeps_editMatch_steady fun m m' h => by
    cases h
    exact ⟨rfl, rfl, rfl, rfl⟩
  counter id m source target := keeps_holds fun _ => keeps_moveCounter_steady id m source target

end

end

/-! ### Actions -/

theorem maintains_of_holds {γ : Type} {x : Exec γ} (hx : ∀ v, Keeps (Holds v) x fun _ => True) :
    Maintains CategoryStore.Drawn x := fun t _ _ ht ha =>
      (hx t.drawSystems ⟨ht.orderly.indexed, rfl, ht.all⟩ ha).1.drawn

theorem keeps_holds_of_frames {γ : Type} {v : CategoryId → Option DrawSystem} {x : Exec γ} (hkeys : Frame keys x)
    (hlinks : Frame links x) : Keeps (Holds v) x fun _ => True :=
  keeps_holds fun _ _ _ _ ht ha => ⟨⟨ht.1.of_keys (hkeys ha), (hlinks ha).trans ht.2⟩, trivial⟩

theorem ChangeCategoriesRulesetAction.maintains_drawn (a : ChangeCategoriesRulesetAction) :
    Maintains CategoryStore.Drawn a.redoImpl := by
  refine maintains_of_holds fun v => keeps_read.bind fun ids _ => Keeps.bind (keeps_forEach_unit fun id _ => ?_)
    fun _ _ => ((course_holds v).resetMatches_redo _).bind fun _ _ => .pure trivial
  exact keeps_getCategory.bind fun c _ => (keeps_holds_of_frames labelBlind_keys.setRuleset
    labelBlind_links.setRuleset).bind fun _ _ => .pure trivial

theorem ChangePlayersWeightAction.maintains_drawn (a : ChangePlayersWeightAction) :
    Maintains CategoryStore.Drawn a.redoImpl :=
  maintains_of_holds fun v => (keeps_holds_of_frames (frame_changeField fieldBlind_keys _)
    (frame_changeField fieldBlind_links _)).bind fun _ _ => keeps_read.bind fun _ _ =>
      ((course_holds v).updateDraws _ _).bind fun _ _ => .pure trivial

/-- Every action keeps the draws. -/
theorem Action.maintains_drawn {a : Action} (hidle : a.Idle) : Maintains CategoryStore.Drawn a.redoImpl := by
  by_cases hcontests : a.contests = true
  · cases a with
    | changeCategoriesRuleset a => exact a.maintains_drawn.wrap
    | changePlayersWeight a => exact a.maintains_drawn.wrap
    | matchEvent a => exact (maintains_of_holds fun v => (course_holds v).matchEvent_redo a).wrap
    | resetMatches a => exact (maintains_of_holds fun v => (course_holds v).resetMatches_redo a).wrap
    | _ => cases hcontests
  · exact drawLaw_drawn.maintains hidle (Bool.eq_false_iff.2 hcontests)

/-! ### Sessions -/

/-- Undoing in reverse order restores the draws with the register. -/
def drawDiscipline : Session.Discipline ((Outline × (PlayerId → Option (Finset CombinedId)) ×
    (CategoryId → Option (List Fight × DrawSystem))) ×
      (PlayerId → Option (Finset CategoryId × Unit)) × (CategoryId → Option (Finset PlayerId))) :=
  { linkDiscipline with
    Sane := fun v => ∃ t, Arranged CategoryStore.Drawn t ∧ tied t = v
    init := ⟨linkDiscipline.init.1, {}, ⟨orderly_empty, fun _ _ _ hc => by cases hc⟩, rfl⟩
    redo := by
      intro s e a a' t' hallowed hredone hidle hinv hsane h
      obtain ⟨u, hu, hview⟩ := hsane
      obtain ⟨hinv', ⟨u', hu', hview'⟩, hback⟩ :=
        linkDiscipline.redo s e a a' t' hallowed hredone hidle hinv ⟨u, hu.orderly, hview⟩ h
      have ht : Arranged CategoryStore.Drawn s.tournament :=
        ⟨hu.orderly.of_tied hinv hview.symm, drawn_of_links hu.all (tied_eq_iff.1 hview.symm).2⟩
      exact ⟨hinv', ⟨t', ⟨hu'.of_tied hinv' hview'.symm, Action.maintains_drawn hidle ht h⟩, rfl⟩, hback⟩ }

theorem Session.Constructed.drawn {s : Session} (h : s.Constructed) : s.tournament.Drawn := by
  obtain ⟨u, hu, hview⟩ := (drawDiscipline.sound_of_reachableBy h).sane
  exact drawn_of_links hu.all (tied_eq_iff.1 hview.symm).2

/-- The match is between the two players. -/
def MatchStore.between (p q : PlayerId) (m : MatchStore) : Bool := m.fight.between p q

theorem MatchStore.twoSided_between : Fixtures.TwoSided MatchStore.between where
  symm p q _ := Fight.twoSided_between.symm p q _
  unique p q p' q' _ h h' := Fight.twoSided_between.unique p q p' q' _ h h'

theorem complete_of_fights {R : PlayerId → PlayerId → Prop} {ms : List MatchStore}
    (h : Fixtures.Complete Fight.between R (ms.map (·.fight))) : Fixtures.Complete MatchStore.between R ms := by
  refine ⟨fun m hm => h.only m.fight (List.mem_map_of_mem hm), fun p q hpq => ?_⟩
  rw [← h.once p q hpq, List.countP_map]
  rfl

/-- In every session every two players of a pool have one match, the players of a double pool are split between
two pools, where every two have one match, and three finals follow, and two players have a best of three. -/
theorem Session.draws_complete (s : Session) (hs : s.Constructed) (cid : CategoryId) (c : CategoryStore)
    (hc : s.tournament.categories cid = some c) :
    (∀ d, c.drawSystem = .pool d → Fixtures.Complete MatchStore.between (Opponents c.players) c.matchList ∧
      c.matchList.length = c.players.card.choose 2) ∧
    (∀ d, c.drawSystem = .doublePool d → (c.players.card < 4 → c.matchList = []) ∧
      (4 ≤ c.players.card → ∃ first second pools finals, first ∪ second = c.players ∧
        Disjoint first second ∧
        first.card = c.players.card / 2 ∧ c.matchList = pools ++ finals ∧ finals.length = 3 ∧
        Fixtures.Complete MatchStore.between (fun p q => Opponents first p q ∨ Opponents second p q) pools ∧
        pools.length = first.card.choose 2 + second.card.choose 2)) ∧
    ∀ d, c.drawSystem = .bestOfThree d → (c.players.card ≠ 2 → c.matchList = []) ∧
      (c.players.card = 2 → ∃ white blue, white ≠ blue ∧ c.players = {white, blue} ∧
        c.matchList.map (·.players) = List.replicate 3 ⟨some white, some blue⟩) := by
  have hmeets := (hs.drawn cid c not_false hc).meets
  refine ⟨fun d hd => ?_, fun d hd => ?_, fun d hd => ?_⟩
  · rw [hd] at hmeets
    have hcomplete := complete_of_fights hmeets
    exact ⟨hcomplete, hcomplete.length_eq MatchStore.twoSided_between⟩
  · rw [hd] at hmeets
    refine ⟨fun hlt => List.map_eq_nil_iff.1 (hmeets.1 hlt), fun hle => ?_⟩
    obtain ⟨first, second, pools, finals, hsplits⟩ := hmeets.2 hle
    obtain ⟨ps, fs, hlist, rfl, rfl⟩ := List.map_eq_append_iff.1 hsplits.fights
    have hcomplete := complete_of_fights hsplits.complete
    refine ⟨first, second, ps, fs, hsplits.union, hsplits.disjoint, hsplits.half, hlist, ?_, hcomplete, ?_⟩
    · rw [← hsplits.finals, List.length_map]
    · exact hcomplete.length_eq_add MatchStore.twoSided_between hsplits.disjoint
  · rw [hd] at hmeets
    refine ⟨fun hne => List.map_eq_nil_iff.1 (hmeets.1 hne), fun htwo => ?_⟩
    obtain ⟨white, blue, hne, hplayers, hfights⟩ := hmeets.2 htwo
    rw [List.map_map] at hfights
    exact ⟨white, blue, hne, hplayers, hfights⟩

/-- After the semifinals of a double pool of four, the two pools of two and the three finals are still those of
the draw. -/
theorem Session.draws_complete_semiFinalsWon : ∃ s c d,
    Runs.run next DoublePoolDrawSystem.semiFinalsWon {} = some s ∧
    s.tournament.categories ⟨1⟩ = some c ∧ c.drawSystem = .doublePool d ∧ c.players.card = 4 ∧
    ∃ first second pools finals, first ∪ second = c.players ∧ Disjoint first second ∧
      first.card = c.players.card / 2 ∧ c.matchList = pools ++ finals ∧ finals.length = 3 ∧
      Fixtures.Complete MatchStore.between (fun p q => Opponents first p q ∨ Opponents second p q) pools ∧
      pools.length = first.card.choose 2 + second.card.choose 2 := by
  have hrun : ((Runs.run Session.next DoublePoolDrawSystem.semiFinalsWon {}).bind fun s =>
      (s.tournament.categories ⟨1⟩).map fun c => (c.drawSystem.getIdentifier, c.players.card)) =
        some (.doublePool, 4) := by decide +kernel
  obtain ⟨s, hs, hrest⟩ := Option.bind_eq_some_iff.1 hrun
  obtain ⟨c, hc, heq⟩ := Option.map_eq_some_iff.1 hrest
  obtain ⟨hsystem, hcard⟩ := Prod.mk.inj heq
  obtain ⟨d, hd⟩ : ∃ d, c.drawSystem = .doublePool d := by
    cases hsys : c.drawSystem with
    | doublePool d => exact ⟨d, rfl⟩
    | pool d =>
      rw [hsys] at hsystem
      cases hsystem
    | bestOfThree d =>
      rw [hsys] at hsystem
      cases hsystem
  have hdraws := (draws_complete s (DoublePoolDrawSystem.constructed_semiFinalsWon hs) ⟨1⟩ c hc).2.1 d hd
  exact ⟨s, c, d, hs, hc, hd, hcard, hdraws.2 hcard.ge⟩

end JudoAssistant
