import JudoAssistant.Tournament.Arrangements
import JudoAssistant.Tournament.DrawShapes
import JudoAssistant.Tournament.RulesetRuns
import JudoAssistant.Tournament.Sheets

/-!
# The counters of every session

A category counts its matches that are not started, started and finished.  Draws count anew, match events and resets
move single matches from one counter to another (`src/core/actions`).  A reset moves its match to those that are not
started, where a bye does not belong, so that the counters go wrong once a bye that is underway is reset.  A double
pool relies on the counter of the eliminations, which are the matches of its pools.
-/

namespace JudoAssistant

open Effect Exec TournamentStore
open BestOfThreeDrawSystem (tally)

section

variable {t t' : TournamentStore} {c c' : CategoryStore} {m m' : MatchStore} {x : MatchId}
  {move : Option (MatchStatus × MatchStatus)}

/-! ### Counters -/

/-- The counters count the matches of each type. -/
def CategoryStore.Tallied (c : CategoryStore) : Prop :=
  ∀ type, c.getStatus type = tally (c.matchList.filter fun m => m.type = type)

theorem tally_concat (ms : List MatchStore) (m : MatchStore) :
    tally (ms ++ [m]) = (tally ms).increment m.getStatus := by
  rw [tally_append, List.append_nil]

theorem get_computeStatus (ms : List MatchStore) (type : MatchType) :
    (DrawCategoriesAction.computeStatus ms).get type = tally (ms.filter fun m => m.type = type) := by
  induction ms using List.reverseRecOn with
  | nil => cases type <;> rfl
  | append_singleton ms m ih =>
    have hcompute : DrawCategoriesAction.computeStatus (ms ++ [m]) = (DrawCategoriesAction.computeStatus ms).set m.type
        (((DrawCategoriesAction.computeStatus ms).get m.type).increment m.getStatus) := by
      unfold DrawCategoriesAction.computeStatus
      rw [List.foldl_append]
      rfl
    rw [hcompute, List.filter_append]
    by_cases htype : m.type = type
    · subst htype
      rw [ByType.get_set_self, ih, List.filter_singleton, decide_eq_true rfl]
      exact (tally_concat _ m).symm
    · rw [ByType.get_set_of_ne _ htype, ih, List.filter_singleton, decide_eq_false htype]
      exact congrArg tally (List.append_nil _).symm

namespace CategoryStore

theorem tallied_of_status (h : c.status = DrawCategoriesAction.computeStatus c.matchList) : c.Tallied := by
  intro type
  rw [getStatus, h]
  exact get_computeStatus _ _

/-- A match that is written and counted. -/
theorem Rewrites.tallied (h : c.Rewrites x m m' move c') (hc : c.Tallied) (htype : m'.type = m.type)
    (hcounted : Counted m m' move) : c'.Tallied := by
  intro type
  obtain ⟨ms, ms', hlist, hlist'⟩ := h.matchList
  have hold := hc type
  rw [hlist, List.filter_append] at hold
  rw [hlist', List.filter_append]
  by_cases hm' : m'.type = type
  · subst hm'
    rw [List.filter_cons_of_pos (by simpa using htype.symm), tally_append] at hold
    rw [List.filter_cons_of_pos (by simp), tally_append]
    exact h.status hcounted hold
  · have hm : ¬ m.type = type := by rwa [← htype]
    rw [List.filter_cons_of_neg (by simpa using hm)] at hold
    rw [List.filter_cons_of_neg (by simpa using hm'), h.status_of_ne hm']
    exact hold

/-- What the counters depend on is on the sheet. -/
theorem Tallied.of_sheet (h : c.Tallied) (hsheet : c'.sheet = c.sheet) : c'.Tallied := by
  have hplain : ∀ (e : CategoryStore) type, tally (e.matchList.filter fun m => m.type = type) =
      tally (e.sheet.matchList.filter fun m => m.type = type) := by
    intro e type
    show _ = tally ((e.matchList.map MatchStore.plain).filter fun m => m.type = type)
    induction e.matchList with
    | nil => rfl
    | cons n ns ih =>
      have htype : n.plain.type = n.type := rfl
      rw [List.map_cons, List.filter_cons, List.filter_cons, htype]
      split
      · show (tally _).increment n.getStatus = (tally _).increment n.plain.getStatus
        rw [ih]
        rfl
      · exact ih
  intro type
  rw [hplain, hsheet, ← hplain, ← h type]
  show c'.sheet.getStatus type = c.sheet.getStatus type
  rw [hsheet]

end CategoryStore

theorem tally_counters (ms : List MatchStore) :
    (tally ms).notStartedMatches = ms.countP (·.getStatus = .notStarted) ∧
      (tally ms).startedMatches = ms.countP (fun m => m.getStatus = .paused ∨ m.getStatus = .unpaused) ∧
      (tally ms).finishedMatches = ms.countP (·.getStatus = .finished) := by
  induction ms with
  | nil => exact ⟨rfl, rfl, rfl⟩
  | cons m ms ih =>
    obtain ⟨hnotStarted, hstarted, hfinished⟩ := ih
    simp only [tally, List.countP_cons]
    cases m.getStatus <;> simp [CategoryStatus.increment, hnotStarted, hstarted, hfinished]

end

/-! ### Types -/

/-- The matches of both pools are eliminations. -/
def DrawSystem.Typed (ms : List MatchStore) : DrawSystem → Prop
  | doublePool d => 4 ≤ d.players.length → ∀ m ∈ ms, m.id ∈ d.poolMatchIds → m.type = .elimination
  | _ => True

section

variable {t : TournamentStore} {c : CategoryStore} {ids : List PlayerId} {seed : ℕ} {actions : List AddMatchAction}

theorem PoolDrawSystem.type_initCategory {d d' : PoolDrawSystem}
    (h : d.initCategory t c ids seed = .ok (d', actions)) : ∀ a ∈ actions, a.type = .elimination := by
  have hcreated : ∀ {composited : Bool} {pairs : List (PlayerId × PlayerId)} {e : Mt19937}
      {actions : List AddMatchAction}, createMatches t c composited pairs e = .ok actions →
      ∀ a ∈ actions, a.type = .elimination := by
    intro composited pairs
    induction pairs with
    | nil =>
      intro e actions h
      cases h
      simp
    | cons pair pairs ih =>
      intro e actions h
      simp only [createMatches, createMatch, except_bind_ok, except_pure_ok] at h
      obtain ⟨⟨a, e'⟩, ⟨_, _, player, _, heq⟩, actions', hactions, rfl⟩ := h
      cases heq
      exact List.forall_mem_cons.2 ⟨rfl, ih hactions⟩
  unfold initCategory at h
  split at h
  · cases h
    simp
  · simp only at h
    split at h <;>
    · obtain ⟨order, -, h⟩ := except_bind_ok.1 h
      obtain ⟨actions', hactions, heq⟩ := except_bind_ok.1 h
      obtain ⟨rfl, rfl⟩ := Prod.mk.inj (except_pure_ok.1 heq)
      exact hcreated hactions

theorem DoublePoolDrawSystem.type_initCategory {d d' : DoublePoolDrawSystem}
    (h : d.initCategory t c ids seed = .ok (d', actions))
    (hnodup : (actions.map (·.combinedId.matchId)).Nodup) (hfour : 4 ≤ d'.players.length) :
    ∀ a ∈ actions, a.combinedId.matchId ∈ d'.poolMatchIds → a.type = .elimination := by
  simp only [initCategory, except_bind_ok] at h
  generalize Mt19937.period = n at h
  obtain ⟨_, _, h⟩ := h
  split at h
  · next hlt =>
    cases h
    exact absurd hlt (Nat.not_lt.2 hfour)
  · simp only [except_bind_ok] at h
    obtain ⟨⟨firstPool, firstActions⟩, hfirst, ⟨secondPool, secondActions⟩, hsecond, merged, hmerged,
      ⟨x, _⟩, _, ⟨y, _⟩, _, ⟨z, _⟩, _, heq⟩ := h
    obtain ⟨rfl, rfl⟩ := Prod.mk.inj (except_pure_ok.1 heq)
    intro a ha hpool
    rcases List.mem_append.1 ha with ha | ha
    · rcases mem_mergeActions hmerged a ha with ha | ha
      · exact PoolDrawSystem.type_initCategory hfirst a ha
      · exact PoolDrawSystem.type_initCategory hsecond a ha
    · -- A final has none of the ids of the pools.
      exfalso
      rw [List.map_append, List.nodup_append] at hnodup
      obtain ⟨hfirstMerged, hsecondMerged⟩ := subset_mergeActions hmerged
      refine hnodup.2.2 a.combinedId.matchId ?_ _ (List.mem_map_of_mem ha) rfl
      obtain ⟨pool, hmem, hid⟩ := List.mem_flatMap.1 hpool
      rcases List.mem_append.1 hmem with hmem | hmem
      · cases Option.mem_toList.1 hmem
        rw [PoolDrawSystem.matchIds_initCategory hfirst] at hid
        exact List.map_subset _ hfirstMerged hid
      · cases Option.mem_toList.1 hmem
        rw [PoolDrawSystem.matchIds_initCategory hsecond] at hid
        exact List.map_subset _ hsecondMerged hid

theorem DrawSystem.typed_initCategory {d d' : DrawSystem} (h : d.initCategory t c ids seed = .ok (d', actions))
    (hnodup : (actions.map (·.combinedId.matchId)).Nodup) (u : TournamentStore) :
    d'.Typed (actions.map (·.toMatch u)) := by
  cases d with
  | pool d =>
    obtain ⟨⟨d₁, actions₁⟩, -, heq⟩ := except_bind_ok.1 h
    obtain ⟨rfl, rfl⟩ := Prod.mk.inj (except_pure_ok.1 heq)
    trivial
  | doublePool d =>
    obtain ⟨⟨d₁, actions₁⟩, hinit, heq⟩ := except_bind_ok.1 h
    obtain ⟨rfl, rfl⟩ := Prod.mk.inj (except_pure_ok.1 heq)
    intro hfour m hm hpool
    obtain ⟨a, ha, rfl⟩ := List.mem_map.1 hm
    exact DoublePoolDrawSystem.type_initCategory hinit hnodup hfour a ha hpool
  | bestOfThree d =>
    obtain ⟨⟨d₁, actions₁⟩, -, heq⟩ := except_bind_ok.1 h
    obtain ⟨rfl, rfl⟩ := Prod.mk.inj (except_pure_ok.1 heq)
    trivial

end

/-- Counters that are right, and pools of eliminations. -/
structure CategoryStore.Accounted (c : CategoryStore) : Prop where
  tallied : c.Tallied
  typed : c.drawSystem.Typed c.matchList

/-! ### Draws and match events -/

section

variable {t t' : TournamentStore} {c c' : CategoryStore} {m m' : MatchStore} {x : CombinedId}

theorem DrawSystem.Typed.of_map {d : DrawSystem} {ms ms' : List MatchStore} (h : d.Typed ms)
    (hsame : ms'.map (fun m => (m.id, m.type)) = ms.map fun m => (m.id, m.type)) : d.Typed ms' := by
  cases d with
  | pool d => trivial
  | doublePool d =>
    intro hfour m hm hpool
    have hmem : (m.id, m.type) ∈ ms.map fun m => (m.id, m.type) := by
      rw [← hsame]
      exact List.mem_map.2 ⟨m, hm, rfl⟩
    obtain ⟨n, hn, heq⟩ := List.mem_map.1 hmem
    obtain ⟨hid, htype⟩ := Prod.mk.inj heq
    rw [← htype]
    exact h hfour n hn (hid ▸ hpool)
  | bestOfThree d => trivial

theorem CategoryStore.Rewrites.indexed {y : MatchId} {move : Option (MatchStatus × MatchStatus)}
    (h : c.Rewrites y m m' move c') (hc : c.Indexed) (hsame : m.SameFight m') : c'.Indexed := by
  have hset := hc.setMatch h.old hsame.combinedId hsame.type hsame.permanentBye
  cases move with
  | none =>
    obtain rfl : c' = c.setMatch y m' := h.new
    exact hset
  | some move =>
    obtain ⟨s, -, rfl⟩ := recount_ok.1 h.new
    exact ⟨hset.map, hset.ids, hset.permanentBye, hset.count⟩

/-- A match that is written and counted stays in its pool. -/
theorem CategoryStore.Rewrites.accounted {y : MatchId} {move : Option (MatchStatus × MatchStatus)}
    (h : c.Rewrites y m m' move c') (hc : c.Accounted) (htype : m'.type = m.type) (hid : m'.id = m.id)
    (hcounted : Counted m m' move) : c'.Accounted := by
  refine ⟨h.tallied hc.tallied htype hcounted, ?_⟩
  rw [h.frame.2.1]
  obtain ⟨ms, ms', hlist, hlist'⟩ := h.matchList
  refine hc.typed.of_map ?_
  rw [hlist, hlist', List.map_append, List.map_append, List.map_cons, List.map_cons, htype, hid]

theorem CategoryStore.Accounted.of_sheet (h : c.Accounted) (hsheet : c'.sheet = c.sheet) : c'.Accounted := by
  have hplain : ∀ e : CategoryStore, e.matchList.map (fun m => (m.id, m.type)) =
      e.sheet.matchList.map fun m => (m.id, m.type) := by
    intro e
    show _ = (e.matchList.map MatchStore.plain).map _
    rw [List.map_map]
    rfl
  have hsystem : c'.drawSystem = c.drawSystem := by
    show c'.sheet.drawSystem = c.sheet.drawSystem
    rw [hsheet]
  refine ⟨h.tallied.of_sheet hsheet, ?_⟩
  rw [hsystem]
  exact h.typed.of_map (by rw [hplain, hsheet, ← hplain])

/-- What the counters and the pools depend on. -/
def CategoryStore.bouts (c : CategoryStore) : List MatchStore × DrawSystem × ByType CategoryStatus :=
  (c.matchList, c.drawSystem, c.status)

/-- A draw counts its matches. -/
theorem drawLaw_accounted : DrawLaw CategoryStore.bouts CategoryStore.Accounted where
  congr {c e} hbouts h := by
    obtain ⟨hlist, hrest⟩ := Prod.mk.inj hbouts
    obtain ⟨hsystem, hstatus⟩ := Prod.mk.inj hrest
    refine ⟨fun type => ?_, by rw [hlist, hsystem]; exact h.typed⟩
    rw [CategoryStore.getStatus, hlist, hstatus]
    exact h.tallied type
  setLocation _ _ _ := rfl
  setName _ _ := rfl
  setRuleset _ _ := rfl
  setMatchesHidden _ _ := rfl
  init _ _ _ kind := ⟨CategoryStore.tallied_of_status rfl, by cases kind
    <;> simp [DrawSystem.Typed, CategoryStore.init, DrawSystem.getDrawSystem]⟩
  draw ht _ h hc := by
    obtain ⟨c₀, e, ms, u, hdraws, hstatus, hinit⟩ := DrawCategoriesAction.drawCategory_initCategory ht h
    have hnodup := hdraws.indexed.nodup_ids
    obtain ⟨actions, rfl, hms, -⟩ := hdraws.drawn
    rw [hdraws.stored] at hc
    cases hc
    rw [hdraws.matchList, hms, List.map_map] at hnodup
    refine ⟨CategoryStore.tallied_of_status hstatus, ?_⟩
    rw [hdraws.matchList, hms]
    exact DrawSystem.typed_initCategory hinit hnodup _

/-- References and indices in line, and counters that are right. -/
structure TournamentStore.InTally (t : TournamentStore) : Prop where
  inLine : t.InLine
  all : t.All CategoryStore.Accounted

theorem TournamentStore.Rewritten.accounted {id : CategoryId} (h : t.Rewritten id c' t')
    (hall : t.All CategoryStore.Accounted) (hc' : c'.Accounted) : t'.All CategoryStore.Accounted :=
  hall.put h.category h.other hc'

theorem SetMatchPlayerAction.keeps_tally {a a' : SetMatchPlayerAction} (ht : t.InTally) (h : a.redoImpl t = .ok a' t') :
    t'.All CategoryStore.Accounted := by
  obtain ⟨-, -, rfl⟩ | ⟨c, m, hc, hm, -, -, -, rfl⟩ := redoImpl_cases ht.inLine.indexed h
  · exact ht.all
  · refine ht.all.put (Function.update_self _ _ _) (fun _ hcid => Function.update_of_ne hcid _ _) ?_
    have hrewrites : c.Rewrites a.combinedId.matchId m (m.setPlayer a.playerIndex a.playerId) none
        (c.setMatch a.combinedId.matchId (m.setPlayer a.playerIndex a.playerId)) := ⟨hm, rfl⟩
    exact hrewrites.accounted (ht.all _ c not_false hc) rfl rfl fun _ => rfl

/-- The counters follow every match event, and can be taken back with it. -/
theorem drawsBack_inTally : DrawsBack InTally ledger where
  inLine _ ht := ht.inLine
  assign _ _ _ _ ht hplayer h := ⟨⟨SetMatchPlayerAction.keeps_inLine ht.inLine hplayer h,
    SetMatchPlayerAction.keeps_tally ht h⟩, SetMatchPlayerAction.ledger_back ht.inLine h⟩
  event _ _ _ c m m' _ _ ht hwrites := by
    have hsame := MatchStore.SameFight.effect c.ruleset hwrites.effect
    have haccounted := hwrites.rewrites.accounted (ht.all _ c not_false hwrites.category) hsame.type
      (congrArg CombinedId.matchId hsame.combinedId) (counted_counterMove m m')
    exact ⟨⟨ht.inLine.of_steady hwrites.steady, hwrites.rewritten.accounted ht.all haccounted⟩,
      hwrites.ledger_back⟩

/-! ### Resets -/

/-- The byes with the ids are finished. -/
def TournamentStore.Spares (ids : List CombinedId) (t : TournamentStore) : Prop :=
  ∀ cid c m, t.categories cid = some c → m ∈ c.matchList → ⟨cid, m.id⟩ ∈ ids → m.bye = true →
    m.getStatus = .finished

theorem MatchStore.getStatus_clearState (m : MatchStore) :
    (m.clearState.setEvents []).getStatus = if m.bye then .finished else .notStarted := by
  show (MatchState.init m.bye).status = _
  cases m.bye <;> rfl

/-- The counters follow the reset of a match that is no bye, or a finished one. -/
theorem counted_clearState (hbye : m.bye = true → m.getStatus = .finished) :
    CategoryStore.Counted m (m.clearState.setEvents [])
      (if m.clearState.getStatus ≠ m.getStatus then some (m.getStatus, .notStarted) else none) := by
  have hsame : (m.clearState.setEvents []).getStatus = m.clearState.getStatus := rfl
  split
  · next hne =>
    refine ⟨rfl, ?_⟩
    rw [MatchStore.getStatus_clearState]
    split
    · next hm =>
      rw [← hsame, MatchStore.getStatus_clearState, if_pos hm, hbye hm] at hne
      exact (hne rfl).elim
    · rfl
  · next heq =>
    intro s
    rw [hsame, not_not.1 heq]

/-- A reset bye is finished. -/
theorem TournamentStore.Spares.rewritten {ids : List CombinedId} {y : MatchId}
    {move : Option (MatchStatus × MatchStatus)}
    {id : CategoryId} (h : t.Spares ids) (hc : t.categories id = some c)
    (hrewrites : c.Rewrites y m (m.clearState.setEvents []) move c') (hrewritten : t.Rewritten id c' t') :
    t'.Spares ids := by
  obtain ⟨ms, ms', hlist, hlist'⟩ := hrewrites.matchList
  intro cid e n he hn hin hbye
  by_cases hcid : cid = id
  · subst hcid
    rw [hrewritten.category] at he
    cases he
    rw [hlist'] at hn
    rcases List.mem_append.1 hn with hn | hn
    · exact h cid c n hc (by simp [hlist, hn]) hin hbye
    · rcases List.mem_cons.1 hn with rfl | hn
      · rw [MatchStore.getStatus_clearState]
        exact if_pos hbye
      · exact h cid c n hc (by simp [hlist, hn]) hin hbye
  · rw [hrewritten.other cid hcid] at he
    exact h cid e n he hn hin hbye

namespace ResetMatchesAction

theorem resetMatch_tally {p : ResetMatch × Bool} {ids : List CombinedId} (ht : t.InTally)
    (hspares : t.Spares (x :: ids)) (h : resetMatch x t = .ok p t') : t'.InTally ∧ t'.Spares ids := by
  obtain ⟨c, m, c', hc, -, hrewrites, hrewritten⟩ := resetMatch_writes h
  have hsteady := (keeps_resetMatch_steady x ⟨ht.inLine.indexed, rfl⟩ h).1
  obtain ⟨hmem, hid⟩ := (ht.inLine.indexed.index _ c hc).getMatch_ok.1 hrewrites.old
  have hfinished : m.bye = true → m.getStatus = .finished :=
    hspares _ c m hc hmem (by rw [hid]; exact List.mem_cons_self)
  have haccounted := hrewrites.accounted (ht.all _ c not_false hc) rfl rfl (counted_clearState hfinished)
  refine ⟨⟨ht.inLine.of_steady hsteady, hrewritten.accounted ht.all haccounted⟩, ?_⟩
  have hrest : t.Spares ids := fun cid e n he hn hin => hspares cid e n he hn (List.mem_cons_of_mem _ hin)
  exact hrest.rewritten hc hrewrites hrewritten

theorem resetMatches_tally {ids : List CombinedId} {ps : List (ResetMatch × Bool)} (ht : t.InTally)
    (hspares : t.Spares ids) (h : forEach resetMatch ids t = .ok ps t') : t'.InTally := by
  induction ids generalizing t ps with
  | nil =>
    obtain ⟨-, rfl⟩ := forEach_nil_ok.1 h
    exact ht
  | cons x ids ih =>
    obtain ⟨p, t₁, ps', hp, hps, -⟩ := forEach_cons_ok.1 h
    obtain ⟨ht₁, hspares₁⟩ := resetMatch_tally ht hspares hp
    exact ih ht₁ hspares₁ hps

end ResetMatchesAction

/-- No bye of the categories is underway, or the one match that is given is no such bye. -/
def TournamentStore.NoByeUnderway (t : TournamentStore) (ids : List CategoryId) (matchId : Option MatchId) : Prop :=
  ∀ cid ∈ ids, ∀ c ∈ t.categories cid, ∀ m ∈ c.matchList, (∀ y ∈ matchId, m.id = y) → m.bye = true →
    m.getStatus = .notStarted ∨ m.getStatus = .finished

instance (t : TournamentStore) (ids : List CategoryId) (matchId : Option MatchId) :
    Decidable (t.NoByeUnderway ids matchId) :=
  inferInstanceAs
    (Decidable (∀ cid ∈ ids, ∀ c ∈ t.categories cid, ∀ m ∈ c.matchList, (∀ y ∈ matchId, m.id = y) →
    m.bye = true → m.getStatus = .notStarted ∨ m.getStatus = .finished))

/-- The categories, and maybe the one match of them, that the action resets. -/
def Action.resets : Action → List CategoryId × Option MatchId
  | .resetMatches a => (a.categoryIds, a.matchId)
  | .changeCategoriesRuleset a => (a.categoryIds, none)
  | _ => ([], none)

/-- The action resets no bye that is underway. -/
def Action.SparesByes (t : TournamentStore) (a : Action) : Prop := t.NoByeUnderway a.resets.1 a.resets.2

instance (t : TournamentStore) (a : Action) : Decidable (a.SparesByes t) :=
  inferInstanceAs (Decidable (t.NoByeUnderway a.resets.1 a.resets.2))

namespace ResetMatchesAction

/-- A match that is reset is one of those that are asked for, and has been started. -/
theorem mem_targets {a : ResetMatchesAction} {ids : List CombinedId} (ht : t.Indexed) (hids : a.targets t = .ok ids)
    (hx : x ∈ ids) : ∃ c m, t.categories x.categoryId = some c ∧ m ∈ c.matchList ∧ m.id = x.matchId ∧
      m.getStatus ≠ .notStarted ∧ x.categoryId ∈ a.categoryIds ∧ ∀ z, a.matchId = some z →
        x.matchId = z := by
  have hhere : ∀ {cid c m}, t.categories cid = some c → m ∈ c.matchList → m.combinedId.categoryId = cid := by
    intro cid c m hc hm
    exact ((ht.index cid c hc).ids m hm).trans (ht.category cid c hc)
  unfold targets at hids
  split at hids
  · next hmatch =>
    cases hids
    obtain ⟨cid, hcid, hx⟩ := List.mem_flatMap.1 hx
    unfold startedMatches at hx
    split at hx
    · cases hx
    · next c hc =>
      obtain ⟨m, hm, rfl⟩ := List.mem_map.1 hx
      obtain ⟨hm, hstarted⟩ := List.mem_filter.1 hm
      have hid := hhere hc hm
      refine ⟨c, m, by rwa [hid], hm, rfl, of_decide_eq_true hstarted, by rwa [hid], fun z hz => ?_⟩
      rw [hmatch] at hz
      cases hz
  · next y hmatch =>
    split at hids
    · next cid hcids =>
      split at hids
      · cases hids
        cases hx
      · next c hfind =>
        obtain ⟨hc, -⟩ := findMatch_eq_some.1 hfind
        obtain ⟨m, hm, heq⟩ := except_bind_ok.1 hids
        obtain ⟨hmem, hid⟩ := (ht.index cid c hc).getMatch_ok.1 hm
        have heq := except_pure_ok.1 heq
        split at heq
        · rw [← heq] at hx
          cases hx
        · next hstarted =>
          rw [← heq, List.mem_singleton] at hx
          subst hx
          have hhere := hhere hc hmem
          refine ⟨c, m, by rwa [hhere], hmem, rfl, hstarted, by rw [hhere, hcids]; exact List.mem_singleton_self cid,
            fun z hz => ?_⟩
          rw [hmatch] at hz
          cases hz
          exact hid
    · cases hids

theorem spares_targets {a : ResetMatchesAction} {ids : List CombinedId} (ht : t.Indexed) (hids : a.targets t = .ok ids)
    (hspares : t.NoByeUnderway a.categoryIds a.matchId) : t.Spares ids := by
  intro cid c m hc hm hin hbye
  obtain ⟨c', n, hc', hn, hid, hstarted, hcid, hmatch⟩ := mem_targets ht hids hin
  cases hc.symm.trans hc'
  obtain rfl := (ht.index cid c hc).eq_of_id hm hn hid.symm
  exact (hspares cid hcid c hc m hm hmatch hbye).resolve_left hstarted

/-- A reset that spares the byes that are underway counts what it resets. -/
theorem tally_redoImpl {a a' : ResetMatchesAction} (hdraw : a.drawActions = []) (ht : t.InTally)
    (hspares : t.NoByeUnderway a.categoryIds a.matchId) (h : a.redoImpl t = .ok a' t') : t'.InTally := by
  obtain ⟨ids, s, hread, hrest⟩ := bind_ok.1 h
  obtain ⟨hids, rfl⟩ := read_ok.1 hread
  obtain ⟨ps, t₁, hps, hrest⟩ := bind_ok.1 hrest
  obtain ⟨stack, t₂, hupdates, hrest⟩ := bind_ok.1 hrest
  obtain ⟨rfl, rfl⟩ := pure_ok.1 hrest
  have ht₁ := resetMatches_tally ht (spares_targets ht.inLine.indexed hids hspares) hps
  rw [hdraw] at hupdates
  exact (drawsBack_inTally.updateDraws ht₁ (stackBack_nil t₁.ledger) hupdates).1

end ResetMatchesAction

theorem ChangeCategoriesRulesetAction.tally_redoImpl {a a' : ChangeCategoriesRulesetAction} (ht : t.InTally)
    (hspares : t.NoByeUnderway a.categoryIds none) (h : a.redoImpl t = .ok a' t') : t'.InTally := by
  obtain ⟨ids, s, hread, hrest⟩ := bind_ok.1 h
  obtain ⟨hids, rfl⟩ := read_ok.1 hread
  obtain ⟨old, t₁, hold, hrest⟩ := bind_ok.1 hrest
  obtain ⟨r, t₂, hr, hrest⟩ := bind_ok.1 hrest
  obtain ⟨rfl, rfl⟩ := pure_ok.1 hrest
  have hseen : t₁.seen CategoryStore.bouts = t.seen CategoryStore.bouts :=
    frame_changeRulesets drawLaw_accounted.labelBlind hold
  have ht₁ : t₁.InTally := ⟨⟨ht.inLine.linked.of_links (frame_changeRulesets labelBlind_links hold),
    ht.inLine.indexed.of_keys (frame_changeRulesets labelBlind_keys hold)⟩, drawLaw_accounted.of_seen ht.all hseen⟩
  refine ResetMatchesAction.tally_redoImpl rfl ht₁ (fun cid hcid c hc m hm _ hbye => ?_) hr
  cases hids
  have hc : t₁.categories cid = some c := hc
  obtain ⟨e, he, hbouts⟩ := Option.map_eq_some_iff.1
    ((categories_of_project hseen cid).symm.trans (by rw [hc]; rfl))
  refine hspares cid (List.mem_of_mem_filter hcid) e he m ?_ (by simp) hbye
  rw [(Prod.mk.inj hbouts).1]
  exact hm

theorem ChangePlayersWeightAction.tally_redoImpl {a a' : ChangePlayersWeightAction} (hdraw : a.drawActions = [])
    (ht : t.InTally) (h : a.redoImpl t = .ok a' t') : t'.InTally := by
  obtain ⟨changed, t₁, hchange, hrest⟩ := bind_ok.1 h
  obtain ⟨ids, s, hread, hrest⟩ := bind_ok.1 hrest
  obtain ⟨-, rfl⟩ := read_ok.1 hread
  obtain ⟨stack, t₂, hupdates, hrest⟩ := bind_ok.1 hrest
  obtain ⟨rfl, rfl⟩ := pure_ok.1 hrest
  have ht₁ : t₁.InTally := ⟨⟨ht.inLine.linked.of_links (frame_changeField fieldBlind_links _ hchange),
    ht.inLine.indexed.of_keys (frame_changeField fieldBlind_keys _ hchange)⟩,
    drawLaw_accounted.of_seen ht.all (frame_changeField DrawLaw.fieldBlind _ hchange)⟩
  rw [hdraw] at hupdates
  exact (drawsBack_inTally.updateDraws ht₁ (stackBack_nil t₁.ledger) hupdates).1

/-- Every action that resets no bye that is underway keeps the counters right. -/
theorem Action.tally_redoImpl {a a' : Action} (hidle : a.Idle) (hspares : a.SparesByes t)
    (ht : Arranged CategoryStore.Accounted t) (h : a.redoImpl t = .ok a' t') : t'.All CategoryStore.Accounted := by
  have hin : t.InTally := ⟨⟨ht.orderly.linked, ht.orderly.indexed⟩, ht.all⟩
  by_cases hcontests : a.contests = true
  · cases a with
    | changeCategoriesRuleset a =>
      obtain ⟨b, hb, -⟩ := map_ok.1 h
      exact (ChangeCategoriesRulesetAction.tally_redoImpl hin hspares hb).all
    | changePlayersWeight a =>
      obtain ⟨b, hb, -⟩ := map_ok.1 h
      exact (ChangePlayersWeightAction.tally_redoImpl hidle.2 hin hb).all
    | matchEvent a =>
      obtain ⟨b, hb, -⟩ := map_ok.1 h
      exact (drawsBack_inTally.matchEvent hidle hin hb).1.all
    | resetMatches a =>
      obtain ⟨b, hb, -⟩ := map_ok.1 h
      exact (ResetMatchesAction.tally_redoImpl hidle.2 hin hspares hb).all
    | _ => cases hcontests
  · exact drawLaw_accounted.maintains hidle (Bool.eq_false_iff.2 hcontests) ht h

end

/-! ### Sessions -/

/-- A match event that is run again happens again, and no bye that is underway is reset. -/
def Session.Careful (s : Session) (e : Event) : Prop :=
  (∀ a, s.redone e = some a → a.Constructed ∧ a.Recorded s.tournament) ∧
    ∀ a, s.redone e = some a → a.SparesByes s.tournament

theorem Arranged.of_chart {t u : TournamentStore} (hu : Arranged CategoryStore.Accounted u) (ht : Intact t)
    (hview : chart t = chart u) : Arranged CategoryStore.Accounted t := by
  obtain ⟨houtline, hledger⟩ := Prod.mk.inj hview
  refine ⟨hu.orderly.of_tied ht (tied_eq_iff.2 ⟨houtline, links_of_ledger hledger⟩), fun cid c _ hc => ?_⟩
  obtain ⟨e, he, hsheet⟩ := category_of_ledger hledger.symm hc
  exact (hu.all cid e not_false he).of_sheet hsheet.symm

/-- Undoing in reverse order restores the counters with the matches. -/
def tallyDiscipline : Session.Discipline
    (Outline × (PlayerId → Option PlayerStore) × (CategoryId → Option CategoryStore)) where
  Inv := Intact
  view := chart
  Sane v := ∃ t, Arranged CategoryStore.Accounted t ∧ chart t = v
  allowed := Session.Careful
  safe _ _ := True
  init := ⟨orderly_empty.intact, {}, ⟨orderly_empty, fun _ _ _ hc => by cases hc⟩, rfl⟩
  safe_of_allowed := fun _ _ _ _ _ => trivial
  redo := by
    intro s e a a' t' hallowed hredone hidle hinv hsane h
    obtain ⟨u, hu, hview⟩ := hsane
    obtain ⟨hnew, hrecorded⟩ := hallowed.1 a hredone
    have ht := hu.of_chart hinv hview.symm
    obtain ⟨hsound', -⟩ := Action.revocable hidle hnew ht.orderly.sound h
    obtain ⟨hindexed', -⟩ := Action.indexRevocable hidle ht.orderly.indexed h
    obtain ⟨hlinked', -⟩ := Action.linksKept hidle ht.orderly h
    have ht' : Arranged CategoryStore.Accounted t' :=
      ⟨⟨hsound', hindexed', hlinked'⟩, Action.tally_redoImpl hidle (hallowed.2 a hredone) ht h⟩
    refine ⟨ht'.orderly.intact, ⟨t', ht', rfl⟩, fun v b v' hv hview _ hundo => ?_⟩
    exact Action.chart_back hidle hnew hrecorded ht.orderly h hv hview hundo

/-- A run of new actions that resets no bye that is underway. -/
theorem Session.careful_of_new {es : List Event} {s : Session} (hes : ∀ e ∈ es, e.Constructed)
    (hspares : Runs.Guarded next (fun u e => ∀ a ∈ u.redone e, a.SparesByes u.tournament) es {})
    (h : Runs.run next es {} = some s) : ReachableBy Careful s :=
  ⟨es, Runs.guarded_and (recorded_of_new hes {}) hspares, h⟩

theorem Session.constructed_of_careful {s : Session} (hs : ReachableBy Careful s) : s.Constructed := by
  obtain ⟨es, hes, hrun⟩ := hs
  exact ⟨es, Runs.guarded_imp (fun _ _ hcareful a ha => (hcareful.1 a ha).1) hes, hrun⟩

theorem Session.arranged_of_reachableBy {s : Session} (hs : ReachableBy Careful s) :
    Arranged CategoryStore.Accounted s.tournament := by
  have hsound := tallyDiscipline.sound_of_reachableBy hs
  obtain ⟨u, hu, hview⟩ := hsound.sane
  exact hu.of_chart hsound.inv hview.symm

/-- In every session that resets no bye that is underway, the counters of every category and type are the numbers of
its matches that are not started, started and finished, and every match can be taken from its counter. -/
theorem Session.counters_agree (s : Session) (hs : ReachableBy Careful s) (cid : CategoryId) (c : CategoryStore)
    (hc : s.tournament.categories cid = some c) (type : MatchType) :
    (c.getStatus type).notStartedMatches = c.matchList.countP (fun m => m.type = type ∧ m.getStatus = .notStarted) ∧
    (c.getStatus type).startedMatches =
      c.matchList.countP (fun m => m.type = type ∧ (m.getStatus = .paused ∨ m.getStatus = .unpaused)) ∧
    (c.getStatus type).finishedMatches = c.matchList.countP (fun m => m.type = type ∧ m.getStatus = .finished) ∧
    ∀ m ∈ c.matchList, m.type = type → ∃ status, (c.getStatus type).decrement m.getStatus = .ok status := by
  have htallied := ((arranged_of_reachableBy hs).all cid c not_false hc).tallied type
  obtain ⟨hnotStarted, hstarted, hfinished⟩ := tally_counters (c.matchList.filter fun m => m.type = type)
  refine ⟨?_, ?_, ?_, fun m hm htype => ?_⟩
  · rw [htallied, hnotStarted, List.countP_filter]
    exact List.countP_congr fun m _ => by simp [and_comm]
  · rw [htallied, hstarted, List.countP_filter]
    exact List.countP_congr fun m _ => by simp [and_comm]
  · rw [htallied, hfinished, List.countP_filter]
    exact List.countP_congr fun m _ => by simp [and_comm]
  · have hmem : m ∈ c.matchList.filter fun m => m.type = type := List.mem_filter.2 ⟨hm, decide_eq_true htype⟩
    obtain ⟨ms, ms', hlist⟩ := List.append_of_mem hmem
    rw [hlist, tally_append] at htallied
    exact ⟨_, CategoryStatus.decrement_ok.2 htallied.symm⟩

/-- Two matches of three are won, the third one is a bye, all are reset, and the reset is undone. -/
def resetTakenBack : List Session.Event :=
  MatchEventAction.byeSet ++ [.redo (.resetMatches { categoryIds := [⟨1⟩], matchId := none }), .undo]

theorem Session.counters_agree_resetTakenBack : ∃ s c, Runs.run next resetTakenBack {} = some s ∧
    s.tournament.categories ⟨1⟩ = some c ∧ (c.getStatus .elimination).finishedMatches = 3 ∧
    c.matchList.countP (fun m => m.type = .elimination ∧ m.getStatus = .finished) = 3 := by
  have hrun : ((Runs.run Session.next resetTakenBack {}).bind fun s => (s.tournament.categories ⟨1⟩).map fun c =>
      (c.getStatus .elimination).finishedMatches) = some 3 := by decide +kernel
  obtain ⟨s, hs, hrest⟩ := Option.bind_eq_some_iff.1 hrun
  obtain ⟨c, hc, hthree⟩ := Option.map_eq_some_iff.1 hrest
  have hcareful : ReachableBy Careful s := careful_of_new
    (by simp [resetTakenBack, MatchEventAction.byeSet, DoublePoolDrawSystem.fight, Event.Constructed,
      Action.Constructed])
    (by decide +kernel) hs
  obtain ⟨-, -, hfinished, -⟩ := counters_agree s hcareful ⟨1⟩ c hc .elimination
  exact ⟨s, c, hs, hc, hthree, hfinished.symm.trans hthree⟩

/-- The third match is begun and reset.  Two won matches make it a bye, and when all of this is undone, it is underway
again and still a bye.  It is reset. -/
def byeReset : List Session.Event :=
  MatchEventAction.byeSet.take 2 ++ [DoublePoolDrawSystem.fight ⟨3071714933⟩ (.resumeMatch 0),
    .redo (.resetMatches { categoryIds := [⟨1⟩], matchId := some ⟨3071714933⟩ })] ++
      MatchEventAction.byeSet.drop 2 ++
    [.undo, .undo, .undo, .redo (.resetMatches { categoryIds := [⟨1⟩], matchId := some ⟨3071714933⟩ })]

/-- The bye is finished then, but all three matches are counted as not started. -/
theorem not_counters_agree_byeReset : ∃ s c, Runs.run Session.next byeReset {} = some s ∧
    s.tournament.categories ⟨1⟩ = some c ∧ (c.getStatus .elimination).notStartedMatches = 3 ∧
    c.matchList.countP (fun m => m.type = .elimination ∧ m.getStatus = .notStarted) = 2 := by
  have hrun : ((Runs.run Session.next byeReset {}).bind fun s => (s.tournament.categories ⟨1⟩).map fun c =>
      ((c.getStatus .elimination).notStartedMatches,
        c.matchList.countP fun m => m.type = .elimination ∧ m.getStatus = .notStarted)) = some (3, 2) :=
          by decide +kernel
  obtain ⟨s, hs, hrest⟩ := Option.bind_eq_some_iff.1 hrun
  obtain ⟨c, hc, heq⟩ := Option.map_eq_some_iff.1 hrest
  obtain ⟨hthree, htwo⟩ := Prod.mk.inj heq
  exact ⟨s, c, hs, hc, hthree, htwo⟩

end JudoAssistant
