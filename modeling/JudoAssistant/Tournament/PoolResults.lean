import JudoAssistant.Tournament.DrawRuns
import JudoAssistant.Tournament.PoolRanking
import JudoAssistant.Tournament.Tallies

/-!
# The results of a pool in every session

The matches of a pool are those of its draw in every session, so that the passes of `getResults` see each two
players once.  When all matches have a winner and the counters say so, the results place every player of the
category, those with more wins first, and two players who are tied on wins with nobody else in the order of their
match.  The counters say so in every session in which no bye that is underway is reset.
-/

namespace JudoAssistant

open Effect PoolDrawSystem

/-! ### Wins -/

theorem ByPlayer.eq_mk {α : Type} {b : ByPlayer α} {x y : α} (hwhite : b.white = x) (hblue : b.blue = y) :
    b = ⟨x, y⟩ := by
  cases b
  cases hwhite
  cases hblue
  rfl

/-- The player has won the match. -/
def MatchStore.wonBy (p : PlayerId) (m : MatchStore) : Bool :=
  match RulesetIdentifier.getWinner m with
  | .ok (some i) => m.getPlayer i = some p
  | _ => false

/-- The matches of the category that the player has won. -/
def CategoryStore.wins (c : CategoryStore) (p : PlayerId) : ℕ := c.matchList.countP (·.wonBy p)

section

variable {c : CategoryStore} {m : MatchStore} {p q : PlayerId}

theorem MatchStore.between_iff : m.between p q = true ↔
    m.players.white = some p ∧ m.players.blue = some q ∨ m.players.white = some q ∧ m.players.blue = some p :=
  decide_eq_true_iff

/-- A match of a pool that has a winner. -/
structure MatchStore.Decided (S : Finset PlayerId) (m : MatchStore) : Prop where
  finished : m.getStatus = .finished
  winner : ∃ i, RulesetIdentifier.getWinner m = .ok (some i)
  fighters : ∃ white ∈ S, ∃ blue ∈ S, white ≠ blue ∧ m.players = ⟨some white, some blue⟩

theorem MatchStore.Decided.bout {S : Finset PlayerId} (h : m.Decided S) : ∃ b : Bout,
    PoolDrawSystem.bout m = some b ∧ m.players = ⟨some b.white, some b.blue⟩ ∧ b.white ∈ S ∧
      b.blue ∈ S ∧ b.white ≠ b.blue ∧ (b.winner = b.white ∨ b.winner = b.blue) ∧
      ∀ p, m.wonBy p = true ↔ b.winner = p := by
  obtain ⟨i, hi⟩ := h.winner
  obtain ⟨white, hwhite, blue, hblue, hne, hplayers⟩ := h.fighters
  have hgetWhite : m.getPlayer .white = some white := congrArg ByPlayer.white hplayers
  have hgetBlue : m.getPlayer .blue = some blue := congrArg ByPlayer.blue hplayers
  refine ⟨⟨white, blue, if i = .white then white else blue, (m.getScore i).ippon, m.state.duration⟩, ?_, hplayers,
    hwhite, hblue, hne, ?_, fun p => ?_⟩
  · unfold PoolDrawSystem.bout
    rw [hgetWhite, hgetBlue, hi]
  · cases i with
    | white => exact .inl rfl
    | blue => exact .inr rfl
  · unfold MatchStore.wonBy
    rw [hi]
    show decide (m.getPlayer i = some p) = true ↔ _
    rw [decide_eq_true_iff]
    cases i with
    | white =>
      rw [hgetWhite, Option.some.injEq]
      rfl
    | blue =>
      rw [hgetBlue, Option.some.injEq]
      rfl

variable {S : Finset PlayerId} {ms : List MatchStore}

theorem countP_bouts (hdecided : ∀ m ∈ ms, m.Decided S) {f : Bout → Bool} {g : MatchStore → Bool}
    (hfg : ∀ m ∈ ms, ∀ b, bout m = some b → f b = g m) : (ms.filterMap bout).countP f = ms.countP g := by
  induction ms with
  | nil => rfl
  | cons m ms ih =>
    obtain ⟨b, hb, -⟩ := (hdecided m List.mem_cons_self).bout
    rw [List.filterMap_cons_some hb, List.countP_cons, List.countP_cons, hfg m List.mem_cons_self b hb,
      ih (fun m hm => hdecided m (List.mem_cons_of_mem _ hm)) fun m hm => hfg m (List.mem_cons_of_mem _ hm)]

/-- The bouts of a category whose matches are those of its draw system. -/
theorem bouts_eq (hc : c.Indexed) : PoolDrawSystem.bouts c (c.matchList.map (·.id)) = c.matchList.filterMap bout := by
  unfold PoolDrawSystem.bouts
  rw [List.filterMap_map]
  refine List.filterMap_congr fun m hm => ?_
  rw [Function.comp_apply, hc.getMatch_ok.2 ⟨hm, rfl⟩]
  rfl

/-! ### Standings -/

variable {d : PoolDrawSystem} {t : TournamentStore}

/-- A pool of the category whose matches all have a winner. -/
structure CategoryStore.PoolFought (t : TournamentStore) (c : CategoryStore) (d : PoolDrawSystem) : Prop where
  finished : PoolDrawSystem.Finished t c d
  players : d.players.toFinset = c.players
  decided : ∀ m ∈ c.matchList, m.Decided c.players
  bouts : PoolDrawSystem.bouts c d.matchIds = c.matchList.filterMap bout
  complete : Fixtures.Complete MatchStore.between (Opponents c.players) c.matchList

namespace CategoryStore.PoolFought

variable (h : c.PoolFought t d)

include h

theorem wins_eq (p : PlayerId) : PoolDrawSystem.wins (PoolDrawSystem.bouts c d.matchIds) p = c.wins p := by
  unfold PoolDrawSystem.wins CategoryStore.wins
  rw [h.bouts]
  refine countP_bouts h.decided fun m hm b hb => ?_
  obtain ⟨b', hb', -, -, -, -, -, hwon⟩ := (h.decided m hm).bout
  cases hb.symm.trans hb'
  rw [Bool.eq_iff_iff, decide_eq_true_iff, hwon]

/-- The wins of a player among himself and another one are those in their match. -/
theorem winsWithin_pair :
    winsWithin (PoolDrawSystem.bouts c d.matchIds) {p, q} p =
      c.matchList.countP fun m => m.between p q && m.wonBy p := by
  unfold winsWithin
  rw [h.bouts]
  refine countP_bouts h.decided fun m hm b hb => ?_
  obtain ⟨b', hb', hplayers, -, -, hne, -, hwon⟩ := (h.decided m hm).bout
  cases hb.symm.trans hb'
  have hbetween : m.between p q = true ↔ b.white = p ∧ b.blue = q ∨ b.white = q ∧ b.blue = p := by
    rw [MatchStore.between_iff, hplayers, Option.some.injEq, Option.some.injEq, Option.some.injEq, Option.some.injEq]
  rw [Bool.eq_iff_iff, decide_eq_true_iff, Bool.and_eq_true, hbetween, hwon]
  simp only [Finset.mem_insert, Finset.mem_singleton]
  constructor
  · rintro ⟨hwinner, hwhite | hwhite, hblue | hblue⟩
    · exact (hne (hwhite.trans hblue.symm)).elim
    · exact ⟨.inl ⟨hwhite, hblue⟩, hwinner⟩
    · exact ⟨.inr ⟨hwhite, hblue⟩, hwinner⟩
    · exact (hne (hwhite.trans hblue.symm)).elim
  · rintro ⟨⟨hwhite, hblue⟩ | ⟨hwhite, hblue⟩, hwinner⟩
    · exact ⟨hwinner, .inl hwhite, .inr hblue⟩
    · exact ⟨hwinner, .inr hwhite, .inl hblue⟩

/-- The match of two members has one of them as its winner. -/
theorem encounter (hp : p ∈ c.players) (hq : q ∈ c.players) (hpq : p ≠ q) :
    ∃ m ∈ c.matchList, m.between p q = true ∧
      (m.wonBy p = true ∧ m.wonBy q = false ∨ m.wonBy q = true ∧ m.wonBy p = false) ∧
      ∀ m' ∈ c.matchList, m'.between p q = true → m' = m := by
  obtain ⟨m, hm, hmeet, honly⟩ := h.complete.meeting ⟨hp, hq, hpq⟩
  refine ⟨m, hm, hmeet, ?_, honly⟩
  obtain ⟨b, -, hplayers, -, -, -, hwinner, hwon⟩ := (h.decided m hm).bout
  have hnot : ∀ r, b.winner ≠ r → m.wonBy r = false := fun r hr =>
    Bool.eq_false_iff.2 fun hwonr => hr ((hwon r).1 hwonr)
  have hpair : b.winner = p ∨ b.winner = q := by
    rw [MatchStore.between_iff, hplayers, Option.some.injEq, Option.some.injEq, Option.some.injEq,
      Option.some.injEq] at hmeet
    rcases hmeet with ⟨hwhite, hblue⟩ | ⟨hwhite, hblue⟩
    · rw [← hwhite, ← hblue]
      exact hwinner
    · rw [← hwhite, ← hblue]
      exact hwinner.symm
  rcases hpair with hwin | hwin
  · exact .inl ⟨(hwon p).2 hwin, hnot q fun heq => hpq (hwin.symm.trans heq)⟩
  · exact .inr ⟨(hwon q).2 hwin, hnot p fun heq => hpq (heq.symm.trans hwin)⟩

/-- Two players who are tied on wins with nobody else: the better one has won their match. -/
theorem won_of_standing (hp : p ∈ c.players) (hq : q ∈ c.players)
    (hlt : standing (PoolDrawSystem.bouts c d.matchIds) d.players.toFinset (weightOf t) p <
      standing (PoolDrawSystem.bouts c d.matchIds) d.players.toFinset (weightOf t) q)
    (htied : ∀ r ∈ c.players, c.wins r = c.wins p ↔ r = p ∨ r = q) :
    ∃ m ∈ c.matchList, m.between p q = true ∧ m.wonBy p = true := by
  have hpq : p ≠ q := by
    rintro rfl
    exact hlt.ne rfl
  have hwins : c.wins q = c.wins p := (htied q hq).2 (.inr rfl)
  have hgroup : ∀ r, r = p ∨ r = q →
      tiedOnWins (PoolDrawSystem.bouts c d.matchIds) d.players.toFinset r = {p, q} := by
    intro r hr
    have hwinsr : c.wins r = c.wins p := by
      rcases hr with rfl | rfl
      · rfl
      · exact hwins
    ext x
    rw [tiedOnWins, Finset.mem_filter, h.wins_eq, h.wins_eq, hwinsr, h.players, Finset.mem_insert, Finset.mem_singleton]
    constructor
    · rintro ⟨hx, heq⟩
      exact (htied x hx).1 heq
    · rintro (rfl | rfl)
      · exact ⟨hp, rfl⟩
      · exact ⟨hq, hwins⟩
  obtain ⟨m, hm, hmeet, hwon, honly⟩ := h.encounter hp hq hpq
  refine ⟨m, hm, hmeet, ?_⟩
  rcases hwon with ⟨hwon, -⟩ | ⟨hwonq, hnot⟩
  · exact hwon
  · exfalso
    have hzero : winsWithin (PoolDrawSystem.bouts c d.matchIds) {p, q} p = 0 := by
      rw [h.winsWithin_pair, List.countP_eq_zero]
      intro m' hm' hboth
      rw [Bool.and_eq_true] at hboth
      rw [honly m' hm' hboth.1, hnot] at hboth
      cases hboth.2
    have hpos : 0 < winsWithin (PoolDrawSystem.bouts c d.matchIds) {p, q} q := by
      rw [Finset.pair_comm, h.winsWithin_pair, List.countP_pos_iff]
      refine ⟨m, hm, ?_⟩
      rw [Bool.and_eq_true]
      exact ⟨(MatchStore.twoSided_between.symm q p m).trans hmeet, hwonq⟩
    unfold standing at hlt
    rw [Prod.Lex.toLex_lt_toLex] at hlt
    have hbetter : toLex (OrderDual.toDual (PoolDrawSystem.wins (PoolDrawSystem.bouts c d.matchIds) q),
        OrderDual.toDual (winsWithinTied (PoolDrawSystem.bouts c d.matchIds) d.players.toFinset q)) <
          toLex (OrderDual.toDual (PoolDrawSystem.wins (PoolDrawSystem.bouts c d.matchIds) p),
            OrderDual.toDual (winsWithinTied (PoolDrawSystem.bouts c d.matchIds) d.players.toFinset p)) := by
      rw [Prod.Lex.toLex_lt_toLex, h.wins_eq, h.wins_eq, hwins]
      refine .inr ⟨rfl, ?_⟩
      rw [OrderDual.toDual_lt_toDual, winsWithinTied, winsWithinTied, hgroup p (.inl rfl), hgroup q (.inr rfl), hzero]
      exact hpos
    rcases hlt with hlt | ⟨heq, -⟩
    · exact lt_asymm hlt hbetter
    · exact hbetter.ne heq.symm

end CategoryStore.PoolFought

/-! ### Sessions -/

open TournamentStore in
/-- A pool of a session in which all matches have a winner. -/
theorem Session.Constructed.poolFought {s : Session} (hs : s.Constructed) {cid : CategoryId}
    (hc : s.tournament.categories cid = some c) (hd : c.drawSystem = .pool d) (hsize : 2 ≤ c.players.card)
    (hweights : ∀ p ∈ c.players, ∀ w ∈ weightOf s.tournament p, ∃ n : ℤ, w = n / 100)
    (hwon : ∀ m ∈ c.matchList, m.getStatus = .finished ∧ ∃ i, RulesetIdentifier.getWinner m = .ok (some i)) :
    c.PoolFought s.tournament d := by
  have hcx := hs.indexed.index cid c hc
  have hdrawn := hs.drawn cid c not_false hc
  have hmeets := hdrawn.meets
  rw [hd] at hmeets
  have hcomplete := complete_of_fights hmeets
  have hnodup : d.players.Nodup := by
    have hall := hdrawn.nodup
    rwa [hd] at hall
  have hplayers : d.players.toFinset = c.players := by
    have hall := hdrawn.players
    rwa [hd] at hall
  have hids : d.matchIds = c.matchList.map (·.id) := by
    have hall := hdrawn.matchIds
    rw [hd, List.map_map] at hall
    exact hall
  have hdecided : ∀ m ∈ c.matchList, m.Decided c.players := by
    intro m hm
    obtain ⟨hfinished, hwinner⟩ := hwon m hm
    refine ⟨hfinished, hwinner, ?_⟩
    obtain ⟨p, q, ⟨hp, hq, hpq⟩, hmeet⟩ := hcomplete.only m hm
    rcases MatchStore.between_iff.1 hmeet with ⟨hwhite, hblue⟩ | ⟨hwhite, hblue⟩
    · exact ⟨p, hp, q, hq, hpq, ByPlayer.eq_mk hwhite hblue⟩
    · exact ⟨q, hq, p, hp, hpq.symm, ByPlayer.eq_mk hwhite hblue⟩
  have hmem : ∀ p, p ∈ d.players ↔ p ∈ c.players := fun p => by rw [← hplayers, List.mem_toFinset]
  refine ⟨⟨?_, hnodup, fun p hp => ?_, fun p hp => hweights p ((hmem p).1 hp), fun x hx => ?_⟩, hplayers,
    hdecided, by rw [hids, bouts_eq hcx], hcomplete⟩
  · rwa [← List.toFinset_card_of_nodup hnodup, hplayers]
  · exact Option.isSome_iff_ne_none.2 (hs.orderly.linked.members_exist cid c p hc ((hmem p).1 hp))
  · rw [hids] at hx
    obtain ⟨m, hm, rfl⟩ := List.mem_map.1 hx
    obtain ⟨hfinished, ⟨i, hi⟩, white, hwhite, blue, hblue, -, hfighters⟩ := hdecided m hm
    exact ⟨m, white, blue, i, hcx.getMatch_ok.2 ⟨hm, rfl⟩, hfinished, congrArg ByPlayer.white hfighters,
      congrArg ByPlayer.blue hfighters, (hmem white).2 hwhite, (hmem blue).2 hblue, hi⟩

/-- Where no bye that is underway is reset, the counters say that a category is finished when its matches are. -/
theorem Session.isFinished_of_careful {s : Session} (hs : ReachableBy Careful s) {cid : CategoryId}
    (hc : s.tournament.categories cid = some c) (hfinished : ∀ m ∈ c.matchList, m.getStatus = .finished)
    (type : MatchType) : (c.getStatus type).isFinished = true := by
  obtain ⟨hnotStarted, hstarted, -⟩ := tally_counters (c.matchList.filter fun m => m.type = type)
  have hnone : ∀ status : MatchStatus → Bool, status .finished = false →
      (c.matchList.filter fun m => m.type = type).countP (fun m => status m.getStatus) = 0 := by
    intro status hstatus
    refine List.countP_eq_zero.2 fun m hm => ?_
    rw [hfinished m (List.mem_of_mem_filter hm), hstatus]
    decide
  rw [((arranged_of_reachableBy hs).all cid c not_false hc).tallied type, CategoryStatus.isFinished,
    hnotStarted, hstarted, hnone (· = .notStarted) rfl,
    hnone (fun status => status = .paused ∨ status = .unpaused) rfl]
  rfl

/-- The results of a pool whose matches all have a winner rank all players if and only if the category counts none
of its matches as not started or started.  In a session that resets no bye that is underway they do. -/
theorem Session.ranksAll_iff (t : TournamentStore) (c : CategoryStore) (d : PoolDrawSystem) (h : Finished t c d) :
    (RanksAll t c d ↔
      (c.getStatus .elimination).notStartedMatches = 0 ∧ (c.getStatus .elimination).startedMatches = 0) ∧
    ∀ s cid, ReachableBy Careful s → s.tournament = t → t.categories cid = some c → c.drawSystem = .pool d →
      RanksAll t c d := by
  have hcounted : (c.getStatus .elimination).isFinished = true ↔
      (c.getStatus .elimination).notStartedMatches = 0 ∧ (c.getStatus .elimination).startedMatches = 0 := by
    simp [CategoryStatus.isFinished]
  refine ⟨⟨fun hranks => hcounted.1 ?_, fun hzero => ranksAll_of_isFinished h (hcounted.2 hzero)⟩, ?_⟩
  · by_contra hstatus
    exact not_ranksAll_of_getResults h (getResults_of_not_isFinished h (Bool.eq_false_iff.2 hstatus)) hranks
  · rintro s cid hs rfl hc hd
    refine ranksAll_of_isFinished h (isFinished_of_careful hs hc (fun m hm => ?_) _)
    have hids := ((constructed_of_careful hs).drawn cid c not_false hc).matchIds
    rw [hd, List.map_map] at hids
    have hid : m.id ∈ d.matchIds := by
      rw [show d.matchIds = c.matchList.map (·.id) from hids]
      exact List.mem_map_of_mem hm
    obtain ⟨m', -, -, -, hm', hfinished, -⟩ := h.fought m.id hid
    cases (((constructed_of_careful hs).indexed.index cid c hc).getMatch_ok.2 ⟨hm, rfl⟩).symm.trans hm'
    exact hfinished

/-- In every session that resets no bye that is underway, when all matches of a pool have a winner, the results place
every player of the category once, those with more wins first, and where two players are tied on wins with nobody
else, the one who has won their match.  All wins together are as many as there are pairs of players. -/
theorem Session.pool_results (s : Session) (hs : ReachableBy Careful s) (cid : CategoryId) (c : CategoryStore)
    (d : PoolDrawSystem) (hc : s.tournament.categories cid = some c) (hd : c.drawSystem = .pool d)
    (hsize : 2 ≤ c.players.card)
    (hweights : ∀ p ∈ c.players, ∀ w ∈ weightOf s.tournament p, ∃ n : ℤ, w = n / 100)
    (hwon : ∀ m ∈ c.matchList, m.getStatus = .finished ∧ ∃ i, RulesetIdentifier.getWinner m = .ok (some i)) :
    ∃ ranked : List PlayerId, ranked.Nodup ∧ ranked.toFinset = c.players ∧
      getResults s.tournament c d = .ok (ranked.zipIdx.map fun (player, i) => (player, some (i + 1))) ∧
      (ranked.Pairwise fun p q => c.wins q ≤ c.wins p ∧
        ((∀ r ∈ c.players, c.wins r = c.wins p ↔ r = p ∨ r = q) →
        ∃ m ∈ c.matchList, m.between p q = true ∧ m.wonBy p = true)) ∧
      ∑ p ∈ c.players, c.wins p = c.players.card.choose 2 := by
  have h := (constructed_of_careful hs).poolFought hc hd hsize hweights hwon
  have hstatus := isFinished_of_careful hs hc (fun m hm => (hwon m hm).1) .elimination
  obtain ⟨hperm, hlt⟩ := (groups_standing lawfulSort_stdSort h.finished).pairwise_of_map
  have hmem : ∀ p, p ∈ ranking stdSort s.tournament c d ↔ p ∈ c.players := fun p => by
    rw [hperm.mem_iff, ← h.players, List.mem_toFinset]
  refine ⟨ranking stdSort s.tournament c d, hperm.nodup_iff.2 h.finished.nodup, ?_, ?_, ?_, ?_⟩
  · rw [List.toFinset_eq_of_perm _ _ hperm]
    exact h.players
  · rw [← getResultsWith_stdSort, getResultsWith_ok lawfulSort_stdSort h.finished hstatus]
  · refine List.Pairwise.imp_of_mem (fun {p q} hp hq hpq => ?_) hlt
    refine ⟨?_, fun htied => h.won_of_standing ((hmem p).1 hp) ((hmem q).1 hq) hpq htied⟩
    unfold standing at hpq
    rw [Prod.Lex.toLex_lt_toLex, Prod.Lex.toLex_lt_toLex, toLex_inj, Prod.mk.injEq, OrderDual.toDual_lt_toDual,
      OrderDual.toDual_inj, h.wins_eq, h.wins_eq] at hpq
    rcases hpq with (hfewer | ⟨heq, -⟩) | ⟨⟨heq, -⟩, -⟩
    · exact hfewer.le
    · exact heq.ge
    · exact heq.ge
  · rw [← h.complete.length_eq MatchStore.twoSided_between]
    refine Fixtures.sum_wins fun m hm => ?_
    obtain ⟨b, -, -, hwhite, hblue, -, hwinner, hwonBy⟩ := (h.decided m hm).bout
    refine ⟨b.winner, ?_, fun p => (hwonBy p).trans eq_comm⟩
    rcases hwinner with hwinner | hwinner <;> rw [hwinner] <;> assumption

end

/-- Three players are drawn as a pool, and white wins all matches. -/
def PoolDrawSystem.poolWon : List Session.Event :=
  [.redo (.addPlayers ⟨[(⟨1⟩, {}), (⟨2⟩, {}), (⟨3⟩, {})]⟩),
    .redo (.addCategoryWithPlayers
      { id := ⟨1⟩, name := "", ruleset := .twentyEighteen, drawSystem := .pool,
        playerIds := [⟨1⟩, ⟨2⟩, ⟨3⟩], seed := 0 })] ++
  [⟨2357136044⟩, ⟨2546248239⟩, ⟨3071714933⟩].flatMap fun x =>
    [DoublePoolDrawSystem.fight x (.resumeMatch 0), DoublePoolDrawSystem.fight x (.awardIppon .white 1 false)]

theorem PoolDrawSystem.careful_poolWon {s : Session} (h : Runs.run Session.next poolWon {} = some s) :
    Session.ReachableBy Session.Careful s :=
  Session.careful_of_new
    (by simp [poolWon, DoublePoolDrawSystem.fight, Session.Event.Constructed, Action.Constructed]) (by decide +kernel) h

/-- The matches of the pool are finished, each with a winner, and the players have no weights. -/
def PoolDrawSystem.AllWon (s : Session) (c : CategoryStore) : Prop :=
  c.drawSystem.getIdentifier = .pool ∧ 2 ≤ c.players.card ∧
    (∀ p ∈ c.players, weightOf s.tournament p = none) ∧
    ∀ m ∈ c.matchList, m.getStatus = .finished ∧ (RulesetIdentifier.getWinner m).toOption.join.isSome = true

instance (s : Session) (c : CategoryStore) : Decidable (PoolDrawSystem.AllWon s c) :=
  inferInstanceAs (Decidable (c.drawSystem.getIdentifier = .pool ∧ 2 ≤ c.players.card ∧
    (∀ p ∈ c.players, weightOf s.tournament p = none) ∧
    ∀ m ∈ c.matchList, m.getStatus = .finished ∧ (RulesetIdentifier.getWinner m).toOption.join.isSome = true))

namespace PoolDrawSystem.AllWon

variable {s : Session} {c : CategoryStore} (h : AllWon s c)

include h

theorem exists_pool : ∃ d, c.drawSystem = .pool d := by
  obtain ⟨hsystem, -⟩ := h
  cases hsys : c.drawSystem with
  | pool d => exact ⟨d, rfl⟩
  | doublePool d =>
    rw [hsys] at hsystem
    cases hsystem
  | bestOfThree d =>
    rw [hsys] at hsystem
    cases hsystem

theorem weights (p : PlayerId) (hp : p ∈ c.players) (w : ℚ) (hw : w ∈ weightOf s.tournament p) :
    ∃ n : ℤ, w = n / 100 := by
  obtain ⟨-, -, hweights, -⟩ := h
  rw [hweights p hp] at hw
  cases hw

theorem won (m : MatchStore) (hm : m ∈ c.matchList) :
    m.getStatus = .finished ∧ ∃ i, RulesetIdentifier.getWinner m = .ok (some i) := by
  obtain ⟨-, -, -, hwon⟩ := h
  obtain ⟨hfinished, hwinner⟩ := hwon m hm
  refine ⟨hfinished, ?_⟩
  obtain ⟨i, hi⟩ := Option.isSome_iff_exists.1 hwinner
  cases hget : RulesetIdentifier.getWinner m with
  | error e =>
    rw [hget] at hi
    cases hi
  | ok w =>
    rw [hget] at hi
    exact ⟨i, congrArg Except.ok hi⟩

end PoolDrawSystem.AllWon

/-- What a run with three players who are drawn as a pool leads to. -/
theorem PoolDrawSystem.exists_allWon (es : List Session.Event)
    (h : ((Runs.run Session.next es {}).bind fun s => (s.tournament.categories ⟨1⟩).map fun c =>
      decide (AllWon s c)) = some true) : ∃ s c d, Runs.run Session.next es {} = some s ∧
        s.tournament.categories ⟨1⟩ = some c ∧ c.drawSystem = .pool d ∧ AllWon s c := by
  obtain ⟨s, hs, hrest⟩ := Option.bind_eq_some_iff.1 h
  obtain ⟨c, hc, hover⟩ := Option.map_eq_some_iff.1 hrest
  have hall := of_decide_eq_true hover
  obtain ⟨d, hd⟩ := hall.exists_pool
  exact ⟨s, c, d, hs, hc, hd, hall⟩

theorem Session.ranksAll_iff_poolWon : ∃ s c d, Runs.run next poolWon {} = some s ∧
    s.tournament.categories ⟨1⟩ = some c ∧ c.drawSystem = .pool d ∧ RanksAll s.tournament c d := by
  obtain ⟨s, c, d, hs, hc, hd, hall⟩ := exists_allWon poolWon (by decide +kernel)
  have hcareful := careful_poolWon hs
  have h := (constructed_of_careful hcareful).poolFought hc hd hall.2.1 hall.weights hall.won
  exact ⟨s, c, d, hs, hc, hd, (ranksAll_iff s.tournament c d h.finished).2 s ⟨1⟩ hcareful rfl hc hd⟩

/-- The last match is resumed and reset and made a bye, and when the last two are undone, it is underway again and
still a bye.  It is reset, and white wins all matches. -/
def PoolDrawSystem.wonAfterBye : List Session.Event :=
  poolWon.take 2 ++
  [DoublePoolDrawSystem.fight ⟨3071714933⟩ (.resumeMatch 0),
    .redo (.resetMatches { categoryIds := [⟨1⟩], matchId := some ⟨3071714933⟩ }),
    DoublePoolDrawSystem.fight ⟨3071714933⟩ (.setMatchBye true), .undo, .undo,
    .redo (.resetMatches { categoryIds := [⟨1⟩], matchId := some ⟨3071714933⟩ })] ++
  [⟨2357136044⟩, ⟨2546248239⟩, ⟨3071714933⟩].map fun x =>
    DoublePoolDrawSystem.fight x (.awardIppon .white 1 false)

/-- All matches are finished with a winner then, but one is still counted as not started, and there are no results. -/
theorem Session.not_ranksAll_wonAfterBye : ∃ s c d, Runs.run next wonAfterBye {} = some s ∧ s.Constructed ∧
    s.tournament.categories ⟨1⟩ = some c ∧ c.drawSystem = .pool d ∧ Finished s.tournament c d ∧
    getResults s.tournament c d = .ok [] ∧ ¬ RanksAll s.tournament c d := by
  obtain ⟨s, c, d, hs, hc, hd, hall⟩ := exists_allWon wonAfterBye (by decide +kernel)
  have hconstructed : s.Constructed := constructed_of_run
    (by simp [wonAfterBye, poolWon, DoublePoolDrawSystem.fight, Session.Event.Constructed, Action.Constructed]) hs
  have h := (hconstructed.poolFought hc hd hall.2.1 hall.weights hall.won).finished
  have hrun : ((Runs.run Session.next wonAfterBye {}).bind fun s => (s.tournament.categories ⟨1⟩).map fun c =>
      (c.getStatus .elimination).isFinished) = some false := by decide +kernel
  rw [hs, Option.bind_some, hc] at hrun
  have hresults := getResults_of_not_isFinished h (Option.some.inj hrun)
  exact ⟨s, c, d, hs, hconstructed, hc, hd, h, hresults, not_ranksAll_of_getResults h hresults⟩

theorem Session.pool_results_poolWon : ∃ s c d, Runs.run next poolWon {} = some s ∧
    s.tournament.categories ⟨1⟩ = some c ∧ c.drawSystem = .pool d ∧ ∃ ranked : List PlayerId, ranked.Nodup ∧
      ranked.toFinset = c.players ∧
      getResults s.tournament c d = .ok (ranked.zipIdx.map fun (player, i) => (player, some (i + 1))) ∧
      (ranked.Pairwise fun p q => c.wins q ≤ c.wins p ∧
        ((∀ r ∈ c.players, c.wins r = c.wins p ↔ r = p ∨ r = q) →
        ∃ m ∈ c.matchList, m.between p q = true ∧ m.wonBy p = true)) ∧
      ∑ p ∈ c.players, c.wins p = c.players.card.choose 2 := by
  obtain ⟨s, c, d, hs, hc, hd, hall⟩ := exists_allWon poolWon (by decide +kernel)
  exact ⟨s, c, d, hs, hc, hd,
    pool_results s (careful_poolWon hs) ⟨1⟩ c d hc hd hall.2.1 hall.weights hall.won⟩

end JudoAssistant
