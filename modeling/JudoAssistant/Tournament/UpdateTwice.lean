import JudoAssistant.Tournament.CategoryCourse
import JudoAssistant.Tournament.DrawShapes

/-!
# Updating a draw twice

The actions that `updateCategory` returns set the players of later matches.  Once they have been run, a second
call of `updateCategory` is to find nothing left to do.
-/

namespace JudoAssistant

open Effect Exec TournamentStore

/-! ### What the results of a pool read -/

/-- What the players are called, weigh and so on. -/
def TournamentStore.fieldsOf (t : TournamentStore) (p : PlayerId) : Option PlayerFields := (t.players p).map (·.fields)

theorem matchBlind_fieldsOf : MatchBlind TournamentStore.fieldsOf where
  player t k p p' hp hsame := by
    funext i
    show (Function.update t.players k (some p') i).map _ = (t.players i).map _
    by_cases hi : i = k
    · subst hi
      rw [Function.update_self, hp, hsame]
      rfl
    · rw [Function.update_of_ne hi]
  category _ _ _ _ _ _ := rfl
  tatamis _ _ _ := rfl

section

variable {t t' : TournamentStore} {c c' : CategoryStore}

theorem containsPlayer_congr (h : t'.fieldsOf = t.fieldsOf) (p : PlayerId) :
    t'.containsPlayer p = t.containsPlayer p := by
  have hp := congrArg Option.isSome (congrFun h p)
  simpa [fieldsOf, TournamentStore.containsPlayer] using hp

theorem allowsPlayer_congr (h : t'.fieldsOf = t.fieldsOf) (p : Option PlayerId) :
    t'.allowsPlayer p = t.allowsPlayer p := by
  cases p with
  | none => rfl
  | some p => exact containsPlayer_congr h p

theorem getPlayer_fields_congr {α : Type} (h : t'.fieldsOf = t.fieldsOf) (p : PlayerId)
    {f : PlayerStore → Except Failure α}
    (hf : ∀ q q', q'.fields = q.fields → f q' = f q) : (t'.getPlayer p >>= f) = t.getPlayer p >>= f := by
  have hp : (t'.players p).map (·.fields) = (t.players p).map (·.fields) := congrFun h p
  unfold TournamentStore.getPlayer
  cases hq : t.players p with
  | none =>
    rw [hq, Option.map_none, Option.map_eq_none_iff] at hp
    rw [hp]
  | some q =>
    rw [hq, Option.map_some, Option.map_eq_some_iff] at hp
    obtain ⟨q', hq', heq⟩ := hp
    rw [hq']
    exact hf q q' heq

namespace PoolDrawSystem

theorem mutualWins_congr {players : List PlayerId} {ids : List MatchId}
    (h : ∀ x ∈ ids, c'.getMatch x = c.getMatch x) :
    mutualWins c' players ids = mutualWins c players ids := by
  induction ids with
  | nil => rfl
  | cons x ids ih =>
    rw [mutualWins, mutualWins, h x List.mem_cons_self, ih fun y hy => h y (List.mem_cons_of_mem _ hy)]

theorem winTotals_congr {ids : List MatchId} (h : ∀ x ∈ ids, c'.getMatch x = c.getMatch x) :
    winTotals c' ids = winTotals c ids := by
  induction ids with
  | nil => rfl
  | cons x ids ih =>
    rw [winTotals, winTotals, h x List.mem_cons_self, ih fun y hy => h y (List.mem_cons_of_mem _ hy)]

theorem playerWeights_congr (h : t'.fieldsOf = t.fieldsOf) (players : List PlayerId) :
    playerWeights t' players = playerWeights t players := by
  induction players with
  | nil => rfl
  | cons p players ih =>
    rw [playerWeights, playerWeights, ih]
    exact getPlayer_fields_congr h p fun q q' hq => by rw [hq]

/-- The results read the matches of the pool, the counters and the weights of the players. -/
theorem getResults_congr {d : PoolDrawSystem} (hfields : t'.fieldsOf = t.fieldsOf)
    (hmatches : ∀ x ∈ d.matchIds, c'.getMatch x = c.getMatch x)
    (hstatus : c'.getStatus .elimination = c.getStatus .elimination) : getResults t' c' d = getResults t c d := by
  have hwins : orderByWinsWithinGroup c' d = orderByWinsWithinGroup c d := by
    funext start rows
    rw [orderByWinsWithinGroup, orderByWinsWithinGroup, mutualWins_congr hmatches]
  have hremaining : orderByRemainingCriteria t' c' d = orderByRemainingCriteria t c d := by
    funext start rows
    rw [orderByRemainingCriteria, orderByRemainingCriteria, winTotals_congr hmatches, playerWeights_congr hfields]
  rw [getResults, getResults, hwins, hremaining, hstatus]

end PoolDrawSystem

end

/-! ### Setting the players of a match -/

theorem CategoryStore.setMatch_self {c : CategoryStore} {x : MatchId} {m : MatchStore} (h : c.getMatch x = .ok m) :
    c.setMatch x m = c := by
  have htwice : (c.setMatch x m).setMatch x m = c := setMatch_setMatch h m
  unfold setMatch at htwice ⊢
  cases hx : c.matchMap x with
  | none => rfl
  | some i =>
    simp only [hx, List.set_set] at htwice
    exact htwice

theorem CategoryStore.setMatch_twice {c : CategoryStore} {x : MatchId} {m m' : MatchStore} :
    (c.setMatch x m).setMatch x m' = c.setMatch x m' := by
  unfold setMatch
  cases hx : c.matchMap x with
  | none => simp only [hx]
  | some i => simp only [hx, List.set_set]

theorem CategoryStore.getMatch_setMatch_of_ne {c : CategoryStore} {x y : MatchId} (hc : c.Indexed) (hne : y ≠ x)
    (m' : MatchStore) : (c.setMatch x m').getMatch y = c.getMatch y := by
  unfold getMatch setMatch
  cases hx : c.matchMap x with
  | none => rfl
  | some i =>
    simp only
    cases hy : c.matchMap y with
    | none => rfl
    | some j =>
      have hij : i ≠ j := by
        rintro rfl
        have heq := ((hc.map x i).1 hx).symm.trans ((hc.map y i).1 hy)
        exact hne (Option.some.inj heq).symm
      simp only [List.getElem?_set_ne hij]

namespace MatchStore

/-- The match after a player was set, if he exists. -/
def seatOne (t : TournamentStore) (m : MatchStore) (i : PlayerIndex) (p : Option PlayerId) : MatchStore :=
  if t.allowsPlayer p then m.setPlayer i p else m

/-- The match after both players were set, as far as they exist. -/
def seat (t : TournamentStore) (m : MatchStore) (players : Option PlayerId × Option PlayerId) : MatchStore :=
  (m.seatOne t .white players.1).seatOne t .blue players.2

/-- The one of two players who is to wear a colour. -/
def pick (players : Option PlayerId × Option PlayerId) : PlayerIndex → Option PlayerId
  | .white => players.1
  | .blue => players.2

variable {t t' : TournamentStore} {m : MatchStore} {players : Option PlayerId × Option PlayerId}

theorem getPlayer_seat (i : PlayerIndex) :
    (m.seat t players).getPlayer i = if t.allowsPlayer (pick players i) then pick players i else m.getPlayer i := by
  have hset : ∀ (m : MatchStore) (i j : PlayerIndex) (p : Option PlayerId),
      (m.setPlayer i p).getPlayer j = if j = i then p else m.getPlayer j := by
    intro m i j p
    cases i <;> cases j <;> rfl
  have hone : ∀ (m : MatchStore) (i j : PlayerIndex) (p : Option PlayerId),
      (m.seatOne t i p).getPlayer j = if j = i ∧ t.allowsPlayer p = true then p else m.getPlayer j := by
    intro m i j p
    unfold seatOne
    split
    · next hallowed => simp only [hset, hallowed, and_true]
    · next hforbidden => rw [if_neg fun hset => hforbidden hset.2]
  cases i <;> simp only [seat, hone, pick, reduceCtorEq, false_and, true_and, if_false] <;> rfl

theorem setPlayer_getPlayer (i : PlayerIndex) : m.setPlayer i (m.getPlayer i) = m := by
  cases i <;> rfl

theorem seat_congr (h : t'.fieldsOf = t.fieldsOf) (m : MatchStore) (players : Option PlayerId × Option PlayerId) :
    m.seat t' players = m.seat t players := by
  simp only [seat, seatOne, allowsPlayer_congr h]

theorem seat_seat : (m.seat t players).seat t players = m.seat t players := by
  simp only [seat, seatOne]
  split <;> split <;> rfl

theorem combinedId_seat : (m.seat t players).combinedId = m.combinedId := by
  simp only [seat, seatOne]
  split <;> split <;> rfl

theorem getStatus_seat : (m.seat t players).getStatus = m.getStatus := by
  simp only [seat, seatOne]
  split <;> split <;> rfl

/-- The players are seated if and only if those who exist are. -/
theorem seat_eq_self : m.seat t players = m ↔
    ∀ i, t.allowsPlayer (pick players i) = true → m.getPlayer i = pick players i := by
  constructor
  · intro h i hallowed
    have hget : (m.seat t players).getPlayer i = _ := getPlayer_seat i
    rwa [h, if_pos hallowed] at hget
  · intro h
    have hone : ∀ i, m.seatOne t i (pick players i) = m := by
      intro i
      unfold seatOne
      split
      · next hallowed => rw [← h i hallowed, setPlayer_getPlayer]
      · rfl
    show (m.seatOne t .white (pick players .white)).seatOne t .blue (pick players .blue) = m
    rw [hone .white, hone .blue]

end MatchStore

namespace SetMatchPlayerAction

variable {t t' : TournamentStore} {c : CategoryStore} {m : MatchStore} {a a' : SetMatchPlayerAction}

/-- The action sets the player, if he exists. -/
theorem redoImpl_own (hc : t.categories a.combinedId.categoryId = some c)
    (hm : c.getMatch a.combinedId.matchId = .ok m) (h : a.redoImpl t = .ok a' t') :
    t'.fieldsOf = t.fieldsOf ∧ t'.categories a.combinedId.categoryId =
      some (c.setMatch a.combinedId.matchId (m.seatOne t a.playerIndex a.playerId)) := by
  refine ⟨matchBlind_fieldsOf.setMatchPlayer_redo h, ?_⟩
  have hcontains : c.containsMatch a.combinedId.matchId = true := by
    unfold CategoryStore.getMatch at hm
    unfold CategoryStore.containsMatch
    cases hx : c.matchMap a.combinedId.matchId with
    | none =>
      rw [hx] at hm
      cases hm
    | some i => rfl
  have hfind : t.findMatch a.combinedId = some c := by
    rw [TournamentStore.findMatch, hc]
    exact if_pos hcontains
  obtain ⟨_, _, hread, hrest⟩ := bind_ok.1 h
  obtain ⟨rfl, rfl⟩ := get_ok.1 hread
  rw [hfind, Option.isSome_some, Bool.true_and] at hrest
  unfold MatchStore.seatOne
  split at hrest
  · next hallowed =>
    obtain ⟨m₀, t₀, hget, hwrites⟩ := bind_ok.1 hrest
    obtain ⟨_, t₁, hedit, hmoves⟩ := bind_ok.1 hwrites
    obtain ⟨_, t₂, hadd, hlast⟩ := bind_ok.1 hmoves
    obtain ⟨_, t₃, herase, hend⟩ := bind_ok.1 hlast
    obtain ⟨-, rfl⟩ := pure_ok.1 hend
    obtain ⟨-, rfl⟩ := (getMatch_own hc).1 hget
    obtain ⟨c₀, c₁, hc₀, hwrite, rfl⟩ := editCategory_ok.1 hedit
    rw [hc] at hc₀
    cases hc₀
    simp only [hm, except_bind_ok, except_pure_ok] at hwrite
    obtain ⟨m₁, heq, _, hset, rfl⟩ := hwrite
    cases heq
    cases hset
    have hframe₁ : t₂.categories = _ := frame_addTo (g := TournamentStore.categories) (fun _ _ _ => rfl) hadd
    have hframe₂ : t₃.categories = _ := frame_eraseFrom (g := TournamentStore.categories) (fun _ _ _ => rfl) herase
    rw [if_pos hallowed, hframe₂, hframe₁]
    exact categories_setCategory_self _ _ _
  · next hforbidden =>
    obtain ⟨-, rfl⟩ := pure_ok.1 hrest
    rw [if_neg hforbidden, CategoryStore.setMatch_self hm, hc]

/-- A player who does not exist is not set. -/
theorem redoImpl_of_not_allowed (h : t.allowsPlayer a.playerId = false) : a.redoImpl t = .ok a t := by
  refine bind_ok.2 ⟨t, t, get_ok.2 ⟨rfl, rfl⟩, ?_⟩
  rw [h, Bool.and_false]
  exact pure_ok.2 ⟨rfl, rfl⟩

end SetMatchPlayerAction

/-! ### Opponents -/

/-- Whether a player is to wear the blue judogi. -/
def TournamentStore.blueJudogiHint (t : TournamentStore) (p : PlayerId) : Bool :=
  ((t.fieldsOf p).map (·.blueJudogiHint)).getD false

/-- The one of two opponents who gets a side, the first one white, unless he is to wear the blue judogi. -/
def TournamentStore.seatOf (t : TournamentStore) (first second : PlayerId) : PlayerIndex → PlayerId
  | .white => if t.blueJudogiHint first then second else first
  | .blue => if t.blueJudogiHint first then first else second

theorem TournamentStore.seatOf_white (t : TournamentStore) (first second : PlayerId) :
    t.seatOf first second .white = if t.blueJudogiHint first then second else first := rfl

theorem TournamentStore.seatOf_blue (t : TournamentStore) (first second : PlayerId) :
    t.seatOf first second .blue = if t.blueJudogiHint first then first else second := rfl

/-- The side that has won a finished match between two players. -/
def MatchStore.scoredWinner (m : MatchStore) : Option PlayerIndex :=
  (RulesetIdentifier.decidedWinner m).or (RulesetIdentifier.wazariWinner m)

theorem MatchStore.scoredWinner_seat {t : TournamentStore} {m : MatchStore}
    {players : Option PlayerId × Option PlayerId} : (m.seat t players).scoredWinner = m.scoredWinner := by
  simp only [seat, seatOne]
  split <;> split <;> rfl

theorem MatchStore.getWinner_eq {m : MatchStore} {white blue : PlayerId} (hwhite : m.getPlayer .white = some white)
    (hblue : m.getPlayer .blue = some blue) (hfinished : m.getStatus = .finished) :
    RulesetIdentifier.getWinner m = .ok m.scoredWinner := by
  unfold RulesetIdentifier.getWinner scoredWinner
  rw [hwhite, hblue, hfinished]
  cases hdecided : RulesetIdentifier.decidedWinner m <;> rfl

/-! ### The actions of a double pool -/

namespace DoublePoolDrawSystem

/-- The players of the semifinals, as the results of the pools have them. -/
def semiFinalists (t : TournamentStore) (c : CategoryStore) (d : DoublePoolDrawSystem) :
    Except Failure ((Option PlayerId × Option PlayerId) × (Option PlayerId × Option PlayerId)) := do
  let firstPoolResults ← poolResults t c d.firstPool
  let secondPoolResults ← poolResults t c d.secondPool
  let firstWinner ← rowPlayer firstPoolResults 0
  let secondRunnerUp ← rowPlayer secondPoolResults 1
  let firstPlayers ← opponents t firstWinner secondRunnerUp
  let secondWinner ← rowPlayer secondPoolResults 0
  let firstRunnerUp ← rowPlayer firstPoolResults 1
  let secondPlayers ← opponents t secondWinner firstRunnerUp
  return (firstPlayers, secondPlayers)

/-- The players of the final, as the winners of the semifinals. -/
def finalists (t : TournamentStore) (first second : MatchStore) :
    Except Failure (Option PlayerId × Option PlayerId) := do
  let white ← PoolDrawSystem.winner first
  let blue ← PoolDrawSystem.winner second
  opponents t white blue

/-- Both semifinals are over. -/
def SemiFinalsOver (first second : MatchStore) : Prop := first.getStatus = .finished ∧ second.getStatus = .finished

instance (first second : MatchStore) : Decidable (SemiFinalsOver first second) := inferInstanceAs (Decidable (_ ∧ _))

/-- The players of the final, if it is time for them. -/
def nextFinalists (t : TournamentStore) (first second : MatchStore) :
    Except Failure (Option PlayerId × Option PlayerId) :=
  if SemiFinalsOver first second then finalists t first second else .ok (none, none)

/-- The players of the two semifinals and of the final. -/
structure Seats where
  first : Option PlayerId × Option PlayerId
  second : Option PlayerId × Option PlayerId
  final : Option PlayerId × Option PlayerId

/-- The players that `updateCategory` wants for the semifinals and the final. -/
def seats (t : TournamentStore) (c : CategoryStore) (d : DoublePoolDrawSystem) (first second : MatchStore) :
    Except Failure Seats :=
  if (c.getStatus .elimination).isFinished then do
    let p ← semiFinalists t c d
    let q ← nextFinalists t first second
    return ⟨p.1, p.2, q⟩
  else .ok ⟨(none, none), (none, none), (none, none)⟩

/-- The actions that seat the players. -/
def seatAll (first second final : MatchStore) (s : Seats) : List DrawAction :=
  assignBoth first s.first ++ assignBoth second s.second ++ assignBoth final s.final

section

variable {t t' : TournamentStore} {c : CategoryStore} {d : DoublePoolDrawSystem} {actions : List DrawAction}

theorem ite_bind {α β : Type} {p : Prop} [Decidable p] (x y : Except Failure α) (f : α → Except Failure β) :
    (if p then x else y) >>= f = if p then x >>= f else y >>= f := by
  split <;> rfl

theorem updateCategory_eq (hfour : 4 ≤ d.players.length) : updateCategory t c d = do
    let first ← matchFromEnd c d 3
    let second ← matchFromEnd c d 2
    let final ← matchFromEnd c d 1
    let s ← seats t c d first second
    return seatAll first second final s := by
  unfold updateCategory seats
  rw [if_neg (by omega)]
  cases hfinished : (c.getStatus .elimination).isFinished with
  | false => rfl
  | true =>
    simp only [Bool.not_true, Bool.false_eq_true, if_false, if_true, semiFinalists, nextFinalists,
      finalists, bind_assoc, pure_bind, ite_bind]
    rfl

theorem updateCategory_ok (hfour : 4 ≤ d.players.length) : updateCategory t c d = .ok actions ↔
    ∃ first second final s, matchFromEnd c d 3 = .ok first ∧ matchFromEnd c d 2 = .ok second ∧
      matchFromEnd c d 1 = .ok final ∧ seats t c d first second = .ok s ∧
        actions = seatAll first second final s := by
  rw [updateCategory_eq hfour]
  simp only [except_bind_ok, except_pure_ok, eq_comm (a := actions)]
  constructor
  · rintro ⟨first, hfirst, second, hsecond, final, hfinal, s, hs, hactions⟩
    exact ⟨first, second, final, s, hfirst, hsecond, hfinal, hs, hactions⟩
  · rintro ⟨first, second, final, s, hfirst, hsecond, hfinal, hs, hactions⟩
    exact ⟨first, hfirst, second, hsecond, final, hfinal, s, hs, hactions⟩

/-! ### Running the actions -/

variable {id : CategoryId} {m m₀ : MatchStore} {i : PlayerIndex} {p : Option PlayerId}
  {players : Option PlayerId × Option PlayerId} {stack stack' : List DrawAction}

theorem runAll_append {run : DrawAction → Exec DrawAction} {as bs stack : List DrawAction} :
    runAll run (as ++ bs) stack t = (runAll run as stack >>= runAll run bs) t := by
  induction as generalizing stack t with
  | nil => rfl
  | cons a as ih =>
    show (run a >>= fun b => runAll run (as ++ bs) (b :: stack)) t =
      ((run a >>= fun b => runAll run as (b :: stack)) >>= runAll run bs) t
    rw [bind_assoc]
    show EStateM.bind _ _ t = EStateM.bind _ _ t
    unfold EStateM.bind
    cases run a t with
    | ok b t₁ => exact ih
    | error e t₁ => rfl

theorem runAll_assign_own (hid : m.combinedId.categoryId = id) (hc : t.categories id = some c)
    (hm : c.getMatch m.id = .ok m₀) (hsame : m₀.getPlayer i = m.getPlayer i)
    (h : runAll (DrawAction.redo maxDrawDepth) (assign m i p) stack t = .ok stack' t') :
    t'.fieldsOf = t.fieldsOf ∧ t'.categories id = some (c.setMatch m.id (m₀.seatOne t i p)) := by
  subst hid
  unfold assign at h
  split at h
  · next hp =>
    obtain ⟨-, rfl⟩ := pure_ok.1 h
    have hseat : m₀.seatOne t i p = m₀ := by
      unfold MatchStore.seatOne
      rw [← hp, ← hsame, MatchStore.setPlayer_getPlayer, ite_self]
    rw [hseat, CategoryStore.setMatch_self hm]
    exact ⟨rfl, hc⟩
  · obtain ⟨a, t₁, ha, hrest⟩ := bind_ok.1 h
    obtain ⟨-, rfl⟩ := pure_ok.1 hrest
    obtain ⟨b, t₂, hb, hend⟩ := bind_ok.1 ha
    obtain ⟨-, rfl⟩ := pure_ok.1 hend
    exact SetMatchPlayerAction.redoImpl_own hc hm hb

/-- The actions seat the players of a match, as far as these exist. -/
theorem runAll_assignBoth_own (hid : m.combinedId.categoryId = id) (hc : t.categories id = some c)
    (hm : c.getMatch m.id = .ok m)
    (h : runAll (DrawAction.redo maxDrawDepth) (assignBoth m players) stack t = .ok stack' t') :
    t'.fieldsOf = t.fieldsOf ∧ t'.categories id = some (c.setMatch m.id (m.seat t players)) := by
  rw [assignBoth, runAll_append] at h
  obtain ⟨stack₁, t₁, hwhite, hblue⟩ := bind_ok.1 h
  obtain ⟨hfields₁, hc₁⟩ := runAll_assign_own hid hc hm rfl hwhite
  have hkept : (m.seatOne t .white players.1).getPlayer .blue = m.getPlayer .blue := by
    unfold MatchStore.seatOne
    split <;> rfl
  obtain ⟨hfields₂, hc₂⟩ :=
    runAll_assign_own hid hc₁ (CategoryStore.getMatch_setMatch hm _) hkept hblue
  refine ⟨hfields₂.trans hfields₁, ?_⟩
  have hseat : (m.seatOne t .white players.1).seatOne t₁ .blue players.2 = m.seat t players := by
    unfold MatchStore.seat MatchStore.seatOne
    rw [allowsPlayer_congr hfields₁]
  rw [hc₂, hseat, CategoryStore.setMatch_twice]

/-- Where the players are seated already, as far as they exist, the actions do nothing. -/
theorem runAll_assign_idle (h : t.allowsPlayer p = true → m.getPlayer i = p) (stack : List DrawAction) :
    ∃ stack', runAll (DrawAction.redo maxDrawDepth) (assign m i p) stack t = .ok stack' t := by
  unfold assign
  split
  · exact ⟨stack, rfl⟩
  · next hp =>
    have hforbidden : t.allowsPlayer p = false := Bool.eq_false_iff.2 fun hallowed => hp (h hallowed)
    have hredo : DrawAction.redo maxDrawDepth (.setMatchPlayer ⟨m.combinedId, i, p, none⟩) t =
        .ok (.setMatchPlayer ⟨m.combinedId, i, p, none⟩) t :=
      bind_ok.2 ⟨_, t, SetMatchPlayerAction.redoImpl_of_not_allowed hforbidden, rfl⟩
    exact ⟨_, bind_ok.2 ⟨_, t, hredo, rfl⟩⟩

theorem runAll_assignBoth_idle (h : m.seat t players = m) (stack : List DrawAction) :
    ∃ stack', runAll (DrawAction.redo maxDrawDepth) (assignBoth m players) stack t = .ok stack' t := by
  have hplayer := MatchStore.seat_eq_self.1 h
  rw [assignBoth, runAll_append]
  obtain ⟨stack₁, hwhite⟩ := runAll_assign_idle (hplayer .white) stack
  obtain ⟨stack₂, hblue⟩ := runAll_assign_idle (hplayer .blue) stack₁
  exact ⟨stack₂, bind_ok.2 ⟨stack₁, t, hwhite, hblue⟩⟩

theorem updateDraw_own_ok {run : DrawAction → Exec DrawAction} (hc : t.categories id = some c) :
    updateDraw run id stack t = .ok stack' t' ↔
      ∃ actions, c.drawSystem.updateCategory t c = .ok actions ∧ runAll run actions stack t = .ok stack' t' := by
  unfold updateDraw
  simp only [bind_ok, getCategory_ok, read_ok, hc, Option.some.injEq]
  constructor
  · rintro ⟨_, _, ⟨rfl, rfl⟩, actions, _, ⟨hactions, rfl⟩, hall⟩
    exact ⟨actions, hactions, hall⟩
  · rintro ⟨actions, hactions, hall⟩
    exact ⟨c, t, ⟨rfl, rfl⟩, actions, t, ⟨hactions, rfl⟩, hall⟩

/-! ### The update of a double pool -/

variable {x y z : MatchId}

/-- The categories differ in the three matches. -/
structure Reseats (c c' : CategoryStore) (x y z : MatchId) (first second final : MatchStore) : Prop where
  drawSystem : c'.drawSystem = c.drawSystem
  status : c'.status = c.status
  first : c'.getMatch x = .ok first
  second : c'.getMatch y = .ok second
  final : c'.getMatch z = .ok final
  other : ∀ w, w ≠ x → w ≠ y → w ≠ z → c'.getMatch w = c.getMatch w

theorem indexed_seat {w : MatchId} (hc : c.Indexed) (hm : c.getMatch w = .ok m) (t : TournamentStore)
    (players : Option PlayerId × Option PlayerId) : (c.setMatch w (m.seat t players)).Indexed := by
  refine hc.setMatch hm MatchStore.combinedId_seat ?_ ?_
  · simp only [MatchStore.seat, MatchStore.seatOne]
    split <;> split <;> rfl
  · simp only [MatchStore.seat, MatchStore.seatOne]
    split <;> split <;> rfl

theorem setMatch_kept {w : MatchId} (m : MatchStore) :
    (c.setMatch w m).drawSystem = c.drawSystem ∧ (c.setMatch w m).status = c.status := by
  unfold CategoryStore.setMatch
  split <;> exact ⟨rfl, rfl⟩

/-- Running the actions of a double pool seats the players that it wants, as far as these exist. -/
theorem updateDraw_own {t₁ : TournamentStore} (ht : t.Indexed) (hc : t.categories id = some c)
    (hdraw : c.drawSystem = .doublePool d) (hfour : 4 ≤ d.players.length) (hshaped : d.Shaped x y z)
    (h : updateDraw (DrawAction.redo maxDrawDepth) id stack t = .ok stack' t₁) :
    ∃ first second final s c₁, c.getMatch x = .ok first ∧ c.getMatch y = .ok second ∧
      c.getMatch z = .ok final ∧
      seats t c d first second = .ok s ∧ t₁.fieldsOf = t.fieldsOf ∧ t₁.categories id = some c₁ ∧
      Reseats c c₁ x y z (first.seat t s.first) (second.seat t s.second) (final.seat t s.final) := by
  obtain ⟨hxy, hxz, hyz⟩ := hshaped.distinct
  obtain ⟨hx, hy, hz⟩ := hshaped.matchFromEnd c
  obtain ⟨actions, hactions, hall⟩ := (updateDraw_own_ok hc).1 h
  rw [hdraw] at hactions
  obtain ⟨first, second, final, s, hfirst, hsecond, hfinal, hs, rfl⟩ := (updateCategory_ok hfour).1 hactions
  rw [hx] at hfirst
  rw [hy] at hsecond
  rw [hz] at hfinal
  have hindexed := ht.index id c hc
  have hids : ∀ {w : MatchId} {m : MatchStore}, c.getMatch w = .ok m → m.combinedId = ⟨id, w⟩ := by
    intro w m hm
    obtain ⟨hmem, rfl⟩ := hindexed.getMatch_ok.1 hm
    have hcategory := (hindexed.ids m hmem).trans (ht.category id c hc)
    exact congrArg (fun k => (⟨k, m.id⟩ : CombinedId)) hcategory
  have hx' : first.id = x := congrArg CombinedId.matchId (hids hfirst)
  have hy' : second.id = y := congrArg CombinedId.matchId (hids hsecond)
  have hz' : final.id = z := congrArg CombinedId.matchId (hids hfinal)
  rw [seatAll, runAll_append] at hall
  obtain ⟨stack₂, u₂, hsemis, hlast⟩ := bind_ok.1 hall
  rw [runAll_append] at hsemis
  obtain ⟨stack₁, u₁, hone, htwo⟩ := bind_ok.1 hsemis
  obtain ⟨hfields₁, hc₁⟩ := runAll_assignBoth_own (congrArg CombinedId.categoryId (hids hfirst)) hc
    (by rw [hx']; exact hfirst) hone
  rw [hx'] at hc₁
  have hindexed₁ := indexed_seat hindexed hfirst t s.first
  have hsecond₁ : (c.setMatch x (first.seat t s.first)).getMatch y = .ok second := by
    rw [CategoryStore.getMatch_setMatch_of_ne hindexed hxy.symm]
    exact hsecond
  obtain ⟨hfields₂, hc₂⟩ :=
    runAll_assignBoth_own (congrArg CombinedId.categoryId (hids hsecond)) hc₁ (by rw [hy']; exact hsecond₁) htwo
  rw [hy', MatchStore.seat_congr hfields₁] at hc₂
  have hindexed₂ := indexed_seat hindexed₁ hsecond₁ t s.second
  have hfinal₂ : ((c.setMatch x (first.seat t s.first)).setMatch y (second.seat t s.second)).getMatch z =
      .ok final := by
    rw [CategoryStore.getMatch_setMatch_of_ne hindexed₁ hyz.symm,
      CategoryStore.getMatch_setMatch_of_ne hindexed hxz.symm]
    exact hfinal
  obtain ⟨hfields₃, hc₃⟩ :=
    runAll_assignBoth_own (congrArg CombinedId.categoryId (hids hfinal)) hc₂ (by rw [hz']; exact hfinal₂) hlast
  rw [hz', MatchStore.seat_congr (hfields₂.trans hfields₁)] at hc₃
  refine ⟨first, second, final, s, _, hfirst, hsecond, hfinal, hs,
    hfields₃.trans (hfields₂.trans hfields₁), hc₃, ?_⟩
  have hkept₁ := setMatch_kept (c := c) (w := x) (first.seat t s.first)
  have hkept₂ := setMatch_kept (c := c.setMatch x (first.seat t s.first)) (w := y) (second.seat t s.second)
  have hkept₃ := setMatch_kept
    (c := (c.setMatch x (first.seat t s.first)).setMatch y (second.seat t s.second)) (w := z) (final.seat t s.final)
  refine ⟨hkept₃.1.trans (hkept₂.1.trans hkept₁.1), hkept₃.2.trans (hkept₂.2.trans hkept₁.2),
    ?_, ?_, ?_, ?_⟩
  · rw [CategoryStore.getMatch_setMatch_of_ne hindexed₂ hxz, CategoryStore.getMatch_setMatch_of_ne hindexed₁ hxy]
    exact CategoryStore.getMatch_setMatch hfirst _
  · rw [CategoryStore.getMatch_setMatch_of_ne hindexed₂ hyz]
    exact CategoryStore.getMatch_setMatch hsecond₁ _
  · exact CategoryStore.getMatch_setMatch hfinal₂ _
  · intro w hwx hwy hwz
    rw [CategoryStore.getMatch_setMatch_of_ne hindexed₂ hwz, CategoryStore.getMatch_setMatch_of_ne hindexed₁ hwy,
      CategoryStore.getMatch_setMatch_of_ne hindexed hwx]

theorem opponents_congr (h : t'.fieldsOf = t.fieldsOf) (first second : PlayerId) :
    opponents t' first second = opponents t first second := by
  unfold opponents
  exact getPlayer_fields_congr h first fun q q' hq => by rw [hq]

theorem finalists_congr (h : t'.fieldsOf = t.fieldsOf) (first second : MatchStore) :
    finalists t' first second = finalists t first second := by
  unfold finalists
  simp only [opponents_congr h]

theorem nextFinalists_congr (h : t'.fieldsOf = t.fieldsOf) (first second : MatchStore) :
    nextFinalists t' first second = nextFinalists t first second := by
  unfold nextFinalists
  rw [finalists_congr h]

theorem Reseats.getStatus {c' : CategoryStore} {first second final : MatchStore}
    (h : Reseats c c' x y z first second final)
    (type : MatchType) : c'.getStatus type = c.getStatus type := congrArg (·.get type) h.status

theorem Reseats.semiFinalists {c' : CategoryStore} {first second final : MatchStore}
    (h : Reseats c c' x y z first second final) (hshaped : d.Shaped x y z) (hfields : t'.fieldsOf = t.fieldsOf) :
    semiFinalists t' c' d = semiFinalists t c d := by
  have hpool : ∀ pool : Option PoolDrawSystem,
      (∀ p, pool = some p → x ∉ p.matchIds ∧ y ∉ p.matchIds ∧ z ∉ p.matchIds) →
      poolResults t' c' pool = poolResults t c pool := by
    intro pool hpool
    cases pool with
    | none => rfl
    | some p =>
      obtain ⟨hx, hy, hz⟩ := hpool p rfl
      have hne : ∀ {a w : MatchId}, a ∉ p.matchIds → w ∈ p.matchIds →
        w ≠ a := fun ha hw heq => ha (heq ▸ hw)
      exact PoolDrawSystem.getResults_congr hfields (fun w hw => h.other w (hne hx hw) (hne hy hw) (hne hz hw))
        (h.getStatus _)
  unfold DoublePoolDrawSystem.semiFinalists
  simp only [hpool _ hshaped.first, hpool _ hshaped.second, opponents_congr hfields]

theorem Reseats.seats {c' : CategoryStore} {first second final : MatchStore} (h : Reseats c c' x y z first second final)
    (hshaped : d.Shaped x y z) (hfields : t'.fieldsOf = t.fieldsOf) (first' second' : MatchStore) :
    seats t' c' d first' second' = seats t c d first' second' := by
  unfold DoublePoolDrawSystem.seats
  rw [h.getStatus, h.semiFinalists hshaped hfields, nextFinalists_congr hfields]

/-- Two pairs of opponents take the same seats: they are the same, or they are crossed and one of the two players is
to wear the blue judogi and the other one is not. -/
def SamePair (t : TournamentStore) (first second first' second' : PlayerId) : Prop :=
  first = first' ∧ second = second' ∨
    first = second' ∧ second = first' ∧ t.blueJudogiHint first ≠ t.blueJudogiHint second

/-- When the pools and both semifinals are over, the semifinals have winning sides by their scores, and the players whom
the results of the pools have for these sides make the same pair as the winners of the semifinals as they are stored. -/
def FinalStays (t : TournamentStore) (c : CategoryStore) (d : DoublePoolDrawSystem)
    (first second : MatchStore) : Prop :=
  (c.getStatus .elimination).isFinished = true → SemiFinalsOver first second →
    ∀ rows rows' a a' b b' w w', poolResults t c d.firstPool = .ok rows →
      poolResults t c d.secondPool = .ok rows' →
      rowPlayer rows 0 = .ok a → rowPlayer rows 1 = .ok a' → rowPlayer rows' 0 = .ok b →
      rowPlayer rows' 1 = .ok b' →
      PoolDrawSystem.winner first = .ok w → PoolDrawSystem.winner second = .ok w' →
      ∃ i j, first.scoredWinner = some i ∧ second.scoredWinner = some j ∧
        SamePair t (t.seatOf a b' i) (t.seatOf b a' j) w w'

/-- The finalists of the double pool stay so. -/
def FinalistsStay (t : TournamentStore) (c : CategoryStore) (d : DoublePoolDrawSystem) : Prop :=
  ∀ first second, matchFromEnd c d 3 = .ok first → matchFromEnd c d 2 = .ok second → FinalStays t c d first second

theorem semiFinalsOver_seat {first second : MatchStore} (players players' : Option PlayerId × Option PlayerId) :
    SemiFinalsOver (first.seat t players) (second.seat t players') ↔ SemiFinalsOver first second := by
  unfold SemiFinalsOver
  rw [MatchStore.getStatus_seat, MatchStore.getStatus_seat]

/-- A second update wants the same players for the semifinals. -/
theorem seats_seat {first second : MatchStore} {s s' : Seats} (hs : seats t c d first second = .ok s)
    (hs' : seats t c d (first.seat t s.first) (second.seat t s.second) = .ok s') :
    s'.first = s.first ∧ s'.second = s.second := by
  unfold seats at hs hs'
  split at hs
  · next hfinished =>
    rw [if_pos hfinished] at hs'
    obtain ⟨p, hp, hrest⟩ := except_bind_ok.1 hs
    obtain ⟨f, -, heq⟩ := except_bind_ok.1 hrest
    obtain rfl := except_pure_ok.1 heq
    obtain ⟨p', hp', hrest'⟩ := except_bind_ok.1 hs'
    obtain ⟨f', -, heq'⟩ := except_bind_ok.1 hrest'
    obtain rfl := except_pure_ok.1 heq'
    obtain rfl := Except.ok.inj (hp.symm.trans hp')
    exact ⟨rfl, rfl⟩
  · next hopen =>
    rw [if_neg hopen] at hs'
    cases hs
    cases hs'
    exact ⟨rfl, rfl⟩

theorem opponents_eq {a b : PlayerId} (ha : t.containsPlayer a = true) :
    opponents t a b = .ok (some (t.seatOf a b .white), some (t.seatOf a b .blue)) := by
  obtain ⟨q, hq⟩ := Option.isSome_iff_exists.1 ha
  have hhint : t.blueJudogiHint a = q.fields.blueJudogiHint := by
    rw [TournamentStore.blueJudogiHint, TournamentStore.fieldsOf, hq]
    rfl
  unfold opponents TournamentStore.getPlayer TournamentStore.seatOf
  rw [hq, hhint]
  show Except.ok (if q.fields.blueJudogiHint then _ else _) = _
  split <;> rfl

theorem pick_seatOf (a b : PlayerId) (i : PlayerIndex) :
    MatchStore.pick (some (t.seatOf a b .white), some (t.seatOf a b .blue)) i = some (t.seatOf a b i) := by
  cases i <;> rfl

theorem containsPlayer_seatOf {a b : PlayerId} (ha : t.containsPlayer a = true) (hb : t.containsPlayer b = true)
    (i : PlayerIndex) : t.containsPlayer (t.seatOf a b i) = true := by
  cases i with
  | white =>
    rw [TournamentStore.seatOf_white]
    split
    · exact hb
    · exact ha
  | blue =>
    rw [TournamentStore.seatOf_blue]
    split
    · exact ha
    · exact hb

/-- Two pairs of opponents have the same seats if and only if they are the same pair. -/
theorem samePair_iff {a b a' b' : PlayerId} :
    SamePair t a b a' b' ↔ ∀ i, t.seatOf a b i = t.seatOf a' b' i := by
  have hall : (∀ i, t.seatOf a b i = t.seatOf a' b' i) ↔
      t.seatOf a b .white = t.seatOf a' b' .white ∧ t.seatOf a b .blue = t.seatOf a' b' .blue := by
    refine ⟨fun h => ⟨h .white, h .blue⟩, fun h i => ?_⟩
    cases i with
    | white => exact h.1
    | blue => exact h.2
  rw [hall, TournamentStore.seatOf_white, TournamentStore.seatOf_white, TournamentStore.seatOf_blue,
    TournamentStore.seatOf_blue]
  unfold SamePair
  cases ha : t.blueJudogiHint a <;> cases ha' : t.blueJudogiHint a' <;>
    simp only [Bool.false_eq_true, if_true, if_false]
  · constructor
    · rintro (h | ⟨-, rfl, hne⟩)
      · exact h
      · exact absurd ha'.symm hne
    · exact .inl
  · constructor
    · rintro (⟨rfl, -⟩ | ⟨h, h', -⟩)
      · exact absurd (ha.symm.trans ha') (by decide)
      · exact ⟨h, h'⟩
    · rintro ⟨h, rfl⟩
      exact .inr ⟨h, rfl, by rw [ha']; decide⟩
  · constructor
    · rintro (⟨rfl, -⟩ | ⟨h, h', -⟩)
      · exact absurd (ha.symm.trans ha') (by decide)
      · exact ⟨h', h⟩
    · rintro ⟨rfl, h⟩
      exact .inr ⟨h, rfl, by rw [ha']; decide⟩
  · constructor
    · rintro (⟨h, h'⟩ | ⟨-, rfl, hne⟩)
      · exact ⟨h', h⟩
      · exact absurd ha'.symm hne
    · exact fun h => .inl ⟨h.2, h.1⟩

/-- The winner of a finished match between two players who have been seated. -/
theorem winner_seat {m : MatchStore} {a b w : PlayerId} (hfinished : m.getStatus = .finished)
    (ha : t.containsPlayer a = true) (hb : t.containsPlayer b = true) :
    PoolDrawSystem.winner (m.seat t (some (t.seatOf a b .white), some (t.seatOf a b .blue))) = .ok w ↔
      ∃ i, m.scoredWinner = some i ∧ t.seatOf a b i = w := by
  have hplayer : ∀ i, (m.seat t (some (t.seatOf a b .white), some (t.seatOf a b .blue))).getPlayer i =
      some (t.seatOf a b i) := by
    intro i
    rw [MatchStore.getPlayer_seat, pick_seatOf]
    exact if_pos (containsPlayer_seatOf ha hb i)
  have hstatus : (m.seat t (some (t.seatOf a b .white), some (t.seatOf a b .blue))).getStatus = .finished :=
    MatchStore.getStatus_seat.trans hfinished
  unfold PoolDrawSystem.winner
  rw [MatchStore.getWinner_eq (hplayer .white) (hplayer .blue) hstatus, MatchStore.scoredWinner_seat]
  cases m.scoredWinner with
  | none =>
    constructor
    · intro h
      cases h
    · rintro ⟨i, hi, -⟩
      cases hi
  | some i =>
    show optionalValue ((m.seat t _).getPlayer i) = .ok w ↔ _
    rw [hplayer i]
    simp [optionalValue]

theorem semiFinalists_ok {p : (Option PlayerId × Option PlayerId) × (Option PlayerId × Option PlayerId)} :
    semiFinalists t c d = .ok p ↔ ∃ rows rows' a a' b b', poolResults t c d.firstPool = .ok rows ∧
      poolResults t c d.secondPool = .ok rows' ∧ rowPlayer rows 0 = .ok a ∧ rowPlayer rows 1 = .ok a' ∧
      rowPlayer rows' 0 = .ok b ∧ rowPlayer rows' 1 = .ok b' ∧ opponents t a b' = .ok p.1 ∧
      opponents t b a' = .ok p.2 := by
  unfold semiFinalists
  simp only [except_bind_ok, except_pure_ok]
  constructor
  · rintro ⟨rows, hrows, rows', hrows', a, ha, b', hb', p₁, hp₁, b, hb, a', ha', p₂, hp₂, rfl⟩
    exact ⟨rows, rows', a, a', b, b', hrows, hrows', ha, ha', hb, hb', hp₁, hp₂⟩
  · rintro ⟨rows, rows', a, a', b, b', hrows, hrows', ha, ha', hb, hb', hp₁, hp₂⟩
    exact ⟨rows, hrows, rows', hrows', a, ha, b', hb', p.1, hp₁, b, hb, a', ha', p.2, hp₂, rfl⟩

theorem finalists_ok {first second : MatchStore} {f : Option PlayerId × Option PlayerId} :
    finalists t first second = .ok f ↔ ∃ w w', PoolDrawSystem.winner first = .ok w ∧
      PoolDrawSystem.winner second = .ok w' ∧ opponents t w w' = .ok f := by
  unfold finalists
  simp only [except_bind_ok]
  constructor
  · rintro ⟨w, hw, w', hw', hf⟩
    exact ⟨w, w', hw, hw', hf⟩
  · rintro ⟨w, w', hw, hw', hf⟩
    exact ⟨w, hw, w', hw', hf⟩

/-- The players of the category that an update of a double pool deals with exist. -/
structure Present (t : TournamentStore) (c : CategoryStore) (d : DoublePoolDrawSystem) : Prop where
  fighters : ∀ m ∈ c.matchList, ∀ p, m.Has p → t.containsPlayer p = true
  pools : ∀ p ∈ d.poolPlayers, t.containsPlayer p = true

namespace Present

variable (h : Present t c d)

include h

theorem row {pool : Option PoolDrawSystem} (hpool : ∀ p ∈ (pool.map (·.players)).getD [], p ∈ d.poolPlayers)
    {rows : ResultList} {i : ℕ} {p : PlayerId} (hrows : poolResults t c pool = .ok rows)
    (hp : rowPlayer rows i = .ok p) : t.containsPlayer p = true :=
  h.pools p (hpool p (rowPlayer_mem (poolResults_within hrows) hp))

theorem winner {m : MatchStore} (hm : m ∈ c.matchList) {w : PlayerId} (hw : PoolDrawSystem.winner m = .ok w) :
    t.containsPlayer w = true :=
  h.fighters m hm w (PoolDrawSystem.winner_mem hw)

end Present

/-- Once the semifinals are seated, the final goes to the players on their winning sides. -/
theorem finalists_seat {first second : MatchStore} {a a' b b' : PlayerId} (ha : t.containsPlayer a = true)
    (ha' : t.containsPlayer a' = true) (hb : t.containsPlayer b = true) (hb' : t.containsPlayer b' = true)
    (hover : SemiFinalsOver first second) {f : Option PlayerId × Option PlayerId} :
    finalists t (first.seat t (some (t.seatOf a b' .white), some (t.seatOf a b' .blue)))
        (second.seat t (some (t.seatOf b a' .white), some (t.seatOf b a' .blue))) = .ok f ↔
      ∃ i j, first.scoredWinner = some i ∧ second.scoredWinner = some j ∧
        opponents t (t.seatOf a b' i) (t.seatOf b a' j) = .ok f := by
  simp only [finalists_ok, winner_seat hover.1 ha hb', winner_seat hover.2 hb ha']
  constructor
  · rintro ⟨_, _, ⟨i, hi, rfl⟩, ⟨j, hj, rfl⟩, hf⟩
    exact ⟨i, j, hi, hj, hf⟩
  · rintro ⟨i, j, hi, hj, hf⟩
    exact ⟨_, _, ⟨i, hi, rfl⟩, ⟨j, hj, rfl⟩, hf⟩

/-- A second update wants the players for the final that the first one has seated, if these stay. -/
theorem seats_again {first second final : MatchStore} {s : Seats} (hpresent : Present t c d)
    (hfirst : first ∈ c.matchList) (hsecond : second ∈ c.matchList) (hs : seats t c d first second = .ok s) :
    (∃ s', seats t c d (first.seat t s.first) (second.seat t s.second) = .ok s' ∧
      (final.seat t s.final).seat t s'.final = final.seat t s.final) ↔
    FinalStays t c d first second := by
  unfold seats at hs ⊢
  split at hs
  · next hfinished =>
    simp only [if_pos hfinished]
    obtain ⟨p, hp, hrest⟩ := except_bind_ok.1 hs
    obtain ⟨f, hf, heq⟩ := except_bind_ok.1 hrest
    obtain rfl := except_pure_ok.1 heq
    unfold nextFinalists at hf ⊢
    simp only [semiFinalsOver_seat, hp, except_bind_ok, except_pure_ok, Except.ok.injEq]
    by_cases hover : SemiFinalsOver first second
    · rw [if_pos hover] at hf
      simp only [if_pos hover]
      obtain ⟨rows, rows', a, a', b, b', hrows, hrows', ha, ha', hb, hb', hp₁, hp₂⟩ := semiFinalists_ok.1 hp
      obtain ⟨w, w', hw, hw', hf⟩ := finalists_ok.1 hf
      have hfirstPool : ∀ p ∈ (d.firstPool.map (·.players)).getD [], p ∈ d.poolPlayers :=
        fun p hp => List.mem_append_left _ hp
      have hsecondPool : ∀ p ∈ (d.secondPool.map (·.players)).getD [], p ∈ d.poolPlayers :=
        fun p hp => List.mem_append_right _ hp
      have hexists := hpresent.row hfirstPool hrows ha
      have hexists' := hpresent.row hfirstPool hrows ha'
      have hexistsb := hpresent.row hsecondPool hrows' hb
      have hexistsb' := hpresent.row hsecondPool hrows' hb'
      have hexistsw := hpresent.winner hfirst hw
      have hexistsw' := hpresent.winner hsecond hw'
      rw [opponents_eq hexists] at hp₁
      rw [opponents_eq hexistsb] at hp₂
      rw [opponents_eq hexistsw] at hf
      rw [← Except.ok.inj hp₁, ← Except.ok.inj hp₂, ← Except.ok.inj hf]
      have hnew := fun i j => @opponents_eq t (t.seatOf a b' i) (t.seatOf b a' j)
        (containsPlayer_seatOf hexists hexistsb' i)
      have hnext : ∀ {f'}, finalists t (first.seat t (some (t.seatOf a b' .white), some (t.seatOf a b' .blue)))
          (second.seat t (some (t.seatOf b a' .white), some (t.seatOf b a' .blue))) = .ok f' ↔ _ :=
        finalists_seat hexists hexists' hexistsb hexistsb' hover
      have hseated : ∀ k, (final.seat t (some (t.seatOf w w' .white), some (t.seatOf w w' .blue))).getPlayer k =
          some (t.seatOf w w' k) := by
        intro k
        rw [MatchStore.getPlayer_seat, pick_seatOf]
        exact if_pos (containsPlayer_seatOf hexistsw hexistsw' k)
      constructor
      · rintro ⟨s', ⟨_, -, f', hf', rfl⟩, hseat⟩ - -
          rows₁ rows₁' a₁ a₁' b₁ b₁' w₁ w₁' h₁ h₂ h₃ h₄ h₅ h₆ h₇ h₈
        obtain rfl := Except.ok.inj (hrows.symm.trans h₁)
        obtain rfl := Except.ok.inj (hrows'.symm.trans h₂)
        obtain rfl := Except.ok.inj (ha.symm.trans h₃)
        obtain rfl := Except.ok.inj (ha'.symm.trans h₄)
        obtain rfl := Except.ok.inj (hb.symm.trans h₅)
        obtain rfl := Except.ok.inj (hb'.symm.trans h₆)
        obtain rfl := Except.ok.inj (hw.symm.trans h₇)
        obtain rfl := Except.ok.inj (hw'.symm.trans h₈)
        obtain ⟨i, j, hi, hj, hopponents⟩ := hnext.1 hf'
        rw [hnew] at hopponents
        rw [← Except.ok.inj hopponents] at hseat
        refine ⟨i, j, hi, hj, samePair_iff.2 fun k => ?_⟩
        have hkept := MatchStore.seat_eq_self.1 hseat k
        rw [hseated, pick_seatOf] at hkept
        exact (Option.some.inj (hkept (containsPlayer_seatOf (containsPlayer_seatOf hexists hexistsb' i)
          (containsPlayer_seatOf hexistsb hexists' j) k))).symm
      · intro hstay
        obtain ⟨i, j, hi, hj, hsame⟩ :=
          hstay hfinished hover rows rows' a a' b b' w w' hrows hrows' ha ha' hb hb' hw hw'
        refine ⟨⟨p.1, p.2, _⟩, ⟨p, rfl, _, hnext.2 ⟨i, j, hi, hj, hnew i j⟩, rfl⟩,
          MatchStore.seat_eq_self.2 fun k _ => ?_⟩
        rw [hseated, pick_seatOf, samePair_iff.1 hsame k]
    · rw [if_neg hover] at hf
      cases hf
      simp only [if_neg hover]
      exact ⟨fun _ _ h => absurd h hover, fun _ =>
        ⟨⟨p.1, p.2, none, none⟩, ⟨p, rfl, _, rfl, rfl⟩, MatchStore.seat_seat⟩⟩
  · next hopen =>
    simp only [if_neg hopen]
    cases hs
    exact ⟨fun _ h => absurd h hopen, fun _ => ⟨_, rfl, MatchStore.seat_seat⟩⟩

/-- After the first update of a double pool a second one leaves the tournament unchanged if and only if the
finalists stay. -/
theorem updateDraw_again {t₁ : TournamentStore} (ht : t.Indexed) (hc : t.categories id = some c)
    (hdraw : c.drawSystem = .doublePool d) (hfour : 4 ≤ d.players.length) (hshaped : d.Shaped x y z)
    (hpresent : Present t c d) (h : updateDraw (DrawAction.redo maxDrawDepth) id stack t = .ok stack' t₁) :
    (∃ stack₂, updateDraw (DrawAction.redo maxDrawDepth) id [] t₁ = .ok stack₂ t₁) ↔
    FinalistsStay t c d := by
  obtain ⟨first, second, final, s, c₁, hfirst, hsecond, hfinal, hs, hfields, hc₁, hreseats⟩ :=
    updateDraw_own ht hc hdraw hfour hshaped h
  obtain ⟨ht₁, -⟩ := course_indexed.updateDraw (fun a ha => course_indexed.drawAction_redo _ a ha) id stack ht h
  have hstay : FinalistsStay t c d ↔ FinalStays t c d first second := by
    obtain ⟨hx, hy, -⟩ := hshaped.matchFromEnd c
    unfold FinalistsStay
    rw [hx, hy]
    simp only [hfirst, hsecond, Except.ok.injEq]
    refine ⟨fun hall => hall _ _ rfl rfl, ?_⟩
    rintro hone _ _ rfl rfl
    exact hone
  rw [hstay, ← seats_again hpresent (CategoryStore.getMatch_mem hfirst) (CategoryStore.getMatch_mem hsecond) hs]
  have hdraw₁ := hreseats.drawSystem.trans hdraw
  constructor
  · rintro ⟨stack₂, h₂⟩
    obtain ⟨first₁, second₁, final₁, s', c₂, hfirst₁, hsecond₁, hfinal₁, hs', -, hc₂, hreseats'⟩ :=
      updateDraw_own ht₁ hc₁ hdraw₁ hfour hshaped h₂
    obtain rfl : c₁ = c₂ := Option.some.inj (hc₁.symm.trans hc₂)
    obtain rfl := Except.ok.inj (hreseats.first.symm.trans hfirst₁)
    obtain rfl := Except.ok.inj (hreseats.second.symm.trans hsecond₁)
    obtain rfl := Except.ok.inj (hreseats.final.symm.trans hfinal₁)
    rw [hreseats.seats hshaped hfields] at hs'
    refine ⟨s', hs', ?_⟩
    have hfinal' := Except.ok.inj (hreseats.final.symm.trans hreseats'.final)
    rw [MatchStore.seat_congr hfields] at hfinal'
    exact hfinal'.symm
  · rintro ⟨s', hs', hfinal'⟩
    obtain ⟨hsame, hsame'⟩ := seats_seat hs hs'
    rw [← hreseats.seats hshaped hfields] at hs'
    obtain ⟨hx, hy, hz⟩ := hshaped.matchFromEnd c₁
    obtain ⟨stack₁, hone⟩ := runAll_assignBoth_idle (t := t₁) (m := first.seat t s.first)
      (by rw [MatchStore.seat_congr hfields, MatchStore.seat_seat]) []
    obtain ⟨stack₂, htwo⟩ := runAll_assignBoth_idle (t := t₁) (m := second.seat t s.second)
      (by rw [MatchStore.seat_congr hfields, MatchStore.seat_seat]) stack₁
    obtain ⟨stack₃, hthree⟩ := runAll_assignBoth_idle (t := t₁) (m := final.seat t s.final)
      (by rw [MatchStore.seat_congr hfields, hfinal']) stack₂
    refine ⟨stack₃, (updateDraw_own_ok hc₁).2 ⟨seatAll (first.seat t s.first) (second.seat t s.second)
      (final.seat t s.final) s', ?_, ?_⟩⟩
    · rw [hdraw₁]
      exact (updateCategory_ok hfour).2 ⟨_, _, _, s', hx.trans hreseats.first, hy.trans hreseats.second,
        hz.trans hreseats.final, hs', rfl⟩
    · rw [seatAll, hsame, hsame', runAll_append]
      refine bind_ok.2 ⟨stack₂, t₁, ?_, hthree⟩
      rw [runAll_append]
      exact bind_ok.2 ⟨stack₁, t₁, hone, htwo⟩

end

end DoublePoolDrawSystem

/-! ### The update of the best of three -/

theorem CategoryStore.Rewrites.getMatch_of_ne {c c' : CategoryStore} {x y : MatchId} {m m' : MatchStore}
    {move : Option (MatchStatus × MatchStatus)} (h : c.Rewrites x m m' move c') (hc : c.Indexed) (hne : y ≠ x) :
    c'.getMatch y = c.getMatch y := by
  rw [← getMatch_setMatch_of_ne hc hne m']
  cases move with
  | none =>
    obtain rfl : c' = c.setMatch x m' := h.new
    rfl
  | some move =>
    obtain ⟨s, -, rfl⟩ := recount_ok.1 h.new
    rfl

namespace BestOfThreeDrawSystem

variable {t t₁ : TournamentStore} {id : CategoryId} {c : CategoryStore} {d : BestOfThreeDrawSystem} {x y z : MatchId}
  {stack stack' : List DrawAction}

theorem updateCategory_ok {actions : List DrawAction} (htwo : d.players.length = 2) (hids : d.matchIds = [x, y, z]) :
    updateCategory c d = .ok actions ↔ ∃ first second third bye, c.getMatch x = .ok first ∧
      c.getMatch y = .ok second ∧ c.getMatch z = .ok third ∧ wantsBye first second = .ok bye ∧
      actions = if third.bye = bye then [] else [.setMatchBye ⟨c.id, z⟩ bye .unwritten []] := by
  rw [updateCategory, if_neg (not_not.2 htwo), hids]
  simp only [except_bind_ok, except_pure_ok, eq_comm (a := actions)]
  constructor
  · rintro ⟨first, hfirst, second, hsecond, bye, hbye, third, hthird, hactions⟩
    exact ⟨first, second, third, bye, hfirst, hsecond, hthird, hbye, hactions⟩
  · rintro ⟨first, second, third, bye, hfirst, hsecond, hthird, hbye, hactions⟩
    exact ⟨first, hfirst, second, hsecond, bye, hbye, third, hthird, hactions⟩

/-- When the third match has the bye that is wanted an update does nothing. -/
theorem updateDraw_idle {run : DrawAction → Exec DrawAction} {first second third : MatchStore}
    (hc : t.categories id = some c) (hdraw : c.drawSystem = .bestOfThree d) (htwo : d.players.length = 2)
    (hids : d.matchIds = [x, y, z]) (hfirst : c.getMatch x = .ok first) (hsecond : c.getMatch y = .ok second)
    (hthird : c.getMatch z = .ok third) (hbye : wantsBye first second = .ok third.bye) :
    updateDraw run id stack t = .ok stack t := by
  refine (DoublePoolDrawSystem.updateDraw_own_ok hc).2 ⟨[], ?_, rfl⟩
  rw [hdraw]
  exact (updateCategory_ok htwo hids).2 ⟨first, second, third, third.bye, hfirst, hsecond, hthird, hbye,
    (if_pos rfl).symm⟩

/-- After the first update of the best of three a second one leaves the tournament unchanged. -/
theorem updateDraw_again (ht : t.Indexed) (hc : t.categories id = some c) (hdraw : c.drawSystem = .bestOfThree d)
    (htwo : d.players.length = 2) (hids : d.matchIds = [x, y, z]) (hdistinct : x ≠ y ∧ x ≠ z ∧ y ≠ z)
    (h : updateDraw (DrawAction.redo maxDrawDepth) id [] t = .ok stack t₁) :
    ∃ stack₂, updateDraw (DrawAction.redo maxDrawDepth) id [] t₁ = .ok stack₂ t₁ := by
  obtain ⟨actions, hactions, hall⟩ := (DoublePoolDrawSystem.updateDraw_own_ok hc).1 h
  rw [hdraw] at hactions
  obtain ⟨first, second, third, bye, hfirst, hsecond, hthird, hbye, rfl⟩ := (updateCategory_ok htwo hids).1 hactions
  have hid : c.id = id := ht.category id c hc
  subst hid
  split at hall
  · obtain ⟨-, rfl⟩ := pure_ok.1 hall
    exact ⟨_, h⟩
  · next hne =>
    obtain ⟨a, t₂, hrun, hrest⟩ := bind_ok.1 hall
    obtain ⟨-, rfl⟩ := pure_ok.1 hrest
    obtain ⟨p, t₃, hredo, hend⟩ := bind_ok.1 hrun
    obtain ⟨-, rfl⟩ := pure_ok.1 hend
    obtain ⟨-, rfl, -⟩ | ⟨m, m', c', u, -, heffect, hrewrites, hu, -, hfollow⟩ :=
      @MatchEventAction.redoWith_own _ _ _ ⟨c.id, z⟩ _ (.setMatchBye bye) _ _ _ ht hc hredo
    · exact ⟨_, h⟩
    · -- The category has the wanted bye now, and the other two matches are as they were.
      have hbye' : m'.bye = bye := by
        obtain ⟨_, -, heq⟩ := except_bind_ok.1 heffect
        rw [← except_pure_ok.1 heq]
      have hidle : ∀ {run : DrawAction → Exec DrawAction} {stack : List DrawAction},
          updateDraw run c.id stack u = .ok stack u := by
        intro run stack
        have hindexed := ht.index c.id c hc
        refine updateDraw_idle hu.2 (hrewrites.frame.2.1.trans hdraw) htwo hids
          ((hrewrites.getMatch_of_ne hindexed hdistinct.2.1).trans hfirst)
          ((hrewrites.getMatch_of_ne hindexed hdistinct.2.2).trans hsecond) hrewrites.getMatch ?_
        rw [hbye']
        exact hbye
      have hsame : t₃ = u := by
        split at hfollow
        · exact (EStateM.Result.ok.inj (hidle.symm.trans hfollow)).2.symm
        · exact hfollow.2
      rw [hsame]
      exact ⟨_, hidle⟩

end BestOfThreeDrawSystem

/-! ### A double pool of four -/

namespace DoublePoolDrawSystem

/-- An event on a match of the category. -/
def fight (x : MatchId) (kind : MatchEventKind) : Session.Event :=
  .redo (.matchEvent ⟨⟨⟨1⟩, x⟩, kind, .unwritten, []⟩)

/-- A category of four players is drawn as a double pool, and white wins the two matches of the pools and both
semifinals. -/
def semiFinalsWon : List Session.Event :=
  [.redo (.addPlayers ⟨[(⟨1⟩, {}), (⟨2⟩, {}), (⟨3⟩, {}), (⟨4⟩, {})]⟩),
    .redo (.changeDrawSystemPreferenceIdentifier ⟨1, .doublePool⟩),
    .redo (.addCategoryWithPlayers
      { id := ⟨1⟩, name := "", ruleset := .twentyEighteen, drawSystem := .doublePool,
        playerIds := [⟨1⟩, ⟨2⟩, ⟨3⟩, ⟨4⟩], seed := 0 })] ++
  [⟨1656774023⟩, ⟨2095368171⟩, ⟨2357136044⟩, ⟨2546248239⟩].flatMap fun x =>
    [fight x (.resumeMatch 0), fight x (.awardIppon .white 1 false)]

theorem constructed_semiFinalsWon {s : Session} (h : Runs.run Session.next semiFinalsWon {} = some s) :
    s.Constructed := Session.constructed_of_run
      (by simp [semiFinalsWon, fight, Session.Event.Constructed, Action.Constructed]) h

end DoublePoolDrawSystem

end JudoAssistant
