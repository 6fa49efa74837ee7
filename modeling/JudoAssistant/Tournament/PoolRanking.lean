import Mathlib.Tactic.Linarith
import Mathlib.Tactic.NormNum
import Mathlib.Tactic.Ring
import JudoAssistant.Lib.Ranking
import JudoAssistant.Lib.Effect
import JudoAssistant.Tournament.DrawSystems

/-!
# The ranking of a pool

`PoolDrawSystem::getResults` ranks the players of a pool in three passes, by all wins, by the wins within a
tied group and by the remaining criteria.  Its result is the list of the players in the order of their
standings, whatever sort is used and in whatever order the players are kept.
-/

namespace JudoAssistant

namespace PoolDrawSystem

open Ranking

/-! ### The passes with any sort -/

section

variable (sort : (PlayerId → PlayerId → Bool) → List PlayerId → List PlayerId) (t : TournamentStore)
  (c : CategoryStore) (d : PoolDrawSystem)

/-- `orderByWinsWithinGroup` -/
def orderByWinsWithinGroupWith (start : ℕ) (rows : ResultList) : Except Failure ResultList :=
  if rows.length < 2 then .ok rows
  else do
    let wins ← mutualWins c (rows.map (·.1)) d.matchIds
    match sort (fun a b => decide (wins b < wins a)) (rows.map (·.1)) with
    | [] => return []
    | first :: players =>
      return (first, some (start + 1)) :: rankBy wins (start + 2) first (start + 1) players

/-- `orderByRemainingCriteria` -/
def orderByRemainingCriteriaWith (start : ℕ) (rows : ResultList) : Except Failure ResultList :=
  if rows.length < 2 then .ok rows
  else do
    let weights ← playerWeights t (rows.map (·.1))
    let totals ← winTotals c d.matchIds
    let players := sort (remainingLt totals weights) (rows.map (·.1))
    return players.zipIdx.map fun (player, i) => (player, some (start + i + 1))

/-- `getResults` -/
def getResultsWith : Except Failure ResultList :=
  if d.players.length ≤ 1 then .ok []
  else if !(c.getStatus .elimination).isFinished then .ok []
  else do
    let rows := d.players.zipIdx.map fun (player, i) => (player, some (i + 1))
    let rows ← orderByWinsWithinGroupWith sort c d 0 rows
    let rows ← orderTies (orderByWinsWithinGroupWith sort c d) 0 (rows.take 1) (rows.drop 1)
    orderTies (orderByRemainingCriteriaWith sort t c d) 0 (rows.take 1) (rows.drop 1)

theorem getResultsWith_stdSort : getResultsWith stdSort t c d = getResults t c d := rfl

end

theorem lawfulSort_stdSort : LawfulSort (α := PlayerId) stdSort := by
  refine ⟨fun _ l _ => perm_stdSort l, fun lt l hlt => pairwise_stdSort ?_ ?_ ?_ l⟩
  · exact fun x y z hxy hyz => hlt.negTrans z y x hyz hxy
  · exact fun x y hxy => hlt.asymm x y hxy
  · exact fun x y hxy => hxy

/-! ### What the passes rank by -/

/-- What counts of a finished match. -/
structure Bout where
  white : PlayerId
  blue : PlayerId
  winner : PlayerId
  ippon : Bool
  duration : ℤ
  deriving DecidableEq, Repr

/-- The result of a match between two players that has a winner. -/
def bout (m : MatchStore) : Option Bout :=
  match m.getPlayer .white, m.getPlayer .blue, RulesetIdentifier.getWinner m with
  | some white, some blue, .ok (some i) => some {
      white := white
      blue := blue
      winner := if i = .white then white else blue
      ippon := (m.getScore i).ippon
      duration := m.state.duration }
  | _, _, _ => none

/-- The results of the matches of a pool. -/
def bouts (c : CategoryStore) (ids : List MatchId) : List Bout :=
  ids.filterMap fun id => (c.getMatch id).toOption.bind bout

section

variable (bs : List Bout) (players : Finset PlayerId)

def wins (p : PlayerId) : ℕ := bs.countP fun b => b.winner = p

/-- The wins over members of a group in matches between members of it. -/
def winsWithin (group : Finset PlayerId) (p : PlayerId) : ℕ :=
  bs.countP fun b => b.winner = p ∧ b.white ∈ group ∧ b.blue ∈ group

theorem winsWithin_cons (b : Bout) (bs : List Bout) (group : Finset PlayerId) (p : PlayerId) :
    winsWithin (b :: bs) group p =
      winsWithin bs group p + if b.winner = p ∧ b.white ∈ group ∧ b.blue ∈ group then 1 else 0 := by
  rw [winsWithin, List.countP_cons]
  simp only [decide_eq_true_eq]
  rfl

/-- The players with as many wins as a player. -/
def tiedOnWins (p : PlayerId) : Finset PlayerId := players.filter fun q => wins bs q = wins bs p

/-- The wins of a player within the group that is tied with him on all wins. -/
def winsWithinTied (p : PlayerId) : ℕ := winsWithin bs (tiedOnWins bs players p) p

/-- The players who are still tied with a player after the wins within the group. -/
def stillTied (p : PlayerId) : Finset PlayerId :=
  (tiedOnWins bs players p).filter fun q => winsWithinTied bs players q = winsWithinTied bs players p

def ipponWins (p : PlayerId) : ℕ := bs.countP fun b => b.winner = p ∧ b.ippon = true

def otherWins (p : PlayerId) : ℕ := bs.countP fun b => b.winner = p ∧ b.ippon = false

/-- The time of the matches that a player has won. -/
def wonDuration (p : PlayerId) : ℤ := ((bs.filter fun b => b.winner = p).map (·.duration)).sum

/-- The weight of a player, if all members of his group have one; else weights do not count. -/
def comparedWeight (weight : PlayerId → Option ℚ) (group : Finset PlayerId) (p : PlayerId) : ℚ :=
  if ∀ q ∈ group, (weight q).isSome = true then (weight p).getD 0 else 0

/-- What the last pass compares in a tied group: more wins by ippon, more other wins, the shorter time, the
lower weight, the smaller id. -/
def remaining (weight : PlayerId → Option ℚ) (group : Finset PlayerId) (p : PlayerId) :
    ℕᵒᵈ ×ₗ ℕᵒᵈ ×ₗ ℤ ×ₗ ℚ ×ₗ ℕ :=
  toLex (OrderDual.toDual (ipponWins bs p), toLex (OrderDual.toDual (otherWins bs p), toLex (wonDuration bs p,
    toLex (comparedWeight weight group p, p.value))))

/-- The standing of a player.  A smaller one is better. -/
def standing (weight : PlayerId → Option ℚ) (p : PlayerId) :
    (ℕᵒᵈ ×ₗ ℕᵒᵈ) ×ₗ (ℕᵒᵈ ×ₗ ℕᵒᵈ ×ₗ ℤ ×ₗ ℚ ×ₗ ℕ) :=
  toLex (toLex (OrderDual.toDual (wins bs p), OrderDual.toDual (winsWithinTied bs players p)),
    remaining bs weight (stillTied bs players p) p)

end

/-! ### Rows by groups -/

/-- The rows of a tied group share the rank of its first place. -/
def tiedRows (start : ℕ) (g : List PlayerId) : ResultList := g.map fun p => (p, some (start + 1))

theorem tiedRows_nil (start : ℕ) : tiedRows start [] = [] := rfl

theorem tiedRows_cons (start : ℕ) (p : PlayerId) (g : List PlayerId) :
    tiedRows start (p :: g) = (p, some (start + 1)) :: tiedRows start g := rfl

/-- The rows of groups, one after the other. -/
def groupRows : ℕ → List (List PlayerId) → ResultList
  | _, [] => []
  | start, g :: gs => tiedRows start g ++ groupRows (start + g.length) gs

theorem groupRows_append (start : ℕ) (gs gs' : List (List PlayerId)) :
    groupRows start (gs ++ gs') = groupRows start gs ++ groupRows (start + gs.flatten.length) gs' := by
  induction gs generalizing start with
  | nil => rfl
  | cons g gs ih =>
    rw [List.cons_append, groupRows, groupRows, ih, List.append_assoc, List.flatten_cons, List.length_append,
      Nat.add_assoc]

/-- Groups of one have the places as their ranks. -/
theorem groupRows_singles (start : ℕ) (l : List PlayerId) :
    groupRows start (l.map ([·])) = (l.zipIdx start).map fun (player, i) => (player, some (i + 1)) := by
  induction l generalizing start with
  | nil => rfl
  | cons p l ih =>
    rw [List.map_cons, groupRows, List.zipIdx_cons, List.map_cons, ih]
    rfl

/-- `rankBy` gives equal ranks to the players of a run. -/
theorem tiedRows_append_rankBy {wins : PlayerId → ℕ} {start : ℕ} {g : List PlayerId} {prev : PlayerId}
    (l : List PlayerId) : tiedRows start g ++ rankBy wins (start + g.length + 1) prev (start + 1) l =
      groupRows start (runsFrom (fun p => OrderDual.toDual (wins p)) prev g l) := by
  induction l generalizing start g prev with
  | nil => simp [rankBy, runsFrom, groupRows]
  | cons p l ih =>
    rw [rankBy, runsFrom]
    simp only [OrderDual.toDual_inj]
    split
    · rw [← ih, List.length_append, List.length_singleton, tiedRows, tiedRows, List.map_append, List.append_assoc]
      rfl
    · rw [groupRows, ← ih]
      rfl

/-- The loop over the tied groups takes the groups one by one. -/
def orderGroups (order : ℕ → ResultList → Except Failure ResultList) :
    ℕ → List (List PlayerId) → Except Failure ResultList
  | _, [] => .ok []
  | start, g :: gs => do
    let ordered ← order start (tiedRows start g)
    let rest ← orderGroups order (start + g.length) gs
    return ordered ++ rest

theorem getLast?_tiedRows {start : ℕ} {g : List PlayerId} (hne : g ≠ []) :
    (tiedRows start g).getLast?.map (·.2) = some (some (start + 1)) := by
  rw [tiedRows, List.getLast?_map, List.getLast?_eq_some_getLast hne]
  rfl

theorem length_tiedRows (start : ℕ) (g : List PlayerId) : (tiedRows start g).length = g.length := List.length_map _

/-- Rows that share the rank of the group join it. -/
theorem orderTies_tiedRows {order : ℕ → ResultList → Except Failure ResultList} {start : ℕ} {g : List PlayerId}
    (hne : g ≠ []) (g' : List PlayerId) (rows : ResultList) :
    orderTies order start (tiedRows start g) (tiedRows start g' ++ rows) =
      orderTies order start (tiedRows start (g ++ g')) rows := by
  induction g' generalizing g with
  | nil => rw [List.append_nil, tiedRows_nil, List.nil_append]
  | cons p g' ih =>
    have hlast : (tiedRows start g).getLast?.map (·.2) = some (p, some (start + 1)).2 := getLast?_tiedRows hne
    have hjoin : tiedRows start g ++ [(p, some (start + 1))] = tiedRows start (g ++ [p]) := by
      rw [tiedRows, tiedRows, List.map_append]
      rfl
    rw [tiedRows_cons, List.cons_append, orderTies, if_pos hlast, hjoin]
    refine (ih (by simp)).trans ?_
    rw [List.append_assoc, List.singleton_append]

theorem orderTies_groupRows {order : ℕ → ResultList → Except Failure ResultList} {start : ℕ} {g : List PlayerId}
    {gs : List (List PlayerId)} (hne : g ≠ []) (hgs : ∀ g' ∈ gs, g' ≠ []) :
    orderTies order start (tiedRows start g) (groupRows (start + g.length) gs) = orderGroups order start (g :: gs) := by
  induction gs generalizing start g with
  | nil =>
    rw [groupRows, orderTies, orderGroups, orderGroups]
    cases order start (tiedRows start g) with
    | error e => rfl
    | ok ordered => exact congrArg Except.ok (List.append_nil ordered).symm
  | cons g' gs ih =>
    obtain ⟨p, g', rfl⟩ := List.exists_cons_of_ne_nil (hgs g' List.mem_cons_self)
    -- The next rank is that of the next place.
    have hlast : (tiedRows start g).getLast?.map (·.2) ≠ some (p, some (start + g.length + 1)).2 := by
      rw [getLast?_tiedRows hne]
      have hlength := List.length_pos_of_ne_nil hne
      simp only [ne_eq, Option.some.injEq]
      omega
    rw [groupRows, tiedRows_cons, List.cons_append, orderTies, if_neg hlast, orderGroups, length_tiedRows]
    refine congrArg _ (funext fun ordered => ?_)
    have hrest : orderTies order (start + g.length) [(p, some (start + g.length + 1))]
        (tiedRows (start + g.length) g' ++ groupRows (start + g.length + (p :: g').length) gs) =
          orderGroups order (start + g.length) ((p :: g') :: gs) := by
      refine (orderTies_tiedRows (List.cons_ne_nil p []) g' _).trans ?_
      exact ih (List.cons_ne_nil _ _) fun g' hg' => hgs g' (List.mem_cons_of_mem _ hg')
    exact congrArg (· >>= _) hrest

/-- A pass over the rows of groups that cuts every group. -/
theorem orderTies_eq {order : ℕ → ResultList → Except Failure ResultList}
    {f : List PlayerId → List (List PlayerId)}
    {gs : List (List PlayerId)} (hne : gs ≠ []) (hgs : ∀ g ∈ gs, g ≠ [])
    (hf : ∀ g ∈ gs, (f g).flatten.length = g.length ∧
      ∀ start, order start (tiedRows start g) = .ok (groupRows start (f g))) :
    orderTies order 0 ((groupRows 0 gs).take 1) ((groupRows 0 gs).drop 1) = .ok (groupRows 0 (gs.flatMap f)) := by
  have hgroups : ∀ (gs : List (List PlayerId)) (start : ℕ), (∀ g ∈ gs, (f g).flatten.length = g.length ∧
      ∀ start, order start (tiedRows start g) = .ok (groupRows start (f g))) →
      orderGroups order start gs = .ok (groupRows start (gs.flatMap f)) := by
    intro gs
    induction gs with
    | nil => exact fun _ _ => rfl
    | cons g gs ih =>
      intro start hf
      obtain ⟨hlength, horder⟩ := hf g List.mem_cons_self
      rw [orderGroups, horder, ih _ fun g' hg' => hf g' (List.mem_cons_of_mem _ hg'), List.flatMap_cons,
        groupRows_append, hlength]
      rfl
  obtain ⟨g, gs, rfl⟩ := List.exists_cons_of_ne_nil hne
  obtain ⟨p, g, rfl⟩ := List.exists_cons_of_ne_nil (hgs g List.mem_cons_self)
  rw [← hgroups _ 0 hf]
  refine (@orderTies_tiedRows _ 0 _ (List.cons_ne_nil p []) g (groupRows (0 + (p :: g).length) gs)).trans ?_
  exact orderTies_groupRows (List.cons_ne_nil _ _) fun g' hg' => hgs g' (List.mem_cons_of_mem _ hg')

/-! ### What the passes count -/

/-- A match has been fought to a result. -/
def Fought (c : CategoryStore) (id : MatchId) (b : Bout) : Prop :=
  ∃ m i, c.getMatch id = .ok m ∧ RulesetIdentifier.getWinner m = .ok (some i) ∧
    m.getPlayer .white = some b.white ∧ m.getPlayer .blue = some b.blue ∧ m.getPlayer i = some b.winner ∧
    (m.getScore i).ippon = b.ippon ∧ m.state.duration = b.duration ∧ bout m = some b

theorem bouts_cons {c : CategoryStore} {id : MatchId} {b : Bout} (h : Fought c id b) (ids : List MatchId) :
    bouts c (id :: ids) = b :: bouts c ids := by
  obtain ⟨m, -, hm, -, -, -, -, -, -, hb⟩ := h
  refine List.filterMap_cons_some ?_
  rw [hm]
  exact hb

variable {t : TournamentStore} {c : CategoryStore} {ids : List MatchId}

theorem mutualWins_ok (hids : ∀ id ∈ ids, ∃ b, Fought c id b) (g : List PlayerId) :
    mutualWins c g ids = .ok (winsWithin (bouts c ids) g.toFinset) := by
  induction ids with
  | nil => rfl
  | cons id ids ih =>
    obtain ⟨b, hb⟩ := hids id List.mem_cons_self
    rw [bouts_cons hb]
    obtain ⟨m, i, hm, hwinner, hwhite, hblue, hplayer, -⟩ := hb
    have hrest := ih fun id hid => hids id (List.mem_cons_of_mem _ hid)
    have hwin : winner m = .ok b.winner := by
      rw [winner, hwinner]
      show optionalValue (m.getPlayer i) = _
      rw [hplayer]
      rfl
    rw [mutualWins, hm, hrest]
    show (do
      let white ← optionalValue (m.getPlayer .white)
      let blue ← optionalValue (m.getPlayer .blue)
      if white ∈ g ∧ blue ∈ g then do
        let player ← winner m
        let wins ← Except.ok (winsWithin (bouts c ids) g.toFinset)
        return Function.update wins player (wins player + 1)
      else Except.ok (winsWithin (bouts c ids) g.toFinset) : Except Failure (PlayerId → ℕ)) = _
    rw [hwhite, hblue, hwin]
    show (if b.white ∈ g ∧ b.blue ∈ g then _ else _) = _
    split
    · next hmutual =>
      refine congrArg Except.ok (funext fun p => ?_)
      rw [winsWithin_cons]
      by_cases hp : b.winner = p
      · rw [← hp, Function.update_self,
          if_pos ⟨rfl, List.mem_toFinset.2 hmutual.1, List.mem_toFinset.2 hmutual.2⟩]
      · rw [Function.update_of_ne (Ne.symm hp), if_neg fun h => hp h.1]
        rfl
    · next hmutual =>
      refine congrArg Except.ok (funext fun p => ?_)
      rw [winsWithin_cons, if_neg]
      · rfl
      · exact fun h => hmutual ⟨List.mem_toFinset.1 h.2.1, List.mem_toFinset.1 h.2.2⟩

/-- The totals of the won matches. -/
def totals (bs : List Bout) (p : PlayerId) : WinTotals where
  winDuration := wonDuration bs p
  ippons := ipponWins bs p
  wazaris := otherWins bs p

theorem winTotals_ok (hids : ∀ id ∈ ids, ∃ b, Fought c id b) : winTotals c ids = .ok (totals (bouts c ids)) := by
  induction ids with
  | nil => rfl
  | cons id ids ih =>
    obtain ⟨b, hb⟩ := hids id List.mem_cons_self
    rw [bouts_cons hb]
    obtain ⟨m, i, hm, hwinner, -, -, hplayer, hippon, hduration, -⟩ := hb
    have hrest := ih fun id hid => hids id (List.mem_cons_of_mem _ hid)
    rw [winTotals, hm, hrest]
    show (do
      let index ← RulesetIdentifier.getWinner m
      let index ← optionalValue index
      let player ← optionalValue (m.getPlayer index)
      return Function.update (totals (bouts c ids)) player {
        winDuration := (totals (bouts c ids) player).winDuration + m.state.duration
        ippons := if (m.getScore index).ippon then (totals (bouts c ids) player).ippons + 1
          else (totals (bouts c ids) player).ippons
        wazaris := if (m.getScore index).ippon then (totals (bouts c ids) player).wazaris
          else (totals (bouts c ids) player).wazaris + 1 } : Except Failure (PlayerId → WinTotals)) = _
    rw [hwinner]
    show (do
      let player ← optionalValue (m.getPlayer i)
      return _ : Except Failure (PlayerId → WinTotals)) = _
    rw [hplayer, hippon, hduration]
    refine congrArg Except.ok (funext fun p => ?_)
    by_cases hp : b.winner = p
    · rw [← hp, Function.update_self]
      simp only [totals, wonDuration, ipponWins, otherWins, List.countP_cons, decide_true,
        List.filter_cons_of_pos, List.map_cons, List.sum_cons, true_and]
      cases b.ippon with
      | true => simp [add_comm]
      | false => simp [add_comm]
    · rw [Function.update_of_ne (Ne.symm hp)]
      simp [totals, wonDuration, ipponWins, otherWins, hp]

/-- The weight of a player of the tournament. -/
def weightOf (t : TournamentStore) (p : PlayerId) : Option ℚ := (t.players p).bind (·.fields.weight)

/-- The weights that are compared within a list of players. -/
def groupWeights (t : TournamentStore) (g : List PlayerId) : Option (PlayerId → ℚ) :=
  if ∀ q ∈ g, (weightOf t q).isSome = true then some fun p => if p ∈ g then (weightOf t p).getD 0 else 0 else none

theorem groupWeights_cons_none {p : PlayerId} (hp : weightOf t p = none) (g : List PlayerId) :
    groupWeights t (p :: g) = none := by
  refine if_neg fun hall => ?_
  have hsome := hall p List.mem_cons_self
  rw [hp] at hsome
  cases hsome

theorem groupWeights_cons_some {p : PlayerId} {w : ℚ} (hp : weightOf t p = some w) (g : List PlayerId) :
    groupWeights t (p :: g) = (groupWeights t g).map fun weights => Function.update weights p w := by
  have hiff : (∀ q ∈ p :: g, (weightOf t q).isSome = true) ↔ ∀ q ∈ g, (weightOf t q).isSome = true := by
    simp [hp]
  unfold groupWeights
  by_cases hall : ∀ q ∈ g, (weightOf t q).isSome = true
  · rw [if_pos hall, if_pos (hiff.2 hall)]
    refine congrArg some (funext fun q => ?_)
    by_cases hq : q = p
    · subst hq
      simp [hp]
    · simp [hq]
  · rw [if_neg hall, if_neg fun h => hall (hiff.1 h)]
    rfl

theorem playerWeights_ok {g : List PlayerId} (hg : ∀ p ∈ g, t.containsPlayer p = true) :
    playerWeights t g = .ok (groupWeights t g) := by
  induction g with
  | nil => simp [playerWeights, groupWeights]
  | cons p g ih =>
    have hrest := ih fun q hq => hg q (List.mem_cons_of_mem _ hq)
    obtain ⟨player, hplayer⟩ := Option.isSome_iff_exists.1 (hg p List.mem_cons_self)
    have hget : t.getPlayer p = .ok player := by simp only [TournamentStore.getPlayer, hplayer]
    have hweight : weightOf t p = player.fields.weight := by simp only [weightOf, hplayer, Option.bind_some]
    simp only [playerWeights, hget, hrest]
    cases hw : player.fields.weight with
    | none =>
      rw [groupWeights_cons_none (hweight.trans hw)]
      rw [Effect.except_bind_ok]
      exact ⟨player, rfl, by rw [hw]; rfl⟩
    | some w =>
      rw [groupWeights_cons_some (hweight.trans hw)]
      rw [Effect.except_bind_ok]
      exact ⟨player, rfl, by rw [hw]; rfl⟩

/-! ### The passes -/

theorem eq_singleton_of_length {g : List PlayerId} (hne : g ≠ []) (hlength : g.length < 2) : ∃ p, g = [p] := by
  refine List.length_eq_one_iff.1 ?_
  have hpos := List.length_pos_of_ne_nil hne
  omega

section

variable (sort : (PlayerId → PlayerId → Bool) → List PlayerId → List PlayerId)

/-- The groups that `orderByWinsWithinGroup` makes of a group. -/
def groupsByWins (bs : List Bout) (g : List PlayerId) : List (List PlayerId) :=
  if g.length < 2 then [g]
  else match sort (fun p q => decide (winsWithin bs g.toFinset q < winsWithin bs g.toFinset p)) g with
    | [] => []
    | p :: l => runsFrom (fun p => OrderDual.toDual (winsWithin bs g.toFinset p)) p [p] l

theorem orderByWins_ok {d : PoolDrawSystem} (hids : ∀ id ∈ d.matchIds, ∃ b, Fought c id b) {rows : ResultList}
    (hlength : ¬rows.length < 2) (start : ℕ) : orderByWinsWithinGroupWith sort c d start rows =
      .ok (groupRows start (groupsByWins sort (bouts c d.matchIds) (rows.map (·.1)))) := by
  have hlength' : ¬(rows.map (·.1)).length < 2 := by rwa [List.length_map]
  rw [orderByWinsWithinGroupWith, if_neg hlength, mutualWins_ok hids, groupsByWins, if_neg hlength']
  show (match sort _ (rows.map (·.1)) with
    | [] => _
    | first :: players => _) = _
  split
  · rfl
  · next first players _ =>
    exact congrArg Except.ok (@tiedRows_append_rankBy _ start [first] _ players)

theorem map_fst_tiedRows (start : ℕ) (g : List PlayerId) : (tiedRows start g).map (·.1) = g :=
  (List.map_map ..).trans (List.map_id g)

theorem orderByWins_tiedRows {d : PoolDrawSystem} (hids : ∀ id ∈ d.matchIds, ∃ b, Fought c id b)
    (g : List PlayerId) (start : ℕ) : orderByWinsWithinGroupWith sort c d start (tiedRows start g) =
      .ok (groupRows start (groupsByWins sort (bouts c d.matchIds) g)) := by
  by_cases hlength : g.length < 2
  · rw [orderByWinsWithinGroupWith, if_pos (by rwa [length_tiedRows]), groupsByWins, if_pos hlength]
    exact congrArg Except.ok (List.append_nil _).symm
  · rw [orderByWins_ok sort hids (by rwa [length_tiedRows]), map_fst_tiedRows]

/-- The order in which `orderByRemainingCriteria` puts a group. -/
def rankRemaining (t : TournamentStore) (bs : List Bout) (g : List PlayerId) : List PlayerId :=
  if g.length < 2 then g else sort (remainingLt (totals bs) (groupWeights t g)) g

theorem orderByRemaining_tiedRows {d : PoolDrawSystem} (hids : ∀ id ∈ d.matchIds, ∃ b, Fought c id b)
    {g : List PlayerId} (hne : g ≠ []) (hg : ∀ p ∈ g, t.containsPlayer p = true) (start : ℕ) :
    orderByRemainingCriteriaWith sort t c d start (tiedRows start g) =
      .ok (groupRows start ((rankRemaining sort t (bouts c d.matchIds) g).map ([·]))) := by
  by_cases hlength : g.length < 2
  · rw [orderByRemainingCriteriaWith, if_pos (by rwa [length_tiedRows]), rankRemaining, if_pos hlength]
    obtain ⟨p, rfl⟩ := eq_singleton_of_length hne hlength
    rfl
  · rw [orderByRemainingCriteriaWith, if_neg (by rwa [length_tiedRows]), map_fst_tiedRows, playerWeights_ok hg,
      winTotals_ok hids, rankRemaining, if_neg hlength, groupRows_singles, List.zipIdx_eq_map_add, List.map_map]
    refine congrArg Except.ok (List.map_congr_left fun x _ => ?_)
    simp only [Function.comp_apply, Nat.add_comm start x.2]

end

/-- What `orderByRemainingCriteria` compares, with the weights that it has found. -/
def remainingKey (bs : List Bout) (weights : Option (PlayerId → ℚ)) (p : PlayerId) :
    ℕᵒᵈ ×ₗ ℕᵒᵈ ×ₗ ℤ ×ₗ ℚ ×ₗ ℕ :=
  toLex (OrderDual.toDual (ipponWins bs p), toLex (OrderDual.toDual (otherWins bs p), toLex (wonDuration bs p,
    toLex (weights.elim 0 (· p), p.value))))

/-- Hundredths that differ by less than half a hundredth are equal. -/
theorem close_iff_eq {x y : ℚ} (hx : ∃ n : ℤ, x = n / 100) (hy : ∃ n : ℤ, y = n / 100) :
    x - y < 5 / 1000 ∧ y - x < 5 / 1000 ↔ x = y := by
  obtain ⟨n, rfl⟩ := hx
  obtain ⟨k, rfl⟩ := hy
  constructor
  · rintro ⟨hlt, hgt⟩
    have h₁ : (n : ℚ) < k + 1 := by linarith
    have h₂ : (k : ℚ) < n + 1 := by linarith
    have h₁ : n < k + 1 := by exact_mod_cast h₁
    have h₂ : k < n + 1 := by exact_mod_cast h₂
    obtain rfl : n = k := by omega
    rfl
  · intro heq
    rw [heq]
    norm_num

theorem remainingLt_iff {bs : List Bout} {weights : Option (PlayerId → ℚ)}
    (hweights : ∀ w ∈ weights, ∀ p, ∃ n : ℤ, w p = n / 100) (p q : PlayerId) :
    remainingLt (totals bs) weights p q = true ↔ remainingKey bs weights p < remainingKey bs weights q := by
  simp only [remainingKey, Prod.Lex.toLex_lt_toLex, OrderDual.toDual_lt_toDual, OrderDual.toDual_inj, remainingLt,
    totals]
  by_cases hippon : ipponWins bs p = ipponWins bs q
  · by_cases hother : otherWins bs p = otherWins bs q
    · by_cases hduration : wonDuration bs p = wonDuration bs q
      · cases weights with
        | none => simp [hippon, hother, hduration]
        | some w =>
          have hclose := close_iff_eq (hweights w rfl p) (hweights w rfl q)
          simp only [hippon, hother, hduration, ne_eq, not_true_eq_false, if_false, lt_irrefl, false_or, true_and,
            hclose, Option.elim_some]
          by_cases hw : w p = w q
          · simp [hw]
          · simp [hw]
      · simp only [hippon, hother, hduration, ne_eq, not_true_eq_false, not_false_eq_true, if_true, if_false,
          lt_irrefl, false_or, true_and, false_and, or_false]
        exact decide_eq_true_iff
    · simp only [hippon, hother, ne_eq, not_true_eq_false, not_false_eq_true, if_true, if_false, lt_irrefl,
        false_or, true_and, false_and, or_false]
      exact decide_eq_true_iff
  · simp only [hippon, ne_eq, not_false_eq_true, if_true, false_and, or_false]
    exact decide_eq_true_iff

/-! ### The ranking -/

section

variable {sort : (PlayerId → PlayerId → Bool) → List PlayerId → List PlayerId} (hsort : LawfulSort sort)
include hsort

theorem groups_groupsByWins (bs : List Bout) {g : List PlayerId} (hne : g ≠ []) :
    Groups (fun p => OrderDual.toDual (winsWithin bs g.toFinset p)) g (groupsByWins sort bs g) := by
  unfold groupsByWins
  split
  · next hlength =>
    obtain ⟨p, rfl⟩ := eq_singleton_of_length hne hlength
    exact .single _ p
  · have hkey : ∀ p q, decide (winsWithin bs g.toFinset q < winsWithin bs g.toFinset p) = true ↔
        OrderDual.toDual (winsWithin bs g.toFinset p) < OrderDual.toDual (winsWithin bs g.toFinset q) := by
      intro p q
      rw [decide_eq_true_eq, OrderDual.toDual_lt_toDual]
    have hperm := hsort.perm _ g (strictWeak_of_key hkey)
    have hsorted := hsort.pairwise_key hkey g
    split
    · next hnil =>
      rw [hnil] at hperm
      exact absurd hperm.symm.eq_nil hne
    · next p l hcons =>
      rw [hcons] at hperm hsorted
      have hgroups := @groups_runsFrom _ _ _ _ p [p] _ (by simp) (by simp) hsorted
      exact ⟨hgroups.perm.trans hperm, hgroups.nonempty, hgroups.tied, hgroups.ordered⟩

theorem groups_rankRemaining {bs : List Bout} {t : TournamentStore} {g : List PlayerId} (hne : g ≠ [])
    (hnodup : g.Nodup) (hweights : ∀ p ∈ g, ∀ w ∈ weightOf t p, ∃ n : ℤ, w = n / 100) :
    Groups (remaining bs (weightOf t) g.toFinset) g ((rankRemaining sort t bs g).map ([·])) := by
  unfold rankRemaining
  split
  · next hlength =>
    obtain ⟨p, rfl⟩ := eq_singleton_of_length hne hlength
    exact .single _ p
  · have hhundredths : ∀ w ∈ groupWeights t g, ∀ p, ∃ n : ℤ, w p = n / 100 := by
      intro w hw p
      unfold groupWeights at hw
      split at hw
      · next hall =>
        cases hw
        show ∃ n : ℤ, (if p ∈ g then (weightOf t p).getD 0 else 0) = n / 100
        split
        · next hp =>
          obtain ⟨x, hx⟩ := Option.isSome_iff_exists.1 (hall p hp)
          rw [hx]
          exact hweights p hp x hx
        · exact ⟨0, by simp⟩
      · cases hw
    have hkey := @remainingLt_iff bs _ hhundredths
    have hperm := hsort.perm _ g (strictWeak_of_key hkey)
    have hsorted := hsort.pairwise_key hkey g
    have hlt : (sort (remainingLt (totals bs) (groupWeights t g)) g).Pairwise fun p q =>
        remainingKey bs (groupWeights t g) p < remainingKey bs (groupWeights t g) q := by
      refine (hsorted.and (hperm.nodup_iff.2 hnodup)).imp fun ⟨hle, hpq⟩ => lt_of_le_of_ne hle fun heq => hpq ?_
      have hid := congrArg (fun k => (ofLex (ofLex (ofLex (ofLex k).2).2).2).2) heq
      exact congrArg PlayerId.mk hid
    refine (Groups.of_pairwise hperm hlt).congr fun p hp => ?_
    have hweight : (groupWeights t g).elim 0 (· p) = comparedWeight (weightOf t) g.toFinset p := by
      unfold groupWeights comparedWeight
      simp only [List.mem_toFinset]
      split
      · exact if_pos hp
      · rfl
    rw [remainingKey, hweight]
    rfl

end

/-- A pool whose matches are all finished with a winner.  The weights are hundredths. -/
structure Finished (t : TournamentStore) (c : CategoryStore) (d : PoolDrawSystem) : Prop where
  size : 2 ≤ d.players.length
  nodup : d.players.Nodup
  exist : ∀ p ∈ d.players, t.containsPlayer p = true
  weights : ∀ p ∈ d.players, ∀ w ∈ weightOf t p, ∃ n : ℤ, w = n / 100
  fought : ∀ id ∈ d.matchIds, ∃ m white blue i, c.getMatch id = .ok m ∧ m.getStatus = .finished ∧
    m.getPlayer .white = some white ∧ m.getPlayer .blue = some blue ∧ white ∈ d.players ∧ blue ∈ d.players ∧
    RulesetIdentifier.getWinner m = .ok (some i)

namespace Finished

variable {d : PoolDrawSystem}

theorem exists_fought (h : Finished t c d) {id : MatchId} (hid : id ∈ d.matchIds) :
    ∃ b, Fought c id b ∧ b.white ∈ d.players ∧ b.blue ∈ d.players := by
  obtain ⟨m, white, blue, i, hm, -, hwhite, hblue, hwhiteMem, hblueMem, hwinner⟩ := h.fought id hid
  refine ⟨⟨white, blue, if i = .white then white else blue, (m.getScore i).ippon, m.state.duration⟩,
    ⟨m, i, hm, hwinner, hwhite, hblue, ?_, rfl, rfl, ?_⟩, hwhiteMem, hblueMem⟩
  · cases i with
    | white => exact hwhite
    | blue => exact hblue
  · simp only [bout, hwhite, hblue, hwinner]

theorem mem_players_of_bout (h : Finished t c d) {b : Bout} (hb : b ∈ bouts c d.matchIds) :
    b.white ∈ d.players ∧ b.blue ∈ d.players := by
  obtain ⟨id, hid, hbout⟩ := List.mem_filterMap.1 hb
  obtain ⟨b', ⟨m, -, hm, -, -, -, -, -, -, hb'⟩, hmem⟩ := h.exists_fought hid
  rw [hm] at hbout
  have heq : some b' = some b := hb'.symm.trans hbout
  cases heq
  exact hmem

/-- All wins are wins within the pool. -/
theorem winsWithin_players (h : Finished t c d) (p : PlayerId) :
    winsWithin (bouts c d.matchIds) d.players.toFinset p = wins (bouts c d.matchIds) p := by
  refine List.countP_congr fun b hb => ?_
  obtain ⟨hwhite, hblue⟩ := h.mem_players_of_bout hb
  simp [hwhite, hblue]

end Finished

section

variable {sort : (PlayerId → PlayerId → Bool) → List PlayerId → List PlayerId} {d : PoolDrawSystem}

/-- The players of a pool in the order that the passes give. -/
def ranking (sort : (PlayerId → PlayerId → Bool) → List PlayerId → List PlayerId) (t : TournamentStore)
    (c : CategoryStore) (d : PoolDrawSystem) : List PlayerId :=
  ((groupsByWins sort (bouts c d.matchIds) d.players).flatMap (groupsByWins sort (bouts c d.matchIds))).flatMap
    (rankRemaining sort t (bouts c d.matchIds))

/-- The groups after the first pass are tied on all wins. -/
theorem groups_wins (hsort : LawfulSort sort) (h : Finished t c d) :
    Groups (fun p => OrderDual.toDual (wins (bouts c d.matchIds) p)) d.players
      (groupsByWins sort (bouts c d.matchIds) d.players) := by
  have hne : d.players ≠ [] := List.ne_nil_of_length_pos (by have := h.size; omega)
  refine (groups_groupsByWins hsort _ hne).congr fun p _ => ?_
  rw [h.winsWithin_players]

/-- The groups after the second pass are tied on all wins and on the wins within the first group. -/
theorem groups_winsWithinTied (hsort : LawfulSort sort) (h : Finished t c d) :
    Groups (fun p => toLex (OrderDual.toDual (wins (bouts c d.matchIds) p),
        OrderDual.toDual (winsWithinTied (bouts c d.matchIds) d.players.toFinset p))) d.players
      ((groupsByWins sort (bouts c d.matchIds) d.players).flatMap (groupsByWins sort (bouts c d.matchIds))) := by
  have hfirst := groups_wins hsort h
  refine hfirst.refine fun g hg => ?_
  refine (groups_groupsByWins hsort _ (hfirst.nonempty g hg)).congr fun p hp => ?_
  have hgroup : g.toFinset = tiedOnWins (bouts c d.matchIds) d.players.toFinset p := by
    ext q
    rw [List.mem_toFinset, hfirst.mem_iff hg hp, tiedOnWins, Finset.mem_filter, List.mem_toFinset,
      OrderDual.toDual_inj]
  rw [hgroup]
  rfl

/-- After the third pass there are no ties. -/
theorem groups_standing (hsort : LawfulSort sort) (h : Finished t c d) :
    Groups (standing (bouts c d.matchIds) d.players.toFinset (weightOf t)) d.players
      ((ranking sort t c d).map ([·])) := by
  have hsecond := groups_winsWithinTied hsort h
  have hnodup := List.nodup_flatten.1 (hsecond.perm.nodup_iff.2 h.nodup)
  rw [ranking, List.map_flatMap]
  refine hsecond.refine fun g hg => ?_
  refine (groups_rankRemaining hsort (hsecond.nonempty g hg) (hnodup.1 g hg)
    fun p hp => h.weights p (hsecond.mem_of_mem hg hp)).congr fun p hp => ?_
  have hgroup : g.toFinset = stillTied (bouts c d.matchIds) d.players.toFinset p := by
    ext q
    rw [List.mem_toFinset, hsecond.mem_iff hg hp, stillTied, tiedOnWins, Finset.mem_filter, Finset.mem_filter,
      List.mem_toFinset, toLex_inj, Prod.mk.injEq, OrderDual.toDual_inj, OrderDual.toDual_inj, and_assoc]
  rw [hgroup]

theorem getResultsWith_ok (hsort : LawfulSort sort) (h : Finished t c d)
    (hstatus : (c.getStatus .elimination).isFinished = true) : getResultsWith sort t c d =
      .ok ((ranking sort t c d).zipIdx.map fun (player, i) => (player, some (i + 1))) := by
  have hids : ∀ id ∈ d.matchIds, ∃ b, Fought c id b := fun id hid => (h.exists_fought hid).imp fun _ hb => hb.1
  have hfirst := groups_wins hsort h
  have hsecond := groups_winsWithinTied hsort h
  have hnodup := List.nodup_flatten.1 (hsecond.perm.nodup_iff.2 h.nodup)
  have hsize : 1 < d.players.length := h.size
  have hnonempty : ∀ {gs : List (List PlayerId)}, gs.flatten.Perm d.players → gs ≠ [] := by
    intro gs hperm hnil
    rw [hnil] at hperm
    rw [← hperm.length_eq] at hsize
    exact absurd hsize (by decide)
  have hrows : (d.players.zipIdx.map fun (player, i) => (player, some (i + 1))).map (·.1) = d.players := by
    rw [List.map_map]
    exact List.zipIdx_map_fst 0 d.players
  have hlength : ¬(d.players.zipIdx.map fun (player, i) => (player, some (i + 1))).length < 2 := by
    rw [List.length_map, List.length_zipIdx]
    omega
  have hpass₁ := orderByWins_ok sort hids hlength 0
  rw [hrows] at hpass₁
  have hpass₂ := orderTies_eq (hnonempty hfirst.perm) hfirst.nonempty
    (f := groupsByWins sort (bouts c d.matchIds)) fun g hg =>
      ⟨(groups_groupsByWins hsort _ (hfirst.nonempty g hg)).perm.length_eq, orderByWins_tiedRows sort hids g⟩
  have hpass₃ := orderTies_eq (hnonempty hsecond.perm) hsecond.nonempty
    (f := fun g => (rankRemaining sort t (bouts c d.matchIds) g).map ([·])) fun g hg => by
      have hmem : ∀ p ∈ g, p ∈ d.players := fun p hp => hsecond.mem_of_mem hg hp
      have hgroups := @groups_rankRemaining _ hsort (bouts c d.matchIds) t _ (hsecond.nonempty g hg)
        (hnodup.1 g hg) fun p hp => h.weights p (hmem p hp)
      exact ⟨hgroups.perm.length_eq, orderByRemaining_tiedRows sort hids (hsecond.nonempty g hg)
        fun p hp => h.exist p (hmem p hp)⟩
  rw [← List.map_flatMap, groupRows_singles] at hpass₃
  rw [getResultsWith, if_neg (by omega), hstatus]
  exact Effect.except_bind_ok.2 ⟨_, hpass₁, Effect.except_bind_ok.2 ⟨_, hpass₂, hpass₃⟩⟩

/-- `getResults` ranks all players, from the first place to the last one, in the order of their standings.  Any
other sort gives the same result, and so does any other order of the players. -/
def RanksAll (t : TournamentStore) (c : CategoryStore) (d : PoolDrawSystem) : Prop :=
  ∃ ranked : List PlayerId, ranked.Perm d.players ∧
    (ranked.Pairwise fun p q => standing (bouts c d.matchIds) d.players.toFinset (weightOf t) p <
      standing (bouts c d.matchIds) d.players.toFinset (weightOf t) q) ∧
    getResults t c d = .ok (ranked.zipIdx.map fun (player, i) => (player, some (i + 1))) ∧
    ∀ sort d', LawfulSort sort → d'.players.Perm d.players → d'.matchIds = d.matchIds →
      getResultsWith sort t c d' = getResults t c d

theorem Finished.of_perm {d' : PoolDrawSystem} (h : Finished t c d) (hplayers : d'.players.Perm d.players)
    (hids : d'.matchIds = d.matchIds) : Finished t c d' := by
  refine ⟨hplayers.length_eq ▸ h.size, hplayers.nodup_iff.2 h.nodup, fun p hp => h.exist p (hplayers.mem_iff.1 hp),
    fun p hp => h.weights p (hplayers.mem_iff.1 hp), fun id hid => ?_⟩
  obtain ⟨m, white, blue, i, hm, hfinished, hwhite, hblue, hwhiteMem, hblueMem, hwinner⟩ :=
    h.fought id (hids ▸ hid)
  exact ⟨m, white, blue, i, hm, hfinished, hwhite, hblue, hplayers.mem_iff.2 hwhiteMem,
    hplayers.mem_iff.2 hblueMem, hwinner⟩

/-- There is one way only to put the players in the order of their standings. -/
theorem ranking_unique (hsort : LawfulSort sort) {d' : PoolDrawSystem} (h : Finished t c d)
    (hplayers : d'.players.Perm d.players) (hids : d'.matchIds = d.matchIds) :
    ranking sort t c d' = ranking stdSort t c d := by
  obtain ⟨hperm, hlt⟩ := (groups_standing lawfulSort_stdSort h).pairwise_of_map
  obtain ⟨hperm', hlt'⟩ := (groups_standing hsort (h.of_perm hplayers hids)).pairwise_of_map
  rw [hids, List.toFinset_eq_of_perm _ _ hplayers] at hlt'
  exact (hperm'.trans (hplayers.trans hperm.symm)).eq_of_pairwise
    (fun p q _ _ hpq hqp => absurd hpq hqp.asymm) hlt' hlt

theorem ranksAll_of_isFinished (h : Finished t c d) (hstatus : (c.getStatus .elimination).isFinished = true) :
    RanksAll t c d := by
  obtain ⟨hperm, hlt⟩ := (groups_standing lawfulSort_stdSort h).pairwise_of_map
  refine ⟨ranking stdSort t c d, hperm, hlt, getResultsWith_ok lawfulSort_stdSort h hstatus, ?_⟩
  intro sort d' hsort hplayers hids
  rw [getResultsWith_ok hsort (h.of_perm hplayers hids) hstatus, ranking_unique hsort h hplayers hids,
    ← getResultsWith_stdSort, getResultsWith_ok lawfulSort_stdSort h hstatus]

/-- While the category counts a match that is not finished, there are no results. -/
theorem getResults_of_not_isFinished (h : Finished t c d) (hstatus : (c.getStatus .elimination).isFinished = false) :
    getResults t c d = .ok [] := by
  have hsize := h.size
  rw [← getResultsWith_stdSort, getResultsWith, if_neg (by omega), hstatus]
  rfl

theorem not_ranksAll_of_getResults (h : Finished t c d) (hresults : getResults t c d = .ok []) : ¬ RanksAll t c d := by
  rintro ⟨ranked, hperm, -, hranked, -⟩
  have hempty := congrArg List.length (Except.ok.inj (hresults.symm.trans hranked))
  have hsize := h.size
  rw [List.length_map, List.length_zipIdx, hperm.length_eq, List.length_nil] at hempty
  omega

end

/-! ### A pool with a circle -/

/-- A match that white has won by ippon after a second. -/
def circleMatch (id white blue : ℕ) : MatchStore where
  combinedId := ⟨⟨1⟩, ⟨id⟩⟩
  type := .elimination
  title := "Pool"
  permanentBye := false
  bye := false
  players := ⟨some ⟨white⟩, some ⟨blue⟩⟩
  state := { status := .finished, duration := 1000, scores := ⟨{ ippon := true, directIppon := true }, {}⟩ }
  events := []

def circlePool : PoolDrawSystem where
  matchIds := [⟨0⟩, ⟨1⟩, ⟨2⟩]
  players := [⟨3⟩, ⟨1⟩, ⟨2⟩]

def circleCategory : CategoryStore :=
  { CategoryStore.init ⟨1⟩ "" .twentyEighteen (.pool circlePool) with
    matchList := [circleMatch 0 1 2, circleMatch 1 2 3, circleMatch 2 3 1]
    matchMap := fun id => if id.value < 3 then some id.value else none
    status := ⟨{ finishedMatches := 3 }, {}⟩ }

/-- Every player weighs a kilogram more than the one before. -/
def circleTournament : TournamentStore where
  players p := some (.init p { weight := some (70 + p.value) })

/-- The weights decide the circle. -/
example : getResults circleTournament circleCategory circlePool =
    .ok [(⟨1⟩, some 1), (⟨2⟩, some 2), (⟨3⟩, some 3)] := by decide +kernel

end PoolDrawSystem

end JudoAssistant
