import JudoAssistant.Lib.Fixtures
import JudoAssistant.Tournament.LinkRuns
import JudoAssistant.Tournament.PoolMerge

/-!
# What a draw draws

Every two players of a pool meet once, the players of a double pool are split between its pools and three
finals follow, and two players fight a best of three.  `initCategory` draws so for any players.
-/

namespace JudoAssistant

open Effect Exec TournamentStore

/-! ### Drawn categories -/

/-- The fight is between the two players. -/
def Fight.between (p q : PlayerId) (b : Fight) : Bool :=
  decide (b.players.white = some p ∧ b.players.blue = some q ∨ b.players.white = some q ∧ b.players.blue = some p)

theorem Fight.twoSided_between : Fixtures.TwoSided Fight.between where
  symm p q b := decide_eq_decide.2 or_comm
  unique p q p' q' b h h' := by
    simp only [between, decide_eq_true_eq] at h h'
    rcases h with ⟨hw, hb⟩ | ⟨hw, hb⟩ <;> rcases h' with ⟨hw', hb'⟩ | ⟨hw', hb'⟩ <;> simp_all

/-- Two players of a set. -/
def Opponents (S : Finset PlayerId) (p q : PlayerId) : Prop := p ∈ S ∧ q ∈ S ∧ p ≠ q

/-- The fight that the action adds. -/
def AddMatchAction.fight (a : AddMatchAction) : Fight := ⟨a.combinedId, a.whitePlayerId, a.bluePlayerId⟩

/-- The fights of two pools, which share the players, and of three finals. -/
structure DoublePoolDrawSystem.Splits (S : Finset PlayerId) (bs : List Fight) (first second : Finset PlayerId)
    (pools finals : List Fight) : Prop where
  union : first ∪ second = S
  disjoint : Disjoint first second
  half : first.card = S.card / 2
  fights : bs = pools ++ finals
  finals : finals.length = 3
  complete : Fixtures.Complete Fight.between (fun p q => Opponents first p q ∨ Opponents second p q) pools

namespace DrawSystem

/-- The fights that the draw system draws for the players. -/
def Meets (S : Finset PlayerId) (bs : List Fight) : DrawSystem → Prop
  | pool _ => Fixtures.Complete Fight.between (Opponents S) bs
  | doublePool _ => (S.card < 4 → bs = []) ∧
      (4 ≤ S.card → ∃ first second pools finals, DoublePoolDrawSystem.Splits S bs first second pools finals)
  | bestOfThree _ => (S.card ≠ 2 → bs = []) ∧
      (S.card = 2 → ∃ white blue, white ≠ blue ∧ S = {white, blue} ∧
      bs.map (·.players) = List.replicate 3 ⟨some white, some blue⟩)

def matchIds : DrawSystem → List MatchId
  | pool d => d.matchIds
  | doublePool d => d.matchIds
  | bestOfThree d => d.matchIds

def players : DrawSystem → List PlayerId
  | pool d => d.players
  | doublePool d => d.players
  | bestOfThree d => d.players

/-- The draw system knows the players and the fights, and they are those of its draw. -/
structure Drawn (S : Finset PlayerId) (bs : List Fight) (d : DrawSystem) : Prop where
  nodup : d.players.Nodup
  players : d.players.toFinset = S
  matchIds : d.matchIds = bs.map (·.combinedId.matchId)
  meets : d.Meets S bs

theorem drawn_getDrawSystem (kind : DrawSystemIdentifier) : (getDrawSystem kind).Drawn ∅ [] := by
  cases kind with
  | pool => exact ⟨List.nodup_nil, rfl, rfl, Fixtures.complete_nil fun p q h => by simp [Opponents] at h⟩
  | doublePool => exact ⟨List.nodup_nil, rfl, rfl, fun _ => rfl, fun h => absurd h (by decide)⟩
  | bestOfThree => exact ⟨List.nodup_nil, rfl, rfl, fun _ => rfl, fun h => absurd h (by decide)⟩

end DrawSystem

/-! ### Drawing -/

section

variable {t : TournamentStore} {c : CategoryStore} {ids : List PlayerId} {seed : ℕ} {actions : List AddMatchAction}

/-- A pool of any size is drawn completely. -/
theorem PoolDrawSystem.complete_initCategory {d d' : PoolDrawSystem} (hnodup : ids.Nodup)
    (h : d.initCategory t c ids seed = .ok (d', actions)) :
    d'.players.Perm ids ∧ Fixtures.Complete Fight.between (Opponents ids.toFinset)
      (actions.map AddMatchAction.fight) := by
  refine ⟨(among_initCategory h).2, ?_⟩
  by_cases hlength : 2 ≤ ids.length
  · obtain ⟨order, honce, hmem, heq⟩ := initCategory_eq hnodup hlength t c d seed
    rw [heq] at h
    obtain ⟨actions', hactions, hrest⟩ := except_bind_ok.1 h
    obtain ⟨-, rfl⟩ := Prod.mk.inj (except_pure_ok.1 hrest)
    have hcomplete : Fixtures.Complete isBetween (Opponents ids.toFinset) actions' := by
      refine ⟨fun a ha => ?_, fun p q hpq => ?_⟩
      · obtain ⟨m, hm, hbetween⟩ := exists_of_mem_createMatches hactions ha
        obtain ⟨hfirst, hsecond, hne⟩ := hmem m hm
        exact ⟨m.1, m.2, ⟨List.mem_toFinset.2 hfirst, List.mem_toFinset.2 hsecond, hne⟩, hbetween⟩
      · rw [countP_createMatches hactions]
        exact honce p (List.mem_toFinset.1 hpq.1) q (List.mem_toFinset.1 hpq.2.1) hpq.2.2
    exact hcomplete.map fun _ _ _ _ => rfl
  · rw [initCategory, if_pos (by omega)] at h
    cases h
    have hcard : ids.toFinset.card ≤ 1 := (List.toFinset_card_le ids).trans (by omega)
    exact Fixtures.complete_nil fun p q hpq => hpq.2.2 (Finset.card_le_one.1 hcard p hpq.1 q hpq.2.1)

theorem DoublePoolDrawSystem.splits_initCategory {d d' : DoublePoolDrawSystem} (hnodup : ids.Nodup)
    (hfour : 4 ≤ ids.length) (h : d.initCategory t c ids seed = .ok (d', actions)) :
    d'.players.Perm ids ∧ d'.matchIds = actions.map (·.combinedId.matchId) ∧
      ∃ first second pools finals, Splits ids.toFinset
        (actions.map AddMatchAction.fight) first second pools finals := by
  obtain ⟨firstPool, secondPool, firstSeed, secondSeed, order, x, y, z, hperm, -, -, hfirst, hsecond,
    hactions, hids, -⟩ := drawsMerged_initCategory hfour h
  have hplayers : d'.players.Nodup := hperm.nodup_iff.2 hnodup
  have hsplit := List.take_append_drop (d'.players.length / 2) d'.players
  have hnodup' := hplayers
  rw [← hsplit, List.nodup_append] at hnodup'
  obtain ⟨hnodup₁, hnodup₂, hdisjoint⟩ := hnodup'
  obtain ⟨-, hcomplete₁⟩ := PoolDrawSystem.complete_initCategory hnodup₁ hfirst
  obtain ⟨-, hcomplete₂⟩ := PoolDrawSystem.complete_initCategory hnodup₂ hsecond
  have hdisjoint' : Disjoint (d'.players.take (d'.players.length / 2)).toFinset
      (d'.players.drop (d'.players.length / 2)).toFinset := by
    refine Finset.disjoint_left.2 fun p hp hq => hdisjoint p (List.mem_toFinset.1 hp) p (List.mem_toFinset.1 hq) rfl
  refine ⟨hperm, hids, _, _, (FairMerge.merged order).map AddMatchAction.fight,
    [finalMatch c "Semi-Final" x, finalMatch c "Semi-Final" y, finalMatch c "Final" z].map AddMatchAction.fight,
    ?_, hdisjoint', ?_, ?_, rfl, ?_⟩
  · rw [← List.toFinset_append, hsplit]
    exact List.toFinset_eq_of_perm _ _ hperm
  · rw [List.toFinset_card_of_nodup hnodup₁, List.toFinset_card_of_nodup hnodup, List.length_take,
      ← hperm.length_eq]
    omega
  · rw [hactions, List.map_append]
  · have happend := hcomplete₁.append hcomplete₂ Fight.twoSided_between fun p q hpq =>
      ⟨fun hpq' => Finset.disjoint_left.1 hdisjoint' hpq.1 hpq'.1,
        fun hpq' => Finset.disjoint_left.1 hdisjoint' hpq.1 hpq'.2.1⟩
    rw [← List.map_append] at happend
    exact happend.perm ((FairMerge.perm_merged order).map _).symm

/-- Two players are drawn for three matches in the same order; other numbers of players are not drawn. -/
theorem BestOfThreeDrawSystem.initCategory_cases {d : BestOfThreeDrawSystem}
    (h : initCategory t c ids seed = .ok (d, actions)) : d.players = ids ∧
      d.matchIds = actions.map (·.combinedId.matchId) ∧ (ids.length ≠ 2 ∧ actions = [] ∨
        ∃ white blue, ids.Perm [white, blue] ∧
          actions.map (·.fight.players) = List.replicate 3 ⟨some white, some blue⟩) := by
  refine ⟨players_initCategory h, ?_⟩
  simp only [initCategory, except_bind_ok] at h
  generalize Mt19937.period = n, Mt19937.init seed = e at h
  obtain ⟨_, -, h⟩ := h
  split at h
  · next p q =>
    simp only [except_bind_ok] at h
    obtain ⟨player, -, ⟨x, _⟩, -, ⟨y, _⟩, -, ⟨z, _⟩, -, heq⟩ := h
    obtain ⟨rfl, rfl⟩ := Prod.mk.inj (except_pure_ok.1 heq)
    refine ⟨rfl, .inr ⟨_, _, ?_, rfl⟩⟩
    split <;> split <;> first | exact .refl _ | exact .swap _ _ _
  · next hother =>
    obtain ⟨rfl, rfl⟩ := Prod.mk.inj (except_pure_ok.1 h)
    refine ⟨rfl, .inl ⟨fun htwo => ?_, rfl⟩⟩
    obtain ⟨p, q, rfl⟩ := List.length_eq_two.1 htwo
    exact hother p q rfl

theorem DrawSystem.drawn_initCategory {d d' : DrawSystem} (hnodup : ids.Nodup)
    (h : d.initCategory t c ids seed = .ok (d', actions)) :
    d'.Drawn ids.toFinset (actions.map AddMatchAction.fight) := by
  have hmatchIds : (actions.map AddMatchAction.fight).map (·.combinedId.matchId) =
      actions.map (·.combinedId.matchId) := by
    rw [List.map_map]
    rfl
  cases d with
  | pool d =>
    obtain ⟨⟨d₁, actions₁⟩, hinit, heq⟩ := except_bind_ok.1 h
    obtain ⟨rfl, rfl⟩ := Prod.mk.inj (except_pure_ok.1 heq)
    obtain ⟨hperm, hcomplete⟩ := PoolDrawSystem.complete_initCategory hnodup hinit
    exact ⟨hperm.nodup_iff.2 hnodup, List.toFinset_eq_of_perm _ _ hperm,
      (PoolDrawSystem.matchIds_initCategory hinit).trans hmatchIds.symm, hcomplete⟩
  | doublePool d =>
    obtain ⟨⟨d₁, actions₁⟩, hinit, heq⟩ := except_bind_ok.1 h
    obtain ⟨rfl, rfl⟩ := Prod.mk.inj (except_pure_ok.1 heq)
    have hcard := List.toFinset_card_of_nodup hnodup
    by_cases hfour : 4 ≤ ids.length
    · obtain ⟨hperm, hids, hsplits⟩ := DoublePoolDrawSystem.splits_initCategory hnodup hfour hinit
      exact ⟨hperm.nodup_iff.2 hnodup, List.toFinset_eq_of_perm _ _ hperm, hids.trans hmatchIds.symm,
        fun hlt => absurd hlt (by omega), fun _ => hsplits⟩
    · obtain ⟨_, -, hrest⟩ := except_bind_ok.1 hinit
      rw [if_pos (by omega)] at hrest
      obtain ⟨rfl, rfl⟩ := Prod.mk.inj (except_pure_ok.1 hrest)
      exact ⟨hnodup, rfl, rfl, fun _ => rfl, fun hle => absurd hle (by omega)⟩
  | bestOfThree d =>
    obtain ⟨⟨d₁, actions₁⟩, hinit, heq⟩ := except_bind_ok.1 h
    obtain ⟨rfl, rfl⟩ := Prod.mk.inj (except_pure_ok.1 heq)
    have hcard := List.toFinset_card_of_nodup hnodup
    obtain ⟨hplayers, hids, ⟨htwo, rfl⟩ | ⟨white, blue, hperm, hfights⟩⟩ :=
      BestOfThreeDrawSystem.initCategory_cases hinit
    · refine ⟨?_, ?_, hids, fun _ => rfl, fun heq => absurd (hcard.symm.trans heq) htwo⟩
      · show d₁.players.Nodup
        rwa [hplayers]
      · show d₁.players.toFinset = _
        rw [hplayers]
    · have hne : white ≠ blue := by
        have hpair := hperm.nodup_iff.1 hnodup
        simpa using hpair
      refine ⟨?_, ?_, hids.trans hmatchIds.symm, fun hother => absurd ?_ hother,
        fun _ => ⟨white, blue, hne, ?_, ?_⟩⟩
      · show d₁.players.Nodup
        rwa [hplayers]
      · show d₁.players.toFinset = _
        rw [hplayers]
      · exact hcard.trans hperm.length_eq
      · rw [List.toFinset_eq_of_perm _ _ hperm]
        simp
      · rw [List.map_map]
        exact hfights

end

end JudoAssistant
