import JudoAssistant.Tournament.Specs

/-!
# Facts about events and draws

Events change the course of a match, not its players.  The matches that a draw system creates, and
the players that it later puts into semifinals and finals, are those of the category.
-/

namespace JudoAssistant

open Effect Exec

/-! ### Events -/

/-- The matches differ only in their course. -/
structure MatchStore.SameFight (m m' : MatchStore) : Prop where
  combinedId : m'.combinedId = m.combinedId
  type : m'.type = m.type
  permanentBye : m'.permanentBye = m.permanentBye
  players : m'.players = m.players

namespace MatchStore.SameFight

open RulesetIdentifier hiding pause resume updateStatus

variable {m m' m'' : MatchStore}

theorem refl (m : MatchStore) : m.SameFight m := ⟨rfl, rfl, rfl, rfl⟩

theorem trans (h : m.SameFight m') (h' : m'.SameFight m'') : m.SameFight m'' :=
  ⟨h'.combinedId.trans h.combinedId, h'.type.trans h.type, h'.permanentBye.trans h.permanentBye,
    h'.players.trans h.players⟩

variable (r : RulesetIdentifier)

theorem pause {time : ℤ} (h : r.pause m time = .ok m') : m.SameFight m' := by
  simp only [RulesetIdentifier.pause, except_bind_ok] at h
  obtain ⟨_, _, h⟩ := h
  repeat' split at h
  all_goals
    cases h
    exact ⟨rfl, rfl, rfl, rfl⟩

theorem resume {time : ℤ} (h : r.resume m time = .ok m') : m.SameFight m' := by
  simp only [RulesetIdentifier.resume, except_bind_ok, except_pure_ok] at h
  obtain ⟨_, _, rfl⟩ := h
  exact ⟨rfl, rfl, rfl, rfl⟩

theorem updateStatus (m : MatchStore) (time : ℤ) : m.SameFight (r.updateStatus m time) := by
  unfold RulesetIdentifier.updateStatus
  split
  · exact refl m
  · split
    · simp only
      split <;> exact ⟨rfl, rfl, rfl, rfl⟩
    · simp only
      split <;> exact ⟨rfl, rfl, rfl, rfl⟩

theorem setScore (i : PlayerIndex) (score : Score) : m.SameFight (m.setScore i score) :=
  ⟨rfl, rfl, rfl, rfl⟩

/-- The awards and cancellations assert their precondition, write a score and update the status. -/
theorem award {b : Bool} {i : PlayerIndex} {score : Score} {time : ℤ}
    (h : (do
      check .ruleset b
      return r.updateStatus (m.setScore i score) time : Except Failure MatchStore) = .ok m') :
    m.SameFight m' := by
  simp only [except_bind_ok, except_pure_ok] at h
  obtain ⟨_, _, rfl⟩ := h
  exact (setScore i score).trans (updateStatus r _ time)

theorem record {type : MatchEventType} {i : PlayerIndex} {time : ℤ}
    (h : EventRules.record r type i time m = .ok m') : m.SameFight m' := by
  unfold EventRules.record at h
  simp only at h
  split at h
  · exact (show m.SameFight (m.pushEvent _) from ⟨rfl, rfl, rfl, rfl⟩).trans (pause r h)
  · cases h
    exact ⟨rfl, rfl, rfl, rfl⟩

theorem score {can : MatchStore → PlayerIndex → Bool}
    {change : RulesetIdentifier → MatchStore → PlayerIndex → ℤ → Except Failure MatchStore}
    (hchange : ∀ r m i time m', change r m i time = .ok m' → m.SameFight m')
    {type : MatchEventType} {i : PlayerIndex} {time : ℤ}
    (h : (EventRules.score can change type i time).effect r m = .ok m') : m.SameFight m' := by
  simp only [EventRules.score, except_bind_ok] at h
  obtain ⟨m₁, h₁, h⟩ := h
  exact (hchange _ _ _ _ _ h₁).trans (record r h)

/-- An event changes only the course of the match. -/
theorem effect {kind : MatchEventKind} (h : kind.rules.effect r m = .ok m') : m.SameFight m' := by
  cases kind with
  | awardIppon i time osaekomi =>
    simp only [MatchEventKind.rules, EventRules.awardIppon, except_bind_ok] at h
    obtain ⟨m₁, h₁, m₂, h₂, h⟩ := h
    have hcancel : m.SameFight m₁ := by
      unfold EventRules.cancelOsaekomiWazari at h₁
      split at h₁
      · exact award r h₁
      · cases h₁
        exact refl m
    exact hcancel.trans ((award r h₂).trans (record r h))
  | awardWazari i time osaekomi =>
    simp only [MatchEventKind.rules, EventRules.awardWazari, except_bind_ok] at h
    obtain ⟨m₁, h₁, h⟩ := h
    refine (award r h₁).trans (SameFight.trans ?_ (record r h))
    split <;> exact ⟨rfl, rfl, rfl, rfl⟩
  | awardShido i time =>
    change (EventRules.score canAwardShido awardShido .shido i time).effect r m = _ at h
    exact score r (fun r _ _ _ _ h => award r h) h
  | awardHansokuMake i time =>
    change (EventRules.score canAwardHansokuMake awardHansokuMake .hansokuMake i time).effect r m = _ at h
    exact score r (fun r _ _ _ _ h => award r h) h
  | cancelIppon i time =>
    change (EventRules.score canCancelIppon cancelIppon .cancelIppon i time).effect r m = _ at h
    exact score r (fun r _ _ _ _ h => award r h) h
  | cancelWazari i time =>
    change (EventRules.score canCancelWazari cancelWazari .cancelWazari i time).effect r m = _ at h
    exact score r (fun r _ _ _ _ h => award r h) h
  | cancelShido i time =>
    change (EventRules.score canCancelShido cancelShido .cancelShido i time).effect r m = _ at h
    exact score r (fun r _ _ _ _ h => award r h) h
  | cancelHansokuMake i time =>
    change (EventRules.score canCancelHansokuMake cancelHansokuMake .cancelHansokuMake i time).effect r m = _ at h
    exact score r (fun r _ _ _ _ h => award r h) h
  | pauseMatch time => exact pause r h
  | resumeMatch time => exact resume r h
  | startOsaekomi i time =>
    simp only [MatchEventKind.rules, EventRules.startOsaekomi, RulesetIdentifier.startOsaekomi,
      except_bind_ok, except_pure_ok] at h
    obtain ⟨m₁, ⟨_, _, rfl⟩, h⟩ := h
    have hstart : m.SameFight ((m.setOsaekomi (some (i, time))).setOsaekomiWazari false) :=
      ⟨rfl, rfl, rfl, rfl⟩
    split at h
    · exact hstart.trans (resume r h)
    · cases h
      exact hstart
  | stopOsaekomi time =>
    simp only [MatchEventKind.rules, EventRules.stopOsaekomi] at h
    have hstop : m.SameFight (r.stopOsaekomi m time) := by
      unfold RulesetIdentifier.stopOsaekomi
      simp only
      split <;> exact ⟨rfl, rfl, rfl, rfl⟩
    split at h
    · exact hstop.trans (pause r h)
    · cases h
      exact hstop
  | setMatchBye bye =>
    simp only [MatchEventKind.rules, EventRules.setMatchBye, MatchStore.setBye, except_bind_ok,
      except_pure_ok] at h
    obtain ⟨_, _, rfl⟩ := h
    exact ⟨rfl, rfl, rfl, rfl⟩

end MatchStore.SameFight

/-! ### The matches of a draw -/

/-- The match is one of the category, no bye, and its players are in the list. -/
structure AddMatchAction.Among (a : AddMatchAction) (id : CategoryId) (players : List PlayerId) :
    Prop where
  categoryId : a.combinedId.categoryId = id
  bye : a.bye = false
  white : ∀ p, a.whitePlayerId = some p → p ∈ players
  blue : ∀ p, a.bluePlayerId = some p → p ∈ players

theorem AddMatchAction.Among.mono {a : AddMatchAction} {id : CategoryId} {players players' : List PlayerId}
    (h : a.Among id players) (hsub : players ⊆ players') : a.Among id players' :=
  ⟨h.categoryId, h.bye, fun p hp => hsub (h.white p hp), fun p hp => hsub (h.blue p hp)⟩

namespace PoolDrawSystem

theorem mem_carry {x y : PlayerId} {ys : List PlayerId} (h : y ∈ carry x ys) : y ∈ x :: ys := by
  induction ys generalizing x with
  | nil => cases h
  | cons z zs ih =>
    rw [carry] at h
    rcases List.mem_cons.1 h with rfl | h
    · exact List.mem_cons_self
    · exact List.mem_cons_of_mem _ (ih h)

theorem mem_rotate {x : PlayerId} {ids : List PlayerId} (h : x ∈ rotate ids) : x ∈ ids := by
  cases ids with
  | nil => cases h
  | cons y ys =>
    rw [rotate] at h
    rcases List.mem_cons.1 h with rfl | h
    · exact List.mem_cons_self
    · split at h
      · cases h
      · next last hlast =>
        rcases List.mem_cons.1 (mem_carry h) with rfl | h
        · exact List.mem_cons_of_mem _ (List.mem_of_getLast? hlast)
        · exact List.mem_cons_of_mem _ h

theorem mem_evenRounds {n : ℕ} {ids : List PlayerId} {p : PlayerId × PlayerId}
    (h : p ∈ evenRounds n ids) : p.1 ∈ ids ∧ p.2 ∈ ids := by
  induction n generalizing ids with
  | zero => cases h
  | succ n ih =>
    rw [evenRounds, List.mem_append] at h
    rcases h with h | h
    · have hzip := List.mem_of_mem_take h
      exact ⟨(List.of_mem_zip hzip).1, List.mem_reverse.1 (List.of_mem_zip hzip).2⟩
    · exact ⟨mem_rotate (ih h).1, mem_rotate (ih h).2⟩

theorem mem_pairSlots {ids : List PlayerId} : ∀ {slots : List (ℕ × ℕ)} {pairs : List (PlayerId × PlayerId)},
    pairSlots ids slots = .ok pairs → ∀ p ∈ pairs, p.1 ∈ ids ∧ p.2 ∈ ids
  | [], pairs, h, p, hp => by
    cases h
    cases hp
  | [_], pairs, h, _, _ => by cases h
  | a :: b :: rest, pairs, h, p, hp => by
    rw [pairSlots] at h
    split at h
    · next x y hx hy =>
      obtain ⟨pairs', hpairs, h⟩ := except_bind_ok.1 h
      obtain rfl := except_pure_ok.1 h
      rcases List.mem_cons.1 hp with rfl | hp
      · exact ⟨List.mem_of_getElem? hx, List.mem_of_getElem? hy⟩
      · exact mem_pairSlots hpairs p hp
    · cases h

/-- The order of the matches pairs players of the list. -/
theorem mem_matchOrder {ids : List PlayerId} {order : List (PlayerId × PlayerId)}
    (h : (if ids.length % 2 = 0 then createMatchOrderForEvenNumber ids
      else createMatchOrderForOddNumber ids) = .ok order) : ∀ p ∈ order, p.1 ∈ ids ∧ p.2 ∈ ids := by
  intro p hp
  split at h
  · simp only [createMatchOrderForEvenNumber, except_bind_ok, except_pure_ok] at h
    obtain ⟨_, _, rfl⟩ := h
    exact mem_evenRounds hp
  · simp only [createMatchOrderForOddNumber, except_bind_ok, except_pure_ok] at h
    obtain ⟨_, _, rounds, hrounds, rfl⟩ := h
    obtain ⟨round, hround, hp⟩ := List.mem_flatten.1 hp
    obtain ⟨i, _, hi⟩ := (except_mapM_ok hrounds).2 round hround
    exact mem_pairSlots hi p hp

variable {t : TournamentStore} {c : CategoryStore}

theorem among_createMatches {composited : Bool} {ids : List PlayerId} {pairs : List (PlayerId × PlayerId)}
    {e : Mt19937} {actions : List AddMatchAction} (hpairs : ∀ p ∈ pairs, p.1 ∈ ids ∧ p.2 ∈ ids)
    (h : createMatches t c composited pairs e = .ok actions) : ∀ a ∈ actions, a.Among c.id ids := by
  induction pairs generalizing e actions with
  | nil =>
    cases h
    simp
  | cons p pairs ih =>
    obtain ⟨first, second⟩ := p
    simp only [createMatches, createMatch, except_bind_ok, except_pure_ok] at h
    obtain ⟨⟨a, e'⟩, ⟨_, _, player, _, heq⟩, actions', hactions, rfl⟩ := h
    cases heq
    obtain ⟨hfirst, hsecond⟩ := hpairs _ List.mem_cons_self
    intro a ha
    rcases List.mem_cons.1 ha with rfl | ha
    · refine ⟨rfl, rfl, fun p hp => ?_, fun p hp => ?_⟩
      · cases hp
        split <;> assumption
      · cases hp
        split <;> assumption
    · exact ih (fun p hp => hpairs p (List.mem_cons_of_mem _ hp)) hactions a ha

theorem among_initCategory {d d' : PoolDrawSystem} {ids : List PlayerId} {seed : ℕ}
    {actions : List AddMatchAction} (h : d.initCategory t c ids seed = .ok (d', actions)) :
    (∀ a ∈ actions, a.Among c.id ids) ∧ d'.players.Perm ids := by
  unfold initCategory at h
  split at h
  · cases h
    exact ⟨by simp, .refl _⟩
  · have hperm := perm_shuffle ids (Mt19937.init seed)
    have horder : ∃ order, (if (shuffle ids (Mt19937.init seed)).1.length % 2 = 0
          then createMatchOrderForEvenNumber (shuffle ids (Mt19937.init seed)).1
          else createMatchOrderForOddNumber (shuffle ids (Mt19937.init seed)).1) = .ok order ∧
        (do
          let actions ← createMatches t c d.composited order (Mt19937.init seed)
          return ({ d with players := (shuffle ids (Mt19937.init seed)).1
                           matchIds := actions.map (·.combinedId.matchId) }, actions) :
            Except Failure (PoolDrawSystem × List AddMatchAction)) = .ok (d', actions) := by
      simp only at h
      split at h
      · next heven =>
        rw [if_pos heven]
        exact except_bind_ok.1 h
      · next hodd =>
        rw [if_neg hodd]
        exact except_bind_ok.1 h
    obtain ⟨order, horder, h⟩ := horder
    obtain ⟨actions', hactions, heq⟩ := except_bind_ok.1 h
    obtain ⟨rfl, rfl⟩ := Prod.mk.inj (except_pure_ok.1 heq)
    refine ⟨fun a ha => ?_, hperm⟩
    exact (among_createMatches (mem_matchOrder horder) hactions a ha).mono hperm.subset

end PoolDrawSystem

namespace DoublePoolDrawSystem

variable {t : TournamentStore} {c : CategoryStore}

theorem mem_mergeActions {fuel : ℕ} {queue : List MergeQueueElement}
    {first second actions : List AddMatchAction}
    (h : mergeActions fuel queue first second = .ok actions) : ∀ a ∈ actions, a ∈ first ∨ a ∈ second := by
  induction fuel generalizing queue first second actions with
  | zero =>
    cases queue with
    | nil =>
      cases h
      simp
    | cons e queue => cases h
  | succ fuel ih =>
    cases queue with
    | nil =>
      cases h
      simp
    | cons e queue =>
      simp only [mergeActions] at h
      intro a ha
      split at h
      · cases first with
        | nil => cases h
        | cons x first =>
          obtain ⟨actions', hactions, h⟩ := except_bind_ok.1 h
          obtain rfl := except_pure_ok.1 h
          rcases List.mem_cons.1 ha with rfl | ha
          · exact .inl List.mem_cons_self
          · exact (ih hactions a ha).imp_left (List.mem_cons_of_mem _)
      · cases second with
        | nil => cases h
        | cons x second =>
          obtain ⟨actions', hactions, h⟩ := except_bind_ok.1 h
          obtain rfl := except_pure_ok.1 h
          rcases List.mem_cons.1 ha with rfl | ha
          · exact .inr List.mem_cons_self
          · exact (ih hactions a ha).imp_right (List.mem_cons_of_mem _)

/-- The players of the pools. -/
def poolPlayers (d : DoublePoolDrawSystem) : List PlayerId :=
  ((d.firstPool.map (·.players)).getD []) ++ ((d.secondPool.map (·.players)).getD [])

theorem among_initCategory {d d' : DoublePoolDrawSystem} {ids : List PlayerId} {seed : ℕ}
    {actions : List AddMatchAction} (h : d.initCategory t c ids seed = .ok (d', actions)) :
    (∀ a ∈ actions, a.Among c.id ids) ∧ (d' = { d with matchIds := [], players := ids } ∧ ids.length < 4 ∨
      d'.poolPlayers ⊆ ids) := by
  simp only [initCategory, except_bind_ok] at h
  generalize Mt19937.period = n at h
  obtain ⟨_, _, h⟩ := h
  split at h
  · next hlt =>
    cases h
    exact ⟨by simp, .inl ⟨rfl, hlt⟩⟩
  · simp only [except_bind_ok] at h
    obtain ⟨⟨firstPool, firstActions⟩, hfirst, ⟨secondPool, secondActions⟩, hsecond, merged, hmerged,
      ⟨firstId, _⟩, _, ⟨secondId, _⟩, _, ⟨finalId, _⟩, _, heq⟩ := h
    obtain ⟨rfl, rfl⟩ := Prod.mk.inj (except_pure_ok.1 heq)
    obtain ⟨hfirstActions, hfirstPool⟩ := PoolDrawSystem.among_initCategory hfirst
    obtain ⟨hsecondActions, hsecondPool⟩ := PoolDrawSystem.among_initCategory hsecond
    have hsub := (perm_shuffle ids (Mt19937.init seed)).subset
    have hfirstSub : (shuffle ids (Mt19937.init seed)).1.take
        ((shuffle ids (Mt19937.init seed)).1.length / 2) ⊆ ids :=
      fun p hp => hsub (List.mem_of_mem_take hp)
    have hsecondSub : (shuffle ids (Mt19937.init seed)).1.drop
        ((shuffle ids (Mt19937.init seed)).1.length / 2) ⊆ ids :=
      fun p hp => hsub (List.mem_of_mem_drop hp)
    refine ⟨fun a ha => ?_, .inr fun p hp => ?_⟩
    · rcases List.mem_append.1 ha with ha | ha
      · rcases mem_mergeActions hmerged a ha with ha | ha
        · exact (hfirstActions a ha).mono hfirstSub
        · exact (hsecondActions a ha).mono hsecondSub
      · simp only [List.mem_cons, List.not_mem_nil, or_false] at ha
        rcases ha with rfl | rfl | rfl <;> exact ⟨rfl, rfl, by simp [finalMatch], by simp [finalMatch]⟩
    · rcases List.mem_append.1 hp with hp | hp
      · exact hfirstSub (hfirstPool.subset hp)
      · exact hsecondSub (hsecondPool.subset hp)

end DoublePoolDrawSystem

namespace DrawSystem

/-- The players that the draw system may put into the later matches. -/
def rosterPlayers : DrawSystem → List PlayerId
  | doublePool d => if d.players.length < 4 then [] else d.poolPlayers
  | _ => []

/-- The matches of a draw are between the players that are drawn. -/
theorem among_initCategory {t : TournamentStore} {c : CategoryStore} {d d' : DrawSystem}
    {ids : List PlayerId} {seed : ℕ} {actions : List AddMatchAction}
    (h : d.initCategory t c ids seed = .ok (d', actions)) :
    (∀ a ∈ actions, a.Among c.id ids) ∧ d'.rosterPlayers ⊆ ids := by
  cases d with
  | pool d =>
    simp only [initCategory, except_bind_ok] at h
    obtain ⟨⟨d₁, actions₁⟩, hinit, heq⟩ := h
    obtain ⟨rfl, rfl⟩ := Prod.mk.inj (except_pure_ok.1 heq)
    exact ⟨(PoolDrawSystem.among_initCategory hinit).1, List.nil_subset _⟩
  | doublePool d =>
    simp only [initCategory, except_bind_ok] at h
    obtain ⟨⟨d₁, actions₁⟩, hinit, heq⟩ := h
    obtain ⟨rfl, rfl⟩ := Prod.mk.inj (except_pure_ok.1 heq)
    obtain ⟨hactions, hpools⟩ := DoublePoolDrawSystem.among_initCategory hinit
    refine ⟨hactions, ?_⟩
    show (if d₁.players.length < 4 then [] else d₁.poolPlayers) ⊆ ids
    split
    · exact List.nil_subset _
    · next hlt =>
      rcases hpools with ⟨rfl, hlt'⟩ | hpools
      · exact (hlt hlt').elim
      · exact hpools
  | bestOfThree d =>
    simp only [initCategory, BestOfThreeDrawSystem.initCategory, except_bind_ok] at h
    generalize Mt19937.period = n, Mt19937.init seed = e at h
    obtain ⟨⟨d₁, actions₁⟩, ⟨_, _, hinit⟩, heq⟩ := h
    obtain ⟨rfl, rfl⟩ := Prod.mk.inj (except_pure_ok.1 heq)
    refine ⟨?_, List.nil_subset _⟩
    split at hinit
    · next first second =>
      simp only [except_bind_ok] at hinit
      obtain ⟨player, _, ⟨firstId, _⟩, _, ⟨secondId, _⟩, _, ⟨thirdId, _⟩, _, heq⟩ := hinit
      obtain ⟨rfl, rfl⟩ := Prod.mk.inj (except_pure_ok.1 heq)
      intro a ha
      obtain ⟨id, _, rfl⟩ := List.mem_map.1 ha
      refine ⟨rfl, rfl, fun p hp => ?_, fun p hp => ?_⟩
      · cases hp
        split <;> split <;> simp
      · cases hp
        split <;> split <;> simp
    · cases hinit
      simp

end DrawSystem

/-! ### The players of later matches -/

namespace PoolDrawSystem

variable {t : TournamentStore} {c : CategoryStore} {d : PoolDrawSystem}

/-- The rows name only players of other rows. -/
def RowsWithin (rows : ResultList) (players : List PlayerId) : Prop := ∀ row ∈ rows, row.1 ∈ players

theorem rowsWithin_rankBy {wins : PlayerId → ℕ} {index rank : ℕ} {previous : PlayerId}
    {players : List PlayerId} : RowsWithin (rankBy wins index previous rank players) players := by
  induction players generalizing index rank previous with
  | nil => simp [rankBy, RowsWithin]
  | cons p players ih =>
    intro row hrow
    rw [rankBy] at hrow
    rcases List.mem_cons.1 hrow with rfl | hrow
    · exact List.mem_cons_self
    · exact List.mem_cons_of_mem _ (ih row hrow)

theorem rowsWithin_orderByWins {start : ℕ} {rows rows' : ResultList}
    (h : orderByWinsWithinGroup c d start rows = .ok rows') : RowsWithin rows' (rows.map (·.1)) := by
  unfold orderByWinsWithinGroup at h
  split at h
  · cases h
    exact fun row hrow => List.mem_map_of_mem hrow
  · obtain ⟨wins, _, h⟩ := except_bind_ok.1 h
    have hperm : (stdSort (fun a b => decide (wins b < wins a)) (rows.map (·.1))).Perm (rows.map (·.1)) :=
      perm_stdSort _
    split at h
    · cases h
      simp [RowsWithin]
    · next first players hsort =>
      rw [hsort] at hperm
      cases h
      intro row hrow
      refine hperm.subset ?_
      rcases List.mem_cons.1 hrow with rfl | hrow
      · exact List.mem_cons_self
      · exact List.mem_cons_of_mem _ (rowsWithin_rankBy row hrow)

theorem rowsWithin_orderByRemaining {start : ℕ} {rows rows' : ResultList}
    (h : orderByRemainingCriteria t c d start rows = .ok rows') : RowsWithin rows' (rows.map (·.1)) := by
  unfold orderByRemainingCriteria at h
  split at h
  · cases h
    exact fun row hrow => List.mem_map_of_mem hrow
  · simp only [except_bind_ok, except_pure_ok] at h
    obtain ⟨weights, _, totals, _, rfl⟩ := h
    intro row hrow
    obtain ⟨p, hp, rfl⟩ := List.mem_map.1 hrow
    exact (perm_stdSort _).subset (List.fst_mem_of_mem_zipIdx hp)

theorem rowsWithin_orderTies {order : ℕ → ResultList → Except Failure ResultList}
    (horder : ∀ start rows rows', order start rows = .ok rows' → RowsWithin rows' (rows.map (·.1)))
    {start : ℕ} {group rows rows' : ResultList} (h : orderTies order start group rows = .ok rows') :
    RowsWithin rows' ((group ++ rows).map (·.1)) := by
  induction rows generalizing start group rows' with
  | nil =>
    rw [List.append_nil]
    exact horder _ _ _ h
  | cons row rows ih =>
    rw [orderTies] at h
    split at h
    · have := ih h
      rwa [List.append_assoc] at this
    · simp only [except_bind_ok, except_pure_ok] at h
      obtain ⟨ordered, hordered, rest, hrest, rfl⟩ := h
      intro r hr
      rw [List.map_append, List.mem_append]
      rcases List.mem_append.1 hr with hr | hr
      · exact .inl (horder _ _ _ hordered r hr)
      · exact .inr (ih hrest r hr)

theorem rowsWithin_getResults {rows : ResultList} (h : getResults t c d = .ok rows) :
    RowsWithin rows d.players := by
  unfold getResults at h
  split at h
  · cases h
    simp [RowsWithin]
  · split at h
    · cases h
      simp [RowsWithin]
    · simp only [except_bind_ok] at h
      obtain ⟨rows₁, h₁, rows₂, h₂, h₃⟩ := h
      have hties : ∀ {rows rows' : ResultList} {order : ℕ → ResultList → Except Failure ResultList},
          (∀ start rows rows', order start rows = .ok rows' → RowsWithin rows' (rows.map (·.1))) →
          orderTies order 0 (rows.take 1) (rows.drop 1) = .ok rows' → RowsWithin rows' (rows.map (·.1)) := by
        intro rows rows' order horder h
        have := rowsWithin_orderTies horder h
        rwa [List.take_append_drop] at this
      intro row hrow
      have hrow₂ := hties (fun _ _ _ => rowsWithin_orderByRemaining) h₃ row hrow
      obtain ⟨row₂, hrow₂, heq₂⟩ := List.mem_map.1 hrow₂
      have hrow₁ := hties (fun _ _ _ => rowsWithin_orderByWins) h₂ row₂ hrow₂
      obtain ⟨row₁, hrow₁, heq₁⟩ := List.mem_map.1 hrow₁
      have hrow₀ := rowsWithin_orderByWins h₁ row₁ hrow₁
      obtain ⟨row₀, hrow₀, heq₀⟩ := List.mem_map.1 hrow₀
      obtain ⟨p, hp, rfl⟩ := List.mem_map.1 hrow₀
      rw [← heq₂, ← heq₁, ← heq₀]
      exact List.fst_mem_of_mem_zipIdx hp

theorem winner_mem {m : MatchStore} {p : PlayerId} (h : winner m = .ok p) :
    ∃ i, m.getPlayer i = some p := by
  simp only [winner, except_bind_ok] at h
  obtain ⟨index, _, i, _, h⟩ := h
  refine ⟨i, ?_⟩
  unfold optionalValue at h
  split at h
  · next hp =>
    cases h
    exact hp
  · cases h

end PoolDrawSystem

/-- The action is one that a draw system returns for a category: on one of its matches, with a player
of the list. -/
def DrawAction.Among (id : CategoryId) (players : PlayerId → Prop) : DrawAction → Prop
  | setMatchPlayer a => a.combinedId.categoryId = id ∧ ∀ p, a.playerId = some p → players p
  | setMatchBye combinedId _ saved stack => combinedId.categoryId = id ∧ saved = .unwritten ∧ stack = []

theorem CategoryStore.getMatch_mem {c : CategoryStore} {id : MatchId} {m : MatchStore}
    (h : c.getMatch id = .ok m) : m ∈ c.matchList := by
  unfold getMatch at h
  split at h
  · cases h
  · split at h
    · cases h
    · next hm =>
      cases h
      exact List.mem_of_getElem? hm

namespace DoublePoolDrawSystem

variable {t : TournamentStore} {c : CategoryStore} {d : DoublePoolDrawSystem} {players : PlayerId → Prop}

theorem matchFromEnd_mem {n : ℕ} {m : MatchStore} (h : matchFromEnd c d n = .ok m) : m ∈ c.matchList := by
  unfold matchFromEnd at h
  split at h
  · cases h
  · split at h
    · cases h
    · exact CategoryStore.getMatch_mem h

theorem among_assignBoth {m : MatchStore} {ps : Option PlayerId × Option PlayerId} {id : CategoryId}
    (hm : m.combinedId.categoryId = id) (hwhite : ∀ p, ps.1 = some p → players p)
    (hblue : ∀ p, ps.2 = some p → players p) : ∀ a ∈ assignBoth m ps, a.Among id players := by
  intro a ha
  unfold assignBoth assign at ha
  rcases List.mem_append.1 ha with ha | ha
  · split at ha
    · cases ha
    · obtain rfl := List.mem_singleton.1 ha
      exact ⟨hm, hwhite⟩
  · split at ha
    · cases ha
    · obtain rfl := List.mem_singleton.1 ha
      exact ⟨hm, hblue⟩

theorem opponents_mem {first second : PlayerId} {ps : Option PlayerId × Option PlayerId}
    (h : opponents t first second = .ok ps) (hfirst : players first) (hsecond : players second) :
    (∀ p, ps.1 = some p → players p) ∧ ∀ p, ps.2 = some p → players p := by
  simp only [opponents, except_bind_ok, except_pure_ok] at h
  obtain ⟨player, _, rfl⟩ := h
  split
  · exact ⟨fun p hp => by cases hp; exact hsecond, fun p hp => by cases hp; exact hfirst⟩
  · exact ⟨fun p hp => by cases hp; exact hfirst, fun p hp => by cases hp; exact hsecond⟩

theorem rowPlayer_mem {rows : ResultList} {i : ℕ} {p : PlayerId} {ids : List PlayerId}
    (hrows : PoolDrawSystem.RowsWithin rows ids) (h : rowPlayer rows i = .ok p) : p ∈ ids := by
  unfold rowPlayer at h
  split at h
  · next row hrow =>
    cases h
    exact hrows row (List.mem_of_getElem? hrow)
  · cases h

theorem poolResults_within {pool : Option PoolDrawSystem} {rows : ResultList}
    (h : poolResults t c pool = .ok rows) :
    PoolDrawSystem.RowsWithin rows ((pool.map (·.players)).getD []) := by
  unfold poolResults at h
  split at h
  · exact PoolDrawSystem.rowsWithin_getResults h
  · cases h

theorem among_updateCategory {id : CategoryId} {actions : List DrawAction}
    (hids : ∀ m ∈ c.matchList, m.combinedId.categoryId = id)
    (hpools : 4 ≤ d.players.length → ∀ p ∈ d.poolPlayers, players p)
    (hmatches : ∀ m ∈ c.matchList, ∀ i p, m.getPlayer i = some p → players p)
    (h : updateCategory t c d = .ok actions) : ∀ a ∈ actions, a.Among id players := by
  unfold updateCategory at h
  split at h
  · cases h
    simp
  · next hlen =>
    have hpools := hpools (by omega)
    simp only [except_bind_ok] at h
    obtain ⟨firstSemi, hfirstSemi, secondSemi, hsecondSemi, finals, hfinals, h⟩ := h
    have hfirstId := hids _ (matchFromEnd_mem hfirstSemi)
    have hsecondId := hids _ (matchFromEnd_mem hsecondSemi)
    have hfinalId := hids _ (matchFromEnd_mem hfinals)
    have hnone : ∀ {m : MatchStore}, m.combinedId.categoryId = id →
        ∀ a ∈ assignBoth m (none, none), a.Among id players :=
      fun hm => among_assignBoth hm (by simp) (by simp)
    split at h
    · cases h
      intro a ha
      simp only [List.mem_append] at ha
      rcases ha with (ha | ha) | ha
      · exact hnone hfirstId a ha
      · exact hnone hsecondId a ha
      · exact hnone hfinalId a ha
    · simp only [except_bind_ok] at h
      obtain ⟨firstRows, hfirstRows, secondRows, hsecondRows, firstWinner, hfirstWinner, secondRunnerUp,
        hsecondRunnerUp, firstPlayers, hfirstPlayers, secondWinner, hsecondWinner, firstRunnerUp,
        hfirstRunnerUp, secondPlayers, hsecondPlayers, h⟩ := h
      have hfirst : ∀ {i p}, rowPlayer firstRows i = .ok p → players p := fun hrow =>
        hpools _ (List.mem_append_left _ (rowPlayer_mem (poolResults_within hfirstRows) hrow))
      have hsecond : ∀ {i p}, rowPlayer secondRows i = .ok p → players p := fun hrow =>
        hpools _ (List.mem_append_right _ (rowPlayer_mem (poolResults_within hsecondRows) hrow))
      obtain ⟨hwhite₁, hblue₁⟩ := opponents_mem hfirstPlayers (hfirst hfirstWinner) (hsecond hsecondRunnerUp)
      obtain ⟨hwhite₂, hblue₂⟩ := opponents_mem hsecondPlayers (hsecond hsecondWinner) (hfirst hfirstRunnerUp)
      have hsemis : ∀ a ∈ assignBoth firstSemi firstPlayers ++ assignBoth secondSemi secondPlayers,
          a.Among id players := by
        intro a ha
        rcases List.mem_append.1 ha with ha | ha
        · exact among_assignBoth hfirstId hwhite₁ hblue₁ a ha
        · exact among_assignBoth hsecondId hwhite₂ hblue₂ a ha
      split at h
      · simp only [except_bind_ok, except_pure_ok] at h
        obtain ⟨white, hwhite, blue, hblue, finalPlayers, hfinalPlayers, rfl⟩ := h
        obtain ⟨i, hi⟩ := PoolDrawSystem.winner_mem hwhite
        obtain ⟨j, hj⟩ := PoolDrawSystem.winner_mem hblue
        obtain ⟨hwhite₃, hblue₃⟩ := opponents_mem hfinalPlayers
          (hmatches _ (matchFromEnd_mem hfirstSemi) i _ hi) (hmatches _ (matchFromEnd_mem hsecondSemi) j _ hj)
        intro a ha
        rcases List.mem_append.1 ha with ha | ha
        · exact hsemis a ha
        · exact among_assignBoth hfinalId hwhite₃ hblue₃ a ha
      · cases h
        intro a ha
        rcases List.mem_append.1 ha with ha | ha
        · exact hsemis a ha
        · exact hnone hfinalId a ha

end DoublePoolDrawSystem

/-- The follow-up actions of a draw system are on matches of the category, with players of its pools
or of its matches. -/
theorem DrawSystem.among_updateCategory {t : TournamentStore} {c : CategoryStore} {d : DrawSystem}
    {players : PlayerId → Prop} {actions : List DrawAction}
    (hids : ∀ m ∈ c.matchList, m.combinedId.categoryId = c.id)
    (hroster : ∀ p ∈ d.rosterPlayers, players p)
    (hmatches : ∀ m ∈ c.matchList, ∀ i p, m.getPlayer i = some p → players p)
    (h : d.updateCategory t c = .ok actions) : ∀ a ∈ actions, a.Among c.id players := by
  cases d with
  | pool d =>
    cases h
    simp
  | doublePool d =>
    refine DoublePoolDrawSystem.among_updateCategory hids (fun hlen p hp => hroster p ?_) hmatches h
    show p ∈ if _ then _ else _
    rw [if_neg (by omega)]
    exact hp
  | bestOfThree d =>
    change BestOfThreeDrawSystem.updateCategory c d = .ok actions at h
    unfold BestOfThreeDrawSystem.updateCategory at h
    split at h
    · cases h
      simp
    · split at h
      · simp only [except_bind_ok, except_pure_ok] at h
        obtain ⟨_, _, _, _, _, _, _, _, rfl⟩ := h
        intro a ha
        split at ha
        · cases ha
        · obtain rfl := List.mem_singleton.1 ha
          exact ⟨rfl, rfl, rfl⟩
      · cases h

end JudoAssistant
