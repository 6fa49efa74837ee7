import JudoAssistant.Tournament.CategoryCourse
import JudoAssistant.Tournament.EventEffects

/-!
# Assertions of the rulesets

A match event may ask a draw system for its next actions, which looks at the winners of other matches.  Only the
double pools look at matches whose status they have not seen: they trust the counters of the category.  Here
the errors of a match event are followed through the draw systems.
-/

namespace JudoAssistant

open Effect Exec

variable {t t' : TournamentStore} {c c' : CategoryStore} {m m' : MatchStore}

/-! ### Operations without an assertion of the ruleset -/

theorem optionalValue_ne {α : Type} (a : Option α) : optionalValue a ≠ .error (.assertion .ruleset) := by
  cases a <;> exact fun h => nomatch h

theorem CategoryStore.getMatch_ne (c : CategoryStore) (x : MatchId) :
    c.getMatch x ≠ .error (.assertion .ruleset) := by
  unfold getMatch
  split
  · exact fun h => nomatch h
  · split <;> exact fun h => nomatch h

theorem TournamentStore.getPlayer_ne (t : TournamentStore) (id : PlayerId) :
    t.getPlayer id ≠ .error (.assertion .ruleset) := by
  unfold getPlayer
  split <;> exact fun h => nomatch h

theorem Categories.getCategory_ne (categories : Categories) (id : CategoryId) :
    categories.getCategory id ≠ .error (.assertion .ruleset) := by
  unfold getCategory
  split <;> exact fun h => nomatch h

theorem CategoryStatus.decrement_ne (s : CategoryStatus) (status : MatchStatus) :
    s.decrement status ≠ .error (.assertion .ruleset) := by
  cases status <;> exact except_bind_ne (check_ne (by decide)) fun _ _ h => nomatch h

theorem PositionManager.at'_ne {α : Type} (p : PositionManager α) (handle : PositionHandle) :
    p.at' handle ≠ .error (.assertion .ruleset) := by
  unfold at'
  split <;> exact fun h => nomatch h

theorem TatamiList.updateStatus_ne (tatamis : TatamiList) (l : BlockLocation) (x : CombinedId) (status : MatchStatus) :
    tatamis.updateStatus l x status ≠ .error (.assertion .ruleset) :=
  except_bind_ne (PositionManager.at'_ne _ _) fun _ _ =>
    except_bind_ne (PositionManager.at'_ne _ _) fun _ _ h => nomatch h

namespace Exec

theorem avoids_read {α : Type} {f : TournamentStore → Except Failure α} (h : f t ≠ .error (.assertion .ruleset)) :
    Avoids (.assertion .ruleset) (read f) t := by
  intro t' herror
  have hlift : lift (f t) t = .error (.assertion .ruleset) t' := herror
  exact Avoids.lift h t' hlift

theorem avoids_getCategory {id : CategoryId} : Avoids (.assertion .ruleset) (getCategory id) t :=
  avoids_read (Categories.getCategory_ne _ id)

theorem avoids_getPlayer {id : PlayerId} : Avoids (.assertion .ruleset) (getPlayer id) t :=
  avoids_read (t.getPlayer_ne id)

theorem avoids_getMatch {x : CombinedId} : Avoids (.assertion .ruleset) (getMatch x) t :=
  avoids_getCategory.bind fun c _ _ => .lift (c.getMatch_ne x.matchId)

theorem avoids_editPlayer {id : PlayerId} {f : PlayerStore → Except Failure PlayerStore}
    (h : ∀ p, f p ≠ .error (.assertion .ruleset)) : Avoids (.assertion .ruleset) (editPlayer id f) t :=
  avoids_getPlayer.bind fun p _ _ => Avoids.bind (.lift (h p)) fun _ _ _ => .modify

theorem avoids_editCategory {id : CategoryId} {f : CategoryStore → Except Failure CategoryStore}
    (h : ∀ c, t.categories id = some c → f c ≠ .error (.assertion .ruleset)) :
    Avoids (.assertion .ruleset) (editCategory id f) t := by
  refine avoids_getCategory.bind fun c _ hc => ?_
  obtain ⟨hcategory, rfl⟩ := getCategory_ok.1 hc
  exact Avoids.bind (.lift (h c hcategory)) fun _ _ _ => .modify

theorem avoids_editMatch {x : CombinedId} {f : MatchStore → Except Failure MatchStore}
    (h : ∀ c m, t.categories x.categoryId = some c → c.getMatch x.matchId = .ok m →
      f m ≠ .error (.assertion .ruleset)) :
    Avoids (.assertion .ruleset) (editMatch x f) t :=
  avoids_editCategory fun c hc => except_bind_ne (c.getMatch_ne x.matchId) fun m hm =>
    except_bind_ne (h c m hc hm) fun _ _ h => nomatch h

theorem avoids_editTatamis {f : Categories → TatamiList → Except Failure TatamiList}
    (h : ∀ categories tatamis, f categories tatamis ≠ .error (.assertion .ruleset)) :
    Avoids (.assertion .ruleset) (editTatamis f) t :=
  Avoids.get.bind fun _ _ _ => Avoids.bind (.lift (h _ _)) fun _ _ _ => .set

theorem avoids_doIf {b : Bool} {x : Exec Unit} (h : Avoids (.assertion .ruleset) x t) :
    Avoids (.assertion .ruleset) (doIf b x) t := by
  cases b with
  | false => exact .pure
  | true => exact h

end Exec

theorem avoids_moveCounter (id : CategoryId) (m : MatchStore) (source target : MatchStatus) :
    Avoids (.assertion .ruleset) (moveCounter id m source target) t := by
  refine Avoids.bind (avoids_editCategory fun c _ => ?_) fun _ _ _ => avoids_getCategory.bind fun c _ _ => ?_
  · exact except_bind_ne (CategoryStatus.decrement_ne _ _) fun _ _ h => nomatch h
  · split
    · exact .pure
    · exact avoids_editTatamis fun _ _ => TatamiList.updateStatus_ne _ _ _ _

theorem SetMatchPlayerAction.avoids_addTo (x : CombinedId) (player : Option PlayerId) :
    Avoids (.assertion .ruleset) (addTo x player) t := by
  cases player with
  | none => exact .pure
  | some id =>
    refine avoids_editPlayer fun p => ?_
    exact except_bind_ne (check_ne (by decide)) fun _ _ h => nomatch h

theorem SetMatchPlayerAction.avoids_eraseFrom (x : CombinedId) (player : Option PlayerId) :
    Avoids (.assertion .ruleset) (eraseFrom x player) t := by
  cases player with
  | none => exact .pure
  | some id => exact avoids_editPlayer fun p h => nomatch h

theorem SetMatchPlayerAction.avoids_redo (a : SetMatchPlayerAction) : Avoids (.assertion .ruleset) a.redoImpl t := by
  refine Avoids.get.bind fun _ _ _ => ?_
  split
  · refine avoids_getMatch.bind fun _ _ _ => Avoids.bind (avoids_editMatch fun _ _ _ _ h => nomatch h) fun _ _ _ => ?_
    exact (avoids_addTo _ _).bind fun _ _ _ => (avoids_eraseFrom _ _).bind fun _ _ _ => .pure
  · exact .pure

/-! ### Winners -/

theorem RulesetIdentifier.getWinner_ne (h : m.getStatus = .finished) :
    getWinner m ≠ .error (.assertion .ruleset) := by
  unfold getWinner
  split
  · rintro ⟨⟩
  · split
    · rintro ⟨⟩
    · rw [h]
      simp only [ne_eq]
      cases decidedWinner m <;> rintro ⟨⟩

namespace PoolDrawSystem

variable {d : PoolDrawSystem}

theorem winner_ne (h : m.getStatus = .finished) : winner m ≠ .error (.assertion .ruleset) :=
  except_bind_ne (RulesetIdentifier.getWinner_ne h) fun _ _ =>
    except_bind_ne (optionalValue_ne _) fun _ _ => optionalValue_ne _

/-- The matches with these ids are finished. -/
def Over (c : CategoryStore) (ids : List MatchId) : Prop :=
  ∀ id ∈ ids, ∀ m, c.getMatch id = .ok m → m.getStatus = .finished

theorem mutualWins_ne {ids : List MatchId} (h : Over c ids) (players : List PlayerId) :
    mutualWins c players ids ≠ .error (.assertion .ruleset) := by
  induction ids with
  | nil => exact fun h => nomatch h
  | cons id ids ih =>
    have hrest := ih fun id' hid => h id' (List.mem_cons_of_mem id hid)
    refine except_bind_ne (c.getMatch_ne id) fun m hm => except_bind_ne (optionalValue_ne _) fun white _ =>
      except_bind_ne (optionalValue_ne _) fun blue _ => ?_
    split
    · exact except_bind_ne (winner_ne (h id List.mem_cons_self m hm)) fun _ _ =>
        except_bind_ne hrest fun _ _ h => nomatch h
    · exact hrest

theorem winTotals_ne {ids : List MatchId} (h : Over c ids) : winTotals c ids ≠ .error (.assertion .ruleset) := by
  induction ids with
  | nil => exact fun h => nomatch h
  | cons id ids ih =>
    have hrest := ih fun id' hid => h id' (List.mem_cons_of_mem id hid)
    exact except_bind_ne (c.getMatch_ne id) fun m hm =>
      except_bind_ne (RulesetIdentifier.getWinner_ne (h id List.mem_cons_self m hm)) fun _ _ =>
      except_bind_ne (optionalValue_ne _) fun _ _ => except_bind_ne (optionalValue_ne _) fun _ _ =>
      except_bind_ne hrest fun _ _ h => nomatch h

theorem playerWeights_ne (t : TournamentStore) (ids : List PlayerId) :
    playerWeights t ids ≠ .error (.assertion .ruleset) := by
  induction ids with
  | nil => exact fun h => nomatch h
  | cons id ids ih =>
    refine except_bind_ne (t.getPlayer_ne id) fun p _ => ?_
    split
    · exact fun h => nomatch h
    · exact except_bind_ne ih fun _ _ h => nomatch h

theorem orderByWinsWithinGroup_ne (h : Over c d.matchIds) (start : ℕ) (rows : ResultList) :
    orderByWinsWithinGroup c d start rows ≠ .error (.assertion .ruleset) := by
  unfold orderByWinsWithinGroup
  split
  · exact fun h => nomatch h
  · refine except_bind_ne (mutualWins_ne h _) fun _ _ => ?_
    split <;> exact fun h => nomatch h

theorem orderByRemainingCriteria_ne (h : Over c d.matchIds) (start : ℕ) (rows : ResultList) :
    orderByRemainingCriteria t c d start rows ≠ .error (.assertion .ruleset) := by
  unfold orderByRemainingCriteria
  split
  · exact fun h => nomatch h
  · exact except_bind_ne (playerWeights_ne t _) fun _ _ => except_bind_ne (winTotals_ne h) fun _ _ h => nomatch h

theorem orderTies_ne {order : ℕ → ResultList → Except Failure ResultList}
    (h : ∀ start rows, order start rows ≠ .error (.assertion .ruleset)) (start : ℕ) (group rows : ResultList) :
    orderTies order start group rows ≠ .error (.assertion .ruleset) := by
  induction rows generalizing start group with
  | nil => exact h start group
  | cons row rows ih =>
    unfold orderTies
    split
    · exact ih start _
    · exact except_bind_ne (h start group) fun _ _ => except_bind_ne (ih _ _) (by rintro _ _ ⟨⟩)

theorem getResults_ne (h : (c.getStatus .elimination).isFinished = true → Over c d.matchIds) :
    getResults t c d ≠ .error (.assertion .ruleset) := by
  unfold getResults
  split
  · exact fun h => nomatch h
  · split
    · exact fun h => nomatch h
    · next hfinished =>
      have hover := h (by simpa using hfinished)
      exact except_bind_ne (orderByWinsWithinGroup_ne hover _ _) fun _ _ =>
        except_bind_ne (orderTies_ne (orderByWinsWithinGroup_ne hover) _ _ _) fun _ _ =>
        orderTies_ne (orderByRemainingCriteria_ne hover) _ _ _

end PoolDrawSystem

/-! ### Draw systems -/

namespace DoublePoolDrawSystem

variable {d : DoublePoolDrawSystem}

/-- The matches of both pools. -/
def poolMatchIds (d : DoublePoolDrawSystem) : List MatchId :=
  (d.firstPool.toList ++ d.secondPool.toList).flatMap (·.matchIds)

theorem matchFromEnd_ne (c : CategoryStore) (d : DoublePoolDrawSystem) (n : ℕ) :
    matchFromEnd c d n ≠ .error (.assertion .ruleset) := by
  unfold matchFromEnd
  split
  · exact fun h => nomatch h
  · split
    · exact fun h => nomatch h
    · exact c.getMatch_ne _

theorem opponents_ne (t : TournamentStore) (first second : PlayerId) :
    opponents t first second ≠ .error (.assertion .ruleset) :=
  except_bind_ne (t.getPlayer_ne first) fun _ _ h => nomatch h

theorem rowPlayer_ne (rows : ResultList) (i : ℕ) : rowPlayer rows i ≠ .error (.assertion .ruleset) := by
  unfold rowPlayer
  split <;> exact fun h => nomatch h

theorem poolResults_ne {pool : Option PoolDrawSystem} (h : ∀ p, pool = some p → PoolDrawSystem.Over c p.matchIds) :
    poolResults t c pool ≠ .error (.assertion .ruleset) := by
  cases pool with
  | none => exact fun h => nomatch h
  | some p => exact PoolDrawSystem.getResults_ne fun _ => h p rfl

/-- The winners of pools are asked for when the counters say that the eliminations are finished. -/
theorem updateCategory_ne (h : 4 ≤ d.players.length → (c.getStatus .elimination).isFinished = true →
    PoolDrawSystem.Over c d.poolMatchIds) : updateCategory t c d ≠ .error (.assertion .ruleset) := by
  unfold updateCategory
  split
  · exact fun h => nomatch h
  · next hlength =>
    refine except_bind_ne (matchFromEnd_ne c d 3) fun first _ => except_bind_ne (matchFromEnd_ne c d 2) fun second _ =>
      except_bind_ne (matchFromEnd_ne c d 1) fun final _ => ?_
    split
    · exact fun h => nomatch h
    · next hfinished =>
      have hover := h (Nat.le_of_not_lt hlength) (by simpa using hfinished)
      have hpool (pool : PoolDrawSystem) (hmem : pool ∈ d.firstPool.toList ++ d.secondPool.toList) :
          PoolDrawSystem.Over c pool.matchIds :=
        fun id hid => hover id (List.mem_flatMap.2 ⟨pool, hmem, hid⟩)
      refine except_bind_ne (poolResults_ne fun pool hp => hpool pool (by simp [hp])) fun _ _ =>
        except_bind_ne (poolResults_ne fun pool hp => hpool pool (by simp [hp])) fun _ _ =>
        except_bind_ne (rowPlayer_ne _ _) fun _ _ => except_bind_ne (rowPlayer_ne _ _) fun _ _ =>
        except_bind_ne (opponents_ne t _ _) fun _ _ => except_bind_ne (rowPlayer_ne _ _) fun _ _ =>
        except_bind_ne (rowPlayer_ne _ _) fun _ _ => except_bind_ne (opponents_ne t _ _) fun _ _ => ?_
      split
      · next hsemiFinals =>
        exact except_bind_ne (PoolDrawSystem.winner_ne hsemiFinals.1) fun _ _ =>
          except_bind_ne (PoolDrawSystem.winner_ne hsemiFinals.2) fun _ _ =>
          except_bind_ne (opponents_ne t _ _) fun _ _ h => nomatch h
      · exact fun h => nomatch h

end DoublePoolDrawSystem

namespace BestOfThreeDrawSystem

theorem wantsBye_ne (first second : MatchStore) : wantsBye first second ≠ .error (.assertion .ruleset) := by
  unfold wantsBye
  split
  · next hfinished =>
    exact except_bind_ne (RulesetIdentifier.getWinner_ne hfinished.1) fun _ _ =>
      except_bind_ne (RulesetIdentifier.getWinner_ne hfinished.2) fun _ _ h => nomatch h
  · exact fun h => nomatch h

/-- The best of three looks at the winners of finished matches only. -/
theorem updateCategory_ne (c : CategoryStore) (d : BestOfThreeDrawSystem) :
    updateCategory c d ≠ .error (.assertion .ruleset) := by
  unfold updateCategory
  split
  · exact fun h => nomatch h
  · split
    · exact except_bind_ne (c.getMatch_ne _) fun first _ => except_bind_ne (c.getMatch_ne _) fun second _ =>
        except_bind_ne (wantsBye_ne first second) fun _ _ => except_bind_ne (c.getMatch_ne _) fun _ _ h => nomatch h
    · exact fun h => nomatch h

end BestOfThreeDrawSystem

end JudoAssistant
