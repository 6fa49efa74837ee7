import JudoAssistant.Tournament.IndexRuns
import JudoAssistant.Tournament.Linked
import JudoAssistant.Tournament.PoolMerge

/-!
# The matches of the draws

In every session, the semifinals and the final of a double pool are three matches that belong to no pool,
and the best of three has three matches.
-/

namespace JudoAssistant

open Effect Exec TournamentStore

namespace DoublePoolDrawSystem

/-! ### The matches of a draw -/

/-- The semifinals and the final are three matches and belong to no pool. -/
structure Shaped (d : DoublePoolDrawSystem) (x y z : MatchId) : Prop where
  matchIds : ∃ ids, d.matchIds = ids ++ [x, y, z]
  distinct : x ≠ y ∧ x ≠ z ∧ y ≠ z
  first : ∀ pool, d.firstPool = some pool → x ∉ pool.matchIds ∧ y ∉ pool.matchIds ∧ z ∉ pool.matchIds
  second : ∀ pool, d.secondPool = some pool → x ∉ pool.matchIds ∧ y ∉ pool.matchIds ∧ z ∉ pool.matchIds

theorem Shaped.matchFromEnd {d : DoublePoolDrawSystem} {x y z : MatchId} (h : d.Shaped x y z) (c : CategoryStore) :
    matchFromEnd c d 3 = c.getMatch x ∧ matchFromEnd c d 2 = c.getMatch y ∧ matchFromEnd c d 1 = c.getMatch z := by
  obtain ⟨ids, hids⟩ := h.matchIds
  unfold DoublePoolDrawSystem.matchFromEnd
  rw [hids]
  simp

end DoublePoolDrawSystem

/-- A draw system after a draw, or without players. -/
def DrawSystem.Formed : DrawSystem → Prop
  | pool _ => True
  | doublePool d => 4 ≤ d.players.length → ∃ x y z, d.Shaped x y z
  | bestOfThree d => d.players.length = 2 → ∃ x y z, d.matchIds = [x, y, z] ∧ x ≠ y ∧ x ≠ z ∧ y ≠ z

theorem DrawSystem.formed_getDrawSystem (identifier : DrawSystemIdentifier) : (getDrawSystem identifier).Formed := by
  cases identifier with
  | pool => trivial
  | doublePool => exact fun hlength => absurd hlength (by decide)
  | bestOfThree => exact fun hlength => absurd hlength (by decide)

section

variable {t : TournamentStore} {c : CategoryStore} {ids : List PlayerId} {seed : ℕ} {actions : List AddMatchAction}

theorem PoolDrawSystem.matchIds_initCategory {d d' : PoolDrawSystem}
    (h : d.initCategory t c ids seed = .ok (d', actions)) :
    d'.matchIds = actions.map (·.combinedId.matchId) := by
  unfold initCategory at h
  split at h
  · cases h
    rfl
  · simp only at h
    split at h <;>
    · obtain ⟨order, -, h⟩ := except_bind_ok.1 h
      obtain ⟨actions', -, heq⟩ := except_bind_ok.1 h
      obtain ⟨rfl, rfl⟩ := Prod.mk.inj (except_pure_ok.1 heq)
      rfl

theorem DoublePoolDrawSystem.shaped_initCategory {d d' : DoublePoolDrawSystem}
    (h : d.initCategory t c ids seed = .ok (d', actions))
    (hnodup : (actions.map (·.combinedId.matchId)).Nodup) (hfour : 4 ≤ d'.players.length) :
    ∃ x y z, d'.Shaped x y z := by
  simp only [initCategory, except_bind_ok] at h
  generalize Mt19937.period = n at h
  obtain ⟨_, _, h⟩ := h
  split at h
  · next hlt =>
    cases h
    exact absurd hlt (Nat.not_lt.2 hfour)
  · simp only [except_bind_ok] at h
    obtain ⟨⟨firstPool, firstActions⟩, hfirst, ⟨secondPool, secondActions⟩, hsecond, merged, hmerged,
      ⟨x, _⟩, _, ⟨y, _⟩, _, ⟨z, _⟩, _, heq⟩ := h
    obtain ⟨rfl, rfl⟩ := Prod.mk.inj (except_pure_ok.1 heq)
    rw [List.map_append, List.nodup_append] at hnodup
    obtain ⟨-, hfinals, hdisjoint⟩ := hnodup
    obtain ⟨hfirstMerged, hsecondMerged⟩ := subset_mergeActions hmerged
    have hpool : ∀ {pool : PoolDrawSystem} {poolActions : List AddMatchAction},
        pool.matchIds = poolActions.map (·.combinedId.matchId) → poolActions ⊆ merged →
        x ∉ pool.matchIds ∧ y ∉ pool.matchIds ∧ z ∉ pool.matchIds := by
      intro pool poolActions hids hsub
      have hmem : ∀ w ∈ pool.matchIds, w ∈ merged.map (·.combinedId.matchId) := by
        intro w hw
        rw [hids] at hw
        exact List.map_subset _ hsub hw
      refine ⟨fun hx => ?_, fun hy => ?_, fun hz => ?_⟩
      · exact hdisjoint x (hmem x hx) x (by simp [finalMatch]) rfl
      · exact hdisjoint y (hmem y hy) y (by simp [finalMatch]) rfl
      · exact hdisjoint z (hmem z hz) z (by simp [finalMatch]) rfl
    refine ⟨x, y, z, ⟨merged.map (·.combinedId.matchId), ?_⟩, ?_, ?_, ?_⟩
    · rw [List.map_append]
      rfl
    · simpa [finalMatch, and_assoc] using hfinals
    · rintro pool ⟨⟩
      exact hpool (PoolDrawSystem.matchIds_initCategory hfirst) hfirstMerged
    · rintro pool ⟨⟩
      exact hpool (PoolDrawSystem.matchIds_initCategory hsecond) hsecondMerged

/-- The matches that are drawn for two players. -/
theorem BestOfThreeDrawSystem.initCategory_two {d : BestOfThreeDrawSystem} (htwo : ids.length = 2)
    (h : initCategory t c ids seed = .ok (d, actions)) :
    ∃ (first second third : MatchId) (white blue : PlayerId), white ∈ ids ∧ blue ∈ ids ∧ d.players = ids ∧
      d.matchIds = [first, second, third] ∧ actions = d.matchIds.map fun x =>
        ⟨⟨c.id, x⟩, .elimination, "Best-of-Three", false, some white, some blue⟩ := by
  obtain ⟨p, q, rfl⟩ := List.length_eq_two.1 htwo
  simp only [initCategory, except_bind_ok] at h
  generalize Mt19937.period = n, Mt19937.init seed = e at h
  obtain ⟨_, -, player, hplayer, ⟨first, g₁⟩, -, ⟨second, g₂⟩, -, ⟨third, g₃⟩, -, heq⟩ := h
  cases heq
  refine ⟨first, second, third, _, _, ?_, ?_, rfl, rfl, rfl⟩
  · split <;> split <;> simp
  · split <;> split <;> simp

theorem BestOfThreeDrawSystem.players_initCategory {d : BestOfThreeDrawSystem}
    (h : initCategory t c ids seed = .ok (d, actions)) : d.players = ids := by
  by_cases htwo : ids.length = 2
  · obtain ⟨_, _, _, _, _, -, -, hplayers, -, -⟩ := initCategory_two htwo h
    exact hplayers
  · simp only [initCategory, except_bind_ok] at h
    generalize Mt19937.period = n, Mt19937.init seed = e at h
    obtain ⟨_, -, h⟩ := h
    split at h
    · exact absurd rfl htwo
    · cases h
      rfl

/-- A draw of distinct matches is formed. -/
theorem DrawSystem.formed_initCategory {d d' : DrawSystem} (h : d.initCategory t c ids seed = .ok (d', actions))
    (hnodup : (actions.map (·.combinedId.matchId)).Nodup) : d'.Formed := by
  cases d with
  | pool d =>
    obtain ⟨⟨d₁, actions₁⟩, -, heq⟩ := except_bind_ok.1 h
    obtain ⟨rfl, rfl⟩ := Prod.mk.inj (except_pure_ok.1 heq)
    trivial
  | doublePool d =>
    obtain ⟨⟨d₁, actions₁⟩, hinit, heq⟩ := except_bind_ok.1 h
    obtain ⟨rfl, rfl⟩ := Prod.mk.inj (except_pure_ok.1 heq)
    exact DoublePoolDrawSystem.shaped_initCategory hinit hnodup
  | bestOfThree d =>
    obtain ⟨⟨d₁, actions₁⟩, hinit, heq⟩ := except_bind_ok.1 h
    obtain ⟨rfl, rfl⟩ := Prod.mk.inj (except_pure_ok.1 heq)
    intro htwo
    rw [BestOfThreeDrawSystem.players_initCategory hinit] at htwo
    obtain ⟨x, y, z, _, _, -, -, -, hids, rfl⟩ := BestOfThreeDrawSystem.initCategory_two htwo hinit
    rw [hids] at hnodup
    exact ⟨x, y, z, hids, by simpa [and_assoc] using hnodup⟩

end

/-- Match events and resets keep the draw systems. -/
theorem matchBlind_drawSystem (id : CategoryId) : MatchBlind fun t => (t.categories id).map (·.drawSystem) where
  player _ _ _ _ _ _ := rfl
  category t k c c' hc hsame := by
    by_cases hk : id = k
    · subst hk
      rw [categories_setCategory_self, hc, hsame]
      rfl
    · exact congrArg (Option.map _) (Function.update_of_ne hk _ _)
  tatamis _ _ _ := rfl

namespace DrawCategoriesAction

variable {t t' : TournamentStore} {id : CategoryId} {drawn : DrawnCategory}

theorem Draws.stored {c c' : CategoryStore} {ms : List MatchStore} (h : Draws t id drawn t' c c' ms) :
    t'.categories id = some c' := by
  rw [h.tournament]
  exact categories_setCategory_self _ _ _

/-- The draw of a category leaves the draw system that `initCategory` has returned with the matches. -/
theorem drawCategory_initCategory {seed : ℕ} (ht : t.Indexed) (h : drawCategory seed id t = .ok drawn t') :
    ∃ c c' ms u, Draws t id drawn t' c c' ms ∧ c'.status = computeStatus c'.matchList ∧
      c.drawSystem.initCategory u c.clearMatches (inOrder c.players) seed = .ok (c'.drawSystem, drawn.actions) := by
  obtain ⟨c, c', ms, hdraws⟩ := drawCategory_draws ht h
  obtain ⟨c₀, us, t₁, drawSystem, actions, us', t₂, c₂, hc₀, -, -, hinit, hadds, hc₂, rfl, rfl⟩ :=
    drawCategory_ok h
  obtain rfl : c = c₀ := Option.some.inj (hdraws.category.symm.trans hc₀)
  -- The new matches leave the draw system alone.
  have hsystem : c₂.drawSystem = drawSystem := by
    have hframe := frame_forEach (fun a _ => (matchBlind_drawSystem id).addMatch_redo (a := a)) hadds
    rw [hc₂, categories_setCategory_self] at hframe
    exact Option.some.inj hframe
  have hc' : { c₂ with status := computeStatus c₂.matchList } = c' := by
    have hstored := hdraws.stored
    rw [categories_setCategory_self] at hstored
    exact Option.some.inj hstored
  subst hc'
  refine ⟨c, _, ms, t₁.setCategory id c.clearMatches, hdraws, rfl, hinit.trans ?_⟩
  exact congrArg (fun d => Except.ok (d, actions)) hsystem.symm

/-- The draw of a category leaves a formed draw system. -/
theorem formed_drawCategory {seed : ℕ} (ht : t.Indexed) (h : drawCategory seed id t = .ok drawn t') :
    ∃ c c', t.categories id = some c ∧ t'.categories id = some c' ∧ drawn.oldDrawSystem = c.drawSystem ∧
      c'.drawSystem.Formed ∧ ∀ i, i ≠ id → t'.categories i = t.categories i := by
  obtain ⟨c, c', ms, u, hdraws, -, hinit⟩ := drawCategory_initCategory ht h
  obtain ⟨actions, rfl, hms, -⟩ := hdraws.drawn
  refine ⟨c, c', hdraws.category, hdraws.stored, rfl, DrawSystem.formed_initCategory hinit ?_, fun i hi => ?_⟩
  · have hnodup := hdraws.indexed.nodup_ids
    rw [hdraws.matchList, hms, List.map_map] at hnodup
    exact hnodup
  · rw [hdraws.tournament]
    exact Function.update_of_ne hi _ _

end DrawCategoriesAction

/-! ### Every session -/

namespace TournamentStore

/-- The draw systems of the categories are formed. -/
def Formed (t : TournamentStore) : Prop := ∀ id c, t.categories id = some c → c.drawSystem.Formed

/-- What `Indexed` and `Formed` read. -/
def shapes : TournamentStore → (PlayerId → Option PlayerId) × (CategoryId →
    Option ((CategoryId × List MatchStore × (MatchId → Option ℕ) × ByType UInt64) × DrawSystem)) :=
  project (·.id) fun c => ((c.id, c.matchList, c.matchMap, c.matchCount), c.drawSystem)

theorem keys_of_shapes {t t' : TournamentStore} (h : t'.shapes = t.shapes) : t'.keys = t.keys := by
  refine Prod.ext (funext (players_of_project h)) (funext fun id => ?_)
  have hcategory := congrArg (Option.map Prod.fst) (categories_of_project h id)
  rwa [Option.map_map, Option.map_map] at hcategory

theorem Formed.of_drawSystem {t t' : TournamentStore} (ht : t.Formed)
    (h : ∀ id, (t'.categories id).map (·.drawSystem) = (t.categories id).map (·.drawSystem)) : t'.Formed := by
  intro id c' hc'
  have hcategory := h id
  rw [hc', Option.map_some, eq_comm, Option.map_eq_some_iff] at hcategory
  obtain ⟨c, hc, heq⟩ := hcategory
  rw [← heq]
  exact ht id c hc

theorem drawSystem_of_shapes {t t' : TournamentStore} (h : t'.shapes = t.shapes) (id : CategoryId) :
    (t'.categories id).map (·.drawSystem) = (t.categories id).map (·.drawSystem) := by
  have hcategory := congrArg (Option.map Prod.snd) (categories_of_project h id)
  rwa [Option.map_map, Option.map_map] at hcategory

theorem Formed.setCategory {t : TournamentStore} (ht : t.Formed) {id : CategoryId} {c : CategoryStore}
    (hc : c.drawSystem.Formed) : (t.setCategory id c).Formed := by
  intro i c' hc'
  change Function.update t.categories id (some c) i = some c' at hc'
  by_cases hi : i = id
  · subst hi
    rw [Function.update_self] at hc'
    obtain rfl := Option.some.inj hc'
    exact hc
  · rw [Function.update_of_ne hi] at hc'
    exact ht i c' hc'

end TournamentStore

section

variable {α : Type}

/-- What leaves the draw systems alone keeps them formed. -/
theorem keeps_formed_of_frame {x : Exec α} (h : ∀ id, Frame (fun t => (t.categories id).map (·.drawSystem)) x) :
    Keeps Formed x fun _ => True :=
  fun _ _ _ ht hx => ⟨ht.of_drawSystem fun id => h id hx, trivial⟩

theorem keeps_shaped {x : Exec α} (h : Keeps Indexed x fun _ => True)
    (hx : ∀ id, Frame (fun t => (t.categories id).map (·.drawSystem)) x) :
    Keeps (fun t => t.Indexed ∧ t.Formed) x fun _ => True :=
  (h.and (keeps_formed_of_frame hx)).mono fun _ _ => trivial

end

theorem keeps_setDrawSystem_formed (id : CategoryId) {drawSystem : DrawSystem} (h : drawSystem.Formed) :
    Keeps Formed (editCategory id fun c => .ok (c.setDrawSystem drawSystem)) fun _ => True := by
  intro t u t' ht hu
  obtain ⟨c, c', -, heq, rfl⟩ := editCategory_ok.1 hu
  cases heq
  exact ⟨ht.setCategory h, trivial⟩

theorem keeps_addCategory_formed {c : CategoryStore} (hc : c.drawSystem.Formed) :
    Keeps Formed (addCategory c) fun _ => True := by
  intro t u t' ht hu
  obtain ⟨-, rfl⟩ := addCategory_ok.1 hu
  exact ⟨ht.setCategory hc, trivial⟩

theorem keeps_eraseCategory_formed (id : CategoryId) :
    Keeps Formed (eraseCategory id) fun c => c.drawSystem.Formed := by
  intro t c t' ht herase
  obtain ⟨hc, rfl⟩ := eraseCategory_ok.1 herase
  refine ⟨fun i d hd => ?_, ht id c hc⟩
  change Function.update t.categories id none i = some d at hd
  by_cases hi : i = id
  · subst hi
    rw [Function.update_self] at hd
    cases hd
  · rw [Function.update_of_ne hi] at hd
    exact ht i d hd

theorem DrawCategoriesAction.keeps_recoverCategory_formed {d : DrawnCategory} (hd : d.oldDrawSystem.Formed) :
    Keeps Formed (recoverCategory d) fun _ => True := by
  have hblind := matchBlind_drawSystem
  refine keeps_getCategory.bind fun _ _ =>
    (keeps_forEach_unit fun a _ => keeps_formed_of_frame fun id => (hblind id).addMatch_undo).bind fun _ _ =>
    (keeps_setDrawSystem_formed _ hd).bind fun _ _ =>
    (keeps_formed_of_frame fun id => (hblind id).editCategory fun c c' h => ?_).bind fun _ _ =>
    Keeps.bind (keeps_forEach_unit fun m _ =>
      keeps_formed_of_frame fun id => (hblind id).engagePlayers.bind fun _ => (hblind id).pushMatch)
      fun _ _ => .pure trivial
  cases h
  rfl

/-- A draw of a tournament whose draw systems are formed. -/
theorem DrawCategoriesAction.keeps_drawCategory_formed (seed : ℕ) (id : CategoryId) :
    Keeps (fun t => t.Indexed ∧ t.Formed) (drawCategory seed id)
      fun d => d.Recoverable ∧ d.oldDrawSystem.Formed := by
  intro t d t' ht h
  obtain ⟨hindexed, hd⟩ := keeps_drawCategory_indexed seed id ht.1 h
  obtain ⟨c, c', hc, hc', hold, hformed, hother⟩ := formed_drawCategory ht.1 h
  refine ⟨⟨hindexed, fun i ci hci => ?_⟩, hd, hold ▸ ht.2 id c hc⟩
  by_cases hi : i = id
  · subst hi
    rw [hc'] at hci
    cases hci
    exact hformed
  · rw [hother i hi] at hci
    exact ht.2 i ci hci

theorem lasting_formed : Lasting shapes (fun t => t.Indexed ∧ t.Formed) (fun c => c.Indexed ∧ c.drawSystem.Formed)
    DrawSystem.Formed (fun d => d.Recoverable ∧ d.oldDrawSystem.Formed) where
  congr _ _ h ht := ⟨ht.1.of_keys (keys_of_shapes h), ht.2.of_drawSystem (drawSystem_of_shapes h)⟩
  member := memberBlind_project (fun _ _ => rfl) fun _ _ => rfl
  field := fieldBlind_project fun _ _ => rfl
  layout := layoutBlind_project fun _ _ _ => rfl
  label := labelBlind_project (fun _ _ => rfl) (fun _ _ => rfl) fun _ _ => rfl
  value := valueBlind_project
  course := {
    follow := fun _ _ _ _ _ _ _ _ _ => trivial
    assign := fun a h => keeps_shaped (course_indexed.assign a h) fun id =>
      (matchBlind_drawSystem id).setMatchPlayer_redo
    event := fun x kind r => keeps_shaped (course_indexed.event x kind r) fun id => (matchBlind_drawSystem id).editMatch
    clear := fun x => keeps_shaped (course_indexed.clear x) fun id => (matchBlind_drawSystem id).editMatch
    counter := fun x m source target =>
      keeps_shaped (course_indexed.counter x m source target) fun id => (matchBlind_drawSystem id).moveCounter }
  courseBack := {
    unassign := fun a => keeps_shaped (courseBack_indexed.unassign a) fun id =>
      (matchBlind_drawSystem id).setMatchPlayer_undo
    recover := fun x f ok => keeps_shaped (courseBack_indexed.recover x f ok) fun id =>
      (matchBlind_drawSystem id).editMatch
    counter := fun x m source target =>
      keeps_shaped (courseBack_indexed.counter x m source target) fun id => (matchBlind_drawSystem id).moveCounter }
  addTo x player := keeps_shaped (keeps_addTo_indexed x player) fun id => (matchBlind_drawSystem id).addTo
  eraseFrom x player := keeps_shaped (keeps_eraseFrom_indexed x player) fun id => (matchBlind_drawSystem id).eraseFrom
  addPlayer p := keeps_shaped (keeps_addPlayer_indexed p) fun id t u t' h => by
    obtain ⟨-, rfl⟩ := addPlayer_ok.1 h
    rfl
  erasePlayer p := keeps_shaped (keeps_erasePlayer_indexed p) fun id t u t' h => by
    obtain ⟨-, rfl⟩ := erasePlayer_ok.1 h
    rfl
  addCategory _ hc := ((keeps_addCategory_indexed hc.1).and (keeps_addCategory_formed hc.2)).mono fun _ _ => trivial
  eraseCategory id := (keeps_eraseCategory_indexed id).and (keeps_eraseCategory_formed id)
  drawSystem _ id c ht hc := ht.2 id c hc
  getDrawSystem := DrawSystem.formed_getDrawSystem
  init _ _ _ _ hd := ⟨CategoryStore.indexed_init _ _ _ _, hd⟩
  setDrawSystem id _ hd :=
    ((lasting_indexed.setDrawSystem id _ trivial).and (keeps_setDrawSystem_formed id hd)).mono fun _ _ => trivial
  drawCategory := DrawCategoriesAction.keeps_drawCategory_formed
  recoverCategory _ hd := ((DrawCategoriesAction.keeps_recoverCategory_indexed hd.1).and
    (DrawCategoriesAction.keeps_recoverCategory_formed hd.2)).mono fun _ _ => trivial

/-- The draw systems are formed in every session. -/
def formedDiscipline : Session.Discipline Outline :=
  layoutDiscipline.strengthen (fun t => t.Indexed ∧ t.Formed)
    ⟨⟨by simp, by simp, by simp⟩, fun _ _ hc => by cases hc⟩ fun _ hidle => lasting_formed.action hidle

theorem Session.Constructed.formed {s : Session} (h : s.Constructed) : s.tournament.Formed :=
  (formedDiscipline.sound_of_reachableBy h).inv.2.2

end JudoAssistant
