import JudoAssistant.Lib.Effect
import JudoAssistant.Web.TatamiModel

/-!
# The upcoming matches are followed

`TournamentStore.upcoming` is what the list of a `WebTatamiModel` is for.  The groups that the model has
loaded are the first ones of the tatami, and the matches that it takes for unfinished are those of the
loaded groups in their order.  Both are kept as long as every notification that names groups names all
those that changed since the one before.
-/

namespace JudoAssistant

open Effect

/-! ### What the list is for -/

namespace TournamentStore

variable (t : TournamentStore) (tatami : TatamiLocation)

/-- The concurrent groups of a tatami in their order, with their matches. -/
def groupsOf : List (PositionId × List CombinedId) :=
  match t.tatamis.tatamis.elements tatami.handle.id with
  | none => []
  | some store =>
    store.groups.ids.map fun id => (id, ((store.groups.elements id).map (·.matchIds)).getD [])

/-- A match is finished. -/
def finished (id : CombinedId) : Bool :=
  match ConcurrentBlockGroup.matchStatus t.categories id with
  | .ok .finished => true
  | _ => false

/-- The first unfinished matches of the tatami. -/
def upcoming : List CombinedId :=
  (((t.groupsOf tatami).flatMap Prod.snd).filter fun id => !t.finished id).take
    WebTatamiModel.displayCount

/-- The tatami exists, its groups are in order, and their matches exist and are in one group each. -/
structure Watchable : Prop where
  sound : ∃ store, t.tatamis.tatamis.elements tatami.handle.id = some store ∧ store.groups.Sound
  nodup : ((t.groupsOf tatami).flatMap Prod.snd).Nodup
  found : ∀ id ∈ (t.groupsOf tatami).flatMap Prod.snd,
    ∃ status, ConcurrentBlockGroup.matchStatus t.categories id = .ok status

end TournamentStore

namespace WebTatamiModel

/-! ### The loop of `flush` -/

theorem copyMatches_spec {i : ℕ} (hi : i ≤ displayCount) (unfinished : List (CombinedId × ℕ)) :
    (copyMatches i unfinished).matchIds = (unfinished.map Prod.fst).take (displayCount - i) ∧
      (copyMatches i unfinished).inserted = (copyMatches i unfinished).matchIds ∧
      ((copyMatches i unfinished).changed = false → (copyMatches i unfinished).matchIds = []) := by
  induction unfinished generalizing i with
  | nil => simp [copyMatches]
  | cons e unfinished ih =>
    unfold copyMatches
    split
    · rename_i hlast
      simp [hlast]
    · rename_i hmore
      obtain ⟨hids, hinserted, -⟩ := ih (i := i + 1) (by omega)
      obtain ⟨n, hn⟩ : ∃ n, displayCount - i = n + 1 := ⟨displayCount - i - 1, by omega⟩
      have hn' : displayCount - (i + 1) = n := by omega
      rw [hn'] at hids
      refine ⟨?_, congrArg _ hinserted, fun hchanged => by cases hchanged⟩
      simp only [hids, hn, List.map_cons, List.take_succ_cons]

/-- The loop of `flush` leaves the first unfinished matches, and says what it changes. -/
theorem showMatches_spec {i : ℕ} (hi : i ≤ displayCount) (matchIds : List CombinedId)
    (unfinished : List (CombinedId × ℕ)) :
    (showMatches i matchIds unfinished).matchIds = (unfinished.map Prod.fst).take (displayCount - i) ∧
      ((showMatches i matchIds unfinished).changed = false →
        (showMatches i matchIds unfinished).matchIds = matchIds) ∧
      ∀ id ∈ (showMatches i matchIds unfinished).matchIds, id ∉ matchIds →
        id ∈ (showMatches i matchIds unfinished).inserted := by
  induction matchIds generalizing i unfinished with
  | nil =>
    obtain ⟨hids, hinserted, hchanged⟩ := copyMatches_spec hi unfinished
    refine ⟨hids, hchanged, fun id hid _ => ?_⟩
    rw [showMatches, hinserted]
    exact hid
  | cons current matchIds ih =>
    have herase : ∀ unfinished', (showMatches i matchIds unfinished').matchIds =
          (unfinished'.map Prod.fst).take (displayCount - i) ∧
        ((true : Bool) = false → (showMatches i matchIds unfinished').matchIds = current :: matchIds) ∧
        ∀ id ∈ (showMatches i matchIds unfinished').matchIds, id ∉ current :: matchIds →
          id ∈ (showMatches i matchIds unfinished').inserted := by
      intro unfinished'
      obtain ⟨hids, -, hinserted⟩ := ih hi unfinished'
      exact ⟨hids, fun h => (Bool.noConfusion h), fun id hid hnot =>
        hinserted id hid fun hmem => hnot (List.mem_cons_of_mem _ hmem)⟩
    cases unfinished with
    | nil => exact herase []
    | cons e unfinished =>
      obtain ⟨combinedId, loadingTime⟩ := e
      unfold showMatches
      split
      · exact herase _
      · rename_i hmore
        split
        · rename_i hsame
          subst hsame
          obtain ⟨hids, hchanged, hinserted⟩ := ih (i := i + 1) (by omega) unfinished
          obtain ⟨n, hn⟩ : ∃ n, displayCount - i = n + 1 := ⟨displayCount - i - 1, by omega⟩
          have hn' : displayCount - (i + 1) = n := by omega
          rw [hn'] at hids
          refine ⟨?_, fun hsame => congrArg _ (hchanged hsame), fun id hid hnot => ?_⟩
          · simp only [hids, hn, List.map_cons, List.take_succ_cons]
          · rw [List.mem_cons, not_or] at hnot
            exact hinserted id ((List.mem_cons.1 hid).resolve_left hnot.1) hnot.2
        · exact herase _

/-! ### The loaded matches -/

/-- The matches `ids` are loaded in this order, and those of the set are taken for unfinished. -/
structure Follows (m : WebTatamiModel) (ids : List CombinedId) : Prop where
  times : m.loadedMatches = ids.zipIdx
  unfinished : m.unfinishedLoadedMatches =
    ids.zipIdx.filter fun e => decide (e.1 ∈ m.unfinishedLoadedMatchesSet)
  loaded : ∀ id ∈ m.unfinishedLoadedMatchesSet, id ∈ ids

theorem lookup_zipIdx_eq_none {ids : List CombinedId} {id : CombinedId} :
    ids.zipIdx.lookup id = none ↔ id ∉ ids := by
  rw [List.lookup_eq_none_iff]
  constructor
  · intro h hid
    obtain ⟨i, hi⟩ := List.getElem?_of_mem hid
    simpa using h (id, i) (List.mem_zipIdx_iff_getElem?.2 hi)
  · intro h e he
    have hmem := List.fst_mem_of_mem_zipIdx he
    simp only [bne_iff_ne, ne_eq]
    rintro rfl
    exact h hmem

variable {m : WebTatamiModel} {ids : List CombinedId}

namespace Follows

theorem map_unfinished (h : m.Follows ids) : m.unfinishedLoadedMatches.map Prod.fst =
    ids.filter fun id => decide (id ∈ m.unfinishedLoadedMatchesSet) := by
  rw [h.unfinished]
  conv_rhs => rw [← List.zipIdx_map_fst 0 ids, List.filter_map]
  rfl

theorem mem_iff_of_ne {e : CombinedId × ℕ} (hids : ids.Nodup) (he : e ∈ ids.zipIdx)
    {s : Finset CombinedId} (hs : ∀ id, id ≠ e.1 → (id ∈ s ↔ id ∈ m.unfinishedLoadedMatchesSet))
    {e' : CombinedId × ℕ} (he' : e' ∈ ids.zipIdx) (hne : e' ≠ e) :
    decide (e'.1 ∈ m.unfinishedLoadedMatchesSet) = decide (e'.1 ∈ s) :=
  decide_eq_decide.2 (hs e'.1 fun heq => hne (Window.eq_of_mem_zipIdx hids he' he heq)).symm

/-- A match that has finished is taken out. -/
theorem takeOut (h : m.Follows ids) (hids : ids.Nodup) {e : CombinedId × ℕ} (he : e ∈ ids.zipIdx)
    (hmem : e.1 ∈ m.unfinishedLoadedMatchesSet) : Follows { m with
      unfinishedLoadedMatches := m.unfinishedLoadedMatches.eraseP fun e' => decide (e'.1 = e.1)
      unfinishedLoadedMatchesSet := m.unfinishedLoadedMatchesSet.erase e.1 } ids := by
  have hs : ∀ id, id ≠ e.1 →
      (id ∈ m.unfinishedLoadedMatchesSet.erase e.1 ↔ id ∈ m.unfinishedLoadedMatchesSet) := by
    intro id hne
    rw [Finset.mem_erase, and_iff_right hne]
  refine ⟨h.times, ?_, fun id hid => h.loaded id (Finset.mem_of_mem_erase hid)⟩
  simp only [h.unfinished]
  refine Window.eraseP_filter (Window.pairwise_zipIdx ids 0) he (decide_eq_true hmem)
    (decide_eq_false (Finset.notMem_erase _ _)) (decide_eq_true rfl)
    (fun e' he' hne => mem_iff_of_ne hids he hs he' hne) fun e' he' hne => ?_
  rw [decide_eq_false_iff_not]
  exact fun heq => hne (Window.eq_of_mem_zipIdx hids he' he heq)

/-- A match that is open again is put back. -/
theorem putBack (h : m.Follows ids) (hids : ids.Nodup) {e : CombinedId × ℕ} (he : e ∈ ids.zipIdx)
    (hmem : e.1 ∉ m.unfinishedLoadedMatchesSet) : Follows { m with
      unfinishedLoadedMatches := Window.insertBy Prod.snd e m.unfinishedLoadedMatches
      unfinishedLoadedMatchesSet := insert e.1 m.unfinishedLoadedMatchesSet } ids := by
  have hs : ∀ id, id ≠ e.1 →
      (id ∈ insert e.1 m.unfinishedLoadedMatchesSet ↔ id ∈ m.unfinishedLoadedMatchesSet) := by
    intro id hne
    rw [Finset.mem_insert, or_iff_right hne]
  refine ⟨h.times, ?_, fun id hid => ?_⟩
  · simp only [h.unfinished]
    exact Window.insertBy_filter (Window.pairwise_zipIdx ids 0) he (decide_eq_false hmem)
      (decide_eq_true (Finset.mem_insert_self _ _)) fun e' he' hne => mem_iff_of_ne hids he hs he' hne
  · rcases Finset.mem_insert.1 hid with rfl | hid
    · exact List.fst_mem_of_mem_zipIdx he
    · exact h.loaded id hid

/-- What one turn of `changeMatches` does: the set knows the match that was named, if it is loaded. -/
theorem changeMatch (h : m.Follows ids) (hids : ids.Nodup) {category : CategoryStore}
    (categoryId : CategoryId) {matchId : MatchId} {match' : MatchStore}
    (hmatch : category.getMatch matchId = .ok match') :
    ∃ u s, WebTatamiModel.changeMatch category categoryId m matchId = .ok { m with
        unfinishedLoadedMatches := u
        unfinishedLoadedMatchesSet := s } ∧
      Follows { m with unfinishedLoadedMatches := u, unfinishedLoadedMatchesSet := s } ids ∧
      (∀ id, id ≠ ⟨categoryId, matchId⟩ → (id ∈ s ↔ id ∈ m.unfinishedLoadedMatchesSet)) ∧
      (⟨categoryId, matchId⟩ ∈ ids → (⟨categoryId, matchId⟩ ∈ s ↔ match'.getStatus ≠ .finished)) := by
  unfold WebTatamiModel.changeMatch
  cases hlookup : m.loadedMatches.lookup (⟨categoryId, matchId⟩ : CombinedId) with
  | none =>
    refine ⟨_, _, by simp only [hlookup], h, fun _ _ => Iff.rfl, fun hmem => ?_⟩
    rw [h.times, lookup_zipIdx_eq_none] at hlookup
    exact absurd hmem hlookup
  | some time =>
    have he : ((⟨categoryId, matchId⟩ : CombinedId), time) ∈ ids.zipIdx := by
      obtain ⟨before, after, hsplit, -⟩ := List.lookup_eq_some_iff.1 hlookup
      rw [← h.times, hsplit]
      exact List.mem_append_right _ List.mem_cons_self
    simp only [hlookup, hmatch, bind, Except.bind, pure, Except.pure]
    by_cases hmem : (⟨categoryId, matchId⟩ : CombinedId) ∈ m.unfinishedLoadedMatchesSet
    · by_cases hfinished : match'.getStatus = .finished
      · refine ⟨_, _, by simp [hmem, hfinished], h.takeOut hids he hmem, fun id hne => ?_, fun _ => ?_⟩
        · rw [Finset.mem_erase, and_iff_right hne]
        · simp [hfinished]
      · exact ⟨_, _, by simp [hmem, hfinished], h, fun _ _ => Iff.rfl,
          fun _ => iff_of_true hmem hfinished⟩
    · by_cases hfinished : match'.getStatus = .finished
      · exact ⟨_, _, by simp [hmem, hfinished], h, fun _ _ => Iff.rfl,
          fun _ => iff_of_false hmem (not_not.2 hfinished)⟩
      · refine ⟨_, _, by simp [hmem, hfinished], h.putBack hids he hmem, fun id hne => ?_, fun _ => ?_⟩
        · rw [Finset.mem_insert, or_iff_right hne]
        · simp [hfinished]

/-- What `changeMatches` does to a model that is not resetting. -/
theorem changeMatches (h : m.Follows ids) (hids : ids.Nodup) {category : CategoryStore}
    (categoryId : CategoryId) {matchIds : List MatchId}
    (hfound : ∀ matchId ∈ matchIds, ∃ match', category.getMatch matchId = .ok match') :
    ∃ u s, matchIds.foldlM (WebTatamiModel.changeMatch category categoryId) m = .ok { m with
        unfinishedLoadedMatches := u
        unfinishedLoadedMatchesSet := s } ∧
      Follows { m with unfinishedLoadedMatches := u, unfinishedLoadedMatchesSet := s } ids ∧
      (∀ id, ¬(id.categoryId = categoryId ∧ id.matchId ∈ matchIds) →
        (id ∈ s ↔ id ∈ m.unfinishedLoadedMatchesSet)) ∧
      ∀ matchId ∈ matchIds, ⟨categoryId, matchId⟩ ∈ ids → ∀ match',
        category.getMatch matchId = .ok match' →
        (⟨categoryId, matchId⟩ ∈ s ↔ match'.getStatus ≠ .finished) := by
  induction matchIds generalizing m with
  | nil => exact ⟨_, _, rfl, h, fun _ _ => Iff.rfl, fun _ hmem => absurd hmem List.not_mem_nil⟩
  | cons matchId matchIds ih =>
    obtain ⟨match', hmatch⟩ := hfound matchId List.mem_cons_self
    obtain ⟨u₁, s₁, hstep, h₁, hother₁, hnamed₁⟩ := h.changeMatch hids categoryId hmatch
    obtain ⟨u, s, hrest, h₂, hother, hnamed⟩ := ih h₁ fun matchId' hmem =>
      hfound matchId' (List.mem_cons_of_mem _ hmem)
    refine ⟨u, s, ?_, h₂, fun id hid => ?_, fun matchId' hmem hloaded match'' hmatch' => ?_⟩
    · rw [List.foldlM_cons, hstep]
      exact hrest
    · rw [hother id fun hid' => hid ⟨hid'.1, List.mem_cons_of_mem _ hid'.2⟩]
      refine hother₁ id ?_
      rintro rfl
      exact hid ⟨rfl, List.mem_cons_self⟩
    · by_cases hlater : matchId' ∈ matchIds
      · exact hnamed matchId' hlater hloaded match'' hmatch'
      · -- the last turn that names the match is the first one
        obtain rfl := (List.mem_cons.1 hmem).resolve_right hlater
        rw [hmatch, Except.ok.injEq] at hmatch'
        subst hmatch'
        rw [hother _ fun hid => hlater hid.2]
        exact hnamed₁ hloaded

/-- What one turn of the inner loop of `loadBlocks` does. -/
theorem loadMatch (h : m.Follows ids) {t : TournamentStore} {id : CombinedId} (hid : id ∉ ids)
    {status : MatchStatus} (hstatus : ConcurrentBlockGroup.matchStatus t.categories id = .ok status) :
    ∃ l u s, WebTatamiModel.loadMatch t m id = .ok { m with
        loadedMatches := l
        unfinishedLoadedMatches := u
        unfinishedLoadedMatchesSet := s } ∧
      Follows { m with loadedMatches := l, unfinishedLoadedMatches := u, unfinishedLoadedMatchesSet := s }
        (ids ++ [id]) ∧
      (∀ id' ∈ ids, (id' ∈ s ↔ id' ∈ m.unfinishedLoadedMatchesSet)) ∧
      (id ∈ s ↔ t.finished id = false) := by
  have hlookup : m.loadedMatches.lookup id = none := by
    rw [h.times]
    exact lookup_zipIdx_eq_none.2 hid
  have hzip : (ids ++ [id]).zipIdx = ids.zipIdx ++ [(id, ids.length)] := by
    simp [List.zipIdx_append]
  have htimes : assign m.loadedMatches id m.loadedMatches.length = (ids ++ [id]).zipIdx := by
    unfold assign
    rw [hlookup, hzip, h.times, List.length_zipIdx]
    rfl
  have hset : id ∉ m.unfinishedLoadedMatchesSet := fun hmem => hid (h.loaded id hmem)
  have hne : ∀ id' ∈ ids, id' ≠ id := fun id' hid' heq => hid (heq ▸ hid')
  have hfinished : t.finished id = decide (status = .finished) := by
    unfold TournamentStore.finished
    rw [hstatus]
    cases status <;> rfl
  obtain ⟨category, hcategory, hstatus⟩ := except_bind_ok.1 hstatus
  obtain ⟨match', hmatch, hstatus⟩ := except_bind_ok.1 hstatus
  obtain rfl := except_pure_ok.1 hstatus
  unfold WebTatamiModel.loadMatch
  simp only [hcategory, hmatch, bind, Except.bind, pure, Except.pure]
  by_cases hdone : match'.getStatus = .finished
  · refine ⟨_, _, _, if_pos hdone, ⟨htimes, ?_, fun id' hid' => ?_⟩, fun _ _ => Iff.rfl, ?_⟩
    · simp only [hzip, h.unfinished, List.filter_append]
      simp [hset]
    · exact List.mem_append_left _ (h.loaded id' hid')
    · simp [hset, hfinished, hdone]
  · refine ⟨_, _, _, if_neg hdone, ⟨htimes, ?_, fun id' hid' => ?_⟩, fun id' hid' => ?_, ?_⟩
    · simp only [hzip, h.unfinished, List.filter_append, h.times, List.length_zipIdx]
      congr 1
      · refine List.filter_congr fun e he => decide_eq_decide.2 ?_
        rw [Finset.mem_insert, or_iff_right (hne e.1 (List.fst_mem_of_mem_zipIdx he))]
      · simp
    · rcases Finset.mem_insert.1 hid' with rfl | hid'
      · exact List.mem_append_right _ List.mem_cons_self
      · exact List.mem_append_left _ (h.loaded id' hid')
    · rw [Finset.mem_insert, or_iff_right (hne id' hid')]
    · simp [hfinished, hdone]

/-- What the inner loop of `loadBlocks` does. -/
theorem loadMatches (h : m.Follows ids) {t : TournamentStore} {new : List CombinedId}
    (hnodup : (ids ++ new).Nodup)
    (hfound : ∀ id ∈ new, ∃ status, ConcurrentBlockGroup.matchStatus t.categories id = .ok status) :
    ∃ l u s, new.foldlM (WebTatamiModel.loadMatch t) m = .ok { m with
        loadedMatches := l
        unfinishedLoadedMatches := u
        unfinishedLoadedMatchesSet := s } ∧
      Follows { m with loadedMatches := l, unfinishedLoadedMatches := u, unfinishedLoadedMatchesSet := s }
        (ids ++ new) ∧
      (∀ id ∈ ids, (id ∈ s ↔ id ∈ m.unfinishedLoadedMatchesSet)) ∧
      ∀ id ∈ new, (id ∈ s ↔ t.finished id = false) := by
  induction new generalizing m ids with
  | nil =>
    refine ⟨_, _, _, rfl, ?_, fun _ _ => Iff.rfl, fun id hid => absurd hid List.not_mem_nil⟩
    rw [List.append_nil]
    exact h
  | cons id new ih =>
    obtain ⟨status, hstatus⟩ := hfound id List.mem_cons_self
    have hid : id ∉ ids := fun hmem =>
      (List.nodup_append.1 hnodup).2.2 id hmem id List.mem_cons_self rfl
    obtain ⟨l₁, u₁, s₁, hstep, h₁, hold₁, hnew₁⟩ := h.loadMatch hid hstatus
    rw [List.append_cons] at hnodup
    obtain ⟨l, u, s, hrest, h₂, hold, hnew⟩ := ih h₁ hnodup fun id' hmem =>
      hfound id' (List.mem_cons_of_mem _ hmem)
    refine ⟨l, u, s, ?_, ?_, fun id' hid' => ?_, fun id' hid' => ?_⟩
    · rw [List.foldlM_cons, hstep]
      exact hrest
    · rw [List.append_cons]
      exact h₂
    · rw [hold id' (List.mem_append_left _ hid'), hold₁ id' hid']
    · rcases List.mem_cons.1 hid' with rfl | hid'
      · rw [hold id' (List.mem_append_right _ List.mem_cons_self), hnew₁]
      · exact hnew id' hid'

end Follows

/-! ### The loaded groups -/

/-- The matches of the first `k` groups. -/
def front (groups : List (PositionId × List CombinedId)) (k : ℕ) : List CombinedId :=
  (groups.take k).flatMap Prod.snd

/-- The first groups are loaded. -/
structure Loaded (m : WebTatamiModel) (groups : List (PositionId × List CombinedId)) : Prop where
  count : m.loadedGroups.card ≤ groups.length
  ids : ∀ id, id ∈ m.loadedGroups ↔ id ∈ (groups.take m.loadedGroups.card).map Prod.fst
  follows : m.Follows (front groups m.loadedGroups.card)

/-- The matches of the first groups that are taken for unfinished are those that are. -/
def Knows (m : WebTatamiModel) (t : TournamentStore) (ids : List CombinedId)
    (stale : CombinedId → Prop) : Prop :=
  ∀ id ∈ ids, ¬stale id → (id ∈ m.unfinishedLoadedMatchesSet ↔ t.finished id = false)

/-- What the loading of groups leaves. -/
structure SameList (m m' : WebTatamiModel) : Prop where
  tatami : m'.tatami = m.tatami
  resetting : m'.resetting = m.resetting
  matchesChanged : m'.matchesChanged = m.matchesChanged
  matchIds : m'.matchIds = m.matchIds
  insertedMatches : m'.insertedMatches = m.insertedMatches

variable {groups : List (PositionId × List CombinedId)}

theorem front_succ {k : ℕ} {g : PositionId × List CombinedId} (hg : groups[k]? = some g) :
    front groups (k + 1) = front groups k ++ g.2 := by
  unfold front
  rw [List.take_add_one, hg, List.flatMap_append]
  simp

theorem front_append_rest (groups : List (PositionId × List CombinedId)) (k : ℕ) :
    front groups k ++ (groups.drop k).flatMap Prod.snd = groups.flatMap Prod.snd := by
  unfold front
  rw [← List.flatMap_append, List.take_append_drop]

theorem nodup_front (h : (groups.flatMap Prod.snd).Nodup) (k : ℕ) : (front groups k).Nodup := by
  rw [← front_append_rest groups k] at h
  exact (List.nodup_append.1 h).1

theorem mem_of_mem_front {k : ℕ} {id : CombinedId} (h : id ∈ front groups k) :
    id ∈ groups.flatMap Prod.snd := by
  rw [← front_append_rest groups k]
  exact List.mem_append_left _ h

section Tatami

variable {t : TournamentStore} {tatami : TatamiLocation} {store : TatamiStore}

theorem groupsOf_eq (hstore : t.tatamis.tatamis.elements tatami.handle.id = some store) :
    t.groupsOf tatami =
      store.groups.ids.map fun id => (id, ((store.groups.elements id).map (·.matchIds)).getD []) := by
  unfold TournamentStore.groupsOf
  rw [hstore]

theorem map_fst_groupsOf (hstore : t.tatamis.tatamis.elements tatami.handle.id = some store) :
    (t.groupsOf tatami).map Prod.fst = store.groups.ids := by
  rw [groupsOf_eq hstore, List.map_map]
  exact List.map_id _

/-- A group of a tatami, as `getHandle` and `at` give it. -/
theorem group_of_index (hstore : t.tatamis.tatamis.elements tatami.handle.id = some store)
    (hsound : store.groups.Sound) {k : ℕ} (hk : k < store.groups.size) :
    ∃ id group, store.groups.getHandle k = .ok ⟨id, k⟩ ∧ store.groups.at' ⟨id, k⟩ = .ok group ∧
      (t.groupsOf tatami)[k]? = some (id, group.matchIds) := by
  obtain ⟨id, hid⟩ : ∃ id, store.groups.ids[k]? = some id := ⟨_, List.getElem?_eq_getElem hk⟩
  obtain ⟨group, hgroup⟩ := Option.isSome_iff_exists.1
    ((hsound.keys id).1 (List.mem_of_getElem? hid))
  refine ⟨id, group, ?_, PositionManager.at'_ok.2 hgroup, ?_⟩
  · unfold PositionManager.getHandle
    rw [hid]
  · rw [groupsOf_eq hstore, List.getElem?_map, hid]
    simp [hgroup]

/-- The next group is loaded. -/
theorem Loaded.loadGroup (h : m.Loaded (t.groupsOf tatami)) (ht : t.Watchable tatami)
    (hids : ((t.groupsOf tatami).map Prod.fst).Nodup)
    (hknows : m.Knows t (front (t.groupsOf tatami) m.loadedGroups.card) fun _ => False)
    {id : PositionId} {new : List CombinedId}
    (hindex : (t.groupsOf tatami)[m.loadedGroups.card]? = some (id, new)) :
    ∃ m', new.foldlM (loadMatch t) { m with loadedGroups := insert id m.loadedGroups } = .ok m' ∧
      m'.loadedGroups.card = m.loadedGroups.card + 1 ∧ m'.Loaded (t.groupsOf tatami) ∧
      (m'.Knows t (front (t.groupsOf tatami) m'.loadedGroups.card) fun _ => False) ∧ m.SameList m' := by
  have hnew : id ∉ m.loadedGroups := by
    rw [h.ids, List.map_take]
    exact Window.notMem_take_of_getElem? hids (by rw [List.getElem?_map, hindex]; rfl)
  have hcard : (insert id m.loadedGroups).card = m.loadedGroups.card + 1 :=
    Finset.card_insert_of_notMem hnew
  have hfront := front_succ hindex
  have hnodup := nodup_front ht.nodup (m.loadedGroups.card + 1)
  rw [hfront] at hnodup
  have hfollows : Follows { m with loadedGroups := insert id m.loadedGroups }
      (front (t.groupsOf tatami) m.loadedGroups.card) := ⟨h.follows.1, h.follows.2, h.follows.3⟩
  obtain ⟨l, u, s, hload, hfollows', hold, hnew'⟩ := hfollows.loadMatches hnodup fun id' hid' =>
    ht.found id' (mem_of_mem_front (hfront ▸ List.mem_append_right _ hid'))
  refine ⟨_, hload, hcard, ⟨?_, fun id' => ?_, ?_⟩, fun id' hid' _ => ?_, ⟨rfl, rfl, rfl, rfl, rfl⟩⟩
  · rw [hcard]
    exact (List.getElem?_eq_some_iff.1 hindex).1
  · rw [hcard, List.take_add_one, hindex, List.map_append, List.mem_append, Finset.mem_insert, h.ids]
    simp [or_comm]
  · rw [hcard, hfront]
    exact hfollows'
  · rw [hcard, hfront, List.mem_append] at hid'
    rcases hid' with hid' | hid'
    · exact (hold id' hid').trans (hknows id' hid' not_false)
    · exact hnew' id' hid'

/-- `loadBlocks` loads the groups up to enough unfinished matches, or all of them. -/
theorem loadGroups_spec (ht : t.Watchable tatami)
    (hstore : t.tatamis.tatamis.elements tatami.handle.id = some store) (hsound : store.groups.Sound)
    {fuel : ℕ} (h : m.Loaded (t.groupsOf tatami))
    (hknows : m.Knows t (front (t.groupsOf tatami) m.loadedGroups.card) fun _ => False)
    (hfuel : store.groups.size ≤ m.loadedGroups.card + fuel) :
    ∃ m', loadGroups t store fuel m = .ok m' ∧ m'.Loaded (t.groupsOf tatami) ∧
      (m'.Knows t (front (t.groupsOf tatami) m'.loadedGroups.card) fun _ => False) ∧ m.SameList m' ∧
      (displayCount ≤ m'.unfinishedLoadedMatches.length ∨
        m'.loadedGroups.card = (t.groupsOf tatami).length) := by
  have hlength : (t.groupsOf tatami).length = store.groups.size := by
    rw [← List.length_map Prod.fst, map_fst_groupsOf hstore]
    rfl
  have hsame : m.SameList m := ⟨rfl, rfl, rfl, rfl, rfl⟩
  induction fuel generalizing m with
  | zero =>
    unfold loadGroups
    have hall : m.loadedGroups.card = store.groups.size := le_antisymm (hlength ▸ h.count) hfuel
    refine ⟨m, ?_, h, hknows, hsame, .inr (hall.trans hlength.symm)⟩
    rw [if_pos hall]
    split <;> rfl
  | succ fuel ih =>
    unfold loadGroups
    by_cases hmore : m.unfinishedLoadedMatches.length < displayCount
    · rw [if_pos hmore]
      by_cases hall : m.loadedGroups.card = store.groups.size
      · rw [if_pos hall]
        exact ⟨m, rfl, h, hknows, hsame, .inr (hall.trans hlength.symm)⟩
      · rw [if_neg hall]
        have hk : m.loadedGroups.card < store.groups.size := lt_of_le_of_ne (hlength ▸ h.count) hall
        obtain ⟨id, group, hhandle, hgroup, hindex⟩ := group_of_index hstore hsound hk
        obtain ⟨m₁, hload, hcard, h₁, hknows₁, hsame₁⟩ :=
          h.loadGroup ht (map_fst_groupsOf hstore ▸ hsound.nodup) hknows hindex
        obtain ⟨m', hrest, h', hknows', hsame', hend⟩ :=
          ih h₁ hknows₁ (by omega) ⟨rfl, rfl, rfl, rfl, rfl⟩
        refine ⟨m', ?_, h', hknows', ?_, hend⟩
        · simp only [hhandle, hgroup, hload, bind, Except.bind]
          exact hrest
        · exact ⟨hsame'.1.trans hsame₁.1, hsame'.2.trans hsame₁.2, hsame'.3.trans hsame₁.3,
            hsame'.4.trans hsame₁.4, hsame'.5.trans hsame₁.5⟩
    · rw [if_neg hmore]
      exact ⟨m, rfl, h, hknows, hsame, .inl (not_lt.1 hmore)⟩

/-- The unfinished matches of the loaded groups start with the upcoming ones. -/
theorem Loaded.take_unfinished (h : m.Loaded (t.groupsOf tatami))
    (hknows : m.Knows t (front (t.groupsOf tatami) m.loadedGroups.card) fun _ => False)
    (hend : displayCount ≤ m.unfinishedLoadedMatches.length ∨
      m.loadedGroups.card = (t.groupsOf tatami).length) :
    (m.unfinishedLoadedMatches.map Prod.fst).take displayCount = t.upcoming tatami := by
  have hunfinished : m.unfinishedLoadedMatches.map Prod.fst =
      (front (t.groupsOf tatami) m.loadedGroups.card).filter fun id => !t.finished id := by
    rw [h.follows.map_unfinished]
    refine List.filter_congr fun id hid => ?_
    rw [Bool.eq_iff_iff, decide_eq_true_iff, Bool.not_eq_true', hknows id hid not_false]
  unfold TournamentStore.upcoming
  rcases hend with hend | hend
  · rw [← front_append_rest _ m.loadedGroups.card, List.filter_append, ← hunfinished,
      List.take_append_of_le_length]
    rwa [List.length_map]
  · rw [hunfinished, hend, front, List.take_length]

theorem loaded_reset (m : WebTatamiModel) (groups : List (PositionId × List CombinedId)) :
    m.reset.Loaded groups where
  count := Nat.zero_le _
  ids id := by simp [reset]
  follows := ⟨rfl, rfl, fun id hid => absurd hid (Finset.notMem_empty id)⟩

/-- What `flush` does: the list is the upcoming matches, and its changes are reported. -/
theorem flush_spec (ht : t.Watchable tatami) (hm : m.tatami = tatami)
    (h : m.resetting = false → m.Loaded (t.groupsOf tatami) ∧
      m.Knows t (front (t.groupsOf tatami) m.loadedGroups.card) fun _ => False) :
    ∃ m', m.flush t = .ok m' ∧ m'.tatami = tatami ∧ m'.resetting = false ∧
      m'.Loaded (t.groupsOf tatami) ∧
      (m'.Knows t (front (t.groupsOf tatami) m'.loadedGroups.card) fun _ => False) ∧
      m'.matchIds = t.upcoming tatami ∧
      (m'.matchesChanged = false → m.matchesChanged = false ∧ m'.matchIds = m.matchIds) ∧
      (∀ id ∈ m.insertedMatches, id ∈ m'.insertedMatches) ∧
      ∀ id ∈ m'.matchIds, id ∉ m.matchIds → id ∈ m'.insertedMatches := by
  obtain ⟨store, hstore, hsound⟩ := ht.sound
  obtain ⟨m₀, hm₀, htatami, hresetting, h₀, hknows₀, hids, hinserted, hchanged⟩ :
      ∃ m₀, (if m.resetting = true then m.reset else m) = m₀ ∧ m₀.tatami = tatami ∧
        m₀.resetting = false ∧ m₀.Loaded (t.groupsOf tatami) ∧
        (m₀.Knows t (front (t.groupsOf tatami) m₀.loadedGroups.card) fun _ => False) ∧
        m₀.matchIds = m.matchIds ∧ m₀.insertedMatches = m.insertedMatches ∧
        (m₀.matchesChanged = false → m.matchesChanged = false) := by
    cases hresetting : m.resetting with
    | true =>
      refine ⟨m.reset, rfl, hm, rfl, loaded_reset m _, fun id hid => ?_, rfl, rfl, fun hfalse => ?_⟩
      · exact absurd hid List.not_mem_nil
      · cases hfalse
    | false => exact ⟨m, rfl, hm, hresetting, (h hresetting).1, (h hresetting).2, rfl, rfl, id⟩
  have hfuel : store.groups.size ≤ m₀.loadedGroups.card + (store.groups.size + displayCount) := by omega
  obtain ⟨m₁, hload, h₁, hknows₁, hsame, hend⟩ := loadGroups_spec ht hstore hsound h₀ hknows₀ hfuel
  obtain ⟨hshown, hkept, hnew⟩ :=
    showMatches_spec (Nat.zero_le _) m₁.matchIds m₁.unfinishedLoadedMatches
  rw [Nat.sub_zero, h₁.take_unfinished hknows₁ hend] at hshown
  have hflush : m.flush t = .ok { m₁ with
      matchIds := (showMatches 0 m₁.matchIds m₁.unfinishedLoadedMatches).matchIds
      insertedMatches :=
        m₁.insertedMatches ++ (showMatches 0 m₁.matchIds m₁.unfinishedLoadedMatches).inserted
      matchesChanged :=
        m₁.matchesChanged || (showMatches 0 m₁.matchIds m₁.unfinishedLoadedMatches).changed } := by
    unfold flush loadBlocks
    rw [hm₀, PositionManager.at'_ok.2 (htatami ▸ hstore)]
    simp only [bind, Except.bind, hload]
    rfl
  refine ⟨_, hflush, hsame.tatami.trans htatami, hsame.resetting.trans hresetting,
    ⟨h₁.count, h₁.ids, h₁.follows.1, h₁.follows.2, h₁.follows.3⟩, hknows₁, hshown, fun hfalse => ?_,
    fun id hid => ?_, fun id hid hnot => ?_⟩
  · rw [Bool.or_eq_false_iff, hsame.matchesChanged] at hfalse
    refine ⟨hchanged hfalse.1, ?_⟩
    rw [← hids, ← hsame.matchIds]
    exact hkept hfalse.2
  · rw [hsame.insertedMatches, hinserted]
    exact List.mem_append_left _ hid
  · refine List.mem_append_right _ (hnew id hid ?_)
    rwa [hsame.matchIds, hids]

/-- The groups of the tatami that a notification names. -/
def named (tatami : TatamiLocation) (locations : List BlockLocation) : List PositionId :=
  (locations.filter fun l => decide (tatami.handle.id = l.getTatamiHandle.id)).map
    fun l => l.getConcurrentGroupHandle.id

/-- A notification that does not reset the model names no group that is loaded or before a loaded one. -/
theorem changeLocations_spec (hsound : store.groups.Sound) (locations : List BlockLocation)
    (hresetting : m.resetting = false) :
    ∃ c r, changeLocations store locations m = .ok { m with changed := c, resetting := r } ∧
      (r = false → ∀ id ∈ named m.tatami locations, id ∉ m.loadedGroups ∧
        id ∉ store.groups.ids.take m.loadedGroups.card) := by
  induction locations generalizing m with
  | nil => exact ⟨_, _, rfl, fun _ id hid => absurd hid List.not_mem_nil⟩
  | cons location locations ih =>
    unfold changeLocations
    by_cases hother : m.tatami.handle.id = location.getTatamiHandle.id
    · rw [if_neg (not_not.2 hother)]
      have hnamed : named m.tatami (location :: locations) =
          location.getConcurrentGroupHandle.id :: named m.tatami locations := by
        simp [named, hother]
      by_cases hloaded : location.getConcurrentGroupHandle.id ∈ m.loadedGroups
      · exact ⟨true, true, by simp [hloaded], fun hfalse => by cases hfalse⟩
      · obtain ⟨c, r, hrest, hclear⟩ := ih (m := { m with changed := true }) hresetting
        simp only [hloaded, if_false]
        by_cases hcontains : location.getConcurrentGroupHandle.id ∈ store.groups.ids
        · have hsome : store.groups.contains location.getConcurrentGroupHandle = true :=
            (hsound.keys _).1 hcontains
          have hindex : store.groups.getIndex location.getConcurrentGroupHandle =
              .ok (store.groups.ids.idxOf location.getConcurrentGroupHandle.id) := by
            unfold PositionManager.getIndex
            rw [decide_eq_true hcontains]
            rfl
          simp only [hsome, if_true, hindex, bind, Except.bind]
          split
          · exact ⟨true, true, rfl, fun hfalse => by cases hfalse⟩
          · rename_i hlate
            refine ⟨c, r, hrest, fun hfalse id hid => ?_⟩
            rw [hnamed] at hid
            rcases List.mem_cons.1 hid with rfl | hid
            · exact ⟨hloaded, fun hmem => hlate ((List.mem_take_iff_idxOf_lt hcontains).1 hmem)⟩
            · exact hclear hfalse id hid
        · have hnone : store.groups.contains location.getConcurrentGroupHandle = false := by
            rw [Bool.eq_false_iff]
            exact fun hsome => hcontains ((hsound.keys _).2 hsome)
          simp only [hnone, Bool.false_eq_true, if_false]
          refine ⟨c, r, hrest, fun hfalse id hid => ?_⟩
          rw [hnamed] at hid
          rcases List.mem_cons.1 hid with rfl | hid
          · exact ⟨hloaded, fun hmem => hcontains (List.mem_of_mem_take hmem)⟩
          · exact hclear hfalse id hid
    · rw [if_pos hother]
      obtain ⟨c, r, hrest, hclear⟩ := ih hresetting
      refine ⟨c, r, hrest, ?_⟩
      unfold named at hclear ⊢
      rwa [List.filter_cons_of_neg (by simpa using hother)]

theorem changeTatamisAll_of_resetting {t : TournamentStore} (notifications : List (List BlockLocation))
    (hresetting : m.resetting = true) : changeTatamisAll t notifications m = .ok m := by
  induction notifications with
  | nil => rfl
  | cons locations notifications ih =>
    rw [changeTatamisAll, changeTatamis, if_pos hresetting]
    exact ih

/-- Notifications about one tournament act together like one that names all their groups. -/
theorem changeTatamisAll_spec {t : TournamentStore}
    (hstore : t.tatamis.tatamis.elements m.tatami.handle.id = some store)
    (hsound : store.groups.Sound) (notifications : List (List BlockLocation)) (hresetting : m.resetting = false) :
    ∃ c r, changeTatamisAll t notifications m = .ok { m with changed := c, resetting := r } ∧
      (r = false → ∀ id ∈ named m.tatami notifications.flatten, id ∉ m.loadedGroups ∧
        id ∉ store.groups.ids.take m.loadedGroups.card) := by
  induction notifications generalizing m with
  | nil => exact ⟨_, _, rfl, fun _ id hid => absurd hid List.not_mem_nil⟩
  | cons locations notifications ih =>
    obtain ⟨c, r, hmodel, hclear⟩ := changeLocations_spec hsound locations hresetting
    have hfirst : m.changeTatamis t locations = .ok { m with changed := c, resetting := r } := by
      unfold changeTatamis
      rw [if_neg (by rw [hresetting]; decide), PositionManager.at'_ok.2 hstore]
      exact hmodel
    have hall : changeTatamisAll t (locations :: notifications) m =
        changeTatamisAll t notifications { m with changed := c, resetting := r } := by
      rw [changeTatamisAll, hfirst]
      rfl
    cases r with
    | true =>
      rw [hall, changeTatamisAll_of_resetting notifications rfl]
      exact ⟨c, true, rfl, fun hfalse => by cases hfalse⟩
    | false =>
      obtain ⟨c', r', hrest, hclear'⟩ := @ih { m with changed := c, resetting := false } hstore rfl
      refine ⟨c', r', hall.trans hrest, fun hr id hid => ?_⟩
      have hnamed : named m.tatami (locations :: notifications).flatten =
          named m.tatami locations ++ named m.tatami notifications.flatten := by
        simp [named]
      rw [hnamed] at hid
      rcases List.mem_append.1 hid with hid | hid
      · exact hclear rfl id hid
      · exact hclear' hr id hid

end Tatami

end WebTatamiModel

/-! ### The notifications -/

/-- A model and the tournament that it follows.  The rest is no part of it: the groups at the last
notification that named groups or at the last `flush`, the matches that have changed and were not named
since, and the list at the last `clearChanges`. -/
structure TatamiWatch where
  tournament : TournamentStore
  model : WebTatamiModel
  groups : List (PositionId × List CombinedId)
  stale : CombinedId → Prop
  shown : List CombinedId

namespace TatamiWatch

open WebTatamiModel

/-- What happens to the model.  A change of the tournament is not seen by it, and several notifications may be needed to
name the groups that it has changed. -/
inductive Event where
  | change (tournament : TournamentStore)
  | changeMatches (categoryId : CategoryId) (matchIds : List MatchId)
  | changeTatamis (notifications : List (List BlockLocation))
  | flush
  | clearChanges

variable (w : TatamiWatch)

/-- The groups of the tatami. -/
def current : List (PositionId × List CombinedId) := w.tournament.groupsOf w.model.tatami

/-- A notification names a group that has, or had, the match. -/
def Mentions (locations : List BlockLocation) (id : CombinedId) : Prop :=
  ∃ g ∈ w.groups ++ w.current, g.1 ∈ named w.model.tatami locations ∧ id ∈ g.2

/-- One step.  There is none if the code does not return. -/
def step : Event → Option TatamiWatch
  | .change t => some { w with
      tournament := t
      stale := fun id => w.stale id ∨ w.tournament.finished id ≠ t.finished id }
  | .changeMatches categoryId matchIds =>
    (w.model.changeMatches w.tournament categoryId matchIds).toOption.map fun m => { w with
      model := m
      stale := fun id => w.stale id ∧ ¬(id.categoryId = categoryId ∧ id.matchId ∈ matchIds) }
  | .changeTatamis notifications =>
    (w.model.changeTatamisAll w.tournament notifications).toOption.map fun m => { w with
      model := m
      groups := w.current
      stale := fun id => w.stale id ∧ ¬w.Mentions notifications.flatten id }
  | .flush => (w.model.flush w.tournament).toOption.map fun m => { w with
      model := m
      groups := w.current
      stale := fun _ => False }
  | .clearChanges => w.model.clearChanges.toOption.map fun m => { w with model := m, shown := m.matchIds }

/-- The model before the `flush` in its constructor. -/
def init (t : TournamentStore) (tatami : TatamiLocation) : TatamiWatch :=
  ⟨t, { tatami := tatami }, t.groupsOf tatami, fun _ => False, []⟩

/-- A notification names existing matches; those that name groups name together all that have changed since the last
ones.  Before a `flush` all changes of the tatami are notified. -/
def Announced : Event → Prop
  | .change _ => True
  | .changeMatches categoryId matchIds => ∃ category,
    w.tournament.categories.getCategory categoryId = .ok category ∧
      ∀ matchId ∈ matchIds, ∃ match', category.getMatch matchId = .ok match'
  | .changeTatamis notifications => w.tournament.Watchable w.model.tatami ∧
    w.groups.filter (fun g => decide (g.1 ∉ named w.model.tatami notifications.flatten)) =
      w.current.filter fun g => decide (g.1 ∉ named w.model.tatami notifications.flatten)
  | .flush => w.tournament.Watchable w.model.tatami ∧ w.groups = w.current ∧
    ∀ id ∈ w.current.flatMap Prod.snd, ¬w.stale id
  | .clearChanges => w.model.resetting = false

/-- What holds of the model at every time. -/
structure Follows (tatami : TatamiLocation) : Prop where
  tatami : w.model.tatami = tatami
  loaded : w.model.resetting = false → w.model.Loaded w.groups
  nodup : w.model.resetting = false → (w.groups.flatMap Prod.snd).Nodup
  knows : w.model.resetting = false →
    w.model.Knows w.tournament (front w.groups w.model.loadedGroups.card) w.stale
  changed : w.model.matchesChanged = false → w.model.matchIds = w.shown
  inserted : ∀ id ∈ w.model.matchIds, id ∉ w.shown → id ∈ w.model.insertedMatches

variable {w} {w' : TatamiWatch} {tatami : TatamiLocation}

theorem Follows.changeMatches (h : w.Follows tatami) {categoryId : CategoryId} {matchIds : List MatchId}
    (hannounced : w.Announced (.changeMatches categoryId matchIds)) :
    ∃ w', w.step (.changeMatches categoryId matchIds) = some w' ∧ w'.Follows tatami := by
  obtain ⟨category, hcategory, hfound⟩ := hannounced
  cases hresetting : w.model.resetting with
  | true =>
    refine ⟨_, by simp only [step, WebTatamiModel.changeMatches, hresetting, if_true]; rfl, ?_⟩
    exact
      { tatami := h.tatami
        loaded := fun hfalse => absurd (hresetting.symm.trans hfalse) (by decide)
        nodup := fun hfalse => absurd (hresetting.symm.trans hfalse) (by decide)
        knows := fun hfalse => absurd (hresetting.symm.trans hfalse) (by decide)
        changed := h.changed
        inserted := h.inserted }
  | false =>
    have hloaded := h.loaded hresetting
    have hnodup := nodup_front (h.nodup hresetting) w.model.loadedGroups.card
    obtain ⟨u, s, hmodel, hfollows, hother, hnamed⟩ :=
      hloaded.follows.changeMatches hnodup categoryId hfound
    have hstep : w.model.changeMatches w.tournament categoryId matchIds = .ok { w.model with
        unfinishedLoadedMatches := u
        unfinishedLoadedMatchesSet := s } := by
      unfold WebTatamiModel.changeMatches
      rw [if_neg (by rw [hresetting]; decide), hcategory]
      exact hmodel
    refine ⟨_, by rw [step, hstep]; rfl, ?_⟩
    refine
      { tatami := h.tatami
        loaded := fun _ => ⟨hloaded.count, hloaded.ids, hfollows⟩
        nodup := fun _ => h.nodup hresetting
        knows := fun _ id hid hstale => ?_
        changed := h.changed
        inserted := h.inserted }
    by_cases hnew : id.categoryId = categoryId ∧ id.matchId ∈ matchIds
    · obtain ⟨rfl, hmem⟩ := hnew
      obtain ⟨match', hmatch⟩ := hfound id.matchId hmem
      refine (hnamed id.matchId hmem hid match' hmatch).trans ?_
      have hstatus : ConcurrentBlockGroup.matchStatus w.tournament.categories id = .ok match'.getStatus := by
        unfold ConcurrentBlockGroup.matchStatus
        rw [hcategory, except_bind_ok]
        exact ⟨category, rfl, by rw [hmatch]; rfl⟩
      unfold TournamentStore.finished
      rw [hstatus]
      cases match'.getStatus <;> simp
    · rw [hother id hnew]
      exact h.knows hresetting id hid fun hold => hstale ⟨hold, hnew⟩

/-- After a notification that does not reset the model, the loaded groups are still the first ones. -/
theorem take_groups_eq (h : w.Follows tatami) (hresetting : w.model.resetting = false)
    {names : List PositionId}
    (hsame : w.groups.filter (fun g => decide (g.1 ∉ names)) =
      w.current.filter fun g => decide (g.1 ∉ names))
    (hloaded : ∀ id ∈ names, id ∉ w.model.loadedGroups)
    (hlater : ∀ id ∈ names, id ∉ (w.current.map Prod.fst).take w.model.loadedGroups.card) :
    w.current.take w.model.loadedGroups.card = w.groups.take w.model.loadedGroups.card := by
  refine Window.take_eq_of_filter_eq hsame (h.loaded hresetting).count ?_ ?_
  · intro g hg
    refine decide_eq_true fun hmem => hloaded g.1 hmem ?_
    exact ((h.loaded hresetting).ids g.1).2 (List.mem_map_of_mem hg)
  · intro g hg
    refine decide_eq_true fun hmem => hlater g.1 hmem ?_
    rw [← List.map_take]
    exact List.mem_map_of_mem hg

/-- Only a match of a group that is not loaded is mentioned by such a notification. -/
theorem not_mentions (h : w.Follows tatami) (hresetting : w.model.resetting = false)
    (hnodup : (w.current.flatMap Prod.snd).Nodup) {locations : List BlockLocation}
    (hfront : w.current.take w.model.loadedGroups.card = w.groups.take w.model.loadedGroups.card)
    (hloaded : ∀ id ∈ named w.model.tatami locations, id ∉ w.model.loadedGroups) {id : CombinedId}
    (hid : id ∈ front w.groups w.model.loadedGroups.card) : ¬w.Mentions locations id := by
  -- the mentioned group is behind the loaded ones, and the match is in one group only
  have hbehind : ∀ groups : List (PositionId × List CombinedId), (groups.flatMap Prod.snd).Nodup →
      groups.take w.model.loadedGroups.card = w.groups.take w.model.loadedGroups.card →
      ∀ g ∈ groups, g.1 ∈ named w.model.tatami locations → id ∉ g.2 := by
    intro groups hnodup htake g hg hnamed hmem
    rw [← List.take_append_drop w.model.loadedGroups.card groups, List.mem_append] at hg
    rcases hg with hg | hg
    · rw [htake] at hg
      exact hloaded g.1 hnamed (((h.loaded hresetting).ids g.1).2 (List.mem_map_of_mem hg))
    · rw [← front_append_rest groups w.model.loadedGroups.card, front, htake] at hnodup
      exact (List.nodup_append.1 hnodup).2.2 id hid id (List.mem_flatMap.2 ⟨g, hg, hmem⟩) rfl
  rintro ⟨g, hg, hnamed, hmem⟩
  rcases List.mem_append.1 hg with hg | hg
  · exact hbehind w.groups (h.nodup hresetting) rfl g hg hnamed hmem
  · exact hbehind w.current hnodup hfront g hg hnamed hmem

theorem Follows.changeTatamis (h : w.Follows tatami) {notifications : List (List BlockLocation)}
    (hannounced : w.Announced (.changeTatamis notifications)) :
    ∃ w', w.step (.changeTatamis notifications) = some w' ∧ w'.Follows tatami := by
  obtain ⟨hwatchable, hsame⟩ := hannounced
  cases hresetting : w.model.resetting with
  | true =>
    refine ⟨_, by rw [step, changeTatamisAll_of_resetting notifications hresetting]; rfl, ?_⟩
    exact
      { tatami := h.tatami
        loaded := fun hfalse => absurd (hresetting.symm.trans hfalse) (by decide)
        nodup := fun hfalse => absurd (hresetting.symm.trans hfalse) (by decide)
        knows := fun hfalse => absurd (hresetting.symm.trans hfalse) (by decide)
        changed := h.changed
        inserted := h.inserted }
  | false =>
    obtain ⟨store, hstore, hsound⟩ := hwatchable.sound
    obtain ⟨c, r, hstep, hclear⟩ := changeTatamisAll_spec hstore hsound notifications hresetting
    refine ⟨_, by rw [step, hstep]; rfl, ?_⟩
    have hfront : r = false →
        w.current.take w.model.loadedGroups.card = w.groups.take w.model.loadedGroups.card := by
      intro hr
      refine take_groups_eq h hresetting hsame (fun id hid => (hclear hr id hid).1) fun id hid => ?_
      rw [show w.current.map Prod.fst = store.groups.ids from map_fst_groupsOf hstore]
      exact (hclear hr id hid).2
    have hloaded := h.loaded hresetting
    refine
      { tatami := h.tatami
        loaded := fun hr => ?_
        nodup := fun _ => hwatchable.nodup
        knows := fun hr id hid hstale => ?_
        changed := h.changed
        inserted := h.inserted }
    · have htake := hfront hr
      refine ⟨?_, fun id => ?_, ?_⟩
      · have hlength := congrArg List.length htake
        simp only [List.length_take, Nat.min_eq_left hloaded.count] at hlength
        exact hlength ▸ Nat.min_le_right _ _
      · rw [htake]
        exact hloaded.ids id
      · show WebTatamiModel.Follows _ (front w.current _)
        rw [front, htake]
        exact ⟨hloaded.follows.1, hloaded.follows.2, hloaded.follows.3⟩
    · have htake := hfront hr
      change id ∈ front w.current w.model.loadedGroups.card at hid
      rw [front, htake] at hid
      refine h.knows hresetting id hid fun hold => hstale ⟨hold, ?_⟩
      exact not_mentions h hresetting hwatchable.nodup htake (fun id hid => (hclear hr id hid).1) hid

/-- After `flush` the list is the upcoming matches, and the changes since `clearChanges` are reported. -/
theorem Follows.flush (h : w.Follows tatami) (hannounced : w.Announced .flush) :
    ∃ w', w.step .flush = some w' ∧ w'.Follows tatami ∧ w'.model.resetting = false ∧
      w'.tournament = w.tournament ∧ w'.shown = w.shown ∧
      w'.model.matchIds = w.tournament.upcoming tatami := by
  obtain ⟨hwatchable, hgroups, hstale⟩ := hannounced
  obtain ⟨m', hflush, htatami, hresetting, hloaded, hknows, hids, hchanged, hold, hnew⟩ :=
    flush_spec hwatchable rfl fun hresetting => by
      have hloaded : w.model.Loaded w.current := hgroups ▸ h.loaded hresetting
      refine ⟨hloaded, fun id hid _ => ?_⟩
      have hid' : id ∈ front w.current w.model.loadedGroups.card := hid
      exact h.knows hresetting id (hgroups ▸ hid') (hstale id (mem_of_mem_front hid'))
  rw [h.tatami] at htatami hloaded hknows hids
  have hstep : w.step .flush =
      some { w with model := m', groups := w.current, stale := fun _ => False } := by
    rw [step, hflush]
    rfl
  refine ⟨_, hstep, ?_, hresetting, rfl, rfl, hids⟩
  refine
    { tatami := htatami
      loaded := fun _ => ?_
      nodup := fun _ => hwatchable.nodup
      knows := fun _ => ?_
      changed := fun hfalse => ?_
      inserted := fun id hid hnot => ?_ }
  · show m'.Loaded (w.tournament.groupsOf w.model.tatami)
    rwa [h.tatami]
  · show m'.Knows w.tournament (front (w.tournament.groupsOf w.model.tatami) m'.loadedGroups.card) _
    rwa [h.tatami]
  · obtain ⟨hfalse', hsame⟩ := hchanged hfalse
    exact hsame.trans (h.changed hfalse')
  · by_cases hmem : id ∈ w.model.matchIds
    · exact hold id (h.inserted id hmem hnot)
    · exact hnew id hid hmem

theorem follows_init (t : TournamentStore) (tatami : TatamiLocation) : (init t tatami).Follows tatami where
  tatami := rfl
  loaded hfalse := by cases hfalse
  nodup hfalse := by cases hfalse
  knows hfalse := by cases hfalse
  changed hfalse := by cases hfalse
  inserted id hid := absurd hid List.not_mem_nil

theorem follows_step (event : Event) (h : w.Follows tatami) (hannounced : w.Announced event) :
    ∃ w', w.step event = some w' ∧ w'.Follows tatami := by
  cases event with
  | change t =>
    refine ⟨_, rfl, ⟨h.tatami, h.loaded, h.nodup, fun hresetting id hid hstale => ?_, h.changed, h.inserted⟩⟩
    -- a match that is not stale has not changed
    obtain ⟨hold, hsame⟩ := not_or.1 hstale
    rw [h.knows hresetting id hid hold, not_not.1 hsame]
  | changeMatches categoryId matchIds => exact h.changeMatches hannounced
  | changeTatamis notifications => exact h.changeTatamis hannounced
  | flush =>
    obtain ⟨w', hstep, hw', -⟩ := h.flush hannounced
    exact ⟨w', hstep, hw'⟩
  | clearChanges =>
    have hstep : w.step .clearChanges = some { w with
        model := { w.model with insertedMatches := [], matchesChanged := false, changed := false }
        shown := w.model.matchIds } := by
      have hcheck : check .tatamis (!w.model.resetting) = .ok () := by
        rw [show w.model.resetting = false from hannounced]
        rfl
      rw [step, WebTatamiModel.clearChanges, hcheck]
      rfl
    refine ⟨_, hstep, ?_⟩
    exact
      { tatami := h.tatami
        loaded := fun hresetting =>
          ⟨(h.loaded hresetting).count, (h.loaded hresetting).ids, (h.loaded hresetting).follows.1,
            (h.loaded hresetting).follows.2, (h.loaded hresetting).follows.3⟩
        nodup := h.nodup
        knows := h.knows
        changed := fun _ => rfl
        inserted := fun id hid hnot => absurd hid hnot }

/-- In every run in which the notifications that name groups of the tatami name together all those that changed
since the ones before, and in which all changes are notified before a `flush`: the code returns, after a
`flush` the list is the upcoming matches of the tatami, and if it is not the list at the last
`clearChanges`, this is reported together with the matches that are new in it. -/
theorem run_upcoming (t : TournamentStore) (tatami : TatamiLocation) (events : List Event)
    (hevents : Runs.Guarded step Announced events (init t tatami)) :
    ∃ w, Runs.run step events (init t tatami) = some w ∧ (w.Announced .flush →
      ∃ w', w.step .flush = some w' ∧ w'.tournament = w.tournament ∧ w'.shown = w.shown ∧
        w'.model.getMatches = .ok (w.tournament.upcoming tatami) ∧
        (w.tournament.upcoming tatami ≠ w.shown → w'.model.getMatchesChanged = .ok true) ∧
        ∃ inserted, w'.model.getInsertedMatches = .ok inserted ∧
          ∀ id ∈ w.tournament.upcoming tatami, id ∉ w.shown → id ∈ inserted) := by
  obtain ⟨w, hrun, h⟩ :=
    Runs.run_total (fun w event h hannounced => follows_step event h hannounced)
      (follows_init t tatami) hevents
  refine ⟨w, hrun, fun hannounced => ?_⟩
  obtain ⟨w', hstep, h', hresetting, htournament, hshown, hids⟩ := h.flush hannounced
  have hcheck : check .tatamis (!w'.model.resetting) = .ok () := by
    rw [hresetting]
    rfl
  refine ⟨w', hstep, htournament, hshown, ?_, fun hnew => ?_, w'.model.insertedMatches, ?_, ?_⟩
  · rw [getMatches, hcheck, hids]
    rfl
  · have hchanged : w'.model.matchesChanged = true := by
      by_contra hfalse
      rw [← hids, ← hshown] at hnew
      exact hnew (h'.changed (Bool.not_eq_true _ ▸ hfalse))
    rw [getMatchesChanged, hcheck, hchanged]
    rfl
  · rw [getInsertedMatches, hcheck]
    rfl
  · intro id hid hnot
    rw [← hids] at hid
    rw [← hshown] at hnot
    exact h'.inserted id hid hnot

/-! ### Two runs -/

/-- A position manager with given elements. -/
def managerOf {α : Type} (l : List (PositionId × α)) :
    PositionManager α := ⟨l.map Prod.fst, fun id => List.lookup id l⟩

theorem sound_managerOf {α : Type} {l : List (PositionId × α)} (hl : (l.map Prod.fst).Nodup) :
    (managerOf l).Sound := by
  refine ⟨hl, fun id => ?_⟩
  show id ∈ l.map Prod.fst ↔ (l.lookup id).isSome = true
  rw [List.lookup_isSome_iff]
  simp

/-- A category with one match. -/
def categoryOf (finished : List ℕ) (n : ℕ) : CategoryStore :=
  { CategoryStore.init ⟨n⟩ "" .twentyEighteen (.pool {}) with
    matchList := [(MatchStore.init ⟨⟨n⟩, ⟨n⟩⟩ .elimination "" false none none).setStatus
      (if n ∈ finished then .finished else .notStarted)]
    matchMap := fun id => if id = ⟨n⟩ then some 0 else none
    matchCount := ⟨1, 0⟩ }

/-- Three categories with a match each, and a tatami with a group for some of them. -/
def hall (finished order : List ℕ) : TournamentStore where
  categories id := if id.value ∈ [1, 2, 3] then some (categoryOf finished id.value) else none
  tatamis := ⟨managerOf [(⟨1⟩, ⟨managerOf (order.map fun n => (⟨n⟩,
    { groups := managerOf [(⟨n⟩, ⟨[(⟨n⟩, .elimination)], minExpectedDuration⟩)]
      matchIds := [⟨⟨n⟩, ⟨n⟩⟩] }))⟩)]⟩

/-- The tatami of the hall, and the location of a group on it. -/
def matLocation : TatamiLocation := ⟨⟨⟨1⟩, 0⟩⟩

def blockLocation (n : ℕ) : BlockLocation := ⟨⟨⟨matLocation, ⟨⟨n⟩, 0⟩⟩, ⟨⟨n⟩, 0⟩⟩, 0⟩

theorem watchable_hall {finished order : List ℕ} (horder : order.Nodup)
    (hnodup : (((hall finished order).groupsOf matLocation).flatMap Prod.snd).Nodup)
    (hfound : ∀ id ∈ ((hall finished order).groupsOf matLocation).flatMap Prod.snd,
      (ConcurrentBlockGroup.matchStatus (hall finished order).categories id).toOption.isSome = true) :
    (hall finished order).Watchable matLocation where
  sound := by
    refine ⟨_, rfl, sound_managerOf ?_⟩
    rw [List.map_map]
    exact horder.map fun a b hab => congrArg PositionId.value hab
  nodup := hnodup
  found id hid := by
    have hsome := hfound id hid
    cases hstatus : ConcurrentBlockGroup.matchStatus (hall finished order).categories id with
    | error e =>
      rw [hstatus] at hsome
      cases hsome
    | ok status => exact ⟨status, rfl⟩

section Finish

variable {t t' : TournamentStore} {categoryId : CategoryId} {matchIds : List MatchId}
  {category : CategoryStore}

/-- Matches change, and this is notified. -/
def notified (t' : TournamentStore) (categoryId : CategoryId) (matchIds : List MatchId) : List Event :=
  [.flush, .change t', .changeMatches categoryId matchIds]

theorem announced_init (ht : t.Watchable tatami) : (init t tatami).Announced .flush :=
  ⟨ht, rfl, fun _ _ h => h⟩

theorem guarded_notified (ht : t.Watchable tatami)
    (hcategory : t'.categories.getCategory categoryId = .ok category)
    (hfound : ∀ matchId ∈ matchIds, ∃ match', category.getMatch matchId = .ok match') :
    Runs.Guarded step Announced (notified t' categoryId matchIds) (init t tatami) := by
  refine Runs.guarded_cons (announced_init ht) fun w₁ h₁ => Runs.guarded_cons trivial fun w₂ h₂ => ?_
  cases h₂
  exact Runs.guarded_cons ⟨category, hcategory, hfound⟩ fun _ _ => trivial

theorem run_notified {w : TatamiWatch}
    (hrun : Runs.run step (notified t' categoryId matchIds) (init t tatami) = some w)
    (hguard : Runs.Guarded step Announced (notified t' categoryId matchIds) (init t tatami)) :
    w.tournament = t' ∧ w.model.tatami = tatami ∧ w.groups = t.groupsOf tatami ∧
      ∀ id, w.stale id → t.finished id ≠ t'.finished id ∧
        ¬(id.categoryId = categoryId ∧ id.matchId ∈ matchIds) := by
  obtain ⟨w₀, hrun₀, hw⟩ :=
    Runs.run_total (fun w event h hannounced => follows_step event h hannounced)
      (follows_init t tatami) hguard
  rw [hrun, Option.some.injEq] at hrun₀
  subst hrun₀
  obtain ⟨w₁, h₁, hrun⟩ := Runs.run_cons hrun
  obtain ⟨m₁, -, rfl⟩ := Option.map_eq_some_iff.1 h₁
  obtain ⟨w₂, h₂, hrun⟩ := Runs.run_cons hrun
  cases h₂
  obtain ⟨w₃, h₃, hrun⟩ := Runs.run_cons hrun
  obtain ⟨m₃, -, rfl⟩ := Option.map_eq_some_iff.1 h₃
  cases hrun
  refine ⟨rfl, hw.tatami, rfl, fun id hstale => ?_⟩
  obtain ⟨hchanged, hnot⟩ := hstale
  exact ⟨hchanged.resolve_left not_false, hnot⟩

end Finish

theorem run_upcoming_notified :
    ∃ w w', Runs.run step (notified (hall [1] [1, 2]) ⟨1⟩ [⟨1⟩]) (init (hall [] [1, 2]) matLocation) =
        some w ∧ w.step .flush = some w' ∧ w'.model.getMatches = .ok [⟨⟨2⟩, ⟨2⟩⟩] := by
  have hopen : (hall [] [1, 2]).Watchable matLocation :=
    watchable_hall (by decide) (by decide +kernel) (by decide +kernel)
  have hdone : (hall [1] [1, 2]).Watchable matLocation :=
    watchable_hall (by decide) (by decide +kernel) (by decide +kernel)
  have hgroups : (hall [] [1, 2]).groupsOf matLocation = (hall [1] [1, 2]).groupsOf matLocation := by
    decide +kernel
  have hguard : Runs.Guarded step Announced (notified (hall [1] [1, 2]) ⟨1⟩ [⟨1⟩])
      (init (hall [] [1, 2]) matLocation) := by
    have hcategory : (hall [1] [1, 2]).categories.getCategory ⟨1⟩ = .ok (categoryOf [1] 1) := rfl
    refine guarded_notified hopen hcategory fun matchId hmem => ?_
    obtain rfl := List.mem_singleton.1 hmem
    exact ⟨_, rfl⟩
  obtain ⟨w, hrun, h⟩ := run_upcoming (hall [] [1, 2]) matLocation _ hguard
  obtain ⟨htournament, htatami, hgroups', hstale⟩ := run_notified hrun hguard
  have hannounced : w.Announced .flush := by
    refine ⟨?_, ?_, fun id hid hold => ?_⟩
    · rw [htournament, htatami]
      exact hdone
    · rw [hgroups', current, htournament, htatami, hgroups]
    · obtain ⟨hchanged, hnot⟩ := hstale id hold
      rw [current, htournament, htatami] at hid
      have hids : ∀ id ∈ ((hall [1] [1, 2]).groupsOf matLocation).flatMap Prod.snd,
          (hall [] [1, 2]).finished id = (hall [1] [1, 2]).finished id ∨
            id.categoryId = ⟨1⟩ ∧ id.matchId ∈ [(⟨1⟩ : MatchId)] := by
        decide +kernel
      rcases hids id hid with hsame | hnamed
      · exact hchanged hsame
      · exact hnot hnamed
  obtain ⟨w', hstep, -, -, hmatches, -⟩ := h hannounced
  refine ⟨w, w', hrun, hstep, ?_⟩
  rw [hmatches, htournament]
  have hupcoming : (hall [1] [1, 2]).upcoming matLocation = [⟨⟨2⟩, ⟨2⟩⟩] := by decide +kernel
  rw [hupcoming]

/-- Every change is notified later on. -/
def Heard (tatami : TatamiLocation) : TournamentStore → List Event → Prop
  | _, [] => True
  | t, .change t' :: events =>
    (∃ names : List PositionId, (t.groupsOf tatami).filter (fun g => decide (g.1 ∉ names)) =
        (t'.groupsOf tatami).filter (fun g => decide (g.1 ∉ names)) ∧
      ∀ id ∈ names, ∃ notifications, .changeTatamis notifications ∈ events ∧
        id ∈ named tatami notifications.flatten) ∧
    (∀ id, t.finished id ≠ t'.finished id →
      ∃ matchIds, .changeMatches id.categoryId matchIds ∈ events ∧ id.matchId ∈ matchIds) ∧
    Heard tatami t' events
  | t, _ :: events => Heard tatami t events

/-- Two groups come in front of the loaded one and one of them goes again.  The first notification names
the one, and the second one the other. -/
def notifiedLate : List Event :=
  [.flush, .change (hall [] [3, 2, 1]), .changeTatamis [[blockLocation 2]], .change (hall [] [2, 1]),
    .changeTatamis [[blockLocation 3]]]

theorem run_upcoming_notifiedLate :
    Heard matLocation (hall [] [1]) notifiedLate ∧
      ∃ w, Runs.run step (notifiedLate ++ [.flush]) (init (hall [] [1]) matLocation) = some w ∧
        w.model.matchIds = List.replicate 5 ⟨⟨1⟩, ⟨1⟩⟩ ∧
        w.tournament.upcoming matLocation = [⟨⟨2⟩, ⟨2⟩⟩, ⟨⟨1⟩, ⟨1⟩⟩] := by
  constructor
  · refine ⟨⟨[⟨2⟩, ⟨3⟩], by decide +kernel, ?_⟩, fun id hid => absurd rfl hid,
      ⟨[⟨3⟩], by decide +kernel, ?_⟩, fun id hid => absurd rfl hid, trivial⟩
    · intro id hid
      rcases List.mem_cons.1 hid with rfl | hid
      · exact ⟨[[blockLocation 2]], by simp, by decide⟩
      · obtain rfl := List.mem_singleton.1 hid
        exact ⟨[[blockLocation 3]], by simp, by decide⟩
    · intro id hid
      obtain rfl := List.mem_singleton.1 hid
      exact ⟨[[blockLocation 3]], by simp, by decide⟩
  · have hrun : ((Runs.run step (notifiedLate ++ [.flush]) (init (hall [] [1]) matLocation)).map
        fun w => (w.model.matchIds, w.tournament.upcoming matLocation)) =
          some (List.replicate 5 ⟨⟨1⟩, ⟨1⟩⟩, [⟨⟨2⟩, ⟨2⟩⟩, ⟨⟨1⟩, ⟨1⟩⟩]) := by
      decide +kernel
    obtain ⟨w, hw, hlists⟩ := Option.map_eq_some_iff.1 hrun
    rw [Prod.mk.injEq] at hlists
    exact ⟨w, hw, hlists.1, hlists.2⟩

end TatamiWatch

end JudoAssistant
