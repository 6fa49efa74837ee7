import JudoAssistant.Tournament.DrawFacts
import JudoAssistant.Tournament.Frames

/-!
# Cross references

A category has the set of its players and a player the set of his categories; a match has two players
and a player the set of his matches.  This file says when the two ends agree, and what drawing a
category does to them.
-/

namespace JudoAssistant

open Effect Exec

/-! ### Ids and indices -/

/-- The index of a category by match id is that of its list. -/
def CategoryStore.MapsMatches (c : CategoryStore) : Prop :=
  ∀ x i, c.matchMap x = some i ↔ (c.matchList[i]?).map (·.id) = some x

/-- The index of a category by match id is that of its list, the matches have the id of the category,
and the matches are counted. -/
structure CategoryStore.Indexed (c : CategoryStore) : Prop where
  map : ∀ x i, c.matchMap x = some i ↔ (c.matchList[i]?).map (·.id) = some x
  ids : ∀ m ∈ c.matchList, m.combinedId.categoryId = c.id
  permanentBye : ∀ m ∈ c.matchList, m.permanentBye = false
  count : ∀ type, c.matchCount.get type = UInt64.ofNat (c.matchList.countP fun m => m.type = type)

/-- Players and categories are stored under their ids, and the categories are indexed. -/
structure TournamentStore.Indexed (t : TournamentStore) : Prop where
  player : ∀ id p, t.players id = some p → p.id = id
  category : ∀ id c, t.categories id = some c → c.id = id
  index : ∀ id c, t.categories id = some c → c.Indexed

namespace CategoryStore

variable {c c' : CategoryStore}

theorem Indexed.of_eq (h : c.Indexed) (hid : c'.id = c.id) (hlist : c'.matchList = c.matchList)
    (hmap : c'.matchMap = c.matchMap) (hcount : c'.matchCount = c.matchCount) : c'.Indexed := by
  refine ⟨?_, ?_, ?_, ?_⟩
  · rw [hmap, hlist]; exact h.map
  · rw [hlist, hid]; exact h.ids
  · rw [hlist]; exact h.permanentBye
  · rw [hlist, hcount]; exact h.count

/-- An index is determined by the list. -/
theorem Indexed.matchMap_eq (h : c.Indexed) (h' : c'.Indexed) (hlist : c'.matchList = c.matchList) :
    c'.matchMap = c.matchMap := by
  funext x
  refine Option.ext fun i => ?_
  rw [h.map, h'.map, hlist]

theorem Indexed.matchCount_eq (h : c.Indexed) (h' : c'.Indexed) (hlist : c'.matchList = c.matchList) :
    c'.matchCount = c.matchCount := by
  have hget : ∀ type, c'.matchCount.get type = c.matchCount.get type := fun type => by
    rw [h.count, h'.count, hlist]
  have helimination := hget .elimination
  have hfinal := hget .final
  cases hc : c.matchCount
  cases hc' : c'.matchCount
  rw [hc, hc'] at helimination hfinal
  simp only [ByType.get] at helimination hfinal
  rw [helimination, hfinal]

theorem MapsMatches.matchMap_of_mem (h : c.MapsMatches) {i : ℕ} {m : MatchStore} (hm : c.matchList[i]? = some m) :
    c.matchMap m.id = some i := by
  rw [h, hm]
  rfl

/-- No two matches have the same id. -/
theorem MapsMatches.eq_of_id (h : c.MapsMatches) {m m' : MatchStore} (hm : m ∈ c.matchList) (hm' : m' ∈ c.matchList)
    (hid : m.id = m'.id) : m = m' := by
  obtain ⟨i, hi⟩ := List.mem_iff_getElem?.1 hm
  obtain ⟨j, hj⟩ := List.mem_iff_getElem?.1 hm'
  have hij := h.matchMap_of_mem hi
  rw [hid, h.matchMap_of_mem hj] at hij
  cases hij
  rw [hi] at hj
  exact Option.some.inj hj

theorem MapsMatches.getMatch_ok (h : c.MapsMatches) {x : MatchId} {m : MatchStore} :
    c.getMatch x = .ok m ↔ m ∈ c.matchList ∧ m.id = x := by
  unfold getMatch
  cases hx : c.matchMap x with
  | none =>
    constructor
    · intro h; cases h
    · rintro ⟨hm, rfl⟩
      obtain ⟨i, hi⟩ := List.mem_iff_getElem?.1 hm
      rw [h.matchMap_of_mem hi] at hx
      cases hx
  | some i =>
    obtain ⟨n, hn, hnx⟩ := Option.map_eq_some_iff.1 ((h x i).1 hx)
    simp only [hn]
    constructor
    · intro heq
      cases heq
      exact ⟨List.mem_of_getElem? hn, hnx⟩
    · rintro ⟨hm, hmx⟩
      rw [h.eq_of_id (List.mem_of_getElem? hn) hm (hnx.trans hmx.symm)]

theorem MapsMatches.nodup_ids (h : c.MapsMatches) : (c.matchList.map (·.id)).Nodup := by
  rw [List.nodup_iff_getElem?_ne_getElem?]
  intro i j hij hj heq
  rw [List.length_map] at hj
  rw [List.getElem?_map, List.getElem?_map, List.getElem?_eq_getElem hj, Option.map_some] at heq
  have hi := (h _ i).2 heq
  rw [h.matchMap_of_mem (List.getElem?_eq_getElem hj)] at hi
  cases hi
  omega

theorem Indexed.matchMap_of_mem (h : c.Indexed) {i : ℕ} {m : MatchStore} (hm : c.matchList[i]? = some m) :
    c.matchMap m.id = some i := MapsMatches.matchMap_of_mem h.map hm

theorem Indexed.eq_of_id (h : c.Indexed) {m m' : MatchStore} (hm : m ∈ c.matchList) (hm' : m' ∈ c.matchList)
    (hid : m.id = m'.id) : m = m' := MapsMatches.eq_of_id h.map hm hm' hid

theorem Indexed.getMatch_ok (h : c.Indexed) {x : MatchId} {m : MatchStore} :
    c.getMatch x = .ok m ↔ m ∈ c.matchList ∧ m.id = x := MapsMatches.getMatch_ok h.map

theorem Indexed.nodup_ids (h : c.Indexed) : (c.matchList.map (·.id)).Nodup := MapsMatches.nodup_ids h.map

theorem Indexed.containsMatch_iff (h : c.Indexed) {x : MatchId} :
    c.containsMatch x = true ↔ ∃ m ∈ c.matchList, m.id = x := by
  unfold containsMatch
  rw [Option.isSome_iff_exists]
  constructor
  · rintro ⟨i, hi⟩
    obtain ⟨m, hm, hmx⟩ := Option.map_eq_some_iff.1 ((h.map x i).1 hi)
    exact ⟨m, List.mem_of_getElem? hm, hmx⟩
  · rintro ⟨m, hm, rfl⟩
    obtain ⟨i, hi⟩ := List.mem_iff_getElem?.1 hm
    exact ⟨i, h.matchMap_of_mem hi⟩

/-- A written match replaces the one with its id. -/
theorem Indexed.matchList_setMatch (h : c.Indexed) (x : MatchId) (m : MatchStore) :
    (c.setMatch x m).matchList = c.matchList.map fun n => if n.id = x then m else n := by
  unfold setMatch
  cases hx : c.matchMap x with
  | none =>
    refine ((List.map_congr_left fun n hn => if_neg ?_).trans (List.map_id _)).symm
    rintro rfl
    obtain ⟨i, hi⟩ := List.mem_iff_getElem?.1 hn
    rw [h.matchMap_of_mem hi] at hx
    cases hx
  | some i =>
    obtain ⟨n, hn, hnx⟩ := Option.map_eq_some_iff.1 ((h.map x i).1 hx)
    refine List.ext_getElem? fun j => ?_
    rw [List.getElem?_set, List.getElem?_map]
    obtain ⟨hlt, -⟩ := List.getElem?_eq_some_iff.1 hn
    split
    · next hij =>
      subst hij
      rw [hn]
      simp [hnx]
    · next hij =>
      cases hj : c.matchList[j]? with
      | none => rfl
      | some n' =>
        have hne : n'.id ≠ x := by
          rintro rfl
          rw [h.matchMap_of_mem hj] at hx
          exact hij (Option.some.inj hx).symm
        simp [hne]

/-- A match may change all but its ids, its type and whether it is a permanent bye. -/
theorem Indexed.setMatch (h : c.Indexed) {x : MatchId} {m m' : MatchStore} (hm : c.getMatch x = .ok m)
    (hid : m'.combinedId = m.combinedId) (htype : m'.type = m.type)
    (hbye : m'.permanentBye = m.permanentBye) : (c.setMatch x m').Indexed := by
  obtain ⟨hmem, hmx⟩ := h.getMatch_ok.1 hm
  have hlist := h.matchList_setMatch x m'
  -- The replacement is the match itself in all that the index reads.
  have hsame : ∀ n ∈ c.matchList, (if n.id = x then m' else n).combinedId = n.combinedId ∧
      (if n.id = x then m' else n).type = n.type ∧
      (if n.id = x then m' else n).permanentBye = n.permanentBye := by
    intro n hn
    split
    · next hnx =>
      have heq := h.eq_of_id hn hmem (hnx.trans hmx.symm)
      rw [heq]
      exact ⟨hid, htype, hbye⟩
    · exact ⟨rfl, rfl, rfl⟩
  have hrest : (c.setMatch x m').matchMap = c.matchMap ∧ (c.setMatch x m').matchCount = c.matchCount ∧
      (c.setMatch x m').id = c.id := by
    unfold CategoryStore.setMatch
    split <;> exact ⟨rfl, rfl, rfl⟩
  refine ⟨fun y i => ?_, fun n hn => ?_, fun n hn => ?_, fun type => ?_⟩
  · rw [hrest.1, h.map, hlist, List.getElem?_map]
    cases hi : c.matchList[i]? with
    | none => rfl
    | some n =>
      have hnid : (if n.id = x then m' else n).id = n.id :=
        congrArg CombinedId.matchId (hsame n (List.mem_of_getElem? hi)).1
      simp [hnid]
  · rw [hlist] at hn
    obtain ⟨n', hn', rfl⟩ := List.mem_map.1 hn
    rw [(hsame n' hn').1, hrest.2.2]
    exact h.ids n' hn'
  · rw [hlist] at hn
    obtain ⟨n', hn', rfl⟩ := List.mem_map.1 hn
    rw [(hsame n' hn').2.2]
    exact h.permanentBye n' hn'
  · rw [hrest.2.1, h.count, hlist, List.countP_map]
    congr 1
    refine List.countP_congr fun n hn => ?_
    simp [(hsame n hn).2.1]

theorem pushMatch_ok {m : MatchStore} (h : c.pushMatch m = .ok c') : c.matchMap m.id = none ∧
    c' = { c with
      matchList := c.matchList ++ [m]
      matchMap := Function.update c.matchMap m.id (some c.matchList.length)
      matchCount := if m.permanentBye then c.matchCount
        else c.matchCount.set m.type (c.matchCount.get m.type + 1) } := by
  simp only [pushMatch, except_bind_ok, check_ok, except_pure_ok, Option.isNone_iff_eq_none] at h
  obtain ⟨_, hnone, rfl⟩ := h
  exact ⟨hnone, rfl⟩

theorem MapsMatches.pushMatch (h : c.MapsMatches) {m : MatchStore} (hpush : c.pushMatch m = .ok c') :
    c'.MapsMatches := by
  obtain ⟨hnone, rfl⟩ := pushMatch_ok hpush
  intro x i
  show Function.update c.matchMap m.id (some c.matchList.length) x = some i ↔
    ((c.matchList ++ [m])[i]?).map (·.id) = some x
  by_cases hx : x = m.id
  · subst hx
    rw [Function.update_self, List.getElem?_append]
    constructor
    · intro heq
      cases heq
      simp
    · intro heq
      split at heq
      · rw [← h, hnone] at heq
        cases heq
      · next hlt =>
        have : i - c.matchList.length = 0 := by
          by_contra hne
          obtain ⟨k, hk⟩ := Nat.exists_eq_succ_of_ne_zero hne
          rw [hk] at heq
          simp at heq
        congr 1
        omega
  · rw [Function.update_of_ne hx, h, List.getElem?_append]
    split
    · rfl
    · next hlt =>
      rw [List.getElem?_eq_none (by omega)]
      constructor
      · intro heq; cases heq
      · intro heq
        obtain ⟨n, hn, hnx⟩ := Option.map_eq_some_iff.1 heq
        obtain rfl := List.mem_singleton.1 (List.mem_of_getElem? hn)
        exact (hx hnx.symm).elim

theorem Indexed.pushMatch (h : c.Indexed) {m : MatchStore} (hid : m.combinedId.categoryId = c.id)
    (hbye : m.permanentBye = false) (hpush : c.pushMatch m = .ok c') : c'.Indexed := by
  obtain ⟨-, rfl⟩ := pushMatch_ok hpush
  refine ⟨MapsMatches.pushMatch h.map hpush, fun n hn => ?_, fun n hn => ?_, fun type => ?_⟩
  · rcases List.mem_append.1 hn with hn | hn
    · exact h.ids n hn
    · obtain rfl := List.mem_singleton.1 hn
      exact hid
  · rcases List.mem_append.1 hn with hn | hn
    · exact h.permanentBye n hn
    · obtain rfl := List.mem_singleton.1 hn
      exact hbye
  · show (if m.permanentBye then c.matchCount
      else c.matchCount.set m.type (c.matchCount.get m.type + 1)).get type = _
    rw [hbye, if_neg (by simp), List.countP_append, UInt64.ofNat_add, ← h.count]
    cases hm : m.type <;> cases type <;> simp [ByType.get, ByType.set, hm]

theorem popMatch_ok (h : c.popMatch = .ok c') : ∃ m, c.matchList.getLast? = some m ∧
    c' = { c with
      matchList := c.matchList.dropLast
      matchMap := Function.update c.matchMap m.id none
      matchCount := c.matchCount.set m.type (c.matchCount.get m.type - 1) } := by
  unfold popMatch at h
  split at h
  · cases h
  · next m hm =>
    cases h
    exact ⟨m, hm, rfl⟩

theorem MapsMatches.popMatch (h : c.MapsMatches) (hpop : c.popMatch = .ok c') : c'.MapsMatches := by
  obtain ⟨m, hm, rfl⟩ := popMatch_ok hpop
  obtain ⟨ms, hms⟩ := List.getLast?_eq_some_iff.1 hm
  have hdrop : c.matchList.dropLast = ms := by rw [hms]; simp
  have hlast : c.matchList[ms.length]? = some m := by rw [hms]; simp
  intro x i
  show Function.update c.matchMap m.id none x = some i ↔ ((c.matchList.dropLast)[i]?).map (·.id) = some x
  rw [hdrop]
  by_cases hx : x = m.id
  · subst hx
    rw [Function.update_self]
    constructor
    · intro heq; cases heq
    · intro heq
      obtain ⟨n, hn, hnid⟩ := Option.map_eq_some_iff.1 heq
      obtain ⟨hlt, -⟩ := List.getElem?_eq_some_iff.1 hn
      have hi : c.matchList[i]? = some n := by rw [hms, List.getElem?_append_left hlt, hn]
      have := h.matchMap_of_mem hi
      rw [hnid, h.matchMap_of_mem hlast] at this
      cases this
      omega
  · rw [Function.update_of_ne hx, h, hms, List.getElem?_append]
    split
    · rfl
    · next hlt =>
      rw [List.getElem?_eq_none (by omega : ms.length ≤ i)]
      constructor
      · intro heq
        obtain ⟨n, hn, hnx⟩ := Option.map_eq_some_iff.1 heq
        obtain rfl := List.mem_singleton.1 (List.mem_of_getElem? hn)
        exact (hx hnx.symm).elim
      · intro heq; cases heq

theorem Indexed.popMatch (h : c.Indexed) (hpop : c.popMatch = .ok c') : c'.Indexed := by
  obtain ⟨m, hm, rfl⟩ := popMatch_ok hpop
  obtain ⟨ms, hms⟩ := List.getLast?_eq_some_iff.1 hm
  have hdrop : c.matchList.dropLast = ms := by rw [hms]; simp
  refine ⟨MapsMatches.popMatch h.map hpop, fun n hn => ?_, fun n hn => ?_, fun type => ?_⟩
  · exact h.ids n (List.mem_of_mem_dropLast hn)
  · exact h.permanentBye n (List.mem_of_mem_dropLast hn)
  · show (c.matchCount.set m.type (c.matchCount.get m.type - 1)).get type =
      UInt64.ofNat (c.matchList.dropLast.countP _)
    have hcount := h.count type
    rw [hms, List.countP_append, UInt64.ofNat_add] at hcount
    rw [hdrop]
    cases hmt : m.type <;> cases type <;> simp_all [ByType.get, ByType.set]

theorem indexed_clearMatches (c : CategoryStore) : c.clearMatches.Indexed := by
  refine ⟨fun x i => ?_, by simp [clearMatches], by simp [clearMatches], fun type => ?_⟩
  · simp [clearMatches]
  · cases type <;> rfl

theorem indexed_init (id : CategoryId) (name : String) (ruleset : RulesetIdentifier) (drawSystem : DrawSystem) :
    (CategoryStore.init id name ruleset drawSystem).Indexed :=
  (indexed_clearMatches (.init id name ruleset drawSystem)).of_eq rfl rfl rfl rfl

end CategoryStore

/-! ### Views -/

namespace TournamentStore

section

variable {α β : Type} {f : PlayerStore → α} {h : CategoryStore → β} {t t' : TournamentStore}

/-- What two functions see of the players and the categories. -/
def project (f : PlayerStore → α) (h : CategoryStore → β) (t : TournamentStore) :
    (PlayerId → Option α) × (CategoryId → Option β) :=
  (fun id => (t.players id).map f, fun id => (t.categories id).map h)

theorem project_setPlayer {id : PlayerId} {p p' : PlayerStore} (hp : t.players id = some p)
    (hf : f p' = f p) : (t.setPlayer id p').project f h = t.project f h := by
  refine Prod.ext (funext fun i => ?_) rfl
  show (Function.update t.players id (some p') i).map f = (t.players i).map f
  by_cases hi : i = id
  · subst hi
    rw [Function.update_self, hp, Option.map_some, Option.map_some, hf]
  · rw [Function.update_of_ne hi]

theorem project_setCategory {id : CategoryId} {c c' : CategoryStore} (hc : t.categories id = some c)
    (hh : h c' = h c) : (t.setCategory id c').project f h = t.project f h := by
  refine Prod.ext rfl (funext fun i => ?_)
  show (Function.update t.categories id (some c') i).map h = (t.categories i).map h
  by_cases hi : i = id
  · subst hi
    rw [Function.update_self, hc, Option.map_some, Option.map_some, hh]
  · rw [Function.update_of_ne hi]

theorem players_of_project (hview : t'.project f h = t.project f h) (id : PlayerId) :
    (t'.players id).map f = (t.players id).map f := congrFun (congrArg Prod.fst hview) id

theorem categories_of_project (hview : t'.project f h = t.project f h) (id : CategoryId) :
    (t'.categories id).map h = (t.categories id).map h := congrFun (congrArg Prod.snd hview) id

theorem matchBlind_project (hf : ∀ p s, f { p with matchIds := s } = f p)
    (hh : ∀ c list map count status, h { c with
      matchList := list, matchMap := map, matchCount := count, status := status } = h c) :
    MatchBlind (project f h) where
  player _ _ _ _ hp hsame := project_setPlayer hp (by rw [hsame]; exact hf _ _)
  category _ _ _ _ hc hsame := project_setCategory hc (by rw [hsame]; exact hh _ _ _ _ _)
  tatamis _ _ _ := rfl

theorem memberBlind_project (hf : ∀ p s, f { p with categories := s } = f p)
    (hh : ∀ c s, h { c with players := s } = h c) : MemberBlind (project f h) where
  player _ _ _ _ hp := project_setPlayer hp (hf _ _)
  category _ _ _ _ hc := project_setCategory hc (hh _ _)

theorem fieldBlind_project (hf : ∀ p fields, f (p.setFields fields) = f p) :
    FieldBlind (project f h) := fun _ _ _ _ hp => project_setPlayer hp (hf _ _)

theorem drawSystemBlind_project (hh : ∀ c d, h (c.setDrawSystem d) = h c) :
    DrawSystemBlind (project f h) := fun _ _ _ _ hc => project_setCategory hc (hh _ _)

theorem layoutBlind_project (hh : ∀ c type l, h (c.setLocation type l) = h c) :
    LayoutBlind (project f h) where
  tatamis _ _ := rfl
  location _ _ _ _ _ hc := project_setCategory hc (hh _ _ _)

theorem labelBlind_project (hname : ∀ c name, h (c.setName name) = h c)
    (hruleset : ∀ c ruleset, h (c.setRuleset ruleset) = h c)
    (hhidden : ∀ c hidden, h (c.setMatchesHidden hidden) = h c) : LabelBlind (project f h) where
  name _ _ _ _ hc := project_setCategory hc (hname _ _)
  ruleset _ _ _ _ hc := project_setCategory hc (hruleset _ _)
  hidden _ _ _ _ hc := project_setCategory hc (hhidden _ _)

theorem valueBlind_project : ValueBlind (project f h) := by
  intro t t' hplayers hcategories _
  unfold project
  rw [hplayers, hcategories]

end

/-- What `Indexed` reads. -/
def keys : TournamentStore → (PlayerId → Option PlayerId) ×
    (CategoryId → Option (CategoryId × List MatchStore × (MatchId → Option ℕ) × ByType UInt64)) :=
  project (·.id) fun c => (c.id, c.matchList, c.matchMap, c.matchCount)

theorem Indexed.of_keys {t t' : TournamentStore} (h : t.Indexed) (hkeys : t'.keys = t.keys) : t'.Indexed := by
  have hcategory : ∀ id c', t'.categories id = some c' → ∃ c, t.categories id = some c ∧ c.id = c'.id ∧
      c.matchList = c'.matchList ∧ c.matchMap = c'.matchMap ∧ c.matchCount = c'.matchCount := by
    intro id c' hc'
    have heq := categories_of_project hkeys id
    rw [hc', Option.map_some, eq_comm, Option.map_eq_some_iff] at heq
    obtain ⟨c, hc, heq⟩ := heq
    simp only [Prod.mk.injEq] at heq
    exact ⟨c, hc, heq⟩
  refine ⟨fun id p' hp' => ?_, fun id c' hc' => ?_, fun id c' hc' => ?_⟩
  · have heq := players_of_project hkeys id
    rw [hp', Option.map_some, eq_comm, Option.map_eq_some_iff] at heq
    obtain ⟨p, hp, heq⟩ := heq
    rw [← heq]
    exact h.player id p hp
  · obtain ⟨c, hc, hid, -⟩ := hcategory id c' hc'
    rw [← hid]
    exact h.category id c hc
  · obtain ⟨c, hc, hid, hlist, hmap, hcount⟩ := hcategory id c' hc'
    exact (h.index id c hc).of_eq hid.symm hlist.symm hmap.symm hcount.symm

theorem memberBlind_keys : MemberBlind keys := memberBlind_project (fun _ _ => rfl) fun _ _ => rfl

theorem fieldBlind_keys : FieldBlind keys := fieldBlind_project fun _ _ => rfl

theorem drawSystemBlind_keys : DrawSystemBlind keys := drawSystemBlind_project fun _ _ => rfl

theorem layoutBlind_keys : LayoutBlind keys := layoutBlind_project fun _ _ _ => rfl

theorem labelBlind_keys : LabelBlind keys :=
  labelBlind_project (fun _ _ => rfl) (fun _ _ => rfl) fun _ _ => rfl

theorem Indexed.setPlayer {t : TournamentStore} (h : t.Indexed) {id : PlayerId} {p : PlayerStore}
    (hp : p.id = id) : (t.setPlayer id p).Indexed := by
  refine ⟨fun i q hq => ?_, h.category, h.index⟩
  change Function.update t.players id (some p) i = some q at hq
  by_cases hi : i = id
  · subst hi
    rw [Function.update_self] at hq
    cases hq
    exact hp
  · rw [Function.update_of_ne hi] at hq
    exact h.player i q hq

theorem Indexed.setCategory {t : TournamentStore} (h : t.Indexed) {id : CategoryId} {c : CategoryStore}
    (hid : c.id = id) (hc : c.Indexed) : (t.setCategory id c).Indexed := by
  have hcases : ∀ i d, (t.setCategory id c).categories i = some d → (i = id ∧ d = c) ∨
      t.categories i = some d := by
    intro i d hd
    change Function.update t.categories id (some c) i = some d at hd
    by_cases hi : i = id
    · subst hi
      rw [Function.update_self] at hd
      exact .inl ⟨rfl, (Option.some.inj hd).symm⟩
    · rw [Function.update_of_ne hi] at hd
      exact .inr hd
  refine ⟨h.player, fun i d hd => ?_, fun i d hd => ?_⟩
  · obtain ⟨rfl, rfl⟩ | hd := hcases i d hd
    · exact hid
    · exact h.category i d hd
  · obtain ⟨rfl, rfl⟩ | hd := hcases i d hd
    · exact hc
    · exact h.index i d hd

end TournamentStore

/-! ### The matches of the players -/

/-- The player is one of the two of the match. -/
def MatchStore.Has (m : MatchStore) (id : PlayerId) : Prop := ∃ i, m.getPlayer i = some id

theorem MatchStore.has_iff {m : MatchStore} {id : PlayerId} :
    m.Has id ↔ m.players.white = some id ∨ m.players.blue = some id := by
  constructor
  · rintro ⟨i, hi⟩
    cases i with
    | white => exact .inl hi
    | blue => exact .inr hi
  · rintro (h | h)
    · exact ⟨.white, h⟩
    · exact ⟨.blue, h⟩

instance (m : MatchStore) (id : PlayerId) : Decidable (m.Has id) := decidable_of_iff _ MatchStore.has_iff.symm

/-- The ids of the matches of a player. -/
def fights (ms : List MatchStore) (id : PlayerId) : Finset CombinedId :=
  ((ms.filter fun m => m.Has id).map (·.combinedId)).toFinset

theorem mem_fights {ms : List MatchStore} {id : PlayerId} {x : CombinedId} :
    x ∈ fights ms id ↔ ∃ m ∈ ms, m.Has id ∧ m.combinedId = x := by
  simp [fights, and_assoc]

namespace TournamentStore

variable {t : TournamentStore}

/-- Put matches into the sets of the players. -/
def engage (S : PlayerId → Finset CombinedId) (t : TournamentStore) : TournamentStore :=
  { t with players := fun id => (t.players id).map fun p => { p with matchIds := p.matchIds ∪ S id } }

/-- Take matches out of the sets of the players. -/
def disengage (S : PlayerId → Finset CombinedId) (t : TournamentStore) : TournamentStore :=
  { t with players := fun id => (t.players id).map fun p => { p with matchIds := p.matchIds \ S id } }

/-- One match for one player. -/
def single (x : CombinedId) (player : Option PlayerId) (id : PlayerId) : Finset CombinedId :=
  if player = some id then {x} else ∅

theorem engage_engage (S S' : PlayerId → Finset CombinedId) (t : TournamentStore) :
    (t.engage S).engage S' = t.engage fun id => S id ∪ S' id := by
  unfold engage
  congr 1
  funext id
  simp only
  cases t.players id with
  | none => rfl
  | some p => simp [Finset.union_assoc]

theorem disengage_disengage (S S' : PlayerId → Finset CombinedId) (t : TournamentStore) :
    (t.disengage S).disengage S' = t.disengage fun id => S id ∪ S' id := by
  unfold disengage
  congr 1
  funext id
  simp only
  cases t.players id with
  | none => rfl
  | some p => simp [sdiff_sdiff_left]

theorem engage_empty (t : TournamentStore) : t.engage (fun _ => ∅) = t := by
  have hplayers : (fun id => (t.players id).map fun p => { p with matchIds := p.matchIds ∪ ∅ }) = t.players := by
    funext id
    cases t.players id with
    | none => rfl
    | some p => simp
  unfold engage
  rw [hplayers]

theorem disengage_empty (t : TournamentStore) : t.disengage (fun _ => ∅) = t := by
  have hplayers : (fun id => (t.players id).map fun p => { p with matchIds := p.matchIds \ ∅ }) = t.players := by
    funext id
    cases t.players id with
    | none => rfl
    | some p => simp
  unfold disengage
  rw [hplayers]

theorem players_engage_eq_none {S : PlayerId → Finset CombinedId} {id : PlayerId} :
    (t.engage S).players id = none ↔ t.players id = none := Option.map_eq_none_iff

theorem players_disengage_eq_none {S : PlayerId → Finset CombinedId} {id : PlayerId} :
    (t.disengage S).players id = none ↔ t.players id = none := Option.map_eq_none_iff

theorem setPlayer_addMatch {id : PlayerId} {p : PlayerStore} {x : CombinedId} (hp : t.players id = some p) :
    t.setPlayer id { p with matchIds := insert x p.matchIds } = t.engage (single x (some id)) := by
  unfold setPlayer engage
  congr 1
  funext i
  by_cases hi : i = id
  · subst hi
    rw [Function.update_self, hp]
    simp [single]
  · rw [Function.update_of_ne hi]
    cases t.players i with
    | none => rfl
    | some q => simp [single, Ne.symm hi]

theorem setPlayer_eraseMatch {id : PlayerId} {p : PlayerStore} {x : CombinedId} (hp : t.players id = some p) :
    t.setPlayer id (p.eraseMatch x) = t.disengage (single x (some id)) := by
  unfold setPlayer disengage
  congr 1
  funext i
  by_cases hi : i = id
  · subst hi
    rw [Function.update_self, hp]
    simp [single, PlayerStore.eraseMatch, Finset.sdiff_singleton_eq_erase]
  · rw [Function.update_of_ne hi]
    cases t.players i with
    | none => rfl
    | some q => simp [single, Ne.symm hi]

end TournamentStore

namespace SetMatchPlayerAction

open TournamentStore

variable {t t' : TournamentStore} {x : CombinedId} {player : Option PlayerId} {u : Unit}

theorem addTo_ok : addTo x player t = .ok u t' ↔
    (∀ id, player = some id → ∃ p, t.players id = some p ∧ x ∉ p.matchIds) ∧
    t' = t.engage (single x player) := by
  cases player with
  | none =>
    have hsingle : single x none = fun _ => ∅ := by funext id; simp [single]
    rw [hsingle, engage_empty]
    show (pure () : Exec Unit) t = .ok u t' ↔ _
    simp [eq_comm]
  | some id =>
    show editPlayer id (·.addMatch x) t = .ok u t' ↔ _
    simp only [editPlayer_ok, PlayerStore.addMatch, except_bind_ok, check_ok, except_pure_ok,
      decide_eq_true_eq, Option.some.injEq, forall_eq']
    constructor
    · rintro ⟨p, _, hp, ⟨_, hx, rfl⟩, rfl⟩
      exact ⟨⟨p, hp, hx⟩, setPlayer_addMatch hp⟩
    · rintro ⟨⟨p, hp, hx⟩, rfl⟩
      exact ⟨p, _, hp, ⟨(), hx, rfl⟩, (setPlayer_addMatch hp).symm⟩

theorem eraseFrom_ok : eraseFrom x player t = .ok u t' ↔
    (∀ id, player = some id → t.players id ≠ none) ∧ t' = t.disengage (single x player) := by
  cases player with
  | none =>
    have hsingle : single x none = fun _ => ∅ := by funext id; simp [single]
    rw [hsingle, disengage_empty]
    show (pure () : Exec Unit) t = .ok u t' ↔ _
    simp [eq_comm]
  | some id =>
    show editPlayer id (fun p => .ok (p.eraseMatch x)) t = .ok u t' ↔ _
    simp only [editPlayer_ok, Except.ok.injEq, Option.some.injEq, forall_eq']
    constructor
    · rintro ⟨p, _, hp, rfl, rfl⟩
      exact ⟨by simp [hp], setPlayer_eraseMatch hp⟩
    · rintro ⟨hne, rfl⟩
      obtain ⟨p, hp⟩ := Option.ne_none_iff_exists'.1 hne
      exact ⟨p, _, hp, rfl, (setPlayer_eraseMatch hp).symm⟩

end SetMatchPlayerAction

/-! ### Adding matches -/

namespace AddMatchAction

open TournamentStore SetMatchPlayerAction

variable {t t' : TournamentStore} {a : AddMatchAction} {u : Unit}

/-- The match that the action adds. -/
def toMatch (a : AddMatchAction) (t : TournamentStore) : MatchStore :=
  MatchStore.init a.combinedId a.type a.title a.bye (existing t a.whitePlayerId) (existing t a.bluePlayerId)

theorem existing_eq_some {player : Option PlayerId} {id : PlayerId} :
    existing t player = some id ↔ player = some id ∧ t.players id ≠ none := by
  cases player with
  | none => simp [existing]
  | some q =>
    simp only [existing, TournamentStore.containsPlayer, Option.isSome_iff_ne_none]
    split
    · next h =>
      constructor
      · intro heq
        cases heq
        exact ⟨rfl, h⟩
      · exact fun heq => heq.1
    · next h =>
      constructor
      · intro heq; cases heq
      · rintro ⟨heq, hne⟩
        cases heq
        exact (h hne).elim

theorem fights_singleton (m : MatchStore) (id : PlayerId) :
    fights [m] id = single m.combinedId m.players.white id ∪ single m.combinedId m.players.blue id := by
  ext x
  rw [mem_fights]
  simp only [List.mem_singleton, exists_eq_left, MatchStore.has_iff, single, Finset.mem_union]
  split <;> split <;> simp_all [eq_comm]

theorem fights_cons (m : MatchStore) (ms : List MatchStore) (id : PlayerId) :
    fights (m :: ms) id = fights [m] id ∪ fights ms id := by
  ext x
  simp only [mem_fights, Finset.mem_union]
  constructor
  · rintro ⟨n, hn, h⟩
    rcases List.mem_cons.1 hn with rfl | hn
    · exact .inl ⟨n, List.mem_singleton_self n, h⟩
    · exact .inr ⟨n, hn, h⟩
  · rintro (⟨n, hn, h⟩ | ⟨n, hn, h⟩)
    · obtain rfl := List.mem_singleton.1 hn
      exact ⟨n, List.mem_cons_self, h⟩
    · exact ⟨n, List.mem_cons_of_mem _ hn, h⟩

/-- The sets of the players of the match have room for it. -/
structure Fresh (t : TournamentStore) (m : MatchStore) : Prop where
  room : ∀ id, m.Has id → ∃ p, t.players id = some p ∧ m.combinedId ∉ p.matchIds
  distinct : ∀ id, ¬ (m.players.white = some id ∧ m.players.blue = some id)

/-- Putting a match into the sets of its two players. -/
theorem addBoth_ok {m : MatchStore} {f : Unit → Exec Unit} :
    (do
      addTo m.combinedId m.players.white
      addTo m.combinedId m.players.blue
      f () : Exec Unit) t = .ok u t' ↔ Fresh t m ∧ f () (t.engage (fights [m])) = .ok u t' := by
  have hengage : (t.engage (single m.combinedId m.players.white)).engage (single m.combinedId m.players.blue) =
      t.engage (fights [m]) := by
    rw [engage_engage]
    congr 1
    funext id
    exact (fights_singleton m id).symm
  simp only [bind_ok, addTo_ok]
  constructor
  · rintro ⟨_, _, ⟨hwhite, rfl⟩, _, _, ⟨hblue, rfl⟩, h⟩
    rw [hengage] at h
    refine ⟨⟨fun id hid => ?_, fun id hid => ?_⟩, h⟩
    · rcases MatchStore.has_iff.1 hid with hid | hid
      · exact hwhite id hid
      · obtain ⟨p, hp, hx⟩ := hblue id hid
        obtain ⟨q, hq, rfl⟩ := Option.map_eq_some_iff.1 hp
        exact ⟨q, hq, fun hmem => hx (Finset.mem_union_left _ hmem)⟩
    · obtain ⟨p, hp, hx⟩ := hblue id hid.2
      obtain ⟨q, hq, rfl⟩ := Option.map_eq_some_iff.1 hp
      exact hx (Finset.mem_union_right _ (by simp [single, hid.1]))
  · rintro ⟨hfresh, h⟩
    refine ⟨(), _, ⟨fun id hid => hfresh.room id ⟨.white, hid⟩, rfl⟩, (), _,
      ⟨fun id hid => ?_, rfl⟩, ?_⟩
    · obtain ⟨p, hp, hx⟩ := hfresh.room id ⟨.blue, hid⟩
      refine ⟨_, by show Option.map _ (t.players id) = _; rw [hp]; rfl, ?_⟩
      intro hmem
      rcases Finset.mem_union.1 hmem with hmem | hmem
      · exact hx hmem
      · unfold single at hmem
        split at hmem
        · next hwhite => exact hfresh.distinct id ⟨hwhite, hid⟩
        · cases hmem
    · rw [hengage]
      exact h

/-- Taking a match out of the sets of two players. -/
theorem eraseBoth_ok {x : CombinedId} {w b : Option PlayerId} {f : Unit → Exec Unit} :
    (do
      eraseFrom x (existing t w)
      eraseFrom x (existing t b)
      f () : Exec Unit) t = .ok u t' ↔
      f () (t.disengage fun id => single x w id ∪ single x b id) = .ok u t' := by
  have hsingle : ∀ {s : TournamentStore}, (∀ id, s.players id = none ↔ t.players id = none) →
      ∀ player : Option PlayerId, s.disengage (single x (existing t player)) = s.disengage (single x player) := by
    intro s hs player
    unfold disengage
    congr 1
    funext id
    cases hp : s.players id with
    | none => rfl
    | some p =>
      have hne : t.players id ≠ none := fun hnone => by
        rw [(hs id).2 hnone] at hp
        cases hp
      have heq : single x (existing t player) id = single x player id := by
        unfold single
        simp [existing_eq_some, hne]
      rw [heq]
  have hne : ∀ {player : Option PlayerId} {id : PlayerId}, existing t player = some id → t.players id ≠ none :=
    fun h => (existing_eq_some.1 h).2
  simp only [bind_ok, eraseFrom_ok]
  rw [hsingle (fun _ => Iff.rfl) w]
  constructor
  · rintro ⟨_, _, ⟨-, rfl⟩, _, _, ⟨-, rfl⟩, h⟩
    rw [hsingle (fun _ => players_disengage_eq_none) b, disengage_disengage] at h
    exact h
  · intro h
    refine ⟨(), _, ⟨fun id hid => hne hid, rfl⟩, (), _, ⟨fun id hid => ?_, rfl⟩, ?_⟩
    · rw [ne_eq, players_disengage_eq_none]
      exact hne hid
    · rw [hsingle (fun _ => players_disengage_eq_none) b, disengage_disengage]
      exact h

/-- What adding a match to a category does. -/
theorem redoImpl_ok {c : CategoryStore} (hc : t.categories a.combinedId.categoryId = some c)
    (h : a.redoImpl t = .ok u t') : ∃ c', c.pushMatch (a.toMatch t) = .ok c' ∧ Fresh t (a.toMatch t) ∧
      t' = (t.engage (fights [a.toMatch t])).setCategory a.combinedId.categoryId c' := by
  simp only [redoImpl, bind_ok, get_ok] at h
  obtain ⟨_, _, ⟨hget, hsame⟩, h⟩ := h
  rw [hget, hsame, hc] at h
  simp only at h
  split at h
  · exact (throw_ok.1 h).elim
  · obtain ⟨hfresh, h⟩ := (addBoth_ok (m := a.toMatch t)
      (f := fun _ => editCategory a.combinedId.categoryId (·.pushMatch (a.toMatch t)))).1 h
    obtain ⟨c₁, c', hc₁, hpush, rfl⟩ := editCategory_ok.1 h
    cases hc.symm.trans hc₁
    exact ⟨c', hpush, hfresh, rfl⟩

theorem undoImpl_ok {c : CategoryStore} (hc : t.categories a.combinedId.categoryId = some c) :
    a.undoImpl t = .ok u t' ↔ ∃ c', c.popMatch = .ok c' ∧
      t' = (t.disengage fun id => single a.combinedId a.whitePlayerId id ∪
        single a.combinedId a.bluePlayerId id).setCategory a.combinedId.categoryId c' := by
  have hcontains : t.containsCategory a.combinedId.categoryId = true := by
    unfold TournamentStore.containsCategory
    rw [hc]
    rfl
  have hunfold : a.undoImpl t = (do
      eraseFrom a.combinedId (existing t a.whitePlayerId)
      eraseFrom a.combinedId (existing t a.bluePlayerId)
      editCategory a.combinedId.categoryId (·.popMatch) : Exec Unit) t := by
    show (if t.containsCategory a.combinedId.categoryId then _ else _ : Exec Unit) t = _
    rw [if_pos hcontains]
  rw [hunfold, eraseBoth_ok (f := fun _ => editCategory a.combinedId.categoryId (·.popMatch)), editCategory_ok]
  constructor
  · rintro ⟨c₁, c', hc₁, hpop, rfl⟩
    cases hc.symm.trans hc₁
    exact ⟨c', hpop, rfl⟩
  · rintro ⟨c', hpop, rfl⟩
    exact ⟨c, c', hc, hpop, rfl⟩

end AddMatchAction

end JudoAssistant
