import Mathlib.Algebra.GroupWithZero.Nat
import Mathlib.Algebra.Order.BigOperators.Group.List
import Mathlib.Algebra.Order.Group.Nat
import JudoAssistant.Lib.Turns
import JudoAssistant.Tournament.Links

/-!
# The order of the matches of a concurrent group

The iterator of a sequential group goes over the matches of its blocks, and `mergeMatchIterators` lets
the iterators of a concurrent group take turns.  The order is the round robin of the matches of the
sequential groups.
-/

namespace JudoAssistant

open Effect Exec Turns

/-- The block has a category, stored under its id, that finds its matches by id. -/
def Categories.Stored (categories : Categories) (b : Block) : Prop :=
  ∃ c, categories b.1 = some c ∧ c.id = b.1 ∧ c.MapsMatches

/-- The match belongs to a block of the type. -/
def scheduled (type : MatchType) (m : MatchStore) : Bool := !m.permanentBye && decide (m.type = type)

/-- The matches of a block from position `n` of the category on. -/
def Categories.scheduledFrom (categories : Categories) (b : Block) (n : ℕ) : List CombinedId :=
  match categories b.1 with
  | none => []
  | some c =>
    if c.matchesHidden then [] else ((c.matchList.drop n).filter (scheduled b.2)).map fun m => ⟨c.id, m.id⟩

/-- The matches of a block: those of its type that are no permanent byes, in the order of the category, unless the
matches of the category are hidden. -/
def Categories.matchesOf (categories : Categories) (b : Block) : List CombinedId :=
  match categories b.1 with
  | none => []
  | some c => if c.matchesHidden then [] else (c.matchList.filter (scheduled b.2)).map fun m => ⟨c.id, m.id⟩

/-- The matches of the blocks, where the iterator is at position `n` of the first one. -/
def Categories.ahead (categories : Categories) : List Block → ℕ → List CombinedId
  | [], _ => []
  | b :: blocks, n => categories.scheduledFrom b n ++ blocks.flatMap categories.matchesOf

variable {categories : Categories} {g : SequentialBlockGroup} {b : Block} {blocks : List Block} {c : CategoryStore}

theorem Categories.ahead_zero (blocks : List Block) :
    categories.ahead blocks 0 = blocks.flatMap categories.matchesOf := by
  cases blocks <;> rfl

namespace ConstMatchIterator

theorem nextMatch_none {type : MatchType} {ms : List MatchStore} {i : ℕ} (h : nextMatch type ms i = none) :
    ms.filter (scheduled type) = [] := by
  induction ms generalizing i with
  | nil => rfl
  | cons m ms ih =>
    unfold nextMatch at h
    split at h
    · next hbye => rw [List.filter_cons_of_neg (by simp [scheduled, hbye]), ih h]
    · split at h
      · next htype => rw [List.filter_cons_of_neg (by simp [scheduled, Ne.symm htype]), ih h]
      · cases h

theorem nextMatch_some {type : MatchType} {ms : List MatchStore} {i j : ℕ} (h : nextMatch type ms i = some j) :
    ∃ k m, j = i + k ∧ ms[k]? = some m ∧
      ms.filter (scheduled type) = m :: (ms.drop (k + 1)).filter (scheduled type) := by
  induction ms generalizing i with
  | nil => cases h
  | cons m ms ih =>
    unfold nextMatch at h
    split at h
    · next hbye =>
      obtain ⟨k, n, rfl, hget, hfilter⟩ := ih h
      refine ⟨k + 1, n, by omega, hget, ?_⟩
      rw [List.filter_cons_of_neg (by simp [scheduled, hbye]), hfilter]
      rfl
    · next hbye =>
      split at h
      · next htype =>
        obtain ⟨k, n, rfl, hget, hfilter⟩ := ih h
        refine ⟨k + 1, n, by omega, hget, ?_⟩
        rw [List.filter_cons_of_neg (by simp [scheduled, Ne.symm htype]), hfilter]
        rfl
      · next htype =>
        cases h
        refine ⟨0, m, rfl, rfl, ?_⟩
        rw [List.filter_cons_of_pos (by simpa [scheduled, hbye] using (not_not.1 htype).symm)]
        rfl

/-- The search from the iterator ends at the end of the blocks or at the first of the matches that are ahead. -/
def Finds (categories : Categories) (blocks : List Block) (it : ConstMatchIterator) : Prop :=
  loadMatch categories blocks it = .ok ⟨it.currentBlock + blocks.length, 0⟩ ∧
      categories.ahead blocks it.currentMatch = [] ∨
    ∃ k n b c m, loadMatch categories blocks it = .ok ⟨it.currentBlock + k, n⟩ ∧ blocks[k]? = some b ∧
      categories b.1 = some c ∧ c.matchList[n]? = some m ∧
      categories.ahead blocks it.currentMatch = ⟨c.id, m.id⟩ :: categories.ahead (blocks.drop k) (n + 1)

variable {it : ConstMatchIterator}

/-- Without a match in the first block, the next block is searched from its start. -/
theorem Finds.skip (h : Finds categories blocks ⟨it.currentBlock + 1, 0⟩)
    (hload : loadMatch categories (b :: blocks) it = loadMatch categories blocks ⟨it.currentBlock + 1, 0⟩)
    (hnone : categories.scheduledFrom b it.currentMatch = []) : Finds categories (b :: blocks) it := by
  have hahead : categories.ahead (b :: blocks) it.currentMatch = categories.ahead blocks 0 := by
    rw [Categories.ahead, hnone, List.nil_append, Categories.ahead_zero]
  unfold Finds
  rw [hload, hahead]
  obtain ⟨hend, hnil⟩ | ⟨k, n, b', c', m, hnext, hget, hc', hm, hahead'⟩ := h
  · refine .inl ⟨?_, hnil⟩
    rw [hend, List.length_cons, Nat.add_right_comm, Nat.add_assoc]
  · refine .inr ⟨k + 1, n, b', c', m, ?_, hget, hc', hm, hahead'⟩
    rw [hnext, Nat.add_right_comm, Nat.add_assoc]

/-- The iterator moves to the next match of the blocks, or to the end. -/
theorem finds (hexist : ∀ b ∈ blocks, ∃ c, categories b.1 = some c) (it : ConstMatchIterator)
    (hit : blocks = [] → it.currentMatch = 0) : Finds categories blocks it := by
  induction blocks generalizing it with
  | nil =>
    obtain ⟨i, j⟩ := it
    obtain rfl : j = 0 := hit rfl
    exact .inl ⟨rfl, rfl⟩
  | cons b blocks ih =>
    obtain ⟨c, hc⟩ := hexist b List.mem_cons_self
    have hload : loadMatch categories (b :: blocks) it =
        if c.matchesHidden then loadMatch categories blocks ⟨it.currentBlock + 1, 0⟩
        else (nextMatch b.2 (c.matchList.drop it.currentMatch) it.currentMatch).elim
          (loadMatch categories blocks ⟨it.currentBlock + 1, 0⟩) fun i => .ok ⟨it.currentBlock, i⟩ := by
      rw [loadMatch, getCategory_eq_ok.2 hc]
      simp only [bind, Except.bind]
      cases nextMatch b.2 (c.matchList.drop it.currentMatch) it.currentMatch <;> rfl
    have hscheduled : categories.scheduledFrom b it.currentMatch = if c.matchesHidden then []
        else ((c.matchList.drop it.currentMatch).filter (scheduled b.2)).map fun m => ⟨c.id, m.id⟩ := by
      rw [Categories.scheduledFrom, hc]
    have hrest : Finds categories blocks ⟨it.currentBlock + 1, 0⟩ :=
      ih (fun b' hb' => hexist b' (List.mem_cons_of_mem b hb')) _ fun _ => rfl
    cases hhidden : c.matchesHidden with
    | true =>
      rw [hhidden] at hload hscheduled
      exact hrest.skip hload hscheduled
    | false =>
      rw [hhidden] at hload hscheduled
      cases hnext : nextMatch b.2 (c.matchList.drop it.currentMatch) it.currentMatch with
      | none =>
        rw [hnext] at hload
        rw [nextMatch_none hnext] at hscheduled
        exact hrest.skip hload hscheduled
      | some j =>
        rw [hnext] at hload
        obtain ⟨k, m, rfl, hm, hfilter⟩ := nextMatch_some hnext
        rw [List.getElem?_drop] at hm
        rw [List.drop_drop, ← Nat.add_assoc] at hfilter
        refine .inr ⟨0, it.currentMatch + k, b, c, m, hload, rfl, hc, hm, ?_⟩
        rw [Categories.ahead, hscheduled, hfilter, List.drop_zero, Categories.ahead, Categories.scheduledFrom, hc]
        simp only [hhidden]
        rfl

/-- The iterator is at the first of these matches, goes over them and comes to the end. -/
def Holds (categories : Categories) (g : SequentialBlockGroup) : ConstMatchIterator → List CombinedId → Prop
  | it, [] => it = last g
  | it, id :: ids => it ≠ last g ∧ it.deref categories g = .ok id ∧
      ∃ it', it.next categories g = .ok it' ∧ Holds categories g it' ids

/-- After a search the iterator holds the matches that were ahead. -/
theorem exists_holds (hexist : ∀ b ∈ g.blocks, ∃ c, categories b.1 = some c) (ids : List CombinedId)
    (it : ConstMatchIterator) (hle : it.currentBlock ≤ g.blocks.length)
    (hit : it.currentBlock = g.blocks.length → it.currentMatch = 0)
    (hahead : categories.ahead (g.blocks.drop it.currentBlock) it.currentMatch = ids) :
    ∃ it', loadMatch categories (g.blocks.drop it.currentBlock) it = .ok it' ∧ Holds categories g it' ids := by
  induction ids generalizing it with
  | nil =>
    obtain ⟨hload, -⟩ | ⟨k, n, b, c, m, -, -, -, -, hcons⟩ :=
      finds (fun b hb => hexist b (List.mem_of_mem_drop hb)) it fun hnil =>
        hit (le_antisymm hle (List.drop_eq_nil_iff.1 hnil))
    · refine ⟨_, hload, ?_⟩
      rw [Holds, last, List.length_drop, Nat.add_sub_cancel' hle]
    · rw [hahead] at hcons
      cases hcons
  | cons id ids ih =>
    obtain ⟨-, hnil⟩ | ⟨k, n, b, c, m, hload, hb, hc, hm, hcons⟩ :=
      finds (fun b hb => hexist b (List.mem_of_mem_drop hb)) it fun hnil =>
        hit (le_antisymm hle (List.drop_eq_nil_iff.1 hnil))
    · rw [hahead] at hnil
      cases hnil
    · rw [hahead, List.drop_drop] at hcons
      obtain ⟨rfl, hids⟩ := List.cons.inj hcons
      rw [List.getElem?_drop] at hb
      have hlt : it.currentBlock + k < g.blocks.length := (List.getElem?_eq_some_iff.1 hb).1
      refine ⟨_, hload, fun heq => ?_, ?_, ?_⟩
      · exact absurd (congrArg currentBlock heq) hlt.ne
      · simp only [deref, hb, getCategory_eq_ok.2 hc]
        exact except_bind_ok.2 ⟨c, rfl, by simp only [hm]; rfl⟩
      · exact ih ⟨it.currentBlock + k, n + 1⟩ hlt.le (fun heq => absurd heq hlt.ne) hids.symm

theorem exists_holds_first (hexist : ∀ b ∈ g.blocks, ∃ c, categories b.1 = some c) :
    ∃ it, first categories g = .ok it ∧ Holds categories g it (g.blocks.flatMap categories.matchesOf) := by
  refine exists_holds hexist _ ⟨0, 0⟩ (Nat.zero_le _) (fun _ => rfl) ?_
  rw [List.drop_zero, Categories.ahead_zero]

end ConstMatchIterator

/-! ### The queue of the iterators -/

open ConstMatchIterator in
/-- The iterators take turns. -/
theorem mergeMatchIterators_eq {fuel : ℕ} {queue : List (SequentialBlockGroup × ConstMatchIterator)}
    {front back : List (List CombinedId)}
    (hholds : List.Forall₂ (fun p ids => Holds categories p.1 p.2 ids) queue (front ++ back))
    (hfuel : ((front ++ back).map fun ids => ids.length + 1).sum ≤ fuel) :
    mergeMatchIterators categories fuel queue = .ok (served front back) := by
  induction fuel generalizing queue front back with
  | zero =>
    cases hlists : front ++ back with
    | nil =>
      rw [hlists] at hholds
      cases hholds
      obtain ⟨rfl, rfl⟩ := List.append_eq_nil_iff.1 hlists
      rfl
    | cons ids lists =>
      rw [hlists, List.map_cons, List.sum_cons] at hfuel
      omega
  | succ fuel ih =>
    cases hlists : front ++ back with
    | nil =>
      rw [hlists] at hholds
      cases hholds
      obtain ⟨rfl, rfl⟩ := List.append_eq_nil_iff.1 hlists
      rfl
    | cons ids lists =>
      rw [hlists] at hholds hfuel
      rw [List.map_cons, List.sum_cons] at hfuel
      obtain ⟨front', back', rfl, heq⟩ := exists_served_cons hlists
      rw [heq]
      cases hholds with
      | @cons p _ queue _ hp hqueue =>
        obtain ⟨g, it⟩ := p
        cases ids with
        | nil =>
          have hlast : it = last g := hp
          rw [mergeMatchIterators, if_pos hlast, served_nil_cons]
          exact ih hqueue (by omega)
        | cons id ids =>
          obtain ⟨hne, hderef, it', hnext, hp'⟩ := hp
          have hqueue' : List.Forall₂ (fun p ids => Holds categories p.1 p.2 ids) (queue ++ [(g, it')])
              (front' ++ (back' ++ [ids])) := by
            rw [← List.append_assoc]
            exact List.rel_append hqueue (.cons hp' .nil)
          have hrest := ih hqueue' (by
            rw [← List.append_assoc, List.map_append, List.sum_append, List.map_singleton, List.sum_singleton]
            rw [List.length_cons] at hfuel
            omega)
          rw [mergeMatchIterators, if_neg hne, served_cons]
          exact except_bind_ok.2 ⟨id, hderef,
            except_bind_ok.2 ⟨it', hnext, except_bind_ok.2 ⟨_, hrest, rfl⟩⟩⟩

/-- The matches of a sequential group, block after block. -/
def SequentialBlockGroup.matchOrder (categories : Categories) (g : SequentialBlockGroup) : List CombinedId :=
  g.blocks.flatMap categories.matchesOf

open ConstMatchIterator in
theorem exists_iterators {groups : List SequentialBlockGroup}
    (hexist : ∀ g ∈ groups, ∀ b ∈ g.blocks, ∃ c, categories b.1 = some c) :
    ∃ iterators, (groups.mapM fun group => do
        let it ← first categories group
        return (group, it)) = .ok iterators ∧
      List.Forall₂ (fun p ids => Holds categories p.1 p.2 ids) iterators (groups.map (·.matchOrder categories)) := by
  induction groups with
  | nil => exact ⟨[], rfl, .nil⟩
  | cons g groups ih =>
    obtain ⟨it, hit, hholds⟩ := exists_holds_first (hexist g List.mem_cons_self)
    obtain ⟨its, hits, hothers⟩ := ih fun g' hg' => hexist g' (List.mem_cons_of_mem g hg')
    refine ⟨(g, it) :: its, ?_, .cons hholds hothers⟩
    rw [List.mapM_cons, hit, hits]
    rfl

theorem Categories.length_matchesOf_le (b : Block) :
    (categories.matchesOf b).length ≤ ((categories b.1).map (·.matchList.length)).getD 0 := by
  unfold Categories.matchesOf
  cases categories b.1 with
  | none => exact Nat.zero_le _
  | some c =>
    show (if c.matchesHidden then _ else _ : List CombinedId).length ≤ c.matchList.length
    split
    · exact Nat.zero_le _
    · rw [List.length_map]
      exact List.length_filter_le _ _

/-- The bound of the loop has a turn for every match and one more for every group. -/
theorem sum_length_matchOrder_le (groups : List SequentialBlockGroup) :
    ((groups.map (·.matchOrder categories)).map fun ids => ids.length + 1).sum ≤ mergeBound categories groups := by
  rw [List.map_map]
  refine List.sum_le_sum fun g _ => Nat.succ_le_succ ?_
  show (g.blocks.flatMap categories.matchesOf).length ≤ _
  rw [List.length_flatMap]
  exact List.sum_le_sum fun b _ => Categories.length_matchesOf_le b

theorem mem_matchesOf {id : CombinedId} : id ∈ categories.matchesOf b ↔
    ∃ c, categories b.1 = some c ∧ c.matchesHidden = false ∧
      ∃ m ∈ c.matchList, m.permanentBye = false ∧ m.type = b.2 ∧ id = ⟨c.id, m.id⟩ := by
  unfold Categories.matchesOf
  cases hc : categories b.1 with
  | none => exact ⟨fun h => (nomatch h), fun ⟨_, h, _⟩ => (nomatch h)⟩
  | some c =>
    simp only
    cases hhidden : c.matchesHidden with
    | true =>
      refine ⟨fun h => (nomatch h), ?_⟩
      rintro ⟨c', hc', hshown, -⟩
      cases hc'
      rw [hhidden] at hshown
      cases hshown
    | false =>
      rw [if_neg Bool.false_ne_true, List.mem_map]
      constructor
      · rintro ⟨m, hm, rfl⟩
        obtain ⟨hmem, hscheduled⟩ := List.mem_filter.1 hm
        obtain ⟨hbye, htype⟩ := Bool.and_eq_true_iff.1 hscheduled
        exact ⟨c, rfl, hhidden, m, hmem, Bool.not_eq_true' _ ▸ hbye, of_decide_eq_true htype, rfl⟩
      · rintro ⟨c', hc', -, m, hm, hbye, htype, rfl⟩
        cases hc'
        refine ⟨m, List.mem_filter.2 ⟨hm, ?_⟩, rfl⟩
        rw [scheduled, hbye, decide_eq_true htype]
        rfl

/-- A match belongs to one block. -/
theorem nodup_matches (hstored : ∀ b ∈ blocks, categories.Stored b) (hdistinct : blocks.Nodup) :
    (blocks.flatMap categories.matchesOf).Nodup := by
  refine List.nodup_flatMap.2 ⟨fun b hb => ?_, hdistinct.imp_of_mem fun {b b'} hb hb' hne => ?_⟩
  · obtain ⟨c, hc, -, hmaps⟩ := hstored b hb
    unfold Categories.matchesOf
    rw [hc]
    simp only
    split
    · exact List.nodup_nil
    · have hids : ((c.matchList.filter (scheduled b.2)).map (·.id)).Nodup :=
        hmaps.nodup_ids.sublist ((List.filter_sublist).map _)
      rw [List.nodup_map_iff_inj_on (hids.of_map _)]
      exact fun m hm m' hm' heq => List.inj_on_of_nodup_map hids hm hm' (CombinedId.mk.inj heq).2
  · -- Blocks of one category differ in their types, and so do their matches.
    intro id hid hid'
    obtain ⟨c, hc, -, m, hm, -, htype, rfl⟩ := mem_matchesOf.1 hid
    obtain ⟨c', hc', -, m', hm', -, htype', heq⟩ := mem_matchesOf.1 hid'
    obtain ⟨c₁, hc₁, hid₁, hmaps⟩ := hstored b hb
    obtain ⟨c₂, hc₂, hid₂, -⟩ := hstored b' hb'
    cases hc.symm.trans hc₁
    cases hc'.symm.trans hc₂
    have hcategory : b.1 = b'.1 := hid₁.symm.trans ((congrArg CombinedId.categoryId heq).trans hid₂)
    rw [← hcategory, hc] at hc'
    cases hc'
    have hsame : m = m' := hmaps.eq_of_id hm hm' (CombinedId.mk.inj heq).2
    exact hne (Prod.ext hcategory (htype.symm.trans (hsame ▸ htype')))

/-! ### The cache -/

theorem matchStatus_ok (hstored : categories.Stored b) {id : CombinedId} (hid : id ∈ categories.matchesOf b) :
    ∃ status, ConcurrentBlockGroup.matchStatus categories id = .ok status := by
  obtain ⟨c, hc, hcid, hmaps⟩ := hstored
  obtain ⟨c', hc', -, m, hm, -, -, rfl⟩ := mem_matchesOf.1 hid
  cases hc.symm.trans hc'
  have hmatch : c.getMatch m.id = .ok m := hmaps.getMatch_ok.2 ⟨hm, rfl⟩
  refine ⟨m.getStatus, except_bind_ok.2 ⟨c, getCategory_eq_ok.2 ?_, except_bind_ok.2 ⟨m, hmatch, rfl⟩⟩⟩
  rw [hcid]
  exact hc

/-- The groups of a concurrent group hold blocks of stored categories, and the matches take turns. -/
theorem ConcurrentBlockGroup.recompute_eq {g : ConcurrentBlockGroup}
    {groups : List (PositionHandle × SequentialBlockGroup)}
    (hgroups : g.groups.inOrder = .ok groups) (hstored : ∀ x ∈ groups, ∀ b ∈ x.2.blocks, categories.Stored b) :
    ∃ g', g.recompute categories = .ok g' ∧ g'.groups = g.groups ∧
      g'.matchIds = roundRobin ((groups.map (·.2)).map (·.matchOrder categories)) := by
  have hstored' : ∀ group ∈ groups.map (·.2), ∀ b ∈ group.blocks, categories.Stored b := by
    intro group hgroup
    obtain ⟨x, hx, rfl⟩ := List.mem_map.1 hgroup
    exact hstored x hx
  have hexist : ∀ group ∈ groups.map (·.2), ∀ b ∈ group.blocks, ∃ c, categories b.1 = some c := by
    intro group hgroup b hb
    obtain ⟨c, hc, -⟩ := hstored' group hgroup b hb
    exact ⟨c, hc⟩
  obtain ⟨iterators, hiterators, hholds⟩ := exists_iterators hexist
  rw [← List.append_nil ((groups.map (·.2)).map _)] at hholds
  have hmerge : mergeMatchIterators categories (mergeBound categories (groups.map (·.2))) iterators = .ok _ :=
    mergeMatchIterators_eq hholds (by
      rw [List.append_nil]
      exact sum_length_matchOrder_le (groups.map (·.2)))
  rw [← roundRobin_eq_served] at hmerge
  have hstatus : ∀ id ∈ roundRobin ((groups.map (·.2)).map (·.matchOrder categories)),
      ∃ status, matchStatus categories id = .ok status := fun id hid => by
    obtain ⟨ids, hids, hid⟩ := List.mem_flatten.1 ((perm_roundRobin _).mem_iff.1 hid)
    obtain ⟨group, hgroup, rfl⟩ := List.mem_map.1 hids
    obtain ⟨b, hb, hid⟩ := List.mem_flatMap.1 hid
    exact matchStatus_ok (hstored' group hgroup b hb) hid
  obtain ⟨statuses, hstatuses⟩ := except_mapM_total hstatus
  simp only [recompute, except_bind_ok, except_pure_ok]
  exact ⟨_, ⟨groups, hgroups, iterators, hiterators, _, hmerge, statuses, hstatuses, rfl⟩, rfl, rfl⟩

/-- The categories are stored under their ids and find their matches by id. -/
def TournamentStore.MapsMatches (t : TournamentStore) : Prop :=
  ∀ id c, t.categories id = some c → c.id = id ∧ c.MapsMatches

theorem TournamentStore.Indexed.mapsMatches {t : TournamentStore} (h : t.Indexed) : t.MapsMatches :=
  fun id c hc => ⟨h.category id c hc, (h.index id c hc).map⟩

/-- A concurrent group whose sequential groups hold distinct blocks lets their matches take turns, and every match is
there once. -/
theorem ConcurrentBlockGroup.recompute_turns (t : TournamentStore) (ht : t.MapsMatches) (g : ConcurrentBlockGroup)
    (groups : List (PositionHandle × SequentialBlockGroup)) (hgroups : g.groups.inOrder = .ok groups)
    (hexist : ∀ x ∈ groups, ∀ b ∈ x.2.blocks, ∃ c, t.categories b.1 = some c)
    (hdistinct : (groups.flatMap (·.2.blocks)).Nodup) :
    ∃ g', g.recompute t.categories = .ok g' ∧ g'.groups = g.groups ∧
      g'.matchIds = roundRobin (groups.map (·.2.matchOrder t.categories)) ∧
      g'.matchIds.Nodup ∧ ∀ id, id ∈ g'.matchIds ↔ ∃ x ∈ groups, id ∈ x.2.matchOrder t.categories := by
  have hstored : ∀ x ∈ groups, ∀ b ∈ x.2.blocks, Categories.Stored t.categories b := fun x hx b hb => by
    obtain ⟨c, hc⟩ := hexist x hx b hb
    exact ⟨c, hc, ht b.1 c hc⟩
  obtain ⟨g', hg', hsame, hids⟩ := recompute_eq hgroups hstored
  have horder : g'.matchIds = roundRobin (groups.map (·.2.matchOrder t.categories)) := by
    rw [hids, List.map_map]
    rfl
  have hperm := perm_roundRobin (groups.map (·.2.matchOrder t.categories))
  refine ⟨g', hg', hsame, horder, ?_, fun id => ?_⟩
  · have hblocks : ∀ b ∈ groups.flatMap (·.2.blocks), Categories.Stored t.categories b := fun b hb => by
      obtain ⟨x, hx, hb⟩ := List.mem_flatMap.1 hb
      exact hstored x hx b hb
    have hnodup := nodup_matches hblocks hdistinct
    rw [List.flatMap_assoc] at hnodup
    rw [horder]
    exact hperm.nodup_iff.2 hnodup
  · rw [horder, hperm.mem_iff]
    exact List.mem_flatMap

/-- A match of the category. -/
def turnMatch (categoryId id : ℕ) (type : MatchType) : MatchStore :=
  .init ⟨⟨categoryId⟩, ⟨id⟩⟩ type "" false none none

/-- A category of two elimination matches and a final. -/
def turnCategory (id : CategoryId) : CategoryStore :=
  { CategoryStore.init id "" .twentyEighteen (.pool {}) with
    matchList := [turnMatch id.value 0 .elimination, turnMatch id.value 1 .elimination, turnMatch id.value 2 .final]
    matchMap := fun x => if x.value < 3 then some x.value else none }

def turnTournament : TournamentStore where
  categories id := some (turnCategory id)

theorem mapsMatches_turnTournament : turnTournament.MapsMatches := by
  intro id c hc
  cases hc
  refine ⟨rfl, fun x i => ?_⟩
  obtain ⟨x⟩ := x
  show (if x < 3 then some x else none) = some i ↔ _
  match i with
  | 0 | 1 | 2 | n + 3 =>
    simp [turnCategory, turnMatch, MatchStore.init, MatchStore.id]
    omega

/-- Two blocks beside one block. -/
def turnGroups : List (PositionHandle × SequentialBlockGroup) :=
  [(⟨⟨7⟩, 0⟩, { blocks := [(⟨1⟩, .elimination), (⟨1⟩, .final)] }),
    (⟨⟨8⟩, 1⟩, { blocks := [(⟨2⟩, .elimination)] })]

def turnGroup : ConcurrentBlockGroup where
  groups := {
    ids := [⟨7⟩, ⟨8⟩]
    elements := fun id => if id = ⟨7⟩ then some { blocks := [(⟨1⟩, .elimination), (⟨1⟩, .final)] }
      else if id = ⟨8⟩ then some { blocks := [(⟨2⟩, .elimination)] } else none }

example : (turnGroup.recompute turnTournament.categories).map (·.matchIds) =
    .ok [⟨⟨1⟩, ⟨0⟩⟩, ⟨⟨2⟩, ⟨0⟩⟩, ⟨⟨1⟩, ⟨1⟩⟩, ⟨⟨2⟩, ⟨1⟩⟩, ⟨⟨1⟩, ⟨2⟩⟩] := rfl

theorem recompute_turns_two : ∃ g',
    turnGroup.recompute turnTournament.categories = .ok g' ∧ g'.groups = turnGroup.groups ∧
    g'.matchIds = roundRobin (turnGroups.map (·.2.matchOrder turnTournament.categories)) ∧
    g'.matchIds.Nodup ∧ ∀ id, id ∈ g'.matchIds ↔
      ∃ x ∈ turnGroups, id ∈ x.2.matchOrder turnTournament.categories :=
  ConcurrentBlockGroup.recompute_turns turnTournament mapsMatches_turnTournament turnGroup turnGroups rfl
    (fun _ _ b _ => ⟨turnCategory b.1, rfl⟩) (by decide)

end JudoAssistant
