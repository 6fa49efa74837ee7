import JudoAssistant.Tournament.Redraws

/-!
# Players of categories

Players join and leave a category at both ends: the category is in the set of the player, and the player
in the set of the category.  A change of the players of a category is followed by its draw; the undo
changes the players back before it undoes the draw.
-/

namespace JudoAssistant

open Effect Exec TournamentStore

/-! ### Joining and leaving -/

/-- The player after he has joined or left a category. -/
def PlayerStore.enlist (joining : Bool) (id : CategoryId) (p : PlayerStore) : PlayerStore :=
  { p with categories := if joining then insert id p.categories else p.categories.erase id }

/-- The category after players have joined or left it. -/
def CategoryStore.enlist (joining : Bool) (S : Finset PlayerId) (c : CategoryStore) : CategoryStore :=
  { c with players := if joining then c.players ∪ S else c.players \ S }

/-- `joinCategory` or `leaveCategory`. -/
def changeOne : Bool → CategoryId → PlayerId → Exec Unit
  | true => joinCategory
  | false => leaveCategory

namespace TournamentStore

variable {t t' : TournamentStore} {joining : Bool} {id : CategoryId} {S S' : Finset PlayerId} {pid : PlayerId}

/-- The tournament after players have joined or left a category. -/
def enlist (joining : Bool) (id : CategoryId) (S : Finset PlayerId) (t : TournamentStore) : TournamentStore :=
  { t with
    players := fun pid => (t.players pid).map fun p => if pid ∈ S then p.enlist joining id else p
    categories := Function.update t.categories id ((t.categories id).map (·.enlist joining S)) }

/-- The player can join, or he can leave. -/
structure Candidate (t : TournamentStore) (joining : Bool) (id : CategoryId) (pid : PlayerId) : Prop where
  player : ∃ p, t.players pid = some p ∧ (id ∈ p.categories ↔ joining = false)
  category : ∃ c, t.categories id = some c ∧ (pid ∈ c.players ↔ joining = false)

theorem players_enlist_eq_none : (t.enlist joining id S).players pid = none ↔ t.players pid = none :=
  Option.map_eq_none_iff

theorem categories_enlist_self {c : CategoryStore} (hc : t.categories id = some c) :
    (t.enlist joining id S).categories id = some (c.enlist joining S) := by
  show Function.update t.categories id _ id = _
  rw [Function.update_self, hc]
  rfl

theorem categories_enlist_of_ne {cid : CategoryId} (hcid : cid ≠ id) :
    (t.enlist joining id S).categories cid = t.categories cid := Function.update_of_ne hcid _ _

theorem enlist_empty : t.enlist joining id ∅ = t := by
  have hplayers : (t.enlist joining id ∅).players = t.players := by
    funext pid
    show (t.players pid).map (fun p => if pid ∈ (∅ : Finset PlayerId) then p.enlist joining id else p) = _
    cases t.players pid <;> simp
  have hcategories : (t.enlist joining id ∅).categories = t.categories := by
    have hself : (t.categories id).map (·.enlist joining ∅) = t.categories id := by
      cases t.categories id with
      | none => rfl
      | some c => cases joining <;> simp [CategoryStore.enlist]
    show Function.update t.categories id _ = _
    rw [hself, Function.update_eq_self]
  unfold enlist at hplayers hcategories ⊢
  simp only at hplayers hcategories
  rw [hplayers, hcategories]

theorem enlist_enlist : (t.enlist joining id S).enlist joining id S' = t.enlist joining id (S ∪ S') := by
  have hplayers : ((t.enlist joining id S).enlist joining id S').players =
      (t.enlist joining id (S ∪ S')).players := by
    funext pid
    show ((t.players pid).map _).map _ = (t.players pid).map _
    cases t.players pid with
    | none => rfl
    | some p =>
      simp only [Option.map_some, Finset.mem_union]
      by_cases hS : pid ∈ S <;> by_cases hS' : pid ∈ S' <;> cases joining <;>
        simp [hS, hS', PlayerStore.enlist]
  have hcategories : ((t.enlist joining id S).enlist joining id S').categories =
      (t.enlist joining id (S ∪ S')).categories := by
    show Function.update (Function.update t.categories id _) id _ = Function.update t.categories id _
    rw [Function.update_idem]
    show Function.update t.categories id (Option.map _ (Function.update t.categories id _ id)) = _
    rw [Function.update_self]
    congr 1
    cases t.categories id with
    | none => rfl
    | some c => cases joining <;> simp [CategoryStore.enlist, Finset.union_assoc, sdiff_sdiff_left]
  unfold enlist at hplayers hcategories ⊢
  simp only at hplayers hcategories ⊢
  rw [hplayers, hcategories]

/-! ### One player -/

theorem changeOne_ok {u : Unit} : changeOne joining id pid t = .ok u t' ↔
    t.Candidate joining id pid ∧ t' = t.enlist joining id {pid} := by
  have hplayers : ∀ {p : PlayerStore}, t.players pid = some p →
      (t.setPlayer pid (p.enlist joining id)).players = (t.enlist joining id {pid}).players := by
    intro p hp
    funext i
    show Function.update t.players pid _ i = (t.players i).map _
    by_cases hi : i = pid
    · subst hi
      rw [Function.update_self, hp, Option.map_some, if_pos (Finset.mem_singleton_self _)]
    · rw [Function.update_of_ne hi]
      cases t.players i with
      | none => rfl
      | some q => rw [Option.map_some, if_neg (by simpa using hi)]
  have hwrite : ∀ {p : PlayerStore} {c : CategoryStore}, t.players pid = some p → t.categories id = some c →
      (t.setPlayer pid (p.enlist joining id)).setCategory id (c.enlist joining {pid}) =
        t.enlist joining id {pid} := by
    intro p c hp hc
    have hp' := hplayers hp
    unfold TournamentStore.setPlayer enlist at hp'
    unfold TournamentStore.setCategory TournamentStore.setPlayer enlist
    simp only at hp' ⊢
    rw [hp', hc]
    rfl
  cases joining with
  | true =>
    simp only [changeOne, joinCategory, bind_ok, editPlayer_ok, editCategory_ok, PlayerStore.addCategory,
      CategoryStore.addPlayer, except_bind_ok, except_pure_ok, check_ok, decide_eq_true_eq]
    constructor
    · rintro ⟨_, _, ⟨p, _, hp, ⟨_, hid, rfl⟩, rfl⟩, c, _, hc, ⟨_, hpid, rfl⟩, rfl⟩
      refine ⟨⟨⟨p, hp, by simp [hid]⟩, c, hc, by simp [hpid]⟩, ?_⟩
      rw [← hwrite hp hc]
      unfold CategoryStore.enlist
      rw [if_pos rfl, Finset.union_comm, ← Finset.insert_eq]
      rfl
    · rintro ⟨⟨⟨p, hp, hid⟩, c, hc, hpid⟩, rfl⟩
      refine ⟨(), _, ⟨p, _, hp, ⟨(), by simpa using hid, rfl⟩, rfl⟩, c, _, hc,
        ⟨(), by simpa using hpid, rfl⟩, ?_⟩
      rw [← hwrite hp hc]
      unfold CategoryStore.enlist
      rw [if_pos rfl, Finset.union_comm, ← Finset.insert_eq]
      rfl
  | false =>
    simp only [changeOne, leaveCategory, bind_ok, editPlayer_ok, editCategory_ok, PlayerStore.eraseCategory,
      CategoryStore.erasePlayer, except_bind_ok, except_pure_ok, check_ok, decide_eq_true_eq]
    constructor
    · rintro ⟨_, _, ⟨p, _, hp, ⟨_, hid, rfl⟩, rfl⟩, c, _, hc, ⟨_, hpid, rfl⟩, rfl⟩
      refine ⟨⟨⟨p, hp, by simp [hid]⟩, c, hc, by simp [hpid]⟩, ?_⟩
      rw [← hwrite hp hc]
      unfold CategoryStore.enlist
      rw [if_neg (by simp), Finset.sdiff_singleton_eq_erase]
      rfl
    · rintro ⟨⟨⟨p, hp, hid⟩, c, hc, hpid⟩, rfl⟩
      refine ⟨(), _, ⟨p, _, hp, ⟨(), by simpa using hid, rfl⟩, rfl⟩, c, _, hc,
        ⟨(), by simpa using hpid, rfl⟩, ?_⟩
      rw [← hwrite hp hc]
      unfold CategoryStore.enlist
      rw [if_neg (by simp), Finset.sdiff_singleton_eq_erase]
      rfl

/-- Whether a player can be changed does not depend on the players that have been changed before him. -/
theorem candidate_enlist (hpid : pid ∉ S) :
    (t.enlist joining id S).Candidate joining id pid ↔ t.Candidate joining id pid := by
  have hplayer : (t.enlist joining id S).players pid = t.players pid := by
    show (t.players pid).map _ = _
    cases t.players pid with
    | none => rfl
    | some p => rw [Option.map_some, if_neg hpid]
  have hcategory : ∀ c : CategoryStore, pid ∈ (c.enlist joining S).players ↔ pid ∈ c.players := by
    intro c
    cases joining <;> simp [CategoryStore.enlist, hpid]
  constructor
  · rintro ⟨hp, c', hc', hmem⟩
    rw [hplayer] at hp
    cases hc : t.categories id with
    | none =>
      rw [show (t.enlist joining id S).categories id = _ from Function.update_self _ _ _, hc] at hc'
      cases hc'
    | some c =>
      rw [categories_enlist_self hc] at hc'
      cases hc'
      exact ⟨hp, c, hc, (hcategory c).symm.trans hmem⟩
  · rintro ⟨hp, c, hc, hmem⟩
    exact ⟨by rwa [hplayer], _, categories_enlist_self hc, (hcategory c).trans hmem⟩

/-- A player who has been changed cannot be changed in the same way again. -/
theorem not_candidate_enlist (hpid : pid ∈ S) : ¬ (t.enlist joining id S).Candidate joining id pid := by
  rintro ⟨⟨p', hp', hid⟩, -⟩
  obtain ⟨p, hp, rfl⟩ := Option.map_eq_some_iff.1 hp'
  rw [if_pos hpid] at hid
  cases joining <;> simp [PlayerStore.enlist] at hid

/-! ### Several players -/

theorem changeAll_ok {pids : List PlayerId} (hnodup : pids.Nodup)
    (h : ∀ pid ∈ pids, t.Candidate joining id pid) :
    ∃ us, forEach (changeOne joining id) pids t = .ok us (t.enlist joining id pids.toFinset) := by
  induction pids generalizing t with
  | nil => exact ⟨[], forEach_nil_ok.2 ⟨rfl, by rw [List.toFinset_nil, enlist_empty]⟩⟩
  | cons pid pids ih =>
    obtain ⟨hnot, hnodup⟩ := List.nodup_cons.1 hnodup
    have hone := (changeOne_ok (u := ())).2 ⟨h pid List.mem_cons_self, rfl⟩
    obtain ⟨us, hus⟩ := ih (t := t.enlist joining id {pid}) hnodup fun q hq =>
      (candidate_enlist (S := {pid}) fun hmem => hnot (Finset.mem_singleton.1 hmem ▸ hq)).2
        (h q (List.mem_cons_of_mem _ hq))
    refine ⟨_, forEach_cons_ok.2 ⟨(), _, us, hone, ?_, rfl⟩⟩
    rw [hus, enlist_enlist, List.toFinset_cons, Finset.insert_eq]

theorem changeMembers_ok {inside : Bool} {pids changed : List PlayerId}
    (h : changeMembers id inside (changeOne joining id) pids t = .ok changed t') :
    t' = t.enlist joining id changed.toFinset ∧ changed.Nodup ∧
      ∀ pid ∈ changed, t.Candidate joining id pid := by
  induction pids generalizing t changed with
  | nil =>
    obtain ⟨rfl, rfl⟩ := pure_ok.1 h
    exact ⟨by rw [List.toFinset_nil, enlist_empty], List.nodup_nil, by simp⟩
  | cons pid pids ih =>
    simp only [changeMembers, bind_ok, get_ok] at h
    obtain ⟨_, _, ⟨rfl, rfl⟩, h⟩ := h
    split at h
    · simp only [bind_ok, pure_ok] at h
      obtain ⟨_, t₁, hone, rest, _, hrest, rfl, rfl⟩ := h
      obtain ⟨hcandidate, rfl⟩ := changeOne_ok.1 hone
      obtain ⟨rfl, hnodup, hcandidates⟩ := ih hrest
      have hnot : pid ∉ rest := fun hmem =>
        not_candidate_enlist (Finset.mem_singleton_self pid) (hcandidates pid hmem)
      refine ⟨?_, List.nodup_cons.2 ⟨hnot, hnodup⟩, fun q hq => ?_⟩
      · rw [enlist_enlist, List.toFinset_cons, Finset.insert_eq]
      · rcases List.mem_cons.1 hq with rfl | hq
        · exact hcandidate
        · exact (candidate_enlist (S := {pid}) fun hmem => hnot (Finset.mem_singleton.1 hmem ▸ hq)).1
            (hcandidates q hq)
    · exact ih h

end TournamentStore

end JudoAssistant
