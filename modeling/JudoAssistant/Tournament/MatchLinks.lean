import JudoAssistant.Tournament.Enrolment
import JudoAssistant.Tournament.RulesetRuns

/-!
# Matches whose players change

The draw systems set the players of later matches when a result changes.  A player who is set is one of the
category, so that the cross references still agree, and taking back what was set, the last one first, restores
them.  The events themselves leave the players of the matches alone.
-/

namespace JudoAssistant

open Effect Exec TournamentStore

section

variable {γ δ : Type} {t t' u : TournamentStore} {c : CategoryStore} {m : MatchStore} {x : CombinedId}

/-- The cross references agree, and the indices agree with the lists. -/
structure TournamentStore.InLine (t : TournamentStore) : Prop where
  linked : t.Linked
  indexed : t.Indexed

/-- The computation leads back from the one cross references to the other. -/
abbrev LinksBack (y : Exec γ) (after before : (PlayerId → Option (Finset CategoryId × Finset CombinedId)) ×
    (CategoryId → Option (Finset PlayerId × List Fight × DrawSystem))) : Prop :=
  LeadsBack Indexed links y (fun _ => True) after before

/-- The computation keeps the cross references in line, and its undo restores them. -/
abbrev LinksRevocable (x : Exec γ) (undo : γ → Exec δ) :
    Prop := Revocable InLine Indexed links x undo fun _ => True

/-! ### The players of one match -/

/-- The fight with another player in one of its places. -/
def Fight.setPlayer (b : Fight) (i : PlayerIndex) (player : Option PlayerId) : Fight :=
  { b with players := b.players.set i player }

/-- The fights of a category after a player of one match was set. -/
def putPlayer (x : MatchId) (i : PlayerIndex) (player : Option PlayerId) (b : Fight) : Fight :=
  if b.combinedId.matchId = x then b.setPlayer i player else b

theorem fights_setMatch (hc : c.Indexed) {id : MatchId} (hm : c.getMatch id = .ok m) (i : PlayerIndex)
    (player : Option PlayerId) : (c.setMatch id (m.setPlayer i player)).matchList.map (·.fight) =
      (c.matchList.map (·.fight)).map (putPlayer id i player) := by
  obtain ⟨hmem, hid⟩ := hc.getMatch_ok.1 hm
  rw [hc.matchList_setMatch, List.map_map, List.map_map]
  refine List.map_congr_left fun n hn => ?_
  show (if n.id = id then m.setPlayer i player else n).fight = if n.id = id then n.fight.setPlayer i player else n.fight
  split
  · next heq =>
    rw [hc.eq_of_id hn hmem (heq.trans hid.symm)]
    rfl
  · rfl

/-- A match has a player who was set, or one in its other place. -/
theorem MatchStore.has_setPlayer {i : PlayerIndex} {player : Option PlayerId} {pid : PlayerId} :
    (m.setPlayer i player).Has pid ↔ player = some pid ∨ ∃ j, j ≠ i ∧ m.getPlayer j = some pid := by
  unfold MatchStore.Has
  constructor
  · rintro ⟨j, hj⟩
    by_cases hji : j = i
    · subst hji
      refine .inl ?_
      cases j <;> exact hj
    · refine .inr ⟨j, hji, ?_⟩
      cases i <;> cases j <;> first | exact absurd rfl hji | exact hj
  · rintro (rfl | ⟨j, hji, hj⟩)
    · exact ⟨i, by cases i <;> rfl⟩
    · refine ⟨j, ?_⟩
      cases i <;> cases j <;> first | exact absurd rfl hji | exact hj

namespace TournamentStore

/-- The player of a match was set. -/
def reseat (x : CombinedId) (i : PlayerIndex) (old new : Option PlayerId) (c : CategoryStore) (m : MatchStore)
    (t : TournamentStore) : TournamentStore :=
  ((t.setCategory x.categoryId (c.setMatch x.matchId (m.setPlayer i new))).engage (single x new)).disengage
    (single x old)

/-- The player is one of the category. -/
def Enrolled (t : TournamentStore) (id : CategoryId) (pid : PlayerId) : Prop :=
  ∃ c, t.categories id = some c ∧ pid ∈ c.players

theorem players_reseat {i : PlayerIndex} {old new : Option PlayerId} {pid : PlayerId} {p' : PlayerStore}
    (hp' : (t.reseat x i old new c m).players pid = some p') : ∃ p, t.players pid = some p ∧
      p'.categories = p.categories ∧ p'.matchIds = (p.matchIds ∪ single x new pid) \ single x old pid := by
  obtain ⟨q, hq, rfl⟩ := Option.map_eq_some_iff.1 hp'
  obtain ⟨p, hp, rfl⟩ := Option.map_eq_some_iff.1 hq
  exact ⟨p, hp, rfl, rfl⟩

theorem players_reseat_eq_none {i : PlayerIndex} {old new : Option PlayerId} {pid : PlayerId} :
    (t.reseat x i old new c m).players pid = none ↔ t.players pid = none :=
  Option.map_eq_none_iff.trans Option.map_eq_none_iff

theorem mem_single {x y : CombinedId} {player : Option PlayerId} {pid : PlayerId} :
    y ∈ single x player pid ↔ y = x ∧ player = some pid := by
  unfold single
  split <;> simp_all

/-- What becomes of a category when a match is written. -/
structure Reseated (x : CombinedId) (m' : MatchStore) (id : CategoryId) (e e' : CategoryStore) : Prop where
  players : e'.players = e.players
  drawSystem : e'.drawSystem = e.drawSystem
  mem_matchList : ∀ n, n ∈ e'.matchList ↔
    (n ∈ e.matchList ∧ n.combinedId ≠ x) ∨ (id = x.categoryId ∧ n = m')

section

variable {i : PlayerIndex} {new : Option PlayerId} (ht : t.Indexed) (hc : t.categories x.categoryId = some c)
  (hm : c.getMatch x.matchId = .ok m)

include ht hc hm

theorem combinedId_of_getMatch : m ∈ c.matchList ∧ m.combinedId = x := by
  obtain ⟨hmem, hid⟩ := (ht.index _ c hc).getMatch_ok.1 hm
  have heq := ((ht.index _ c hc).ids m hmem).trans (ht.category _ c hc)
  refine ⟨hmem, ?_⟩
  cases x
  cases hmi : m.combinedId
  rw [MatchStore.id, hmi] at hid
  rw [hmi] at heq
  cases hid
  cases heq
  rfl

theorem reseated_setMatch :
    Reseated x (m.setPlayer i new) x.categoryId c (c.setMatch x.matchId (m.setPlayer i new)) := by
  have hcx := ht.index _ c hc
  obtain ⟨hmem, hmx⟩ := combinedId_of_getMatch ht hc hm
  have hset : (c.setMatch x.matchId (m.setPlayer i new)).players = c.players ∧
      (c.setMatch x.matchId (m.setPlayer i new)).drawSystem = c.drawSystem := by
    unfold CategoryStore.setMatch
    split <;> exact ⟨rfl, rfl⟩
  refine ⟨hset.1, hset.2, fun n => ?_⟩
  rw [hcx.matchList_setMatch, List.mem_map]
  constructor
  · rintro ⟨n₀, hn₀, rfl⟩
    split
    · exact .inr ⟨rfl, rfl⟩
    · next hne => exact .inl ⟨hn₀, fun heq => hne (by rw [MatchStore.id, heq])⟩
  · rintro (⟨hn, hne⟩ | ⟨-, rfl⟩)
    · refine ⟨n, hn, if_neg fun heq => hne ?_⟩
      rw [hcx.eq_of_id hn hmem (heq.trans (by rw [MatchStore.id, hmx])), hmx]
    · exact ⟨m, hmem, if_pos (by rw [MatchStore.id, hmx])⟩

omit hc hm in
theorem reseated_of_ne {m' : MatchStore} {id : CategoryId} {e : CategoryStore} (hid : id ≠ x.categoryId)
    (he : t.categories id = some e) : Reseated x m' id e e := by
  refine ⟨rfl, rfl, fun n =>
    ⟨fun hn => .inl ⟨hn, fun heq => hid ?_⟩, fun h => h.elim (·.1) fun h => (hid h.1).elim⟩⟩
  rw [← heq, (ht.index id e he).ids n hn, ht.category id e he]

theorem reseat_to {id : CategoryId} {e : CategoryStore} (he : t.categories id = some e) :
    ∃ e', (t.reseat x i (m.getPlayer i) new c m).categories id = some e' ∧
      Reseated x (m.setPlayer i new) id e e' := by
  by_cases hid : id = x.categoryId
  · subst hid
    cases hc.symm.trans he
    exact ⟨_, Function.update_self _ _ _, reseated_setMatch ht hc hm⟩
  · exact ⟨e, (Function.update_of_ne hid _ _).trans he, reseated_of_ne ht hid he⟩

theorem reseat_from {id : CategoryId} {e' : CategoryStore}
    (he' : (t.reseat x i (m.getPlayer i) new c m).categories id = some e') :
    ∃ e, t.categories id = some e ∧ Reseated x (m.setPlayer i new) id e e' := by
  change Function.update t.categories _ _ id = some e' at he'
  by_cases hid : id = x.categoryId
  · subst hid
    rw [Function.update_self] at he'
    cases he'
    exact ⟨c, hc, reseated_setMatch ht hc hm⟩
  · rw [Function.update_of_ne hid] at he'
    exact ⟨e', he', reseated_of_ne ht hid he'⟩

/-- The match is in the set of those who are in it. -/
theorem mem_matchIds_of_getMatch (hlinked : t.Linked) {pid : PlayerId} {p : PlayerStore}
    (hp : t.players pid = some p) : x ∈ p.matchIds ↔ m.Has pid := by
  obtain ⟨hmem, hmx⟩ := combinedId_of_getMatch ht hc hm
  rw [hlinked.fight x pid p hp]
  constructor
  · rintro ⟨e, n, he, hn, hnx, hpid⟩
    cases hc.symm.trans he
    rwa [← (ht.index _ c hc).eq_of_id hn hmem (by rw [MatchStore.id, hnx, MatchStore.id, hmx])]
  · exact fun hpid => ⟨c, m, hc, hmem, hmx, hpid⟩

/-- A player of the category takes the place of another one in a match that he is not in. -/
theorem Linked.reseat (hlinked : t.Linked)
    (hnew : ∀ pid, new = some pid → pid ∈ c.players ∧ ∃ p, t.players pid = some p ∧ x ∉ p.matchIds) :
    (t.reseat x i (m.getPlayer i) new c m).Linked := by
  obtain ⟨hmem, hmx⟩ := combinedId_of_getMatch ht hc hm
  have hto := @reseat_to t c m x i new ht hc hm
  have hfrom := @reseat_from t c m x i new ht hc hm
  have hsplit : ∀ pid, m.Has pid ↔ m.getPlayer i = some pid ∨ ∃ j, j ≠ i ∧ m.getPlayer j = some pid := by
    intro pid
    rw [← MatchStore.has_setPlayer (m := m) (i := i)]
    unfold MatchStore.setPlayer MatchStore.getPlayer
    rw [ByPlayer.set_get]
  have hdistinct : ∀ pid, m.getPlayer i = some pid → ¬∃ j, j ≠ i ∧ m.getPlayer j = some pid := by
    rintro pid hold ⟨j, hji, hj⟩
    refine hlinked.distinct _ c m pid hc hmem ?_
    cases i <;> cases j <;> first | exact absurd rfl hji | exact ⟨hold, hj⟩ | exact ⟨hj, hold⟩
  have hfresh : ∀ pid, new = some pid → ¬m.Has pid := by
    intro pid hpid hmpid
    obtain ⟨-, p, hp, hnot⟩ := hnew pid hpid
    exact hnot ((mem_matchIds_of_getMatch ht hc hm hlinked hp).2 hmpid)
  refine ⟨fun cid pid p' hp' => ?_, fun cid e' pid he' hpid => ?_, fun y pid p' hp' => ?_,
    fun cid e' n pid he' hn hpid => ?_, fun cid e' n pid he' hn => ?_, fun cid e' n pid hoff he' hn hpid => ?_,
    fun cid e' pid hoff he' hpid => ?_⟩
  · obtain ⟨p, hp, hcategories, -⟩ := players_reseat hp'
    rw [hcategories, hlinked.member cid pid p hp]
    constructor
    · rintro ⟨e, he, hpid⟩
      obtain ⟨e', he', hwritten⟩ := hto he
      exact ⟨e', he', by rwa [hwritten.players]⟩
    · rintro ⟨e', he', hpid⟩
      obtain ⟨e, he, hwritten⟩ := hfrom he'
      exact ⟨e, he, by rwa [← hwritten.players]⟩
  · obtain ⟨e, he, hwritten⟩ := hfrom he'
    rw [ne_eq, players_reseat_eq_none]
    exact hlinked.members_exist cid e pid he (by rwa [← hwritten.players])
  · obtain ⟨p, hp, -, hmatchIds⟩ := players_reseat hp'
    rw [hmatchIds, Finset.mem_sdiff, Finset.mem_union, mem_single, mem_single]
    by_cases hy : y = x
    · subst hy
      have hright : (∃ e' n, (t.reseat y i (m.getPlayer i) new c m).categories y.categoryId = some e' ∧
          n ∈ e'.matchList ∧ n.combinedId = y ∧ n.Has pid) ↔ (m.setPlayer i new).Has pid := by
        constructor
        · rintro ⟨e', n, he', hn, hny, hpid⟩
          obtain ⟨e, -, hwritten⟩ := hfrom he'
          obtain ⟨-, hne⟩ | ⟨-, rfl⟩ := (hwritten.mem_matchList n).1 hn
          · exact (hne hny).elim
          · exact hpid
        · intro hpid
          obtain ⟨e', he', hwritten⟩ := hto hc
          exact ⟨e', _, he', (hwritten.mem_matchList _).2 (.inr ⟨rfl, rfl⟩), hmx, hpid⟩
      rw [hright, mem_matchIds_of_getMatch ht hc hm hlinked hp, MatchStore.has_setPlayer, hsplit]
      have hd := hdistinct pid
      have hf := hfresh pid
      rw [hsplit] at hf
      simp only [true_and]
      constructor
      · rintro ⟨(hold | hrest) | hnew, hnot⟩
        · exact (hnot hold).elim
        · exact .inr hrest
        · exact .inl hnew
      · rintro (hnew | hrest)
        · exact ⟨.inr hnew, fun hold => hf hnew (.inl hold)⟩
        · exact ⟨.inl (.inr hrest), fun hold => hd hold hrest⟩
    · simp only [hy, false_and, or_false, not_false_eq_true, and_true]
      rw [hlinked.fight y pid p hp]
      constructor
      · rintro ⟨e, n, he, hn, hny, hpid⟩
        obtain ⟨e', he', hwritten⟩ := hto he
        exact ⟨e', n, he', (hwritten.mem_matchList n).2 (.inl ⟨hn, fun heq => hy (hny.symm.trans heq)⟩),
          hny, hpid⟩
      · rintro ⟨e', n, he', hn, hny, hpid⟩
        obtain ⟨e, he, hwritten⟩ := hfrom he'
        obtain ⟨hn, -⟩ | ⟨-, rfl⟩ := (hwritten.mem_matchList n).1 hn
        · exact ⟨e, n, he, hn, hny, hpid⟩
        · exact (hy (hny.symm.trans hmx)).elim
  · obtain ⟨e, he, hwritten⟩ := hfrom he'
    rw [ne_eq, players_reseat_eq_none]
    obtain ⟨hn, -⟩ | ⟨-, rfl⟩ := (hwritten.mem_matchList n).1 hn
    · exact hlinked.fighters_exist cid e n pid he hn hpid
    · obtain hpid | hpid := MatchStore.has_setPlayer.1 hpid
      · obtain ⟨-, p, hp, -⟩ := hnew pid hpid
        simp [hp]
      · exact hlinked.fighters_exist _ c m pid hc hmem ((hsplit pid).2 (.inr hpid))
  · obtain ⟨e, he, hwritten⟩ := hfrom he'
    obtain ⟨hn, -⟩ | ⟨-, rfl⟩ := (hwritten.mem_matchList n).1 hn
    · exact hlinked.distinct cid e n pid he hn
    · rintro ⟨hwhite, hblue⟩
      cases i with
      | white => exact hfresh pid hwhite ⟨.blue, hblue⟩
      | blue => exact hfresh pid hblue ⟨.white, hwhite⟩
  · obtain ⟨e, he, hwritten⟩ := hfrom he'
    rw [hwritten.players]
    obtain ⟨hn, -⟩ | ⟨rfl, rfl⟩ := (hwritten.mem_matchList n).1 hn
    · exact hlinked.within cid e n pid hoff he hn hpid
    · cases hc.symm.trans he
      obtain hpid | hpid := MatchStore.has_setPlayer.1 hpid
      · exact (hnew pid hpid).1
      · exact hlinked.within _ c m pid hoff hc hmem ((hsplit pid).2 (.inr hpid))
  · obtain ⟨e, he, hwritten⟩ := hfrom he'
    rw [hwritten.players]
    exact hlinked.roster cid e pid hoff he (by rwa [← hwritten.drawSystem])

end

theorem category_of_links (hview : u.links = t.links) {id : CategoryId} (hc : t.categories id = some c) :
    ∃ cu, u.categories id = some cu ∧ cu.players = c.players ∧
      cu.matchList.map (·.fight) = c.matchList.map (·.fight) ∧ cu.drawSystem = c.drawSystem := by
  have heq := categories_of_project hview id
  rw [hc, Option.map_some, Option.map_eq_some_iff] at heq
  obtain ⟨cu, hcu, heq⟩ := heq
  simp only [Prod.mk.injEq] at heq
  exact ⟨cu, hcu, heq⟩

/-- A match of a category, as it is seen in another one with the same fights. -/
theorem match_of_fights {cu : CategoryStore} (hcx : c.Indexed) (hcu : cu.Indexed)
    (hfights : cu.matchList.map (·.fight) = c.matchList.map (·.fight)) {id : MatchId} (hm : c.getMatch id = .ok m) :
    ∃ mu, cu.getMatch id = .ok mu ∧ mu.fight = m.fight := by
  obtain ⟨hmem, hid⟩ := hcx.getMatch_ok.1 hm
  have hfight : m.fight ∈ cu.matchList.map (·.fight) := by
    rw [hfights]
    exact List.mem_map_of_mem hmem
  obtain ⟨mu, hmu, heq⟩ := List.mem_map.1 hfight
  refine ⟨mu, hcu.getMatch_ok.2 ⟨hmu, ?_⟩, heq⟩
  have hcombined : mu.combinedId = m.combinedId := congrArg Fight.combinedId heq
  rw [MatchStore.id, hcombined]
  exact hid

/-- Setting a player of a match does the same to what looks the same. -/
theorem project_reseat {α β : Type} {f : PlayerStore → α} {k : CategoryStore → β} {cu : CategoryStore}
    {mu : MatchStore} {i : PlayerIndex} {old new : Option PlayerId}
    (hf : ∀ (p q : PlayerStore) (S S' : Finset CombinedId), f p = f q →
      f { p with matchIds := (p.matchIds ∪ S) \ S' } = f { q with matchIds := (q.matchIds ∪ S) \ S' })
    (hview : u.project f k = t.project f k) (hsame : k (cu.setMatch x.matchId (mu.setPlayer i new)) =
      k (c.setMatch x.matchId (m.setPlayer i new))) :
    (u.reseat x i old new cu mu).project f k = (t.reseat x i old new c m).project f k := by
  refine Prod.ext (funext fun pid => ?_) (funext fun id => ?_)
  · show (Option.map _ (Option.map _ (u.players pid))).map _ = (Option.map _ (Option.map _ (t.players pid))).map _
    have heq := players_of_project hview pid
    cases hp : t.players pid with
    | none =>
      rw [hp, Option.map_none, Option.map_eq_none_iff] at heq
      rw [heq]
    | some p =>
      rw [hp, Option.map_some, Option.map_eq_some_iff] at heq
      obtain ⟨q, hq, heq⟩ := heq
      rw [hq]
      exact congrArg some (hf q p _ _ heq)
  · show (Function.update u.categories x.categoryId _ id).map _ =
      (Function.update t.categories x.categoryId _ id).map _
    by_cases hid : id = x.categoryId
    · subst hid
      rw [Function.update_self, Function.update_self, Option.map_some, Option.map_some, hsame]
    · rw [Function.update_of_ne hid, Function.update_of_ne hid]
      exact categories_of_project hview id

theorem links_reseat {cu : CategoryStore} {mu : MatchStore} {i : PlayerIndex} {old new : Option PlayerId}
    (ht : t.Indexed) (hu : u.Indexed) (hview : u.links = t.links) (hc : t.categories x.categoryId = some c)
    (hcu : u.categories x.categoryId = some cu) (hm : c.getMatch x.matchId = .ok m)
    (hmu : cu.getMatch x.matchId = .ok mu) :
    (u.reseat x i old new cu mu).links = (t.reseat x i old new c m).links := by
  refine project_reseat (fun p q S S' heq => ?_) hview ?_
  · obtain ⟨hcategories, hmatchIds⟩ := Prod.mk.inj heq
    show (p.categories, (p.matchIds ∪ S) \ S') = (q.categories, (q.matchIds ∪ S) \ S')
    rw [hcategories, hmatchIds]
  · obtain ⟨cu', hcu', hplayers, hfights, hdrawSystem⟩ := category_of_links hview hc
    cases hcu.symm.trans hcu'
    have hsame : ∀ (e : CategoryStore) (n : MatchStore), (e.setMatch x.matchId n).players = e.players ∧
        (e.setMatch x.matchId n).drawSystem = e.drawSystem := by
      intro e n
      unfold CategoryStore.setMatch
      split <;> exact ⟨rfl, rfl⟩
    rw [fights_setMatch (hu.index _ cu hcu) hmu, fights_setMatch (ht.index _ c hc) hm, (hsame _ _).1, (hsame _ _).1,
      (hsame _ _).2, (hsame _ _).2, hplayers, hfights, hdrawSystem]

/-- Setting the old player again restores the players and the categories. -/
theorem reseat_back {α β : Type} {f : PlayerStore → α} {k : CategoryStore → β} {i : PlayerIndex}
    {new : Option PlayerId} (ht : t.InLine) (hc : t.categories x.categoryId = some c)
    (hm : c.getMatch x.matchId = .ok m)
    (hnew : ∀ pid, new = some pid → ∃ p, t.players pid = some p ∧ x ∉ p.matchIds) :
    ((t.reseat x i (m.getPlayer i) new c m).reseat x i new (m.getPlayer i)
      (c.setMatch x.matchId (m.setPlayer i new)) (m.setPlayer i new)).project f k = t.project f k := by
  refine valueBlind_project (funext fun pid => ?_) ?_ rfl
  · show Option.map _ (Option.map _ (Option.map _ (Option.map _ (t.players pid)))) = t.players pid
    cases hp : t.players pid with
    | none => rfl
    | some p =>
      show some { p with matchIds := ((p.matchIds ∪ single x new pid) \ single x (m.getPlayer i) pid ∪
        single x (m.getPlayer i) pid) \ single x new pid } = some p
      have hold : m.getPlayer i = some pid → x ∈ p.matchIds := fun hold =>
        (mem_matchIds_of_getMatch ht.indexed hc hm ht.linked hp).2 ⟨i, hold⟩
      have hfresh : new = some pid → x ∉ p.matchIds := by
        intro hpid
        obtain ⟨p', hp', hnot⟩ := hnew pid hpid
        cases hp.symm.trans hp'
        exact hnot
      have hids : ((p.matchIds ∪ single x new pid) \ single x (m.getPlayer i) pid ∪
          single x (m.getPlayer i) pid) \ single x new pid = p.matchIds := by
        ext y
        simp only [Finset.mem_sdiff, Finset.mem_union, mem_single]
        by_cases hy : y = x
        · subst hy
          simp only [true_and]
          tauto
        · simp [hy]
      rw [hids]
  · have hback : (m.setPlayer i new).setPlayer i (m.getPlayer i) = m := by
      unfold MatchStore.setPlayer MatchStore.getPlayer
      simp only [ByPlayer.set_set, ByPlayer.set_get]
    show Function.update (Function.update t.categories x.categoryId _) x.categoryId _ = t.categories
    rw [Function.update_idem, hback, CategoryStore.setMatch_setMatch hm, ← hc, Function.update_eq_self]

end TournamentStore

namespace SetMatchPlayerAction

variable {a a' : SetMatchPlayerAction}

/-- The match exists, and so does the player. -/
def Applies (a : SetMatchPlayerAction) (t : TournamentStore) : Prop :=
  (∃ c m, t.categories a.combinedId.categoryId = some c ∧ c.getMatch a.combinedId.matchId = .ok m) ∧
    t.allowsPlayer a.playerId = true

theorem applies_iff (ht : t.Indexed) :
    ((t.findMatch a.combinedId).isSome && t.allowsPlayer a.playerId) = true ↔ a.Applies t := by
  rw [Bool.and_eq_true]
  refine and_congr_left fun _ => ?_
  rw [Option.isSome_iff_exists]
  simp only [findMatch_eq_some]
  constructor
  · rintro ⟨c, hc, hcontains⟩
    obtain ⟨m, hm, hid⟩ := (ht.index _ c hc).containsMatch_iff.1 hcontains
    exact ⟨c, m, hc, (ht.index _ c hc).getMatch_ok.2 ⟨hm, hid⟩⟩
  · rintro ⟨c, m, hc, hm⟩
    obtain ⟨hmem, hid⟩ := (ht.index _ c hc).getMatch_ok.1 hm
    exact ⟨c, hc, (ht.index _ c hc).containsMatch_iff.2 ⟨m, hmem, hid⟩⟩

theorem allowsPlayer_of_links (hview : u.links = t.links) (player : Option PlayerId) :
    u.allowsPlayer player = t.allowsPlayer player := by
  cases player with
  | none => rfl
  | some pid =>
    have heq := players_of_project hview pid
    unfold TournamentStore.allowsPlayer TournamentStore.containsPlayer
    cases hp : t.players pid <;> cases hq : u.players pid <;> simp_all

theorem Applies.of_links (h : a.Applies t) (ht : t.Indexed) (hu : u.Indexed) (hview : u.links = t.links) :
    a.Applies u := by
  obtain ⟨⟨c, m, hc, hm⟩, hallowed⟩ := h
  obtain ⟨cu, hcu, -, hfights, -⟩ := category_of_links hview hc
  obtain ⟨mu, hmu, -⟩ := match_of_fights (ht.index _ c hc) (hu.index _ cu hcu) hfights hm
  exact ⟨⟨cu, mu, hcu, hmu⟩, by rwa [allowsPlayer_of_links hview]⟩

theorem writes_ok {old new : Option PlayerId} {i : PlayerIndex} {v : Unit}
    (hc : t.categories x.categoryId = some c) (hm : c.getMatch x.matchId = .ok m) :
    (do editMatch x fun m => .ok (m.setPlayer i new)
        addTo x new
        eraseFrom x old : Exec Unit) t = .ok v t' ↔
      (∀ pid, new = some pid → ∃ p, t.players pid = some p ∧ x ∉ p.matchIds) ∧
        (∀ pid, old = some pid → t.players pid ≠ none) ∧ t' = t.reseat x i old new c m := by
  simp only [bind_ok, addTo_ok, eraseFrom_ok]
  have hedit : ∀ {v : Unit} {s : TournamentStore}, editMatch x (fun m => .ok (m.setPlayer i new)) t = .ok v s ↔
      s = t.setCategory x.categoryId (c.setMatch x.matchId (m.setPlayer i new)) := by
    intro v s
    unfold editMatch
    rw [editCategory_ok]
    constructor
    · rintro ⟨c₀, c', hc₀, hwrite, rfl⟩
      cases hc.symm.trans hc₀
      simp only [hm, except_bind_ok, except_pure_ok] at hwrite
      obtain ⟨_, heq, _, hset, rfl⟩ := hwrite
      cases heq
      cases hset
      rfl
    · rintro rfl
      refine ⟨c, _, hc, ?_, rfl⟩
      rw [hm]
      rfl
  constructor
  · rintro ⟨_, s, hs, _, s', ⟨hnew, rfl⟩, hold, rfl⟩
    obtain rfl := hedit.1 hs
    refine ⟨hnew, fun pid hpid => ?_, rfl⟩
    have hne := hold pid hpid
    rw [ne_eq, players_engage_eq_none] at hne
    exact hne
  · rintro ⟨hnew, hold, rfl⟩
    refine ⟨(), _, hedit.2 rfl, (), _, ⟨hnew, rfl⟩, fun pid hpid => ?_, rfl⟩
    rw [ne_eq, players_engage_eq_none]
    exact hold pid hpid

theorem redoImpl_cases (ht : t.Indexed) (h : a.redoImpl t = .ok a' t') : ¬a.Applies t ∧ a' = a ∧ t' = t ∨
    ∃ c m, t.categories a.combinedId.categoryId = some c ∧ c.getMatch a.combinedId.matchId = .ok m ∧
      a.Applies t ∧
      (∀ pid, a.playerId = some pid → ∃ p, t.players pid = some p ∧ a.combinedId ∉ p.matchIds) ∧
      a' = { a with oldPlayerId := m.getPlayer a.playerIndex } ∧
      t' = t.reseat a.combinedId a.playerIndex (m.getPlayer a.playerIndex) a.playerId c m := by
  unfold redoImpl at h
  obtain ⟨s, s', hs, hrest⟩ := bind_ok.1 h
  obtain ⟨rfl, rfl⟩ := get_ok.1 hs
  split at hrest
  · next hcond =>
    have happlies := (applies_iff ht).1 hcond
    obtain ⟨c, m, hc, hm⟩ := happlies.1
    obtain ⟨m₀, s₀, hget, hrest⟩ := bind_ok.1 hrest
    obtain ⟨hm₀, rfl⟩ := (getMatch_own hc).1 hget
    cases hm.symm.trans hm₀
    have hsplit : ∃ v s', (do editMatch a.combinedId fun m => .ok (m.setPlayer a.playerIndex a.playerId)
                              addTo a.combinedId a.playerId
                              eraseFrom a.combinedId (m.getPlayer a.playerIndex) : Exec Unit) s₀ = .ok v s' ∧
        { a with oldPlayerId := m.getPlayer a.playerIndex } = a' ∧ s' = t' := by
      obtain ⟨v₁, s₁, h₁, hrest⟩ := bind_ok.1 hrest
      obtain ⟨v₂, s₂, h₂, hrest⟩ := bind_ok.1 hrest
      obtain ⟨v₃, s₃, h₃, hrest⟩ := bind_ok.1 hrest
      obtain ⟨rfl, rfl⟩ := pure_ok.1 hrest
      exact ⟨v₃, s₃, bind_ok.2 ⟨v₁, s₁, h₁, bind_ok.2 ⟨v₂, s₂, h₂, h₃⟩⟩, rfl, rfl⟩
    obtain ⟨v, s', hwrites, rfl, rfl⟩ := hsplit
    obtain ⟨hnew, -, rfl⟩ := (writes_ok hc hm).1 hwrites
    exact .inr ⟨c, m, hc, hm, happlies, hnew, rfl, rfl⟩
  · next hcond =>
    obtain ⟨rfl, rfl⟩ := pure_ok.1 hrest
    exact .inl ⟨fun happlies => hcond ((applies_iff ht).2 happlies), rfl, rfl⟩

theorem undoImpl_cases {v : Unit} (ht : t.Indexed) (h : a.undoImpl t = .ok v t') : ¬a.Applies t ∧ t' = t ∨
    ∃ c m, t.categories a.combinedId.categoryId = some c ∧ c.getMatch a.combinedId.matchId = .ok m ∧
      a.Applies t ∧ t' = t.reseat a.combinedId a.playerIndex a.playerId a.oldPlayerId c m := by
  unfold undoImpl at h
  obtain ⟨s, s', hs, hrest⟩ := bind_ok.1 h
  obtain ⟨rfl, rfl⟩ := get_ok.1 hs
  split at hrest
  · next hcond =>
    have happlies := (applies_iff ht).1 hcond
    obtain ⟨c, m, hc, hm⟩ := happlies.1
    obtain ⟨-, -, rfl⟩ := (writes_ok hc hm).1 hrest
    exact .inr ⟨c, m, hc, hm, happlies, rfl⟩
  · next hcond =>
    obtain ⟨-, rfl⟩ := pure_ok.1 hrest
    exact .inl ⟨fun happlies => hcond ((applies_iff ht).2 happlies), rfl⟩

/-- The undo does nothing where the action has done nothing, and else it sets the old player again. -/
theorem undo_cases {v : Unit} {u' : TournamentStore} (ht : t.Indexed) (h : a.redoImpl t = .ok a' t') (hu : u.Indexed)
    (hview : u.links = t'.links) (hundo : a'.undoImpl u = .ok v u') : (t' = t ∧ u' = u) ∨
      ∃ c m cu mu, t.categories a.combinedId.categoryId = some c ∧ c.getMatch a.combinedId.matchId = .ok m ∧
        (∀ pid, a.playerId = some pid → ∃ p, t.players pid = some p ∧ a.combinedId ∉ p.matchIds) ∧
        u.categories a.combinedId.categoryId = some cu ∧ cu.getMatch a.combinedId.matchId = .ok mu ∧
        t' = t.reseat a.combinedId a.playerIndex (m.getPlayer a.playerIndex) a.playerId c m ∧
        u' = u.reseat a.combinedId a.playerIndex a.playerId (m.getPlayer a.playerIndex) cu mu := by
  have hindexed : t'.Indexed := (a.keeps_redo_indexed ht h).1
  obtain ⟨hnot, rfl, rfl⟩ | ⟨c, m, hc, hm, happlies, hnew, rfl, rfl⟩ := redoImpl_cases ht h
  · obtain ⟨-, rfl⟩ | ⟨_, _, -, -, happlies, -⟩ := undoImpl_cases hu hundo
    · exact .inl ⟨rfl, rfl⟩
    · exact (hnot (happlies.of_links hu ht hview.symm)).elim
  · have hc₁ : (t.reseat a.combinedId a.playerIndex (m.getPlayer a.playerIndex) a.playerId c m).categories
        a.combinedId.categoryId = some _ := Function.update_self _ _ _
    have hm₁ := CategoryStore.getMatch_setMatch hm (m.setPlayer a.playerIndex a.playerId)
    have happlies' : a.Applies (t.reseat a.combinedId a.playerIndex (m.getPlayer a.playerIndex) a.playerId c m) := by
      refine ⟨⟨_, _, hc₁, hm₁⟩, ?_⟩
      have hallowed := happlies.2
      cases hpid : a.playerId with
      | none => rfl
      | some pid =>
        obtain ⟨p, hp, -⟩ := hnew pid hpid
        refine Option.isSome_iff_ne_none.2 ?_
        rw [ne_eq, players_reseat_eq_none, hp]
        simp
    have happliesu : a.Applies u := happlies'.of_links hindexed hu hview
    obtain ⟨hnot, -⟩ | ⟨cu, mu, hcu, hmu, -, rfl⟩ := undoImpl_cases hu hundo
    · exact (hnot happliesu).elim
    · exact .inr ⟨c, m, cu, mu, hc, hm, hnew, hcu, hmu, rfl, rfl⟩

/-- Setting a player of the category keeps the references in line. -/
theorem keeps_inLine (ht : t.InLine) (hplayer : ∀ pid, a.playerId = some pid →
    t.Enrolled a.combinedId.categoryId pid)
    (h : a.redoImpl t = .ok a' t') : t'.InLine := by
  have hindexed : t'.Indexed := (a.keeps_redo_indexed ht.indexed h).1
  obtain ⟨hnot, rfl, rfl⟩ | ⟨c, m, hc, hm, happlies, hnew, rfl, rfl⟩ := redoImpl_cases ht.indexed h
  · exact ht
  · refine ⟨Linked.reseat ht.indexed hc hm ht.linked fun pid hpid => ⟨?_, hnew pid hpid⟩, hindexed⟩
    obtain ⟨c', hc', hmem⟩ := hplayer pid hpid
    cases hc.symm.trans hc'
    exact hmem

theorem links_back (ht : t.InLine) (h : a.redoImpl t = .ok a' t') : LinksBack a'.undoImpl t'.links t.links := by
  intro u v u' hu hview hundo
  have hindexed : t'.Indexed := (a.keeps_redo_indexed ht.indexed h).1
  refine ⟨(keeps_undo_indexed _ hu hundo).1, ?_, trivial⟩
  obtain ⟨rfl, rfl⟩ | ⟨c, m, cu, mu, hc, hm, hnew, hcu, hmu, rfl, rfl⟩ := undo_cases ht.indexed h hu hview hundo
  · exact hview
  · have hc₁ : (t.reseat a.combinedId a.playerIndex (m.getPlayer a.playerIndex) a.playerId c m).categories
        a.combinedId.categoryId = some _ := Function.update_self _ _ _
    have hm₁ := CategoryStore.getMatch_setMatch hm (m.setPlayer a.playerIndex a.playerId)
    exact (links_reseat hindexed hu hview hc₁ hcu hm₁ hmu).trans (reseat_back ht hc hm hnew)

end SetMatchPlayerAction

/-! ### Events -/

/-- Indices that agree with the lists, and given cross references. -/
def Steady (v : (PlayerId → Option (Finset CategoryId × Finset CombinedId)) ×
    (CategoryId → Option (Finset PlayerId × List Fight × DrawSystem))) (t : TournamentStore) : Prop :=
  t.Indexed ∧ t.links = v

theorem TournamentStore.InLine.of_steady (ht : t.InLine) (h : Steady t.links t') : t'.InLine :=
  ⟨ht.linked.of_links h.2, h.1⟩

theorem leadsBack_of_steady {y : Exec γ} (h : ∀ v, Keeps (Steady v) y fun _ => True)
    (v : (PlayerId → Option (Finset CategoryId × Finset CombinedId)) ×
      (CategoryId → Option (Finset PlayerId × List Fight × DrawSystem))) : LinksBack y v v := by
  intro u a u' hu hview hy
  obtain ⟨⟨hu', hview'⟩, -⟩ := h v ⟨hu, hview⟩ hy
  exact ⟨hu', hview', trivial⟩

section

variable {v : (PlayerId → Option (Finset CategoryId × Finset CombinedId)) ×
  (CategoryId → Option (Finset PlayerId × List Fight × DrawSystem))}

theorem keeps_editMatch_steady {f : MatchStore → Except Failure MatchStore}
    (h : ∀ m m', f m = .ok m' → m.SameFight m') : Keeps (Steady v) (editMatch x f) fun _ => True := by
  intro t w t' ht hw
  refine ⟨⟨(keeps_editMatch_indexed (fun m m' hf => ?_) ht.1 hw).1, ?_⟩, trivial⟩
  · exact ⟨(h m m' hf).combinedId, (h m m' hf).type, (h m m' hf).permanentBye⟩
  · obtain ⟨c, c', hc, hwrite, rfl⟩ := editCategory_ok.1 hw
    simp only [except_bind_ok, except_pure_ok] at hwrite
    obtain ⟨m, hm, m', hf, rfl⟩ := hwrite
    rw [← ht.2]
    have hcx := ht.1.index _ c hc
    obtain ⟨hmem, hid⟩ := hcx.getMatch_ok.1 hm
    have hfights : (c.setMatch x.matchId m').matchList.map (·.fight) = c.matchList.map (·.fight) := by
      rw [hcx.matchList_setMatch, List.map_map]
      refine List.map_congr_left fun n hn => ?_
      show (if n.id = x.matchId then m' else n).fight = n.fight
      split
      · next heq =>
        rw [hcx.eq_of_id hn hmem (heq.trans hid.symm)]
        have hsame := h m m' hf
        show Fight.mk m'.combinedId m'.players = ⟨m.combinedId, m.players⟩
        rw [hsame.combinedId, hsame.players]
      · rfl
    refine project_setCategory hc ?_
    rw [hfights]
    unfold CategoryStore.setMatch
    split <;> rfl

theorem keeps_moveCounter_steady (id : CategoryId) (m : MatchStore) (source target : MatchStatus) :
    Keeps (Steady v) (moveCounter id m source target) fun _ => True := by
  have hframe : Frame links (moveCounter id m source target) := by
    refine Frame.bind (frame_editCategory fun t c c' hc hf => ?_) fun _ => frame_getCategory.bind fun c => ?_
    · simp only [except_bind_ok, except_pure_ok] at hf
      obtain ⟨_, _, rfl⟩ := hf
      exact project_setCategory hc rfl
    · split
      · exact Frame.pure
      · exact layoutBlind_links.editTatamis
  intro t w t' ht hw
  exact ⟨⟨(keeps_moveCounter_indexed id m source target ht.1 hw).1, (hframe hw).trans ht.2⟩, trivial⟩

theorem MatchEventAction.keeps_restore_steady (x : CombinedId) (prevState : MatchState) (prevEventSize : ℕ) :
    Keeps (Steady v) (restore x prevState prevEventSize) fun _ => True := by
  refine keeps_getMatch.bind fun _ _ => Keeps.bind (keeps_editMatch_steady fun m m' h => ?_) fun _ _ =>
    keeps_getMatch.bind fun _ _ => keeps_doIf (keeps_moveCounter_steady _ _ _ _)
  simp only [except_bind_ok, except_pure_ok] at h
  obtain ⟨_, _, rfl⟩ := h
  exact ⟨rfl, rfl, rfl, rfl⟩

theorem ResetMatchesAction.keeps_resetMatch_steady (x : CombinedId) :
    Keeps (Steady v) (resetMatch x) fun _ => True := by
  refine keeps_getMatch.bind fun _ _ => Keeps.bind (keeps_editMatch_steady fun m m' h => ?_) fun _ _ =>
    keeps_getMatch.bind fun _ _ => (keeps_doIf (keeps_moveCounter_steady _ _ _ _)).bind fun _ _ => .pure trivial
  cases h
  exact ⟨rfl, rfl, rfl, rfl⟩

theorem ResetMatchesAction.keeps_recoverMatch_steady (r : ResetMatch) :
    Keeps (Steady v) (recoverMatch r) fun _ => True := by
  refine keeps_getMatch.bind fun _ _ => Keeps.bind (keeps_editMatch_steady fun m m' h => ?_) fun _ _ =>
    keeps_getMatch.bind fun _ _ => keeps_doIf (keeps_moveCounter_steady _ _ _ _)
  cases h
  exact ⟨rfl, rfl, rfl, rfl⟩

end

end

end JudoAssistant
