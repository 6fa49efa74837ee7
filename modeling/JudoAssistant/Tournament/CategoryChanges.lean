import JudoAssistant.Tournament.Enrolment
import JudoAssistant.Tournament.Caches

/-!
# Categories that come and go

A category that is added has no players and no matches.  One that is erased leaves its players and their
sets of matches first, and its blocks leave the tatamis; the undo puts all of it back.
-/

namespace JudoAssistant

open Effect Exec TournamentStore

section

variable {α β γ δ : Type} {f : PlayerStore → α} {h : CategoryStore → β} {t t' u : TournamentStore}
  {id : CategoryId} {c : CategoryStore}

/-! ### Players and matches of one category -/

namespace TournamentStore

/-- The players of a set have joined or left a category, at their end. -/
def mark (joining : Bool) (id : CategoryId) (S : Finset PlayerId) (t : TournamentStore) : TournamentStore :=
  { t with players := fun pid => (t.players pid).map fun p => if pid ∈ S then p.enlist joining id else p }

/-- The tournament without a category. -/
def dissolve (id : CategoryId) (c : CategoryStore) (t : TournamentStore) : TournamentStore :=
  { (t.mark false id c.players).disengage (fights c.matchList) with
    categories := Function.update t.categories id none }

/-- The tournament with a category that it has lost. -/
def recover (id : CategoryId) (c : CategoryStore) (t : TournamentStore) : TournamentStore :=
  ((t.mark true id c.players).engage (fights c.matchList)).setCategory id c

theorem mark_empty {joining : Bool} : t.mark joining id ∅ = t := by
  have hplayers : (t.mark joining id ∅).players = t.players := by
    funext pid
    show (t.players pid).map (fun p => if pid ∈ (∅ : Finset PlayerId) then p.enlist joining id else p) = _
    cases t.players pid <;> simp
  unfold mark at hplayers ⊢
  simp only at hplayers
  rw [hplayers]

theorem mark_mark {joining : Bool} {pid : PlayerId} {S : Finset PlayerId} (hpid : pid ∉ S) :
    (t.mark joining id {pid}).mark joining id S = t.mark joining id (insert pid S) := by
  unfold mark
  congr 1
  funext i
  show Option.map _ (Option.map _ (t.players i)) = Option.map _ (t.players i)
  cases t.players i with
  | none => rfl
  | some p =>
    simp only [Option.map_some, Finset.mem_singleton, Finset.mem_insert]
    by_cases hi : i = pid
    · subst hi
      simp [hpid]
    · simp [hi]

theorem players_dissolve (hf : ProfileSight f) {pid : PlayerId} {p : PlayerStore} (hp : t.players pid = some p) :
    ∃ p', (t.dissolve id c).players pid = some p' ∧ p'.matchIds = p.matchIds \ fights c.matchList pid ∧
      p'.categories = (if pid ∈ c.players then p.categories.erase id else p.categories) ∧ f p' = f p := by
  refine ⟨{ (if pid ∈ c.players then p.enlist false id else p) with
    matchIds := (if pid ∈ c.players then p.enlist false id else p).matchIds \ fights c.matchList pid }, ?_, ?_, ?_,
    (hf.matchIds _ _).trans ?_⟩
  · show Option.map _ (Option.map _ (t.players pid)) = _
    rw [hp]
    rfl
  · show _ \ _ = _
    split <;> rfl
  · show (if pid ∈ c.players then p.enlist false id else p).categories = _
    split <;> rfl
  · split
    · exact hf.categories p _
    · rfl

theorem players_recover (hf : ProfileSight f) {pid : PlayerId} {q : PlayerStore} (hq : t.players pid = some q) :
    ∃ q', (t.recover id c).players pid = some q' ∧ q'.matchIds = q.matchIds ∪ fights c.matchList pid ∧
      q'.categories = (if pid ∈ c.players then insert id q.categories else q.categories) ∧ f q' = f q := by
  refine ⟨{ (if pid ∈ c.players then q.enlist true id else q) with
    matchIds := (if pid ∈ c.players then q.enlist true id else q).matchIds ∪ fights c.matchList pid }, ?_, ?_, ?_,
    (hf.matchIds _ _).trans ?_⟩
  · show Option.map _ (Option.map _ (t.players pid)) = _
    rw [hq]
    rfl
  · show _ ∪ _ = _
    split <;> rfl
  · show (if pid ∈ c.players then q.enlist true id else q).categories = _
    split <;> rfl
  · split
    · exact hf.categories q _
    · rfl

theorem players_dissolve_eq_none {pid : PlayerId} :
    (t.dissolve id c).players pid = none ↔ t.players pid = none :=
  Option.map_eq_none_iff.trans Option.map_eq_none_iff

theorem of_players_dissolve {pid : PlayerId} {p' : PlayerStore} (hp' : (t.dissolve id c).players pid = some p') :
    ∃ p, t.players pid = some p ∧ p'.matchIds = p.matchIds \ fights c.matchList pid ∧
      p'.categories = if pid ∈ c.players then p.categories.erase id else p.categories := by
  have hne : t.players pid ≠ none := fun hnone => by
    rw [players_dissolve_eq_none.2 hnone] at hp'
    cases hp'
  obtain ⟨p, hp⟩ := Option.ne_none_iff_exists'.1 hne
  obtain ⟨q, hq, hmatchIds, hcategories, -⟩ := @players_dissolve _ _ t id c profileSight_unit pid p hp
  cases hq.symm.trans hp'
  exact ⟨p, hp, hmatchIds, hcategories⟩

theorem categories_dissolve {cid : CategoryId} {e : CategoryStore} :
    (t.dissolve id c).categories cid = some e ↔ cid ≠ id ∧ t.categories cid = some e := by
  show Function.update t.categories id none cid = some e ↔ _
  by_cases hcid : cid = id
  · subst hcid
    simp
  · rw [Function.update_of_ne hcid]
    simp [hcid]

/-- Without one of its categories the references of a tournament still agree. -/
theorem Linked.dissolve (ht : t.Linked) (hindexed : t.Indexed) (hc : t.categories id = some c) :
    (t.dissolve id c).Linked := by
  have hown : ∀ m ∈ c.matchList, m.combinedId.categoryId = id := fun m hm =>
    ((hindexed.index id c hc).ids m hm).trans (hindexed.category id c hc)
  refine ⟨fun cid pid p' hp' => ?_, fun cid e pid he hpid => ?_, fun x pid p' hp' => ?_,
    fun cid e m pid he hm hhas => ?_, fun cid e m pid he hm => ?_, fun cid e m pid hoff he hm hhas => ?_,
    fun cid e pid hoff he hpid => ?_⟩
  · obtain ⟨p, hp, -, hcategories⟩ := of_players_dissolve hp'
    simp only [categories_dissolve]
    have hmember := ht.member cid pid p hp
    by_cases hcid : cid = id
    · subst hcid
      have hnot : cid ∉ p'.categories := by
        rw [hcategories]
        split
        · simp
        · next hpid =>
          rw [hmember]
          rintro ⟨e, he, hmem⟩
          cases hc.symm.trans he
          exact hpid hmem
      simp [hnot]
    · have hsame : cid ∈ p'.categories ↔ cid ∈ p.categories := by
        rw [hcategories]
        split <;> simp [hcid]
      rw [hsame, hmember]
      simp [hcid]
  · rw [ne_eq, players_dissolve_eq_none]
    exact ht.members_exist cid e pid (categories_dissolve.1 he).2 hpid
  · obtain ⟨p, hp, hmatchIds, -⟩ := of_players_dissolve hp'
    simp only [categories_dissolve]
    rw [hmatchIds, Finset.mem_sdiff, ht.fight x pid p hp, mem_fights]
    constructor
    · rintro ⟨⟨e, m, he, hm, rfl, hhas⟩, hnot⟩
      refine ⟨e, m, ⟨fun hid => ?_, he⟩, hm, rfl, hhas⟩
      rw [hid, hc] at he
      cases he
      exact hnot ⟨m, hm, hhas, rfl⟩
    · rintro ⟨e, m, ⟨hne, he⟩, hm, rfl, hhas⟩
      refine ⟨⟨e, m, he, hm, rfl, hhas⟩, ?_⟩
      rintro ⟨n, hn, -, heq⟩
      exact hne (by rw [← heq, hown n hn])
  · rw [ne_eq, players_dissolve_eq_none]
    exact ht.fighters_exist cid e m pid (categories_dissolve.1 he).2 hm hhas
  · exact ht.distinct cid e m pid (categories_dissolve.1 he).2 hm
  · exact ht.within cid e m pid hoff (categories_dissolve.1 he).2 hm hhas
  · exact ht.roster cid e pid hoff (categories_dissolve.1 he).2 hpid

/-- A new category without players, without matches and with an empty draw changes no reference. -/
theorem Linked.found (ht : t.Linked) (hnone : t.categories id = none) (hplayers : c.players = ∅)
    (hmatches : c.matchList = []) (hroster : c.drawSystem.rosterPlayers = []) :
    (t.setCategory id c).Linked := by
  have hcategory : ∀ cid e, (t.setCategory id c).categories cid = some e →
      e = c ∨ t.categories cid = some e := by
    intro cid e he
    change Function.update t.categories id (some c) cid = some e at he
    by_cases hcid : cid = id
    · subst hcid
      rw [Function.update_self] at he
      exact .inl (Option.some.inj he).symm
    · rw [Function.update_of_ne hcid] at he
      exact .inr he
  have hkeep : ∀ cid e, t.categories cid = some e → (t.setCategory id c).categories cid = some e := by
    intro cid e he
    show Function.update t.categories id (some c) cid = some e
    rw [Function.update_of_ne]
    · exact he
    · rintro rfl
      rw [hnone] at he
      cases he
  refine ⟨fun cid pid p hp => ?_, fun cid e pid he hpid => ?_, fun x pid p hp => ?_,
    fun cid e m pid he hm hhas => ?_, fun cid e m pid he hm => ?_, fun cid e m pid hoff he hm hhas => ?_,
    fun cid e pid hoff he hpid => ?_⟩
  · rw [ht.member cid pid p hp]
    constructor
    · rintro ⟨e, he, hpid⟩
      exact ⟨e, hkeep cid e he, hpid⟩
    · rintro ⟨e, he, hpid⟩
      rcases hcategory cid e he with rfl | he
      · simp [hplayers] at hpid
      · exact ⟨e, he, hpid⟩
  · rcases hcategory cid e he with rfl | he
    · simp [hplayers] at hpid
    · exact ht.members_exist cid e pid he hpid
  · rw [ht.fight x pid p hp]
    constructor
    · rintro ⟨e, m, he, hm, hrest⟩
      exact ⟨e, m, hkeep _ e he, hm, hrest⟩
    · rintro ⟨e, m, he, hm, hrest⟩
      rcases hcategory _ e he with rfl | he
      · simp [hmatches] at hm
      · exact ⟨e, m, he, hm, hrest⟩
  · rcases hcategory cid e he with rfl | he
    · simp [hmatches] at hm
    · exact ht.fighters_exist cid e m pid he hm hhas
  · rcases hcategory cid e he with rfl | he
    · simp [hmatches] at hm
    · exact ht.distinct cid e m pid he hm
  · rcases hcategory cid e he with rfl | he
    · simp [hmatches] at hm
    · exact ht.within cid e m pid hoff he hm hhas
  · rcases hcategory cid e he with rfl | he
    · simp [hroster] at hpid
    · exact ht.roster cid e pid hoff he hpid

end TournamentStore

namespace EraseCategoriesAction

/-- The loop that takes a category out of the sets of its players, or puts it in. -/
def markOne (joining : Bool) (id : CategoryId) (pid : PlayerId) : Exec Unit :=
  editPlayer pid fun p => if joining then p.addCategory id else p.eraseCategory id

theorem markOne_ok {joining : Bool} {pid : PlayerId} {v : Unit} : markOne joining id pid t = .ok v t' ↔
    (∃ p, t.players pid = some p ∧ (id ∈ p.categories ↔ joining = false)) ∧ t' = t.mark joining id {pid} := by
  have hwrite : ∀ {p : PlayerStore}, t.players pid = some p →
      t.setPlayer pid (p.enlist joining id) = t.mark joining id {pid} := by
    intro p hp
    unfold TournamentStore.setPlayer mark
    congr 1
    funext i
    by_cases hi : i = pid
    · subst hi
      rw [Function.update_self, hp]
      simp
    · rw [Function.update_of_ne hi]
      cases t.players i <;> simp [hi]
  unfold markOne
  rw [editPlayer_ok]
  cases joining with
  | true =>
    simp only [if_true, PlayerStore.addCategory, except_bind_ok, except_pure_ok, check_ok, decide_eq_true_eq]
    constructor
    · rintro ⟨p, _, hp, ⟨_, hid, rfl⟩, rfl⟩
      exact ⟨⟨p, hp, by simpa using hid⟩, hwrite hp⟩
    · rintro ⟨⟨p, hp, hid⟩, rfl⟩
      exact ⟨p, _, hp, ⟨(), by simpa using hid, rfl⟩, (hwrite hp).symm⟩
  | false =>
    simp only [Bool.false_eq_true, if_false, PlayerStore.eraseCategory, except_bind_ok, except_pure_ok, check_ok,
      decide_eq_true_eq]
    constructor
    · rintro ⟨p, _, hp, ⟨_, hid, rfl⟩, rfl⟩
      exact ⟨⟨p, hp, by simpa using hid⟩, hwrite hp⟩
    · rintro ⟨⟨p, hp, hid⟩, rfl⟩
      exact ⟨p, _, hp, ⟨(), by simpa using hid, rfl⟩, (hwrite hp).symm⟩

theorem inOrder_toFinset (S : Finset PlayerId) : (inOrder S).toFinset = S := by
  ext pid
  rw [List.mem_toFinset, mem_inOrder]

theorem markAll_ok (joining : Bool) (id : CategoryId) {pids : List PlayerId} (hnodup : pids.Nodup)
    (hpids : ∀ pid ∈ pids, ∃ p, t.players pid = some p ∧ (id ∈ p.categories ↔ joining = false)) :
    ∃ us, forEach (markOne joining id) pids t = .ok us (t.mark joining id pids.toFinset) := by
  induction pids generalizing t with
  | nil => exact ⟨[], forEach_nil_ok.2 ⟨rfl, by rw [List.toFinset_nil, mark_empty]⟩⟩
  | cons pid pids ih =>
    obtain ⟨hnot, hnodup⟩ := List.nodup_cons.1 hnodup
    obtain ⟨us, hus⟩ := ih (t := t.mark joining id {pid}) hnodup fun q hq => by
      obtain ⟨p, hp, hid⟩ := hpids q (List.mem_cons_of_mem _ hq)
      have hne : q ≠ pid := fun heq => hnot (heq ▸ hq)
      refine ⟨p, ?_, hid⟩
      show (t.players q).map _ = some p
      rw [hp]
      simp [hne]
    refine ⟨() :: us, forEach_cons_ok.2
      ⟨(), _, us, markOne_ok.2 ⟨hpids pid List.mem_cons_self, rfl⟩, ?_, rfl⟩⟩
    rw [hus, mark_mark (by simpa using hnot), List.toFinset_cons]

/-- The matches leave the sets of their players. -/
theorem disengageAll_ok {ms : List MatchStore} (hexist : ∀ m ∈ ms, ∀ pid, m.Has pid → t.players pid ≠ none) :
    ∃ us, forEach (fun m => do
      SetMatchPlayerAction.eraseFrom m.combinedId (m.getPlayer .white)
      SetMatchPlayerAction.eraseFrom m.combinedId (m.getPlayer .blue)) ms t =
        .ok us (t.disengage (fights ms)) := by
  induction ms generalizing t with
  | nil => exact ⟨[], forEach_nil_ok.2 ⟨rfl, by rw [show fights [] = fun _ => ∅ from rfl, disengage_empty]⟩⟩
  | cons m ms ih =>
    have hm := hexist m List.mem_cons_self
    obtain ⟨us, hus⟩ := ih (t := t.disengage (fights [m])) fun n hn pid hhas => by
      rw [ne_eq, players_disengage_eq_none]
      exact hexist n (List.mem_cons_of_mem _ hn) pid hhas
    refine ⟨() :: us, forEach_cons_ok.2 ⟨(), t.disengage (fights [m]), us, ?_, ?_, rfl⟩⟩
    · refine bind_ok.2 ⟨(), _, SetMatchPlayerAction.eraseFrom_ok.2
        ⟨fun pid hpid => hm pid ⟨.white, hpid⟩, rfl⟩,
        SetMatchPlayerAction.eraseFrom_ok.2 ⟨fun pid hpid => ?_, ?_⟩⟩
      · rw [ne_eq, players_disengage_eq_none]
        exact hm pid ⟨.blue, hpid⟩
      · rw [disengage_disengage]
        exact congrArg (fun S => t.disengage S) (funext fun pid => AddMatchAction.fights_singleton m pid)
    · rw [hus, disengage_disengage]
      congr 2
      funext pid
      exact (AddMatchAction.fights_cons m ms pid).symm

/-- The matches enter the sets of their players. -/
theorem engageAll_ok {ms : List MatchStore} (hnodup : (ms.map (·.combinedId)).Nodup)
    (hexist : ∀ m ∈ ms, ∀ pid, m.Has pid → t.players pid ≠ none) (hroom : t.Room (fights ms))
    (hdistinct : ∀ m ∈ ms, ∀ pid, ¬ (m.players.white = some pid ∧ m.players.blue = some pid)) :
    ∃ us, forEach (fun m => do
      SetMatchPlayerAction.addTo m.combinedId (m.getPlayer .white)
      SetMatchPlayerAction.addTo m.combinedId (m.getPlayer .blue)) ms t = .ok us (t.engage (fights ms)) := by
  induction ms generalizing t with
  | nil => exact ⟨[], forEach_nil_ok.2 ⟨rfl, by rw [show fights [] = fun _ => ∅ from rfl, engage_empty]⟩⟩
  | cons m ms ih =>
    obtain ⟨hnot, hnodup⟩ := List.nodup_cons.1 hnodup
    have hm := hexist m List.mem_cons_self
    have hfresh : AddMatchAction.Fresh t m := by
      refine ⟨fun pid hhas => ?_, hdistinct m List.mem_cons_self⟩
      obtain ⟨p, hp⟩ := Option.ne_none_iff_exists'.1 (hm pid hhas)
      exact ⟨p, hp, Finset.disjoint_left.1 (hroom pid p hp) (mem_fights.2 ⟨m, List.mem_cons_self, hhas, rfl⟩)⟩
    have hroom' : (t.engage (fights [m])).Room (fights ms) := by
      intro pid q hq
      obtain ⟨p, hp, rfl⟩ := Option.map_eq_some_iff.1 hq
      have hboth := hroom pid p hp
      rw [AddMatchAction.fights_cons, Finset.disjoint_union_left] at hboth
      refine Finset.disjoint_union_right.2 ⟨hboth.2, Finset.disjoint_left.2 fun x hx hx' => ?_⟩
      obtain ⟨n, hn, -, rfl⟩ := mem_fights.1 hx
      obtain ⟨n', hn', -, heq⟩ := mem_fights.1 hx'
      obtain rfl := List.mem_singleton.1 hn'
      exact hnot (List.mem_map.2 ⟨n, hn, heq.symm⟩)
    obtain ⟨us, hus⟩ := ih (t := t.engage (fights [m])) hnodup
      (fun n hn pid hhas => by
        rw [ne_eq, players_engage_eq_none]
        exact hexist n (List.mem_cons_of_mem _ hn) pid hhas)
      hroom' fun n hn => hdistinct n (List.mem_cons_of_mem _ hn)
    have hboth := (AddMatchAction.addBoth_ok (t := t) (m := m) (f := fun _ => pure ()) (u := ())).2
      ⟨hfresh, pure_ok.2 ⟨rfl, rfl⟩⟩
    obtain ⟨_, t₁, h₁, h₂⟩ := bind_ok.1 hboth
    obtain ⟨_, t₂, h₂, h₃⟩ := bind_ok.1 h₂
    obtain ⟨-, rfl⟩ := pure_ok.1 h₃
    refine ⟨() :: us, forEach_cons_ok.2 ⟨(), _, us, bind_ok.2 ⟨(), t₁, h₁, h₂⟩, ?_, rfl⟩⟩
    rw [hus, engage_engage]
    congr 2
    funext pid
    exact (AddMatchAction.fights_cons m ms pid).symm

theorem eraseOne_eq (ht : t.Linked) (hc : t.categories id = some c) :
    eraseOne id t = .ok c (t.dissolve id c) := by
  obtain ⟨us, hus⟩ := markAll_ok (t := t) false id (nodup_inOrder c.players) fun pid hpid => by
      have hmem := mem_inOrder.1 hpid
      obtain ⟨p, hp⟩ := Option.ne_none_iff_exists'.1 (ht.members_exist id c pid hc hmem)
      exact ⟨p, hp, by simpa using (ht.member id pid p hp).2 ⟨c, hc, hmem⟩⟩
  obtain ⟨vs, hvs⟩ := @disengageAll_ok (t.mark false id (inOrder c.players).toFinset) c.matchList
    fun m hm pid hhas => by
      show Option.map _ _ ≠ none
      rw [ne_eq, Option.map_eq_none_iff]
      exact ht.fighters_exist id c m pid hc hm hhas
  rw [inOrder_toFinset] at hus hvs
  exact bind_ok.2 ⟨c, t, getCategory_ok.2 ⟨hc, rfl⟩, bind_ok.2 ⟨us, _, hus, bind_ok.2 ⟨vs, _, hvs,
    eraseCategory_ok.2 ⟨hc, rfl⟩⟩⟩⟩

theorem recoverOne_eq (hid : t.categories c.id = none) (hnodup : (c.matchList.map (·.combinedId)).Nodup)
    (hmembers : ∀ pid ∈ c.players, ∃ p, t.players pid = some p ∧ c.id ∉ p.categories)
    (hexist : ∀ m ∈ c.matchList, ∀ pid, m.Has pid → t.players pid ≠ none)
    (hroom : t.Room (fights c.matchList))
    (hdistinct : ∀ m ∈ c.matchList, ∀ pid, ¬ (m.players.white = some pid ∧ m.players.blue = some pid)) :
    recoverOne c t = .ok () (t.recover c.id c) := by
  obtain ⟨us, hus⟩ := markAll_ok (t := t) true c.id (nodup_inOrder c.players) fun pid hpid => by
    obtain ⟨p, hp, hnot⟩ := hmembers pid (mem_inOrder.1 hpid)
    exact ⟨p, hp, by simpa using hnot⟩
  rw [inOrder_toFinset] at hus
  have hexist' : ∀ m ∈ c.matchList, ∀ pid, m.Has pid → (t.mark true c.id c.players).players pid ≠ none := by
    intro m hm pid hhas
    show Option.map _ _ ≠ none
    rw [ne_eq, Option.map_eq_none_iff]
    exact hexist m hm pid hhas
  have hroom' : (t.mark true c.id c.players).Room (fights c.matchList) := by
    intro pid q hq
    obtain ⟨p, hp, rfl⟩ := Option.map_eq_some_iff.1 hq
    have hsame : (if pid ∈ c.players then p.enlist true c.id else p).matchIds = p.matchIds := by split <;> rfl
    rw [hsame]
    exact hroom pid p hp
  obtain ⟨vs, hvs⟩ := engageAll_ok hnodup hexist' hroom' hdistinct
  exact bind_ok.2 ⟨us, _, hus, bind_ok.2 ⟨vs, _, hvs, addCategory_ok.2 ⟨hid, rfl⟩⟩⟩

/-- A category is erased from a tournament whose references agree, and it is recovered from what looks like the
tournament without it. -/
theorem eraseOne_restorable (hf : ProfileSight f) (id : CategoryId) :
    Restorable (fun t => t.Linked ∧ t.Indexed) Indexed (fun t => (bouts h t, members f t)) (eraseOne id) recoverOne
      fun _ => True := by
  intro t c t' ht herase
  obtain ⟨hlinked, hindexed⟩ := ht
  have hindexed' := (lasting_indexed.eraseOne id hindexed herase).1
  obtain ⟨c₀, t₀, hc, -⟩ := bind_ok.1 herase
  obtain ⟨hc, -⟩ := getCategory_ok.1 hc
  obtain ⟨rfl, rfl⟩ : c₀ = c ∧ t.dissolve id c₀ = t' := by
    have heq := (eraseOne_eq hlinked hc).symm.trans herase
    cases heq
    exact ⟨rfl, rfl⟩
  have hid : c₀.id = id := hindexed.category id c₀ hc
  subst hid
  refine ⟨⟨hlinked.dissolve hindexed hc, hindexed'⟩, fun u hu hview => ?_⟩
  have hbouts : bouts h u = bouts h (t.dissolve c₀.id c₀) := congrArg Prod.fst hview
  have hmembers : members f u = members f (t.dissolve c₀.id c₀) := congrArg Prod.snd hview
  -- a player of the tournament as he is in `u`
  have hplayer : ∀ pid p, t.players pid = some p → ∃ q, u.players pid = some q ∧
      q.matchIds = p.matchIds \ fights c₀.matchList pid ∧
      q.categories = (if pid ∈ c₀.players then p.categories.erase c₀.id else p.categories) ∧ f q = f p := by
    intro pid p hp
    obtain ⟨p', hp', hmatchIds', hcategories', hsame'⟩ := players_dissolve (c := c₀) hf hp
    obtain ⟨q, hq, hcategories, hsame⟩ := player_of_members hmembers hp'
    have hmatchIds := players_of_project hbouts pid
    rw [hq, hp'] at hmatchIds
    exact ⟨q, hq, (Option.some.inj hmatchIds).trans hmatchIds', hcategories.trans hcategories', hsame.trans hsame'⟩
  have hnone : ∀ pid, t.players pid = none → u.players pid = none := by
    intro pid hp
    have hmatchIds := players_of_project hbouts pid
    rw [players_dissolve_eq_none.2 hp, Option.map_none, Option.map_eq_none_iff] at hmatchIds
    exact hmatchIds
  have hgone : u.categories c₀.id = none := by
    have hcategory := categories_of_project hbouts c₀.id
    rw [show (t.dissolve c₀.id c₀).categories c₀.id = none from Function.update_self _ _ _, Option.map_none,
      Option.map_eq_none_iff] at hcategory
    exact hcategory
  have hnodup : (c₀.matchList.map (·.combinedId)).Nodup := by
    have hids := (hindexed.index c₀.id c₀ hc).nodup_ids
    refine List.Nodup.of_map CombinedId.matchId ?_
    rw [List.map_map]
    exact hids
  have hrecover : recoverOne c₀ u = .ok () (u.recover c₀.id c₀) := by
    refine recoverOne_eq hgone hnodup (fun pid hpid => ?_) (fun m hm pid hhas => ?_) (fun pid q hq => ?_)
      fun m hm pid => hlinked.distinct c₀.id c₀ m pid hc hm
    · obtain ⟨p, hp⟩ := Option.ne_none_iff_exists'.1 (hlinked.members_exist c₀.id c₀ pid hc hpid)
      obtain ⟨q, hq, -, hcategories, -⟩ := hplayer pid p hp
      refine ⟨q, hq, ?_⟩
      rw [hcategories, if_pos hpid]
      exact Finset.notMem_erase _ _
    · obtain ⟨p, hp⟩ := Option.ne_none_iff_exists'.1 (hlinked.fighters_exist c₀.id c₀ m pid hc hm hhas)
      obtain ⟨q, hq, -⟩ := hplayer pid p hp
      simp [hq]
    · cases hp : t.players pid with
      | none =>
        rw [hnone pid hp] at hq
        cases hq
      | some p =>
        obtain ⟨q', hq', hmatchIds, -⟩ := hplayer pid p hp
        cases hq.symm.trans hq'
        rw [hmatchIds]
        exact Finset.disjoint_sdiff
  have hback : ∀ pid, t.players pid = none ∧ (u.recover c₀.id c₀).players pid = none ∨
      ∃ p q, t.players pid = some p ∧ (u.recover c₀.id c₀).players pid = some q ∧ q.matchIds = p.matchIds ∧
        q.categories = p.categories ∧ f q = f p := by
    intro pid
    cases hp : t.players pid with
    | none =>
      refine .inl ⟨rfl, ?_⟩
      show Option.map _ (Option.map _ (u.players pid)) = none
      rw [hnone pid hp]
      rfl
    | some p =>
      obtain ⟨q, hq, hmatchIds, hcategories, hsame⟩ := hplayer pid p hp
      obtain ⟨q', hq', hmatchIds', hcategories', hsame'⟩ := @players_recover _ _ u c₀.id c₀ hf pid q hq
      refine .inr ⟨p, q', rfl, hq', ?_, ?_, hsame'.trans hsame⟩
      · rw [hmatchIds', hmatchIds, Finset.sdiff_union_of_subset
          (DrawCategoriesAction.fights_subset hindexed hlinked hc hp)]
      · rw [hcategories', hcategories]
        by_cases hpid : pid ∈ c₀.players
        · have hmem := (hlinked.member c₀.id pid p hp).2 ⟨c₀, hc, hpid⟩
          rw [if_pos hpid, if_pos hpid, Finset.insert_erase hmem]
        · rw [if_neg hpid, if_neg hpid]
  have hcategory : ∀ {δ : Type} (k : CategoryStore → δ), (∀ cid, (u.categories cid).map k =
      ((t.dissolve c₀.id c₀).categories cid).map k) → ∀ cid,
      ((u.recover c₀.id c₀).categories cid).map k = (t.categories cid).map k := by
    intro δ k hk cid
    show (Function.update u.categories c₀.id (some c₀) cid).map k = _
    by_cases hcid : cid = c₀.id
    · rw [hcid, Function.update_self, hc]
    · have hother := hk cid
      rw [Function.update_of_ne hcid]
      rwa [show (t.dissolve c₀.id c₀).categories cid =
        t.categories cid from Function.update_of_ne hcid _ _] at hother
  refine ⟨(), _, hrecover, (lasting_indexed.recoverOne (hindexed.index c₀.id c₀ hc) hu hrecover).1,
    Prod.ext ?_ ?_, trivial⟩
  · refine Prod.ext (funext fun pid => ?_) (funext (hcategory h (categories_of_project hbouts)))
    show ((u.recover c₀.id c₀).players pid).map _ = (t.players pid).map _
    obtain ⟨hp, hq⟩ | ⟨p, q, hp, hq, hmatchIds, -⟩ := hback pid
    · rw [hp, hq]
    · rw [hp, hq]
      exact congrArg some hmatchIds
  · refine Prod.ext (funext fun pid => ?_) (funext (hcategory (·.players) (categories_of_project hmembers)))
    show ((u.recover c₀.id c₀).players pid).map _ = (t.players pid).map _
    obtain ⟨hp, hq⟩ | ⟨p, q, hp, hq, -, hcategories, hsame⟩ := hback pid
    · rw [hp, hq]
    · rw [hp, hq]
      exact congrArg some (Prod.ext hcategories hsame)

end EraseCategoriesAction

end

/-! ### Actions that add and erase categories -/

section

variable {α β : Type} {f : PlayerStore → α} {h : CategoryStore → β} {t t' u : TournamentStore}

theorem CategoryStore.roster_init (id : CategoryId) (name : String) (ruleset : RulesetIdentifier)
    (kind : DrawSystemIdentifier) :
    (CategoryStore.init id name ruleset (DrawSystem.getDrawSystem kind)).drawSystem.rosterPlayers = [] :=
  ChangeCategoriesDrawSystemAction.rosterPlayers_getDrawSystem kind

/-- The category that a view has lost can be erased. -/
theorem register_eraseCategory {id : CategoryId} {c : CategoryStore} (hnone : t.categories id = none)
    (hview : register f h u = register f h (t.setCategory id c)) :
    bouts h { u with categories := Function.update u.categories id none } = bouts h t ∧
      members f { u with categories := Function.update u.categories id none } = members f t := by
  have hcategory : ∀ {ζ : Type} (k : CategoryStore → ζ),
      (∀ cid, (u.categories cid).map k = ((t.setCategory id c).categories cid).map k) →
      ∀ cid, (Function.update u.categories id none cid).map k = (t.categories cid).map k := by
    intro ζ k hk cid
    by_cases hcid : cid = id
    · rw [hcid, Function.update_self, hnone]
    · have hother := hk cid
      change _ = (Function.update t.categories id _ cid).map k at hother
      rw [Function.update_of_ne hcid] at hother ⊢
      exact hother
  have hbouts : bouts h u = bouts h (t.setCategory id c) := congrArg (fun v => v.1.2) hview
  have hmembers : members f u = members f (t.setCategory id c) := congrArg Prod.snd hview
  have hplayers := congrArg Prod.fst hbouts
  have hplayers' := congrArg Prod.fst hmembers
  exact ⟨Prod.ext hplayers (funext (hcategory h (categories_of_project hbouts))),
    Prod.ext hplayers' (funext (hcategory (·.players) (categories_of_project hmembers)))⟩

theorem AddCategoryAction.restorable (a : AddCategoryAction) :
    RegisterRestorable f h a.redoImpl undoImpl fun _ => True := by
  intro t a' t' ht hredo
  obtain ⟨hsound, hlayout⟩ := a.revocable ht.sound hredo
  obtain ⟨hindexed, hkeeps⟩ := lasting_indexed.addCategoryAction a ht.indexed hredo
  obtain ⟨rfl, hnone, rfl⟩ := redoImpl_ok hredo
  refine ⟨⟨hsound, hindexed, ht.linked.found hnone rfl rfl (CategoryStore.roster_init _ _ _ _)⟩,
    restores_of_parts hlayout hkeeps fun u _ hview => ?_⟩
  obtain ⟨e, he, -⟩ := category_of_bouts (congrArg (fun v => v.1.2) hview) (categories_setCategory_self _ _ _)
  exact ⟨a', _, bind_ok.2 ⟨e, _, eraseCategory_ok.2 ⟨he, rfl⟩, rfl⟩, register_eraseCategory hnone hview⟩

theorem AddCategoryWithPlayersAction.restorable (hf : ProfileSight f) (hsight : BoutSight h)
    (a : AddCategoryWithPlayersAction) : RegisterRestorable f h a.redoImpl undoImpl fun _ => True := by
  intro t a' t' ht hredo
  simp only [redoImpl, bind_ok, pure_ok] at hredo
  obtain ⟨b, t₁, hb, playersAction, t₂, hplayers, rfl, rfl⟩ := hredo
  obtain ⟨ht₁, hback₁⟩ := AddCategoryAction.restorable (f := f) (h := h) _ ht hb
  have hcategory : Recovers Intact (register f h) (do
      let _ ← b.undoImpl
      return { a with categoryAction := none, playersAction := none } : Exec AddCategoryWithPlayersAction)
      (fun _ => True) (register f h t₁) (register f h t) := hback₁.bind fun _ _ => .pure trivial
  unfold addPlayers at hplayers
  split at hplayers
  · next hnil =>
    obtain ⟨rfl, rfl⟩ := pure_ok.1 hplayers
    refine ⟨ht₁, Recovers.bind (P := fun _ => True) ?_ fun _ _ => hcategory⟩
    unfold erasePlayers
    rw [if_pos hnil]
    exact .pure trivial
  · next hne =>
    obtain ⟨c, t₃, hc, hrest⟩ := bind_ok.1 hplayers
    obtain ⟨rfl, rfl⟩ := pure_ok.1 hrest
    obtain ⟨ht₂, hback₂⟩ := AddPlayersToCategoryAction.restorable hf hsight rfl rfl ht₁ hc
    refine ⟨ht₂, Recovers.bind (P := fun _ => True) ?_ fun _ _ => hcategory⟩
    unfold erasePlayers
    rw [if_neg hne]
    exact hback₂.bind fun _ _ => .pure trivial

theorem AddPlayersWithCategoriesAction.restorable (hf : ProfileSight f) (hsight : BoutSight h)
    {a : AddPlayersWithCategoriesAction} (hcategories : a.addCategoryActions = [])
    (hplayers : a.addPlayersToCategoryActions = []) : RegisterRestorable f h a.redoImpl undoImpl
      fun a => a.addCategoryActions = [] ∧ a.addPlayersToCategoryActions = [] := by
  intro t a' t' ht hredo
  simp only [redoImpl, bind_ok, pure_ok] at hredo
  obtain ⟨b, t₁, hb, cs, t₂, hcs, ps, t₃, hps, rfl, rfl⟩ := hredo
  obtain ⟨ht₁, hback₁⟩ := AddPlayersAction.restorable _ ht hb
  obtain ⟨ht₂, hback₂⟩ := restorable_forEach (fun _ _ => AddCategoryAction.restorable _) ht₁ hcs
  obtain ⟨ht₃, hback₃⟩ :=
    restorable_forEach (fun _ _ => AddPlayersToCategoryAction.restorable hf hsight rfl rfl) ht₂ hps
  refine ⟨ht₃, ?_⟩
  rw [hcategories, hplayers, List.append_nil, List.append_nil]
  exact hback₃.bind fun _ _ => hback₂.bind fun _ _ => hback₁.bind fun _ _ => .pure ⟨rfl, rfl⟩

namespace EraseCategoriesAction

/-- Blocks with categories can be put anywhere, one after the other. -/
theorem puts_total {ps : List PlacedBlock} (ht : t.tatamis.Readable t.categories)
    (hps : ∀ p ∈ ps, Categories.Readable t.categories p.1) :
    ∃ us t', forEach (fun p : PlacedBlock => editTatamis fun categories =>
      TatamiList.moveBlock categories p.1 none (some p.2)) ps t = .ok us t' := by
  induction ps generalizing t with
  | nil => exact ⟨[], t, forEach_nil_ok.2 ⟨rfl, rfl⟩⟩
  | cons p ps ih =>
    have hp := hps p List.mem_cons_self
    obtain ⟨tatamis, hmove⟩ := ht.moveBlock hp none (some p.2) (by rintro _ ⟨⟩)
    obtain ⟨put, hput⟩ := TatamiList.putBlock_total t.tatamis p.1 p.2
    have hlayout : tatamis.layout = put.layout := by
      rw [TatamiList.layout_moveBlock hmove, TatamiList.layout_putBlock hput]
      rfl
    have ht₁ : tatamis.Readable t.categories := (ht.put hp hput).of_layout hlayout
    obtain ⟨us, t', hus⟩ := @ih { t with tatamis := tatamis } ht₁ fun q hq => hps q (List.mem_cons_of_mem _ hq)
    exact ⟨() :: us, t', forEach_cons_ok.2 ⟨(), _, us, editTatamis_ok.2 ⟨tatamis, hmove, rfl⟩, hus, rfl⟩⟩

theorem restorable (hf : ProfileSight f) {a : EraseCategoriesAction} (hcategories : a.categories = [])
    (hblocks : a.blocks = []) : RegisterRestorable f h a.redoImpl undoImpl
      fun a => a.categories = [] ∧ a.blocks = [] := by
  intro t a' t' ht hredo
  obtain ⟨hsound, hlayout⟩ := revocable hcategories hblocks ht.sound hredo
  obtain ⟨hindexed, hkeeps⟩ := lasting_indexed.eraseCategories hcategories ht.indexed hredo
  obtain ⟨ps, us, t₁, cs, hps, hus, hcs, rfl⟩ := redoImpl_ok hredo
  have hcollected := collected_placedBlocks hps
  obtain ⟨tatamis, rfl, -⟩ := moves_ok hus
  have hlinked₁ : ({ t with tatamis := tatamis } : TournamentStore).Linked := ht.linked.of_links rfl
  have hindexed₁ : ({ t with tatamis := tatamis } : TournamentStore).Indexed := ht.indexed.of_keys rfl
  obtain ⟨⟨hlinked, -⟩, hback⟩ :=
    restorable_forEach (fun id _ => eraseOne_restorable (h := h) hf id) ⟨hlinked₁, hindexed₁⟩ hcs
  refine ⟨⟨hsound, hindexed, hlinked⟩, restores_of_parts hlayout hkeeps fun u hu hview => ?_⟩
  have hbouts : bouts h u = bouts h t' := congrArg (fun v => v.1.2) hview
  have hmembers : members f u = members f t' := congrArg Prod.snd hview
  obtain ⟨vs, u₁, hvs, hindexed', hsame, -⟩ := hback hu.indexed (Prod.ext hbouts hmembers)
  have hbouts' : bouts h u₁ = bouts h t := congrArg Prod.fst hsame
  have hmembers' : members f u₁ = members f t := congrArg Prod.snd hsame
  have hstored : ∀ {id : CategoryId}, t.categories id ≠ none → ∃ c, u₁.categories id = some c ∧
      c.id = id ∧ c.Indexed := by
    intro id hid
    obtain ⟨c, hc⟩ := Option.ne_none_iff_exists'.1 hid
    obtain ⟨e, he, -⟩ := category_of_bouts hbouts' hc
    exact ⟨e, he, hindexed'.category id e he, hindexed'.index id e he⟩
  obtain ⟨htatamis, -⟩ := recovers_ok hvs
  -- the blocks that stayed on the tatamis have their categories, and so have those that return
  have hreadable : u₁.tatamis.Readable u₁.categories := by
    rw [htatamis]
    refine ⟨hu.placed.ordered, fun g b hb => hstored fun hnone => ?_⟩
    obtain ⟨c, hc, -⟩ := (readable_of_placed hu.placed hu.indexed).blocks g b hb
    obtain ⟨e, he, -⟩ := category_of_bouts hbouts.symm hc
    have houtline := congrFun (congrArg Outline.categories (erases_ok hcs).2.1) b.1
    rw [categories_outline he] at houtline
    change _ = if b.1 ∈ _ then none else (t.categories b.1).map _ at houtline
    rw [hnone, Option.map_none, ite_self] at houtline
    cases houtline
  have hplaced : ∀ p ∈ ps, Categories.Readable u₁.categories p.1 := fun p hp =>
    hstored (Option.isSome_iff_ne_none.1 (List.mem_filter.1 (hcollected.mem_ids p hp)).2)
  obtain ⟨ws, u', hws⟩ := puts_total hreadable hplaced
  obtain ⟨tatamis', rfl, -⟩ := moves_ok hws
  rw [hcategories, hblocks, List.append_nil, List.nil_append]
  exact ⟨_, _, bind_ok.2 ⟨vs, u₁, hvs, bind_ok.2 ⟨ws, _, hws, rfl⟩⟩, hbouts', hmembers'⟩

end EraseCategoriesAction

end

end JudoAssistant
