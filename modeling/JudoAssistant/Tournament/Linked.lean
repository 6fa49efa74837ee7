import JudoAssistant.Tournament.IndexRuns

/-!
# Drawing a category and taking the draw back

The draw of a category takes its matches out of the sets of their players, makes new matches and puts
these into the sets.  This file says exactly what it does to a tournament whose cross references
agree, and that the recovery restores the old matches from every tournament in which the new ones are
still there.
-/

namespace JudoAssistant

open Effect Exec TournamentStore SetMatchPlayerAction AddMatchAction

/-! ### Cross references -/

/-- What the cross references read of a match. -/
structure Fight where
  combinedId : CombinedId
  players : ByPlayer (Option PlayerId)
  deriving DecidableEq

def MatchStore.fight (m : MatchStore) : Fight := ⟨m.combinedId, m.players⟩

theorem fights_congr {ms ms' : List MatchStore} (h : ms.map (·.fight) = ms'.map (·.fight)) :
    fights ms = fights ms' := by
  have hmem : ∀ (ms : List MatchStore) id x, x ∈ fights ms id ↔
      ∃ b ∈ ms.map (·.fight), (b.players.white = some id ∨ b.players.blue = some id) ∧ b.combinedId = x := by
    intro ms id x
    simp only [mem_fights, MatchStore.has_iff, List.mem_map]
    constructor
    · rintro ⟨m, hm, hhas, hx⟩
      exact ⟨m.fight, ⟨m, hm, rfl⟩, hhas, hx⟩
    · rintro ⟨_, ⟨m, hm, rfl⟩, hhas, hx⟩
      exact ⟨m, hm, hhas, hx⟩
  funext id
  ext x
  rw [hmem, hmem, h]

/-- Both ends of the cross references agree and lead to what exists; the matches of a category are
between its players, and so are those that its draw system will fill, but for the categories in
`off`. -/
structure LinkedOff (off : CategoryId → Prop) (t : TournamentStore) : Prop where
  member : ∀ cid pid p, t.players pid = some p →
    (cid ∈ p.categories ↔ ∃ c, t.categories cid = some c ∧ pid ∈ c.players)
  members_exist : ∀ cid c pid, t.categories cid = some c → pid ∈ c.players → t.players pid ≠ none
  fight : ∀ x pid p, t.players pid = some p → (x ∈ p.matchIds ↔
    ∃ c m, t.categories x.categoryId = some c ∧ m ∈ c.matchList ∧ m.combinedId = x ∧ m.Has pid)
  fighters_exist : ∀ cid c m pid, t.categories cid = some c → m ∈ c.matchList → m.Has pid →
    t.players pid ≠ none
  distinct : ∀ cid c m pid, t.categories cid = some c → m ∈ c.matchList →
    ¬ (m.players.white = some pid ∧ m.players.blue = some pid)
  within : ∀ cid c m pid, ¬ off cid → t.categories cid = some c → m ∈ c.matchList → m.Has pid →
    pid ∈ c.players
  roster : ∀ cid c pid, ¬ off cid → t.categories cid = some c → pid ∈ c.drawSystem.rosterPlayers →
    pid ∈ c.players

/-- The cross references agree. -/
abbrev TournamentStore.Linked (t : TournamentStore) : Prop := LinkedOff (fun _ => False) t

theorem LinkedOff.mono {off off' : CategoryId → Prop} {t : TournamentStore} (h : LinkedOff off t)
    (hsub : ∀ id, t.categories id ≠ none → off id → off' id) : LinkedOff off' t :=
  { h with
    within := fun cid c m pid hcid hc => h.within cid c m pid (fun hoff => hcid (hsub cid (by simp [hc]) hoff)) hc
    roster := fun cid c pid hcid hc => h.roster cid c pid (fun hoff => hcid (hsub cid (by simp [hc]) hoff)) hc }

/-- What `LinkedOff` reads. -/
def TournamentStore.links : TournamentStore → (PlayerId → Option (Finset CategoryId × Finset CombinedId)) ×
    (CategoryId → Option (Finset PlayerId × List Fight × DrawSystem)) :=
  project (fun p => (p.categories, p.matchIds)) fun c => (c.players, c.matchList.map (·.fight), c.drawSystem)

theorem MatchStore.has_of_fight {m m' : MatchStore} (h : m'.fight = m.fight) {pid : PlayerId} :
    m'.Has pid ↔ m.Has pid := by
  have hplayers : m'.players = m.players := congrArg Fight.players h
  rw [has_iff, has_iff, hplayers]

theorem LinkedOff.of_links {off : CategoryId → Prop} {t t' : TournamentStore} (h : LinkedOff off t)
    (hlinks : t'.links = t.links) : LinkedOff off t' := by
  have hplayer : ∀ pid p', t'.players pid = some p' → ∃ p, t.players pid = some p ∧
      p.categories = p'.categories ∧ p.matchIds = p'.matchIds := by
    intro pid p' hp'
    have heq := players_of_project hlinks pid
    rw [hp', Option.map_some, eq_comm, Option.map_eq_some_iff] at heq
    obtain ⟨p, hp, heq⟩ := heq
    exact ⟨p, hp, Prod.mk.inj heq⟩
  have hnone : ∀ pid, t'.players pid = none ↔ t.players pid = none := by
    intro pid
    have heq := players_of_project hlinks pid
    cases hp : t.players pid <;> cases hp' : t'.players pid <;> simp_all
  have hcategory : ∀ cid c', t'.categories cid = some c' → ∃ c, t.categories cid = some c ∧
      c.players = c'.players ∧ c.matchList.map (·.fight) = c'.matchList.map (·.fight) ∧
      c.drawSystem = c'.drawSystem := by
    intro cid c' hc'
    have heq := categories_of_project hlinks cid
    rw [hc', Option.map_some, eq_comm, Option.map_eq_some_iff] at heq
    obtain ⟨c, hc, heq⟩ := heq
    simp only [Prod.mk.injEq] at heq
    exact ⟨c, hc, heq⟩
  have hcategory' : ∀ cid c, t.categories cid = some c → ∃ c', t'.categories cid = some c' ∧
      c'.players = c.players ∧ c'.matchList.map (·.fight) = c.matchList.map (·.fight) := by
    intro cid c hc
    have heq := categories_of_project hlinks cid
    rw [hc, Option.map_some, Option.map_eq_some_iff] at heq
    obtain ⟨c', hc', heq⟩ := heq
    simp only [Prod.mk.injEq] at heq
    exact ⟨c', hc', heq.1, heq.2.1⟩
  have hmatch : ∀ {c c' : CategoryStore} {m : MatchStore}, m ∈ c.matchList →
      c'.matchList.map (·.fight) = c.matchList.map (·.fight) → ∃ m' ∈ c'.matchList, m'.fight = m.fight := by
    intro c c' m hm hlist
    have hmem : m.fight ∈ c'.matchList.map (·.fight) := by
      rw [hlist]
      exact List.mem_map_of_mem hm
    obtain ⟨m', hm', heq⟩ := List.mem_map.1 hmem
    exact ⟨m', hm', heq⟩
  refine ⟨fun cid pid p' hp' => ?_, fun cid c' pid hc' hpid => ?_, fun x pid p' hp' => ?_,
    fun cid c' m' pid hc' hm' hhas => ?_, fun cid c' m' pid hc' hm' => ?_,
    fun cid c' m' pid hoff hc' hm' hhas => ?_, fun cid c' pid hoff hc' hpid => ?_⟩
  · obtain ⟨p, hp, hcategories, -⟩ := hplayer pid p' hp'
    rw [← hcategories, h.member cid pid p hp]
    constructor
    · rintro ⟨c, hc, hpid⟩
      obtain ⟨c', hc', hplayers, -⟩ := hcategory' cid c hc
      exact ⟨c', hc', by rwa [hplayers]⟩
    · rintro ⟨c', hc', hpid⟩
      obtain ⟨c, hc, hplayers, -⟩ := hcategory cid c' hc'
      exact ⟨c, hc, by rwa [hplayers]⟩
  · obtain ⟨c, hc, hplayers, -⟩ := hcategory cid c' hc'
    rw [ne_eq, hnone]
    exact h.members_exist cid c pid hc (by rwa [hplayers])
  · obtain ⟨p, hp, -, hmatchIds⟩ := hplayer pid p' hp'
    rw [← hmatchIds, h.fight x pid p hp]
    constructor
    · rintro ⟨c, m, hc, hm, hid, hhas⟩
      obtain ⟨c', hc', -, hlist⟩ := hcategory' _ c hc
      obtain ⟨m', hm', hfight⟩ := hmatch hm hlist
      have hid' : m'.combinedId = m.combinedId := congrArg Fight.combinedId hfight
      exact ⟨c', m', hc', hm', hid'.trans hid, (MatchStore.has_of_fight hfight).2 hhas⟩
    · rintro ⟨c', m', hc', hm', hid, hhas⟩
      obtain ⟨c, hc, -, hlist, -⟩ := hcategory _ c' hc'
      obtain ⟨m, hm, hfight⟩ := hmatch hm' hlist
      have hid' : m.combinedId = m'.combinedId := congrArg Fight.combinedId hfight
      exact ⟨c, m, hc, hm, hid'.trans hid, (MatchStore.has_of_fight hfight).2 hhas⟩
  · obtain ⟨c, hc, -, hlist, -⟩ := hcategory cid c' hc'
    obtain ⟨m, hm, hfight⟩ := hmatch hm' hlist
    rw [ne_eq, hnone]
    exact h.fighters_exist cid c m pid hc hm ((MatchStore.has_of_fight hfight).2 hhas)
  · obtain ⟨c, hc, -, hlist, -⟩ := hcategory cid c' hc'
    obtain ⟨m, hm, hfight⟩ := hmatch hm' hlist
    rw [show m'.players = m.players from (congrArg Fight.players hfight).symm]
    exact h.distinct cid c m pid hc hm
  · obtain ⟨c, hc, hplayers, hlist, -⟩ := hcategory cid c' hc'
    obtain ⟨m, hm, hfight⟩ := hmatch hm' hlist
    rw [← hplayers]
    exact h.within cid c m pid hoff hc hm ((MatchStore.has_of_fight hfight).2 hhas)
  · obtain ⟨c, hc, hplayers, -, hdrawSystem⟩ := hcategory cid c' hc'
    rw [← hplayers]
    exact h.roster cid c pid hoff hc (by rwa [hdrawSystem])

/-! ### Sets of matches -/

namespace TournamentStore

variable {t : TournamentStore} {S S' : PlayerId → Finset CombinedId}

theorem engage_congr (h : ∀ id, t.players id ≠ none → S id = S' id) : t.engage S = t.engage S' := by
  unfold engage
  congr 1
  funext id
  cases hp : t.players id with
  | none => rfl
  | some p => rw [Option.map_some, Option.map_some, h id (by simp [hp])]

theorem disengage_congr (h : ∀ id, t.players id ≠ none → S id = S' id) : t.disengage S = t.disengage S' := by
  unfold disengage
  congr 1
  funext id
  cases hp : t.players id with
  | none => rfl
  | some p => rw [Option.map_some, Option.map_some, h id (by simp [hp])]

theorem setCategory_engage (id : CategoryId) (c : CategoryStore) :
    (t.setCategory id c).engage S = (t.engage S).setCategory id c := rfl

theorem setCategory_disengage (id : CategoryId) (c : CategoryStore) :
    (t.setCategory id c).disengage S = (t.disengage S).setCategory id c := rfl

/-- The sets of the players who exist have nothing of what is to be put in. -/
def Room (t : TournamentStore) (S : PlayerId → Finset CombinedId) : Prop :=
  ∀ id p, t.players id = some p → Disjoint (S id) p.matchIds

theorem Room.of_engage (h : (t.engage S).Room S') (h' : t.Room S) : t.Room fun id => S id ∪ S' id := by
  intro id p hp
  have hS := h' id p hp
  have hS' := h id _ (show (t.engage S).players id = some { p with matchIds := p.matchIds ∪ S id } by
    show Option.map _ (t.players id) = _
    rw [hp]
    rfl)
  rw [Finset.disjoint_union_left]
  exact ⟨hS, (Finset.disjoint_union_right.1 hS').1⟩

end TournamentStore

/-! ### Loops over the matches of a draw -/

namespace AddMatchAction

variable {t t' : TournamentStore} {a : AddMatchAction}

/-- The two ids of the action name the players of the match, as far as they exist. -/
theorem fights_toMatch {id : PlayerId} (hid : t.players id ≠ none) :
    fights [a.toMatch t] id = single a.combinedId a.whitePlayerId id ∪ single a.combinedId a.bluePlayerId id := by
  rw [fights_singleton]
  have hsingle : ∀ player : Option PlayerId, single a.combinedId (existing t player) id =
      single a.combinedId player id := by
    intro player
    unfold single
    simp only [existing_eq_some, hid, not_false_eq_true, ne_eq, and_true]
  show single a.combinedId (existing t a.whitePlayerId) id ∪ single a.combinedId (existing t a.bluePlayerId) id = _
  rw [hsingle, hsingle]

theorem existing_congr {s : TournamentStore} (h : ∀ id, s.players id = none ↔ t.players id = none)
    (player : Option PlayerId) : existing s player = existing t player := by
  cases player with
  | none => rfl
  | some id =>
    unfold existing TournamentStore.containsPlayer
    have hiff := h id
    cases hs : s.players id <;> cases ht : t.players id <;> simp_all

theorem toMatch_congr {s : TournamentStore} (h : ∀ id, s.players id = none ↔ t.players id = none)
    (a : AddMatchAction) : a.toMatch s = a.toMatch t := by
  unfold toMatch
  rw [existing_congr h, existing_congr h]

/-- Putting a match into the sets of its players, as far as they exist. -/
theorem engageExisting_eq {x : CombinedId} {white blue : Option PlayerId}
    (hroom : t.Room fun id => single x white id ∪ single x blue id)
    (hdistinct : ∀ id, ¬ (white = some id ∧ blue = some id)) :
    (do
      addTo x (existing t white)
      addTo x (existing t blue) : Exec Unit) t =
      .ok () (t.engage fun id => single x white id ∪ single x blue id) := by
  have hdomain : ∀ {s : TournamentStore}, (∀ id, s.players id = none ↔ t.players id = none) →
      ∀ player : Option PlayerId, s.engage (single x (existing t player)) = s.engage (single x player) := by
    intro s hs player
    refine engage_congr fun id hid => ?_
    unfold single
    have hne : t.players id ≠ none := fun hnone => hid ((hs id).2 hnone)
    simp only [existing_eq_some, hne, not_false_eq_true, ne_eq, and_true]
  refine bind_ok.2 ⟨(), _, addTo_ok.2 ⟨fun id hid => ?_, rfl⟩, addTo_ok.2 ⟨fun id hid => ?_, ?_⟩⟩
  · obtain ⟨hwhite, hne⟩ := existing_eq_some.1 hid
    obtain ⟨p, hp⟩ := Option.ne_none_iff_exists'.1 hne
    have hx : x ∈ single x white id ∪ single x blue id := Finset.mem_union_left _ (by simp [single, hwhite])
    exact ⟨p, hp, fun hmem => Finset.disjoint_left.1 (hroom id p hp) hx hmem⟩
  · obtain ⟨hblue, hne⟩ := existing_eq_some.1 hid
    obtain ⟨p, hp⟩ := Option.ne_none_iff_exists'.1 hne
    refine ⟨_, by show Option.map _ (t.players id) = _; rw [hp]; rfl, fun hmem => ?_⟩
    rcases Finset.mem_union.1 hmem with hmem | hmem
    · have hx : x ∈ single x white id ∪ single x blue id := Finset.mem_union_right _ (by simp [single, hblue])
      exact Finset.disjoint_left.1 (hroom id p hp) hx hmem
    · unfold single at hmem
      split at hmem
      · next hwhite => exact hdistinct id ⟨(existing_eq_some.1 hwhite).1, hblue⟩
      · cases hmem
  · rw [hdomain (fun _ => players_engage_eq_none) blue, hdomain (fun _ => Iff.rfl) white, engage_engage]

end AddMatchAction

namespace DrawCategoriesAction

variable {t t' : TournamentStore}

theorem releasePlayers_eq (m : MatchStore) :
    releasePlayers m.combinedId m t = .ok () (t.disengage (fights [m])) := by
  have hfights : fights [m] = fun id => single m.combinedId m.players.white id ∪
      single m.combinedId m.players.blue id := funext fun id => fights_singleton m id
  have hrelease := (eraseBoth_ok (t := t) (x := m.combinedId) (w := m.players.white)
    (b := m.players.blue) (f := fun _ => pure ()) (u := ())).2 (pure_ok.2 ⟨rfl, rfl⟩)
  rw [← hfights] at hrelease
  obtain ⟨_, t₁, h₁, h₂⟩ := bind_ok.1 hrelease
  obtain ⟨_, t₂, h₂, h₃⟩ := bind_ok.1 h₂
  obtain ⟨-, rfl⟩ := pure_ok.1 h₃
  exact bind_ok.2 ⟨t, t, get_ok.2 ⟨rfl, rfl⟩, bind_ok.2 ⟨_, t₁, h₁, h₂⟩⟩

/-- The matches leave the sets of their players. -/
theorem releaseAll_ok {id : CategoryId} {ms : List MatchStore} (hms : ∀ m ∈ ms, m.combinedId.categoryId = id)
    {us : List Unit} (h : forEach (fun m => releasePlayers ⟨id, m.id⟩ m) ms t = .ok us t') :
    t' = t.disengage (fights ms) := by
  induction ms generalizing t us with
  | nil =>
    obtain ⟨-, rfl⟩ := forEach_nil_ok.1 h
    rw [show fights [] = fun _ => ∅ from rfl, disengage_empty]
  | cons m ms ih =>
    obtain ⟨_, t₁, us', h₁, h₂, rfl⟩ := forEach_cons_ok.1 h
    have hm : (⟨id, m.id⟩ : CombinedId) = m.combinedId := by
      rw [← hms m List.mem_cons_self]
      rfl
    rw [hm, releasePlayers_eq] at h₁
    cases h₁
    rw [ih (fun m hm => hms m (List.mem_cons_of_mem _ hm)) h₂, disengage_disengage]
    congr 1
    funext pid
    exact (fights_cons m ms pid).symm

end DrawCategoriesAction

/-- The categories differ only in the list of the matches and its index. -/
def CategoryStore.SameButList (c c' : CategoryStore) : Prop :=
  c' = { c with
    matchList := c'.matchList
    matchMap := c'.matchMap
    matchCount := c'.matchCount }

theorem CategoryStore.SameButList.trans {c c' c'' : CategoryStore} (h : c.SameButList c')
    (h' : c'.SameButList c'') : c.SameButList c'' := by
  unfold SameButList at *
  rw [h', h]

namespace AddMatchAction

variable {t t' : TournamentStore} {id : CategoryId} {players : List PlayerId}

/-- What adding matches to a category does to the tournament and the category. -/
structure Adds (t : TournamentStore) (id : CategoryId) (c : CategoryStore) (ms : List MatchStore)
    (t' : TournamentStore) (c' : CategoryStore) : Prop where
  tournament : t' = (t.engage (fights ms)).setCategory id c'
  same : c.SameButList c'
  indexed : c'.Indexed
  matchList : c'.matchList = c.matchList ++ ms
  room : t.Room (fights ms)
  exist : ∀ m ∈ ms, ∀ pid, m.Has pid → t.players pid ≠ none
  distinct : ∀ m ∈ ms, ∀ pid, ¬ (m.players.white = some pid ∧ m.players.blue = some pid)

theorem has_toMatch {a : AddMatchAction} {pid : PlayerId} (h : (a.toMatch t).Has pid) :
    (a.whitePlayerId = some pid ∨ a.bluePlayerId = some pid) ∧ t.players pid ≠ none := by
  rcases MatchStore.has_iff.1 h with h | h
  · obtain ⟨hwhite, hne⟩ := existing_eq_some.1 h
    exact ⟨.inl hwhite, hne⟩
  · obtain ⟨hblue, hne⟩ := existing_eq_some.1 h
    exact ⟨.inr hblue, hne⟩

/-- The matches of a draw are added to the category, with its players. -/
theorem redoAll_ok {as : List AddMatchAction} (has : ∀ a ∈ as, a.Among id players) {c : CategoryStore}
    (hc : t.categories id = some c) (hid : c.id = id) (hindexed : c.Indexed) {us : List Unit}
    (h : forEach AddMatchAction.redoImpl as t = .ok us t') :
    ∃ c', Adds t id c (as.map (·.toMatch t)) t' c' := by
  induction as generalizing t us c with
  | nil =>
    obtain ⟨-, rfl⟩ := forEach_nil_ok.1 h
    have hself : t'.setCategory id c = t' := by
      unfold setCategory
      rw [← hc, Function.update_eq_self]
    refine ⟨c, ⟨?_, rfl, hindexed, by simp, fun id p _ => ?_, by simp, by simp⟩⟩
    · rw [List.map_nil, show fights [] = fun _ => ∅ from rfl, engage_empty, hself]
    · exact Finset.disjoint_empty_left _
  | cons a as ih =>
    obtain ⟨_, t₁, us', h₁, h₂, rfl⟩ := forEach_cons_ok.1 h
    have hamong := has a List.mem_cons_self
    have hc₀ : t.categories a.combinedId.categoryId = some c := by rw [hamong.categoryId]; exact hc
    obtain ⟨c₁, hpush, hfresh, rfl⟩ := redoImpl_ok hc₀ h₁
    obtain ⟨-, hc₁⟩ := CategoryStore.pushMatch_ok hpush
    have hindexed₁ : c₁.Indexed := hindexed.pushMatch (by rw [hid]; exact hamong.categoryId) hamong.bye hpush
    have hplayers : ∀ pid, ((t.engage (fights [a.toMatch t])).setCategory a.combinedId.categoryId c₁).players pid =
        none ↔ t.players pid = none := fun pid => players_engage_eq_none
    have hmatches : as.map (·.toMatch ((t.engage (fights [a.toMatch t])).setCategory
        a.combinedId.categoryId c₁)) = as.map (·.toMatch t) :=
      List.map_congr_left fun b _ => toMatch_congr hplayers b
    have hsame₁ : c.SameButList c₁ := by rw [hc₁]; rfl
    obtain ⟨c', hadds⟩ := ih (fun b hb => has b (List.mem_cons_of_mem _ hb)) (c := c₁)
      (by rw [hamong.categoryId]; exact categories_setCategory_self _ _ _)
      (by rw [hsame₁]; exact hid) hindexed₁ h₂
    rw [hmatches] at hadds
    have hfights : (fun pid => fights [a.toMatch t] pid ∪ fights (as.map (·.toMatch t)) pid) =
        fights ((a :: as).map (·.toMatch t)) := funext fun pid => (fights_cons _ _ pid).symm
    refine ⟨c', ⟨?_, hsame₁.trans hadds.same, hadds.indexed, ?_, ?_, ?_, ?_⟩⟩
    · rw [hadds.tournament, setCategory_engage, engage_engage, hfights, hamong.categoryId,
        setCategory_setCategory]
    · rw [hadds.matchList, hc₁, List.map_cons]
      simp
    · rw [← hfights]
      refine Room.of_engage hadds.room fun pid p hp => ?_
      rw [Finset.disjoint_left]
      intro x hx hmem
      obtain ⟨m, hm, hhas, rfl⟩ := mem_fights.1 hx
      obtain rfl := List.mem_singleton.1 hm
      obtain ⟨q, hq, hnot⟩ := hfresh.room pid hhas
      cases hp.symm.trans hq
      exact hnot hmem
    · rw [List.map_cons, List.forall_mem_cons]
      exact ⟨fun pid hhas => (has_toMatch hhas).2, fun m hm pid hhas hnone =>
        hadds.exist m hm pid hhas (players_engage_eq_none.2 hnone)⟩
    · rw [List.map_cons, List.forall_mem_cons]
      exact ⟨hfresh.distinct, hadds.distinct⟩

/-- Taking the last matches of a category back. -/
structure Takes (t : TournamentStore) (id : CategoryId) (c : CategoryStore) (ms : List MatchStore)
    (kept : List MatchStore) (t' : TournamentStore) (c' : CategoryStore) : Prop where
  tournament : t' = (t.disengage (fights ms)).setCategory id c'
  same : c.SameButList c'
  indexed : c'.Indexed
  matchList : c'.matchList = kept

/-- As many matches as were added are taken back, and the players that they were added with. -/
theorem undoAll_ok {as : List AddMatchAction} (has : ∀ a ∈ as, a.Among id players) {c : CategoryStore}
    (hc : t.categories id = some c) (hindexed : c.Indexed) {kept rest : List MatchStore}
    (hlist : c.matchList = kept ++ rest) (hlength : rest.length = as.length) :
    ∃ us t' c', forEach AddMatchAction.undoImpl as t = .ok us t' ∧
      Takes t id c (as.map (·.toMatch t)) kept t' c' := by
  induction as generalizing t c rest with
  | nil =>
    obtain rfl := List.length_eq_zero_iff.1 hlength
    have hself : t.setCategory id c = t := by
      unfold setCategory
      rw [← hc, Function.update_eq_self]
    refine ⟨[], t, c, forEach_nil_ok.2 ⟨rfl, rfl⟩, ⟨?_, rfl, hindexed, by rw [hlist, List.append_nil]⟩⟩
    rw [List.map_nil, show fights [] = fun _ => ∅ from rfl, disengage_empty, hself]
  | cons a as ih =>
    obtain ⟨ms, m, rfl⟩ := List.eq_nil_or_concat rest |>.resolve_left (by rintro rfl; simp at hlength)
    have hamong := has a List.mem_cons_self
    have hlast : c.matchList.getLast? = some m := by rw [hlist]; simp
    obtain ⟨c₁, hpop⟩ : ∃ c₁, c.popMatch = .ok c₁ := by
      unfold CategoryStore.popMatch
      rw [hlast]
      exact ⟨_, rfl⟩
    obtain ⟨_, -, hc₁⟩ := CategoryStore.popMatch_ok hpop
    have hlist₁ : c₁.matchList = kept ++ ms := by
      rw [hc₁]
      show c.matchList.dropLast = _
      rw [hlist, List.concat_eq_append, ← List.append_assoc, List.dropLast_concat]
    have hc₀ : t.categories a.combinedId.categoryId = some c := by rw [hamong.categoryId]; exact hc
    have hundo := (undoImpl_ok (a := a) (u := ()) hc₀).2 ⟨c₁, hpop, rfl⟩
    have hfights : (t.disengage fun pid => single a.combinedId a.whitePlayerId pid ∪
        single a.combinedId a.bluePlayerId pid) = t.disengage (fights [a.toMatch t]) :=
      disengage_congr fun pid hpid => (fights_toMatch hpid).symm
    rw [hfights, hamong.categoryId] at hundo
    have hplayers : ∀ pid, ((t.disengage (fights [a.toMatch t])).setCategory id c₁).players pid = none ↔
        t.players pid = none := fun pid => players_disengage_eq_none
    have hmatches : as.map (·.toMatch ((t.disengage (fights [a.toMatch t])).setCategory id c₁)) =
        as.map (·.toMatch t) := List.map_congr_left fun b _ => toMatch_congr hplayers b
    have hsame₁ : c.SameButList c₁ := by rw [hc₁]; rfl
    obtain ⟨us, t', c', hus, htakes⟩ := ih (fun b hb => has b (List.mem_cons_of_mem _ hb)) (c := c₁)
      (categories_setCategory_self _ _ _) (hindexed.popMatch hpop) hlist₁ (by simpa using hlength)
    rw [hmatches] at htakes
    refine ⟨() :: us, t', c', forEach_cons_ok.2 ⟨(), _, us, hundo, hus, rfl⟩,
      ⟨?_, hsame₁.trans htakes.same, htakes.indexed, htakes.matchList⟩⟩
    rw [htakes.tournament, setCategory_disengage, disengage_disengage, setCategory_setCategory]
    congr 2
    funext pid
    exact (fights_cons _ _ pid).symm

end AddMatchAction

namespace DrawCategoriesAction

variable {t t' : TournamentStore} {id : CategoryId}

theorem engagePlayers_eq {m : MatchStore} (hroom : t.Room (fights [m]))
    (hdistinct : ∀ pid, ¬ (m.players.white = some pid ∧ m.players.blue = some pid)) :
    engagePlayers m t = .ok () (t.engage (fights [m])) := by
  have hfights : fights [m] = fun id => single m.combinedId m.players.white id ∪
      single m.combinedId m.players.blue id := funext fun id => fights_singleton m id
  rw [hfights] at hroom ⊢
  exact bind_ok.2 ⟨t, t, get_ok.2 ⟨rfl, rfl⟩, engageExisting_eq hroom hdistinct⟩

/-- Putting the kept matches back into a category that has none of their ids. -/
theorem pushAll_ok {ms : List MatchStore} {c : CategoryStore} (hc : t.categories id = some c)
    (hid : c.id = id) (hindexed : c.Indexed) (hroom : t.Room (fights ms))
    (hdistinct : ∀ m ∈ ms, ∀ pid, ¬ (m.players.white = some pid ∧ m.players.blue = some pid))
    (hids : ∀ m ∈ ms, m.combinedId.categoryId = id ∧ m.permanentBye = false)
    (hnodup : ((c.matchList ++ ms).map (·.id)).Nodup) :
    ∃ us t' c', forEach (fun m => do
        engagePlayers m
        editCategory id (·.pushMatch m)) ms t = .ok us t' ∧
      t' = (t.engage (fights ms)).setCategory id c' ∧ c.SameButList c' ∧ c'.Indexed ∧
      c'.matchList = c.matchList ++ ms := by
  induction ms generalizing t c with
  | nil =>
    have hself : t.setCategory id c = t := by
      unfold setCategory
      rw [← hc, Function.update_eq_self]
    refine ⟨[], t, c, forEach_nil_ok.2 ⟨rfl, rfl⟩, ?_, rfl, hindexed, by simp⟩
    rw [show fights [] = fun _ => ∅ from rfl, engage_empty, hself]
  | cons m ms ih =>
    have hfights : (fun pid => fights [m] pid ∪ fights ms pid) = fights (m :: ms) :=
      funext fun pid => (fights_cons m ms pid).symm
    have hnew : c.matchMap m.id = none := by
      by_contra hne
      obtain ⟨i, hi⟩ := Option.ne_none_iff_exists'.1 hne
      obtain ⟨n, hn, hnid⟩ := Option.map_eq_some_iff.1 ((hindexed.map m.id i).1 hi)
      rw [List.map_append, List.nodup_append] at hnodup
      exact hnodup.2.2 n.id (List.mem_map_of_mem (List.mem_of_getElem? hn)) m.id (by simp) hnid
    obtain ⟨c₁, hpush⟩ : ∃ c₁, c.pushMatch m = .ok c₁ :=
      ⟨_, except_bind_ok.2 ⟨(), check_ok.2 (by rw [hnew]; rfl), rfl⟩⟩
    obtain ⟨-, hc₁⟩ := CategoryStore.pushMatch_ok hpush
    have hsame₁ : c.SameButList c₁ := by rw [hc₁]; rfl
    have hlist₁ : c₁.matchList = c.matchList ++ [m] := by rw [hc₁]
    have hm := hids m List.mem_cons_self
    have hroom₁ : t.Room (fights [m]) := fun pid p hp => by
      have := hroom pid p hp
      rw [fights_cons, Finset.disjoint_union_left] at this
      exact this.1
    have hroom₂ : ((t.engage (fights [m])).setCategory id c₁).Room (fights ms) := by
      intro pid q hq
      obtain ⟨p, hp, rfl⟩ := Option.map_eq_some_iff.1 (show Option.map _ (t.players pid) = some q from hq)
      have hboth := hroom pid p hp
      rw [fights_cons, Finset.disjoint_union_left] at hboth
      rw [Finset.disjoint_union_right]
      refine ⟨hboth.2, ?_⟩
      rw [Finset.disjoint_left]
      intro x hx hx'
      obtain ⟨n, hn, -, rfl⟩ := mem_fights.1 hx
      obtain ⟨n', hn', -, heq⟩ := mem_fights.1 hx'
      obtain rfl := List.mem_singleton.1 hn'
      rw [List.map_append, List.nodup_append, List.map_cons, List.nodup_cons] at hnodup
      exact hnodup.2.1.1 (List.mem_map.2 ⟨n, hn, (congrArg CombinedId.matchId heq).symm⟩)
    have hstep : (do
        engagePlayers m
        editCategory id (·.pushMatch m) : Exec Unit) t =
        .ok () ((t.engage (fights [m])).setCategory id c₁) :=
      bind_ok.2 ⟨(), _, engagePlayers_eq hroom₁ (hdistinct m List.mem_cons_self),
        editCategory_ok.2 ⟨c, c₁, hc, hpush, rfl⟩⟩
    obtain ⟨us, t', c', hus, ht', hsame, hindexed', hlist⟩ := ih (c := c₁) (categories_setCategory_self _ _ _)
      (by rw [hsame₁]; exact hid) (hindexed.pushMatch (hm.1.trans hid.symm) hm.2 hpush) hroom₂
      (fun m hm => hdistinct m (List.mem_cons_of_mem _ hm)) (fun m hm => hids m (List.mem_cons_of_mem _ hm))
      (by rw [hlist₁, List.append_assoc]; exact hnodup)
    refine ⟨() :: us, t', c', forEach_cons_ok.2 ⟨(), _, us, hstep, hus, rfl⟩, ?_, hsame₁.trans hsame,
      hindexed', by rw [hlist, hlist₁, List.append_assoc]; rfl⟩
    rw [ht', setCategory_engage, engage_engage, hfights, setCategory_setCategory]

end DrawCategoriesAction

/-! ### The draw of a category -/

/-- The categories differ only in the matches, what counts them and the draw system. -/
def CategoryStore.SameButBouts (c c' : CategoryStore) : Prop :=
  c' = { c with
    matchList := c'.matchList
    matchMap := c'.matchMap
    matchCount := c'.matchCount
    status := c'.status
    drawSystem := c'.drawSystem }

namespace DrawCategoriesAction

variable {t t' : TournamentStore} {id : CategoryId} {d : DrawnCategory}

/-- What the draw of a category does to the tournament and the category. -/
structure Draws (t : TournamentStore) (id : CategoryId) (d : DrawnCategory) (t' : TournamentStore)
    (c c' : CategoryStore) (ms : List MatchStore) : Prop where
  category : t.categories id = some c
  tournament : t' = ((t.disengage (fights c.matchList)).engage (fights ms)).setCategory id c'
  same : c.SameButBouts c'
  indexed : c'.Indexed
  matchList : c'.matchList = ms
  room : (t.disengage (fights c.matchList)).Room (fights ms)
  within : ∀ m ∈ ms, ∀ pid, m.Has pid → pid ∈ c.players
  exist : ∀ m ∈ ms, ∀ pid, m.Has pid → t.players pid ≠ none
  distinct : ∀ m ∈ ms, ∀ pid, ¬ (m.players.white = some pid ∧ m.players.blue = some pid)
  roster : ∀ pid ∈ c'.drawSystem.rosterPlayers, pid ∈ c.players
  ids : ∀ m ∈ ms, m.combinedId.categoryId = id
  drawn : ∃ actions, d = ⟨id, c.matchList, actions, c.drawSystem, c.status⟩ ∧
    ms = actions.map (·.toMatch t) ∧ ∀ a ∈ actions, a.Among id (inOrder c.players)

theorem drawCategory_draws {seed : ℕ} (ht : t.Indexed) (h : drawCategory seed id t = .ok d t') :
    ∃ c c' ms, Draws t id d t' c c' ms := by
  obtain ⟨c, us, t₁, drawSystem, actions, us', t₂, c₂, hc, hus, -, hinit, hus', hc₂, rfl, rfl⟩ :=
    drawCategory_ok h
  have hid := ht.category id c hc
  have hold : ∀ m ∈ c.matchList, m.combinedId.categoryId = id := fun m hm => ((ht.index id c hc).ids m hm).trans hid
  obtain rfl := releaseAll_ok hold hus
  obtain ⟨hamong, hroster⟩ := DrawSystem.among_initCategory hinit
  have hamong' : ∀ a ∈ actions, a.Among id (inOrder c.players) := by
    intro a ha
    have := hamong a ha
    rwa [show c.clearMatches.id = id from hid] at this
  have hclear : (c.clearMatches.setDrawSystem drawSystem).Indexed :=
    (CategoryStore.indexed_clearMatches c).of_eq rfl rfl rfl rfl
  obtain ⟨c', hadds⟩ := AddMatchAction.redoAll_ok hamong' (c := c.clearMatches.setDrawSystem drawSystem)
    (categories_setCategory_self _ _ _) hid hclear hus'
  have hplayers : ∀ pid, ((t.disengage (fights c.matchList)).setCategory id
      (c.clearMatches.setDrawSystem drawSystem)).players pid = none ↔ t.players pid = none :=
    fun pid => players_disengage_eq_none
  have hmatches : actions.map (·.toMatch ((t.disengage (fights c.matchList)).setCategory id
      (c.clearMatches.setDrawSystem drawSystem))) = actions.map (·.toMatch t) :=
    List.map_congr_left fun b _ => AddMatchAction.toMatch_congr hplayers b
  rw [hmatches] at hadds
  have hc' : c₂ = c' := by
    rw [hadds.tournament, categories_setCategory_self] at hc₂
    exact (Option.some.inj hc₂).symm
  subst hc'
  have hlist : c₂.matchList = actions.map (·.toMatch t) := by
    rw [hadds.matchList]
    rfl
  have hmem : ∀ m ∈ actions.map (·.toMatch t), ∀ pid, m.Has pid → pid ∈ c.players := by
    intro m hm pid hhas
    obtain ⟨a, ha, rfl⟩ := List.mem_map.1 hm
    obtain ⟨hplayer, -⟩ := AddMatchAction.has_toMatch hhas
    rcases hplayer with hplayer | hplayer
    · exact mem_inOrder.1 ((hamong' a ha).white pid hplayer)
    · exact mem_inOrder.1 ((hamong' a ha).blue pid hplayer)
  refine ⟨c, { c₂ with status := computeStatus c₂.matchList }, actions.map (·.toMatch t),
    ⟨hc, ?_, ?_, ?_, hlist, ?_, hmem, ?_, hadds.distinct, ?_, ?_, actions, rfl, rfl, hamong'⟩⟩
  · rw [hadds.tournament, setCategory_setCategory, setCategory_engage, setCategory_setCategory]
  · have := hadds.same
    unfold CategoryStore.SameButBouts
    unfold CategoryStore.SameButList at this
    rw [this]
    rfl
  · exact hadds.indexed.of_eq rfl rfl rfl rfl
  · intro pid p hp
    exact hadds.room pid p hp
  · intro m hm pid hhas hnone
    exact hadds.exist m hm pid hhas ((hplayers pid).2 hnone)
  · intro pid hpid
    have hdraw : c₂.drawSystem = drawSystem := by
      rw [hadds.same]
      rfl
    have hpid' : pid ∈ drawSystem.rosterPlayers := by rwa [← hdraw]
    exact mem_inOrder.1 (hroster hpid')
  · intro m hm
    obtain ⟨a, ha, rfl⟩ := List.mem_map.1 hm
    exact (hamong' a ha).categoryId

/-- The matches of a player in the category are in his set. -/
theorem fights_subset {off : CategoryId → Prop} (ht : t.Indexed) (hlinked : LinkedOff off t) {c : CategoryStore}
    (hc : t.categories id = some c) {pid : PlayerId} {p : PlayerStore} (hp : t.players pid = some p) :
    fights c.matchList pid ⊆ p.matchIds := by
  intro x hx
  obtain ⟨m, hm, hhas, rfl⟩ := mem_fights.1 hx
  rw [hlinked.fight _ pid p hp]
  have hid : m.combinedId.categoryId = id := ((ht.index id c hc).ids m hm).trans (ht.category id c hc)
  exact ⟨c, m, by rw [hid]; exact hc, hm, rfl, hhas⟩

/-- The sets of the players after the draw of a category. -/
theorem Draws.matchIds {c c' : CategoryStore} {ms : List MatchStore} (h : Draws t id d t' c c' ms)
    (pid : PlayerId) : (t'.players pid).map (·.matchIds) =
      (t.players pid).map fun p => (p.matchIds \ fights c.matchList pid) ∪ fights ms pid := by
  rw [h.tournament]
  show (Option.map _ (Option.map _ (t.players pid))).map _ = _
  cases t.players pid <;> rfl

/-- The sets of the players after a draw are taken back. -/
theorem Draws.matchIds_back {off : CategoryId → Prop} {c c' : CategoryStore} {ms : List MatchStore}
    (ht : t.Indexed) (hlinked : LinkedOff off t) (h : Draws t id d t' c c' ms) {pid : PlayerId}
    {p : PlayerStore} (hp : t.players pid = some p) :
    ((p.matchIds \ fights c.matchList pid ∪ fights ms pid) \ fights ms pid) = p.matchIds \ fights c.matchList pid ∧
      p.matchIds \ fights c.matchList pid ∪ fights c.matchList pid = p.matchIds := by
  have hroom : Disjoint (fights ms pid) (p.matchIds \ fights c.matchList pid) := h.room pid _ (by
    show Option.map _ (t.players pid) = _
    rw [hp]
    rfl)
  refine ⟨?_, Finset.sdiff_union_of_subset (fights_subset ht hlinked h.category hp)⟩
  rw [Finset.union_sdiff_right, Finset.sdiff_eq_self_of_disjoint hroom.symm]

/-- The category with the matches and the draw system of another one. -/
def withBouts (c c' : CategoryStore) : CategoryStore := { c' with
  matchList := c.matchList
  matchMap := c.matchMap
  matchCount := c.matchCount
  status := c.status
  drawSystem := c.drawSystem }

/-- The recovery of a category returns wherever the players have the sets and the category the fights
that the draw has left, and then restores the matches and the draw system. -/
theorem recoverCategory_draws {off : CategoryId → Prop} {c c' : CategoryStore} {ms : List MatchStore}
    (ht : t.Indexed) (hlinked : LinkedOff off t) (h : Draws t id d t' c c' ms) {u : TournamentStore}
    (hu : u.Indexed) {cu : CategoryStore} (hcu : u.categories id = some cu)
    (hfights : cu.matchList.map (·.fight) = ms.map (·.fight))
    (hplayers : ∀ pid, (u.players pid).map (·.matchIds) = (t'.players pid).map (·.matchIds)) :
    recoverCategory d u = .ok () (((u.disengage (fights ms)).engage (fights c.matchList)).setCategory id
      (withBouts c cu)) := by
  obtain ⟨actions, rfl, hms, hamong⟩ := h.drawn
  have hid := hu.category id cu hcu
  have hdomain : ∀ pid, u.players pid = none ↔ t.players pid = none := by
    intro pid
    have := hplayers pid
    rw [h.matchIds] at this
    cases hup : u.players pid <;> cases htp : t.players pid <;> simp_all
  have hnew : actions.map (·.toMatch u) = ms := by
    rw [hms]
    exact List.map_congr_left fun a _ => AddMatchAction.toMatch_congr hdomain a
  have hlength : cu.matchList.length = actions.reverse.length := by
    have := congrArg List.length hfights
    rw [List.length_map, List.length_map, hms, List.length_map] at this
    rw [this, List.length_reverse]
  obtain ⟨us, u₁, c₁, hus, htakes⟩ := AddMatchAction.undoAll_ok (t := u)
    (fun a ha => hamong a (List.mem_reverse.1 ha)) hcu (hu.index id cu hcu)
    (show cu.matchList = [] ++ cu.matchList from rfl) hlength
  have hrelease : u₁ = (u.disengage (fights ms)).setCategory id c₁ := by
    rw [htakes.tournament, List.map_reverse, hnew]
    congr 2
    funext pid
    ext x
    simp only [mem_fights, List.mem_reverse]
  have hcu₁ : u₁.categories id = some c₁ := by rw [hrelease]; exact categories_setCategory_self _ _ _
  -- The category is empty now, and has its old draw system and counters again.
  have hindexed : ({ c₁.setDrawSystem c.drawSystem with status := c.status } : CategoryStore).Indexed :=
    htakes.indexed.of_eq rfl rfl rfl rfl
  have hold : ∀ m ∈ c.matchList, m.combinedId.categoryId = id ∧ m.permanentBye = false := fun m hm =>
    ⟨((ht.index id c h.category).ids m hm).trans (ht.category id c h.category),
      (ht.index id c h.category).permanentBye m hm⟩
  have hroom : (u₁.setCategory id { c₁.setDrawSystem c.drawSystem with status := c.status }).Room
      (fights c.matchList) := by
    intro pid q hq
    rw [hrelease] at hq
    obtain ⟨pu, hpu, rfl⟩ := Option.map_eq_some_iff.1 (show Option.map _ (u.players pid) = some q from hq)
    obtain ⟨p, hp⟩ := Option.ne_none_iff_exists'.1 fun hnone => by
      rw [(hdomain pid).2 hnone] at hpu
      cases hpu
    have hset := hplayers pid
    rw [h.matchIds, hpu, hp, Option.map_some, Option.map_some, Option.some.injEq] at hset
    show Disjoint _ (pu.matchIds \ fights ms pid)
    rw [hset, (h.matchIds_back ht hlinked hp).1]
    exact Finset.disjoint_sdiff
  obtain ⟨us', u', c₂, hus', hu', hsame, hindexed₂, hlist⟩ := pushAll_ok
    (t := u₁.setCategory id { c₁.setDrawSystem c.drawSystem with status := c.status })
    (categories_setCategory_self _ _ _) (by show c₁.id = id; rw [htakes.same]; exact hid) hindexed hroom
    (fun m hm pid => hlinked.distinct id c m pid h.category hm) hold
    (by rw [show ({ c₁.setDrawSystem c.drawSystem with status := c.status } : CategoryStore).matchList = []
          from htakes.matchList, List.nil_append]
        exact (ht.index id c h.category).nodup_ids)
  have hlist₂ : c₂.matchList = c.matchList := by
    rw [hlist]
    show c₁.matchList ++ c.matchList = _
    rw [htakes.matchList, List.nil_append]
  have hc₂ : c₂ = withBouts c cu := by
    have hmap := (ht.index id c h.category).matchMap_eq hindexed₂ hlist₂
    have hcount := (ht.index id c h.category).matchCount_eq hindexed₂ hlist₂
    unfold CategoryStore.SameButList at hsame
    rw [hsame, hlist₂, hmap, hcount]
    have hsame₁ := htakes.same
    unfold CategoryStore.SameButList at hsame₁
    rw [hsame₁]
    rfl
  have hfinal : u' = ((u.disengage (fights ms)).engage (fights c.matchList)).setCategory id (withBouts c cu) := by
    rw [hu', hrelease, hc₂, setCategory_setCategory, setCategory_engage, setCategory_setCategory]
  rw [← hfinal]
  unfold recoverCategory
  refine bind_ok.2 ⟨cu, u, getCategory_ok.2 ⟨hcu, rfl⟩, bind_ok.2 ⟨us, u₁, hus, ?_⟩⟩
  refine bind_ok.2 ⟨(), _, editCategory_ok.2 ⟨c₁, _, hcu₁, rfl, rfl⟩, ?_⟩
  refine bind_ok.2 ⟨(), _, editCategory_ok.2 ⟨c₁.setDrawSystem c.drawSystem, _,
    categories_setCategory_self _ _ _, rfl, rfl⟩, ?_⟩
  rw [setCategory_setCategory]
  exact bind_ok.2 ⟨us', u', hus', rfl⟩

theorem Draws.players_eq_none {c c' : CategoryStore} {ms : List MatchStore} (h : Draws t id d t' c c' ms)
    (pid : PlayerId) : t'.players pid = none ↔ t.players pid = none := by
  rw [h.tournament]
  exact players_engage_eq_none.trans players_disengage_eq_none

theorem Draws.categories {c c' : CategoryStore} {ms : List MatchStore} (h : Draws t id d t' c c' ms)
    {cid : CategoryId} {e : CategoryStore} (he : t'.categories cid = some e) :
    (cid = id ∧ e = c') ∨ (cid ≠ id ∧ t.categories cid = some e) := by
  rw [h.tournament] at he
  change Function.update t.categories id (some c') cid = some e at he
  by_cases hcid : cid = id
  · subst hcid
    rw [Function.update_self] at he
    exact .inl ⟨rfl, (Option.some.inj he).symm⟩
  · rw [Function.update_of_ne hcid] at he
    exact .inr ⟨hcid, he⟩

/-- The draw of a category brings its matches in line with its players. -/
theorem Draws.linked {off : CategoryId → Prop} {c c' : CategoryStore} {ms : List MatchStore} (ht : t.Indexed)
    (hlinked : LinkedOff off t) (h : Draws t id d t' c c' ms) : LinkedOff (fun i => off i ∧ i ≠ id) t' := by
  have hplayers : c'.players = c.players := by rw [h.same]
  have hid := ht.category id c h.category
  have hkeep : ∀ cid, cid ≠ id → t'.categories cid = t.categories cid := by
    intro cid hcid
    rw [h.tournament]
    exact Function.update_of_ne hcid _ _
  have hself : t'.categories id = some c' := by rw [h.tournament]; exact categories_setCategory_self _ _ _
  have hplayer : ∀ pid p', t'.players pid = some p' → ∃ p, t.players pid = some p ∧
      p' = { p with matchIds := p.matchIds \ fights c.matchList pid ∪ fights ms pid } := by
    intro pid p' hp'
    rw [h.tournament] at hp'
    change Option.map _ (Option.map _ (t.players pid)) = some p' at hp'
    cases hp : t.players pid with
    | none =>
      rw [hp] at hp'
      cases hp'
    | some p =>
      rw [hp] at hp'
      cases hp'
      exact ⟨p, rfl, rfl⟩
  have hfights : ∀ (ms : List MatchStore), (∀ m ∈ ms, m.combinedId.categoryId = id) → ∀ pid x,
      x ∈ fights ms pid → x.categoryId = id := by
    intro ms hms pid x hx
    obtain ⟨m, hm, -, rfl⟩ := mem_fights.1 hx
    exact hms m hm
  have hold : ∀ m ∈ c.matchList, m.combinedId.categoryId = id :=
    fun m hm => ((ht.index id c h.category).ids m hm).trans hid
  refine ⟨fun cid pid p' hp' => ?_, fun cid e pid he hpid hnone => ?_, fun x pid p' hp' => ?_,
    fun cid e m pid he hm hhas hnone => ?_, fun cid e m pid he hm => ?_, fun cid e m pid hoff he hm hhas => ?_,
    fun cid e pid hoff he hpid => ?_⟩
  · obtain ⟨p, hp, rfl⟩ := hplayer pid p' hp'
    rw [show ({ p with matchIds := p.matchIds \ fights c.matchList pid ∪ fights ms pid } :
      PlayerStore).categories = p.categories from rfl, hlinked.member cid pid p hp]
    by_cases hcid : cid = id
    · subst hcid
      rw [hself, h.category]
      simp [hplayers]
    · rw [hkeep cid hcid]
  · obtain ⟨rfl, rfl⟩ | ⟨-, he⟩ := h.categories he
    · rw [hplayers] at hpid
      exact hlinked.members_exist cid c pid h.category hpid ((h.players_eq_none pid).1 hnone)
    · exact hlinked.members_exist cid e pid he hpid ((h.players_eq_none pid).1 hnone)
  · obtain ⟨p, hp, rfl⟩ := hplayer pid p' hp'
    rw [Finset.mem_union, Finset.mem_sdiff, hlinked.fight x pid p hp]
    by_cases hx : x.categoryId = id
    · rw [hx, hself, h.category]
      constructor
      · rintro (⟨⟨e, m, he, hm, rfl, hhas⟩, hnot⟩ | hmem)
        · cases he
          exact (hnot (mem_fights.2 ⟨m, hm, hhas, rfl⟩)).elim
        · obtain ⟨m, hm, hhas, rfl⟩ := mem_fights.1 hmem
          exact ⟨c', m, rfl, by rw [h.matchList]; exact hm, rfl, hhas⟩
      · rintro ⟨e, m, he, hm, rfl, hhas⟩
        cases he
        rw [h.matchList] at hm
        exact .inr (mem_fights.2 ⟨m, hm, hhas, rfl⟩)
    · rw [hkeep _ hx]
      constructor
      · rintro (⟨hmem, -⟩ | hmem)
        · exact hmem
        · exact (hx (hfights ms h.ids pid x hmem)).elim
      · exact fun hmem => .inl ⟨hmem, fun hnot => hx (hfights c.matchList hold pid x hnot)⟩
  · obtain ⟨rfl, rfl⟩ | ⟨-, he⟩ := h.categories he
    · rw [h.matchList] at hm
      exact h.exist m hm pid hhas ((h.players_eq_none pid).1 hnone)
    · exact hlinked.fighters_exist cid e m pid he hm hhas ((h.players_eq_none pid).1 hnone)
  · obtain ⟨rfl, rfl⟩ | ⟨-, he⟩ := h.categories he
    · rw [h.matchList] at hm
      exact h.distinct m hm pid
    · exact hlinked.distinct cid e m pid he hm
  · obtain ⟨rfl, rfl⟩ | ⟨hcid, he⟩ := h.categories he
    · rw [h.matchList] at hm
      rw [hplayers]
      exact h.within m hm pid hhas
    · exact hlinked.within cid e m pid (fun hoff' => hoff ⟨hoff', hcid⟩) he hm hhas
  · obtain ⟨rfl, rfl⟩ | ⟨hcid, he⟩ := h.categories he
    · rw [hplayers]
      exact h.roster pid hpid
    · exact hlinked.roster cid e pid (fun hoff' => hoff ⟨hoff', hcid⟩) he hpid

end DrawCategoriesAction

/-! ### Views that draws restore -/

section

variable {α β : Type} {f : PlayerStore → α} {h : CategoryStore → β}

/-- A view of the categories that sees the fights, and that sees of a write no more than what it has
seen before and what is written. -/
structure BoutSight (h : CategoryStore → β) : Prop where
  fights : ∀ c c', h c = h c' → c.matchList.map (·.fight) = c'.matchList.map (·.fight)
  withBouts : ∀ b c c', h c = h c' →
    h (DrawCategoriesAction.withBouts b c) = h (DrawCategoriesAction.withBouts b c')
  setDrawSystem : ∀ c c' d, h c = h c' → h (c.setDrawSystem d) = h (c'.setDrawSystem d)
  setLocation : ∀ c c' type l, h c = h c' → h (c.setLocation type l) = h (c'.setLocation type l)
  setPlayers : ∀ (c : CategoryStore) players, h { c with players := players } = h c

/-- The matches of the players and what is seen of the categories. -/
def bouts (h : CategoryStore → β) : TournamentStore → (PlayerId → Option (Finset CombinedId)) ×
    (CategoryId → Option β) := project (·.matchIds) h

theorem bouts_setCategory {t u : TournamentStore} (hview : bouts h u = bouts h t) {id : CategoryId}
    {c c' : CategoryStore} (hc : h c' = h c) : bouts h (u.setCategory id c') = bouts h (t.setCategory id c) := by
  have hplayers : (bouts h u).1 = (bouts h t).1 := congrArg Prod.fst hview
  refine Prod.ext hplayers (funext fun i => ?_)
  show (Function.update u.categories id (some c') i).map h = (Function.update t.categories id (some c) i).map h
  by_cases hi : i = id
  · subst hi
    rw [Function.update_self, Function.update_self, Option.map_some, Option.map_some, hc]
  · rw [Function.update_of_ne hi, Function.update_of_ne hi]
    exact congrFun (congrArg Prod.snd hview) i

theorem category_of_bouts {t u : TournamentStore} (hview : bouts h u = bouts h t) {id : CategoryId}
    {c : CategoryStore} (hc : t.categories id = some c) : ∃ cu, u.categories id = some cu ∧ h cu = h c := by
  have := categories_of_project hview id
  rw [hc, Option.map_some, Option.map_eq_some_iff] at this
  exact this

/-- The recovery of a category restores every such view. -/
theorem DrawCategoriesAction.bouts_recoverCategory (hsight : BoutSight h) {off : CategoryId → Prop}
    {t t' : TournamentStore} {id : CategoryId} {d : DrawnCategory} {c c' : CategoryStore} {ms : List MatchStore}
    (ht : t.Indexed) (hlinked : LinkedOff off t) (hdraws : Draws t id d t' c c' ms) {u : TournamentStore}
    (hu : u.Indexed) (hview : bouts h u = bouts h t') :
    ∃ u', recoverCategory d u = .ok () u' ∧ bouts h u' = bouts h t := by
  have hc' : t'.categories id = some c' := by rw [hdraws.tournament]; exact categories_setCategory_self _ _ _
  obtain ⟨cu, hcu, hsame⟩ := category_of_bouts hview hc'
  have hfights : cu.matchList.map (·.fight) = ms.map (·.fight) := by
    rw [← hdraws.matchList]
    exact hsight.fights cu c' hsame
  refine ⟨_, recoverCategory_draws ht hlinked hdraws hu hcu hfights (players_of_project hview), ?_⟩
  refine Prod.ext (funext fun pid => ?_) (funext fun i => ?_)
  · show (Option.map _ (Option.map _ (u.players pid))).map _ = (t.players pid).map _
    have hset := players_of_project hview pid
    rw [hdraws.matchIds] at hset
    cases hp : t.players pid with
    | none =>
      rw [hp, Option.map_none, Option.map_eq_none_iff] at hset
      rw [hset]
      rfl
    | some p =>
      rw [hp, Option.map_some, Option.map_eq_some_iff] at hset
      obtain ⟨pu, hpu, hset⟩ := hset
      obtain ⟨hback, hsub⟩ := hdraws.matchIds_back ht hlinked hp
      rw [hpu]
      show some ((pu.matchIds \ fights ms pid) ∪ fights c.matchList pid) = some p.matchIds
      rw [hset, hback, hsub]
  · show (Function.update u.categories id (some _) i).map h = (t.categories i).map h
    by_cases hi : i = id
    · subst hi
      rw [Function.update_self, hdraws.category, Option.map_some, Option.map_some, hsight.withBouts c cu c' hsame]
      congr 2
      rw [hdraws.same]
      rfl
    · rw [Function.update_of_ne hi]
      have := categories_of_project hview i
      rwa [hdraws.tournament, show (((t.disengage _).engage _).setCategory id c').categories i = t.categories i from
        Function.update_of_ne hi _ _] at this

end

end JudoAssistant
