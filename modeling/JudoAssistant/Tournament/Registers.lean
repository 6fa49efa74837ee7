import JudoAssistant.Lib.Restore
import JudoAssistant.Tournament.Membership

/-!
# Taking back changes of players and draws

The register of a tournament is where its blocks are, the matches of the players, what is seen of the
categories, and who is in which category.  From every tournament with the register that an action has left,
the undo of the action returns and restores the register of before.
-/

namespace JudoAssistant

open Effect Exec TournamentStore

/-- A function of a player that sees neither his matches nor his categories, and that sees of an edit of
his fields no more than what it has seen before. -/
structure ProfileSight {α : Type} (f : PlayerStore → α) : Prop where
  matchIds : ∀ (p : PlayerStore) ids, f { p with matchIds := ids } = f p
  categories : ∀ (p : PlayerStore) ids, f { p with categories := ids } = f p
  setFields : ∀ (p q : PlayerStore) (edit : PlayerFields → PlayerFields), f p = f q →
    f (p.setFields (edit p.fields)) = f (q.setFields (edit q.fields))

/-! ### Members -/

section

variable {α : Type} {f : PlayerStore → α}

/-- Who is in which category, at both ends, and what is seen of the players. -/
def members (f : PlayerStore → α) : TournamentStore → (PlayerId → Option (Finset CategoryId × α)) ×
    (CategoryId → Option (Finset PlayerId)) := project (fun p => (p.categories, f p)) (·.players)

theorem matchBlind_members (hf : ProfileSight f) : MatchBlind (members f) :=
  matchBlind_project (fun p ids => Prod.ext rfl (hf.matchIds p ids)) fun _ _ _ _ _ => rfl

theorem drawSystemBlind_members : DrawSystemBlind (members f) := drawSystemBlind_project fun _ _ => rfl

theorem layoutBlind_members : LayoutBlind (members f) := layoutBlind_project fun _ _ _ => rfl

variable {t u : TournamentStore} {joining : Bool} {id cid : CategoryId} {pid : PlayerId} {S : Finset PlayerId}

theorem PlayerStore.mem_enlist {p : PlayerStore} :
    cid ∈ (p.enlist joining id).categories ↔ if cid = id then joining = true else cid ∈ p.categories := by
  unfold PlayerStore.enlist
  cases joining <;> by_cases hcid : cid = id <;> simp [hcid]

theorem CategoryStore.mem_enlist {c : CategoryStore} :
    pid ∈ (c.enlist joining S).players ↔ if pid ∈ S then joining = true else pid ∈ c.players := by
  unfold CategoryStore.enlist
  cases joining <;> by_cases hpid : pid ∈ S <;> simp [hpid]

namespace TournamentStore

theorem player_of_members (h : members f u = members f t) {p : PlayerStore} (hp : t.players pid = some p) :
    ∃ q, u.players pid = some q ∧ q.categories = p.categories ∧ f q = f p := by
  have heq := players_of_project h pid
  rw [hp, Option.map_some, Option.map_eq_some_iff] at heq
  obtain ⟨q, hq, heq⟩ := heq
  exact ⟨q, hq, Prod.mk.inj heq⟩

theorem category_of_members (h : members f u = members f t) {c : CategoryStore} (hc : t.categories cid = some c) :
    ∃ e, u.categories cid = some e ∧ e.players = c.players := by
  have heq := categories_of_project h cid
  rw [hc, Option.map_some, Option.map_eq_some_iff] at heq
  exact heq

theorem Candidate.of_members (h : members f u = members f t) (ht : t.Candidate joining id pid) :
    u.Candidate joining id pid := by
  obtain ⟨⟨p, hp, hid⟩, c, hc, hpid⟩ := ht
  obtain ⟨q, hq, hqp, -⟩ := player_of_members h hp
  obtain ⟨e, he, hec⟩ := category_of_members h hc
  exact ⟨⟨q, hq, by rwa [hqp]⟩, e, he, by rwa [hec]⟩

/-- A player who has been changed can be changed back. -/
theorem Candidate.back (ht : t.Candidate joining id pid) (hpid : pid ∈ S) :
    (t.enlist joining id S).Candidate (!joining) id pid := by
  obtain ⟨⟨p, hp, -⟩, c, hc, -⟩ := ht
  refine ⟨⟨p.enlist joining id, ?_, ?_⟩, c.enlist joining S, categories_enlist_self hc, ?_⟩
  · show (t.players pid).map _ = _
    rw [hp, Option.map_some, if_pos hpid]
  · rw [PlayerStore.mem_enlist, if_pos rfl]
    cases joining <;> simp
  · rw [CategoryStore.mem_enlist, if_pos hpid]
    cases joining <;> simp

/-- Changing players and changing them back leaves who is in the categories. -/
theorem members_enlist_back (hf : ProfileSight f) (hcandidates : ∀ pid ∈ S, t.Candidate joining id pid)
    (h : members f u = members f (t.enlist joining id S)) :
    members f (u.enlist (!joining) id S) = members f t := by
  refine Prod.ext (funext fun pid => ?_) (funext fun cid => ?_)
  · have heq := players_of_project h pid
    show Option.map _ (Option.map _ (u.players pid)) = (t.players pid).map _
    change _ = Option.map _ (Option.map _ (t.players pid)) at heq
    cases hp : t.players pid with
    | none =>
      rw [hp, Option.map_none, Option.map_none, Option.map_eq_none_iff] at heq
      rw [heq]
      rfl
    | some p =>
      rw [hp, Option.map_some, Option.map_some, Option.map_eq_some_iff] at heq
      obtain ⟨q, hq, heq⟩ := heq
      rw [hq, Option.map_some, Option.map_some, Option.map_some]
      congr 1
      by_cases hpid : pid ∈ S
      · obtain ⟨⟨_, hp', hid⟩, -⟩ := hcandidates pid hpid
        cases hp.symm.trans hp'
        rw [if_pos hpid] at heq ⊢
        obtain ⟨heq, hsame⟩ := Prod.mk.inj heq
        refine Prod.ext ?_ ((hf.categories q _).trans (hsame.trans (hf.categories p _)))
        show (q.enlist (!joining) id).categories = p.categories
        ext x
        rw [PlayerStore.mem_enlist, heq, PlayerStore.mem_enlist]
        by_cases hx : x = id
        · rw [if_pos hx, hx, hid]
          cases joining <;> simp
        · rw [if_neg hx, if_neg hx]
      · rw [if_neg hpid] at heq ⊢
        exact heq
  · have heq := categories_of_project h cid
    show Option.map _ ((u.enlist (!joining) id S).categories cid) = (t.categories cid).map _
    by_cases hcid : cid = id
    · subst hcid
      cases hc : t.categories cid with
      | none =>
        have hnone : (t.enlist joining cid S).categories cid = none := by
          show Function.update t.categories cid _ cid = none
          rw [Function.update_self, hc]
          rfl
        rw [hnone, Option.map_none, Option.map_eq_none_iff] at heq
        have hnone' : (u.enlist (!joining) cid S).categories cid = none := by
          show Function.update u.categories cid _ cid = none
          rw [Function.update_self, heq]
          rfl
        rw [hnone']
      | some c =>
        rw [categories_enlist_self hc, Option.map_some, Option.map_eq_some_iff] at heq
        obtain ⟨e, he, heq⟩ := heq
        rw [categories_enlist_self he, Option.map_some, Option.map_some]
        congr 1
        ext pid
        rw [CategoryStore.mem_enlist, heq, CategoryStore.mem_enlist]
        by_cases hpid : pid ∈ S
        · obtain ⟨-, _, hc', hmem⟩ := hcandidates pid hpid
          cases hc.symm.trans hc'
          rw [if_pos hpid, hmem]
          cases joining <;> simp
        · rw [if_neg hpid, if_neg hpid]
    · rw [categories_enlist_of_ne hcid]
      rwa [categories_enlist_of_ne hcid] at heq

/-- Where players join or leave a category, only its matches need not be in line with its players. -/
theorem linkedOff_enlist (ht : t.Linked) (hcandidates : ∀ pid ∈ S, t.Candidate joining id pid) :
    LinkedOff (· = id) (t.enlist joining id S) := by
  have hplayer : ∀ pid p', (t.enlist joining id S).players pid = some p' → ∃ p, t.players pid = some p ∧
      p' = if pid ∈ S then p.enlist joining id else p := by
    intro pid p' hp'
    obtain ⟨p, hp, rfl⟩ := Option.map_eq_some_iff.1 hp'
    exact ⟨p, hp, rfl⟩
  have hcategory : ∀ cid c', (t.enlist joining id S).categories cid = some c' → ∃ c, t.categories cid = some c ∧
      c' = if cid = id then c.enlist joining S else c := by
    intro cid c' hc'
    by_cases hcid : cid = id
    · subst hcid
      obtain ⟨c, hc, rfl⟩ := Option.map_eq_some_iff.1 ((Function.update_self (f := t.categories) ..).symm.trans hc')
      exact ⟨c, hc, (if_pos rfl).symm⟩
    · rw [categories_enlist_of_ne hcid] at hc'
      exact ⟨c', hc', (if_neg hcid).symm⟩
  have hcategory' : ∀ cid c, t.categories cid = some c →
      (t.enlist joining id S).categories cid = some (if cid = id then c.enlist joining S else c) := by
    intro cid c hc
    by_cases hcid : cid = id
    · subst hcid
      rw [categories_enlist_self hc, if_pos rfl]
    · rw [categories_enlist_of_ne hcid, hc, if_neg hcid]
  have hmatches : ∀ cid (c : CategoryStore),
      (if cid = id then c.enlist joining S else c).matchList = c.matchList := by
    intro cid c
    split <;> rfl
  refine ⟨fun cid pid p' hp' => ?_, fun cid c' pid hc' hpid => ?_, fun x pid p' hp' => ?_,
    fun cid c' m pid hc' hm hhas => ?_, fun cid c' m pid hc' hm => ?_, fun cid c' m pid hoff hc' hm hhas => ?_,
    fun cid c' pid hoff hc' hpid => ?_⟩
  · obtain ⟨p, hp, rfl⟩ := hplayer pid p' hp'
    have hmem : cid ∈ (if pid ∈ S then p.enlist joining id else p).categories ↔
        if pid ∈ S ∧ cid = id then joining = true else cid ∈ p.categories := by
      by_cases hpid : pid ∈ S
      · rw [if_pos hpid, PlayerStore.mem_enlist]
        simp only [hpid, true_and]
      · simp only [hpid, if_false, false_and]
    have hmem' : ∀ c : CategoryStore, pid ∈ (if cid = id then c.enlist joining S else c).players ↔
        if pid ∈ S ∧ cid = id then joining = true else pid ∈ c.players := by
      intro c
      by_cases hcid : cid = id
      · rw [if_pos hcid, CategoryStore.mem_enlist]
        simp only [hcid, and_true]
      · simp only [hcid, if_false, and_false]
    rw [hmem]
    by_cases hboth : pid ∈ S ∧ cid = id
    · obtain ⟨-, c, hc, -⟩ := hcandidates pid hboth.1
      rw [← hboth.2] at hc
      rw [if_pos hboth]
      constructor
      · exact fun hjoining => ⟨_, hcategory' cid c hc, (hmem' c).2 (by rwa [if_pos hboth])⟩
      · rintro ⟨c', hc', hpid⟩
        obtain ⟨c₀, -, rfl⟩ := hcategory cid c' hc'
        have hpid := (hmem' c₀).1 hpid
        rwa [if_pos hboth] at hpid
    · rw [if_neg hboth, ht.member cid pid p hp]
      constructor
      · rintro ⟨c, hc, hpid⟩
        exact ⟨_, hcategory' cid c hc, (hmem' c).2 (by rwa [if_neg hboth])⟩
      · rintro ⟨c', hc', hpid⟩
        obtain ⟨c, hc, rfl⟩ := hcategory cid c' hc'
        have hpid := (hmem' c).1 hpid
        rw [if_neg hboth] at hpid
        exact ⟨c, hc, hpid⟩
  · rw [ne_eq, players_enlist_eq_none]
    obtain ⟨c, hc, rfl⟩ := hcategory cid c' hc'
    by_cases hS : pid ∈ S
    · obtain ⟨⟨p, hp, -⟩, -⟩ := hcandidates pid hS
      simp [hp]
    · split at hpid
      · rw [CategoryStore.mem_enlist, if_neg hS] at hpid
        exact ht.members_exist cid c pid hc hpid
      · exact ht.members_exist cid c pid hc hpid
  · obtain ⟨p, hp, rfl⟩ := hplayer pid p' hp'
    have hsame : (if pid ∈ S then p.enlist joining id else p).matchIds = p.matchIds := by split <;> rfl
    rw [hsame, ht.fight x pid p hp]
    constructor
    · rintro ⟨c, m, hc, hm, hrest⟩
      exact ⟨_, m, hcategory' _ c hc, by rwa [hmatches], hrest⟩
    · rintro ⟨c', m, hc', hm, hrest⟩
      obtain ⟨c, hc, rfl⟩ := hcategory _ c' hc'
      rw [hmatches] at hm
      exact ⟨c, m, hc, hm, hrest⟩
  · obtain ⟨c, hc, rfl⟩ := hcategory cid c' hc'
    rw [hmatches] at hm
    rw [ne_eq, players_enlist_eq_none]
    exact ht.fighters_exist cid c m pid hc hm hhas
  · obtain ⟨c, hc, rfl⟩ := hcategory cid c' hc'
    rw [hmatches] at hm
    exact ht.distinct cid c m pid hc hm
  · rw [categories_enlist_of_ne hoff] at hc'
    exact ht.within cid c' m pid not_false hc' hm hhas
  · rw [categories_enlist_of_ne hoff] at hc'
    exact ht.roster cid c' pid not_false hc' hpid

/-- Players joining or leaving a category are not seen by a function that is blind to this. -/
theorem enlist_of_blind {γ : Type} {g : TournamentStore → γ} (hg : MemberBlind g)
    {pids : List PlayerId} (hnodup : pids.Nodup) (hcandidates : ∀ pid ∈ pids, t.Candidate joining id pid) :
    g (t.enlist joining id pids.toFinset) = g t := by
  obtain ⟨us, hus⟩ := changeAll_ok hnodup hcandidates
  refine frame_forEach (fun pid _ => ?_) hus
  cases joining with
  | true => exact hg.joinCategory
  | false => exact hg.leaveCategory

end TournamentStore

end

/-! ### Registers -/

/-- The layout agrees with the locations, the indices with the lists, and the cross references with each
other. -/
structure Orderly (t : TournamentStore) : Prop where
  sound : LayoutSound t
  indexed : t.Indexed
  linked : t.Linked

theorem Orderly.intact {t : TournamentStore} (h : Orderly t) : Intact t := ⟨h.sound.placed, h.indexed⟩

section

variable {α β γ δ ε : Type} {f : PlayerStore → α} {h : CategoryStore → β} {t t' u : TournamentStore}

/-- Where the blocks are, and what is seen of the players, of the categories and of who is in which. -/
def register (f : PlayerStore → α) (h : CategoryStore → β) (t : TournamentStore) :
    (Outline × (PlayerId → Option (Finset CombinedId)) × (CategoryId → Option β)) ×
      (PlayerId → Option (Finset CategoryId × α)) × (CategoryId → Option (Finset PlayerId)) :=
  (sight h t, members f t)

/-- The layout and the indices are taken care of elsewhere. -/
theorem restores_of_parts {y : Exec γ} {P Q : γ → Prop} (hlayout : LayoutBack y P t'.outline t.outline)
    (hindexed : Keeps Indexed y Q) (hreturn : ∀ u, Intact u → register f h u = register f h t' →
      ∃ a u', y u = .ok a u' ∧ bouts h u' = bouts h t ∧ members f u' = members f t) :
    Recovers Intact (register f h) y P (register f h t') (register f h t) := by
  intro u hu hview
  obtain ⟨a, u', ha, hbouts, hmembers⟩ := hreturn u hu hview
  obtain ⟨hplaced, houtline, hP⟩ := hlayout hu.placed (congrArg (fun v => v.1.1) hview) ha
  exact ⟨a, u', ha, ⟨hplaced, (hindexed hu.indexed ha).1⟩, Prod.ext (Prod.ext houtline hbouts) hmembers, hP⟩

/-- An undo that does not touch the players of the categories. -/
theorem restores_of_sight {y : Exec γ} {P : γ → Prop}
    (hsight : Recovers Intact (sight h) y P (sight h t') (sight h t)) (hframe : Frame (members f) y)
    (hmembers : members f t' = members f t) :
    Recovers Intact (register f h) y P (register f h t') (register f h t) := by
  have hboth := hsight.prod hframe (d := members f t')
  show Recovers Intact (register f h) y P (sight h t', members f t') (sight h t, members f t)
  rw [← hmembers]
  exact hboth

/-- The computation keeps a tournament in order, and its undo restores the register. -/
abbrev RegisterRestorable (f : PlayerStore → α) (h : CategoryStore → β) (x : Exec γ) (undo : γ → Exec δ)
    (P : δ → Prop) : Prop := Restorable Orderly Intact (register f h) x undo P

theorem restorable_forEach {J I : TournamentStore → Prop} {ζ : Type} {view : TournamentStore → ζ}
    {x : ε → Exec γ}
    {undo : γ → Exec δ} {as : List ε} {P : δ → Prop} (hx : ∀ a ∈ as, Restorable J I view (x a) undo P) :
    Restorable J I view (forEach x as) (fun bs => forEach undo bs.reverse) fun _ => True := by
  induction as with
  | nil =>
    intro t bs t' ht hbs
    obtain ⟨rfl, rfl⟩ := forEach_nil_ok.1 hbs
    exact ⟨ht, recovers_nil⟩
  | cons a as ih =>
    intro t bs t' ht hbs
    obtain ⟨b, t₁, bs', hb, hbs', rfl⟩ := forEach_cons_ok.1 hbs
    obtain ⟨ht₁, hback⟩ := hx a List.mem_cons_self ht hb
    obtain ⟨ht', hback'⟩ := ih (fun a ha => hx a (List.mem_cons_of_mem _ ha)) ht₁ hbs'
    refine ⟨ht', ?_⟩
    show Recovers _ _ (forEach undo (b :: bs').reverse) _ _ _
    rw [List.reverse_cons]
    exact recovers_append hback' (recovers_singleton hback)

/-! ### The players of a category -/

variable (hf : ProfileSight f) (hsight : BoutSight h)

include hsight in
theorem memberBlind_bouts : MemberBlind (bouts h) := memberBlind_project (fun _ _ => rfl) hsight.setPlayers

include hf hsight in
/-- After players have joined or left a category and it was drawn, they can be changed back and the draw
undone. -/
theorem redraw_back {joining : Bool} {id : CategoryId} {seed : ℕ} {changed : List PlayerId} {r : RedrawAction}
    (ht : Orderly t) (hnodup : changed.Nodup) (hcandidates : ∀ pid ∈ changed, t.Candidate joining id pid)
    (hrun : RedrawAction.run id seed (t.enlist joining id changed.toFinset) = .ok r t') :
    t'.Linked ∧ ∀ u, Intact u → register f h u = register f h t' → ∃ us u₁ u',
      forEach (changeOne (!joining) id) changed u = .ok us u₁ ∧ r.undo u₁ = .ok () u' ∧
        bouts h u' = bouts h t ∧ members f u' = members f t := by
  have hS : ∀ pid ∈ changed.toFinset, t.Candidate joining id pid :=
    fun pid hpid => hcandidates pid (List.mem_toFinset.1 hpid)
  have hplan := enlist_of_blind memberBlind_plan hnodup hcandidates
  have hkeys := enlist_of_blind memberBlind_keys hnodup hcandidates
  have hbouts := enlist_of_blind (memberBlind_bouts hsight) hnodup hcandidates
  obtain ⟨hlinked, hback⟩ := RedrawAction.recovers hsight (ht.sound.of_plan hplan) (ht.indexed.of_keys hkeys)
    (linkedOff_enlist ht.linked hS) hrun
  have hmembers : members f t' = members f (t.enlist joining id changed.toFinset) :=
    RedrawAction.frame_run (matchBlind_members hf) drawSystemBlind_members layoutBlind_members hrun
  refine ⟨hlinked, fun u hu hview => ?_⟩
  have hmembers' : members f u = members f (t.enlist joining id changed.toFinset) :=
    (congrArg Prod.snd hview).trans hmembers
  have hcandidates' : ∀ pid ∈ changed, u.Candidate (!joining) id pid := fun pid hpid =>
    ((hcandidates pid hpid).back (List.mem_toFinset.2 hpid)).of_members hmembers'
  obtain ⟨us, hus⟩ := changeAll_ok hnodup hcandidates'
  have hplan' := enlist_of_blind memberBlind_plan hnodup hcandidates'
  have hkeys' := enlist_of_blind memberBlind_keys hnodup hcandidates'
  have hbouts' := enlist_of_blind (memberBlind_bouts hsight) hnodup hcandidates'
  have hsame : sight h (u.enlist (!joining) id changed.toFinset) = sight h t' := by
    have hsight' : sight h u = sight h t' := congrArg Prod.fst hview
    exact (Prod.ext (congrArg Prod.snd hplan') hbouts' : _ = sight h u).trans hsight'
  obtain ⟨⟨⟩, u', hundo, -, hrest, -⟩ := hback ⟨hu.placed.of_plan hplan', hu.indexed.of_keys hkeys'⟩ hsame
  refine ⟨us, _, u', hus, hundo, (congrArg Prod.snd hrest).trans hbouts, ?_⟩
  have hframe : members f u' = members f (u.enlist (!joining) id changed.toFinset) :=
    RedrawAction.frame_undo (matchBlind_members hf) drawSystemBlind_members layoutBlind_members r hundo
  rw [hframe]
  exact members_enlist_back hf hS hmembers'

include hf hsight in
/-- What `AddPlayersToCategoryAction` and `ErasePlayersFromCategoryAction` have in common. -/
theorem restores_of_enlist (joining : Bool) (id : CategoryId) {y : Exec γ} {P Q : γ → Prop} (ht : Orderly t)
    (hsound : LayoutSound t') (hindexed : t'.Indexed) (hlayout : LayoutBack y P t'.outline t.outline)
    (hkeeps : Keeps Indexed y Q)
    (hredo : (t' = t ∧ ∀ u, (u.categories id = none ↔ t.categories id = none) → ∃ b, y u = .ok b u) ∨
      t.categories id ≠ none ∧ ∃ changed seed r, changed.Nodup ∧
        (∀ pid ∈ changed, t.Candidate joining id pid) ∧
        RedrawAction.run id seed (t.enlist joining id changed.toFinset) = .ok r t' ∧
        ∀ u us u₁ u', u.categories id ≠ none → forEach (changeOne (!joining) id) changed u = .ok us u₁ →
          r.undo u₁ = .ok () u' → ∃ b, y u = .ok b u') :
    Orderly t' ∧ Recovers Intact (register f h) y P (register f h t') (register f h t) := by
  have hexists : ∀ {s s' : TournamentStore}, register f h s = register f h s' →
      (s.categories id = none ↔ s'.categories id = none) := by
    intro s s' hview
    have heq := categories_of_project (congrArg Prod.snd hview) id
    cases hs : s.categories id <;> cases hs' : s'.categories id <;> simp_all
  obtain ⟨rfl, hnothing⟩ | ⟨hc, changed, seed, r, hnodup, hcandidates, hrun, hundo⟩ := hredo
  · refine ⟨ht, restores_of_parts hlayout hkeeps fun u _ hview => ?_⟩
    obtain ⟨b, hb⟩ := hnothing u (hexists hview)
    exact ⟨b, u, hb, congrArg (fun v => v.1.2) hview, congrArg Prod.snd hview⟩
  · obtain ⟨hlinked, hback⟩ := redraw_back hf hsight ht hnodup hcandidates hrun
    refine ⟨⟨hsound, hindexed, hlinked⟩, restores_of_parts hlayout hkeeps fun u hu hview => ?_⟩
    obtain ⟨us, u₁, u', hus, hr, hbouts, hmembers⟩ := hback u hu hview
    have hcu : u.categories id ≠ none := by
      have hplan := enlist_of_blind memberBlind_plan hnodup hcandidates
      have houtline : (t.enlist joining id changed.toFinset).outline = t.outline := congrArg Prod.snd hplan
      rw [ne_eq, hexists hview, ← categories_outline_eq_none,
        RedrawAction.domain_run (ht.sound.of_plan hplan) hrun, houtline, categories_outline_eq_none]
      exact hc
    obtain ⟨b, hb⟩ := hundo u us u₁ u' hcu hus hr
    exact ⟨b, u', hb, hbouts, hmembers⟩

theorem AddPlayersToCategoryAction.undoImpl_some {a : AddPlayersToCategoryAction} {us : List Unit}
    {u₁ u' : TournamentStore} (hc : u.categories a.categoryId ≠ none)
    (hus : forEach (leaveCategory a.categoryId) a.addedPlayerIds u = .ok us u₁)
    (hundo : RedrawAction.undoOption a.drawAction u₁ = .ok () u') :
    a.undoImpl u = .ok { a with addedPlayerIds := [], drawAction := none } u' := by
  refine bind_ok.2 ⟨u, u, get_ok.2 ⟨rfl, rfl⟩, ?_⟩
  have hc' : u.containsCategory a.categoryId = true := Option.isSome_iff_ne_none.2 hc
  rw [if_pos hc']
  exact bind_ok.2 ⟨us, u₁, hus, bind_ok.2 ⟨(), u', hundo, rfl⟩⟩

theorem AddPlayersToCategoryAction.undoImpl_none {a : AddPlayersToCategoryAction}
    (hc : u.categories a.categoryId = none) : a.undoImpl u = .ok a u := by
  refine bind_ok.2 ⟨u, u, get_ok.2 ⟨rfl, rfl⟩, ?_⟩
  rw [if_neg (by simp [TournamentStore.containsCategory, hc])]
  rfl

theorem ErasePlayersFromCategoryAction.undoImpl_some {a : ErasePlayersFromCategoryAction} {us : List Unit}
    {u₁ u' : TournamentStore} (hc : u.categories a.categoryId ≠ none)
    (hus : forEach (joinCategory a.categoryId) a.erasedPlayerIds u = .ok us u₁)
    (hundo : RedrawAction.undoOption a.drawAction u₁ = .ok () u') :
    a.undoImpl u = .ok { a with erasedPlayerIds := [], drawAction := none } u' := by
  refine bind_ok.2 ⟨u, u, get_ok.2 ⟨rfl, rfl⟩, ?_⟩
  have hc' : u.containsCategory a.categoryId = true := Option.isSome_iff_ne_none.2 hc
  rw [if_pos hc']
  exact bind_ok.2 ⟨us, u₁, hus, bind_ok.2 ⟨(), u', hundo, rfl⟩⟩

theorem ErasePlayersFromCategoryAction.undoImpl_none {a : ErasePlayersFromCategoryAction}
    (hc : u.categories a.categoryId = none) : a.undoImpl u = .ok a u := by
  refine bind_ok.2 ⟨u, u, get_ok.2 ⟨rfl, rfl⟩, ?_⟩
  rw [if_neg (by simp [TournamentStore.containsCategory, hc])]
  rfl

include hf hsight

theorem AddPlayersToCategoryAction.restorable {a : AddPlayersToCategoryAction} (hadded : a.addedPlayerIds = [])
    (hdraw : a.drawAction = none) : RegisterRestorable f h a.redoImpl undoImpl
      fun a => a.addedPlayerIds = [] ∧ a.drawAction = none := by
  intro t a' t' ht hredo
  obtain ⟨hsound, hlayout⟩ := revocable hadded hdraw ht.sound hredo
  obtain ⟨hindexed, hkeeps⟩ := lasting_indexed.addPlayersToCategory hdraw ht.indexed hredo
  refine restores_of_enlist hf hsight true a.categoryId ht hsound hindexed hlayout hkeeps ?_
  have hnothing : ∀ u : TournamentStore, ∃ b, a.undoImpl u = .ok b u := by
    intro u
    by_cases hu : u.categories a.categoryId = none
    · exact ⟨a, undoImpl_none hu⟩
    · exact ⟨_, undoImpl_some hu (by rw [hadded]; exact forEach_nil_ok.2 ⟨rfl, rfl⟩) (by rw [hdraw]; rfl)⟩
  obtain ⟨rfl, rfl, -⟩ | ⟨added, t₁, hc, hmembers, hrest⟩ := redoImpl_ok hredo
  · exact .inl ⟨rfl, fun u _ => hnothing u⟩
  · have hmembers' : changeMembers a.categoryId false
      (changeOne true a.categoryId) a.playerIds t = .ok added t₁ := hmembers
    obtain ⟨rfl, hnodup, hcandidates⟩ := changeMembers_ok hmembers'
    rw [hadded, List.nil_append] at hrest
    obtain ⟨rfl, rfl, rfl⟩ | ⟨-, r, hrun, rfl⟩ := hrest
    · exact .inl ⟨by rw [List.toFinset_nil, enlist_empty], fun u _ => hnothing u⟩
    · exact .inr ⟨hc, added, a.seed, r, hnodup, hcandidates, hrun,
        fun u us u₁ u' hu hus hr => ⟨_, undoImpl_some hu hus hr⟩⟩

theorem ErasePlayersFromCategoryAction.restorable {a : ErasePlayersFromCategoryAction}
    (herased : a.erasedPlayerIds = []) (hdraw : a.drawAction = none) :
    RegisterRestorable f h a.redoImpl undoImpl fun a => a.erasedPlayerIds = [] ∧ a.drawAction = none := by
  intro t a' t' ht hredo
  obtain ⟨hsound, hlayout⟩ := revocable herased hdraw ht.sound hredo
  obtain ⟨hindexed, hkeeps⟩ := lasting_indexed.erasePlayersFromCategory hdraw ht.indexed hredo
  refine restores_of_enlist hf hsight false a.categoryId ht hsound hindexed hlayout hkeeps ?_
  have hnothing : ∀ u : TournamentStore, ∃ b, a.undoImpl u = .ok b u := by
    intro u
    by_cases hu : u.categories a.categoryId = none
    · exact ⟨a, undoImpl_none hu⟩
    · exact ⟨_, undoImpl_some hu (by rw [herased]; exact forEach_nil_ok.2 ⟨rfl, rfl⟩) (by rw [hdraw]; rfl)⟩
  obtain ⟨rfl, rfl, -⟩ | ⟨erased, t₁, hc, hmembers, hrest⟩ := redoImpl_ok hredo
  · exact .inl ⟨rfl, fun u _ => hnothing u⟩
  · have hmembers' : changeMembers a.categoryId true
      (changeOne false a.categoryId) a.playerIds t = .ok erased t₁ := hmembers
    obtain ⟨rfl, hnodup, hcandidates⟩ := changeMembers_ok hmembers'
    rw [herased, List.nil_append] at hrest
    obtain ⟨rfl, rfl, rfl⟩ | ⟨-, r, hrun, rfl⟩ := hrest
    · exact .inl ⟨by rw [List.toFinset_nil, enlist_empty], fun u _ => hnothing u⟩
    · exact .inr ⟨hc, erased, a.seed, r, hnodup, hcandidates, hrun,
        fun u us u₁ u' hu hus hr => ⟨_, undoImpl_some hu hus hr⟩⟩

theorem restorable_eraseFromCategories (playerIds : List PlayerId) (seed : ℕ) (ids : List CategoryId) :
    RegisterRestorable f h (eraseFromCategories playerIds seed ids)
      (fun as => forEach ErasePlayersFromCategoryAction.undoImpl as) fun _ => True := by
  intro t as t' ht hredo
  simp only [eraseFromCategories, bind_ok, pure_ok] at hredo
  obtain ⟨as', _, has, rfl, rfl⟩ := hredo
  exact restorable_forEach (fun id _ => ErasePlayersFromCategoryAction.restorable hf hsight rfl rfl) ht has

theorem ErasePlayersFromAllCategoriesAction.restorable {a : ErasePlayersFromAllCategoriesAction}
    (hidle : a.actions = []) : RegisterRestorable f h a.redoImpl undoImpl fun a => a.actions = [] := by
  intro t a' t' ht hredo
  simp only [redoImpl, bind_ok, get_ok, pure_ok] at hredo
  obtain ⟨_, _, ⟨rfl, rfl⟩, as, _, has, rfl, rfl⟩ := hredo
  obtain ⟨ht', hback⟩ := restorable_eraseFromCategories hf hsight _ _ _ ht has
  refine ⟨ht', ?_⟩
  rw [hidle, List.append_nil]
  exact hback.bind fun _ _ => .pure rfl

theorem DrawCategoriesAction.restorable {a : DrawCategoriesAction} (hidle : a.drawn = []) :
    RegisterRestorable f h a.redoImpl undoImpl fun a => a.drawn = [] := by
  intro t a' t' ht hredo
  obtain ⟨hintact, hlinked, hback⟩ := recovers hsight hidle ht.intact ht.linked hredo
  have hmembers : members f t' = members f t :=
    frame_redoImpl (matchBlind_members hf) drawSystemBlind_members hredo
  refine ⟨⟨(revocable hidle ht.sound hredo).1, hintact.indexed, hlinked.mono fun i _ hi => hi.1⟩,
    restores_of_sight hback (frame_undoImpl (matchBlind_members hf) drawSystemBlind_members) hmembers⟩

end

end JudoAssistant
