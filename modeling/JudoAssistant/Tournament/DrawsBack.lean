import JudoAssistant.Tournament.MatchLinks

/-!
# What follows a match event

A match event writes its match and moves it between the counters, and the draw system may set players and byes
after it.  Where each of these can be taken back on a view of the tournament, so can the event with all that
follows it, and so can a reset of several matches.
-/

namespace JudoAssistant

open Effect Exec TournamentStore

section

variable {γ δ : Type} {t t' u : TournamentStore} {c : CategoryStore} {m : MatchStore} {x : CombinedId}

/-! ### Writing one match -/

/-- The tournament `t'` has other matches and counters in one category, and maybe other caches. -/
structure TournamentStore.Rewritten (id : CategoryId) (c : CategoryStore) (t t' : TournamentStore) : Prop where
  category : t'.categories id = some c
  other : ∀ cid, cid ≠ id → t'.categories cid = t.categories cid
  players : t'.players = t.players

theorem frame_players_moveCounter {id : CategoryId} {source target : MatchStatus} :
    Frame TournamentStore.players (moveCounter id m source target) := by
  refine Frame.bind (frame_editCategory fun _ _ _ _ _ => rfl) fun _ => frame_getCategory.bind fun c => ?_
  split
  · exact Frame.pure
  · exact frame_editTatamis fun _ _ _ => rfl

/-- A match is written, read again and, if so, counted anew. -/
theorem rewrites_rewritten {f : MatchStore → Except Failure MatchStore} {b : Bool} {source target : MatchStatus}
    {t₁ t₂ : TournamentStore} {v w : Unit} {m' : MatchStore} (hc : t.categories x.categoryId = some c)
    (hedit : editMatch x f t = .ok v t₁) (hget : getMatch x t₁ = .ok m' t₂)
    (hcount : doIf b (moveCounter x.categoryId m' source target) t₂ = .ok w t') : ∃ m c', f m = .ok m' ∧
      c.Rewrites x.matchId m m' (if b then some (source, target) else none) c' ∧ t.Rewritten x.categoryId c' t' := by
  obtain ⟨m, c', hf, hrewrites, hc'⟩ := rewrites_own hc hedit hget hcount
  refine ⟨m, c', hf, hrewrites, hc', fun cid hcid => ?_, ?_⟩
  · have hcount' := frame_doIf (frame_moveCounter_other hcid.symm) hcount
    have hget' := frame_getMatch (g := (·.categories cid)) hget
    exact hcount'.trans (hget'.trans (frame_editMatch_other hcid.symm hedit))
  · have hedit' : t₁.players = t.players := frame_editCategory (fun _ _ _ _ _ => rfl) hedit
    exact (frame_doIf frame_players_moveCounter hcount).trans ((frame_getMatch hget).trans hedit')

/-- A match event writes its match and counts it. -/
structure MatchEventKind.Writes (kind : MatchEventKind) (x : CombinedId) (t : TournamentStore) (c : CategoryStore)
    (m m' : MatchStore) (c' : CategoryStore) (t' : TournamentStore) : Prop where
  category : t.categories x.categoryId = some c
  guard : kind.rules.guard c.ruleset m = true
  effect : kind.rules.effect c.ruleset m = .ok m'
  rewrites : c.Rewrites x.matchId m m' (counterMove m.getStatus m'.getStatus) c'
  rewritten : t.Rewritten x.categoryId c' t'
  steady : Steady t.links t'

/-- The match of the event is there, and the event may happen to it. -/
def MatchEventKind.Happens (kind : MatchEventKind) (x : CombinedId) (t : TournamentStore) : Prop :=
  ∃ c m, t.categories x.categoryId = some c ∧ c.getMatch x.matchId = .ok m ∧ kind.rules.guard c.ruleset m = true

/-- A match event does nothing, or it writes its match and lets the draw system follow. -/
theorem MatchEventAction.redoWith_writes {run : DrawAction → Exec DrawAction} {stack stack' : List DrawAction}
    {kind : MatchEventKind} {saved saved' : Saved} (ht : t.Indexed)
    (h : redoWith run kind.rules x saved stack t = .ok (saved', stack') t') :
    (saved' = saved ∧ stack' = stack ∧ t' = t ∧ ¬kind.Happens x t) ∨
      ∃ c m m' c' t₁, kind.Writes x t c m m' c' t₁ ∧ saved' = .state m.state m.events.length ∧
      (stack' = stack ∧ t' = t₁ ∨ updateDraw run x.categoryId stack t₁ = .ok stack' t') := by
  obtain ⟨s, s', hs, hrest⟩ := bind_ok.1 h
  obtain ⟨rfl, rfl⟩ := get_ok.1 hs
  cases hfind : s'.findMatch x with
  | none =>
    rw [hfind] at hrest
    obtain ⟨heq, rfl⟩ := pure_ok.1 hrest
    cases heq
    refine .inl ⟨rfl, rfl, rfl, ?_⟩
    rintro ⟨c, m, hc, hm, -⟩
    obtain ⟨hmem, hid⟩ := (ht.index _ c hc).getMatch_ok.1 hm
    have hsome := findMatch_eq_some.2 ⟨hc, (ht.index _ c hc).containsMatch_iff.2 ⟨m, hmem, hid⟩⟩
    rw [hfind] at hsome
    cases hsome
  | some c =>
    obtain ⟨hc, -⟩ := findMatch_eq_some.1 hfind
    rw [hfind] at hrest
    obtain ⟨m, s₀, hlift, hrest⟩ := bind_ok.1 hrest
    obtain ⟨hm, rfl⟩ := lift_ok.1 hlift
    split at hrest
    · next hguard =>
      obtain ⟨w, t₁, hedit, hrest⟩ := bind_ok.1 hrest
      obtain ⟨stack₁, t₂, hnotify, hrest⟩ := bind_ok.1 hrest
      obtain ⟨heq, rfl⟩ := pure_ok.1 hrest
      cases heq
      obtain ⟨m', t₃, hget, hnotify⟩ := bind_ok.1 hnotify
      obtain ⟨w', t₄, hcount, hnotify⟩ := bind_ok.1 hnotify
      obtain ⟨hsteady, -⟩ := keeps_editMatch_steady (fun _ _ hf => MatchStore.SameFight.effect c.ruleset hf)
        ⟨ht, rfl⟩ hedit
      obtain ⟨hsteady, -⟩ := keeps_getMatch hsteady hget
      obtain ⟨hsteady, -⟩ := keeps_doIf (keeps_moveCounter_steady _ _ _ _) hsteady hcount
      obtain ⟨hid, -⟩ := notify_own ht hc hm hedit hget hcount
      rw [hid] at hcount hnotify
      obtain ⟨m₀, c', heffect, hrewrites, hrewritten⟩ := rewrites_rewritten hc hedit hget hcount
      cases hm.symm.trans hrewrites.old
      refine .inr ⟨c, m, m', c', t₄, ⟨hc, hguard, heffect, hrewrites, hrewritten, hsteady⟩, rfl, ?_⟩
      split at hnotify
      · exact .inr hnotify
      · obtain ⟨rfl, rfl⟩ := pure_ok.1 hnotify
        exact .inl ⟨rfl, rfl⟩
    · next hguard =>
      obtain ⟨heq, rfl⟩ := pure_ok.1 hrest
      cases heq
      refine .inl ⟨rfl, rfl, rfl, ?_⟩
      rintro ⟨c', m', hc', hm', hguard'⟩
      cases hc.symm.trans hc'
      cases hm.symm.trans hm'
      exact hguard hguard'

/-! ### Stacks of draw actions -/

/-- The computation leads back from one view to another. -/
abbrev ViewBack (view : TournamentStore → δ) (y : Exec γ) (after before : δ) : Prop :=
  LeadsBack Indexed view y (fun _ => True) after before

/-- Undoing the stack leads back from one view to another. -/
abbrev StackBack (view : TournamentStore → δ) (stack : List DrawAction) (after before : δ) : Prop :=
  ViewBack view (DrawAction.undoAll stack) after before

section

variable {view : TournamentStore → δ} {v v' v'' : δ}

theorem stackBack_nil (v : δ) : StackBack view [] v v := by
  unfold StackBack
  rw [DrawAction.undoAll]
  exact .pure trivial

theorem StackBack.cons {a : DrawAction} {stack : List DrawAction} (ha : ViewBack view a.undo v v')
    (hstack : StackBack view stack v' v'') : StackBack view (a :: stack) v v'' := by
  unfold StackBack
  rw [DrawAction.undoAll]
  exact ha.bind fun _ _ => hstack

end

theorem enrolled_of_members {id : CategoryId} {pid : PlayerId} (h : t.Enrolled id pid)
    (hmembers : members (fun _ => ()) t' = members (fun _ => ()) t) : t'.Enrolled id pid := by
  obtain ⟨c, hc, hpid⟩ := h
  obtain ⟨c', hc', hplayers⟩ := category_of_members hmembers hc
  exact ⟨c', hc', by rwa [hplayers]⟩

/-- What runs an action of a draw system on the players of its category keeps the invariant, and can be taken
back. -/
def RunsBack (J : TournamentStore → Prop) (view : TournamentStore → δ)
    (run : DrawAction → Exec DrawAction) : Prop :=
  ∀ ⦃t a a' t' id⦄, J t → a.Among id (t.Enrolled id) → run a t = .ok a' t' →
    J t' ∧ members (fun _ => ()) t' = members (fun _ => ()) t ∧ ViewBack view a'.undo (view t') (view t)

/-- A player who is set and a match that is written keep the invariant, and both can be taken back. -/
structure DrawsBack (J : TournamentStore → Prop) (view : TournamentStore → δ) : Prop where
  inLine : ∀ ⦃t⦄, J t → t.InLine
  assign : ∀ ⦃t t'⦄ ⦃a a' : SetMatchPlayerAction⦄, J t →
    (∀ pid, a.playerId = some pid → t.Enrolled a.combinedId.categoryId pid) → a.redoImpl t = .ok a' t' →
    J t' ∧ ViewBack view a'.undoImpl (view t') (view t)
  event : ∀ ⦃kind x t c m m' c' t'⦄, J t → MatchEventKind.Writes kind x t c m m' c' t' →
    J t' ∧ ViewBack view (MatchEventAction.restore x m.state m.events.length) (view t') (view t)

namespace DrawsBack

variable {J : TournamentStore → Prop} {view : TournamentStore → δ} {run : DrawAction → Exec DrawAction}
  {stack stack' : List DrawAction} {id : CategoryId} {before : δ}

theorem runAll (hrun : RunsBack J view run) {as : List DrawAction} (ht : J t)
    (has : ∀ a ∈ as, a.Among id (t.Enrolled id)) (hstack : StackBack view stack (view t) before)
    (h : JudoAssistant.runAll run as stack t = .ok stack' t') : J t' ∧ StackBack view stack' (view t') before := by
  induction as generalizing t stack with
  | nil =>
    obtain ⟨rfl, rfl⟩ := pure_ok.1 h
    exact ⟨ht, hstack⟩
  | cons a as ih =>
    obtain ⟨a', t₁, ha, hrest⟩ := bind_ok.1 h
    obtain ⟨ht₁, hmembers, hback⟩ := hrun ht (has a List.mem_cons_self) ha
    refine ih ht₁ (fun b hb => ?_) (StackBack.cons hback hstack) hrest
    have hamong := has b (List.mem_cons_of_mem _ hb)
    cases b with
    | setMatchPlayer b => exact ⟨hamong.1, fun p hp => enrolled_of_members (hamong.2 p hp) hmembers⟩
    | setMatchBye => exact hamong

variable (hback : DrawsBack J view)

include hback

theorem updateDraw (hrun : RunsBack J view run) (ht : J t) (hstack : StackBack view stack (view t) before)
    (h : JudoAssistant.updateDraw run id stack t = .ok stack' t') : J t' ∧
    StackBack view stack' (view t') before := by
  simp only [JudoAssistant.updateDraw, bind_ok, getCategory_ok, read_ok] at h
  obtain ⟨c, _, ⟨hc, rfl⟩, actions, _, ⟨hactions, rfl⟩, h⟩ := h
  obtain ⟨hlinked, hindexed⟩ := hback.inLine ht
  have hid : c.id = id := hindexed.category id c hc
  have hamong : ∀ a ∈ actions, a.Among id (t.Enrolled id) := by
    rw [← hid]
    refine DrawSystem.among_updateCategory (hindexed.index id c hc).ids (fun p hp => ?_) (fun m hm i p hp => ?_)
      hactions
    · exact ⟨c, by rw [hid]; exact hc, hlinked.roster id c p not_false hc hp⟩
    · exact ⟨c, by rw [hid]; exact hc, hlinked.within id c m p not_false hc hm ⟨i, hp⟩⟩
  exact runAll hrun ht hamong hstack h

/-- A match event with the updates that follow it. -/
theorem redoWith (hrun : RunsBack J view run) {kind : MatchEventKind} {saved saved' : Saved} (ht : J t)
    (h : MatchEventAction.redoWith run kind.rules x saved [] t = .ok (saved', stack') t') :
    J t' ∧ ((saved' = saved ∧ stack' = [] ∧ t' = t ∧ ¬kind.Happens x t) ∨
      ∃ prevState prevEventSize, saved' = .state prevState prevEventSize ∧ ViewBack view (do
        DrawAction.undoAll stack'
        MatchEventAction.restore x prevState prevEventSize) (view t') (view t)) := by
  obtain ⟨rfl, rfl, rfl, hnot⟩ | ⟨c, m, m', c', t₁, hwrites, rfl, hrest⟩ :=
    MatchEventAction.redoWith_writes (hback.inLine ht).indexed h
  · exact ⟨ht, .inl ⟨rfl, rfl, rfl, hnot⟩⟩
  · obtain ⟨ht₁, hrestore⟩ := hback.event ht hwrites
    obtain ⟨rfl, rfl⟩ | hupdate := hrest
    · exact ⟨ht₁, .inr ⟨_, _, rfl, (stackBack_nil _).bind fun _ _ => hrestore⟩⟩
    · obtain ⟨ht', hstack⟩ := hback.updateDraw hrun ht₁ (stackBack_nil (view t₁)) hupdate
      exact ⟨ht', .inr ⟨_, _, rfl, hstack.bind fun _ _ => hrestore⟩⟩

theorem runsBack_redo (n : ℕ) : RunsBack J view (DrawAction.redo n) := by
  have hset : ∀ (n : ℕ) {a : SetMatchPlayerAction} {b : DrawAction} {t t' : TournamentStore} {id : CategoryId},
      J t → (DrawAction.setMatchPlayer a).Among id (t.Enrolled id) →
      DrawAction.redo n (.setMatchPlayer a) t = .ok b t' →
      J t' ∧ members (fun _ => ()) t' = members (fun _ => ()) t ∧ ViewBack view b.undo (view t') (view t) := by
    intro n a b t t' id ht hamong h
    have hredo : (do
        let a ← a.redoImpl
        return DrawAction.setMatchPlayer a : Exec DrawAction) t = .ok b t' := by
      cases n <;> exact h
    obtain ⟨a', t₁, ha, hrest⟩ := bind_ok.1 hredo
    obtain ⟨rfl, rfl⟩ := pure_ok.1 hrest
    obtain ⟨hid, hplayer⟩ := hamong
    subst hid
    obtain ⟨ht', hundo⟩ := hback.assign ht hplayer ha
    refine ⟨ht', (matchBlind_members profileSight_unit).setMatchPlayer_redo ha, ?_⟩
    rw [DrawAction.undo]
    exact hundo
  induction n with
  | zero =>
    intro t a a' t' id ht hamong h
    cases a with
    | setMatchPlayer a => exact hset 0 ht hamong h
    | setMatchBye => exact (throw_ok.1 h).elim
  | succ n ih =>
    intro t a a' t' id ht hamong h
    cases a with
    | setMatchPlayer a => exact hset (n + 1) ht hamong h
    | setMatchBye x bye saved stack =>
      obtain ⟨-, rfl, rfl⟩ := hamong
      have hmembers : members (fun _ => ()) t' = members (fun _ => ()) t :=
        Frame.of_keeps (fun v => ((matchBlind_members profileSight_unit).course v).drawAction_redo (n + 1) _ trivial) h
      obtain ⟨⟨saved', stack'⟩, t₁, hevent, hrest⟩ := bind_ok.1 h
      obtain ⟨rfl, rfl⟩ := pure_ok.1 hrest
      have hevent : MatchEventAction.redoWith (DrawAction.redo n) (MatchEventKind.setMatchBye bye).rules x _ _ t = _ :=
        hevent
      obtain ⟨ht', ⟨rfl, rfl, -, -⟩ | ⟨prevState, prevEventSize, rfl, hundo⟩⟩ := hback.redoWith ih ht hevent
      · refine ⟨ht', hmembers, fun u w u' _ _ hundo => ?_⟩
        rw [DrawAction.undo] at hundo
        exact (throw_ok.1 hundo).elim
      · refine ⟨ht', hmembers, ?_⟩
        rw [DrawAction.undo]
        exact hundo

theorem updateDraws {ids : List CategoryId} (ht : J t) (hstack : StackBack view stack (view t) before)
    (h : ResetMatchesAction.updateDraws ids stack t = .ok stack' t') : J t' ∧
    StackBack view stack' (view t') before := by
  induction ids generalizing t stack with
  | nil =>
    obtain ⟨rfl, rfl⟩ := pure_ok.1 h
    exact ⟨ht, hstack⟩
  | cons id ids ih =>
    obtain ⟨stack₁, t₁, hupdate, hrest⟩ := bind_ok.1 h
    obtain ⟨ht₁, hstack₁⟩ := hback.updateDraw (hback.runsBack_redo _) ht hstack hupdate
    exact ih ht₁ hstack₁ hrest

/-! ### Events and resets -/

/-- A match event that changes nothing leaves its memory as it was. -/
theorem matchEvent {a a' : MatchEventAction} (hidle : a.drawActions = []) (ht : J t)
    (h : a.redoImpl t = .ok a' t') : J t' ∧ ((a' = a ∧ t' = t ∧ ¬a.kind.Happens a.combinedId t) ∨
      ViewBack view a'.undoImpl (view t') (view t)) := by
  obtain ⟨⟨saved, stack⟩, t₁, hevent, hrest⟩ := bind_ok.1 h
  obtain ⟨rfl, rfl⟩ := pure_ok.1 hrest
  rw [hidle] at hevent
  obtain ⟨ht', ⟨rfl, rfl, rfl, hnot⟩ | ⟨prevState, prevEventSize, rfl, hundo⟩⟩ :=
    hback.redoWith (hback.runsBack_redo _) ht hevent
  · refine ⟨ht', .inl ⟨?_, rfl, hnot⟩⟩
    rw [← hidle]
  · refine ⟨ht', .inr fun u w u' hu hview hw => ?_⟩
    obtain ⟨w₁, u₁, h₁, hrest⟩ := bind_ok.1 hw
    obtain ⟨w₂, u₂, h₂, hrest⟩ := bind_ok.1 hrest
    obtain ⟨rfl, rfl⟩ := pure_ok.1 hrest
    exact ⟨(hundo hu hview (bind_ok.2 ⟨w₁, u₁, h₁, h₂⟩)).1,
      (hundo hu hview (bind_ok.2 ⟨w₁, u₁, h₁, h₂⟩)).2.1, trivial⟩

theorem resetMatches {a : ResetMatchesAction} (hdraw : a.drawActions = [])
    (hreset : ∀ x, Revocable J Indexed view (ResetMatchesAction.resetMatch x)
      (fun p => ResetMatchesAction.recoverMatch p.1) fun _ => True) (hchanged : a.changedMatches = []) :
    Revocable J Indexed view a.redoImpl ResetMatchesAction.undoImpl fun _ => True := by
  intro t a' t' ht h
  simp only [ResetMatchesAction.redoImpl, bind_ok, read_ok, pure_ok] at h
  obtain ⟨ids, _, ⟨-, rfl⟩, resets, t₁, hresets, stack, t₂, hupdates, rfl, rfl⟩ := h
  obtain ⟨ht₁, hrecover⟩ := revocable_forEach (fun x _ => hreset x) ht hresets
  rw [hdraw] at hupdates
  obtain ⟨ht', hstack⟩ := hback.updateDraws ht₁ (stackBack_nil (view t₁)) hupdates
  refine ⟨ht', ?_⟩
  unfold ResetMatchesAction.undoImpl
  rw [hchanged, List.append_nil]
  split
  · next hnil =>
    obtain rfl : resets = [] := by
      rw [List.reverse_eq_nil_iff, List.map_eq_nil_iff] at hnil
      exact hnil
    obtain ⟨-, rfl⟩ := pure_ok.1 hupdates
    cases ids with
    | nil =>
      obtain ⟨-, rfl⟩ := forEach_nil_ok.1 hresets
      exact .pure trivial
    | cons id ids =>
      obtain ⟨_, _, _, -, -, heq⟩ := forEach_cons_ok.1 hresets
      cases heq
  · refine hstack.bind fun _ _ => LeadsBack.bind (P := fun _ => True) ?_ fun _ _ => .pure trivial
    rw [← List.map_reverse, forEach_map]
    exact hrecover

end DrawsBack

/-! ### The cross references -/

theorem drawsBack_links : DrawsBack InLine links where
  inLine _ ht := ht
  assign _ _ _ _ ht hplayer h :=
    ⟨SetMatchPlayerAction.keeps_inLine ht hplayer h, SetMatchPlayerAction.links_back ht h⟩
  event _ _ t _ _ _ _ t' ht hwrites := by
    refine ⟨ht.of_steady hwrites.steady, ?_⟩
    rw [hwrites.steady.2]
    exact leadsBack_of_steady (fun _ => MatchEventAction.keeps_restore_steady _ _ _) _

theorem MatchEventAction.links_revocable {a : MatchEventAction} (hidle : a.drawActions = []) :
    LinksRevocable a.redoImpl undoImpl := by
  intro t a' t' ht h
  obtain ⟨ht', ⟨rfl, rfl, -⟩ | hundo⟩ := drawsBack_links.matchEvent hidle ht h
  · refine ⟨ht', ?_⟩
    unfold undoImpl
    cases hsaved : a'.saved with
    | unwritten =>
      intro u w u' _ _ hundo
      exact (throw_ok.1 hundo).elim
    | clear => exact .pure trivial
    | state prevState prevEventSize =>
      dsimp only
      rw [hidle]
      exact (stackBack_nil _).bind fun _ _ =>
        (leadsBack_of_steady (fun _ => keeps_restore_steady _ _ _) _).bind fun _ _ => .pure trivial
  · exact ⟨ht', hundo⟩

theorem ResetMatchesAction.links_revocable {a : ResetMatchesAction} (hchanged : a.changedMatches = [])
    (hdraw : a.drawActions = []) : LinksRevocable a.redoImpl undoImpl := by
  refine drawsBack_links.resetMatches hdraw (fun x t p t' ht h => ?_) hchanged
  obtain ⟨hsteady, -⟩ := keeps_resetMatch_steady x ⟨ht.indexed, rfl⟩ h
  refine ⟨ht.of_steady hsteady, ?_⟩
  rw [hsteady.2]
  exact leadsBack_of_steady (fun _ => keeps_recoverMatch_steady _) _

end

end JudoAssistant
