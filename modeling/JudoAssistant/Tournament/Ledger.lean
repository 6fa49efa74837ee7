import JudoAssistant.Tournament.Detours

/-!
# Taking back the course of the matches

The sheet of a category is all that is in it but for where its blocks are and which of its matches are byes: the undo
of `SetMatchByeAction` leaves the flag of the bye as it is (`src/core/actions/set_match_bye_action.cpp`).  Whatever
happens to a match, with all that the draw system does after it, can be taken back on the sheets.
-/

namespace JudoAssistant

open Effect Exec TournamentStore

/-! ### Sheets -/

/-- The match without the flag of a bye. -/
def MatchStore.plain (m : MatchStore) : MatchStore := { m with bye := false }

/-- The category with plain matches and without its blocks. -/
def CategoryStore.sheet (c : CategoryStore) : CategoryStore :=
  { c with matchList := c.matchList.map MatchStore.plain, location := ⟨none, none⟩ }

/-- The players and the sheets of the categories. -/
def TournamentStore.ledger : TournamentStore →
    (PlayerId → Option PlayerStore) × (CategoryId → Option CategoryStore) :=
  project id CategoryStore.sheet

section

variable {t t' u u' : TournamentStore} {c c' cu cu' : CategoryStore} {m m' n n' : MatchStore} {x : MatchId}
  {move : Option (MatchStatus × MatchStatus)}

namespace CategoryStore

theorem getMatch_sheet (hm : c.getMatch x = .ok m) : c.sheet.getMatch x = .ok m.plain := by
  have hmap : c.sheet.matchMap = c.matchMap := rfl
  have hlist : c.sheet.matchList = c.matchList.map MatchStore.plain := rfl
  unfold getMatch at hm ⊢
  rw [hmap, hlist]
  cases hx : c.matchMap x with
  | none =>
    rw [hx] at hm
    cases hm
  | some i =>
    simp only [hx, List.getElem?_map] at hm ⊢
    cases hi : c.matchList[i]? with
    | none =>
      rw [hi] at hm
      cases hm
    | some n =>
      rw [hi] at hm
      cases hm
      rfl

theorem setMatch_sheet (c : CategoryStore) (x : MatchId) (m : MatchStore) :
    (c.setMatch x m).sheet = c.sheet.setMatch x m.plain := by
  have hmap : c.sheet.matchMap = c.matchMap := rfl
  unfold setMatch
  rw [hmap]
  cases c.matchMap x with
  | none => rfl
  | some i =>
    show sheet { c with matchList := c.matchList.set i m } =
      { c.sheet with matchList := c.sheet.matchList.set i m.plain }
    unfold sheet
    rw [List.map_set]

/-- A match that is rewritten is rewritten on the sheet. -/
theorem Rewrites.sheet (h : c.Rewrites x m m' move c') : c.sheet.Rewrites x m.plain m'.plain move c'.sheet := by
  refine ⟨getMatch_sheet h.old, ?_⟩
  cases move with
  | none =>
    obtain rfl : c' = c.setMatch x m' := h.new
    exact setMatch_sheet c x m'
  | some move =>
    obtain ⟨s, hs, rfl⟩ := recount_ok.1 h.new
    have hcount : (c.sheet.setMatch x m'.plain).recount m'.type move.1 move.2 =
        .ok ((c.sheet.setMatch x m'.plain).setStatus m'.type (s.increment move.2)) := by
      refine recount_ok.2 ⟨s, ?_, rfl⟩
      rw [← setMatch_sheet]
      exact hs
    rw [← setMatch_sheet] at hcount
    show (c.sheet.setMatch x m'.plain).recount m'.type move.1 move.2 = _
    rw [← setMatch_sheet]
    exact hcount

/-- Where the sheets agree, a match that is rewritten can be written back. -/
theorem Rewrites.sheet_back (h : c.Rewrites x m m' move c') (htype : m'.type = m.type) (hsheet : cu.sheet = c'.sheet)
    (hback : cu.Rewrites x n n' (move.map Prod.swap) cu') (hplain : n'.plain = m.plain) : cu'.sheet = c.sheet := by
  have hwritten := hback.sheet
  rw [hsheet] at hwritten
  exact (h.sheet.back htype hwritten).2 hplain

theorem plain_eq_of_sheet (hsheet : cu.sheet = c.sheet) (hm : c.getMatch x = .ok m) (hn : cu.getMatch x = .ok n) :
    n.plain = m.plain := by
  have hsame := getMatch_sheet hn
  rw [hsheet, getMatch_sheet hm] at hsame
  exact (Except.ok.inj hsame).symm

end CategoryStore

namespace TournamentStore

theorem players_of_ledger (hview : u.ledger = t.ledger) : u.players = t.players := by
  funext pid
  have hpid := players_of_project hview pid
  rwa [Option.map_id, id, id] at hpid

theorem category_of_ledger (hview : u.ledger = t.ledger) {id : CategoryId} (hc : t.categories id = some c) :
    ∃ cu, u.categories id = some cu ∧ cu.sheet = c.sheet := by
  have heq := categories_of_project hview id
  rw [hc, Option.map_some, Option.map_eq_some_iff] at heq
  exact heq

/-- The fights are on the sheet. -/
theorem links_of_ledger (hview : u.ledger = t.ledger) : u.links = t.links := by
  have hfights : ∀ e : CategoryStore, e.sheet.matchList.map (·.fight) = e.matchList.map (·.fight) := by
    intro e
    show (e.matchList.map MatchStore.plain).map (·.fight) = _
    rw [List.map_map]
    rfl
  refine Prod.ext (funext fun pid => ?_) (funext fun cid => ?_)
  · show (u.players pid).map _ = (t.players pid).map _
    rw [players_of_ledger hview]
  · have hcid := congrArg (Option.map fun e : CategoryStore =>
      (e.players, e.matchList.map (·.fight), e.drawSystem)) (categories_of_project hview cid)
    rw [Option.map_map, Option.map_map] at hcid
    show (u.categories cid).map (fun e => (e.players, e.matchList.map (·.fight), e.drawSystem)) =
      (t.categories cid).map fun e => (e.players, e.matchList.map (·.fight), e.drawSystem)
    have hsheet : (fun e : CategoryStore => (e.players, e.matchList.map (·.fight), e.drawSystem)) =
        (fun e : CategoryStore => (e.players, e.matchList.map (·.fight), e.drawSystem)) ∘ CategoryStore.sheet := by
      funext e
      show _ = (e.players, e.sheet.matchList.map (·.fight), e.drawSystem)
      rw [hfights]
    rw [hsheet]
    exact hcid

/-- One category is written, and written back on what looks the same. -/
theorem Rewritten.ledger {id : CategoryId} (ht : t.Rewritten id c' t') (hu : u.Rewritten id cu' u')
    (hview : u.ledger = t'.ledger) (hc : t.categories id = some c) (hsheet : cu'.sheet = c.sheet) :
    u'.ledger = t.ledger := by
  refine Prod.ext (funext fun pid => ?_) (funext fun cid => ?_)
  · show (u'.players pid).map _ = (t.players pid).map _
    rw [hu.players, players_of_ledger hview, ht.players]
  · show (u'.categories cid).map CategoryStore.sheet = (t.categories cid).map CategoryStore.sheet
    by_cases hcid : cid = id
    · rw [hcid, hu.category, hc, Option.map_some, Option.map_some, hsheet]
    · rw [hu.other cid hcid, ← ht.other cid hcid]
      exact categories_of_project hview cid

end TournamentStore

end

/-! ### Events -/

section

variable {γ : Type} {t t' u : TournamentStore} {c : CategoryStore} {m m' : MatchStore} {x : CombinedId}

/-- The computation leads back from one ledger to another. -/
abbrev LedgerBack (y : Exec γ)
    (after before : (PlayerId → Option PlayerStore) × (CategoryId → Option CategoryStore)) :
    Prop := ViewBack ledger y after before

/-- But for the flag of a bye, an event writes the state of its match and adds events. -/
theorem MatchEventKind.plain_effect {kind : MatchEventKind} {r : RulesetIdentifier}
    (hguard : kind.rules.guard r m = true)
    (heffect : kind.rules.effect r m = .ok m') : m.plain.Advances m'.plain := by
  cases htime : kind.masterTime with
  | none =>
    cases kind with
    | setMatchBye bye =>
      have hset : (m.setStatus (if bye then .finished else .notStarted)).setBye bye = .ok m' := heffect
      simp only [MatchStore.setBye, except_bind_ok, except_pure_ok] at hset
      obtain ⟨_, -, rfl⟩ := hset
      exact RulesetIdentifier.advances_of_state rfl
    | _ => cases htime
  | some time =>
    obtain ⟨state, events, rfl⟩ := (RulesetIdentifier.follows_effect htime hguard heffect).advances
    exact ⟨state, events, rfl⟩

theorem MatchEventAction.restore_writes {prevState : MatchState} {prevEventSize : ℕ} {v : Unit}
    (hc : t.categories x.categoryId = some c) (h : restore x prevState prevEventSize t = .ok v t') : ∃ m c',
      c.Rewrites x.matchId m ((m.setState prevState).setEvents (m.events.take prevEventSize))
        (counterMove m.getStatus prevState.status) c' ∧ t.Rewritten x.categoryId c' t' := by
  obtain ⟨n, t₁, hget, hrest⟩ := bind_ok.1 h
  obtain ⟨hn, rfl⟩ := (getMatch_own hc).1 hget
  obtain ⟨_, t₂, hedit, hrest⟩ := bind_ok.1 hrest
  obtain ⟨n', t₃, hget', hcount⟩ := bind_ok.1 hrest
  obtain ⟨m, c', hwrite, hrewrites, hrewritten⟩ := rewrites_rewritten hc hedit hget' hcount
  cases hn.symm.trans hrewrites.old
  simp only [except_bind_ok, except_pure_ok] at hwrite
  obtain ⟨_, -, rfl⟩ := hwrite
  exact ⟨n, c', hrewrites, hrewritten⟩

theorem ResetMatchesAction.resetMatch_writes {p : ResetMatch × Bool} (h : resetMatch x t = .ok p t') : ∃ c m c',
    t.categories x.categoryId = some c ∧ p.1 = ⟨x, m.state, m.events⟩ ∧
      c.Rewrites x.matchId m (m.clearState.setEvents [])
        (if m.clearState.getStatus ≠ m.getStatus then some (m.getStatus, .notStarted) else none) c' ∧
      t.Rewritten x.categoryId c' t' := by
  obtain ⟨m, t₁, hget, hrest⟩ := bind_ok.1 h
  obtain ⟨c, hc⟩ : ∃ c, t.categories x.categoryId = some c := by
    obtain ⟨c, t₂, hc, -⟩ := bind_ok.1 hget
    exact ⟨c, (getCategory_ok.1 hc).1⟩
  obtain ⟨hm, rfl⟩ := (getMatch_own hc).1 hget
  obtain ⟨_, t₂, hedit, hrest⟩ := bind_ok.1 hrest
  obtain ⟨m', t₃, hget', hrest⟩ := bind_ok.1 hrest
  obtain ⟨_, t₄, hcount, hrest⟩ := bind_ok.1 hrest
  obtain ⟨rfl, rfl⟩ := pure_ok.1 hrest
  obtain ⟨m₀, c', hclear, hrewrites, hrewritten⟩ := rewrites_rewritten hc hedit hget' hcount
  cases hm.symm.trans hrewrites.old
  cases hclear
  simp only [decide_eq_true_eq] at hrewrites
  exact ⟨c, m, c', hc, rfl, hrewrites, hrewritten⟩

theorem ResetMatchesAction.recoverMatch_writes {r : ResetMatch} {v : Unit}
    (hc : t.categories r.combinedId.categoryId = some c) (h : recoverMatch r t = .ok v t') : ∃ m c',
      c.Rewrites r.combinedId.matchId m ((m.setState r.prevState).setEvents r.prevEvents)
        (if m.getStatus ≠ r.prevState.status then some (.notStarted, r.prevState.status) else none) c' ∧
      t.Rewritten r.combinedId.categoryId c' t' := by
  obtain ⟨n, t₁, hget, hrest⟩ := bind_ok.1 h
  obtain ⟨hn, rfl⟩ := (getMatch_own hc).1 hget
  obtain ⟨_, t₂, hedit, hrest⟩ := bind_ok.1 hrest
  obtain ⟨n', t₃, hget', hcount⟩ := bind_ok.1 hrest
  obtain ⟨m, c', hwrite, hrewrites, hrewritten⟩ := rewrites_rewritten hc hedit hget' hcount
  cases hn.symm.trans hrewrites.old
  cases hwrite
  simp only [decide_eq_true_eq] at hrewrites
  exact ⟨n, c', hrewrites, hrewritten⟩

/-- The undo of an event writes its match back. -/
theorem MatchEventKind.Writes.ledger_back {kind : MatchEventKind} {c' : CategoryStore}
    (h : kind.Writes x t c m m' c' t') :
    LedgerBack (MatchEventAction.restore x m.state m.events.length) t'.ledger t.ledger := by
  intro u v u' hu hview hrestore
  obtain ⟨cu, hcu, hsheet⟩ := category_of_ledger hview h.rewritten.category
  obtain ⟨n, cu', hback, hrewritten⟩ := MatchEventAction.restore_writes hcu hrestore
  have hn : n.plain = m'.plain := CategoryStore.plain_eq_of_sheet hsheet h.rewrites.getMatch hback.old
  obtain ⟨state, events, hadvances⟩ := plain_effect h.guard h.effect
  have hstatus : n.getStatus = m'.getStatus := by
    show n.plain.getStatus = m'.plain.getStatus
    rw [hn]
  have hmove : counterMove n.getStatus m.state.status = (counterMove m.getStatus m'.getStatus).map Prod.swap := by
    rw [counterMove_swap, hstatus]
    rfl
  rw [hmove] at hback
  have hplain : ((n.setState m.state).setEvents (n.events.take m.events.length)).plain = m.plain := by
    have hevents : n.plain.events = m.events ++ events := by
      rw [hn, hadvances]
      rfl
    have htake : n.events.take m.events.length = m.events := by
      show n.plain.events.take m.events.length = m.events
      rw [hevents, List.take_left]
    rw [htake]
    show (n.plain.setState m.state).setEvents m.events = m.plain
    rw [hn, hadvances]
    rfl
  have hindexed : u'.Indexed := (MatchEventAction.keeps_restore_steady x _ _ ⟨hu, rfl⟩ hrestore).1.1
  refine ⟨hindexed, h.rewritten.ledger hrewritten hview h.category ?_, trivial⟩
  exact h.rewrites.sheet_back (MatchStore.SameFight.effect _ h.effect).type hsheet hback hplain

/-- A reset of a match can be taken back. -/
theorem ResetMatchesAction.resetMatch_ledger_back {p : ResetMatch × Bool}
    (h : resetMatch x t = .ok p t') : LedgerBack (recoverMatch p.1) t'.ledger t.ledger := by
  obtain ⟨c, m, c', hc, hp, hrewrites, hrewritten⟩ := resetMatch_writes h
  rw [hp]
  intro u v u' hu hview hrecover
  obtain ⟨cu, hcu, hsheet⟩ := category_of_ledger hview hrewritten.category
  obtain ⟨n, cu', hback, hrewritten'⟩ := recoverMatch_writes hcu hrecover
  have hn : n.plain = (m.clearState.setEvents []).plain :=
    CategoryStore.plain_eq_of_sheet hsheet hrewrites.getMatch hback.old
  have hstatus : n.getStatus = m.clearState.getStatus := by
    show n.plain.getStatus = (m.clearState.setEvents []).plain.getStatus
    rw [hn]
  have hmove : (if n.getStatus ≠ m.state.status then some (MatchStatus.notStarted, m.state.status) else none) =
      (if m.clearState.getStatus ≠ m.getStatus then some (m.getStatus, MatchStatus.notStarted) else none).map
        Prod.swap := by
    rw [hstatus]
    show (if m.clearState.getStatus ≠ m.getStatus then _ else _) = _
    split <;> rfl
  rw [hmove] at hback
  have hplain : ((n.setState m.state).setEvents m.events).plain = m.plain := by
    show (n.plain.setState m.state).setEvents m.events = m.plain
    rw [hn]
    rfl
  have hindexed : u'.Indexed := (keeps_recoverMatch_steady _ ⟨hu, rfl⟩ hrecover).1.1
  exact ⟨hindexed, hrewritten.ledger hrewritten' hview hc (hrewrites.sheet_back rfl hsheet hback hplain), trivial⟩

/-- Setting a player of a match can be taken back. -/
theorem SetMatchPlayerAction.ledger_back {a a' : SetMatchPlayerAction} (ht : t.InLine) (h : a.redoImpl t = .ok a' t') :
    LedgerBack a'.undoImpl t'.ledger t.ledger := by
  intro u v u' hu hview hundo
  refine ⟨(keeps_undo_indexed _ hu hundo).1, ?_, trivial⟩
  obtain ⟨rfl, rfl⟩ | ⟨c, m, cu, mu, hc, hm, hnew, hcu, hmu, rfl, rfl⟩ :=
    undo_cases ht.indexed h hu (links_of_ledger hview) hundo
  · exact hview
  · have hc₁ : (t.reseat a.combinedId a.playerIndex (m.getPlayer a.playerIndex) a.playerId c m).categories
        a.combinedId.categoryId = some _ := Function.update_self _ _ _
    have hm₁ := CategoryStore.getMatch_setMatch hm (m.setPlayer a.playerIndex a.playerId)
    obtain ⟨cu', hcu', hsheet⟩ := category_of_ledger hview hc₁
    cases hcu.symm.trans hcu'
    have hplain := CategoryStore.plain_eq_of_sheet hsheet hm₁ hmu
    refine (project_reseat (fun p q S S' heq => ?_) hview ?_).trans (reseat_back ht hc hm hnew)
    · cases heq
      rfl
    · rw [CategoryStore.setMatch_sheet, CategoryStore.setMatch_sheet, hsheet]
      congr 1
      show mu.plain.setPlayer a.playerIndex (m.getPlayer a.playerIndex) =
        (m.setPlayer a.playerIndex a.playerId).plain.setPlayer a.playerIndex (m.getPlayer a.playerIndex)
      rw [hplain]

theorem drawsBack_ledger : DrawsBack InLine ledger where
  inLine _ ht := ht
  assign _ _ _ _ ht hplayer h :=
    ⟨SetMatchPlayerAction.keeps_inLine ht hplayer h, SetMatchPlayerAction.ledger_back ht h⟩
  event _ _ _ _ _ _ _ _ ht hwrites := ⟨ht.of_steady hwrites.steady, hwrites.ledger_back⟩

theorem ResetMatchesAction.ledger_revocable {a : ResetMatchesAction} (hchanged : a.changedMatches = [])
    (hdraw : a.drawActions = []) : Revocable InLine Indexed ledger a.redoImpl undoImpl fun _ => True := by
  refine drawsBack_ledger.resetMatches hdraw (fun x t p t' ht h => ?_) hchanged
  obtain ⟨hsteady, -⟩ := keeps_resetMatch_steady x ⟨ht.indexed, rfl⟩ h
  exact ⟨ht.of_steady hsteady, resetMatch_ledger_back h⟩

end

end JudoAssistant
