import JudoAssistant.Tournament.LinkRuns
import JudoAssistant.Tournament.UpdateTwice

/-!
# Updates of the draws in every session

Match events, resets and changes of weights update draws in tournaments that a session passes through.  There a
second update leaves the tournament as the first one has left it, unless it is that of a double pool whose semifinals
are over and have got players on their winning sides who have not won them.
-/

namespace JudoAssistant

open Effect Exec TournamentStore

/-! ### On the way -/

/-- A tournament that a match event, a reset or a change of weights passes through: matches, counters and weights
have been written, and draws have been updated. -/
inductive Underway (t : TournamentStore) : TournamentStore → Prop
  | start : Underway t t
  | event {t₁ t₂ : TournamentStore} {x : CombinedId} {kind : MatchEventKind} {r : RulesetIdentifier} {u : Unit}
      (h : Underway t t₁) (hstep : editMatch x (kind.rules.effect r) t₁ = .ok u t₂) : Underway t t₂
  | clear {t₁ t₂ : TournamentStore} {x : CombinedId} {u : Unit} (h : Underway t t₁)
      (hstep : editMatch x (fun m => .ok (m.clearState.setEvents [])) t₁ = .ok u t₂) : Underway t t₂
  | counter {t₁ t₂ : TournamentStore} {id : CategoryId} {m : MatchStore} {source target : MatchStatus} {u : Unit}
      (h : Underway t t₁) (hstep : moveCounter id m source target t₁ = .ok u t₂) : Underway t t₂
  | weights {t₁ t₂ : TournamentStore} {ids : List PlayerId} {value : Option ℚ}
      {changed : List (PlayerId × Option ℚ)}
      (h : Underway t t₁) (hstep : changeField weightField value ids t₁ = .ok changed t₂) : Underway t t₂
  | update {t₁ t₂ : TournamentStore} {id : CategoryId} {stack stack' : List DrawAction} (h : Underway t t₁)
      (hstep : updateDraw (DrawAction.redo maxDrawDepth) id stack t₁ = .ok stack' t₂) : Underway t t₂

theorem Underway.formed {t t' : TournamentStore} (h : Underway t t') (ht : t.Indexed ∧ t.Formed) :
    t'.Indexed ∧ t'.Formed := by
  have hcourse := lasting_formed.course
  induction h with
  | start => exact ht
  | event _ hstep ih => exact (hcourse.event _ _ _ ih hstep).1
  | clear _ hstep ih => exact (hcourse.clear _ ih hstep).1
  | counter _ hstep ih => exact (hcourse.counter _ _ _ _ ih hstep).1
  | weights _ hstep ih => exact (lasting_formed.of_frame (frame_changeField lasting_formed.field _) ih hstep).1
  | update _ hstep ih => exact (hcourse.updateDraw (hcourse.drawAction_redo _) _ _ ih hstep).1

/-! ### Players and links -/

/-- What an update does to the tournament does not depend on the stack. -/
theorem runAll_nil {run : DrawAction → Exec DrawAction} {t t' : TournamentStore} {as stack stack' : List DrawAction}
    (h : runAll run as stack t = .ok stack' t') : ∃ stack₁, runAll run as [] t = .ok stack₁ t' := by
  have hany : ∀ stack₀, ∃ stack₁, runAll run as stack₀ t = .ok stack₁ t' := by
    induction as generalizing stack t with
    | nil =>
      obtain ⟨-, rfl⟩ := pure_ok.1 h
      exact fun stack₀ => ⟨stack₀, rfl⟩
    | cons a as ih =>
      obtain ⟨b, t₁, hb, hrest⟩ := bind_ok.1 h
      intro stack₀
      obtain ⟨stack₁, hall⟩ := ih hrest (b :: stack₀)
      exact ⟨stack₁, bind_ok.2 ⟨b, t₁, hb, hall⟩⟩
  exact hany []

theorem updateDraw_nil {run : DrawAction → Exec DrawAction} {t t' : TournamentStore} {id : CategoryId}
    {stack stack' : List DrawAction} (h : updateDraw run id stack t = .ok stack' t') :
    ∃ stack₁, updateDraw run id [] t = .ok stack₁ t' := by
  obtain ⟨c, t₁, hc, hrest⟩ := bind_ok.1 h
  obtain ⟨actions, t₂, hactions, hall⟩ := bind_ok.1 hrest
  obtain ⟨stack₁, hall⟩ := runAll_nil hall
  exact ⟨stack₁, bind_ok.2 ⟨c, t₁, hc, bind_ok.2 ⟨actions, t₂, hactions, hall⟩⟩⟩

theorem inLine_of_steady {α : Type} {x : Exec α} (hx : ∀ v, Keeps (Steady v) x fun _ => True)
    {t t' : TournamentStore} {a : α} (ht : t.InLine) (h : x t = .ok a t') : t'.InLine :=
  ht.of_steady (hx t.links ⟨ht.indexed, rfl⟩ h).1

theorem Underway.inLine {t t' : TournamentStore} (h : Underway t t') (ht : t.InLine) : t'.InLine := by
  induction h with
  | start => exact ht
  | event _ hstep ih =>
    exact inLine_of_steady (fun _ => keeps_editMatch_steady fun _ _ hf => MatchStore.SameFight.effect _ hf) ih hstep
  | clear _ hstep ih =>
    refine inLine_of_steady (fun _ => keeps_editMatch_steady fun _ _ hf => ?_) ih hstep
    cases hf
    exact ⟨rfl, rfl, rfl, rfl⟩
  | counter _ hstep ih => exact inLine_of_steady (fun _ => keeps_moveCounter_steady _ _ _ _) ih hstep
  | weights _ hstep ih =>
    exact ⟨ih.linked.of_links (frame_changeField fieldBlind_links _ hstep),
      ih.indexed.of_keys (frame_changeField fieldBlind_keys _ hstep)⟩
  | update _ hstep ih =>
    obtain ⟨stack₁, hone⟩ := updateDraw_nil hstep
    exact (drawsBack_links.updateDraw (drawsBack_links.runsBack_redo _) ih (stackBack_nil _) hone).1

/-- The players of the matches and of the pools exist. -/
theorem TournamentStore.InLine.present {t : TournamentStore} (ht : t.InLine) {id : CategoryId} {c : CategoryStore}
    {d : DoublePoolDrawSystem} (hc : t.categories id = some c) (hdraw : c.drawSystem = .doublePool d)
    (hfour : 4 ≤ d.players.length) : d.Present t c where
  fighters m hm p hp := Option.isSome_iff_ne_none.2 (ht.linked.fighters_exist id c m p hc hm hp)
  pools p hp := by
    refine Option.isSome_iff_ne_none.2 (ht.linked.members_exist id c p hc (ht.linked.roster id c p not_false hc ?_))
    rw [hdraw]
    show p ∈ if d.players.length < 4 then [] else d.poolPlayers
    rw [if_neg (by omega)]
    exact hp

/-! ### Every update -/

/-- One update of the draw is enough. -/
def DrawSystem.UpdatesOnce (t : TournamentStore) (c : CategoryStore) : DrawSystem → Prop
  | doublePool d => 4 ≤ d.players.length → d.FinalistsStay t c
  | _ => True

section

variable {s : Session} {t t₁ : TournamentStore} {id : CategoryId} {c : CategoryStore} {stack : List DrawAction}

/-- A draw system that asks for no actions. -/
theorem updateDraw_again_of_nil (hc : t.categories id = some c) (hnil : c.drawSystem.updateCategory t c = .ok [])
    (h : updateDraw (DrawAction.redo maxDrawDepth) id [] t = .ok stack t₁) :
    ∃ stack₂, updateDraw (DrawAction.redo maxDrawDepth) id [] t₁ = .ok stack₂ t₁ := by
  obtain ⟨actions, hactions, hall⟩ := (DoublePoolDrawSystem.updateDraw_own_ok hc).1 h
  rw [hnil] at hactions
  cases hactions
  obtain ⟨-, rfl⟩ := pure_ok.1 hall
  exact ⟨_, h⟩

/-- Wherever a session or one of its actions updates a draw, a second update leaves the tournament as the first
one has left it if and only if one is enough. -/
theorem update_again (hs : s.Constructed) (ht : Underway s.tournament t) (hc : t.categories id = some c)
    (h : updateDraw (DrawAction.redo maxDrawDepth) id [] t = .ok stack t₁) :
    (∃ stack₂, updateDraw (DrawAction.redo maxDrawDepth) id [] t₁ = .ok stack₂ t₁) ↔
      c.drawSystem.UpdatesOnce t c := by
  obtain ⟨hindexed, hformed⟩ := ht.formed ⟨hs.indexed, hs.formed⟩
  have hshape := hformed id c hc
  cases hdraw : c.drawSystem with
  | pool d =>
    refine ⟨fun _ => trivial, fun _ => updateDraw_again_of_nil hc ?_ h⟩
    rw [hdraw]
    rfl
  | doublePool d =>
    rw [hdraw] at hshape
    by_cases hfour : 4 ≤ d.players.length
    · obtain ⟨x, y, z, hshaped⟩ := hshape hfour
      have hpresent := (ht.inLine ⟨hs.orderly.linked, hs.indexed⟩).present hc hdraw hfour
      rw [DoublePoolDrawSystem.updateDraw_again hindexed hc hdraw hfour hshaped hpresent h]
      exact ⟨fun hstay _ => hstay, fun honce => honce hfour⟩
    · refine ⟨fun _ hlength => absurd hlength hfour, fun _ => updateDraw_again_of_nil hc ?_ h⟩
      rw [hdraw]
      exact if_pos (Nat.lt_of_not_le hfour)
  | bestOfThree d =>
    rw [hdraw] at hshape
    refine ⟨fun _ => trivial, fun _ => ?_⟩
    by_cases htwo : d.players.length = 2
    · obtain ⟨x, y, z, hids, hdistinct⟩ := hshape htwo
      exact BestOfThreeDrawSystem.updateDraw_again hindexed hc hdraw htwo hids hdistinct h
    · refine updateDraw_again_of_nil hc ?_ h
      rw [hdraw]
      exact if_pos htwo

end

namespace DoublePoolDrawSystem

/-- The tournament after a run that returns. -/
def stateAfter {α : Type} (x : Exec α) (t : TournamentStore) : Option TournamentStore :=
  match x t with
  | .ok _ t => some t
  | .error _ _ => none

theorem stateAfter_eq_some {α : Type} {x : Exec α} {t t' : TournamentStore} (h : stateAfter x t = some t') :
    ∃ a, x t = .ok a t' := by
  unfold stateAfter at h
  split at h
  · next a _ hx =>
    cases h
    exact ⟨a, hx⟩
  · cases h

/-- The players of the final. -/
def finalPlayers (t : TournamentStore) : Option (Option PlayerId × Option PlayerId) := do
  let c ← t.categories ⟨1⟩
  let final ← (c.getMatch ⟨3071714933⟩).toOption
  return (final.getPlayer .white, final.getPlayer .blue)

/-- The update of the category. -/
def updateOne : Exec (List DrawAction) := updateDraw (DrawAction.redo maxDrawDepth) ⟨1⟩ []

theorem update_again_semiFinalsWon : ∃ s c stack t₁, Session.Constructed s ∧
    s.tournament.categories ⟨1⟩ = some c ∧ updateOne s.tournament = .ok stack t₁ ∧
    ((∃ stack₂, updateOne t₁ = .ok stack₂ t₁) ↔ c.drawSystem.UpdatesOnce s.tournament c) := by
  have hrun : ((Runs.run Session.next semiFinalsWon {}).bind fun s =>
      stateAfter updateOne s.tournament).isSome = true := by
    decide +kernel
  obtain ⟨t₁, h⟩ := Option.isSome_iff_exists.1 hrun
  obtain ⟨s, hs, hstate⟩ := Option.bind_eq_some_iff.1 h
  obtain ⟨stack, hupdate⟩ := stateAfter_eq_some hstate
  obtain ⟨c, _, hget, -⟩ := bind_ok.1 hupdate
  obtain ⟨hc, -⟩ := getCategory_ok.1 hget
  exact ⟨s, c, stack, t₁, constructed_semiFinalsWon hs, hc, hupdate,
    update_again (constructed_semiFinalsWon hs) .start hc hupdate⟩

/-- The loser of a pool wins it after both semifinals, since hansoku-make is given to the winner.  The first update
gives the final to the winners of the old semifinals, and the second one to those of the new semifinals. -/
theorem not_update_again : ∃ s t c stack t₁, Session.Constructed s ∧ Underway s.tournament t ∧
    t.categories ⟨1⟩ = some c ∧ updateOne t = .ok stack t₁ ∧
      ¬∃ stack₂, updateOne t₁ = .ok stack₂ t₁ := by
  have hrun : (do
      let s ← Runs.run Session.next semiFinalsWon {}
      let t ← stateAfter (editMatch ⟨⟨1⟩, ⟨1656774023⟩⟩
        ((MatchEventKind.awardHansokuMake .white 5).rules.effect .twentyEighteen)) s.tournament
      let t₁ ← stateAfter updateOne t
      let t₂ ← stateAfter updateOne t₁
      return (finalPlayers t₁, finalPlayers t₂)) =
      some (some (some ⟨2⟩, some ⟨1⟩), some (some ⟨2⟩, some ⟨4⟩)) := by decide +kernel
  obtain ⟨s, hs, h⟩ := Option.bind_eq_some_iff.1 hrun
  obtain ⟨t, ht, h⟩ := Option.bind_eq_some_iff.1 h
  obtain ⟨t₁, ht₁, h⟩ := Option.bind_eq_some_iff.1 h
  obtain ⟨t₂, ht₂, h⟩ := Option.bind_eq_some_iff.1 h
  obtain ⟨_, hedit⟩ := stateAfter_eq_some ht
  obtain ⟨stack, hfirst⟩ := stateAfter_eq_some ht₁
  obtain ⟨stack', hsecond⟩ := stateAfter_eq_some ht₂
  obtain ⟨c, _, hget, -⟩ := bind_ok.1 hfirst
  obtain ⟨hc, -⟩ := getCategory_ok.1 hget
  refine ⟨s, t, c, stack, t₁, constructed_semiFinalsWon hs, .event .start hedit, hc, hfirst, ?_⟩
  rintro ⟨stack₂, hidle⟩
  have hsame := (EStateM.Result.ok.inj (hidle.symm.trans hsecond)).2
  obtain ⟨h₁, h₂⟩ := Prod.mk.inj (Option.some.inj h)
  rw [hsame, h₂] at h₁
  exact absurd h₁ (by decide)

end DoublePoolDrawSystem

end JudoAssistant
