import JudoAssistant.Tournament.CategoryCourse
import JudoAssistant.Tournament.Registers

/-!
# Players who come and go

The change of a field of the players with the draws that follow it, and the players that are added to the
tournament and erased from it.  A player who is erased has left all his categories before.
-/

namespace JudoAssistant

open Effect Exec TournamentStore

section

variable {α β γ δ : Type} {f : PlayerStore → α} {h : CategoryStore → β} {t t' u : TournamentStore}

/-! ### Fields of the players -/

section

variable {κ : Type} [DecidableEq κ] {field : PlayerField κ}

theorem fieldBlind_links : FieldBlind links := fieldBlind_project fun _ _ => rfl

theorem fieldBlind_bouts : FieldBlind (bouts h) := fieldBlind_project fun _ _ => rfl

omit [DecidableEq κ] in
theorem editField_ok {id : PlayerId} {value : κ} {v : Unit} :
    editPlayer id (fun p => .ok (p.setFields (field.set value p.fields))) t = .ok v t' ↔
      ∃ p, t.players id = some p ∧ t' = t.setPlayer id (p.setFields (field.set value p.fields)) := by
  rw [editPlayer_ok]
  constructor
  · rintro ⟨p, p', hp, heq, rfl⟩
    cases heq
    exact ⟨p, hp, rfl⟩
  · rintro ⟨p, hp, rfl⟩
    exact ⟨p, _, hp, rfl, rfl⟩

theorem players_setPlayer_of_ne {id i : PlayerId} {p : PlayerStore} (hi : i ≠ id) :
    (t.setPlayer id p).players i = t.players i := Function.update_of_ne hi _ _

theorem players_setPlayer_self {id : PlayerId} {p : PlayerStore} : (t.setPlayer id p).players id = some p :=
  Function.update_self _ _ _

/-- Setting a field to a value and back. -/
structure PlayerField.Lawful (field : PlayerField κ) : Prop where
  get_set : ∀ v fields, field.get (field.set v fields) = v
  set_back : ∀ v fields, field.set (field.get fields) (field.set v fields) = fields

/-- The players whose field is changed, and how they are after it. -/
structure FieldChanged (field : PlayerField κ) (value : κ) (t : TournamentStore) (changed : List (PlayerId × κ))
    (t' : TournamentStore) : Prop where
  nodup : (changed.map (·.1)).Nodup
  edited : ∀ q ∈ changed, ∃ p, t.players q.1 = some p ∧ field.get p.fields = q.2 ∧ q.2 ≠ value ∧
    t'.players q.1 = some (p.setFields (field.set value p.fields))
  other : ∀ id, id ∉ changed.map (·.1) → t'.players id = t.players id

theorem changeField_ok (hfield : field.Lawful) {value : κ} {ids : List PlayerId} {changed : List (PlayerId × κ)}
    (hchange : changeField field value ids t = .ok changed t') : FieldChanged field value t changed t' := by
  induction ids generalizing t changed with
  | nil =>
    obtain ⟨rfl, rfl⟩ := pure_ok.1 hchange
    exact ⟨List.nodup_nil, by simp, fun _ _ => rfl⟩
  | cons id ids ih =>
    simp only [changeField, bind_ok, get_ok] at hchange
    obtain ⟨s, s', hs, hchange⟩ := hchange
    rw [hs.1, hs.2] at hchange
    cases hp : t.players id with
    | none =>
      rw [hp] at hchange
      exact ih hchange
    | some p =>
      simp only [hp] at hchange
      split at hchange
      · exact ih hchange
      · next hne =>
        simp only [bind_ok, editField_ok, pure_ok] at hchange
        obtain ⟨_, t₁, ⟨p', hp', rfl⟩, rest, _, hrest, rfl, rfl⟩ := hchange
        cases hp.symm.trans hp'
        obtain ⟨hnodup, hchanged, hother⟩ := ih hrest
        -- the field of the player has the new value now, so that he is not met again
        have hnot : id ∉ rest.map (·.1) := by
          intro hmem
          obtain ⟨q, hq, rfl⟩ := List.mem_map.1 hmem
          obtain ⟨p', hp', hget, hold, -⟩ := hchanged q hq
          rw [players_setPlayer_self] at hp'
          cases hp'
          exact hold (hget.symm.trans (hfield.get_set _ _))
        refine ⟨List.nodup_cons.2 ⟨hnot, hnodup⟩, fun q hq => ?_, fun i hi => ?_⟩
        · rcases List.mem_cons.1 hq with rfl | hq
          · exact ⟨p, hp, rfl, hne, (hother id hnot).trans players_setPlayer_self⟩
          · obtain ⟨p', hp', hrest'⟩ := hchanged q hq
            have hq' : q.1 ≠ id := fun heq => hnot (List.mem_map.2 ⟨q, hq, heq⟩)
            rw [players_setPlayer_of_ne hq'] at hp'
            exact ⟨p', hp', hrest'⟩
        · rw [List.map_cons, List.mem_cons, not_or] at hi
          rw [hother i hi.2, players_setPlayer_of_ne hi.1]

omit [DecidableEq κ] in
/-- The players after the old values of a field have been restored. -/
theorem restoreField_total {changed : List (PlayerId × κ)} (hnodup : (changed.map (·.1)).Nodup)
    (hexist : ∀ q ∈ changed, t.players q.1 ≠ none) : ∃ t', restoreField field changed t = .ok () t' ∧
      (∀ q ∈ changed, t'.players q.1 = (t.players q.1).map fun p => p.setFields (field.set q.2 p.fields)) ∧
      ∀ id, id ∉ changed.map (·.1) → t'.players id = t.players id := by
  have hloop : ∃ us t', forEach (fun q : PlayerId × κ =>
      editPlayer q.1 fun p => .ok (p.setFields (field.set q.2 p.fields))) changed t = .ok us t' ∧
      (∀ q ∈ changed, t'.players q.1 = (t.players q.1).map fun p => p.setFields (field.set q.2 p.fields)) ∧
      ∀ id, id ∉ changed.map (·.1) → t'.players id = t.players id := by
    induction changed generalizing t with
    | nil => exact ⟨[], t, forEach_nil_ok.2 ⟨rfl, rfl⟩, by simp, fun _ _ => rfl⟩
    | cons q changed ih =>
      obtain ⟨hnot, hnodup⟩ := List.nodup_cons.1 hnodup
      obtain ⟨p, hp⟩ := Option.ne_none_iff_exists'.1 (hexist q List.mem_cons_self)
      have hne : ∀ q' ∈ changed, q'.1 ≠ q.1 := fun q' hq' heq => hnot (List.mem_map.2 ⟨q', hq', heq⟩)
      obtain ⟨us, t', hus, hchanged, hother⟩ :=
        ih (t := t.setPlayer q.1 (p.setFields (field.set q.2 p.fields))) hnodup
        fun q' hq' => by
          rw [players_setPlayer_of_ne (hne q' hq')]
          exact hexist q' (List.mem_cons_of_mem _ hq')
      refine ⟨() :: us, t', forEach_cons_ok.2 ⟨(), _, us, editField_ok.2 ⟨p, hp, rfl⟩, hus, rfl⟩,
        fun q' hq' => ?_, fun i hi => ?_⟩
      · rcases List.mem_cons.1 hq' with rfl | hq'
        · rw [hother _ hnot, players_setPlayer_self, hp]
          rfl
        · rw [hchanged q' hq', players_setPlayer_of_ne (hne q' hq')]
      · rw [List.map_cons, List.mem_cons, not_or] at hi
        rw [hother i hi.2, players_setPlayer_of_ne hi.1]
  obtain ⟨us, t', hus, hrest⟩ := hloop
  exact ⟨t', bind_ok.2 ⟨us, t', hus, rfl⟩, hrest⟩

/-- Restoring the old values of a field restores what is seen of the players. -/
theorem restoreField_back (hf : ProfileSight f) (hfield : field.Lawful) {value : κ} {ids : List PlayerId}
    {changed : List (PlayerId × κ)} (hchange : changeField field value ids t = .ok changed t')
    (hview : members f u = members f t') :
    ∃ u', restoreField field changed u = .ok () u' ∧ members f u' = members f t := by
  obtain ⟨hnodup, hchanged, hother⟩ := changeField_ok hfield hchange
  have hexist : ∀ q ∈ changed, u.players q.1 ≠ none := by
    intro q hq
    obtain ⟨p, -, -, -, hp'⟩ := hchanged q hq
    obtain ⟨q', hq', -⟩ := player_of_members hview hp'
    simp [hq']
  obtain ⟨u', hu', hback, hother'⟩ :
      ∃ u', restoreField field changed u = .ok () u' ∧
        (∀ q ∈ changed, u'.players q.1 = (u.players q.1).map fun p => p.setFields (field.set q.2 p.fields)) ∧
        ∀ id, id ∉ changed.map (·.1) → u'.players id = u.players id := restoreField_total hnodup hexist
  have hblind : FieldBlind TournamentStore.categories := fun _ _ _ _ _ => rfl
  have hcategories : u'.categories = u.categories := frame_restoreField hblind hu'
  have hcategories' : t'.categories = t.categories := frame_changeField hblind ids hchange
  refine ⟨u', hu', Prod.ext (funext fun pid => ?_) ?_⟩
  · show (u'.players pid).map _ = (t.players pid).map _
    by_cases hpid : pid ∈ changed.map (·.1)
    · obtain ⟨q, hq, rfl⟩ := List.mem_map.1 hpid
      obtain ⟨p, hp, hget, -, hp'⟩ := hchanged q hq
      obtain ⟨pu, hpu, hsets, hsame⟩ := player_of_members hview hp'
      rw [hback q hq, hpu, hp, Option.map_some, Option.map_some, Option.map_some]
      refine congrArg some (Prod.ext hsets ?_)
      show f (pu.setFields (field.set q.2 pu.fields)) = f p
      rw [hf.setFields _ _ (field.set q.2) hsame, ← hget]
      show f (p.setFields (field.set (field.get p.fields) (field.set value p.fields))) = f p
      rw [hfield.set_back]
      rfl
    · rw [hother' pid hpid, ← hother pid hpid]
      exact players_of_project hview pid
  · funext cid
    show (u'.categories cid).map _ = (t.categories cid).map _
    rw [hcategories, ← hcategories']
    exact categories_of_project hview cid

end

theorem lawful_blueJudogiHintField : blueJudogiHintField.Lawful where
  get_set _ _ := rfl
  set_back _ _ := rfl

theorem ChangePlayersBlueJudogiHintAction.restorable (hf : ProfileSight f) (hsight : BoutSight h)
    {a : ChangePlayersBlueJudogiHintAction} (hidle : a.changedPlayers = []) :
    RegisterRestorable f h a.redoImpl undoImpl fun a => a.changedPlayers = [] := by
  intro t a' t' ht hredo
  obtain ⟨hsound, hlayout⟩ := revocable a ht.sound hredo
  obtain ⟨hindexed, hkeeps⟩ := lasting_indexed.changePlayersBlueJudogiHint a ht.indexed hredo
  simp only [redoImpl, bind_ok, read_ok, pure_ok, Except.ok.injEq] at hredo
  obtain ⟨changed, t₁, hchange, ids, _, ⟨rfl, rfl⟩, drawAction, _, hdraw, rfl, rfl⟩ := hredo
  have ht₁ : Orderly t₁ := ⟨ht.sound.of_plan (frame_changeField fieldBlind_plan _ hchange),
    ht.indexed.of_keys (frame_changeField fieldBlind_keys _ hchange),
    ht.linked.of_links (frame_changeField fieldBlind_links _ hchange)⟩
  have hbouts : bouts h t₁ = bouts h t := frame_changeField fieldBlind_bouts _ hchange
  have hfields : ∀ u, members f u = members f t₁ →
      ∃ u', restoreField blueJudogiHintField (a.changedPlayers ++ changed) u = .ok () u' ∧
        members f u' = members f t := by
    intro u hu
    rw [hidle, List.nil_append]
    exact restoreField_back hf lawful_blueJudogiHintField hchange hu
  unfold drawAll at hdraw
  split at hdraw
  · obtain ⟨rfl, rfl⟩ := pure_ok.1 hdraw
    refine ⟨ht₁, restores_of_parts hlayout hkeeps fun u hu hview => ?_⟩
    obtain ⟨u', hu', hmembers⟩ := hfields u (congrArg Prod.snd hview)
    refine ⟨_, u', bind_ok.2 ⟨(), u', hu', rfl⟩, ?_, hmembers⟩
    have hsame : bouts h u = bouts h t₁ := congrArg (fun v => v.1.2) hview
    rw [frame_restoreField fieldBlind_bouts hu', hsame, hbouts]
  · simp only [bind_ok, pure_ok] at hdraw
    obtain ⟨b, t', hb, rfl, rfl⟩ := hdraw
    obtain ⟨hintact, hlinked, hback⟩ := DrawCategoriesAction.recovers hsight rfl ht₁.intact ht₁.linked hb
    have hframe : members f t' = members f t₁ :=
      DrawCategoriesAction.frame_redoImpl (matchBlind_members hf) drawSystemBlind_members hb
    refine ⟨⟨hsound, hindexed, hlinked.mono fun i _ hi => hi.1⟩,
      restores_of_parts hlayout hkeeps fun u hu hview => ?_⟩
    obtain ⟨u₁, hu₁, hmembers⟩ := hfields u ((congrArg Prod.snd hview).trans hframe)
    have hplan := frame_restoreField fieldBlind_plan hu₁
    have hsight' : sight h u₁ = sight h t' :=
      (Prod.ext (congrArg Prod.snd hplan) (frame_restoreField fieldBlind_bouts hu₁) : _ = sight h u).trans
        (congrArg Prod.fst hview)
    obtain ⟨c, u', hu', -, hrest, -⟩ := hback ⟨hu.placed.of_plan hplan,
      hu.indexed.of_keys (frame_restoreField fieldBlind_keys hu₁)⟩ hsight'
    refine ⟨_, u', bind_ok.2 ⟨(), u₁, hu₁, bind_ok.2 ⟨c, u', hu', rfl⟩⟩,
      (congrArg Prod.snd hrest).trans hbouts, ?_⟩
    have hframe' := DrawCategoriesAction.frame_undoImpl (matchBlind_members hf) drawSystemBlind_members hu'
    exact hframe'.trans hmembers

/-! ### Adding and erasing players -/

/-- Players with new ids are added, or seen from behind, players are erased. -/
structure PlayersAdded (t : TournamentStore) (ps : List PlayerStore) (t' : TournamentStore) : Prop where
  nodup : (ps.map (·.id)).Nodup
  new : ∀ p ∈ ps, t.players p.id = none
  added : ∀ p ∈ ps, t'.players p.id = some p
  other : ∀ id, id ∉ ps.map (·.id) → t'.players id = t.players id
  categories : t'.categories = t.categories
  tatamis : t'.tatamis = t.tatamis

namespace PlayersAdded

variable {ps qs : List PlayerStore} {s s' : TournamentStore}

theorem refl (t : TournamentStore) : PlayersAdded t [] t :=
  ⟨List.nodup_nil, by simp, by simp, fun _ _ => rfl, rfl, rfl⟩

theorem cons {p : PlayerStore} (hp : t.players p.id = none) (h : PlayersAdded (t.setPlayer p.id p) ps t') :
    PlayersAdded t (p :: ps) t' := by
  have hnot : p.id ∉ ps.map (·.id) := by
    intro hmem
    obtain ⟨q, hq, heq⟩ := List.mem_map.1 hmem
    have hq := h.new q hq
    rw [heq, players_setPlayer_self] at hq
    cases hq
  have hne : ∀ q ∈ ps, q.id ≠ p.id := fun q hq heq => hnot (List.mem_map.2 ⟨q, hq, heq⟩)
  refine ⟨List.nodup_cons.2 ⟨hnot, h.nodup⟩, ?_, ?_, fun id hid => ?_, h.categories, h.tatamis⟩
  · rw [List.forall_mem_cons]
    exact ⟨hp, fun q hq => (players_setPlayer_of_ne (hne q hq)).symm.trans (h.new q hq)⟩
  · rw [List.forall_mem_cons]
    exact ⟨(h.other _ hnot).trans players_setPlayer_self, h.added⟩
  · rw [List.map_cons, List.mem_cons, not_or] at hid
    rw [h.other id hid.2, players_setPlayer_of_ne hid.1]

theorem last {p : PlayerStore} (h : PlayersAdded t ps t') (hp : t'.players p.id = none) :
    PlayersAdded t (p :: ps) (t'.setPlayer p.id p) := by
  have hnot : p.id ∉ ps.map (·.id) := by
    intro hmem
    obtain ⟨q, hq, heq⟩ := List.mem_map.1 hmem
    rw [← heq, h.added q hq] at hp
    cases hp
  have hne : ∀ q ∈ ps, q.id ≠ p.id := fun q hq heq => hnot (List.mem_map.2 ⟨q, hq, heq⟩)
  refine ⟨List.nodup_cons.2 ⟨hnot, h.nodup⟩, ?_, ?_, fun id hid => ?_, h.categories, h.tatamis⟩
  · rw [List.forall_mem_cons]
    exact ⟨(h.other _ hnot).symm.trans hp, h.new⟩
  · rw [List.forall_mem_cons]
    exact ⟨players_setPlayer_self, fun q hq => (players_setPlayer_of_ne (hne q hq)).trans (h.added q hq)⟩
  · rw [List.map_cons, List.mem_cons, not_or] at hid
    rw [players_setPlayer_of_ne hid.1, h.other id hid.2]

theorem of_perm (h : PlayersAdded t ps t') (hperm : qs.Perm ps) : PlayersAdded t qs t' where
  nodup := (hperm.map _).nodup_iff.2 h.nodup
  new p hp := h.new p (hperm.mem_iff.1 hp)
  added p hp := h.added p (hperm.mem_iff.1 hp)
  other id hid := h.other id fun hmem => hid ((hperm.map _).mem_iff.2 hmem)
  categories := h.categories
  tatamis := h.tatamis

/-- What is seen before the players were added is determined by what is seen after it. -/
theorem project_before {g : PlayerStore → γ} {k : CategoryStore → δ} (h : PlayersAdded t ps t')
    (h' : PlayersAdded s qs s') (hids : qs.map (·.id) = ps.map (·.id)) (hview : project g k s' = project g k t') :
    project g k s = project g k t := by
  refine Prod.ext (funext fun id => ?_) (funext fun id => ?_)
  · show (s.players id).map g = (t.players id).map g
    by_cases hid : id ∈ ps.map (·.id)
    · obtain ⟨p, hp, rfl⟩ := List.mem_map.1 hid
      obtain ⟨q, hq, heq⟩ := List.mem_map.1 (hids.symm ▸ hid)
      have hs := h'.new q hq
      rw [heq] at hs
      rw [hs, h.new p hp]
    · rw [← h.other id hid, ← h'.other id (by rw [hids]; exact hid)]
      exact players_of_project hview id
  · show (s.categories id).map k = (t.categories id).map k
    rw [← h.categories, ← h'.categories]
    exact categories_of_project hview id

/-- What is seen after the players were added is determined by the players and by what is seen before it. -/
theorem project_after {g : PlayerStore → γ} {k : CategoryStore → δ} (h : PlayersAdded t ps t')
    (h' : PlayersAdded s ps s') (hview : project g k s = project g k t) : project g k s' = project g k t' := by
  refine Prod.ext (funext fun id => ?_) (funext fun id => ?_)
  · show (s'.players id).map g = (t'.players id).map g
    by_cases hid : id ∈ ps.map (·.id)
    · obtain ⟨p, hp, rfl⟩ := List.mem_map.1 hid
      rw [h.added p hp, h'.added p hp]
    · rw [h.other id hid, h'.other id hid]
      exact players_of_project hview id
  · show (s'.categories id).map k = (t'.categories id).map k
    rw [h.categories, h'.categories]
    exact categories_of_project hview id

/-- New players are in no category and in no match. -/
theorem linked (h : PlayersAdded t ps t') (ht : t.Linked) (hcategories : ∀ p ∈ ps, p.categories = ∅)
    (hmatchIds : ∀ p ∈ ps, p.matchIds = ∅) : t'.Linked := by
  have hcases : ∀ pid p, t'.players pid = some p → t.players pid = some p ∨
      t.players pid = none ∧ p.categories = ∅ ∧ p.matchIds = ∅ := by
    intro pid p hp
    by_cases hpid : pid ∈ ps.map (·.id)
    · obtain ⟨q, hq, rfl⟩ := List.mem_map.1 hpid
      cases (h.added q hq).symm.trans hp
      exact .inr ⟨h.new p hq, hcategories p hq, hmatchIds p hq⟩
    · exact .inl ((h.other pid hpid).symm.trans hp)
  have hkeep : ∀ pid, t.players pid ≠ none → t'.players pid ≠ none := by
    intro pid hpid
    rw [h.other pid]
    · exact hpid
    · intro hmem
      obtain ⟨q, hq, rfl⟩ := List.mem_map.1 hmem
      exact hpid (h.new q hq)
  refine ⟨fun cid pid p hp => ?_, fun cid c pid hc hpid => ?_, fun x pid p hp => ?_,
    fun cid c m pid hc hm hhas => ?_, fun cid c m pid hc hm => ?_, fun cid c m pid hoff hc hm hhas => ?_,
    fun cid c pid hoff hc hpid => ?_⟩
  · rw [h.categories]
    obtain hp | ⟨hnone, hempty, -⟩ := hcases pid p hp
    · exact ht.member cid pid p hp
    · rw [hempty]
      constructor
      · simp
      · rintro ⟨c, hc, hpid⟩
        exact (ht.members_exist cid c pid hc hpid hnone).elim
  · rw [h.categories] at hc
    exact hkeep pid (ht.members_exist cid c pid hc hpid)
  · rw [h.categories]
    obtain hp | ⟨hnone, -, hempty⟩ := hcases pid p hp
    · exact ht.fight x pid p hp
    · rw [hempty]
      constructor
      · simp
      · rintro ⟨c, m, hc, hm, -, hhas⟩
        exact (ht.fighters_exist _ c m pid hc hm hhas hnone).elim
  · rw [h.categories] at hc
    exact hkeep pid (ht.fighters_exist cid c m pid hc hm hhas)
  · rw [h.categories] at hc
    exact ht.distinct cid c m pid hc hm
  · rw [h.categories] at hc
    exact ht.within cid c m pid hoff hc hm hhas
  · rw [h.categories] at hc
    exact ht.roster cid c pid hoff hc hpid

/-- Players who are in no category can be erased. -/
theorem linked_before (h : PlayersAdded t ps t') (ht : t'.Linked) (hcategories : ∀ p ∈ ps, p.categories = ∅) :
    t.Linked := by
  have hmember : ∀ cid c pid, t.categories cid = some c → pid ∈ c.players → pid ∉ ps.map (·.id) := by
    intro cid c pid hc hpid hmem
    obtain ⟨p, hp, rfl⟩ := List.mem_map.1 hmem
    have := (ht.member cid p.id p (h.added p hp)).2 ⟨c, by rw [h.categories]; exact hc, hpid⟩
    rw [hcategories p hp] at this
    cases this
  have hfighter : ∀ cid c m pid, t.categories cid = some c → m ∈ c.matchList → m.Has pid →
      pid ∉ ps.map (·.id) := by
    intro cid c m pid hc hm hhas
    refine hmember cid c pid hc (ht.within cid c m pid not_false ?_ hm hhas)
    rw [h.categories]
    exact hc
  have hplayer : ∀ pid p, t.players pid = some p → t'.players pid = some p := by
    intro pid p hp
    rw [h.other pid]
    · exact hp
    · intro hmem
      obtain ⟨q, hq, rfl⟩ := List.mem_map.1 hmem
      rw [h.new q hq] at hp
      cases hp
  refine ⟨fun cid pid p hp => ?_, fun cid c pid hc hpid => ?_, fun x pid p hp => ?_,
    fun cid c m pid hc hm hhas => ?_, fun cid c m pid hc hm => ?_, fun cid c m pid hoff hc hm hhas => ?_,
    fun cid c pid hoff hc hpid => ?_⟩
  · rw [← h.categories]
    exact ht.member cid pid p (hplayer pid p hp)
  · rw [← h.other pid (hmember cid c pid hc hpid)]
    exact ht.members_exist cid c pid (by rw [h.categories]; exact hc) hpid
  · rw [← h.categories]
    exact ht.fight x pid p (hplayer pid p hp)
  · rw [← h.other pid (hfighter cid c m pid hc hm hhas)]
    exact ht.fighters_exist cid c m pid (by rw [h.categories]; exact hc) hm hhas
  · exact ht.distinct cid c m pid (by rw [h.categories]; exact hc) hm
  · exact ht.within cid c m pid hoff (by rw [h.categories]; exact hc) hm hhas
  · exact ht.roster cid c pid hoff (by rw [h.categories]; exact hc) hpid

end PlayersAdded

theorem addAll_ok {ps : List PlayerStore} {us : List Unit} (hadd : forEach addPlayer ps t = .ok us t') :
    PlayersAdded t ps t' := by
  induction ps generalizing t us with
  | nil =>
    obtain ⟨rfl, rfl⟩ := forEach_nil_ok.1 hadd
    exact .refl _
  | cons p ps ih =>
    obtain ⟨_, t₁, us', h₁, hrest, rfl⟩ := forEach_cons_ok.1 hadd
    obtain ⟨hp, rfl⟩ := addPlayer_ok.1 h₁
    exact .cons hp (ih hrest)

theorem addAll_total {ps : List PlayerStore} (hnodup : (ps.map (·.id)).Nodup)
    (hnew : ∀ p ∈ ps, t.players p.id = none) : ∃ us t', forEach addPlayer ps t = .ok us t' := by
  induction ps generalizing t with
  | nil => exact ⟨[], t, forEach_nil_ok.2 ⟨rfl, rfl⟩⟩
  | cons p ps ih =>
    obtain ⟨hnot, hnodup⟩ := List.nodup_cons.1 hnodup
    obtain ⟨us, t', hus⟩ := ih (t := t.setPlayer p.id p) hnodup fun q hq => by
      have hne : q.id ≠ p.id := fun heq => hnot (List.mem_map.2 ⟨q, hq, heq⟩)
      rw [players_setPlayer_of_ne hne]
      exact hnew q (List.mem_cons_of_mem _ hq)
    exact ⟨() :: us, t', forEach_cons_ok.2 ⟨(), _, us, addPlayer_ok.2 ⟨hnew p List.mem_cons_self, rfl⟩,
      hus, rfl⟩⟩

theorem eraseAll_ok (ht : t.Indexed) {ids : List PlayerId} {ps : List PlayerStore}
    (herase : forEach erasePlayer ids t = .ok ps t') : PlayersAdded t' ps t ∧ ps.map (·.id) = ids := by
  induction ids generalizing t ps with
  | nil =>
    obtain ⟨rfl, rfl⟩ := forEach_nil_ok.1 herase
    exact ⟨.refl _, rfl⟩
  | cons id ids ih =>
    obtain ⟨p, t₁, ps', h₁, hrest, rfl⟩ := forEach_cons_ok.1 herase
    obtain ⟨hp, rfl⟩ := erasePlayer_ok.1 h₁
    obtain rfl := ht.player id p hp
    obtain ⟨hadded, rfl⟩ := ih (keeps_erasePlayer_indexed p.id ht h₁).1 hrest
    refine ⟨?_, rfl⟩
    have hback := hadded.last (p := p) (Function.update_self _ _ _)
    have hsame : TournamentStore.setPlayer { t with players := Function.update t.players p.id none } p.id p = t := by
      unfold TournamentStore.setPlayer
      simp only [Function.update_idem]
      rw [← hp, Function.update_eq_self]
    rwa [hsame] at hback

theorem eraseAll_total {ids : List PlayerId} (hnodup : ids.Nodup) (hexist : ∀ id ∈ ids, t.players id ≠ none) :
    ∃ ps t', forEach erasePlayer ids t = .ok ps t' := by
  induction ids generalizing t with
  | nil => exact ⟨[], t, forEach_nil_ok.2 ⟨rfl, rfl⟩⟩
  | cons id ids ih =>
    obtain ⟨hnot, hnodup⟩ := List.nodup_cons.1 hnodup
    obtain ⟨p, hp⟩ := Option.ne_none_iff_exists'.1 (hexist id List.mem_cons_self)
    obtain ⟨ps, t', hps⟩ := ih (t := { t with players := Function.update t.players id none }) hnodup
      fun i hi => by
        have hne : i ≠ id := fun heq => hnot (heq ▸ hi)
        show Function.update t.players id none i ≠ none
        rw [Function.update_of_ne hne]
        exact hexist i (List.mem_cons_of_mem _ hi)
    exact ⟨p :: ps, t', forEach_cons_ok.2 ⟨p, _, ps, erasePlayer_ok.2 ⟨hp, rfl⟩, hps, rfl⟩⟩

/-- The players that the action adds. -/
def AddPlayersAction.stores (a : AddPlayersAction) : List PlayerStore := a.players.map fun p => .init p.1 p.2

namespace AddPlayersAction

theorem redoImpl_ok {a a' : AddPlayersAction} (hredo : a.redoImpl t = .ok a' t') :
    a' = a ∧ PlayersAdded t a.stores t' := by
  simp only [redoImpl, bind_ok, get_ok] at hredo
  obtain ⟨s, s', hs, hredo⟩ := hredo
  rw [hs.1, hs.2] at hredo
  split at hredo
  · exact (throw_ok.1 hredo).elim
  · simp only [bind_ok, pure_ok] at hredo
    obtain ⟨us, _, hadd, rfl, rfl⟩ := hredo
    refine ⟨rfl, ?_⟩
    rw [← forEach_map] at hadd
    exact addAll_ok hadd

/-- The players are erased again, wherever they are. -/
theorem undoImpl_total {a : AddPlayersAction} (hu : u.Indexed) (hnodup : (a.stores.map (·.id)).Nodup)
    (hexist : ∀ p ∈ a.stores, u.players p.id ≠ none) :
    ∃ qs u', a.undoImpl u = .ok a u' ∧ PlayersAdded u' qs u ∧ qs.map (·.id) = a.stores.map (·.id) := by
  have hids : a.stores.map (·.id) = a.players.map (·.1) := by
    unfold stores
    rw [List.map_map]
    rfl
  rw [hids] at hnodup ⊢
  obtain ⟨qs, u', hqs⟩ := eraseAll_total hnodup fun id hid => by
    rw [← hids] at hid
    obtain ⟨p, hp, rfl⟩ := List.mem_map.1 hid
    exact hexist p hp
  obtain ⟨hadded, hsame⟩ := eraseAll_ok hu hqs
  rw [forEach_map] at hqs
  exact ⟨qs, u', bind_ok.2 ⟨qs, u', hqs, rfl⟩, hadded, hsame⟩

theorem restorable (a : AddPlayersAction) : RegisterRestorable f h a.redoImpl undoImpl fun _ => True := by
  intro t a' t' ht hredo
  have hplan := plan_redoImpl hredo
  obtain ⟨hindexed, hkeeps⟩ := lasting_indexed.addPlayers a ht.indexed hredo
  obtain ⟨rfl, hadded⟩ := redoImpl_ok hredo
  have hinit : ∀ p ∈ a'.stores, p.categories = ∅ ∧ p.matchIds = ∅ := by
    intro p hp
    obtain ⟨q, -, rfl⟩ := List.mem_map.1 hp
    exact ⟨rfl, rfl⟩
  have hlinked := hadded.linked ht.linked (fun p hp => (hinit p hp).1) fun p hp => (hinit p hp).2
  refine ⟨⟨ht.sound.of_plan hplan, hindexed, hlinked⟩, restores_of_parts ?_ hkeeps fun u hu hview => ?_⟩
  · rw [show t'.outline = t.outline from congrArg Prod.snd hplan]
    exact layoutBack_of_plan plan_undoImpl
  · obtain ⟨qs, u', hundo, herased, hids⟩ := undoImpl_total hu.indexed hadded.nodup fun p hp => by
      obtain ⟨q, hq, -⟩ := player_of_members (congrArg Prod.snd hview) (hadded.added p hp)
      simp [hq]
    exact ⟨a', u', hundo, hadded.project_before herased hids (congrArg (fun v => v.1.2) hview),
      hadded.project_before herased hids (congrArg Prod.snd hview)⟩

end AddPlayersAction

/-! ### Players who leave all their categories -/

theorem categories_enlist_subset {id : CategoryId} {S : Finset PlayerId} {pid : PlayerId} {p' : PlayerStore}
    (hp' : (t.enlist false id S).players pid = some p') :
    ∃ p, t.players pid = some p ∧ p'.categories ⊆ p.categories := by
  obtain ⟨p, hp, rfl⟩ := Option.map_eq_some_iff.1 hp'
  refine ⟨p, hp, ?_⟩
  split
  · exact Finset.erase_subset id p.categories
  · exact Finset.Subset.refl _

/-- Nobody of the list is left in the category. -/
theorem notMem_changeMembers {id : CategoryId} {pids changed : List PlayerId}
    (hchange : changeMembers id true (changeOne false id) pids t = .ok changed t') {pid : PlayerId}
    (hpid : pid ∈ pids) {p' : PlayerStore} (hp' : t'.players pid = some p') : id ∉ p'.categories := by
  have hleft : ∀ {s s' : TournamentStore} {rest out : List PlayerId},
      changeMembers id true (changeOne false id) rest s = .ok out s' → s'.players pid = some p' →
        (∀ p, s.players pid = some p → id ∉ p.categories) → id ∉ p'.categories := by
    intro s s' rest out hrest hs' hs hmem
    obtain ⟨rfl, -, -⟩ := changeMembers_ok hrest
    obtain ⟨p, hp, hsub⟩ := categories_enlist_subset hs'
    exact hs p hp (hsub hmem)
  induction pids generalizing t changed with
  | nil => cases hpid
  | cons q pids ih =>
    simp only [changeMembers, bind_ok, get_ok] at hchange
    obtain ⟨s, s', hs, hchange⟩ := hchange
    rw [hs.1, hs.2] at hchange
    split at hchange
    · simp only [bind_ok, pure_ok] at hchange
      obtain ⟨_, t₁, hone, rest, _, hrest, rfl, rfl⟩ := hchange
      rcases List.mem_cons.1 hpid with rfl | hpid
      · obtain ⟨-, rfl⟩ := changeOne_ok.1 hone
        refine hleft hrest hp' fun p₁ hp₁ => ?_
        obtain ⟨p, -, rfl⟩ := Option.map_eq_some_iff.1 hp₁
        rw [if_pos (Finset.mem_singleton_self _), PlayerStore.mem_enlist, if_pos rfl]
        simp
      · exact ih hrest hpid
    · next hout =>
      rcases List.mem_cons.1 hpid with rfl | hpid
      · refine hleft hchange hp' fun p hp => ?_
        unfold membersIn at hout
        rw [hp] at hout
        simpa using hout
      · exact ih hchange hpid

/-- What the cross references read of the matches and the draw system of a category. -/
def CategoryStore.ties (c : CategoryStore) : List Fight × DrawSystem := (c.matchList.map (·.fight), c.drawSystem)

theorem boutSight_ties : BoutSight CategoryStore.ties where
  fights _ _ heq := congrArg Prod.fst heq
  withBouts _ _ _ _ := rfl
  setDrawSystem c c' d heq := by
    have hfights : c.matchList.map (·.fight) = c'.matchList.map (·.fight) := congrArg Prod.fst heq
    exact Prod.ext hfights rfl
  setLocation _ _ _ _ heq := heq
  setPlayers _ _ := rfl

theorem profileSight_unit : ProfileSight fun _ => () := ⟨fun _ _ => rfl, fun _ _ => rfl, fun _ _ _ _ => rfl⟩

theorem ErasePlayersFromCategoryAction.left (ht : Orderly t) {a a' : ErasePlayersFromCategoryAction}
    (hredo : a.redoImpl t = .ok a' t') {pid : PlayerId} {p' : PlayerStore}
    (hp' : t'.players pid = some p') : ∃ p, t.players pid = some p ∧ p'.categories ⊆ p.categories ∧
      (pid ∈ a.playerIds → a.categoryId ∉ p'.categories) := by
  obtain ⟨-, rfl, hnone⟩ | ⟨erased, t₁, -, hmembers, hrest⟩ := redoImpl_ok hredo
  · refine ⟨p', hp', Finset.Subset.refl _, fun _ hmem => ?_⟩
    obtain ⟨c, hc, -⟩ := (ht.linked.member _ pid p' hp').1 hmem
    rw [hnone] at hc
    cases hc
  · have hmembers' : changeMembers a.categoryId true
      (changeOne false a.categoryId) a.playerIds t = .ok erased t₁ := hmembers
    have hsame : members (fun _ => ()) t' = members (fun _ => ()) t₁ := by
      obtain ⟨-, -, rfl⟩ | ⟨-, r, hrun, -⟩ := hrest
      · rfl
      · exact RedrawAction.frame_run (matchBlind_members profileSight_unit) drawSystemBlind_members
          layoutBlind_members hrun
    obtain ⟨p₁, hp₁, hcategories, -⟩ := player_of_members hsame.symm hp'
    rw [← hcategories]
    have hout : pid ∈ a.playerIds → a.categoryId ∉ p₁.categories :=
      fun hpid => notMem_changeMembers hmembers' hpid hp₁
    obtain ⟨rfl, -, -⟩ := changeMembers_ok hmembers'
    obtain ⟨p, hp, hsub⟩ := categories_enlist_subset hp₁
    exact ⟨p, hp, hsub, hout⟩

theorem left_eraseFromCategories (ht : Orderly t) {playerIds : List PlayerId} {seed : ℕ} {ids : List CategoryId}
    {as : List ErasePlayersFromCategoryAction} (herase : eraseFromCategories playerIds seed ids t = .ok as t')
    {pid : PlayerId} {p' : PlayerStore} (hp' : t'.players pid = some p') :
    ∃ p, t.players pid = some p ∧ p'.categories ⊆ p.categories ∧
      (pid ∈ playerIds → ∀ id ∈ ids, id ∉ p'.categories) := by
  simp only [eraseFromCategories, bind_ok, pure_ok] at herase
  obtain ⟨as', _, has, rfl, rfl⟩ := herase
  induction ids generalizing t as' with
  | nil =>
    obtain ⟨rfl, rfl⟩ := forEach_nil_ok.1 has
    exact ⟨p', hp', Finset.Subset.refl _, by simp⟩
  | cons id ids ih =>
    obtain ⟨a, t₁, as'', ha, hrest, rfl⟩ := forEach_cons_ok.1 has
    have ht₁ := (ErasePlayersFromCategoryAction.restorable profileSight_unit boutSight_ties rfl rfl ht ha).1
    obtain ⟨p₁, hp₁, hsub₁, hout₁⟩ := ih ht₁ as'' hrest
    obtain ⟨p, hp, hsub, hout⟩ := ErasePlayersFromCategoryAction.left ht ha hp₁
    refine ⟨p, hp, hsub₁.trans hsub, fun hpid i hi => ?_⟩
    rcases List.mem_cons.1 hi with rfl | hi
    · exact fun hmem => hout hpid (hsub₁ hmem)
    · exact hout₁ hpid i hi

theorem mem_categoriesOf_iff {pids : List PlayerId} {id : CategoryId} :
    id ∈ categoriesOf t pids ↔ ∃ pid ∈ pids, ∃ p, t.players pid = some p ∧ id ∈ p.categories := by
  unfold categoriesOf
  rw [mem_inOrder]
  induction pids with
  | nil => simp
  | cons q pids ih =>
    have hq : id ∈ ((t.players q).map (·.categories)).getD ∅ ↔
        ∃ p, t.players q = some p ∧ id ∈ p.categories := by
      cases t.players q <;> simp
    rw [List.foldr_cons, Finset.mem_union, ih, hq, List.exists_mem_cons_iff]

theorem ErasePlayersAction.restorable (hf : ProfileSight f) (hsight : BoutSight h) {a : ErasePlayersAction}
    (herased : a.erasedPlayerIds = []) (hplayers : a.players = []) (hidle : a.actions = []) :
    RegisterRestorable f h a.redoImpl undoImpl
      fun a => a.erasedPlayerIds = [] ∧ a.players = [] ∧ a.actions = [] := by
  intro t a' t' ht hredo
  have hsound := (revocable hidle ht.sound hredo).1
  have hindexed := (lasting_indexed.erasePlayers hidle ht.indexed hredo).1
  simp only [redoImpl, bind_ok, get_ok, pure_ok] at hredo
  obtain ⟨s, s', hs, as, t₁, has, ps, t₂, hps, rfl, rfl⟩ := hredo
  rw [hs.1, hs.2, herased, List.nil_append] at has
  rw [hs.1, herased, List.nil_append] at hps
  obtain ⟨ht₁, hback⟩ := restorable_eraseFromCategories hf hsight _ _ _ ht has
  obtain ⟨hadded, hids⟩ := eraseAll_ok ht₁.indexed hps
  have hnone : ∀ p ∈ ps, p.categories = ∅ := by
    intro p hp
    obtain ⟨p₀, hp₀, hsub, hout⟩ := left_eraseFromCategories ht has (hadded.added p hp)
    have hmem : p.id ∈ a.playerIds.filter t.containsPlayer := by
      rw [← hids]
      exact List.mem_map_of_mem hp
    refine Finset.eq_empty_of_forall_notMem fun id hid => ?_
    exact hout hmem id (mem_categoriesOf_iff.2 ⟨p.id, hmem, p₀, hp₀, hsub hid⟩) hid
  refine ⟨⟨hsound, hindexed, hadded.linked_before ht₁.linked hnone⟩, ?_⟩
  have hplan : t₂.plan = t₁.plan := frame_forEach (fun _ _ => plan_erasePlayer) hps
  have hadd : Recovers Intact (register f h) (forEach addPlayer ps.reverse) (fun _ => True) (register f h t₂)
      (register f h t₁) := by
    refine restores_of_parts ?_ (keeps_forEach_unit fun p _ => keeps_addPlayer_indexed p) fun u hu hview => ?_
    · rw [show t₂.outline = t₁.outline from congrArg Prod.snd hplan]
      exact layoutBack_of_plan (frame_forEach fun _ _ => plan_addPlayer)
    · have hnodup : (ps.reverse.map (·.id)).Nodup := by
        rw [List.map_reverse, List.nodup_reverse]
        exact hadded.nodup
      obtain ⟨us, u', hus⟩ := addAll_total hnodup fun p hp => by
        have heq := players_of_project (congrArg Prod.snd hview) p.id
        rw [hadded.new p (List.mem_reverse.1 hp), Option.map_none, Option.map_eq_none_iff] at heq
        exact heq
      have hadded' := (addAll_ok hus).of_perm (List.reverse_perm ps).symm
      exact ⟨us, u', hus, hadded.project_after hadded' (congrArg (fun v => v.1.2) hview),
        hadded.project_after hadded' (congrArg Prod.snd hview)⟩
  rw [hplayers, hidle, List.append_nil, List.append_nil]
  exact hadd.bind fun _ _ => hback.bind fun _ _ => .pure ⟨rfl, rfl, rfl⟩

end

end JudoAssistant
