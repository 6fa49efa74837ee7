import Mathlib.Data.List.ReduceOption
import JudoAssistant.Tournament.Placement
import JudoAssistant.Tournament.Session

/-!
# The actions on the layout

Every action keeps the tatamis and the locations of the categories in agreement, and its `undoImpl`
restores the outline.  The order of groups and blocks may differ after an undo, since the locations
that the actions keep have the positions of an earlier layout.
-/

namespace JudoAssistant

open Effect Exec TournamentStore

/-- The tatamis and the categories agree, and the outline is allowed. -/
structure LayoutSound (t : TournamentStore) : Prop where
  placed : Placed t
  allowed : t.outline.Allowed

section

variable {α β : Type} {o : Outline}

/-- The computation leads from every tournament with the one outline to one with the other. -/
abbrev LayoutBack (y : Exec α) (P : α → Prop) (after before : Outline) : Prop :=
  LeadsBack Placed outline y P after before

/-- The computation keeps the layout sound, and what `undo` makes of its result restores the outline. -/
abbrev LayoutRevocable (x : Exec α) (undo : α → Exec β) (P : β → Prop) : Prop :=
  Revocable LayoutSound Placed outline x undo P

theorem layoutBack_of_plan {x : Exec α} (h : Frame plan x) : LayoutBack x (fun _ => True) o o := by
  intro u a u' hu ho ha
  have hplan := h ha
  have houtline : u'.outline = u.outline := congrArg Prod.snd hplan
  exact ⟨hu.of_plan hplan, houtline.trans ho, trivial⟩

theorem LayoutSound.of_plan {t t' : TournamentStore} (h : LayoutSound t) (hplan : t'.plan = t.plan) :
    LayoutSound t' := by
  have houtline : t'.outline = t.outline := congrArg Prod.snd hplan
  exact ⟨h.placed.of_plan hplan, by rw [houtline]; exact h.allowed⟩

theorem layoutRevocable_of_plan {x : Exec α} {undo : α → Exec β} (hx : Frame plan x)
    (hundo : ∀ a, Frame plan (undo a)) : LayoutRevocable x undo fun _ => True := by
  intro t a t' ht ha
  have hplan := hx ha
  have houtline : t'.outline = t.outline := congrArg Prod.snd hplan
  exact ⟨ht.of_plan hplan, by rw [houtline]; exact layoutBack_of_plan (hundo a)⟩

end

/-! ### Moving a block -/

/-- A moved block is at its new place in the groups and in its category. -/
theorem placed_moveBlock {t : TournamentStore} (ht : Placed t) {b : Block} {c : CategoryStore}
    (hc : t.categories b.1 = some c) {source target : Option BlockLocation}
    (hsource : (c.getLocation b.2).map (·.groupId) = source.map (·.groupId))
    (htarget : ∀ l, target = some l → l.groupId.tatami ∈ t.outline.tatamis) {tatamis : TatamiList}
    (h : t.tatamis.moveBlock t.categories b source target = .ok tatamis) :
    Placed (({ t with tatamis := tatamis } : TournamentStore).setCategory b.1
        (c.setLocation b.2 target)) ∧
      (({ t with tatamis := tatamis } : TournamentStore).setCategory b.1
        (c.setLocation b.2 target)).outline = t.outline.setPlace b (target.map (·.groupId)) := by
  have hlayout := TatamiList.layout_moveBlock h
  have hplace : t.outline.place b = source.map (·.groupId) := by
    obtain ⟨id, type⟩ := b
    rw [place_outline, hc]
    exact hsource
  have hids : tatamis.tatamis.ids = t.tatamis.tatamis.ids := by
    show tatamis.layout.ids = t.tatamis.layout.ids
    rw [hlayout]
    refine Layout.ids_move fun l hl => ?_
    exact ht.ordered.tatamis.mem_ids.1 (htarget l hl)
  have hbase : ({ t with tatamis := tatamis } : TournamentStore).outline = t.outline :=
    Outline.ext hids rfl
  have houtline : (({ t with tatamis := tatamis } : TournamentStore).setCategory b.1
      (c.setLocation b.2 target)).outline = t.outline.setPlace b (target.map (·.groupId)) := by
    have hc' : ({ t with tatamis := tatamis } : TournamentStore).categories b.1 = some c := hc
    rw [outline_adjust (f := fun c => { c with places := c.places.set b.2 (target.map (·.groupId)) }) hc',
      hbase]
    · rfl
    · obtain ⟨id, type⟩ := b
      cases type <;> rfl
  refine ⟨?_, houtline⟩
  unfold Placed
  rw [houtline, Outline.place_setPlace (by rw [categories_outline hc]; simp)]
  show tatamis.layout.Holds _
  rw [hlayout]
  exact ht.move source target hplace

namespace SetTatamiLocationAction

theorem allowed_some {t : TournamentStore} {c : CategoryStore} {b : Block} {l : BlockLocation}
    (h : allowed t c b (some l) = true) :
    ∃ tatami, t.tatamis.tatamis.elements l.groupId.tatami = some tatami ∧
      (b.2 = .final → c.drawSystem.hasFinalBlock = true) ∧
      ∀ group, tatami.groups.elements l.groupId.concurrent = some group →
        group.groups.contains l.getSequentialGroupHandle = true ∨
          group.groups.size ≠ ConcurrentBlockGroup.maxGroupCount := by
  simp only [allowed] at h
  cases htatami : t.tatamis.tatamis.elements l.groupId.tatami with
  | none =>
    have htatami' : t.tatamis.tatamis.elements l.getTatamiHandle.id = none := htatami
    rw [htatami'] at h
    cases h
  | some tatami =>
    have htatami' : t.tatamis.tatamis.elements l.getTatamiHandle.id = some tatami := htatami
    simp only [htatami'] at h
    split at h
    · cases h
    · next hfinal =>
      refine ⟨tatami, rfl, by simpa using hfinal, fun group hgroup => ?_⟩
      have hgroup' : tatami.groups.elements l.getConcurrentGroupHandle.id = some group := hgroup
      rw [hgroup'] at h
      simpa using h

/-- The check of `redoImpl` keeps the outline allowed. -/
theorem allowed_setPlace {t : TournamentStore} (ht : LayoutSound t) {b : Block} {c : CategoryStore}
    (hc : t.categories b.1 = some c) {target : Option BlockLocation}
    (h : allowed t c b target = true) :
    (t.outline.setPlace b (target.map (·.groupId))).Allowed := by
  have hcat := categories_outline hc
  refine ⟨fun id c' hid => ?_, fun id c' hid hfinal => ?_, fun i j ks hks hplaced => ?_⟩
  · unfold Outline.setPlace at hid
    rw [Outline.categories_adjust] at hid
    split at hid
    · obtain ⟨c₀, h₀, rfl⟩ := Option.map_eq_some_iff.1 hid
      exact ht.allowed.keyed id c₀ h₀
    · exact ht.allowed.keyed id c' hid
  · unfold Outline.setPlace at hid
    rw [Outline.categories_adjust] at hid
    split at hid
    · next heq =>
      subst heq
      obtain ⟨c₀, h₀, rfl⟩ := Option.map_eq_some_iff.1 hid
      rw [hcat] at h₀
      cases h₀
      by_cases htype : b.2 = .final
      · have hsome : target ≠ none := by
          rintro rfl
          simp [htype, ByType.set] at hfinal
        obtain ⟨l, rfl⟩ := Option.ne_none_iff_exists'.1 hsome
        obtain ⟨-, -, hfinal, -⟩ := allowed_some h
        have hblock := hfinal htype
        show (DrawSystem.getDrawSystem c.drawSystem.getIdentifier).hasFinalBlock = true
        cases hd : c.drawSystem <;> rw [hd] at hblock <;> simp_all [DrawSystem.hasFinalBlock,
          DrawSystem.getIdentifier, DrawSystem.getDrawSystem]
      · have helim : b.2 = .elimination := by
          cases hb : b.2
          · rfl
          · exact (htype hb).elim
        rw [helim] at hfinal
        exact ht.allowed.final b.1 c.outline hcat hfinal
    · exact ht.allowed.final id c' hid hfinal
  · rw [Outline.place_setPlace (by rw [hcat]; simp)] at hplaced
    -- The groups of the list are the one of the target or have had a block before.
    have hold : ∀ k ∈ ks, target.map (·.groupId) = some ⟨i, j, k⟩ ∨
        ∃ b', t.outline.place b' = some ⟨i, j, k⟩ := by
      intro k hk
      obtain ⟨b', hb'⟩ := hplaced k hk
      by_cases heq : b' = b
      · subst heq
        rw [Function.update_self] at hb'
        exact .inl hb'
      · rw [Function.update_of_ne heq] at hb'
        exact .inr ⟨b', hb'⟩
    cases target with
    | none => exact ht.allowed.bounded i j ks hks fun k hk => (hold k hk).resolve_left (by simp)
    | some l =>
      cases hG : t.tatamis.layout.group i j with
      | none =>
        have hone : ∀ k ∈ ks, k = l.groupId.sequential := by
          intro k hk
          rcases hold k hk with heq | ⟨b', hb'⟩
          · cases heq
            rfl
          · exact (ht.placed.group_ne_none hb' hG).elim
        have hsub : ks ⊆ [l.groupId.sequential] := fun k hk => by simp [hone k hk]
        exact (hks.subperm hsub).length_le.trans (by simp [ConcurrentBlockGroup.maxGroupCount])
      | some G =>
        have hGids : ∀ k, k ∈ G.ids ↔ ∃ b', t.outline.place b' = some ⟨i, j, k⟩ :=
          ht.placed.mem_group_ids hG
        have hbound : G.ids.length ≤ ConcurrentBlockGroup.maxGroupCount :=
          ht.allowed.bounded i j G.ids (ht.placed.ordered.sequential i j G hG).nodup
            fun k hk => (hGids k).1 hk
        by_cases hall : ∀ k ∈ ks, k ∈ G.ids
        · exact (hks.subperm hall).length_le.trans hbound
        · obtain ⟨k₀, hk₀, hnew⟩ : ∃ k ∈ ks, k ∉ G.ids := by simpa using hall
          have hk₀' : l.groupId = ⟨i, j, k₀⟩ := by
            rcases hold k₀ hk₀ with heq | hb'
            · exact Option.some.inj heq
            · exact (hnew ((hGids k₀).2 hb')).elim
          have hsize : G.ids.length ≠ ConcurrentBlockGroup.maxGroupCount := by
            obtain ⟨M, hM, hMG⟩ := Option.bind_eq_some_iff.1 hG
            obtain ⟨tatami, htatami, rfl⟩ := Option.map_eq_some_iff.1 hM
            obtain ⟨group, hgroup, rfl⟩ := Option.map_eq_some_iff.1 hMG
            obtain ⟨tatami', htatami', -, hroom⟩ := allowed_some h
            rw [hk₀'] at htatami' hroom
            cases htatami.symm.trans htatami'
            refine (hroom group hgroup).resolve_left fun hcontains => hnew ?_
            rw [(ht.placed.ordered.sequential i j _ hG).keys,
              show k₀ = l.getSequentialGroupHandle.id from (congrArg GroupId.sequential hk₀').symm]
            have hmap := PositionManager.contains_map (·.blocks) group.groups l.getSequentialGroupHandle
            rw [hcontains] at hmap
            exact hmap
          have hsub : ks ⊆ k₀ :: G.ids := by
            intro k hk
            rcases hold k hk with heq | hb'
            · rw [Option.map_some, hk₀'] at heq
              cases heq
              exact List.mem_cons_self
            · exact List.mem_cons_of_mem _ ((hGids k).2 hb')
          have hle := (hks.subperm hsub).length_le
          rw [List.length_cons] at hle
          omega

/-- What `redoImpl` does: nothing, or it moves the block. -/
theorem redoImpl_ok {a a' : SetTatamiLocationAction} {t t' : TournamentStore}
    (h : a.redoImpl t = .ok a' t') :
    (a' = { a with positionSet := false } ∧ t' = t ∧
      ∀ c, t.categories a.block.1 = some c → allowed t c a.block a.location = false) ∨
    ∃ c tatamis, t.categories a.block.1 = some c ∧ allowed t c a.block a.location = true ∧
      t.tatamis.moveBlock t.categories a.block (c.getLocation a.block.2) a.location = .ok tatamis ∧
      a' = { a with positionSet := true, oldLocation := c.getLocation a.block.2 } ∧
      t' = ({ t with tatamis := tatamis } : TournamentStore).setCategory a.block.1
        (c.setLocation a.block.2 a.location) := by
  simp only [redoImpl, bind_ok, get_ok] at h
  obtain ⟨t₀, t₁, ⟨rfl, rfl⟩, h⟩ := h
  cases hc : t₁.categories a.block.1 with
  | none =>
    rw [hc] at h
    obtain ⟨rfl, rfl⟩ := pure_ok.1 h
    exact .inl ⟨rfl, rfl, by simp⟩
  | some c =>
    rw [hc] at h
    simp only at h
    split at h
    · next hallowed =>
      simp only [bind_ok, editTatamis_ok, editCategory_ok, pure_ok, Except.ok.injEq] at h
      obtain ⟨_, _, ⟨tatamis, hmove, rfl⟩, _, _, ⟨c', _, hc', rfl, rfl⟩, rfl, rfl⟩ := h
      rw [hc] at hc'
      cases hc'
      exact .inr ⟨c, tatamis, rfl, hallowed, hmove, rfl, rfl⟩
    · next hallowed =>
      obtain ⟨rfl, rfl⟩ := pure_ok.1 h
      refine .inl ⟨rfl, rfl, fun c' hc' => ?_⟩
      cases hc'
      simpa using hallowed

theorem undoImpl_ok {a a' : SetTatamiLocationAction} {u u' : TournamentStore}
    (hset : a.positionSet = true) (h : a.undoImpl u = .ok a' u') :
    ∃ c tatamis, u.categories a.block.1 = some c ∧
      u.tatamis.moveBlock u.categories a.block a.location a.oldLocation = .ok tatamis ∧
      u' = ({ u with tatamis := tatamis } : TournamentStore).setCategory a.block.1
        (c.setLocation a.block.2 a.oldLocation) := by
  unfold undoImpl at h
  rw [if_pos hset] at h
  simp only [bind_ok, editTatamis_ok, editCategory_ok, pure_ok, Except.ok.injEq] at h
  obtain ⟨_, _, ⟨tatamis, hmove, rfl⟩, _, _, ⟨c, _, hc, rfl, rfl⟩, rfl, rfl⟩ := h
  exact ⟨c, tatamis, hc, hmove, rfl⟩

theorem tatami_mem_of_allowed {t : TournamentStore} (ht : Placed t) {c : CategoryStore} {b : Block}
    {l : BlockLocation} (h : allowed t c b (some l) = true) : l.groupId.tatami ∈ t.outline.tatamis := by
  obtain ⟨tatami, htatami, -⟩ := allowed_some h
  refine ht.ordered.tatamis.mem_ids.2 ?_
  show Option.map _ _ ≠ none
  rw [htatami]
  simp

theorem revocable (a : SetTatamiLocationAction) :
    LayoutRevocable a.redoImpl undoImpl fun _ => True := by
  intro t a' t' ht h
  obtain ⟨rfl, rfl, -⟩ | ⟨c, tatamis, hc, hallowed, hmove, rfl, rfl⟩ := redoImpl_ok h
  · exact ⟨ht, .pure trivial⟩
  · have htatami : ∀ l, a.location = some l → l.groupId.tatami ∈ t.outline.tatamis :=
      fun l hl => tatami_mem_of_allowed ht.placed (hl ▸ hallowed)
    obtain ⟨hplaced, houtline⟩ := placed_moveBlock ht.placed hc rfl htatami hmove
    have hplace : t.outline.place a.block = (c.getLocation a.block.2).map (·.groupId) := by
      rw [show a.block = (a.block.1, a.block.2) from rfl, place_outline, hc]
      rfl
    refine ⟨⟨hplaced, by rw [houtline]; exact allowed_setPlace ht hc hallowed⟩, ?_⟩
    rw [houtline]
    intro u b u' hu ho hundo
    obtain ⟨c', tatamis', hc', hmove', rfl⟩ := undoImpl_ok rfl hundo
    have hsource : (c'.getLocation a.block.2).map (·.groupId) = a.location.map (·.groupId) := by
      have hplace' : u.outline.place a.block = a.location.map (·.groupId) := by
        rw [ho, Outline.place_setPlace (by rw [categories_outline hc]; simp), Function.update_self]
      rw [← hplace', show a.block = (a.block.1, a.block.2) from rfl, place_outline, hc']
      rfl
    have htatami' : ∀ l, c.getLocation a.block.2 = some l → l.groupId.tatami ∈ u.outline.tatamis := by
      intro l hl
      rw [ho]
      refine ht.placed.tatami_mem (b := a.block) ?_
      rw [hplace, hl]
      rfl
    obtain ⟨hplaced', houtline'⟩ := placed_moveBlock hu hc' hsource htatami' hmove'
    refine ⟨hplaced', ?_, trivial⟩
    rw [houtline', ho, Outline.setPlace_setPlace, ← hplace, Outline.setPlace_self]

/-- Taking a block off the tatamis is always allowed. -/
theorem outline_redoImpl_none {a a' : SetTatamiLocationAction} {t t' : TournamentStore}
    (hnone : a.location = none) {c : CategoryStore} (hc : t.categories a.block.1 = some c)
    (ht : Placed t) (h : a.redoImpl t = .ok a' t') : t'.outline = t.outline.setPlace a.block none := by
  obtain ⟨-, -, hnot⟩ | ⟨c, tatamis, hc, -, hmove, -, rfl⟩ := redoImpl_ok h
  · have := hnot c hc
    rw [hnone] at this
    cases this
  · rw [hnone] at hmove ⊢
    exact (placed_moveBlock ht hc rfl (by simp) hmove).2

end SetTatamiLocationAction

/-! ### Drawing and changing the draw system -/

theorem DrawCategoriesAction.revocable {a : DrawCategoriesAction} (hidle : a.drawn = []) :
    LayoutRevocable a.redoImpl undoImpl fun a => a.drawn = [] := by
  intro t a' t' ht h
  obtain ⟨hplan, hkinds⟩ := plan_redoImpl hidle h
  have houtline : t'.outline = t.outline := congrArg Prod.snd hplan
  refine ⟨ht.of_plan hplan, ?_⟩
  rw [houtline]
  intro u b u' hu ho hundo
  obtain ⟨hplan', hb⟩ := plan_undoImpl (by rw [ho]; exact hkinds) hundo
  have houtline' : u'.outline = u.outline := congrArg Prod.snd hplan'
  exact ⟨hu.of_plan hplan', houtline'.trans ho, hb⟩

namespace ChangeCategoriesDrawSystemAction

/-- The undo of the removal of a final block. -/
def restoreFinal : Option SetTatamiLocationAction → Exec Unit
  | none => pure ()
  | some a => do
    let _ ← a.undoImpl

theorem removeFinal_spec {id : CategoryId} {t t' : TournamentStore} {a : Option SetTatamiLocationAction}
    (ht : LayoutSound t) (h : removeFinal id t = .ok a t') :
    LayoutSound t' ∧ t'.outline = t.outline.setPlace (id, .final) none ∧
      LayoutBack (restoreFinal a) (fun _ => True) t'.outline t.outline := by
  simp only [removeFinal, bind_ok, getCategory_ok] at h
  obtain ⟨c, _, ⟨hc, rfl⟩, h⟩ := h
  have hplace : t.outline.place (id, .final) = (c.getLocation .final).map (·.groupId) := by
    rw [place_outline, hc]
    rfl
  have hid : c.id = id := ht.allowed.keyed id c.outline (categories_outline hc)
  split at h
  · simp only [bind_ok, pure_ok] at h
    obtain ⟨a, _, ha, rfl, rfl⟩ := h
    obtain ⟨ht', hback⟩ := SetTatamiLocationAction.revocable _ ht ha
    refine ⟨ht', ?_, hback.bind fun _ _ => .pure trivial⟩
    rw [← hid] at hc ⊢
    exact SetTatamiLocationAction.outline_redoImpl_none rfl hc ht.placed ha
  · next hnone =>
    obtain ⟨rfl, rfl⟩ := pure_ok.1 h
    have hlocation : c.getLocation .final = none := by simpa using hnone
    rw [hlocation] at hplace
    refine ⟨ht, ?_, .pure trivial⟩
    rw [← Option.map_none, ← hplace, Outline.setPlace_self]

/-- The final block of a category is not placed. -/
def NoFinal (o : Outline) (id : CategoryId) : Prop := o.place (id, .final) = none

theorem noFinal_setPlace {o : Outline} {id id' : CategoryId} (h : id' = id ∨ NoFinal o id') :
    NoFinal (o.setPlace (id, .final) none) id' := by
  by_cases hnone : o.categories id = none
  · have hsame : o.setPlace (id, .final) none = o :=
      Outline.adjust_of_eq fun c hc => by rw [hnone] at hc; cases hc
    rw [hsame]
    rcases h with rfl | h
    · unfold NoFinal Outline.place
      rw [hnone]
      rfl
    · exact h
  · unfold NoFinal
    rw [Outline.place_setPlace hnone]
    by_cases heq : id' = id
    · rw [heq, Function.update_self]
    · rw [Function.update_of_ne (by simp [heq])]
      exact h.resolve_left heq

theorem removeFinals_spec {ids : List CategoryId} {t t' : TournamentStore}
    {as : List (Option SetTatamiLocationAction)} (ht : LayoutSound t)
    (h : forEach removeFinal ids t = .ok as t') :
    LayoutSound t' ∧ (∀ id, id ∈ ids ∨ NoFinal t.outline id → NoFinal t'.outline id) ∧
      (∀ id, t'.outline.categories id = none ↔ t.outline.categories id = none) ∧
      LayoutBack (forEach SetTatamiLocationAction.undoImpl as.reduceOption.reverse) (fun _ => True)
        t'.outline t.outline := by
  induction ids generalizing t as with
  | nil =>
    obtain ⟨rfl, rfl⟩ := forEach_nil_ok.1 h
    exact ⟨ht, fun id hid => hid.resolve_left (by simp), fun _ => Iff.rfl, leadsBack_nil⟩
  | cons id ids ih =>
    obtain ⟨a, t₁, as', ha, has, rfl⟩ := forEach_cons_ok.1 h
    obtain ⟨ht₁, houtline, hback⟩ := removeFinal_spec ht ha
    obtain ⟨ht', hnone, hdomain, hback'⟩ := ih ht₁ has
    refine ⟨ht', fun id' hid' => hnone id' ?_, fun id' => ?_, ?_⟩
    · rw [houtline]
      rcases hid' with hid' | hid'
      · rcases List.mem_cons.1 hid' with rfl | hid'
        · exact .inr (noFinal_setPlace (.inl rfl))
        · exact .inl hid'
      · exact .inr (noFinal_setPlace (.inr hid'))
    · rw [hdomain, houtline]
      exact Outline.categories_adjust_eq_none
    · cases a with
      | none =>
        rw [List.reduceOption_cons_of_none]
        have hsame : t₁.outline = t.outline := by
          obtain ⟨-, heq, -⟩ := hback ht₁.placed rfl rfl
          exact heq
        rw [← hsame]
        exact hback'
      | some a =>
        rw [List.reduceOption_cons_of_some, List.reverse_cons]
        refine leadsBack_append hback' (leadsBack_singleton (Q := fun _ => True) ?_)
        intro u b u' hu ho hundo
        exact hback hu ho (bind_ok.2 ⟨b, u', hundo, rfl⟩)

/-! #### The new draw system -/

theorem changeDrawSystem_spec {drawSystem : DrawSystem} {id : CategoryId} {t t' : TournamentStore}
    {p : CategoryId × DrawSystem} (ht : Placed t) (h : changeDrawSystem drawSystem id t = .ok p t') :
    Placed t' ∧ t'.outline = t.outline.setKind id drawSystem.getIdentifier ∧
      LayoutBack (editCategory p.1 fun c => .ok (c.setDrawSystem p.2)) (fun _ => True) t'.outline
        t.outline := by
  simp only [changeDrawSystem, bind_ok, getCategory_ok, editCategory_ok, pure_ok, Except.ok.injEq] at h
  obtain ⟨c, _, ⟨hc, rfl⟩, _, _, ⟨c', _, hc', rfl, rfl⟩, rfl, rfl⟩ := h
  cases hc.symm.trans hc'
  have hset : ∀ {u : TournamentStore} {c : CategoryStore} (d : DrawSystem), Placed u →
      u.categories id = some c → Placed (u.setCategory id (c.setDrawSystem d)) ∧
        (u.setCategory id (c.setDrawSystem d)).outline = u.outline.setKind id d.getIdentifier := by
    intro u c d hu hc
    have houtline : (u.setCategory id (c.setDrawSystem d)).outline =
        u.outline.setKind id d.getIdentifier := outline_adjust hc rfl
    refine ⟨?_, houtline⟩
    unfold Placed
    rw [houtline, Outline.place_setKind]
    exact hu
  obtain ⟨hplaced, houtline⟩ := hset drawSystem ht hc
  refine ⟨hplaced, houtline, ?_⟩
  rw [houtline]
  intro u b u' hu ho hundo
  obtain ⟨c', _, hc', h₁, rfl⟩ := editCategory_ok.1 hundo
  cases h₁
  obtain ⟨hplaced', houtline'⟩ := hset c.drawSystem hu hc'
  refine ⟨hplaced', ?_, trivial⟩
  rw [houtline', ho]
  exact Outline.setKind_setKind (categories_outline hc) _

theorem changeDrawSystems_spec {drawSystem : DrawSystem} {ids : List CategoryId}
    {t t' : TournamentStore} {ps : List (CategoryId × DrawSystem)} (ht : Placed t)
    (h : forEach (changeDrawSystem drawSystem) ids t = .ok ps t') :
    Placed t' ∧
      t'.outline = ids.foldl (fun o id => o.setKind id drawSystem.getIdentifier) t.outline ∧
      LayoutBack (forEach (fun p => editCategory p.1 fun c => .ok (c.setDrawSystem p.2)) ps.reverse)
        (fun _ => True) t'.outline t.outline := by
  induction ids generalizing t ps with
  | nil =>
    obtain ⟨rfl, rfl⟩ := forEach_nil_ok.1 h
    exact ⟨ht, rfl, leadsBack_nil⟩
  | cons id ids ih =>
    obtain ⟨p, t₁, ps', hp, hps, rfl⟩ := forEach_cons_ok.1 h
    obtain ⟨ht₁, houtline, hback⟩ := changeDrawSystem_spec ht hp
    obtain ⟨ht', houtline', hback'⟩ := ih ht₁ hps
    refine ⟨ht', by rw [houtline', houtline]; rfl, ?_⟩
    rw [List.reverse_cons]
    exact leadsBack_append hback' (leadsBack_singleton hback)

theorem foldl_setKind (kind : DrawSystemIdentifier) (ids : List CategoryId) (o : Outline) :
    (ids.foldl (fun o id => o.setKind id kind) o).place = o.place ∧
      ∀ id, (ids.foldl (fun o id => o.setKind id kind) o).categories id =
        if id ∈ ids then (o.categories id).map fun c => { c with kind := kind }
        else o.categories id := by
  induction ids generalizing o with
  | nil => exact ⟨rfl, fun id => rfl⟩
  | cons i ids ih =>
    obtain ⟨hplace, hcategories⟩ := ih (o.setKind i kind)
    refine ⟨hplace.trans (Outline.place_setKind i kind), fun id => ?_⟩
    rw [List.foldl_cons, hcategories, Outline.setKind, Outline.categories_adjust]
    by_cases hid : id = i
    · subst hid
      cases o.categories id <;> simp
    · by_cases hmem : id ∈ ids <;> simp [hid, hmem]

theorem allowed_foldl_setKind {o : Outline} (ho : o.Allowed) {kind : DrawSystemIdentifier}
    {ids : List CategoryId}
    (h : (DrawSystem.getDrawSystem kind).hasFinalBlock = true ∨ ∀ id ∈ ids, NoFinal o id) :
    (ids.foldl (fun o id => o.setKind id kind) o).Allowed := by
  obtain ⟨hplace, hcategories⟩ := foldl_setKind kind ids o
  refine ⟨fun id c hc => ?_, fun id c hc hfinal => ?_, fun i j ks hks hplaced => ?_⟩
  · rw [hcategories] at hc
    split at hc
    · obtain ⟨c₀, h₀, rfl⟩ := Option.map_eq_some_iff.1 hc
      exact ho.keyed id c₀ h₀
    · exact ho.keyed id c hc
  · rw [hcategories] at hc
    split at hc
    · next hid =>
      obtain ⟨c₀, h₀, rfl⟩ := Option.map_eq_some_iff.1 hc
      refine h.resolve_right fun hnone => hfinal ?_
      have hplace := hnone id hid
      unfold NoFinal Outline.place at hplace
      rw [h₀] at hplace
      exact hplace
    · exact ho.final id c hc hfinal
  · rw [hplace] at hplaced
    exact ho.bounded i j ks hks hplaced

theorem redoImpl_ok {a a' : ChangeCategoriesDrawSystemAction} {t t' : TournamentStore}
    (h : a.redoImpl t = .ok a' t') :
    ∃ as t₁ old t₂ drawAction,
      removeFinals (DrawSystem.getDrawSystem a.drawSystem) (a.getCategoriesThatChange t) t = .ok as t₁ ∧
      forEach (changeDrawSystem (DrawSystem.getDrawSystem a.drawSystem)) (a.getCategoriesThatChange t)
        t₁ = .ok old t₂ ∧
      DrawCategoriesAction.redoImpl
        { categoryIds := a.getCategoriesThatChange t, seed := a.seed } t₂ = .ok drawAction t' ∧
      a' = { a with
        changedCategories := old.reverse ++ a.changedCategories
        drawAction := some drawAction
        locationActions := as.reverse ++ a.locationActions } := by
  simp only [redoImpl, bind_ok, read_ok, pure_ok, Except.ok.injEq] at h
  obtain ⟨ids, _, ⟨rfl, rfl⟩, as, t₁, has, old, t₂, hold, drawAction, _, hdraw, rfl, rfl⟩ := h
  exact ⟨as, t₁, old, t₂, drawAction, has, hold, hdraw, rfl⟩

theorem removeFinals_sound {drawSystem : DrawSystem} {ids : List CategoryId} {t t' : TournamentStore}
    {as : List SetTatamiLocationAction} (ht : LayoutSound t)
    (h : removeFinals drawSystem ids t = .ok as t') :
    LayoutSound t' ∧ (drawSystem.hasFinalBlock = true ∨ ∀ id ∈ ids, NoFinal t'.outline id) ∧
      (∀ id, t'.outline.categories id = none ↔ t.outline.categories id = none) ∧
      LayoutBack (forEach SetTatamiLocationAction.undoImpl as.reverse) (fun _ => True) t'.outline
        t.outline := by
  unfold removeFinals at h
  split at h
  · next hfinal =>
    obtain ⟨rfl, rfl⟩ := pure_ok.1 h
    exact ⟨ht, .inl hfinal, fun _ => Iff.rfl, leadsBack_nil⟩
  · simp only [bind_ok, pure_ok] at h
    obtain ⟨as', _, has, rfl, rfl⟩ := h
    obtain ⟨ht', hnone, hdomain, hback⟩ := removeFinals_spec ht has
    exact ⟨ht', .inr fun id hid => hnone id (.inl hid), hdomain, hback⟩

theorem revocable {a : ChangeCategoriesDrawSystemAction} (hchanged : a.changedCategories = [])
    (hlocations : a.locationActions = []) :
    LayoutRevocable a.redoImpl undoImpl fun a => a.changedCategories = [] ∧ a.locationActions = [] := by
  intro t a' t' ht h
  obtain ⟨as, t₁, old, t₂, drawAction, has, hold, hdraw, rfl⟩ := redoImpl_ok h
  obtain ⟨ht₁, hfinal, -, hback₁⟩ := removeFinals_sound ht has
  obtain ⟨hplaced₂, houtline₂, hback₂⟩ := changeDrawSystems_spec ht₁.placed hold
  have ht₂ : LayoutSound t₂ := by
    refine ⟨hplaced₂, ?_⟩
    rw [houtline₂]
    refine allowed_foldl_setKind ht₁.allowed ?_
    have hkind : (DrawSystem.getDrawSystem a.drawSystem).getIdentifier = a.drawSystem := by
      cases a.drawSystem <;> rfl
    rwa [hkind]
  obtain ⟨ht', hback₃⟩ := DrawCategoriesAction.revocable (a := { categoryIds := _, seed := _ }) rfl ht₂ hdraw
  refine ⟨ht', ?_⟩
  rw [hchanged, hlocations, List.append_nil, List.append_nil]
  exact hback₃.bind fun _ _ => hback₂.bind fun _ _ => hback₁.bind fun _ _ => .pure ⟨rfl, rfl⟩

/-- The action erases no category. -/
theorem domain_redoImpl {a a' : ChangeCategoriesDrawSystemAction} {t t' : TournamentStore}
    (ht : LayoutSound t) (h : a.redoImpl t = .ok a' t') (id : CategoryId) :
    t'.outline.categories id = none ↔ t.outline.categories id = none := by
  obtain ⟨as, t₁, old, t₂, drawAction, has, hold, hdraw, -⟩ := redoImpl_ok h
  obtain ⟨ht₁, -, hdomain, -⟩ := removeFinals_sound ht has
  obtain ⟨-, houtline₂, -⟩ := changeDrawSystems_spec ht₁.placed hold
  have houtline : t'.outline = t₂.outline :=
    congrArg Prod.snd (DrawCategoriesAction.plan_redoImpl rfl hdraw).1
  rw [houtline, houtline₂, (foldl_setKind _ _ _).2, ← hdomain]
  split
  · exact Option.map_eq_none_iff
  · exact Iff.rfl

end ChangeCategoriesDrawSystemAction

/-! ### The players of a category -/

theorem RedrawAction.revocable (id : CategoryId) (seed : ℕ) :
    LayoutRevocable (run id seed) undo fun _ => True := by
  intro t a t' ht h
  obtain ⟨b, hb, rfl⟩ | ⟨drawSystem, b, -, hb, rfl⟩ := run_ok h
  · obtain ⟨ht', hback⟩ := DrawCategoriesAction.revocable rfl ht hb
    exact ⟨ht', hback.bind fun _ _ => .pure trivial⟩
  · obtain ⟨ht', hback⟩ := ChangeCategoriesDrawSystemAction.revocable rfl rfl ht hb
    exact ⟨ht', hback.bind fun _ _ => .pure trivial⟩

theorem RedrawAction.domain_run {id : CategoryId} {seed : ℕ} {t t' : TournamentStore}
    {a : RedrawAction} (ht : LayoutSound t) (h : run id seed t = .ok a t') (i : CategoryId) :
    t'.outline.categories i = none ↔ t.outline.categories i = none := by
  obtain ⟨b, hb, rfl⟩ | ⟨drawSystem, b, -, hb, rfl⟩ := run_ok h
  · have houtline : t'.outline = t.outline :=
      congrArg Prod.snd (DrawCategoriesAction.plan_redoImpl rfl hb).1
    rw [houtline]
  · exact ChangeCategoriesDrawSystemAction.domain_redoImpl ht hb i

theorem categories_outline_eq_none {t : TournamentStore} {id : CategoryId} :
    t.outline.categories id = none ↔ t.categories id = none := Option.map_eq_none_iff

/-- Changing members leaves the plan, so only the draw action matters. -/
theorem leadsBack_redraw {α : Type} {after before : Outline} {undo : Exec α} {P : α → Prop}
    {r : Option RedrawAction} (hr : LayoutBack (RedrawAction.undoOption r) (fun _ => True) after before)
    (h : ∀ ⦃u a u'⦄, u.outline = after → undo u = .ok a u' →
      P a ∧ (u' = u ∧ after = before ∨
        ∃ u₁ : TournamentStore, u₁.plan = u.plan ∧ RedrawAction.undoOption r u₁ = .ok () u')) :
    LayoutBack undo P after before := by
  intro u a u' hu ho hundo
  obtain ⟨hP, ⟨rfl, heq⟩ | ⟨u₁, hplan, hundo⟩⟩ := h ho hundo
  · exact ⟨hu, ho.trans heq, hP⟩
  · have houtline : u₁.outline = u.outline := congrArg Prod.snd hplan
    obtain ⟨hu', ho', -⟩ := hr (hu.of_plan hplan) (houtline.trans ho) hundo
    exact ⟨hu', ho', hP⟩

theorem AddPlayersToCategoryAction.revocable {a : AddPlayersToCategoryAction}
    (hadded : a.addedPlayerIds = []) (hdraw : a.drawAction = none) :
    LayoutRevocable a.redoImpl undoImpl fun a => a.addedPlayerIds = [] ∧ a.drawAction = none := by
  intro t a' t' ht h
  have hidle : ∀ {o : Outline}, LayoutBack a.undoImpl
      (fun a => a.addedPlayerIds = [] ∧ a.drawAction = none) o o := by
    intro o
    refine leadsBack_redraw (r := none) (.pure trivial) fun u b u' _ hundo => ?_
    obtain ⟨rfl, rfl, -⟩ | ⟨us, u₁, -, hus, hredraw, rfl⟩ := undoImpl_ok hundo
    · exact ⟨⟨hadded, hdraw⟩, .inl ⟨rfl, rfl⟩⟩
    · rw [hdraw] at hredraw
      exact ⟨⟨rfl, rfl⟩,
        .inr ⟨u₁, frame_forEach (fun _ _ => memberBlind_plan.leaveCategory) hus, hredraw⟩⟩
  obtain ⟨rfl, rfl, -⟩ | ⟨added, t₁, hc, hmembers, h⟩ := redoImpl_ok h
  · exact ⟨ht, hidle⟩
  · have hplan : t₁.plan = t.plan := frame_changeMembers (fun _ => memberBlind_plan.joinCategory) _ hmembers
    have houtline : t₁.outline = t.outline := congrArg Prod.snd hplan
    obtain ⟨-, rfl, rfl⟩ | ⟨-, r, hr, rfl⟩ := h
    · exact ⟨ht.of_plan hplan, by rw [houtline]; exact hidle⟩
    · obtain ⟨ht', hback⟩ := RedrawAction.revocable _ _ (ht.of_plan hplan) hr
      have hdomain := RedrawAction.domain_run (ht.of_plan hplan) hr
      rw [houtline] at hback hdomain
      refine ⟨ht', leadsBack_redraw (r := some r) hback fun u b u' ho hundo => ?_⟩
      obtain ⟨-, -, hnone⟩ | ⟨us, u₁, -, hus, hredraw, rfl⟩ := undoImpl_ok hundo
      · rw [← categories_outline_eq_none, ho, hdomain, categories_outline_eq_none] at hnone
        exact (hc hnone).elim
      · exact ⟨⟨rfl, rfl⟩,
          .inr ⟨u₁, frame_forEach (fun _ _ => memberBlind_plan.leaveCategory) hus, hredraw⟩⟩

theorem ErasePlayersFromCategoryAction.revocable {a : ErasePlayersFromCategoryAction}
    (herased : a.erasedPlayerIds = []) (hdraw : a.drawAction = none) :
    LayoutRevocable a.redoImpl undoImpl fun a => a.erasedPlayerIds = [] ∧ a.drawAction = none := by
  intro t a' t' ht h
  have hidle : ∀ {o : Outline}, LayoutBack a.undoImpl
      (fun a => a.erasedPlayerIds = [] ∧ a.drawAction = none) o o := by
    intro o
    refine leadsBack_redraw (r := none) (.pure trivial) fun u b u' _ hundo => ?_
    obtain ⟨rfl, rfl, -⟩ | ⟨us, u₁, -, hus, hredraw, rfl⟩ := undoImpl_ok hundo
    · exact ⟨⟨herased, hdraw⟩, .inl ⟨rfl, rfl⟩⟩
    · rw [hdraw] at hredraw
      exact ⟨⟨rfl, rfl⟩, .inr ⟨u₁, frame_forEach (fun _ _ => memberBlind_plan.joinCategory) hus, hredraw⟩⟩
  obtain ⟨rfl, rfl, -⟩ | ⟨erased, t₁, hc, hmembers, h⟩ := redoImpl_ok h
  · exact ⟨ht, hidle⟩
  · have hplan : t₁.plan = t.plan := frame_changeMembers (fun _ => memberBlind_plan.leaveCategory) _ hmembers
    have houtline : t₁.outline = t.outline := congrArg Prod.snd hplan
    obtain ⟨-, rfl, rfl⟩ | ⟨-, r, hr, rfl⟩ := h
    · exact ⟨ht.of_plan hplan, by rw [houtline]; exact hidle⟩
    · obtain ⟨ht', hback⟩ := RedrawAction.revocable _ _ (ht.of_plan hplan) hr
      have hdomain := RedrawAction.domain_run (ht.of_plan hplan) hr
      rw [houtline] at hback hdomain
      refine ⟨ht', leadsBack_redraw (r := some r) hback fun u b u' ho hundo => ?_⟩
      obtain ⟨-, -, hnone⟩ | ⟨us, u₁, -, hus, hredraw, rfl⟩ := undoImpl_ok hundo
      · rw [← categories_outline_eq_none, ho, hdomain, categories_outline_eq_none] at hnone
        exact (hc hnone).elim
      · exact ⟨⟨rfl, rfl⟩,
          .inr ⟨u₁, frame_forEach (fun _ _ => memberBlind_plan.joinCategory) hus, hredraw⟩⟩

theorem revocable_eraseFromCategories (playerIds : List PlayerId) (seed : ℕ) (ids : List CategoryId) :
    LayoutRevocable (eraseFromCategories playerIds seed ids)
      (fun as => forEach ErasePlayersFromCategoryAction.undoImpl as) fun _ => True := by
  intro t as t' ht h
  simp only [eraseFromCategories, bind_ok, pure_ok] at h
  obtain ⟨as', _, has, rfl, rfl⟩ := h
  exact revocable_forEach (fun id _ => ErasePlayersFromCategoryAction.revocable rfl rfl) ht has

theorem ErasePlayersFromAllCategoriesAction.revocable {a : ErasePlayersFromAllCategoriesAction}
    (hidle : a.actions = []) : LayoutRevocable a.redoImpl undoImpl fun a => a.actions = [] := by
  intro t a' t' ht h
  simp only [redoImpl, bind_ok, get_ok, pure_ok] at h
  obtain ⟨_, _, ⟨rfl, rfl⟩, as, _, has, rfl, rfl⟩ := h
  obtain ⟨ht', hback⟩ := revocable_eraseFromCategories _ _ _ ht has
  refine ⟨ht', ?_⟩
  rw [hidle, List.append_nil]
  exact hback.bind fun _ _ => .pure rfl

theorem ErasePlayersAction.revocable {a : ErasePlayersAction} (hidle : a.actions = []) :
    LayoutRevocable a.redoImpl undoImpl
      fun a => a.erasedPlayerIds = [] ∧ a.players = [] ∧ a.actions = [] := by
  intro t a' t' ht h
  simp only [redoImpl, bind_ok, get_ok, pure_ok] at h
  obtain ⟨_, _, ⟨rfl, rfl⟩, as, t₁, has, players, t₂, hplayers, rfl, rfl⟩ := h
  obtain ⟨ht₁, hback⟩ := revocable_eraseFromCategories _ _ _ ht has
  have hplan : t₂.plan = t₁.plan := frame_forEach (fun _ _ => plan_erasePlayer) hplayers
  have houtline : t₂.outline = t₁.outline := congrArg Prod.snd hplan
  refine ⟨ht₁.of_plan hplan, ?_⟩
  rw [hidle, List.append_nil, houtline]
  exact (layoutBack_of_plan (frame_forEach fun _ _ => plan_addPlayer)).bind fun _ _ =>
    hback.bind fun _ _ => .pure ⟨rfl, rfl, rfl⟩

theorem ChangePlayersBlueJudogiHintAction.revocable (a : ChangePlayersBlueJudogiHintAction) :
    LayoutRevocable a.redoImpl undoImpl fun a => a.changedPlayers = [] := by
  intro t a' t' ht h
  simp only [redoImpl, bind_ok, read_ok, pure_ok, Except.ok.injEq] at h
  obtain ⟨changed, t₁, hchanged, _, _, ⟨rfl, rfl⟩, drawAction, _, hdraw, rfl, rfl⟩ := h
  have hplan : t₁.plan = t.plan := frame_changeField fieldBlind_plan _ hchanged
  have houtline : t₁.outline = t.outline := congrArg Prod.snd hplan
  unfold drawAll at hdraw
  split at hdraw
  · obtain ⟨rfl, rfl⟩ := pure_ok.1 hdraw
    refine ⟨ht.of_plan hplan, ?_⟩
    rw [houtline]
    exact (layoutBack_of_plan (frame_restoreField fieldBlind_plan)).bind fun _ _ => .pure rfl
  · simp only [bind_ok, pure_ok] at hdraw
    obtain ⟨b, _, hb, rfl, rfl⟩ := hdraw
    obtain ⟨ht', hback⟩ := DrawCategoriesAction.revocable rfl (ht.of_plan hplan) hb
    rw [houtline] at hback
    exact ⟨ht', (layoutBack_of_plan (frame_restoreField fieldBlind_plan)).bind fun _ _ =>
      hback.bind fun _ _ => .pure rfl⟩

end JudoAssistant
