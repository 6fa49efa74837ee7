import JudoAssistant.Tournament.Frames

/-!
# Where the blocks are

The place of a block is stored twice: the category has a location, and the group that the location
names has the block.  `Placed` says that both agree.  The outline of a tournament is what determines
the places: the tatamis, and the draw system and the group ids of every category.
-/

namespace JudoAssistant

open Effect Exec

/-! ### The outline -/

/-- The id of a category, its kind of draw system and the groups of its blocks. -/
@[ext] structure CategoryOutline where
  id : CategoryId
  kind : DrawSystemIdentifier
  places : ByType (Option GroupId)
  deriving DecidableEq, Repr

def CategoryStore.outline (c : CategoryStore) : CategoryOutline where
  id := c.id
  kind := c.drawSystem.getIdentifier
  places := ⟨c.location.elimination.map (·.groupId), c.location.final.map (·.groupId)⟩

/-- The tatamis in their order and the outlines of the categories. -/
@[ext] structure Outline where
  tatamis : List PositionId
  categories : CategoryId → Option CategoryOutline

namespace Outline

/-- The group of a block, if it is placed. -/
def place (o : Outline) (b : Block) : Option GroupId :=
  (o.categories b.1).bind fun c => c.places.get b.2

def setCategory (o : Outline) (id : CategoryId) (c : Option CategoryOutline) : Outline :=
  { o with categories := Function.update o.categories id c }

/-- Change the outline of a category, if it exists. -/
def adjust (o : Outline) (id : CategoryId) (f : CategoryOutline → CategoryOutline) : Outline :=
  o.setCategory id ((o.categories id).map f)

/-- Change the place of a block. -/
def setPlace (o : Outline) (b : Block) (place : Option GroupId) : Outline :=
  o.adjust b.1 fun c => { c with places := c.places.set b.2 place }

/-- Change the kind of draw system of a category. -/
def setKind (o : Outline) (id : CategoryId) (kind : DrawSystemIdentifier) : Outline :=
  o.adjust id fun c => { c with kind := kind }

/-- The categories have the ids of their keys, final blocks are placed only for draw systems that have
one, and no concurrent group has too many sequential groups. -/
structure Allowed (o : Outline) : Prop where
  keyed : ∀ id c, o.categories id = some c → c.id = id
  final : ∀ id c, o.categories id = some c → c.places.final ≠ none →
    (DrawSystem.getDrawSystem c.kind).hasFinalBlock = true
  bounded : ∀ i j (ks : List PositionId), ks.Nodup → (∀ k ∈ ks, ∃ b, o.place b = some ⟨i, j, k⟩) →
    ks.length ≤ ConcurrentBlockGroup.maxGroupCount

variable {o : Outline}

theorem categories_adjust (id : CategoryId) (f : CategoryOutline → CategoryOutline) (i : CategoryId) :
    (o.adjust id f).categories i = if i = id then (o.categories i).map f else o.categories i := by
  by_cases h : i = id
  · subst h
    simp [adjust, setCategory]
  · simp [adjust, setCategory, h]

theorem adjust_of_eq {id : CategoryId} {f : CategoryOutline → CategoryOutline}
    (h : ∀ c, o.categories id = some c → f c = c) : o.adjust id f = o := by
  refine Outline.ext rfl (Function.update_eq_self_iff.2 ?_)
  cases hc : o.categories id with
  | none => rfl
  | some c => rw [Option.map_some, h c hc]

theorem adjust_adjust (id : CategoryId) (f f' : CategoryOutline → CategoryOutline) :
    (o.adjust id f).adjust id f' = o.adjust id fun c => f' (f c) := by
  refine Outline.ext rfl ?_
  funext i
  rw [categories_adjust, categories_adjust, categories_adjust]
  split
  · rw [Option.map_map]
    rfl
  · rfl

theorem categories_adjust_eq_none {id : CategoryId} {f : CategoryOutline → CategoryOutline}
    {i : CategoryId} : (o.adjust id f).categories i = none ↔ o.categories i = none := by
  rw [categories_adjust]
  split
  · exact Option.map_eq_none_iff
  · exact Iff.rfl

theorem place_setPlace {b : Block} (hb : o.categories b.1 ≠ none) (place : Option GroupId) :
    (o.setPlace b place).place = Function.update o.place b place := by
  funext b'
  obtain ⟨c, hc⟩ := Option.ne_none_iff_exists'.1 hb
  obtain ⟨id, type⟩ := b
  obtain ⟨id', type'⟩ := b'
  unfold Outline.place setPlace
  rw [categories_adjust]
  by_cases hid : id' = id
  · subst hid
    rw [if_pos rfl, hc]
    by_cases htype : type' = type
    · subst htype
      simp [Function.update_self]
    · rw [Function.update_of_ne (by simp [htype])]
      cases type <;> cases type' <;> simp_all [ByType.get, ByType.set]
  · rw [if_neg hid, Function.update_of_ne (by simp [hid])]

theorem setPlace_setPlace (b : Block) (place place' : Option GroupId) :
    (o.setPlace b place).setPlace b place' = o.setPlace b place' := by
  unfold setPlace
  rw [adjust_adjust]
  simp

theorem setPlace_self (b : Block) : o.setPlace b (o.place b) = o := by
  refine adjust_of_eq fun c hc => ?_
  unfold Outline.place
  rw [hc, Option.bind_some, ByType.set_get]

theorem place_setKind (id : CategoryId) (kind : DrawSystemIdentifier) :
    (o.setKind id kind).place = o.place := by
  funext b
  unfold Outline.place setKind
  rw [categories_adjust]
  split
  · cases o.categories b.1 <;> rfl
  · rfl

theorem setKind_setKind {id : CategoryId} {c : CategoryOutline} (hc : o.categories id = some c)
    (kind : DrawSystemIdentifier) : (o.setKind id kind).setKind id c.kind = o := by
  unfold setKind
  rw [adjust_adjust]
  refine adjust_of_eq fun c' hc' => ?_
  rw [hc] at hc'
  cases hc'
  rfl

/-- The ids and the kinds of draw system of the categories. -/
def frame (o : Outline) (id : CategoryId) : Option (CategoryId × DrawSystemIdentifier) :=
  (o.categories id).map fun c => (c.id, c.kind)

/-- An outline is determined by the tatamis, the frame and the places. -/
theorem ext_place {o o' : Outline} (htatamis : o.tatamis = o'.tatamis) (hframe : o.frame = o'.frame)
    (hplace : o.place = o'.place) : o = o' := by
  refine Outline.ext htatamis ?_
  funext id
  have hid : (o.categories id).map _ = (o'.categories id).map _ := congrFun hframe id
  have helimination : (o.categories id).bind _ = (o'.categories id).bind _ :=
    congrFun hplace (id, .elimination)
  have hfinal : (o.categories id).bind _ = (o'.categories id).bind _ := congrFun hplace (id, .final)
  cases hc : o.categories id with
  | none =>
    rw [hc] at hid
    exact (Option.map_eq_none_iff.1 hid.symm).symm
  | some c =>
    rw [hc] at hid helimination hfinal
    obtain ⟨c', hc', heq⟩ := Option.map_eq_some_iff.1 hid.symm
    rw [hc', Option.bind_some, Option.bind_some] at helimination hfinal
    obtain ⟨i, k, p⟩ := c
    obtain ⟨i', k', p'⟩ := c'
    cases heq
    obtain ⟨pe, pf⟩ := p
    obtain ⟨pe', pf'⟩ := p'
    cases helimination
    cases hfinal
    exact hc'.symm

theorem frame_setPlace (b : Block) (place : Option GroupId) : (o.setPlace b place).frame = o.frame := by
  funext id
  unfold frame setPlace
  rw [categories_adjust]
  split
  · rw [Option.map_map]
    rfl
  · rfl

/-- An outline with fewer categories and fewer places is still allowed. -/
theorem Allowed.of_le {o o' : Outline} (h : o.Allowed) (hframe : ∀ id f, o'.frame id = some f → o.frame id = some f)
    (hplace : ∀ b g, o'.place b = some g → o.place b = some g) : o'.Allowed := by
  have hcategory : ∀ id c', o'.categories id = some c' →
      ∃ c, o.categories id = some c ∧ c.id = c'.id ∧ c.kind = c'.kind := by
    intro id c' hc'
    have hf : o'.frame id = some (c'.id, c'.kind) := by
      unfold frame
      rw [hc']
      rfl
    obtain ⟨c, hc, heq⟩ := Option.map_eq_some_iff.1 (hframe id _ hf)
    rw [Prod.mk.injEq] at heq
    exact ⟨c, hc, heq⟩
  refine ⟨fun id c' hc' => ?_, fun id c' hc' hfinal => ?_, fun i j ks hks hplaced => ?_⟩
  · obtain ⟨c, hc, hid, -⟩ := hcategory id c' hc'
    exact hid.symm.trans (h.keyed id c hc)
  · obtain ⟨c, hc, -, hkind⟩ := hcategory id c' hc'
    obtain ⟨g, hg⟩ := Option.ne_none_iff_exists'.1 hfinal
    have hb : o'.place (id, .final) = some g := by
      unfold Outline.place
      rw [hc']
      exact hg
    have hb' : (o.categories id).bind (·.places.final) = some g := hplace _ g hb
    rw [hc, Option.bind_some] at hb'
    rw [← hkind]
    exact h.final id c hc (by rw [hb']; simp)
  · refine h.bounded i j ks hks fun k hk => ?_
    obtain ⟨b, hb⟩ := hplaced k hk
    exact ⟨b, hplace b _ hb⟩

end Outline

namespace TournamentStore

variable {t : TournamentStore}

def outline (t : TournamentStore) : Outline where
  tatamis := t.tatamis.tatamis.ids
  categories id := (t.categories id).map (·.outline)

/-- The layout and the outline. -/
def plan (t : TournamentStore) : Layout × Outline := (t.tatamis.layout, t.outline)

theorem place_outline (t : TournamentStore) (id : CategoryId) (type : MatchType) :
    t.outline.place (id, type) =
      (t.categories id).bind fun c => (c.getLocation type).map (·.groupId) := by
  show Option.bind ((t.categories id).map _) _ = _
  cases t.categories id with
  | none => rfl
  | some c => cases type <;> rfl

theorem outline_setCategory (id : CategoryId) (c : CategoryStore) :
    (t.setCategory id c).outline = t.outline.setCategory id (some c.outline) :=
  Outline.ext rfl (Function.comp_update (Option.map CategoryStore.outline) t.categories id _)

theorem outline_adjust {id : CategoryId} {c c' : CategoryStore}
    {f : CategoryOutline → CategoryOutline} (hc : t.categories id = some c)
    (h : c'.outline = f c.outline) : (t.setCategory id c').outline = t.outline.adjust id f := by
  rw [outline_setCategory, h]
  show _ = t.outline.setCategory id (((t.categories id).map _).map f)
  rw [hc]
  rfl

theorem categories_outline {id : CategoryId} {c : CategoryStore} (hc : t.categories id = some c) :
    t.outline.categories id = some c.outline := by
  show (t.categories id).map _ = _
  rw [hc]
  rfl

theorem outline_eraseCategory (id : CategoryId) :
    ({ t with categories := Function.update t.categories id none } : TournamentStore).outline =
      t.outline.setCategory id none :=
  Outline.ext rfl (Function.comp_update (Option.map CategoryStore.outline) t.categories id _)

theorem plan_setCategory {id : CategoryId} {c c' : CategoryStore} (hc : t.categories id = some c)
    (h : c'.outline = c.outline) : (t.setCategory id c').plan = t.plan := by
  refine Prod.ext rfl ?_
  show (t.setCategory id c').outline = t.outline
  rw [outline_setCategory, h]
  refine Outline.ext rfl (Function.update_eq_self_iff.2 ?_)
  show some c.outline = (t.categories id).map _
  rw [hc]
  rfl

end TournamentStore

/-- The groups hold exactly the blocks that the locations of the categories name, and no group is
empty. -/
def Placed (t : TournamentStore) : Prop := t.tatamis.layout.Holds t.outline.place

theorem Placed.of_plan {t t' : TournamentStore} (h : Placed t) (hplan : t'.plan = t.plan) :
    Placed t' := by
  have hlayout : t'.tatamis.layout = t.tatamis.layout := congrArg Prod.fst hplan
  have houtline : t'.outline = t.outline := congrArg Prod.snd hplan
  unfold Placed
  rw [hlayout, houtline]
  exact h

/-! ### Operations that leave the plan -/

open TournamentStore (plan)

theorem plan_addPlayer {p : PlayerStore} : Frame plan (addPlayer p) := by
  intro t _ t' h
  obtain ⟨-, rfl⟩ := addPlayer_ok.1 h
  rfl

theorem plan_erasePlayer {id : PlayerId} : Frame plan (erasePlayer id) := by
  intro t _ t' h
  obtain ⟨-, rfl⟩ := erasePlayer_ok.1 h
  rfl

theorem plan_of_layout {t : TournamentStore} {tatamis : TatamiList}
    (h : tatamis.layout = t.tatamis.layout) :
    ({ t with tatamis := tatamis } : TournamentStore).plan = t.plan := by
  have hids : tatamis.layout.ids = t.tatamis.layout.ids := by rw [h]
  exact Prod.ext h (Outline.ext hids rfl)

theorem matchBlind_plan : MatchBlind plan where
  player _ _ _ _ _ _ := rfl
  category t id c c' hc h := TournamentStore.plan_setCategory hc (by rw [h]; rfl)
  tatamis _ _ h := plan_of_layout h

theorem memberBlind_plan : MemberBlind plan where
  player _ _ _ _ _ := rfl
  category _ _ _ _ hc := TournamentStore.plan_setCategory hc rfl

theorem fieldBlind_plan : FieldBlind plan := fun _ _ _ _ _ => rfl

theorem labelBlind_plan : LabelBlind plan where
  name _ _ _ _ hc := TournamentStore.plan_setCategory hc rfl
  ruleset _ _ _ _ hc := TournamentStore.plan_setCategory hc rfl
  hidden _ _ _ _ hc := TournamentStore.plan_setCategory hc rfl

theorem valueBlind_plan : ValueBlind plan := by
  intro t t' _ hcategories htatamis
  unfold TournamentStore.plan TournamentStore.outline
  rw [hcategories, htatamis]

/-! ### Drawing -/

namespace DrawCategoriesAction

/-- The category of a draw has the kind of draw system that it had before. -/
def KeepsKind (o : Outline) (d : DrawnCategory) : Prop :=
  (o.categories d.categoryId).map (·.kind) = some d.oldDrawSystem.getIdentifier

theorem plan_drawCategory {seed : ℕ} {id : CategoryId} {t t' : TournamentStore} {d : DrawnCategory}
    (h : drawCategory seed id t = .ok d t') : t'.plan = t.plan ∧ KeepsKind t.outline d := by
  obtain ⟨c, us, t₁, drawSystem, actions, us', t₂, c₂, hc, hus, hcategories, hinit, hus', hc₂, rfl, rfl⟩ :=
    drawCategory_ok h
  have h₁ : t₁.plan = t.plan :=
    frame_forEach (fun m _ => frame_releasePlayers fun _ _ _ => rfl) hus
  have h₂ : t₂.plan = t₁.plan := by
    rw [frame_forEach (fun a _ => matchBlind_plan.addMatch_redo) hus']
    refine TournamentStore.plan_setCategory (by rw [hcategories, hc]) ?_
    exact CategoryOutline.ext rfl (DrawSystem.getIdentifier_initCategory hinit) rfl
  refine ⟨Eq.trans ?_ (h₂.trans h₁), ?_⟩
  · exact TournamentStore.plan_setCategory hc₂ rfl
  show ((t.categories id).map _).map _ = _
  rw [hc]
  rfl

theorem plan_drawCategories {seed : ℕ} {ids : List CategoryId} {t t' : TournamentStore}
    {ds : List DrawnCategory} (h : forEach (drawCategory seed) ids t = .ok ds t') :
    t'.plan = t.plan ∧ ∀ d ∈ ds, KeepsKind t.outline d := by
  have hkeeps : Keeps (fun u => u.plan = t.plan) (forEach (drawCategory seed) ids)
      fun ds => ∀ d ∈ ds, KeepsKind t.outline d := by
    refine keeps_forEach fun id _ u d u' hu hd => ?_
    obtain ⟨hplan, hkind⟩ := plan_drawCategory hd
    have houtline : u.outline = t.outline := congrArg Prod.snd hu
    rw [houtline] at hkind
    exact ⟨hplan.trans hu, hkind⟩
  exact hkeeps rfl h

theorem plan_redoImpl {a a' : DrawCategoriesAction} {t t' : TournamentStore} (hidle : a.drawn = [])
    (h : a.redoImpl t = .ok a' t') : t'.plan = t.plan ∧ ∀ d ∈ a'.drawn, KeepsKind t.outline d := by
  simp only [redoImpl, bind_ok, read_ok, pure_ok] at h
  obtain ⟨ids, _, ⟨-, rfl⟩, ds, t₁, hds, _, _, hgroups, rfl, rfl⟩ := h
  obtain ⟨hplan, hkinds⟩ := plan_drawCategories hds
  refine ⟨(matchBlind_plan.recomputeGroups hgroups).trans hplan, fun d hd => hkinds d ?_⟩
  rw [hidle, List.append_nil, List.mem_reverse] at hd
  exact hd

theorem plan_recoverCategory {d : DrawnCategory} {t t' : TournamentStore} {u : Unit}
    (h : recoverCategory d t = .ok u t') (hkind : KeepsKind t.outline d) : t'.plan = t.plan := by
  obtain ⟨us, t₁, c, us', hus, hc, hus'⟩ := recoverCategory_ok h
  have h₁ : t₁.plan = t.plan := frame_forEach (fun a _ => matchBlind_plan.addMatch_undo) hus
  have hkind₁ : d.oldDrawSystem.getIdentifier = c.drawSystem.getIdentifier := by
    have houtline : t₁.outline = t.outline := congrArg Prod.snd h₁
    rw [← houtline] at hkind
    change ((t₁.categories d.categoryId).map _).map _ = _ at hkind
    rw [hc] at hkind
    exact (Option.some.inj hkind).symm
  refine (frame_forEach (fun m _ => matchBlind_plan.engagePlayers.bind fun _ =>
    matchBlind_plan.pushMatch) hus').trans (Eq.trans ?_ h₁)
  exact TournamentStore.plan_setCategory hc (CategoryOutline.ext rfl hkind₁ rfl)

theorem plan_undoImpl {a a' : DrawCategoriesAction} {t t' : TournamentStore}
    (hkinds : ∀ d ∈ a.drawn, KeepsKind t.outline d) (h : a.undoImpl t = .ok a' t') :
    t'.plan = t.plan ∧ a'.drawn = [] := by
  simp only [undoImpl, bind_ok, pure_ok] at h
  obtain ⟨us, t₁, hus, _, _, hgroups, rfl, rfl⟩ := h
  have hkeeps : Keeps (fun u => u.plan = t.plan) (forEach recoverCategory a.drawn) fun _ => True := by
    refine keeps_forEach_unit fun d hd u _ u' hu hrecover => ⟨?_, trivial⟩
    have houtline : u.outline = t.outline := congrArg Prod.snd hu
    exact (plan_recoverCategory hrecover (by rw [houtline]; exact hkinds d hd)).trans hu
  exact ⟨(matchBlind_plan.recomputeGroups hgroups).trans (hkeeps rfl hus).1, rfl⟩

end DrawCategoriesAction

end JudoAssistant
