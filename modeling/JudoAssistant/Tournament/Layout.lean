import JudoAssistant.Tournament.Specs

/-!
# The layout of the tatamis

The layout is what the tatamis hold besides their caches: the ids of the groups in their order and the
blocks of every sequential group.  `moveBlock` refines `Layout.move`, and `recompute` and
`updateStatus` leave the layout.
-/

namespace JudoAssistant

attribute [ext] PositionManager

/-! ### Position managers -/

namespace PositionManager

variable {α β : Type}

/-- The ids are distinct and are the keys of the map. -/
structure Sound (p : PositionManager α) : Prop where
  nodup : p.ids.Nodup
  keys : ∀ id, id ∈ p.ids ↔ (p.elements id).isSome

def map (f : α → β) (p : PositionManager α) : PositionManager β where
  ids := p.ids
  elements id := (p.elements id).map f

/-- Change an element, if it exists. -/
def adjust (p : PositionManager α) (id : PositionId) (f : α → α) : PositionManager α :=
  { p with elements := Function.update p.elements id ((p.elements id).map f) }

theorem at'_ok {p : PositionManager α} {handle : PositionHandle} {a : α} :
    p.at' handle = .ok a ↔ p.elements handle.id = some a := by
  unfold at'
  cases p.elements handle.id <;> simp

@[simp] theorem ids_map (f : α → β) (p : PositionManager α) : (p.map f).ids = p.ids := rfl

@[simp] theorem elements_map (f : α → β) (p : PositionManager α) (id : PositionId) :
    (p.map f).elements id = (p.elements id).map f := rfl

@[simp] theorem ids_adjust (p : PositionManager α) (id : PositionId) (f : α → α) :
    (p.adjust id f).ids = p.ids := rfl

theorem elements_adjust (p : PositionManager α) (id : PositionId) (f : α → α) (i : PositionId) :
    (p.adjust id f).elements i = if i = id then (p.elements i).map f else p.elements i := by
  by_cases h : i = id
  · subst h
    simp [adjust]
  · simp [adjust, h]

theorem contains_map (f : α → β) (p : PositionManager α) (handle : PositionHandle) :
    (p.map f).contains handle = p.contains handle := by
  simp [contains]

theorem map_update (f : α → β) (e : PositionId → Option α) (id : PositionId) (a : Option α) :
    (fun i => (Function.update e id a i).map f) =
      Function.update (fun i => (e i).map f) id (a.map f) :=
  Function.comp_update (Option.map f) e id a

theorem map_insert (f : α → β) (p : PositionManager α) (handle : PositionHandle) (a : α) :
    (p.insert handle a).map f = (p.map f).insert handle (f a) := by
  unfold insert
  rw [contains_map]
  split
  · rfl
  · exact PositionManager.ext rfl (map_update f _ _ _)

theorem map_erase (f : α → β) (p : PositionManager α) (handle : PositionHandle) :
    (p.erase handle).map f = (p.map f).erase handle := by
  unfold erase
  rw [ids_map]
  split
  · exact PositionManager.ext rfl (map_update f _ _ _)
  · rfl

/-- A write to an element that exists. -/
theorem map_set {f : α → β} {p : PositionManager α} {handle : PositionHandle} {a b : α} {g : β → β}
    (h : p.elements handle.id = some a) (hb : f b = g (f a)) :
    (p.set handle b).map f = (p.map f).adjust handle.id g := by
  refine PositionManager.ext rfl ?_
  show (fun i => (Function.update p.elements handle.id (some b) i).map f) =
    Function.update (fun i => (p.elements i).map f) handle.id (((p.elements handle.id).map f).map g)
  rw [map_update, h, Option.map_some, Option.map_some, Option.map_some, hb]

theorem adjust_of_eq {p : PositionManager α} {id : PositionId} {f : α → α}
    (h : ∀ a, p.elements id = some a → f a = a) : p.adjust id f = p := by
  refine PositionManager.ext rfl ?_
  funext i
  rw [elements_adjust]
  split
  · next hi =>
    subst hi
    cases ha : p.elements i with
    | none => rfl
    | some a => rw [Option.map_some, h a ha]
  · rfl

theorem insert_of_some {p : PositionManager α} {handle : PositionHandle} {a b : α}
    (h : p.elements handle.id = some b) : p.insert handle a = p := by
  unfold insert
  rw [if_pos (by simp [contains, h])]

theorem elements_insert (p : PositionManager α) (handle : PositionHandle) (a : α) (i : PositionId) :
    (p.insert handle a).elements i =
      if i = handle.id then some ((p.elements i).getD a) else p.elements i := by
  cases hb : p.elements handle.id with
  | some b =>
    rw [insert_of_some hb]
    split
    · next hi =>
      subst hi
      rw [hb]
      rfl
    · rfl
  | none =>
    unfold insert
    rw [if_neg (by simp [contains, hb])]
    by_cases h : i = handle.id
    · subst h
      simp [hb]
    · simp [h]

theorem mem_ids_insert (p : PositionManager α) (handle : PositionHandle) (a : α) (i : PositionId)
    (h : p.elements handle.id = none) :
    i ∈ (p.insert handle a).ids ↔ i = handle.id ∨ i ∈ p.ids := by
  unfold insert
  rw [if_neg (by simp [contains, h])]
  exact List.mem_insertIdx (Nat.min_le_left _ _)

namespace Sound

variable {p : PositionManager α}

theorem mem_ids (h : p.Sound) {id : PositionId} : id ∈ p.ids ↔ p.elements id ≠ none := by
  rw [h.keys, Option.isSome_iff_ne_none]

theorem map (h : p.Sound) (f : α → β) : (p.map f).Sound where
  nodup := h.nodup
  keys id := by simp [h.keys]

theorem of_map {f : α → β} (h : (p.map f).Sound) : p.Sound where
  nodup := h.nodup
  keys id := by simpa using h.keys id

theorem adjust (h : p.Sound) (id : PositionId) (f : α → α) : (p.adjust id f).Sound where
  nodup := h.nodup
  keys i := by
    rw [elements_adjust, ids_adjust, h.keys]
    split <;> simp

theorem insert (h : p.Sound) (handle : PositionHandle) (a : α) : (p.insert handle a).Sound := by
  cases hb : p.elements handle.id with
  | some b => rwa [insert_of_some hb]
  | none =>
    have hnew : handle.id ∉ p.ids := by rw [h.mem_ids, hb]; simp
    refine ⟨?_, fun i => ?_⟩
    · unfold PositionManager.insert
      rw [if_neg (by simp [contains, hb])]
      exact (List.perm_insertIdx _ _ (Nat.min_le_left _ _)).nodup_iff.2 (List.nodup_cons.2 ⟨hnew, h.nodup⟩)
    · rw [mem_ids_insert p handle a i hb, elements_insert, h.keys]
      split <;> simp_all

theorem elements_erase (h : p.Sound) (handle : PositionHandle) (i : PositionId) :
    (p.erase handle).elements i = if i = handle.id then none else p.elements i := by
  unfold PositionManager.erase
  split
  · by_cases hi : i = handle.id
    · subst hi
      simp
    · simp [hi]
  · next hmem =>
    split
    · next hi =>
      subst hi
      by_contra hne
      exact hmem (h.mem_ids.2 hne)
    · rfl

theorem ids_erase (p : PositionManager α) (handle : PositionHandle) :
    (p.erase handle).ids = p.ids.erase handle.id := by
  unfold PositionManager.erase
  split
  · rfl
  · next hmem => exact (List.erase_of_not_mem hmem).symm

theorem erase (h : p.Sound) (handle : PositionHandle) : (p.erase handle).Sound where
  nodup := by rw [ids_erase]; exact h.nodup.erase _
  keys i := by
    rw [ids_erase, h.elements_erase, h.nodup.mem_erase_iff, h.keys]
    split <;> simp_all

end Sound

theorem sound_empty : ({} : PositionManager α).Sound := ⟨List.nodup_nil, by simp⟩

end PositionManager

/-! ### Layouts -/

/-- The layout of a concurrent group: the blocks of its sequential groups. -/
abbrev GroupLayout := PositionManager (List Block)

/-- The layout of the tatamis. -/
abbrev Layout := PositionManager (PositionManager GroupLayout)

def ConcurrentBlockGroup.layout (g : ConcurrentBlockGroup) : GroupLayout := g.groups.map (·.blocks)

def TatamiStore.layout (t : TatamiStore) : PositionManager GroupLayout :=
  t.groups.map ConcurrentBlockGroup.layout

def TatamiList.layout (t : TatamiList) : Layout := t.tatamis.map TatamiStore.layout

namespace Layout

/-- Change a concurrent group. -/
def editGroup (L : Layout) (l : ConcurrentGroupLocation) (f : GroupLayout → GroupLayout) : Layout :=
  L.adjust l.tatami.handle.id fun M => M.adjust l.handle.id f

/-- Change the blocks of a sequential group. -/
def editBlocks (L : Layout) (l : SequentialGroupLocation) (f : List Block → List Block) : Layout :=
  L.editGroup l.concurrentGroup fun G => G.adjust l.handle.id f

/-- Add the groups of a location that do not exist. -/
def create (L : Layout) (l : SequentialGroupLocation) : Layout :=
  (L.insert l.concurrentGroup.tatami.handle {}).adjust l.concurrentGroup.tatami.handle.id fun M =>
    (M.insert l.concurrentGroup.handle {}).adjust l.concurrentGroup.handle.id fun G =>
      G.insert l.handle []

/-- Erase a sequential group without blocks. -/
def cleanSequential (L : Layout) (l : SequentialGroupLocation) : Layout :=
  L.editGroup l.concurrentGroup fun G =>
    if G.elements l.handle.id = some [] then G.erase l.handle else G

/-- Erase a concurrent group without sequential groups. -/
def cleanConcurrent (L : Layout) (l : ConcurrentGroupLocation) : Layout :=
  L.adjust l.tatami.handle.id fun M => match M.elements l.handle.id with
    | none => M
    | some G => if G.ids = [] then M.erase l.handle else M

/-- Take a block out of the group of its old location. -/
def take (b : Block) (l : SequentialGroupLocation) (L : Layout) : Layout := L.editBlocks l (·.erase b)

/-- Put a block into the group of its new location. -/
def put (b : Block) (l : BlockLocation) (L : Layout) : Layout :=
  (L.create l.sequentialGroup).editBlocks l.sequentialGroup fun bs =>
    bs.insertIdx (min l.pos bs.length) b

/-- Erase the groups of a location that are empty. -/
def clean (l : SequentialGroupLocation) (L : Layout) : Layout :=
  (L.cleanSequential l).cleanConcurrent l.concurrentGroup

/-- Move a block. -/
def move (b : Block) (source target : Option BlockLocation) (L : Layout) : Layout :=
  let L := source.elim L fun l => L.take b l.sequentialGroup
  let L := target.elim L fun l => L.put b l
  source.elim L fun l => L.clean l.sequentialGroup

theorem editGroup_of_eq {L : Layout} {l : ConcurrentGroupLocation} {f : GroupLayout → GroupLayout}
    (h : ∀ G, f G = G) : L.editGroup l f = L :=
  PositionManager.adjust_of_eq fun _ _ => PositionManager.adjust_of_eq fun G _ => h G

end Layout

namespace TatamiList

variable {t t' : TatamiList} {categories : Categories}

theorem editConcurrent_ok {l : ConcurrentGroupLocation}
    {f : ConcurrentBlockGroup → Except Failure ConcurrentBlockGroup} :
    t.editConcurrent l f = .ok t' ↔ ∃ tatami group group',
      t.tatamis.elements l.tatami.handle.id = some tatami ∧
      tatami.groups.elements l.handle.id = some group ∧ f group = .ok group' ∧
      t' = ⟨t.tatamis.set l.tatami.handle ⟨tatami.groups.set l.handle group'⟩⟩ := by
  simp only [editConcurrent, Effect.except_bind_ok, PositionManager.at'_ok, Effect.except_pure_ok]
  constructor
  · rintro ⟨tatami, ht, group, hg, group', hf, rfl⟩
    exact ⟨tatami, group, group', ht, hg, hf, rfl⟩
  · rintro ⟨tatami, group, group', ht, hg, hf, rfl⟩
    exact ⟨tatami, ht, group, hg, group', hf, rfl⟩

theorem layout_editConcurrent {l : ConcurrentGroupLocation}
    {f : ConcurrentBlockGroup → Except Failure ConcurrentBlockGroup} {F : GroupLayout → GroupLayout}
    (h : t.editConcurrent l f = .ok t') (hf : ∀ g g', f g = .ok g' → g'.layout = F g.layout) :
    t'.layout = t.layout.editGroup l F := by
  obtain ⟨tatami, group, group', ht, hg, hfg, rfl⟩ := editConcurrent_ok.1 h
  exact PositionManager.map_set ht (PositionManager.map_set hg (hf _ _ hfg))

theorem layout_editSequential {l : SequentialGroupLocation}
    {f : SequentialBlockGroup → Except Failure SequentialBlockGroup} {F : List Block → List Block}
    (h : t.editSequential l f = .ok t') (hf : ∀ g g', f g = .ok g' → g'.blocks = F g.blocks) :
    t'.layout = t.layout.editBlocks l F := by
  refine layout_editConcurrent h fun g g' hg => ?_
  simp only [Effect.except_bind_ok, PositionManager.at'_ok, Effect.except_pure_ok] at hg
  obtain ⟨group, hgroup, group', hfg, rfl⟩ := hg
  exact PositionManager.map_set hgroup (hf _ _ hfg)

theorem layout_create {l : SequentialGroupLocation} (h : t.create l = .ok t') :
    t'.layout = t.layout.create l := by
  simp only [create, Effect.except_bind_ok, PositionManager.at'_ok, Effect.except_pure_ok] at h
  obtain ⟨tatami, ht, group, hg, rfl⟩ := h
  have htatamis : t.layout.insert l.concurrentGroup.tatami.handle {} =
      (t.tatamis.insert l.concurrentGroup.tatami.handle {}).map TatamiStore.layout :=
    (PositionManager.map_insert TatamiStore.layout t.tatamis _ {}).symm
  have hgroups : tatami.layout.insert l.concurrentGroup.handle {} =
      (tatami.groups.insert l.concurrentGroup.handle {}).map ConcurrentBlockGroup.layout :=
    (PositionManager.map_insert ConcurrentBlockGroup.layout tatami.groups _ {}).symm
  unfold Layout.create
  rw [htatamis]
  refine PositionManager.map_set ht ?_
  rw [hgroups]
  refine PositionManager.map_set hg ?_
  exact PositionManager.map_insert _ _ _ _

theorem blocks_recompute {g g' : SequentialBlockGroup} (h : g.recompute categories = .ok g') :
    g'.blocks = g.blocks := by
  simp only [SequentialBlockGroup.recompute, Effect.except_bind_ok, Effect.except_pure_ok] at h
  obtain ⟨_, _, rfl⟩ := h
  rfl

theorem layout_recompute {g g' : ConcurrentBlockGroup} (h : g.recompute categories = .ok g') :
    g'.layout = g.layout := by
  simp only [ConcurrentBlockGroup.recompute, Effect.except_bind_ok, Effect.except_pure_ok] at h
  obtain ⟨_, _, _, _, _, _, _, _, rfl⟩ := h
  rfl

theorem layout_cleanSequential {l : SequentialGroupLocation}
    (h : t.cleanSequential categories l = .ok t') : t'.layout = t.layout.cleanSequential l := by
  refine layout_editConcurrent h fun g g' hg => ?_
  simp only [Effect.except_bind_ok, PositionManager.at'_ok] at hg
  obtain ⟨group, hgroup, hg⟩ := hg
  have helements : g.layout.elements l.handle.id = some group.blocks := by
    rw [ConcurrentBlockGroup.layout, PositionManager.elements_map, hgroup]
    rfl
  rw [helements]
  split at hg
  · next hblocks =>
    obtain rfl := Effect.except_pure_ok.1 hg
    rw [if_pos (by rw [hblocks])]
    exact PositionManager.map_erase _ _ _
  · next hblocks =>
    simp only [Effect.except_bind_ok, Effect.except_pure_ok] at hg
    obtain ⟨group', hrecompute, rfl⟩ := hg
    rw [if_neg (by simpa using hblocks)]
    refine (PositionManager.map_set hgroup ?_).trans (PositionManager.adjust_of_eq fun _ _ => rfl)
    exact blocks_recompute hrecompute

theorem layout_cleanConcurrent {l : ConcurrentGroupLocation}
    (h : t.cleanConcurrent categories l = .ok t') : t'.layout = t.layout.cleanConcurrent l := by
  simp only [cleanConcurrent, Effect.except_bind_ok, PositionManager.at'_ok] at h
  obtain ⟨tatami, ht, group, hg, h⟩ := h
  have helements : tatami.layout.elements l.handle.id = some group.layout := by
    rw [TatamiStore.layout, PositionManager.elements_map, hg]
    rfl
  split at h
  · next hsize =>
    obtain rfl := Effect.except_pure_ok.1 h
    refine PositionManager.map_set ht ?_
    rw [helements]
    simp only
    have hnil : group.layout.ids = [] := List.eq_nil_of_length_eq_zero hsize
    rw [if_pos hnil]
    exact PositionManager.map_erase _ _ _
  · next hsize =>
    simp only [Effect.except_bind_ok, Effect.except_pure_ok] at h
    obtain ⟨group', hrecompute, rfl⟩ := h
    refine PositionManager.map_set ht ?_
    rw [helements]
    simp only
    rw [if_neg fun hnil => hsize (by rw [PositionManager.size]; exact congrArg List.length hnil)]
    refine (PositionManager.map_set hg ?_).trans (PositionManager.adjust_of_eq fun _ _ => rfl)
    exact layout_recompute hrecompute

theorem layout_editSequential_recompute {l : SequentialGroupLocation}
    (h : t.editSequential l (·.recompute categories) = .ok t') : t'.layout = t.layout := by
  rw [layout_editSequential (F := fun bs => bs) h fun _ _ hg => blocks_recompute hg]
  exact Layout.editGroup_of_eq fun G => PositionManager.adjust_of_eq fun _ _ => rfl

theorem layout_editConcurrent_recompute {l : ConcurrentGroupLocation}
    (h : t.editConcurrent l (·.recompute categories) = .ok t') : t'.layout = t.layout := by
  rw [layout_editConcurrent (F := fun G => G) h fun _ _ hg => layout_recompute hg]
  exact Layout.editGroup_of_eq fun G => rfl

theorem layout_updateStatus {l : BlockLocation} {id : CombinedId} {status : MatchStatus}
    (h : t.updateStatus l id status = .ok t') : t'.layout = t.layout := by
  have hlayout : t'.layout = t.layout.editGroup l.sequentialGroup.concurrentGroup fun G => G := by
    refine layout_editConcurrent h fun g g' hg => ?_
    cases hg
    rfl
  rw [hlayout]
  exact Layout.editGroup_of_eq fun G => rfl

theorem layout_recomputeBlocks {locations : List BlockLocation}
    (h : t.recomputeBlocks categories locations = .ok t') : t'.layout = t.layout := by
  have hfold : ∀ (f : TatamiList → BlockLocation → Except Failure TatamiList),
      (∀ u l u', f u l = .ok u' → u'.layout = u.layout) →
      ∀ (ls : List BlockLocation) (u u' : TatamiList), ls.foldlM f u = .ok u' → u'.layout = u.layout := by
    intro f hf ls
    induction ls with
    | nil =>
      intro u u' hu
      cases hu
      rfl
    | cons l ls ih =>
      intro u u' hu
      rw [List.foldlM_cons] at hu
      obtain ⟨u₁, h₁, h₂⟩ := Effect.except_bind_ok.1 hu
      rw [ih u₁ u' h₂, hf u l u₁ h₁]
  obtain ⟨t₁, h₁, h₂⟩ := Effect.except_bind_ok.1 h
  rw [hfold _ (fun _ _ _ => layout_editConcurrent_recompute) _ _ _ h₂,
    hfold _ (fun _ _ _ => layout_editSequential_recompute) _ _ _ h₁]

theorem layout_takeBlock {b : Block} {l : BlockLocation} (h : t.takeBlock b (some l) = .ok t') :
    t'.layout = t.layout.take b l.sequentialGroup := by
  refine layout_editSequential h fun g g' hg => ?_
  simp only [SequentialBlockGroup.eraseBlock, Effect.except_bind_ok, Effect.except_pure_ok] at hg
  obtain ⟨_, _, rfl⟩ := hg
  rfl

theorem layout_putBlock {b : Block} {l : BlockLocation} (h : t.putBlock b (some l) = .ok t') :
    t'.layout = t.layout.put b l := by
  obtain ⟨t₁, h₁, h₂⟩ := Effect.except_bind_ok.1 h
  unfold Layout.put
  rw [← layout_create h₁]
  refine layout_editSequential h₂ fun g g' hg => ?_
  simp only [SequentialBlockGroup.addBlock, Effect.except_bind_ok, Effect.except_pure_ok] at hg
  obtain ⟨_, _, rfl⟩ := hg
  rfl

/-- `TatamiList::moveBlock` moves the block in the layout. -/
theorem layout_moveBlock {b : Block} {source target : Option BlockLocation}
    (h : t.moveBlock categories b source target = .ok t') : t'.layout = t.layout.move b source target := by
  cases source with
  | none =>
    cases target with
    | none =>
      cases h
      rfl
    | some l =>
      simp only [moveBlock, pure_bind, Effect.except_bind_ok, Option.map_none, Option.getD_none,
        Bool.false_eq_true, if_false] at h
      obtain ⟨t₁, h₁, t₂, h₂, t₃, h₃, h₄⟩ := h
      cases h₁
      rw [layout_editConcurrent_recompute h₄, layout_editSequential_recompute h₃, layout_putBlock h₂]
      rfl
  | some k =>
    cases target with
    | none =>
      simp only [moveBlock, pure_bind, bind_pure, Effect.except_bind_ok] at h
      obtain ⟨t₁, h₁, t₂, h₂, t₃, h₃, h₄⟩ := h
      cases h₂
      rw [layout_cleanConcurrent h₄, layout_cleanSequential h₃, layout_takeBlock h₁]
      rfl
    | some l =>
      simp only [moveBlock, Effect.except_bind_ok, Option.map_some, Option.getD_some] at h
      obtain ⟨t₁, h₁, t₂, h₂, t₃, h₃, h⟩ := h
      have hfinish : ∃ t₄ t₅ : TatamiList, t₄.layout = t₃.layout ∧
          t₄.cleanConcurrent categories k.sequentialGroup.concurrentGroup = .ok t₅ ∧
          t'.layout = t₅.layout := by
        split at h
        · simp only [pure_bind, Effect.except_bind_ok] at h
          obtain ⟨t₅, h₅, h₆⟩ := h
          refine ⟨t₃, t₅, rfl, h₅, ?_⟩
          split at h₆
          · cases h₆
            rfl
          · exact layout_editConcurrent_recompute h₆
        · simp only [Effect.except_bind_ok] at h
          obtain ⟨t₄, h₄, t₅, h₅, h₆⟩ := h
          refine ⟨t₄, t₅, layout_editSequential_recompute h₄, h₅, ?_⟩
          split at h₆
          · cases h₆
            rfl
          · exact layout_editConcurrent_recompute h₆
      obtain ⟨t₄, t₅, h₄, h₅, h₆⟩ := hfinish
      rw [h₆, layout_cleanConcurrent h₅, h₄, layout_cleanSequential h₃, layout_putBlock h₂,
        layout_takeBlock h₁]
      rfl

end TatamiList

/-! ### What a move does -/

/-- The ids of a sequential group and of the groups around it. -/
structure GroupId where
  tatami : PositionId
  concurrent : PositionId
  sequential : PositionId
  deriving DecidableEq, Repr

def SequentialGroupLocation.groupId (l : SequentialGroupLocation) : GroupId :=
  ⟨l.concurrentGroup.tatami.handle.id, l.concurrentGroup.handle.id, l.handle.id⟩

def BlockLocation.groupId (l : BlockLocation) : GroupId := l.sequentialGroup.groupId

namespace Layout

variable {L : Layout}

/-- A concurrent group, if it exists. -/
def group (L : Layout) (i j : PositionId) : Option GroupLayout := (L.elements i).bind (·.elements j)

/-- The blocks of a sequential group; a group that does not exist has none. -/
def blocks (L : Layout) (g : GroupId) : List Block :=
  ((L.group g.tatami g.concurrent).bind (·.elements g.sequential)).getD []

/-- Every position manager of the layout is sound. -/
structure Ordered (L : Layout) : Prop where
  tatamis : L.Sound
  concurrent : ∀ i M, L.elements i = some M → M.Sound
  sequential : ∀ i j G, L.group i j = some G → G.Sound

/-- No group is empty. -/
def Full (L : Layout) : Prop :=
  ∀ i j G, L.group i j = some G → G.ids ≠ [] ∧ ∀ k bs, G.elements k = some bs → bs ≠ []

/-- No group is empty, but some sequential groups may have no blocks. -/
def FullBut (P : GroupId → Prop) (L : Layout) : Prop :=
  ∀ i j G, L.group i j = some G →
    G.ids ≠ [] ∧ ∀ k bs, G.elements k = some bs → bs ≠ [] ∨ P ⟨i, j, k⟩

theorem group_adjust (i₀ : PositionId) (f : PositionManager GroupLayout → PositionManager GroupLayout)
    (i j : PositionId) :
    group (L.adjust i₀ f) i j =
      if i = i₀ then (L.elements i).bind fun M => (f M).elements j else L.group i j := by
  unfold group
  rw [PositionManager.elements_adjust]
  split
  · cases L.elements i <;> rfl
  · rfl

theorem group_editGroup (l : ConcurrentGroupLocation) (f : GroupLayout → GroupLayout)
    (i j : PositionId) :
    (L.editGroup l f).group i j =
      if i = l.tatami.handle.id ∧ j = l.handle.id then (L.group i j).map f else L.group i j := by
  unfold editGroup
  rw [group_adjust]
  by_cases hi : i = l.tatami.handle.id
  · rw [if_pos hi]
    unfold group
    cases L.elements i with
    | none => simp
    | some M =>
      simp only [Option.bind_some, PositionManager.elements_adjust]
      by_cases hj : j = l.handle.id <;> simp [hi, hj]
  · simp [hi]

theorem group_create (l : SequentialGroupLocation) (i j : PositionId) :
    (L.create l).group i j =
      if i = l.concurrentGroup.tatami.handle.id ∧ j = l.concurrentGroup.handle.id then
        some (((L.group i j).getD {}).insert l.handle [])
      else L.group i j := by
  unfold create
  rw [group_adjust]
  by_cases hi : i = l.concurrentGroup.tatami.handle.id
  · simp only [hi, true_and, if_true, PositionManager.elements_insert, Option.bind_some,
      PositionManager.elements_adjust]
    unfold group
    cases L.elements l.concurrentGroup.tatami.handle.id with
    | none => by_cases hj : j = l.concurrentGroup.handle.id <;> simp [hj]
    | some M => by_cases hj : j = l.concurrentGroup.handle.id <;> simp [hj]
  · unfold group
    rw [if_neg hi, if_neg (by simp [hi]), PositionManager.elements_insert, if_neg hi]

theorem group_cleanConcurrent (h : L.Ordered) (l : ConcurrentGroupLocation) (i j : PositionId) :
    (L.cleanConcurrent l).group i j =
      if i = l.tatami.handle.id ∧ j = l.handle.id then (L.group i j).filter fun G => G.ids ≠ []
      else L.group i j := by
  unfold cleanConcurrent
  rw [group_adjust]
  by_cases hi : i = l.tatami.handle.id
  · simp only [hi, true_and, if_true]
    unfold group
    cases hM : L.elements l.tatami.handle.id with
    | none => simp
    | some M =>
      simp only [Option.bind_some]
      cases hG : M.elements l.handle.id with
      | none =>
        by_cases hj : j = l.handle.id
        · simp [hj, hG]
        · simp [hj]
      | some G =>
        by_cases hids : G.ids = []
        · simp only [hids, if_true, (h.concurrent _ _ hM).elements_erase]
          by_cases hj : j = l.handle.id
          · simp [hj, hG, Option.filter, hids]
          · simp [hj]
        · by_cases hj : j = l.handle.id
          · simp [hj, hG, Option.filter, hids]
          · simp [hj, hids]
  · simp [hi]

/-! #### The order -/

namespace Ordered

theorem adjust (h : L.Ordered) {i₀ : PositionId}
    {f : PositionManager GroupLayout → PositionManager GroupLayout}
    (hM : ∀ M, L.elements i₀ = some M → (f M).Sound)
    (hG : ∀ M j G, L.elements i₀ = some M → (f M).elements j = some G → G.Sound) :
    Ordered (L.adjust i₀ f) where
  tatamis := h.tatamis.adjust _ _
  concurrent i M hi := by
    rw [PositionManager.elements_adjust] at hi
    split at hi
    · next heq =>
      subst heq
      obtain ⟨M₀, h₀, rfl⟩ := Option.map_eq_some_iff.1 hi
      exact hM M₀ h₀
    · exact h.concurrent i M hi
  sequential i j G hj := by
    rw [group_adjust] at hj
    split at hj
    · next heq =>
      subst heq
      obtain ⟨M₀, h₀, hG₀⟩ := Option.bind_eq_some_iff.1 hj
      exact hG M₀ j G h₀ hG₀
    · exact h.sequential i j G hj

theorem group_of_elements {i j : PositionId} {M : PositionManager GroupLayout} {G : GroupLayout}
    (hM : L.elements i = some M) (hG : M.elements j = some G) : L.group i j = some G := by
  unfold group
  rw [hM, Option.bind_some, hG]

theorem editGroup (h : L.Ordered) {l : ConcurrentGroupLocation} {f : GroupLayout → GroupLayout}
    (hf : ∀ G : GroupLayout, G.Sound → (f G).Sound) : (L.editGroup l f).Ordered := by
  refine h.adjust (fun M hM => (h.concurrent _ M hM).adjust _ _) fun M j G hM hG => ?_
  rw [PositionManager.elements_adjust] at hG
  split at hG
  · obtain ⟨G₀, h₀, rfl⟩ := Option.map_eq_some_iff.1 hG
    exact hf G₀ (h.sequential _ _ _ (group_of_elements hM h₀))
  · exact h.sequential _ _ _ (group_of_elements hM hG)

theorem editBlocks (h : L.Ordered) {l : SequentialGroupLocation} {f : List Block → List Block} :
    (L.editBlocks l f).Ordered :=
  h.editGroup fun _ hG => hG.adjust _ _

theorem insert (h : L.Ordered) (handle : PositionHandle) : Ordered (L.insert handle {}) where
  tatamis := h.tatamis.insert _ _
  concurrent i M hi := by
    rw [PositionManager.elements_insert] at hi
    split at hi
    · cases hM : L.elements i with
      | none =>
        rw [hM] at hi
        cases hi
        exact PositionManager.sound_empty
      | some M₀ =>
        rw [hM] at hi
        cases hi
        exact h.concurrent i M₀ hM
    · exact h.concurrent i M hi
  sequential i j G hj := by
    unfold group at hj
    obtain ⟨M, hM, hG⟩ := Option.bind_eq_some_iff.1 hj
    rw [PositionManager.elements_insert] at hM
    split at hM
    · cases hM₀ : L.elements i with
      | none =>
        rw [hM₀] at hM
        cases hM
        cases hG
      | some M₀ =>
        rw [hM₀] at hM
        cases hM
        exact h.sequential i j G (group_of_elements hM₀ hG)
    · exact h.sequential i j G (group_of_elements hM hG)

theorem create (h : L.Ordered) (l : SequentialGroupLocation) : (L.create l).Ordered := by
  have hins := h.insert l.concurrentGroup.tatami.handle
  refine hins.adjust (fun M hM => ?_) fun M j G hM hG => ?_
  · exact ((hins.concurrent _ M hM).insert _ _).adjust _ _
  · rw [PositionManager.elements_adjust, PositionManager.elements_insert] at hG
    split at hG
    · obtain ⟨G₀, h₀, rfl⟩ := Option.map_eq_some_iff.1 hG
      cases h₀
      cases hG₀ : M.elements j with
      | none => exact PositionManager.sound_empty.insert _ _
      | some G₀ => exact (hins.sequential _ _ _ (group_of_elements hM hG₀)).insert _ _
    · exact hins.sequential _ _ _ (group_of_elements hM hG)

theorem cleanSequential (h : L.Ordered) (l : SequentialGroupLocation) :
    (L.cleanSequential l).Ordered := by
  refine h.editGroup fun G hG => ?_
  split
  · exact hG.erase _
  · exact hG

theorem cleanConcurrent (h : L.Ordered) (l : ConcurrentGroupLocation) :
    (L.cleanConcurrent l).Ordered := by
  have hM : ∀ M, L.elements l.tatami.handle.id = some M →
      (match M.elements l.handle.id with
        | none => M
        | some G => if G.ids = [] then M.erase l.handle else M) = M ∨
      (match M.elements l.handle.id with
        | none => M
        | some G => if G.ids = [] then M.erase l.handle else M) = M.erase l.handle := by
    intro M _
    cases M.elements l.handle.id with
    | none => exact .inl rfl
    | some G =>
      simp only
      split
      · exact .inr rfl
      · exact .inl rfl
  refine h.adjust (fun M hi => ?_) fun M j G hi hG => ?_
  · rcases hM M hi with heq | heq <;> rw [heq]
    · exact h.concurrent _ M hi
    · exact (h.concurrent _ M hi).erase _
  · rcases hM M hi with heq | heq <;> rw [heq] at hG
    · exact h.sequential _ _ _ (group_of_elements hi hG)
    · rw [(h.concurrent _ M hi).elements_erase] at hG
      split at hG
      · cases hG
      · exact h.sequential _ _ _ (group_of_elements hi hG)

theorem take (h : L.Ordered) (b : Block) (l : SequentialGroupLocation) : (L.take b l).Ordered :=
  h.editBlocks

theorem put (h : L.Ordered) (b : Block) (l : BlockLocation) : (L.put b l).Ordered :=
  (h.create _).editBlocks

theorem clean (h : L.Ordered) (l : SequentialGroupLocation) : (L.clean l).Ordered :=
  (h.cleanSequential l).cleanConcurrent _

theorem move (h : L.Ordered) (b : Block) (source target : Option BlockLocation) :
    (L.move b source target).Ordered := by
  cases source with
  | none =>
    cases target with
    | none => exact h
    | some l => exact h.put b l
  | some k =>
    cases target with
    | none => exact (h.take b _).clean _
    | some l => exact ((h.take b _).put b l).clean _

end Ordered

/-! #### The blocks -/

theorem blocks_editBlocks (l : SequentialGroupLocation) (f : List Block → List Block) (g : GroupId)
    (h : (L.group g.tatami g.concurrent).bind (·.elements g.sequential) ≠ none ∨ f [] = []) :
    (L.editBlocks l f).blocks g = if g = l.groupId then f (L.blocks g) else L.blocks g := by
  obtain ⟨i, j, k⟩ := g
  unfold blocks editBlocks
  rw [group_editGroup]
  by_cases hij : i = l.concurrentGroup.tatami.handle.id ∧ j = l.concurrentGroup.handle.id
  · rw [if_pos hij]
    cases hG : L.group i j with
    | none =>
      rw [hG] at h
      simp_all
    | some G =>
      simp only [Option.map_some, Option.bind_some, PositionManager.elements_adjust]
      by_cases hk : k = l.handle.id
      · rw [if_pos hk, if_pos (by simp [SequentialGroupLocation.groupId, hij, hk])]
        cases hbs : G.elements k with
        | none =>
          rw [hG] at h
          simp_all
        | some bs => rfl
      · rw [if_neg hk, if_neg (by simp [SequentialGroupLocation.groupId, hk])]
  · rw [if_neg hij, if_neg]
    rintro ⟨⟩
    exact hij ⟨rfl, rfl⟩

theorem blocks_take (b : Block) (l : SequentialGroupLocation) (g : GroupId) :
    (L.take b l).blocks g = if g = l.groupId then (L.blocks g).erase b else L.blocks g :=
  blocks_editBlocks l _ g (.inr rfl)

theorem blocks_create (l : SequentialGroupLocation) (g : GroupId) :
    (L.create l).blocks g = L.blocks g := by
  obtain ⟨i, j, k⟩ := g
  unfold blocks
  rw [group_create]
  split
  · cases L.group i j with
    | none =>
      simp only [Option.getD_none, Option.bind_some, PositionManager.elements_insert]
      split <;> rfl
    | some G =>
      simp only [Option.getD_some, Option.bind_some, PositionManager.elements_insert]
      split
      · cases G.elements k <;> rfl
      · rfl
  · rfl

theorem blocks_put (b : Block) (l : BlockLocation) (g : GroupId) :
    (L.put b l).blocks g =
      if g = l.groupId then (L.blocks g).insertIdx (min l.pos (L.blocks g).length) b
      else L.blocks g := by
  unfold put
  by_cases hg : g = l.groupId
  · rw [blocks_editBlocks, blocks_create, BlockLocation.groupId]
    left
    subst hg
    show (Option.bind ((L.create l.sequentialGroup).group _ _) fun G => G.elements _) ≠ none
    rw [group_create, if_pos ⟨rfl, rfl⟩, Option.bind_some, PositionManager.elements_insert]
    simp [BlockLocation.groupId, SequentialGroupLocation.groupId]
  · rw [if_neg hg, ← blocks_create (L := L) l.sequentialGroup g]
    obtain ⟨i, j, k⟩ := g
    unfold blocks editBlocks
    rw [group_editGroup]
    split
    · next hij =>
      cases (L.create l.sequentialGroup).group i j with
      | none => rfl
      | some G =>
        rw [Option.map_some, Option.bind_some, PositionManager.elements_adjust, if_neg]
        · rfl
        · rintro rfl
          obtain ⟨rfl, rfl⟩ : i = _ ∧ j = _ := hij
          exact hg rfl
    · rfl

theorem blocks_cleanSequential (h : L.Ordered) (l : SequentialGroupLocation) (g : GroupId) :
    (L.cleanSequential l).blocks g = L.blocks g := by
  obtain ⟨i, j, k⟩ := g
  unfold blocks cleanSequential
  rw [group_editGroup]
  split
  · cases hG : L.group i j with
    | none => rfl
    | some G =>
      simp only [Option.map_some, Option.bind_some]
      split
      · next hnil =>
        rw [(h.sequential i j G hG).elements_erase]
        split
        · next hk =>
          rw [hk, hnil]
          rfl
        · rfl
      · rfl
  · rfl

theorem blocks_cleanConcurrent (h : L.Ordered) (l : ConcurrentGroupLocation) (g : GroupId) :
    (L.cleanConcurrent l).blocks g = L.blocks g := by
  obtain ⟨i, j, k⟩ := g
  unfold blocks
  rw [group_cleanConcurrent h]
  split
  · cases hG : L.group i j with
    | none => rfl
    | some G =>
      by_cases hids : G.ids = []
      · have hk : G.elements k = none := by
          by_contra hne
          have := (h.sequential i j G hG).mem_ids.2 hne
          rw [hids] at this
          cases this
        simp [Option.filter, hids, hk]
      · simp [Option.filter, hids]
  · rfl

theorem blocks_clean (h : L.Ordered) (l : SequentialGroupLocation) (g : GroupId) :
    (L.clean l).blocks g = L.blocks g := by
  unfold clean
  rw [blocks_cleanConcurrent (h.cleanSequential l), blocks_cleanSequential h]

/-- The blocks of a group after a move: the block leaves the old group and is inserted into the new
one. -/
def movedBlocks (b : Block) (source target : Option BlockLocation) (g : GroupId) (bs : List Block) :
    List Block :=
  let bs := if source.map (·.groupId) = some g then bs.erase b else bs
  match target with
  | none => bs
  | some l => if l.groupId = g then bs.insertIdx (min l.pos bs.length) b else bs

theorem blocks_move (h : L.Ordered) (b : Block) (source target : Option BlockLocation) (g : GroupId) :
    (L.move b source target).blocks g = movedBlocks b source target g (L.blocks g) := by
  have htake : ∀ k : BlockLocation, (L.take b k.sequentialGroup).blocks g =
      if (some k).map (·.groupId) = some g then (L.blocks g).erase b else L.blocks g := by
    intro k
    rw [blocks_take]
    exact if_congr (by rw [Option.map_some, Option.some.injEq, eq_comm]; rfl) rfl rfl
  cases source with
  | none =>
    cases target with
    | none => rfl
    | some l =>
      refine (blocks_put b l g).trans ?_
      exact if_congr eq_comm rfl rfl
  | some k =>
    cases target with
    | none => exact (blocks_clean (h.take b _) _ g).trans (htake k)
    | some l =>
      refine (blocks_clean ((h.take b _).put b l) _ g).trans ((blocks_put b l g).trans ?_)
      rw [htake]
      exact if_congr eq_comm rfl rfl

/-! #### Empty groups -/

theorem fullBut_take (h : L.Full) (b : Block) (l : SequentialGroupLocation) :
    FullBut (· = l.groupId) (L.take b l) := by
  intro i j G hG
  unfold take editBlocks at hG
  rw [group_editGroup] at hG
  split at hG
  · next hij =>
    obtain ⟨G₀, h₀, rfl⟩ := Option.map_eq_some_iff.1 hG
    refine ⟨(h i j G₀ h₀).1, fun k bs hbs => ?_⟩
    rw [PositionManager.elements_adjust] at hbs
    split at hbs
    · next hk =>
      right
      rw [hij.1, hij.2, hk]
      rfl
    · exact .inl ((h i j G₀ h₀).2 k bs hbs)
  · exact ⟨(h i j G hG).1, fun k bs hbs => .inl ((h i j G hG).2 k bs hbs)⟩

theorem ids_insert_ne_nil {α : Type} {p : PositionManager α} (h : p.Sound) (handle : PositionHandle)
    (a : α) : (p.insert handle a).ids ≠ [] := by
  intro hnil
  have hmem : handle.id ∈ (p.insert handle a).ids := by
    rw [(h.insert handle a).keys, PositionManager.elements_insert, if_pos rfl]
    rfl
  rw [hnil] at hmem
  cases hmem

theorem sound_getD_group (h : L.Ordered) (i j : PositionId) : ((L.group i j).getD {}).Sound := by
  cases hG : L.group i j with
  | none => exact PositionManager.sound_empty
  | some G => exact h.sequential i j G hG

theorem insertIdx_min_ne_nil (bs : List Block) (pos : ℕ) (b : Block) :
    bs.insertIdx (min pos bs.length) b ≠ [] := by
  intro hnil
  have := congrArg List.length hnil
  rw [List.length_insertIdx_of_le_length (Nat.min_le_right _ _)] at this
  cases this

theorem fullBut_put (h : L.Ordered) {P : GroupId → Prop} (hfull : FullBut P L) (b : Block)
    (l : BlockLocation) : FullBut P (L.put b l) := by
  intro i j G hG
  unfold put editBlocks at hG
  rw [group_editGroup, group_create] at hG
  by_cases hij : i = l.sequentialGroup.concurrentGroup.tatami.handle.id ∧
      j = l.sequentialGroup.concurrentGroup.handle.id
  · rw [if_pos hij, if_pos hij, Option.map_some] at hG
    cases hG
    refine ⟨ids_insert_ne_nil (sound_getD_group h i j) _ _, fun k bs hbs => ?_⟩
    rw [PositionManager.elements_adjust, PositionManager.elements_insert] at hbs
    split at hbs
    · cases hbs
      exact .inl (insertIdx_min_ne_nil _ _ _)
    · cases hG : L.group i j with
      | none =>
        rw [hG] at hbs
        cases hbs
      | some G =>
        rw [hG] at hbs
        exact (hfull i j G hG).2 k bs hbs
  · rw [if_neg hij, if_neg hij] at hG
    exact hfull i j G hG

theorem full_clean (h : L.Ordered) {l : SequentialGroupLocation} (hfull : FullBut (· = l.groupId) L) :
    (L.clean l).Full := by
  intro i j G hG
  unfold clean at hG
  rw [group_cleanConcurrent (h.cleanSequential l)] at hG
  unfold cleanSequential at hG
  rw [group_editGroup] at hG
  by_cases hij : i = l.concurrentGroup.tatami.handle.id ∧ j = l.concurrentGroup.handle.id
  · rw [if_pos hij, if_pos hij, Option.filter_eq_some_iff] at hG
    obtain ⟨hG, hids⟩ := hG
    obtain ⟨G₀, h₀, rfl⟩ := Option.map_eq_some_iff.1 hG
    refine ⟨by simpa using hids, fun k bs hbs => ?_⟩
    have hkey : ∀ k bs, G₀.elements k = some bs → k ≠ l.handle.id → bs ≠ [] := by
      intro k bs hbs hk
      rcases (hfull i j G₀ h₀).2 k bs hbs with hne | heq
      · exact hne
      · cases heq
        exact (hk rfl).elim
    split at hbs
    · rw [(h.sequential i j G₀ h₀).elements_erase] at hbs
      split at hbs
      · cases hbs
      · next hk => exact hkey k bs hbs hk
    · next hne =>
      by_cases hk : k = l.handle.id
      · rintro rfl
        exact hne (hk ▸ hbs)
      · exact hkey k bs hbs hk
  · rw [if_neg hij, if_neg hij] at hG
    refine ⟨(hfull i j G hG).1, fun k bs hbs => ?_⟩
    rcases (hfull i j G hG).2 k bs hbs with hne | heq
    · exact hne
    · cases heq
      exact (hij ⟨rfl, rfl⟩).elim

theorem fullBut_false : FullBut (fun _ => False) L ↔ L.Full := by
  simp only [FullBut, Full, or_false]

theorem full_put (h : L.Ordered) (hfull : L.Full) (b : Block) (l : BlockLocation) :
    (L.put b l).Full :=
  fullBut_false.1 (fullBut_put h (fullBut_false.2 hfull) b l)

theorem full_move (h : L.Ordered) (hfull : L.Full) (b : Block) (source target : Option BlockLocation) :
    (L.move b source target).Full := by
  cases source with
  | none =>
    cases target with
    | none => exact hfull
    | some l => exact full_put h hfull b l
  | some k =>
    have htake := fullBut_take hfull b k.sequentialGroup
    cases target with
    | none => exact full_clean (h.take b _) htake
    | some l => exact full_clean ((h.take b _).put b l) (fullBut_put (h.take b _) htake b l)

/-! #### The tatamis -/

theorem ids_move {b : Block} {source target : Option BlockLocation}
    (h : ∀ l, target = some l → L.elements l.getTatamiHandle.id ≠ none) :
    (L.move b source target).ids = L.ids := by
  have hput : ∀ (L' : Layout) (l : BlockLocation), L'.elements l.getTatamiHandle.id ≠ none →
      (L'.put b l).ids = L'.ids := by
    intro L' l hl
    obtain ⟨M, hM⟩ := Option.ne_none_iff_exists'.1 hl
    show (PositionManager.insert L' l.getTatamiHandle {}).ids = L'.ids
    rw [PositionManager.insert_of_some hM]
  cases target with
  | none => cases source <;> rfl
  | some l =>
    cases source with
    | none => exact hput L l (h l rfl)
    | some k =>
      refine (hput (L.take b k.sequentialGroup) l ?_)
      unfold take editBlocks editGroup
      rw [PositionManager.elements_adjust]
      split
      · simpa using h l rfl
      · exact h l rfl

/-! #### Layouts and places -/

/-- The layout holds every block in the group of its place, and nothing else. -/
structure Holds (L : Layout) (place : Block → Option GroupId) : Prop where
  ordered : L.Ordered
  full : L.Full
  nodup : ∀ g, (L.blocks g).Nodup
  mem_blocks : ∀ b g, b ∈ L.blocks g ↔ place b = some g

theorem mem_movedBlocks_of_ne {b b' : Block} (hne : b' ≠ b) (source target : Option BlockLocation)
    (g : GroupId) (bs : List Block) : b' ∈ movedBlocks b source target g bs ↔ b' ∈ bs := by
  have herase : b' ∈ (if source.map (·.groupId) = some g then bs.erase b else bs) ↔ b' ∈ bs := by
    split
    · exact List.mem_erase_of_ne hne
    · exact Iff.rfl
  unfold movedBlocks
  cases target with
  | none => exact herase
  | some l =>
    simp only
    split
    · rw [List.mem_insertIdx (Nat.min_le_right _ _), herase]
      simp [hne]
    · exact herase

variable {place : Block → Option GroupId}

/-- After a move the block is at its new place. -/
theorem Holds.move (h : L.Holds place) {b : Block} (source target : Option BlockLocation)
    (hsource : place b = source.map (·.groupId)) :
    (L.move b source target).Holds (Function.update place b (target.map (·.groupId))) := by
  have hout : ∀ g, b ∉ (if source.map (·.groupId) = some g then (L.blocks g).erase b
      else L.blocks g) := by
    intro g
    split
    · exact (h.nodup g).not_mem_erase
    · next hg => rwa [h.mem_blocks, hsource]
  have hnodup : ∀ g, (if source.map (·.groupId) = some g then (L.blocks g).erase b
      else L.blocks g).Nodup := by
    intro g
    split
    · exact (h.nodup g).erase b
    · exact h.nodup g
  refine ⟨h.ordered.move b source target, full_move h.ordered h.full b source target, fun g => ?_,
    fun b' g => ?_⟩
  · rw [blocks_move h.ordered]
    unfold movedBlocks
    cases target with
    | none => exact hnodup g
    | some l =>
      simp only
      split
      · rw [(List.perm_insertIdx _ _ (Nat.min_le_right _ _)).nodup_iff, List.nodup_cons]
        exact ⟨hout g, hnodup g⟩
      · exact hnodup g
  · rw [blocks_move h.ordered]
    by_cases hb : b' = b
    · subst hb
      rw [Function.update_self]
      unfold movedBlocks
      cases target with
      | none => simpa using hout g
      | some l =>
        simp only [Option.map_some, Option.some.injEq]
        split
        · next hg => simp [hg, List.mem_insertIdx (Nat.min_le_right _ _)]
        · next hg => simpa [hg] using hout g
    · rw [Function.update_of_ne hb, mem_movedBlocks_of_ne hb, h.mem_blocks]

/-- The tatami of a place exists. -/
theorem Holds.tatami_mem (h : L.Holds place) {b : Block} {g : GroupId} (hb : place b = some g) :
    g.tatami ∈ L.ids := by
  have hmem := (h.mem_blocks b g).2 hb
  rw [h.ordered.tatamis.mem_ids]
  intro hnone
  unfold blocks group at hmem
  rw [hnone] at hmem
  cases hmem

/-- The sequential groups of a concurrent group are those that have a block. -/
theorem Holds.mem_group_ids (h : L.Holds place) {i j : PositionId} {G : GroupLayout}
    (hG : L.group i j = some G) (k : PositionId) : k ∈ G.ids ↔ ∃ b, place b = some ⟨i, j, k⟩ := by
  have hblocks : L.blocks ⟨i, j, k⟩ = (G.elements k).getD [] := by
    unfold blocks
    rw [hG]
    rfl
  simp only [← h.mem_blocks, hblocks]
  rw [(h.ordered.sequential i j G hG).mem_ids]
  cases hk : G.elements k with
  | none => simp
  | some bs =>
    have hne := (h.full i j G hG).2 k bs hk
    simpa using List.exists_mem_of_ne_nil bs hne

theorem Holds.group_ne_none (h : L.Holds place) {b : Block} {g : GroupId} (hb : place b = some g) :
    L.group g.tatami g.concurrent ≠ none := by
  intro hnone
  have hmem := (h.mem_blocks b g).2 hb
  unfold blocks at hmem
  rw [hnone] at hmem
  cases hmem

end Layout

end JudoAssistant
