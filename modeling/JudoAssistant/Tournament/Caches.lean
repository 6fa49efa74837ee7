import JudoAssistant.Tournament.LayoutRuns
import JudoAssistant.Tournament.MatchOrder

/-!
# When the tatamis can be recomputed

`recompute` reads the categories of the blocks of a group.  It returns if every block of the group has
a category with indexed matches, and then blocks can be moved.
-/

namespace JudoAssistant

open Effect Exec

/-- The block has a category, stored under its id, with indexed matches. -/
def Categories.Readable (categories : Categories) (b : Block) : Prop :=
  ∃ c, categories b.1 = some c ∧ c.id = b.1 ∧ c.Indexed

theorem Categories.Readable.stored {categories : Categories} {b : Block} (h : categories.Readable b) :
    categories.Stored b := by
  obtain ⟨c, hc, hid, hindexed⟩ := h
  exact ⟨c, hc, hid, hindexed.map⟩

/-! ### Groups -/

theorem PositionManager.Sound.inOrder {α : Type} {p : PositionManager α} (h : p.Sound) :
    ∃ xs, p.inOrder = .ok xs := by
  refine except_mapM_total fun q hq => ?_
  have hid : q.1 ∈ p.ids := List.mem_of_getElem? (List.mem_zipIdx_iff_getElem?.1 hq)
  obtain ⟨a, ha⟩ := Option.ne_none_iff_exists'.1 (h.mem_ids.1 hid)
  exact ⟨(⟨q.1, q.2⟩, a), except_bind_ok.2 ⟨a, PositionManager.at'_ok.2 ha, rfl⟩⟩

theorem SequentialBlockGroup.recompute_total {categories : Categories} {g : SequentialBlockGroup}
    (h : ∀ b ∈ g.blocks, categories.Readable b) : ∃ g', g.recompute categories = .ok g' := by
  have hdurations : ∃ durations, (g.blocks.mapM fun block => do
      let c ← categories.getCategory block.1
      return c.expectedDuration block.2) = .ok durations := by
    refine except_mapM_total fun b hb => ?_
    obtain ⟨c, hc, -, -⟩ := h b hb
    exact ⟨_, except_bind_ok.2 ⟨c, getCategory_eq_ok.2 hc, rfl⟩⟩
  obtain ⟨durations, hdurations⟩ := hdurations
  exact ⟨_, except_bind_ok.2 ⟨durations, hdurations, rfl⟩⟩

theorem ConcurrentBlockGroup.recompute_total {categories : Categories} {g : ConcurrentBlockGroup}
    (hsound : g.groups.Sound)
    (h : ∀ k group, g.groups.elements k = some group → ∀ b ∈ group.blocks, categories.Readable b) :
    ∃ g', g.recompute categories = .ok g' := by
  obtain ⟨groups, hgroups⟩ := hsound.inOrder
  obtain ⟨g', hg', -⟩ := recompute_eq hgroups fun x hx b hb =>
    (h _ _ ((SetTatamiCountAction.inOrder_ok hgroups).1 x hx).1 b hb).stored
  exact ⟨g', hg'⟩

/-! ### Moves -/

/-- The sequential group exists. -/
def Layout.Contains (L : Layout) (g : GroupId) : Prop :=
  ∃ G, L.group g.tatami g.concurrent = some G ∧ G.elements g.sequential ≠ none

namespace Layout

variable {L : Layout} {g : GroupId}

theorem contains_of_mem {b : Block} (h : b ∈ L.blocks g) : L.Contains g := by
  unfold blocks at h
  cases hG : L.group g.tatami g.concurrent with
  | none =>
    rw [hG] at h
    cases h
  | some G =>
    refine ⟨G, hG, fun hnone => ?_⟩
    rw [hG, Option.bind_some, hnone] at h
    cases h

theorem Contains.editBlocks (h : L.Contains g) (l : SequentialGroupLocation)
    (f : List Block → List Block) : (L.editBlocks l f).Contains g := by
  obtain ⟨G, hG, hne⟩ := h
  unfold Contains Layout.editBlocks
  rw [group_editGroup, hG]
  split
  · refine ⟨_, rfl, ?_⟩
    rw [PositionManager.elements_adjust]
    split
    · simpa using hne
    · exact hne
  · exact ⟨G, rfl, hne⟩

theorem Contains.put (h : L.Contains g) (b : Block) (l : BlockLocation) : (L.put b l).Contains g := by
  refine Contains.editBlocks ?_ _ _
  obtain ⟨G, hG, hne⟩ := h
  unfold Contains
  rw [group_create, hG]
  split
  · refine ⟨_, rfl, ?_⟩
    rw [Option.getD_some, PositionManager.elements_insert]
    split
    · simp
    · exact hne
  · exact ⟨G, rfl, hne⟩

theorem group_cleanSequential_ne_none {i j : PositionId} (h : L.group i j ≠ none)
    (l : SequentialGroupLocation) : (L.cleanSequential l).group i j ≠ none := by
  unfold cleanSequential
  rw [group_editGroup]
  split
  · simpa using h
  · exact h

end Layout

namespace TatamiList

variable {t t' : TatamiList} {categories : Categories} {b : Block}

/-- The tatamis are in order, and all blocks on them can be read. -/
structure Readable (categories : Categories) (t : TatamiList) : Prop where
  ordered : t.layout.Ordered
  blocks : ∀ g, ∀ b ∈ t.layout.blocks g, categories.Readable b

theorem isConcurrent_of_group {i j : PositionId} (h : t.layout.group i j ≠ none) :
    ∃ group, t.IsConcurrent i j group := by
  obtain ⟨G, hG⟩ := Option.ne_none_iff_exists'.1 h
  obtain ⟨M, hM, hMG⟩ := Option.bind_eq_some_iff.1 hG
  obtain ⟨tatami, htatami, rfl⟩ := Option.map_eq_some_iff.1 hM
  obtain ⟨group, hgroup, -⟩ := Option.map_eq_some_iff.1 hMG
  exact ⟨group, tatami, htatami, hgroup⟩

theorem isSequential_of_contains {g : GroupId} (h : t.layout.Contains g) :
    ∃ group, t.IsSequential g group := by
  obtain ⟨G, hG, hne⟩ := h
  obtain ⟨group, hgroup⟩ := isConcurrent_of_group (t := t) (by rw [hG]; simp)
  have hlayout := group_layout hgroup
  rw [hG] at hlayout
  cases hlayout
  obtain ⟨bs, hbs⟩ := Option.ne_none_iff_exists'.1 hne
  obtain ⟨sequential, hsequential, -⟩ := Option.map_eq_some_iff.1 hbs
  exact ⟨sequential, group, hgroup, hsequential⟩

/-- An edit of a group that exists returns if the edit of the group does. -/
theorem editSequential_total {l : SequentialGroupLocation} {group group' : SequentialBlockGroup}
    {f : SequentialBlockGroup → Except Failure SequentialBlockGroup}
    (hgroup : t.IsSequential l.groupId group) (hf : f group = .ok group') :
    ∃ t', t.editSequential l f = .ok t' := by
  obtain ⟨concurrent, ⟨tatami, htatami, hconcurrent⟩, hsequential⟩ := hgroup
  refine ⟨_, editConcurrent_ok.2 ⟨tatami, concurrent,
    { concurrent with groups := concurrent.groups.set l.handle group' }, htatami, hconcurrent, ?_, rfl⟩⟩
  exact except_bind_ok.2 ⟨group, PositionManager.at'_ok.2 hsequential, except_bind_ok.2 ⟨group', hf, rfl⟩⟩

theorem takeBlock_total {l : BlockLocation} (h : b ∈ t.layout.blocks l.groupId) :
    ∃ t', t.takeBlock b (some l) = .ok t' := by
  obtain ⟨group, hgroup⟩ := isSequential_of_mem h
  rw [blocks_layout hgroup] at h
  refine editSequential_total hgroup (except_bind_ok.2 ⟨(), check_ok.2 (decide_eq_true h), rfl⟩)

theorem create_total (t : TatamiList) (l : SequentialGroupLocation) : ∃ t', t.create l = .ok t' := by
  have hinsert : ∀ {α : Type} (p : PositionManager α) (handle : PositionHandle) (a : α),
      ∃ x, (p.insert handle a).elements handle.id = some x := by
    intro α p handle a
    rw [PositionManager.elements_insert, if_pos rfl]
    exact ⟨_, rfl⟩
  obtain ⟨tatami, htatami⟩ := hinsert t.tatamis l.concurrentGroup.tatami.handle {}
  obtain ⟨group, hgroup⟩ := hinsert tatami.groups l.concurrentGroup.handle {}
  simp only [create, except_bind_ok, PositionManager.at'_ok, except_pure_ok]
  exact ⟨_, tatami, htatami, group, hgroup, rfl⟩

theorem putBlock_total (t : TatamiList) (b : Block) (l : BlockLocation) :
    ∃ t', t.putBlock b (some l) = .ok t' := by
  obtain ⟨t₁, h₁⟩ := create_total t l.sequentialGroup
  have hcontains : t₁.layout.Contains l.groupId := by
    rw [layout_create h₁]
    refine ⟨_, by rw [Layout.group_create, if_pos ⟨rfl, rfl⟩], ?_⟩
    rw [PositionManager.elements_insert, show l.groupId.sequential = l.sequentialGroup.handle.id from rfl,
      if_pos rfl]
    simp
  obtain ⟨group, hgroup⟩ := isSequential_of_contains hcontains
  obtain ⟨t₂, h₂⟩ := editSequential_total (l := l.sequentialGroup)
    (f := fun g => g.addBlock (min l.pos g.blocks.length) b) hgroup
    (except_bind_ok.2 ⟨(), check_ok.2 (decide_eq_true (Nat.min_le_right _ _)), rfl⟩)
  exact ⟨t₂, except_bind_ok.2 ⟨t₁, h₁, h₂⟩⟩

theorem mem_putBlock {l : BlockLocation} (h : t.putBlock b (some l) = .ok t') :
    b ∈ t'.layout.blocks l.groupId := by
  rw [layout_putBlock h, Layout.blocks_put, if_pos rfl]
  exact (List.mem_insertIdx (Nat.min_le_right _ _)).2 (.inl rfl)

namespace Readable

theorem of_layout (h : t.Readable categories) (hlayout : t'.layout = t.layout) : t'.Readable categories := by
  refine ⟨?_, ?_⟩
  · rw [hlayout]; exact h.ordered
  · rw [hlayout]; exact h.blocks

theorem take (h : t.Readable categories) {l : BlockLocation}
    (htake : t.takeBlock b (some l) = .ok t') : t'.Readable categories := by
  have hlayout := layout_takeBlock htake
  refine ⟨by rw [hlayout]; exact h.ordered.take b _, fun g b' hb' => h.blocks g b' ?_⟩
  rw [hlayout, Layout.blocks_take] at hb'
  split at hb'
  · exact List.mem_of_mem_erase hb'
  · exact hb'

theorem put (h : t.Readable categories) (hb : categories.Readable b) {l : BlockLocation}
    (hput : t.putBlock b (some l) = .ok t') : t'.Readable categories := by
  have hlayout := layout_putBlock hput
  refine ⟨by rw [hlayout]; exact h.ordered.put b l, fun g b' hb' => ?_⟩
  rw [hlayout, Layout.blocks_put] at hb'
  split at hb'
  · rcases List.eq_or_mem_of_mem_insertIdx hb' with rfl | hb'
    · exact hb
    · exact h.blocks g b' hb'
  · exact h.blocks g b' hb'

theorem sequential (h : t.Readable categories) {g : GroupId} {group : SequentialBlockGroup}
    (hgroup : t.IsSequential g group) : ∃ group', group.recompute categories = .ok group' :=
  SequentialBlockGroup.recompute_total fun b hb => h.blocks g b (by rw [blocks_layout hgroup]; exact hb)

theorem concurrent (h : t.Readable categories) {i j : PositionId} {group : ConcurrentBlockGroup}
    (hgroup : t.IsConcurrent i j group) : ∃ group', group.recompute categories = .ok group' := by
  refine ConcurrentBlockGroup.recompute_total ?_ fun k sequential hsequential =>
    fun b hb => h.blocks ⟨i, j, k⟩ b (by rw [blocks_layout ⟨group, hgroup, hsequential⟩]; exact hb)
  exact (h.ordered.sequential i j _ (group_layout hgroup)).of_map

theorem editSequential_recompute (h : t.Readable categories) {l : SequentialGroupLocation}
    (hl : t.layout.Contains l.groupId) : ∃ t', t.editSequential l (·.recompute categories) = .ok t' := by
  obtain ⟨group, hgroup⟩ := isSequential_of_contains hl
  obtain ⟨group', hgroup'⟩ := h.sequential hgroup
  exact editSequential_total hgroup hgroup'

theorem editConcurrent_recompute (h : t.Readable categories) {l : ConcurrentGroupLocation}
    (hl : t.layout.group l.tatami.handle.id l.handle.id ≠ none) :
    ∃ t', t.editConcurrent l (·.recompute categories) = .ok t' := by
  obtain ⟨group, hgroup⟩ := isConcurrent_of_group hl
  obtain ⟨group', hgroup'⟩ := h.concurrent hgroup
  obtain ⟨tatami, htatami, hconcurrent⟩ := hgroup
  exact ⟨_, editConcurrent_ok.2 ⟨tatami, group, group', htatami, hconcurrent, hgroup', rfl⟩⟩

theorem cleanSequential (h : t.Readable categories) {l : SequentialGroupLocation}
    (hl : t.layout.Contains l.groupId) : ∃ t', t.cleanSequential categories l = .ok t' := by
  obtain ⟨group, hgroup⟩ := isSequential_of_contains hl
  obtain ⟨group', hgroup'⟩ := h.sequential hgroup
  obtain ⟨concurrent, ⟨tatami, htatami, hconcurrent⟩, hsequential⟩ := hgroup
  have hedit : ∃ concurrent', (do
      let group ← concurrent.groups.at' l.handle
      if group.blocks = [] then return { concurrent with groups := concurrent.groups.erase l.handle }
      else do
        let group ← group.recompute categories
        return { concurrent with groups := concurrent.groups.set l.handle group } :
        Except Failure ConcurrentBlockGroup) = .ok concurrent' := by
    rw [show concurrent.groups.at' l.handle = .ok group from PositionManager.at'_ok.2 hsequential]
    show ∃ concurrent', (if group.blocks = [] then _ else _ : Except Failure ConcurrentBlockGroup) = _
    split
    · exact ⟨_, rfl⟩
    · exact ⟨_, except_bind_ok.2 ⟨group', hgroup', rfl⟩⟩
  obtain ⟨concurrent', hconcurrent'⟩ := hedit
  exact ⟨_, editConcurrent_ok.2 ⟨tatami, concurrent, concurrent', htatami, hconcurrent, hconcurrent', rfl⟩⟩

theorem cleanConcurrent (h : t.Readable categories) {l : ConcurrentGroupLocation}
    (hl : t.layout.group l.tatami.handle.id l.handle.id ≠ none) :
    ∃ t', t.cleanConcurrent categories l = .ok t' := by
  obtain ⟨group, hgroup⟩ := isConcurrent_of_group hl
  obtain ⟨group', hgroup'⟩ := h.concurrent hgroup
  obtain ⟨tatami, htatami, hconcurrent⟩ := hgroup
  unfold TatamiList.cleanConcurrent
  rw [show t.tatamis.at' l.tatami.handle = .ok tatami from PositionManager.at'_ok.2 htatami]
  show ∃ t', (tatami.groups.at' l.handle >>= _) = _
  rw [show tatami.groups.at' l.handle = .ok group from PositionManager.at'_ok.2 hconcurrent]
  show ∃ t', (if group.groups.size = 0 then _ else _ : Except Failure TatamiList) = _
  split
  · exact ⟨_, rfl⟩
  · exact ⟨_, except_bind_ok.2 ⟨group', hgroup', rfl⟩⟩

theorem of_cleanSequential (h : t.Readable categories) {l : SequentialGroupLocation}
    (hclean : t.cleanSequential categories l = .ok t') : t'.Readable categories := by
  have hlayout := layout_cleanSequential hclean
  refine ⟨by rw [hlayout]; exact h.ordered.cleanSequential l, fun g b' hb' => h.blocks g b' ?_⟩
  rwa [hlayout, Layout.blocks_cleanSequential h.ordered] at hb'

theorem of_cleanConcurrent (h : t.Readable categories) {l : ConcurrentGroupLocation}
    (hclean : t.cleanConcurrent categories l = .ok t') : t'.Readable categories := by
  have hlayout := layout_cleanConcurrent hclean
  refine ⟨by rw [hlayout]; exact h.ordered.cleanConcurrent l, fun g b' hb' => h.blocks g b' ?_⟩
  rwa [hlayout, Layout.blocks_cleanConcurrent h.ordered] at hb'

/-- Erasing the groups of the source that have become empty. -/
theorem clean (h : t.Readable categories) {k : BlockLocation} (hk : t.layout.Contains k.groupId) :
    ∃ t₁, t.cleanSequential categories k.sequentialGroup = .ok t₁ ∧ t₁.Readable categories ∧
      (∀ g, t₁.layout.blocks g = t.layout.blocks g) ∧
      t₁.layout.group k.groupId.tatami k.groupId.concurrent ≠ none := by
  obtain ⟨t₁, h₁⟩ := h.cleanSequential hk
  have hlayout := layout_cleanSequential h₁
  refine ⟨t₁, h₁, h.of_cleanSequential h₁, fun g => ?_, ?_⟩
  · rw [hlayout, Layout.blocks_cleanSequential h.ordered]
  · obtain ⟨G, hG, -⟩ := hk
    rw [hlayout]
    exact Layout.group_cleanSequential_ne_none (by rw [hG]; simp) _

/-- The end of a move to a group. -/
theorem settle (h : t.Readable categories) {l : BlockLocation} (hl : b ∈ t.layout.blocks l.groupId) :
    (∃ t', t.editSequential l.sequentialGroup (·.recompute categories) = .ok t' ∧ t'.layout = t.layout) ∧
      ∃ t', t.editConcurrent l.sequentialGroup.concurrentGroup (·.recompute categories) = .ok t' := by
  have hcontains := Layout.contains_of_mem hl
  obtain ⟨t', ht'⟩ := h.editSequential_recompute (l := l.sequentialGroup) hcontains
  refine ⟨⟨t', ht', layout_editSequential_recompute ht'⟩, h.editConcurrent_recompute ?_⟩
  obtain ⟨G, hG, -⟩ := hcontains
  exact fun hnone => by
    have : t.layout.group l.groupId.tatami l.groupId.concurrent = none := hnone
    rw [hG] at this
    cases this

/-- A block that is where the source says can be moved anywhere. -/
theorem moveBlock (h : t.Readable categories) (hb : categories.Readable b)
    (source target : Option BlockLocation)
    (hsource : ∀ k, source = some k → b ∈ t.layout.blocks k.groupId) :
    ∃ t', t.moveBlock categories b source target = .ok t' := by
  cases source with
  | none =>
    cases target with
    | none => exact ⟨t, rfl⟩
    | some l =>
      obtain ⟨t₁, h₁⟩ := putBlock_total t b l
      have hr₁ := h.put hb h₁
      have hmem : b ∈ t₁.layout.blocks l.groupId := mem_putBlock h₁
      obtain ⟨⟨t₂, h₂, hlayout⟩, -⟩ := hr₁.settle hmem
      obtain ⟨-, t₃, h₃⟩ := (hr₁.of_layout hlayout).settle (l := l) (by rw [hlayout]; exact hmem)
      refine ⟨t₃, ?_⟩
      simp only [TatamiList.moveBlock, pure_bind, except_bind_ok, Option.map_none, Option.getD_none,
        Bool.false_eq_true, if_false]
      exact ⟨t, rfl, t₁, h₁, t₂, h₂, h₃⟩
  | some k =>
    have hk := hsource k rfl
    obtain ⟨t₁, h₁⟩ := takeBlock_total hk
    have hr₁ := h.take h₁
    have hk₁ : t₁.layout.Contains k.groupId := by
      rw [layout_takeBlock h₁]
      exact (Layout.contains_of_mem hk).editBlocks _ _
    cases target with
    | none =>
      obtain ⟨t₂, h₂, hr₂, -, hgroup⟩ := hr₁.clean hk₁
      obtain ⟨t₃, h₃⟩ := hr₂.cleanConcurrent (l := k.sequentialGroup.concurrentGroup) hgroup
      refine ⟨t₃, ?_⟩
      simp only [TatamiList.moveBlock, pure_bind, bind_pure, except_bind_ok]
      exact ⟨t₁, h₁, t₁, rfl, t₂, h₂, h₃⟩
    | some l =>
      obtain ⟨t₂, h₂⟩ := putBlock_total t₁ b l
      have hr₂ := hr₁.put hb h₂
      have hmem₂ : b ∈ t₂.layout.blocks l.groupId := mem_putBlock h₂
      have hk₂ : t₂.layout.Contains k.groupId := by
        rw [layout_putBlock h₂]
        exact hk₁.put b l
      obtain ⟨t₃, h₃, hr₃, hblocks₃, hgroup₃⟩ := hr₂.clean hk₂
      have hmem₃ : b ∈ t₃.layout.blocks l.groupId := by
        rw [hblocks₃]
        exact hmem₂
      obtain ⟨⟨t₄, h₄, hlayout₄⟩, -⟩ := hr₃.settle hmem₃
      -- The target is recomputed only if it is another group than the source.
      have hfourth : ∃ t₄, (if k.sequentialGroup.same l.sequentialGroup then pure t₃
          else t₃.editSequential l.sequentialGroup (·.recompute categories)) = .ok t₄ ∧
          t₄.layout = t₃.layout := by
        split
        · exact ⟨t₃, rfl, rfl⟩
        · exact ⟨t₄, h₄, hlayout₄⟩
      obtain ⟨t₄, h₄, hlayout₄⟩ := hfourth
      have hr₄ := hr₃.of_layout hlayout₄
      obtain ⟨t₅, h₅⟩ := hr₄.cleanConcurrent (l := k.sequentialGroup.concurrentGroup)
        (by rw [hlayout₄]; exact hgroup₃)
      have hmem₅ : b ∈ t₅.layout.blocks l.groupId := by
        rw [layout_cleanConcurrent h₅, Layout.blocks_cleanConcurrent hr₄.ordered, hlayout₄]
        exact hmem₃
      obtain ⟨-, t₆, h₆⟩ := (hr₄.of_cleanConcurrent h₅).settle hmem₅
      have hlast : ∃ t₆, (if k.sequentialGroup.concurrentGroup.same l.sequentialGroup.concurrentGroup then
          pure t₅ else t₅.editConcurrent l.sequentialGroup.concurrentGroup (·.recompute categories)) =
          .ok t₆ := by
        split
        · exact ⟨t₅, rfl⟩
        · exact ⟨t₆, h₆⟩
      obtain ⟨t₆, h₆⟩ := hlast
      refine ⟨t₆, ?_⟩
      unfold TatamiList.moveBlock
      refine except_bind_ok.2 ⟨t₁, h₁, except_bind_ok.2 ⟨t₂, h₂, except_bind_ok.2 ⟨t₃, h₃, ?_⟩⟩⟩
      by_cases hsame : k.sequentialGroup.same l.sequentialGroup = true
      · rw [if_pos hsame] at h₄
        show (if k.sequentialGroup.same l.sequentialGroup = true then _ else _) = _
        rw [if_pos hsame]
        exact except_bind_ok.2 ⟨t₄, h₄, except_bind_ok.2 ⟨t₅, h₅, h₆⟩⟩
      · rw [if_neg hsame] at h₄
        show (if k.sequentialGroup.same l.sequentialGroup = true then _ else _) = _
        rw [if_neg hsame]
        exact except_bind_ok.2 ⟨t₄, h₄, except_bind_ok.2 ⟨t₅, h₅, h₆⟩⟩

theorem foldlM_total {f : TatamiList → BlockLocation → Except Failure TatamiList}
    (hf : ∀ t l, t.Readable categories → t.layout.Contains l.groupId →
      ∃ t', f t l = .ok t' ∧ t'.layout = t.layout) {ls : List BlockLocation} (h : t.Readable categories)
    (hls : ∀ l ∈ ls, t.layout.Contains l.groupId) :
    ∃ t', ls.foldlM f t = .ok t' ∧ t'.layout = t.layout := by
  induction ls generalizing t with
  | nil => exact ⟨t, rfl, rfl⟩
  | cons l ls ih =>
    obtain ⟨t₁, h₁, hlayout₁⟩ := hf t l h (hls l List.mem_cons_self)
    obtain ⟨t', h', hlayout'⟩ := ih (h.of_layout hlayout₁) fun l' hl' => by
      rw [hlayout₁]
      exact hls l' (List.mem_cons_of_mem _ hl')
    exact ⟨t', by rw [List.foldlM_cons]; exact except_bind_ok.2 ⟨t₁, h₁, h'⟩, hlayout'.trans hlayout₁⟩

/-- The groups of locations on the tatamis can be recomputed. -/
theorem recomputeBlocks (h : t.Readable categories) {ls : List BlockLocation}
    (hls : ∀ l ∈ ls, t.layout.Contains l.groupId) : ∃ t', t.recomputeBlocks categories ls = .ok t' := by
  obtain ⟨t₁, h₁, hlayout₁⟩ := foldlM_total
    (f := fun t l => t.editSequential l.sequentialGroup (·.recompute categories)) (fun t l ht hl => by
      obtain ⟨t', ht'⟩ := ht.editSequential_recompute (l := l.sequentialGroup) hl
      exact ⟨t', ht', layout_editSequential_recompute ht'⟩) h hls
  obtain ⟨t₂, h₂, -⟩ := foldlM_total
    (f := fun t l => t.editConcurrent l.sequentialGroup.concurrentGroup (·.recompute categories))
    (fun t l ht hl => by
      obtain ⟨G, hG, -⟩ := hl
      obtain ⟨t', ht'⟩ := ht.editConcurrent_recompute (l := l.sequentialGroup.concurrentGroup)
        (by rw [show t.layout.group l.sequentialGroup.concurrentGroup.tatami.handle.id
              l.sequentialGroup.concurrentGroup.handle.id = some G from hG]; simp)
      exact ⟨t', ht', layout_editConcurrent_recompute ht'⟩) (h.of_layout hlayout₁) 
    fun l hl => by rw [hlayout₁]; exact hls l hl
  exact ⟨t₂, except_bind_ok.2 ⟨t₁, h₁, h₂⟩⟩

end Readable

end TatamiList

/-- Where the layout is as the locations say, the blocks on the tatamis have categories, and the groups
can be recomputed. -/
theorem readable_of_placed {t : TournamentStore} (ht : Placed t) (hindexed : t.Indexed) :
    t.tatamis.Readable t.categories := by
  refine ⟨ht.ordered, fun g b hb => ?_⟩
  obtain ⟨l, ⟨c, hc, -⟩, -⟩ := TournamentStore.isAt_iff.1 ((ht.mem_blocks b g).1 hb)
  exact ⟨c, hc, hindexed.category b.1 c hc, hindexed.index b.1 c hc⟩

/-- Drawn categories can have the groups of their blocks recomputed. -/
theorem DrawCategoriesAction.recomputeGroups_total {t : TournamentStore} (ht : Placed t)
    (hindexed : t.Indexed) (ids : List CategoryId) :
    ∃ t', recomputeGroups ids t = .ok () t' := by
  have hcontains : ∀ l ∈ locations t ids, t.tatamis.layout.Contains l.groupId := by
    intro l hl
    obtain ⟨id, -, hl⟩ := List.mem_flatMap.1 hl
    cases hc : t.categories id with
    | none =>
      rw [hc] at hl
      cases hl
    | some c =>
      rw [hc] at hl
      have hat : ∃ type, t.IsAt (id, type) l := by
        rcases List.mem_append.1 hl with hl | hl
        · exact ⟨.final, c, hc, Option.mem_toList.1 hl⟩
        · exact ⟨.elimination, c, hc, Option.mem_toList.1 hl⟩
      obtain ⟨type, hat⟩ := hat
      exact Layout.contains_of_mem ((ht.mem_blocks (id, type) l.groupId).2
        (TournamentStore.isAt_iff.2 ⟨l, hat, rfl⟩))
  obtain ⟨tatamis, htatamis⟩ := (readable_of_placed ht hindexed).recomputeBlocks hcontains
  exact ⟨_, bind_ok.2 ⟨t, t, get_ok.2 ⟨rfl, rfl⟩, editTatamis_ok.2 ⟨tatamis, htatamis, rfl⟩⟩⟩

end JudoAssistant
