import JudoAssistant.Tournament.Caches
import JudoAssistant.Tournament.IndexRuns
import JudoAssistant.Tournament.Shape

/-!
# Undoing a move of a block

`SetTatamiLocationAction::undoImpl` puts the block back at the location that the category has had.
The indices of that location are those of the layout in which the block was placed, so the order of
blocks and groups is restored only if they still fit.
-/

namespace JudoAssistant

open Effect Exec TournamentStore Reinsert

/-- The location names the concurrent group. -/
def BlockLocation.Within (l : BlockLocation) (i j : PositionId) : Prop :=
  i = l.groupId.tatami ∧ j = l.groupId.concurrent

instance (l : BlockLocation) (i j : PositionId) : Decidable (l.Within i j) :=
  inferInstanceAs (Decidable (_ ∧ _))

namespace Shape

variable {s : Shape} {b : Block} {p l : BlockLocation}

/-- What the shapes of layouts without empty groups are like. -/
structure Sound (s : Shape) : Prop where
  nodup_concurrent : ∀ i, (s.concurrent i).Nodup
  nodup_sequential : ∀ i j, (s.sequential i j).Nodup
  nodup_blocks : ∀ g, (s.blocks g).Nodup
  mem_concurrent : ∀ i j, j ∈ s.concurrent i ↔ s.sequential i j ≠ []
  mem_sequential : ∀ i j k, k ∈ s.sequential i j ↔ s.blocks ⟨i, j, k⟩ ≠ []
  once : ∀ b g g', b ∈ s.blocks g → b ∈ s.blocks g' → g = g'

theorem sound_of_holds {L : Layout} {place : Block → Option GroupId} (h : L.Holds place) :
    L.shape.Sound := by
  have hgroup : ∀ i j, L.shape.sequential i j ≠ [] ↔ L.group i j ≠ none := by
    intro i j
    cases hG : L.group i j with
    | none =>
      have hnil : L.shape.sequential i j = [] := by
        show ((L.group i j).map _).getD [] = _
        rw [hG]
        rfl
      simp [hnil]
    | some G => simpa [Layout.sequential_shape hG] using (h.full i j G hG).1
  refine ⟨fun i => ?_, fun i j => ?_, h.nodup, fun i j => ?_, fun i j k => ?_, fun b g g' hb hb' => ?_⟩
  · cases hM : L.elements i with
    | none =>
      rw [show L.shape.concurrent i = [] by
        show ((L.elements i).map _).getD [] = _
        rw [hM]
        rfl]
      exact List.nodup_nil
    | some M =>
      rw [Layout.concurrent_shape hM]
      exact (h.ordered.concurrent i M hM).nodup
  · cases hG : L.group i j with
    | none =>
      rw [show L.shape.sequential i j = [] by
        show ((L.group i j).map _).getD [] = _
        rw [hG]
        rfl]
      exact List.nodup_nil
    | some G =>
      rw [Layout.sequential_shape hG]
      exact (h.ordered.sequential i j G hG).nodup
  · rw [hgroup]
    unfold Layout.group
    cases hM : L.elements i with
    | none =>
      rw [show L.shape.concurrent i = [] by
        show ((L.elements i).map _).getD [] = _
        rw [hM]
        rfl]
      simp
    | some M =>
      rw [Layout.concurrent_shape hM, (h.ordered.concurrent i M hM).mem_ids]
      rfl
  · cases hG : L.group i j with
    | none =>
      have hblocks : L.shape.blocks ⟨i, j, k⟩ = [] := by
        show Option.getD (Option.bind (L.group i j) _) [] = _
        rw [hG]
        rfl
      have hnil : ¬ L.shape.sequential i j ≠ [] := by rw [hgroup, hG]; simp
      rw [hblocks, not_not.1 hnil]
      simp
    | some G =>
      rw [Layout.sequential_shape hG, h.mem_group_ids hG]
      show _ ↔ L.blocks ⟨i, j, k⟩ ≠ []
      constructor
      · rintro ⟨b, hb⟩
        exact List.ne_nil_of_mem ((h.mem_blocks b _).2 hb)
      · intro hne
        obtain ⟨b, hb⟩ := List.exists_mem_of_ne_nil _ hne
        exact ⟨b, (h.mem_blocks b _).1 hb⟩
  · have h₁ := (h.mem_blocks b g).1 hb
    rw [(h.mem_blocks b g').1 hb'] at h₁
    exact (Option.some.inj h₁).symm

/-- The index of an erased group fits, where a new group may be beside it meanwhile. -/
def Returns (xs : List PositionId) (x : PositionId) (i : ℕ) : Option PositionHandle → Prop
  | none => Fits xs x i
  | some handle => if handle.id ∈ xs then Fits xs x i else FitsBeside xs x i handle.index

/-- The sequential group of the target, if it is in the concurrent group of the source. -/
def besideSequential (p : BlockLocation) : Option BlockLocation → Option PositionHandle
  | none => none
  | some l => if l.Within p.groupId.tatami p.groupId.concurrent then some l.getSequentialGroupHandle
    else none

/-- The concurrent group of the target, if it is on the tatami of the source. -/
def besideConcurrent (p : BlockLocation) : Option BlockLocation → Option PositionHandle
  | none => none
  | some l => if p.groupId.tatami = l.groupId.tatami then some l.getConcurrentGroupHandle else none

/-- The indices of the location of a block fit the shape: the index of the block; if the move of the
block erases its sequential group, the index of that group; and if it erases its concurrent group, the
index of that one. -/
structure Reversible (s : Shape) (b : Block) (p : BlockLocation) (target : Option BlockLocation) :
    Prop where
  block : Fits (s.blocks p.groupId) b p.pos
  sequential : (∀ l, target = some l → l.groupId ≠ p.groupId) → s.blocks p.groupId = [b] →
    Returns (s.sequential p.groupId.tatami p.groupId.concurrent) p.groupId.sequential
      p.getSequentialGroupHandle.index (besideSequential p target)
  concurrent : (∀ l, target = some l → ¬ l.Within p.groupId.tatami p.groupId.concurrent) →
    s.blocks p.groupId = [b] →
    s.sequential p.groupId.tatami p.groupId.concurrent = [p.groupId.sequential] →
    Returns (s.concurrent p.groupId.tatami) p.groupId.concurrent p.getConcurrentGroupHandle.index
      (besideConcurrent p target)

/-! ### What a move does to the lists -/

theorem blocks_move (hne : l.groupId ≠ p.groupId) (g : GroupId) :
    (s.move b (some p) (some l)).blocks g =
      if g = l.groupId then insertAt b l.pos (s.blocks g)
      else if g = p.groupId then (s.blocks g).erase b else s.blocks g := by
  show (if g = l.groupId then insertAt b l.pos (if g = p.groupId then _ else _) else _) = _
  by_cases hg : g = l.groupId
  · rw [if_pos hg, if_pos hg, if_neg (hg ▸ hne)]
  · rw [if_neg hg, if_neg hg]
    rfl

theorem sequential_move (hne : l.groupId ≠ p.groupId) (i j : PositionId) :
    (s.move b (some p) (some l)).sequential i j =
      if p.Within i j ∧ (s.blocks p.groupId).erase b = [] then
        (if l.Within i j then
          insertNew l.groupId.sequential l.getSequentialGroupHandle.index (s.sequential i j)
        else s.sequential i j).erase p.groupId.sequential
      else if l.Within i j then
        insertNew l.groupId.sequential l.getSequentialGroupHandle.index (s.sequential i j)
      else s.sequential i j := by
  have hblocks : ((s.take b p).put b l).blocks p.groupId = (s.blocks p.groupId).erase b := by
    show (if p.groupId = l.groupId then _ else if p.groupId = p.groupId then _ else _) = _
    rw [if_neg (Ne.symm hne), if_pos rfl]
  show (if i = p.groupId.tatami ∧ j = p.groupId.concurrent ∧ ((s.take b p).put b l).blocks p.groupId = []
    then (((s.take b p).put b l).sequential i j).erase p.groupId.sequential
    else ((s.take b p).put b l).sequential i j) = _
  rw [hblocks]
  exact if_congr and_assoc.symm rfl rfl

theorem concurrent_move (i : PositionId) :
    (s.move b (some p) (some l)).concurrent i =
      if i = p.groupId.tatami ∧
          (s.move b (some p) (some l)).sequential p.groupId.tatami p.groupId.concurrent = [] then
        (if i = l.groupId.tatami then
          insertNew l.groupId.concurrent l.getConcurrentGroupHandle.index (s.concurrent i)
        else s.concurrent i).erase p.groupId.concurrent
      else if i = l.groupId.tatami then
        insertNew l.groupId.concurrent l.getConcurrentGroupHandle.index (s.concurrent i)
      else s.concurrent i := rfl

/-- The lists after a move between two groups and back: those of the source. -/
theorem blocks_move_move (hs : s.Sound) (hb : b ∈ s.blocks p.groupId) (hne : l.groupId ≠ p.groupId)
    (g : GroupId) :
    ((s.move b (some p) (some l)).move b (some l) (some p)).blocks g =
      if g = p.groupId then insertAt b p.pos ((s.blocks g).erase b) else s.blocks g := by
  have hnot : b ∉ s.blocks l.groupId := fun h => hne (hs.once b _ _ h hb)
  rw [blocks_move hne.symm, blocks_move hne]
  by_cases hp : g = p.groupId
  · rw [if_pos hp, if_pos hp, if_neg (fun h => hne (h.symm.trans hp)), if_pos hp]
  · rw [if_neg hp, if_neg hp]
    split
    · next hl =>
      subst hl
      exact erase_insertAt hnot
    · rfl

/-- The target group is left as it was. -/
theorem erase_blocks_move (hs : s.Sound) (hb : b ∈ s.blocks p.groupId) (hne : l.groupId ≠ p.groupId) :
    ((s.move b (some p) (some l)).blocks l.groupId).erase b = s.blocks l.groupId := by
  have hnot : b ∉ s.blocks l.groupId := fun h => hne (hs.once b _ _ h hb)
  rw [blocks_move hne, if_pos rfl]
  exact erase_insertAt hnot

theorem sequential_move_move (hs : s.Sound) (hb : b ∈ s.blocks p.groupId) (hne : l.groupId ≠ p.groupId)
    (i j : PositionId) :
    ((s.move b (some p) (some l)).move b (some l) (some p)).sequential i j =
      if p.Within i j ∧ (s.blocks p.groupId).erase b = [] then
        if l.Within i j then
          if l.groupId.sequential ∈ s.sequential i j then
            insertNew p.groupId.sequential p.getSequentialGroupHandle.index
              ((insertNew l.groupId.sequential l.getSequentialGroupHandle.index (s.sequential i j)).erase
                p.groupId.sequential)
          else (insertNew p.groupId.sequential p.getSequentialGroupHandle.index
              ((insertNew l.groupId.sequential l.getSequentialGroupHandle.index (s.sequential i j)).erase
                p.groupId.sequential)).erase l.groupId.sequential
        else insertNew p.groupId.sequential p.getSequentialGroupHandle.index
          ((s.sequential i j).erase p.groupId.sequential)
      else s.sequential i j := by
  rw [sequential_move hne.symm, erase_blocks_move hs hb hne, sequential_move hne]
  -- The target group is empty before the move exactly if it does not exist.
  have hnew : ∀ {i j}, l.Within i j → (s.blocks l.groupId = [] ↔ l.groupId.sequential ∉ s.sequential i j) := by
    rintro i j ⟨rfl, rfl⟩
    rw [hs.mem_sequential, not_not]
  have hold : ∀ {i j}, p.Within i j → p.groupId.sequential ∈ s.sequential i j := by
    rintro i j ⟨rfl, rfl⟩
    exact (hs.mem_sequential _ _ _).2 (List.ne_nil_of_mem hb)
  by_cases hlast : p.Within i j ∧ (s.blocks p.groupId).erase b = []
  · rw [if_pos hlast, if_pos hlast, if_pos hlast.1]
    by_cases hl : l.Within i j
    · rw [if_pos hl, if_pos hl, ite_cond_congr (eq_iff_iff.2 (and_iff_right hl)),
        ite_cond_congr (eq_iff_iff.2 (hnew hl)), ite_not]
    · rw [if_neg fun h => hl h.1, if_neg hl, if_neg hl]
  · rw [if_neg hlast, if_neg hlast]
    have hkeep : (if p.Within i j then insertNew p.groupId.sequential p.getSequentialGroupHandle.index
          (if l.Within i j then
            insertNew l.groupId.sequential l.getSequentialGroupHandle.index (s.sequential i j)
          else s.sequential i j)
        else (if l.Within i j then
            insertNew l.groupId.sequential l.getSequentialGroupHandle.index (s.sequential i j)
          else s.sequential i j)) =
        if l.Within i j then
          insertNew l.groupId.sequential l.getSequentialGroupHandle.index (s.sequential i j)
        else s.sequential i j := by
      split
      · next hp =>
        refine insertNew_of_mem ?_
        split
        · exact mem_insertNew.2 (.inr (hold hp))
        · exact hold hp
      · rfl
    rw [hkeep]
    by_cases hl : l.Within i j
    · rw [if_pos hl, ite_cond_congr (eq_iff_iff.2 (and_iff_right hl)),
        ite_cond_congr (eq_iff_iff.2 (hnew hl)), ite_not]
      exact erase_insertNew
    · rw [if_neg fun h => hl h.1, if_neg hl]

/-- The sequential group of the source is back. -/
theorem mem_sequential_move_move (hs : s.Sound) (hb : b ∈ s.blocks p.groupId)
    (hne : l.groupId ≠ p.groupId) {i j : PositionId} (hp : p.Within i j) :
    p.groupId.sequential ∈ ((s.move b (some p) (some l)).move b (some l) (some p)).sequential i j := by
  rw [sequential_move_move hs hb hne]
  have hold : p.groupId.sequential ∈ s.sequential i j := by
    obtain ⟨rfl, rfl⟩ := hp
    exact (hs.mem_sequential _ _ _).2 (List.ne_nil_of_mem hb)
  split
  · split
    · next hl =>
      have hk : p.groupId.sequential ≠ l.groupId.sequential := by
        intro heq
        refine hne ?_
        obtain ⟨h₁, h₂⟩ := hp
        obtain ⟨h₃, h₄⟩ := hl
        cases hpg : p.groupId
        cases hlg : l.groupId
        simp_all
      split
      · exact mem_insertNew.2 (.inl rfl)
      · exact (List.mem_erase_of_ne hk).2 (mem_insertNew.2 (.inl rfl))
    · exact mem_insertNew.2 (.inl rfl)
  · exact hold

theorem concurrent_move_move (hs : s.Sound) (hb : b ∈ s.blocks p.groupId) (hne : l.groupId ≠ p.groupId)
    (i : PositionId) :
    ((s.move b (some p) (some l)).move b (some l) (some p)).concurrent i =
      if i = p.groupId.tatami ∧
          (s.move b (some p) (some l)).sequential p.groupId.tatami p.groupId.concurrent = [] then
        if i = l.groupId.tatami then
          if l.groupId.concurrent ∈ s.concurrent i then
            insertNew p.groupId.concurrent p.getConcurrentGroupHandle.index
              ((insertNew l.groupId.concurrent l.getConcurrentGroupHandle.index (s.concurrent i)).erase
                p.groupId.concurrent)
          else (insertNew p.groupId.concurrent p.getConcurrentGroupHandle.index
              ((insertNew l.groupId.concurrent l.getConcurrentGroupHandle.index (s.concurrent i)).erase
                p.groupId.concurrent)).erase l.groupId.concurrent
        else insertNew p.groupId.concurrent p.getConcurrentGroupHandle.index
          ((s.concurrent i).erase p.groupId.concurrent)
      else s.concurrent i := by
  have hnonempty : s.sequential p.groupId.tatami p.groupId.concurrent ≠ [] :=
    List.ne_nil_of_mem ((hs.mem_sequential _ _ _).2 (List.ne_nil_of_mem hb))
  have hold : p.groupId.concurrent ∈ s.concurrent p.groupId.tatami := (hs.mem_concurrent _ _).2 hnonempty
  -- The concurrent group of the target is empty at the end exactly if it has not existed.
  have hnew : ((s.move b (some p) (some l)).move b (some l) (some p)).sequential l.groupId.tatami
      l.groupId.concurrent = [] ↔ l.groupId.concurrent ∉ s.concurrent l.groupId.tatami := by
    rw [hs.mem_concurrent, not_not]
    by_cases hp : p.Within l.groupId.tatami l.groupId.concurrent
    · have hmem := mem_sequential_move_move hs hb hne hp
      obtain ⟨h₁, h₂⟩ := hp
      rw [← h₁, ← h₂] at hnonempty
      simp [List.ne_nil_of_mem hmem, hnonempty]
    · rw [sequential_move_move hs hb hne, if_neg fun h => hp h.1]
  rw [concurrent_move, concurrent_move]
  by_cases hlast : i = p.groupId.tatami ∧
      (s.move b (some p) (some l)).sequential p.groupId.tatami p.groupId.concurrent = []
  · rw [if_pos hlast, if_pos hlast, if_pos hlast.1]
    by_cases hl : i = l.groupId.tatami
    · rw [if_pos hl, if_pos hl, ite_cond_congr (eq_iff_iff.2 (and_iff_right hl)),
        ite_cond_congr (eq_iff_iff.2 hnew), ite_not, hl]
    · rw [if_neg fun h => hl h.1, if_neg hl, if_neg hl]
  · rw [if_neg hlast, if_neg hlast]
    have hkeep : (if i = p.groupId.tatami then
          insertNew p.groupId.concurrent p.getConcurrentGroupHandle.index
            (if i = l.groupId.tatami then
              insertNew l.groupId.concurrent l.getConcurrentGroupHandle.index (s.concurrent i)
            else s.concurrent i)
        else (if i = l.groupId.tatami then
            insertNew l.groupId.concurrent l.getConcurrentGroupHandle.index (s.concurrent i)
          else s.concurrent i)) =
        if i = l.groupId.tatami then
          insertNew l.groupId.concurrent l.getConcurrentGroupHandle.index (s.concurrent i)
        else s.concurrent i := by
      split
      · next hi =>
        rw [← hi] at hold
        refine insertNew_of_mem ?_
        split
        · exact mem_insertNew.2 (.inr hold)
        · exact hold
      · rfl
    rw [hkeep]
    by_cases hl : i = l.groupId.tatami
    · rw [if_pos hl, ite_cond_congr (eq_iff_iff.2 (and_iff_right hl)),
        ite_cond_congr (eq_iff_iff.2 hnew), ite_not, hl]
      exact erase_insertNew
    · rw [if_neg fun h => hl h.1, if_neg hl]

/-- The concurrent group of the source is erased exactly if its last sequential group is, and the
target is in another one. -/
theorem sequential_move_eq_nil (hs : s.Sound) (hb : b ∈ s.blocks p.groupId)
    (hne : l.groupId ≠ p.groupId) :
    (s.move b (some p) (some l)).sequential p.groupId.tatami p.groupId.concurrent = [] ↔
      s.blocks p.groupId = [b] ∧
        s.sequential p.groupId.tatami p.groupId.concurrent = [p.groupId.sequential] ∧
        ¬ l.Within p.groupId.tatami p.groupId.concurrent := by
  have hmem : p.groupId.sequential ∈ s.sequential p.groupId.tatami p.groupId.concurrent :=
    (hs.mem_sequential _ _ _).2 (List.ne_nil_of_mem hb)
  have hk : l.Within p.groupId.tatami p.groupId.concurrent →
      l.groupId.sequential ≠ p.groupId.sequential := by
    rintro ⟨h₁, h₂⟩ heq
    refine hne ?_
    cases hpg : p.groupId
    cases hlg : l.groupId
    simp_all
  rw [sequential_move hne]
  by_cases hlast : (s.blocks p.groupId).erase b = []
  · rw [if_pos ⟨⟨rfl, rfl⟩, hlast⟩, ← erase_eq_nil_iff hb]
    by_cases hl : l.Within p.groupId.tatami p.groupId.concurrent
    · rw [if_pos hl]
      have hne' : (insertNew l.groupId.sequential l.getSequentialGroupHandle.index
          (s.sequential p.groupId.tatami p.groupId.concurrent)).erase p.groupId.sequential ≠ [] :=
        List.ne_nil_of_mem ((List.mem_erase_of_ne (hk hl)).2 (mem_insertNew.2 (.inl rfl)))
      simp [hne', hl]
    · rw [if_neg hl]
      rw [erase_eq_nil_iff hmem]
      simp [hlast, hl]
  · rw [if_neg fun h => hlast h.2, ← erase_eq_nil_iff hb]
    have hne' : (if l.Within p.groupId.tatami p.groupId.concurrent then
        insertNew l.groupId.sequential l.getSequentialGroupHandle.index
          (s.sequential p.groupId.tatami p.groupId.concurrent)
        else s.sequential p.groupId.tatami p.groupId.concurrent) ≠ [] := by
      split
      · exact insertNew_ne_nil
      · exact List.ne_nil_of_mem hmem
    simp [hne', hlast]

/-! ### Moving back -/

theorem eq_iff {s s' : Shape} (htatamis : s.tatamis = s'.tatamis) : s = s' ↔
    (∀ g, s.blocks g = s'.blocks g) ∧ (∀ i j, s.sequential i j = s'.sequential i j) ∧
      ∀ i, s.concurrent i = s'.concurrent i := by
  constructor
  · rintro rfl
    exact ⟨fun _ => rfl, fun _ _ => rfl, fun _ => rfl⟩
  · rintro ⟨hblocks, hsequential, hconcurrent⟩
    exact Shape.ext htatamis (funext hconcurrent) (funext fun i => funext (hsequential i)) (funext hblocks)

/-- A list of lists that differ at one index. -/
theorem forall_ite_eq {α β : Type} [DecidableEq α] {a : α} {f g : α → β} :
    (∀ x, (if x = a then f x else g x) = g x) ↔ f a = g a := by
  constructor
  · intro h
    simpa using h a
  · intro h x
    split
    · next hx => rw [hx, h]
    · rfl

theorem blocks_back_iff (hs : s.Sound) (hb : b ∈ s.blocks p.groupId) :
    (∀ g, (if g = p.groupId then insertAt b p.pos ((s.blocks g).erase b) else s.blocks g) = s.blocks g) ↔
      Fits (s.blocks p.groupId) b p.pos := by
  rw [forall_ite_eq]
  exact insertAt_erase_iff hb (hs.nodup_blocks _)

theorem mem_sequential_of_mem (hs : s.Sound) (hb : b ∈ s.blocks p.groupId) :
    p.groupId.sequential ∈ s.sequential p.groupId.tatami p.groupId.concurrent :=
  (hs.mem_sequential _ _ _).2 (List.ne_nil_of_mem hb)

theorem mem_concurrent_of_mem (hs : s.Sound) (hb : b ∈ s.blocks p.groupId) :
    p.groupId.concurrent ∈ s.concurrent p.groupId.tatami :=
  (hs.mem_concurrent _ _).2 (List.ne_nil_of_mem (mem_sequential_of_mem hs hb))

theorem sequential_back_iff (hs : s.Sound) (hb : b ∈ s.blocks p.groupId) (hne : l.groupId ≠ p.groupId) :
    (∀ i j, ((s.move b (some p) (some l)).move b (some l) (some p)).sequential i j = s.sequential i j) ↔
      ((∀ l', some l = some l' → l'.groupId ≠ p.groupId) → s.blocks p.groupId = [b] →
        Returns (s.sequential p.groupId.tatami p.groupId.concurrent) p.groupId.sequential
          p.getSequentialGroupHandle.index (besideSequential p (some l))) := by
  have hmem := mem_sequential_of_mem hs hb
  have hnodup := hs.nodup_sequential p.groupId.tatami p.groupId.concurrent
  have hback := insertNew_beside_iff (i := p.getSequentialGroupHandle.index)
    (j := l.getSequentialGroupHandle.index) (y := l.groupId.sequential) hmem hnodup
  -- Only the concurrent group of the source can differ.
  have hone : (∀ i j, ((s.move b (some p) (some l)).move b (some l) (some p)).sequential i j =
      s.sequential i j) ↔ (s.blocks p.groupId = [b] →
        ((s.move b (some p) (some l)).move b (some l) (some p)).sequential p.groupId.tatami
          p.groupId.concurrent = s.sequential p.groupId.tatami p.groupId.concurrent) := by
    refine ⟨fun h _ => h _ _, fun h i j => ?_⟩
    by_cases hlast : p.Within i j ∧ (s.blocks p.groupId).erase b = []
    · obtain ⟨⟨rfl, rfl⟩, hnil⟩ := hlast
      exact h ((erase_eq_nil_iff hb).1 hnil)
    · rw [sequential_move_move hs hb hne, if_neg hlast]
  rw [hone, forall_prop_of_true (fun l' hl' => by cases hl'; exact hne)]
  refine forall_congr' fun hlast => ?_
  rw [sequential_move_move hs hb hne, if_pos ⟨⟨rfl, rfl⟩, (erase_eq_nil_iff hb).2 hlast⟩]
  by_cases hl : l.Within p.groupId.tatami p.groupId.concurrent
  · have hbeside : besideSequential p (some l) = some l.getSequentialGroupHandle := if_pos hl
    rw [if_pos hl, hbeside]
    exact hback
  · have hbeside : besideSequential p (some l) = none := if_neg hl
    rw [if_neg hl, hbeside]
    exact insertNew_erase_iff hmem hnodup

theorem concurrent_back_iff (hs : s.Sound) (hb : b ∈ s.blocks p.groupId) (hne : l.groupId ≠ p.groupId) :
    (∀ i, ((s.move b (some p) (some l)).move b (some l) (some p)).concurrent i = s.concurrent i) ↔
      ((∀ l', some l = some l' → ¬ l'.Within p.groupId.tatami p.groupId.concurrent) →
        s.blocks p.groupId = [b] →
        s.sequential p.groupId.tatami p.groupId.concurrent = [p.groupId.sequential] →
        Returns (s.concurrent p.groupId.tatami) p.groupId.concurrent p.getConcurrentGroupHandle.index
          (besideConcurrent p (some l))) := by
  have hmem := mem_concurrent_of_mem hs hb
  have hnodup := hs.nodup_concurrent p.groupId.tatami
  have hback := insertNew_beside_iff (i := p.getConcurrentGroupHandle.index)
    (j := l.getConcurrentGroupHandle.index) (y := l.groupId.concurrent) hmem hnodup
  have hnil := sequential_move_eq_nil hs hb hne
  have hone : (∀ i, ((s.move b (some p) (some l)).move b (some l) (some p)).concurrent i =
      s.concurrent i) ↔
      ((s.move b (some p) (some l)).sequential p.groupId.tatami p.groupId.concurrent = [] →
        ((s.move b (some p) (some l)).move b (some l) (some p)).concurrent p.groupId.tatami =
          s.concurrent p.groupId.tatami) := by
    refine ⟨fun h _ => h _, fun h i => ?_⟩
    by_cases hlast : i = p.groupId.tatami ∧
        (s.move b (some p) (some l)).sequential p.groupId.tatami p.groupId.concurrent = []
    · obtain ⟨rfl, hlast⟩ := hlast
      exact h hlast
    · rw [concurrent_move_move hs hb hne, if_neg hlast]
  have hvalue : (s.move b (some p) (some l)).sequential p.groupId.tatami p.groupId.concurrent = [] →
      (((s.move b (some p) (some l)).move b (some l) (some p)).concurrent p.groupId.tatami =
          s.concurrent p.groupId.tatami ↔
        Returns (s.concurrent p.groupId.tatami) p.groupId.concurrent p.getConcurrentGroupHandle.index
          (besideConcurrent p (some l))) := by
    intro hlast
    rw [concurrent_move_move hs hb hne, if_pos ⟨rfl, hlast⟩]
    by_cases hl : p.groupId.tatami = l.groupId.tatami
    · have hbeside : besideConcurrent p (some l) = some l.getConcurrentGroupHandle := if_pos hl
      rw [if_pos hl, hbeside]
      exact hback
    · have hbeside : besideConcurrent p (some l) = none := if_neg hl
      rw [if_neg hl, hbeside]
      exact insertNew_erase_iff hmem hnodup
  rw [hone]
  constructor
  · intro h hother hblocks hsequential
    have hlast := hnil.2 ⟨hblocks, hsequential, hother l rfl⟩
    exact (hvalue hlast).1 (h hlast)
  · intro h hlast
    obtain ⟨hblocks, hsequential, hother⟩ := hnil.1 hlast
    exact (hvalue hlast).2 (h (fun l' hl' => by cases hl'; exact hother) hblocks hsequential)

theorem move_move_iff_of_ne (hs : s.Sound) (hb : b ∈ s.blocks p.groupId)
    (hne : l.groupId ≠ p.groupId) :
    (s.move b (some p) (some l)).move b (some l) (some p) = s ↔ s.Reversible b p (some l) := by
  have hblocks : (∀ g, ((s.move b (some p) (some l)).move b (some l) (some p)).blocks g = s.blocks g) ↔
      Fits (s.blocks p.groupId) b p.pos := by
    simp only [blocks_move_move hs hb hne]
    exact blocks_back_iff hs hb
  rw [@eq_iff ((s.move b (some p) (some l)).move b (some l) (some p)) s rfl, hblocks, sequential_back_iff hs hb hne,
    concurrent_back_iff hs hb hne]
  exact ⟨fun h => ⟨h.1, h.2.1, h.2.2⟩, fun h => ⟨h.block, h.sequential, h.concurrent⟩⟩

/-- Other blocks in the same groups. -/
def setBlocks (s : Shape) (blocks : GroupId → List Block) : Shape := { s with blocks := blocks }

/-- Putting a block into a group that exists changes only the blocks of the group. -/
theorem put_of_mem (hconcurrent : l.groupId.concurrent ∈ s.concurrent l.groupId.tatami)
    (hsequential : l.groupId.sequential ∈ s.sequential l.groupId.tatami l.groupId.concurrent) :
    s.put b l = s.setBlocks fun g =>
      if g = l.groupId then insertAt b l.pos (s.blocks g) else s.blocks g := by
  refine Shape.ext rfl (funext fun i => ?_) (funext fun i => funext fun j => ?_) rfl
  · show (if i = l.groupId.tatami then _ else _) = s.concurrent i
    split
    · next hi =>
      subst hi
      exact insertNew_of_mem hconcurrent
    · rfl
  · show (if i = l.groupId.tatami ∧ j = l.groupId.concurrent then _ else _) = s.sequential i j
    split
    · next hij =>
      obtain ⟨rfl, rfl⟩ := hij
      exact insertNew_of_mem hsequential
    · rfl

/-- Cleaning a group that is not empty changes nothing. -/
theorem clean_of_ne_nil (hblocks : s.blocks l.groupId ≠ [])
    (hsequential : s.sequential l.groupId.tatami l.groupId.concurrent ≠ []) : s.clean l = s := by
  have hsame : s.cleanSequential l = s := by
    refine Shape.ext rfl rfl (funext fun i => funext fun j => ?_) rfl
    exact if_neg fun h => hblocks h.2.2
  unfold clean
  rw [hsame]
  exact Shape.ext rfl (funext fun i => if_neg fun h => hsequential h.2) rfl rfl

/-- The lists of blocks after a block was inserted at another position. -/
def reinserted (s : Shape) (b : Block) (g₀ : GroupId) (pos : ℕ) (g : GroupId) : List Block :=
  if g = g₀ then insertAt b pos ((s.blocks g).erase b) else s.blocks g

/-- A move within a group changes only its blocks. -/
theorem move_of_eq (hs : s.Sound) (hb : b ∈ s.blocks p.groupId) (heq : l.groupId = p.groupId) :
    s.move b (some p) (some l) = s.setBlocks (s.reinserted b p.groupId l.pos) := by
  have hsequential := mem_sequential_of_mem hs hb
  have hconcurrent := mem_concurrent_of_mem hs hb
  have hput : (s.take b p).put b l = s.setBlocks (s.reinserted b p.groupId l.pos) := by
    rw [put_of_mem (s := s.take b p) (by rw [heq]; exact hconcurrent) (by rw [heq]; exact hsequential)]
    refine Shape.ext rfl rfl rfl (funext fun g => ?_)
    show (if g = l.groupId then insertAt b l.pos (if g = p.groupId then _ else _)
      else if g = p.groupId then _ else s.blocks g) = if g = p.groupId then _ else _
    rw [heq]
    by_cases hg : g = p.groupId
    · rw [if_pos hg, if_pos hg, if_pos hg]
    · rw [if_neg hg, if_neg hg, if_neg hg]
  show ((s.take b p).put b l).clean p = _
  rw [hput]
  refine clean_of_ne_nil ?_ (List.ne_nil_of_mem hsequential)
  show (if p.groupId = p.groupId then _ else _) ≠ []
  rw [if_pos rfl]
  exact insertAt_ne_nil

theorem move_move_iff_of_eq (hs : s.Sound) (hb : b ∈ s.blocks p.groupId)
    (heq : l.groupId = p.groupId) :
    (s.move b (some p) (some l)).move b (some l) (some p) = s ↔ s.Reversible b p (some l) := by
  have hsequential := mem_sequential_of_mem hs hb
  have hconcurrent := mem_concurrent_of_mem hs hb
  have hnot := (hs.nodup_blocks p.groupId).not_mem_erase (a := b)
  have hback : (s.move b (some p) (some l)).move b (some l) (some p) =
      s.setBlocks (s.reinserted b p.groupId p.pos) := by
    rw [move_of_eq hs hb heq]
    have hput : (Shape.take b l (s.setBlocks (s.reinserted b p.groupId l.pos))).put b p =
        s.setBlocks (s.reinserted b p.groupId p.pos) := by
      rw [put_of_mem (s := Shape.take b l (s.setBlocks _)) hconcurrent hsequential]
      refine Shape.ext rfl rfl rfl (funext fun g => ?_)
      show (if g = p.groupId then insertAt b p.pos (if g = l.groupId then
        List.erase (if g = p.groupId then _ else _) b else _) else if g = l.groupId then _ else
        if g = p.groupId then _ else _) = if g = p.groupId then _ else _
      rw [heq]
      by_cases hg : g = p.groupId
      · rw [if_pos hg, if_pos hg, if_pos hg, if_pos hg, hg, erase_insertAt hnot]
      · rw [if_neg hg, if_neg hg, if_neg hg, if_neg hg]
    show (Shape.put b p (Shape.take b l _)).clean l = _
    rw [hput]
    refine clean_of_ne_nil ?_ (by rw [heq]; exact List.ne_nil_of_mem hsequential)
    show (if l.groupId = p.groupId then _ else _) ≠ []
    rw [if_pos heq]
    exact insertAt_ne_nil
  rw [hback, @eq_iff (s.setBlocks (s.reinserted b p.groupId p.pos)) s rfl]
  constructor
  · rintro ⟨hblocks, -, -⟩
    exact ⟨(blocks_back_iff hs hb).1 hblocks, fun h => (h l rfl heq).elim,
      fun h => (h l rfl (by rw [← heq]; exact ⟨rfl, rfl⟩)).elim⟩
  · intro h
    exact ⟨(blocks_back_iff hs hb).2 h.block, fun _ _ => rfl, fun _ => rfl⟩

/-- A block that is put into a group and taken out again leaves the shape. -/
theorem put_move (hs : s.Sound) (hb : ∀ g, b ∉ s.blocks g) :
    (s.move b none (some l)).move b (some l) none = s := by
  have hblocks : ((s.put b l).take b l).blocks = s.blocks := by
    funext g
    show (if g = l.groupId then (if g = l.groupId then insertAt b l.pos (s.blocks g)
      else s.blocks g).erase b else if g = l.groupId then _ else s.blocks g) = _
    by_cases hg : g = l.groupId
    · rw [if_pos hg, if_pos hg]
      exact erase_insertAt (hb g)
    · rw [if_neg hg, if_neg hg]
  have hsequential : (((s.put b l).take b l).cleanSequential l).sequential = s.sequential := by
    funext i j
    show (if i = l.groupId.tatami ∧ j = l.groupId.concurrent ∧ ((s.put b l).take b l).blocks l.groupId = []
      then (if l.Within i j then _ else s.sequential i j).erase _ else if l.Within i j then _ else _) = _
    rw [hblocks]
    by_cases hl : l.Within i j
    · rw [if_pos hl]
      obtain ⟨rfl, rfl⟩ := hl
      have hnew : s.blocks l.groupId = [] ↔
          l.groupId.sequential ∉ s.sequential l.groupId.tatami l.groupId.concurrent := by
        rw [hs.mem_sequential, not_not]
      rw [ite_cond_congr (eq_iff_iff.2 ((and_iff_right rfl).trans ((and_iff_right rfl).trans hnew))), ite_not]
      exact erase_insertNew
    · rw [if_neg hl, if_neg fun h => hl ⟨h.1, h.2.1⟩]
  refine Shape.ext rfl (funext fun i => ?_) hsequential hblocks
  show (if i = l.groupId.tatami ∧ (((s.put b l).take b l).cleanSequential l).sequential l.groupId.tatami
    l.groupId.concurrent = [] then (if i = l.groupId.tatami then
      insertNew l.groupId.concurrent l.getConcurrentGroupHandle.index (s.concurrent i)
      else s.concurrent i).erase l.groupId.concurrent
    else if i = l.groupId.tatami then
      insertNew l.groupId.concurrent l.getConcurrentGroupHandle.index (s.concurrent i)
    else s.concurrent i) = _
  rw [hsequential]
  by_cases hl : i = l.groupId.tatami
  · rw [if_pos hl]
    subst hl
    have hnew : s.sequential l.groupId.tatami l.groupId.concurrent = [] ↔
        l.groupId.concurrent ∉ s.concurrent l.groupId.tatami := by
      rw [hs.mem_concurrent, not_not]
    rw [ite_cond_congr (eq_iff_iff.2 ((and_iff_right rfl).trans hnew)), ite_not]
    exact erase_insertNew
  · rw [if_neg hl, if_neg fun h => hl h.1]

/-- A block that is taken off the tatamis and put back. -/
theorem move_move_iff_of_none (hs : s.Sound) (hb : b ∈ s.blocks p.groupId) :
    (s.move b (some p) none).move b none (some p) = s ↔ s.Reversible b p none := by
  have hsequential := mem_sequential_of_mem hs hb
  have hconcurrent := mem_concurrent_of_mem hs hb
  have htaken : (s.take b p).blocks p.groupId = (s.blocks p.groupId).erase b := if_pos rfl
  have hblocks : ∀ g, ((s.move b (some p) none).move b none (some p)).blocks g =
      if g = p.groupId then insertAt b p.pos ((s.blocks g).erase b) else s.blocks g := by
    intro g
    show (if g = p.groupId then insertAt b p.pos (if g = p.groupId then _ else _)
      else if g = p.groupId then _ else _) = _
    by_cases hg : g = p.groupId
    · rw [if_pos hg, if_pos hg, if_pos hg]
    · rw [if_neg hg, if_neg hg, if_neg hg]
  have hcleaned : ∀ i j, (s.move b (some p) none).sequential i j =
      if p.Within i j ∧ (s.blocks p.groupId).erase b = [] then
        (s.sequential i j).erase p.groupId.sequential
      else s.sequential i j := by
    intro i j
    show (if i = p.groupId.tatami ∧ j = p.groupId.concurrent ∧ (s.take b p).blocks p.groupId = [] then _
      else _) = _
    rw [htaken]
    exact if_congr and_assoc.symm rfl rfl
  have hsequential_back : ∀ i j, ((s.move b (some p) none).move b none (some p)).sequential i j =
      if p.Within i j then insertNew p.groupId.sequential p.getSequentialGroupHandle.index
        ((s.move b (some p) none).sequential i j)
      else (s.move b (some p) none).sequential i j := fun _ _ => rfl
  have hsequential_iff : (∀ i j, ((s.move b (some p) none).move b none (some p)).sequential i j =
      s.sequential i j) ↔ (s.blocks p.groupId = [b] →
        Fits (s.sequential p.groupId.tatami p.groupId.concurrent) p.groupId.sequential
          p.getSequentialGroupHandle.index) := by
    have hiff := insertNew_erase_iff (i := p.getSequentialGroupHandle.index) hsequential
      (hs.nodup_sequential _ _)
    rw [← hiff, ← erase_eq_nil_iff hb]
    constructor
    · intro h hlast
      have := h p.groupId.tatami p.groupId.concurrent
      rwa [hsequential_back, hcleaned, if_pos ⟨rfl, rfl⟩, if_pos ⟨⟨rfl, rfl⟩, hlast⟩] at this
    · intro h i j
      rw [hsequential_back, hcleaned]
      by_cases hp : p.Within i j
      · rw [if_pos hp]
        obtain ⟨rfl, rfl⟩ := hp
        by_cases hlast : (s.blocks p.groupId).erase b = []
        · rw [if_pos ⟨⟨rfl, rfl⟩, hlast⟩]
          exact h hlast
        · rw [if_neg fun h => hlast h.2]
          exact insertNew_of_mem hsequential
      · rw [if_neg hp, if_neg fun h => hp h.1]
  have hnil : (s.move b (some p) none).sequential p.groupId.tatami p.groupId.concurrent = [] ↔
      s.blocks p.groupId = [b] ∧
        s.sequential p.groupId.tatami p.groupId.concurrent = [p.groupId.sequential] := by
    rw [hcleaned, ← erase_eq_nil_iff hb, ← erase_eq_nil_iff hsequential]
    by_cases hlast : (s.blocks p.groupId).erase b = []
    · rw [if_pos ⟨⟨rfl, rfl⟩, hlast⟩]
      simp [hlast]
    · rw [if_neg fun h => hlast h.2]
      simp [hlast, List.ne_nil_of_mem hsequential]
  have hconcurrent_back : ∀ i, ((s.move b (some p) none).move b none (some p)).concurrent i =
      if i = p.groupId.tatami then insertNew p.groupId.concurrent p.getConcurrentGroupHandle.index
        (if i = p.groupId.tatami ∧
            (s.move b (some p) none).sequential p.groupId.tatami p.groupId.concurrent = [] then
          (s.concurrent i).erase p.groupId.concurrent
        else s.concurrent i)
      else if i = p.groupId.tatami ∧
          (s.move b (some p) none).sequential p.groupId.tatami p.groupId.concurrent = [] then
        (s.concurrent i).erase p.groupId.concurrent
      else s.concurrent i := fun _ => rfl
  have hconcurrent_iff : (∀ i, ((s.move b (some p) none).move b none (some p)).concurrent i =
      s.concurrent i) ↔ (s.blocks p.groupId = [b] →
        s.sequential p.groupId.tatami p.groupId.concurrent = [p.groupId.sequential] →
        Fits (s.concurrent p.groupId.tatami) p.groupId.concurrent p.getConcurrentGroupHandle.index) := by
    have hiff := insertNew_erase_iff (i := p.getConcurrentGroupHandle.index) hconcurrent
      (hs.nodup_concurrent _)
    rw [← hiff]
    constructor
    · intro h hblocks hsequential
      have := h p.groupId.tatami
      rwa [hconcurrent_back, if_pos rfl, if_pos ⟨rfl, hnil.2 ⟨hblocks, hsequential⟩⟩] at this
    · intro h i
      rw [hconcurrent_back]
      by_cases hi : i = p.groupId.tatami
      · rw [if_pos hi]
        subst hi
        by_cases hlast : (s.move b (some p) none).sequential p.groupId.tatami p.groupId.concurrent = []
        · rw [if_pos ⟨rfl, hlast⟩]
          exact h (hnil.1 hlast).1 (hnil.1 hlast).2
        · rw [if_neg fun h => hlast h.2]
          exact insertNew_of_mem hconcurrent
      · rw [if_neg hi, if_neg fun h => hi h.1]
  rw [@eq_iff ((s.move b (some p) none).move b none (some p)) s rfl, hsequential_iff, hconcurrent_iff]
  simp only [hblocks]
  rw [blocks_back_iff hs hb]
  exact ⟨fun h => ⟨h.1, fun _ => h.2.1, fun _ => h.2.2⟩,
    fun h => ⟨h.block, h.sequential (by simp), h.concurrent (by simp)⟩⟩

/-- A move and the move back restore the shape exactly if the indices of the source fit. -/
theorem move_move_iff (hs : s.Sound) (source target : Option BlockLocation)
    (hsource : ∀ p, source = some p → b ∈ s.blocks p.groupId)
    (hnone : source = none → ∀ g, b ∉ s.blocks g) :
    (s.move b source target).move b target source = s ↔
      ∀ p, source = some p → s.Reversible b p target := by
  cases source with
  | none =>
    refine ⟨fun _ => by simp, fun _ => ?_⟩
    cases target with
    | none => rfl
    | some l => exact put_move hs (hnone rfl)
  | some p =>
    have hb := hsource p rfl
    simp only [Option.some.injEq, forall_eq']
    cases target with
    | none => exact move_move_iff_of_none hs hb
    | some l =>
      by_cases heq : l.groupId = p.groupId
      · exact move_move_iff_of_eq hs hb heq
      · exact move_move_iff_of_ne hs hb heq

end Shape

/-! ### The action -/

namespace SetTatamiLocationAction

/-- Running the action and undoing it restores the layout. -/
def Restores (a : SetTatamiLocationAction) (t : TournamentStore) : Prop :=
  ∃ a₁ t₁ a₂ t₂, a.redoImpl t = .ok a₁ t₁ ∧ a₁.undoImpl t₁ = .ok a₂ t₂ ∧
    t₂.tatamis.layout = t.tatamis.layout

variable {t : TournamentStore} {a : SetTatamiLocationAction} {c : CategoryStore}

/-- An action that finds its location not allowed does nothing. -/
theorem restores_of_not_allowed
    (h : ∀ c, t.categories a.block.1 = some c → allowed t c a.block a.location = false) : a.Restores t := by
  refine ⟨{ a with positionSet := false }, t, { a with positionSet := false }, t, ?_, rfl, rfl⟩
  unfold redoImpl
  refine bind_ok.2 ⟨t, t, get_ok.2 ⟨rfl, rfl⟩, ?_⟩
  cases hc : t.categories a.block.1 with
  | none => rfl
  | some c =>
    simp only
    rw [if_neg (by rw [h c hc]; simp)]
    rfl

theorem redoImpl_of_moveBlock (hc : t.categories a.block.1 = some c)
    (hallowed : allowed t c a.block a.location = true) {tatamis : TatamiList}
    (hmove : t.tatamis.moveBlock t.categories a.block (c.getLocation a.block.2) a.location = .ok tatamis) :
    a.redoImpl t = .ok { a with positionSet := true, oldLocation := c.getLocation a.block.2 }
      (({ t with tatamis := tatamis } : TournamentStore).setCategory a.block.1
        (c.setLocation a.block.2 a.location)) := by
  unfold redoImpl
  refine bind_ok.2 ⟨t, t, get_ok.2 ⟨rfl, rfl⟩, ?_⟩
  rw [hc]
  simp only
  rw [if_pos hallowed]
  refine bind_ok.2 ⟨(), _, editTatamis_ok.2 ⟨tatamis, hmove, rfl⟩, ?_⟩
  exact bind_ok.2 ⟨(), _, editCategory_ok.2 ⟨c, _, hc, rfl, rfl⟩, rfl⟩

theorem undoImpl_of_moveBlock (hset : a.positionSet = true) (hc : t.categories a.block.1 = some c)
    {tatamis : TatamiList}
    (hmove : t.tatamis.moveBlock t.categories a.block a.location a.oldLocation = .ok tatamis) :
    a.undoImpl t = .ok a (({ t with tatamis := tatamis } : TournamentStore).setCategory a.block.1
      (c.setLocation a.block.2 a.oldLocation)) := by
  unfold undoImpl
  rw [if_pos hset]
  refine bind_ok.2 ⟨(), _, editTatamis_ok.2 ⟨tatamis, hmove, rfl⟩, ?_⟩
  exact bind_ok.2 ⟨(), _, editCategory_ok.2 ⟨c, _, hc, rfl, rfl⟩, rfl⟩

/-- The category of a block that is placed elsewhere is still indexed. -/
theorem indexed_moved (hindexed : t.Indexed) (hc : t.categories a.block.1 = some c) (tatamis : TatamiList)
    (target : Option BlockLocation) :
    (({ t with tatamis := tatamis } : TournamentStore).setCategory a.block.1
      (c.setLocation a.block.2 target)).Indexed := by
  refine hindexed.of_keys ?_
  exact (layoutBlind_keys.location (t := { t with tatamis := tatamis }) hc).trans
    (layoutBlind_keys.tatamis t tatamis)

/-- In a tournament with a sound layout, the action and its undo return, and the layout at the end is
that after the two moves. -/
theorem moves (ht : LayoutSound t) (hindexed : t.Indexed) (hc : t.categories a.block.1 = some c)
    (hallowed : allowed t c a.block a.location = true) :
    ∃ a₁ t₁ a₂ t₂, a.redoImpl t = .ok a₁ t₁ ∧ a₁.undoImpl t₁ = .ok a₂ t₂ ∧
      t₂.tatamis.layout = (t.tatamis.layout.move a.block (c.getLocation a.block.2) a.location).move a.block
        a.location (c.getLocation a.block.2) ∧ Placed t₂ := by
  have hplace : t.outline.place a.block = (c.getLocation a.block.2).map (·.groupId) := by
    rw [show a.block = (a.block.1, a.block.2) from rfl, place_outline, hc]
    rfl
  have hread : t.categories.Readable a.block :=
    ⟨c, hc, hindexed.category _ c hc, hindexed.index _ c hc⟩
  obtain ⟨tatamis₁, hmove₁⟩ := (readable_of_placed ht.placed hindexed).moveBlock hread
    (c.getLocation a.block.2) a.location fun k hk =>
      (ht.placed.mem_blocks _ _).2 (by rw [hplace, hk]; rfl)
  have htatami : ∀ l, a.location = some l → l.groupId.tatami ∈ t.outline.tatamis :=
    fun l hl => tatami_mem_of_allowed ht.placed (hl ▸ hallowed)
  obtain ⟨hplaced₁, houtline₁⟩ := placed_moveBlock ht.placed hc rfl htatami hmove₁
  have hplace₁ : (({ t with tatamis := tatamis₁ } : TournamentStore).setCategory a.block.1
      (c.setLocation a.block.2 a.location)).outline.place a.block = a.location.map (·.groupId) := by
    rw [houtline₁, Outline.place_setPlace (by rw [categories_outline hc]; simp), Function.update_self]
  have hindexed₁ := indexed_moved hindexed hc tatamis₁ a.location
  have hc₁ : (({ t with tatamis := tatamis₁ } : TournamentStore).setCategory a.block.1
      (c.setLocation a.block.2 a.location)).categories a.block.1 = some (c.setLocation a.block.2 a.location) :=
    categories_setCategory_self _ _ _
  obtain ⟨tatamis₂, hmove₂⟩ := (readable_of_placed hplaced₁ hindexed₁).moveBlock
    (b := a.block) ⟨_, hc₁, hindexed₁.category _ _ hc₁, hindexed₁.index _ _ hc₁⟩
    a.location (c.getLocation a.block.2) fun k hk =>
      (hplaced₁.mem_blocks _ _).2 (by rw [hplace₁, hk]; rfl)
  have hback : ∀ l, c.getLocation a.block.2 = some l → l.groupId.tatami ∈
      (({ t with tatamis := tatamis₁ } : TournamentStore).setCategory a.block.1
        (c.setLocation a.block.2 a.location)).outline.tatamis := by
    intro l hl
    rw [houtline₁]
    refine ht.placed.tatami_mem (b := a.block) ?_
    rw [hplace, hl]
    rfl
  have hlocation : ((c.setLocation a.block.2 a.location).getLocation a.block.2).map (·.groupId) =
      a.location.map (·.groupId) := by
    cases a.block.2 <;> rfl
  obtain ⟨hplaced₂, -⟩ := placed_moveBlock hplaced₁ hc₁ hlocation hback hmove₂
  have hundo := undoImpl_of_moveBlock
    (a := { a with positionSet := true, oldLocation := c.getLocation a.block.2 }) rfl hc₁ hmove₂
  refine ⟨_, _, _, _, redoImpl_of_moveBlock hc hallowed hmove₁, hundo, ?_, hplaced₂⟩
  show tatamis₂.layout = _
  rw [TatamiList.layout_moveBlock hmove₂]
  exact congrArg (Layout.move a.block a.location (c.getLocation a.block.2)) (TatamiList.layout_moveBlock hmove₁)

/-- The layout is restored exactly if the indices of the old location fit. -/
theorem restores_iff (ht : LayoutSound t) (hindexed : t.Indexed) :
    a.Restores t ↔ ∀ c p, t.categories a.block.1 = some c → allowed t c a.block a.location = true →
      c.getLocation a.block.2 = some p →
      t.tatamis.layout.shape.Reversible a.block p a.location := by
  by_cases hnone : ∀ c, t.categories a.block.1 = some c → allowed t c a.block a.location = false
  · refine ⟨fun _ c p hc hallowed _ => ?_, fun _ => restores_of_not_allowed hnone⟩
    rw [hnone c hc] at hallowed
    cases hallowed
  · obtain ⟨c, hc, hallowed⟩ : ∃ c, t.categories a.block.1 = some c ∧
        allowed t c a.block a.location = true := by
      simpa using hnone
    obtain ⟨a₁, t₁, a₂, t₂, hredo, hundo, hlayout, hplaced⟩ := moves ht hindexed hc hallowed
    have hordered := ht.placed.ordered
    have hplace : t.outline.place a.block = (c.getLocation a.block.2).map (·.groupId) := by
      rw [show a.block = (a.block.1, a.block.2) from rfl, place_outline, hc]
      rfl
    have htarget : ∀ l, a.location = some l → l.groupId.tatami ∈ t.tatamis.layout.ids :=
      fun l hl => tatami_mem_of_allowed ht.placed (hl ▸ hallowed)
    have hids : (t.tatamis.layout.move a.block (c.getLocation a.block.2) a.location).ids =
        t.tatamis.layout.ids := Layout.ids_move fun l hl => hordered.tatamis.mem_ids.1 (htarget l hl)
    have hsource : ∀ l, c.getLocation a.block.2 = some l → l.groupId.tatami ∈
        (t.tatamis.layout.move a.block (c.getLocation a.block.2) a.location).ids := by
      intro l hl
      rw [hids]
      exact ht.placed.tatami_mem (b := a.block) (by rw [hplace, hl]; rfl)
    have hshape : t₂.tatamis.layout.shape =
        (t.tatamis.layout.shape.move a.block (c.getLocation a.block.2) a.location).move a.block a.location
          (c.getLocation a.block.2) := by
      rw [hlayout, Layout.shape_move (hordered.move _ _ _) _ _ hsource,
        Layout.shape_move hordered _ _ htarget]
    have hmove := Shape.move_move_iff (b := a.block)
      (Shape.sound_of_holds ht.placed) (c.getLocation a.block.2) a.location
      (fun p hp => (ht.placed.mem_blocks a.block p.groupId).2 (by rw [hplace, hp]; rfl))
      fun hunplaced g hmem => by
        have hsome := (ht.placed.mem_blocks a.block g).1 hmem
        rw [hplace, hunplaced] at hsome
        cases hsome
    have hrestores : a.Restores t ↔ t₂.tatamis.layout = t.tatamis.layout := by
      constructor
      · rintro ⟨b₁, u₁, b₂, u₂, hb₁, hb₂, hback⟩
        rw [hredo] at hb₁
        cases hb₁
        rw [hundo] at hb₂
        cases hb₂
        exact hback
      · exact fun hback => ⟨a₁, t₁, a₂, t₂, hredo, hundo, hback⟩
    rw [hrestores]
    constructor
    · intro hback c' p hc' _ hp
      cases hc.symm.trans hc'
      exact hmove.1 (by rw [← hshape, hback]) p hp
    · intro h
      refine Layout.ext_shape hplaced.ordered hordered ?_
      rw [hshape]
      exact hmove.2 fun p hp => h c p hc hallowed hp

/-- In every session, running the action and undoing it restores the layout exactly if the indices of
the old location of the block fit the layout. -/
theorem redo_undo_restores_iff (s : Session) (h : s.Constructed) (a : SetTatamiLocationAction) :
    a.Restores s.tournament ↔ ∀ c p, s.tournament.categories a.block.1 = some c →
      allowed s.tournament c a.block a.location = true → c.getLocation a.block.2 = some p →
      s.tournament.tatamis.layout.shape.Reversible a.block p a.location :=
  restores_iff h.layoutSound h.indexed

/-- The only block of a group is taken off the tatamis and put back. -/
theorem redo_undo_restores_placeBlock : ∃ s, Runs.run Session.next placeBlock {} = some s ∧
    Restores { block := (⟨1⟩, .elimination), location := none } s.tournament := by
  have hevents : ∀ e ∈ placeBlock, e.Constructed := by
    simp only [placeBlock, List.forall_mem_cons]
    exact ⟨trivial, SetTatamiCountAction.constructed_singleton _, trivial, by simp⟩
  refine ⟨⟨_, _, _⟩, rfl,
    (redo_undo_restores_iff ⟨_, _, _⟩ (Session.constructed_of_run hevents rfl) _).2 ?_⟩
  intro c p hc _ hp
  cases hc
  cases hp
  exact ⟨fits_singleton, fun _ _ => fits_singleton, fun _ _ _ => fits_singleton⟩

/-- A run that places the blocks of two categories in one group, the second one in front. -/
def placeInFront : List Session.Event :=
  [.redo (.addCategory ⟨⟨1⟩, "", .twentyEighteen, .pool⟩),
    .redo (.addCategory ⟨⟨2⟩, "", .twentyEighteen, .pool⟩),
    .redo (.setTatamiCount { locations := [⟨⟨⟨1⟩, 0⟩⟩] }),
    .redo (.setTatamiLocation
      { block := (⟨1⟩, .elimination)
        location := some ⟨⟨⟨⟨⟨⟨1⟩, 0⟩⟩, ⟨⟨2⟩, 0⟩⟩, ⟨⟨3⟩, 0⟩⟩, 0⟩ }),
    .redo (.setTatamiLocation
      { block := (⟨2⟩, .elimination)
        location := some ⟨⟨⟨⟨⟨⟨1⟩, 0⟩⟩, ⟨⟨2⟩, 0⟩⟩, ⟨⟨3⟩, 0⟩⟩, 0⟩ })]

/-- The first block still has the index of the place where it was put, and comes back in front of the
second one. -/
theorem redo_undo_placeInFront : ∃ s, Runs.run Session.next placeInFront {} = some s ∧ s.Constructed ∧
    ¬ Restores { block := (⟨1⟩, .elimination), location := none } s.tournament := by
  have hevents : ∀ e ∈ placeInFront, e.Constructed := by
    simp only [placeInFront, List.forall_mem_cons]
    exact ⟨trivial, trivial, SetTatamiCountAction.constructed_singleton _, trivial, trivial, by simp⟩
  refine ⟨⟨_, _, _⟩, rfl, Session.constructed_of_run hevents rfl, ?_⟩
  rintro ⟨a₁, t₁, a₂, t₂, h₁, h₂, hlayout⟩
  cases h₁
  cases h₂
  have hblocks := congrArg (fun L => Layout.blocks L ⟨⟨1⟩, ⟨2⟩, ⟨3⟩⟩) hlayout
  revert hblocks
  decide

end SetTatamiLocationAction

end JudoAssistant
