import JudoAssistant.Lib.Reinsert
import JudoAssistant.Tournament.Layout

/-!
# The shape of a layout

A layout is determined by the order of the tatamis, of the concurrent groups on each tatami, of the
sequential groups in each concurrent group and of the blocks in each sequential group.
-/

namespace JudoAssistant

open Reinsert

/-- The lists that a layout consists of. -/
@[ext] structure Shape where
  tatamis : List PositionId
  concurrent : PositionId → List PositionId
  sequential : PositionId → PositionId → List PositionId
  blocks : GroupId → List Block

def Layout.shape (L : Layout) : Shape where
  tatamis := L.ids
  concurrent i := ((L.elements i).map (·.ids)).getD []
  sequential i j := ((L.group i j).map (·.ids)).getD []
  blocks := L.blocks

namespace Shape

/-- Take a block out of its group. -/
def take (b : Block) (l : BlockLocation) (s : Shape) : Shape :=
  { s with blocks := fun g => if g = l.groupId then (s.blocks g).erase b else s.blocks g }

/-- Put a block into a group, which is added where it does not exist. -/
def put (b : Block) (l : BlockLocation) (s : Shape) : Shape where
  tatamis := s.tatamis
  concurrent i := if i = l.groupId.tatami then
      insertNew l.groupId.concurrent l.getConcurrentGroupHandle.index (s.concurrent i)
    else s.concurrent i
  sequential i j := if i = l.groupId.tatami ∧ j = l.groupId.concurrent then
      insertNew l.groupId.sequential l.getSequentialGroupHandle.index (s.sequential i j)
    else s.sequential i j
  blocks g := if g = l.groupId then insertAt b l.pos (s.blocks g) else s.blocks g

/-- Erase the sequential group of a location, if it has no blocks. -/
def cleanSequential (l : BlockLocation) (s : Shape) : Shape :=
  { s with sequential := fun i j =>
      if i = l.groupId.tatami ∧ j = l.groupId.concurrent ∧ s.blocks l.groupId = [] then
        (s.sequential i j).erase l.groupId.sequential
      else s.sequential i j }

/-- Erase the concurrent group of a location, if it has no sequential groups. -/
def cleanConcurrent (l : BlockLocation) (s : Shape) : Shape :=
  { s with concurrent := fun i =>
      if i = l.groupId.tatami ∧ s.sequential l.groupId.tatami l.groupId.concurrent = [] then
        (s.concurrent i).erase l.groupId.concurrent
      else s.concurrent i }

def clean (l : BlockLocation) (s : Shape) : Shape := (s.cleanSequential l).cleanConcurrent l

/-- Move a block. -/
def move (b : Block) (source target : Option BlockLocation) (s : Shape) : Shape :=
  let s := source.elim s fun l => s.take b l
  let s := target.elim s fun l => s.put b l
  source.elim s fun l => s.clean l

end Shape

/-- Two sound position managers with the same ids differ in an element. -/
theorem PositionManager.Sound.ext {α : Type} {p q : PositionManager α} (hp : p.Sound) (hq : q.Sound)
    (hids : p.ids = q.ids) (h : ∀ i a a', p.elements i = some a → q.elements i = some a' → a = a') :
    p = q := by
  refine PositionManager.ext hids (funext fun i => ?_)
  have hi : (p.elements i).isSome ↔ (q.elements i).isSome := by rw [← hp.keys, ← hq.keys, hids]
  cases ha : p.elements i with
  | none =>
    rw [ha] at hi
    cases ha' : q.elements i with
    | none => rfl
    | some a' => simp [ha'] at hi
  | some a =>
    rw [ha] at hi
    cases ha' : q.elements i with
    | none => simp [ha'] at hi
    | some a' => rw [h i a a' ha ha']

namespace Layout

variable {L L' : Layout}

theorem blocks_of_group {i j k : PositionId} {G : GroupLayout} {bs : List Block}
    (hG : L.group i j = some G) (hbs : G.elements k = some bs) : L.blocks ⟨i, j, k⟩ = bs := by
  unfold blocks
  rw [hG, Option.bind_some, hbs]
  rfl

theorem concurrent_shape {i : PositionId} {M : PositionManager GroupLayout} (hM : L.elements i = some M) :
    L.shape.concurrent i = M.ids := by
  show ((L.elements i).map (·.ids)).getD [] = _
  rw [hM]
  rfl

theorem sequential_shape {i j : PositionId} {G : GroupLayout} (hG : L.group i j = some G) :
    L.shape.sequential i j = G.ids := by
  show ((L.group i j).map (·.ids)).getD [] = _
  rw [hG]
  rfl

/-- A layout is determined by its shape. -/
theorem ext_shape (h : L.Ordered) (h' : L'.Ordered) (hshape : L.shape = L'.shape) : L = L' := by
  refine h.tatamis.ext h'.tatamis (congrArg Shape.tatamis hshape) fun i M M' hM hM' => ?_
  have hMids : M.ids = M'.ids := by rw [← concurrent_shape hM, ← concurrent_shape hM', hshape]
  refine (h.concurrent i M hM).ext (h'.concurrent i M' hM') hMids fun j G G' hG hG' => ?_
  have hG := Ordered.group_of_elements hM hG
  have hG' := Ordered.group_of_elements hM' hG'
  have hGids : G.ids = G'.ids := by rw [← sequential_shape hG, ← sequential_shape hG', hshape]
  refine (h.sequential i j G hG).ext (h'.sequential i j G' hG') hGids fun k bs bs' hbs hbs' => ?_
  rw [← blocks_of_group hG hbs, ← blocks_of_group hG' hbs']
  exact congrFun (congrArg Shape.blocks hshape) _

/-! ### Operations -/

theorem shape_take (b : Block) (l : BlockLocation) :
    (L.take b l.sequentialGroup).shape = L.shape.take b l := by
  refine Shape.ext rfl (funext fun i => ?_) (funext fun i => funext fun j => ?_) (funext fun g => ?_)
  · show ((PositionManager.elements (L.editBlocks _ _) i).map (·.ids)).getD [] = _
    unfold editBlocks editGroup
    rw [PositionManager.elements_adjust]
    split
    · rw [Option.map_map]
      rfl
    · rfl
  · show ((group (L.editBlocks _ _) i j).map (·.ids)).getD [] = _
    unfold editBlocks
    rw [group_editGroup]
    split
    · rw [Option.map_map]
      rfl
    · rfl
  · exact blocks_take b l.sequentialGroup g

theorem ids_insert_eq {α : Type} {p : PositionManager α} (hp : p.Sound) (handle : PositionHandle) (a : α) :
    (p.insert handle a).ids = insertNew handle.id handle.index p.ids := by
  have hkeys : p.contains handle = true ↔ handle.id ∈ p.ids := (hp.keys _).symm
  unfold PositionManager.insert insertNew
  by_cases hcontains : handle.id ∈ p.ids
  · rw [if_pos hcontains, if_pos (hkeys.2 hcontains)]
  · rw [if_neg hcontains, if_neg fun h => hcontains (hkeys.1 h), insertAt, Nat.min_comm]

theorem shape_put (h : L.Ordered) (b : Block) {l : BlockLocation} (hl : l.groupId.tatami ∈ L.ids) :
    (L.put b l).shape = L.shape.put b l := by
  obtain ⟨M, hM⟩ := Option.ne_none_iff_exists'.1 (h.tatamis.mem_ids.1 hl)
  have hinsert : PositionManager.insert L l.getTatamiHandle {} = L := PositionManager.insert_of_some hM
  refine Shape.ext ?_ (funext fun i => ?_) (funext fun i => funext fun j => ?_) (funext fun g => ?_)
  · show (PositionManager.insert L l.getTatamiHandle {}).ids = L.ids
    rw [hinsert]
  · show ((PositionManager.elements (editBlocks _ _ _) i).map (·.ids)).getD [] =
      if i = l.groupId.tatami then
        insertNew l.groupId.concurrent l.getConcurrentGroupHandle.index (L.shape.concurrent i)
      else L.shape.concurrent i
    unfold editBlocks editGroup create
    rw [PositionManager.elements_adjust, PositionManager.elements_adjust,
      show PositionManager.insert L l.sequentialGroup.concurrentGroup.tatami.handle {} = L from hinsert]
    by_cases hi : i = l.groupId.tatami
    · have hi' : i = l.sequentialGroup.concurrentGroup.tatami.handle.id := hi
      rw [if_pos hi, if_pos hi', if_pos hi', hi, concurrent_shape hM, hM]
      exact ids_insert_eq (h.concurrent _ M hM) _ _
    · have hi' : ¬ i = l.sequentialGroup.concurrentGroup.tatami.handle.id := hi
      rw [if_neg hi, if_neg hi', if_neg hi']
      rfl
  · show ((group (editBlocks _ _ _) i j).map (·.ids)).getD [] =
      if i = l.groupId.tatami ∧ j = l.groupId.concurrent then
        insertNew l.groupId.sequential l.getSequentialGroupHandle.index (L.shape.sequential i j)
      else L.shape.sequential i j
    unfold editBlocks
    rw [group_editGroup, group_create]
    by_cases hij : i = l.groupId.tatami ∧ j = l.groupId.concurrent
    · have hij' : i = l.sequentialGroup.concurrentGroup.tatami.handle.id ∧
          j = l.sequentialGroup.concurrentGroup.handle.id := hij
      rw [if_pos hij, if_pos hij', if_pos hij']
      have hids : ((L.group i j).getD {}).ids = L.shape.sequential i j := by
        show _ = ((L.group i j).map (·.ids)).getD []
        cases L.group i j <;> rfl
      rw [← hids]
      exact ids_insert_eq (sound_getD_group h i j) _ _
    · have hij' : ¬ (i = l.sequentialGroup.concurrentGroup.tatami.handle.id ∧
          j = l.sequentialGroup.concurrentGroup.handle.id) := hij
      rw [if_neg hij, if_neg hij', if_neg hij']
      rfl
  · exact blocks_put b l g

theorem shape_cleanSequential (h : L.Ordered) (l : BlockLocation) :
    (L.cleanSequential l.sequentialGroup).shape = L.shape.cleanSequential l := by
  refine Shape.ext rfl (funext fun i => ?_) (funext fun i => funext fun j => ?_) (funext fun g => ?_)
  · show ((PositionManager.elements (editGroup _ _ _) i).map (·.ids)).getD [] = _
    unfold editGroup
    rw [PositionManager.elements_adjust]
    split
    · rw [Option.map_map]
      rfl
    · rfl
  · show ((group (editGroup _ _ _) i j).map (·.ids)).getD [] =
      if i = l.groupId.tatami ∧ j = l.groupId.concurrent ∧ L.blocks l.groupId = [] then
        (L.shape.sequential i j).erase l.groupId.sequential
      else L.shape.sequential i j
    rw [group_editGroup]
    by_cases hij : i = l.groupId.tatami ∧ j = l.groupId.concurrent
    · have hij' : i = l.sequentialGroup.concurrentGroup.tatami.handle.id ∧
          j = l.sequentialGroup.concurrentGroup.handle.id := hij
      rw [if_pos hij']
      obtain ⟨rfl, rfl⟩ := hij
      cases hG : L.group l.groupId.tatami l.groupId.concurrent with
      | none =>
        have hnil : L.shape.sequential l.groupId.tatami l.groupId.concurrent = [] := by
          show ((L.group _ _).map _).getD [] = _
          rw [hG]
          rfl
        rw [hnil]
        split <;> rfl
      | some G =>
        rw [sequential_shape hG]
        have hblocks : L.blocks l.groupId = (G.elements l.groupId.sequential).getD [] := by
          unfold blocks
          rw [hG]
          rfl
        rw [hblocks]
        show PositionManager.ids (if G.elements l.groupId.sequential = some [] then _ else G) = _
        cases hbs : G.elements l.groupId.sequential with
        | none =>
          have hnot : l.groupId.sequential ∉ G.ids := by
            rw [(h.sequential _ _ G hG).mem_ids, hbs]
            simp
          rw [if_neg (by simp), List.erase_of_not_mem hnot, ite_self]
        | some bs =>
          by_cases hnil : bs = []
          · rw [if_pos (by rw [hnil]), if_pos ⟨rfl, rfl, hnil⟩]
            exact PositionManager.Sound.ids_erase _ _
          · rw [if_neg (by simpa using hnil), if_neg (by simpa using hnil)]
    · have hij' : ¬ (i = l.sequentialGroup.concurrentGroup.tatami.handle.id ∧
          j = l.sequentialGroup.concurrentGroup.handle.id) := hij
      rw [if_neg hij', if_neg fun hall => hij ⟨hall.1, hall.2.1⟩]
      rfl
  · exact blocks_cleanSequential h l.sequentialGroup g

theorem shape_cleanConcurrent (h : L.Ordered) (l : BlockLocation) :
    (L.cleanConcurrent l.sequentialGroup.concurrentGroup).shape = L.shape.cleanConcurrent l := by
  refine Shape.ext rfl (funext fun i => ?_) (funext fun i => funext fun j => ?_) (funext fun g => ?_)
  · show ((PositionManager.elements (L.cleanConcurrent _) i).map (·.ids)).getD [] =
      if i = l.groupId.tatami ∧ L.shape.sequential l.groupId.tatami l.groupId.concurrent = [] then
        (L.shape.concurrent i).erase l.groupId.concurrent
      else L.shape.concurrent i
    unfold cleanConcurrent
    rw [PositionManager.elements_adjust]
    by_cases hi : i = l.groupId.tatami
    · have hi' : i = l.sequentialGroup.concurrentGroup.tatami.handle.id := hi
      rw [if_pos hi']
      subst hi
      cases hM : L.elements l.groupId.tatami with
      | none =>
        have hnil : L.shape.concurrent l.groupId.tatami = [] := by
          show ((L.elements _).map _).getD [] = _
          rw [hM]
          rfl
        rw [hnil]
        split <;> rfl
      | some M =>
        have hM' := h.concurrent _ M hM
        rw [concurrent_shape hM]
        cases hG : M.elements l.groupId.concurrent with
        | none =>
          have hnot : l.groupId.concurrent ∉ M.ids := by
            rw [hM'.mem_ids, hG]
            simp
          rw [List.erase_of_not_mem hnot, ite_self]
          have hG' : M.elements l.sequentialGroup.concurrentGroup.handle.id = none := hG
          simp only [Option.map_some, hG']
          rfl
        | some G =>
          rw [sequential_shape (Ordered.group_of_elements hM hG)]
          have hG' : M.elements l.sequentialGroup.concurrentGroup.handle.id = some G := hG
          simp only [Option.map_some, hG']
          show PositionManager.ids (if G.ids = [] then _ else _) = _
          by_cases hnil : G.ids = []
          · rw [if_pos hnil, if_pos ⟨trivial, hnil⟩]
            exact PositionManager.Sound.ids_erase _ _
          · rw [if_neg hnil, if_neg fun hall => hnil hall.2]
    · have hi' : ¬ i = l.sequentialGroup.concurrentGroup.tatami.handle.id := hi
      rw [if_neg hi', if_neg fun hall => hi hall.1]
      rfl
  · show ((group (L.cleanConcurrent _) i j).map (·.ids)).getD [] = L.shape.sequential i j
    rw [group_cleanConcurrent h]
    split
    · show _ = ((L.group i j).map (·.ids)).getD []
      cases L.group i j with
      | none => rfl
      | some G => by_cases hnil : G.ids = [] <;> simp [Option.filter, hnil]
    · rfl
  · exact blocks_cleanConcurrent h l.sequentialGroup.concurrentGroup g

/-- Moving a block in a layout moves it in its shape. -/
theorem shape_move (h : L.Ordered) (b : Block) (source : Option BlockLocation)
    {target : Option BlockLocation} (htarget : ∀ l, target = some l → l.groupId.tatami ∈ L.ids) :
    (L.move b source target).shape = L.shape.move b source target := by
  have hclean : ∀ {L : Layout} (_ : L.Ordered) (l : BlockLocation),
      (L.clean l.sequentialGroup).shape = L.shape.clean l := by
    intro L h l
    unfold clean Shape.clean
    rw [shape_cleanConcurrent (h.cleanSequential _), shape_cleanSequential h]
  cases source with
  | none =>
    cases target with
    | none => rfl
    | some l => exact shape_put h b (htarget l rfl)
  | some k =>
    cases target with
    | none =>
      show (Layout.clean _ (L.take b k.sequentialGroup)).shape = _
      rw [hclean (h.take b _), shape_take]
      rfl
    | some l =>
      show (Layout.clean _ ((L.take b k.sequentialGroup).put b l)).shape = _
      rw [hclean ((h.take b _).put b l), shape_put (h.take b _) b (htarget l rfl), shape_take]
      rfl

end Layout

end JudoAssistant
