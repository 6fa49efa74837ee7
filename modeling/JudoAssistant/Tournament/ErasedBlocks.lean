import Mathlib.Data.Prod.Lex
import JudoAssistant.Tournament.LayoutActions

/-!
# Erasing categories from the layout

`EraseCategoriesAction` takes the blocks of the categories off the tatamis in the order of their
positions, and `undoImpl` puts them back in that order.  The positions are refreshed first, so that
they are those of the layout before the action.
-/

namespace JudoAssistant

open Effect Exec TournamentStore

/-! ### Refreshed locations -/

namespace Layout

/-- The block is at the location, and the location has the current positions. -/
structure At (L : Layout) (b : Block) (l : BlockLocation) : Prop where
  tatami : L.ids[l.getTatamiHandle.index]? = some l.groupId.tatami
  concurrent : ∃ M, L.elements l.groupId.tatami = some M ∧
    M.ids[l.getConcurrentGroupHandle.index]? = some l.groupId.concurrent
  sequential : ∃ G, L.group l.groupId.tatami l.groupId.concurrent = some G ∧
    G.ids[l.getSequentialGroupHandle.index]? = some l.groupId.sequential
  block : (L.blocks l.groupId)[l.pos]? = some b

end Layout

theorem PositionManager.getIndex_ok {α : Type} {p : PositionManager α} {handle : PositionHandle} {i : ℕ}
    (h : p.getIndex handle = .ok i) : p.ids[i]? = some handle.id := by
  simp only [getIndex, except_bind_ok, check_ok, except_pure_ok, decide_eq_true_eq] at h
  obtain ⟨-, hmem, rfl⟩ := h
  have hlt := List.idxOf_lt_length_of_mem hmem
  rw [List.getElem?_eq_getElem hlt, List.getElem_idxOf]

/-- `TatamiList::refreshLocation` keeps the ids and computes the current positions. -/
theorem TatamiList.refreshLocation_ok {t : TatamiList} {l l' : BlockLocation} {b : Block}
    (h : t.refreshLocation l b = .ok l') : l'.groupId = l.groupId ∧ t.layout.At b l' := by
  simp only [refreshLocation, except_bind_ok, PositionManager.at'_ok, check_ok, except_pure_ok,
    decide_eq_true_eq] at h
  obtain ⟨i, hi, tatami, htatami, j, hj, concurrent, hconcurrent, k, hk, sequential, hsequential, -, hmem,
    rfl⟩ := h
  have hM : t.layout.elements l.groupId.tatami = some tatami.layout := by
    show Option.map _ (t.tatamis.elements l.getTatamiHandle.id) = _
    rw [htatami]
    rfl
  have hG : t.layout.group l.groupId.tatami l.groupId.concurrent = some concurrent.layout := by
    refine Layout.Ordered.group_of_elements hM ?_
    show Option.map _ (tatami.groups.elements l.getConcurrentGroupHandle.id) = _
    rw [hconcurrent]
    rfl
  have hblocks : t.layout.blocks l.groupId = sequential.blocks := by
    unfold Layout.blocks
    rw [hG]
    show (Option.map _ (concurrent.groups.elements l.getSequentialGroupHandle.id)).getD [] = _
    rw [hsequential]
    rfl
  refine ⟨rfl, ⟨PositionManager.getIndex_ok hi, ⟨_, hM, PositionManager.getIndex_ok hj⟩,
    ⟨_, hG, PositionManager.getIndex_ok hk⟩, ?_⟩⟩
  have hlt := List.idxOf_lt_length_of_mem hmem
  show (t.layout.blocks l.groupId)[sequential.blocks.idxOf b]? = some b
  rw [hblocks, List.getElem?_eq_getElem hlt, List.getElem_idxOf]

namespace EraseCategoriesAction

/-! ### The order of the locations -/

/-- The positions of a block, from the tatami down. -/
def key (p : PlacedBlock) : ℕ ×ₗ ℕ ×ₗ ℕ ×ₗ ℕ :=
  toLex (p.2.getTatamiHandle.index, toLex (p.2.getConcurrentGroupHandle.index,
    toLex (p.2.getSequentialGroupHandle.index, p.2.pos)))

theorem indexLt_iff {p q : PlacedBlock} : indexLt p q = true ↔ key p < key q := by
  unfold indexLt key
  simp only [Prod.Lex.toLex_lt_toLex]
  split_ifs with h₁ h₂ h₃ <;> simp_all

/-- Blocks with the same positions are the same. -/
theorem block_eq_of_key_eq {L : Layout} {p q : PlacedBlock} (hp : L.At p.1 p.2) (hq : L.At q.1 q.2)
    (h : key p = key q) : p.1 = q.1 := by
  unfold key at h
  simp only [toLex_inj, Prod.mk.injEq] at h
  obtain ⟨h₁, h₂, h₃, h₄⟩ := h
  have ht : p.2.groupId.tatami = q.2.groupId.tatami := by
    have := hp.tatami
    rw [h₁, hq.tatami] at this
    exact (Option.some.inj this).symm
  obtain ⟨M, hM, hj⟩ := hp.concurrent
  obtain ⟨M', hM', hj'⟩ := hq.concurrent
  have hMM : M = M' := by
    rw [ht, hM'] at hM
    exact (Option.some.inj hM).symm
  have hc : p.2.groupId.concurrent = q.2.groupId.concurrent := by
    rw [hMM, h₂, hj'] at hj
    exact (Option.some.inj hj).symm
  obtain ⟨G, hG, hk⟩ := hp.sequential
  obtain ⟨G', hG', hk'⟩ := hq.sequential
  have hGG : G = G' := by
    rw [ht, hc, hG'] at hG
    exact (Option.some.inj hG).symm
  have hs : p.2.groupId.sequential = q.2.groupId.sequential := by
    rw [hGG, h₃, hk'] at hk
    exact (Option.some.inj hk).symm
  have hgroup : p.2.groupId = q.2.groupId := by
    cases hpg : p.2.groupId
    cases hqg : q.2.groupId
    simp_all
  have hblock := hp.block
  rw [hgroup, h₄, hq.block] at hblock
  exact (Option.some.inj hblock).symm

/-- The locations are in increasing order. -/
def Increasing (ps : List PlacedBlock) : Prop := ps.Pairwise fun p q => key p < key q

theorem mem_insertPlaced {p x : PlacedBlock} {ps : List PlacedBlock} (h : x ∈ insertPlaced p ps) :
    x = p ∨ x ∈ ps := by
  induction ps with
  | nil => simpa [insertPlaced] using h
  | cons q ps ih =>
    unfold insertPlaced at h
    split at h
    · simpa using h
    · split at h
      · rcases List.mem_cons.1 h with rfl | h
        · simp
        · rcases ih h with rfl | h <;> simp [*]
      · exact .inr h

theorem subset_insertPlaced (p : PlacedBlock) (ps : List PlacedBlock) : ps ⊆ insertPlaced p ps := by
  induction ps with
  | nil => simp
  | cons q ps ih =>
    unfold insertPlaced
    split
    · simp
    · split
      · exact List.cons_subset_cons q ih
      · simp

theorem exists_key_insertPlaced (p : PlacedBlock) (ps : List PlacedBlock) :
    ∃ x ∈ insertPlaced p ps, key x = key p := by
  induction ps with
  | nil => exact ⟨p, by simp [insertPlaced], rfl⟩
  | cons q ps ih =>
    unfold insertPlaced
    split
    · exact ⟨p, List.mem_cons_self, rfl⟩
    · split
      · obtain ⟨x, hx, hkey⟩ := ih
        exact ⟨x, List.mem_cons_of_mem _ hx, hkey⟩
      · next h₁ h₂ =>
        rw [indexLt_iff] at h₁ h₂
        exact ⟨q, List.mem_cons_self, le_antisymm (not_lt.1 h₁) (not_lt.1 h₂)⟩

theorem increasing_insertPlaced {p : PlacedBlock} {ps : List PlacedBlock} (h : Increasing ps) :
    Increasing (insertPlaced p ps) := by
  induction ps with
  | nil => simp [insertPlaced, Increasing]
  | cons q ps ih =>
    have hq := List.pairwise_cons.1 h
    unfold insertPlaced
    split
    · next hlt =>
      rw [indexLt_iff] at hlt
      refine List.pairwise_cons.2 ⟨fun x hx => ?_, h⟩
      rcases List.mem_cons.1 hx with rfl | hx
      · exact hlt
      · exact hlt.trans (hq.1 x hx)
    · split
      · next hlt =>
        rw [indexLt_iff] at hlt
        refine List.pairwise_cons.2 ⟨fun x hx => ?_, ih hq.2⟩
        rcases mem_insertPlaced hx with rfl | hx
        · exact hlt
        · exact hq.1 x hx
      · exact h

/-- What the list of the placed blocks is: in increasing order, with the current locations, and with
all placed blocks of the categories. -/
structure Collected (t : TournamentStore) (ids : List CategoryId) (ps : List PlacedBlock) : Prop where
  increasing : Increasing ps
  at_ : ∀ p ∈ ps, t.tatamis.layout.At p.1 p.2
  place : ∀ p ∈ ps, t.outline.place p.1 = some p.2.groupId
  mem_ids : ∀ p ∈ ps, p.1.1 ∈ ids
  complete : ∀ b : Block, b.1 ∈ ids → t.outline.place b ≠ none → ∃ p ∈ ps, p.1 = b

theorem placedBlock_ok {t : TournamentStore} {b : Block} {r : Option PlacedBlock}
    (h : placedBlock t b = .ok r) :
    (t.outline.place b = none ∧ r = none) ∨
    ∃ l, r = some (b, l) ∧ t.outline.place b = some l.groupId ∧ t.tatamis.layout.At b l := by
  obtain ⟨id, type⟩ := b
  simp only [placedBlock, except_bind_ok, TournamentStore.getCategory, getCategory_eq_ok] at h
  obtain ⟨c, hc, h⟩ := h
  rw [place_outline, hc, Option.bind_some]
  split at h
  · next hnone =>
    obtain rfl := except_pure_ok.1 h
    exact .inl ⟨by rw [hnone]; rfl, rfl⟩
  · next l hl =>
    simp only [except_bind_ok, except_pure_ok] at h
    obtain ⟨l', hrefresh, rfl⟩ := h
    obtain ⟨hgroup, hat⟩ := TatamiList.refreshLocation_ok hrefresh
    exact .inr ⟨l', rfl, by rw [hl, Option.map_some, hgroup], hat⟩

theorem collected_foldl {t : TournamentStore} {ids : List CategoryId} {rs : List PlacedBlock}
    (hat : ∀ p ∈ rs, t.tatamis.layout.At p.1 p.2) (hplace : ∀ p ∈ rs, t.outline.place p.1 = some p.2.groupId)
    (hids : ∀ p ∈ rs, p.1.1 ∈ ids)
    (hcomplete : ∀ b : Block, b.1 ∈ ids → t.outline.place b ≠ none → ∃ p ∈ rs, p.1 = b) :
    Collected t ids (rs.foldl (fun s b => insertPlaced b s) []) := by
  have hmem : ∀ (rs s : List PlacedBlock), ∀ x ∈ rs.foldl (fun s b => insertPlaced b s) s, x ∈ rs ∨
      x ∈ s := by
    intro rs
    induction rs with
    | nil => intro s x hx; exact .inr hx
    | cons r rs ih =>
      intro s x hx
      rcases ih _ x hx with h | h
      · exact .inl (List.mem_cons_of_mem _ h)
      · rcases mem_insertPlaced h with rfl | h
        · exact .inl List.mem_cons_self
        · exact .inr h
  have hinc : ∀ (rs s : List PlacedBlock), Increasing s →
      Increasing (rs.foldl (fun s b => insertPlaced b s) s) := by
    intro rs
    induction rs with
    | nil => intro s hs; exact hs
    | cons r rs ih => intro s hs; exact ih _ (increasing_insertPlaced hs)
  have hkept : ∀ (rs s : List PlacedBlock), s ⊆ rs.foldl (fun s b => insertPlaced b s) s := by
    intro rs
    induction rs with
    | nil => intro s; exact List.Subset.refl s
    | cons r rs ih => intro s; exact List.Subset.trans (subset_insertPlaced r s) (ih _)
  have hkeys : ∀ (rs s : List PlacedBlock), ∀ r ∈ rs,
      ∃ x ∈ rs.foldl (fun s b => insertPlaced b s) s, key x = key r := by
    intro rs
    induction rs with
    | nil => intro s r hr; cases hr
    | cons q rs ih =>
      intro s r hr
      rcases List.mem_cons.1 hr with rfl | hr
      · obtain ⟨x, hx, hkey⟩ := exists_key_insertPlaced r s
        exact ⟨x, hkept rs _ hx, hkey⟩
      · exact ih _ r hr
  have hrs : ∀ x ∈ rs.foldl (fun s b => insertPlaced b s) [], x ∈ rs :=
    fun x hx => (hmem rs [] x hx).resolve_right (by simp)
  refine ⟨hinc rs [] List.Pairwise.nil, fun p hp => hat p (hrs p hp), fun p hp => hplace p (hrs p hp),
    fun p hp => hids p (hrs p hp), fun b hb hne => ?_⟩
  obtain ⟨p, hp, rfl⟩ := hcomplete b hb hne
  obtain ⟨x, hx, hkey⟩ := hkeys rs [] p hp
  exact ⟨x, hx, block_eq_of_key_eq (hat x (hrs x hx)) (hat p hp) hkey⟩

theorem collected_placedBlocks {t : TournamentStore} {ids : List CategoryId} {ps : List PlacedBlock}
    (h : placedBlocks t ids = .ok ps) : Collected t ids ps := by
  simp only [placedBlocks, except_bind_ok, except_pure_ok] at h
  obtain ⟨rs, hrs, rfl⟩ := h
  obtain ⟨hleft, hright⟩ := except_mapM_ok hrs
  have hblock : ∀ p ∈ rs.reduceOption, p.1.1 ∈ ids ∧ t.outline.place p.1 = some p.2.groupId ∧
      t.tatamis.layout.At p.1 p.2 := by
    intro p hp
    obtain ⟨b, hb, hplaced⟩ := hright _ (List.reduceOption_mem_iff.1 hp)
    obtain ⟨-, hnone⟩ | ⟨l, hl, hplace, hat⟩ := placedBlock_ok hplaced
    · cases hnone
    · cases hl
      obtain ⟨id, hid, hb⟩ := List.mem_flatMap.1 hb
      refine ⟨?_, hplace, hat⟩
      simp only [List.mem_cons, List.not_mem_nil, or_false] at hb
      rcases hb with rfl | rfl <;> exact hid
  refine collected_foldl (fun p hp => (hblock p hp).2.2) (fun p hp => (hblock p hp).2.1)
    (fun p hp => (hblock p hp).1) fun b hb hne => ?_
  have hmem : b ∈ ids.flatMap fun id => [(id, MatchType.elimination), (id, MatchType.final)] := by
    refine List.mem_flatMap.2 ⟨b.1, hb, ?_⟩
    obtain ⟨id, type⟩ := b
    cases type <;> simp
  obtain ⟨r, hr, hplaced⟩ := hleft b hmem
  obtain ⟨hnone, -⟩ | ⟨l, rfl, -, -⟩ := placedBlock_ok hplaced
  · exact (hne hnone).elim
  · exact ⟨(b, l), List.reduceOption_mem_iff.2 hr, rfl⟩

theorem index_eq {α : Type} {xs : List α} (hxs : xs.Nodup) {i j : ℕ} {x : α} (hi : xs[i]? = some x)
    (hj : xs[j]? = some x) : i = j :=
  (List.getElem?_inj (List.getElem?_eq_some_iff.1 hi).1 hxs).1 (hi.trans hj.symm)

/-- A block has one location with the current positions. -/
theorem key_eq_of_at {L : Layout} {place : Block → Option GroupId} (hL : L.Holds place)
    {p q : PlacedBlock} (hp : L.At p.1 p.2) (hq : L.At q.1 q.2) (h : p.1 = q.1)
    (hgroup : p.2.groupId = q.2.groupId) : key p = key q := by
  obtain ⟨M, hM, hj⟩ := hp.concurrent
  obtain ⟨M', hM', hj'⟩ := hq.concurrent
  obtain ⟨G, hG, hk⟩ := hp.sequential
  obtain ⟨G', hG', hk'⟩ := hq.sequential
  have htatami := hp.tatami
  have hblock := hp.block
  rw [hgroup] at hM hj hG hk htatami hblock
  rw [h] at hblock
  cases hM.symm.trans hM'
  cases hG.symm.trans hG'
  have h₁ := index_eq hL.ordered.tatamis.nodup htatami hq.tatami
  have h₂ := index_eq (hL.ordered.concurrent _ _ hM).nodup hj hj'
  have h₃ := index_eq (hL.ordered.sequential _ _ _ hG).nodup hk hk'
  have h₄ := index_eq (hL.nodup _) hblock hq.block
  unfold key
  rw [h₁, h₂, h₃, h₄]

theorem Collected.nodup {t : TournamentStore} (ht : Placed t) {ids : List CategoryId}
    {ps : List PlacedBlock} (h : Collected t ids ps) : (ps.map (·.1)).Nodup := by
  rw [List.Nodup, List.pairwise_map]
  refine List.Pairwise.imp_of_mem (fun {p q} hp hq hlt heq => ?_) h.increasing
  have hgroup : p.2.groupId = q.2.groupId := by
    have hplace := h.place p hp
    rw [heq, h.place q hq] at hplace
    exact (Option.some.inj hplace).symm
  exact hlt.ne (key_eq_of_at ht (h.at_ p hp) (h.at_ q hq) heq hgroup)

/-! ### Taking blocks out and putting them back -/

/-- The layout after blocks were taken out. -/
def takeAll (ps : List PlacedBlock) (L : Layout) : Layout :=
  ps.foldl (fun L p => L.move p.1 (some p.2) none) L

/-- The layout after blocks were put in. -/
def putAll (ps : List PlacedBlock) (L : Layout) : Layout :=
  ps.foldl (fun L p => L.move p.1 none (some p.2)) L

theorem holds_takeAll {ps : List PlacedBlock} {L : Layout} {place : Block → Option GroupId}
    (h : L.Holds place) (hnodup : (ps.map (·.1)).Nodup)
    (hplace : ∀ p ∈ ps, place p.1 = some p.2.groupId) :
    (takeAll ps L).Holds (fun b => if b ∈ ps.map (·.1) then none else place b) ∧
      (takeAll ps L).ids = L.ids := by
  induction ps generalizing L place with
  | nil => exact ⟨by simpa [takeAll] using h, rfl⟩
  | cons p ps ih =>
    rw [List.map_cons, List.nodup_cons] at hnodup
    have hmove := h.move (some p.2) none (hplace p List.mem_cons_self)
    obtain ⟨hholds, hids⟩ := ih hmove hnodup.2 fun q hq => by
      rw [Function.update_of_ne, hplace q (List.mem_cons_of_mem _ hq)]
      rintro heq
      exact hnodup.1 (heq ▸ List.mem_map_of_mem hq)
    have hsame : (fun b => if b ∈ (p :: ps).map (·.1) then none else place b) =
        fun b => if b ∈ ps.map (·.1) then none else Function.update place p.1 none b := by
      funext b
      by_cases hb : b = p.1
      · subst hb
        simp
      · rw [Function.update_of_ne hb]
        exact if_congr (by rw [List.map_cons, List.mem_cons, or_iff_right hb]) rfl rfl
    refine ⟨?_, hids.trans (Layout.ids_move (by simp))⟩
    rw [hsame]
    exact hholds

theorem holds_putAll {ps : List PlacedBlock} {L : Layout} {place place' : Block → Option GroupId}
    (h : L.Holds place) (hnodup : (ps.map (·.1)).Nodup) (hnone : ∀ p ∈ ps, place p.1 = none)
    (htatami : ∀ p ∈ ps, p.2.groupId.tatami ∈ L.ids)
    (hplace' : ∀ p ∈ ps, place' p.1 = some p.2.groupId)
    (hother : ∀ b, b ∉ ps.map (·.1) → place' b = place b) :
    (putAll ps L).Holds place' ∧ (putAll ps L).ids = L.ids := by
  induction ps generalizing L place with
  | nil =>
    have heq : place' = place := funext fun b => hother b (by simp)
    rw [heq]
    exact ⟨h, rfl⟩
  | cons p ps ih =>
    rw [List.map_cons, List.nodup_cons] at hnodup
    have hids : (L.move p.1 none (some p.2)).ids = L.ids := by
      refine Layout.ids_move fun l hl => ?_
      cases hl
      exact h.ordered.tatamis.mem_ids.1 (htatami p List.mem_cons_self)
    have hmove := h.move none (some p.2) (hnone p List.mem_cons_self)
    have hnone' : ∀ q ∈ ps, Function.update place p.1 (some p.2.groupId) q.1 = none := by
      intro q hq
      rw [Function.update_of_ne, hnone q (List.mem_cons_of_mem _ hq)]
      rintro heq
      exact hnodup.1 (heq ▸ List.mem_map_of_mem hq)
    have htatami' : ∀ q ∈ ps, q.2.groupId.tatami ∈ (L.move p.1 none (some p.2)).ids := by
      intro q hq
      rw [hids]
      exact htatami q (List.mem_cons_of_mem _ hq)
    have hother' : ∀ b, b ∉ ps.map (·.1) →
        place' b = Function.update place p.1 (some p.2.groupId) b := by
      intro b hb
      by_cases hb' : b = p.1
      · subst hb'
        rw [Function.update_self, hplace' p List.mem_cons_self]
      · rw [Function.update_of_ne hb']
        exact hother b (by simp [hb', hb])
    obtain ⟨hholds, hids'⟩ := ih hmove hnodup.2 hnone' htatami'
      (fun q hq => hplace' q (List.mem_cons_of_mem _ hq)) hother'
    exact ⟨hholds, hids'.trans hids⟩

/-- A loop of moves leaves everything but the tatamis. -/
theorem moves_ok {source target : PlacedBlock → Option BlockLocation} {ps : List PlacedBlock}
    {t t' : TournamentStore} {us : List Unit}
    (h : forEach (fun p => editTatamis fun categories =>
      TatamiList.moveBlock categories p.1 (source p) (target p)) ps t = .ok us t') :
    ∃ tatamis : TatamiList, t' = { t with tatamis := tatamis } ∧
      tatamis.layout = ps.foldl (fun L p => L.move p.1 (source p) (target p)) t.tatamis.layout := by
  induction ps generalizing t us with
  | nil =>
    obtain ⟨rfl, rfl⟩ := forEach_nil_ok.1 h
    exact ⟨t'.tatamis, rfl, rfl⟩
  | cons p ps ih =>
    obtain ⟨_, t₁, us', hp, hps, rfl⟩ := forEach_cons_ok.1 h
    obtain ⟨tatamis₁, hmove, rfl⟩ := editTatamis_ok.1 hp
    obtain ⟨tatamis, rfl, hlayout⟩ := ih hps
    exact ⟨tatamis, rfl, by rw [hlayout, List.foldl_cons, TatamiList.layout_moveBlock hmove]⟩

/-! ### The categories -/

/-- The outline without some categories. -/
def withoutCategories (ids : List CategoryId) (o : Outline) : Outline :=
  { o with categories := fun id => if id ∈ ids then none else o.categories id }

theorem place_withoutCategories (ids : List CategoryId) (o : Outline) (b : Block) :
    (withoutCategories ids o).place b = if b.1 ∈ ids then none else o.place b := by
  unfold Outline.place withoutCategories
  by_cases h : b.1 ∈ ids <;> simp [h]

theorem eraseOne_ok {id : CategoryId} {t t' : TournamentStore} {c : CategoryStore}
    (h : eraseOne id t = .ok c t') : t.categories id = some c ∧
      t'.tatamis = t.tatamis ∧ t'.categories = Function.update t.categories id none := by
  simp only [eraseOne, bind_ok, getCategory_ok, eraseCategory_ok] at h
  obtain ⟨c', _, ⟨hc, rfl⟩, us, t₁, hus, us', t₂, hus', hc₂, rfl⟩ := h
  have h₁ : (t₁.categories, t₁.tatamis) = (t.categories, t.tatamis) :=
    frame_forEach (g := fun t => (t.categories, t.tatamis))
      (fun p _ => frame_editPlayer fun _ _ _ _ _ => rfl) hus
  have h₂ : (t₂.categories, t₂.tatamis) = (t₁.categories, t₁.tatamis) :=
    frame_forEach (g := fun t => (t.categories, t.tatamis))
      (fun m _ => (frame_eraseFrom fun _ _ _ => rfl).bind fun _ => frame_eraseFrom fun _ _ _ => rfl) hus'
  have h₃ := h₂.trans h₁
  rw [Prod.mk.injEq] at h₃
  rw [h₃.1] at hc₂
  exact ⟨hc₂, h₃.2, by show Function.update t₂.categories id none = _; rw [h₃.1]⟩

theorem erases_ok {ids : List CategoryId} {t t' : TournamentStore} {cs : List CategoryStore}
    (h : forEach eraseOne ids t = .ok cs t') : t'.tatamis = t.tatamis ∧
      t'.outline = withoutCategories ids t.outline ∧
      (∀ id ∈ ids, ∃ c ∈ cs, t.categories id = some c) ∧
        ∀ c ∈ cs, ∃ id ∈ ids, t.categories id = some c := by
  induction ids generalizing t cs with
  | nil =>
    obtain ⟨rfl, rfl⟩ := forEach_nil_ok.1 h
    exact ⟨rfl, Outline.ext rfl (by funext; simp [withoutCategories]), by simp, by simp⟩
  | cons id ids ih =>
    obtain ⟨c, t₁, cs', hc, hcs, rfl⟩ := forEach_cons_ok.1 h
    obtain ⟨hsome, htatamis, hcategories⟩ := eraseOne_ok hc
    obtain ⟨htatamis', houtline, herased, hsaved⟩ := ih hcs
    have hbefore : ∀ i d, t₁.categories i = some d → t.categories i = some d := by
      intro i d hd
      rw [hcategories] at hd
      by_cases heq : i = id
      · subst heq
        simp at hd
      · simpa [heq] using hd
    refine ⟨htatamis'.trans htatamis, ?_, ?_, ?_⟩
    · rw [houtline]
      refine Outline.ext (by show t₁.tatamis.tatamis.ids = _; rw [htatamis]; rfl) ?_
      funext i
      show (if i ∈ ids then none else (t₁.categories i).map _) = if i ∈ id :: ids then none else _
      rw [hcategories]
      by_cases hi : i = id
      · subst hi
        simp
      · by_cases hmem : i ∈ ids <;> simp [hi, hmem, outline]
    · intro i hi
      rcases List.mem_cons.1 hi with rfl | hi
      · exact ⟨c, List.mem_cons_self, hsome⟩
      · obtain ⟨d, hd, hdsome⟩ := herased i hi
        exact ⟨d, List.mem_cons_of_mem _ hd, hbefore i d hdsome⟩
    · intro d hd
      rcases List.mem_cons.1 hd with rfl | hd
      · exact ⟨id, List.mem_cons_self, hsome⟩
      · obtain ⟨i, hi, hdsome⟩ := hsaved d hd
        exact ⟨i, List.mem_cons_of_mem _ hi, hbefore i d hdsome⟩

theorem recoverOne_ok {c : CategoryStore} {t t' : TournamentStore} {u : Unit}
    (h : recoverOne c t = .ok u t') : t'.tatamis = t.tatamis ∧
      t'.categories = Function.update t.categories c.id (some c) := by
  simp only [recoverOne, bind_ok, addCategory_ok] at h
  obtain ⟨us, t₁, hus, us', t₂, hus', -, rfl⟩ := h
  have h₁ : (t₁.categories, t₁.tatamis) = (t.categories, t.tatamis) :=
    frame_forEach (g := fun t => (t.categories, t.tatamis))
      (fun p _ => frame_editPlayer fun _ _ _ _ _ => rfl) hus
  have h₂ : (t₂.categories, t₂.tatamis) = (t₁.categories, t₁.tatamis) :=
    frame_forEach (g := fun t => (t.categories, t.tatamis))
      (fun m _ => (frame_addTo fun _ _ _ => rfl).bind fun _ => frame_addTo fun _ _ _ => rfl) hus'
  have h₃ := h₂.trans h₁
  rw [Prod.mk.injEq] at h₃
  exact ⟨h₃.2, by show Function.update t₂.categories c.id (some c) = _; rw [h₃.1]⟩

theorem recovers_ok {cs : List CategoryStore} {t t' : TournamentStore} {us : List Unit}
    (h : forEach recoverOne cs t = .ok us t') : t'.tatamis = t.tatamis ∧
      ∀ id, (∀ c ∈ cs, c.id = id → ∃ c' ∈ cs, c'.id = id ∧ t'.categories id = some c') ∧
        ((∀ c ∈ cs, c.id ≠ id) → t'.categories id = t.categories id) := by
  induction cs generalizing t us with
  | nil =>
    obtain ⟨rfl, rfl⟩ := forEach_nil_ok.1 h
    exact ⟨rfl, fun id => ⟨by simp, fun _ => rfl⟩⟩
  | cons c cs ih =>
    obtain ⟨_, t₁, us', hc, hcs, rfl⟩ := forEach_cons_ok.1 h
    obtain ⟨htatamis, hcategories⟩ := recoverOne_ok hc
    obtain ⟨htatamis', hrest⟩ := ih hcs
    refine ⟨htatamis'.trans htatamis, fun id => ⟨fun c₁ hc₁ hid => ?_, fun hne => ?_⟩⟩
    · by_cases hlater : ∀ c₂ ∈ cs, c₂.id ≠ id
      · have hhead : c₁ = c := by
          rcases List.mem_cons.1 hc₁ with rfl | hmem
          · rfl
          · exact (hlater c₁ hmem hid).elim
        subst hhead
        refine ⟨c₁, List.mem_cons_self, hid, ?_⟩
        rw [(hrest id).2 hlater, hcategories, hid, Function.update_self]
      · obtain ⟨c₂, hc₂, hid₂⟩ : ∃ c₂ ∈ cs, c₂.id = id := by simpa using hlater
        obtain ⟨c', hc', hid', hsome⟩ := (hrest id).1 c₂ hc₂ hid₂
        exact ⟨c', List.mem_cons_of_mem _ hc', hid', hsome⟩
    · rw [(hrest id).2 fun c₂ hc₂ => hne c₂ (List.mem_cons_of_mem _ hc₂), hcategories,
        Function.update_of_ne (hne c List.mem_cons_self).symm]

/-! ### The action -/

theorem redoImpl_ok {a a' : EraseCategoriesAction} {t t' : TournamentStore}
    (h : a.redoImpl t = .ok a' t') :
    ∃ ps us t₁ cs, placedBlocks t (a.categoryIds.filter t.containsCategory) = .ok ps ∧
      forEach (fun b => editTatamis fun categories =>
        TatamiList.moveBlock categories b.1 (some b.2) none) ps t = .ok us t₁ ∧
      forEach eraseOne (a.categoryIds.filter t.containsCategory) t₁ = .ok cs t' ∧
      a' = { a with categories := cs.reverse ++ a.categories, blocks := a.blocks ++ ps } := by
  simp only [redoImpl, bind_ok, get_ok, read_ok, pure_ok] at h
  obtain ⟨_, _, ⟨rfl, rfl⟩, ps, _, ⟨hps, rfl⟩, us, t₁, hus, cs, _, hcs, rfl, rfl⟩ := h
  exact ⟨ps, us, t₁, cs, hps, hus, hcs, rfl⟩

/-- The action erases the categories from the outline. -/
theorem placed_redoImpl {a a' : EraseCategoriesAction} {t t' : TournamentStore} (ht : Placed t)
    (h : a.redoImpl t = .ok a' t') :
    Placed t' ∧ t'.outline = withoutCategories (a.categoryIds.filter t.containsCategory) t.outline := by
  obtain ⟨ps, us, t₁, cs, hps, hus, hcs, rfl⟩ := redoImpl_ok h
  have hcollected := collected_placedBlocks hps
  obtain ⟨tatamis, rfl, hlayout⟩ := moves_ok hus
  obtain ⟨htatamis, houtline, -⟩ := erases_ok hcs
  obtain ⟨hholds, hids⟩ := holds_takeAll ht (hcollected.nodup ht) hcollected.place
  have hbase : ({ t with tatamis := tatamis } : TournamentStore).outline = t.outline := by
    refine Outline.ext ?_ rfl
    show tatamis.layout.ids = t.tatamis.layout.ids
    rw [hlayout]
    exact hids
  rw [hbase] at houtline
  refine ⟨?_, houtline⟩
  unfold Placed
  rw [htatamis, houtline]
  show tatamis.layout.Holds _
  rw [hlayout]
  have hplace : (withoutCategories (a.categoryIds.filter t.containsCategory) t.outline).place =
      fun b => if b ∈ ps.map (·.1) then none else t.outline.place b := by
    funext b
    rw [place_withoutCategories]
    by_cases hmem : b ∈ ps.map (·.1)
    · obtain ⟨p, hp, rfl⟩ := List.mem_map.1 hmem
      rw [if_pos (hcollected.mem_ids p hp), if_pos hmem]
    · rw [if_neg hmem]
      split
      · next hb =>
        by_contra hne
        obtain ⟨p, hp, rfl⟩ := hcollected.complete b hb (Ne.symm hne)
        exact hmem (List.mem_map_of_mem hp)
      · rfl
  rw [hplace]
  exact hholds

theorem allowed_withoutCategories {ids : List CategoryId} {o : Outline} (h : o.Allowed) :
    (withoutCategories ids o).Allowed := by
  refine h.of_le (fun id f hf => ?_) fun b g hb => ?_
  · change Option.map _ (if id ∈ ids then none else o.categories id) = some f at hf
    split at hf
    · cases hf
    · exact hf
  · rw [place_withoutCategories] at hb
    split at hb
    · cases hb
    · exact hb

/-- The recovery of the categories restores the outline. -/
theorem outline_recovers {ids : List CategoryId} {t u u₁ : TournamentStore} {cs : List CategoryStore}
    {us : List Unit} (ht : t.outline.Allowed)
    (herased : ∀ id ∈ ids, ∃ c ∈ cs, t.categories id = some c)
    (hsaved : ∀ c ∈ cs, ∃ id ∈ ids, t.categories id = some c)
    (hu : u.outline = withoutCategories ids t.outline)
    (h : forEach recoverOne cs.reverse u = .ok us u₁) : u₁.outline = t.outline := by
  have hkeyed : ∀ c ∈ cs, t.categories c.id = some c ∧ c.id ∈ ids := by
    intro c hc
    obtain ⟨id, hid, hsome⟩ := hsaved c hc
    have hid' : c.id = id := ht.keyed id c.outline (categories_outline hsome)
    rw [hid']
    exact ⟨hsome, hid⟩
  obtain ⟨htatamis, hrecovered⟩ := recovers_ok h
  refine Outline.ext ?_ ?_
  · show u₁.tatamis.tatamis.ids = _
    rw [htatamis]
    exact congrArg Outline.tatamis hu
  · funext id
    show (u₁.categories id).map _ = (t.categories id).map _
    by_cases hid : id ∈ ids
    · obtain ⟨c, hc, hsome⟩ := herased id hid
      have hid' : c.id = id := ht.keyed id c.outline (categories_outline hsome)
      obtain ⟨c', hc', hid₁, hsome'⟩ := (hrecovered id).1 c (List.mem_reverse.2 hc) hid'
      rw [hsome', ← hid₁, (hkeyed c' (List.mem_reverse.1 hc')).1]
    · rw [(hrecovered id).2 fun c hc heq => hid (heq ▸ (hkeyed c (List.mem_reverse.1 hc)).2)]
      have := congrFun (congrArg Outline.categories hu) id
      change (u.categories id).map _ = if id ∈ ids then none else (t.categories id).map _ at this
      rw [this, if_neg hid]

theorem revocable {a : EraseCategoriesAction} (hcategories : a.categories = []) (hblocks : a.blocks = []) :
    LayoutRevocable a.redoImpl undoImpl fun a => a.categories = [] ∧ a.blocks = [] := by
  intro t a' t' ht h
  obtain ⟨hplaced, houtline⟩ := placed_redoImpl ht.placed h
  refine ⟨⟨hplaced, by rw [houtline]; exact allowed_withoutCategories ht.allowed⟩, ?_⟩
  obtain ⟨ps, us, t₁, cs, hps, hus, hcs, rfl⟩ := redoImpl_ok h
  have hcollected := collected_placedBlocks hps
  obtain ⟨tatamis, rfl, -⟩ := moves_ok hus
  obtain ⟨-, -, herased, hsaved⟩ := erases_ok hcs
  rw [houtline, hcategories, hblocks, List.append_nil, List.nil_append]
  intro u b u' hu ho hundo
  simp only [undoImpl, bind_ok, pure_ok] at hundo
  obtain ⟨us₁, u₁, hrecover, us₂, u₂, hmoves, rfl, rfl⟩ := hundo
  have houtline₁ := outline_recovers ht.allowed herased hsaved ho hrecover
  obtain ⟨htatamis, -⟩ := recovers_ok hrecover
  obtain ⟨tatamis', rfl, hlayout⟩ := moves_ok hmoves
  have hids : u.tatamis.layout.ids = t.tatamis.layout.ids := congrArg Outline.tatamis ho
  have hnone : ∀ p ∈ ps, u.outline.place p.1 = none := by
    intro p hp
    rw [ho, place_withoutCategories, if_pos (hcollected.mem_ids p hp)]
  have htatami : ∀ p ∈ ps, p.2.groupId.tatami ∈ u.tatamis.layout.ids := by
    intro p hp
    rw [hids]
    exact List.mem_of_getElem? (hcollected.at_ p hp).tatami
  have hother : ∀ b, b ∉ ps.map (·.1) → t.outline.place b = u.outline.place b := by
    intro b hb
    rw [ho, place_withoutCategories]
    split
    · next hmem =>
      by_contra hne
      obtain ⟨p, hp, rfl⟩ := hcollected.complete b hmem hne
      exact hb (List.mem_map_of_mem hp)
    · rfl
  obtain ⟨hput, hids'⟩ := holds_putAll hu (hcollected.nodup ht.placed) hnone htatami hcollected.place hother
  rw [htatamis] at hlayout
  have houtline' : ({ u₁ with tatamis := tatamis' } : TournamentStore).outline = t.outline := by
    have hcategories₁ : u₁.outline.categories = t.outline.categories := by rw [houtline₁]
    refine Outline.ext ?_ hcategories₁
    show tatamis'.layout.ids = t.tatamis.layout.ids
    rw [hlayout]
    exact hids'.trans hids
  refine ⟨?_, houtline', rfl, rfl⟩
  unfold Placed
  rw [houtline']
  show tatamis'.layout.Holds _
  rw [hlayout]
  exact hput

end EraseCategoriesAction

end JudoAssistant
