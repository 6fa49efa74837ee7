import JudoAssistant.Tournament.ErasedBlocks

/-!
# Changing the number of tatamis

`SetTatamiCountAction` adds empty tatamis after the others or erases the last ones.  The blocks of an
erased tatami lose their locations, and `undoImpl` puts the tatami back with its groups.
-/

namespace JudoAssistant

open Effect Exec TournamentStore

/-! ### One tatami -/

namespace Layout

/-- The blocks of a sequential group of a tatami. -/
def tatamiBlocks (M : Option (PositionManager GroupLayout)) (j k : PositionId) : List Block :=
  ((M.bind (·.elements j)).bind (·.elements k)).getD []

/-- A tatami, or none, that holds exactly some blocks. -/
structure TatamiHolds (M : Option (PositionManager GroupLayout))
    (P : Block → PositionId → PositionId → Prop) : Prop where
  concurrent : ∀ M', M = some M' → M'.Sound
  sequential : ∀ j G, M.bind (·.elements j) = some G → G.Sound
  full : ∀ j G, M.bind (·.elements j) = some G →
    G.ids ≠ [] ∧ ∀ k bs, G.elements k = some bs → bs ≠ []
  nodup : ∀ j k, (tatamiBlocks M j k).Nodup
  mem_blocks : ∀ b j k, b ∈ tatamiBlocks M j k ↔ P b j k

variable {L : Layout} {place : Block → Option GroupId} {P Q : Block → PositionId → PositionId → Prop}
  {M : Option (PositionManager GroupLayout)}

/-- A layout holds the blocks if every tatami holds its own. -/
theorem holds_iff : L.Holds place ↔
    L.Sound ∧ ∀ i, TatamiHolds (L.elements i) fun b j k => place b = some ⟨i, j, k⟩ := by
  constructor
  · intro h
    exact ⟨h.ordered.tatamis, fun i => ⟨fun M hM => h.ordered.concurrent i M hM,
      fun j G hG => h.ordered.sequential i j G hG, fun j G hG => h.full i j G hG,
      fun j k => h.nodup ⟨i, j, k⟩, fun b j k => h.mem_blocks b ⟨i, j, k⟩⟩⟩
  · rintro ⟨hsound, h⟩
    exact ⟨⟨hsound, fun i M hM => (h i).concurrent M hM, fun i j G hG => (h i).sequential j G hG⟩,
      fun i j G hG => (h i).full j G hG, fun g => (h g.tatami).nodup g.concurrent g.sequential,
      fun b g => (h g.tatami).mem_blocks b g.concurrent g.sequential⟩

theorem TatamiHolds.congr (h : TatamiHolds M P) (hPQ : ∀ b j k, P b j k ↔ Q b j k) : TatamiHolds M Q :=
  ⟨h.concurrent, h.sequential, h.full, h.nodup, fun b j k => (h.mem_blocks b j k).trans (hPQ b j k)⟩

/-- A tatami without groups holds nothing. -/
theorem tatamiHolds_of_empty (hM : M = none ∨ M = some {}) (hP : ∀ b j k, ¬ P b j k) : TatamiHolds M P := by
  have hnone : ∀ j, M.bind (·.elements j) = none := by
    rintro j
    rcases hM with rfl | rfl <;> rfl
  have hblocks : ∀ j k, tatamiBlocks M j k = [] := by
    intro j k
    unfold tatamiBlocks
    rw [hnone]
    rfl
  refine ⟨fun M' hM' => ?_, fun j G hG => ?_, fun j G hG => ?_, fun j k => ?_, fun b j k => ?_⟩
  · rcases hM with rfl | rfl
    · cases hM'
    · cases hM'
      exact PositionManager.sound_empty
  · rw [hnone] at hG
    cases hG
  · rw [hnone] at hG
    cases hG
  · rw [hblocks]
    exact List.nodup_nil
  · rw [hblocks]
    simp [hP]

end Layout

/-! ### Adding and erasing tatamis -/

namespace PositionManager

variable {α : Type} {p : PositionManager α}

/-- Insertions at positions that are not before the end are at the end. -/
theorem ids_foldl_insert {ls : List TatamiLocation} {a : α}
    (h : ∀ j l, ls[j]? = some l → p.ids.length + j ≤ l.handle.index) :
    ∃ new, (ls.foldl (fun p l => p.insert l.handle a) p).ids = p.ids ++ new := by
  induction ls generalizing p with
  | nil => exact ⟨[], by simp⟩
  | cons l ls ih =>
    have hl : p.ids.length ≤ l.handle.index := by simpa using h 0 l rfl
    rw [List.foldl_cons]
    by_cases hcontains : p.contains l.handle = true
    · have hsame : p.insert l.handle a = p := by
        unfold insert
        rw [if_pos hcontains]
      rw [hsame]
      refine ih fun j l' hj => ?_
      have := h (j + 1) l' hj
      omega
    · have hids : (p.insert l.handle a).ids = p.ids ++ [l.handle.id] := by
        unfold insert
        rw [if_neg hcontains]
        show p.ids.insertIdx (min p.ids.length l.handle.index) l.handle.id = _
        rw [Nat.min_eq_left hl, List.insertIdx_length_self]
      obtain ⟨new, hnew⟩ := ih (p := p.insert l.handle a) fun j l' hj => by
        have := h (j + 1) l' hj
        rw [hids, List.length_append, List.length_singleton]
        omega
      exact ⟨l.handle.id :: new, by rw [hnew, hids, List.append_assoc]; rfl⟩

theorem elements_foldl_insert (ls : List TatamiLocation) {a : α} {i : PositionId} :
    (ls.foldl (fun p l => p.insert l.handle a) p).elements i = p.elements i ∨
      p.elements i = none ∧ (ls.foldl (fun p l => p.insert l.handle a) p).elements i = some a := by
  induction ls generalizing p with
  | nil => exact .inl rfl
  | cons l ls ih =>
    rw [List.foldl_cons]
    have hinsert := elements_insert p l.handle a i
    by_cases hi : i = l.handle.id
    · rw [if_pos hi] at hinsert
      have hrest : (ls.foldl (fun p l => p.insert l.handle a) (p.insert l.handle a)).elements i =
          (p.insert l.handle a).elements i := by
        rcases ih (p := p.insert l.handle a) with h | ⟨h, -⟩
        · exact h
        · rw [hinsert] at h
          cases h
      rw [hrest, hinsert]
      cases p.elements i with
      | none => exact .inr ⟨rfl, rfl⟩
      | some b => exact .inl rfl
    · rw [if_neg hi] at hinsert
      rw [← hinsert]
      exact ih

theorem Sound.foldl_insert (h : p.Sound) (ls : List TatamiLocation) (a : α) :
    (ls.foldl (fun p l => p.insert l.handle a) p).Sound := by
  induction ls generalizing p with
  | nil => exact h
  | cons l ls ih => exact ih (h.insert _ _)

/-- Erasing the last positions leaves the others. -/
theorem Sound.foldl_erase (h : p.Sound) {ls : List TatamiLocation} {ids : List PositionId}
    (hids : p.ids = ids ++ ls.map (·.handle.id)) :
    (ls.foldl (fun p l => p.erase l.handle) p).Sound ∧
      (ls.foldl (fun p l => p.erase l.handle) p).ids = ids ∧
      ∀ i, (ls.foldl (fun p l => p.erase l.handle) p).elements i =
        if i ∈ ls.map (·.handle.id) then none else p.elements i := by
  induction ls generalizing p with
  | nil => exact ⟨h, by simpa using hids, fun i => by simp⟩
  | cons l ls ih =>
    have hnodup := h.nodup
    rw [hids, List.nodup_append] at hnodup
    have hnew : l.handle.id ∉ ids := fun hmem => hnodup.2.2 _ hmem _ List.mem_cons_self rfl
    have hids' : (p.erase l.handle).ids = ids ++ ls.map (·.handle.id) := by
      rw [ids_erase, hids, List.erase_append_right _ hnew, List.map_cons, List.erase_cons_head]
    obtain ⟨hsound, hrest, helements⟩ := ih (h.erase l.handle) hids'
    refine ⟨hsound, hrest, fun i => ?_⟩
    rw [List.foldl_cons, helements, h.elements_erase]
    by_cases hi : i = l.handle.id
    · simp [hi]
    · by_cases hmem : i ∈ ls.map (·.handle.id) <;> simp_all

/-- Erased elements are put back after the others. -/
theorem ids_foldl_restore {es : List (TatamiLocation × α)} {a : α}
    (hindex : ∀ j e, es[j]? = some e → e.1.handle.index = p.ids.length + j)
    (hnew : ∀ e ∈ es, p.elements e.1.handle.id = none) (hnodup : (es.map (·.1.handle.id)).Nodup) :
    (es.foldl (fun p e => (p.insert e.1.handle a).set e.1.handle e.2) p).ids =
        p.ids ++ es.map (·.1.handle.id) ∧
      (∀ i, i ∉ es.map (·.1.handle.id) →
        (es.foldl (fun p e => (p.insert e.1.handle a).set e.1.handle e.2) p).elements i = p.elements i) ∧
      ∀ e ∈ es, (es.foldl (fun p e => (p.insert e.1.handle a).set e.1.handle e.2) p).elements
        e.1.handle.id = some e.2 := by
  induction es generalizing p with
  | nil => exact ⟨by simp, fun _ _ => rfl, by simp⟩
  | cons e es ih =>
    have he : e.1.handle.index = p.ids.length := by simpa using hindex 0 e rfl
    have hcontains : ¬ p.contains e.1.handle = true := by
      simp [contains, hnew e List.mem_cons_self]
    have hids : ((p.insert e.1.handle a).set e.1.handle e.2).ids = p.ids ++ [e.1.handle.id] := by
      show (p.insert e.1.handle a).ids = _
      unfold insert
      rw [if_neg hcontains]
      show p.ids.insertIdx (min p.ids.length e.1.handle.index) e.1.handle.id = _
      rw [he, Nat.min_self, List.insertIdx_length_self]
    have helements : ∀ i, ((p.insert e.1.handle a).set e.1.handle e.2).elements i =
        if i = e.1.handle.id then some e.2 else p.elements i := by
      intro i
      show Function.update (p.insert e.1.handle a).elements e.1.handle.id (some e.2) i = _
      rw [Function.update_apply, elements_insert]
      split <;> simp_all
    rw [List.map_cons, List.nodup_cons] at hnodup
    have hne : ∀ e' ∈ es, e'.1.handle.id ≠ e.1.handle.id := by
      intro e' he' heq
      exact hnodup.1 (heq ▸ List.mem_map_of_mem (f := fun e => e.1.handle.id) he')
    have hindex' : ∀ j e', es[j]? = some e' → e'.1.handle.index =
        ((p.insert e.1.handle a).set e.1.handle e.2).ids.length + j := by
      intro j e' hj
      have := hindex (j + 1) e' hj
      rw [hids, List.length_append, List.length_singleton]
      omega
    have hnew' : ∀ e' ∈ es, ((p.insert e.1.handle a).set e.1.handle e.2).elements e'.1.handle.id = none := by
      intro e' he'
      rw [helements, if_neg (hne e' he')]
      exact hnew e' (List.mem_cons_of_mem _ he')
    obtain ⟨hids', hother, hrestored⟩ := ih hindex' hnew' hnodup.2
    refine ⟨?_, fun i hi => ?_, fun e' he' => ?_⟩
    · rw [List.foldl_cons, hids', hids, List.append_assoc]
      rfl
    · rw [List.map_cons, List.mem_cons, not_or] at hi
      rw [List.foldl_cons, hother i hi.2, helements, if_neg hi.1]
    · rw [List.foldl_cons]
      rcases List.mem_cons.1 he' with rfl | he'
      · rw [hother _ hnodup.1, helements, if_pos rfl]
      · exact hrestored e' he'

end PositionManager

namespace SetTatamiCountAction

/-! ### The blocks of a tatami -/

theorem inOrder_ok {α : Type} {p : PositionManager α} {xs : List (PositionHandle × α)}
    (h : p.inOrder = .ok xs) :
    (∀ x ∈ xs, p.elements x.1.id = some x.2 ∧ p.ids[x.1.index]? = some x.1.id) ∧
      ∀ i a, i ∈ p.ids → p.elements i = some a → ∃ x ∈ xs, x.1.id = i ∧ x.2 = a := by
  unfold PositionManager.inOrder at h
  obtain ⟨hleft, hright⟩ := except_mapM_ok h
  have hitem : ∀ (q : PositionId × ℕ) (x : PositionHandle × α), (do
      let a ← p.at' ⟨q.1, q.2⟩
      return ((⟨q.1, q.2⟩ : PositionHandle), a) : Except Failure _) = .ok x →
      p.elements q.1 = some x.2 ∧ x.1 = ⟨q.1, q.2⟩ := by
    intro q x hx
    simp only [except_bind_ok, PositionManager.at'_ok, except_pure_ok] at hx
    obtain ⟨a, ha, rfl⟩ := hx
    exact ⟨ha, rfl⟩
  refine ⟨fun x hx => ?_, fun i a hi ha => ?_⟩
  · obtain ⟨q, hq, hqx⟩ := hright x hx
    obtain ⟨hsome, hhandle⟩ := hitem q x hqx
    rw [hhandle]
    exact ⟨hsome, by simpa using List.mem_zipIdx_iff_getElem?.1 hq⟩
  · obtain ⟨n, hn, hin⟩ := List.mem_iff_getElem.1 hi
    have hmem : (i, n) ∈ p.ids.zipIdx := by
      rw [List.mem_zipIdx_iff_getElem?]
      simp [← hin]
    obtain ⟨x, hx, hqx⟩ := hleft (i, n) hmem
    obtain ⟨hsome, hhandle⟩ := hitem (i, n) x hqx
    refine ⟨x, hx, by rw [hhandle], ?_⟩
    rw [ha] at hsome
    exact (Option.some.inj hsome).symm

/-- The list has exactly the blocks of the tatami, with the ids of their groups. -/
theorem blocksOf_ok {l : TatamiLocation} {tatami : TatamiStore} {ps : List PlacedBlock}
    {P : Block → PositionId → PositionId → Prop} (hP : Layout.TatamiHolds (some tatami.layout) P)
    (h : blocksOf l tatami = .ok ps) :
    (∀ p ∈ ps, p.2.groupId.tatami = l.handle.id ∧ P p.1 p.2.groupId.concurrent p.2.groupId.sequential) ∧
      ∀ b j k, P b j k → ∃ p ∈ ps, p.1 = b := by
  simp only [blocksOf, except_bind_ok, except_pure_ok] at h
  obtain ⟨concurrent, hconcurrent, bss, hbss, rfl⟩ := h
  obtain ⟨hC, hCall⟩ := inOrder_ok hconcurrent
  obtain ⟨hleft, hright⟩ := except_mapM_ok hbss
  have hblocks : ∀ {j k : PositionId} {g : ConcurrentBlockGroup} {q : SequentialBlockGroup},
      tatami.groups.elements j = some g → g.groups.elements k = some q →
      Layout.tatamiBlocks (some tatami.layout) j k = q.blocks := by
    intro j k g q hg hq
    show (((tatami.groups.elements j).map _).bind _).getD [] = _
    rw [hg]
    show ((g.groups.elements k).map _).getD [] = _
    rw [hq]
    rfl
  refine ⟨fun p hp => ?_, fun b j k hb => ?_⟩
  · obtain ⟨bs, hbs, hp⟩ := List.mem_flatten.1 hp
    obtain ⟨g, hg, hgbs⟩ := hright bs hbs
    simp only [except_bind_ok, except_pure_ok] at hgbs
    obtain ⟨sequential, hsequential, rfl⟩ := hgbs
    obtain ⟨q, hq, hp⟩ := List.mem_flatMap.1 hp
    obtain ⟨b, hb, rfl⟩ := List.mem_map.1 hp
    have hmem : b.1 ∈ q.2.blocks := List.fst_mem_of_mem_zipIdx hb
    rw [← hblocks (hC g hg).1 ((inOrder_ok hsequential).1 q hq).1] at hmem
    exact ⟨rfl, (hP.mem_blocks _ _ _).1 hmem⟩
  · have hmem := (hP.mem_blocks b j k).2 hb
    cases hg : tatami.groups.elements j with
    | none =>
      rw [show Layout.tatamiBlocks (some tatami.layout) j k = [] by
        show (((tatami.groups.elements j).map _).bind _).getD [] = _
        rw [hg]
        rfl] at hmem
      cases hmem
    | some g =>
      cases hq : g.groups.elements k with
      | none =>
        rw [show Layout.tatamiBlocks (some tatami.layout) j k = [] by
          show (((tatami.groups.elements j).map _).bind _).getD [] = _
          rw [hg]
          show ((g.groups.elements k).map _).getD [] = _
          rw [hq]
          rfl] at hmem
        cases hmem
      | some q =>
        rw [hblocks hg hq] at hmem
        have hj : j ∈ tatami.groups.ids :=
          ((hP.concurrent _ rfl).of_map.mem_ids).2 (by rw [hg]; simp)
        obtain ⟨x, hx, hxj, hxg⟩ := hCall j g hj hg
        obtain ⟨bs, hbs, hxbs⟩ := hleft x hx
        simp only [except_bind_ok, except_pure_ok] at hxbs
        obtain ⟨sequential, hsequential, rfl⟩ := hxbs
        rw [hxg] at hsequential
        have hsound : g.layout.Sound := hP.sequential j g.layout (by
          show (tatami.groups.elements j).map _ = _
          rw [hg]
          rfl)
        have hk : k ∈ g.groups.ids := hsound.of_map.mem_ids.2 (by rw [hq]; simp)
        obtain ⟨y, hy, -, hyq⟩ := (inOrder_ok hsequential).2 k q hk hq
        obtain ⟨n, hn, hbn⟩ := List.mem_iff_getElem.1 hmem
        have hzip : (b, n) ∈ y.2.blocks.zipIdx := by
          rw [hyq, List.mem_zipIdx_iff_getElem?]
          simp [← hbn]
        exact ⟨_, List.mem_flatten.2 ⟨_, hbs, List.mem_flatMap.2 ⟨y, hy, List.mem_map_of_mem hzip⟩⟩, rfl⟩

/-! ### The locations of the blocks -/

/-- A loop that sets the locations of blocks. -/
theorem setLocations_ok {f : PlacedBlock → Option BlockLocation} {ps : List PlacedBlock}
    {t t' : TournamentStore} {us : List Unit}
    (h : forEach (fun b => editCategory b.1.1 fun c => .ok (c.setLocation b.1.2 (f b))) ps t =
      .ok us t') :
    t'.tatamis = t.tatamis ∧ t'.outline.frame = t.outline.frame ∧
      (∀ b, (∀ p ∈ ps, p.1 ≠ b) → t'.outline.place b = t.outline.place b) ∧
      ∀ b, (∃ p ∈ ps, p.1 = b) → ∃ p ∈ ps, p.1 = b ∧ t'.outline.place b = (f p).map (·.groupId) := by
  induction ps generalizing t us with
  | nil =>
    obtain ⟨rfl, rfl⟩ := forEach_nil_ok.1 h
    exact ⟨rfl, rfl, fun _ _ => rfl, by simp⟩
  | cons p ps ih =>
    obtain ⟨_, t₁, us', hp, hps, rfl⟩ := forEach_cons_ok.1 h
    obtain ⟨c, _, hc, hset, rfl⟩ := editCategory_ok.1 hp
    cases hset
    have houtline : (t.setCategory p.1.1 (c.setLocation p.1.2 (f p))).outline =
        t.outline.setPlace p.1 ((f p).map (·.groupId)) := by
      refine outline_adjust hc ?_
      obtain ⟨⟨id, type⟩, l⟩ := p
      cases type <;> rfl
    have hplace : (t.setCategory p.1.1 (c.setLocation p.1.2 (f p))).outline.place =
        Function.update t.outline.place p.1 ((f p).map (·.groupId)) := by
      rw [houtline]
      exact Outline.place_setPlace (by rw [categories_outline hc]; simp) _
    obtain ⟨htatamis, hframe, hother, hset⟩ := ih hps
    refine ⟨htatamis, ?_, fun b hb => ?_, fun b hb => ?_⟩
    · rw [hframe, houtline, Outline.frame_setPlace]
    · rw [hother b fun q hq => hb q (List.mem_cons_of_mem _ hq), hplace,
        Function.update_of_ne (hb p List.mem_cons_self).symm]
    · by_cases hlater : ∃ q ∈ ps, q.1 = b
      · obtain ⟨q, hq, hqb, hval⟩ := hset b hlater
        exact ⟨q, List.mem_cons_of_mem _ hq, hqb, hval⟩
      · obtain ⟨q, hq, hqb⟩ := hb
        have hhead : q = p := by
          rcases List.mem_cons.1 hq with rfl | hq
          · rfl
          · exact (hlater ⟨q, hq, hqb⟩).elim
        subst hhead
        refine ⟨q, List.mem_cons_self, hqb, ?_⟩
        rw [hother b fun r hr heq => hlater ⟨r, hr, heq⟩, hplace, ← hqb, Function.update_self]

theorem eraseOne_ok {l : TatamiLocation} {t t' : TournamentStore} {e : TatamiLocation × TatamiStore}
    (ht : Placed t) (h : eraseOne l t = .ok e t') :
    e.1 = l ∧ t.tatamis.tatamis.elements l.handle.id = some e.2 ∧
      t'.tatamis = ⟨t.tatamis.tatamis.erase l.handle⟩ ∧ t'.outline.frame = t.outline.frame ∧
      t'.outline.place = fun b => (t.outline.place b).filter (·.tatami ≠ l.handle.id) := by
  simp only [eraseOne, bind_ok, read_ok, PositionManager.at'_ok, editTatamis_ok, lift_ok, pure_ok] at h
  obtain ⟨tatami, _, ⟨htatami, rfl⟩, _, _, ⟨tatamis, herase, rfl⟩, ps, _, ⟨hps, rfl⟩, us, _, hus,
    rfl, rfl⟩ := h
  simp only [eraseTatami, except_bind_ok, check_ok, except_pure_ok] at herase
  obtain ⟨-, -, rfl⟩ := herase
  have hM : t.tatamis.layout.elements l.handle.id = some tatami.layout := by
    show Option.map _ (t.tatamis.tatamis.elements l.handle.id) = _
    rw [htatami]
    rfl
  have hholds := (Layout.holds_iff.1 ht).2 l.handle.id
  rw [hM] at hholds
  obtain ⟨hmem, hall⟩ := blocksOf_ok hholds hps
  obtain ⟨htatamis, hframe, hother, hset⟩ := setLocations_ok hus
  refine ⟨rfl, htatami, htatamis, hframe, funext fun b => ?_⟩
  by_cases hb : ∃ p ∈ ps, p.1 = b
  · obtain ⟨p, hp, hpb, hnone⟩ := hset b hb
    obtain ⟨-, hplace⟩ := hmem p hp
    rw [hnone, ← hpb, hplace]
    simp [Option.filter]
  · rw [hother b fun p hp heq => hb ⟨p, hp, heq⟩]
    show t.outline.place b = _
    cases hg : t.outline.place b with
    | none => rfl
    | some g =>
      have hne : g.tatami ≠ l.handle.id := by
        rintro heq
        exact hb (hall b g.concurrent g.sequential (by rw [hg, ← heq]))
      simp [Option.filter, hne]

/-- The erasure of the tatamis keeps the layout sound. -/
theorem placed_eraseOne {l : TatamiLocation} {t t' : TournamentStore} {e : TatamiLocation × TatamiStore}
    (ht : Placed t) (h : eraseOne l t = .ok e t') : Placed t' := by
  obtain ⟨-, -, htatamis, -, hplace⟩ := eraseOne_ok ht h
  obtain ⟨hsound, hholds⟩ := Layout.holds_iff.1 ht
  have hlayout : t'.tatamis.layout = t.tatamis.layout.erase l.handle := by
    rw [htatamis]
    exact PositionManager.map_erase _ _ _
  unfold Placed
  rw [hlayout, hplace, Layout.holds_iff]
  refine ⟨hsound.erase _, fun i => ?_⟩
  rw [hsound.elements_erase]
  split
  · next hi =>
    refine Layout.tatamiHolds_of_empty (.inl rfl) fun b j k hb => ?_
    rw [Option.filter_eq_some_iff] at hb
    simp [hi] at hb
  · next hi =>
    refine (hholds i).congr fun b j k => ?_
    rw [Option.filter_eq_some_iff]
    simp [hi]

theorem erases_ok {ls : List TatamiLocation} {t t' : TournamentStore}
    {es : List (TatamiLocation × TatamiStore)} (ht : Placed t) (hnodup : (ls.map (·.handle.id)).Nodup)
    (h : forEach eraseOne ls t = .ok es t') :
    Placed t' ∧ es.map (·.1) = ls ∧ (∀ e ∈ es, t.tatamis.tatamis.elements e.1.handle.id = some e.2) ∧
      t'.tatamis.tatamis = ls.foldl (fun p l => p.erase l.handle) t.tatamis.tatamis ∧
      t'.outline.frame = t.outline.frame ∧
      t'.outline.place = fun b => (t.outline.place b).filter (·.tatami ∉ ls.map (·.handle.id)) := by
  induction ls generalizing t es with
  | nil =>
    obtain ⟨rfl, rfl⟩ := forEach_nil_ok.1 h
    refine ⟨ht, rfl, by simp, rfl, rfl, funext fun b => ?_⟩
    cases t'.outline.place b <;> simp [Option.filter]
  | cons l ls ih =>
    obtain ⟨e, t₁, es', he, hes, rfl⟩ := forEach_cons_ok.1 h
    obtain ⟨hel, hsome, htatamis, hframe, hplace⟩ := eraseOne_ok ht he
    rw [List.map_cons, List.nodup_cons] at hnodup
    obtain ⟨ht', hls, hall, htatamis', hframe', hplace'⟩ := ih (placed_eraseOne ht he) hnodup.2 hes
    have hsound : t.tatamis.tatamis.Sound := (Layout.holds_iff.1 ht).1.of_map
    refine ⟨ht', by rw [List.map_cons, hel, hls], fun e' he' => ?_, ?_, hframe'.trans hframe, ?_⟩
    · rcases List.mem_cons.1 he' with rfl | he'
      · rw [hel]
        exact hsome
      · have := hall e' he'
        rw [htatamis, hsound.elements_erase] at this
        split at this
        · cases this
        · exact this
    · rw [htatamis', htatamis]
      rfl
    · rw [hplace', hplace]
      funext b
      show Option.filter _ (Option.filter _ (t.outline.place b)) = _
      cases t.outline.place b with
      | none => rfl
      | some g => by_cases hg : g.tatami = l.handle.id <;> simp [Option.filter, hg]

theorem relocate_ok {e : TatamiLocation × TatamiStore} {u u' : TournamentStore} {x : Unit}
    {place : Block → Option GroupId}
    (hholds : Layout.TatamiHolds (some e.2.layout) fun b j k => place b = some ⟨e.1.handle.id, j, k⟩)
    (h : relocate e u = .ok x u') :
    u'.tatamis = u.tatamis ∧ u'.outline.frame = u.outline.frame ∧
      ∀ b, (∃ g, place b = some g ∧ g.tatami = e.1.handle.id ∧ u'.outline.place b = some g) ∨
        (∀ g, place b = some g → g.tatami ≠ e.1.handle.id) ∧ u'.outline.place b = u.outline.place b := by
  simp only [relocate, bind_ok, lift_ok, pure_ok] at h
  obtain ⟨ps, _, ⟨hps, rfl⟩, us, _, hus, -, rfl⟩ := h
  obtain ⟨hmem, hall⟩ := blocksOf_ok hholds hps
  obtain ⟨htatamis, hframe, hother, hset⟩ := setLocations_ok (f := fun b => some b.2) hus
  refine ⟨htatamis, hframe, fun b => ?_⟩
  by_cases hb : ∃ p ∈ ps, p.1 = b
  · obtain ⟨p, hp, hpb, hplace⟩ := hset b hb
    obtain ⟨htatami, hsome⟩ := hmem p hp
    have hgroup : p.2.groupId = ⟨e.1.handle.id, p.2.groupId.concurrent, p.2.groupId.sequential⟩ := by
      rw [← htatami]
    exact .inl ⟨p.2.groupId, by rw [← hpb, hsome, ← hgroup], htatami, hplace⟩
  · refine .inr ⟨fun g hg heq => hb (hall b g.concurrent g.sequential ?_),
      hother b fun p hp hpb => hb ⟨p, hp, hpb⟩⟩
    rw [hg, ← heq]

theorem relocates_ok {es : List (TatamiLocation × TatamiStore)} {u u' : TournamentStore} {us : List Unit}
    {place : Block → Option GroupId}
    (hholds : ∀ e ∈ es,
      Layout.TatamiHolds (some e.2.layout) fun b j k => place b = some ⟨e.1.handle.id, j, k⟩)
    (h : forEach relocate es u = .ok us u') :
    u'.tatamis = u.tatamis ∧ u'.outline.frame = u.outline.frame ∧
      ∀ b, (∃ g, place b = some g ∧ g.tatami ∈ es.map (·.1.handle.id) ∧ u'.outline.place b = some g) ∨
        (∀ g, place b = some g → g.tatami ∉ es.map (·.1.handle.id)) ∧
          u'.outline.place b = u.outline.place b := by
  induction es generalizing u us with
  | nil =>
    obtain ⟨rfl, rfl⟩ := forEach_nil_ok.1 h
    exact ⟨rfl, rfl, fun b => .inr ⟨by simp, rfl⟩⟩
  | cons e es ih =>
    obtain ⟨_, u₁, us', he, hes, rfl⟩ := forEach_cons_ok.1 h
    obtain ⟨htatamis, hframe, hplace⟩ := relocate_ok (hholds e List.mem_cons_self) he
    obtain ⟨htatamis', hframe', hplace'⟩ := ih (fun e he => hholds e (List.mem_cons_of_mem _ he)) hes
    refine ⟨htatamis'.trans htatamis, hframe'.trans hframe, fun b => ?_⟩
    rw [List.map_cons]
    obtain ⟨g, hg, hmem, heq⟩ | ⟨hnot', heq'⟩ := hplace' b
    · exact .inl ⟨g, hg, List.mem_cons_of_mem _ hmem, heq⟩
    · obtain ⟨g, hg, htatami, heq⟩ | ⟨hnot, heq⟩ := hplace b
      · exact .inl ⟨g, hg, by simp [htatami], heq'.trans heq⟩
      · refine .inr ⟨fun g hg hmem => ?_, heq'.trans heq⟩
        rcases List.mem_cons.1 hmem with h | h
        · exact hnot g hg h
        · exact hnot' g hg h

/-! ### The action -/

/-- The locations are as the constructor makes them from a count: the index of each is its position. -/
def Constructed (a : SetTatamiCountAction) : Prop :=
  ∀ i (l : TatamiLocation), a.locations[i]? = some l → l.handle.index = i

theorem map_handlesFrom (t : TatamiList) (first : ℕ) :
    (handlesFrom t first).map (·.handle.id) = t.tatamis.ids.drop first := by
  unfold handlesFrom
  rw [List.map_map, List.map_drop]
  congr 1
  show List.map Prod.fst _ = _
  rw [List.zipIdx_map_fst]

theorem index_handlesFrom (t : TatamiList) (first : ℕ) {j : ℕ} {l : TatamiLocation}
    (h : (handlesFrom t first)[j]? = some l) : l.handle.index = first + j := by
  unfold handlesFrom at h
  rw [List.getElem?_map, List.getElem?_drop, List.getElem?_zipIdx, Option.map_map,
    Option.map_eq_some_iff] at h
  obtain ⟨id, -, rfl⟩ := h
  simp

theorem redoImpl_ok {a a' : SetTatamiCountAction} {t t' : TournamentStore}
    (h : a.redoImpl t = .ok a' t') :
    (t.tatamis.tatamis.size < a.locations.length ∧ a' = { a with oldCount := t.tatamis.tatamis.size } ∧
      t' = { t with tatamis := ⟨(a.locations.drop t.tatamis.tatamis.size).foldl
        (fun p l => p.insert l.handle {}) t.tatamis.tatamis⟩ }) ∨
    (a.locations.length ≤ t.tatamis.tatamis.size ∧
      ∃ es, forEach eraseOne (handlesFrom t.tatamis a.locations.length) t = .ok es t' ∧
        a' = { a with oldCount := t.tatamis.tatamis.size, erasedTatamis := a.erasedTatamis ++ es }) := by
  simp only [redoImpl, bind_ok, get_ok] at h
  obtain ⟨_, _, ⟨rfl, rfl⟩, h⟩ := h
  split at h
  · next hlt =>
    simp only [bind_ok, editTatamis_ok, pure_ok, Except.ok.injEq] at h
    obtain ⟨_, _, ⟨_, rfl, rfl⟩, rfl, rfl⟩ := h
    exact .inl ⟨hlt, rfl, rfl⟩
  · next hlt =>
    simp only [bind_ok, pure_ok] at h
    obtain ⟨es, _, hes, rfl, rfl⟩ := h
    exact .inr ⟨not_lt.1 hlt, es, hes, rfl⟩

theorem undoErases_ok {ls : List TatamiLocation} {u u' : TournamentStore} {us : List Unit}
    (h : forEach (fun l => editTatamis fun _ => eraseTatami l) ls u = .ok us u') :
    u' = { u with tatamis := ⟨ls.foldl (fun p l => p.erase l.handle) u.tatamis.tatamis⟩ } := by
  induction ls generalizing u us with
  | nil =>
    obtain ⟨rfl, rfl⟩ := forEach_nil_ok.1 h
    rfl
  | cons l ls ih =>
    obtain ⟨_, u₁, us', hl, hls, rfl⟩ := forEach_cons_ok.1 h
    obtain ⟨tatamis, herase, rfl⟩ := editTatamis_ok.1 hl
    simp only [eraseTatami, except_bind_ok, check_ok, except_pure_ok] at herase
    obtain ⟨-, -, rfl⟩ := herase
    exact ih hls

theorem layout_foldl_insert (ls : List TatamiLocation) (p : PositionManager TatamiStore) :
    TatamiList.layout ⟨ls.foldl (fun p l => p.insert l.handle {}) p⟩ =
      ls.foldl (fun L l => PositionManager.insert L l.handle {}) (TatamiList.layout ⟨p⟩) := by
  induction ls generalizing p with
  | nil => rfl
  | cons l ls ih =>
    rw [List.foldl_cons, List.foldl_cons, ih]
    congr 1
    exact PositionManager.map_insert _ _ _ _

/-- The new tatamis are the last ones and have no groups. -/
theorem revocable_grow {a : SetTatamiCountAction} (ha : a.Constructed) {t : TournamentStore}
    (ht : LayoutSound t) :
    LayoutSound { t with tatamis := ⟨(a.locations.drop t.tatamis.tatamis.size).foldl
        (fun p l => p.insert l.handle {}) t.tatamis.tatamis⟩ } ∧
      LayoutBack (undoImpl { a with oldCount := t.tatamis.tatamis.size })
        (fun b => b.erasedTatamis = a.erasedTatamis)
        ({ t with tatamis := ⟨(a.locations.drop t.tatamis.tatamis.size).foldl
          (fun p l => p.insert l.handle {}) t.tatamis.tatamis⟩ } : TournamentStore).outline t.outline := by
  have hend : ∀ j (l : TatamiLocation), (a.locations.drop t.tatamis.tatamis.size)[j]? = some l →
      t.tatamis.tatamis.ids.length + j ≤ l.handle.index := by
    intro j l hl
    rw [List.getElem?_drop] at hl
    rw [ha _ l hl]
    exact le_rfl
  obtain ⟨new, hids⟩ := PositionManager.ids_foldl_insert (a := ({} : TatamiStore)) hend
  obtain ⟨hsound, hholds⟩ := Layout.holds_iff.1 ht.placed
  have hplaced : Placed { t with tatamis := ⟨(a.locations.drop t.tatamis.tatamis.size).foldl
      (fun p l => p.insert l.handle {}) t.tatamis.tatamis⟩ } := by
    unfold Placed
    show (TatamiList.layout ⟨_⟩).Holds t.outline.place
    rw [layout_foldl_insert, Layout.holds_iff]
    refine ⟨hsound.foldl_insert _ _, fun i => ?_⟩
    rcases PositionManager.elements_foldl_insert (p := TatamiList.layout ⟨t.tatamis.tatamis⟩)
      (a.locations.drop t.tatamis.tatamis.size) (i := i) (a := {}) with heq | ⟨hnone, heq⟩
    · rw [heq]
      exact hholds i
    · rw [heq]
      refine Layout.tatamiHolds_of_empty (.inr rfl) fun b j k hb => ?_
      have hmem := ht.placed.tatami_mem hb
      rw [hsound.mem_ids] at hmem
      exact hmem hnone
  refine ⟨⟨hplaced, ht.allowed.of_le (fun _ _ h => h) fun _ _ h => h⟩, ?_⟩
  intro u b u' hu ho h
  have hids' : u.tatamis.tatamis.ids = t.tatamis.tatamis.ids ++ new :=
    (congrArg Outline.tatamis ho).trans hids
  have hplace' : u.outline.place = t.outline.place := by
    rw [ho]
    rfl
  have hcategories' : u.outline.categories = t.outline.categories := by
    rw [ho]
    rfl
  simp only [undoImpl, bind_ok, get_ok] at h
  obtain ⟨_, _, ⟨hget, hsame⟩, h⟩ := h
  rw [hget, hsame] at h
  have hsize : u.tatamis.tatamis.size = t.tatamis.tatamis.size + new.length := by
    unfold PositionManager.size
    rw [hids', List.length_append]
  split at h
  · simp only [bind_ok, pure_ok] at h
    obtain ⟨us, _, hus, rfl, rfl⟩ := h
    obtain rfl := undoErases_ok hus
    have hlast : u.tatamis.tatamis.ids = t.tatamis.tatamis.ids ++
        (handlesFrom u.tatamis t.tatamis.tatamis.size).map (·.handle.id) := by
      rw [map_handlesFrom, hids']
      unfold PositionManager.size
      rw [List.drop_left]
    obtain ⟨husound, huholds⟩ := Layout.holds_iff.1 hu
    obtain ⟨hsound', hids₂, helements⟩ := husound.of_map.foldl_erase hlast
    have houtline : ({ u with tatamis := ⟨(handlesFrom u.tatamis t.tatamis.tatamis.size).foldl
        (fun p l => p.erase l.handle) u.tatamis.tatamis⟩ } : TournamentStore).outline = t.outline :=
      Outline.ext hids₂ hcategories'
    refine ⟨?_, houtline, rfl⟩
    unfold Placed
    rw [houtline, Layout.holds_iff]
    refine ⟨hsound'.map _, fun i => ?_⟩
    show Layout.TatamiHolds (Option.map _ (PositionManager.elements _ i)) _
    rw [helements]
    split
    · next hi =>
      refine Layout.tatamiHolds_of_empty (.inl rfl) fun b j k hb => ?_
      have hnodup := husound.nodup
      rw [show PositionManager.ids u.tatamis.layout = _ from hlast, List.nodup_append] at hnodup
      exact hnodup.2.2 i (ht.placed.tatami_mem hb) i hi rfl
    · rw [← hplace']
      exact huholds i
  · next hle =>
    have hnil : new = [] := by
      rw [hsize] at hle
      exact List.length_eq_zero_iff.1 (by omega)
    rw [if_neg (by omega)] at h
    obtain ⟨rfl, rfl⟩ := pure_ok.1 h
    refine ⟨hu, Outline.ext ?_ hcategories', rfl⟩
    show u.tatamis.tatamis.ids = t.tatamis.tatamis.ids
    rw [hids', hnil, List.append_nil]

theorem holds_saved {t : TournamentStore} (ht : Placed t) {e : TatamiLocation × TatamiStore}
    (he : t.tatamis.tatamis.elements e.1.handle.id = some e.2) :
    Layout.TatamiHolds (some e.2.layout) fun b j k =>
      t.outline.place b = some ⟨e.1.handle.id, j, k⟩ := by
  have hholds := (Layout.holds_iff.1 ht).2 e.1.handle.id
  have hsome : t.tatamis.layout.elements e.1.handle.id = some e.2.layout := by
    show Option.map _ (t.tatamis.tatamis.elements e.1.handle.id) = _
    rw [he]
    rfl
  rwa [hsome] at hholds

/-- The erased tatamis come back with the blocks that they had. -/
theorem revocable_shrink {n : ℕ} {t t' : TournamentStore} (ht : LayoutSound t)
    (hle : n ≤ t.tatamis.tatamis.size) {es : List (TatamiLocation × TatamiStore)}
    (hes : forEach eraseOne (handlesFrom t.tatamis n) t = .ok es t') {a : SetTatamiCountAction}
    (hcount : a.oldCount = t.tatamis.tatamis.size) (herased : a.erasedTatamis = es) :
    LayoutSound t' ∧ LayoutBack a.undoImpl (fun b => b.erasedTatamis = []) t'.outline t.outline := by
  obtain ⟨hsound, hholds⟩ := Layout.holds_iff.1 ht.placed
  have hids : t.tatamis.tatamis.ids =
      t.tatamis.tatamis.ids.take n ++ (handlesFrom t.tatamis n).map (·.handle.id) := by
    rw [map_handlesFrom, List.take_append_drop]
  have hnodup : ((handlesFrom t.tatamis n).map (·.handle.id)).Nodup := by
    rw [map_handlesFrom]
    exact hsound.nodup.sublist (List.drop_sublist _ _)
  obtain ⟨ht', hlocations, hsaved, htatamis, hframe, hplace⟩ := erases_ok ht.placed hnodup hes
  obtain ⟨-, hids', -⟩ := hsound.of_map.foldl_erase hids
  rw [← htatamis] at hids'
  have hesids : es.map (·.1.handle.id) = (handlesFrom t.tatamis n).map (·.handle.id) := by
    rw [← hlocations, List.map_map]
    rfl
  refine ⟨⟨ht', ht.allowed.of_le (fun id f hf => by rwa [hframe] at hf) fun b g hb => ?_⟩, ?_⟩
  · rw [hplace] at hb
    exact (Option.filter_eq_some_iff.1 hb).1
  intro u b u' hu ho h
  have huids : u.tatamis.tatamis.ids = t.tatamis.tatamis.ids.take n :=
    (congrArg Outline.tatamis ho).trans hids'
  have hsize : u.tatamis.tatamis.size = n := by
    unfold PositionManager.size at hle ⊢
    rw [huids, List.length_take, Nat.min_eq_left hle]
  simp only [undoImpl, bind_ok, get_ok] at h
  obtain ⟨_, _, ⟨hget, hsame⟩, h⟩ := h
  rw [hget, hsame, hcount, hsize, if_neg (by omega)] at h
  split at h
  · simp only [bind_ok, editTatamis_ok, pure_ok, Except.ok.injEq] at h
    obtain ⟨us, u₁, hus, _, _, ⟨_, rfl, rfl⟩, rfl, rfl⟩ := h
    rw [herased] at hus ⊢
    obtain ⟨hutatamis, huframe, huplace⟩ :=
      relocates_ok (fun e he => holds_saved ht.placed (hsaved e he)) hus
    obtain ⟨husound, huholds⟩ := Layout.holds_iff.1 hu
    rw [hutatamis]
    have hindex : ∀ j (e : TatamiLocation × TatamiStore), es[j]? = some e →
        e.1.handle.index = u.tatamis.tatamis.ids.length + j := by
      intro j e hj
      have hl : (handlesFrom t.tatamis n)[j]? = some e.1 := by
        rw [← hlocations, List.getElem?_map, hj]
        rfl
      rw [index_handlesFrom _ _ hl, ← hsize]
      rfl
    have hnew : ∀ e ∈ es, u.tatamis.tatamis.elements e.1.handle.id = none := by
      intro e he
      by_contra hne
      have hmem := husound.of_map.mem_ids.2 hne
      rw [huids] at hmem
      have hdisjoint := hsound.nodup
      rw [show PositionManager.ids t.tatamis.layout = _ from hids, List.nodup_append] at hdisjoint
      refine hdisjoint.2.2 _ hmem _ ?_ rfl
      rw [← hesids]
      exact List.mem_map_of_mem (f := fun e => e.1.handle.id) he
    obtain ⟨hids₂, hother, hrestored⟩ :=
      PositionManager.ids_foldl_restore (a := ({} : TatamiStore)) hindex hnew (hesids ▸ hnodup)
    have hids₃ : (es.foldl (fun p e => (p.insert e.1.handle {}).set e.1.handle e.2)
        u.tatamis.tatamis).ids = t.tatamis.tatamis.ids := by
      rw [hids₂, huids, hesids, ← hids]
    have hplace₂ : u₁.outline.place = t.outline.place := by
      funext b
      obtain ⟨g, hg, -, heq⟩ | ⟨hnot, heq⟩ := huplace b
      · rw [heq, hg]
      · rw [heq, ho, hplace]
        show Option.filter _ (t.outline.place b) = t.outline.place b
        cases hg : t.outline.place b with
        | none => rfl
        | some g =>
          have hout := hnot g hg
          rw [hesids] at hout
          exact Option.filter_eq_some_iff.2 ⟨rfl, by simpa using hout⟩
    have houtline : ({ u₁ with tatamis := ⟨es.foldl
        (fun p e => (p.insert e.1.handle {}).set e.1.handle e.2) u.tatamis.tatamis⟩ } :
        TournamentStore).outline = t.outline := by
      refine Outline.ext_place hids₃ ?_ hplace₂
      show u₁.outline.frame = _
      rw [huframe, ho, hframe]
    have hsound₂ : (es.foldl (fun p e => (p.insert e.1.handle {}).set e.1.handle e.2)
        u.tatamis.tatamis).Sound := by
      refine ⟨by rw [hids₃]; exact hsound.nodup, fun i => ?_⟩
      rw [hids₃]
      by_cases hi : i ∈ es.map (·.1.handle.id)
      · obtain ⟨e, he, rfl⟩ := List.mem_map.1 hi
        rw [hrestored e he, hsound.of_map.keys, hsaved e he, Option.isSome_some]
      · rw [hother i hi, ← husound.of_map.keys, hids, huids]
        rw [hesids] at hi
        simp [hi]
    refine ⟨?_, houtline, rfl⟩
    unfold Placed
    rw [houtline, Layout.holds_iff]
    refine ⟨hsound₂.map _, fun i => ?_⟩
    show Layout.TatamiHolds (Option.map _ (PositionManager.elements _ i)) _
    by_cases hi : i ∈ es.map (·.1.handle.id)
    · obtain ⟨e, he, rfl⟩ := List.mem_map.1 hi
      rw [hrestored e he]
      exact holds_saved ht.placed (hsaved e he)
    · rw [hother i hi]
      refine (huholds i).congr fun b j k => ?_
      rw [hesids] at hi
      rw [ho, hplace, Option.filter_eq_some_iff]
      simp [hi]
  · next hlt =>
    have hempty : handlesFrom t.tatamis n = [] := by
      have hlength := congrArg List.length (map_handlesFrom t.tatamis n)
      rw [List.length_map, List.length_drop] at hlength
      unfold PositionManager.size at hlt
      exact List.length_eq_zero_iff.1 (by omega)
    rw [hempty] at hes
    obtain ⟨rfl, rfl⟩ := forEach_nil_ok.1 hes
    obtain ⟨rfl, rfl⟩ := pure_ok.1 h
    exact ⟨hu, ho, herased⟩

theorem revocable {a : SetTatamiCountAction} (ha : a.Constructed) (hidle : a.erasedTatamis = []) :
    LayoutRevocable a.redoImpl undoImpl fun a => a.erasedTatamis = [] := by
  intro t a' t' ht h
  obtain ⟨-, rfl, rfl⟩ | ⟨hle, es, hes, rfl⟩ := redoImpl_ok h
  · obtain ⟨ht', hback⟩ := revocable_grow ha ht
    exact ⟨ht', hback.mono fun b hb => hb.trans hidle⟩
  · exact revocable_shrink ht hle hes rfl (by rw [hidle, List.nil_append])

end SetTatamiCountAction

end JudoAssistant
