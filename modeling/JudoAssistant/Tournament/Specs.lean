import JudoAssistant.Tournament.Actions

/-!
# What the operations on the tournament do

One lemma for every operation of `Exec` says when it returns and what it then has done.  The frame
lemmas say which functions of the tournament an operation leaves.
-/

namespace JudoAssistant

open Effect

namespace Exec

variable {α β γ : Type} {t t' : TournamentStore}

/-! ### Reading and writing -/

theorem read_ok {f : TournamentStore → Except Failure α} {a : α} :
    read f t = .ok a t' ↔ f t = .ok a ∧ t = t' := lift_ok

theorem getPlayer_ok {id : PlayerId} {p : PlayerStore} :
    getPlayer id t = .ok p t' ↔ t.players id = some p ∧ t = t' := by
  rw [getPlayer, read_ok, TournamentStore.getPlayer]
  cases t.players id <;> simp

theorem getCategory_eq_ok {categories : Categories} {id : CategoryId} {c : CategoryStore} :
    categories.getCategory id = .ok c ↔ categories id = some c := by
  rw [Categories.getCategory]
  cases categories id <;> simp

theorem getCategory_ok {id : CategoryId} {c : CategoryStore} :
    getCategory id t = .ok c t' ↔ t.categories id = some c ∧ t = t' := by
  rw [getCategory, read_ok, TournamentStore.getCategory, getCategory_eq_ok]

theorem editPlayer_ok {id : PlayerId} {f : PlayerStore → Except Failure PlayerStore} {u : Unit} :
    editPlayer id f t = .ok u t' ↔
      ∃ p p', t.players id = some p ∧ f p = .ok p' ∧ t' = t.setPlayer id p' := by
  simp only [editPlayer, bind_ok, getPlayer_ok, lift_ok, modify_ok]
  constructor
  · rintro ⟨p, _, ⟨hp, rfl⟩, p', _, ⟨hf, rfl⟩, rfl⟩
    exact ⟨p, p', hp, hf, rfl⟩
  · rintro ⟨p, p', hp, hf, rfl⟩
    exact ⟨p, _, ⟨hp, rfl⟩, p', _, ⟨hf, rfl⟩, rfl⟩

theorem editCategory_ok {id : CategoryId} {f : CategoryStore → Except Failure CategoryStore}
    {u : Unit} :
    editCategory id f t = .ok u t' ↔
      ∃ c c', t.categories id = some c ∧ f c = .ok c' ∧ t' = t.setCategory id c' := by
  simp only [editCategory, bind_ok, getCategory_ok, lift_ok, modify_ok]
  constructor
  · rintro ⟨c, _, ⟨hc, rfl⟩, c', _, ⟨hf, rfl⟩, rfl⟩
    exact ⟨c, c', hc, hf, rfl⟩
  · rintro ⟨c, c', hc, hf, rfl⟩
    exact ⟨c, _, ⟨hc, rfl⟩, c', _, ⟨hf, rfl⟩, rfl⟩

theorem check_ok {component : Component} {b : Bool} {u : Unit} :
    check component b = .ok u ↔ b = true := by
  cases b <;> simp [check]

theorem addPlayer_ok {p : PlayerStore} {u : Unit} :
    addPlayer p t = .ok u t' ↔ t.players p.id = none ∧ t' = t.setPlayer p.id p := by
  simp only [addPlayer, bind_ok, get_ok, lift_ok, check_ok, modify_ok, Option.isNone_iff_eq_none]
  constructor
  · rintro ⟨_, _, ⟨rfl, rfl⟩, _, _, ⟨hp, rfl⟩, rfl⟩
    exact ⟨hp, rfl⟩
  · rintro ⟨hp, rfl⟩
    exact ⟨t, t, ⟨rfl, rfl⟩, (), t, ⟨hp, rfl⟩, rfl⟩

theorem erasePlayer_ok {id : PlayerId} {p : PlayerStore} :
    erasePlayer id t = .ok p t' ↔ t.players id = some p ∧
      t' = { t with players := Function.update t.players id none } := by
  simp only [erasePlayer, bind_ok, getPlayer_ok, modify_ok, pure_ok]
  constructor
  · rintro ⟨_, _, ⟨hp, rfl⟩, _, _, rfl, rfl, rfl⟩
    exact ⟨hp, rfl⟩
  · rintro ⟨hp, rfl⟩
    exact ⟨p, t, ⟨hp, rfl⟩, (), _, rfl, rfl, rfl⟩

theorem addCategory_ok {c : CategoryStore} {u : Unit} :
    addCategory c t = .ok u t' ↔ t.categories c.id = none ∧ t' = t.setCategory c.id c := by
  simp only [addCategory, bind_ok, get_ok, lift_ok, check_ok, modify_ok, Option.isNone_iff_eq_none]
  constructor
  · rintro ⟨_, _, ⟨rfl, rfl⟩, _, _, ⟨hc, rfl⟩, rfl⟩
    exact ⟨hc, rfl⟩
  · rintro ⟨hc, rfl⟩
    exact ⟨t, t, ⟨rfl, rfl⟩, (), t, ⟨hc, rfl⟩, rfl⟩

theorem eraseCategory_ok {id : CategoryId} {c : CategoryStore} :
    eraseCategory id t = .ok c t' ↔ t.categories id = some c ∧
      t' = { t with categories := Function.update t.categories id none } := by
  simp only [eraseCategory, bind_ok, getCategory_ok, modify_ok, pure_ok]
  constructor
  · rintro ⟨_, _, ⟨hc, rfl⟩, _, _, rfl, rfl, rfl⟩
    exact ⟨hc, rfl⟩
  · rintro ⟨hc, rfl⟩
    exact ⟨c, t, ⟨hc, rfl⟩, (), _, rfl, rfl, rfl⟩

theorem editTatamis_ok {f : Categories → TatamiList → Except Failure TatamiList} {u : Unit} :
    editTatamis f t = .ok u t' ↔
      ∃ tatamis, f t.categories t.tatamis = .ok tatamis ∧ t' = { t with tatamis := tatamis } := by
  simp only [editTatamis, bind_ok, get_ok, lift_ok, set_ok]
  constructor
  · rintro ⟨_, _, ⟨rfl, rfl⟩, tatamis, _, ⟨hf, rfl⟩, rfl⟩
    exact ⟨tatamis, hf, rfl⟩
  · rintro ⟨tatamis, hf, rfl⟩
    exact ⟨t, t, ⟨rfl, rfl⟩, tatamis, t, ⟨hf, rfl⟩, rfl⟩

/-! ### Loops -/

theorem forEach_nil_ok {f : α → Exec β} {bs : List β} :
    forEach f [] t = .ok bs t' ↔ bs = [] ∧ t' = t := by
  simp [forEach, eq_comm]

theorem forEach_cons_ok {f : α → Exec β} {a : α} {as : List α} {bs : List β} :
    forEach f (a :: as) t = .ok bs t' ↔
      ∃ b t₁ bs', f a t = .ok b t₁ ∧ forEach f as t₁ = .ok bs' t' ∧ bs = b :: bs' := by
  simp only [forEach, bind_ok, pure_ok]
  constructor
  · rintro ⟨b, t₁, hb, bs', _, hbs, rfl, rfl⟩
    exact ⟨b, t₁, bs', hb, hbs, rfl⟩
  · rintro ⟨b, t₁, bs', hb, hbs, rfl⟩
    exact ⟨b, t₁, hb, bs', t', hbs, rfl, rfl⟩

theorem forEach_append_ok {f : α → Exec β} {as as' : List α} {bs : List β} :
    forEach f (as ++ as') t = .ok bs t' ↔ ∃ xs ys t₁, forEach f as t = .ok xs t₁ ∧
      forEach f as' t₁ = .ok ys t' ∧ bs = xs ++ ys := by
  induction as generalizing t bs with
  | nil =>
    constructor
    · intro h
      exact ⟨[], bs, t, forEach_nil_ok.2 ⟨rfl, rfl⟩, h, rfl⟩
    · rintro ⟨xs, ys, t₁, hxs, hys, rfl⟩
      obtain ⟨rfl, rfl⟩ := forEach_nil_ok.1 hxs
      exact hys
  | cons a as ih =>
    rw [List.cons_append, forEach_cons_ok]
    constructor
    · rintro ⟨b, t₁, bs', hb, hbs, rfl⟩
      obtain ⟨xs, ys, t₂, hxs, hys, rfl⟩ := ih.1 hbs
      exact ⟨b :: xs, ys, t₂, forEach_cons_ok.2 ⟨b, t₁, xs, hb, hxs, rfl⟩, hys, rfl⟩
    · rintro ⟨xs, ys, t₂, hxs, hys, rfl⟩
      obtain ⟨b, t₁, xs', hb, hxs', rfl⟩ := forEach_cons_ok.1 hxs
      exact ⟨b, t₁, xs' ++ ys, hb, ih.2 ⟨xs', ys, t₂, hxs', hys, rfl⟩, rfl⟩

theorem keeps_forEach {I : TournamentStore → Prop} {P : β → Prop} {f : α → Exec β} {as : List α}
    (h : ∀ a ∈ as, Keeps I (f a) P) : Keeps I (forEach f as) fun bs => ∀ b ∈ bs, P b := by
  induction as with
  | nil => exact Keeps.pure (by simp)
  | cons a as ih =>
    refine (h a List.mem_cons_self).bind fun b hb => ?_
    refine (ih fun a ha => h a (List.mem_cons_of_mem _ ha)).bind fun bs hbs => ?_
    exact Keeps.pure (by simpa using ⟨hb, hbs⟩)

theorem keeps_forEach_unit {I : TournamentStore → Prop} {f : α → Exec β} {as : List α}
    (h : ∀ a ∈ as, Keeps I (f a) fun _ => True) : Keeps I (forEach f as) fun _ => True :=
  (keeps_forEach h).mono fun _ _ => trivial

theorem frame_forEach {g : TournamentStore → γ} {f : α → Exec β} {as : List α}
    (h : ∀ a ∈ as, Frame g (f a)) : Frame g (forEach f as) := by
  induction as with
  | nil => exact Frame.pure
  | cons a as ih =>
    refine (h a List.mem_cons_self).bind fun b => ?_
    exact (ih fun a ha => h a (List.mem_cons_of_mem _ ha)).bind fun bs => Frame.pure

/-! ### Taking loops back -/

section

variable {δ : Type} {I J : TournamentStore → Prop} {view : TournamentStore → δ} {o o' o'' : δ}

theorem leadsBack_nil {f : α → Exec β} : LeadsBack I view (forEach f []) (fun _ => True) o o :=
  .pure trivial

theorem leadsBack_append {f : α → Exec β} {as as' : List α}
    (h : LeadsBack I view (forEach f as) (fun _ => True) o o')
    (h' : LeadsBack I view (forEach f as') (fun _ => True) o' o'') :
    LeadsBack I view (forEach f (as ++ as')) (fun _ => True) o o'' := by
  intro u bs u' hu ho hbs
  obtain ⟨xs, ys, u₁, hxs, hys, rfl⟩ := forEach_append_ok.1 hbs
  obtain ⟨hu₁, ho₁, -⟩ := h hu ho hxs
  exact h' hu₁ ho₁ hys

theorem leadsBack_singleton {f : α → Exec β} {a : α} {Q : β → Prop}
    (h : LeadsBack I view (f a) Q o o') : LeadsBack I view (forEach f [a]) (fun _ => True) o o' := by
  intro u bs u' hu ho hbs
  obtain ⟨b, u₁, bs', hb, hbs', rfl⟩ := forEach_cons_ok.1 hbs
  obtain ⟨rfl, rfl⟩ := forEach_nil_ok.1 hbs'
  obtain ⟨hu₁, ho₁, -⟩ := h hu ho hb
  exact ⟨hu₁, ho₁, trivial⟩

theorem recovers_nil {f : α → Exec β} : Recovers I view (forEach f []) (fun _ => True) o o :=
  fun u hu ho => ⟨[], u, forEach_nil_ok.2 ⟨rfl, rfl⟩, hu, ho, trivial⟩

theorem recovers_append {f : α → Exec β} {as as' : List α}
    (h : Recovers I view (forEach f as) (fun _ => True) o o')
    (h' : Recovers I view (forEach f as') (fun _ => True) o' o'') :
    Recovers I view (forEach f (as ++ as')) (fun _ => True) o o'' := by
  intro u hu ho
  obtain ⟨xs, u₁, hxs, hu₁, ho₁, -⟩ := h hu ho
  obtain ⟨ys, u₂, hys, hu₂, ho₂, -⟩ := h' hu₁ ho₁
  exact ⟨xs ++ ys, u₂, forEach_append_ok.2 ⟨xs, ys, u₁, hxs, hys, rfl⟩, hu₂, ho₂, trivial⟩

theorem recovers_singleton {f : α → Exec β} {a : α} {Q : β → Prop}
    (h : Recovers I view (f a) Q o o') : Recovers I view (forEach f [a]) (fun _ => True) o o' := by
  intro u hu ho
  obtain ⟨b, u₁, hb, hu₁, ho₁, -⟩ := h hu ho
  exact ⟨[b], u₁, forEach_cons_ok.2 ⟨b, u₁, [], hb, forEach_nil_ok.2 ⟨rfl, rfl⟩, rfl⟩, hu₁,
    ho₁, trivial⟩

/-- A loop of computations that can be taken back, and the loop over its results from the last one to
the first. -/
theorem revocable_forEach {f : α → Exec β} {undo : β → Exec γ} {as : List α} {R : γ → Prop}
    (h : ∀ a ∈ as, Revocable J I view (f a) undo R) :
    Revocable J I view (forEach f as) (fun bs => forEach undo bs.reverse) fun _ => True := by
  induction as with
  | nil =>
    intro t bs t' ht hbs
    obtain ⟨rfl, rfl⟩ := forEach_nil_ok.1 hbs
    exact ⟨ht, leadsBack_nil⟩
  | cons a as ih =>
    intro t bs t' ht hbs
    obtain ⟨b, t₁, bs', hb, hbs', rfl⟩ := forEach_cons_ok.1 hbs
    obtain ⟨ht₁, hback⟩ := h a List.mem_cons_self ht hb
    obtain ⟨ht', hback'⟩ := ih (fun a ha => h a (List.mem_cons_of_mem _ ha)) ht₁ hbs'
    refine ⟨ht', ?_⟩
    show LeadsBack _ _ (forEach undo (b :: bs').reverse) _ _ _
    rw [List.reverse_cons]
    exact leadsBack_append hback' (leadsBack_singleton hback)

end

/-! ### Frames -/

section

variable {g : TournamentStore → γ}

theorem frame_read {f : TournamentStore → Except Failure α} : Frame g (read f) := by
  intro t a t' h
  obtain ⟨-, rfl⟩ := read_ok.1 h
  rfl

theorem frame_getCategory {id : CategoryId} : Frame g (getCategory id) := frame_read

theorem frame_getMatch {id : CombinedId} : Frame g (getMatch id) :=
  frame_getCategory.bind fun _ => Frame.lift

theorem frame_doIf {b : Bool} {x : Exec Unit} (h : Frame g x) : Frame g (doIf b x) := by
  cases b
  · exact Frame.pure
  · exact h

theorem frame_editPlayer {id : PlayerId} {f : PlayerStore → Except Failure PlayerStore}
    (h : ∀ t p p', t.players id = some p → f p = .ok p' → g (t.setPlayer id p') = g t) :
    Frame g (editPlayer id f) := by
  intro t _ t' ht
  obtain ⟨p, p', hp, hf, rfl⟩ := editPlayer_ok.1 ht
  exact h t p p' hp hf

theorem frame_editCategory {id : CategoryId} {f : CategoryStore → Except Failure CategoryStore}
    (h : ∀ t c c', t.categories id = some c → f c = .ok c' → g (t.setCategory id c') = g t) :
    Frame g (editCategory id f) := by
  intro t _ t' ht
  obtain ⟨c, c', hc, hf, rfl⟩ := editCategory_ok.1 ht
  exact h t c c' hc hf

theorem frame_editTatamis {f : Categories → TatamiList → Except Failure TatamiList}
    (h : ∀ t tatamis, f t.categories t.tatamis = .ok tatamis → g { t with tatamis := tatamis } = g t) :
    Frame g (editTatamis f) := by
  intro t _ t' ht
  obtain ⟨tatamis, hf, rfl⟩ := editTatamis_ok.1 ht
  exact h t tatamis hf

end

end Exec

/-! ### Drawing a category -/

theorem TournamentStore.setCategory_setCategory (t : TournamentStore) (id : CategoryId)
    (c c' : CategoryStore) : (t.setCategory id c).setCategory id c' = t.setCategory id c' := by
  simp [TournamentStore.setCategory]

@[simp] theorem TournamentStore.categories_setCategory_self (t : TournamentStore) (id : CategoryId)
    (c : CategoryStore) : (t.setCategory id c).categories id = some c := by
  simp [TournamentStore.setCategory]

section

variable {β : Type} {g : TournamentStore → β}

theorem frame_addTo (h : ∀ t id p, g (t.setPlayer id p) = g t) {id : CombinedId}
    {player : Option PlayerId} : Frame g (SetMatchPlayerAction.addTo id player) := by
  cases player with
  | none => exact Frame.pure
  | some p => exact Exec.frame_editPlayer fun t _ p' _ _ => h t _ p'

theorem frame_eraseFrom (h : ∀ t id p, g (t.setPlayer id p) = g t) {id : CombinedId}
    {player : Option PlayerId} : Frame g (SetMatchPlayerAction.eraseFrom id player) := by
  cases player with
  | none => exact Frame.pure
  | some p => exact Exec.frame_editPlayer fun t _ p' _ _ => h t _ p'

theorem frame_releasePlayers (h : ∀ t id p, g (t.setPlayer id p) = g t) {id : CombinedId}
    {m : MatchStore} : Frame g (DrawCategoriesAction.releasePlayers id m) :=
  Frame.get.bind fun _ => (frame_eraseFrom h).bind fun _ => frame_eraseFrom h

end

namespace DrawCategoriesAction

/-- The course of the draw of a category: the matches leave the sets of their players, the category is
cleared and gets the new draw system, the new matches are added and counted. -/
theorem drawCategory_ok {seed : ℕ} {id : CategoryId} {t t' : TournamentStore} {d : DrawnCategory}
    (h : drawCategory seed id t = .ok d t') :
    ∃ c us t₁ drawSystem actions us' t₂ c₂,
      t.categories id = some c ∧
      Exec.forEach (fun m => releasePlayers ⟨id, m.id⟩ m) c.matchList t = .ok us t₁ ∧
      t₁.categories = t.categories ∧
      c.drawSystem.initCategory (t₁.setCategory id c.clearMatches) c.clearMatches (inOrder c.players)
        seed = .ok (drawSystem, actions) ∧
      Exec.forEach AddMatchAction.redoImpl actions
        (t₁.setCategory id (c.clearMatches.setDrawSystem drawSystem)) = .ok us' t₂ ∧
      t₂.categories id = some c₂ ∧
      t' = t₂.setCategory id { c₂ with status := computeStatus c₂.matchList } ∧
      d = ⟨id, c.matchList, actions, c.drawSystem, c.status⟩ := by
  simp only [drawCategory, bind_ok, Exec.getCategory_ok, Exec.editCategory_ok, Exec.read_ok, pure_ok,
    Except.ok.injEq] at h
  obtain ⟨c, _, ⟨hc, rfl⟩, us, t₁, hus, _, _, ⟨c₁, _, hc₁, rfl, rfl⟩, cleared, _, ⟨hcleared, rfl⟩,
    ⟨drawSystem, actions⟩, _, ⟨hinit, rfl⟩, h⟩ := h
  obtain ⟨_, _, ⟨c₃, _, hc₃, rfl, rfl⟩, us', t₂, hus', _, _, ⟨c₂, _, hc₂, rfl, rfl⟩,
    rfl, rfl⟩ := h
  have hcategories : t₁.categories = t.categories :=
    Exec.frame_forEach (fun m _ => frame_releasePlayers fun _ _ _ => rfl) hus
  rw [hcategories, hc] at hc₁
  cases hc₁
  rw [TournamentStore.categories_setCategory_self] at hcleared hc₃
  cases hcleared
  cases hc₃
  rw [TournamentStore.setCategory_setCategory] at hus'
  exact ⟨c, us, t₁, drawSystem, actions, us', t₂, c₂, hc, hus, hcategories, hinit, hus', hc₂, rfl, rfl⟩

/-- The course of the recovery of a category. -/
theorem recoverCategory_ok {d : DrawnCategory} {t t' : TournamentStore} {u : Unit}
    (h : recoverCategory d t = .ok u t') :
    ∃ us t₁ c us', Exec.forEach AddMatchAction.undoImpl d.actions.reverse t = .ok us t₁ ∧
      t₁.categories d.categoryId = some c ∧
      Exec.forEach (fun m => do
          engagePlayers m
          Exec.editCategory d.categoryId (·.pushMatch m)) d.oldMatches
        (t₁.setCategory d.categoryId { c.setDrawSystem d.oldDrawSystem with status := d.oldStatus }) =
          .ok us' t' := by
  simp only [recoverCategory, bind_ok, Exec.getCategory_ok, Exec.editCategory_ok, pure_ok,
    Except.ok.injEq] at h
  obtain ⟨_, _, ⟨_, rfl⟩, us, t₁, hus, _, _, ⟨c, _, hc, rfl, rfl⟩, _, _,
    ⟨c₁, _, hc₁, rfl, rfl⟩, us', _, hus', -, rfl⟩ := h
  rw [TournamentStore.categories_setCategory_self] at hc₁
  cases hc₁
  rw [TournamentStore.setCategory_setCategory] at hus'
  exact ⟨us, t₁, c, us', hus, hc, hus'⟩

end DrawCategoriesAction

/-- Drawing keeps the kind of the draw system. -/
theorem DrawSystem.getIdentifier_initCategory {t : TournamentStore} {c : CategoryStore}
    {playerIds : List PlayerId} {seed : ℕ} {d d' : DrawSystem} {actions : List AddMatchAction}
    (h : d.initCategory t c playerIds seed = .ok (d', actions)) :
    d'.getIdentifier = d.getIdentifier := by
  cases d <;>
  · simp only [initCategory, except_bind_ok, except_pure_ok, Prod.mk.injEq] at h
    obtain ⟨_, _, rfl, _⟩ := h
    rfl

/-! ### Changing the players of a category -/

/-- The draw action of a category is a new one for it alone. -/
theorem RedrawAction.run_ok {id : CategoryId} {seed : ℕ} {t t' : TournamentStore} {a : RedrawAction}
    (h : run id seed t = .ok a t') :
    (∃ b, DrawCategoriesAction.redoImpl { categoryIds := [id], seed := seed } t = .ok b t' ∧
      a = .draw b) ∨
    ∃ drawSystem b, (∀ c, t.categories id = some c → c.drawSystem.getIdentifier ≠ drawSystem) ∧
      ChangeCategoriesDrawSystemAction.redoImpl
        { categoryIds := [id], drawSystem := drawSystem, seed := seed } t = .ok b t' ∧
      a = .changeDrawSystem b := by
  simp only [run, bind_ok, Exec.getCategory_ok, Exec.read_ok, create, except_bind_ok,
    except_pure_ok] at h
  obtain ⟨c, _, ⟨hc, rfl⟩, _, _, ⟨⟨preferred, -, rfl⟩, rfl⟩, h⟩ := h
  split at h
  · next hne =>
    simp only [redo, bind_ok, pure_ok] at h
    obtain ⟨b, _, hb, rfl, rfl⟩ := h
    refine .inr ⟨preferred, b, fun c' hc' => ?_, hb, rfl⟩
    cases hc.symm.trans hc'
    exact hne
  · simp only [redo, bind_ok, pure_ok] at h
    obtain ⟨b, _, hb, rfl, rfl⟩ := h
    exact .inl ⟨b, hb, rfl⟩

theorem AddPlayersToCategoryAction.redoImpl_ok {a a' : AddPlayersToCategoryAction}
    {t t' : TournamentStore} (h : a.redoImpl t = .ok a' t') :
    (a' = a ∧ t' = t ∧ t.categories a.categoryId = none) ∨
    ∃ added t₁, t.categories a.categoryId ≠ none ∧
      changeMembers a.categoryId false (joinCategory a.categoryId) a.playerIds t = .ok added t₁ ∧
      ((a.addedPlayerIds ++ added = [] ∧ a' = a ∧ t' = t₁) ∨
        a.addedPlayerIds ++ added ≠ [] ∧ ∃ r, RedrawAction.run a.categoryId a.seed t₁ = .ok r t' ∧
          a' = { a with addedPlayerIds := a.addedPlayerIds ++ added, drawAction := some r }) := by
  simp only [redoImpl, bind_ok, get_ok] at h
  obtain ⟨_, _, ⟨rfl, rfl⟩, h⟩ := h
  split at h
  · next hc =>
    simp only [bind_ok] at h
    obtain ⟨added, t₁, hadded, h⟩ := h
    refine .inr ⟨added, t₁, by simpa [TournamentStore.containsCategory, Option.isSome_iff_ne_none] using hc,
      hadded, ?_⟩
    split at h
    · next hnil =>
      obtain ⟨rfl, rfl⟩ := pure_ok.1 h
      exact .inl ⟨hnil, rfl, rfl⟩
    · next hne =>
      simp only [bind_ok, pure_ok] at h
      obtain ⟨r, _, hr, rfl, rfl⟩ := h
      exact .inr ⟨hne, r, hr, rfl⟩
  · next hc =>
    obtain ⟨rfl, rfl⟩ := pure_ok.1 h
    exact .inl ⟨rfl, rfl, by simpa [TournamentStore.containsCategory] using hc⟩

theorem AddPlayersToCategoryAction.undoImpl_ok {a a' : AddPlayersToCategoryAction}
    {u u' : TournamentStore} (h : a.undoImpl u = .ok a' u') :
    (a' = a ∧ u' = u ∧ u.categories a.categoryId = none) ∨
    ∃ us u₁, u.categories a.categoryId ≠ none ∧
      Exec.forEach (leaveCategory a.categoryId) a.addedPlayerIds u = .ok us u₁ ∧
      RedrawAction.undoOption a.drawAction u₁ = .ok () u' ∧
      a' = { a with addedPlayerIds := [], drawAction := none } := by
  simp only [undoImpl, bind_ok, get_ok] at h
  obtain ⟨_, _, ⟨rfl, rfl⟩, h⟩ := h
  split at h
  · next hc =>
    simp only [bind_ok, pure_ok] at h
    obtain ⟨us, u₁, hus, _, _, hundo, rfl, rfl⟩ := h
    exact .inr ⟨us, u₁, by
      simpa [TournamentStore.containsCategory, Option.isSome_iff_ne_none] using hc, hus, hundo, rfl⟩
  · next hc =>
    obtain ⟨rfl, rfl⟩ := pure_ok.1 h
    exact .inl ⟨rfl, rfl, by simpa [TournamentStore.containsCategory] using hc⟩

theorem ErasePlayersFromCategoryAction.redoImpl_ok {a a' : ErasePlayersFromCategoryAction}
    {t t' : TournamentStore} (h : a.redoImpl t = .ok a' t') :
    (a' = a ∧ t' = t ∧ t.categories a.categoryId = none) ∨
    ∃ erased t₁, t.categories a.categoryId ≠ none ∧
      changeMembers a.categoryId true (leaveCategory a.categoryId) a.playerIds t = .ok erased t₁ ∧
      ((a.erasedPlayerIds ++ erased = [] ∧ a' = a ∧ t' = t₁) ∨
        a.erasedPlayerIds ++ erased ≠ [] ∧ ∃ r, RedrawAction.run a.categoryId a.seed t₁ = .ok r t' ∧
          a' = { a with erasedPlayerIds := a.erasedPlayerIds ++ erased, drawAction := some r }) := by
  simp only [redoImpl, bind_ok, get_ok] at h
  obtain ⟨_, _, ⟨rfl, rfl⟩, h⟩ := h
  split at h
  · next hc =>
    simp only [bind_ok] at h
    obtain ⟨erased, t₁, herased, h⟩ := h
    refine .inr ⟨erased, t₁, by
      simpa [TournamentStore.containsCategory, Option.isSome_iff_ne_none] using hc, herased, ?_⟩
    split at h
    · next hnil =>
      obtain ⟨rfl, rfl⟩ := pure_ok.1 h
      exact .inl ⟨hnil, rfl, rfl⟩
    · next hne =>
      simp only [bind_ok, pure_ok] at h
      obtain ⟨r, _, hr, rfl, rfl⟩ := h
      exact .inr ⟨hne, r, hr, rfl⟩
  · next hc =>
    obtain ⟨rfl, rfl⟩ := pure_ok.1 h
    exact .inl ⟨rfl, rfl, by simpa [TournamentStore.containsCategory] using hc⟩

theorem ErasePlayersFromCategoryAction.undoImpl_ok {a a' : ErasePlayersFromCategoryAction}
    {u u' : TournamentStore} (h : a.undoImpl u = .ok a' u') :
    (a' = a ∧ u' = u ∧ u.categories a.categoryId = none) ∨
    ∃ us u₁, u.categories a.categoryId ≠ none ∧
      Exec.forEach (joinCategory a.categoryId) a.erasedPlayerIds u = .ok us u₁ ∧
      RedrawAction.undoOption a.drawAction u₁ = .ok () u' ∧
      a' = { a with erasedPlayerIds := [], drawAction := none } := by
  simp only [undoImpl, bind_ok, get_ok] at h
  obtain ⟨_, _, ⟨rfl, rfl⟩, h⟩ := h
  split at h
  · next hc =>
    simp only [bind_ok, pure_ok] at h
    obtain ⟨us, u₁, hus, _, _, hundo, rfl, rfl⟩ := h
    exact .inr ⟨us, u₁, by
      simpa [TournamentStore.containsCategory, Option.isSome_iff_ne_none] using hc, hus, hundo, rfl⟩
  · next hc =>
    obtain ⟨rfl, rfl⟩ := pure_ok.1 h
    exact .inl ⟨rfl, rfl, by simpa [TournamentStore.containsCategory] using hc⟩

end JudoAssistant
