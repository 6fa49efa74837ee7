import Mathlib.Logic.Basic

/-!
# Computations that change a state and may fail

A stateful computation that may fail is an `EStateM ε σ α`.  The lemmas of this file say when one
that is built by `do` returns, so that a run is taken apart by `obtain` and put together again
without unfolding the monad.
-/

namespace Effect

variable {ε σ α β : Type}

/-- A computation on the state that is given by a function with errors and leaves the state. -/
def lift (x : Except ε α) : EStateM ε σ α := fun s => match x with
  | .ok a => .ok a s
  | .error e => .error e s

theorem except_bind_ok {x : Except ε α} {f : α → Except ε β} {b : β} :
    (x >>= f) = .ok b ↔ ∃ a, x = .ok a ∧ f a = .ok b := by
  cases x with
  | error e =>
    constructor
    · intro h; cases h
    · rintro ⟨_, h, _⟩; cases h
  | ok a =>
    constructor
    · intro h; exact ⟨a, rfl, h⟩
    · rintro ⟨_, h, h'⟩; cases h; exact h'

@[simp] theorem except_pure_ok {a b : α} : (pure a : Except ε α) = .ok b ↔ a = b := by
  constructor
  · intro h; cases h; rfl
  · rintro rfl; rfl

/-- The results of a loop that returns are those of its turns. -/
theorem except_mapM_ok {f : α → Except ε β} {as : List α} {bs : List β} (h : as.mapM f = .ok bs) :
    (∀ a ∈ as, ∃ b ∈ bs, f a = .ok b) ∧ ∀ b ∈ bs, ∃ a ∈ as, f a = .ok b := by
  induction as generalizing bs with
  | nil =>
    rw [List.mapM_nil] at h
    obtain rfl := except_pure_ok.1 h
    simp
  | cons a as ih =>
    rw [List.mapM_cons] at h
    obtain ⟨b, hb, h⟩ := except_bind_ok.1 h
    obtain ⟨bs', hbs, h⟩ := except_bind_ok.1 h
    obtain rfl := except_pure_ok.1 h
    obtain ⟨h₁, h₂⟩ := ih hbs
    refine ⟨fun x hx => ?_, fun y hy => ?_⟩
    · rcases List.mem_cons.1 hx with rfl | hx
      · exact ⟨b, List.mem_cons_self, hb⟩
      · obtain ⟨y, hy, hxy⟩ := h₁ x hx
        exact ⟨y, List.mem_cons_of_mem _ hy, hxy⟩
    · rcases List.mem_cons.1 hy with rfl | hy
      · exact ⟨a, List.mem_cons_self, hb⟩
      · obtain ⟨x, hx, hxy⟩ := h₂ y hy
        exact ⟨x, List.mem_cons_of_mem _ hx, hxy⟩

/-- A loop returns if its turns do. -/
theorem except_mapM_total {f : α → Except ε β} {as : List α} (h : ∀ a ∈ as, ∃ b, f a = .ok b) :
    ∃ bs, as.mapM f = .ok bs := by
  induction as with
  | nil => exact ⟨[], rfl⟩
  | cons a as ih =>
    obtain ⟨b, hb⟩ := h a List.mem_cons_self
    obtain ⟨bs, hbs⟩ := ih fun a' ha' => h a' (List.mem_cons_of_mem _ ha')
    refine ⟨b :: bs, ?_⟩
    rw [List.mapM_cons, hb, hbs]
    rfl

/-- A loop whose turns return known values. -/
theorem except_mapM_eq {f : α → Except ε β} {g : α → β} {as : List α} (h : ∀ a ∈ as, f a = .ok (g a)) :
    as.mapM f = .ok (as.map g) := by
  induction as with
  | nil => rfl
  | cons a as ih =>
    rw [List.mapM_cons, h a List.mem_cons_self, ih fun a' ha' => h a' (List.mem_cons_of_mem _ ha')]
    rfl

theorem bind_ok {x : EStateM ε σ α} {f : α → EStateM ε σ β} {s s' : σ} {b : β} :
    (x >>= f) s = .ok b s' ↔ ∃ a s₁, x s = .ok a s₁ ∧ f a s₁ = .ok b s' := by
  show EStateM.bind x f s = _ ↔ _
  unfold EStateM.bind
  cases hx : x s with
  | error e s₁ => simp
  | ok a s₁ =>
    constructor
    · intro h; exact ⟨a, s₁, rfl, h⟩
    · rintro ⟨_, _, h, h'⟩; cases h; exact h'

@[simp] theorem pure_ok {a b : α} {s s' : σ} :
    (pure a : EStateM ε σ α) s = .ok b s' ↔ a = b ∧ s = s' := by
  show EStateM.Result.ok a s = .ok b s' ↔ _
  simp

theorem map_ok {x : EStateM ε σ α} {f : α → β} {s s' : σ} {b : β} :
    (f <$> x) s = .ok b s' ↔ ∃ a, x s = .ok a s' ∧ f a = b := by
  show EStateM.map f x s = _ ↔ _
  unfold EStateM.map
  cases hx : x s with
  | error e s₁ => simp
  | ok a s₁ =>
    constructor
    · intro h; cases h; exact ⟨a, rfl, rfl⟩
    · rintro ⟨_, h, rfl⟩; cases h; rfl

@[simp] theorem get_ok {s s' t : σ} : (get : EStateM ε σ σ) s = .ok t s' ↔ t = s ∧ s' = s := by
  show EStateM.Result.ok s s = .ok t s' ↔ _
  simp [eq_comm]

@[simp] theorem set_ok {s s' t : σ} {u : PUnit} :
    (set t : EStateM ε σ PUnit) s = .ok u s' ↔ s' = t := by
  show EStateM.Result.ok PUnit.unit t = .ok u s' ↔ _
  simp [eq_comm]

@[simp] theorem throw_ok {e : ε} {s s' : σ} {a : α} :
    (throw e : EStateM ε σ α) s = .ok a s' ↔ False := by
  show EStateM.Result.error e s = .ok a s' ↔ _
  simp

@[simp] theorem lift_ok {x : Except ε α} {s s' : σ} {a : α} :
    (lift x : EStateM ε σ α) s = .ok a s' ↔ x = .ok a ∧ s = s' := by
  unfold lift
  cases x <;> simp

@[simp] theorem modify_ok {f : σ → σ} {s s' : σ} {u : PUnit} :
    (modify f : EStateM ε σ PUnit) s = .ok u s' ↔ s' = f s := by
  show EStateM.Result.ok PUnit.unit (f s) = .ok u s' ↔ _
  simp [eq_comm]

/-! ### Invariants -/

section

variable {I : σ → Prop} {P : α → Prop} {Q : β → Prop}

/-- A run from a state under the invariant that returns ends under the invariant, with a result that
meets the condition. -/
def Keeps (I : σ → Prop) (x : EStateM ε σ α) (P : α → Prop) : Prop :=
  ∀ ⦃s a s'⦄, I s → x s = .ok a s' → I s' ∧ P a

namespace Keeps

theorem pure {a : α} (h : P a) : Keeps I (Pure.pure a : EStateM ε σ α) P := by
  intro s b s' hs hb
  obtain ⟨rfl, rfl⟩ := pure_ok.1 hb
  exact ⟨hs, h⟩

theorem bind {x : EStateM ε σ α} {f : α → EStateM ε σ β} (hx : Keeps I x P)
    (hf : ∀ a, P a → Keeps I (f a) Q) : Keeps I (x >>= f) Q := by
  intro s b s' hs hb
  obtain ⟨a, s₁, ha, hb⟩ := bind_ok.1 hb
  obtain ⟨hs₁, hP⟩ := hx hs ha
  exact hf a hP hs₁ hb

theorem map {x : EStateM ε σ α} {f : α → β} (hx : Keeps I x P) (hf : ∀ a, P a → Q (f a)) :
    Keeps I (f <$> x) Q := by
  intro s b s' hs hb
  obtain ⟨a, ha, rfl⟩ := map_ok.1 hb
  obtain ⟨hs', hP⟩ := hx hs ha
  exact ⟨hs', hf a hP⟩

theorem mono {P' : α → Prop} {x : EStateM ε σ α} (hx : Keeps I x P) (h : ∀ a, P a → P' a) :
    Keeps I x P' := by
  intro s a s' hs ha
  obtain ⟨hs', hP⟩ := hx hs ha
  exact ⟨hs', h a hP⟩

/-- Two invariants are kept together. -/
theorem and {J : σ → Prop} {P' : α → Prop} {x : EStateM ε σ α} (hx : Keeps I x P) (hx' : Keeps J x P') :
    Keeps (fun s => I s ∧ J s) x fun a => P a ∧ P' a := by
  intro s a s' hs ha
  obtain ⟨hI, hP⟩ := hx hs.1 ha
  obtain ⟨hJ, hP'⟩ := hx' hs.2 ha
  exact ⟨⟨hI, hJ⟩, hP, hP'⟩

theorem get : Keeps I (MonadState.get : EStateM ε σ σ) I := by
  intro s t s' hs ht
  obtain ⟨rfl, rfl⟩ := get_ok.1 ht
  exact ⟨hs, hs⟩

theorem lift {x : Except ε α} (h : ∀ a, x = .ok a → P a) : Keeps I (lift x : EStateM ε σ α) P := by
  intro s a s' hs ha
  obtain ⟨hx, rfl⟩ := lift_ok.1 ha
  exact ⟨hs, h a hx⟩

theorem throw {e : ε} : Keeps I (MonadExcept.throw e : EStateM ε σ α) P := by
  intro s a s' _ ha
  exact (throw_ok.1 ha).elim

end Keeps

/-- The value of a function of the state is the same after a run that returns. -/
def Frame (f : σ → β) (x : EStateM ε σ α) : Prop := ∀ ⦃s a s'⦄, x s = .ok a s' → f s' = f s

namespace Frame

variable {γ : Type} {g : σ → γ}

theorem pure {a : α} : Frame g (Pure.pure a : EStateM ε σ α) := by
  intro s b s' hb
  obtain ⟨-, rfl⟩ := pure_ok.1 hb
  rfl

theorem bind {x : EStateM ε σ α} {f : α → EStateM ε σ β} (hx : Frame g x)
    (hf : ∀ a, Frame g (f a)) : Frame g (x >>= f) := by
  intro s b s' hb
  obtain ⟨a, s₁, ha, hb⟩ := bind_ok.1 hb
  rw [hf a hb, hx ha]

theorem get : Frame g (MonadState.get : EStateM ε σ σ) := by
  intro s t s' ht
  obtain ⟨rfl, rfl⟩ := get_ok.1 ht
  rfl

theorem lift {x : Except ε α} : Frame g (lift x : EStateM ε σ α) := by
  intro s a s' ha
  obtain ⟨-, rfl⟩ := lift_ok.1 ha
  rfl

theorem throw {e : ε} : Frame g (MonadExcept.throw e : EStateM ε σ α) := by
  intro s a s' ha
  exact (throw_ok.1 ha).elim

/-- The value is kept, whatever it is. -/
theorem of_keeps {x : EStateM ε σ α} (h : ∀ v, Keeps (fun s => g s = v) x fun _ => True) : Frame g x :=
  fun s _ _ hs => (h (g s) rfl hs).1

theorem keeps {x : EStateM ε σ α} (h : Frame g x) (v : γ) : Keeps (fun s => g s = v) x fun _ => True :=
  fun _ _ _ hs hx => ⟨(h hx).trans hs, trivial⟩

end Frame

/-! ### Taking back -/

section

variable {γ : Type} {J : σ → Prop} {view : σ → γ} {o o' o'' : γ}

/-- The computation leads from every state with the one view to one with the other. -/
def LeadsBack (I : σ → Prop) (view : σ → γ) (y : EStateM ε σ α) (P : α → Prop)
    (after before : γ) : Prop :=
  ∀ ⦃u a u'⦄, I u → view u = after → y u = .ok a u' → I u' ∧ view u' = before ∧ P a

/-- The computation keeps the one invariant, and under the other one, what `undo` makes of its result
restores the view. -/
def Revocable (J I : σ → Prop) (view : σ → γ) (x : EStateM ε σ α) (undo : α → EStateM ε σ β)
    (P : β → Prop) : Prop :=
  ∀ ⦃t a t'⦄, J t → x t = .ok a t' → J t' ∧ LeadsBack I view (undo a) P (view t') (view t)

namespace LeadsBack

theorem bind {x : EStateM ε σ α} {f : α → EStateM ε σ β} (hx : LeadsBack I view x P o o')
    (hf : ∀ a, P a → LeadsBack I view (f a) Q o' o'') : LeadsBack I view (x >>= f) Q o o'' := by
  intro u b u' hu ho h
  obtain ⟨a, u₁, ha, hb⟩ := bind_ok.1 h
  obtain ⟨hu₁, ho₁, hP⟩ := hx hu ho ha
  exact hf a hP hu₁ ho₁ hb

theorem pure {a : α} (h : P a) : LeadsBack I view (Pure.pure a : EStateM ε σ α) P o o := by
  intro u b u' hu ho hb
  obtain ⟨rfl, rfl⟩ := pure_ok.1 hb
  exact ⟨hu, ho, h⟩

/-- A computation that keeps the invariant and does not touch the view. -/
theorem of_frame {x : EStateM ε σ α} (hkeeps : Keeps I x P) (h : Frame view x) :
    LeadsBack I view x P o o := by
  intro u a u' hu ho ha
  obtain ⟨hu', hP⟩ := hkeeps hu ha
  exact ⟨hu', (h ha).trans ho, hP⟩

theorem map {x : EStateM ε σ α} {f : α → β} (hx : LeadsBack I view x P o o') (hf : ∀ a, P a → Q (f a)) :
    LeadsBack I view (f <$> x) Q o o' := by
  intro u b u' hu ho hb
  obtain ⟨a, ha, rfl⟩ := map_ok.1 hb
  obtain ⟨hu', ho', hP⟩ := hx hu ho ha
  exact ⟨hu', ho', hf a hP⟩

theorem mono {P' : α → Prop} {x : EStateM ε σ α} (hx : LeadsBack I view x P o o') (h : ∀ a, P a → P' a) :
    LeadsBack I view x P' o o' := by
  intro u a u' hu ho ha
  obtain ⟨hu', ho', hP⟩ := hx hu ho ha
  exact ⟨hu', ho', h a hP⟩

end LeadsBack

/-- From every state with the one view, the computation returns, in a state with the other. -/
def Recovers (I : σ → Prop) (view : σ → γ) (y : EStateM ε σ α) (P : α → Prop) (after before : γ) : Prop :=
  ∀ ⦃u⦄, I u → view u = after → ∃ a u', y u = .ok a u' ∧ I u' ∧ view u' = before ∧ P a

namespace Recovers

theorem leadsBack {y : EStateM ε σ α} (h : Recovers I view y P o o') : LeadsBack I view y P o o' := by
  intro u a u' hu ho hy
  obtain ⟨b, u₁, hb, hrest⟩ := h hu ho
  rw [hy] at hb
  cases hb
  exact hrest

theorem bind {x : EStateM ε σ α} {f : α → EStateM ε σ β} (hx : Recovers I view x P o o')
    (hf : ∀ a, P a → Recovers I view (f a) Q o' o'') : Recovers I view (x >>= f) Q o o'' := by
  intro u hu ho
  obtain ⟨a, u₁, ha, hu₁, ho₁, hP⟩ := hx hu ho
  obtain ⟨b, u₂, hb, hrest⟩ := hf a hP hu₁ ho₁
  exact ⟨b, u₂, bind_ok.2 ⟨a, u₁, ha, hb⟩, hrest⟩

theorem pure {a : α} (h : P a) : Recovers I view (Pure.pure a : EStateM ε σ α) P o o :=
  fun u hu ho => ⟨a, u, pure_ok.2 ⟨rfl, rfl⟩, hu, ho, h⟩

end Recovers

end

end

end Effect
