import Mathlib.Order.Defs.Unbundled

/-! Transactions: programs over a state that either return a result and a new
state, or raise and leave nothing behind. A specification is a relation between
the state a transaction starts from and the state it returns in. -/

namespace Transactions

variable {σ ε α β : Type}

/-- The transaction returns `a` in state `t` when it starts in `s`. -/
def Returns (m : StateT σ (Except ε) α) (s : σ) (a : α) (t : σ) : Prop :=
  m s = .ok (a, t)

@[simp] theorem returns_pure {a b : α} {s t : σ} :
    Returns (pure a : StateT σ (Except ε) α) s b t ↔ b = a ∧ t = s := by
  show (Except.ok (a, s) : Except ε (α × σ)) = .ok (b, t) ↔ _
  simp only [Except.ok.injEq, Prod.mk.injEq]
  exact ⟨fun h => ⟨h.1.symm, h.2.symm⟩, fun h => ⟨h.1.symm, h.2.symm⟩⟩

@[simp] theorem returns_bind {m : StateT σ (Except ε) α} {f : α → StateT σ (Except ε) β}
    {s u : σ} {b : β} :
    Returns (m >>= f) s b u ↔ ∃ a t, Returns m s a t ∧ Returns (f a) t b u := by
  simp only [Returns, bind, StateT.bind, Except.bind]
  cases h : m s with
  | error e => simp
  | ok p =>
    obtain ⟨a, t⟩ := p
    simp only [Except.ok.injEq, Prod.mk.injEq]
    constructor
    · exact fun hh => ⟨a, t, ⟨rfl, rfl⟩, hh⟩
    · rintro ⟨a', t', ⟨rfl, rfl⟩, hh⟩
      exact hh

@[simp] theorem returns_map {m : StateT σ (Except ε) α} {f : α → β} {s u : σ} {b : β} :
    Returns (f <$> m) s b u ↔ ∃ a, Returns m s a u ∧ b = f a := by
  rw [← bind_pure_comp]
  simp only [returns_bind, returns_pure]
  constructor
  · rintro ⟨a, t, hm, rfl, rfl⟩
    exact ⟨a, hm, rfl⟩
  · rintro ⟨a, hm, rfl⟩
    exact ⟨a, u, hm, rfl, rfl⟩

/-- A transaction whose result is dropped. -/
theorem returns_discard {m : StateT σ (Except ε) α} {b c : β} {s t : σ} :
    Returns (m >>= fun _ => pure b) s c t ↔ c = b ∧ ∃ a, Returns m s a t := by
  simp only [returns_bind, returns_pure]
  constructor
  · rintro ⟨a, _, h, hc, rfl⟩
    exact ⟨hc, a, h⟩
  · rintro ⟨hc, a, h⟩
    exact ⟨a, t, h, hc, rfl⟩

@[simp] theorem returns_get {s t a : σ} :
    Returns (get : StateT σ (Except ε) σ) s a t ↔ a = s ∧ t = s := by
  simp only [Returns, get, getThe, MonadStateOf.get, StateT.get, pure, Except.pure,
    Except.ok.injEq, Prod.mk.injEq]
  exact ⟨fun h => ⟨h.1.symm, h.2.symm⟩, fun h => ⟨h.1.symm, h.2.symm⟩⟩

@[simp] theorem returns_modify {f : σ → σ} {s t : σ} {a : PUnit} :
    Returns (modify f : StateT σ (Except ε) PUnit) s a t ↔ t = f s := by
  show (Except.ok (⟨⟩, f s) : Except ε (PUnit × σ)) = .ok (a, t) ↔ _
  simp only [Except.ok.injEq, Prod.mk.injEq, true_and]
  exact ⟨fun h => h.symm, fun h => h.symm⟩

@[simp] theorem returns_throw {e : ε} {s t : σ} {a : α} :
    ¬ Returns (throw e : StateT σ (Except ε) α) s a t := by
  simp [Returns, throw, throwThe, MonadExceptOf.throw, StateT.lift, bind, Except.bind]

@[simp] theorem returns_ite {c : Prop} [Decidable c] {m n : StateT σ (Except ε) α}
    {s t : σ} {a : α} :
    Returns (if c then m else n) s a t ↔ (c ∧ Returns m s a t) ∨ (¬ c ∧ Returns n s a t) := by
  by_cases h : c <;> simp [h]

/-- A loop over a list, first to last. -/
def forEach (f : α → StateT σ (Except ε) PUnit) : List α → StateT σ (Except ε) PUnit
  | [] => pure ⟨⟩
  | x :: xs => do
    f x
    forEach f xs

/-- A loop over a list that carries a value along. -/
def foldEach (f : β → α → StateT σ (Except ε) β) : β → List α → StateT σ (Except ε) β
  | b, [] => pure b
  | b, x :: xs => do
    let b' ← f b x
    foldEach f b' xs

@[simp] theorem returns_forEach_nil {f : α → StateT σ (Except ε) PUnit} {s t : σ} {a : PUnit} :
    Returns (forEach f []) s a t ↔ t = s := by
  simp [forEach]

@[simp] theorem returns_forEach_cons {x : α} {xs : List α} {f : α → StateT σ (Except ε) PUnit}
    {s u : σ} {a : PUnit} :
    Returns (forEach f (x :: xs)) s a u ↔
      ∃ t, Returns (f x) s ⟨⟩ t ∧ Returns (forEach f xs) t ⟨⟩ u := by
  simp only [forEach, returns_bind]
  constructor
  · rintro ⟨_, t, h, h'⟩
    exact ⟨t, h, h'⟩
  · rintro ⟨t, h, h'⟩
    exact ⟨_, t, h, h'⟩

@[simp] theorem returns_foldEach_nil {f : β → α → StateT σ (Except ε) β} {s t : σ} {b c : β} :
    Returns (foldEach f b []) s c t ↔ c = b ∧ t = s := by
  simp [foldEach]

@[simp] theorem returns_foldEach_cons {x : α} {xs : List α} {f : β → α → StateT σ (Except ε) β}
    {s u : σ} {b c : β} :
    Returns (foldEach f b (x :: xs)) s c u ↔
      ∃ b' t, Returns (f b x) s b' t ∧ Returns (foldEach f b' xs) t c u := by
  simp only [foldEach, returns_bind]

/-- Raise unless the condition holds. -/
def require (c : Prop) [Decidable c] (e : ε) : StateT σ (Except ε) PUnit :=
  if c then pure ⟨⟩ else throw e

@[simp] theorem returns_require {c : Prop} [Decidable c] {e : ε} {s t : σ} {a : PUnit} :
    Returns (require c e : StateT σ (Except ε) PUnit) s a t ↔ c ∧ t = s := by
  simp [require]

/-- The value of an option, or raise. -/
def orRaise (e : ε) : Option α → StateT σ (Except ε) α
  | some a => pure a
  | none => throw e

@[simp] theorem returns_orRaise {e : ε} {o : Option α} {s t : σ} {a : α} :
    Returns (orRaise e o : StateT σ (Except ε) α) s a t ↔ o = some a ∧ t = s := by
  cases o with
  | none => simp [orRaise]
  | some b =>
    simp only [orRaise, returns_pure, Option.some.injEq]
    exact ⟨fun h => ⟨h.1.symm, h.2⟩, fun h => ⟨h.1.symm, h.2⟩⟩

/-- Do something with the value of an option, if there is one. -/
def forSome (o : Option α) (f : α → StateT σ (Except ε) PUnit) : StateT σ (Except ε) PUnit :=
  match o with
  | some a => f a
  | none => pure ⟨⟩

theorem returns_forSome {o : Option α} {f : α → StateT σ (Except ε) PUnit} {s t : σ} {u : PUnit} :
    Returns (forSome o f) s u t ↔ (∃ a, o = some a ∧ Returns (f a) s u t) ∨ (o = none ∧ t = s) := by
  cases o with
  | none => simp [forSome]
  | some a => simp [forSome]

/-- The value of a result, or raise its error. -/
def orFail {ε' : Type} (g : ε' → ε) : Except ε' α → StateT σ (Except ε) α
  | .ok a => pure a
  | .error e => throw (g e)

@[simp] theorem returns_orFail {ε' : Type} {g : ε' → ε} {r : Except ε' α} {s t : σ} {a : α} :
    Returns (orFail g r : StateT σ (Except ε) α) s a t ↔ r = .ok a ∧ t = s := by
  cases r with
  | error e => simp [orFail]
  | ok b =>
    simp only [orFail, returns_pure, Except.ok.injEq]
    exact ⟨fun h => ⟨h.1.symm, h.2⟩, fun h => ⟨h.1.symm, h.2⟩⟩

/-- Run a transaction in a savepoint: when it raises, its changes are undone and
`d` is the result. -/
def savepoint (d : α) (m : StateT σ (Except ε) α) : StateT σ (Except ε) α := fun s =>
  match m s with
  | .ok r => .ok r
  | .error _ => .ok (d, s)

/-- A transaction of another layer, whose errors are raised here under `g`. -/
def within {ε' : Type} (g : ε' → ε) (m : StateT σ (Except ε') α) : StateT σ (Except ε) α :=
  fun s =>
    match m s with
    | .ok r => .ok r
    | .error e => .error (g e)

@[simp] theorem returns_within {ε' : Type} {g : ε' → ε} {m : StateT σ (Except ε') α} {s t : σ}
    {a : α} : Returns (within g m) s a t ↔ Returns m s a t := by
  unfold Returns within
  cases m s with
  | ok r => simp
  | error e => simp

/-! Relations every run of a transaction respects. -/

/-- Whenever the transaction returns, its first and last states are related. -/
def Keeps (R : σ → σ → Prop) (m : StateT σ (Except ε) α) : Prop :=
  ∀ s a t, Returns m s a t → R s t

section Keeps

variable {R : σ → σ → Prop}

theorem Keeps.mono {R' : σ → σ → Prop} {m : StateT σ (Except ε) α}
    (h : Keeps R m) (hr : ∀ s t, R s t → R' s t) : Keeps R' m :=
  fun s a t hm => hr s t (h s a t hm)

theorem Keeps.throw (e : ε) : Keeps R (throw e : StateT σ (Except ε) α) :=
  fun _ _ _ h => (returns_throw h).elim

theorem Keeps.ite {c : Prop} [Decidable c] {m n : StateT σ (Except ε) α}
    (hm : Keeps R m) (hn : Keeps R n) : Keeps R (if c then m else n) := by
  intro s a t h
  rcases returns_ite.mp h with ⟨_, hh⟩ | ⟨_, hh⟩
  · exact hm _ _ _ hh
  · exact hn _ _ _ hh

theorem Keeps.modify {f : σ → σ} (h : ∀ s, R s (f s)) :
    Keeps R (modify f : StateT σ (Except ε) PUnit) := by
  intro s a t hm
  rw [returns_modify.mp hm]
  exact h s

variable [IsPreorder σ R]

theorem Keeps.pure (a : α) : Keeps R (pure a : StateT σ (Except ε) α) := by
  intro s b t h
  rw [(returns_pure.mp h).2]
  exact Std.Refl.refl s

theorem Keeps.get : Keeps R (get : StateT σ (Except ε) σ) := by
  intro s b t h
  rw [(returns_get.mp h).2]
  exact Std.Refl.refl s

theorem Keeps.bind {m : StateT σ (Except ε) α} {f : α → StateT σ (Except ε) β}
    (hm : Keeps R m) (hf : ∀ a, Keeps R (f a)) : Keeps R (m >>= f) := by
  intro s b u h
  obtain ⟨a, t, hs, ht⟩ := returns_bind.mp h
  exact IsTrans.trans _ _ _ (hm _ _ _ hs) (hf a _ _ _ ht)

theorem Keeps.forEach {f : α → StateT σ (Except ε) PUnit} (xs : List α)
    (h : ∀ x ∈ xs, Keeps R (f x)) : Keeps R (forEach f xs) := by
  induction xs with
  | nil => exact Keeps.pure _
  | cons x xs ih => exact (h x (by simp)).bind fun _ => ih fun y hy => h y (by simp [hy])

theorem Keeps.foldEach {f : β → α → StateT σ (Except ε) β} (b : β) (xs : List α)
    (h : ∀ b, ∀ x ∈ xs, Keeps R (f b x)) : Keeps R (foldEach f b xs) := by
  induction xs generalizing b with
  | nil => exact Keeps.pure _
  | cons x xs ih =>
    exact (h b x (by simp)).bind fun b' => ih b' fun b y hy => h b y (by simp [hy])

theorem Keeps.require {c : Prop} [Decidable c] {e : ε} :
    Keeps R (require c e : StateT σ (Except ε) PUnit) := by
  intro s a t h
  rw [(returns_require.mp h).2]
  exact Std.Refl.refl s

theorem Keeps.orRaise {e : ε} {o : Option α} :
    Keeps R (orRaise e o : StateT σ (Except ε) α) := by
  intro s a t h
  rw [(returns_orRaise.mp h).2]
  exact Std.Refl.refl s

theorem Keeps.forSome {o : Option α} {f : α → StateT σ (Except ε) PUnit}
    (h : ∀ a, o = some a → Keeps R (f a)) : Keeps R (forSome o f) := by
  intro s u t hs
  rcases returns_forSome.mp hs with ⟨a, ha, hh⟩ | ⟨_, rfl⟩
  · exact h a ha _ _ _ hh
  · exact Std.Refl.refl t

end Keeps

/-! Loops: what each turn brings about and no later turn undoes holds at the end. -/

theorem forEach_all {R : σ → σ → Prop} [IsPreorder σ R] {I : σ → Prop} {Q : α → σ → Prop}
    {f : α → StateT σ (Except ε) PUnit} {xs : List α}
    (hf : ∀ x ∈ xs, ∀ s t u, I s → Returns (f x) s u t → R s t ∧ Q x t)
    (hI : ∀ s t, I s → R s t → I t) (hQ : ∀ x s t, Q x s → R s t → Q x t) {s t : σ} {u : PUnit}
    (hs : I s) (h : Returns (forEach f xs) s u t) : R s t ∧ ∀ x ∈ xs, Q x t := by
  induction xs generalizing s with
  | nil =>
    rw [returns_forEach_nil.mp h]
    exact ⟨Std.Refl.refl s, by simp⟩
  | cons x xs ih =>
    obtain ⟨s₁, h₁, h₂⟩ := returns_forEach_cons.mp h
    obtain ⟨hr, hq⟩ := hf x (by simp) _ _ _ hs h₁
    obtain ⟨hr', hq'⟩ := ih (fun y hy => hf y (by simp [hy])) (hI _ _ hs hr) h₂
    refine ⟨IsTrans.trans _ _ _ hr hr', fun y hy => ?_⟩
    rcases List.mem_cons.mp hy with rfl | hy
    · exact hQ _ _ _ hq hr'
    · exact hq' y hy

/-- An invariant of a loop says what holds after each prefix of the list. -/
theorem foldEach_prefix {I : List α → β → σ → Prop} {f : β → α → StateT σ (Except ε) β}
    {xs : List α}
    (hf : ∀ pre x post, xs = pre ++ x :: post → ∀ b s b' t, I pre b s →
      Returns (f b x) s b' t → I (pre ++ [x]) b' t)
    {b b' : β} {s t : σ} (hs : I [] b s) (h : Returns (foldEach f b xs) s b' t) : I xs b' t := by
  have hgen : ∀ (ys pre : List α), xs = pre ++ ys → ∀ b s, I pre b s →
      Returns (foldEach f b ys) s b' t → I xs b' t := by
    intro ys
    induction ys with
    | nil =>
      intro pre he b s hI hr
      obtain ⟨rfl, rfl⟩ := returns_foldEach_nil.mp hr
      rw [he, List.append_nil]
      exact hI
    | cons y ys ih =>
      intro pre he b s hI hr
      obtain ⟨b₁, s₁, h₁, h₂⟩ := returns_foldEach_cons.mp hr
      exact ih (pre ++ [y]) (by simp [he]) b₁ s₁ (hf pre y ys he b s b₁ s₁ hI h₁) h₂
  exact hgen xs [] rfl b s hs h

theorem forEach_eq_foldEach (f : α → StateT σ (Except ε) PUnit) (xs : List α) :
    forEach f xs = foldEach (fun _ x => f x) ⟨⟩ xs := by
  induction xs with
  | nil => rfl
  | cons x xs ih =>
    simp only [forEach, foldEach, ih]

theorem forEach_prefix {I : List α → σ → Prop} {f : α → StateT σ (Except ε) PUnit} {xs : List α}
    (hf : ∀ pre x post, xs = pre ++ x :: post → ∀ s u t, I pre s →
      Returns (f x) s u t → I (pre ++ [x]) t)
    {s t : σ} {u : PUnit} (hs : I [] s) (h : Returns (forEach f xs) s u t) : I xs t := by
  rw [forEach_eq_foldEach] at h
  exact foldEach_prefix (I := fun pre _ s => I pre s)
    (fun pre x post he _ s b' t hI hr => hf pre x post he s b' t hI hr) hs h

/-- A field no run of the transaction writes. -/
def Frame {τ : Type} (f : σ → τ) (s t : σ) : Prop := f t = f s

instance {τ : Type} (f : σ → τ) : IsPreorder σ (Frame f) where
  refl _ := rfl
  trans _ _ _ h h' := h'.trans h

end Transactions
