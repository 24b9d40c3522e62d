import Autora.Lib.Transactions

/-! Programs whose errors carry the state they were raised in, so that a caller that
catches some of the errors keeps what was written before them. -/

namespace Refusals

open Transactions

variable {σ ε α β : Type}

abbrev Work (σ ε : Type) := StateT σ (Except (ε × σ))

def raise (e : ε) : Work σ ε α := fun s => .error (e, s)

/-- The program raises `e` with `t` written so far. -/
def Raises (m : Work σ ε α) (s : σ) (e : ε) (t : σ) : Prop := m s = .error (e, t)

@[simp] theorem returns_raise {e : ε} {s t : σ} {a : α} :
    ¬ Returns (raise e : Work σ ε α) s a t := by
  simp [Returns, raise]

@[simp] theorem raises_raise {e e' : ε} {s t : σ} :
    Raises (raise e : Work σ ε α) s e' t ↔ e' = e ∧ t = s := by
  simp only [Raises, raise, Except.error.injEq, Prod.mk.injEq]
  exact ⟨fun h => ⟨h.1.symm, h.2.symm⟩, fun h => ⟨h.1.symm, h.2.symm⟩⟩

@[simp] theorem raises_pure {a : α} {s t : σ} {e : ε} :
    ¬ Raises (pure a : Work σ ε α) s e t := by
  show ¬ (Except.ok (a, s) : Except (ε × σ) (α × σ)) = .error (e, t)
  simp

@[simp] theorem raises_bind {m : Work σ ε α} {f : α → Work σ ε β} {s t : σ} {e : ε} :
    Raises (m >>= f) s e t ↔ Raises m s e t ∨ ∃ a u, Returns m s a u ∧ Raises (f a) u e t := by
  simp only [Raises, Returns, bind, StateT.bind, Except.bind]
  cases h : m s with
  | error x => simp
  | ok p =>
    obtain ⟨a, u⟩ := p
    simp only [reduceCtorEq, Except.ok.injEq, Prod.mk.injEq, false_or]
    constructor
    · exact fun hh => ⟨a, u, ⟨rfl, rfl⟩, hh⟩
    · rintro ⟨_, _, ⟨rfl, rfl⟩, hh⟩
      exact hh

@[simp] theorem raises_get {s t : σ} {e : ε} : ¬ Raises (get : Work σ ε σ) s e t := by
  simp [Raises, get, getThe, MonadStateOf.get, StateT.get, pure, Except.pure]

@[simp] theorem raises_modify {f : σ → σ} {s t : σ} {e : ε} :
    ¬ Raises (modify f : Work σ ε PUnit) s e t := by
  show ¬ (Except.ok (⟨⟩, f s) : Except (ε × σ) (PUnit × σ)) = .error (e, t)
  simp

@[simp] theorem raises_ite {c : Prop} [Decidable c] {m n : Work σ ε α} {s t : σ} {e : ε} :
    Raises (if c then m else n) s e t ↔ (c ∧ Raises m s e t) ∨ (¬ c ∧ Raises n s e t) := by
  by_cases h : c <;> simp [h]

def ensure (c : Prop) [Decidable c] (e : ε) : Work σ ε PUnit :=
  if c then pure ⟨⟩ else raise e

@[simp] theorem returns_ensure {c : Prop} [Decidable c] {e : ε} {s t : σ} {a : PUnit} :
    Returns (ensure c e : Work σ ε PUnit) s a t ↔ c ∧ t = s := by
  simp [ensure]

@[simp] theorem raises_ensure {c : Prop} [Decidable c] {e e' : ε} {s t : σ} :
    Raises (ensure c e : Work σ ε PUnit) s e' t ↔ ¬ c ∧ e' = e ∧ t = s := by
  simp [ensure]

def found (e : ε) : Option α → Work σ ε α
  | some a => pure a
  | none => raise e

@[simp] theorem returns_found {e : ε} {o : Option α} {s t : σ} {a : α} :
    Returns (found e o : Work σ ε α) s a t ↔ o = some a ∧ t = s := by
  cases o with
  | none => simp [found]
  | some b =>
    simp only [found, returns_pure, Option.some.injEq]
    exact ⟨fun h => ⟨h.1.symm, h.2⟩, fun h => ⟨h.1.symm, h.2⟩⟩

@[simp] theorem raises_found {e e' : ε} {o : Option α} {s t : σ} :
    Raises (found e o : Work σ ε α) s e' t ↔ o = none ∧ e' = e ∧ t = s := by
  cases o <;> simp [found]

/-- The result of a check, or its error raised here. -/
def vetted (r : Except ε α) : Work σ ε α :=
  match r with
  | .ok a => pure a
  | .error e => raise e

@[simp] theorem returns_vetted {r : Except ε α} {s t : σ} {a : α} :
    Returns (vetted r : Work σ ε α) s a t ↔ r = .ok a ∧ t = s := by
  cases r with
  | error e => simp [vetted]
  | ok b =>
    simp only [vetted, returns_pure, Except.ok.injEq]
    exact ⟨fun h => ⟨h.1.symm, h.2⟩, fun h => ⟨h.1.symm, h.2⟩⟩

@[simp] theorem raises_vetted {r : Except ε α} {s t : σ} {e : ε} :
    Raises (vetted r : Work σ ε α) s e t ↔ r = .error e ∧ t = s := by
  cases r with
  | error x =>
    simp only [vetted, raises_raise, Except.error.injEq]
    exact ⟨fun h => ⟨h.1.symm, h.2⟩, fun h => ⟨h.1.symm, h.2⟩⟩
  | ok b => simp [vetted]

/-- `try … except`: an error is raised again as another one. -/
def reraise (g : ε → ε) (m : Work σ ε α) : Work σ ε α := fun s =>
  match m s with
  | .ok r => .ok r
  | .error (e, t) => .error (g e, t)

@[simp] theorem returns_reraise {g : ε → ε} {m : Work σ ε α} {s t : σ} {a : α} :
    Returns (reraise g m) s a t ↔ Returns m s a t := by
  unfold Returns reraise
  cases m s with
  | ok r => simp
  | error x => simp

@[simp] theorem raises_reraise {g : ε → ε} {m : Work σ ε α} {s t : σ} {e : ε} :
    Raises (reraise g m) s e t ↔ ∃ e', Raises m s e' t ∧ g e' = e := by
  unfold Raises reraise
  cases m s with
  | ok r => simp
  | error x =>
    obtain ⟨e', u⟩ := x
    simp only [Except.error.injEq, Prod.mk.injEq]
    constructor
    · rintro ⟨rfl, rfl⟩
      exact ⟨e', ⟨rfl, rfl⟩, rfl⟩
    · rintro ⟨_, ⟨rfl, rfl⟩, rfl⟩
      exact ⟨rfl, rfl⟩

@[simp] theorem raises_forEach_nil {f : α → Work σ ε PUnit} {s t : σ} {e : ε} :
    ¬ Raises (forEach f []) s e t := by
  simp [forEach]

@[simp] theorem raises_forEach_cons {x : α} {xs : List α} {f : α → Work σ ε PUnit} {s t : σ}
    {e : ε} :
    Raises (forEach f (x :: xs)) s e t ↔
      Raises (f x) s e t ∨ ∃ u, Returns (f x) s ⟨⟩ u ∧ Raises (forEach f xs) u e t := by
  simp only [forEach, raises_bind]
  constructor
  · rintro (h | ⟨_, u, h, h'⟩)
    · exact .inl h
    · exact .inr ⟨u, h, h'⟩
  · rintro (h | ⟨u, h, h'⟩)
    · exact .inl h
    · exact .inr ⟨⟨⟩, u, h, h'⟩

/-- The state a caller is left with: what was written when the program returned or raised
an error the caller catches, and nothing of it when the error ends the transaction. -/
def settle (caught : ε → Bool) (m : Work σ ε α) (s : σ) : σ :=
  match m s with
  | .ok (_, t) => t
  | .error (e, t) => if caught e then t else s

theorem settle_cases {caught : ε → Bool} {m : Work σ ε α} {s : σ} :
    (∃ a, Returns m s a (settle caught m s)) ∨
      (∃ e, caught e = true ∧ Raises m s e (settle caught m s)) ∨ settle caught m s = s := by
  unfold settle Returns Raises
  cases h : m s with
  | ok r => exact .inl ⟨r.1, rfl⟩
  | error x =>
    obtain ⟨e, t⟩ := x
    by_cases hc : caught e = true
    · exact .inr (.inl ⟨e, hc, by simp [hc]⟩)
    · exact .inr (.inr (by simp [hc]))

/-- A transaction of its own: what it wrote before it raised is rolled back. -/
def atomically (m : Work σ ε α) : Work σ ε α := fun s =>
  match m s with
  | .ok r => .ok r
  | .error (e, _) => .error (e, s)

@[simp] theorem returns_atomically {m : Work σ ε α} {s t : σ} {a : α} :
    Returns (atomically m) s a t ↔ Returns m s a t := by
  unfold Returns atomically
  cases m s with
  | ok r => simp
  | error x => simp

@[simp] theorem raises_atomically {m : Work σ ε α} {s t : σ} {e : ε} :
    Raises (atomically m) s e t ↔ t = s ∧ ∃ u, Raises m s e u := by
  unfold Raises atomically
  cases m s with
  | ok r => simp
  | error x =>
    obtain ⟨e', u⟩ := x
    simp only [Except.error.injEq, Prod.mk.injEq]
    constructor
    · rintro ⟨rfl, rfl⟩
      exact ⟨rfl, u, rfl, rfl⟩
    · rintro ⟨rfl, _, rfl, rfl⟩
      exact ⟨rfl, rfl⟩

/-- `try … except`: a handler that may raise in its turn. -/
def handled (m : Work σ ε α) (handler : ε → Work σ ε α) : Work σ ε α := fun s =>
  match m s with
  | .ok r => .ok r
  | .error (e, t) => handler e t

@[simp] theorem returns_handled {m : Work σ ε α} {handler : ε → Work σ ε α} {s t : σ} {a : α} :
    Returns (handled m handler) s a t ↔
      Returns m s a t ∨ ∃ e u, Raises m s e u ∧ Returns (handler e) u a t := by
  unfold Returns Raises handled
  cases m s with
  | ok r => simp
  | error x =>
    obtain ⟨e, u⟩ := x
    simp only [reduceCtorEq, false_or, Except.error.injEq, Prod.mk.injEq]
    constructor
    · exact fun h => ⟨e, u, ⟨rfl, rfl⟩, h⟩
    · rintro ⟨_, _, ⟨rfl, rfl⟩, h⟩
      exact h

@[simp] theorem raises_handled {m : Work σ ε α} {handler : ε → Work σ ε α} {s t : σ} {e : ε} :
    Raises (handled m handler) s e t ↔ ∃ e' u, Raises m s e' u ∧ Raises (handler e') u e t := by
  unfold Raises handled
  cases m s with
  | ok r => simp
  | error x =>
    obtain ⟨e', u⟩ := x
    simp only [Except.error.injEq, Prod.mk.injEq]
    constructor
    · exact fun h => ⟨e', u, ⟨rfl, rfl⟩, h⟩
    · rintro ⟨_, _, ⟨rfl, rfl⟩, h⟩
      exact h

/-- A program either returns or raises. -/
theorem returns_or_raises (m : Work σ ε α) (s : σ) :
    (∃ a t, Returns m s a t) ∨ ∃ e t, Raises m s e t := by
  unfold Returns Raises
  cases m s with
  | ok r => exact .inl ⟨r.1, r.2, rfl⟩
  | error x => exact .inr ⟨x.1, x.2, rfl⟩

theorem not_returns_of_raises {m : Work σ ε α} {s t u : σ} {a : α} {e : ε}
    (h : Raises m s e t) : ¬ Returns m s a u := by
  unfold Raises at h
  unfold Returns
  rw [h]
  nofun

theorem raises_unique {m : Work σ ε α} {s t u : σ} {e e' : ε} (h : Raises m s e t)
    (h' : Raises m s e' u) : e = e' ∧ t = u := by
  unfold Raises at h h'
  rw [h] at h'
  simpa only [Except.error.injEq, Prod.mk.injEq] using h'

/-- The state a program ends in, whether it returns or raises. -/
def Leaves (m : Work σ ε α) (s t : σ) : Prop := (∃ a, Returns m s a t) ∨ ∃ e, Raises m s e t

theorem exists_leaves (m : Work σ ε α) (s : σ) : ∃ t, Leaves m s t := by
  rcases returns_or_raises m s with ⟨a, t, h⟩ | ⟨e, t, h⟩
  · exact ⟨t, .inl ⟨a, h⟩⟩
  · exact ⟨t, .inr ⟨e, h⟩⟩

theorem Leaves.of_returns {m : Work σ ε α} {s t u : σ} {a : α} (h : Returns m s a t)
    (hl : Leaves m s u) : u = t := by
  unfold Returns at h
  rcases hl with ⟨b, hb⟩ | ⟨e, he⟩
  · unfold Returns at hb
    rw [h] at hb
    simp only [Except.ok.injEq, Prod.mk.injEq] at hb
    exact hb.2.symm
  · unfold Raises at he
    rw [h] at he
    cases he

theorem Leaves.of_raises {m : Work σ ε α} {s t u : σ} {e : ε} (h : Raises m s e t)
    (hl : Leaves m s u) : u = t := by
  unfold Raises at h
  rcases hl with ⟨b, hb⟩ | ⟨e', he⟩
  · unfold Returns at hb
    rw [h] at hb
    cases hb
  · unfold Raises at he
    rw [h] at he
    simp only [Except.error.injEq, Prod.mk.injEq] at he
    exact he.2.symm

/-- After a part that returns, a program returns what the rest of it does. -/
theorem returns_after {m : Work σ ε α} {f : α → Work σ ε β} {s t u : σ} {a : α} {b : β}
    (h : Returns m s a t) : Returns (m >>= f) s b u ↔ Returns (f a) t b u := by
  unfold Returns at h
  simp only [Returns, bind, StateT.bind, h, Except.bind]

/-- After a part that returns, a program ends where the rest of it does. -/
theorem Leaves.after {m : Work σ ε α} {f : α → Work σ ε β} {s t u : σ} {a : α}
    (h : Returns m s a t) (hl : Leaves (m >>= f) s u) : Leaves (f a) t u := by
  have hrun : (m >>= f) s = f a t := by
    unfold Returns at h
    simp only [bind, StateT.bind, h, Except.bind]
  simpa only [Leaves, Returns, Raises, hrun] using hl

theorem Leaves.raised {m : Work σ ε α} {f : α → Work σ ε β} {s t u : σ} {e : ε}
    (h : Raises m s e t) (hl : Leaves (m >>= f) s u) : u = t :=
  Leaves.of_raises (raises_bind.mpr (.inl h)) hl

end Refusals
