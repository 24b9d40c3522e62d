import Mathlib.Data.List.Basic

/-! Loops over a list that may break or raise, and computations that raise only the
errors their caller expects. -/

namespace Loops

section Loop

variable {σ ε α : Type} {body : α → σ → Except ε (ForInStep σ)} {x : α} {xs : List α} {s t u : σ}

@[simp] theorem loop_nil : forIn [] s body = (.ok s : Except ε σ) := rfl

theorem loop_yield (h : body x s = .ok (.yield u)) :
    forIn (x :: xs) s body = forIn xs u body := by
  rw [List.forIn_cons, h]
  rfl

theorem loop_done (h : body x s = .ok (.done u)) : forIn (x :: xs) s body = .ok u := by
  rw [List.forIn_cons, h]
  rfl

theorem loop_raise {e : ε} (h : body x s = .error e) : forIn (x :: xs) s body = .error e := by
  rw [List.forIn_cons, h]
  rfl

theorem loop_cons_ok (h : forIn (x :: xs) s body = .ok t) :
    body x s = .ok (.done t) ∨ ∃ u, body x s = .ok (.yield u) ∧ forIn xs u body = .ok t := by
  cases hbody : body x s with
  | error e =>
    rw [loop_raise hbody] at h
    cases h
  | ok step =>
    cases step with
    | done u =>
      rw [loop_done hbody] at h
      cases h
      exact .inl rfl
    | yield u =>
      rw [loop_yield hbody] at h
      exact .inr ⟨u, rfl, h⟩

/-- What every pass preserves, a loop that ends preserves, broken off or not. -/
theorem loop_invariant {I : σ → Prop}
    (hyield : ∀ x ∈ xs, ∀ s u, I s → body x s = .ok (.yield u) → I u)
    (hdone : ∀ x ∈ xs, ∀ s u, I s → body x s = .ok (.done u) → I u)
    (hs : I s) (h : forIn xs s body = .ok t) : I t := by
  induction xs generalizing s with
  | nil =>
    cases h
    exact hs
  | cons x xs ih =>
    rcases loop_cons_ok h with hend | ⟨u, hnext, hrest⟩
    · exact hdone x List.mem_cons_self s t hs hend
    · have hu := hyield x List.mem_cons_self s u hs hnext
      exact ih (fun y hy => hyield y (List.mem_cons_of_mem x hy))
        (fun y hy => hdone y (List.mem_cons_of_mem x hy)) hu hrest

end Loop

/-! The errors a caller expects. -/

section Expected

variable {ε α β : Type} {expected : ε → Prop}

theorem bind_ok_iff {x : Except ε α} {f : α → Except ε β} {b : β} :
    x >>= f = .ok b ↔ ∃ a, x = .ok a ∧ f a = .ok b := by
  cases x with
  | error e => exact ⟨nofun, fun ⟨a, ha, _⟩ => by cases ha⟩
  | ok a => exact ⟨fun h => ⟨a, rfl, h⟩, fun ⟨a', ha, h⟩ => by cases ha; exact h⟩

/-- What a list gives together is what each of its items gives. -/
theorem mem_flatten_mapM {f : α → Except ε (List β)} {b : β} {xs : List α} {out : List (List β)}
    (h : xs.mapM f = .ok out) : b ∈ out.flatten ↔ ∃ x ∈ xs, ∃ bs, f x = .ok bs ∧ b ∈ bs := by
  induction xs generalizing out with
  | nil =>
    cases h
    simp
  | cons x xs ih =>
    rw [List.mapM_cons] at h
    obtain ⟨bs, hx, h⟩ := bind_ok_iff.mp h
    obtain ⟨rest, hxs, h⟩ := bind_ok_iff.mp h
    cases h
    rw [List.flatten_cons, List.mem_append, ih hxs]
    simp only [List.mem_cons, exists_eq_or_imp, hx, Except.ok.injEq, exists_eq_left']

/-- The computation raises nothing but expected errors. -/
def RaisesOnly (expected : ε → Prop) (x : Except ε α) : Prop := ∀ e, x = .error e → expected e

@[simp] theorem raisesOnly_ok {a : α} : RaisesOnly expected (.ok a : Except ε α) := by
  intro e h
  cases h

@[simp] theorem raisesOnly_pure {a : α} : RaisesOnly expected (pure a : Except ε α) :=
  raisesOnly_ok

@[simp] theorem raisesOnly_error {e : ε} :
    RaisesOnly expected (.error e : Except ε α) ↔ expected e := by
  constructor
  · exact fun h => h e rfl
  · intro h e' he
    cases he
    exact h

theorem raisesOnly_bind {x : Except ε α} {f : α → Except ε β} :
    RaisesOnly expected (x >>= f) ↔
      RaisesOnly expected x ∧ ∀ a, x = .ok a → RaisesOnly expected (f a) := by
  cases x with
  | error e =>
    have hbind : (Except.error e >>= f : Except ε β) = .error e := rfl
    rw [hbind, raisesOnly_error, raisesOnly_error]
    exact ⟨fun h => ⟨h, nofun⟩, fun h => h.1⟩
  | ok a =>
    have hbind : (Except.ok a >>= f : Except ε β) = f a := rfl
    rw [hbind]
    constructor
    · intro h
      refine ⟨raisesOnly_ok, fun b hb => ?_⟩
      cases hb
      exact h
    · exact fun h => h.2 a rfl

/-- The rest of the computation raises only expected errors whatever the first part gives. -/
theorem raisesOnly_bind_of {x : Except ε α} {f : α → Except ε β}
    (h : ∀ a, RaisesOnly expected (f a)) :
    RaisesOnly expected (x >>= f) ↔ RaisesOnly expected x := by
  rw [raisesOnly_bind]
  exact ⟨fun hx => hx.1, fun hx => ⟨hx, fun a _ => h a⟩⟩

/-- Along the list, up to the first item that fails. -/
def UpToFailure (P : α → Prop) (succeeds : α → Prop) : List α → Prop
  | [] => True
  | a :: as => P a ∧ (succeeds a → UpToFailure P succeeds as)

theorem upToFailure_map {γ : Type} {P succeeds : β → Prop} {f : γ → β} {xs : List γ} :
    UpToFailure P succeeds (xs.map f) ↔
      UpToFailure (fun x => P (f x)) (fun x => succeeds (f x)) xs := by
  induction xs with
  | nil => exact .rfl
  | cons x xs ih =>
    simp only [List.map_cons, UpToFailure, ih]

theorem upToFailure_congr {P Q succeeds succeeds' : α → Prop} (h : ∀ a, P a ↔ Q a)
    (h' : ∀ a, succeeds a ↔ succeeds' a) {xs : List α} :
    UpToFailure P succeeds xs ↔ UpToFailure Q succeeds' xs := by
  induction xs with
  | nil => exact .rfl
  | cons x xs ih => simp only [UpToFailure, h, h', ih]

theorem raisesOnly_mapM {f : α → Except ε β} {xs : List α} :
    RaisesOnly expected (xs.mapM f) ↔
      UpToFailure (fun a => RaisesOnly expected (f a)) (fun a => ∃ b, f a = .ok b) xs := by
  induction xs with
  | nil => simp [UpToFailure]
  | cons x xs ih =>
    rw [List.mapM_cons, raisesOnly_bind, UpToFailure]
    refine and_congr_right fun _ => ?_
    constructor
    · rintro h ⟨b, hb⟩
      have hrest := h b hb
      rw [raisesOnly_bind] at hrest
      exact ih.mp hrest.1
    · intro h b hb
      rw [raisesOnly_bind_of fun bs => raisesOnly_pure]
      exact ih.mpr (h ⟨b, hb⟩)

end Expected

end Loops
