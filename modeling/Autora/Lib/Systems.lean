import Mathlib.Logic.Relation

/-! Labelled transition systems, the states their runs reach and the histories
of those runs. A run may be restricted to steps that meet a condition on the
state before the step and on its label. -/

namespace Systems

variable {σ α : Type}

structure System (σ α : Type) where
  init : σ → Prop
  step : σ → α → σ → Prop

/-- No restriction on the steps of a run. -/
def anyStep : σ → α → Prop := fun _ _ => True

instance (s : σ) : DecidablePred (anyStep s : α → Prop) := fun _ => isTrue trivial

namespace System

variable (S : System σ α) (ok : σ → α → Prop)

/-- A step whose state before and label meet the condition. -/
def Next (s t : σ) : Prop := ∃ a, ok s a ∧ S.step s a t

/-- `t` is reached from `s` by steps that meet the condition. -/
abbrev Path : σ → σ → Prop := Relation.ReflTransGen (S.Next ok)

/-- `t` is reached from an initial state by steps that meet the condition. -/
def Reach (t : σ) : Prop := ∃ s, S.init s ∧ S.Path ok s t

variable {S ok}

theorem Reach.init {s : σ} (h : S.init s) : S.Reach ok s := ⟨s, h, .refl⟩

theorem Reach.step {s t : σ} {a : α} (h : S.Reach ok s) (ha : ok s a) (hs : S.step s a t) :
    S.Reach ok t := by
  obtain ⟨r, hr, hp⟩ := h
  exact ⟨r, hr, hp.tail ⟨a, ha, hs⟩⟩

theorem Reach.path {s t : σ} (h : S.Reach ok s) (hp : S.Path ok s t) : S.Reach ok t := by
  obtain ⟨r, hr, hp'⟩ := h
  exact ⟨r, hr, hp'.trans hp⟩

theorem Path.mono {ok' : σ → α → Prop} (h : ∀ s a, ok s a → ok' s a) {s t : σ}
    (hp : S.Path ok s t) : S.Path ok' s t := by
  induction hp with
  | refl => exact .refl
  | tail _ hn ih =>
    obtain ⟨a, ha, hs⟩ := hn
    exact ih.tail ⟨a, h _ _ ha, hs⟩

theorem Reach.mono {ok' : σ → α → Prop} (h : ∀ s a, ok s a → ok' s a) {s : σ}
    (hr : S.Reach ok s) : S.Reach ok' s := by
  obtain ⟨r, hi, hp⟩ := hr
  exact ⟨r, hi, Path.mono h hp⟩

/-- What a step preserves, a path preserves. -/
theorem Path.invariant {I : σ → Prop}
    (hstep : ∀ s a t, I s → ok s a → S.step s a t → I t) {s t : σ}
    (hp : S.Path ok s t) (hs : I s) : I t := by
  induction hp with
  | refl => exact hs
  | tail _ hn ih =>
    obtain ⟨a, ha, hst⟩ := hn
    exact hstep _ a _ ih ha hst

/-- What holds initially and is preserved by every step holds in every reachable state. -/
theorem Reach.invariant {I : σ → Prop} (hinit : ∀ s, S.init s → I s)
    (hstep : ∀ s a t, I s → ok s a → S.step s a t → I t) {s : σ}
    (h : S.Reach ok s) : I s := by
  obtain ⟨r, hr, hp⟩ := h
  exact Path.invariant hstep hp (hinit r hr)

/-- The state after the given labels, where each is enabled and meets the condition. -/
def follow (ok : σ → α → Prop) [∀ s, DecidablePred (ok s)] (f : σ → α → Option σ) :
    σ → List α → Option σ
  | s, [] => some s
  | s, a :: as => if ok s a then (f s a).bind fun t => follow ok f t as else none

theorem follow_path [∀ s, DecidablePred (ok s)] {f : σ → α → Option σ}
    (hf : ∀ s a t, f s a = some t → S.step s a t) {as : List α} :
    ∀ {s t : σ}, follow ok f s as = some t → S.Path ok s t := by
  induction as with
  | nil =>
    intro s t h
    cases h
    exact .refl
  | cons a as ih =>
    intro s t h
    simp only [follow] at h
    split at h
    · next ha =>
      obtain ⟨u, hu, hrest⟩ := Option.bind_eq_some_iff.mp h
      exact (ih hrest).head ⟨a, ha, hf s a u hu⟩
    · cases h

/-- One step taken during a run: the state before, the label and the state after. -/
structure Taken (σ α : Type) where
  before : σ
  label : α
  after : σ

variable (S) in
/-- The steps taken on a run from `s` to `t`, first to last. -/
inductive History (s : σ) : List (Taken σ α) → σ → Prop
  | nil : History s [] s
  | snoc {h : List (Taken σ α)} {t u : σ} {a : α} (hh : History s h t) (hs : S.step t a u) :
    History s (h ++ [⟨t, a, u⟩]) u

theorem History.cons {s t u : σ} {a : α} {h : List (Taken σ α)} (hs : S.step s a t)
    (hh : S.History t h u) : S.History s (⟨s, a, t⟩ :: h) u := by
  induction hh with
  | nil => exact .snoc .nil hs
  | snoc _ hlast ih => exact .snoc ih hlast

theorem follow_history [∀ s, DecidablePred (ok s)] {f : σ → α → Option σ}
    (hf : ∀ s a t, f s a = some t → S.step s a t) {as : List α} :
    ∀ {s t : σ}, follow ok f s as = some t → ∃ h, S.History s h t ∧ h.map Taken.label = as := by
  induction as with
  | nil =>
    intro s t h
    cases h
    exact ⟨[], .nil, rfl⟩
  | cons a as ih =>
    intro s t h
    simp only [follow] at h
    split at h
    · obtain ⟨u, hu, hrest⟩ := Option.bind_eq_some_iff.mp h
      obtain ⟨h', hh', hlabels⟩ := ih hrest
      exact ⟨⟨s, a, u⟩ :: h', hh'.cons (hf s a u hu), congrArg (a :: ·) hlabels⟩
    · cases h

end System

end Systems
