import Mathlib.Data.List.Basic

/-! Logs whose entries have ascending keys, read by windows and by pages, and
queues of keys that follow such a log from one position to another. -/

namespace Logs

variable {α : Type} {key : α → Nat} {log new : List α} {a b c : Nat}

def Ascending (key : α → Nat) (log : List α) : Prop := log.Pairwise fun x y => key x < key y

/-- The entries after `a`. -/
def after (key : α → Nat) (log : List α) (a : Nat) : List α := log.filter fun x => a < key x

/-- The entries after `a` and up to `b`. -/
def window (key : α → Nat) (log : List α) (a b : Nat) : List α :=
  log.filter fun x => a < key x && key x ≤ b

/-- The greatest key, or `0`. -/
def head (key : α → Nat) (log : List α) : Nat := (log.map key).foldr max 0

theorem mem_after {x : α} : x ∈ after key log a ↔ x ∈ log ∧ a < key x := by simp [after]

theorem mem_window {x : α} : x ∈ window key log a b ↔ x ∈ log ∧ a < key x ∧ key x ≤ b := by
  simp [window]

theorem le_head {x : α} (h : x ∈ log) : key x ≤ head key log := by
  induction log with
  | nil => cases h
  | cons y ys ih =>
    rcases List.mem_cons.mp h with rfl | h
    · exact Nat.le_max_left _ _
    · exact Nat.le_trans (ih h) (Nat.le_max_right _ _)

theorem head_le (h : ∀ x ∈ log, key x ≤ a) : head key log ≤ a := by
  induction log with
  | nil => exact Nat.zero_le _
  | cons x xs ih =>
    exact Nat.max_le.mpr ⟨h x List.mem_cons_self, ih fun y hy => h y (List.mem_cons_of_mem _ hy)⟩

theorem head_append : head key (log ++ new) = max (head key log) (head key new) := by
  induction log with
  | nil => simp [head]
  | cons x xs ih =>
    show max (key x) (head key (xs ++ new)) = max (max (key x) (head key xs)) _
    rw [ih, Nat.max_assoc]

theorem head_le_append : head key log ≤ head key (log ++ new) := by
  rw [head_append]
  exact Nat.le_max_left _ _

theorem window_head (h : head key log ≤ b) : window key log a b = after key log a := by
  refine List.filter_congr fun x hx => ?_
  have hle : key x ≤ b := Nat.le_trans (le_head hx) h
  simp [hle]

theorem after_append : after key (log ++ new) a = after key log a ++ after key new a := by
  simp [after]

/-- What is added later is after what was there. -/
theorem window_append (h : ∀ x ∈ new, b < key x) :
    window key (log ++ new) a b = window key log a b := by
  have hnone : window key new a b = [] := by
    refine List.filter_eq_nil_iff.mpr fun x hx => ?_
    have hlt := h x hx
    simp only [Bool.and_eq_true, decide_eq_true_eq, not_and]
    omega
  unfold window at *
  rw [List.filter_append, hnone, List.append_nil]

theorem Ascending.cons {x : α} {xs : List α} (h : Ascending key (x :: xs)) :
    (∀ y ∈ xs, key x < key y) ∧ Ascending key xs := List.pairwise_cons.mp h

/-- Two windows that meet are one. -/
theorem window_split (h : Ascending key log) (hab : a ≤ b) (hbc : b ≤ c) :
    window key log a c = window key log a b ++ window key log b c := by
  induction log with
  | nil => rfl
  | cons x xs ih =>
    obtain ⟨hlt, hxs⟩ := h.cons
    have ih := ih hxs
    by_cases hxb : key x ≤ b
    · by_cases hax : a < key x
      · have hc : key x ≤ c := Nat.le_trans hxb hbc
        have hnb : ¬ b < key x := Nat.not_lt.mpr hxb
        simp only [window] at ih ⊢
        simp [hax, hc, hxb, hnb, ih]
      · have hnb : ¬ b < key x := Nat.not_lt.mpr hxb
        simp only [window] at ih ⊢
        simp [hax, hnb, ih]
    · -- everything from here on is after `b`
      have hnone : window key (x :: xs) a b = [] := by
        refine List.filter_eq_nil_iff.mpr fun y hy => ?_
        have hy' : b < key y := by
          rcases List.mem_cons.mp hy with rfl | hy
          · omega
          · have := hlt y hy
            omega
        simp only [Bool.and_eq_true, decide_eq_true_eq, not_and]
        omega
      rw [hnone, List.nil_append]
      refine List.filter_congr fun y hy => ?_
      have hy' : b < key y := by
        rcases List.mem_cons.mp hy with rfl | hy
        · omega
        · have := hlt y hy
          omega
      have hay : a < key y := by omega
      simp [hay, hy']

theorem window_prefix (h : Ascending key log) : window key log a b <+: after key log a := by
  by_cases hab : a ≤ b
  · have hsplit := window_split (c := max b (head key log)) h hab (Nat.le_max_left _ _)
    rw [window_head (Nat.le_max_right b _)] at hsplit
    exact ⟨_, hsplit.symm⟩
  · have hnone : window key log a b = [] := by
      refine List.filter_eq_nil_iff.mpr fun x _ => ?_
      simp only [Bool.and_eq_true, decide_eq_true_eq, not_and]
      omega
    rw [hnone]
    exact List.nil_prefix

/-- The first entry of a window, and the window after it. -/
theorem window_cons (h : Ascending key log) {x : α} {xs : List α}
    (hw : window key log a b = x :: xs) :
    a < key x ∧ key x ≤ b ∧ window key log a (key x) = [x] ∧ window key log (key x) b = xs := by
  have hx : x ∈ window key log a b := by rw [hw]; exact List.mem_cons_self
  obtain ⟨_, hax, hxb⟩ := mem_window.mp hx
  have hasc : Ascending key (x :: xs) := hw ▸ List.Pairwise.filter _ h
  have hsplit := window_split h (Nat.le_of_lt hax) hxb
  rw [hw] at hsplit
  have hfirst : window key log a (key x) = (x :: xs).filter fun y => key y ≤ key x := by
    rw [← hw]
    simp only [window, List.filter_filter]
    refine List.filter_congr fun y _ => ?_
    by_cases hy : key y ≤ key x
    · have hyb : key y ≤ b := Nat.le_trans hy hxb
      simp [hy, hyb]
    · simp [hy]
  have hone : window key log a (key x) = [x] := by
    rw [hfirst, List.filter_cons_of_pos (by simp), List.filter_eq_nil_iff.mpr]
    intro y hy
    have := hasc.cons.1 y hy
    simp only [decide_eq_true_eq]
    omega
  refine ⟨hax, hxb, hone, ?_⟩
  rw [hone] at hsplit
  exact (List.cons.inj hsplit).2.symm

/-- A page is the window that ends with its last entry. -/
theorem page_eq_window (h : Ascending key log) {n : Nat} {last : α}
    (hlast : ((after key log a).take n).getLast? = some last) :
    (after key log a).take n = window key log a (key last) ∧ a < key last ∧ last ∈ log := by
  have hmem : last ∈ (after key log a).take n := List.mem_of_getLast? hlast
  obtain ⟨hlog, halast⟩ := mem_after.mp (List.mem_of_mem_take hmem)
  refine ⟨?_, halast, hlog⟩
  have hasc : Ascending key (after key log a) := List.Pairwise.filter _ h
  have hw : window key log a (key last) =
      (after key log a).filter fun y => key y ≤ key last := by
    simp only [window, after, List.filter_filter]
    refine List.filter_congr fun y _ => ?_
    rw [Bool.and_comm]
  rw [hw]
  generalize after key log a = l at *
  obtain ⟨init, hinit⟩ : ∃ init, l.take n = init ++ [last] :=
    ⟨_, (List.dropLast_append_getLast? _ hlast).symm⟩
  have hl := List.take_append_drop n l
  rw [hinit] at hl ⊢
  rw [← hl] at hasc
  rw [← hl, List.filter_append, List.filter_eq_self.mpr, List.filter_eq_nil_iff.mpr,
    List.append_nil]
  · intro y hy
    have := (List.pairwise_append.mp hasc).2.2 last (by simp) y hy
    simp only [decide_eq_true_eq]
    omega
  · intro y hy
    rcases List.mem_append.mp hy with hy | hy
    · have hinitasc := (List.pairwise_append.mp hasc).1
      have := (List.pairwise_append.mp hinitasc).2.2 y hy last (by simp)
      simp only [decide_eq_true_eq]
      omega
    · simp [List.mem_singleton.mp hy]

/-- Nothing comes after a page that is not full. -/
theorem head_le_of_short {n : Nat} {last : α}
    (hlast : ((after key log a).take n).getLast? = some last)
    (h : Ascending key log) (hn : ((after key log a).take n).length < n) :
    head key log ≤ key last := by
  obtain ⟨hpage, halast, _⟩ := page_eq_window h hlast
  have hall : (after key log a).take n = after key log a := by
    refine List.take_of_length_le ?_
    rw [List.length_take] at hn
    omega
  rw [hall] at hpage
  refine head_le fun x hx => ?_
  by_cases hax : a < key x
  · exact (mem_window.mp (hpage ▸ mem_after.mpr ⟨hx, hax⟩)).2.2
  · omega

theorem head_le_of_after {n : Nat} (hn : 0 < n) (h : (after key log a).take n = []) :
    head key log ≤ a := by
  have hnil : after key log a = [] := by
    rcases List.take_eq_nil_iff.mp h with h | h
    · omega
    · exact h
  refine head_le fun x hx => ?_
  by_contra hlt
  have hx' : x ∈ after key log a := mem_after.mpr ⟨hx, by omega⟩
  rw [hnil] at hx'
  cases hx'

/-! Queues. -/

variable {p : α → Bool} {q : Nat} {qs : List Nat}

/-- From `a` on, the queue names what counts in the log up to `b` and leaves nothing out:
before each of its keys nothing is left that it has not named. -/
def Follows (key : α → Nat) (p : α → Bool) (log : List α) : Nat → List Nat → Nat → Prop
  | a, [], b => ∀ x ∈ log, p x = true → a < key x → b < key x
  | a, q :: qs, b => (∀ x ∈ log, p x = true → a < key x → q ≤ key x) ∧
      Follows key p log (max a q) qs b

theorem Follows.start (h : head key log ≤ a) : Follows key p log a qs b := by
  induction qs generalizing a with
  | nil =>
    intro x hx _ hlt
    have : key x ≤ head key log := le_head hx
    omega
  | cons q qs ih =>
    refine ⟨?_, ih (Nat.le_trans h (Nat.le_max_left _ _))⟩
    intro x hx _ hlt
    have : key x ≤ head key log := le_head hx
    omega

/-- A reader that is further on. -/
theorem Follows.mono {a' : Nat} (h : Follows key p log a qs b) (ha : a ≤ a') :
    Follows key p log a' qs b := by
  induction qs generalizing a a' with
  | nil => exact fun x hx hp hlt => h x hx hp (by omega)
  | cons q qs ih => exact ⟨fun x hx hp hlt => h.1 x hx hp (by omega), ih h.2 (by omega)⟩

/-- The writer goes over entries that do not count, or back. -/
theorem Follows.skip {b' : Nat} (h : Follows key p log a qs b)
    (hb : ∀ x ∈ log, p x = true → b < key x → b' < key x) : Follows key p log a qs b' := by
  induction qs generalizing a with
  | nil => exact fun x hx hp hlt => hb x hx hp (h x hx hp hlt)
  | cons q qs ih => exact ⟨h.1, ih h.2⟩

theorem Follows.offer (h : Follows key p log a qs b)
    (hq : ∀ x ∈ log, p x = true → b < key x → q ≤ key x) :
    Follows key p log a (qs ++ [q]) q := by
  induction qs generalizing a with
  | nil =>
    refine ⟨fun x hx hp hlt => hq x hx hp (h x hx hp hlt), fun x _ _ hlt => ?_⟩
    omega
  | cons r qs ih => exact ⟨h.1, ih h.2⟩

theorem Follows.append (h : Follows key p log a qs b) (hb : b ≤ head key log)
    (hqs : ∀ q ∈ qs, q ≤ head key log) (hnew : ∀ x ∈ new, head key log < key x) :
    Follows key p (log ++ new) a qs b := by
  induction qs generalizing a with
  | nil =>
    intro x hx hp hlt
    rcases List.mem_append.mp hx with hx | hx
    · exact h x hx hp hlt
    · have := hnew x hx
      omega
  | cons q qs ih =>
    refine ⟨fun x hx hp hlt => ?_, ih h.2 fun r hr => hqs r (List.mem_cons_of_mem _ hr)⟩
    rcases List.mem_append.mp hx with hx | hx
    · exact h.1 x hx hp hlt
    · have := hnew x hx
      have := hqs q List.mem_cons_self
      omega

end Logs
