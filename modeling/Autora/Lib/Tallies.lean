import Mathlib.Algebra.BigOperators.Group.List.Basic
import Mathlib.Data.List.Nodup
import Mathlib.Tactic.Abel

/-! Entries added up under their keys: a list with one entry for each key. -/

namespace Tallies

variable {α κ M : Type} [DecidableEq κ] {key : α → κ} {plus : α → α → α} {l l' rows rows' : List α}
  {a b : α}

def add (key : α → κ) (plus : α → α → α) : List α → α → List α
  | [], a => [a]
  | held :: rest, a => if key held = key a then plus held a :: rest else held :: add key plus rest a

/-- What is kept of an entry when another is added to it. -/
structure Lawful (key : α → κ) (plus : α → α → α) : Prop where
  key_plus : ∀ a b, key (plus a b) = key a
  assoc : ∀ a b c, plus (plus a b) c = plus a (plus b c)
  right_comm : ∀ a b c, plus (plus a b) c = plus (plus a c) b

theorem add_same {held : α} (h : key held = key a) :
    add key plus (held :: l) a = plus held a :: l := if_pos h

theorem add_other {held : α} (h : key held ≠ key a) :
    add key plus (held :: l) a = held :: add key plus l a := if_neg h

section

variable (law : Lawful key plus)

include law

/-! ## The keys -/

theorem keys_add_of_mem (h : key a ∈ l.map key) : (add key plus l a).map key = l.map key := by
  induction l with
  | nil => exact absurd h List.not_mem_nil
  | cons held l ih =>
    by_cases hkey : key held = key a
    · rw [add_same hkey, List.map_cons, List.map_cons, law.key_plus]
    · have hrest : key a ∈ l.map key := (List.mem_cons.mp h).resolve_left (Ne.symm hkey)
      rw [add_other hkey, List.map_cons, List.map_cons, ih hrest]

omit law in
theorem add_of_not_mem (h : key a ∉ l.map key) : add key plus l a = l ++ [a] := by
  induction l with
  | nil => rfl
  | cons held l ih =>
    rw [List.map_cons, List.mem_cons, not_or] at h
    rw [add_other (Ne.symm h.1), ih h.2, List.cons_append]

theorem mem_keys_add {k : κ} :
    k ∈ (add key plus l a).map key ↔ k ∈ l.map key ∨ k = key a := by
  by_cases h : key a ∈ l.map key
  · rw [keys_add_of_mem law h]
    exact ⟨Or.inl, fun hk => hk.elim id fun hk => hk ▸ h⟩
  · rw [add_of_not_mem h, List.map_append, List.mem_append, List.map_singleton,
      List.mem_singleton]

theorem nodup_add (h : (l.map key).Nodup) : ((add key plus l a).map key).Nodup := by
  by_cases hmem : key a ∈ l.map key
  · rw [keys_add_of_mem law hmem]
    exact h
  · rw [add_of_not_mem hmem, List.map_append, List.map_singleton]
    exact List.nodup_append.mpr ⟨h, List.nodup_singleton _, by
      intro x hx y hy hxy
      rw [List.mem_singleton.mp hy] at hxy
      exact hmem (hxy ▸ hx)⟩

theorem nodup_foldl (h : (l.map key).Nodup) : ((rows.foldl (add key plus) l).map key).Nodup := by
  induction rows generalizing l with
  | nil => exact h
  | cons a rows ih => exact ih (nodup_add law h)

/-! ## Adding up what is added up -/

theorem add_comm_of_mem (h : key a ∈ l.map key) :
    add key plus (add key plus l a) b = add key plus (add key plus l b) a := by
  induction l with
  | nil => exact absurd h List.not_mem_nil
  | cons held l ih =>
    by_cases ha : key held = key a <;> by_cases hb : key held = key b
    · rw [add_same ha, add_same hb, add_same (by rw [law.key_plus, hb]),
        add_same (by rw [law.key_plus, ha]), law.right_comm]
    · rw [add_same ha, add_other hb, add_other (by rw [law.key_plus]; exact hb), add_same ha]
    · rw [add_other ha, add_same hb, add_same hb, add_other (by rw [law.key_plus]; exact ha)]
    · have hrest : key a ∈ l.map key := (List.mem_cons.mp h).resolve_left (Ne.symm ha)
      rw [add_other ha, add_other hb, add_other hb, add_other ha, ih hrest]

theorem add_plus (h : key a = key b) :
    add key plus l (plus a b) = add key plus (add key plus l a) b := by
  induction l with
  | nil => rw [add, add, add_same h]
  | cons held l ih =>
    by_cases hkey : key held = key a
    · rw [add_same hkey, add_same (by rw [law.key_plus, hkey]),
        add_same (by rw [law.key_plus, hkey, h]), law.assoc]
    · rw [add_other hkey, add_other (by rw [law.key_plus]; exact hkey),
        add_other (h ▸ hkey), ih]

theorem foldl_comm_of_mem (h : key a ∈ l.map key) :
    rows.foldl (add key plus) (add key plus l a) = add key plus (rows.foldl (add key plus) l) a := by
  induction rows generalizing l with
  | nil => rfl
  | cons b rows ih =>
    rw [List.foldl_cons, List.foldl_cons, add_comm_of_mem law h,
      ih ((mem_keys_add law).mpr (Or.inl h))]

theorem foldl_add {acc : List α} :
    (add key plus l a).foldl (add key plus) acc = add key plus (l.foldl (add key plus) acc) a := by
  induction l generalizing acc with
  | nil => rfl
  | cons held l ih =>
    by_cases hkey : key held = key a
    · have hmem : key a ∈ (add key plus acc held).map key :=
        (mem_keys_add law).mpr (Or.inr hkey.symm)
      rw [add_same hkey, List.foldl_cons, List.foldl_cons, add_plus law hkey,
        foldl_comm_of_mem law hmem]
    · rw [add_other hkey, List.foldl_cons, List.foldl_cons, ih]

/-- Sums added up are the rows added up. -/
theorem foldl_foldl {acc : List α} :
    (rows.foldl (add key plus) l).foldl (add key plus) acc =
      rows.foldl (add key plus) (l.foldl (add key plus) acc) := by
  induction rows generalizing l with
  | nil => rfl
  | cons a rows ih => rw [List.foldl_cons, List.foldl_cons, ih, foldl_add law]

/-! ## The order of the rows -/

omit law in
theorem add_perm (h : l.Perm l') (hnodup : (l.map key).Nodup) :
    (add key plus l a).Perm (add key plus l' a) := by
  induction h with
  | nil => exact List.Perm.refl _
  | @cons held l l' hp ih =>
    by_cases hkey : key held = key a
    · rw [add_same hkey, add_same hkey]
      exact hp.cons _
    · rw [add_other hkey, add_other hkey]
      exact (ih (List.nodup_cons.mp hnodup).2).cons _
  | swap x y l =>
    have hxy : key y ≠ key x := fun h =>
      (List.nodup_cons.mp hnodup).1 (h ▸ List.mem_cons_self)
    by_cases hx : key x = key a
    · have hy : key y ≠ key a := fun h => hxy (h.trans hx.symm)
      rw [add_other hy, add_same hx, add_same hx]
      exact List.Perm.swap _ _ _
    · by_cases hy : key y = key a
      · rw [add_same hy, add_other hx, add_same hy]
        exact List.Perm.swap _ _ _
      · rw [add_other hy, add_other hx, add_other hx, add_other hy]
        exact List.Perm.swap _ _ _
  | trans h _ ih ih' => exact (ih hnodup).trans (ih' ((h.map key).nodup_iff.mp hnodup))

theorem foldl_perm_left (h : l.Perm l') (hnodup : (l.map key).Nodup) :
    (rows.foldl (add key plus) l).Perm (rows.foldl (add key plus) l') := by
  induction rows generalizing l l' with
  | nil => exact h
  | cons a rows ih => exact ih (add_perm h hnodup) (nodup_add law hnodup)

theorem add_swap (h : key a = key b → plus a b = plus b a) :
    (add key plus (add key plus l a) b).Perm (add key plus (add key plus l b) a) := by
  by_cases ha : key a ∈ l.map key
  · rw [add_comm_of_mem law ha]
  · by_cases hb : key b ∈ l.map key
    · rw [add_comm_of_mem law hb]
    · by_cases hab : key a = key b
      · rw [← add_plus law hab, ← add_plus law hab.symm, h hab]
      · have ha' : key a ∉ (l ++ [b]).map key := by
          rw [List.map_append, List.mem_append, List.map_singleton, List.mem_singleton]
          exact fun hmem => hmem.elim ha hab
        have hb' : key b ∉ (l ++ [a]).map key := by
          rw [List.map_append, List.mem_append, List.map_singleton, List.mem_singleton]
          exact fun hmem => hmem.elim hb (Ne.symm hab)
        rw [add_of_not_mem ha, add_of_not_mem hb, add_of_not_mem ha', add_of_not_mem hb',
          List.append_assoc, List.append_assoc]
        exact (List.Perm.swap b a []).append_left l

/-- Where entries of one key may be added in either order, so may all rows. -/
theorem foldl_perm (hp : rows.Perm rows') (hnodup : (l.map key).Nodup)
    (h : ∀ a ∈ rows, ∀ b ∈ rows, key a = key b → plus a b = plus b a) :
    (rows.foldl (add key plus) l).Perm (rows'.foldl (add key plus) l) := by
  induction hp generalizing l with
  | nil => exact List.Perm.refl _
  | cons a _ ih =>
    exact ih (nodup_add law hnodup) fun x hx y hy =>
      h x (List.mem_cons_of_mem _ hx) y (List.mem_cons_of_mem _ hy)
  | swap a b rows =>
    have hba := h b List.mem_cons_self a (List.mem_cons_of_mem _ List.mem_cons_self)
    exact foldl_perm_left law (add_swap law hba) (nodup_add law (nodup_add law hnodup))
  | trans hp _ ih ih' =>
    exact (ih hnodup h).trans (ih' hnodup fun x hx y hy =>
      h x (hp.symm.subset hx) y (hp.symm.subset hy))

/-! ## Sums -/

omit law in
theorem sum_add [AddCommMonoid M] {m : α → M}
    (hm : ∀ a b, key a = key b → m (plus a b) = m a + m b) :
    ((add key plus l a).map m).sum = (l.map m).sum + m a := by
  induction l with
  | nil => rw [add, List.map_singleton, List.sum_singleton, List.map_nil, List.sum_nil, zero_add]
  | cons held l ih =>
    by_cases hkey : key held = key a
    · rw [add_same hkey, List.map_cons, List.map_cons, List.sum_cons, List.sum_cons, hm _ _ hkey]
      abel
    · rw [add_other hkey, List.map_cons, List.map_cons, List.sum_cons, List.sum_cons, ih, add_assoc]

omit law in
theorem sum_foldl [AddCommMonoid M] {m : α → M}
    (hm : ∀ a b, key a = key b → m (plus a b) = m a + m b) :
    ((rows.foldl (add key plus) l).map m).sum = (l.map m).sum + (rows.map m).sum := by
  induction rows generalizing l with
  | nil => simp
  | cons a rows ih => rw [List.foldl_cons, ih, sum_add hm, List.map_cons, List.sum_cons, add_assoc]

omit law in
theorem map_add {f : α → α} (hkey : ∀ a, key (f a) = key a)
    (hplus : ∀ a b, f (plus a b) = plus (f a) (f b)) :
    (add key plus l a).map f = add key plus (l.map f) (f a) := by
  induction l with
  | nil => rfl
  | cons held l ih =>
    by_cases h : key held = key a
    · rw [add_same h, List.map_cons, List.map_cons, add_same (by rw [hkey, hkey, h]), hplus]
    · rw [add_other h, List.map_cons, List.map_cons, add_other (by rw [hkey, hkey]; exact h), ih]

omit law in
theorem map_foldl {f : α → α} (hkey : ∀ a, key (f a) = key a)
    (hplus : ∀ a b, f (plus a b) = plus (f a) (f b)) :
    (rows.foldl (add key plus) l).map f = (rows.map f).foldl (add key plus) (l.map f) := by
  induction rows generalizing l with
  | nil => rfl
  | cons a rows ih => rw [List.foldl_cons, List.map_cons, List.foldl_cons, ih, map_add hkey hplus]

end

/-! ## The entry of a key -/

section

variable {k : κ}

theorem find?_of_mem (hnodup : (l.map key).Nodup) (ha : a ∈ l) :
    l.find? (fun x => key x = key a) = some a := by
  induction l with
  | nil => exact absurd ha List.not_mem_nil
  | cons x l ih =>
    rw [List.map_cons, List.nodup_cons] at hnodup
    rcases List.mem_cons.mp ha with rfl | ha
    · rw [List.find?_cons_of_pos (by simp)]
    · have hx : key x ≠ key a := fun h => hnodup.1 (h ▸ List.mem_map_of_mem ha)
      rw [List.find?_cons_of_neg (by simpa using hx), ih hnodup.2 ha]

theorem find?_of_not_mem (h : k ∉ l.map key) : l.find? (fun x => key x = k) = none := by
  rw [List.find?_eq_none]
  intro x hx hk
  exact h (List.mem_map.mpr ⟨x, hx, of_decide_eq_true hk⟩)

theorem find?_isSome (h : k ∈ l.map key) : ∃ a ∈ l, key a = k ∧
    l.find? (fun x => key x = k) = some a := by
  obtain ⟨x, hx, hx'⟩ := List.mem_map.mp h
  have hsome : (l.find? fun x => key x = k).isSome := by
    rw [List.find?_isSome]
    exact ⟨x, hx, decide_eq_true hx'⟩
  obtain ⟨a, ha⟩ := Option.isSome_iff_exists.mp hsome
  have hk : key a = k := by simpa using List.find?_some ha
  exact ⟨a, List.mem_of_find?_eq_some ha, hk, ha⟩

theorem find?_perm (hp : l.Perm l') (hnodup : (l.map key).Nodup) :
    l.find? (fun x => key x = k) = l'.find? fun x => key x = k := by
  by_cases h : k ∈ l.map key
  · obtain ⟨a, ha, rfl, hfind⟩ := find?_isSome h
    rw [hfind, find?_of_mem ((hp.map key).nodup_iff.mp hnodup) (hp.subset ha)]
  · rw [find?_of_not_mem h, find?_of_not_mem fun h' => h ((hp.map key).mem_iff.mpr h')]

/-- Read at all keys, the entries come to what they come to together. -/
theorem sum_find? [AddCommMonoid M] {m : α → M} {keys : List κ} (hkeys : keys.Nodup)
    (hnodup : (l.map key).Nodup) (hsub : ∀ a ∈ l, key a ∈ keys) :
    (keys.map fun k => ((l.find? fun x => key x = k).map m).getD 0).sum = (l.map m).sum := by
  induction l with
  | nil => simp
  | cons a l ih =>
    rw [List.map_cons, List.nodup_cons] at hnodup
    have hterm : ∀ k ∈ keys, (((a :: l).find? fun x => key x = k).map m).getD 0 =
        (if k = key a then m a else 0) + ((l.find? fun x => key x = k).map m).getD 0 := by
      intro k _
      by_cases hk : k = key a
      · subst hk
        rw [List.find?_cons_of_pos (by simp), find?_of_not_mem hnodup.1, if_pos rfl]
        simp
      · rw [List.find?_cons_of_neg (by simpa using Ne.symm hk), if_neg hk, zero_add]
    have hsingle : (keys.map fun k => if k = key a then m a else 0).sum = m a := by
      have hmem : key a ∈ keys := hsub a List.mem_cons_self
      rw [List.sum_map_eq_nsmul_single (key a) _ fun k hk _ => if_neg hk, if_pos rfl,
        List.count_eq_one_of_mem hkeys hmem, one_nsmul]
    rw [List.map_congr_left hterm, List.sum_map_add, hsingle, List.map_cons, List.sum_cons,
      ih hnodup.2 fun b hb => hsub b (List.mem_cons_of_mem _ hb)]

end

end Tallies
