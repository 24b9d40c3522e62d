import Mathlib.Data.List.Basic

/-! Texts written from a sorted list, and what the order of ties does to them. -/

namespace Ties

variable {α β : Type} {le : α → α → Bool} {word : α → List β} {l l' : List α}

/-- Two elements that tie read the same in either order. -/
def Steady (le : α → α → Bool) (word : α → List β) (l : List α) : Prop :=
  ∀ a ∈ l, ∀ b ∈ l, le a b = true → le b a = true → word a ++ word b = word b ++ word a

theorem Steady.of_perm (h : Steady le word l) (hp : l'.Perm l) : Steady le word l' :=
  fun a ha b hb => h a (hp.subset ha) b (hp.subset hb)

theorem flatMap_comm {a : α} (h : ∀ b ∈ l, word a ++ word b = word b ++ word a) :
    word a ++ l.flatMap word = l.flatMap word ++ word a := by
  induction l with
  | nil => simp
  | cons b l ih =>
    have hb := h b List.mem_cons_self
    have hl := ih fun c hc => h c (List.mem_cons_of_mem _ hc)
    rw [List.flatMap_cons, ← List.append_assoc, hb, List.append_assoc, hl, List.append_assoc]

/-- Where ties read the same, every sorted order of the elements reads the same. -/
theorem flatMap_sorted (hp : l.Perm l') (hl : l.Pairwise (fun a b => le a b = true))
    (hl' : l'.Pairwise (fun a b => le a b = true)) (h : Steady le word l) :
    l.flatMap word = l'.flatMap word := by
  induction l generalizing l' with
  | nil => rw [hp.nil_eq]
  | cons a l ih =>
    obtain ⟨u, v, rfl⟩ := List.append_of_mem (hp.subset List.mem_cons_self)
    have hp' : l.Perm (u ++ v) := (hp.trans List.perm_middle).cons_inv
    obtain ⟨hu, hv, huv⟩ := List.pairwise_append.mp hl'
    have hfirst : ∀ b ∈ u, word a ++ word b = word b ++ word a := by
      intro b hb
      have hbl : b ∈ l := hp'.symm.subset (List.mem_append_left v hb)
      exact h a List.mem_cons_self b (List.mem_cons_of_mem _ hbl)
        ((List.pairwise_cons.mp hl).1 b hbl) (huv b hb a List.mem_cons_self)
    have hrest : (u ++ v).Pairwise (fun a b => le a b = true) :=
      hl'.sublist ((List.Sublist.refl u).append (List.sublist_cons_self a v))
    have hsteady : Steady le word l := fun b hb c hc =>
      h b (List.mem_cons_of_mem _ hb) c (List.mem_cons_of_mem _ hc)
    rw [List.flatMap_cons, ih hp' (List.pairwise_cons.mp hl).2 hrest hsteady, List.flatMap_append,
      List.flatMap_append, List.flatMap_cons, ← List.append_assoc, flatMap_comm hfirst,
      List.append_assoc]

section

variable (trans : ∀ a b c, le a b = true → le b c = true → le a c = true)
  (total : ∀ a b, (le a b || le b a) = true)

include trans total

/-- Where the sort puts one element more: before the first that is not smaller. -/
theorem mergeSort_cons_eq (a : α) (l : List α) :
    (a :: l).mergeSort le = (l.mergeSort le).takeWhile (fun c => !le a c) ++
      a :: (l.mergeSort le).dropWhile (fun c => !le a c) := by
  obtain ⟨u, v, hau, hl, hu⟩ := List.mergeSort_cons trans total a l
  have hsorted := List.pairwise_mergeSort trans total (a :: l)
  rw [hau] at hsorted
  have hv : v.takeWhile (fun c => !le a c) = [] ∧ v.dropWhile (fun c => !le a c) = v := by
    cases v with
    | nil => exact ⟨rfl, rfl⟩
    | cons c v =>
      have hac := (List.pairwise_cons.mp (List.pairwise_append.mp hsorted).2.1).1 c
        List.mem_cons_self
      simp [hac]
  rw [hau, hl, List.takeWhile_append_of_pos hu, List.dropWhile_append_of_pos hu, hv.1, hv.2,
    List.append_nil]

omit total in
/-- Elements that tie are placed before the same others. -/
theorem tied_places {a b : α} (hab : le a b = true) (hba : le b a = true) :
    (fun c => !le b c) = fun c => !le a c := by
  funext c
  have hiff : le b c = true ↔ le a c = true := ⟨trans a b c hab, trans b a c hba⟩
  rw [Bool.eq_iff_iff.mpr hiff]

/-- Of two elements that tie, the one that stands first is sorted first. -/
theorem mergeSort_tied {a b : α} (hab : le a b = true) (hba : le b a = true) (l : List α) :
    (a :: b :: l).mergeSort le = (l.mergeSort le).takeWhile (fun c => !le a c) ++
      a :: b :: (l.mergeSort le).dropWhile (fun c => !le a c) := by
  have htake : ∀ c ∈ (l.mergeSort le).takeWhile (fun c => !le a c), (!le a c) = true :=
    List.all_eq_true.mp List.all_takeWhile
  rw [mergeSort_cons_eq trans total a, mergeSort_cons_eq trans total b,
    tied_places trans hab hba,
    List.takeWhile_append_of_pos htake, List.dropWhile_append_of_pos htake]
  simp [hab]

/-- Where every order of the elements is sorted to the same text, ties read the same. -/
theorem steady_of_flatMap
    (h : ∀ l' : List α, l'.Perm l → (l'.mergeSort le).flatMap word = (l.mergeSort le).flatMap word) :
    Steady le word l := by
  intro a ha b hb hab hba
  by_cases heq : a = b
  · rw [heq]
  · obtain ⟨u, v, rfl⟩ := List.append_of_mem ha
    have hbrest : b ∈ u ++ v := by
      rcases List.mem_append.mp hb with hb | hb
      · exact List.mem_append_left v hb
      · exact List.mem_append_right u ((List.mem_cons.mp hb).resolve_left (Ne.symm heq))
    obtain ⟨s, t, hst⟩ := List.append_of_mem hbrest
    have hperm : (u ++ a :: v).Perm (a :: b :: (s ++ t)) :=
      List.perm_middle.trans (List.Perm.cons a (hst ▸ List.perm_middle))
    have hfirst := h _ hperm.symm
    have hsecond := h _ ((List.Perm.swap a b (s ++ t)).trans hperm.symm)
    have hboth := hfirst.trans hsecond.symm
    rw [mergeSort_tied trans total hab hba, mergeSort_tied trans total hba hab,
      tied_places trans hab hba] at hboth
    simp only [List.flatMap_append, List.flatMap_cons] at hboth
    have hrest := List.append_cancel_left hboth
    rw [← List.append_assoc, ← List.append_assoc] at hrest
    exact List.append_cancel_right hrest

end

end Ties
