import Mathlib.Data.List.Nodup

/-! Rows of a table with a unique key: a row whose key is taken is not inserted. -/

namespace UniqueRows

variable {α κ : Type} [DecidableEq κ] {key : α → κ} {row other : α} {rows fresh : List α}

def insertNew (key : α → κ) (row : α) (rows : List α) : List α :=
  if rows.any fun r => key r = key row then rows else rows ++ [row]

def insertAll (key : α → κ) (rows fresh : List α) : List α :=
  fresh.foldl (fun rows row => insertNew key row rows) rows

theorem insertNew_taken (hr : other ∈ rows) (hk : key other = key row) :
    insertNew key row rows = rows := by
  rw [insertNew, if_pos (List.any_eq_true.mpr ⟨other, hr, decide_eq_true hk⟩)]

theorem insertNew_free (h : ∀ r ∈ rows, key r ≠ key row) :
    insertNew key row rows = rows ++ [row] := by
  rw [insertNew, if_neg]
  intro htaken
  obtain ⟨r, hr, hk⟩ := List.any_eq_true.mp htaken
  exact h r hr (of_decide_eq_true hk)

/-- The key is taken, or it is not. -/
theorem insertNew_cases (key : α → κ) (row : α) (rows : List α) :
    ((∃ r ∈ rows, key r = key row) ∧ insertNew key row rows = rows) ∨
      ((∀ r ∈ rows, key r ≠ key row) ∧ insertNew key row rows = rows ++ [row]) := by
  by_cases h : ∃ r ∈ rows, key r = key row
  · obtain ⟨r, hr, hk⟩ := h
    exact Or.inl ⟨⟨r, hr, hk⟩, insertNew_taken hr hk⟩
  · have hfree : ∀ r ∈ rows, key r ≠ key row := fun r hr hk => h ⟨r, hr, hk⟩
    exact Or.inr ⟨hfree, insertNew_free hfree⟩

theorem prefix_insertNew : rows <+: insertNew key row rows := by
  rcases insertNew_cases key row rows with ⟨-, h⟩ | ⟨-, h⟩
  · simp [h]
  · rw [h]
    exact List.prefix_append rows [row]

theorem nodup_insertNew (h : (rows.map key).Nodup) : ((insertNew key row rows).map key).Nodup := by
  rcases insertNew_cases key row rows with ⟨-, hins⟩ | ⟨hfree, hins⟩
  · rw [hins]
    exact h
  · rw [hins, List.map_append, List.nodup_append]
    refine ⟨h, List.nodup_singleton _, fun x hx y hy hxy => ?_⟩
    obtain ⟨r, hr, rfl⟩ := List.mem_map.mp hx
    rw [List.map_singleton, List.mem_singleton] at hy
    exact hfree r hr (hxy.trans hy)

theorem mem_insertNew (h : other ∈ insertNew key row rows) : other ∈ rows ∨ other = row := by
  rcases insertNew_cases key row rows with ⟨-, hins⟩ | ⟨-, hins⟩
  · rw [hins] at h
    exact Or.inl h
  · rw [hins] at h
    exact (List.mem_append.mp h).imp_right List.mem_singleton.mp

omit [DecidableEq κ] in
theorem nodup_concat (h : (rows.map key).Nodup) (hfree : key row ∉ rows.map key) :
    ((rows ++ [row]).map key).Nodup := by
  rw [List.map_append, List.nodup_append]
  refine ⟨h, List.nodup_singleton _, fun a ha b hb hab => ?_⟩
  rw [List.map_singleton, List.mem_singleton] at hb
  rw [hab, hb] at ha
  exact hfree ha

/-- A lookup by the key that finds nothing: the key is free. -/
theorem fresh_of_find? {k : κ} (h : (rows.find? fun r => key r = k).isSome = false) :
    k ∉ rows.map key := by
  intro hmem
  obtain ⟨r, hr, hk⟩ := List.mem_map.mp hmem
  rw [Option.isSome_eq_false_iff, Option.isNone_iff_eq_none, List.find?_eq_none] at h
  exact h r hr (decide_eq_true hk)

theorem eq_of_find? {k : κ} (h : rows.find? (fun r => key r = k) = some row) :
    row ∈ rows ∧ key row = k :=
  ⟨List.mem_of_find?_eq_some h, by simpa using List.find?_some h⟩

/-- A row is in the table after its insert iff no other row had its key. -/
theorem mem_insertNew_self : row ∈ insertNew key row rows ↔
    (∀ r ∈ rows, key r ≠ key row) ∨ row ∈ rows := by
  rcases insertNew_cases key row rows with ⟨⟨r, hr, hk⟩, hins⟩ | ⟨hfree, hins⟩
  · rw [hins]
    exact ⟨Or.inr, fun h => h.resolve_left fun hfree => hfree r hr hk⟩
  · rw [hins]
    exact ⟨fun _ => Or.inl hfree, fun _ => List.mem_append_right _ (List.mem_singleton_self row)⟩

theorem prefix_insertAll : rows <+: insertAll key rows fresh := by
  induction fresh generalizing rows with
  | nil => exact List.prefix_rfl
  | cons row fresh ih => exact prefix_insertNew.trans ih

theorem nodup_insertAll (h : (rows.map key).Nodup) :
    ((insertAll key rows fresh).map key).Nodup := by
  induction fresh generalizing rows with
  | nil => exact h
  | cons row fresh ih => exact ih (nodup_insertNew h)

theorem mem_insertAll (h : other ∈ insertAll key rows fresh) : other ∈ rows ∨ other ∈ fresh := by
  induction fresh generalizing rows with
  | nil => exact Or.inl h
  | cons row fresh ih =>
    rcases ih h with h | h
    · rcases mem_insertNew h with h | rfl
      · exact Or.inl h
      · exact Or.inr List.mem_cons_self
    · exact Or.inr (List.mem_cons_of_mem row h)

theorem insertAll_free (hfree : ∀ r ∈ rows, ∀ f ∈ fresh, key r ≠ key f)
    (h : (fresh.map key).Nodup) : insertAll key rows fresh = rows ++ fresh := by
  induction fresh generalizing rows with
  | nil => exact (List.append_nil rows).symm
  | cons row fresh ih =>
    rw [List.map_cons, List.nodup_cons] at h
    have hrow := insertNew_free fun r hr => hfree r hr row List.mem_cons_self
    show insertAll key (insertNew key row rows) fresh = rows ++ row :: fresh
    rw [hrow, ih ?_ h.2, List.append_assoc, List.singleton_append]
    intro r hr f hf
    rcases List.mem_append.mp hr with hr | hr
    · exact hfree r hr f (List.mem_cons_of_mem row hf)
    · rw [List.mem_singleton.mp hr]
      intro hk
      exact h.1 (hk ▸ List.mem_map_of_mem hf)

/-- Different rows whose keys are free are all inserted iff their keys are different. -/
theorem all_inserted_iff (hrows : (rows.map key).Nodup)
    (hfree : ∀ r ∈ rows, ∀ f ∈ fresh, key r ≠ key f) (hfresh : fresh.Nodup) :
    (∀ f ∈ fresh, f ∈ insertAll key rows fresh) ↔ (fresh.map key).Nodup := by
  constructor
  · intro h
    refine hfresh.map_on fun f hf g hg hk => ?_
    exact List.inj_on_of_nodup_map (nodup_insertAll hrows) (h f hf) (h g hg) hk
  · intro h f hf
    rw [insertAll_free hfree h]
    exact List.mem_append_right rows hf

end UniqueRows
