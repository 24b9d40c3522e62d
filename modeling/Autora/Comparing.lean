import Autora.AddedUp

/-! A comparison's groups: every position once, in the group its change belongs to, and the
changes together the difference of the totals. -/

namespace Autora.Disclosures

/-! ## The change at a key -/

def Change.key (c : Change) : Key := c.held.key

theorem find_key {positions : List Position} {k : Key} {p : Position}
    (h : find positions k = some p) : p.key = k := by
  simpa using List.find?_some h

theorem find_none {positions : List Position} {k : Key} :
    find positions k = none ↔ k ∉ positions.map Position.key := by
  refine ⟨fun h hk => ?_, Tallies.find?_of_not_mem⟩
  obtain ⟨p, _, _, hp⟩ := Tallies.find?_isSome hk
  exact Option.some_ne_none p (hp.symm.trans h)

/-- What stands at a key is what both sides hold there. -/
theorem changeAt_some {now before : List Position} {k : Key} {c : Change}
    (h : changeAt now before k = some c) :
    c.now = find now k ∧ c.before = find before k ∧ c.key = k ∧
      (c.now.isSome = true ∨ c.before.isSome = true) := by
  unfold changeAt at h
  cases hnow : find now k with
  | some p =>
    rw [hnow] at h
    obtain rfl := Option.some_inj.mp h
    exact ⟨rfl, rfl, find_key hnow, Or.inl rfl⟩
  | none =>
    rw [hnow] at h
    cases hbefore : find before k with
    | some q =>
      rw [hbefore] at h
      obtain rfl := Option.some_inj.mp h
      exact ⟨rfl, rfl, find_key hbefore, Or.inr rfl⟩
    | none =>
      rw [hbefore] at h
      cases h

theorem changeAt_none {now before : List Position} {k : Key}
    (h : changeAt now before k = none) : find now k = none ∧ find before k = none := by
  unfold changeAt at h
  cases hnow : find now k with
  | some p =>
    rw [hnow] at h
    cases h
  | none =>
    cases hbefore : find before k with
    | some q =>
      rw [hnow, hbefore] at h
      cases h
    | none => exact ⟨rfl, rfl⟩

section

variable {keys : List Key} {now before : Holdings}

theorem changesIn_keys (h : IsOrder keys now before) :
    (changesIn keys now before).map Change.key = keys := by
  have hsome : ∀ k ∈ keys, ∃ c, changeAt now.positions before.positions k = some c := by
    intro k hk
    cases hc : changeAt now.positions before.positions k with
    | some c => exact ⟨c, rfl⟩
    | none =>
      obtain ⟨hnow, hbefore⟩ := changeAt_none hc
      exact ((h.mem k).mp hk).elim (absurd · (find_none.mp hnow)) (absurd · (find_none.mp hbefore))
  clear h
  unfold changesIn
  induction keys with
  | nil => rfl
  | cons k keys ih =>
    obtain ⟨c, hc⟩ := hsome k List.mem_cons_self
    rw [List.filterMap_cons_some hc, List.map_cons, (changeAt_some hc).2.2.1,
      ih fun k hk => hsome k (List.mem_cons_of_mem _ hk)]

theorem changesIn_of_at {l : List Change}
    (h : ∀ c ∈ l, changeAt now.positions before.positions c.key = some c) :
    changesIn (l.map Change.key) now before = l := by
  unfold changesIn
  induction l with
  | nil => rfl
  | cons c l ih =>
    rw [List.map_cons, List.filterMap_cons_some (h c List.mem_cons_self),
      ih fun d hd => h d (List.mem_cons_of_mem _ hd)]

theorem mem_changesIn {c : Change} (hc : c ∈ changesIn keys now before) :
    changeAt now.positions before.positions c.key = some c := by
  obtain ⟨k, _, hk⟩ := List.mem_filterMap.mp hc
  rw [(changeAt_some hk).2.2.1]
  exact hk

variable (hnow : (now.positions.map Position.key).Nodup)
  (hbefore : (before.positions.map Position.key).Nodup)

include hnow hbefore

theorem changes_at : ∀ c ∈ changes now.positions before.positions,
    changeAt now.positions before.positions c.key = some c := by
  intro c hc
  rcases List.mem_append.mp hc with hc | hc
  · obtain ⟨p, hp, rfl⟩ := List.mem_map.mp hc
    have hfind : find now.positions p.key = some p := Tallies.find?_of_mem hnow hp
    change changeAt now.positions before.positions p.key = _
    rw [changeAt, hfind]
    rfl
  · obtain ⟨q, hq, rfl⟩ := List.mem_map.mp hc
    rw [List.mem_filter, List.all_eq_true] at hq
    have hfind : find before.positions q.key = some q := Tallies.find?_of_mem hbefore hq.1
    have hnone : find now.positions q.key = none := by
      rw [find_none]
      intro hmem
      obtain ⟨p, hp, hkey⟩ := List.mem_map.mp hmem
      exact of_decide_eq_true (hq.2 p hp) hkey
    change changeAt now.positions before.positions q.key = _
    rw [changeAt, hnone, hfind]

/-- The changes as the table of positions lists them are in one order of the keys. -/
theorem changes_isOrder :
    IsOrder ((changes now.positions before.positions).map Change.key) now before := by
  have hkeys : (changes now.positions before.positions).map Change.key =
      now.positions.map Position.key ++ (before.positions.filter fun q =>
        now.positions.all fun p => p.key ≠ q.key).map Position.key := by
    rw [changes, List.map_append, List.map_map, List.map_map]
    rfl
  have hrest : ∀ k, k ∈ (before.positions.filter fun q =>
      now.positions.all fun p => p.key ≠ q.key).map Position.key ↔
        k ∈ before.positions.map Position.key ∧ k ∉ now.positions.map Position.key := by
    intro k
    rw [List.mem_map, List.mem_map, List.mem_map]
    constructor
    · rintro ⟨q, hq, rfl⟩
      rw [List.mem_filter, List.all_eq_true] at hq
      refine ⟨⟨q, hq.1, rfl⟩, ?_⟩
      rintro ⟨p, hp, hkey⟩
      exact of_decide_eq_true (hq.2 p hp) hkey
    · rintro ⟨⟨q, hq, rfl⟩, hk⟩
      refine ⟨q, List.mem_filter.mpr ⟨hq, List.all_eq_true.mpr fun p hp => ?_⟩, rfl⟩
      exact decide_eq_true fun hkey => hk ⟨p, hp, hkey⟩
  rw [hkeys]
  constructor
  · refine List.nodup_append.mpr ⟨hnow, (hbefore.sublist ?_), ?_⟩
    · exact List.filter_sublist.map _
    · rintro a ha b hb rfl
      exact ((hrest a).mp hb).2 ha
  · intro k
    rw [List.mem_append, hrest]
    tauto

end

/-! ## The groups -/

def largerFirst (a b : Change) : Bool :=
  b.ranked.1 < a.ranked.1 || (a.ranked.1 = b.ranked.1 && !decide (b.ranked.2 < a.ranked.2))

theorem group_eq (kind : PositionChange) (all : List Change) :
    group kind all = (all.filter fun c => c.kind = kind).mergeSort largerFirst := rfl

theorem largerFirst_iff {a b : Change} : largerFirst a b = true ↔
    b.ranked.1 < a.ranked.1 ∨ a.ranked.1 = b.ranked.1 ∧ a.ranked.2 ≤ b.ranked.2 := by
  rw [largerFirst, Bool.or_eq_true, decide_eq_true_eq, Bool.and_eq_true, decide_eq_true_eq,
    Bool.not_eq_true', decide_eq_false_iff_not, not_lt]

theorem largerFirst_trans (a b c : Change) (hab : largerFirst a b = true)
    (hbc : largerFirst b c = true) : largerFirst a c = true := by
  rw [largerFirst_iff] at hab hbc ⊢
  rcases hab with hab | ⟨hab, hname⟩ <;> rcases hbc with hbc | ⟨hbc, hname'⟩
  · exact Or.inl (hbc.trans hab)
  · exact Or.inl (hbc ▸ hab)
  · exact Or.inl (hab ▸ hbc)
  · exact Or.inr ⟨hab.trans hbc, hname.trans hname'⟩

theorem largerFirst_total (a b : Change) : (largerFirst a b || largerFirst b a) = true := by
  rw [Bool.or_eq_true, largerFirst_iff, largerFirst_iff]
  rcases lt_trichotomy a.ranked.1 b.ranked.1 with h | h | h
  · exact Or.inr (Or.inl h)
  · exact (le_total a.ranked.2 b.ranked.2).imp (fun hle => Or.inr ⟨h, hle⟩)
      fun hle => Or.inr ⟨h.symm, hle⟩
  · exact Or.inl (Or.inl h)

/-- What the sort leaves as it found it: the same value and the same name. -/
theorem largerFirst_tie {a b : Change} :
    largerFirst a b = true ∧ largerFirst b a = true ↔ a.ranked = b.ranked := by
  rw [largerFirst_iff, largerFirst_iff]
  constructor
  · rintro ⟨hab, hba⟩
    rcases hab with hab | ⟨hab, hname⟩
    · rcases hba with hba | ⟨hba, _⟩
      · exact absurd (hab.trans hba) (lt_irrefl _)
      · exact absurd hba hab.ne
    · rcases hba with hba | ⟨_, hname'⟩
      · exact absurd hab hba.ne
      · exact Prod.ext hab (le_antisymm hname hname')
  · rintro h
    rw [h]
    exact ⟨Or.inr ⟨rfl, le_refl _⟩, Or.inr ⟨rfl, le_refl _⟩⟩

theorem mem_group {kind : PositionChange} {all : List Change} {c : Change} :
    c ∈ group kind all ↔ c ∈ all ∧ c.kind = kind := by
  rw [group_eq, List.mem_mergeSort, List.mem_filter, decide_eq_true_eq]

theorem compare_get (keys : List Key) (now before : Holdings) (kind : PositionChange) :
    (compare keys now before).get kind = group kind (changesIn keys now before) := by
  cases kind <;> rfl

/-- All positions of a comparison, group by group. -/
def Comparison.all (c : Comparison) : List Change :=
  c.new ++ c.soldOut ++ c.increased ++ c.decreased ++ c.unchanged

theorem count_group (kind : PositionChange) (all : List Change) (c : Change) :
    (group kind all).count c = if c.kind = kind then all.count c else 0 := by
  rw [group_eq, (List.mergeSort_perm _ _).count_eq]
  split
  · next hkind => exact List.count_filter (decide_eq_true hkind)
  · next hkind =>
    rw [List.count_eq_zero, List.mem_filter, decide_eq_true_eq]
    exact fun h => hkind h.2

/-- Each change stands in one group, once. -/
theorem compare_all (keys : List Key) (now before : Holdings) :
    (compare keys now before).all.Perm (changesIn keys now before) := by
  rw [List.perm_iff_count]
  intro c
  simp only [Comparison.all, compare, List.count_append, count_group]
  cases c.kind <;> simp

/-- Where a change belongs, by who holds it and which way it went. -/
def Placed : PositionChange → Change → Prop
  | .new, c => c.now.isSome = true ∧ c.before = none
  | .soldOut, c => c.now = none ∧ c.before.isSome = true
  | .increased, c => c.now.isSome = true ∧ c.before.isSome = true ∧ 0 < c.delta
  | .decreased, c => c.now.isSome = true ∧ c.before.isSome = true ∧ c.delta < 0
  | .unchanged, c => c.now.isSome = true ∧ c.before.isSome = true ∧ c.delta = 0

theorem kind_placed {c : Change} (h : c.now.isSome = true ∨ c.before.isSome = true) :
    Placed c.kind c := by
  have hdelta : c.amounts.1 - c.amounts.2 = c.delta := rfl
  unfold Change.kind
  rw [hdelta]
  by_cases hbefore : c.before.isNone = true
  · have hnone : c.before = none := Option.isNone_iff_eq_none.mp hbefore
    rw [if_pos hbefore]
    exact ⟨h.resolve_right (by rw [hnone]; exact Bool.false_ne_true), hnone⟩
  · have hb : c.before.isSome = true := Option.isSome_iff_ne_none.mpr (by simpa using hbefore)
    by_cases hnow : c.now.isNone = true
    · rw [if_neg hbefore, if_pos hnow]
      exact ⟨Option.isNone_iff_eq_none.mp hnow, hb⟩
    · have hn : c.now.isSome = true := Option.isSome_iff_ne_none.mpr (by simpa using hnow)
      rw [if_neg hbefore, if_neg hnow]
      by_cases hup : 0 < c.delta
      · rw [if_pos hup]
        exact ⟨hn, hb, hup⟩
      · rw [if_neg hup]
        by_cases hdown : c.delta < 0
        · rw [if_pos hdown]
          exact ⟨hn, hb, hdown⟩
        · rw [if_neg hdown]
          exact ⟨hn, hb, by omega⟩

/-- A comparison's groups hold every position of either side once, each where it belongs. -/
structure Partitioned (diff : Comparison) (now before : Holdings) : Prop where
  once : (diff.all.map Change.key).Nodup
  every : ∀ key, key ∈ diff.all.map Change.key ↔
    key ∈ now.positions.map Position.key ∨ key ∈ before.positions.map Position.key
  sides : ∀ kind, ∀ c ∈ diff.get kind,
    c.now = find now.positions c.key ∧ c.before = find before.positions c.key
  placed : ∀ kind, ∀ c ∈ diff.get kind, Placed kind c

theorem compare_partitioned {keys : List Key} {now before : Holdings}
    (h : IsOrder keys now before) : Partitioned (compare keys now before) now before := by
  have hkeys : ((compare keys now before).all.map Change.key).Perm keys := by
    have hall := (compare_all keys now before).map Change.key
    rwa [changesIn_keys h] at hall
  have hmem : ∀ kind, ∀ c ∈ (compare keys now before).get kind, c.kind = kind ∧
      changeAt now.positions before.positions c.key = some c := by
    intro kind c hc
    rw [compare_get, mem_group] at hc
    exact ⟨hc.2, mem_changesIn hc.1⟩
  refine ⟨hkeys.nodup_iff.mpr h.nodup, fun key => hkeys.mem_iff.trans (h.mem key), ?_, ?_⟩
  · intro kind c hc
    obtain ⟨hnow, hbefore, _⟩ := changeAt_some (hmem kind c hc).2
    exact ⟨hnow, hbefore⟩
  · intro kind c hc
    obtain ⟨rfl, hat⟩ := hmem kind c hc
    exact kind_placed (changeAt_some hat).2.2.2

/-! ## The totals -/

def deltaOf (kind : String) (c : Change) : Int := if c.held.kind = kind then c.delta else 0

theorem deltaOf_changeAt (kind : String) (now before : List Position) (k : Key) :
    ((changeAt now before k).map (deltaOf kind)).getD 0 =
      ((find now k).map (amountOf kind)).getD 0 - ((find before k).map (amountOf kind)).getD 0 := by
  have hkind : ∀ p : Position, p.key = k → p.kind = k.2.2 := by
    rintro p rfl
    rfl
  unfold changeAt
  cases hnow : find now k with
  | some p =>
    cases hbefore : find before k with
    | some q =>
      have hp := hkind p (find_key hnow)
      have hq := hkind q (find_key hbefore)
      change (if p.kind = kind then p.amount - q.amount else 0) =
        amountOf kind p - amountOf kind q
      rw [amountOf, amountOf, hp, hq]
      split <;> omega
    | none =>
      change (if p.kind = kind then p.amount - 0 else 0) = amountOf kind p - 0
      rw [amountOf, sub_zero, sub_zero]
  | none =>
    cases hbefore : find before k with
    | some q =>
      change (if q.kind = kind then 0 - q.amount else 0) = 0 - amountOf kind q
      rw [amountOf]
      split <;> omega
    | none => rfl

/-- The changes of a kind come to the totals now minus the totals before. -/
theorem compare_totals {keys : List Key} {now before : Holdings} (h : IsOrder keys now before)
    (hnow : (now.positions.map Position.key).Nodup)
    (hbefore : (before.positions.map Position.key).Nodup) (kind : String) :
    ((compare keys now before).all.map (deltaOf kind)).sum =
      total kind now.positions - total kind before.positions := by
  have hsum : ∀ ks : List Key,
      ((ks.filterMap (changeAt now.positions before.positions)).map (deltaOf kind)).sum =
        (ks.map fun k => ((find now.positions k).map (amountOf kind)).getD 0).sum -
          (ks.map fun k => ((find before.positions k).map (amountOf kind)).getD 0).sum := by
    intro ks
    induction ks with
    | nil => rfl
    | cons k ks ih =>
      have hk := deltaOf_changeAt kind now.positions before.positions k
      rw [List.map_cons, List.map_cons, List.sum_cons, List.sum_cons]
      cases hc : changeAt now.positions before.positions k with
      | none =>
        rw [hc, Option.map_none, Option.getD_none] at hk
        rw [List.filterMap_cons_none hc, ih]
        omega
      | some c =>
        rw [hc, Option.map_some, Option.getD_some] at hk
        rw [List.filterMap_cons_some hc, List.map_cons, List.sum_cons, ih, hk]
        omega
  have hside : ∀ positions : List Position, (positions.map Position.key).Nodup →
      (∀ p ∈ positions, p.key ∈ keys) →
      (keys.map fun k => ((find positions k).map (amountOf kind)).getD 0).sum =
        total kind positions :=
    fun positions hnodup hsub => Tallies.sum_find? h.nodup hnodup hsub
  rw [((compare_all keys now before).map _).sum_eq, changesIn, hsum,
    hside _ hnow fun p hp => (h.mem _).mpr (Or.inl (List.mem_map_of_mem hp)),
    hside _ hbefore fun p hp => (h.mem _).mpr (Or.inr (List.mem_map_of_mem hp))]

end Autora.Disclosures
