import Mathlib.Data.List.Dedup
import Autora.Template

/-! What an accepted template guarantees: distinct names, known dependencies, an
order in which every node comes after its dependencies, and loop bodies that are
entered only through `back_to`. -/

namespace Autora

open Worklists

namespace TemplateSpec

variable {t : TemplateSpec}

theorem mem_names {n : NodeSpec} (h : n ∈ t.nodes) : n.name ∈ t.names :=
  List.mem_map_of_mem h

theorem node?_of_mem (hn : t.names.Nodup) {n : NodeSpec} (h : n ∈ t.nodes) :
    t.node? n.name = some n := by
  unfold node?
  unfold names at hn
  generalize t.nodes = nodes at hn h ⊢
  induction nodes with
  | nil => simp at h
  | cons m ms ih =>
    rw [List.map_cons, List.nodup_cons] at hn
    rcases List.mem_cons.mp h with rfl | h
    · simp
    · have hne : m.name ≠ n.name := fun e => hn.1 (e ▸ List.mem_map_of_mem h)
      rw [List.find?_cons]
      simp only [hne, decide_false]
      exact ih hn.2 h

theorem depsOf_of_mem (hn : t.names.Nodup) {n : NodeSpec} (h : n ∈ t.nodes) :
    t.depsOf n.name = n.dependsOn := by
  simp [depsOf, node?_of_mem hn h]

theorem exists_node {name : String} (h : name ∈ t.names) :
    ∃ n ∈ t.nodes, n.name = name := by
  simpa [names] using h

/-! The order. -/

/-- Every name comes after the names it depends on. -/
def Ordered (deps : String → List String) (l : List String) : Prop :=
  ∀ pre x post, l = pre ++ x :: post → deps x ⊆ pre

theorem Ordered.append {deps : String → List String} {l new : List String}
    (h : Ordered deps l) (hnew : ∀ x ∈ new, deps x ⊆ l) : Ordered deps (l ++ new) := by
  intro pre x post he d hd
  rcases List.append_eq_append_iff.mp he with ⟨mid, rfl, hm⟩ | ⟨mid, rfl, hm⟩
  · have hx : x ∈ new := by
      rw [hm]
      simp
    exact List.mem_append_left _ (hnew x hx hd)
  · cases mid with
    | nil =>
      have hx : x ∈ new := by
        rw [List.nil_append] at hm
        rw [← hm]
        simp
      have hh := hnew x hx hd
      simpa using hh
    | cons y mid =>
      simp only [List.cons_append, List.cons.injEq] at hm
      obtain ⟨rfl, _⟩ := hm
      exact h pre x mid rfl hd

/-- The loop of `topological_order` appends the remaining names, each after its
dependencies. -/
theorem orderLoop_spec {deps : String → List String} {fuel : Nat} {done : List String}
    {remaining : List NodeSpec} {out : List String}
    (hdeps : ∀ n ∈ remaining, deps n.name = n.dependsOn) (hdone : Ordered deps done)
    (h : orderLoop fuel done remaining = .ok out) :
    Ordered deps out ∧ out.Perm (done ++ remaining.map (·.name)) := by
  induction fuel generalizing done remaining with
  | zero =>
    cases remaining with
    | nil =>
      simp only [orderLoop, Except.ok.injEq] at h
      subst h
      exact ⟨hdone, by simp⟩
    | cons n ns => simp [orderLoop] at h
  | succ fuel ih =>
    cases remaining with
    | nil =>
      simp only [orderLoop, Except.ok.injEq] at h
      subst h
      exact ⟨hdone, by simp⟩
    | cons n ns =>
      simp only [orderLoop] at h
      split at h
      · cases h
      · have hready : Ordered deps (done ++
            ((n :: ns).filter fun n => n.dependsOn.all (· ∈ done)).map (·.name)) := by
          refine hdone.append fun x hx => ?_
          obtain ⟨m, hm, rfl⟩ := List.mem_map.mp hx
          obtain ⟨hmem, hall⟩ := List.mem_filter.mp hm
          rw [hdeps m hmem]
          intro d hd
          have hh := List.all_eq_true.mp hall d hd
          simpa using hh
        obtain ⟨ho, hp⟩ := ih (fun m hm => hdeps m (List.mem_filter.mp hm).1) hready h
        refine ⟨ho, hp.trans ?_⟩
        rw [List.append_assoc, ← List.map_append]
        exact ((List.filter_append_perm _ _).map _).append_left done

theorem problems_nil_iff (t : TemplateSpec) : t.problems = [] ↔
    matchesName true true t.name.toList = true ∧ t.nodes ≠ [] ∧ t.duplicates = [] ∧
      (∀ n ∈ t.nodes, t.nodeProblems n = []) ∧ (∃ o, t.topologicalOrder = .ok o) ∧
      (∀ l ∈ t.loops, t.loopProblems l = []) ∧ ∀ h ∈ t.halts, t.haltProblems h = [] := by
  have hname : (if matchesName true true t.name.toList then ([] : List InvalidTemplate)
      else [.templateName t.name]) = [] ↔ matchesName true true t.name.toList = true := by
    split <;> simp_all
  have hnodes : (if t.nodes.isEmpty then [InvalidTemplate.noNodes t.name] else []) = [] ↔
      t.nodes ≠ [] := by
    cases t.nodes <;> simp
  have hdup : (if t.duplicates.isEmpty then []
      else [InvalidTemplate.duplicateNames t.name t.duplicates]) = [] ↔ t.duplicates = [] := by
    cases t.duplicates <;> simp
  simp only [problems, List.append_eq_nil_iff, hname, hnodes, hdup, List.flatMap_eq_nil_iff,
    and_assoc]
  cases t.topologicalOrder <;> simp

end TemplateSpec

namespace WorkflowTemplate

open TemplateSpec

variable (t : WorkflowTemplate)

theorem nodup_names : t.names.Nodup := by
  have hd := ((problems_nil_iff _).mp t.valid).2.2.1
  rw [List.nodup_iff_count_le_one]
  intro a
  by_contra hlt
  have hc : 1 < t.names.count a := by omega
  have ha : a ∈ t.duplicates := by
    rw [duplicates, List.mem_insertionSort, List.mem_dedup, List.mem_filter]
    exact ⟨List.count_pos_iff.mp (by omega), by simpa using hc⟩
  rw [hd] at ha
  exact List.not_mem_nil ha

theorem nodes_ne_nil : t.nodes ≠ [] := ((problems_nil_iff _).mp t.valid).2.1

theorem deps_known {name d : String} (h : d ∈ t.depsOf name) : d ∈ t.names := by
  by_cases hn : name ∈ t.names
  · obtain ⟨n, hmem, rfl⟩ := exists_node hn
    rw [depsOf_of_mem t.nodup_names hmem] at h
    have hp := ((problems_nil_iff _).mp t.valid).2.2.2.1 n hmem
    simp only [nodeProblems, List.append_eq_nil_iff] at hp
    by_contra hd
    have hmem' : d ∈ n.dependsOn.filter (· ∉ t.names) := by
      simp [List.mem_filter, h, hd]
    have hne : (n.dependsOn.filter (· ∉ t.names)).isEmpty = false := by
      cases hl : n.dependsOn.filter (· ∉ t.names) with
      | nil =>
        rw [hl] at hmem'
        exact absurd hmem' List.not_mem_nil
      | cons => rfl
    rw [hne] at hp
    simp at hp
  · have hnone : t.node? name = none := by
      rw [node?, List.find?_eq_none]
      intro n hmem he
      exact hn (by simpa using mem_names hmem |> (of_decide_eq_true he ▸ ·))
    simp [depsOf, hnone] at h

theorem order_spec : ∃ out, Ordered t.depsOf out ∧ out.Perm t.names ∧
    t.order = out.filterMap t.node? := by
  obtain ⟨o, ho⟩ := ((problems_nil_iff _).mp t.valid).2.2.2.2.1
  unfold topologicalOrder at ho
  cases hl : orderLoop t.nodes.length [] t.nodes with
  | error remaining =>
    rw [hl] at ho
    cases ho
  | ok out =>
    have hdeps : ∀ n ∈ t.nodes, t.depsOf n.name = n.dependsOn :=
      fun n hn => depsOf_of_mem t.nodup_names hn
    have hnil : Ordered t.depsOf [] := by
      intro pre x post he
      simp at he
    obtain ⟨h₁, h₂⟩ := orderLoop_spec hdeps hnil hl
    refine ⟨out, h₁, by simpa [names] using h₂, ?_⟩
    simp [order, topologicalOrder, hl, Except.toOption]

theorem order_names : ∃ out, Ordered t.depsOf out ∧ out.Perm t.names ∧
    t.order.map (·.name) = out := by
  obtain ⟨out, ho, hp, he⟩ := t.order_spec
  refine ⟨out, ho, hp, ?_⟩
  rw [he]
  have hall : ∀ x ∈ out, ∃ n, t.node? x = some n ∧ n.name = x := by
    intro x hx
    obtain ⟨n, hn, rfl⟩ := exists_node (hp.mem_iff.mp hx)
    exact ⟨n, node?_of_mem t.nodup_names hn, rfl⟩
  clear ho hp he
  induction out with
  | nil => rfl
  | cons x xs ih =>
    obtain ⟨n, hn, hx⟩ := hall x (by simp)
    rw [List.filterMap_cons, hn]
    simp only [List.map_cons, hx]
    rw [ih fun y hy => hall y (by simp [hy])]

theorem mem_order {n : NodeSpec} : n ∈ t.order ↔ n ∈ t.nodes := by
  obtain ⟨out, _, hp, he⟩ := t.order_spec
  rw [he, List.mem_filterMap]
  constructor
  · rintro ⟨x, _, hx⟩
    exact List.mem_of_find?_eq_some hx
  · intro hn
    exact ⟨n.name, hp.mem_iff.mpr (mem_names hn), node?_of_mem t.nodup_names hn⟩

theorem depsOf_order {n : NodeSpec} (h : n ∈ t.order) : t.depsOf n.name = n.dependsOn :=
  depsOf_of_mem t.nodup_names (t.mem_order.mp h)

theorem order_nodup : (t.order.map (·.name)).Nodup := by
  obtain ⟨out, _, hp, he⟩ := t.order_names
  rw [he]
  exact hp.nodup_iff.mpr t.nodup_names

theorem order_length : t.order.length = t.nodes.length := by
  obtain ⟨out, _, hp, he⟩ := t.order_names
  have hl := hp.length_eq
  rw [← he] at hl
  simpa [names] using hl

/-- A node comes after its dependencies. -/
theorem order_before {pre post : List NodeSpec} {n : NodeSpec} (h : t.order = pre ++ n :: post)
    {d : String} (hd : d ∈ n.dependsOn) : d ∈ pre.map (·.name) := by
  obtain ⟨out, ho, _, he⟩ := t.order_names
  have hsplit : out = pre.map (·.name) ++ n.name :: post.map (·.name) := by
    rw [← he, h]
    simp
  have hn : n ∈ t.order := by
    rw [h]
    simp
  rw [← t.depsOf_order hn] at hd
  exact ho _ _ _ hsplit hd

/-- The place of a node in the order. -/
def rank (name : String) : Nat := (t.order.map (·.name)).idxOf name

theorem rank_lt {name d : String} (h : d ∈ t.depsOf name) : t.rank d < t.rank name := by
  by_cases hn : name ∈ t.order.map (·.name)
  · obtain ⟨n, hmem, rfl⟩ := List.mem_map.mp hn
    obtain ⟨pre, post, hsplit⟩ := List.append_of_mem hmem
    rw [t.depsOf_order hmem] at h
    have hd := t.order_before hsplit h
    have hnd := t.order_nodup
    simp only [rank, hsplit, List.map_append, List.map_cons] at hnd ⊢
    have hnot : n.name ∉ pre.map (·.name) := by
      intro hin
      exact (List.nodup_append.mp hnd).2.2 _ hin _ (by simp) rfl
    rw [List.idxOf_append_of_mem hd, List.idxOf_append_of_notMem hnot, List.idxOf_cons_self]
    have hlt := List.idxOf_lt_length_of_mem hd
    omega
  · have hnot : name ∉ t.names := by
      obtain ⟨out, _, hp, he⟩ := t.order_names
      rw [he] at hn
      exact fun hin => hn (hp.mem_iff.mpr hin)
    have hnone : t.node? name = none := by
      rw [node?, List.find?_eq_none]
      intro m hm he
      exact hnot (by simpa using (of_decide_eq_true he) ▸ mem_names hm)
    simp [depsOf, hnone] at h

/-! What is upstream, and what a loop repeats. -/

abbrev Needs (a b : String) : Prop := Edge t.depsOf a b

theorem mem_upstream {name d : String} :
    d ∈ t.upstream name ↔ Relation.TransGen t.Needs name d := by
  have hfuel : (t.depsOf name).reverse.length + pending t.depsOf t.names [] ≤
      (t.depsOf name).length + t.edges := by
    have hp : pending t.depsOf t.names [] = t.edges := by
      simp [pending, edges]
    rw [hp, List.length_reverse]
  rw [upstream, mem_explore_iff (fun x _ y hy => t.deps_known hy)
    (fun x hx => t.deps_known (List.mem_reverse.mp hx)) hfuel]
  constructor
  · rintro ⟨m, hm, hr⟩
    exact .head' (List.mem_reverse.mp hm) hr
  · intro h
    obtain ⟨m, hm, hr⟩ := Relation.TransGen.head'_iff.mp h
    exact ⟨m, List.mem_reverse.mpr hm, hr⟩

theorem rank_lt_of_upstream {name d : String} (h : d ∈ t.upstream name) :
    t.rank d < t.rank name := by
  rw [mem_upstream] at h
  induction h with
  | single h => exact t.rank_lt h
  | tail _ h ih => exact Nat.lt_trans (t.rank_lt h) ih

theorem loop_leads {loop : Loop} (h : loop ∈ t.loops) :
    loop.backTo = loop.check ∨ loop.backTo ∈ t.upstream loop.check := by
  have hp := ((problems_nil_iff _).mp t.valid).2.2.2.2.2.1 loop h
  simp only [loopProblems] at hp
  split at hp
  · simp at hp
  · split at hp
    · simp at hp
    · next hlead =>
      by_cases he : loop.backTo = loop.check
      · exact .inl he
      · right
        by_contra hn
        simp [hn, he] at hlead

theorem inside_check (loop : Loop) : t.inside loop loop.check = true := by
  simp [inside]

theorem inside_backTo (loop : Loop) : t.inside loop loop.backTo = true := by
  simp [inside]

/-- The first step of a path from a body node back to `back_to` stays in the body. -/
theorem inside_of_step {loop : Loop} {name : String}
    (hup : name = loop.check ∨ name ∈ t.upstream loop.check)
    (hback : loop.backTo ∈ t.upstream name) : ∃ d ∈ t.depsOf name, t.inside loop d = true := by
  obtain ⟨d, hd, hr⟩ := Relation.TransGen.head'_iff.mp (t.mem_upstream.mp hback)
  refine ⟨d, hd, ?_⟩
  have hdown : d ∈ t.upstream loop.check := by
    rcases hup with rfl | hup
    · exact t.mem_upstream.mpr (.single hd)
    · exact t.mem_upstream.mpr ((t.mem_upstream.mp hup).tail hd)
  by_cases he : d = loop.backTo
  · rw [he]
    exact t.inside_backTo loop
  · have hb : loop.backTo ∈ t.upstream d := by
      rcases Relation.reflTransGen_iff_eq_or_transGen.mp hr with h | h
      · exact absurd h.symm he
      · exact t.mem_upstream.mpr h
    simp [inside, hdown, hb]

/-- A loop body is entered through `back_to` only: every other node of it waits
for a node of it. -/
theorem entry_iff {loop : Loop} (hl : loop ∈ t.loops) {name : String}
    (hin : t.inside loop name = true) :
    (∀ d ∈ t.depsOf name, t.inside loop d = false) ↔ name = loop.backTo := by
  constructor
  · intro hnone
    by_contra hne
    have hback : (name = loop.check ∨ name ∈ t.upstream loop.check) ∧
        loop.backTo ∈ t.upstream name := by
      simp only [inside, Bool.or_eq_true, decide_eq_true_eq, Bool.and_eq_true] at hin
      rcases hin with (h | h) | ⟨h, h'⟩
      · exact absurd h hne
      · subst h
        exact ⟨.inl rfl, (t.loop_leads hl).resolve_left fun e => hne e.symm⟩
      · exact ⟨.inr h, h'⟩
    obtain ⟨d, hd, hin'⟩ := t.inside_of_step hback.1 hback.2
    rw [hnone d hd] at hin'
    cases hin'
  · rintro rfl d hd
    by_contra hin'
    rw [Bool.not_eq_false] at hin'
    have hlt := t.rank_lt hd
    simp only [inside, Bool.or_eq_true, decide_eq_true_eq, Bool.and_eq_true] at hin'
    rcases hin' with (h | h) | ⟨_, h⟩
    · rw [h] at hlt
      omega
    · rcases t.loop_leads hl with he | he
      · rw [h, he] at hlt
        omega
      · have hh := t.rank_lt_of_upstream he
        rw [h] at hlt
        omega
    · have hh := t.rank_lt_of_upstream h
      omega

end WorkflowTemplate

end Autora
