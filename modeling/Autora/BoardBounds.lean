import Mathlib.Algebra.BigOperators.Group.List.Lemmas
import Autora.BoardRuns

/-! A run is bounded: each round on a check adds another task of its name, and there
are only as many as the loop allows. A ledger of the rounds started so far says how
many tasks there are at most. -/

namespace Autora

open Systems

namespace TemplateSpec

variable (t : TemplateSpec)

/-- The check nodes of the loops. -/
def checks : List String := (t.loops.map (·.check)).dedup

/-- The most rounds a loop on this check allows. -/
def maxRounds (check : String) : Int :=
  ((t.loops.filter (·.check = check)).map (·.maxRounds)).max?.getD 0

theorem checks_nodup : t.checks.Nodup := List.nodup_dedup _

theorem mem_checks {loop : Loop} (h : loop ∈ t.loops) : loop.check ∈ t.checks :=
  List.mem_dedup.mpr (List.mem_map_of_mem h)

theorem le_maxRounds {loop : Loop} (h : loop ∈ t.loops) :
    loop.maxRounds ≤ t.maxRounds loop.check := by
  have hmem : loop.maxRounds ∈ (t.loops.filter (·.check = loop.check)).map (·.maxRounds) :=
    List.mem_map_of_mem (List.mem_filter.mpr ⟨h, by simp⟩)
  unfold maxRounds
  cases hm : ((t.loops.filter (·.check = loop.check)).map (·.maxRounds)).max? with
  | none =>
    rw [List.max?_eq_none_iff.mp hm] at hmem
    cases hmem
  | some m => exact (List.max?_eq_some_iff.mp hm).2 _ hmem

end TemplateSpec

/-- The names of the tasks of a run, in the order they were added. -/
def namesOf (cards : List Card) (run : Id) : List String := (ofRun cards run).map (·.name)

theorem namesOf_map {f : Card → Card} (hr : ∀ c, (f c).run = c.run)
    (hn : ∀ c, (f c).name = c.name) (cards : List Card) (run : Id) :
    namesOf (cards.map f) run = namesOf cards run := by
  simp only [namesOf, ofRun, List.filter_map, List.map_map]
  have hp : ((fun c : Card => decide (c.run = run)) ∘ f) = fun c => decide (c.run = run) := by
    funext c
    simp [hr]
  rw [hp]
  exact List.map_congr_left fun c _ => hn c

theorem namesOf_append (cards new : List Card) (run : Id) :
    namesOf (cards ++ new) run = namesOf cards run ++ namesOf new run := by
  simp [namesOf, ofRun]

theorem Restates.names {b b' : Board} (h : Restates b b') (run : Id) :
    namesOf b'.cards run = namesOf b.cards run := by
  obtain ⟨f, hf⟩ := h.cards
  rw [hf]
  refine namesOf_map (fun _ => ?_) (fun _ => ?_) _ _ <;> rfl

section Added

variable {t : WorkflowTemplate} {inside : String → Bool} {siblings cards new : List Card}
  {run : Id} (h : Added t.toTemplateSpec inside siblings run cards new)

include h

theorem Added.namesOf_self :
    namesOf new run = (t.order.filter fun n => inside n.name).map (·.name) := by
  rw [← h.names, namesOf, ofRun, List.filter_eq_self.mpr fun n hn => by simp [h.inRun n hn]]

theorem Added.namesOf_other {x : Id} (hx : x ≠ run) : namesOf new x = [] := by
  rw [namesOf, ofRun, List.map_eq_nil_iff, List.filter_eq_nil_iff]
  intro n hn he
  rw [h.inRun n hn] at he
  exact hx (of_decide_eq_true he).symm

theorem Added.length_le : (namesOf new run).length ≤ t.nodes.length := by
  rw [h.namesOf_self, List.length_map, ← t.order_length]
  exact List.length_filter_le _ _

theorem Added.count {n : String} (hn : n ∈ t.names) (hin : inside n = true) :
    1 ≤ (namesOf new run).count n := by
  rw [h.namesOf_self, List.one_le_count_iff, List.mem_map]
  obtain ⟨node, hnode, rfl⟩ := t.exists_node hn
  exact ⟨node, List.mem_filter.mpr ⟨t.mem_order.mpr hnode, hin⟩, rfl⟩

end Added

/-! The ledger. -/

/-- The rounds started so far, for each run and check and for each run, against the
tasks on the board. -/
structure Ledger (reg : String → Option WorkflowTemplate) (own : Id → String → Nat)
    (total : Id → Nat) (b : Board) : Prop where
  absent : ∀ run, (∀ r ∈ b.runs, r.id ≠ run) → (∀ n, own run n = 0) ∧ total run = 0
  counted : ∀ r ∈ b.runs, ∀ t, reg r.template = some t → ∀ n ∈ t.names,
    own r.id n + 1 ≤ (namesOf b.cards r.id).count n
  bounded : ∀ r ∈ b.runs, ∀ t, reg r.template = some t → ∀ n,
    (own r.id n : Int) ≤ max 0 (t.maxRounds n)
  sum : ∀ r ∈ b.runs, ∀ t, reg r.template = some t →
    total r.id ≤ (t.checks.map (own r.id)).sum
  size : ∀ r ∈ b.runs, ∀ t, reg r.template = some t →
    (namesOf b.cards r.id).length ≤ t.nodes.length * (1 + total r.id)

variable {reg : String → Option WorkflowTemplate} {own : Id → String → Nat} {total : Id → Nat}
  {b b' : Board}

theorem Ledger.init (hb : (boards reg).init b) : Ledger reg (fun _ _ => 0) (fun _ => 0) b := by
  obtain ⟨_, hr⟩ := hb
  refine ⟨fun _ _ => ⟨fun _ => rfl, rfl⟩, ?_, ?_, ?_, ?_⟩ <;>
    · intro r hmem
      rw [hr] at hmem
      cases hmem

/-- Steps that only change states leave the ledger as it is. -/
theorem Ledger.restated (h : Ledger reg own total b) (hr : Restates b b') :
    Ledger reg own total b' := by
  have hold : ∀ r' ∈ b'.runs, ∃ r ∈ b.runs, r.id = r'.id ∧ r.template = r'.template := by
    intro r' hr'
    obtain ⟨g, hg⟩ := hr.runs
    rw [hg] at hr'
    obtain ⟨r, hmem, rfl⟩ := List.mem_map.mp hr'
    exact ⟨r, hmem, rfl, rfl⟩
  refine ⟨fun run habs => h.absent run fun r hmem => ?_, fun r' hr' t ht n hn => ?_,
    fun r' hr' t ht n => ?_, fun r' hr' t ht => ?_, fun r' hr' t ht => ?_⟩
  · obtain ⟨s, hs⟩ := hr.newRun hmem
    have hne := habs { r with state := s } hs
    exact hne
  all_goals obtain ⟨r, hmem, hid, htemplate⟩ := hold r' hr'
  all_goals rw [← hid]
  all_goals rw [← htemplate] at ht
  · rw [hr.names]
    exact h.counted r hmem t ht n hn
  · exact h.bounded r hmem t ht n
  · exact h.sum r hmem t ht
  · rw [hr.names]
    exact h.size r hmem t ht

theorem sum_bump {xs : List String} (hn : xs.Nodup) {c : String} (hc : c ∈ xs)
    (f : String → Nat) :
    (xs.map fun x => f x + if x = c then 1 else 0).sum = (xs.map f).sum + 1 := by
  induction xs with
  | nil => cases hc
  | cons x xs ih =>
    rw [List.nodup_cons] at hn
    simp only [List.map_cons, List.sum_cons]
    by_cases hx : x = c
    · have hrest : (xs.map fun y => f y + if y = c then 1 else 0) = xs.map f := by
        refine List.map_congr_left fun y hy => ?_
        have hne : y ≠ c := fun h => hn.1 (hx ▸ h ▸ hy)
        rw [if_neg hne]
        rfl
      rw [hrest, if_pos hx]
      omega
    · have hmem : c ∈ xs := (List.mem_cons.mp hc).resolve_left (Ne.symm hx)
      have hrest := ih hn.2 hmem
      rw [if_neg hx, hrest]
      omega

/-- The ledger after a round on the check `c` of a run. -/
def bumpOwn (own : Id → String → Nat) (run : Id) (c : String) : Id → String → Nat :=
  fun x n => own x n + if x = run ∧ n = c then 1 else 0

def bumpTotal (total : Id → Nat) (run : Id) : Id → Nat :=
  fun x => total x + if x = run then 1 else 0

theorem bumpOwn_self (own : Id → String → Nat) (run : Id) (c n : String) :
    bumpOwn own run c run n = own run n + if n = c then 1 else 0 := by
  simp [bumpOwn]

theorem bumpOwn_other (own : Id → String → Nat) {run x : Id} (h : x ≠ run) (c : String) :
    bumpOwn own run c x = own x := by
  funext n
  simp [bumpOwn, h]

theorem bumpTotal_self (total : Id → Nat) (run : Id) :
    bumpTotal total run run = total run + 1 := by
  simp [bumpTotal]

theorem bumpTotal_other (total : Id → Nat) {run x : Id} (h : x ≠ run) :
    bumpTotal total run x = total x := by
  simp [bumpTotal, h]

theorem Ledger.round (h : Ledger reg own total b) (hs : Shape reg b) {c again : Card}
    {r : RunCard} {t : WorkflowTemplate} {loop : Loop} {new : List Card} (hc : c ∈ b.cards)
    (hr : r ∈ b.runs) (hrun : r.id = c.run) (ht : reg r.template = some t) (hl : loop ∈ t.loops)
    (hcheck : loop.check = c.name)
    (hrounds : ((ofRun b.cards c.run).countP (·.name = c.name) : Int) - 1 < loop.maxRounds)
    (hnew : Added t.toTemplateSpec (t.inside loop)
      (ofRun (setState c.id .succeeded b.cards) c.run) c.run b.cards new) :
    Ledger reg (bumpOwn own c.run c.name) (bumpTotal total c.run)
      ⟨(setState c.id .succeeded b.cards).map (rewireCard c.run c.id again.id) ++ new,
        b.runs⟩ := by
  have hnames : ∀ run, namesOf ((setState c.id .succeeded b.cards).map
      (rewireCard c.run c.id again.id) ++ new) run = namesOf b.cards run ++ namesOf new run := by
    intro run
    rw [namesOf_append, namesOf_map (rewireCard_run _ _ _) (rewireCard_name _ _ _)]
    rw [(restates_setState b c.id .succeeded).names]
  -- a row of the run is `r`, and its template is `t`
  have hsame : ∀ x ∈ b.runs, x.id = c.run → ∀ u, reg x.template = some u → u = t := by
    intro x hx hid u hu
    have hxr : x = r := List.inj_on_of_nodup_map hs.runIds hx hr (hid.trans hrun.symm)
    rw [hxr, ht] at hu
    exact (Option.some.inj hu).symm
  have hcount : ((ofRun b.cards c.run).countP (·.name = c.name)) =
      (namesOf b.cards c.run).count c.name := by
    rw [namesOf, List.count_eq_countP, List.countP_map]
    rfl
  have hin : t.inside loop c.name = true := hcheck ▸ t.inside_check loop
  have hmem : c.name ∈ t.checks := hcheck ▸ t.mem_checks hl
  have hname : c.name ∈ t.names := by
    obtain ⟨x, hx, hxr, u, hu, hun, _⟩ := hs.follows c hc
    rw [hsame x hx hxr u hu] at hun
    exact hun
  have hown := h.counted r hr t ht c.name hname
  rw [hrun, ← hcount] at hown
  have hmax := t.le_maxRounds hl
  rw [hcheck] at hmax
  refine ⟨fun run habs => ?_, fun x hx u hu n hn => ?_, fun x hx u hu n => ?_,
    fun x hx u hu => ?_, fun x hx u hu => ?_⟩
  · have hne : run ≠ c.run := fun he => habs r hr (hrun.trans he.symm)
    obtain ⟨h₁, h₂⟩ := h.absent run habs
    rw [bumpOwn_other own hne, bumpTotal_other total hne]
    exact ⟨h₁, h₂⟩
  all_goals by_cases hid : x.id = c.run
  · rw [hsame x hx hid u hu] at hn
    have hcounted := h.counted x hx u hu n (hsame x hx hid u hu ▸ hn)
    rw [hid] at hcounted
    rw [hnames, List.count_append, hid, bumpOwn_self]
    by_cases hnc : n = c.name
    · have hone := hnew.count hname hin
      rw [hnc] at hcounted ⊢
      rw [if_pos rfl]
      omega
    · rw [if_neg hnc]
      omega
  · rw [hnames, hnew.namesOf_other hid, List.append_nil, bumpOwn_other own hid]
    exact h.counted x hx u hu n hn
  · have hb := h.bounded x hx u hu n
    rw [hsame x hx hid u hu, hid] at hb
    rw [hsame x hx hid u hu, hid, bumpOwn_self]
    by_cases hnc : n = c.name
    · rw [hnc] at hb ⊢
      rw [if_pos rfl]
      omega
    · rw [if_neg hnc]
      exact hb
  · rw [bumpOwn_other own hid]
    exact h.bounded x hx u hu n
  · have hsum := h.sum x hx u hu
    rw [hsame x hx hid u hu, hid] at hsum
    rw [hsame x hx hid u hu, hid, bumpTotal_self]
    have hbump := sum_bump t.checks_nodup hmem (own c.run)
    have hfun : bumpOwn own c.run c.name c.run = fun n => own c.run n + if n = c.name then 1 else 0 :=
      funext fun n => bumpOwn_self own c.run c.name n
    rw [hfun, hbump]
    omega
  · rw [bumpOwn_other own hid, bumpTotal_other total hid]
    exact h.sum x hx u hu
  · have hsize := h.size x hx u hu
    have hlen := hnew.length_le
    rw [hsame x hx hid u hu, hid] at hsize
    rw [hsame x hx hid u hu, hid, bumpTotal_self, hnames, List.length_append]
    have hmul : t.nodes.length * (1 + (total c.run + 1)) =
        t.nodes.length * (1 + total c.run) + t.nodes.length := Nat.mul_succ _ _
    omega
  · rw [hnames, hnew.namesOf_other hid, List.append_nil, bumpTotal_other total hid]
    exact h.size x hx u hu

theorem Ledger.start (h : Ledger reg own total b) (hs : Shape reg b) {r : RunCard}
    {t : WorkflowTemplate} {new : List Card} (hfresh : ∀ x ∈ b.runs, x.id ≠ r.id)
    (ht : reg r.template = some t)
    (hnew : Added t.toTemplateSpec (fun _ => true) [] r.id b.cards new) :
    Ledger reg own total ⟨b.cards ++ new, b.runs ++ [r]⟩ := by
  have hnone : namesOf b.cards r.id = [] := by
    rw [namesOf, ofRun, List.map_eq_nil_iff, List.filter_eq_nil_iff]
    intro c hc he
    exact hs.fresh_run hfresh c hc (of_decide_eq_true he)
  obtain ⟨hown, htotal⟩ := h.absent r.id hfresh
  -- a run of before keeps its tasks
  have hold : ∀ x ∈ b.runs, namesOf (b.cards ++ new) x.id = namesOf b.cards x.id := by
    intro x hx
    rw [namesOf_append, hnew.namesOf_other (hfresh x hx), List.append_nil]
  have hself : namesOf (b.cards ++ new) r.id = namesOf new r.id := by
    rw [namesOf_append, hnone, List.nil_append]
  refine ⟨fun run habs => h.absent run fun x hx => habs x (List.mem_append_left _ hx),
    fun x hx u hu n hn => ?_, fun x hx u hu n => ?_, fun x hx u hu => ?_, fun x hx u hu => ?_⟩
  all_goals rcases List.mem_append.mp hx with hx | hx
  · rw [hold x hx]
    exact h.counted x hx u hu n hn
  · rw [List.mem_singleton.mp hx] at hu ⊢
    rw [ht, Option.some.injEq] at hu
    rw [hself, hown n]
    exact hnew.count (hu ▸ hn) rfl
  · exact h.bounded x hx u hu n
  · rw [List.mem_singleton.mp hx, hown n]
    exact le_max_left _ _
  · exact h.sum x hx u hu
  · rw [List.mem_singleton.mp hx, htotal]
    exact Nat.zero_le _
  · rw [hold x hx]
    exact h.size x hx u hu
  · rw [List.mem_singleton.mp hx] at hu ⊢
    rw [ht, Option.some.injEq] at hu
    rw [hself, htotal, ← hu]
    have hlen := hnew.length_le
    omega

/-- A round of the card's run, on the check of its loop. -/
theorem Ledger.of_round (h : Ledger reg own total b) (hs : Shape reg b) {c : Card} {loop : Loop}
    (hc : c ∈ b.cards) (hstep : BoardStep reg b (.round c.id loop) b') :
    Ledger reg (bumpOwn own c.run loop.check) (bumpTotal total c.run) b' := by
  generalize hid : c.id = id at hstep
  cases hstep with
  | round hc' _ hr hrun ht hl hcheck hrounds hnew _ _ =>
    rw [eq_of_id hs.ids hc hc' hid, hcheck]
    exact h.round hs hc' hr hrun ht hl hcheck hrounds hnew

/-- A step that is no round leaves the ledger as it is. -/
theorem Ledger.other {ev : Event} (h : Ledger reg own total b) (hs : Shape reg b)
    (hstep : BoardStep reg b ev b') (hev : ∀ id loop, ev ≠ .round id loop) :
    Ledger reg own total b' := by
  cases hstep with
  | move _ _ _ => exact h.restated (restates_setState _ _ _)
  | die _ _ _ he => exact h.restated he.restates
  | stop _ _ he => exact h.restated he.restates
  | finish _ _ hcards hcloses _ => exact h.restated (restates_finish hcards hcloses)
  | round => exact absurd rfl (hev _ _)
  | start hfresh _ ht hnew => exact h.start hs hfresh ht hnew

/-! Endings. -/

/-- The ended tasks of a run. -/
def endedOf (cards : List Card) (run : Id) : Nat :=
  (ofRun cards run).countP fun c => c.state.final

theorem ended_mono {ev : Event} (hs : Shape reg b) (hstep : BoardStep reg b ev b') (run : Id) :
    endedOf b.cards run ≤ endedOf b'.cards run := by
  unfold endedOf
  rw [List.countP_eq_length_filter, List.countP_eq_length_filter]
  have hn : (((ofRun b.cards run).filter fun c => c.state.final).map (·.id)).Nodup :=
    ((List.filter_sublist.trans List.filter_sublist).map _).nodup hs.ids
  have hsub : ((ofRun b.cards run).filter fun c => c.state.final).map (·.id) ⊆
      ((ofRun b'.cards run).filter fun c => c.state.final).map (·.id) := by
    intro i hi
    obtain ⟨c, hc, rfl⟩ := List.mem_map.mp hi
    obtain ⟨hc, hf⟩ := List.mem_filter.mp hc
    obtain ⟨hmem, hcr⟩ := mem_ofRun.mp hc
    obtain ⟨y, hy, hyi, hyr, _, hys⟩ := final_persists hs hstep hmem hf
    refine List.mem_map.mpr ⟨y, List.mem_filter.mpr ⟨mem_ofRun.mpr ⟨hy, hyr.trans hcr⟩, ?_⟩, hyi⟩
    rw [hys]
    exact hf
  have hlen := (List.subperm_of_subset hn hsub).length_le
  simpa using hlen

end Autora
