import Autora.Governance

/-! The rules of governance against free-form criteria: when a review completes, what it
pauses, and that doing it again changes nothing. -/

namespace Autora.Governance

variable {F : Type} {pf : Platform F} {cycle : Cycle} {snapshots : List KpiSnapshot}
  {scope : Scope} {criteria : Option Value} {rule : Rule} {op : Op} {metric : Value}

/-- The rule a scope is judged by: there is one, and the scope has had its cycles. -/
def Judging (cycle : Cycle) (criteria : Option Value) (rule : Rule) : Prop :=
  ∃ kvs, criteria = some (.dict kvs) ∧ kvs.lookup "auto_pause_if" = some (.dict rule) ∧
    tooEarly cycle kvs = false

/-- The last measurements, as many as the rule asks for, all exist, are numbers and breach. -/
structure Breaching (pf : Platform F) (cycle : Cycle) (snapshots : List KpiSnapshot)
    (scope : Scope) (rule : Rule) (name : String) (op : Op) (limit : F) (n : Nat) : Prop where
  named : Rule.get rule "metric" = .str name ∧ name ≠ ""
  known : ∃ text, Rule.get rule "op" = .str text ∧ Op.read text = some op
  threshold : (Rule.get rule "value").number pf = some limit
  cycles : consecutiveCycles pf rule = .ok n ∧ 0 < n
  measured : ∀ k < n, ∃ row x, (measurements snapshots cycle.companyId scope)[k]? = some row ∧
    (Rule.get row.metrics name).number pf = some x ∧ pf.holds op x limit = true

/-- A criterion that is well formed and met. -/
def Met (pf : Platform F) (cycle : Cycle) (snapshots : List KpiSnapshot) (scope : Scope)
    (criteria : Option Value) : Prop :=
  ∃ rule name op limit n, Judging cycle criteria rule ∧
    Breaching pf cycle snapshots scope rule name op limit n

/-- The number of cycles a rule asks for is one a query can be limited to, and a metric that
is a list or an object is looked up in no measurement. -/
structure Countable (pf : Platform F) (cycle : Cycle) (snapshots : List KpiSnapshot)
    (scope : Scope) (rule : Rule) (n : Int) : Prop where
  cycles : consecutiveCycles pf rule = .ok n
  limit : 0 ≤ n ∧ n ≤ pf.maxLimit
  zero : n = 0 → (Rule.get rule "value").number pf = none
  hashable : 0 < n → measurements snapshots cycle.companyId scope ≠ [] →
    (Rule.get rule "metric").hashable = true

/-- The criteria are an object, the operator is no list and no object, and the number of cycles
can be counted. -/
structure Readable (pf : Platform F) (cycle : Cycle) (snapshots : List KpiSnapshot)
    (scope : Scope) (criteria : Option Value) : Prop where
  object : ∀ v, criteria = some v → v.truthy = true → ∃ kvs, v = .dict kvs
  op : ∀ rule, Judging cycle criteria rule → (Rule.get rule "metric").truthy = true →
    (Rule.get rule "op").hashable = true
  cycles : ∀ rule, Judging cycle criteria rule → (Rule.get rule "metric").truthy = true →
    ∀ text op, Rule.get rule "op" = .str text → Op.read text = some op →
      ∃ n, Countable pf cycle snapshots scope rule n

/-! One scope. -/

/-- What a hashable metric is found to be. -/
def valueOf (pf : Platform F) (metric : Value) (row : KpiSnapshot) : Option F :=
  match metric with
  | .str name => (Rule.get row.metrics name).number pf
  | _ => none

theorem mapM_metricOf (h : metric.hashable = true) (rows : List KpiSnapshot) :
    rows.mapM (metricOf pf metric) = .ok (rows.map (valueOf pf metric)) := by
  have one : ∀ row, metricOf pf metric row = .ok (valueOf pf metric row) := by
    intro row
    cases metric <;> first | rfl | cases h
  induction rows with
  | nil => rfl
  | cons row rows ih =>
    rw [List.mapM_cons, one, ih]
    rfl

theorem mapM_unhashable (h : metric.hashable = false) {rows : List KpiSnapshot}
    (hrows : rows ≠ []) : rows.mapM (metricOf pf metric) = .error .typeError := by
  cases rows with
  | nil => exact absurd rfl hrows
  | cons row rows =>
    rw [List.mapM_cons]
    cases metric <;> first | rfl | cases h

theorem history_ok {n : Int} (h : 0 ≤ n ∧ n ≤ pf.maxLimit) :
    history pf cycle snapshots scope n =
      .ok ((measurements snapshots cycle.companyId scope).take n.toNat) := by
  unfold history
  rw [if_neg (by omega)]

theorem measure_countable {n : Int} (h : Countable pf cycle snapshots scope rule n) :
    measure pf cycle snapshots scope rule op = verdict pf scope rule op n
      (((measurements snapshots cycle.companyId scope).take n.toNat).map
        (valueOf pf (Rule.get rule "metric"))) := by
  unfold measure
  rw [h.cycles]
  show ((history pf cycle snapshots scope n).bind fun rows =>
    (rows.mapM (metricOf pf (Rule.get rule "metric"))).bind fun values =>
      verdict pf scope rule op n values) = _
  rw [history_ok h.limit]
  show (Except.bind (List.mapM _ _) fun values => verdict pf scope rule op n values) = _
  by_cases hm : (Rule.get rule "metric").hashable = true
  · rw [mapM_metricOf hm]
    rfl
  · have hempty : (measurements snapshots cycle.companyId scope).take n.toNat = [] := by
      by_cases hn : 0 < n
      · have hnone : measurements snapshots cycle.companyId scope = [] := by
          by_contra hrows
          exact hm (h.hashable hn hrows)
        rw [hnone, List.take_nil]
      · rw [show n.toNat = 0 by omega, List.take_zero]
    rw [hempty]
    rfl

theorem verdict_spec {n : Int} {values : List (Option F)}
    (hz : n = 0 → (Rule.get rule "value").number pf = none) (hn : 0 ≤ n) :
    ∃ r, verdict pf scope rule op n values = .ok r ∧
      (r.isSome = true ↔ ∃ limit, (Rule.get rule "value").number pf = some limit ∧ 0 < n ∧
        n ≤ values.length ∧ ∀ v ∈ values, ∃ x, v = some x ∧ pf.holds op x limit = true) := by
  unfold verdict
  by_cases hlen : (values.length : Int) < n ∨ values.any Option.isNone = true
  · refine ⟨none, by rw [if_pos hlen], ⟨nofun, ?_⟩⟩
    rintro ⟨limit, -, -, hle, hall⟩
    rcases hlen with hlen | hnone
    · omega
    · obtain ⟨v, hv, hvn⟩ := List.any_eq_true.mp hnone
      obtain ⟨x, rfl, -⟩ := hall v hv
      cases hvn
  · rw [if_neg hlen]
    rw [not_or] at hlen
    cases hlimit : (Rule.get rule "value").number pf with
    | none => exact ⟨none, rfl, nofun, fun ⟨_, h, _⟩ => by cases h⟩
    | some limit =>
      by_cases hall : (values.all fun v => v.any fun x => pf.holds op x limit) = true
      · have hpos : 0 < n := by
          by_contra hneg
          rw [hz (by omega)] at hlimit
          cases hlimit
        cases values with
        | nil =>
          simp only [List.length_nil] at hlen
          omega
        | cons v values =>
          cases v with
          | none => simp at hlen
          | some x =>
            refine ⟨_, by simp only [hall, if_true]; rfl, fun _ => ⟨limit, rfl, hpos, by omega, ?_⟩,
              fun _ => rfl⟩
            intro v hv
            have hany := List.all_eq_true.mp hall v hv
            obtain ⟨y, hy⟩ := Option.any_eq_true _ _ |>.mp hany
            exact ⟨y, hy.1, hy.2⟩
      · refine ⟨none, by simp only [hall]; rfl, nofun, ?_⟩
        rintro ⟨limit', hl, -, -, hv⟩
        obtain rfl := Option.some.inj hl
        exact absurd (List.all_eq_true.mpr fun v hmem => by
          obtain ⟨x, rfl, hx⟩ := hv v hmem
          exact hx) hall

theorem measurements_take {n : Nat} {P : KpiSnapshot → Prop} {l : List KpiSnapshot}
    (hn : n ≤ l.length) : (∀ row ∈ l.take n, P row) ↔ ∀ k < n, ∃ row, l[k]? = some row ∧ P row := by
  constructor
  · intro h k hk
    have hlt : k < l.length := by omega
    refine ⟨l[k], List.getElem?_eq_getElem hlt, h _ ?_⟩
    exact List.mem_take_iff_getElem.mpr ⟨k, by omega, rfl⟩
  · intro h row hrow
    obtain ⟨k, hk, rfl⟩ := List.mem_take_iff_getElem.mp hrow
    obtain ⟨row, hget, hp⟩ := h k (by omega)
    rw [List.getElem?_eq_getElem (by omega)] at hget
    obtain rfl := Option.some.inj hget
    exact hp

/-- A rule whose metric is a name, whose operator is known and whose cycles can be counted is
judged, and it is breached if its last measurements breach it. -/
theorem measure_spec {n : Int} (h : Countable pf cycle snapshots scope rule n)
    (ht : (Rule.get rule "metric").truthy = true)
    (hop : ∃ text, Rule.get rule "op" = .str text ∧ Op.read text = some op) :
    ∃ r, measure pf cycle snapshots scope rule op = .ok r ∧
      (r.isSome = true ↔
        ∃ name limit n, Breaching pf cycle snapshots scope rule name op limit n) := by
  rw [measure_countable h]
  obtain ⟨r, hr, hiff⟩ := @verdict_spec _ pf scope rule op _
    (((measurements snapshots cycle.companyId scope).take n.toNat).map
      (valueOf pf (Rule.get rule "metric"))) h.zero h.limit.1
  refine ⟨r, hr, hiff.trans ?_⟩
  rw [List.length_map, List.length_take]
  constructor
  · rintro ⟨limit, hlimit, hpos, hle, hall⟩
    have hlen : n.toNat ≤ (measurements snapshots cycle.companyId scope).length := by omega
    simp only [List.forall_mem_map] at hall
    have hrows := (measurements_take hlen).mp hall
    obtain ⟨row, -, x, hx, -⟩ := hrows 0 (by omega)
    unfold valueOf at hx
    split at hx
    · next name hname =>
      refine ⟨name, limit, n.toNat, ⟨hname, ?_⟩, hop, hlimit, ⟨?_, by omega⟩, ?_⟩
      · rw [hname] at ht
        simpa [Value.truthy] using ht
      · rw [h.cycles, show ((n.toNat : Nat) : Int) = n by omega]
      · intro k hk
        obtain ⟨row, hrow, x, hx, hholds⟩ := hrows k hk
        rw [hname] at hx
        exact ⟨row, x, hrow, hx, hholds⟩
    · cases hx
  · rintro ⟨name, limit, m, hb⟩
    have hm : n = m := Except.ok.inj (h.cycles.symm.trans hb.cycles.1)
    have hlen : m ≤ (measurements snapshots cycle.companyId scope).length := by
      obtain ⟨row, x, hrow, -⟩ := hb.measured (m - 1) (by have := hb.cycles.2; omega)
      have := (List.getElem?_eq_some_iff.mp hrow).1
      omega
    have hpos := hb.cycles.2
    refine ⟨limit, hb.threshold, by omega, by omega, ?_⟩
    rw [List.forall_mem_map, show n.toNat = m by omega, measurements_take hlen]
    intro k hk
    obtain ⟨row, x, hrow, hx, hholds⟩ := hb.measured k hk
    refine ⟨row, hrow, x, ?_, hholds⟩
    rw [hb.named.1]
    exact hx

theorem measure_error (h : ∀ n, ¬ Countable pf cycle snapshots scope rule n) :
    ∃ e, measure pf cycle snapshots scope rule op = .error e := by
  unfold measure
  cases hn : consecutiveCycles pf rule with
  | error e => exact ⟨e, rfl⟩
  | ok n =>
    show ∃ e, ((history pf cycle snapshots scope n).bind fun rows =>
      Except.bind (rows.mapM (metricOf pf (Rule.get rule "metric"))) fun values =>
        verdict pf scope rule op n values) = .error e
    by_cases hlimit : 0 ≤ n ∧ n ≤ pf.maxLimit
    · rw [history_ok hlimit]
      show ∃ e, (Except.bind (List.mapM _ _) fun values => verdict pf scope rule op n values) =
        .error e
      by_cases hbad : 0 < n ∧ measurements snapshots cycle.companyId scope ≠ [] ∧
          (Rule.get rule "metric").hashable = false
      · obtain ⟨hpos, hrows, hm⟩ := hbad
        have htake : (measurements snapshots cycle.companyId scope).take n.toNat ≠ [] := by
          rw [ne_eq, List.take_eq_nil_iff, not_or]
          exact ⟨by omega, hrows⟩
        rw [mapM_unhashable hm htake]
        exact ⟨_, rfl⟩
      · have hhash : 0 < n → measurements snapshots cycle.companyId scope ≠ [] →
            (Rule.get rule "metric").hashable = true := fun hpos hrows => by
          by_contra hm
          exact hbad ⟨hpos, hrows, Bool.eq_false_iff.mpr hm⟩
        by_cases hz : n = 0 → (Rule.get rule "value").number pf = none
        · exact absurd ⟨hn, hlimit, hz, hhash⟩ (h n)
        · rw [Classical.not_imp] at hz
          obtain ⟨rfl, hv⟩ := hz
          show ∃ e, verdict pf scope rule op 0 [] = .error e
          unfold verdict
          rw [if_neg (by simp)]
          cases hl : (Rule.get rule "value").number pf with
          | none => exact absurd hl hv
          | some limit => exact ⟨_, rfl⟩
    · unfold history
      rw [if_pos (by omega)]
      exact ⟨_, rfl⟩

/-- A rule is breached for some metric, operator, limit and number of cycles. -/
def RuleMet (pf : Platform F) (cycle : Cycle) (snapshots : List KpiSnapshot) (scope : Scope)
    (rule : Rule) : Prop :=
  ∃ name op limit n, Breaching pf cycle snapshots scope rule name op limit n

theorem readRule_readable
    (hhash : (Rule.get rule "metric").truthy = true → (Rule.get rule "op").hashable = true)
    (hcycles : (Rule.get rule "metric").truthy = true → ∀ text op,
      Rule.get rule "op" = .str text → Op.read text = some op →
        ∃ n, Countable pf cycle snapshots scope rule n) :
    ∃ r, readRule pf cycle snapshots scope rule = .ok r ∧
      (r.isSome = true ↔ RuleMet pf cycle snapshots scope rule) := by
  unfold readRule
  by_cases ht : (Rule.get rule "metric").truthy = true
  · rw [if_pos ht]
    have unknown : (∀ text op, Rule.get rule "op" = .str text → Op.read text ≠ some op) →
        ((none : Option (Breach F)).isSome = true ↔ RuleMet pf cycle snapshots scope rule) := by
      intro hno
      refine ⟨nofun, ?_⟩
      rintro ⟨name, op, limit, n, hb⟩
      obtain ⟨text, hop, hread⟩ := hb.known
      exact absurd hread (hno text op hop)
    have hhash := hhash ht
    split
    · next hop =>
      rw [hop] at hhash
      cases hhash
    · next hop =>
      rw [hop] at hhash
      cases hhash
    · next text hop =>
      cases hread : Op.read text with
      | none =>
        refine ⟨none, rfl, unknown fun text' op hop' => ?_⟩
        rw [hop] at hop'
        cases hop'
        rw [hread]
        nofun
      | some op =>
        obtain ⟨n, hn⟩ := hcycles ht text op hop hread
        obtain ⟨r, hr, hiff⟩ := @measure_spec _ _ _ _ _ _ op _ hn ht ⟨text, hop, hread⟩
        refine ⟨r, hr, hiff.trans ?_⟩
        constructor
        · rintro ⟨name, limit, n, hb⟩
          exact ⟨name, op, limit, n, hb⟩
        · rintro ⟨name, op', limit, n, hb⟩
          obtain ⟨text', hop', hread'⟩ := hb.known
          rw [hop] at hop'
          cases hop'
          obtain rfl := Option.some.inj (hread.symm.trans hread')
          exact ⟨name, limit, n, hb⟩
    · next hother => exact ⟨none, rfl, unknown fun text op hop => absurd hop (hother text)⟩
  · rw [if_neg ht]
    refine ⟨none, rfl, nofun, ?_⟩
    rintro ⟨name, op, limit, n, hb⟩
    rw [hb.named.1] at ht
    exact absurd (by simpa [Value.truthy] using hb.named.2) ht

theorem readRule_unhashable (ht : (Rule.get rule "metric").truthy = true)
    (hop : (Rule.get rule "op").hashable = false) :
    readRule pf cycle snapshots scope rule = .error .typeError := by
  unfold readRule
  rw [if_pos ht]
  cases h : Rule.get rule "op" <;> rw [h] at hop <;> first | rfl | cases hop

theorem readRule_uncountable {text : String} (ht : (Rule.get rule "metric").truthy = true)
    (hop : Rule.get rule "op" = .str text) (hread : Op.read text = some op)
    (h : ∀ n, ¬ Countable pf cycle snapshots scope rule n) :
    ∃ e, readRule pf cycle snapshots scope rule = .error e := by
  simp only [readRule, ht, hop, hread, if_true]
  exact measure_error h

theorem breached_judging (h : Judging cycle criteria rule) :
    breached pf cycle snapshots scope criteria = readRule pf cycle snapshots scope rule := by
  obtain ⟨kvs, rfl, hrule, hearly⟩ := h
  simp only [breached, readCriteria, bind, Except.bind, hrule, hearly, Bool.false_eq_true, if_false]

theorem readCriteria_falsy {v : Value} (h : ¬ v.truthy = true) :
    readCriteria (some v) = .ok [] := by
  cases v <;> simp_all [readCriteria, Value.truthy]

theorem readCriteria_other {v : Value} (h : v.truthy = true) (hno : ∀ kvs, v ≠ .dict kvs) :
    readCriteria (some v) = .error .attributeError := by
  cases v <;> simp_all [readCriteria]

theorem breached_unjudged (h : ∀ rule, ¬ Judging cycle criteria rule)
    (hobject : ∀ v, criteria = some v → v.truthy = true → ∃ kvs, v = .dict kvs) :
    breached pf cycle snapshots scope criteria = .ok none := by
  cases criteria with
  | none => rfl
  | some v =>
    by_cases ht : v.truthy = true
    · obtain ⟨kvs, rfl⟩ := hobject v rfl ht
      simp only [breached, readCriteria, bind, Except.bind]
      cases hl : kvs.lookup "auto_pause_if" with
      | none => rfl
      | some given =>
        cases given with
        | dict rule =>
          by_cases hearly : tooEarly cycle kvs = true
          · simp only [hearly, if_true]
            rfl
          · exact absurd ⟨kvs, rfl, hl, Bool.eq_false_iff.mpr hearly⟩ (h rule)
        | _ => rfl
    · unfold breached
      rw [readCriteria_falsy ht]
      rfl

theorem Judging.unique {rule' : Rule} (h : Judging cycle criteria rule)
    (h' : Judging cycle criteria rule') : rule = rule' := by
  obtain ⟨kvs, rfl, hl, -⟩ := h
  obtain ⟨kvs', hc, hl', -⟩ := h'
  cases hc
  rw [hl] at hl'
  cases hl'
  rfl

theorem breached_readable (h : Readable pf cycle snapshots scope criteria) :
    ∃ r, breached pf cycle snapshots scope criteria = .ok r ∧
      (r.isSome = true ↔ Met pf cycle snapshots scope criteria) := by
  by_cases hj : ∃ rule, Judging cycle criteria rule
  · obtain ⟨rule, hj⟩ := hj
    rw [breached_judging hj]
    obtain ⟨r, hr, hiff⟩ := readRule_readable (h.op rule hj) (h.cycles rule hj)
    refine ⟨r, hr, hiff.trans ?_⟩
    constructor
    · rintro ⟨name, op, limit, n, hb⟩
      exact ⟨rule, name, op, limit, n, hj, hb⟩
    · rintro ⟨rule', name, op, limit, n, hj', hb⟩
      obtain rfl := hj.unique hj'
      exact ⟨name, op, limit, n, hb⟩
  · rw [not_exists] at hj
    refine ⟨none, breached_unjudged hj h.object, nofun, ?_⟩
    rintro ⟨rule, _, _, _, _, hj', _⟩
    exact absurd hj' (hj rule)

theorem breached_unreadable (h : ¬ Readable pf cycle snapshots scope criteria) :
    ∃ e, breached pf cycle snapshots scope criteria = .error e := by
  by_cases hobject : ∀ v, criteria = some v → v.truthy = true → ∃ kvs, v = .dict kvs
  · by_cases hj : ∃ rule, Judging cycle criteria rule
    · obtain ⟨rule, hj⟩ := hj
      rw [breached_judging hj]
      by_cases ht : (Rule.get rule "metric").truthy = true
      · cases hhash : (Rule.get rule "op").hashable with
        | false => exact ⟨_, readRule_unhashable ht hhash⟩
        | true =>
          have hbad : ∃ text op, Rule.get rule "op" = .str text ∧ Op.read text = some op ∧
              ∀ n, ¬ Countable pf cycle snapshots scope rule n := by
            by_contra hno
            refine h ⟨hobject, fun rule' hj' _ => ?_, fun rule' hj' _ text op hop hread => ?_⟩
            · obtain rfl := hj.unique hj'
              exact hhash
            · obtain rfl := hj.unique hj'
              by_contra hcount
              exact hno ⟨text, op, hop, hread, not_exists.mp hcount⟩
          obtain ⟨text, op, hop, hread, hcount⟩ := hbad
          exact readRule_uncountable ht hop hread hcount
      · refine absurd ⟨hobject, fun rule' hj' ht' => ?_, fun rule' hj' ht' => ?_⟩ h
        · exact absurd (hj.unique hj' ▸ ht') ht
        · exact absurd (hj.unique hj' ▸ ht') ht
    · rw [not_exists] at hj
      exact absurd ⟨hobject, fun rule hj' => absurd hj' (hj rule),
        fun rule hj' => absurd hj' (hj rule)⟩ h
  · simp only [not_forall, not_exists] at hobject
    obtain ⟨v, rfl, ht, hno⟩ := hobject
    unfold breached
    rw [readCriteria_other ht hno]
    exact ⟨_, rfl⟩

end Autora.Governance
