import Autora.Lib.Stretches
import Autora.Lib.Systems
import Autora.PriceHistory

/-! A refresh asks only below the oldest stored day and from the newest one on. What is
stored of a stock therefore has to stay a stretch of its months, and a later refresh
completes it only as far back as its walk goes. -/

namespace Autora.Prices

open Stretches Systems

def Stored (table : List PriceBar) (symbol : String) (d : Date) : Prop :=
  (figures? table symbol d).isSome

section
variable {ex : Exchange} {r : Run} {symbol : String}

/-! One request -/

/-- The state after one month was asked for. -/
def ask (ex : Exchange) (r : Run) (symbol : String) (month : Date) (st : Refreshing) :
    Refreshing :=
  st.keep symbol (r.source symbol) ((r.monthOf ex symbol month st.requests).getD [])

theorem figures?_ask (month : Date) (st : Refreshing) (d : Date) :
    figures? (ask ex r symbol month st).table symbol d =
      if r.failed st.requests = false ∧ d.months = month.months ∧
        (r.published ex symbol d).isSome
      then r.published ex symbol d else figures? st.table symbol d := by
  simp only [ask, Refreshing.keep, Run.monthOf]
  by_cases hf : r.failed st.requests
  · simp [hf, store]
  · have hbars : ∀ b ∈ r.answer ex symbol month,
        r.published ex symbol b.day = some b.toFigures :=
      fun b hb => (Run.mem_answer.mp hb).2
    rw [if_neg hf, Option.getD_some, figures?_store hbars]
    simp only [Run.mem_answer_days, hf, true_and]

theorem figures?_ask_other {s : String} (hs : s ≠ symbol) (month : Date) (st : Refreshing)
    (d : Date) : figures? (ask ex r symbol month st).table s d = figures? st.table s d :=
  figures?_store_other hs _ _ _ _

theorem figures?_ask_failed (ex : Exchange) {st : Refreshing}
    (hf : r.failed st.requests = true) (month d : Date) :
    figures? (ask ex r symbol month st).table symbol d = figures? st.table symbol d := by
  rw [figures?_ask, if_neg (by simp [hf])]

theorem figures?_ask_elsewhere {month d : Date} (hd : d.months ≠ month.months)
    (st : Refreshing) :
    figures? (ask ex r symbol month st).table symbol d = figures? st.table symbol d := by
  rw [figures?_ask, if_neg (fun h => hd h.2.1)]

theorem Run.answer_eq_nil {month : Date} :
    r.answer ex symbol month = [] ↔
      ∀ d, d.months = month.months → ¬ (r.published ex symbol d).isSome := by
  constructor
  · intro h d hd hsome
    have hmem := Run.mem_answer_days.mpr ⟨hd, hsome⟩
    rw [h] at hmem
    simp at hmem
  · intro h
    refine List.eq_nil_iff_forall_not_mem.mpr fun b hb => ?_
    obtain ⟨hm, hf⟩ := Run.mem_answer.mp hb
    exact h b.day hm (by simp [hf])

theorem figures?_ask_nil {month : Date} (h : r.answer ex symbol month = []) (st : Refreshing)
    (d : Date) :
    figures? (ask ex r symbol month st).table symbol d = figures? st.table symbol d := by
  rw [figures?_ask, if_neg fun hd => Run.answer_eq_nil.mp h d hd.2.1 hd.2.2]

/-- What a day is stored with is what the exchange has published of it. -/
def Agrees (ex : Exchange) (r : Run) (symbol : String) (table : List PriceBar) : Prop :=
  ∀ d f, figures? table symbol d = some f → r.published ex symbol d = some f

theorem Agrees.ask {month : Date} {st : Refreshing} (h : Agrees ex r symbol st.table) :
    Agrees ex r symbol (ask ex r symbol month st).table := by
  intro d f hf
  rw [figures?_ask] at hf
  split at hf
  · exact hf
  · exact h d f hf

def Due (ex : Exchange) (r : Run) (symbol : String) (d : Date) : Prop :=
  (r.published ex symbol d).isSome

theorem fetched_ask (ex : Exchange) (symbol : String) (month : Date) {st : Refreshing}
    (hf : r.failed st.requests = false) :
    Fetched Date.months (Due ex r symbol) (Stored st.table symbol)
      (Stored (ask ex r symbol month st).table symbol) month.months := by
  intro d
  simp only [Stored, figures?_ask, hf, true_and]
  by_cases hd : d.months = month.months ∧ (r.published ex symbol d).isSome
  · rw [if_pos hd]
    exact ⟨fun _ => .inr hd, fun _ => hd.2⟩
  · rw [if_neg hd]
    exact ⟨.inl, fun h => h.resolve_right hd⟩

/-! The first pass -/

/-- The month has published days that are not stored. -/
def lacks (ex : Exchange) (r : Run) (symbol : String) (table : List PriceBar) (month : Date) :
    Bool :=
  (r.answer ex symbol month).any fun b => (figures? table symbol b.day).isNone

theorem stored_of_not_lacks {table : List PriceBar} {month d : Date}
    (h : lacks ex r symbol table month = false) (hd : d.months = month.months)
    (hdue : Due ex r symbol d) : Stored table symbol d := by
  obtain ⟨f, hf⟩ := Option.isSome_iff_exists.mp hdue
  have hmem : (⟨f, d⟩ : Bar) ∈ r.answer ex symbol month := Run.mem_answer.mpr ⟨hd, hf⟩
  have hb := List.any_eq_false.mp h _ hmem
  simpa [Stored, Option.isSome_iff_ne_none] using hb

/-- In the months asked forward, with bars stored before them or not: once a month that
lacks bars has failed behind a month with bars, no further month has any. -/
def Forward (ex : Exchange) (r : Run) (symbol : String) (table : List PriceBar) :
    List Date → Nat → Bool → Bool → Prop
  | [], _, _, _ => True
  | month :: months, n, started, missed =>
    if r.failed n = true then
      Forward ex r symbol table months (n + 1) started
        (missed || (started && lacks ex r symbol table month))
    else if r.answer ex symbol month = [] then
      Forward ex r symbol table months (n + 1) started missed
    else missed = false ∧ Forward ex r symbol table months (n + 1) true missed

instance decidableForward (ex : Exchange) (r : Run) (symbol : String) (table : List PriceBar) :
    ∀ months n started missed,
      Decidable (Forward ex r symbol table months n started missed)
  | [], _, _, _ => .isTrue trivial
  | month :: months, n, started, missed =>
    have := decidableForward ex r symbol table months
    inferInstanceAs (Decidable (if r.failed n = true then
        Forward ex r symbol table months (n + 1) started
          (missed || (started && lacks ex r symbol table month))
      else if r.answer ex symbol month = [] then
        Forward ex r symbol table months (n + 1) started missed
      else missed = false ∧ Forward ex r symbol table months (n + 1) true missed))

/-- The stock's stored days while the first pass has come to month `k`. -/
structure Filled (ex : Exchange) (r : Run) (symbol : String) (before : List PriceBar) (k : Nat)
    (started missed : Bool) (table : List PriceBar) : Prop where
  agrees : Agrees ex r symbol table
  stretch : Stretch Date.months (Due ex r symbol) (Stored table symbol)
  below : ∀ d, Stored table symbol d → d.months ≤ k
  started : ∀ d, Stored table symbol d → started = true
  upTo : missed = false → UpTo Date.months (Due ex r symbol) (Stored table symbol) k
  same : ∀ d, k ≤ d.months → figures? table symbol d = figures? before symbol d

/-- Where no figures changed, the invariant moves on past a month that is no loss. -/
theorem Filled.pass {before table table' : List PriceBar} {k : Nat} {started missed m : Bool}
    (h : Filled ex r symbol before k started missed table)
    (hsame : ∀ d, figures? table' symbol d = figures? table symbol d)
    (hmissed : m = false → missed = false ∧ ∀ lo d, Stored table symbol lo →
      Due ex r symbol d → d.months = k → Stored table symbol d) :
    Filled ex r symbol before (k + 1) started m table' := by
  have hstored : Stored table' symbol = Stored table symbol := by
    funext d
    rw [Stored, hsame d, Stored]
  refine ⟨?_, ?_, ?_, ?_, ?_, ?_⟩
  · intro d f hf
    exact h.agrees d f (hsame d ▸ hf)
  · exact hstored ▸ h.stretch
  · intro d hd
    have hle := h.below d (hstored ▸ hd)
    omega
  · intro d hd
    exact h.started d (hstored ▸ hd)
  · intro hm
    obtain ⟨hold, hk⟩ := hmissed hm
    rw [hstored]
    exact (h.upTo hold).pass hk
  · intro d hd
    rw [hsame d]
    exact h.same d (by omega)

theorem Filled.fetch {before : List PriceBar} {month : Date} {st : Refreshing} {started : Bool}
    (h : Filled ex r symbol before month.months started false st.table)
    (hf : r.failed st.requests = false) :
    Filled ex r symbol before (month.months + 1) true false
      (ask ex r symbol month st).table := by
  have hfetched := fetched_ask ex symbol month hf
  have hup := (h.upTo rfl).fetch hfetched
  have hbelow : ∀ d, Stored (ask ex r symbol month st).table symbol d →
      d.months ≤ month.months := by
    intro d hd
    rcases (hfetched d).mp hd with hold | ⟨hdm, _⟩
    · exact h.below d hold
    · omega
  refine ⟨h.agrees.ask, ?_, ?_, fun _ _ => rfl, fun _ => hup, ?_⟩
  · exact hup.stretch fun d hd => Nat.le_succ_of_le (hbelow d hd)
  · exact fun d hd => Nat.le_succ_of_le (hbelow d hd)
  · intro d hd
    rw [figures?_ask_elsewhere (by omega)]
    exact h.same d (by omega)

/-- The first pass keeps the invariant over all its months; where nothing fails, nothing
is missed. -/
theorem Filled.fillForward {before : List PriceBar} {months : List Date} {k : Nat}
    {started missed : Bool} {st : Refreshing}
    (h : Filled ex r symbol before k started missed st.table)
    (hmonths : months.map Date.months = List.range' k months.length)
    (hok : Forward ex r symbol before months st.requests started missed) :
    ∃ started' missed', Filled ex r symbol before (k + months.length) started' missed'
      (fillForward ex r symbol months st).table ∧
      ((∀ n, r.failed n = false) → missed' = missed) := by
  induction months generalizing k started missed st with
  | nil => exact ⟨started, missed, h, fun _ => rfl⟩
  | cons month months ih =>
    have hcons : month.months = k ∧
        months.map Date.months = List.range' (k + 1) months.length := by
      simpa [List.range'_succ] using hmonths
    obtain ⟨rfl, hrest⟩ := hcons
    have hlength : month.months + (month :: months).length = month.months + 1 + months.length := by
      rw [List.length_cons]
      omega
    have hstep : Prices.fillForward ex r symbol (month :: months) st =
        Prices.fillForward ex r symbol months (ask ex r symbol month st) := rfl
    rw [hlength, hstep]
    unfold Forward at hok
    by_cases hf : r.failed st.requests = true
    · rw [if_pos hf] at hok
      have hpass := h.pass (m := missed || (started && lacks ex r symbol before month))
        (figures?_ask_failed ex hf month) (by
          intro hm
          rw [Bool.or_eq_false_iff] at hm
          refine ⟨hm.1, fun lo d hlo hdue hd => ?_⟩
          have hlacks : lacks ex r symbol before month = false := by
            simpa [h.started lo hlo] using hm.2
          have hold := stored_of_not_lacks hlacks hd hdue
          rwa [Stored, h.same d (by omega)])
      obtain ⟨started', missed', hfill, _⟩ := ih hpass hrest hok
      exact ⟨started', missed', hfill, fun hall => by simp [hall] at hf⟩
    · rw [if_neg hf] at hok
      by_cases hnil : r.answer ex symbol month = []
      · rw [if_pos hnil] at hok
        have hpass := h.pass (m := missed) (figures?_ask_nil hnil st)
          (fun hm => ⟨hm, fun lo d _ hdue hd => absurd hdue (Run.answer_eq_nil.mp hnil d hd)⟩)
        exact ih hpass hrest hok
      · rw [if_neg hnil] at hok
        obtain ⟨rfl, hok⟩ := hok
        exact ih (h.fetch (by simpa using hf)) hrest hok

/-! The second pass -/

/-- In the months walked back: once a month with bars has failed, no older month has any,
until a month without bars ends the walk. -/
def Back (ex : Exchange) (r : Run) (symbol : String) : List Date → Nat → Bool → Prop
  | [], _, _ => True
  | month :: months, n, missed =>
    if r.failed n = true then
      Back ex r symbol months (n + 1) (missed || decide (r.answer ex symbol month ≠ []))
    else if r.answer ex symbol month = [] then True
    else missed = false ∧ Back ex r symbol months (n + 1) missed

instance decidableBack (ex : Exchange) (r : Run) (symbol : String) :
    ∀ months n missed, Decidable (Back ex r symbol months n missed)
  | [], _, _ => .isTrue trivial
  | month :: months, n, missed =>
    have := decidableBack ex r symbol months
    inferInstanceAs (Decidable (if r.failed n = true then
        Back ex r symbol months (n + 1) (missed || decide (r.answer ex symbol month ≠ []))
      else if r.answer ex symbol month = [] then True
      else missed = false ∧ Back ex r symbol months (n + 1) missed))

/-- The stock's stored days while the second pass has come down to month `k`. -/
structure Walked (ex : Exchange) (r : Run) (symbol : String) (k : Nat) (missed : Bool)
    (table : List PriceBar) : Prop where
  agrees : Agrees ex r symbol table
  stretch : Stretch Date.months (Due ex r symbol) (Stored table symbol)
  above : ∀ d, Stored table symbol d → k ≤ d.months
  downTo : missed = false → DownTo Date.months (Due ex r symbol) (Stored table symbol) k

/-- What every refresh leaves: bars as published, and no hole between them. -/
structure Healthy (ex : Exchange) (r : Run) (symbol : String) (table : List PriceBar) :
    Prop where
  agrees : Agrees ex r symbol table
  stretch : Stretch Date.months (Due ex r symbol) (Stored table symbol)

theorem stored_congr {table table' : List PriceBar}
    (hsame : ∀ d, figures? table' symbol d = figures? table symbol d) :
    Stored table' symbol = Stored table symbol := by
  funext d
  rw [Stored, hsame d, Stored]

theorem Healthy.congr {table table' : List PriceBar} (h : Healthy ex r symbol table)
    (hsame : ∀ d, figures? table' symbol d = figures? table symbol d) :
    Healthy ex r symbol table' :=
  ⟨fun d f hf => h.agrees d f (hsame d ▸ hf), stored_congr hsame ▸ h.stretch⟩

theorem Walked.pass {table table' : List PriceBar} {k : Nat} {missed m : Bool}
    (h : Walked ex r symbol (k + 1) missed table)
    (hsame : ∀ d, figures? table' symbol d = figures? table symbol d)
    (hmissed : m = false → missed = false ∧ ∀ d, Due ex r symbol d → d.months ≠ k) :
    Walked ex r symbol k m table' := by
  have hstored := stored_congr hsame
  have hhealthy := Healthy.congr ⟨h.agrees, h.stretch⟩ hsame
  refine ⟨hhealthy.agrees, hhealthy.stretch, ?_, ?_⟩
  · intro d hd
    have hle := h.above d (hstored ▸ hd)
    omega
  · intro hm
    obtain ⟨hold, hk⟩ := hmissed hm
    rw [hstored]
    exact (h.downTo hold).pass hk

theorem Walked.fetch {month : Date} {st : Refreshing}
    (h : Walked ex r symbol (month.months + 1) false st.table)
    (hf : r.failed st.requests = false) :
    Walked ex r symbol month.months false (ask ex r symbol month st).table := by
  have hfetched := fetched_ask ex symbol month hf
  have hdown := (h.downTo rfl).fetch hfetched
  have habove : ∀ d, Stored (ask ex r symbol month st).table symbol d →
      month.months ≤ d.months := by
    intro d hd
    rcases (hfetched d).mp hd with hold | ⟨hdm, _⟩
    · have hle := h.above d hold
      omega
    · omega
  exact ⟨h.agrees.ask, hdown.stretch habove, habove, fun _ => hdown⟩

theorem walkBack_cons (month : Date) (months : List Date) (st : Refreshing) :
    walkBack ex r symbol (month :: months) st =
      if r.failed st.requests = false ∧ r.answer ex symbol month = []
      then ask ex r symbol month st
      else walkBack ex r symbol months (ask ex r symbol month st) := by
  by_cases hf : r.failed st.requests = true
  · simp [walkBack, ask, Run.monthOf, hf]
  · by_cases hnil : r.answer ex symbol month = []
    · simp [walkBack, ask, Run.monthOf, hf, hnil]
    · simp [walkBack, ask, Run.monthOf, hf, hnil]

theorem months_reverse {month : Date} {months : List Date} {low : Nat}
    (h : (month :: months).map Date.months =
      (List.range' low (month :: months).length).reverse) :
    month.months = low + months.length ∧
      months.map Date.months = (List.range' low months.length).reverse := by
  simpa [List.range'_1_concat] using h

/-- The second pass leaves no hole either. -/
theorem Walked.walkBack {months : List Date} {low : Nat} {missed : Bool} {st : Refreshing}
    (h : Walked ex r symbol (low + months.length) missed st.table)
    (hmonths : months.map Date.months = (List.range' low months.length).reverse)
    (hok : Back ex r symbol months st.requests missed) :
    Healthy ex r symbol (walkBack ex r symbol months st).table := by
  induction months generalizing missed st with
  | nil => exact ⟨h.agrees, h.stretch⟩
  | cons month months ih =>
    obtain ⟨hmonth, hrest⟩ := months_reverse hmonths
    have hk : low + (month :: months).length = month.months + 1 := by
      rw [List.length_cons, hmonth]
      omega
    rw [hk] at h
    rw [walkBack_cons]
    unfold Back at hok
    by_cases hf : r.failed st.requests = true
    · rw [if_pos hf] at hok
      rw [if_neg (by simp [hf])]
      have hpass := h.pass (m := missed || decide (r.answer ex symbol month ≠ []))
        (figures?_ask_failed ex hf month) (by
          intro hm
          rw [Bool.or_eq_false_iff] at hm
          refine ⟨hm.1, fun d hdue hd => ?_⟩
          have hnil : r.answer ex symbol month = [] := by simpa using hm.2
          exact Run.answer_eq_nil.mp hnil d hd hdue)
      exact ih (hmonth ▸ hpass) hrest hok
    · rw [if_neg hf] at hok
      by_cases hnil : r.answer ex symbol month = []
      · rw [if_pos ⟨by simpa using hf, hnil⟩]
        exact Healthy.congr ⟨h.agrees, h.stretch⟩ (figures?_ask_nil hnil st)
      · rw [if_neg hnil] at hok
        rw [if_neg (fun hc => hnil hc.2)]
        obtain ⟨rfl, hok⟩ := hok
        exact ih (hmonth ▸ h.fetch (by simpa using hf)) hrest hok

/-! One symbol's refresh -/

theorem figures?_passes_other (ex : Exchange) (r : Run) {s : String} (hs : s ≠ symbol) (d : Date) :
    (∀ (months : List Date) (st : Refreshing),
      figures? (fillForward ex r symbol months st).table s d = figures? st.table s d) ∧
    ∀ (months : List Date) (st : Refreshing),
      figures? (walkBack ex r symbol months st).table s d = figures? st.table s d := by
  constructor
  · intro months
    induction months with
    | nil => exact fun _ => rfl
    | cons month months ih => exact fun st => (ih _).trans (figures?_ask_other hs month st d)
  · intro months
    induction months with
    | nil => exact fun _ => rfl
    | cons month months ih =>
      intro st
      rw [walkBack_cons]
      split
      · exact figures?_ask_other hs month st d
      · exact (ih _).trans (figures?_ask_other hs month st d)

/-- A day is stored after a pass when it was before, or is due in one of the months asked. -/
theorem stored_ask {month : Date} {st : Refreshing} {d : Date} :
    (Stored st.table symbol d → Stored (ask ex r symbol month st).table symbol d) ∧
    (Stored (ask ex r symbol month st).table symbol d →
      Stored st.table symbol d ∨ d.months = month.months ∧ Due ex r symbol d) := by
  by_cases hf : r.failed st.requests = true
  · rw [Stored, Stored, figures?_ask_failed ex hf month d]
    exact ⟨id, .inl⟩
  · have hfalse : r.failed st.requests = false := by simpa using hf
    have hfetched := fetched_ask ex symbol month hfalse d
    exact ⟨fun h => hfetched.mpr (.inl h), hfetched.mp⟩

theorem stored_fillForward {months : List Date} {st : Refreshing} {d : Date} :
    (Stored st.table symbol d → Stored (fillForward ex r symbol months st).table symbol d) ∧
    (Stored (fillForward ex r symbol months st).table symbol d →
      Stored st.table symbol d ∨ d.months ∈ months.map Date.months ∧ Due ex r symbol d) := by
  induction months generalizing st with
  | nil => exact ⟨id, .inl⟩
  | cons month months ih =>
    refine ⟨fun h => ih.1 (stored_ask.1 h), fun h => ?_⟩
    rcases ih.2 h with hask | ⟨hm, hdue⟩
    · rcases stored_ask.2 hask with hold | ⟨hm, hdue⟩
      · exact .inl hold
      · exact .inr ⟨by simp [hm], hdue⟩
    · exact .inr ⟨List.mem_cons_of_mem _ hm, hdue⟩

theorem stored_walkBack {months : List Date} {st : Refreshing} {d : Date}
    (h : Stored st.table symbol d) : Stored (walkBack ex r symbol months st).table symbol d := by
  induction months generalizing st with
  | nil => exact h
  | cons month months ih =>
    rw [walkBack_cons]
    split
    · exact stored_ask.1 h
    · exact ih (stored_ask.1 h)

theorem mem_forwardMonths {table : List PriceBar} {m : Nat} :
    m ∈ (forwardMonths r symbol table).map Date.months ↔
      ((lastDay table symbol).getD (monthsBack r.today firstFillMonths)).months ≤ m ∧
        m ≤ r.today.months := by
  rw [forwardMonths, monthsBetween_months, List.mem_range'_1]
  omega

theorem backMonths_months (first : Date) :
    (backMonths r (some first)).map Date.months =
      if r.extend then
        (List.range' r.horizon.months (first.months - r.horizon.months)).reverse
      else [] := by
  have hnumber : r.horizon.number < first.firstOf.number ↔
      r.horizon.months < first.months := by
    show 31 * r.horizon.months + (1 - 1) < 31 * first.months + (1 - 1) ↔ _
    omega
  simp only [backMonths, hnumber]
  by_cases hext : r.extend = true
  · by_cases hlt : r.horizon.months < first.months
    · obtain ⟨n, hn⟩ : ∃ n, first.months - r.horizon.months = n + 1 :=
        ⟨first.months - r.horizon.months - 1, by omega⟩
      have hsucc : first.firstOf.months + 1 - r.horizon.months = n + 1 + 1 := by
        rw [Date.firstOf_months]
        omega
      rw [if_pos ⟨hext, hlt⟩, if_pos hext, List.map_reverse, List.map_dropLast,
        monthsBetween_months, hsucc, List.range'_1_concat, List.dropLast_concat, hn]
    · have hzero : first.months - r.horizon.months = 0 := by omega
      rw [if_neg (fun h => hlt h.2), if_pos hext, hzero]
      rfl
  · rw [if_neg (fun h => hext h.1), if_neg hext]
    rfl

/-- The second pass starts below everything stored. -/
theorem first_spec {st : Refreshing} {first : Date}
    (h : (firstDay st.table symbol).or (firstDay
      (fillForward ex r symbol (forwardMonths r symbol st.table) st).table symbol) = some first) :
    Stored (fillForward ex r symbol (forwardMonths r symbol st.table) st).table symbol first ∧
      ∀ d, Stored (fillForward ex r symbol (forwardMonths r symbol st.table) st).table symbol d →
        first.months ≤ d.months := by
  cases hfirst : firstDay st.table symbol with
  | none =>
    rw [hfirst, Option.none_or] at h
    exact firstDay_some h
  | some old =>
    obtain ⟨hold, hmin⟩ := firstDay_some hfirst
    rw [hfirst, Option.some_or, Option.some.injEq] at h
    subst h
    refine ⟨stored_fillForward.1 hold, fun d hd => ?_⟩
    rcases stored_fillForward.2 hd with hbefore | ⟨hm, _⟩
    · exact hmin d hbefore
    · obtain ⟨hlow, _⟩ := mem_forwardMonths.mp hm
      cases hlast : lastDay st.table symbol with
      | none => exact absurd hold (lastDay_none hlast old)
      | some last =>
        have hmax := (lastDay_some hlast).2 old hold
        rw [hlast, Option.getD_some] at hlow
        omega

theorem filled_start {table : List PriceBar} (h : Healthy ex r symbol table) :
    Filled ex r symbol table
      ((lastDay table symbol).getD (monthsBack r.today firstFillMonths)).months
      (firstDay table symbol).isSome false table := by
  have hstarted : ∀ d, Stored table symbol d → (firstDay table symbol).isSome = true := by
    intro d hd
    cases hfirst : firstDay table symbol with
    | none => exact absurd hd (firstDay_none hfirst d)
    | some first => rfl
  cases hlast : lastDay table symbol with
  | none =>
    have hnone := lastDay_none hlast
    exact ⟨h.agrees, h.stretch, fun d hd => absurd hd (hnone d), hstarted,
      fun _ => .of_none hnone, fun _ _ => rfl⟩
  | some last =>
    obtain ⟨hstored, hmax⟩ := lastDay_some hlast
    exact ⟨h.agrees, h.stretch, hmax, hstarted, fun _ => h.stretch.upTo hstored, fun _ _ => rfl⟩

/-- No pass of this symbol's refresh leaves a month with bars behind and goes on to another:
a condition on what fails, on the exchange and on the days stored before. -/
def Unbroken (ex : Exchange) (r : Run) (symbol : String) (st : Refreshing) : Prop :=
  let first := firstDay st.table symbol
  let filled := fillForward ex r symbol (forwardMonths r symbol st.table) st
  Forward ex r symbol st.table (forwardMonths r symbol st.table) st.requests first.isSome false ∧
    Back ex r symbol (backMonths r (first.or (firstDay filled.table symbol))) filled.requests
      false

instance (ex : Exchange) (r : Run) (symbol : String) (st : Refreshing) :
    Decidable (Unbroken ex r symbol st) :=
  inferInstanceAs (Decidable (_ ∧ _))

theorem forwardMonths_length (table : List PriceBar) :
    (forwardMonths r symbol table).length = r.today.months + 1 -
      ((lastDay table symbol).getD (monthsBack r.today firstFillMonths)).months := by
  have h := congrArg List.length (monthsBetween_months
    ((lastDay table symbol).getD (monthsBack r.today firstFillMonths)) r.today)
  rwa [List.length_map, List.length_range'] at h

theorem forwardMonths_range (table : List PriceBar) :
    (forwardMonths r symbol table).map Date.months = List.range'
      ((lastDay table symbol).getD (monthsBack r.today firstFillMonths)).months
      (forwardMonths r symbol table).length := by
  rw [forwardMonths_length, forwardMonths, monthsBetween_months]

theorem Healthy.refreshSymbol {st : Refreshing} (h : Healthy ex r symbol st.table)
    (hok : Unbroken ex r symbol st) :
    Healthy ex r symbol (refreshSymbol ex r symbol st).table := by
  obtain ⟨hforward, hback⟩ := hok
  obtain ⟨_, _, hfilled, _⟩ :=
    (filled_start h).fillForward (forwardMonths_range st.table) hforward
  have hhealthy : Healthy ex r symbol
      (fillForward ex r symbol (forwardMonths r symbol st.table) st).table :=
    ⟨hfilled.agrees, hfilled.stretch⟩
  simp only [Prices.refreshSymbol]
  cases hfirst : (firstDay st.table symbol).or (firstDay
      (fillForward ex r symbol (forwardMonths r symbol st.table) st).table symbol) with
  | none => exact hhealthy
  | some first =>
    obtain ⟨hstored, hmin⟩ := first_spec hfirst
    rw [hfirst] at hback
    have hmonths := backMonths_months (r := r) first
    by_cases hext : r.extend = true
    · rw [if_pos hext] at hmonths
      have hlength := congrArg List.length hmonths
      rw [List.length_map, List.length_reverse, List.length_range'] at hlength
      by_cases hlt : r.horizon.months ≤ first.months
      · have hlow : r.horizon.months + (backMonths r (some first)).length = first.months := by
          omega
        have hwalked : Walked ex r symbol (r.horizon.months + (backMonths r (some first)).length)
            false (fillForward ex r symbol (forwardMonths r symbol st.table) st).table := by
          rw [hlow]
          exact ⟨hhealthy.agrees, hhealthy.stretch, hmin,
            fun _ => hhealthy.stretch.downTo hstored⟩
        exact hwalked.walkBack (hlength ▸ hmonths) hback
      · have hnil : backMonths r (some first) = [] := List.eq_nil_of_length_eq_zero (by omega)
        rw [hnil]
        exact hhealthy
    · rw [if_neg hext] at hmonths
      rw [List.map_eq_nil_iff.mp hmonths]
      exact hhealthy

theorem stored_refreshSymbol {st : Refreshing} {d : Date} (h : Stored st.table symbol d) :
    Stored (refreshSymbol ex r symbol st).table symbol d :=
  stored_walkBack (stored_fillForward.1 h)

theorem figures?_refreshSymbol_other (ex : Exchange) (r : Run) {s : String} (hs : s ≠ symbol)
    (st : Refreshing) (d : Date) :
    figures? (refreshSymbol ex r symbol st).table s d = figures? st.table s d := by
  have h := figures?_passes_other ex r hs d
  exact (h.2 _ _).trans (h.1 _ _)

/-! A run, and the runs one after the other -/

/-- The same for each time the run comes to this symbol. -/
def RunUnbroken (ex : Exchange) (r : Run) (symbol : String) : List String → Refreshing → Prop
  | [], _ => True
  | s :: symbols, st =>
    (s = symbol → Unbroken ex r symbol st) ∧
      RunUnbroken ex r symbol symbols (refreshSymbol ex r s st)

instance decidableRunUnbroken (ex : Exchange) (r : Run) (symbol : String) :
    ∀ symbols st, Decidable (RunUnbroken ex r symbol symbols st)
  | [], _ => .isTrue trivial
  | s :: symbols, st =>
    have := decidableRunUnbroken ex r symbol symbols (refreshSymbol ex r s st)
    inferInstanceAs (Decidable ((s = symbol → Unbroken ex r symbol st) ∧
      RunUnbroken ex r symbol symbols (refreshSymbol ex r s st)))

theorem Healthy.refreshSymbols {symbols : List String} (st : Refreshing)
    (h : Healthy ex r symbol st.table) (hok : RunUnbroken ex r symbol symbols st) :
    Healthy ex r symbol
      (symbols.foldl (fun st s => Prices.refreshSymbol ex r s st) st).table := by
  induction symbols generalizing st with
  | nil => exact h
  | cons s symbols ih =>
    obtain ⟨hs, hrest⟩ := hok
    refine ih _ ?_ hrest
    by_cases hsym : s = symbol
    · subst hsym
      exact h.refreshSymbol (hs rfl)
    · exact h.congr (figures?_refreshSymbol_other ex r (Ne.symm hsym) st)

/-- The time of a run: after the exchange's close of the day or before it. -/
def Run.moment (r : Run) : Nat := 2 * r.today.number + if r.closed then 1 else 0

theorem Run.published_some {d : Date} {f : Figures} :
    r.published ex symbol d = some f ↔ ex symbol d = some f ∧ 2 * d.number + 1 ≤ r.moment := by
  have hout : (d.number < r.today.number ∨ r.closed ∧ d = r.today) ↔
      2 * d.number + 1 ≤ r.moment := by
    have hsame : d = r.today ↔ d.number = r.today.number :=
      ⟨fun h => h ▸ rfl, Date.number_inj⟩
    rw [hsame, Run.moment]
    cases r.closed
    · simp only [Bool.false_eq_true, if_false, false_and, or_false]
      omega
    · simp only [if_true, true_and]
      omega
  simp only [Run.published, hout, Option.ite_none_right_eq_some]
  exact and_comm

end

/-- The table, and the time of the last run. -/
structure Kept where
  table : List PriceBar
  moment : Nat

/-- The runs of `refresh_tw` on days that do not go back, from a table without a Taiwan
symbol's bars. -/
def refreshes (ex : Exchange) : System Kept Run where
  init s := ∀ p ∈ s.table, p.market ≠ "tw"
  step s r t := s.moment ≤ r.moment ∧ t = ⟨(refreshTw ex r s.table).1, r.moment⟩

def unbroken (ex : Exchange) (symbol : String) (s : Kept) (r : Run) : Prop :=
  RunUnbroken ex r symbol r.symbols ⟨s.table, 0, 0⟩

/-- The stock's bars are the exchange's, out by the last run, and no hole is between them. -/
structure Whole (ex : Exchange) (symbol : String) (s : Kept) : Prop where
  given : ∀ d f, figures? s.table symbol d = some f →
    ex symbol d = some f ∧ 2 * d.number + 1 ≤ s.moment
  stretch : Stretch Date.months (fun d => (ex symbol d).isSome) (Stored s.table symbol)

section
variable {ex : Exchange} {r : Run} {symbol : String}

theorem Whole.healthy {s : Kept} (h : Whole ex symbol s) (hr : s.moment ≤ r.moment) :
    Healthy ex r symbol s.table := by
  constructor
  · intro d f hf
    obtain ⟨hex, hout⟩ := h.given d f hf
    exact Run.published_some.mpr ⟨hex, by omega⟩
  · refine h.stretch.congr fun hi d _ _ hdue => ?_
    obtain ⟨f, hf⟩ := Option.isSome_iff_exists.mp hdue
    simp [(Run.published_some.mp hf).1]

theorem Healthy.whole {table : List PriceBar} (h : Healthy ex r symbol table) :
    Whole ex symbol ⟨table, r.moment⟩ := by
  have hgiven : ∀ d f, figures? table symbol d = some f →
      ex symbol d = some f ∧ 2 * d.number + 1 ≤ r.moment :=
    fun d f hf => Run.published_some.mp (h.agrees d f hf)
  refine ⟨hgiven, h.stretch.congr fun hi d hhi hlt htraded => ?_⟩
  -- a day of an earlier month than a published one is published too
  obtain ⟨f, hf⟩ := Option.isSome_iff_exists.mp htraded
  obtain ⟨g, hg⟩ := Option.isSome_iff_exists.mp hhi
  have hhout := (hgiven hi g hg).2
  have hnumber := Date.number_lt hlt
  exact Option.isSome_iff_exists.mpr ⟨f, Run.published_some.mpr ⟨hf, by omega⟩⟩

theorem whole_of_reach {s : Kept} (h : (refreshes ex).Reach (unbroken ex symbol) s) :
    Whole ex symbol s := by
  refine h.invariant ?_ ?_
  · intro s hinit
    have hnone : ∀ d, figures? s.table symbol d = none := by
      intro d
      simp only [figures?, Option.map_eq_none_iff, List.find?_eq_none]
      exact fun p hp hat => hinit p hp (PriceBar.isAt_iff.mp hat).1
    refine ⟨fun d f hf => ?_, .of_none fun d hd => ?_⟩
    · rw [hnone d] at hf
      cases hf
    · rw [Stored, hnone d] at hd
      cases hd
  · rintro s r t hs hok ⟨hr, rfl⟩
    exact (Healthy.refreshSymbols _ (hs.healthy hr) hok).whole

/-! The run that asks for everything -/

theorem forward_of_answered (hall : ∀ n, r.failed n = false) (table : List PriceBar)
    (months : List Date) (n : Nat) (started : Bool) :
    Forward ex r symbol table months n started false := by
  induction months generalizing n started with
  | nil => trivial
  | cons month months ih =>
    unfold Forward
    rw [if_neg (by simp [hall n])]
    split
    · exact ih _ _
    · exact ⟨rfl, ih _ _⟩

theorem back_of_answered (hall : ∀ n, r.failed n = false) (months : List Date) (n : Nat) :
    Back ex r symbol months n false := by
  induction months generalizing n with
  | nil => trivial
  | cons month months ih =>
    unfold Back
    rw [if_neg (by simp [hall n])]
    split
    · trivial
    · exact ⟨rfl, ih _⟩

theorem unbroken_of_answered (hall : ∀ n, r.failed n = false) (st : Refreshing) :
    Unbroken ex r symbol st :=
  ⟨forward_of_answered hall _ _ _ _, back_of_answered hall _ _⟩

/-- The days the second pass starts from: those stored, or without any those of the last
twelve months. -/
def StartsAt (ex : Exchange) (r : Run) (symbol : String) (table : List PriceBar) (d : Date) :
    Prop :=
  Stored table symbol d ∨ (∀ x, ¬ Stored table symbol x) ∧ Due ex r symbol d ∧
    (monthsBack r.today firstFillMonths).months ≤ d.months

/-- Of the months after one with trades in the five years, each without trades lies after
a day the second pass starts from. -/
def Resumes (ex : Exchange) (r : Run) (symbol : String) (table : List PriceBar) : Prop :=
  ∀ d m, Due ex r symbol d → r.horizon.months ≤ d.months → d.months < m →
    m ≤ r.today.months → (∀ x, Due ex r symbol x → x.months ≠ m) →
    ∃ x, StartsAt ex r symbol table x ∧ x.months < m

theorem startsAt_congr {table table' : List PriceBar}
    (hsame : ∀ d, figures? table' symbol d = figures? table symbol d) (d : Date) :
    StartsAt ex r symbol table' d ↔ StartsAt ex r symbol table d := by
  rw [StartsAt, StartsAt, stored_congr hsame]

theorem Resumes.congr {table table' : List PriceBar} (h : Resumes ex r symbol table)
    (hsame : ∀ d, figures? table' symbol d = figures? table symbol d) :
    Resumes ex r symbol table' := by
  intro d m hdue hlow hlt hm hnone
  obtain ⟨x, hx, hxm⟩ := h d m hdue hlow hlt hm hnone
  exact ⟨x, (startsAt_congr hsame x).mpr hx, hxm⟩

/-- The walk stores each month down to the first without trades. -/
theorem stored_walkBack_of_due (hall : ∀ n, r.failed n = false) {months : List Date} {low : Nat}
    {st : Refreshing} {d : Date}
    (hmonths : months.map Date.months = (List.range' low months.length).reverse)
    (hdue : Due ex r symbol d) (hlow : low ≤ d.months) (hhigh : d.months < low + months.length)
    (htraded : ∀ m, d.months < m → m < low + months.length →
      ∃ x, Due ex r symbol x ∧ x.months = m) :
    Stored (walkBack ex r symbol months st).table symbol d := by
  induction months generalizing st with
  | nil =>
    rw [List.length_nil] at hhigh
    omega
  | cons month months ih =>
    obtain ⟨hmonth, hrest⟩ := months_reverse hmonths
    rw [List.length_cons] at hhigh htraded
    have hbars : ∃ x, Due ex r symbol x ∧ x.months = month.months := by
      by_cases hd : d.months = month.months
      · exact ⟨d, hdue, hd⟩
      · exact htraded month.months (by omega) (by omega)
    obtain ⟨x, hx, hxm⟩ := hbars
    have hnil : r.answer ex symbol month ≠ [] := fun h => Run.answer_eq_nil.mp h x hxm hx
    rw [walkBack_cons, if_neg (fun h => hnil h.2)]
    by_cases hd : d.months = month.months
    · exact stored_walkBack ((fetched_ask ex symbol month (hall _) d).mpr (.inr ⟨hd, hdue⟩))
    · exact ih hrest (by omega) fun m hm hlt => htraded m hm (by omega)

/-- The walk does not pass a month without trades. -/
theorem le_of_stored_walkBack (hall : ∀ n, r.failed n = false) {months : List Date}
    {low m : Nat} {st : Refreshing}
    (hmonths : months.map Date.months = (List.range' low months.length).reverse)
    (hnone : ∀ x, Due ex r symbol x → x.months ≠ m) (hlow : low ≤ m)
    (hhigh : m < low + months.length)
    (hst : ∀ x, Stored st.table symbol x → m ≤ x.months) :
    ∀ x, Stored (walkBack ex r symbol months st).table symbol x → m ≤ x.months := by
  induction months generalizing st with
  | nil =>
    rw [List.length_nil] at hhigh
    omega
  | cons month months ih =>
    obtain ⟨hmonth, hrest⟩ := months_reverse hmonths
    rw [List.length_cons] at hhigh
    have hask : ∀ x, Stored (ask ex r symbol month st).table symbol x → m ≤ x.months := by
      intro x hx
      rcases stored_ask.2 hx with hold | ⟨hxm, _⟩
      · exact hst x hold
      · omega
    rw [walkBack_cons]
    by_cases hnil : r.answer ex symbol month = []
    · rw [if_pos ⟨hall _, hnil⟩]
      exact hask
    · rw [if_neg (fun h => hnil h.2)]
      have hne : m ≠ month.months := by
        intro hm
        exact hnil (Run.answer_eq_nil.mpr fun d hd hdue => hnone d hdue (hd.trans hm.symm))
      exact ih hrest (by omega) hask

/-- The months walked back, when the run extends. -/
theorem backMonths_range (hext : r.extend = true) (first : Date) :
    (backMonths r (some first)).map Date.months =
        (List.range' r.horizon.months (backMonths r (some first)).length).reverse ∧
      (backMonths r (some first)).length = first.months - r.horizon.months := by
  have h := backMonths_months (r := r) first
  rw [if_pos hext] at h
  have hlength := congrArg List.length h
  rw [List.length_map, List.length_reverse, List.length_range'] at hlength
  exact ⟨hlength ▸ h, hlength⟩

theorem Due.months_le {d : Date} (h : Due ex r symbol d) : d.months ≤ r.today.months := by
  obtain ⟨f, hf⟩ := Option.isSome_iff_exists.mp h
  have hout := (Run.published_some.mp hf).2
  apply Date.months_le
  rw [Run.moment] at hout
  split at hout <;> omega

/-- A first pass that is answered misses nothing up to today. -/
theorem filled_of_answered (hall : ∀ n, r.failed n = false) {st : Refreshing}
    (h : Healthy ex r symbol st.table) :
    ∃ k started, Filled ex r symbol st.table k started false
        (fillForward ex r symbol (forwardMonths r symbol st.table) st).table ∧
      r.today.months < k := by
  obtain ⟨started, missed, hfilled, hmissed⟩ := (filled_start h).fillForward
    (forwardMonths_range st.table) (forward_of_answered hall _ _ _ _)
  have hlength : (forwardMonths r symbol st.table).length = _ := forwardMonths_length st.table
  rw [hmissed hall] at hfilled
  exact ⟨_, started, hfilled, by omega⟩

theorem stored_of_filled (hall : ∀ n, r.failed n = false) {st : Refreshing}
    (h : Healthy ex r symbol st.table) {lo d : Date}
    (hlo : Stored (fillForward ex r symbol (forwardMonths r symbol st.table) st).table symbol lo)
    (hdue : Due ex r symbol d) (hle : lo.months ≤ d.months) :
    Stored (fillForward ex r symbol (forwardMonths r symbol st.table) st).table symbol d := by
  obtain ⟨k, _, hfilled, hk⟩ := filled_of_answered hall h
  have hd := hdue.months_le
  exact hfilled.upTo rfl lo d hlo hdue hle (by omega)

/-- A first pass that is answered stores everything in its months. -/
theorem stored_of_forwardMonths (hall : ∀ n, r.failed n = false) {months : List Date}
    {st : Refreshing} {d : Date} (hmem : d.months ∈ months.map Date.months)
    (hdue : Due ex r symbol d) :
    Stored (fillForward ex r symbol months st).table symbol d := by
  induction months generalizing st with
  | nil => simp at hmem
  | cons month months ih =>
    by_cases hd : d.months = month.months
    · have hask := (fetched_ask ex symbol month (hall st.requests) d).mpr (.inr ⟨hd, hdue⟩)
      show Stored (fillForward ex r symbol months (ask ex r symbol month st)).table symbol d
      exact stored_fillForward.1 hask
    · exact ih (by simpa [hd] using hmem)

theorem stored_of_startsAt (hall : ∀ n, r.failed n = false) {st : Refreshing} {d : Date}
    (h : StartsAt ex r symbol st.table d) :
    Stored (fillForward ex r symbol (forwardMonths r symbol st.table) st).table symbol d := by
  rcases h with hold | ⟨hnone, hdue, hle⟩
  · exact stored_fillForward.1 hold
  · refine stored_of_forwardMonths hall (mem_forwardMonths.mpr ⟨?_, hdue.months_le⟩) hdue
    cases hlast : lastDay st.table symbol with
    | none => exact hle
    | some last => exact absurd (lastDay_some hlast).1 (hnone last)

/-- One refresh of the symbol in which everything is answered. -/
theorem refreshSymbol_heals (hall : ∀ n, r.failed n = false) (hext : r.extend = true)
    {st : Refreshing} (h : Healthy ex r symbol st.table) (hres : Resumes ex r symbol st.table)
    {d : Date} (hdue : Due ex r symbol d) (hlow : r.horizon.months ≤ d.months) :
    Stored (refreshSymbol ex r symbol st).table symbol d := by
  by_cases hlo : ∃ lo, Stored (fillForward ex r symbol (forwardMonths r symbol st.table) st).table
      symbol lo ∧ lo.months ≤ d.months
  · obtain ⟨lo, hlo, hle⟩ := hlo
    exact stored_walkBack (stored_of_filled hall h hlo hdue hle)
  · push Not at hlo
    -- a month without trades after this day would lie after a day already stored
    have htraded : ∀ m, d.months < m → m ≤ r.today.months →
        (∀ x, Stored (fillForward ex r symbol (forwardMonths r symbol st.table) st).table symbol x →
          m ≤ x.months) → ∃ x, Due ex r symbol x ∧ x.months = m := by
      intro m hlt hm hleast
      by_contra hnone
      push Not at hnone
      obtain ⟨x, hx, hxm⟩ := hres d m hdue hlow hlt hm hnone
      have hle := hleast x (stored_of_startsAt hall hx)
      omega
    simp only [refreshSymbol]
    cases hfirst : (firstDay st.table symbol).or (firstDay
        (fillForward ex r symbol (forwardMonths r symbol st.table) st).table symbol) with
    | none =>
      have hnone : ∀ x, ¬ Stored (fillForward ex r symbol (forwardMonths r symbol st.table)
          st).table symbol x := by
        rw [Option.or_eq_none_iff] at hfirst
        exact firstDay_none hfirst.2
      have htoday : ∃ x, Due ex r symbol x ∧ x.months = r.today.months := by
        by_cases hd : d.months = r.today.months
        · exact ⟨d, hdue, hd⟩
        · have hle := hdue.months_le
          exact htraded _ (by omega) le_rfl fun x hx => absurd hx (hnone x)
      obtain ⟨x, hx, hxm⟩ := htoday
      have hback : (monthsBack r.today firstFillMonths).months = r.today.months + 1 - 12 :=
        monthsBack_months _ _
      refine absurd (stored_of_startsAt hall (.inr ⟨fun y hy => ?_, hx, by omega⟩)) (hnone x)
      exact hnone y (stored_fillForward.1 hy)
    | some first =>
      obtain ⟨hstored, hmin⟩ := first_spec hfirst
      have hlt := hlo first hstored
      obtain ⟨hrange, hlength⟩ := backMonths_range hext first
      obtain ⟨f, hf⟩ := Option.isSome_iff_exists.mp hstored
      have hfirstDue : Due ex r symbol first := by
        obtain ⟨_, _, hfilled, _⟩ := filled_of_answered hall h
        exact Option.isSome_iff_exists.mpr ⟨f, hfilled.agrees first f hf⟩
      have htoday := hfirstDue.months_le
      refine stored_walkBack_of_due hall hrange hdue hlow (by omega) fun m hm hmhigh => ?_
      exact htraded m hm (by omega) fun x hx => by
        have hle := hmin x hx
        omega

/-- Where a month without trades lies before all the second pass starts from, a refresh
does not come past it. -/
theorem le_of_startsAt_refreshSymbol (hall : ∀ n, r.failed n = false) (hext : r.extend = true)
    {st : Refreshing} (h : Healthy ex r symbol st.table) {m : Nat}
    (hlow : r.horizon.months ≤ m) (hnone : ∀ x, Due ex r symbol x → x.months ≠ m)
    (hst : ∀ x, StartsAt ex r symbol st.table x → m ≤ x.months) :
    ∀ x, StartsAt ex r symbol (refreshSymbol ex r symbol st).table x → m ≤ x.months := by
  have hfilled : ∀ x, Stored (fillForward ex r symbol (forwardMonths r symbol st.table) st).table
      symbol x → m ≤ x.months := by
    intro x hx
    rcases stored_fillForward.2 hx with hold | ⟨hmem, hdue⟩
    · exact hst x (.inl hold)
    · have hstart := (mem_forwardMonths.mp hmem).1
      cases hlast : lastDay st.table symbol with
      | none =>
        rw [hlast, Option.getD_none] at hstart
        exact hst x (.inr ⟨lastDay_none hlast, hdue, hstart⟩)
      | some last =>
        have hle := hst last (.inl (lastDay_some hlast).1)
        rw [hlast, Option.getD_some] at hstart
        omega
  have hwalked : ∀ x, Stored (refreshSymbol ex r symbol st).table symbol x → m ≤ x.months := by
    simp only [refreshSymbol]
    cases hfirst : (firstDay st.table symbol).or (firstDay
        (fillForward ex r symbol (forwardMonths r symbol st.table) st).table symbol) with
    | none => exact hfilled
    | some first =>
      obtain ⟨hstored, _⟩ := first_spec hfirst
      obtain ⟨f, hf⟩ := Option.isSome_iff_exists.mp hstored
      obtain ⟨_, _, hinv, _⟩ := filled_of_answered hall h
      have hne := hnone first (Option.isSome_iff_exists.mpr ⟨f, hinv.agrees first f hf⟩)
      have hle := hfilled first hstored
      obtain ⟨hrange, hlength⟩ := backMonths_range hext first
      exact le_of_stored_walkBack hall hrange hnone hlow (by omega) hfilled
  rintro x (hx | ⟨hno, hdue, hle⟩)
  · exact hwalked x hx
  · exact hst x (.inr ⟨fun y hy => hno y (stored_refreshSymbol hy), hdue, hle⟩)

theorem stored_refreshSymbols {symbols : List String} {st : Refreshing} {d : Date}
    (h : Stored st.table symbol d) :
    Stored (symbols.foldl (fun st s => refreshSymbol ex r s st) st).table symbol d := by
  induction symbols generalizing st with
  | nil => exact h
  | cons s symbols ih =>
    apply ih
    by_cases hsym : s = symbol
    · subst hsym
      exact stored_refreshSymbol h
    · rwa [Stored, figures?_refreshSymbol_other ex r (Ne.symm hsym)]

theorem refreshSymbols_heals (hall : ∀ n, r.failed n = false) (hext : r.extend = true)
    {symbols : List String} (hmem : symbol ∈ symbols) (st : Refreshing)
    (h : Healthy ex r symbol st.table) (hres : Resumes ex r symbol st.table) {d : Date}
    (hdue : Due ex r symbol d) (hlow : r.horizon.months ≤ d.months) :
    Stored (symbols.foldl (fun st s => refreshSymbol ex r s st) st).table symbol d := by
  induction symbols generalizing st with
  | nil => simp at hmem
  | cons s symbols ih =>
    by_cases hsym : s = symbol
    · subst hsym
      rw [List.foldl_cons]
      exact stored_refreshSymbols (refreshSymbol_heals hall hext h hres hdue hlow)
    · have hsame := figures?_refreshSymbol_other ex r (Ne.symm hsym) st
      exact ih (by simpa [Ne.symm hsym] using hmem) _ (h.congr hsame) (hres.congr hsame)

theorem le_of_startsAt_refreshSymbols (hall : ∀ n, r.failed n = false) (hext : r.extend = true)
    (symbols : List String) (st : Refreshing) (h : Healthy ex r symbol st.table) {m : Nat}
    (hlow : r.horizon.months ≤ m) (hnone : ∀ x, Due ex r symbol x → x.months ≠ m)
    (hst : ∀ x, StartsAt ex r symbol st.table x → m ≤ x.months) :
    ∀ x, StartsAt ex r symbol
      (symbols.foldl (fun st s => refreshSymbol ex r s st) st).table x → m ≤ x.months := by
  induction symbols generalizing st with
  | nil => exact hst
  | cons s symbols ih =>
    by_cases hsym : s = symbol
    · subst hsym
      exact ih _ (h.refreshSymbol (unbroken_of_answered hall st))
        (le_of_startsAt_refreshSymbol hall hext h hlow hnone hst)
    · have hsame := figures?_refreshSymbol_other ex r (Ne.symm hsym) st
      exact ih _ (h.congr hsame) fun x hx => hst x ((startsAt_congr hsame x).mp hx)

theorem runUnbroken_of_answered (hall : ∀ n, r.failed n = false) (symbols : List String)
    (st : Refreshing) : RunUnbroken ex r symbol symbols st := by
  induction symbols generalizing st with
  | nil => trivial
  | cons s symbols ih => exact ⟨fun _ => unbroken_of_answered hall st, ih _⟩

/-- After runs that left no month with bars behind another, a run that extends and is
answered leaves the five years as the exchange has them exactly when its walk is not
stopped before their first month with trades. -/
theorem history_heals {s : Kept} (h : (refreshes ex).Reach (unbroken ex symbol) s)
    (hlater : s.moment ≤ r.moment) (hsym : symbol ∈ r.symbols) (hext : r.extend = true)
    (hall : ∀ n, r.failed n = false) :
    (∀ d, r.today.months < d.months + historyMonths →
      figures? (refreshTw ex r s.table).1 symbol d = r.published ex symbol d) ↔
      Resumes ex r symbol s.table := by
  have hhealthy := (whole_of_reach h).healthy hlater
  have hhorizon : r.horizon.months = r.today.months + 1 - historyMonths := monthsBack_months _ _
  constructor
  · intro hwhole d m hdue hlow hlt hm hnone
    by_contra hno
    push Not at hno
    have hle := le_of_startsAt_refreshSymbols hall hext r.symbols ⟨s.table, 0, 0⟩ hhealthy
      (by omega) hnone hno d
    have hd : Stored (refreshTw ex r s.table).1 symbol d := by
      rw [Stored, hwhole d (by omega)]
      exact hdue
    have hmd := hle (.inl hd)
    omega
  · intro hres d hd
    have hend := Healthy.refreshSymbols ⟨s.table, 0, 0⟩ hhealthy
      (runUnbroken_of_answered hall r.symbols _)
    cases hf : figures? (refreshTw ex r s.table).1 symbol d with
    | some f => exact (hend.agrees d f hf).symm
    | none =>
      by_contra hne
      have hdue : Due ex r symbol d := Option.isSome_iff_ne_none.mpr (Ne.symm hne)
      have hstored := refreshSymbols_heals hall hext hsym ⟨s.table, 0, 0⟩ hhealthy hres hdue
        (by omega)
      change (figures? (refreshTw ex r s.table).1 symbol d).isSome = true at hstored
      rw [hf] at hstored
      cases hstored

end

/-! A month that failed between two others -/

/-- A stock listed in August 2026, with one trading day a month. -/
def newlyListed : Exchange := fun symbol d =>
  if symbol = "2330" ∧ 2026 * 12 + 7 ≤ d.months ∧ d.day = 3 then some ⟨1, 1, 1, 1, 1000⟩ else none

/-- A run on the third of a month of 2026, and which of its requests fails. -/
def runIn (month : Nat) (hm : 1 ≤ month ∧ month ≤ 12) (fails : Option Nat) : Run where
  today := ⟨2026, month, 3, hm, by omega⟩
  symbols := ["2330"]
  exchanges := []
  extend := true
  closed := true
  failed := fun n => some n = fails

/-- Nothing stored yet. -/
def nothingKept : Kept := ⟨[], 0⟩

/-- The state after a run. -/
def Kept.after (ex : Exchange) (s : Kept) (r : Run) : Kept :=
  ⟨(refreshTw ex r s.table).1, r.moment⟩

theorem Kept.reach_after {ex : Exchange} {ok : Kept → Run → Prop} {s : Kept} {r : Run}
    (h : (refreshes ex).Reach ok s) (hok : ok s r) (hlater : s.moment ≤ r.moment) :
    (refreshes ex).Reach ok (s.after ex r) :=
  h.step hok ⟨hlater, rfl⟩

instance (ex : Exchange) (symbol : String) (s : Kept) (r : Run) :
    Decidable (unbroken ex symbol s r) :=
  inferInstanceAs (Decidable (RunUnbroken ex r symbol r.symbols ⟨s.table, 0, 0⟩))

def august : Run := runIn 8 (by omega) none

/-- The month asked last fails: the next run asks for it again. -/
def september : Run := runIn 9 (by omega) (some 1)

def october : Run := runIn 10 (by omega) none

/-- September fails between August and October. -/
def octoberOnly : Run := runIn 10 (by omega) (some 1)

theorem history_heals_october :
    (∀ d, october.today.months < d.months + historyMonths →
      figures? (refreshTw newlyListed october
        ((nothingKept.after newlyListed august).after newlyListed september).table).1 "2330" d =
          october.published newlyListed "2330" d) ↔
      Resumes newlyListed october "2330"
        ((nothingKept.after newlyListed august).after newlyListed september).table := by
  have hinit : (refreshes newlyListed).Reach (unbroken newlyListed "2330") nothingKept :=
    .init fun p hp => absurd hp (List.not_mem_nil)
  have haugust := Kept.reach_after (r := august) hinit (by decide) (by decide)
  have hseptember := Kept.reach_after (r := september) haugust (by decide +kernel) (by decide)
  exact history_heals hseptember (by decide) (by decide) rfl (fun n => rfl)

/-- Three runs, of which only the second has a failed request, lose September for good. -/
theorem month_not_healed :
    ¬ ∀ (ex : Exchange) (symbol : String) (s : Kept) (r : Run),
      (refreshes ex).Reach anyStep s → s.moment ≤ r.moment → symbol ∈ r.symbols →
      r.extend = true → (∀ n, r.failed n = false) →
      ∀ d, r.today.months < d.months + historyMonths →
        figures? (refreshTw ex r s.table).1 symbol d = r.published ex symbol d := by
  intro h
  have hinit : (refreshes newlyListed).Reach anyStep nothingKept :=
    .init fun p hp => absurd hp (List.not_mem_nil)
  have haugust := Kept.reach_after (r := august) hinit trivial (by decide)
  have hoctober := Kept.reach_after (r := octoberOnly) haugust trivial (by decide)
  have hlost := h newlyListed "2330" _ october hoctober (by decide) (by decide) rfl (fun n => rfl)
    ⟨2026, 9, 3, by omega⟩ (by decide)
  exact absurd hlost (by decide +kernel)

end Autora.Prices
