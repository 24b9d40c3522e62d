import Mathlib.Data.Finset.Sort
import Autora.Articles
import Autora.Lib.Loops
import Autora.Numerals

/-! The deterministic check of one claim against the quotes it is linked with. -/

namespace Autora.FactCheck

open Untyped Scans Newsroom Loops

structure QuoteFacts where
  evidenceId : Nat
  quote : Str
  supportType : SupportType
  intact : Bool
  trust : Rat
  sourceKey : Str
  dates : List Date
  deriving DecidableEq

inductive Problem (F : Type) where
  | broken (evidenceId : Nat)
  | noSupport
  | lowTrust (minTrust : Rat)
  | notStated (value : F)
  | contradicted (evidenceIds : List Nat)
  | noQuote
  deriving DecidableEq, Repr

inductive Note where
  | contradictionReported
  deriving DecidableEq, Repr

structure ClaimVerdict (F : Type) where
  claimId : Nat
  claimType : ClaimType
  passed : Bool := true
  problems : List (Problem F) := []
  notes : List Note := []
  deriving DecidableEq, Repr

/-- `CHECKED`. -/
def checkedKind (kind : ClaimType) : Bool := kind ∈ [.fact, .number, .quote]

section

variable {F : Type} (u : Characters) (floats : Floats F)

def ClaimVerdict.fail (verdict : ClaimVerdict F) (problem : Problem F) : ClaimVerdict F :=
  { verdict with passed := false, problems := verdict.problems ++ [problem] }

def ClaimVerdict.failAll (verdict : ClaimVerdict F) (problems : List (Problem F)) :
    ClaimVerdict F :=
  problems.foldl ClaimVerdict.fail verdict

def ClaimVerdict.note (verdict : ClaimVerdict F) (note : Note) : ClaimVerdict F :=
  { verdict with notes := verdict.notes ++ [note] }

def supporting (quotes : List QuoteFacts) : List QuoteFacts :=
  quotes.filter fun q => q.intact && q.supportType = .supports

def contradicting (quotes : List QuoteFacts) : List QuoteFacts :=
  quotes.filter fun q => q.intact && q.supportType = .contradicts

def supportProblems (minTrust : Rat) (supports : List QuoteFacts) : List (Problem F) :=
  if supports = [] then [.noSupport]
  else if (supports.filter fun q => minTrust ≤ q.trust) = [] ∧
      (supports.map QuoteFacts.sourceKey).dedup.length < 2 then [.lowTrust minTrust]
  else []

/-- A number of the claim and one of the quotes: equal in value, or rounded to its places. -/
def agrees (number : F × Nat) (n : F) : Bool :=
  floats.isclose number.1 n ||
    (number.2 ≠ 0 && floats.isclose (floats.round n number.2) number.1)

def numberProblems (text : Str) (supports : List QuoteFacts) :
    Except Error (List (Problem F)) := do
  let quoted ← supports.mapM fun q => quoteNumbers u floats q.quote
  let dateParts := claimDateParts u floats text
  let dates ← dated floats (supports.flatMap QuoteFacts.dates)
  let missing := (claimNumbers u floats text).filter fun number =>
    !(quoted.flatten.any (agrees floats number) ||
      (dateParts.any (floats.eq number.1) && dates.any (floats.eq number.1)))
  pure (missing.map fun number => .notStated number.1)

/-- The ids are sorted. -/
def contradictionProblems (contradicts : List QuoteFacts) : List (Problem F) :=
  if contradicts = [] then []
  else [.contradicted ((contradicts.map QuoteFacts.evidenceId).toFinset.sort (· ≤ ·))]

/-- Only the numbers of a claim of their kind are compared. -/
def numberStep (kind : ClaimType) (text : Str) (supports : List QuoteFacts) :
    Except Error (List (Problem F)) :=
  if kind = .number then numberProblems u floats text supports else .ok []

def checkClaim (claimId : Nat) (kind : ClaimType) (text : Str) (quotes : List QuoteFacts)
    (minTrust : Rat) : Except Error (ClaimVerdict F) := do
  let verdict : ClaimVerdict F := ⟨claimId, kind, true, [], []⟩
  let broken := quotes.filter fun q => !q.intact
  let verdict := verdict.failAll (broken.map fun q => .broken q.evidenceId)
  let supports := supporting quotes
  let contradicts := contradicting quotes
  if checkedKind kind then
    let verdict := verdict.failAll (supportProblems minTrust supports)
    let numbers ← numberStep u floats kind text supports
    let verdict := verdict.failAll numbers
    .ok (verdict.failAll (contradictionProblems contradicts))
  else
    let verdict :=
      if contradicts = [] then verdict else verdict.note .contradictionReported
    .ok (if kind = .attribution ∧ quotes = [] then verdict.fail .noQuote else verdict)

end

variable {F : Type} {u : Characters} {floats : Floats F} {claimId : Nat} {kind : ClaimType}
  {text : Str} {quotes quotes' : List QuoteFacts} {minTrust : Rat}

/-- A verdict with these problems. -/
def judged (claimId : Nat) (kind : ClaimType) (problems : List (Problem F)) (notes : List Note) :
    ClaimVerdict F := ⟨claimId, kind, problems.isEmpty, problems, notes⟩

theorem fail_judged {problems : List (Problem F)} {notes : List Note} (p : Problem F) :
    (judged claimId kind problems notes).fail p =
      judged claimId kind (problems ++ [p]) notes := by
  rw [judged, judged, ClaimVerdict.fail]
  congr 1
  cases problems <;> rfl

theorem failAll_judged {problems : List (Problem F)} {notes : List Note}
    (more : List (Problem F)) : (judged claimId kind problems notes).failAll more =
      judged claimId kind (problems ++ more) notes := by
  induction more generalizing problems with
  | nil =>
    rw [List.append_nil]
    rfl
  | cons p more ih =>
    rw [ClaimVerdict.failAll, List.foldl_cons, fail_judged]
    have h := @ih (problems ++ [p])
    rw [ClaimVerdict.failAll, List.append_assoc, List.singleton_append] at h
    exact h

def brokenProblems (quotes : List QuoteFacts) : List (Problem F) :=
  (quotes.filter fun q => !q.intact).map fun q => .broken q.evidenceId

theorem checkClaim_checked (h : checkedKind kind = true) :
    checkClaim u floats claimId kind text quotes minTrust =
      numberStep u floats kind text (supporting quotes) >>= fun numbers => .ok (judged claimId kind
        (brokenProblems quotes ++ supportProblems minTrust (supporting quotes) ++ numbers ++
          contradictionProblems (contradicting quotes)) []) := by
  have hstart : (⟨claimId, kind, true, [], []⟩ : ClaimVerdict F) = judged claimId kind [] [] := rfl
  unfold checkClaim
  dsimp only
  rw [if_pos h, hstart]
  simp only [failAll_judged, List.nil_append]
  rfl

def otherProblems (kind : ClaimType) (quotes : List QuoteFacts) : List (Problem F) :=
  if kind = .attribution ∧ quotes = [] then [.noQuote] else []

def otherNotes (quotes : List QuoteFacts) : List Note :=
  if contradicting quotes = [] then [] else [.contradictionReported]

theorem checkClaim_other (h : checkedKind kind = false) :
    checkClaim u floats claimId kind text quotes minTrust = .ok (judged claimId kind
      (brokenProblems quotes ++ otherProblems kind quotes) (otherNotes quotes)) := by
  have hstart : (⟨claimId, kind, true, [], []⟩ : ClaimVerdict F) = judged claimId kind [] [] := rfl
  unfold checkClaim
  dsimp only
  rw [if_neg (by rw [h]; exact Bool.false_ne_true), hstart, failAll_judged, List.nil_append]
  have hbroken : (quotes.filter fun q => !q.intact).map (fun q => Problem.broken q.evidenceId) =
      (brokenProblems quotes : List (Problem F)) := rfl
  have hnotes : (if contradicting quotes = [] then
      judged claimId kind (brokenProblems quotes : List (Problem F)) []
      else (judged claimId kind (brokenProblems quotes) []).note .contradictionReported) =
      judged claimId kind (brokenProblems quotes) (otherNotes quotes) := by
    rw [otherNotes]
    split <;> rfl
  rw [hbroken, hnotes, otherProblems]
  split
  · rw [fail_judged]
  · rw [List.append_nil]

/-! What a verdict says. -/

def Passes (r : Except Error (ClaimVerdict F)) : Prop := ∃ v, r = .ok v ∧ v.passed = true

def Fails (r : Except Error (ClaimVerdict F)) : Prop := ∃ v, r = .ok v ∧ v.passed = false

/-- The same verdict, its problems in another order. -/
def SameVerdict : Except Error (ClaimVerdict F) → Except Error (ClaimVerdict F) → Prop
  | .ok v, .ok v' => v.passed = v'.passed ∧ v.problems.Perm v'.problems ∧ v.notes = v'.notes
  | .error _, .error _ => True
  | _, _ => False

/-- The words of the quote are read, and its dates have a day before them. -/
def Readable (u : Characters) (q : QuoteFacts) : Prop :=
  AsciiWords u q.quote ∧ Date.min ∉ q.dates

/-- A number of the claim is one that an intact supporting quote states, or a part of a date that
the claim names and the quote's source was published or retrieved on. -/
def Stated (u : Characters) (floats : Floats F) (text : Str) (quotes : List QuoteFacts)
    (number : F × Nat) : Prop :=
  ∃ q ∈ supporting quotes,
    (∃ ns, quoteNumbers u floats q.quote = .ok ns ∧ ns.any (agrees floats number) = true) ∨
    ((claimDateParts u floats text).any (floats.eq number.1) = true ∧
      ∃ ds, dated floats q.dates = .ok ds ∧ ds.any (floats.eq number.1) = true)

/-! What decides each of the problems. -/

theorem mem_supporting {q : QuoteFacts} :
    q ∈ supporting quotes ↔ q ∈ quotes ∧ q.intact = true ∧ q.supportType = .supports := by
  rw [supporting, List.mem_filter, Bool.and_eq_true, decide_eq_true_iff]

theorem mem_contradicting {q : QuoteFacts} :
    q ∈ contradicting quotes ↔ q ∈ quotes ∧ q.intact = true ∧ q.supportType = .contradicts := by
  rw [contradicting, List.mem_filter, Bool.and_eq_true, decide_eq_true_iff]

theorem brokenProblems_nil :
    (brokenProblems quotes : List (Problem F)) = [] ↔ ∀ q ∈ quotes, q.intact = true := by
  rw [brokenProblems, List.map_eq_nil_iff, List.filter_eq_nil_iff]
  simp

theorem contradictionProblems_nil :
    (contradictionProblems (contradicting quotes) : List (Problem F)) = [] ↔
      ∀ q ∈ quotes, q.intact = true → q.supportType ≠ .contradicts := by
  have h : contradicting quotes = [] ↔
      ∀ q ∈ quotes, q.intact = true → q.supportType ≠ .contradicts := by
    rw [List.eq_nil_iff_forall_not_mem]
    simp only [mem_contradicting, not_and]
  rw [← h, contradictionProblems]
  split
  · next he => simp [he]
  · next hne => simp [hne]

/-- One source is trusted, or two are independent. -/
def Backed (minTrust : Rat) (supports : List QuoteFacts) : Prop :=
  (∃ q ∈ supports, minTrust ≤ q.trust) ∨
    ∃ q ∈ supports, ∃ q' ∈ supports, q.sourceKey ≠ q'.sourceKey

theorem two_keys {keys : List Str} : 2 ≤ keys.dedup.length ↔ ∃ a ∈ keys, ∃ b ∈ keys, a ≠ b := by
  constructor
  · intro h
    match hd : keys.dedup, h with
    | a :: b :: rest, _ =>
      have hnd := hd ▸ List.nodup_dedup keys
      have ha : a ∈ keys := List.mem_dedup.mp (hd ▸ List.mem_cons_self)
      have hb : b ∈ keys := List.mem_dedup.mp (hd ▸ List.mem_cons_of_mem a List.mem_cons_self)
      refine ⟨a, ha, b, hb, ?_⟩
      rintro rfl
      exact (List.nodup_cons.mp hnd).1 List.mem_cons_self
  · rintro ⟨a, ha, b, hb, hne⟩
    by_contra hlt
    match hd : keys.dedup with
    | [] => cases hd ▸ List.mem_dedup.mpr ha
    | [c] =>
      have hac := List.mem_singleton.mp (hd ▸ List.mem_dedup.mpr ha)
      have hbc := List.mem_singleton.mp (hd ▸ List.mem_dedup.mpr hb)
      exact hne (hac.trans hbc.symm)
    | _ :: _ :: _ =>
      rw [hd] at hlt
      simp at hlt

theorem supportProblems_nil {supports : List QuoteFacts} :
    (supportProblems minTrust supports : List (Problem F)) = [] ↔
      supports ≠ [] ∧ Backed minTrust supports := by
  have htrusted : (supports.filter fun q => decide (minTrust ≤ q.trust)) = [] ↔
      ¬ ∃ q ∈ supports, minTrust ≤ q.trust := by
    rw [List.filter_eq_nil_iff]
    simp
  have hkeys : (supports.map QuoteFacts.sourceKey).dedup.length < 2 ↔
      ¬ ∃ q ∈ supports, ∃ q' ∈ supports, q.sourceKey ≠ q'.sourceKey := by
    rw [← Nat.not_le, two_keys]
    simp only [List.mem_map, exists_exists_and_eq_and]
  unfold supportProblems
  split
  · next h => simp [h]
  · next h =>
    have hboth := and_congr htrusted hkeys
    rw [← not_or] at hboth
    split
    · next hn => exact iff_of_false (List.cons_ne_nil _ _) fun hh => hboth.mp hn hh.2
    · next hn => exact iff_of_true rfl ⟨h, not_not.mp fun hb => hn (hboth.mpr hb)⟩

/-- What the quotes give together is what each of them gives. -/
theorem any_flatten_mapM {α β : Type} {f : α → Except Error (List β)} {p : β → Bool} {xs : List α}
    {out : List (List β)} (h : xs.mapM f = .ok out) :
    out.flatten.any p = true ↔ ∃ x ∈ xs, ∃ bs, f x = .ok bs ∧ bs.any p = true := by
  simp only [List.any_eq_true, mem_flatten_mapM h]
  constructor
  · rintro ⟨b, ⟨x, hx, bs, hbs, hb⟩, hp⟩
    exact ⟨x, hx, bs, hbs, b, hb, hp⟩
  · rintro ⟨x, hx, bs, hbs, b, hb, hp⟩
    exact ⟨b, ⟨x, hx, bs, hbs, hb⟩, hp⟩

theorem any_dated {dates : List Date} {ds : List F} {p : F → Bool}
    (h : dated floats dates = .ok ds) : ds.any p = true ↔
      ∃ d ∈ dates, ∃ b, d.yesterday = .ok b ∧
        (d.parts ++ b.parts).any (fun n => p (floats.ofNat n)) = true := by
  unfold dated at h
  obtain ⟨days, hdays, he⟩ := bind_ok_iff.mp h
  cases he
  rw [List.any_map, any_flatten_mapM hdays]
  refine exists_congr fun d => and_congr_right fun _ => ?_
  constructor
  · rintro ⟨bs, hb, hany⟩
    obtain ⟨b, hy, hbs⟩ := bind_ok_iff.mp hb
    cases hbs
    exact ⟨b, hy, hany⟩
  · rintro ⟨b, hy, hany⟩
    exact ⟨_, bind_ok_iff.mpr ⟨b, hy, rfl⟩, hany⟩

theorem succeeds_numberProblems (floats : Floats F) (text : Str) {supports : List QuoteFacts} :
    Succeeds (numberProblems u floats text supports) ↔ ∀ q ∈ supports, Readable u q := by
  unfold numberProblems
  dsimp only
  rw [succeeds_bind_iff fun quoted _ => succeeds_bind_pure, succeeds_mapM, succeeds_dated]
  constructor
  · rintro ⟨hq, hd⟩ q hs
    exact ⟨succeeds_quoteNumbers.mp (hq q hs), fun hm => hd (List.mem_flatMap.mpr ⟨q, hs, hm⟩)⟩
  · intro h
    refine ⟨fun q hs => succeeds_quoteNumbers.mpr (h q hs).1, fun hm => ?_⟩
    obtain ⟨q, hs, hq⟩ := List.mem_flatMap.mp hm
    exact (h q hs).2 hq

/-- The dates of the quotes together are those of each of them. -/
theorem any_dates {supports : List QuoteFacts} {ds : List F} {p : F → Bool}
    (h : dated floats (supports.flatMap QuoteFacts.dates) = .ok ds) : ds.any p = true ↔
      ∃ q ∈ supports, ∃ ds, dated floats q.dates = .ok ds ∧ ds.any p = true := by
  have hmin := (succeeds_dated floats).mp ⟨ds, h⟩
  rw [any_dated h]
  constructor
  · rintro ⟨d, hd, hany⟩
    obtain ⟨q, hq, hdq⟩ := List.mem_flatMap.mp hd
    have hone : Date.min ∉ q.dates := fun hm => hmin (List.mem_flatMap.mpr ⟨q, hq, hm⟩)
    obtain ⟨own, hown⟩ := (succeeds_dated floats).mpr hone
    exact ⟨q, hq, own, hown, (any_dated hown).mpr ⟨d, hdq, hany⟩⟩
  · rintro ⟨q, hq, own, hown, hany⟩
    obtain ⟨d, hdq, hd⟩ := (any_dated hown).mp hany
    exact ⟨d, List.mem_flatMap.mpr ⟨q, hq, hdq⟩, hd⟩

/-- The problems are the numbers that no quote states. -/
theorem numberProblems_spec {problems : List (Problem F)}
    (h : numberProblems u floats text (supporting quotes) = .ok problems) :
    ∃ stated : F × Nat → Bool, (∀ v, stated v = true ↔ Stated u floats text quotes v) ∧
      problems = ((claimNumbers u floats text).filter fun v => !stated v).map fun v =>
        .notStated v.1 := by
  unfold numberProblems at h
  obtain ⟨quoted, hq, h⟩ := bind_ok_iff.mp h
  obtain ⟨ds, hds, h⟩ := bind_ok_iff.mp h
  cases h
  refine ⟨_, fun v => ?_, rfl⟩
  rw [Bool.or_eq_true, Bool.and_eq_true, any_flatten_mapM hq, any_dates hds]
  constructor
  · rintro (⟨q, hqs, hn⟩ | ⟨hparts, q, hqs, hd⟩)
    · exact ⟨q, hqs, Or.inl hn⟩
    · exact ⟨q, hqs, Or.inr ⟨hparts, hd⟩⟩
  · rintro ⟨q, hqs, hn | ⟨hparts, hd⟩⟩
    · exact Or.inl ⟨q, hqs, hn⟩
    · exact Or.inr ⟨hparts, q, hqs, hd⟩

theorem numberProblems_nil {problems : List (Problem F)}
    (h : numberProblems u floats text (supporting quotes) = .ok problems) :
    problems = [] ↔ ∀ v ∈ claimNumbers u floats text, Stated u floats text quotes v := by
  obtain ⟨stated, hstated, rfl⟩ := numberProblems_spec h
  rw [List.map_eq_nil_iff, List.filter_eq_nil_iff]
  refine forall₂_congr fun v _ => ?_
  rw [← hstated]
  simp

/-! When a check passes. -/

/-- What the numbers of a claim need. -/
def NumbersStated (u : Characters) (floats : Floats F) (text : Str)
    (quotes : List QuoteFacts) : Prop :=
  (∀ q ∈ supporting quotes, Readable u q) ∧
    ∀ v ∈ claimNumbers u floats text, Stated u floats text quotes v

theorem succeeds_checkClaim : Succeeds (checkClaim u floats claimId kind text quotes minTrust) ↔
    (kind = .number → ∀ q ∈ supporting quotes, Readable u q) := by
  cases hk : checkedKind kind with
  | false =>
    rw [checkClaim_other hk]
    refine iff_of_true ⟨_, rfl⟩ ?_
    rintro rfl
    cases hk
  | true =>
    rw [checkClaim_checked hk, numberStep]
    split
    · next hn =>
      rw [← succeeds_numberProblems floats text]
      rw [imp_iff_right hn]
      exact succeeds_bind_pure
    · next hn => exact iff_of_true ⟨_, rfl⟩ fun h => absurd h hn

theorem passes_checked (hk : checkedKind kind = true) :
    Passes (checkClaim u floats claimId kind text quotes minTrust) ↔
      (∀ q ∈ quotes, q.intact = true) ∧
      (∀ q ∈ quotes, q.intact = true → q.supportType ≠ .contradicts) ∧
      supporting quotes ≠ [] ∧ Backed minTrust (supporting quotes) ∧
      (kind = .number → NumbersStated u floats text quotes) := by
  rw [checkClaim_checked hk, Passes]
  have hempty : ∀ numbers : List (Problem F),
      (judged claimId kind (brokenProblems quotes ++
        supportProblems minTrust (supporting quotes) ++ numbers ++
          contradictionProblems (contradicting quotes)) []).passed = true ↔
      (∀ q ∈ quotes, q.intact = true) ∧
      (∀ q ∈ quotes, q.intact = true → q.supportType ≠ .contradicts) ∧
      supporting quotes ≠ [] ∧ Backed minTrust (supporting quotes) ∧ numbers = [] := by
    intro numbers
    rw [judged]
    dsimp only
    rw [List.isEmpty_iff, List.append_eq_nil_iff, List.append_eq_nil_iff, List.append_eq_nil_iff,
      brokenProblems_nil, contradictionProblems_nil, supportProblems_nil]
    tauto
  rw [numberStep]
  split
  · next hn =>
    constructor
    · rintro ⟨v, hv, hp⟩
      obtain ⟨numbers, hnum, he⟩ := bind_ok_iff.mp hv
      cases he
      obtain ⟨h1, h2, h3, h4, h5⟩ := (hempty numbers).mp hp
      have hread := (succeeds_numberProblems floats text).mp ⟨numbers, hnum⟩
      exact ⟨h1, h2, h3, h4, fun _ => ⟨hread, (numberProblems_nil hnum).mp h5⟩⟩
    · rintro ⟨h1, h2, h3, h4, h5⟩
      obtain ⟨hread, hstated⟩ := h5 hn
      obtain ⟨numbers, hnum⟩ := (succeeds_numberProblems floats text).mpr hread
      exact ⟨_, bind_ok_iff.mpr ⟨numbers, hnum, rfl⟩, (hempty numbers).mpr
        ⟨h1, h2, h3, h4, (numberProblems_nil hnum).mpr hstated⟩⟩
  · next hn =>
    constructor
    · rintro ⟨v, hv, hp⟩
      cases hv
      obtain ⟨h1, h2, h3, h4, -⟩ := (hempty []).mp hp
      exact ⟨h1, h2, h3, h4, fun h => absurd h hn⟩
    · rintro ⟨h1, h2, h3, h4, -⟩
      exact ⟨_, rfl, (hempty []).mpr ⟨h1, h2, h3, h4, rfl⟩⟩

theorem passes_other (hk : checkedKind kind = false) :
    Passes (checkClaim u floats claimId kind text quotes minTrust) ↔
      (∀ q ∈ quotes, q.intact = true) ∧ (kind = .attribution → quotes ≠ []) := by
  have hother : (otherProblems kind quotes : List (Problem F)) = [] ↔
      (kind = .attribution → quotes ≠ []) := by
    rw [otherProblems]
    split
    · next h => exact iff_of_false (List.cons_ne_nil _ _) fun hh => hh h.1 h.2
    · next h => exact iff_of_true rfl fun h1 h2 => h ⟨h1, h2⟩
  rw [checkClaim_other hk, Passes]
  constructor
  · rintro ⟨v, hv, hp⟩
    cases hv
    rw [judged] at hp
    dsimp only at hp
    rw [List.isEmpty_iff, List.append_eq_nil_iff, brokenProblems_nil, hother] at hp
    exact hp
  · intro h
    refine ⟨_, rfl, ?_⟩
    rw [judged]
    dsimp only
    rw [List.isEmpty_iff, List.append_eq_nil_iff, brokenProblems_nil, hother]
    exact h

theorem fails_iff : Fails (checkClaim u floats claimId kind text quotes minTrust) ↔
    Succeeds (checkClaim u floats claimId kind text quotes minTrust) ∧
      ¬ Passes (checkClaim u floats claimId kind text quotes minTrust) := by
  constructor
  · rintro ⟨v, hv, hp⟩
    refine ⟨⟨v, hv⟩, ?_⟩
    rintro ⟨v', hv', hp'⟩
    rw [hv] at hv'
    cases hv'
    rw [hp] at hp'
    cases hp'
  · rintro ⟨⟨v, hv⟩, hp⟩
    refine ⟨v, hv, ?_⟩
    cases hv' : v.passed with
    | false => rfl
    | true => exact absurd ⟨v, hv, hv'⟩ hp

/-! The order of the quotes. -/

theorem perm_nil_iff {α : Type} {xs ys : List α} (h : xs.Perm ys) : xs = [] ↔ ys = [] := by
  constructor
  · rintro rfl
    exact h.nil_eq.symm
  · rintro rfl
    exact h.eq_nil

theorem supportProblems_perm {supports supports' : List QuoteFacts}
    (h : supports.Perm supports') :
    (supportProblems minTrust supports : List (Problem F)) =
      supportProblems minTrust supports' := by
  have hkeys := ((h.map QuoteFacts.sourceKey).dedup).length_eq
  have htrusted := perm_nil_iff (h.filter fun q => decide (minTrust ≤ q.trust))
  unfold supportProblems
  rw [hkeys]
  exact if_congr (perm_nil_iff h) rfl (if_congr (and_congr_left' htrusted) rfl rfl)

theorem contradictionProblems_perm {contradicts contradicts' : List QuoteFacts}
    (h : contradicts.Perm contradicts') :
    (contradictionProblems contradicts : List (Problem F)) =
      contradictionProblems contradicts' := by
  unfold contradictionProblems
  rw [List.toFinset_eq_of_perm _ _ (h.map QuoteFacts.evidenceId)]
  exact if_congr (perm_nil_iff h) rfl rfl

theorem stated_perm (h : quotes.Perm quotes') (v : F × Nat) :
    Stated u floats text quotes v ↔ Stated u floats text quotes' v := by
  have hs : (supporting quotes).Perm (supporting quotes') := h.filter _
  exact exists_congr fun q => and_congr_left' hs.mem_iff

theorem numberProblems_perm (h : quotes.Perm quotes') {problems : List (Problem F)}
    (hp : numberProblems u floats text (supporting quotes) = .ok problems) :
    numberProblems u floats text (supporting quotes') = .ok problems := by
  have hs : (supporting quotes).Perm (supporting quotes') := h.filter _
  have hread := (succeeds_numberProblems floats text).mp ⟨problems, hp⟩
  obtain ⟨problems', hp'⟩ := (succeeds_numberProblems floats text).mpr
    fun q hq => hread q (hs.mem_iff.mpr hq)
  obtain ⟨stated, hstated, rfl⟩ := numberProblems_spec hp
  obtain ⟨stated', hstated', rfl⟩ := numberProblems_spec hp'
  have hsame : stated' = stated := by
    funext v
    rw [Bool.eq_iff_iff, hstated, hstated', stated_perm h]
  rw [hp', hsame]

theorem numberStep_perm (h : quotes.Perm quotes') :
    (∃ problems, numberStep u floats kind text (supporting quotes) = .ok problems ∧
      numberStep u floats kind text (supporting quotes') = .ok problems) ∨
    (∃ e, numberStep u floats kind text (supporting quotes) = .error e) ∧
      ∃ e, numberStep u floats kind text (supporting quotes') = .error e := by
  unfold numberStep
  split
  · cases hp : numberProblems u floats text (supporting quotes) with
    | ok problems => exact Or.inl ⟨problems, rfl, numberProblems_perm h hp⟩
    | error e =>
      cases hp' : numberProblems u floats text (supporting quotes') with
      | error e' => exact Or.inr ⟨⟨e, rfl⟩, e', rfl⟩
      | ok problems =>
        rw [numberProblems_perm h.symm hp'] at hp
        cases hp
  · exact Or.inl ⟨[], rfl, rfl⟩

theorem sameVerdict_of_perm (h : quotes.Perm quotes') :
    SameVerdict (checkClaim u floats claimId kind text quotes minTrust)
      (checkClaim u floats claimId kind text quotes' minTrust) := by
  have hs : (supporting quotes).Perm (supporting quotes') := h.filter _
  have hc : (contradicting quotes).Perm (contradicting quotes') := h.filter _
  have hb : (brokenProblems quotes : List (Problem F)).Perm (brokenProblems quotes') :=
    (h.filter _).map _
  have hempty : ∀ {xs ys : List (Problem F)}, xs.Perm ys → xs.isEmpty = ys.isEmpty := by
    intro xs ys hperm
    rw [Bool.eq_iff_iff, List.isEmpty_iff, List.isEmpty_iff]
    exact perm_nil_iff hperm
  cases hk : checkedKind kind with
  | true =>
    rw [checkClaim_checked hk, checkClaim_checked hk]
    rcases @numberStep_perm F u floats kind text _ _ h with
      ⟨problems, hp, hp'⟩ | ⟨⟨e, he⟩, e', he'⟩
    · rw [hp, hp', supportProblems_perm hs, contradictionProblems_perm hc]
      have hperm := ((hb.append_right (supportProblems minTrust (supporting quotes'))).append_right
        problems).append_right (contradictionProblems (contradicting quotes'))
      exact ⟨hempty hperm, hperm, rfl⟩
    · rw [he, he']
      exact trivial
  | false =>
    have hother : (otherProblems kind quotes : List (Problem F)) = otherProblems kind quotes' :=
      if_congr (and_congr_right' (perm_nil_iff h)) rfl rfl
    have hnotes : otherNotes quotes = otherNotes quotes' := if_congr (perm_nil_iff hc) rfl rfl
    rw [checkClaim_other hk, checkClaim_other hk, hother, hnotes]
    have hperm := hb.append_right (otherProblems kind quotes')
    exact ⟨hempty hperm, hperm, rfl⟩

theorem passes_perm (h : quotes.Perm quotes') :
    Passes (checkClaim u floats claimId kind text quotes minTrust) →
      Passes (checkClaim u floats claimId kind text quotes' minTrust) := by
  rintro ⟨v, hv, hp⟩
  have hsame := @sameVerdict_of_perm F u floats claimId kind text _ _ minTrust h
  rw [hv] at hsame
  cases hv' : checkClaim u floats claimId kind text quotes' minTrust with
  | error e =>
    rw [hv'] at hsame
    exact hsame.elim
  | ok v' =>
    rw [hv'] at hsame
    exact ⟨v', rfl, hsame.1.symm.trans hp⟩

/-! More support, and less trust asked for. -/

theorem stated_cons {extra : QuoteFacts} {v : F × Nat} (h : Stated u floats text quotes v) :
    Stated u floats text (extra :: quotes) v := by
  obtain ⟨q, hq, hs⟩ := h
  obtain ⟨hm, hi⟩ := mem_supporting.mp hq
  exact ⟨q, mem_supporting.mpr ⟨List.mem_cons_of_mem extra hm, hi⟩, hs⟩

theorem backed_mono {m m' : Rat} {supports supports' : List QuoteFacts} (hm : m' ≤ m)
    (hs : ∀ q ∈ supports, q ∈ supports') (h : Backed m supports) : Backed m' supports' := by
  rcases h with ⟨q, hq, ht⟩ | ⟨q, hq, q', hq', hne⟩
  · exact Or.inl ⟨q, hs q hq, le_trans hm ht⟩
  · exact Or.inr ⟨q, hs q hq, q', hs q' hq', hne⟩

theorem passes_trust {m : Rat} (hm : m ≤ minTrust)
    (h : Passes (checkClaim u floats claimId kind text quotes minTrust)) :
    Passes (checkClaim u floats claimId kind text quotes m) := by
  cases hk : checkedKind kind with
  | true =>
    rw [passes_checked hk] at h ⊢
    exact ⟨h.1, h.2.1, h.2.2.1, backed_mono hm (fun _ hq => hq) h.2.2.2.1, h.2.2.2.2⟩
  | false =>
    rw [passes_other hk] at h ⊢
    exact h

variable {extra : QuoteFacts}

/-- An intact supporting quote that can be read takes no pass away. -/
theorem passes_cons (hi : extra.intact = true) (hs : extra.supportType = .supports)
    (hr : kind = .number → Readable u extra)
    (h : Passes (checkClaim u floats claimId kind text quotes minTrust)) :
    Passes (checkClaim u floats claimId kind text (extra :: quotes) minTrust) := by
  have hsub : ∀ q ∈ supporting quotes, q ∈ supporting (extra :: quotes) := by
    intro q hq
    obtain ⟨hm, hrest⟩ := mem_supporting.mp hq
    exact mem_supporting.mpr ⟨List.mem_cons_of_mem extra hm, hrest⟩
  cases hk : checkedKind kind with
  | true =>
    rw [passes_checked hk] at h ⊢
    obtain ⟨h1, h2, h3, h4, h5⟩ := h
    refine ⟨List.forall_mem_cons.mpr ⟨hi, h1⟩, ?_, ?_, backed_mono (le_refl _) hsub h4, ?_⟩
    · refine List.forall_mem_cons.mpr ⟨fun _ hc => ?_, h2⟩
      rw [hs] at hc
      cases hc
    · have hmem : extra ∈ supporting (extra :: quotes) :=
        mem_supporting.mpr ⟨List.mem_cons_self, hi, hs⟩
      exact List.ne_nil_of_mem hmem
    · intro hn
      obtain ⟨hread, hstated⟩ := h5 hn
      refine ⟨fun q hq => ?_, fun v hv => stated_cons (hstated v hv)⟩
      obtain ⟨hm, hrest⟩ := mem_supporting.mp hq
      rcases List.mem_cons.mp hm with rfl | hm
      · exact hr hn
      · exact hread q (mem_supporting.mpr ⟨hm, hrest⟩)
  | false =>
    rw [passes_other hk] at h ⊢
    exact ⟨List.forall_mem_cons.mpr ⟨hi, h.1⟩, fun _ => List.cons_ne_nil _ _⟩

/-- What the check promises of these quotes, of any claim they are linked with and of one more
quote. -/
structure WellBehaved (u : Characters) (floats : Floats F) (quotes : List QuoteFacts)
    (extra : QuoteFacts) : Prop where
  orderFree : ∀ claimId kind text minTrust quotes', quotes'.Perm quotes →
    SameVerdict (checkClaim u floats claimId kind text quotes' minTrust)
      (checkClaim u floats claimId kind text quotes minTrust)
  supported : ∀ claimId kind text minTrust quotes', quotes'.Perm (extra :: quotes) →
    Passes (checkClaim u floats claimId kind text quotes minTrust) →
      Passes (checkClaim u floats claimId kind text quotes' minTrust)
  trusting : ∀ claimId kind text minTrust m, m ≤ minTrust →
    Passes (checkClaim u floats claimId kind text quotes minTrust) →
      Passes (checkClaim u floats claimId kind text quotes m)
  broken : ∀ claimId kind text minTrust, ∀ q ∈ quotes, q.intact = false →
    Fails (checkClaim u floats claimId kind text quotes minTrust)
  contradicted : ∀ claimId kind text minTrust, checkedKind kind = true →
    ∀ q ∈ quotes, q.intact = true → q.supportType = .contradicts →
      Fails (checkClaim u floats claimId kind text quotes minTrust)
  stated : ∀ claimId text minTrust,
    Passes (checkClaim u floats claimId .number text quotes minTrust) →
      ∀ v ∈ claimNumbers u floats text, Stated u floats text quotes v

/-- No quote is broken, and none contradicts. -/
def Clean (quotes : List QuoteFacts) : Prop :=
  ∀ q ∈ quotes, q.intact = true ∧ q.supportType ≠ .contradicts

theorem readable_of_fails
    (h : Fails (checkClaim u floats claimId .number text quotes minTrust)) :
    ∀ q ∈ supporting quotes, Readable u q :=
  succeeds_checkClaim.mp (fails_iff.mp h).1 rfl

theorem fails_checked (hk : checkedKind kind = true) (hc : ¬ Clean quotes)
    (hr : ∀ q ∈ supporting quotes, Readable u q) :
    Fails (checkClaim u floats claimId kind text quotes minTrust) := by
  refine fails_iff.mpr ⟨succeeds_checkClaim.mpr fun _ => hr, fun hp => hc fun q hq => ?_⟩
  obtain ⟨h1, h2, -⟩ := (passes_checked hk).mp hp
  exact ⟨h1 q hq, h2 q hq (h1 q hq)⟩

/-- The check keeps its promises where it can read what it has to: all the supporting quotes
where one is broken or contradicts, and the one more quote where nothing else stops the claim. -/
theorem wellBehaved_iff (u : Characters) (floats : Floats F) (quotes : List QuoteFacts)
    (extra : QuoteFacts) (hi : extra.intact = true) (hs : extra.supportType = .supports) :
    WellBehaved u floats quotes extra ↔
      (¬ Clean quotes → ∀ q ∈ supporting quotes, Readable u q) ∧
      (Clean quotes → supporting quotes ≠ [] → (∀ q ∈ supporting quotes, Readable u q) →
        Readable u extra) := by
  constructor
  · intro h
    constructor
    · intro hc
      rw [Clean] at hc
      push Not at hc
      obtain ⟨q, hq, hbad⟩ := hc
      cases hqi : q.intact with
      | false => exact readable_of_fails (h.broken 0 .number [] 0 q hq hqi)
      | true => exact readable_of_fails (h.contradicted 0 .number [] 0 rfl q hq hqi (hbad hqi))
    · intro hc hne hread
      obtain ⟨q, hq⟩ := List.exists_mem_of_ne_nil _ hne
      -- a claim without numbers that asks for no more trust than a quote has
      have hpass : Passes (checkClaim u floats 0 .number [] quotes q.trust) := by
        refine (passes_checked rfl).mpr ⟨fun q hq => (hc q hq).1, fun q hq _ => (hc q hq).2, hne,
          Or.inl ⟨q, hq, le_refl _⟩, fun _ => ⟨hread, ?_⟩⟩
        intro v hv
        cases hv
      have hmore := h.supported 0 .number [] q.trust _ (.refl _) hpass
      obtain ⟨-, -, -, -, hnumbers⟩ := (passes_checked rfl).mp hmore
      exact (hnumbers rfl).1 extra (mem_supporting.mpr ⟨List.mem_cons_self, hi, hs⟩)
  · rintro ⟨hstopped, hclean⟩
    constructor
    · intro claimId kind text minTrust quotes' hp
      exact sameVerdict_of_perm hp
    · intro claimId kind text minTrust quotes' hp h
      have hr : kind = .number → Readable u extra := by
        rintro rfl
        obtain ⟨h1, h2, h3, -, h5⟩ := (passes_checked rfl).mp h
        exact hclean (fun q hq => ⟨h1 q hq, h2 q hq (h1 q hq)⟩) h3 (h5 rfl).1
      exact passes_perm hp.symm (passes_cons hi hs hr h)
    · intro claimId kind text minTrust m hm h
      exact passes_trust hm h
    · intro claimId kind text minTrust q hq hbroken
      have hc : ¬ Clean quotes := by
        intro hc
        rw [(hc q hq).1] at hbroken
        cases hbroken
      cases hk : checkedKind kind with
      | true => exact fails_checked hk hc (hstopped hc)
      | false =>
        refine fails_iff.mpr ⟨⟨_, checkClaim_other hk⟩, fun hp => ?_⟩
        rw [((passes_other hk).mp hp).1 q hq] at hbroken
        cases hbroken
    · intro claimId kind text minTrust hk q hq hqi hqc
      have hc : ¬ Clean quotes := fun hc => (hc q hq).2 hqc
      exact fails_checked hk hc (hstopped hc)
    · intro claimId text minTrust h
      obtain ⟨-, -, -, -, hnumbers⟩ := (passes_checked rfl).mp h
      exact (hnumbers rfl).2

/-- Exact arithmetic, as floating point has it for the small numbers of the examples below. -/
def exact : Floats Rat where
  parse s :=
    let read := fun t : Str => (t.foldl (fun n c => 10 * n + (c - 48)) 0 : Nat)
    let fraction := (s.dropWhile (· ≠ 46)).drop 1
    read (s.takeWhile (· ≠ 46)) + read fraction / (10 ^ fraction.length : Nat)
  ofNat n := n
  mul x y := x * y
  isclose x y := |x - y| ≤ max (max |x| |y| / 1000000000) (1 / 1000000000)
  round x places :=
    let scaled := x * (10 ^ places : Nat)
    let below := scaled.floor
    let up := scaled - below > 1 / 2 ∨ scaled - below = 1 / 2 ∧ below % 2 = 1
    (below + if up then 1 else 0 : Int) / (10 ^ places : Nat)
  eq x y := x = y

def quoteOf (quote : Str) : QuoteFacts := ⟨1, quote, .supports, true, 1, lit "site:a", []⟩

theorem readable_six : Readable ascii (quoteOf (lit "it rose six times")) := by
  unfold Readable AsciiWords
  decide +kernel

theorem wellBehaved_six :
    WellBehaved ascii exact [quoteOf (lit "it rose")] (quoteOf (lit "it rose six times")) := by
  refine (wellBehaved_iff ascii exact [quoteOf (lit "it rose")]
    (quoteOf (lit "it rose six times")) rfl rfl).mpr ⟨fun hc => ?_, fun _ _ _ => readable_six⟩
  refine absurd (fun q hq => ?_) hc
  cases List.mem_singleton.mp hq
  exact ⟨rfl, nofun⟩

/-- A number word with a long s is found as one and is in no table. -/
theorem long_s_raises : ¬ ∀ (u : Characters) (floats : Floats Rat) quotes extra,
    extra.intact = true → extra.supportType = .supports → WellBehaved u floats quotes extra := by
  intro h
  have hread : Readable ascii (quoteOf (lit "it rose")) := by
    unfold Readable AsciiWords
    decide +kernel
  have hone : supporting [quoteOf (lit "it rose")] = [quoteOf (lit "it rose")] := rfl
  have hpass : Passes (checkClaim ascii exact 0 .number [] [quoteOf (lit "it rose")] 0) := by
    refine (passes_checked rfl).mpr ⟨?_, ?_, List.cons_ne_nil _ _, ?_, fun _ => ⟨?_, ?_⟩⟩
    · exact List.forall_mem_singleton.mpr rfl
    · exact List.forall_mem_singleton.mpr nofun
    · exact Or.inl ⟨quoteOf (lit "it rose"), hone ▸ List.mem_cons_self, by decide +kernel⟩
    · rw [hone]
      exact List.forall_mem_singleton.mpr hread
    · intro v hv
      cases hv
  have hmore := (h ascii exact [quoteOf (lit "it rose")] (quoteOf (lit "it rose ſix times")) rfl
    rfl).supported 0 .number [] 0 _ (.refl _) hpass
  obtain ⟨-, -, -, -, hnumbers⟩ := (passes_checked rfl).mp hmore
  have hextra := (hnumbers rfl).1 (quoteOf (lit "it rose ſix times"))
    (mem_supporting.mpr ⟨List.mem_cons_self, rfl, rfl⟩)
  have hfound : (lit "ſix", []) ∈ findall (wordAt ascii) (lit "it rose ſix times") := by
    decide +kernel
  exact absurd (hextra.1.1 _ hfound 0x17F (by decide +kernel)) (by decide)

end Autora.FactCheck
