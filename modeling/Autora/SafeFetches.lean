import Autora.CanonicalUrls
import Autora.PageFetcher

/-! When a fetch is safe: what each URL of its chain must meet, so that every request goes to a
public address and nothing but a `FetchError` is raised. -/

namespace Autora

namespace Fetching

open Untyped Urls

variable {t : Texts} {web : Web} {f : HttpFetcher} {n : Nat} {url : Str}

/-- The exceptions that a request's `except` clauses turn into a `FetchError`. -/
def Exception.fromHttpx : Exception → Bool
  | .timeoutException => true
  | .httpError _ => true
  | _ => false

variable (t web) in
/-- The check lets the URL through. -/
def Admitted (n : Nat) (url : Str) : Prop :=
  ∃ parts host found, urlsplit t.literal url = .ok parts ∧ hostOf t parts = some host ∧
    addresses t web n host = .ok found ∧ allPublic t found = some true ∧ found ≠ []

/-- A body that is no longer than it may be when it ends, or breaks off. -/
def Response.fits (r : Response) (maxBytes : Nat) : Prop := r.chunks.flatten.length ≤ maxBytes

variable (t web) in
/-- What the check of the `n`-th URL asked for must meet. -/
structure Readable (n : Nat) (url : Str) : Prop where
  reads : ∃ parts, urlsplit t.literal url = .ok parts
  resolves : ∀ parts host e, urlsplit t.literal url = .ok parts → hostOf t parts = some host →
    addresses t web n host = .error e → e = .osError
  answers : ∀ parts host found, urlsplit t.literal url = .ok parts → hostOf t parts = some host →
    addresses t web n host = .ok found → allPublic t found ≠ none

variable (t f) in
/-- What an answer to the request for a URL must meet. -/
structure WellAnswered (url : Str) (r : Response) : Prop where
  joins : ∀ location, r.isRedirect = true → r.location = some location → location ≠ [] →
    ∃ next, t.urljoin url location = .ok next
  ends : r.isRedirect = false → r.status < 400 → r.fits f.maxBytes →
    ∀ e, r.breaks = some e → e.fromHttpx = true

variable (t web f) in
/-- What the `n`-th URL asked for must meet. -/
structure Clear (n : Nat) (url : Str) : Prop extends Readable t web n url where
  connects : ∀ e, Admitted t web n url → connect t web n url = .error e → e.fromHttpx = true
  goesPublic : ∀ a, Admitted t web n url → connect t web n url = .ok a → public_ t a = some true
  responds : ∀ a e, Admitted t web n url → connect t web n url = .ok a →
    web.serve n a url = .error e → e.fromHttpx = true
  answered : ∀ a r, Admitted t web n url → connect t web n url = .ok a →
    web.serve n a url = .ok r → WellAnswered t f url r

/-! One attempt. -/

theorem check_ok (h : Admitted t web n url) : check t web n url = .ok () := by
  obtain ⟨parts, host, found, hsplit, hhost, hfound, hall, hne⟩ := h
  simp only [check, hsplit, hhost, hfound, hall]
  simp [hne]

theorem readable_of_admitted (h : Admitted t web n url) : Readable t web n url := by
  obtain ⟨parts, host, found, hsplit, hhost, hfound, hall, -⟩ := h
  refine ⟨⟨parts, hsplit⟩, ?_, ?_⟩
  · intro parts' host' e hsplit' hhost' herr
    cases hsplit.symm.trans hsplit'
    cases hhost.symm.trans hhost'
    cases hfound.symm.trans herr
  · intro parts' host' found' hsplit' hhost' hfound'
    cases hsplit.symm.trans hsplit'
    cases hhost.symm.trans hhost'
    cases hfound.symm.trans hfound'
    simp [hall]

/-- A check that does not let the URL through raises a `FetchError` iff the URL is readable. -/
theorem check_error (h : ¬ Admitted t web n url) :
    ∃ e, check t web n url = .error e ∧ (e.isFetchError = true ↔ Readable t web n url) := by
  cases hsplit : urlsplit t.literal url with
  | error e =>
    refine ⟨.exception .valueError, by simp only [check, hsplit],
      fun h => absurd h Bool.false_ne_true, fun hread => ?_⟩
    obtain ⟨parts, hparts⟩ := hread.reads
    cases hsplit.symm.trans hparts
  | ok parts => cases hhost : hostOf t parts with
    | none =>
      refine ⟨_, by simp only [check, hsplit, hhost]; rfl, fun _ => ?_, fun _ => rfl⟩
      refine ⟨⟨parts, hsplit⟩, ?_, ?_⟩
      · intro parts' host e hsplit' hhost'
        cases hsplit.symm.trans hsplit'
        cases hhost.symm.trans hhost'
      · intro parts' host found hsplit' hhost'
        cases hsplit.symm.trans hsplit'
        cases hhost.symm.trans hhost'
    | some host =>
      -- what is asked of the one host this URL has
      have hread : Readable t web n url ↔
          (∀ e, addresses t web n host = .error e → e = .osError) ∧
            ∀ found, addresses t web n host = .ok found → allPublic t found ≠ none := by
        constructor
        · intro hread
          exact ⟨fun e => hread.resolves parts host e hsplit hhost,
            fun found => hread.answers parts host found hsplit hhost⟩
        · intro hread
          refine ⟨⟨parts, hsplit⟩, ?_, ?_⟩
          · intro parts' host' e hsplit' hhost'
            cases hsplit.symm.trans hsplit'
            cases hhost.symm.trans hhost'
            exact hread.1 e
          · intro parts' host' found hsplit' hhost'
            cases hsplit.symm.trans hsplit'
            cases hhost.symm.trans hhost'
            exact hread.2 found
      rw [hread]
      cases hfound : addresses t web n host with
      | error e => cases e with
        | osError =>
          refine ⟨_, by simp only [check, hsplit, hhost, hfound]; rfl, fun _ => ?_, fun _ => rfl⟩
          exact ⟨fun e he => by cases he; rfl, nofun⟩
        | valueError | timeoutException | httpError name | other name =>
          refine ⟨.exception _, by simp only [check, hsplit, hhost, hfound]; rfl,
            fun h => absurd h Bool.false_ne_true, fun hall => ?_⟩
          cases hall.1 _ rfl
      | ok found => cases hall : allPublic t found with
        | none =>
          refine ⟨.exception .valueError, by simp only [check, hsplit, hhost, hfound, hall],
            fun h => absurd h Bool.false_ne_true, fun h => ?_⟩
          exact absurd hall (h.2 found rfl)
        | some all =>
          have hno : found = [] ∨ all = false := by
            by_contra hyes
            rw [not_or, Bool.not_eq_false] at hyes
            exact h ⟨parts, host, found, hsplit, hhost, hfound, hyes.2 ▸ hall, hyes.1⟩
          refine ⟨_, by simp only [check, hsplit, hhost, hfound, hall, if_pos hno]; rfl,
            fun _ => ⟨nofun, fun found' he => ?_⟩, fun _ => rfl⟩
          cases he
          simp [hall]

theorem caught_isFetchError (f : HttpFetcher) (url : Str) (e : Exception) :
    (caught f url e).isFetchError = e.fromHttpx := by
  cases e <;> rfl

theorem raiseForStatus_isFetchError {status : Nat} {e : Raised}
    (h : raiseForStatus status url = .error e) : e.isFetchError = true := by
  rw [raiseForStatus] at h
  split at h
  · cases h
    rfl
  · split at h
    · cases h
      rfl
    · cases h

theorem raiseForStatus_ok {status : Nat} : raiseForStatus status url = .ok () ↔ status < 400 := by
  rw [raiseForStatus]
  split
  · next h => exact ⟨nofun, fun hlt => by omega⟩
  · split
    · next h => exact ⟨nofun, fun hlt => by omega⟩
    · next h => exact ⟨fun _ => by omega, fun _ => rfl⟩

theorem readBody_cases (url : Str) (breaks : Option Exception) (chunks : List Data) {body : Data}
    (hbody : body.length ≤ f.maxBytes) :
    (∀ read, readBody f url breaks chunks body = .ok read → read.length ≤ f.maxBytes) ∧
    ((∀ e, readBody f url breaks chunks body = .error e → e.isFetchError = true) ↔
      ((body ++ chunks.flatten).length ≤ f.maxBytes → ∀ e, breaks = some e →
        e.fromHttpx = true)) := by
  induction chunks generalizing body with
  | nil =>
    rw [List.flatten_nil, List.append_nil]
    cases breaks with
    | none =>
      refine ⟨fun read h => ?_, fun _ _ => nofun, fun _ => nofun⟩
      cases h
      exact hbody
    | some e =>
      refine ⟨nofun, fun h _ e' he => ?_, fun h e' he => ?_⟩
      · cases he
        rw [← caught_isFetchError f url]
        exact h _ rfl
      · cases he
        rw [caught_isFetchError]
        exact h hbody e rfl
  | cons chunk rest ih =>
    simp only [readBody]
    rw [List.flatten_cons, ← List.append_assoc]
    by_cases hlong : f.maxBytes < (body ++ chunk).length
    · rw [if_pos hlong]
      refine ⟨nofun, fun _ hfits => ?_, fun _ e he => ?_⟩
      · rw [List.length_append] at hfits
        omega
      · cases he
        rfl
    · rw [if_neg hlong]
      exact ih (Nat.not_lt.mp hlong)

/-- A turn that raises nothing but a `FetchError`. -/
def Turn.OwnWay (turn : Turn) : Prop :=
  ∀ e, turn = .ends (.error e) → e.isFetchError = true

theorem ownWay_error {e : Raised} : (Turn.ends (.error e)).OwnWay ↔ e.isFetchError = true := by
  constructor
  · exact fun h => h e rfl
  · intro h e' he
    cases he
    exact h

theorem answered_ownWay (r : Response) :
    (answered t f url r).OwnWay ↔ WellAnswered t f url r := by
  rw [answered]
  cases hredirect : r.isRedirect with
  | true =>
    rw [if_pos rfl]
    have hends : r.isRedirect = false → False := by simp [hredirect]
    have hempty : r.location = none ∨ r.location = some [] → WellAnswered t f url r := by
      intro hloc
      refine ⟨fun location _ he hne => ?_, fun hr => (hends hr).elim⟩
      rcases hloc with hloc | hloc
      · cases hloc.symm.trans he
      · cases hloc.symm.trans he
        exact absurd rfl hne
    cases hloc : r.location with
    | none => exact ⟨fun _ => hempty (Or.inl hloc), fun _ => ownWay_error.mpr rfl⟩
    | some location => cases location with
      | nil => exact ⟨fun _ => hempty (Or.inr hloc), fun _ => ownWay_error.mpr rfl⟩
      | cons c location =>
        dsimp only
        cases hjoin : t.urljoin url (c :: location) with
        | error e =>
          rw [ownWay_error]
          refine ⟨fun h => absurd h Bool.false_ne_true, fun h => ?_⟩
          obtain ⟨next, hnext⟩ := h.joins _ hredirect hloc (List.cons_ne_nil c location)
          cases hjoin.symm.trans hnext
        | ok next =>
          refine ⟨fun _ => ⟨fun location' _ he _ => ?_, fun hr => (hends hr).elim⟩, fun _ => nofun⟩
          cases hloc.symm.trans he
          exact ⟨next, hjoin⟩
  | false =>
    rw [if_neg Bool.false_ne_true]
    have hjoins : r.isRedirect = true → False := by simp [hredirect]
    cases hstatus : raiseForStatus r.status url with
    | error e =>
      rw [ownWay_error]
      refine ⟨fun _ => ⟨fun _ hr => (hjoins hr).elim, fun _ hlt => ?_⟩,
        fun _ => raiseForStatus_isFetchError hstatus⟩
      rw [raiseForStatus_ok.mpr hlt] at hstatus
      cases hstatus
    | ok u =>
      have hlt := raiseForStatus_ok.mp hstatus
      have hempty : ([] : Data).length ≤ f.maxBytes := Nat.zero_le _
      have hbody := (readBody_cases url r.breaks r.chunks hempty).2
      rw [List.nil_append] at hbody
      have hwell : WellAnswered t f url r ↔
          (r.chunks.flatten.length ≤ f.maxBytes → ∀ e, r.breaks = some e →
            e.fromHttpx = true) :=
        ⟨fun h => h.ends hredirect hlt, fun h => ⟨fun _ hr => (hjoins hr).elim, fun _ _ => h⟩⟩
      rw [hwell, ← hbody]
      cases readBody f url r.breaks r.chunks [] with
      | error e =>
        rw [ownWay_error]
        exact ⟨fun h e' he => by cases he; exact h, fun h => h e rfl⟩
      | ok body => exact ⟨fun _ => nofun, fun _ => nofun⟩

/-- The page an answer ends with is no longer than it may be. -/
theorem answered_size {r : Response} {page : FetchedPage}
    (h : answered t f url r = .ends (.ok page)) : page.body.length ≤ f.maxBytes := by
  rw [answered] at h
  split at h
  · split at h
    · cases h
    · cases h
    · split at h <;> cases h
  · split at h
    · cases h
    · split at h
      · cases h
      · next body hread =>
        cases h
        have hempty : ([] : Data).length ≤ f.maxBytes := Nat.zero_le _
        exact (readBody_cases url r.breaks r.chunks hempty).1 body hread

variable (t) in
/-- What one attempt must do. -/
structure Fine (turn : Turn × Option Str) : Prop where
  ownWay : turn.1.OwnWay
  goesPublic : ∀ a, turn.2 = some a → public_ t a = some true

/-- What is left to meet once the check lets the URL through. -/
theorem clear_iff (h : Admitted t web n url) : Clear t web f n url ↔
    match connect t web n url with
    | .error e => e.fromHttpx = true
    | .ok a => public_ t a = some true ∧ match web.serve n a url with
      | .error e => e.fromHttpx = true
      | .ok r => WellAnswered t f url r := by
  constructor
  · intro hclear
    cases hconnect : connect t web n url with
    | error e => exact hclear.connects e h hconnect
    | ok a =>
      refine ⟨hclear.goesPublic a h hconnect, ?_⟩
      cases hserve : web.serve n a url with
      | error e => exact hclear.responds a e h hconnect hserve
      | ok r => exact hclear.answered a r h hconnect hserve
  · intro hall
    refine ⟨readable_of_admitted h, ?_, ?_, ?_, ?_⟩
    · intro e _ he
      rw [he] at hall
      exact hall
    · intro a _ ha
      rw [ha] at hall
      exact hall.1
    · intro a e _ ha he
      rw [ha] at hall
      dsimp only at hall
      rw [he] at hall
      exact hall.2
    · intro a r _ ha hr
      rw [ha] at hall
      dsimp only at hall
      rw [hr] at hall
      exact hall.2

theorem fine_iff {turn : Turn} {address : Str} :
    Fine t (turn, some address) ↔ public_ t address = some true ∧ turn.OwnWay := by
  constructor
  · exact fun h => ⟨h.goesPublic address rfl, h.ownWay⟩
  · intro h
    refine ⟨h.2, fun a ha => ?_⟩
    cases ha
    exact h.1

theorem fine_unsent {turn : Turn} : Fine t (turn, none) ↔ turn.OwnWay :=
  ⟨fun h => h.ownWay, fun h => ⟨h, nofun⟩⟩

theorem attempt_fine : Fine t (attempt t web f n url) ↔ Clear t web f n url := by
  rw [attempt]
  by_cases hadmitted : Admitted t web n url
  · rw [check_ok hadmitted, clear_iff hadmitted]
    dsimp only
    cases connect t web n url with
    | error e =>
      dsimp only
      rw [fine_unsent, ownWay_error, caught_isFetchError]
    | ok address =>
      dsimp only
      cases web.serve n address url with
      | error e =>
        dsimp only
        rw [fine_iff, ownWay_error, caught_isFetchError]
      | ok r =>
        dsimp only
        rw [fine_iff, answered_ownWay]
  · obtain ⟨e, hcheck, hread⟩ := check_error hadmitted
    rw [hcheck]
    dsimp only
    rw [fine_unsent, ownWay_error, hread]
    constructor
    · intro h
      exact ⟨h, fun _ ha => absurd ha hadmitted, fun _ ha => absurd ha hadmitted,
        fun _ _ ha => absurd ha hadmitted, fun _ _ ha => absurd ha hadmitted⟩
    · exact fun h => h.toReadable

theorem attempt_size {page : FetchedPage} (h : (attempt t web f n url).1 = .ends (.ok page)) :
    page.body.length ≤ f.maxBytes := by
  rw [attempt] at h
  split at h
  · cases h
  · split at h
    · cases h
    · split at h
      · cases h
      · exact answered_size h

/-! A whole fetch. -/

variable (t f) in
/-- A fetch as it should be, by its result and the addresses it asked. -/
structure Safe (k : Nat) (fetched : Except Raised FetchedPage × List Str) : Prop where
  goesPublic : ∀ a ∈ fetched.2, public_ t a = some true
  requests : fetched.2.length ≤ k
  size : ∀ page, fetched.1 = .ok page → page.body.length ≤ f.maxBytes
  raises : ∀ e, fetched.1 = .error e → e.isFetchError = true

variable (t web f) in
/-- The URLs a fetch asks for, one redirect after another. -/
def hops : Nat → Nat → Str → List (Nat × Str)
  | 0, _, _ => []
  | k + 1, n, url => (n, url) :: match (attempt t web f n url).1 with
    | .goes next => hops k (n + 1) next
    | .ends _ => []

theorem fetchFrom_requests (t : Texts) (web : Web) (f : HttpFetcher) (start : Str) (k n : Nat) (url : Str) :
    (fetchFrom t web f start k n url).2.length ≤ k := by
  induction k generalizing n url with
  | zero => exact Nat.le_refl 0
  | succ k ih =>
    rw [fetchFrom]
    cases hturn : attempt t web f n url with
    | mk turn sent =>
      have hsent : sent.toList.length ≤ 1 := by cases sent <;> simp
      cases turn with
      | ends result =>
        dsimp only
        omega
      | goes next =>
        have hrest := ih (n + 1) next
        simp only [List.length_append]
        omega

theorem fetchFrom_safe_iff (start : Str) (k n : Nat) (url : Str) :
    Safe t f k (fetchFrom t web f start k n url) ↔
      ∀ hop ∈ hops t web f k n url, Clear t web f hop.1 hop.2 := by
  induction k generalizing n url with
  | zero =>
    refine ⟨fun _ => nofun, fun _ => ⟨nofun, Nat.le_refl 0, nofun, fun e he => ?_⟩⟩
    cases he
    rfl
  | succ k ih =>
    have hrequests := fetchFrom_requests t web f start (k + 1) n url
    rw [fetchFrom] at hrequests ⊢
    rw [hops, List.forall_mem_cons, ← attempt_fine]
    cases hturn : attempt t web f n url with
    | mk turn sent => cases turn with
      | ends result =>
        rw [hturn] at hrequests
        dsimp only at hrequests ⊢
        rw [and_iff_left (by simp)]
        constructor
        · intro h
          refine ⟨fun e he => ?_, fun a ha => ?_⟩
          · cases he
            exact h.raises e rfl
          · have hsent : sent = some a := ha
            exact h.goesPublic a (by simp [hsent])
        · intro h
          refine ⟨fun a ha => h.goesPublic a (by simpa using ha), hrequests, ?_, ?_⟩
          · intro page hpage
            exact attempt_size (by rw [hturn, ← hpage])
          · intro e he
            exact h.ownWay e (by rw [← he])
      | goes next =>
        rw [hturn] at hrequests
        dsimp only at hrequests ⊢
        rw [← ih (n + 1) next]
        constructor
        · intro h
          refine ⟨⟨nofun, fun a ha => h.goesPublic a ?_⟩, ?_, ?_, h.size, h.raises⟩
          · have hsent : sent = some a := ha
            simp [hsent]
          · exact fun a ha => h.goesPublic a (List.mem_append_right _ ha)
          · exact fetchFrom_requests t web f start k (n + 1) next
        · intro h
          refine ⟨fun a ha => ?_, hrequests, h.2.size, h.2.raises⟩
          rcases List.mem_append.mp ha with ha | ha
          · exact h.1.goesPublic a (by simpa using ha)
          · exact h.2.goesPublic a ha

/-- A fetch is safe iff every URL it asks for meets its condition. -/
theorem fetch_safe_iff (t : Texts) (web : Web) (f : HttpFetcher) (url : Str) :
    Safe t f (f.maxRedirects + 1) (fetch t web f url) ↔
      ∀ hop ∈ hops t web f (f.maxRedirects + 1) 0 url, Clear t web f hop.1 hop.2 :=
  fetchFrom_safe_iff url _ 0 url

/-! A name that has a public address when it is checked, and another when it is asked. -/

def twoAddresses : Texts where
  casing := Pages.asciiCasing
  literal := fun _ => false
  urljoin := fun _ _ => .error .valueError
  ipAddress := fun address =>
    if address = lit "8.8.8.8" then some (.v4 ⟨true, false⟩)
    else if address = lit "127.0.0.1" then some (.v4 ⟨false, false⟩)
    else none

def rebound : Web where
  resolve := fun _ _ => .ok [lit "8.8.8.8"]
  host := fun _ => .ok (lit "a.test")
  lookup := fun _ _ => .ok (lit "127.0.0.1")
  serve := fun _ _ url => .ok ⟨url, 200, none, none, [], none⟩

def fetcher : HttpFetcher := ⟨lit "15.0", 5000000, 5⟩

theorem localhost_asked : ¬ Safe twoAddresses fetcher (fetcher.maxRedirects + 1)
    (fetch twoAddresses rebound fetcher (lit "http://a.test/")) := by
  intro h
  have hsent : (fetch twoAddresses rebound fetcher (lit "http://a.test/")).2 =
      [lit "127.0.0.1"] := by decide +kernel
  have hpublic := h.goesPublic (lit "127.0.0.1") (by rw [hsent]; exact List.mem_singleton_self _)
  have hnot : public_ twoAddresses (lit "127.0.0.1") = some false := by decide +kernel
  rw [hnot] at hpublic
  cases hpublic

end Fetching

end Autora
