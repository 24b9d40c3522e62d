import Autora.Sources
import Mathlib.Data.List.Sigma

/-! What the network may answer for a poll to be done, and what every poll then leaves behind. -/

namespace Autora.Sources

open Systems

section

variable (lib : Library)

def Raised.known : Raised → Bool
  | .other _ _ => false
  | _ => true

/-- A link that can be taken apart, with a port that is one, and put together again. -/
def Linkable (url : String) : Prop :=
  ∃ parts, lib.urlsplit (lib.strip url) = .ok parts ∧ (∃ port, parts.port = .ok port) ∧
    ∃ query, lib.urlencode ((lib.parseQsl parts.query).filter fun kv => !lib.tracking kv.1) =
      .ok query

/-- A text that is a date or none, and not a date out of range. -/
def Datable (text : String) : Prop :=
  text ≠ "" → ∀ m, lib.parsedate text ≠ .error (.overflow m) ∧
    (lib.parsedate text = .error .noDate → lib.fromisoformat text ≠ .error (.overflow m))

/-- XML that is parsed or is not well formed, the dates of its entries in range. -/
def FeedLegible (body : Bytes) : Prop :=
  (∀ kind m, lib.fromstring body ≠ .error (.other kind m)) ∧
    ∀ root items, lib.fromstring body = .ok root → feedItems root = some items →
      ∀ item ∈ items, isHttp (textsOf lib item).url = true → Datable lib (textsOf lib item).published

def JsonLegible (body : Bytes) : Prop := ∀ kind m, lib.loads body ≠ .error (.other kind m)

def InRange (day time : String) : Prop :=
  lib.isdigit (lib.strip day) = true → ∀ m, lib.rocDate (lib.strip day) (lib.strip time) ≠ .error (.overflow m)

/-- An announcement whose days are in range and whose texts can be encoded. -/
def Announceable (row : Row) : Prop :=
  InRange lib (Row.get row "發言日期") (Row.get row "發言時間") ∧
    (Row.get row "事實發生日" ≠ "" → InRange lib (Row.get row "事實發生日") "") ∧
    ∃ digest, lib.sha256 (subjectOf lib row ++ "\n" ++ Row.get row "說明") = .ok digest ∧
      ∀ moment, rocMoment lib (Row.get row "發言日期") (Row.get row "發言時間") = .ok moment →
        ∃ query, lib.urlencode [("co_id", Row.get row "公司代號"),
          ("at", (moment.map lib.stamp).getD (Row.get row "發言日期")),
          ("id", first 10 digest)] = .ok query

def TwseLegible (codes keywords : List String) (body : Bytes) : Prop :=
  JsonLegible lib body ∧ ∀ rows, lib.loads body = .ok (.list rows) →
    ∀ row ∈ rows.filterMap (rowOf lib),
      passedOver lib (words lib codes) (words lib keywords) row = false → Announceable lib row

def GdeltLegible (body : Bytes) : Prop :=
  JsonLegible lib body ∧ ∀ kvs articles, lib.loads body = .ok (.dict kvs) →
    (kvs.lookup "articles").getD (.list []) = .list articles →
    ∀ fields, .dict fields ∈ articles → isHttp (field lib fields "url") = true →
      lib.tidy (field lib fields "title") ≠ "" →
      (∀ m, lib.seendate (field lib fields "seendate") ≠ .error (.overflow m)) ∧
        Linkable lib (field lib fields "url")

end

section

variable (poller : SourcePoller) (answers : Answers)

/-- A page that can be read, or a failure that is known to be one. -/
def PageLegible (id : Id) (legible : Bytes → Prop) : Prop :=
  match answers.fetch id with
  | .ok body => legible body
  | .error (e, _) => e.known = true

/-- What a source answers is read, or fails as a source may fail. -/
def Legible (id : Id) (source : Source) : Prop :=
  match source.kind with
  | .rss _ => PageLegible answers id (FeedLegible poller.lib)
  | .twseAnnouncements _ codes keywords =>
    PageLegible answers id (TwseLegible poller.lib codes keywords)
  | .gdelt _ _ _ => PageLegible answers id (GdeltLegible poller.lib)
  | .urlList urls => ∀ url ∈ urls, Linkable poller.lib url
  | .searchQuery _ _ _ _ => match answers.search id with
    | .ok response => ∀ r ∈ response.results, Linkable poller.lib r.url
    | .error e => e.known = true

/-- An entry whose link stays one when it is in canonical form and whose texts can be stored. -/
def Keepable (source : Source) (e : FeedEntry) : Prop :=
  Linkable poller.lib e.url ∧ ∀ url, canonicalUrl poller.lib e.url = .ok url →
    Linkable poller.lib url ∧ poller.storable e.externalId = true ∧ poller.storable url = true ∧
      poller.storable (titleOf source e) = true ∧ e.summary.all poller.storable = true ∧
      ∀ canonical, canonicalUrl poller.lib url = .ok canonical →
        ∃ digest, poller.lib.sha256
          (canonical ++ "\n" ++ poller.lib.normalize (titleOf source e)) = .ok digest

/-- The oldest day a source looks at is a date. -/
def Dated (source : Source) (now : Moment) : Prop :=
  ∀ days, source.maxAgeDays = some days → days ≠ 0 → earliest ≤ now - days * dayMicros

/-- Every due source answers in a way a poll can take in. -/
def Digestible (w : Newswire) : Act → Prop
  | .pollDue company now later answers => ∀ id source, (id, source) ∈ due poller w company now →
      Legible poller answers id source ∧
      ∀ entries cost, read poller answers id source = .ok (entries, cost) →
        Dated source later ∧ ∀ old, oldest source later = .ok old →
          ∀ e ∈ newestFirst poller old entries, Keepable poller source e
  | _ => True

end

/-! What is raised is known. -/

def Tame {α : Type} (x : Except Raised α) : Prop := ∀ e, x = .error e → e.known = true

theorem tame_ok {α : Type} (a : α) : Tame (.ok a : Except Raised α) := by
  intro e h
  cases h

theorem tame_error {α : Type} {e : Raised} (h : e.known = true) :
    Tame (.error e : Except Raised α) := by
  intro e' h'
  cases h'
  exact h

theorem tame_bind {α β : Type} {x : Except Raised α} {f : α → Except Raised β} (hx : Tame x)
    (hf : ∀ a, x = .ok a → Tame (f a)) : Tame (x >>= f) := by
  cases x with
  | ok a => exact hf a rfl
  | error e => exact tame_error (hx e rfl)

theorem tame_mapM {α β : Type} {f : α → Except Raised β} {xs : List α}
    (h : ∀ x ∈ xs, Tame (f x)) : Tame (xs.mapM f) := by
  induction xs with
  | nil => exact tame_ok []
  | cons x xs ih =>
    rw [List.mapM_cons]
    apply tame_bind (h x (by simp))
    intro y _
    apply tame_bind (ih fun z hz => h z (by simp [hz]))
    intro ys _
    exact tame_ok (y :: ys)

theorem mapM_mem {α β : Type} {f : α → Except Raised β} {xs : List α} :
    ∀ {ys : List β}, xs.mapM f = .ok ys → ∀ y ∈ ys, ∃ x ∈ xs, f x = .ok y := by
  induction xs with
  | nil =>
    intro ys h y hy
    cases h
    cases hy
  | cons x xs ih =>
    intro ys h y hy
    rw [List.mapM_cons] at h
    cases hx : f x with
    | error e => simp [hx, bind, Except.bind] at h
    | ok z =>
      cases hxs : xs.mapM f with
      | error e => simp [hx, hxs, bind, Except.bind] at h
      | ok zs =>
        simp only [hx, hxs, bind, Except.bind, pure, Except.pure, Except.ok.injEq] at h
        subst h
        rcases List.mem_cons.mp hy with rfl | hy
        · exact ⟨x, by simp, hx⟩
        · obtain ⟨a, ha, hf⟩ := ih hxs y hy
          exact ⟨a, by simp [ha], hf⟩

variable {lib : Library}

theorem canonicalUrl_ok {url : String} (h : Linkable lib url) :
    ∃ canonical, canonicalUrl lib url = .ok canonical := by
  obtain ⟨parts, hp, ⟨port, hport⟩, query, hq⟩ := h
  simp only [canonicalUrl, valueError, bind, Except.bind, hp, hport, hq]
  exact ⟨_, rfl⟩

theorem tame_canonicalUrl {url : String} (h : Linkable lib url) : Tame (canonicalUrl lib url) := by
  obtain ⟨canonical, hc⟩ := canonicalUrl_ok h
  rw [hc]
  exact tame_ok canonical

theorem tame_dateOf {text : String} (h : Datable lib text) : Tame (dateOf lib text) := by
  unfold dateOf
  by_cases ht : text = ""
  · simp only [ht, if_true]
    exact tame_ok none
  · simp only [ht, if_false]
    cases hp : lib.parsedate text with
    | ok m => exact tame_ok (some m)
    | error e =>
      cases e with
      | overflow m => exact absurd hp (h ht m).1
      | noDate =>
        cases hi : lib.fromisoformat text with
        | ok m => exact tame_ok (some m)
        | error e =>
          cases e with
          | overflow m => exact absurd hi ((h ht m).2 hp)
          | noDate => exact tame_ok none

theorem tame_entryOf {t : Texts} (h : isHttp t.url = true → Datable lib t.published) :
    Tame (entryOf lib t) := by
  unfold entryOf
  split
  · next hu =>
    apply tame_bind (tame_dateOf (h hu))
    intro m _
    exact tame_ok _
  · exact tame_ok none

theorem tame_parseFeed {body : Bytes} (h : FeedLegible lib body) : Tame (parseFeed lib body) := by
  unfold parseFeed
  split
  · exact tame_error rfl
  split
  · exact tame_error rfl
  · next kind m hm => exact absurd hm (h.1 kind m)
  · next root hr =>
    split
    · exact tame_error rfl
    · next items hi =>
      apply tame_bind
      · exact tame_mapM fun item hm => tame_entryOf (h.2 root items hr hi item hm)
      · intro entries _
        exact tame_ok _

theorem load_eq {body : Bytes} {who : String} (h : JsonLegible lib body) :
    (∃ value, lib.loads body = .ok value ∧ load lib body who = .ok value) ∨
      load lib body who = .error (.feedError (who ++ " did not answer JSON")) := by
  unfold load
  cases hl : lib.loads body with
  | ok value => exact .inl ⟨value, rfl, rfl⟩
  | error e =>
    cases e with
    | value => exact .inr rfl
    | other kind m => exact absurd hl (h kind m)

theorem tame_rocMoment {day time : String} (h : InRange lib day time) :
    Tame (rocMoment lib day time) := by
  unfold rocMoment
  by_cases hd : lib.isdigit (lib.strip day) = true ∧ 6 ≤ (lib.strip day).length
  · simp only [hd]
    cases hr : lib.rocDate (lib.strip day) (lib.strip time) with
    | ok m => exact tame_ok (some m)
    | error e =>
      cases e with
      | noDate => exact tame_ok none
      | overflow m => exact absurd hr (h hd.1 m)
  · simp only [hd, if_false]
    exact tame_ok none

theorem tame_rocDay {day : String} (h : InRange lib day "") : Tame (rocDay lib day) := by
  apply tame_bind (tame_rocMoment h)
  intro m _
  cases m with
  | none => exact tame_ok _
  | some m => exact tame_ok _

theorem tame_twseEntry {codes keywords : List String} {row : Row}
    (h : passedOver lib codes keywords row = false → Announceable lib row) :
    Tame (twseEntry lib codes keywords row) := by
  unfold twseEntry
  cases hp : passedOver lib codes keywords row with
  | true => exact tame_ok none
  | false =>
    obtain ⟨hsaid, hhappened, digest, hd, hq⟩ := h hp
    simp only [Bool.false_eq_true, if_false]
    apply tame_bind (tame_rocMoment hsaid)
    intro moment hm
    obtain ⟨query, hq⟩ := hq moment hm
    simp only [hd, hq, valueError, bind, Except.bind]
    by_cases hh : Row.get row "事實發生日" = ""
    · simp only [hh, if_true]
      exact tame_ok _
    · simp only [hh, if_false]
      exact tame_bind (tame_rocDay (hhappened hh)) fun _ _ => tame_ok _

theorem tame_parseTwse {codes keywords : List String} {body : Bytes}
    (h : TwseLegible lib codes keywords body) : Tame (parseTwse lib body codes keywords) := by
  unfold parseTwse
  obtain ⟨value, hv, hl⟩ | hl := @load_eq _ _ "TWSE" h.1
  · rw [hl]
    apply tame_bind (tame_ok value)
    intro v hv'
    cases hv'
    split
    · next rows =>
      apply tame_bind (tame_mapM fun row hrow => tame_twseEntry (h.2 rows hv row hrow))
      intro entries _
      exact tame_ok _
    · exact tame_error rfl
  · rw [hl]
    exact tame_error rfl

theorem tame_gdeltEntry {fields : List (String × Json)}
    (h : isHttp (field lib fields "url") = true → lib.tidy (field lib fields "title") ≠ "" →
      (∀ m, lib.seendate (field lib fields "seendate") ≠ .error (.overflow m)) ∧
        Linkable lib (field lib fields "url")) :
    Tame (gdeltEntry lib (.dict fields)) ∧
      ∀ e, gdeltEntry lib (.dict fields) = .ok (some e) → Linkable lib e.url := by
  unfold gdeltEntry
  by_cases hk : isHttp (field lib fields "url") = false ∨ lib.tidy (field lib fields "title") = ""
  · simp only [hk, if_true]
    refine ⟨tame_ok none, ?_⟩
    intro e he
    cases he
  · simp only [hk, if_false]
    obtain ⟨hu, ht⟩ := not_or.mp hk
    obtain ⟨hs, hlink⟩ := h (by simpa using hu) ht
    cases hd : lib.seendate (field lib fields "seendate") with
    | ok m =>
      refine ⟨tame_ok _, ?_⟩
      intro e he
      cases he
      exact hlink
    | error e =>
      cases e with
      | noDate =>
        refine ⟨tame_ok _, ?_⟩
        intro e he
        cases he
        exact hlink
      | overflow m => exact absurd hd (hs m)

theorem tame_parseGdelt {body : Bytes} (h : GdeltLegible lib body) :
    Tame (parseGdelt lib body) ∧
      ∀ entries, parseGdelt lib body = .ok entries → ∀ e ∈ entries, Linkable lib e.url := by
  unfold parseGdelt
  by_cases hs : body.all isSpace = true
  · simp only [hs, if_true]
    refine ⟨tame_ok [], ?_⟩
    intro entries he
    cases he
    intro e he
    cases he
  simp only [hs, Bool.false_eq_true, if_false]
  by_cases hb : ("Please limit requests".toUTF8.toList.isPrefixOf (body.dropWhile isSpace)) = true
  · simp only [hb, if_true]
    refine ⟨tame_error rfl, ?_⟩
    intro entries he
    cases he
  simp only [hb, Bool.false_eq_true, if_false]
  have refused : ∀ m, Tame (.error (.feedError m) : Except Raised (List FeedEntry)) ∧
      ∀ entries, (.error (.feedError m) : Except Raised (List FeedEntry)) = .ok entries →
        ∀ e ∈ entries, Linkable lib e.url := by
    intro m
    refine ⟨tame_error rfl, ?_⟩
    intro entries he
    cases he
  obtain ⟨value, hv, hl⟩ | hl := @load_eq _ _ "GDELT" h.1
  · rw [hl]
    simp only [bind, Except.bind]
    cases value with
    | dict kvs =>
      cases ha : (kvs.lookup "articles").getD (.list []) with
      | list articles =>
        have tame : ∀ a ∈ articles, Tame (gdeltEntry lib a) ∧
            ∀ e, gdeltEntry lib a = .ok (some e) → Linkable lib e.url := by
          intro a hmem
          cases a with
          | dict fields => exact tame_gdeltEntry (h.2 kvs articles hv ha fields hmem)
          | _ =>
            refine ⟨tame_ok none, ?_⟩
            intro e he
            cases he
        simp only [ha]
        refine ⟨tame_bind (tame_mapM fun a hmem => (tame a hmem).1) fun _ _ => tame_ok _, ?_⟩
        intro entries he e hmem
        cases hm : articles.mapM (gdeltEntry lib) with
        | error e => simp [hm] at he
        | ok kept =>
          simp only [hm, pure, Except.pure, Except.ok.injEq] at he
          subst he
          obtain ⟨k, hk, hke⟩ := List.mem_filterMap.mp hmem
          subst hke
          obtain ⟨a, ha', hka⟩ := mapM_mem hm _ hk
          exact (tame a ha').2 e hka
      | _ =>
        simp only [ha]
        exact refused _
    | _ => exact refused _
  · rw [hl]
    exact refused _

/-! A source that is legible is read. -/

variable {poller : SourcePoller} {answers : Answers}

theorem tame_fetched {id : Id} {legible : Bytes → Prop} (h : PageLegible answers id legible) :
    Tame (fetched answers id) ∧ ∀ body, fetched answers id = .ok body → legible body := by
  unfold PageLegible at h
  unfold fetched
  cases hf : answers.fetch id with
  | ok body =>
    rw [hf] at h
    refine ⟨tame_ok body, ?_⟩
    intro b hb
    cases hb
    exact h
  | error e =>
    rw [hf] at h
    refine ⟨tame_error h, ?_⟩
    intro b hb
    cases hb

theorem tame_gdelt {id : Id} (h : PageLegible answers id (GdeltLegible poller.lib)) :
    Tame (gdelt poller answers id) := by
  unfold PageLegible at h
  unfold gdelt
  cases hf : answers.fetch id with
  | ok body =>
    rw [hf] at h
    obtain ⟨tame, linkable⟩ := tame_parseGdelt h
    apply tame_bind (tame_ok body)
    intro b hb
    cases hb
    apply tame_bind tame
    intro entries he
    apply tame_mapM
    intro e hmem
    apply tame_bind (tame_canonicalUrl (linkable entries he e hmem))
    intro canonical _
    exact tame_ok _
  | error x =>
    obtain ⟨e, busy⟩ := x
    rw [hf] at h
    cases busy with
    | true => exact tame_error rfl
    | false => exact tame_error h

theorem tame_read {id : Id} {source : Source} (h : Legible poller answers id source) :
    Tame (read poller answers id source) := by
  unfold Legible at h
  unfold read
  cases hk : source.kind with
  | rss url =>
    simp only [hk] at h
    obtain ⟨tame, legible⟩ := tame_fetched h
    apply tame_bind tame
    intro body hb
    exact tame_bind (tame_parseFeed (legible body hb)) fun _ _ => tame_ok _
  | twseAnnouncements url codes keywords =>
    simp only [hk] at h
    obtain ⟨tame, legible⟩ := tame_fetched h
    apply tame_bind tame
    intro body hb
    exact tame_bind (tame_parseTwse (legible body hb)) fun _ _ => tame_ok _
  | gdelt query maxrecords timespan =>
    simp only [hk] at h
    exact tame_bind (tame_gdelt h) fun _ _ => tame_ok _
  | urlList urls =>
    simp only [hk] at h
    exact tame_bind (tame_mapM fun u hu => tame_canonicalUrl (h u hu)) fun _ _ => tame_ok _
  | searchQuery query k recencyDays domains =>
    simp only [hk] at h
    cases hs : answers.search id with
    | error e =>
      simp only [hs] at h
      exact tame_error h
    | ok response =>
      simp only [hs] at h
      apply tame_bind (tame_ok response)
      intro r hr
      cases hr
      apply tame_bind
      · apply tame_mapM
        intro x hx
        exact tame_bind (tame_canonicalUrl (h x hx)) fun _ _ => tame_ok _
      · intro entries _
        exact tame_ok _

theorem gather_ok {id : Id} {source : Source} (h : Legible poller answers id source) :
    ∃ g, gather poller answers id source = .ok g ∧
      (g.error = none → ∃ cost, read poller answers id source = .ok (g.entries, cost)) := by
  have tame := tame_read h
  unfold gather
  cases hr : read poller answers id source with
  | ok x =>
    obtain ⟨entries, cost⟩ := x
    refine ⟨⟨entries, cost, none⟩, rfl, ?_⟩
    intro _
    exact ⟨cost, rfl⟩
  | error e =>
    cases e with
    | other kind m => cases tame _ hr
    | _ =>
      refine ⟨_, rfl, ?_⟩
      intro hn
      cases hn

theorem rowOfEntry_ok {id : Id} {source : Source} {e : FeedEntry} (h : Keepable poller source e) :
    ∃ row, rowOfEntry poller id source e = .ok row ∧ row.sourceId = id := by
  obtain ⟨hlink, hrest⟩ := h
  obtain ⟨url, hu⟩ := canonicalUrl_ok hlink
  obtain ⟨hlink', h1, h2, h3, h4, hdigest⟩ := hrest url hu
  obtain ⟨canonical, hc⟩ := canonicalUrl_ok hlink'
  obtain ⟨digest, hd⟩ := hdigest canonical hc
  simp only [rowOfEntry, contentHash, hu, hc, hd, valueError, bind, Except.bind, pure, Except.pure,
    h1, h2, h3, h4, and_self, if_true]
  exact ⟨_, rfl, rfl⟩

/-! The polls that count towards a source's pausing. -/

/-- What a poll says of a source: that it failed, that it did not, or nothing. -/
def counted (id : Id) : Event → Option Bool
  | .polled id' _ _ _ none => if id' = id then some false else none
  | .polled id' _ _ _ (some error) => if id' = id ∧ error.busy = false then some true else none
  | _ => none

/-- A source's counted polls, first to last: whether each one failed. -/
def outcomes (w : Newswire) (id : Id) : List Bool := w.events.filterMap (counted id)

def trailing (polls : List Bool) : Nat := (polls.reverse.takeWhile fun failed => failed).length

theorem trailing_failed (polls : List Bool) : trailing (polls ++ [true]) = trailing polls + 1 := by
  simp [trailing]

theorem trailing_succeeded (polls : List Bool) : trailing (polls ++ [false]) = 0 := by
  simp [trailing]

theorem outcomes_emit (e : Event) (w : Newswire) (id : Id) :
    outcomes (emit e w) id = outcomes w id ++ (counted id e).toList := by
  simp only [outcomes, emit, List.filterMap_append]
  cases h : counted id e with
  | none => simp [h]
  | some b => simp [h]

theorem setSource_self {id : Id} {f : Source → Source} {w : Newswire} {source : Source}
    (h : w.sources[id]? = some source) : (setSource id f w).sources[id]? = some (f source) := by
  simp [setSource, h]

theorem setSource_other {id id' : Id} (f : Source → Source) (w : Newswire) (h : id' ≠ id) :
    (setSource id f w).sources[id']? = w.sources[id']? := by
  simp [setSource, Ne.symm h]

/-! The invariant. -/

/-- An external id and a content hash are each stored once for a source. -/
def OncePerSource (items : List SourceItem) : Prop :=
  items.Pairwise fun a b =>
    a.sourceId = b.sourceId → a.externalId ≠ b.externalId ∧ a.contentHash ≠ b.contentHash

structure Tallied (poller : SourcePoller) (w : Newswire) (id : Id) (source : Source) : Prop where
  failures : source.consecutiveFailures = trailing (outcomes w id)
  paused : source.status = .paused ↔ poller.pauseAfter ≤ source.consecutiveFailures

structure Sound (poller : SourcePoller) (w : Newswire) : Prop where
  once : OncePerSource w.items
  tallied : ∀ id source, w.sources[id]? = some source → Tallied poller w id source
  unheard : ∀ id, w.sources.length ≤ id → outcomes w id = []

/-- What a poll leaves alone: the sources it did not take, and all that was written before. -/
structure Kept (taken : Id → Prop) (w t : Newswire) : Prop where
  sources : ∀ id, ¬ taken id → t.sources[id]? = w.sources[id]?
  outcomes : ∀ id, ¬ taken id → outcomes t id = outcomes w id
  length : t.sources.length = w.sources.length
  items : ∀ item ∈ w.items, item ∈ t.items
  events : ∀ e ∈ w.events, e ∈ t.events

theorem Kept.refl (taken : Id → Prop) (w : Newswire) : Kept taken w w :=
  ⟨fun _ _ => rfl, fun _ _ => rfl, rfl, fun _ h => h, fun _ h => h⟩

theorem Kept.trans {p q : Id → Prop} {w t u : Newswire} (hwt : Kept p w t) (htu : Kept q t u) :
    Kept (fun id => p id ∨ q id) w u where
  sources id h := by
    rw [htu.sources id fun hq => h (.inr hq), hwt.sources id fun hp => h (.inl hp)]
  outcomes id h := by
    rw [htu.outcomes id fun hq => h (.inr hq), hwt.outcomes id fun hp => h (.inl hp)]
  length := by rw [htu.length, hwt.length]
  items item h := htu.items item (hwt.items item h)
  events e h := htu.events e (hwt.events e h)

theorem Kept.mono {p q : Id → Prop} {w t : Newswire} (h : Kept p w t) (hpq : ∀ id, p id → q id) :
    Kept q w t where
  sources id hq := h.sources id fun hp => hq (hpq id hp)
  outcomes id hq := h.outcomes id fun hp => hq (hpq id hp)
  length := h.length
  items := h.items
  events := h.events

theorem kept_setSource (id : Id) (f : Source → Source) (w : Newswire) :
    Kept (· = id) w (setSource id f w) where
  sources id' h := setSource_other f w h
  outcomes _ _ := rfl
  length := by simp [setSource]
  items _ h := h
  events _ h := h

theorem kept_emit {e : Event} {id : Id} (w : Newswire) (h : ∀ id', id' ≠ id → counted id' e = none) :
    Kept (· = id) w (emit e w) where
  sources _ _ := rfl
  outcomes id' h' := by simp [outcomes_emit, h id' h']
  length := rfl
  items _ h := h
  events e' h' := List.mem_append_left _ h'

/-! Insertion. -/

theorem clashes_false {a b : SourceItem} :
    clashes a b = false ↔
      (a.sourceId = b.sourceId → a.externalId ≠ b.externalId ∧ a.contentHash ≠ b.contentHash) := by
  simp [clashes]

theorem clashes_symm {a b : SourceItem} : clashes a b = clashes b a := by
  simp only [clashes, eq_comm]

theorem insert_outcomes (item : SourceItem) (w : Newswire) (id : Id) :
    outcomes (insert item w) id = outcomes w id := by
  unfold insert
  split
  · rfl
  · rw [outcomes_emit]
    simp [counted, outcomes]

theorem insert_kept (item : SourceItem) (w : Newswire) : Kept (fun _ => False) w (insert item w) where
  sources _ _ := by
    unfold insert
    split <;> rfl
  outcomes id _ := insert_outcomes item w id
  length := by
    unfold insert
    split <;> rfl
  items i h := by
    unfold insert
    split
    · exact h
    · exact List.mem_append_left _ h
  events e h := by
    unfold insert
    split
    · exact h
    · exact List.mem_append_left _ h

theorem insert_there (item : SourceItem) (w : Newswire) :
    ∃ kept ∈ (insert item w).items, kept.sourceId = item.sourceId ∧
      (kept.externalId = item.externalId ∨ kept.contentHash = item.contentHash) := by
  unfold insert
  split
  · next h =>
    obtain ⟨kept, hk, hc⟩ := List.any_eq_true.mp h
    simp only [clashes, Bool.and_eq_true, Bool.or_eq_true, decide_eq_true_eq] at hc
    exact ⟨kept, hk, hc.1.symm, hc.2.imp Eq.symm Eq.symm⟩
  · exact ⟨item, by simp [emit], rfl, .inl rfl⟩

theorem insert_once {item : SourceItem} {w : Newswire} (h : OncePerSource w.items) :
    OncePerSource (insert item w).items := by
  unfold insert
  split
  · exact h
  · next hn =>
    show OncePerSource (w.items ++ [item])
    apply List.pairwise_append.mpr
    refine ⟨h, List.pairwise_singleton _ _, ?_⟩
    intro a ha b hb
    rw [List.mem_singleton.mp hb]
    apply clashes_false.mp
    rw [clashes_symm]
    exact Bool.eq_false_iff.mpr fun hc => hn (List.any_eq_true.mpr ⟨a, ha, hc⟩)

/-- Each entry has its row among the items, or one with its external id or its content. -/
def AllStored (poller : SourcePoller) (id : Id) (source : Source) (entries : List FeedEntry)
    (w : Newswire) : Prop :=
  ∀ e ∈ entries, ∃ row, rowOfEntry poller id source e = .ok row ∧
    ∃ kept ∈ w.items, kept.sourceId = id ∧
      (kept.externalId = row.externalId ∨ kept.contentHash = row.contentHash)

theorem AllStored.mono {id : Id} {source : Source} {entries : List FeedEntry} {w t : Newswire}
    (h : AllStored poller id source entries w) (hwt : ∀ item ∈ w.items, item ∈ t.items) :
    AllStored poller id source entries t := by
  intro e he
  obtain ⟨row, hrow, kept, hk, hrest⟩ := h e he
  exact ⟨row, hrow, kept, hwt kept hk, hrest⟩

theorem insertAll_ok {id : Id} {source : Source} {entries : List FeedEntry}
    (h : ∀ e ∈ entries, Keepable poller source e) :
    ∀ w, ∃ t, insertAll poller id source entries w = .ok t ∧ Kept (fun _ => False) w t ∧
      AllStored poller id source entries t ∧ (OncePerSource w.items → OncePerSource t.items) := by
  induction entries with
  | nil =>
    intro w
    refine ⟨w, rfl, .refl _ w, ?_, fun hw => hw⟩
    intro e he
    cases he
  | cons e rest ih =>
    intro w
    obtain ⟨row, hrow, hid⟩ := @rowOfEntry_ok _ id _ _ (h e (by simp))
    obtain ⟨t, ht, hkept, hstored, honce⟩ := ih (fun e' he' => h e' (by simp [he'])) (insert row w)
    refine ⟨t, ?_, ((insert_kept row w).trans hkept).mono (by simp), ?_, ?_⟩
    · simp only [insertAll, hrow, bind, Except.bind]
      exact ht
    · intro e' he'
      rcases List.mem_cons.mp he' with rfl | he'
      · obtain ⟨kept, hk, hs, hrest⟩ := insert_there row w
        exact ⟨row, hrow, kept, hkept.items kept hk, hs.trans hid, hrest⟩
      · exact hstored e' he'
    · intro hw
      exact honce (insert_once hw)

/-! One source's answer. -/

/-- What a poll leaves of a source it took: its next time, and its entries or a failure. -/
def PolledOnce (poller : SourcePoller) (answers : Answers) (later : Moment) (id : Id)
    (source : Source) (t : Newswire) : Prop :=
  ∃ s, t.sources[id]? = some s ∧ s.nextPollAt = later + source.pollIntervalSeconds * 1000000 ∧
    later < s.nextPollAt ∧
    ((∃ entries cost old, read poller answers id source = .ok (entries, cost) ∧
        oldest source later = .ok old ∧ s.lastError = none ∧
        AllStored poller id source (newestFirst poller old entries) t) ∨
      ∃ error, s.lastError = some error ∧ .polled id 0 0 none (some error) ∈ t.events)

theorem PolledOnce.kept {later : Moment} {id : Id} {source : Source} {t u : Newswire}
    {taken : Id → Prop} (h : PolledOnce poller answers later id source t)
    (hk : Kept taken t u) (hid : ¬ taken id) : PolledOnce poller answers later id source u := by
  obtain ⟨s, hs, hnext, hlater, h | ⟨error, he, hev⟩⟩ := h
  · obtain ⟨entries, cost, old, hr, ho, hl, hst⟩ := h
    exact ⟨s, (hk.sources id hid).trans hs, hnext, hlater,
      .inl ⟨entries, cost, old, hr, ho, hl, hst.mono hk.items⟩⟩
  · exact ⟨s, (hk.sources id hid).trans hs, hnext, hlater, .inr ⟨error, he, hk.events _ hev⟩⟩

/-- What was gathered of a source can be written. -/
def Ready (poller : SourcePoller) (answers : Answers) (later : Moment) (id : Id) (source : Source)
    (g : Gathered) : Prop :=
  g.error = none → (∃ cost, read poller answers id source = .ok (g.entries, cost)) ∧
    ∃ old, oldest source later = .ok old ∧
      ∀ e ∈ newestFirst poller old g.entries, Keepable poller source e

theorem oldest_ok {source : Source} {now : Moment} (h : Dated source now) :
    ∃ old, oldest source now = .ok old := by
  unfold oldest
  cases hd : source.maxAgeDays with
  | none => exact ⟨none, rfl⟩
  | some days =>
    cases days with
    | zero => exact ⟨none, rfl⟩
    | succ days =>
      have := h (days + 1) hd (by simp)
      have hn : ¬ now - (days + 1 : Nat) * dayMicros < earliest := Int.not_lt.mpr this
      simp only [hn, if_false]
      exact ⟨_, rfl⟩

theorem later_lt (source : Source) (later : Moment) :
    later < later + source.pollIntervalSeconds * 1000000 := by
  have h : (0 : Int) < source.pollIntervalSeconds * 1000000 := by
    have := source.interval
    omega
  exact Int.lt_add_of_pos_right later h

/-- The rest of the invariant follows from the one source a poll changes. -/
theorem Sound.changed {w t : Newswire} {id : Id} (hw : Sound poller w) (hk : Kept (· = id) w t)
    (honce : OncePerSource t.items) (hid : id < w.sources.length)
    (htally : ∀ s, t.sources[id]? = some s → Tallied poller t id s) : Sound poller t where
  once := honce
  tallied id' source h := by
    by_cases he : id' = id
    · subst he
      exact htally source h
    · rw [hk.sources id' he] at h
      obtain ⟨hf, hp⟩ := hw.tallied id' source h
      exact ⟨by rw [hk.outcomes id' he]; exact hf, hp⟩
  unheard id' h := by
    rw [hk.length] at h
    rw [hk.outcomes id' (Nat.ne_of_gt (Nat.lt_of_lt_of_le hid h))]
    exact hw.unheard id' h

theorem apply_failed {w : Newswire} {id : Id} {source : Source} {g : Gathered} {later : Moment}
    {error : PollError} (hg : g.error = some error) (hw : Sound poller w)
    (hs : w.sources[id]? = some source) (hactive : source.status = .active) :
    ∃ t, apply poller id source g later w = .ok t ∧ Sound poller t ∧ Kept (· = id) w t ∧
      PolledOnce poller answers later id source t := by
  obtain ⟨hf, hp⟩ := hw.tallied id source hs
  have hlow : source.consecutiveFailures < poller.pauseAfter := by
    have hn : ¬ poller.pauseAfter ≤ source.consecutiveFailures := fun h => by
      rw [hp.mpr h] at hactive
      cases hactive
    omega
  have hid : id < w.sources.length := (List.getElem?_eq_some_iff.mp hs).1
  let w1 := setSource id (Source.failed error) (setSource id (Source.polledAt later) w)
  let w2 := emit (.polled id 0 0 none (some error)) w1
  have hs2 : w2.sources[id]? = some ((source.polledAt later).failed error) :=
    setSource_self (setSource_self hs)
  have hk2 : Kept (· = id) w w2 := by
    have h1 := (kept_setSource id (Source.polledAt later) w).trans
      (kept_setSource id (Source.failed error) _)
    have h2 := h1.trans (@kept_emit (.polled id 0 0 none (some error)) id w1 (by
      intro id' h
      simp [counted, Ne.symm h]))
    exact h2.mono (by simp)
  have hout : outcomes w2 id = outcomes w id ++ if error.busy = false then [true] else [] := by
    rw [outcomes_emit]
    show outcomes w id ++ _ = _
    cases hb : error.busy <;> simp [counted, hb]
  have htrail : (source.failed error).consecutiveFailures = trailing (outcomes w2 id) := by
    rw [hout]
    cases hb : error.busy with
    | true => simpa [Source.failed, hb] using hf
    | false => simp [Source.failed, hb, trailing_failed, hf]
  have hmem : .polled id 0 0 none (some error) ∈ w2.events := List.mem_append_right _ (by simp)
  by_cases hpause : poller.pauseAfter ≤ (source.failed error).consecutiveFailures
  · let w3 := setSource id (fun s => { s with status := .paused }) w2
    let reason := first 500 (toString (source.failed error).consecutiveFailures ++
      " failed polls in a row; last: " ++ error.text)
    let w4 := emit (.paused id reason (source.failed error).consecutiveFailures) w3
    have hs4 : w4.sources[id]? =
        some { (source.polledAt later).failed error with status := .paused } := setSource_self hs2
    have hk4 : Kept (· = id) w w4 := by
      have h1 := hk2.trans (kept_setSource id (fun s => { s with status := .paused }) w2)
      have h2 := h1.trans (@kept_emit (.paused id reason (source.failed error).consecutiveFailures) id w3
        (fun _ _ => rfl))
      exact h2.mono (by simp)
    refine ⟨w4, ?_, hw.changed hk4 hw.once hid ?_, hk4, ?_⟩
    · simp only [apply, hg, applyError, hpause, if_true]
      rfl
    · intro s h
      rw [hs4] at h
      cases h
      have hout4 : outcomes w4 id = outcomes w2 id := by
        show outcomes (emit _ w3) id = _
        rw [outcomes_emit]
        simp [counted, w3, outcomes, setSource]
      refine ⟨?_, ?_⟩
      · rw [hout4]
        exact htrail
      · exact ⟨fun _ => hpause, fun _ => rfl⟩
    · exact ⟨_, hs4, rfl, later_lt source later, .inr ⟨error, rfl, List.mem_append_left _ hmem⟩⟩
  · refine ⟨w2, ?_, hw.changed hk2 hw.once hid ?_, hk2, ?_⟩
    · simp only [apply, hg, applyError, hpause, if_false]
      rfl
    · intro s h
      rw [hs2] at h
      cases h
      refine ⟨htrail, ?_⟩
      constructor
      · intro hst
        have hst' : source.status = .paused := hst
        rw [hactive] at hst'
        cases hst'
      · intro h
        exact absurd h hpause
    · exact ⟨_, hs2, rfl, later_lt source later, .inr ⟨error, rfl, hmem⟩⟩

theorem apply_succeeded {w : Newswire} {id : Id} {source : Source} {g : Gathered} {later : Moment}
    (hg : g.error = none) (hr : Ready poller answers later id source g) (hw : Sound poller w)
    (hs : w.sources[id]? = some source) (hactive : source.status = .active) :
    ∃ t, apply poller id source g later w = .ok t ∧ Sound poller t ∧ Kept (· = id) w t ∧
      PolledOnce poller answers later id source t := by
  obtain ⟨⟨cost, hread⟩, old, hold, hkeep⟩ := hr hg
  have hid : id < w.sources.length := (List.getElem?_eq_some_iff.mp hs).1
  let w1 := setSource id Source.succeeded (setSource id (Source.polledAt later) w)
  obtain ⟨w2, hw2, hk12, hstored, honce⟩ := @insertAll_ok _ id _ _ hkeep w1
  let polled : Event := .polled id (w2.items.length - w1.items.length) g.entries.length g.costUsd none
  have hs1 : w1.sources[id]? = some (source.polledAt later).succeeded :=
    setSource_self (setSource_self hs)
  have hs2 : (emit polled w2).sources[id]? = some (source.polledAt later).succeeded :=
    (hk12.sources id (by simp)).trans hs1
  have hk : Kept (· = id) w (emit polled w2) := by
    have h1 := (kept_setSource id (Source.polledAt later) w).trans
      (kept_setSource id Source.succeeded _)
    have h2 := (h1.trans hk12).trans (@kept_emit polled id w2 (by
      intro id' h
      simp [polled, counted, Ne.symm h]))
    exact h2.mono (by simp)
  refine ⟨emit polled w2, ?_, hw.changed hk (honce hw.once) hid ?_, hk, ?_⟩
  · simp only [apply, hg, hold, bind, Except.bind]
    rw [show insertAll poller id source (newestFirst poller old g.entries) _ = .ok w2 from hw2]
    rfl
  · intro s h
    rw [hs2] at h
    cases h
    have hout : outcomes (emit polled w2) id = outcomes w2 id ++ [false] := by
      rw [outcomes_emit]
      simp [polled, counted]
    refine ⟨?_, ?_⟩
    · rw [hout, trailing_succeeded]
      rfl
    · constructor
      · intro hst
        have hst' : source.status = .paused := hst
        rw [hactive] at hst'
        cases hst'
      · intro h
        have := poller.positive
        have h' : poller.pauseAfter ≤ 0 := h
        omega
  · refine ⟨_, hs2, rfl, later_lt source later, .inl ⟨g.entries, cost, old, hread, hold, rfl, ?_⟩⟩
    exact hstored.mono fun item h => h

theorem apply_ok {w : Newswire} {id : Id} {source : Source} {g : Gathered} {later : Moment}
    (hr : Ready poller answers later id source g) (hw : Sound poller w)
    (hs : w.sources[id]? = some source) (hactive : source.status = .active) :
    ∃ t, apply poller id source g later w = .ok t ∧ Sound poller t ∧ Kept (· = id) w t ∧
      PolledOnce poller answers later id source t := by
  cases hg : g.error with
  | none => exact apply_succeeded hg hr hw hs hactive
  | some error => exact apply_failed hg hw hs hactive

/-! The answers of all of them. -/

theorem applyAll_ok {later : Moment} {xs : List (Id × Source)} {gs : List Gathered}
    (h : List.Forall₂ (fun x g => Ready poller answers later x.1 x.2 g) xs gs) :
    ∀ w, Sound poller w → (xs.map (·.1)).Nodup →
      (∀ x ∈ xs, w.sources[x.1]? = some x.2 ∧ x.2.status = .active) →
      ∃ t, applyAll poller later (xs.zip gs) w = .ok t ∧ Sound poller t ∧
        Kept (· ∈ xs.map (·.1)) w t ∧ ∀ x ∈ xs, PolledOnce poller answers later x.1 x.2 t := by
  induction h with
  | nil =>
    intro w hw _ _
    refine ⟨w, rfl, hw, .refl _ w, ?_⟩
    intro x hx
    cases hx
  | @cons x g xs gs hr _ ih =>
    intro w hw hnodup hcur
    obtain ⟨hnew, hnodup⟩ := List.nodup_cons.mp hnodup
    obtain ⟨hs, hactive⟩ := hcur x (by simp)
    obtain ⟨u, hu, husound, hukept, hpolled⟩ := apply_ok hr hw hs hactive
    obtain ⟨t, ht, htsound, htkept, hrest⟩ := ih u husound hnodup (by
      intro y hy
      have hne : y.1 ≠ x.1 := fun he => hnew (List.mem_map.mpr ⟨y, hy, he⟩)
      rw [hukept.sources y.1 hne]
      exact hcur y (by simp [hy]))
    refine ⟨t, ?_, htsound, ?_, ?_⟩
    · simp only [List.zip_cons_cons, applyAll, hu, bind, Except.bind]
      exact ht
    · exact (hukept.trans htkept).mono fun id h => by simpa using h
    · intro y hy
      rcases List.mem_cons.mp hy with rfl | hy
      · exact hpolled.kept htkept hnew
      · exact hrest y hy

theorem mapM_ok {α β : Type} {f : α → Except Raised β} {p : α → β → Prop} {xs : List α}
    (h : ∀ x ∈ xs, ∃ y, f x = .ok y ∧ p x y) : ∃ ys, xs.mapM f = .ok ys ∧ List.Forall₂ p xs ys := by
  induction xs with
  | nil => exact ⟨[], rfl, .nil⟩
  | cons x xs ih =>
    obtain ⟨y, hy, hp⟩ := h x (by simp)
    obtain ⟨ys, hys, hps⟩ := ih fun z hz => h z (by simp [hz])
    refine ⟨y :: ys, ?_, .cons hp hps⟩
    rw [List.mapM_cons]
    simp [hy, hys, bind, Except.bind, pure, Except.pure]

theorem due_mem {w : Newswire} {company : Id} {now : Moment} {x : Id × Source}
    (h : x ∈ due poller w company now) :
    w.sources[x.1]? = some x.2 ∧ x.2.status = .active := by
  have hm := (List.mergeSort_perm _ _).mem_iff.mp (List.mem_of_mem_take h)
  obtain ⟨⟨s, i⟩, hmem, hf⟩ := List.mem_filterMap.mp hm
  have hi := List.mem_zipIdx_iff_getElem?.mp hmem
  dsimp only at hf hi
  by_cases hc : s.companyId = company ∧ s.status = .active ∧ s.nextPollAt ≤ now
  · rw [if_pos hc] at hf
    cases hf
    exact ⟨hi, hc.2.1⟩
  · rw [if_neg hc] at hf
    cases hf

theorem due_nodup (w : Newswire) (company : Id) (now : Moment) :
    ((due poller w company now).map (·.1)).Nodup := by
  apply List.Nodup.sublist ((List.take_sublist _ _).map _)
  apply (List.Perm.nodup_iff ((List.mergeSort_perm _ _).map Prod.fst)).mpr
  rw [List.Nodup, List.pairwise_map, List.pairwise_filterMap]
  have hz : List.Pairwise (fun x y : Source × Nat => x.2 ≠ y.2) w.sources.zipIdx :=
    List.pairwise_map.mp (List.nodup_zipIdx_map_snd w.sources)
  apply hz.imp
  rintro ⟨s, i⟩ ⟨s', i'⟩ hne a ha b hb
  obtain ⟨_, ha⟩ := Option.ite_none_right_eq_some.mp ha
  obtain ⟨_, hb⟩ := Option.ite_none_right_eq_some.mp hb
  cases ha
  cases hb
  exact hne

theorem pollDue_ok {w : Newswire} {company : Id} {now later : Moment} (hw : Sound poller w)
    (h : Digestible poller w (.pollDue company now later answers)) :
    ∃ t, pollDue poller answers company now later w = .ok t ∧ Sound poller t ∧
      ∀ id source, (id, source) ∈ due poller w company now →
        PolledOnce poller answers later id source t := by
  have ready : ∀ x ∈ due poller w company now, ∃ g, gather poller answers x.1 x.2 = .ok g ∧
      Ready poller answers later x.1 x.2 g := by
    intro x hx
    obtain ⟨hlegible, hkeep⟩ := h x.1 x.2 hx
    obtain ⟨g, hg, hread⟩ := gather_ok hlegible
    refine ⟨g, hg, ?_⟩
    intro hnone
    obtain ⟨cost, hr⟩ := hread hnone
    obtain ⟨hdated, hrows⟩ := hkeep g.entries cost hr
    obtain ⟨old, hold⟩ := oldest_ok hdated
    exact ⟨⟨cost, hr⟩, old, hold, hrows old hold⟩
  obtain ⟨gs, hgs, hall⟩ := mapM_ok ready
  obtain ⟨t, ht, hsound, _, hpolled⟩ := applyAll_ok hall w hw (due_nodup w company now)
    fun x hx => due_mem hx
  refine ⟨t, ?_, hsound, ?_⟩
  · simp only [pollDue, hgs, bind, Except.bind]
    exact ht
  · intro id source hx
    exact hpolled (id, source) hx

/-! Runs. -/

theorem sound_configure {w : Newswire} (id : Id) (given : Source) (hw : Sound poller w) :
    Sound poller (setSource id (Source.configured given) w) where
  once := hw.once
  tallied id' source h := by
    by_cases he : id' = id
    · subst he
      cases hs : w.sources[id']? with
      | none => simp [setSource, hs] at h
      | some s =>
        rw [setSource_self hs] at h
        cases h
        obtain ⟨hf, hp⟩ := hw.tallied id' s hs
        exact ⟨hf, hp⟩
    · rw [setSource_other _ _ he] at h
      obtain ⟨hf, hp⟩ := hw.tallied id' source h
      exact ⟨hf, hp⟩
  unheard id' h := by
    simp only [setSource, List.length_modify] at h
    exact hw.unheard id' h

theorem sound_add {w : Newswire} {source : Source} (hw : Sound poller w)
    (hactive : source.status = .active) (hzero : source.consecutiveFailures = 0) :
    Sound poller { w with sources := w.sources ++ [source] } where
  once := hw.once
  tallied id s h := by
    by_cases hl : id < w.sources.length
    · have hs : w.sources[id]? = some s := by rwa [List.getElem?_append_left hl] at h
      obtain ⟨hf, hp⟩ := hw.tallied id s hs
      exact ⟨hf, hp⟩
    · have hge := Nat.le_of_not_lt hl
      have hs : s = source := by
        rw [List.getElem?_append_right hge, List.getElem?_singleton] at h
        split at h
        · exact (Option.some.inj h).symm
        · cases h
      subst hs
      refine ⟨?_, ?_⟩
      · show s.consecutiveFailures = trailing (outcomes w id)
        rw [hw.unheard id hge, hzero]
        rfl
      · rw [hactive, hzero]
        have := poller.positive
        constructor
        · intro hp
          cases hp
        · intro hp
          omega
  unheard id h := by
    simp only [List.length_append, List.length_singleton] at h
    exact hw.unheard id (Nat.le_of_succ_le h)

theorem sound_step {w t : Newswire} {act : Act} (hw : Sound poller w)
    (hd : Digestible poller w act) (h : step poller w act = some t) : Sound poller t := by
  cases act with
  | addSource source =>
    simp only [step, Option.ite_none_right_eq_some] at h
    obtain ⟨⟨hactive, hzero, _⟩, h⟩ := h
    cases h
    exact sound_add hw hactive hzero
  | configure id given =>
    cases h
    exact sound_configure id given hw
  | pollDue company now later answers =>
    obtain ⟨u, hu, hsound, _⟩ := pollDue_ok hw hd
    simp only [step, hu, Option.ite_none_right_eq_some] at h
    cases h.2
    exact hsound

/-- The library on the texts of this run. -/
def plainLibrary : Library where
  fromstring _ := .error (.parse "no element found: line 1, column 0")
  loads _ := .error .value
  str _ := ""
  strip text := text
  lower text := text
  clean text := text
  oneLine text := text
  tidy text := text
  normalize text := text
  parsedate _ := .error .noDate
  fromisoformat _ := .error .noDate
  seendate _ := .error .noDate
  rocDate _ _ := .error .noDate
  stamp _ := ""
  taipeiTime _ := ""
  taipeiDay _ := ""
  urlsplit text :=
    if text = "https://a.example/" then .ok ⟨"https", "a.example", .ok none, "/", ""⟩
    else .error "Invalid IPv6 URL"
  parseQsl _ := []
  urlencode _ := .ok ""
  urlunsplit scheme host path _ := scheme ++ "://" ++ host ++ path
  tracking _ := false
  sha256 _ := .ok "6060e6b981a9f4859bcbf32a9638b21674bb6b96c736a3fc46a6fdf8fe3e4743"
  isdigit _ := false

def searched : Source where
  companyId := 0
  kind := .searchQuery "deals" 10 none []
  titlePrefix := ""
  maxAgeDays := none
  pollIntervalSeconds := 3600
  interval := by decide
  status := .active
  nextPollAt := 0
  lastPolledAt := none
  consecutiveFailures := 0
  lastError := none

def listed : Source := { searched with kind := .urlList ["https://a.example/"] }

end Autora.Sources
