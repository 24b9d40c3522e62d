import Autora.Lib.Forms
import Autora.Lib.Loops
import Autora.Lib.Scans
import Autora.Lib.Urls

/-! The URL that identifies a page, however it is written. -/

namespace Autora.Pages

open Untyped Texts Urls Forms Loops

/-- `_TRACKING`; a newline may stand at the end of the name. -/
def tracking (name : Str) : Bool :=
  let plain := if name.getLast? = some 10 then [name, name.dropLast] else [name]
  plain.any fun s =>
    ((s.take 4).map Scans.fold = lit "utm_" && (s.drop 4).all (· ≠ 10)) ||
      s.map Scans.fold ∈ [lit "fbclid", lit "gclid", lit "mc_cid", lit "mc_eid", lit "ref",
        lit "ref_src"]

def defaultPort (scheme : Str) (port : Nat) : Bool :=
  (scheme = lit "http" && port = 80) || (scheme = lit "https" && port = 443)

/-- The root is "/"; any other path loses its trailing slashes. -/
def trimPath (path : Str) : Str :=
  let path := if path = [] then [47] else path
  if 1 < path.length then path.rdropWhile (· = 47) else path

/-- More than one slash and nothing else. -/
def SlashesOnly (path : Str) : Prop := 2 ≤ path.length ∧ ∀ c ∈ path, c = 47

/-- The port of a network location is not written. -/
def PortDropped (scheme netloc : Str) : Prop :=
  ∀ n, port netloc = .ok (some n) → n = 0 ∨ defaultPort scheme n = true

/-- A port that is written where it stands. -/
def PortKept (scheme : Str) (n : Nat) : Prop := n ≠ 0 ∧ n ≤ 65535 ∧ defaultPort scheme n = false

def orValueError {α : Type} : Option α → Except Error α
  | some a => .ok a
  | none => .error .valueError

section

variable (casing : Casing) (literal uses : Str → Bool)

/-- The host with its port, where that is not the scheme's own. -/
def hostOf (scheme netloc : Str) : Except Error Str := do
  let host := casing.lower (hostname casing netloc)
  let port ← port netloc
  pure (match port with
    | some n => if n ≠ 0 && !defaultPort scheme n then host ++ 58 :: decimal n else host
    | none => host)

def untracked (query : Str) : List (Str × Str) :=
  (parseQsl query).filter fun kv => !tracking kv.1

structure Canonical where
  scheme : Str
  host : Str
  path : Str
  query : Str
  deriving DecidableEq, Repr

def canonicalParts (parts : Parts) : Except Error Canonical := do
  let scheme := parts.scheme.map asciiLower
  let host ← hostOf casing scheme parts.netloc
  let query ← orValueError (urlencode (untracked parts.query))
  pure ⟨scheme, host, trimPath parts.path, query⟩

def Canonical.url (c : Canonical) : Str := urlunsplit uses c.scheme c.host c.path c.query

def canonicalUrl (url : Str) : Except Error Str := do
  let parts ← urlsplit literal (strip url)
  let canonical ← canonicalParts casing parts
  pure (canonical.url uses)

/-- `_SPACE.sub(" ", text)` -/
def singleSpaces : Str → Str
  | [] => []
  | c :: s =>
    if isSpace c then if s.head?.any isSpace then singleSpaces s else 32 :: singleSpaces s
    else c :: singleSpaces s

/-- `digest` is the hash of the encoded text; not every text can be encoded. -/
def contentHash {α : Type} (digest : Str → Except Error α) (url title : Str) : Except Error α := do
  let normalized := casing.lower (strip (singleSpaces title))
  let canonical ← canonicalUrl casing literal uses url
  digest (canonical ++ 10 :: normalized)

end

variable {casing : Casing} {literal uses : Str → Bool} {scheme netloc path host query : Str}

theorem trimPath_cases (path : Str) : path = [] ∧ trimPath path = [47] ∨
    path ≠ [] ∧ trimPath path <+: path := by
  unfold trimPath
  by_cases hp : path = []
  · rw [if_pos hp]
    exact Or.inl ⟨hp, rfl⟩
  · rw [if_neg hp]
    dsimp only
    refine Or.inr ⟨hp, ?_⟩
    split
    · exact List.rdropWhile_prefix _ _
    · exact List.prefix_refl _

theorem trimPath_rooted (h : path = [] ∨ path.head? = some 47) :
    trimPath path = [] ∨ (trimPath path).head? = some 47 := by
  rcases trimPath_cases path with ⟨-, he⟩ | ⟨hne, post, hpost⟩
  · rw [he]
    exact Or.inr rfl
  · cases ht : trimPath path with
    | nil => exact Or.inl rfl
    | cons c tail =>
      have hh := h.resolve_left hne
      rw [← hpost, ht] at hh
      exact Or.inr hh

/-- A path that is not empty stays as it is from the second time on. -/
theorem trimPath_trimPath (h : trimPath path ≠ []) : trimPath (trimPath path) = trimPath path := by
  have hfix : ∀ {p : Str}, p ≠ [] → (1 < p.length → p.rdropWhile (· = 47) = p) →
      trimPath p = p := by
    intro p hp hlong
    unfold trimPath
    rw [if_neg hp]
    dsimp only
    split
    · next hl => exact hlong hl
    · rfl
  apply hfix h
  intro hlong
  unfold trimPath at hlong ⊢
  by_cases hl : 1 < (if path = [] then [47] else path).length
  · rw [if_pos hl]
    exact List.rdropWhile_idempotent _ _
  · rw [if_neg hl] at hlong
    exact absurd hlong hl

theorem trimPath_eq (path : Str) : trimPath path = path.rdropWhile (· = 47) ∨
    trimPath path = [47] ∧ path.rdropWhile (· = 47) = [] := by
  unfold trimPath
  dsimp only
  by_cases hp : path = []
  · rw [hp]
    exact Or.inr ⟨rfl, rfl⟩
  · rw [if_neg hp]
    split
    · exact Or.inl rfl
    · next hl =>
      match path, hp, hl with
      | [c], _, _ =>
        rw [List.rdropWhile_singleton]
        by_cases hc : c = 47
        · exact Or.inr ⟨by rw [hc], by simp [hc]⟩
        · exact Or.inl (by simp [hc])
      | _ :: _ :: _, _, hl => exact absurd (by simp) hl

theorem trimPath_eq_nil : trimPath path = [] ↔ SlashesOnly path := by
  have hall : path.rdropWhile (· = 47) = [] ↔ ∀ c ∈ path, c = 47 := by
    rw [List.rdropWhile_eq_nil_iff]
    exact forall₂_congr fun c _ => decide_eq_true_iff
  unfold trimPath SlashesOnly
  dsimp only
  by_cases hp : path = []
  · rw [hp]
    exact ⟨nofun, fun h => absurd h.1 (by decide)⟩
  · rw [if_neg hp]
    split
    · next hl =>
      rw [hall]
      exact ⟨fun h => ⟨hl, h⟩, fun h => h.2⟩
    · next hl => exact ⟨fun h => absurd h hp, fun h => absurd h.1 hl⟩

/-- A path that does not begin with a slash keeps its beginning. -/
theorem trimPath_head {c : Nat} (hc : c ≠ 47) :
    (trimPath path).head? = some c ↔ path.head? = some c := by
  constructor
  · intro h
    rcases trimPath_cases path with ⟨-, he⟩ | ⟨-, post, hpost⟩
    · rw [he] at h
      cases h
      exact absurd rfl hc
    · rw [← hpost, List.head?_append, h]
      rfl
  · intro h
    have hmem : c ∈ path := List.mem_of_mem_head? h
    rcases trimPath_cases path with ⟨hnil, -⟩ | ⟨-, post, hpost⟩
    · rw [hnil] at h
      cases h
    · cases ht : trimPath path with
      | nil => exact absurd ((trimPath_eq_nil.mp ht).2 c hmem) hc
      | cons d tail =>
        rw [← hpost, ht] at h
        exact h

/-- Two paths that differ in the slashes at their ends become one, unless one of them alone is
made of slashes. -/
theorem trimPath_eq_iff {path' : Str}
    (h : path.rdropWhile (· = 47) = path'.rdropWhile (· = 47)) :
    trimPath path = trimPath path' ↔ (SlashesOnly path ↔ SlashesOnly path') := by
  constructor
  · intro he
    rw [← trimPath_eq_nil, ← trimPath_eq_nil, he]
  · intro hiff
    rw [← trimPath_eq_nil, ← trimPath_eq_nil] at hiff
    rcases trimPath_eq path with he | ⟨he, hnil⟩
    · rcases trimPath_eq path' with he' | ⟨he', hnil'⟩
      · rw [he, he', h]
      · rw [h.trans hnil'] at he
        rw [he, hiff.mp he]
    · rcases trimPath_eq path' with he' | ⟨he', -⟩
      · rw [h.symm.trans hnil] at he'
        rw [he', hiff.mpr he']
      · rw [he, he']

theorem mem_hostname {c : Nat} (h : c ∈ casing.lower (hostname casing netloc))
    (hm : mark c = true) : c ∈ (hostAndPort netloc).1 := by
  have hh := casing.mark_lower _ _ hm h
  rcases List.mem_append.mp hh with hh | hh
  · exact (List.takeWhile_sublist _).subset (casing.mark_lower _ _ hm hh)
  · exact (List.dropWhile_sublist _).subset hh

theorem mark_of_removed {c : Nat} (h : removed c = true ∨ delimiter c = true) : mark c = true := by
  have hc : c < 64 := by
    simp only [removed, delimiter, Bool.or_eq_true, decide_eq_true_eq] at h
    omega
  have hall : ∀ c < 64, (removed c = true ∨ delimiter c = true) → mark c = true := by
    decide +kernel
  exact hall c hc h

theorem mark_of_expanding {c : Nat} (h : c ∈ expanding) : mark c = true := by
  rw [mark, decide_eq_true h, Bool.or_true]

theorem asciiDigit_plain {c : Nat} (h : asciiDigit c = true) :
    removed c = false ∧ delimiter c = false ∧ c ∉ expanding := by
  have hc : c < 58 := by
    simp only [asciiDigit, Bool.and_eq_true, decide_eq_true_eq] at h
    omega
  have hall : ∀ c < 58, asciiDigit c = true →
      removed c = false ∧ delimiter c = false ∧ c ∉ expanding := by decide +kernel
  exact hall c hc h

/-- The host, alone or with a port that is not the scheme's own. -/
theorem hostOf_cases (h : hostOf casing scheme netloc = .ok host) :
    PortDropped scheme netloc ∧ host = casing.lower (hostname casing netloc) ∨
      ∃ n, port netloc = .ok (some n) ∧ PortKept scheme n ∧
        host = casing.lower (hostname casing netloc) ++ 58 :: decimal n := by
  obtain ⟨port, hport, he⟩ := bind_ok_iff.mp h
  cases he
  cases port with
  | none =>
    refine Or.inl ⟨fun n hn => ?_, rfl⟩
    rw [hport] at hn
    cases hn
  | some n =>
    dsimp only
    by_cases hn : n ≠ 0 ∧ defaultPort scheme n = false
    · rw [if_pos (by simp [hn])]
      exact Or.inr ⟨n, hport, ⟨hn.1, portOf_le hport, hn.2⟩, rfl⟩
    · rw [if_neg (by simpa using hn)]
      refine Or.inl ⟨fun m hm => ?_, rfl⟩
      rw [hport] at hm
      cases hm
      by_contra hnot
      rw [not_or] at hnot
      exact hn ⟨hnot.1, (Bool.not_eq_true _).mp hnot.2⟩

theorem not_dropped {n : Nat} (h : PortDropped scheme netloc) (hp : port netloc = .ok (some n))
    (hk : PortKept scheme n) : False := by
  rcases h n hp with h0 | hd
  · exact hk.1 h0
  · rw [hk.2.2] at hd
    cases hd

theorem mem_hostOf {c : Nat} (h : hostOf casing scheme netloc = .ok host) (hc : c ∈ host) :
    c ∈ casing.lower (hostname casing netloc) ∨ c = 58 ∨ asciiDigit c = true := by
  rcases hostOf_cases h with ⟨-, rfl⟩ | ⟨n, -, -, rfl⟩
  · exact Or.inl hc
  · rcases List.mem_append.mp hc with hc | hc
    · exact Or.inl hc
    · exact Or.inr ((List.mem_cons.mp hc).imp_right (decimal_digits n c))

/-- The characters of the host are harmless where those of the network location are. -/
theorem hostOf_chars (hn : ∀ c ∈ netloc, removed c = false ∧ delimiter c = false ∧ c ∉ expanding)
    (h : hostOf casing scheme netloc = .ok host) :
    ∀ c ∈ host, removed c = false ∧ delimiter c = false ∧ c ∉ expanding := by
  have hlower : ∀ c ∈ casing.lower (hostname casing netloc),
      removed c = false ∧ delimiter c = false ∧ c ∉ expanding := by
    intro c hc
    have hback : mark c = true → removed c = false ∧ delimiter c = false ∧ c ∉ expanding :=
      fun hm => hn c ((hostAndPort_sublist netloc).subset (mem_hostname hc hm))
    refine ⟨?_, ?_, ?_⟩
    · by_contra hr
      have hm := mark_of_removed (Or.inl (Bool.not_eq_false _ ▸ hr))
      exact hr (hback hm).1
    · by_contra hd
      have hm := mark_of_removed (Or.inr (Bool.not_eq_false _ ▸ hd))
      exact hd (hback hm).2.1
    · intro he
      exact (hback (mark_of_expanding he)).2.2 he
  intro c hc
  rcases mem_hostOf h hc with hc | rfl | hc
  · exact hlower c hc
  · decide
  · exact asciiDigit_plain hc

/-! When the host of a result is read as it was written. -/

/-- The characters around a host. -/
def bracket (c : Nat) : Bool := c = 64 || c = 91 || c = 93

theorem mark_of_bracket {c : Nat} (h : bracket c = true) : mark c = true := by
  have hc : c < 94 := by
    simp only [bracket, Bool.or_eq_true, decide_eq_true_eq] at h
    omega
  have hall : ∀ c < 94, bracket c = true → mark c = true := by decide +kernel
  exact hall c hc h

theorem bracket_not {c : Nat} (h : bracket c = true) : ¬ (c = 58 ∨ asciiDigit c = true) := by
  simp only [bracket, asciiDigit, Bool.or_eq_true, Bool.and_eq_true, decide_eq_true_eq] at h ⊢
  omega

/-- The host has no `@` and no bracket, and no colon but that of a port of its own. -/
structure HostReads (casing : Casing) (scheme netloc : Str) : Prop where
  plain : ∀ c ∈ casing.lower (hostname casing netloc), bracket c = false
  colon : 58 ∈ casing.lower (hostname casing netloc) → PortDropped scheme netloc ∧
    ∃ name n, 58 ∉ name ∧ PortKept scheme n ∧
      casing.lower (hostname casing netloc) = name ++ 58 :: decimal n

theorem not_colon_decimal (n : Nat) : 58 ∉ decimal n := by
  intro hm
  have hd := decimal_digits n 58 hm
  cases hd

theorem hostOf_plain {name : Str} (hc : ∀ c ∈ name, c ≠ 64 ∧ c ≠ 91 ∧ c ≠ 58)
    (hs : ∀ c ∈ name, casing.small c = true) :
    hostOf casing scheme name = .ok name ∧ ∀ {n}, PortKept scheme n →
      hostOf casing scheme (name ++ 58 :: decimal n) = .ok (name ++ 58 :: decimal n) := by
  have hlower : ∀ {s : Str}, (hostAndPort s).1 = name → casing.lower (hostname casing s) = name := by
    intro s hh
    have htake : casing.lower (name.takeWhile (· ≠ 37)) = name.takeWhile (· ≠ 37) :=
      casing.lower_small _ fun c hm => hs c ((List.takeWhile_sublist _).subset hm)
    rw [hostname, hh, htake, List.takeWhile_append_dropWhile]
    exact casing.lower_small _ hs
  constructor
  · have hread := (hostAndPort_plain [] hc (fun c hm => absurd hm List.not_mem_nil)).1
    have hport : port name = .ok none := by
      rw [port, hread]
      rfl
    rw [hostOf, hport, hlower (by rw [hread])]
    rfl
  · intro n hn
    have hread := (hostAndPort_plain (decimal n) hc (decimal_digits n)).2
    have hport : port (name ++ 58 :: decimal n) = .ok (some n) := by
      rw [port, hread]
      exact portOf_decimal hn.1 hn.2.1
    have hif : (decide (n ≠ 0) && !defaultPort scheme n) = true := by
      rw [hn.2.2, decide_eq_true hn.1]
      rfl
    rw [hostOf, hport, hlower (by rw [hread])]
    exact congrArg Except.ok (if_pos hif)

/-- A host that is read as it was written is a name, with or without a port. -/
theorem plain_of_hostOf (hb : bracketsOk literal host = true)
    (h : hostOf casing scheme host = .ok host) :
    ∃ name, (∀ c ∈ name, bracket c = false ∧ c ≠ 58) ∧
      (host = name ∨ ∃ n, PortKept scheme n ∧ host = name ++ 58 :: decimal n) := by
  have hchars : ∀ c ∈ casing.lower (hostname casing host), mark c = true → c ≠ 64 ∧
      (91 ∈ host.rtakeWhile (· ≠ 64) → c ≠ 93) ∧
        (91 ∉ host.rtakeWhile (· ≠ 64) → c ≠ 91 ∧ c ≠ 58) :=
    fun c hc hm => hostAndPort_chars host c (mem_hostname hc hm)
  have hsplit : host = casing.lower (hostname casing host) ∨ ∃ n, PortKept scheme n ∧
      host = casing.lower (hostname casing host) ++ 58 :: decimal n := by
    rcases hostOf_cases h with ⟨-, he⟩ | ⟨n, -, hn, he⟩
    · exact Or.inl he
    · exact Or.inr ⟨n, hn, he⟩
  have hbracket : ∀ c ∈ host, bracket c = true → mark c = true ∧
      c ∈ casing.lower (hostname casing host) :=
    fun c hc hor => ⟨mark_of_bracket hor, (mem_hostOf h hc).resolve_right (bracket_not hor)⟩
  have hat : 64 ∉ host := by
    intro hm
    obtain ⟨hmark, hin⟩ := hbracket 64 hm rfl
    exact (hchars 64 hin hmark).1 rfl
  have hinfo : host.rtakeWhile (· ≠ 64) = host := by
    rw [List.rtakeWhile_eq_self_iff]
    exact fun c hc => decide_eq_true fun he => hat (he ▸ hc)
  rw [hinfo] at hchars
  -- brackets come in pairs, and the second of them does not come back
  have hopen : 91 ∉ host := by
    intro hm
    have hclose : 93 ∈ host := by
      rw [bracketsOk, Bool.and_eq_true, decide_eq_true_eq] at hb
      by_contra hnot
      have := hb.1
      simp [hm, hnot] at this
    obtain ⟨hmark, hin⟩ := hbracket 93 hclose rfl
    exact (hchars 93 hin hmark).2.1 hm rfl
  have hclose : 93 ∉ host := by
    intro hm
    rw [bracketsOk, Bool.and_eq_true] at hb
    have := hb.1
    simp [hm, hopen] at this
  have hname : ∀ c ∈ casing.lower (hostname casing host), c ∈ host := by
    intro c hc
    rcases hsplit with he | ⟨n, -, he⟩
    · exact he ▸ hc
    · rw [he]
      exact List.mem_append_left _ hc
  have hnone : ∀ c ∈ host, bracket c = false := by
    intro c hc
    simp only [bracket, Bool.or_eq_false_iff, decide_eq_false_iff_not]
    exact ⟨⟨fun he => hat (he ▸ hc), fun he => hopen (he ▸ hc)⟩, fun he => hclose (he ▸ hc)⟩
  refine ⟨casing.lower (hostname casing host), fun c hc => ⟨hnone c (hname c hc), ?_⟩, hsplit⟩
  rintro rfl
  exact ((hchars 58 hc rfl).2.2 hopen).2 rfl

theorem bracketsOk_of_none (h : ∀ c ∈ host, bracket c = false) : bracketsOk literal host = true := by
  have hopen : 91 ∉ host := fun hm => Bool.noConfusion (h 91 hm)
  have hclose : 93 ∉ host := fun hm => Bool.noConfusion (h 93 hm)
  simp [bracketsOk, hopen, hclose]

/-- The host of a result is read as it was written just where it is a plain one. -/
theorem hostReads_iff (literal : Str → Bool)
    (h : hostOf casing scheme netloc = .ok host) :
    (bracketsOk literal host = true ∧ hostOf casing scheme host = .ok host) ↔
      HostReads casing scheme netloc := by
  constructor
  · rintro ⟨hb, hself⟩
    obtain ⟨name, hname, hsplit⟩ := plain_of_hostOf hb hself
    have hcolon : 58 ∉ name := fun hm => (hname 58 hm).2 rfl
    have hplain : ∀ c ∈ host, bracket c = false := by
      intro c hc
      rcases hsplit with rfl | ⟨n, -, rfl⟩
      · exact (hname c hc).1
      · rcases List.mem_append.mp hc with hc | hc
        · exact (hname c hc).1
        · by_contra hb
          exact bracket_not (eq_true_of_ne_false hb)
            ((List.mem_cons.mp hc).imp_right (decimal_digits n c))
    rcases hostOf_cases h with ⟨hdropped, he⟩ | ⟨n, -, -, he⟩
    · refine ⟨he ▸ hplain, fun hm => ⟨hdropped, ?_⟩⟩
      rw [← he] at hm ⊢
      rcases hsplit with rfl | ⟨n, hn, hh⟩
      · exact absurd hm hcolon
      · exact ⟨name, n, hcolon, hn, hh⟩
    · refine ⟨fun c hc => hplain c (he ▸ List.mem_append_left _ hc), fun hm => ?_⟩
      -- the digits of a port would hold the second of two colons
      exfalso
      obtain ⟨first, rest, hfirst, hnot⟩ := List.eq_append_cons_of_mem hm
      rcases hsplit with rfl | ⟨m, -, hh⟩
      · exact hcolon (he ▸ List.mem_append_left _ hm)
      · have hread := congrArg (List.dropWhile (· ≠ 58)) (he.symm.trans hh)
        rw [(takeWhile_ne_append hcolon).2, hfirst, List.append_assoc, List.cons_append,
          (takeWhile_ne_append hnot).2] at hread
        exact not_colon_decimal m ((List.cons.inj hread).2 ▸
          List.mem_append_right rest List.mem_cons_self)
  · intro hr
    have hnone : ∀ c ∈ host, bracket c = false := by
      intro c hc
      rcases mem_hostOf h hc with hc | hc
      · exact hr.plain c hc
      · by_contra hb
        exact bracket_not (eq_true_of_ne_false hb) hc
    refine ⟨bracketsOk_of_none hnone, ?_⟩
    have hname : ∀ {name : Str}, 58 ∉ name →
        (∀ c ∈ name, c ∈ casing.lower (hostname casing netloc)) →
          (∀ c ∈ name, c ≠ 64 ∧ c ≠ 91 ∧ c ≠ 58) ∧ ∀ c ∈ name, casing.small c = true := by
      intro name hcolon hsub
      refine ⟨fun c hc => ⟨?_, ?_, fun he => hcolon (he ▸ hc)⟩,
        fun c hc => casing.small_lower _ c (hsub c hc)⟩
      · rintro rfl
        cases hr.plain 64 (hsub 64 hc)
      · rintro rfl
        cases hr.plain 91 (hsub 91 hc)
    by_cases hcolon : 58 ∈ casing.lower (hostname casing netloc)
    · obtain ⟨hdropped, name, n, hnot, hn, he⟩ := hr.colon hcolon
      obtain ⟨hc, hs⟩ := hname hnot fun c hc => he ▸ List.mem_append_left _ hc
      rcases hostOf_cases h with ⟨-, hh⟩ | ⟨m, hport, hm, -⟩
      · rw [hh, he]
        exact (hostOf_plain hc hs).2 hn
      · exact (not_dropped hdropped hport hm).elim
    · obtain ⟨hc, hs⟩ := hname hcolon fun c hc => hc
      rcases hostOf_cases h with ⟨-, hh⟩ | ⟨m, -, hm, hh⟩
      · rw [hh]
        exact (hostOf_plain hc hs).1
      · rw [hh]
        exact (hostOf_plain hc hs).2 hm

/-! Pages that are one, and pages whose URL stays as it is. -/

/-- What stands before the host, its `@` included. -/
def userinfo (netloc : Str) : Str := netloc.rdropWhile (· ≠ 64)

/-- The same port, or the scheme's own written in one of the two. -/
def SamePort (scheme : Str) (port port' : Except Error (Option Nat)) : Prop :=
  port = port' ∨ ∃ n, defaultPort scheme n = true ∧
    (port = .ok none ∧ port' = .ok (some n) ∨ port = .ok (some n) ∧ port' = .ok none)

/-- Two URLs that differ in the case of scheme and host, a default port, the fragment, tracking
parameters and slashes at the end of the path at most. -/
structure SamePage (casing : Casing) (p p' : Parts) : Prop where
  scheme : p.scheme = p'.scheme
  userinfo : userinfo p.netloc = userinfo p'.netloc
  host : casing.lower (hostname casing p.netloc) = casing.lower (hostname casing p'.netloc)
  port : SamePort p.scheme (port p.netloc) (port p'.netloc)
  path : p.path.rdropWhile (· = 47) = p'.path.rdropWhile (· = 47)
  query : untracked p.query = untracked p'.query

/-- The path is not made of slashes alone, no whitespace comes to stand at an end of the result,
and the host is one that is read as it was written. -/
structure Stable (casing : Casing) (p : Parts) : Prop where
  path : ¬ SlashesOnly p.path
  tail : untracked p.query = [] →
    ∀ c, (p.path.rdropWhile (· = 47)).getLast? = some c → isSpace c = false
  head : p.scheme = [] → casing.lower (hostname casing p.netloc) = [] →
    PortDropped p.scheme p.netloc → ∀ c, p.path.head? = some c → isSpace c = false
  host : HostReads casing p.scheme p.netloc

/-! The parts of a result. -/

variable {u v : Str} {p p' : Parts} {c : Str} {r : Canonical}

theorem canonicalParts_ok (h : canonicalParts casing p = .ok r) :
    r.scheme = p.scheme.map asciiLower ∧ hostOf casing r.scheme p.netloc = .ok r.host ∧
      r.path = trimPath p.path ∧ urlencode (untracked p.query) = some r.query := by
  obtain ⟨host, hhost, h⟩ := bind_ok_iff.mp h
  obtain ⟨query, hquery, h⟩ := bind_ok_iff.mp h
  cases h
  refine ⟨rfl, hhost, rfl, ?_⟩
  cases he : urlencode (untracked p.query) with
  | none =>
    rw [he] at hquery
    cases hquery
  | some q =>
    rw [he] at hquery
    cases hquery
    rfl

theorem canonicalParts_of (hscheme : p.scheme.map asciiLower = r.scheme)
    (hhost : hostOf casing r.scheme p.netloc = .ok r.host) (hpath : trimPath p.path = r.path)
    (hquery : urlencode (untracked p.query) = some r.query) : canonicalParts casing p = .ok r := by
  unfold canonicalParts
  dsimp only
  rw [hscheme, hhost, hquery, hpath]
  rfl

theorem canonicalUrl_ok : canonicalUrl casing literal uses u = .ok c ↔
    ∃ p r, urlsplit literal (strip u) = .ok p ∧ canonicalParts casing p = .ok r ∧
      r.url uses = c := by
  constructor
  · intro h
    obtain ⟨p, hp, h⟩ := bind_ok_iff.mp h
    obtain ⟨r, hr, h⟩ := bind_ok_iff.mp h
    cases h
    exact ⟨p, r, hp, hr, rfl⟩
  · rintro ⟨p, r, hp, hr, rfl⟩
    exact bind_ok_iff.mpr ⟨p, hp, bind_ok_iff.mpr ⟨r, hr, rfl⟩⟩

/-- No network location, no host. -/
theorem hostOf_nil (h : hostOf casing scheme [] = .ok host) : host = [] := by
  have hlower : casing.lower [] = [] := casing.lower_small [] fun c hc => absurd hc List.not_mem_nil
  have hhost : casing.lower (hostname casing []) = [] := by
    have hname : hostname casing [] = casing.lower [] ++ [] := rfl
    rw [hname, hlower, List.append_nil, hlower]
  rcases hostOf_cases h with ⟨-, he⟩ | ⟨n, hport, -⟩
  · rw [he, hhost]
  · cases hport

theorem quoted_bounds {c : Nat} (h : quoted c = true ∨ c = 61 ∨ c = 38) :
    33 ≤ c ∧ c < 128 ∧ c ≠ 35 ∧ c ≠ 47 := by
  rcases h with h | rfl | rfl
  · have hc : c < 128 := by
      simp only [quoted, alwaysSafe, Bool.or_eq_true, Bool.and_eq_true, decide_eq_true_eq] at h
      omega
    have hall : ∀ c < 128, quoted c = true → 33 ≤ c ∧ c < 128 ∧ c ≠ 35 ∧ c ≠ 47 := by
      decide +kernel
    exact hall c hc h
  · decide
  · decide

theorem lower_scheme (hw : WellFormed p.scheme netloc path query) :
    p.scheme.map asciiLower = p.scheme := by
  rcases hw.schemeOk with he | ⟨-, he⟩
  · rw [he]
    rfl
  · exact he

theorem wellFormed_canonical (hp : urlsplit literal u = .ok p)
    (hr : canonicalParts casing p = .ok r) : WellFormed r.scheme r.host r.path r.query := by
  have hw := wellFormed_of_urlsplit hp
  obtain ⟨hscheme, hhost, hpath, hquery⟩ := canonicalParts_ok hr
  rw [lower_scheme hw] at hscheme
  have hnetloc : r.host ≠ [] → p.netloc ≠ [] := by
    intro hne hnil
    rw [hnil] at hhost
    exact hne (hostOf_nil hhost)
  refine ⟨hscheme ▸ hw.schemeOk, hostOf_chars hw.netlocChars hhost, ?_, ?_, ?_, ?_⟩
  · rw [hpath]
    rcases trimPath_cases p.path with ⟨-, he⟩ | ⟨-, hpre⟩
    · rw [he]
      decide
    · exact fun c hc => hw.pathChars c (hpre.subset hc)
  · intro hne
    rw [hpath]
    exact trimPath_rooted (hw.rooted (hnetloc hne))
  · intro hs _
    rw [hpath]
    have hslash : trimPath p.path = [] ∨ (trimPath p.path).head? = some 47 →
        ¬ Schemelike (trimPath p.path) ∧ ∀ c, (trimPath p.path).head? = some c → 32 < c := by
      intro h
      cases ht : trimPath p.path with
      | nil => exact ⟨not_schemelike_nil, nofun⟩
      | cons c tail =>
        rw [ht] at h
        cases h.resolve_left (List.cons_ne_nil c tail)
        refine ⟨not_schemelike_slash, fun c hc => ?_⟩
        cases hc
        decide
    by_cases hn : p.netloc = []
    · obtain ⟨hnot, hhead⟩ := hw.bare (hscheme ▸ hs) hn
      rcases trimPath_cases p.path with ⟨-, he⟩ | ⟨-, post, hpost⟩
      · exact hslash (Or.inr (by rw [he]; rfl))
      · refine ⟨fun hl => hnot (hpost ▸ hl.append post), fun c hc => hhead c ?_⟩
        rw [← hpost, List.head?_append, hc]
        rfl
    · exact hslash (trimPath_rooted (hw.rooted hn))
  · intro c hc
    obtain ⟨hlow, -, hne, -⟩ := quoted_bounds (urlencode_chars hquery c hc)
    refine ⟨?_, hne⟩
    simp only [removed, Bool.or_eq_false_iff, decide_eq_false_iff_not]
    omega

/-! The ends of a result. -/

theorem not_space_scheme (h : r.scheme = [] ∨ ValidScheme r.scheme) :
    ∀ c ∈ schemePart r.scheme, isSpace c = false ∧ c ≠ 47 := by
  intro c hc
  unfold schemePart at hc
  split at hc
  · next hne =>
    have hv := h.resolve_left hne
    rcases List.mem_append.mp hc with hc | hc
    · have hs := hv.chars c hc
      refine ⟨isSpace_of_ascii ?_ ?_, (schemeChar_ne hs).2.2.2⟩
      · exact (removed_schemeChar hs).2
      · simp only [schemeChar, asciiLetter, Bool.or_eq_true, Bool.and_eq_true,
          decide_eq_true_eq] at hs
        omega
    · rw [List.mem_singleton.mp hc]
      decide
  · cases hc

theorem not_space_query (h : urlencode (untracked p.query) = some r.query) :
    ∀ c ∈ queryPart r.query, isSpace c = false ∧ c ≠ 47 := by
  intro c hc
  unfold queryPart at hc
  split at hc
  · rcases List.mem_cons.mp hc with rfl | hc
    · decide
    · obtain ⟨hlow, hhigh, -, hne⟩ := quoted_bounds (urlencode_chars h c hc)
      exact ⟨isSpace_of_ascii hlow hhigh, hne⟩
  · cases hc

theorem url_eq (hw : WellFormed r.scheme r.host r.path r.query) :
    r.url uses = schemePart r.scheme ++
      (authority uses r.scheme r.host r.path ++ (r.path ++ queryPart r.query)) :=
  urlunsplit_eq hw.rooted

/-- No whitespace stands at an end of a result. -/
theorem strip_url (hw : WellFormed r.scheme r.host r.path r.query)
    (hq : urlencode (untracked p.query) = some r.query) (hpath : r.path ≠ [])
    (htail : r.query = [] → ∀ c, r.path.getLast? = some c → isSpace c = false)
    (hhead : r.scheme = [] → r.host = [] → ∀ c, r.path.head? = some c → isSpace c = false) :
    strip (r.url uses) = r.url uses := by
  have hscheme := not_space_scheme (hw.schemeOk.imp_right And.left)
  have hquery := not_space_query hq
  rw [url_eq hw]
  apply strip_of_ends
  · intro c hc
    rw [List.head?_append, Option.or_eq_some_iff] at hc
    rcases hc with hc | ⟨hnone, hc⟩
    · exact (hscheme c (List.mem_of_mem_head? hc)).1
    · have hnil : r.scheme = [] := by
        by_contra hne
        rw [schemePart, if_pos hne] at hnone
        simp at hnone
      rcases authority_cases uses r.scheme hw.rooted with
        ⟨ha, -⟩ | ⟨hhost, ha, -⟩
      · rw [ha] at hc
        cases hc
        decide
      · rw [ha, List.nil_append, List.head?_append, Option.or_eq_some_iff] at hc
        rcases hc with hc | ⟨hnone, -⟩
        · exact hhead hnil hhost c hc
        · exact absurd (List.head?_eq_none_iff.mp hnone) hpath
  · intro c hc
    rw [← List.append_assoc, List.getLast?_append, Option.or_eq_some_iff] at hc
    have hlast : (r.path ++ queryPart r.query).getLast? = some c := by
      rcases hc with hc | ⟨hnone, -⟩
      · exact hc
      · rw [List.getLast?_eq_none_iff] at hnone
        exact absurd (List.append_eq_nil_iff.mp hnone).1 hpath
    rw [List.getLast?_append, Option.or_eq_some_iff] at hlast
    rcases hlast with hlast | ⟨hnone, hlast⟩
    · exact (hquery c (List.mem_of_mem_getLast? hlast)).1
    · refine htail ?_ c hlast
      by_contra hne
      rw [queryPart, if_pos hne] at hnone
      simp at hnone

theorem untracked_query (h : urlencode (untracked p.query) = some r.query) :
    untracked r.query = untracked p.query := by
  rw [untracked, parseQsl_urlencode h, List.filter_eq_self]
  exact fun kv hkv => (List.mem_filter.mp hkv).2

theorem query_eq_nil (h : urlencode (untracked p.query) = some r.query) :
    r.query = [] ↔ untracked p.query = [] := by
  constructor
  · intro hnil
    rw [← untracked_query h, hnil]
    rfl
  · intro hnil
    have hnone : urlencode [] = some [] := rfl
    rw [hnil, hnone] at h
    exact (Option.some.inj h).symm

theorem host_eq_nil (h : hostOf casing scheme netloc = .ok host) :
    host = [] ↔ casing.lower (hostname casing netloc) = [] ∧ PortDropped scheme netloc := by
  rcases hostOf_cases h with ⟨hdropped, he⟩ | ⟨n, hport, hn, he⟩
  · rw [he]
    exact ⟨fun hnil => ⟨hnil, hdropped⟩, fun hnil => hnil.1⟩
  · rw [he]
    refine ⟨fun hnil => ?_, fun hnil => (not_dropped hnil.2 hport hn).elim⟩
    cases List.append_ne_nil_of_right_ne_nil _ (List.cons_ne_nil 58 _) hnil

/-- What `Stable` says of the parts, said of the result. -/
theorem ends_iff (hw : WellFormed p.scheme p.netloc p.path []) (hr : canonicalParts casing p = .ok r) :
    (¬ SlashesOnly p.path ↔ r.path ≠ []) ∧
    ((untracked p.query = [] →
        ∀ c, (p.path.rdropWhile (· = 47)).getLast? = some c → isSpace c = false) ↔
      (r.query = [] → ∀ c, r.path.getLast? = some c → isSpace c = false)) ∧
    ((p.scheme = [] → casing.lower (hostname casing p.netloc) = [] →
        PortDropped p.scheme p.netloc → ∀ c, p.path.head? = some c → isSpace c = false) ↔
      (r.scheme = [] → r.host = [] → ∀ c, r.path.head? = some c → isSpace c = false)) := by
  obtain ⟨hscheme, hhost, hpath, hquery⟩ := canonicalParts_ok hr
  rw [lower_scheme hw] at hscheme
  rw [hscheme] at hhost ⊢
  rw [query_eq_nil hquery, hpath]
  refine ⟨not_congr trimPath_eq_nil.symm, imp_congr_right fun _ => ?_,
    imp_congr_right fun _ => ?_⟩
  · rcases trimPath_eq p.path with he | ⟨he, hnil⟩
    · rw [he]
    · rw [he, hnil]
      refine ⟨fun _ c hc => ?_, fun _ c hc => ?_⟩
      · cases hc
        decide
      · cases hc
  · have hslash : ∀ c, isSpace c = true → c ≠ 47 := by
      rintro c hc rfl
      cases hc
    have hhead : (∀ c, p.path.head? = some c → isSpace c = false) ↔
        ∀ c, (trimPath p.path).head? = some c → isSpace c = false := by
      constructor
      · intro h c hc
        by_contra hs
        have hs := eq_true_of_ne_false hs
        exact Bool.noConfusion ((h c ((trimPath_head (hslash c hs)).mp hc)).symm.trans hs)
      · intro h c hc
        by_contra hs
        have hs := eq_true_of_ne_false hs
        exact Bool.noConfusion ((h c ((trimPath_head (hslash c hs)).mpr hc)).symm.trans hs)
    rw [hhead, host_eq_nil hhost, and_imp]

/-- A result that is stable is its own result. -/
theorem canonicalUrl_url (hp : urlsplit literal u = .ok p) (hr : canonicalParts casing p = .ok r)
    (hs : Stable casing p) : canonicalUrl casing literal uses (r.url uses) = .ok (r.url uses) := by
  have hw := wellFormed_canonical hp hr
  have hwp := wellFormed_of_urlsplit hp
  obtain ⟨hscheme, hhost, hpath, hquery⟩ := canonicalParts_ok hr
  obtain ⟨hslashes, htail, hhead⟩ := ends_iff hwp hr
  have hsame : r.scheme = p.scheme := hscheme.trans (lower_scheme hwp)
  obtain ⟨hb, hself⟩ := (hostReads_iff literal hhost).mpr (hsame ▸ hs.host)
  have hstrip : strip (r.url uses) = r.url uses :=
    strip_url hw hquery (hslashes.mp hs.path) (htail.mp hs.tail) (hhead.mp hs.head)
  apply canonicalUrl_ok.mpr
  refine ⟨⟨r.scheme, r.host, r.path, r.query, []⟩, r, ?_, canonicalParts_of ?_ hself ?_ ?_, rfl⟩
  · rw [hstrip]
    exact (urlsplit_urlunsplit literal uses hw).trans (if_pos hb)
  · exact lower_scheme hw
  · rw [hpath]
    exact trimPath_trimPath (hpath ▸ hslashes.mp hs.path)
  · rw [untracked_query hquery, hquery]

/-! A result that is its own result. -/

/-- The slashes of a result: two for the network location, and those of the path. -/
theorem count_slashes (uses : Str → Bool)
    (hw : WellFormed r.scheme r.host r.path r.query)
    (hq : urlencode (untracked p.query) = some r.query) :
    (r.url uses).count 47 ≤ 2 + r.path.count 47 := by
  have hzero : ∀ {s : Str}, (∀ c ∈ s, isSpace c = false ∧ c ≠ 47) → s.count 47 = 0 := by
    intro s h
    rw [List.count_eq_zero]
    exact fun hm => (h 47 hm).2 rfl
  have hhost : r.host.count 47 = 0 := by
    rw [List.count_eq_zero]
    exact fun hm => Bool.noConfusion (hw.netlocChars 47 hm).2.1
  have hauthority : (authority uses r.scheme r.host r.path).count 47 ≤ 2 := by
    rcases authority_cases uses r.scheme hw.rooted with
      ⟨ha, -⟩ | ⟨-, ha, -⟩
    · rw [ha, List.count_append, hhost]
      decide
    · rw [ha]
      decide
  rw [url_eq hw, List.count_append, List.count_append, List.count_append,
    hzero (not_space_scheme (hw.schemeOk.imp_right And.left)), hzero (not_space_query hq)]
  omega

/-- Whitespace of a result without a host is in its path. -/
theorem count_space {x : Nat} (hw : WellFormed r.scheme r.host r.path r.query)
    (hq : urlencode (untracked p.query) = some r.query) (hhost : r.host = [])
    (hx : isSpace x = true) : (r.url uses).count x = r.path.count x := by
  have hzero : ∀ {s : Str}, (∀ c ∈ s, isSpace c = false ∧ c ≠ 47) → s.count x = 0 := by
    intro s h
    rw [List.count_eq_zero]
    exact fun hm => Bool.noConfusion ((h x hm).1.symm.trans hx)
  have hauthority : (authority uses r.scheme r.host r.path).count x = 0 := by
    have hne : x ≠ 47 := by
      rintro rfl
      cases hx
    rcases authority_cases uses r.scheme hw.rooted with
      ⟨ha, -⟩ | ⟨-, ha, -⟩
    · rw [ha, hhost, List.append_nil, List.count_eq_zero]
      simpa using hne
    · rw [ha]
      rfl
  rw [url_eq hw, List.count_append, List.count_append, List.count_append,
    hzero (not_space_scheme (hw.schemeOk.imp_right And.left)), hzero (not_space_query hq),
    hauthority]
  omega

/-- A result without a host that has whitespace at an end becomes another. -/
theorem not_own_result {q : Parts} {x : Nat} (hw : WellFormed r.scheme r.host r.path r.query)
    (hq : urlencode (untracked p.query) = some r.query) (hhost : r.host = [])
    (hx : isSpace x = true)
    (hend : (r.url uses).head? = some x ∨ (r.url uses).getLast? = some x)
    (hsplit : urlsplit literal (strip (r.url uses)) = .ok q) (hpath : r.path = trimPath q.path) :
    False := by
  have hlost := count_strip hx hend
  rw [count_space hw hq hhost hx] at hlost
  have hkept : q.path.count x ≤ (strip (r.url uses)).count x :=
    (urlsplit_path_sublist hsplit).count_le x
  have htrim : (trimPath q.path).count x ≤ q.path.count x := by
    rcases trimPath_cases q.path with ⟨-, he⟩ | ⟨-, hpre⟩
    · have hzero : ([47] : Str).count x = 0 := by
        rw [List.count_eq_zero]
        rintro hm
        rw [List.mem_singleton.mp hm] at hx
        cases hx
      rw [he, hzero]
      exact Nat.zero_le _
    · exact hpre.sublist.count_le x
  rw [← hpath] at htrim
  omega

/-- Whitespace at the end of a path with a host before it is not read again. -/
theorem not_own_tail {q : Parts} {x : Nat} (hw : WellFormed r.scheme r.host r.path r.query)
    (hhost : r.host ≠ []) (hquery : r.query = []) (hx : isSpace x = true)
    (hlast : r.path.getLast? = some x)
    (hsplit : urlsplit literal (strip (r.url uses)) = .ok q) (hpath : r.path = trimPath q.path) :
    False := by
  have hne : r.path ≠ [] := by
    intro hnil
    rw [hnil] at hlast
    cases hlast
  obtain ⟨tail, htail⟩ := List.head?_eq_some_iff.mp ((hw.rooted hhost).resolve_left hne)
  have hpre : r.path.rdropWhile isSpace <+: r.path := List.rdropWhile_prefix _ _
  have hkept : r.path.rdropWhile isSpace ≠ [] := by
    intro hnil
    have hall := List.rdropWhile_eq_nil_iff.mp hnil 47 (by rw [htail]; exact List.mem_cons_self)
    cases hall
  have hhead : (r.path.rdropWhile isSpace).head? = some 47 := by
    obtain ⟨post, hpost⟩ := hpre
    cases hd : r.path.rdropWhile isSpace with
    | nil => exact absurd hd hkept
    | cons c rest =>
      rw [hd, htail] at hpost
      rw [(List.cons.inj hpost).1]
      rfl
  have hshort : (r.path.rdropWhile isSpace).length < r.path.length := by
    obtain ⟨front, hfront⟩ := List.getLast?_eq_some_iff.mp hlast
    have hle := (List.rdropWhile_prefix isSpace (l := front)).length_le
    rw [hfront, List.rdropWhile_concat_pos _ _ _ hx, List.length_append]
    exact Nat.lt_succ_of_le hle
  have hcut : WellFormed r.scheme r.host (r.path.rdropWhile isSpace) [] :=
    ⟨hw.schemeOk, hw.netlocChars, fun c hc => hw.pathChars c (hpre.subset hc),
      fun _ => Or.inr hhead, fun _ hnil => absurd hnil hhost, fun c hc => absurd hc List.not_mem_nil⟩
  have hauthority : ∀ path, authority uses r.scheme r.host path = [47, 47] ++ r.host :=
    fun path => if_pos hhost
  have hstrip : strip (r.url uses) =
      urlunsplit uses r.scheme r.host (r.path.rdropWhile isSpace) [] := by
    rw [urlunsplit_eq hcut.rooted, url_eq hw, hauthority, hauthority, hquery]
    have hnil : queryPart [] = [] := rfl
    have hassoc : ∀ path, schemePart r.scheme ++ ([47, 47] ++ r.host ++ path) =
        schemePart r.scheme ++ ([47, 47] ++ r.host) ++ path :=
      fun path => (List.append_assoc _ _ _).symm
    rw [hnil, List.append_nil, List.append_nil, hassoc, hassoc]
    refine strip_append (by simp) (fun c hc => ?_) hkept
    rw [List.head?_append, Option.or_eq_some_iff] at hc
    rcases hc with hc | ⟨-, hc⟩
    · exact (not_space_scheme (hw.schemeOk.imp_right And.left) c (List.mem_of_mem_head? hc)).1
    · cases hc
      decide
  rw [hstrip, urlsplit_urlunsplit literal uses hcut] at hsplit
  split at hsplit
  · cases hsplit
    rcases trimPath_cases (r.path.rdropWhile isSpace) with ⟨hnil, -⟩ | ⟨-, hpre'⟩
    · exact hkept hnil
    · have hle := hpre'.length_le
      rw [← hpath] at hle
      omega
  · cases hsplit

/-- A result that is its own result is stable. -/
theorem stable_of_url (hp : urlsplit literal u = .ok p) (hr : canonicalParts casing p = .ok r)
    (h : canonicalUrl casing literal uses (r.url uses) = .ok (r.url uses)) : Stable casing p := by
  have hw := wellFormed_canonical hp hr
  have hwp := wellFormed_of_urlsplit hp
  obtain ⟨hscheme, hhost, -, hquery⟩ := canonicalParts_ok hr
  obtain ⟨hslashes, htail, hhead⟩ := ends_iff hwp hr
  obtain ⟨q, r', hq, hr', he⟩ := canonicalUrl_ok.mp h
  have hsame : r' = r := by
    obtain ⟨h1, h2, h3, h4⟩ := urlunsplit_inj (wellFormed_canonical hq hr') hw he
    cases r
    cases r'
    cases h1
    cases h2
    cases h3
    cases h4
    rfl
  rw [hsame] at hr'
  obtain ⟨hscheme', hhost', hpath', -⟩ := canonicalParts_ok hr'
  have hpath : r.path ≠ [] := by
    intro hnil
    have hall := trimPath_eq_nil.mp (hpath'.symm.trans hnil)
    have hfour := four_slashes hq hall.1 hall.2
    have hstrip := (strip_sublist (r.url uses)).count_le 47
    have htwo := count_slashes uses hw hquery
    have hzero : ([] : Str).count 47 = 0 := rfl
    rw [hnil, hzero] at htwo
    omega
  have hfront : r.scheme = [] → r.host = [] → ∀ c, r.path.head? = some c → isSpace c = false := by
    intro hs hh c hc
    by_contra hx
    have hx := eq_true_of_ne_false hx
    refine not_own_result hw hquery hh hx (Or.inl ?_) hq hpath'
    have hnone : authority uses r.scheme r.host r.path = [] := by
      rcases authority_cases uses r.scheme hw.rooted with
        ⟨-, hor⟩ | ⟨-, ha, -⟩
      · rw [hor.resolve_left hpath] at hc
        cases hc
        cases hx
      · exact ha
    have hempty : schemePart r.scheme = [] := by
      rw [hs]
      rfl
    rw [url_eq hw, hnone, hempty, List.nil_append, List.nil_append, List.head?_append, hc]
    rfl
  have hback : r.query = [] → ∀ c, r.path.getLast? = some c → isSpace c = false := by
    intro hnil c hc
    by_contra hx
    have hx := eq_true_of_ne_false hx
    by_cases hh : r.host = []
    · refine not_own_result hw hquery hh hx (Or.inr ?_) hq hpath'
      have hempty : queryPart r.query = [] := by
        rw [hnil]
        rfl
      rw [url_eq hw, hempty, List.append_nil, List.getLast?_append, List.getLast?_append, hc]
      rfl
    · exact not_own_tail hw hh hnil hx hc hq hpath'
  refine ⟨hslashes.mpr hpath, htail.mpr hback, hhead.mpr hfront, ?_⟩
  rw [strip_url hw hquery hpath hback hfront] at hq
  have hread := (urlsplit_urlunsplit literal uses hw).symm.trans hq
  split at hread
  · next hb =>
    cases hread
    have hreads := (hostReads_iff literal hhost).mp ⟨hb, hhost'⟩
    rw [← lower_scheme hwp, ← hscheme]
    exact hreads
  · cases hread

/-! One page, one result. -/

theorem hostOf_samePort {netloc' : Str}
    (hh : casing.lower (hostname casing netloc) = casing.lower (hostname casing netloc'))
    (hp : SamePort scheme (port netloc) (port netloc')) (h : hostOf casing scheme netloc = .ok host) :
    hostOf casing scheme netloc' = .ok host := by
  have hdrop : ∀ {n}, defaultPort scheme n = true →
      (decide (n ≠ 0) && !defaultPort scheme n) = false := by
    intro n hn
    rw [hn, Bool.not_true, Bool.and_false]
  unfold hostOf at h ⊢
  rw [← hh]
  rcases hp with he | ⟨n, hn, ⟨he, he'⟩ | ⟨he, he'⟩⟩
  · rw [← he]
    exact h
  · rw [he] at h
    rw [he', ← h]
    exact congrArg Except.ok (if_neg (by rw [hdrop hn]; decide))
  · rw [he] at h
    rw [he', ← h]
    exact congrArg Except.ok (if_neg (by rw [hdrop hn]; decide)).symm

theorem canonicalParts_samePage (hp : urlsplit literal u = .ok p) (hs : SamePage casing p p')
    (hr : canonicalParts casing p = .ok r) :
    canonicalParts casing p' = .ok { r with path := trimPath p'.path } := by
  obtain ⟨hscheme, hhost, -, hquery⟩ := canonicalParts_ok hr
  have hlower : r.scheme = p.scheme := hscheme.trans (lower_scheme (wellFormed_of_urlsplit hp))
  have hsame : p'.scheme.map asciiLower = r.scheme := by
    rw [hscheme, hs.scheme]
  have hport : SamePort r.scheme (port p.netloc) (port p'.netloc) := hlower ▸ hs.port
  exact canonicalParts_of hsame (hostOf_samePort hs.host hport hhost) rfl (hs.query ▸ hquery)

/-- Two URLs of one page have one result just where the slashes at the end of the path make no
difference. -/
theorem samePage_iff (uses : Str → Bool) (hp : urlsplit literal (strip u) = .ok p)
    (hp' : urlsplit literal (strip v) = .ok p') (hs : SamePage casing p p')
    (hr : canonicalParts casing p = .ok r) :
    canonicalUrl casing literal uses v = .ok (r.url uses) ↔
      (SlashesOnly p.path ↔ SlashesOnly p'.path) := by
  have hr' := canonicalParts_samePage hp hs hr
  have hpath : r.path = trimPath p.path := (canonicalParts_ok hr).2.2.1
  rw [← trimPath_eq_iff hs.path]
  constructor
  · intro h
    obtain ⟨q, r', hq, hrq, he⟩ := canonicalUrl_ok.mp h
    cases hp'.symm.trans hq
    cases hr'.symm.trans hrq
    obtain ⟨-, -, hsame, -⟩ :=
      urlunsplit_inj (wellFormed_canonical hp' hr') (wellFormed_canonical hp hr) he
    exact hpath.symm.trans hsame.symm
  · intro h
    rw [← h, ← hpath] at hr'
    exact canonicalUrl_ok.mpr ⟨p', r, hp', hr', rfl⟩

theorem contentHash_congr {α : Type} {digest : Str → Except Error α} {title : Str}
    (h : canonicalUrl casing literal uses u = canonicalUrl casing literal uses v) :
    contentHash casing literal uses digest u title =
      contentHash casing literal uses digest v title := by
  rw [contentHash, h]
  rfl

/-- The canonical form of a URL is its own canonical form, and that of every URL of the same
page, just where the parts of the URL are stable and a path of slashes alone does not become
the root of the page. -/
theorem canonical_iff (casing : Casing) (literal uses : Str → Bool) (u v : Str) :
    ((∀ c, canonicalUrl casing literal uses u = .ok c →
        canonicalUrl casing literal uses c = .ok c) ∧
      ∀ p p' c, urlsplit literal (strip u) = .ok p → urlsplit literal (strip v) = .ok p' →
        SamePage casing p p' → canonicalUrl casing literal uses u = .ok c →
          canonicalUrl casing literal uses v = .ok c ∧
            ∀ {α : Type} (digest : Str → Except Error α) (title : Str),
              contentHash casing literal uses digest u title =
                contentHash casing literal uses digest v title) ↔
      Succeeds (canonicalUrl casing literal uses u) →
        ∀ p, urlsplit literal (strip u) = .ok p → Stable casing p ∧
          ∀ p', urlsplit literal (strip v) = .ok p' → SamePage casing p p' →
            ¬ SlashesOnly p'.path := by
  constructor
  · rintro ⟨hown, hsame⟩ ⟨c, hc⟩ p hp
    obtain ⟨q, r, hq, hr, rfl⟩ := canonicalUrl_ok.mp hc
    cases hp.symm.trans hq
    have hstable := stable_of_url hp hr (hown _ hc)
    refine ⟨hstable, fun p' hp' hs hslashes => ?_⟩
    have hv := (hsame p p' _ hp hp' hs hc).1
    exact hstable.path (((samePage_iff uses hp hp' hs hr).mp hv).mpr hslashes)
  · intro h
    constructor
    · intro c hc
      obtain ⟨p, r, hp, hr, rfl⟩ := canonicalUrl_ok.mp hc
      exact canonicalUrl_url hp hr (h ⟨_, hc⟩ p hp).1
    · intro p p' c hp hp' hs hc
      obtain ⟨q, r, hq, hr, rfl⟩ := canonicalUrl_ok.mp hc
      cases hp.symm.trans hq
      obtain ⟨hstable, hslashes⟩ := h ⟨_, hc⟩ p hp
      have hv := (samePage_iff uses hp hp' hs hr).mpr
        (iff_of_false hstable.path (hslashes p' hp' hs))
      exact ⟨hv, fun digest title => contentHash_congr (hc.trans hv.symm)⟩

/-- Lower case in ASCII. -/
def asciiCasing : Casing where
  lower s := s.map asciiLower
  small c := asciiLower c = c
  small_lower s c hc := by
    obtain ⟨d, -, rfl⟩ := List.mem_map.mp hc
    unfold asciiLower
    rw [decide_eq_true_iff]
    split
    · rw [if_neg (by omega)]
    · rfl
  lower_small s h := by
    have hid : s.map asciiLower = s.map id :=
      List.map_congr_left fun c hc => of_decide_eq_true (h c hc)
    rw [hid, List.map_id]
  mark_lower s c hm hc := by
    obtain ⟨d, hd, rfl⟩ := List.mem_map.mp hc
    unfold asciiLower at hm ⊢
    split
    · next hlt =>
      rw [if_pos hlt] at hm
      have hall : ∀ d < 91, 65 ≤ d → mark (d + 32) = false := by decide +kernel
      rw [hall d (by omega) hlt.1] at hm
      cases hm
    · exact hd

/-- The slashes go together, and the next time the root comes back. -/
theorem slashes_lost :
    canonicalUrl asciiCasing (fun _ => false) (fun _ => true) (lit "http://h//") =
      .ok (lit "http://h") ∧
    canonicalUrl asciiCasing (fun _ => false) (fun _ => true) (lit "http://h") =
      .ok (lit "http://h/") ∧
    canonicalUrl asciiCasing (fun _ => false) (fun _ => true) (lit "http://h/") =
      .ok (lit "http://h/") := by decide +kernel

end Autora.Pages
