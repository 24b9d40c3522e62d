import Mathlib.Data.List.DropRight
import Autora.Lib.Decimals
import Autora.Lib.Texts

/-! URLs taken apart and put together again. -/

namespace Urls

open Untyped Texts

/-- The characters that `urlsplit` takes out wherever they stand. -/
def removed (c : Nat) : Bool := c = 9 || c = 10 || c = 13

def asciiLetter (c : Nat) : Bool := (65 ≤ c && c ≤ 90) || (97 ≤ c && c ≤ 122)

def asciiLower (c : Nat) : Nat := if 65 ≤ c ∧ c ≤ 90 then c + 32 else c

def schemeChar (c : Nat) : Bool :=
  asciiLetter c || (48 ≤ c && c ≤ 57) || c = 43 || c = 45 || c = 46

/-- The characters that become one of `/?#@:` in a compatibility normalisation. -/
def expanding : List Nat :=
  [0x2047, 0x2048, 0x2049, 0x2100, 0x2101, 0x2105, 0x2106, 0x2A74, 0xFE13, 0xFE16, 0xFE55,
    0xFE56, 0xFE5F, 0xFE6B, 0xFF03, 0xFF0F, 0xFF1A, 0xFF1F, 0xFF20]

structure Parts where
  scheme : Str
  netloc : Str
  path : Str
  query : Str
  fragment : Str
  deriving DecidableEq, Repr

/-- Control characters and spaces are stripped in front. -/
def clean (url : Str) : Str := (url.dropWhile (· ≤ 32)).filter fun c => !removed c

def splitScheme (url : Str) : Str × Str :=
  let name := url.takeWhile (· ≠ 58)
  if name.head?.any asciiLetter && name.all schemeChar && name.length < url.length then
    (name.map asciiLower, url.drop (name.length + 1))
  else ([], url)

def delimiter (c : Nat) : Bool := c = 47 || c = 63 || c = 35

def splitNetloc (url : Str) : Str × Str :=
  if url.take 2 = [47, 47] then
    ((url.drop 2).takeWhile (!delimiter ·), (url.drop 2).dropWhile (!delimiter ·))
  else ([], url)

/-- `url.split(separator, 1)`, the second part empty where there is no separator. -/
def splitAt (separator : Nat) (url : Str) : Str × Str :=
  (url.takeWhile (· ≠ separator), (url.dropWhile (· ≠ separator)).drop 1)

section

variable (literal : Str → Bool)

/-- Brackets stand around an IP address, or nowhere; `literal` is the check of what stands in
them. -/
def bracketsOk (netloc : Str) : Bool :=
  decide (91 ∈ netloc) = decide (93 ∈ netloc) && (decide (91 ∉ netloc) || literal netloc)

/-- `_checknetloc` -/
def netlocOk (netloc : Str) : Bool := netloc.all fun c => c ∉ expanding

def urlsplit (url : Str) : Except Error Parts :=
  let (scheme, rest) := splitScheme (clean url)
  let (netloc, rest) := splitNetloc rest
  if bracketsOk literal netloc && netlocOk netloc then
    let (rest, fragment) := splitAt 35 rest
    let (path, query) := splitAt 63 rest
    .ok ⟨scheme, netloc, path, query, fragment⟩
  else .error .valueError

end

/-- `urlunsplit` without a fragment; `uses` are the schemes that have a network location. -/
def urlunsplit (uses : Str → Bool) (scheme netloc path query : Str) : Str :=
  let url :=
    if netloc ≠ [] then
      [47, 47] ++ netloc ++ if path ≠ [] ∧ path.head? ≠ some 47 then 47 :: path else path
    else if path.take 2 = [47, 47] then [47, 47] ++ path
    else if scheme ≠ [] ∧ uses scheme ∧ (path = [] ∨ path.head? = some 47) then [47, 47] ++ path
    else path
  let url := if scheme ≠ [] then scheme ++ 58 :: url else url
  if query ≠ [] then url ++ 63 :: query else url

/-! A text that begins like a URL with a scheme. -/

structure ValidScheme (name : Str) : Prop where
  letter : name.head?.any asciiLetter = true
  chars : ∀ c ∈ name, schemeChar c = true

def Schemelike (s : Str) : Prop := ∃ name rest, s = name ++ 58 :: rest ∧ ValidScheme name

variable {s t name rest : Str}

theorem schemeChar_ne {c : Nat} (h : schemeChar c = true) : c ≠ 58 ∧ c ≠ 63 ∧ c ≠ 35 ∧ c ≠ 47 := by
  simp only [schemeChar, asciiLetter, Bool.or_eq_true, Bool.and_eq_true, decide_eq_true_eq] at h
  omega

theorem takeWhile_ne_append {c : Nat} (hs : c ∉ s) :
    (s ++ c :: t).takeWhile (· ≠ c) = s ∧ (s ++ c :: t).dropWhile (· ≠ c) = c :: t := by
  have hall : ∀ x ∈ s, decide (x ≠ c) = true := by
    intro x hx
    exact decide_eq_true fun he => hs (he ▸ hx)
  rw [List.takeWhile_append_of_pos hall, List.dropWhile_append_of_pos hall]
  simp

theorem takeWhile_ne_self {c : Nat} (hs : c ∉ s) :
    s.takeWhile (· ≠ c) = s ∧ s.dropWhile (· ≠ c) = [] := by
  have hall : ∀ x ∈ s, decide (x ≠ c) = true := by
    intro x hx
    exact decide_eq_true fun he => hs (he ▸ hx)
  exact ⟨List.takeWhile_eq_self_iff.mpr hall, List.dropWhile_eq_nil_iff.mpr hall⟩

theorem splitScheme_of (h : ValidScheme name) :
    splitScheme (name ++ 58 :: rest) = (name.map asciiLower, rest) := by
  have hnot : 58 ∉ name := fun hm => (schemeChar_ne (h.chars 58 hm)).1 rfl
  have hall : name.all schemeChar = true := List.all_eq_true.mpr h.chars
  have hlt : name.length < (name ++ 58 :: rest).length := by simp
  unfold splitScheme
  dsimp only
  rw [(takeWhile_ne_append hnot).1, h.letter, hall, decide_eq_true hlt]
  simp

theorem splitScheme_none (h : ¬ Schemelike s) : splitScheme s = ([], s) := by
  unfold splitScheme
  dsimp only
  split
  · next hif =>
    exfalso
    simp only [Bool.and_eq_true, decide_eq_true_eq] at hif
    obtain ⟨⟨hletter, hchars⟩, hlt⟩ := hif
    -- the text after the name begins with the colon
    have hsplit := List.takeWhile_append_dropWhile (p := (· ≠ 58)) (l := s)
    cases hd : s.dropWhile (· ≠ 58) with
    | nil =>
      rw [hd, List.append_nil] at hsplit
      rw [hsplit] at hlt
      exact Nat.lt_irrefl _ hlt
    | cons c rest =>
      have hc : c = 58 := by
        have hne := List.head?_dropWhile_not (fun c => decide (c ≠ 58)) s
        rw [hd] at hne
        simpa using hne
      rw [hd, hc] at hsplit
      exact h ⟨_, rest, hsplit.symm, hletter, List.all_eq_true.mp hchars⟩
  · rfl

theorem Schemelike.append (h : Schemelike s) (t : Str) : Schemelike (s ++ t) := by
  obtain ⟨name, rest, rfl, hv⟩ := h
  exact ⟨name, rest ++ t, by simp, hv⟩

/-- What a question mark begins does not make a scheme. -/
theorem schemelike_query (h : Schemelike (s ++ 63 :: t)) : Schemelike s := by
  obtain ⟨name, rest, he, hv⟩ := h
  have hnot : 63 ∉ name := fun hm => (schemeChar_ne (hv.chars 63 hm)).2.1 rfl
  rcases List.append_eq_append_iff.mp he with ⟨mid, hname, hrest⟩ | ⟨mid, hs, hrest⟩
  · cases mid with
    | nil => cases hrest
    | cons c mid =>
      obtain ⟨rfl, -⟩ := List.cons.inj hrest
      exact absurd (hname ▸ List.mem_append_right s List.mem_cons_self) hnot
  · cases mid with
    | nil => cases hrest
    | cons c mid =>
      obtain ⟨rfl, -⟩ := List.cons.inj hrest
      exact ⟨name, mid, hs, hv⟩

theorem not_schemelike_slash : ¬ Schemelike (47 :: s) := by
  rintro ⟨name, rest, he, hv⟩
  have hletter := hv.letter
  cases name with
  | nil => cases hletter
  | cons c name =>
    obtain ⟨rfl, -⟩ := List.cons.inj he
    cases hletter

theorem not_schemelike_nil : ¬ Schemelike [] := by
  rintro ⟨name, rest, he, -⟩
  cases List.append_ne_nil_of_right_ne_nil name (List.cons_ne_nil 58 rest) he.symm

theorem clean_eq_self (hr : ∀ c ∈ s, removed c = false) (hh : ∀ c, s.head? = some c → 32 < c) :
    clean s = s := by
  have hd : s.dropWhile (· ≤ 32) = s := by
    cases s with
    | nil => rfl
    | cons c s =>
      have hc := hh c rfl
      rw [List.dropWhile_cons_of_neg]
      rw [decide_eq_true_iff]
      omega
  rw [clean, hd, List.filter_eq_self]
  intro c hc
  rw [hr c hc]
  rfl

/-! A URL put together from its parts is taken apart into them. -/

structure WellFormed (scheme netloc path query : Str) : Prop where
  schemeOk : scheme = [] ∨ ValidScheme scheme ∧ scheme.map asciiLower = scheme
  netlocChars : ∀ c ∈ netloc, removed c = false ∧ delimiter c = false ∧ c ∉ expanding
  pathChars : ∀ c ∈ path, removed c = false ∧ c ≠ 63 ∧ c ≠ 35
  rooted : netloc ≠ [] → path = [] ∨ path.head? = some 47
  bare : scheme = [] → netloc = [] → ¬ Schemelike path ∧ ∀ c, path.head? = some c → 32 < c
  queryChars : ∀ c ∈ query, removed c = false ∧ c ≠ 35

/-- The query with its question mark. -/
def queryPart (query : Str) : Str := if query ≠ [] then 63 :: query else []

/-- The scheme with its colon. -/
def schemePart (scheme : Str) : Str := if scheme ≠ [] then scheme ++ [58] else []

/-- The slashes and the network location. -/
def authority (uses : Str → Bool) (scheme netloc path : Str) : Str :=
  if netloc ≠ [] then [47, 47] ++ netloc
  else if path.take 2 = [47, 47] then [47, 47]
  else if scheme ≠ [] ∧ uses scheme ∧ (path = [] ∨ path.head? = some 47) then [47, 47]
  else []

variable {uses : Str → Bool} {literal : Str → Bool} {scheme netloc path query : Str}

theorem urlunsplit_eq (h : netloc ≠ [] → path = [] ∨ path.head? = some 47) :
    urlunsplit uses scheme netloc path query = schemePart scheme ++
      (authority uses scheme netloc path ++ (path ++ queryPart query)) := by
  have hbody : (if netloc ≠ [] then
      [47, 47] ++ netloc ++ if path ≠ [] ∧ path.head? ≠ some 47 then 47 :: path else path
      else if path.take 2 = [47, 47] then [47, 47] ++ path
      else if scheme ≠ [] ∧ uses scheme ∧ (path = [] ∨ path.head? = some 47) then [47, 47] ++ path
      else path) = authority uses scheme netloc path ++ path := by
    rw [authority]
    split
    · next hn =>
      rw [if_neg]
      rintro ⟨hne, hh⟩
      rcases h hn with hp | hp
      · exact hne hp
      · exact hh hp
    · split
      · rfl
      · split <;> rfl
  rw [urlunsplit, hbody, schemePart, queryPart]
  split
  · split <;> simp
  · split <;> simp

theorem authority_cases (uses : Str → Bool) (scheme : Str)
    (hr : netloc ≠ [] → path = [] ∨ path.head? = some 47) :
    authority uses scheme netloc path = [47, 47] ++ netloc ∧
        (path = [] ∨ path.head? = some 47) ∨
      netloc = [] ∧ authority uses scheme netloc path = [] ∧ path.take 2 ≠ [47, 47] := by
  unfold authority
  split
  · next hn => exact Or.inl ⟨rfl, hr hn⟩
  · next hn =>
    rw [not_not.mp hn]
    split
    · next hp =>
      refine Or.inl ⟨rfl, Or.inr ?_⟩
      cases path with
      | nil => cases hp
      | cons c path =>
        rw [List.take_succ_cons] at hp
        rw [List.head?_cons, (List.cons.inj hp).1]
    · next hp =>
      split
      · next hu => exact Or.inl ⟨rfl, hu.2.2⟩
      · exact Or.inr ⟨rfl, rfl, hp⟩

theorem splitNetloc_authority (hn : ∀ c ∈ netloc, delimiter c = false)
    (hr : netloc ≠ [] → path = [] ∨ path.head? = some 47) :
    splitNetloc (authority uses scheme netloc path ++ (path ++ queryPart query)) =
      (netloc, path ++ queryPart query) := by
  have hstop : ∀ {rest : Str}, rest = [] ∨ (∃ c tail, rest = c :: tail ∧ delimiter c = true) →
      (netloc ++ rest).takeWhile (!delimiter ·) = netloc ∧
        (netloc ++ rest).dropWhile (!delimiter ·) = rest := by
    intro rest hrest
    have hall : ∀ c ∈ netloc, (!delimiter c) = true := by
      intro c hc
      rw [hn c hc]
      rfl
    rw [List.takeWhile_append_of_pos hall, List.dropWhile_append_of_pos hall]
    rcases hrest with rfl | ⟨c, tail, rfl, hc⟩
    · simp
    · simp [hc]
  have hquery : queryPart query = [] ∨ ∃ c tail, queryPart query = c :: tail ∧
      delimiter c = true := by
    unfold queryPart
    split
    · exact Or.inr ⟨63, query, rfl, rfl⟩
    · exact Or.inl rfl
  rcases authority_cases uses scheme hr with ⟨ha, hp⟩ | ⟨hnil, ha, hp⟩
  · have hrest : path ++ queryPart query = [] ∨
        ∃ c tail, path ++ queryPart query = c :: tail ∧ delimiter c = true := by
      rcases hp with rfl | hp
      · exact hquery
      · cases path with
        | nil => cases hp
        | cons c path =>
          cases hp
          exact Or.inr ⟨47, path ++ queryPart query, rfl, rfl⟩
    obtain ⟨htake, hdrop⟩ := hstop hrest
    rw [ha, splitNetloc]
    simp only [List.cons_append, List.nil_append, List.take_succ_cons, List.take_zero,
      List.drop_succ_cons, List.drop_zero, if_true, htake, hdrop]
  · rw [ha, hnil, List.nil_append, splitNetloc, if_neg]
    intro htake
    unfold queryPart at htake
    match path, hp with
    | [], _ =>
      split at htake
      · cases (List.cons.inj htake).1
      · cases htake
    | [c], _ =>
      split at htake
      · cases (List.cons.inj (List.cons.inj htake).2).1
      · cases htake
    | c :: d :: _, hp =>
      exact hp htake

theorem splitScheme_join (h : WellFormed scheme netloc path query) :
    splitScheme (schemePart scheme ++
      (authority uses scheme netloc path ++ (path ++ queryPart query))) =
        (scheme, authority uses scheme netloc path ++ (path ++ queryPart query)) := by
  rcases h.schemeOk with rfl | ⟨hv, hlower⟩
  · refine splitScheme_none ?_
    rw [schemePart, if_neg (not_not.mpr rfl), List.nil_append]
    rcases authority_cases uses [] h.rooted with ⟨ha, -⟩ | ⟨hnil, ha, -⟩
    · rw [ha]
      exact not_schemelike_slash
    · rw [ha, List.nil_append]
      obtain ⟨hbare, -⟩ := h.bare rfl hnil
      unfold queryPart
      split
      · exact fun hs => hbare (schemelike_query hs)
      · rw [List.append_nil]
        exact hbare
  · have hne : scheme ≠ [] := by
      rintro rfl
      cases hv.letter
    rw [schemePart, if_pos hne, List.append_assoc, List.singleton_append, splitScheme_of hv, hlower]

theorem removed_schemeChar {c : Nat} (h : schemeChar c = true) : removed c = false ∧ 32 < c := by
  simp only [schemeChar, asciiLetter, removed, Bool.or_eq_true, Bool.and_eq_true,
    decide_eq_true_eq, Bool.or_eq_false_iff, decide_eq_false_iff_not] at h ⊢
  omega

theorem clean_join (h : WellFormed scheme netloc path query) :
    clean (urlunsplit uses scheme netloc path query) =
      schemePart scheme ++ (authority uses scheme netloc path ++ (path ++ queryPart query)) := by
  rw [urlunsplit_eq h.rooted]
  have hauthority : ∀ c ∈ authority uses scheme netloc path, removed c = false := by
    rcases authority_cases uses scheme h.rooted with ⟨ha, -⟩ | ⟨-, ha, -⟩
    · rw [ha]
      intro c hc
      have hslashes : ∀ c ∈ ([47, 47] : Str), removed c = false := by decide
      rcases List.mem_append.mp hc with hc | hc
      · exact hslashes c hc
      · exact (h.netlocChars c hc).1
    · rw [ha]
      exact fun c hc => absurd hc List.not_mem_nil
  have hquery : ∀ c ∈ queryPart query, removed c = false := by
    unfold queryPart
    split
    · exact List.forall_mem_cons.mpr ⟨rfl, fun c hc => (h.queryChars c hc).1⟩
    · exact fun c hc => absurd hc List.not_mem_nil
  have hscheme : ∀ c ∈ schemePart scheme, removed c = false := by
    unfold schemePart
    split
    · next hne =>
      obtain ⟨hv, -⟩ := h.schemeOk.resolve_left hne
      intro c hc
      rcases List.mem_append.mp hc with hc | hc
      · exact (removed_schemeChar (hv.chars c hc)).1
      · rw [List.mem_singleton.mp hc]
        rfl
    · exact fun c hc => absurd hc List.not_mem_nil
  apply clean_eq_self
  · intro c hc
    rcases List.mem_append.mp hc with hc | hc
    · exact hscheme c hc
    · rcases List.mem_append.mp hc with hc | hc
      · exact hauthority c hc
      · rcases List.mem_append.mp hc with hc | hc
        · exact (h.pathChars c hc).1
        · exact hquery c hc
  · intro c hc
    rcases h.schemeOk with rfl | ⟨hv, -⟩
    · rw [schemePart, if_neg (not_not.mpr rfl), List.nil_append] at hc
      rcases authority_cases uses [] h.rooted with ⟨ha, -⟩ | ⟨hnil, ha, -⟩
      · rw [ha] at hc
        cases hc
        omega
      · rw [ha, List.nil_append] at hc
        cases path with
        | nil =>
          unfold queryPart at hc
          split at hc
          · cases hc
            omega
          · cases hc
        | cons d path =>
          cases hc
          exact (h.bare rfl hnil).2 c rfl
    · cases hs : scheme with
      | nil =>
        rw [hs] at hv
        cases hv.letter
      | cons d scheme =>
        rw [hs, schemePart, if_pos (List.cons_ne_nil d scheme)] at hc
        cases hc
        exact (removed_schemeChar (hv.chars c (hs ▸ List.mem_cons_self))).2

/-- The parts of a URL are read as they were, where the brackets of the network location are
accepted. -/
theorem urlsplit_urlunsplit (literal uses : Str → Bool)
    (h : WellFormed scheme netloc path query) :
    urlsplit literal (urlunsplit uses scheme netloc path query) =
      if bracketsOk literal netloc = true then .ok ⟨scheme, netloc, path, query, []⟩
      else .error .valueError := by
  have hnetloc : ∀ c ∈ netloc, delimiter c = false := fun c hc => (h.netlocChars c hc).2.1
  have hallowed : netlocOk netloc = true := by
    rw [netlocOk, List.all_eq_true]
    exact fun c hc => decide_eq_true (h.netlocChars c hc).2.2
  have hfragment : 35 ∉ path ++ queryPart query := by
    intro hm
    rcases List.mem_append.mp hm with hm | hm
    · exact (h.pathChars 35 hm).2.2 rfl
    · unfold queryPart at hm
      split at hm
      · rcases List.mem_cons.mp hm with hm | hm
        · cases hm
        · exact (h.queryChars 35 hm).2 rfl
      · cases hm
  have hquery : 63 ∉ path := fun hm => (h.pathChars 63 hm).2.1 rfl
  unfold urlsplit
  dsimp only
  rw [clean_join h, splitScheme_join h]
  dsimp only
  rw [splitNetloc_authority hnetloc h.rooted]
  dsimp only
  rw [hallowed, Bool.and_true]
  by_cases hb : bracketsOk literal netloc = true
  · rw [if_pos hb, if_pos hb]
    simp only [splitAt, takeWhile_ne_self hfragment, List.drop_nil]
    unfold queryPart
    split
    · rw [(takeWhile_ne_append hquery).1, (takeWhile_ne_append hquery).2]
      rfl
    · next hq =>
      rw [List.append_nil, (takeWhile_ne_self hquery).1, (takeWhile_ne_self hquery).2,
        not_not.mp hq]
      rfl
  · rw [if_neg hb, if_neg hb]

theorem queryPart_inj {path' query' : Str} (hp : 63 ∉ path) (hp' : 63 ∉ path')
    (h : path ++ queryPart query = path' ++ queryPart query') : path = path' ∧ query = query' := by
  have hsplit : ∀ {path query : Str}, 63 ∉ path →
      splitAt 63 (path ++ queryPart query) = (path, query) := by
    intro path query hp
    unfold splitAt queryPart
    split
    · rw [(takeWhile_ne_append hp).1, (takeWhile_ne_append hp).2]
      rfl
    · next hq =>
      rw [List.append_nil, (takeWhile_ne_self hp).1, (takeWhile_ne_self hp).2, not_not.mp hq]
      rfl
  have hboth := congrArg (splitAt 63) h
  rw [hsplit hp, hsplit hp', Prod.mk.injEq] at hboth
  exact hboth

/-- A URL has one way to be put together. -/
theorem urlunsplit_inj {scheme' netloc' path' query' : Str}
    (h : WellFormed scheme netloc path query) (h' : WellFormed scheme' netloc' path' query')
    (he : urlunsplit uses scheme netloc path query = urlunsplit uses scheme' netloc' path' query') :
    scheme = scheme' ∧ netloc = netloc' ∧ path = path' ∧ query = query' := by
  have hclean := congrArg clean he
  rw [clean_join h, clean_join h'] at hclean
  have hscheme := congrArg splitScheme hclean
  rw [splitScheme_join h, splitScheme_join h', Prod.mk.injEq] at hscheme
  have hnetloc := congrArg splitNetloc hscheme.2
  rw [splitNetloc_authority (fun c hc => (h.netlocChars c hc).2.1) h.rooted,
    splitNetloc_authority (fun c hc => (h'.netlocChars c hc).2.1) h'.rooted,
    Prod.mk.injEq] at hnetloc
  obtain ⟨hpath, hquery⟩ := queryPart_inj (fun hm => (h.pathChars 63 hm).2.1 rfl)
    (fun hm => (h'.pathChars 63 hm).2.1 rfl) hnetloc.2
  exact ⟨hscheme.1, hnetloc.1, hpath, hquery⟩

/-! What is taken apart can be put together. -/

theorem clean_chars (url : Str) : ∀ c ∈ clean url, removed c = false := by
  intro c hc
  simpa using (List.mem_filter.mp hc).2

theorem clean_head (url : Str) : ∀ c, (clean url).head? = some c → 32 < c := by
  intro c hc
  unfold clean at hc
  have hhead := List.head?_dropWhile_not (fun c => decide (c ≤ 32)) url
  cases hd : url.dropWhile (· ≤ 32) with
  | nil =>
    rw [hd] at hc
    cases hc
  | cons d rest =>
    rw [hd] at hc hhead
    have hlt : 32 < d := by simpa using hhead
    have hkeep : (!removed d) = true := by
      simp only [removed, Bool.not_eq_true', Bool.or_eq_false_iff, decide_eq_false_iff_not]
      omega
    rw [List.filter_cons, if_pos hkeep] at hc
    cases hc
    exact hlt

theorem asciiLower_scheme {c : Nat} (h : schemeChar c = true) :
    schemeChar (asciiLower c) = true ∧ asciiLower (asciiLower c) = asciiLower c ∧
      (asciiLetter c = true → asciiLetter (asciiLower c) = true) := by
  have hlt : c < 123 := by
    simp only [schemeChar, asciiLetter, Bool.or_eq_true, Bool.and_eq_true,
      decide_eq_true_eq] at h
    omega
  have hall : ∀ c < 123, schemeChar c = true → schemeChar (asciiLower c) = true ∧
      asciiLower (asciiLower c) = asciiLower c ∧
        (asciiLetter c = true → asciiLetter (asciiLower c) = true) := by decide +kernel
  exact hall c hlt h

theorem ValidScheme.lower (h : ValidScheme name) : ValidScheme (name.map asciiLower) ∧
    (name.map asciiLower).map asciiLower = name.map asciiLower := by
  refine ⟨⟨?_, ?_⟩, ?_⟩
  · cases name with
    | nil => cases h.letter
    | cons c name => exact (asciiLower_scheme (h.chars c List.mem_cons_self)).2.2 h.letter
  · intro c hc
    obtain ⟨d, hd, rfl⟩ := List.mem_map.mp hc
    exact (asciiLower_scheme (h.chars d hd)).1
  · rw [List.map_map]
    exact List.map_congr_left fun c hc => (asciiLower_scheme (h.chars c hc)).2.1

/-- Either a scheme was split off, or the text does not begin like one. -/
theorem splitScheme_cases (s : Str) :
    (∃ name rest, s = name ++ 58 :: rest ∧ ValidScheme name ∧
      splitScheme s = (name.map asciiLower, rest)) ∨
    ¬ Schemelike s ∧ splitScheme s = ([], s) := by
  by_cases h : Schemelike s
  · obtain ⟨name, rest, rfl, hv⟩ := h
    exact Or.inl ⟨name, rest, rfl, hv, splitScheme_of hv⟩
  · exact Or.inr ⟨h, splitScheme_none h⟩

theorem splitNetloc_cases (s : Str) :
    (∃ netloc rest, s = [47, 47] ++ (netloc ++ rest) ∧ (∀ c ∈ netloc, delimiter c = false) ∧
      (∀ c, rest.head? = some c → delimiter c = true) ∧ splitNetloc s = (netloc, rest)) ∨
    s.take 2 ≠ [47, 47] ∧ splitNetloc s = ([], s) := by
  unfold splitNetloc
  split
  · next h =>
    refine Or.inl ⟨_, _, ?_, ?_, ?_, rfl⟩
    · rw [List.takeWhile_append_dropWhile, ← h, List.take_append_drop]
    · intro c hc
      simpa using List.mem_takeWhile_imp hc
    · intro c hc
      have hhead := List.head?_dropWhile_not (!delimiter ·) (s.drop 2)
      rw [hc] at hhead
      simpa using hhead
  · next h => exact Or.inr ⟨h, rfl⟩

/-- The path at the start of what follows the network location. -/
def pathOf (rest : Str) : Str := (rest.takeWhile (· ≠ 35)).takeWhile (· ≠ 63)

theorem pathOf_starts (rest : Str) : pathOf rest <+: rest :=
  (List.takeWhile_prefix _).trans (List.takeWhile_prefix _)

theorem pathOf_chars {rest : Str} {c : Nat} (h : c ∈ pathOf rest) : c ≠ 63 ∧ c ≠ 35 := by
  have hm := (List.takeWhile_sublist _).subset h
  refine ⟨?_, ?_⟩
  · simpa using List.mem_takeWhile_imp h
  · simpa using List.mem_takeWhile_imp hm

/-- After a network location the path is empty or begins with a slash. -/
theorem pathOf_rooted {rest : Str} (h : ∀ c, rest.head? = some c → delimiter c = true) :
    pathOf rest = [] ∨ ∃ tail, pathOf rest = 47 :: tail := by
  cases hp : pathOf rest with
  | nil => exact Or.inl rfl
  | cons c tail =>
    obtain ⟨post, hpost⟩ := pathOf_starts rest
    rw [hp] at hpost
    have hd := h c (by rw [← hpost]; rfl)
    obtain ⟨hq, hf⟩ := pathOf_chars (hp ▸ List.mem_cons_self : c ∈ pathOf rest)
    have hc : c = 47 := by
      simp only [delimiter, Bool.or_eq_true, decide_eq_true_eq] at hd
      omega
    exact Or.inr ⟨tail, by rw [hc]⟩

theorem wellFormed_split (hchars : ∀ c ∈ s, removed c = false)
    (hhead : ∀ c, s.head? = some c → 32 < c)
    (hok : netlocOk (splitNetloc (splitScheme s).2).1 = true) :
    WellFormed (splitScheme s).1 (splitNetloc (splitScheme s).2).1
      (pathOf (splitNetloc (splitScheme s).2).2) [] := by
  have hscheme : (splitScheme s).1 = [] ∨ ValidScheme (splitScheme s).1 ∧
      (splitScheme s).1.map asciiLower = (splitScheme s).1 := by
    rcases splitScheme_cases s with ⟨name, rest, -, hv, he⟩ | ⟨-, he⟩
    · rw [he]
      exact Or.inr hv.lower
    · rw [he]
      exact Or.inl rfl
  have hrest : ∀ c ∈ (splitScheme s).2, removed c = false := by
    rcases splitScheme_cases s with ⟨name, rest, hs, -, he⟩ | ⟨-, he⟩
    · rw [he]
      intro c hc
      exact hchars c (hs ▸ List.mem_append_right name (List.mem_cons_of_mem 58 hc))
    · rw [he]
      exact hchars
  have hbare : (splitScheme s).1 = [] → (splitNetloc (splitScheme s).2).1 = [] →
      ¬ Schemelike (pathOf (splitNetloc (splitScheme s).2).2) ∧
        ∀ c, (pathOf (splitNetloc (splitScheme s).2).2).head? = some c → 32 < c := by
    intro hnil hnetloc
    rcases splitScheme_cases s with ⟨name, rest, -, hv, he⟩ | ⟨hnot, he⟩
    · rw [he] at hnil
      dsimp only at hnil
      have hletter := hv.lower.1.letter
      rw [hnil] at hletter
      cases hletter
    · rw [he]
      dsimp only
      rcases splitNetloc_cases s with ⟨netloc, rest, -, -, hstop, hn⟩ | ⟨-, hn⟩
      · rw [hn]
        rcases pathOf_rooted hstop with hp | ⟨tail, hp⟩
        · rw [hp]
          exact ⟨not_schemelike_nil, nofun⟩
        · rw [hp]
          refine ⟨not_schemelike_slash, fun c hc => ?_⟩
          cases hc
          omega
      · rw [hn]
        obtain ⟨post, hpost⟩ := pathOf_starts s
        refine ⟨fun hs => hnot (hpost ▸ hs.append post), fun c hc => hhead c ?_⟩
        rw [← hpost, List.head?_append, hc]
        rfl
  generalize (splitScheme s).2 = rest at hok hrest hbare ⊢
  have hallowed : ∀ c ∈ (splitNetloc rest).1, c ∉ expanding := fun c hc =>
    of_decide_eq_true (List.all_eq_true.mp hok c hc)
  rcases splitNetloc_cases rest with ⟨netloc, tail, hs, hdelim, hstop, he⟩ | ⟨-, he⟩
  · rw [he] at hallowed hbare ⊢
    have hmem : ∀ c, c ∈ netloc ++ tail → removed c = false := fun c hc =>
      hrest c (hs ▸ List.mem_append_right [47, 47] hc)
    refine ⟨hscheme, fun c hc => ⟨hmem c (List.mem_append_left tail hc), hdelim c hc,
      hallowed c hc⟩, fun c hc => ⟨hmem c (List.mem_append_right netloc
        ((pathOf_starts tail).subset hc)), pathOf_chars hc⟩, fun _ => ?_, hbare,
      fun c hc => absurd hc List.not_mem_nil⟩
    rcases pathOf_rooted hstop with hp | ⟨tail', hp⟩
    · exact Or.inl hp
    · refine Or.inr ?_
      rw [hp]
      rfl
  · rw [he] at hbare ⊢
    exact ⟨hscheme, fun c hc => absurd hc List.not_mem_nil,
      fun c hc => ⟨hrest c ((pathOf_starts rest).subset hc), pathOf_chars hc⟩,
      fun hne => absurd rfl hne, hbare, fun c hc => absurd hc List.not_mem_nil⟩

theorem wellFormed_of_urlsplit {url : Str} {p : Parts} (h : urlsplit literal url = .ok p) :
    WellFormed p.scheme p.netloc p.path [] := by
  unfold urlsplit at h
  dsimp only at h
  split at h
  · next hok =>
    rw [Bool.and_eq_true] at hok
    cases h
    exact wellFormed_split (clean_chars url) (clean_head url) hok.2
  · cases h

theorem urlsplit_path {url : Str} {p : Parts} (h : urlsplit literal url = .ok p) :
    p.path = pathOf (splitNetloc (splitScheme (clean url)).2).2 := by
  unfold urlsplit at h
  dsimp only at h
  split at h
  · cases h
    rfl
  · cases h

theorem clean_sublist (url : Str) : (clean url).Sublist url :=
  List.filter_sublist.trans (List.dropWhile_sublist _)

theorem splitScheme_sublist (s : Str) : (splitScheme s).2.Sublist s := by
  rcases splitScheme_cases s with ⟨name, rest, hs, -, he⟩ | ⟨-, he⟩
  · rw [he, hs]
    exact (List.sublist_cons_self 58 rest).trans (List.sublist_append_right name _)
  · rw [he]

theorem splitNetloc_sublist (s : Str) : (splitNetloc s).2.Sublist s := by
  rcases splitNetloc_cases s with ⟨netloc, rest, hs, -, -, he⟩ | ⟨-, he⟩
  · rw [he, hs]
    exact (List.sublist_append_right netloc rest).trans (List.sublist_append_right [47, 47] _)
  · rw [he]

theorem urlsplit_path_sublist {url : Str} {p : Parts} (h : urlsplit literal url = .ok p) :
    p.path.Sublist url := by
  rw [urlsplit_path h]
  exact (pathOf_starts _).sublist.trans ((splitNetloc_sublist _).trans
    ((splitScheme_sublist _).trans (clean_sublist url)))

/-- A path of slashes alone comes after the two slashes of a network location. -/
theorem four_slashes {url : Str} {p : Parts} (h : urlsplit literal url = .ok p)
    (hlong : 2 ≤ p.path.length) (hall : ∀ c ∈ p.path, c = 47) : 4 ≤ url.count 47 := by
  have hpath := urlsplit_path h
  have hscheme : (splitScheme (clean url)).2.count 47 ≤ url.count 47 :=
    ((splitScheme_sublist _).trans (clean_sublist url)).count_le 47
  have hslashes : p.path = List.replicate p.path.length 47 := List.eq_replicate_iff.mpr ⟨rfl, hall⟩
  have hcount : p.path.count 47 = p.path.length := List.count_eq_length.mpr fun c hc =>
    (hall c hc).symm
  generalize (splitScheme (clean url)).2 = rest at hscheme hpath
  rcases splitNetloc_cases rest with ⟨netloc, tail, hs, -, -, he⟩ | ⟨hnot, he⟩
  · rw [he] at hpath
    have htail : p.path.count 47 ≤ tail.count 47 := hpath ▸ (pathOf_starts tail).sublist.count_le 47
    rw [hs, List.count_append, List.count_append] at hscheme
    have htwo : ([47, 47] : Str).count 47 = 2 := rfl
    omega
  · -- without a network location the text would begin with the two slashes of one
    rw [he] at hpath
    obtain ⟨post, hpost⟩ := hpath ▸ pathOf_starts rest
    exfalso
    apply hnot
    rw [← hpost, List.take_append_of_le_length hlong, hslashes, List.take_replicate,
      Nat.min_eq_left hlong]
    rfl

/-! The host and the port of a network location. -/

/-- What lower-casing leaves where it was. -/
def mark (c : Nat) : Bool := (c < 128 && !asciiLetter c) || c ∈ expanding

/-- `str.lower`: the characters it gives, and that it takes no mark away and brings none. -/
structure Casing where
  lower : Str → Str
  small : Nat → Bool
  small_lower : ∀ s, ∀ c ∈ lower s, small c = true
  lower_small : ∀ s, (∀ c ∈ s, small c = true) → lower s = s
  mark_lower : ∀ s c, mark c = true → c ∈ lower s → c ∈ s

/-- The host with the port, as the network location has them after the last `@`. -/
def hostAndPort (netloc : Str) : Str × Str :=
  let info := netloc.rtakeWhile (· ≠ 64)
  if 91 ∈ info then
    let bracketed := (splitAt 91 info).2
    ((splitAt 93 bracketed).1, (splitAt 58 (splitAt 93 bracketed).2).2)
  else splitAt 58 info

section

variable (casing : Casing)

/-- `hostname`, the empty text where there is none: what follows a `%` is left as it is. -/
def hostname (netloc : Str) : Str :=
  let host := (hostAndPort netloc).1
  casing.lower (host.takeWhile (· ≠ 37)) ++ host.dropWhile (· ≠ 37)

end

def asciiDigit (c : Nat) : Bool := 48 ≤ c && c ≤ 57

def portOf (port : Str) : Except Error (Option Nat) :=
  if port = [] then .ok none
  else if port.all asciiDigit then
    let n := Decimals.whole (port.map (· - 48))
    if n ≤ 65535 then .ok (some n) else .error .valueError
  else .error .valueError

/-- `port`. -/
def port (netloc : Str) : Except Error (Option Nat) := portOf (hostAndPort netloc).2

/-- `str(n)` of a positive number. -/
def decimal (n : Nat) : Str := (Nat.digits 10 n).reverse.map (· + 48)

theorem decimal_digits (n : Nat) : ∀ c ∈ decimal n, asciiDigit c = true := by
  intro c hc
  obtain ⟨d, hd, rfl⟩ := List.mem_map.mp hc
  have hlt : d < 10 := Nat.digits_lt_base (by omega) (List.mem_reverse.mp hd)
  simp only [asciiDigit, Bool.and_eq_true, decide_eq_true_eq]
  omega

theorem decimal_ne_nil {n : Nat} (h : n ≠ 0) : decimal n ≠ [] := by
  intro hnil
  rw [decimal, List.map_eq_nil_iff, List.reverse_eq_nil_iff] at hnil
  exact h (Nat.digits_eq_nil_iff_eq_zero.mp hnil)

theorem portOf_decimal {n : Nat} (h : n ≠ 0) (hle : n ≤ 65535) :
    portOf (decimal n) = .ok (some n) := by
  have hdigits : (decimal n).map (· - 48) = (Nat.digits 10 n).reverse := by
    rw [decimal, List.map_map]
    exact List.map_id _
  have hvalue : Decimals.whole ((Nat.digits 10 n).reverse) = n := by
    rw [Decimals.whole, List.reverse_reverse, Nat.ofDigits_digits]
  unfold portOf
  rw [if_neg (decimal_ne_nil h), if_pos (List.all_eq_true.mpr (decimal_digits n)), hdigits]
  dsimp only
  rw [hvalue, if_pos hle]

theorem portOf_le {port : Str} {n : Nat} (h : portOf port = .ok (some n)) : n ≤ 65535 := by
  unfold portOf at h
  dsimp only at h
  split at h
  · cases h
  · split at h
    · split at h
      · next hle =>
        cases h
        exact hle
      · cases h
    · cases h

/-- A host that is plain text, with a port or without one, is read as it is written. -/
theorem hostAndPort_plain {host : Str} (digits : Str)
    (hh : ∀ c ∈ host, c ≠ 64 ∧ c ≠ 91 ∧ c ≠ 58)
    (hd : ∀ c ∈ digits, asciiDigit c = true) :
    hostAndPort host = (host, []) ∧ hostAndPort (host ++ 58 :: digits) = (host, digits) := by
  have hdigit : ∀ c ∈ digits, c ≠ 64 ∧ c ≠ 91 := by
    intro c hc
    have := hd c hc
    simp only [asciiDigit, Bool.and_eq_true, decide_eq_true_eq] at this
    omega
  have hcolon : 58 ∉ host := fun hm => (hh 58 hm).2.2 rfl
  have hinfo : ∀ {s : Str}, (∀ c ∈ s, c ≠ 64) → s.rtakeWhile (· ≠ 64) = s := by
    intro s hs
    rw [List.rtakeWhile_eq_self_iff]
    exact fun c hc => decide_eq_true (hs c hc)
  constructor
  · unfold hostAndPort
    dsimp only
    rw [hinfo fun c hc => (hh c hc).1, if_neg fun hm => (hh 91 hm).2.1 rfl, splitAt,
      (takeWhile_ne_self hcolon).1, (takeWhile_ne_self hcolon).2, List.drop_nil]
  · have hall : ∀ c ∈ host ++ 58 :: digits, c ≠ 64 ∧ c ≠ 91 := by
      intro c hc
      rcases List.mem_append.mp hc with hc | hc
      · exact ⟨(hh c hc).1, (hh c hc).2.1⟩
      · rcases List.mem_cons.mp hc with rfl | hc
        · exact ⟨by decide, by decide⟩
        · exact hdigit c hc
    unfold hostAndPort
    dsimp only
    rw [hinfo fun c hc => (hall c hc).1, if_neg fun hm => (hall 91 hm).2 rfl, splitAt,
      (takeWhile_ne_append hcolon).1, (takeWhile_ne_append hcolon).2]
    rfl

theorem mem_rtakeWhile_ne {c x : Nat} (h : x ∈ s.rtakeWhile (· ≠ c)) : x ≠ c := by
  rw [List.rtakeWhile, List.mem_reverse] at h
  simpa using List.mem_takeWhile_imp h

/-- No `@` stands in a host, no `]` in one that was in brackets, and no bracket or colon in
another. -/
theorem hostAndPort_chars (netloc : Str) : ∀ c ∈ (hostAndPort netloc).1, c ≠ 64 ∧
    (91 ∈ netloc.rtakeWhile (· ≠ 64) → c ≠ 93) ∧
      (91 ∉ netloc.rtakeWhile (· ≠ 64) → c ≠ 91 ∧ c ≠ 58) := by
  intro c hc
  unfold hostAndPort splitAt at hc
  dsimp only at hc
  split at hc
  · next hin =>
    have hinfo := (List.dropWhile_sublist _).subset
      (List.mem_of_mem_drop ((List.takeWhile_sublist _).subset hc))
    refine ⟨mem_rtakeWhile_ne hinfo, fun _ => ?_, fun hnot => absurd hin hnot⟩
    simpa using List.mem_takeWhile_imp hc
  · next hout =>
    have hinfo := (List.takeWhile_sublist _).subset hc
    refine ⟨mem_rtakeWhile_ne hinfo, fun hin => absurd hin hout, fun _ => ⟨?_, ?_⟩⟩
    · exact fun he => hout (he ▸ hinfo)
    · simpa using List.mem_takeWhile_imp hc

/-- The characters of the host are those of the network location. -/
theorem hostAndPort_sublist (netloc : Str) : (hostAndPort netloc).1.Sublist netloc := by
  have hinfo : (netloc.rtakeWhile (· ≠ 64)).Sublist netloc := (List.rtakeWhile_suffix _ _).sublist
  unfold hostAndPort splitAt
  dsimp only
  split
  · exact ((List.takeWhile_sublist _).trans ((List.drop_sublist _ _).trans
      (List.dropWhile_sublist _))).trans hinfo
  · exact (List.takeWhile_sublist _).trans hinfo

end Urls
