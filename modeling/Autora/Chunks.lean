import Autora.Lib.Spans
import Autora.Lib.Texts

/-! Splitting the text of evidence into chunks for retrieval. -/

namespace Autora

namespace Chunks

open Spans Texts Untyped

def TARGET : Nat := 900

def MAX : Nat := 1400

structure Chunk where
  seq : Nat
  start : Nat
  stop : Nat
  text : Str
  deriving DecidableEq, Repr

/-- The spans of `[^\n]+`; `since` is where the match under way began. -/
def runs : Nat → Option Nat → Str → List Span
  | _, none, [] => []
  | i, some since, [] => [(since, i)]
  | i, none, c :: rest => if c = 10 then runs (i + 1) none rest else runs (i + 1) (some i) rest
  | i, some since, c :: rest =>
    if c = 10 then (since, i) :: runs (i + 1) none rest else runs (i + 1) (some since) rest

/-- A span without the whitespace at its ends. -/
def trim (text : Str) (s : Span) : Span :=
  let start := s.1 + ((slice text s.1 s.2).takeWhile isSpace).length
  (start, s.2 - ((slice text start s.2).reverse.takeWhile isSpace).length)

def paragraphSpans (text : Str) : List Span :=
  ((runs 0 none text).map (trim text)).filter fun s => s.2 > s.1

/-- 。！？!?. -/
def isMark (c : Nat) : Bool := c ∈ [0x3002, 0xFF01, 0xFF1F, 0x21, 0x3F, 0x2E]

/-- Where the matches of `(?<=[。！？!?.])\s*` end, from `i` on, `prev` being the character before.
No mark is whitespace, so there is no match inside another. -/
def sentenceEnds : Option Nat → Nat → Str → List Nat
  | prev, i, [] => if prev.any isMark then [i] else []
  | prev, i, c :: rest =>
    if prev.any isMark then
      (i + ((c :: rest).takeWhile isSpace).length) :: sentenceEnds (some c) (i + 1) rest
    else sentenceEnds (some c) (i + 1) rest

def pieces (stop : Nat) : Nat → List Nat → List Span
  | cursor, [] => if cursor < stop then [(cursor, stop)] else []
  | cursor, cut :: cuts =>
    if cut ≤ cursor ∨ cut > stop then pieces stop cursor cuts
    else (cursor, cut) :: pieces stop cut cuts

/-- A piece cut every `MAX` characters; the fuel bounds the cuts. -/
def hardCut : Nat → Nat → Nat → List Span
  | 0, a, b => if b > a then [(a, b)] else []
  | n + 1, a, b =>
    if b - a > MAX then (a, a + MAX) :: hardCut n (a + MAX) b
    else if b > a then [(a, b)] else []

/-- Sentence-sized pieces, each at most `MAX` long. -/
def splitLong (text : Str) (start stop : Nat) : List Span :=
  let prev := if start = 0 then none else text[start - 1]?
  (pieces stop start (sentenceEnds prev start (slice text start stop))).flatMap fun (a, b) =>
    hardCut (b - a) a b

def units (text : Str) : List Span :=
  (paragraphSpans text).flatMap fun (start, stop) =>
    if stop - start > MAX then splitLong text start stop else [(start, stop)]

def chunk (text : Str) (seq : Nat) (group : Span) : Chunk :=
  ⟨seq, group.1, group.2, strip (slice text group.1 group.2)⟩

/-- The loop over the units, with the group under way. -/
def pack (text : Str) : Nat → Option Span → List Span → List Chunk
  | _, none, [] => []
  | n, some group, [] => [chunk text n group]
  | n, none, u :: rest => pack text n (some u) rest
  | n, some group, u :: rest =>
    if u.2 - group.1 > TARGET then chunk text n group :: pack text (n + 1) (some u) rest
    else pack text n (some (group.1, u.2)) rest

def chunkText (text : Str) : List Chunk := pack text 0 none (units text)

/-! The spans are in order and hold every character that is not whitespace. -/

variable {text rest : Str} {i : Nat} {s u : Span} {us : List Span}

/-- The character of the text at a place is not whitespace. -/
def Solid (text : Str) (i : Nat) : Prop := ∃ c, text[i]? = some c ∧ isSpace c = false

theorem drop_cons {c : Nat} (h : text.drop i = c :: rest) :
    text[i]? = some c ∧ text.drop (i + 1) = rest := by
  constructor
  · rw [← List.head?_drop, h]
    rfl
  · rw [← List.drop_drop, h]
    rfl

theorem lt_length_of_drop {c : Nat} (h : text.drop i = c :: rest) : i < text.length := by
  have hlen := congrArg List.length h
  rw [List.length_drop, List.length_cons] at hlen
  omega

theorem runs_spec (h : text.drop i = rest) (hi : i ≤ text.length) :
    (Within i (runs i none rest) text.length ∧
      ∀ j, i ≤ j → Solid text j → Inside (runs i none rest) j) ∧
    ∀ since < i, Within since (runs i (some since) rest) text.length ∧
      ∀ j, since ≤ j → j < i ∨ Solid text j → Inside (runs i (some since) rest) j := by
  have hend : ∀ j, text.length ≤ j → ¬ Solid text j := by
    intro j hj hs
    obtain ⟨c, hc, -⟩ := hs
    rw [List.getElem?_eq_none hj] at hc
    cases hc
  induction rest generalizing i with
  | nil =>
    have hlen : text.length = i := Nat.le_antisymm (List.drop_eq_nil_iff.mp h) hi
    refine ⟨⟨hi, fun j hj hs => absurd hs (hend j (by omega))⟩, fun since hsince => ?_⟩
    refine ⟨⟨Nat.le_refl since, hsince, hi⟩, fun j hj hs => ?_⟩
    rcases hs with hs | hs
    · exact ⟨_, List.mem_singleton_self _, hj, hs⟩
    · by_cases hji : j < i
      · exact ⟨_, List.mem_singleton_self _, hj, hji⟩
      · exact absurd hs (hend j (by omega))
  | cons c rest ih =>
    obtain ⟨hc, hrest⟩ := drop_cons h
    have hlt := lt_length_of_drop h
    obtain ⟨hnone, hsome⟩ := ih hrest hlt
    by_cases hnl : c = 10
    · have hsolid : ¬ Solid text i := by
        intro hs
        obtain ⟨d, hd, hspace⟩ := hs
        rw [hc, Option.some.injEq] at hd
        rw [← hd, hnl] at hspace
        cases hspace
      constructor
      · rw [runs, if_pos hnl]
        refine ⟨hnone.1.mono (by omega), fun j hj hs => hnone.2 j ?_ hs⟩
        by_cases hji : j = i
        · exact absurd (hji ▸ hs) hsolid
        · omega
      · intro since hsince
        rw [runs, if_pos hnl]
        refine ⟨⟨Nat.le_refl since, hsince, hnone.1.mono (by omega)⟩, fun j hj hs => ?_⟩
        rw [inside_cons]
        by_cases hji : j < i
        · exact Or.inl ⟨hj, hji⟩
        · have hs := hs.resolve_left hji
          refine Or.inr (hnone.2 j ?_ hs)
          by_cases hji' : j = i
          · exact absurd (hji' ▸ hs) hsolid
          · omega
    · constructor
      · rw [runs, if_neg hnl]
        obtain ⟨hw, hin⟩ := hsome i (Nat.lt_succ_self i)
        exact ⟨hw, fun j hj hs => hin j hj (Or.inr hs)⟩
      · intro since hsince
        rw [runs, if_neg hnl]
        obtain ⟨hw, hin⟩ := hsome since (by omega)
        exact ⟨hw, fun j hj hs => hin j hj (hs.imp_left fun hji => by omega)⟩

theorem pieces_tiles {stop : Nat} {cuts : List Nat} :
    ∀ {cursor : Nat}, cursor ≤ stop → Tiles cursor (pieces stop cursor cuts) stop := by
  induction cuts with
  | nil =>
    intro cursor h
    rw [pieces]
    by_cases hlt : cursor < stop
    · rw [if_pos hlt]
      exact ⟨rfl, hlt, rfl⟩
    · rw [if_neg hlt]
      show cursor = stop
      omega
  | cons cut cuts ih =>
    intro cursor h
    rw [pieces]
    by_cases hskip : cut ≤ cursor ∨ cut > stop
    · rw [if_pos hskip]
      exact ih h
    · rw [if_neg hskip]
      exact ⟨rfl, by omega, ih (by omega)⟩

theorem hardCut_spec {n : Nat} : ∀ {a b : Nat}, a ≤ b → b - a ≤ n →
    Tiles a (hardCut n a b) b ∧ ∀ s ∈ hardCut n a b, s.2 - s.1 ≤ MAX := by
  have hmax : 0 < MAX := by decide
  induction n with
  | zero =>
    intro a b hab hn
    rw [hardCut, if_neg (by omega)]
    exact ⟨show a = b by omega, nofun⟩
  | succ n ih =>
    intro a b hab hn
    rw [hardCut]
    by_cases hlong : b - a > MAX
    · rw [if_pos hlong]
      obtain ⟨htiles, hsize⟩ := ih (a := a + MAX) (b := b) (by omega) (by omega)
      refine ⟨⟨rfl, by omega, htiles⟩, fun s hs => ?_⟩
      rcases List.mem_cons.mp hs with rfl | hs
      · show a + MAX - a ≤ MAX
        omega
      · exact hsize s hs
    · rw [if_neg hlong]
      by_cases hlt : b > a
      · rw [if_pos hlt]
        refine ⟨⟨rfl, hlt, rfl⟩, fun s hs => ?_⟩
        rw [List.mem_singleton.mp hs]
        show b - a ≤ MAX
        omega
      · rw [if_neg hlt]
        exact ⟨show a = b by omega, nofun⟩

theorem tiles_flatMap {lo hi : Nat} {f : Span → List Span} (h : Tiles lo us hi)
    (hf : ∀ s ∈ us, s.1 < s.2 → Tiles s.1 (f s) s.2) : Tiles lo (us.flatMap f) hi := by
  induction us generalizing lo with
  | nil => exact h
  | cons s us ih =>
    rw [List.flatMap_cons]
    have hs := hf s List.mem_cons_self h.2.1
    rw [h.1] at hs
    exact hs.append (ih h.2.2 fun t ht => hf t (List.mem_cons_of_mem s ht))

theorem splitLong_spec {a b : Nat} (h : a ≤ b) : Tiles a (splitLong text a b) b ∧
    ∀ s ∈ splitLong text a b, s.2 - s.1 ≤ MAX := by
  have hcut : ∀ {s : Span}, s.1 ≤ s.2 → Tiles s.1 (hardCut (s.2 - s.1) s.1 s.2) s.2 ∧
      ∀ t ∈ hardCut (s.2 - s.1) s.1 s.2, t.2 - t.1 ≤ MAX :=
    fun hs => hardCut_spec hs (Nat.le_refl _)
  constructor
  · exact tiles_flatMap (pieces_tiles h) fun s _ hs => (hcut (Nat.le_of_lt hs)).1
  · intro t ht
    obtain ⟨s, hs, ht⟩ := List.mem_flatMap.mp ht
    have hlt := ((pieces_tiles h).within.mem hs).2.1
    exact (hcut (Nat.le_of_lt hlt)).2 t ht

/-! A span trimmed. -/

theorem dropWhile_eq_drop {l : Str} {p : Nat → Bool} :
    l.dropWhile p = l.drop (l.takeWhile p).length := by
  have hsplit : (l.takeWhile p ++ l.dropWhile p).drop (l.takeWhile p).length = l.dropWhile p :=
    List.drop_left
  rw [List.takeWhile_append_dropWhile] at hsplit
  exact hsplit.symm

theorem takeWhile_eq_take {l : Str} {p : Nat → Bool} :
    l.takeWhile p = l.take (l.takeWhile p).length := by
  have hsplit : (l.takeWhile p ++ l.dropWhile p).take (l.takeWhile p).length = l.takeWhile p :=
    List.take_left
  rw [List.takeWhile_append_dropWhile] at hsplit
  exact hsplit.symm

theorem length_takeWhile_le {l : Str} {p : Nat → Bool} : (l.takeWhile p).length ≤ l.length :=
  (List.takeWhile_prefix p).length_le

theorem rdropWhile_eq_take {l : Str} {p : Nat → Bool} :
    l.rdropWhile p = l.take (l.length - (l.reverse.takeWhile p).length) := by
  rw [List.rdropWhile, dropWhile_eq_drop, List.drop_reverse, List.reverse_reverse]

theorem takeWhile_reverse_eq {l : Str} {p : Nat → Bool} : l.reverse.takeWhile p =
    (l.drop (l.length - (l.reverse.takeWhile p).length)).reverse := by
  rw [← List.take_reverse]
  exact takeWhile_eq_take

/-- What is left of a span, and that only whitespace was taken away. -/
theorem trim_spec (h : s.1 ≤ s.2) (hlen : s.2 ≤ text.length) :
    s.1 ≤ (trim text s).1 ∧ (trim text s).1 ≤ (trim text s).2 ∧ (trim text s).2 ≤ s.2 ∧
      slice text (trim text s).1 (trim text s).2 = strip (slice text s.1 s.2) ∧
      (∀ c ∈ slice text s.1 (trim text s).1, isSpace c = true) ∧
      ∀ c ∈ slice text (trim text s).2 s.2, isSpace c = true := by
  have hw := length_takeWhile_le (l := slice text s.1 s.2) (p := isSpace)
  rw [length_slice hlen] at hw
  have hleft : slice text s.1 (trim text s).1 = (slice text s.1 s.2).takeWhile isSpace := by
    rw [takeWhile_eq_take]
    have htake := slice_slice (l := text) (a := s.1) (k := 0) (b := s.2)
      (m := ((slice text s.1 s.2).takeWhile isSpace).length) (by omega)
    rw [List.drop_zero, Nat.add_zero] at htake
    exact htake.symm
  have hmid : slice text (trim text s).1 s.2 = (slice text s.1 s.2).dropWhile isSpace := by
    rw [dropWhile_eq_drop, drop_slice]
    rfl
  have hstart : (trim text s).1 ≤ s.2 := by
    show s.1 + _ ≤ s.2
    omega
  have hr := length_takeWhile_le (l := (slice text (trim text s).1 s.2).reverse) (p := isSpace)
  have hmlen : (slice text (trim text s).1 s.2).length = s.2 - (trim text s).1 := length_slice hlen
  rw [List.length_reverse, hmlen] at hr
  have hstop : (trim text s).2 =
      s.2 - ((slice text (trim text s).1 s.2).reverse.takeWhile isSpace).length := rfl
  have hcut : (trim text s).1 + ((trim text s).2 - (trim text s).1) = (trim text s).2 := by
    omega
  have hkept : slice text (trim text s).1 (trim text s).2 = strip (slice text s.1 s.2) := by
    rw [strip, ← hmid, rdropWhile_eq_take, hmlen]
    have htake := slice_slice (l := text) (a := (trim text s).1) (k := 0) (b := s.2)
      (m := (trim text s).2 - (trim text s).1) (by omega)
    rw [List.drop_zero, Nat.add_zero, hcut] at htake
    rw [← htake, hstop]
    congr 1
    omega
  have hright : slice text (trim text s).2 s.2 =
      ((slice text (trim text s).1 s.2).reverse.takeWhile isSpace).reverse := by
    rw [takeWhile_reverse_eq, List.reverse_reverse, drop_slice, hmlen]
    congr 1
    omega
  refine ⟨Nat.le_add_right _ _, by omega, by omega, hkept, fun c hc => ?_, fun c hc => ?_⟩
  · rw [hleft] at hc
    exact List.mem_takeWhile_imp hc
  · rw [hright, List.mem_reverse] at hc
    exact List.mem_takeWhile_imp hc

theorem solid_trim (h : s.1 ≤ s.2) (hlen : s.2 ≤ text.length) (hs : Solid text i)
    (hi : s.1 ≤ i ∧ i < s.2) : (trim text s).1 ≤ i ∧ i < (trim text s).2 := by
  obtain ⟨-, -, -, -, hleft, hright⟩ := trim_spec h hlen
  obtain ⟨c, hc, hspace⟩ := hs
  constructor
  · by_contra hlt
    have hin := hleft c (mem_slice.mpr ⟨i, hi.1, by omega, hc⟩)
    rw [hin] at hspace
    cases hspace
  · by_contra hge
    have hin := hright c (mem_slice.mpr ⟨i, by omega, hi.2, hc⟩)
    rw [hin] at hspace
    cases hspace

theorem within_trimmed {lo hi : Nat} (h : Within lo us hi) (hlen : hi ≤ text.length) :
    Within lo ((us.map (trim text)).filter fun s => s.2 > s.1) hi := by
  induction us generalizing lo with
  | nil => exact h
  | cons s us ih =>
    have hrest := ih h.2.2
    have hle := h.2.2.le
    have hs := h.2.1
    obtain ⟨hleft, -, hright, -⟩ := @trim_spec text s (by omega) (by omega)
    rw [List.map_cons]
    by_cases hkeep : (trim text s).2 > (trim text s).1
    · rw [List.filter_cons_of_pos (by simpa using hkeep)]
      exact ⟨Nat.le_trans h.1 hleft, hkeep, hrest.mono hright⟩
    · rw [List.filter_cons_of_neg (by simpa using hkeep)]
      have hlo := h.1
      exact hrest.mono (by omega)

theorem paragraphSpans_spec (text : Str) : Within 0 (paragraphSpans text) text.length ∧
    ∀ i, Solid text i → Inside (paragraphSpans text) i := by
  obtain ⟨hw, hin⟩ := (runs_spec (i := 0) rfl (Nat.zero_le _)).1
  refine ⟨within_trimmed hw (Nat.le_refl _), fun i hs => ?_⟩
  obtain ⟨s, hmem, hi⟩ := hin i (Nat.zero_le i) hs
  obtain ⟨-, hlt, hle⟩ := hw.mem hmem
  have htrim := solid_trim (Nat.le_of_lt hlt) hle hs hi
  refine ⟨trim text s, ?_, htrim⟩
  rw [paragraphSpans, List.mem_filter]
  exact ⟨List.mem_map_of_mem hmem, by simpa using (by omega : (trim text s).1 < (trim text s).2)⟩

theorem within_flatMap {lo hi : Nat} {f : Span → List Span} (h : Within lo us hi)
    (hf : ∀ s ∈ us, s.1 < s.2 → Tiles s.1 (f s) s.2) : Within lo (us.flatMap f) hi := by
  induction us generalizing lo with
  | nil => exact h
  | cons s us ih =>
    rw [List.flatMap_cons]
    have hs := (hf s List.mem_cons_self h.2.1).within
    exact (hs.mono h.1).append (ih h.2.2 fun t ht => hf t (List.mem_cons_of_mem s ht))

/-- The units of a paragraph. -/
theorem unit_tiles {p : Span} (h : p.1 < p.2) :
    Tiles p.1 (if p.2 - p.1 > MAX then splitLong text p.1 p.2 else [(p.1, p.2)]) p.2 := by
  by_cases hlong : p.2 - p.1 > MAX
  · rw [if_pos hlong]
    exact (splitLong_spec (Nat.le_of_lt h)).1
  · rw [if_neg hlong]
    exact ⟨rfl, h, rfl⟩

theorem units_spec (text : Str) : Within 0 (units text) text.length ∧
    (∀ s ∈ units text, s.2 - s.1 ≤ MAX) ∧ ∀ i, Solid text i → Inside (units text) i := by
  obtain ⟨hw, hin⟩ := paragraphSpans_spec text
  refine ⟨within_flatMap hw fun p _ hp => unit_tiles hp, fun s hs => ?_, fun i hs => ?_⟩
  · obtain ⟨p, hp, hs⟩ := List.mem_flatMap.mp hs
    have hlt := (hw.mem hp).2.1
    dsimp only at hs
    by_cases hlong : p.2 - p.1 > MAX
    · rw [if_pos hlong] at hs
      exact (splitLong_spec (Nat.le_of_lt hlt)).2 s hs
    · rw [if_neg hlong] at hs
      rw [List.mem_singleton.mp hs]
      show p.2 - p.1 ≤ MAX
      omega
  · obtain ⟨p, hp, hi⟩ := hin i hs
    obtain ⟨u, hu, hui⟩ := (unit_tiles (hw.mem hp).2.1).inside hi.1 hi.2
    exact ⟨u, List.mem_flatMap.mpr ⟨p, hp, hu⟩, hui⟩

/-! Packing. -/

def span (c : Chunk) : Span := (c.start, c.stop)

theorem pack_group {n : Nat} {group : Span} {hi : Nat} (hg : group.1 < group.2)
    (hsize : group.2 - group.1 ≤ MAX) (h : Within group.2 us hi)
    (hmax : ∀ s ∈ us, s.2 - s.1 ≤ MAX) :
    Within group.1 ((pack text n (some group) us).map span) hi ∧
      (∀ s ∈ (pack text n (some group) us).map span, s.2 - s.1 ≤ MAX) ∧
      ∀ i, (group.1 ≤ i ∧ i < group.2) ∨ Inside us i →
        Inside ((pack text n (some group) us).map span) i := by
  have htarget : TARGET ≤ MAX := by decide
  induction us generalizing n group with
  | nil =>
    refine ⟨⟨Nat.le_refl _, hg, h⟩, fun s hs => ?_, fun i hi => ?_⟩
    · rw [List.mem_singleton.mp hs]
      exact hsize
    · refine inside_cons.mpr (hi.imp_right fun hin => ?_)
      obtain ⟨s, hs, -⟩ := hin
      cases hs
  | cons u us ih =>
    have hu := hmax u List.mem_cons_self
    have hmax' : ∀ s ∈ us, s.2 - s.1 ≤ MAX := fun s hs => hmax s (List.mem_cons_of_mem u hs)
    have hlo := h.1
    have hlt := h.2.1
    rw [pack]
    by_cases hlong : u.2 - group.1 > TARGET
    · obtain ⟨hw, hsizes, hin⟩ := ih (n := n + 1) hlt hu h.2.2 hmax'
      rw [if_pos hlong, List.map_cons]
      refine ⟨⟨Nat.le_refl _, hg, hw.mono hlo⟩, fun s hs => ?_, fun i hi => ?_⟩
      · rcases List.mem_cons.mp hs with rfl | hs
        · exact hsize
        · exact hsizes s hs
      · refine inside_cons.mpr (hi.imp_right fun hin' => hin i (inside_cons.mp hin'))
    · obtain ⟨hw, hsizes, hin⟩ := @ih n (group.1, u.2) (by omega)
        (show u.2 - group.1 ≤ MAX by omega) h.2.2 hmax'
      rw [if_neg hlong]
      refine ⟨hw, hsizes, fun i hi => hin i ?_⟩
      rcases hi with hi | hi
      · exact Or.inl ⟨hi.1, show i < u.2 by omega⟩
      · refine (inside_cons.mp hi).imp_left fun hi => ⟨?_, hi.2⟩
        show group.1 ≤ i
        omega

theorem pack_seq {n : Nat} {group : Option Span} :
    (pack text n group us).map (·.seq) = List.range' n (pack text n group us).length := by
  induction us generalizing n group with
  | nil =>
    cases group with
    | none => rfl
    | some group => rfl
  | cons u us ih =>
    cases group with
    | none => exact ih
    | some group =>
      rw [pack]
      by_cases hlong : u.2 - group.1 > TARGET
      · rw [if_pos hlong, List.map_cons, List.length_cons, List.range'_succ, ih]
        rfl
      · rw [if_neg hlong]
        exact ih

theorem pack_text {n : Nat} {group : Option Span} {c : Chunk} (h : c ∈ pack text n group us) :
    c.text = strip (slice text c.start c.stop) := by
  induction us generalizing n group with
  | nil =>
    cases group with
    | none => cases h
    | some group =>
      rw [List.mem_singleton.mp h]
      rfl
  | cons u us ih =>
    cases group with
    | none => exact ih h
    | some group =>
      rw [pack] at h
      by_cases hlong : u.2 - group.1 > TARGET
      · rw [if_pos hlong] at h
        rcases List.mem_cons.mp h with rfl | h
        · rfl
        · exact ih h
      · rw [if_neg hlong] at h
        exact ih h

theorem chunkText_spec (text : Str) : Within 0 ((chunkText text).map span) text.length ∧
    (∀ c ∈ chunkText text, c.stop - c.start ≤ MAX) ∧
    ∀ i, Solid text i → Inside ((chunkText text).map span) i := by
  obtain ⟨hw, hmax, hin⟩ := units_spec text
  rw [chunkText]
  cases hunits : units text with
  | nil =>
    rw [hunits] at hw hin
    refine ⟨hw, nofun, fun i hs => ?_⟩
    obtain ⟨s, hs, -⟩ := hin i hs
    cases hs
  | cons u us =>
    rw [hunits] at hw hmax hin
    obtain ⟨hw', hsizes, hin'⟩ := pack_group (n := 0) hw.2.1
      (hmax u List.mem_cons_self) hw.2.2 fun s hs => hmax s (List.mem_cons_of_mem u hs)
    rw [pack]
    refine ⟨hw'.mono hw.1, fun c hc => hsizes (span c) (List.mem_map_of_mem hc), fun i hs => ?_⟩
    exact hin' i (inside_cons.mp (hin i hs))

end Chunks

end Autora
