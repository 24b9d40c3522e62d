import Mathlib.Data.List.Chain
import Mathlib.Data.List.Nodup
import Autora.Chunks

/-! When a chunk is blank: where a long sentence is cut inside a run of whitespace. -/

namespace Autora

namespace Chunks

open Spans Texts Untyped

variable {text rest : Str} {s u v : Span} {us vs : List Span} {a b n : Nat}

def Blank (s : Str) : Prop := ∀ c ∈ s, isSpace c = true

instance : DecidablePred Blank := fun s => inferInstanceAs (Decidable (∀ c ∈ s, _))

/-! The condition, on the text alone. -/

/-- The lines of a text; `cur` is what the current one has so far. -/
def linesFrom (cur : Str) : Str → List Str
  | [] => [cur]
  | c :: rest => if c = 10 then cur :: linesFrom [] rest else linesFrom (cur ++ [c]) rest

def lines (text : Str) : List Str := linesFrom [] text

/-- A sentence goes on to the first character behind a mark that is not whitespace; `ended` tells
that the last character that is not whitespace was a mark. -/
def sentencesFrom (ended : Bool) (cur : Str) : Str → List Str
  | [] => [cur]
  | c :: rest =>
    if ended && !isSpace c then cur :: sentencesFrom (isMark c) [c] rest
    else sentencesFrom (if isSpace c then ended else isMark c) (cur ++ [c]) rest

def sentences (paragraph : Str) : List Str := sentencesFrom false [] paragraph

/-- What is left of a sentence behind its blocks of `MAX` characters. -/
def remnant (s : Str) : Str := s.drop (s.length / MAX * MAX)

/-- No block of a sentence is blank, and a blank remnant fits into a chunk with the next one. -/
def NoBlankCut : List Str → Prop
  | [] => True
  | s :: rest =>
    (∀ k, (k + 1) * MAX ≤ s.length → ¬ Blank ((s.drop (k * MAX)).take MAX)) ∧
    (remnant s ≠ [] → Blank (remnant s) →
      (remnant s).length + (rest.headD []).length ≤ TARGET) ∧
    NoBlankCut rest

/-- No long paragraph is cut inside a run of whitespace. -/
def Readable (text : Str) : Prop :=
  ∀ line ∈ lines text, (strip line).length > MAX → NoBlankCut (sentences (strip line))

/-! The units of a text and the blank ones among them. -/

abbrev BlankSpan (text : Str) (s : Span) : Prop := Blank (slice text s.1 s.2)

theorem not_blank {i : Nat} (h : Solid text i) (hi : s.1 ≤ i ∧ i < s.2) : ¬ BlankSpan text s := by
  intro hblank
  obtain ⟨c, hc, hspace⟩ := h
  rw [hblank c (mem_slice.mpr ⟨i, hi.1, hi.2, hc⟩)] at hspace
  cases hspace

theorem BlankSpan.sub (h : BlankSpan text s) (hl : s.1 ≤ u.1) (hr : u.2 ≤ s.2) :
    BlankSpan text u := by
  intro c hc
  obtain ⟨j, hj, hj', hx⟩ := mem_slice.mp hc
  exact h c (mem_slice.mpr ⟨j, by omega, by omega, hx⟩)

/-- A blank unit begins a group: it ends too far from the unit before it. -/
def Gap (text : Str) (u v : Span) : Prop := BlankSpan text v → TARGET < v.2 - u.1

/-- Each blank unit is joined by the next one. -/
def Joined (text : Str) : List Span → Prop
  | [] => True
  | u :: rest =>
    (BlankSpan text u → ∃ v, rest.head? = some v ∧ v.2 - u.1 ≤ TARGET) ∧ Joined text rest

theorem pack_joined {n : Nat} {group : Span} {hi : Nat} (hg : group.1 ≤ group.2)
    (h : Within group.2 us hi) (hu : group.1 ≤ u.1) (hgap : (u :: us).IsChain (Gap text)) :
    (∀ c ∈ pack text n (some group) us, c.text ≠ []) ↔
      (BlankSpan text group → ∃ v, us.head? = some v ∧ v.2 - group.1 ≤ TARGET) ∧
        Joined text us := by
  induction us generalizing n group u with
  | nil =>
    rw [pack, List.forall_mem_singleton]
    constructor
    · exact fun hne => ⟨fun hblank => absurd (strip_eq_nil.mpr hblank) hne, trivial⟩
    · intro hjoined hnil
      obtain ⟨v, hv, -⟩ := hjoined.1 (strip_eq_nil.mp hnil)
      cases hv
  | cons v us ih =>
    rw [List.isChain_cons_cons] at hgap
    rw [pack]
    by_cases hlong : v.2 - group.1 > TARGET
    · have hv := ih (n := n + 1) (Nat.le_of_lt h.2.1) h.2.2 (Nat.le_refl _) hgap.2
      rw [if_pos hlong, List.forall_mem_cons, hv]
      refine and_congr_left fun _ => ?_
      constructor
      · exact fun hne hblank => absurd (strip_eq_nil.mpr hblank) hne
      · intro hjoined hnil
        obtain ⟨w, hw, hle⟩ := hjoined (strip_eq_nil.mp hnil)
        cases hw
        omega
    · -- the group takes the unit in, which is not blank
      have hfull : ¬ BlankSpan text v := by
        intro hblank
        have hfar := hgap.1 hblank
        omega
      have hlo := h.1
      have hlt := h.2.1
      have hstart : group.1 ≤ v.1 := by omega
      have hgroup : ¬ BlankSpan text (group.1, v.2) :=
        fun hblank => hfull (hblank.sub hstart (Nat.le_refl _))
      have hv := @ih v n (group.1, v.2) (show group.1 ≤ v.2 by omega)
        h.2.2 hstart hgap.2
      rw [if_neg hlong, hv]
      constructor
      · exact fun hjoined => ⟨fun _ => ⟨v, rfl, by omega⟩, fun hblank => absurd hblank hfull,
          hjoined.2⟩
      · exact fun hjoined => ⟨fun hblank => absurd hblank hgroup, hjoined.2.2⟩

theorem joined_append (h : ∀ u ∈ us.getLast?, ¬ BlankSpan text u) :
    Joined text (us ++ vs) ↔ Joined text us ∧ Joined text vs := by
  induction us with
  | nil => exact ⟨fun hj => ⟨trivial, hj⟩, fun hj => hj.2⟩
  | cons u us ih =>
    rw [List.cons_append, Joined, Joined]
    cases us with
    | nil =>
      have hu : ¬ BlankSpan text u := h u rfl
      exact ⟨fun hj => ⟨⟨fun hb => absurd hb hu, trivial⟩, hj.2⟩,
        fun hj => ⟨fun hb => absurd hb hu, hj.2⟩⟩
    | cons w us =>
      rw [ih h, and_assoc]
      rfl

theorem gap_append (hu : us.IsChain (Gap text)) (hv : vs.IsChain (Gap text))
    (h : ∀ v ∈ vs.head?, ¬ BlankSpan text v) : (us ++ vs).IsChain (Gap text) := by
  rw [List.isChain_append]
  exact ⟨hu, hv, fun x _ y hy hblank => absurd hblank (h y hy)⟩

/-- Lists of units that each begin with a character. -/
theorem gap_flatMap {f : Span → List Span} (hgap : ∀ s ∈ us, (f s).IsChain (Gap text))
    (hfirst : ∀ s ∈ us, ∃ u, (f s).head? = some u ∧ ¬ BlankSpan text u) :
    (us.flatMap f).IsChain (Gap text) ∧ ∀ v ∈ (us.flatMap f).head?, ¬ BlankSpan text v := by
  induction us with
  | nil => exact ⟨List.IsChain.nil, nofun⟩
  | cons s us ih =>
    obtain ⟨hrest, hhead⟩ := ih (fun t ht => hgap t (List.mem_cons_of_mem s ht))
      fun t ht => hfirst t (List.mem_cons_of_mem s ht)
    obtain ⟨u, hu, hsolid⟩ := hfirst s List.mem_cons_self
    rw [List.flatMap_cons]
    refine ⟨gap_append (hgap s List.mem_cons_self) hrest hhead, fun v hv => ?_⟩
    rw [List.head?_append, hu, Option.some_or, Option.mem_some_iff] at hv
    rw [← hv]
    exact hsolid

/-- Lists of units that each end with a character. -/
theorem joined_flatMap {f : Span → List Span}
    (hlast : ∀ s ∈ us, ∀ u ∈ (f s).getLast?, ¬ BlankSpan text u) :
    Joined text (us.flatMap f) ↔ ∀ s ∈ us, Joined text (f s) := by
  induction us with
  | nil => exact ⟨fun _ => nofun, fun _ => trivial⟩
  | cons s us ih =>
    rw [List.flatMap_cons, List.forall_mem_cons,
      ← ih fun t ht => hlast t (List.mem_cons_of_mem s ht)]
    exact joined_append (hlast s List.mem_cons_self)

/-! The units of one sentence. -/

theorem head_hardCut (hab : a < b) (hn : b - a ≤ n) :
    (hardCut n a b).head? = some (a, min b (a + MAX)) := by
  cases n with
  | zero => omega
  | succ n =>
    rw [hardCut]
    by_cases hlong : b - a > MAX
    · rw [if_pos hlong, Nat.min_eq_right (by omega)]
      rfl
    · rw [if_neg hlong, if_pos hab, Nat.min_eq_left (by omega)]
      rfl

theorem gap_hardCut : ∀ {a b : Nat}, a ≤ b → b - a ≤ n →
    (hardCut n a b).IsChain (Gap text) := by
  have hmax : TARGET < MAX := by decide
  induction n with
  | zero =>
    intro a b hab hn
    rw [hardCut, if_neg (by omega)]
    exact List.IsChain.nil
  | succ n ih =>
    intro a b hab hn
    rw [hardCut]
    by_cases hlong : b - a > MAX
    · rw [if_pos hlong]
      have hrest := ih (a := a + MAX) (b := b) (by omega) (by omega)
      have hhead := head_hardCut (n := n) (a := a + MAX) (b := b) (by omega) (by omega)
      cases hcuts : hardCut n (a + MAX) b with
      | nil => exact List.isChain_singleton _
      | cons v us =>
        rw [hcuts] at hrest hhead
        cases hhead
        refine List.isChain_cons_cons.mpr ⟨fun _ => ?_, hrest⟩
        show TARGET < min b (a + MAX + MAX) - a
        omega
    · rw [if_neg hlong]
      by_cases hlt : b > a
      · rw [if_pos hlt]
        exact List.isChain_singleton _
      · rw [if_neg hlt]
        exact List.IsChain.nil

/-- Where the last, shorter block of a sentence begins. -/
def lastCut (a b : Nat) : Nat := a + (b - a) / MAX * MAX

theorem lastCut_succ (h : b - a > MAX) : lastCut (a + MAX) b = lastCut a b := by
  rw [lastCut, lastCut]
  have hdiv : (b - a) / MAX = (b - (a + MAX)) / MAX + 1 := by
    rw [← Nat.add_div_right _ (by decide)]
    congr 1
    omega
  rw [hdiv, Nat.succ_mul]
  omega

/-- The units of a sentence and of what follows it. -/
theorem joined_hardCut {hi : Nat} : ∀ {a b : Nat}, a < b → b - a ≤ n → Within b us hi →
    (Joined text (hardCut n a b ++ us) ↔
      (∀ k, a + (k + 1) * MAX ≤ b →
        ¬ BlankSpan text (a + k * MAX, a + k * MAX + MAX)) ∧
      (lastCut a b < b → BlankSpan text (lastCut a b, b) →
        ∃ v, us.head? = some v ∧ v.2 - lastCut a b ≤ TARGET) ∧ Joined text us) := by
  have hmax : TARGET < MAX := by decide
  induction n with
  | zero =>
    intro a b hab hn
    omega
  | succ n ih =>
    intro a b hab hn hw
    rw [hardCut]
    by_cases hlong : b - a > MAX
    · rw [if_pos hlong, List.cons_append, Joined, ih (by omega) (by omega) hw, lastCut_succ hlong]
      have hhead : (hardCut n (a + MAX) b ++ us).head? =
          some (a + MAX, min b (a + MAX + MAX)) := by
        rw [List.head?_append, head_hardCut (by omega) (by omega)]
        rfl
      have hfirst : (BlankSpan text (a, a + MAX) → ∃ v, (hardCut n (a + MAX) b ++ us).head? =
          some v ∧ v.2 - a ≤ TARGET) ↔ ¬ BlankSpan text (a, a + MAX) := by
        constructor
        · intro hjoin hblank
          obtain ⟨v, hv, hle⟩ := hjoin hblank
          rw [hhead] at hv
          cases hv
          have hfar : min b (a + MAX + MAX) - a ≤ TARGET := hle
          omega
        · exact fun hnot hblank => absurd hblank hnot
      rw [hfirst]
      constructor
      · intro hj
        refine ⟨fun k hk => ?_, hj.2.2⟩
        cases k with
        | zero =>
          rw [Nat.zero_mul, Nat.add_zero]
          exact hj.1
        | succ k =>
          rw [Nat.succ_mul] at hk
          have hk' := hj.2.1 k (by omega)
          rw [Nat.succ_mul, show a + (k * MAX + MAX) = a + MAX + k * MAX by omega]
          exact hk'
      · intro hj
        refine ⟨?_, fun k hk => ?_, hj.2⟩
        · have hzero := hj.1 0 (by omega)
          rw [Nat.zero_mul, Nat.add_zero] at hzero
          exact hzero
        · have hk' := hj.1 (k + 1) (by rw [Nat.succ_mul]; omega)
          rw [Nat.succ_mul, show a + (k * MAX + MAX) = a + MAX + k * MAX by omega] at hk'
          exact hk'
    · rw [if_neg hlong, if_pos hab, List.singleton_append, Joined]
      have hfar : ∀ v ∈ us.head?, b < v.2 := by
        intro v hv
        have hmem := hw.mem (List.mem_of_mem_head? hv)
        omega
      rw [← and_assoc]
      refine and_congr_left fun _ => ?_
      by_cases hfull : b = a + MAX
      · have hlast : lastCut a b = b := by
          rw [lastCut, hfull, Nat.add_sub_cancel_left, Nat.div_self (by decide), Nat.one_mul]
        rw [hlast]
        constructor
        · intro hj
          refine ⟨fun k hk => ?_, fun hlt => absurd hlt (Nat.lt_irrefl b)⟩
          have hk0 : k = 0 := by
            rw [Nat.succ_mul] at hk
            by_contra hne
            have hle := Nat.le_mul_of_pos_left MAX (Nat.pos_of_ne_zero hne)
            omega
          rw [hk0, Nat.zero_mul, Nat.add_zero, ← hfull]
          intro hblank
          obtain ⟨v, hv, hle⟩ := hj hblank
          have hbv := hfar v hv
          have hle' : v.2 - a ≤ TARGET := hle
          omega
        · intro hj hblank
          have hzero := hj.1 0 (by omega)
          rw [Nat.zero_mul, Nat.add_zero, ← hfull] at hzero
          exact absurd hblank hzero
      · have hlast : lastCut a b = a := by
          rw [lastCut, Nat.div_eq_of_lt (by omega), Nat.zero_mul, Nat.add_zero]
        rw [hlast]
        constructor
        · intro hj
          refine ⟨fun k hk => ?_, fun _ => hj⟩
          rw [Nat.succ_mul] at hk
          omega
        · exact fun hj => hj.2 hab

/-! The units of a long paragraph and its sentences. -/

theorem noBlankCut_cons (hab : a < b) (hb : b ≤ text.length) {rest : List Str} :
    NoBlankCut (slice text a b :: rest) ↔
      (∀ k, a + (k + 1) * MAX ≤ b → ¬ BlankSpan text (a + k * MAX, a + k * MAX + MAX)) ∧
      (lastCut a b < b → BlankSpan text (lastCut a b, b) →
        b - lastCut a b + (rest.headD []).length ≤ TARGET) ∧ NoBlankCut rest := by
  have hlen : (slice text a b).length = b - a := length_slice hb
  have hremnant : remnant (slice text a b) = slice text (lastCut a b) b := by
    rw [remnant, drop_slice, hlen]
    rfl
  have hlast : (slice text (lastCut a b) b).length = b - lastCut a b := length_slice hb
  have hne : slice text (lastCut a b) b ≠ [] ↔ lastCut a b < b := by
    rw [← List.length_pos_iff_ne_nil, hlast]
    omega
  rw [NoBlankCut, hremnant, hlast, hne, hlen]
  refine and_congr_left fun _ => ?_
  refine forall_congr' fun k => ?_
  have hk : (k + 1) * MAX ≤ b - a ↔ a + (k + 1) * MAX ≤ b := by omega
  rw [hk]
  refine imp_congr_right fun hle => ?_
  rw [Nat.succ_mul] at hle
  rw [slice_slice (by omega)]

theorem headD_length {cuts : List Span} {lo hi : Nat} (h : Tiles lo cuts hi)
    (hlen : hi ≤ text.length) : ((cuts.map fun s => slice text s.1 s.2).headD []).length =
      (cuts.head?.elim 0 fun s => s.2 - s.1) := by
  cases cuts with
  | nil => rfl
  | cons s cuts =>
    have hle := h.2.2.within.le
    exact length_slice (by omega)

abbrev cutSpan (s : Span) : List Span := hardCut (s.2 - s.1) s.1 s.2

/-- The blank units of a paragraph stay alone iff a block of a sentence is blank or a blank
remnant finds no room. -/
theorem joined_pieces {cuts : List Span} : ∀ {lo hi : Nat}, Tiles lo cuts hi → lo < hi →
    hi ≤ text.length → Solid text (hi - 1) →
    (Joined text (cuts.flatMap cutSpan) ↔ NoBlankCut (cuts.map fun s => slice text s.1 s.2)) := by
  have hmax : TARGET < MAX := by decide
  induction cuts with
  | nil => exact fun _ _ _ _ => Iff.rfl
  | cons s cuts ih =>
    intro lo hi h hlt hlen hlast
    have hw : Within s.2 (cuts.flatMap cutSpan) hi := by
      refine (tiles_flatMap h.2.2 fun t _ ht => ?_).within
      exact (hardCut_spec (Nat.le_of_lt ht) (Nat.le_refl _)).1
    have hs2 := h.2.2.within.le
    rw [List.flatMap_cons, joined_hardCut h.2.1 (Nat.le_refl _) hw, List.map_cons,
      noBlankCut_cons h.2.1 (by omega), headD_length h.2.2 hlen]
    have hrest : Joined text (cuts.flatMap cutSpan) ↔
        NoBlankCut (cuts.map fun s => slice text s.1 s.2) := by
      by_cases hend : s.2 < hi
      · exact ih h.2.2 hend hlen hlast
      · cases cuts with
        | nil => exact Iff.rfl
        | cons t cuts =>
          have ht := h.2.2.within.mem List.mem_cons_self
          omega
    rw [hrest]
    refine and_congr_right fun _ => and_congr_left fun _ => ?_
    refine imp_congr_right fun hcut => imp_congr_right fun hblank => ?_
    cases cuts with
    | nil =>
      -- the last character of the paragraph is in the remnant
      have hhi : s.2 = hi := h.2.2
      exact absurd hblank (not_blank hlast (by show lastCut s.1 s.2 ≤ hi - 1 ∧ hi - 1 < s.2; omega))
    | cons t cuts =>
      have ht := h.2.2.2.1
      have hst := h.2.2.1
      have hhead : ((t :: cuts).flatMap cutSpan).head? = some (t.1, min t.2 (t.1 + MAX)) := by
        rw [List.flatMap_cons, List.head?_append, head_hardCut ht (Nat.le_refl _)]
        rfl
      rw [hhead]
      constructor
      · intro hj
        obtain ⟨v, hv, hle⟩ := hj
        cases hv
        have hle' : min t.2 (t.1 + MAX) - lastCut s.1 s.2 ≤ TARGET := hle
        show s.2 - lastCut s.1 s.2 + (t.2 - t.1) ≤ TARGET
        omega
      · intro hj
        have hj' : s.2 - lastCut s.1 s.2 + (t.2 - t.1) ≤ TARGET := hj
        refine ⟨_, rfl, ?_⟩
        show min t.2 (t.1 + MAX) - lastCut s.1 s.2 ≤ TARGET
        omega

/-! The pieces of a paragraph are its sentences. -/

/-- The ends of the matches behind `i`, without the one at `i` itself. -/
def laterEnds (i : Nat) : Str → List Nat
  | [] => []
  | c :: rest => sentenceEnds (some c) (i + 1) rest

theorem isSpace_of_isMark {c : Nat} (h : isMark c = true) : isSpace c = false := by
  have hmem : c ∈ [0x3002, 0xFF01, 0xFF1F, 0x21, 0x3F, 0x2E] := of_decide_eq_true h
  simp only [List.mem_cons, List.not_mem_nil, or_false] at hmem
  rcases hmem with rfl | rfl | rfl | rfl | rfl | rfl <;> decide

theorem sentenceEnds_eq {prev : Option Nat} {i : Nat} : sentenceEnds prev i rest =
    if prev.any isMark then (i + (rest.takeWhile isSpace).length) :: laterEnds i rest
    else laterEnds i rest := by
  cases rest with
  | nil => rfl
  | cons c rest => rfl

theorem pieces_sentences {stop : Nat} (hstop : stop ≤ text.length) :
    ∀ {i cursor : Nat}, cursor ≤ i → i ≤ stop → slice text i stop = rest → cursor < stop →
      (pieces stop cursor (laterEnds i rest)).map (fun s => slice text s.1 s.2) =
          sentencesFrom false (slice text cursor i) rest ∧
      (cursor < i → (pieces stop cursor ((i + (rest.takeWhile isSpace).length) ::
          laterEnds i rest)).map (fun s => slice text s.1 s.2) =
        sentencesFrom true (slice text cursor i) rest) := by
  induction rest with
  | nil =>
    intro i cursor hci his hrest hlt
    have hi : i = stop := by
      have hlen := congrArg List.length hrest
      rw [length_slice hstop, List.length_nil] at hlen
      omega
    subst hi
    constructor
    · rw [laterEnds, pieces, if_pos hlt]
      rfl
    · intro hc
      rw [List.takeWhile_nil, List.length_nil, Nat.add_zero, pieces, if_neg (by omega), laterEnds,
        pieces, if_neg (Nat.lt_irrefl i)]
      rfl
  | cons c rest ih =>
    intro i cursor hci his hrest hlt
    obtain ⟨hi, hc, hrest'⟩ := slice_uncons hstop hrest
    have hlater : laterEnds i (c :: rest) =
        if isMark c then (i + 1 + (rest.takeWhile isSpace).length) :: laterEnds (i + 1) rest
        else laterEnds (i + 1) rest := sentenceEnds_eq
    -- the character at `i` goes to the sentence under way, whose last place is a mark or not
    have hstep : ∀ {cursor : Nat}, cursor ≤ i →
        (pieces stop cursor (laterEnds i (c :: rest))).map (fun s => slice text s.1 s.2) =
          sentencesFrom (isMark c) (slice text cursor i ++ [c]) rest := by
      intro cursor hci
      obtain ⟨hopen, hended⟩ := @ih (i + 1) cursor (by omega) hi hrest' (by omega)
      rw [hlater, ← slice_snoc hci hc]
      cases hmark : isMark c with
      | true =>
        rw [if_pos rfl]
        exact hended (by omega)
      | false =>
        rw [if_neg (by decide)]
        exact hopen
    cases hspace : isSpace c with
    | true =>
      have hmark : isMark c = false := by
        cases hm : isMark c with
        | true => rw [isSpace_of_isMark hm] at hspace; cases hspace
        | false => rfl
      constructor
      · rw [hstep hci, hmark, sentencesFrom, hspace, if_neg (by decide)]
        rfl
      · intro hlti
        obtain ⟨-, hended⟩ := @ih (i + 1) cursor (by omega) hi hrest' (by omega)
        rw [hlater, hmark, if_neg (by decide), List.takeWhile_cons_of_pos hspace, List.length_cons,
          show i + ((rest.takeWhile isSpace).length + 1) =
            i + 1 + (rest.takeWhile isSpace).length by omega,
          hended (by omega), slice_snoc hci hc, sentencesFrom, hspace, if_neg (by decide)]
        rfl
    | false =>
      constructor
      · rw [hstep hci, sentencesFrom, hspace, if_neg (by decide)]
        rfl
      · intro hlti
        rw [List.takeWhile_cons_of_neg (by rw [hspace]; decide), List.length_nil, Nat.add_zero,
          pieces, if_neg (by omega), List.map_cons, hstep (Nat.le_refl i), slice_self,
          sentencesFrom, hspace, if_pos (by decide)]
        rfl

theorem splitLong_sentences (hab : a < b) (hb : b ≤ text.length) (hfirst : Solid text a) :
    (pieces b a (sentenceEnds (if a = 0 then none else text[a - 1]?) a (slice text a b))).map
        (fun s => slice text s.1 s.2) = sentences (slice text a b) := by
  obtain ⟨hopen, -⟩ := pieces_sentences hb (Nat.le_refl a) (Nat.le_of_lt hab) rfl hab
  rw [slice_self] at hopen
  rw [sentences, ← hopen]
  generalize (if a = 0 then none else text[a - 1]?) = prev
  rw [sentenceEnds_eq]
  cases prev.any isMark with
  | true =>
    -- a match at the start of the paragraph is empty and cuts nothing off
    obtain ⟨c, hc, hspace⟩ := hfirst
    rw [if_pos rfl, slice_cons hab hc, List.takeWhile_cons_of_neg (by rw [hspace]; decide),
      List.length_nil, Nat.add_zero, pieces, if_pos (Or.inl (Nat.le_refl a))]
  | false => rw [if_neg (by decide)]

/-- A sentence begins with a character. -/
theorem sentencesFrom_heads {ended : Bool} {cur : Str}
    (hcur : ∀ c ∈ cur.head?, isSpace c = false)
    (hrest : cur = [] → ended = false ∧ ∀ c ∈ rest.head?, isSpace c = false) {s : Str}
    (hs : s ∈ sentencesFrom ended cur rest) : ∀ c ∈ s.head?, isSpace c = false := by
  induction rest generalizing ended cur with
  | nil =>
    rw [List.mem_singleton.mp hs]
    exact hcur
  | cons d rest ih =>
    have hcur' : ∀ c ∈ (cur ++ [d]).head?, isSpace c = false := by
      intro c hc
      cases cur with
      | nil =>
        rw [List.nil_append] at hc
        exact (hrest rfl).2 c hc
      | cons e cur => exact hcur c hc
    rw [sentencesFrom] at hs
    by_cases hcut : (ended && !isSpace d) = true
    · rw [if_pos hcut] at hs
      rw [Bool.and_eq_true, Bool.not_eq_true'] at hcut
      rcases List.mem_cons.mp hs with rfl | hs
      · exact hcur
      · refine ih (fun c hc => ?_) (fun hnil => absurd hnil (List.cons_ne_nil d [])) hs
        rw [List.head?_cons, Option.mem_some_iff] at hc
        rw [← hc]
        exact hcut.2
    · rw [if_neg hcut] at hs
      exact ih hcur' (fun hnil => absurd hnil (by simp)) hs

/-- A trimmed span that is not empty begins and ends with a character. -/
theorem solid_ends (h : s.1 ≤ s.2) (hlen : s.2 ≤ text.length)
    (hlt : (trim text s).1 < (trim text s).2) :
    Solid text (trim text s).1 ∧ Solid text ((trim text s).2 - 1) := by
  obtain ⟨-, -, hle, hkept, -⟩ := trim_spec h hlen
  generalize trim text s = t at hlt hle hkept
  have hget : ∀ {i : Nat}, t.1 ≤ i → i < t.2 → ∃ c, text[i]? = some c ∧
      (strip (slice text s.1 s.2))[i - t.1]? = some c := by
    intro i hi hi'
    have hin : i < text.length := by omega
    refine ⟨text[i], List.getElem?_eq_getElem hin, ?_⟩
    rw [← hkept, getElem?_slice (by omega), show t.1 + (i - t.1) = i by omega]
    exact List.getElem?_eq_getElem hin
  constructor
  · obtain ⟨c, hc, hstrip⟩ := hget (Nat.le_refl _) hlt
    rw [Nat.sub_self, ← List.head?_eq_getElem?] at hstrip
    exact ⟨c, hc, strip_head hstrip⟩
  · obtain ⟨c, hc, hstrip⟩ := hget (i := t.2 - 1) (by omega) (by omega)
    have hlength : (strip (slice text s.1 s.2)).length = t.2 - t.1 := by
      rw [← hkept, length_slice (by omega)]
    refine ⟨c, hc, strip_last (s := slice text s.1 s.2) ?_⟩
    rw [List.getLast?_eq_getElem?, hlength, show t.2 - t.1 - 1 = t.2 - 1 - t.1 by omega]
    exact hstrip

/-- The units of one paragraph. -/
def paragraphUnits (text : Str) (p : Span) : List Span :=
  if p.2 - p.1 > MAX then splitLong text p.1 p.2 else [(p.1, p.2)]

/-- A paragraph of the text: it is not empty and whitespace at neither end. -/
structure Paragraph (text : Str) (p : Span) : Prop where
  lt : p.1 < p.2
  le : p.2 ≤ text.length
  first : Solid text p.1
  last : Solid text (p.2 - 1)

variable {p : Span}

theorem Paragraph.unit_last (h : Paragraph text p) :
    ∀ u ∈ (paragraphUnits text p).getLast?, ¬ BlankSpan text u := by
  intro u hu
  obtain ⟨v, hv, hend, hlt⟩ := (unit_tiles h.lt).last h.lt
  rw [paragraphUnits, hv, Option.mem_some_iff] at hu
  exact hu ▸ not_blank h.last (by omega)

theorem Paragraph.unit_first (h : Paragraph text p) :
    ∃ u, (paragraphUnits text p).head? = some u ∧ ¬ BlankSpan text u := by
  obtain ⟨v, hv, hstart, hlt⟩ := (unit_tiles h.lt).first h.lt
  exact ⟨v, hv, not_blank h.first (by omega)⟩

theorem Paragraph.sentence_first (h : Paragraph text p) {s : Span}
    (hs : s ∈ pieces p.2 p.1 (sentenceEnds (if p.1 = 0 then none else text[p.1 - 1]?) p.1
      (slice text p.1 p.2))) : Solid text s.1 := by
  have hmem : slice text s.1 s.2 ∈ sentences (slice text p.1 p.2) := by
    rw [← splitLong_sentences h.lt h.le h.first]
    exact List.mem_map_of_mem hs
  obtain ⟨-, hlt, hle⟩ := (pieces_tiles (Nat.le_of_lt h.lt)).within.mem hs
  have hlen := h.le
  have hget : text[s.1]? = some text[s.1] := List.getElem?_eq_getElem (by omega)
  refine ⟨text[s.1], hget, ?_⟩
  refine @sentencesFrom_heads _ _ [] nofun (fun _ => ⟨rfl, fun c hc => ?_⟩) _ hmem _ ?_
  · obtain ⟨d, hd, hspace⟩ := h.first
    rw [slice_cons h.lt hd, List.head?_cons, Option.mem_some_iff] at hc
    rw [← hc]
    exact hspace
  · rw [slice_cons hlt hget]
    rfl

theorem Paragraph.unit_gap (h : Paragraph text p) :
    (paragraphUnits text p).IsChain (Gap text) := by
  rw [paragraphUnits]
  by_cases hlong : p.2 - p.1 > MAX
  · rw [if_pos hlong]
    refine (gap_flatMap (fun s hs => ?_) fun s hs => ?_).1
    · have hlt := ((pieces_tiles (Nat.le_of_lt h.lt)).within.mem hs).2.1
      exact gap_hardCut (Nat.le_of_lt hlt) (Nat.le_refl _)
    · have hmax : 0 < MAX := by decide
      have hlt := ((pieces_tiles (Nat.le_of_lt h.lt)).within.mem hs).2.1
      refine ⟨_, head_hardCut hlt (Nat.le_refl _), not_blank (h.sentence_first hs) ?_⟩
      show s.1 ≤ s.1 ∧ s.1 < min s.2 (s.1 + MAX)
      omega
  · rw [if_neg hlong]
    exact List.isChain_singleton _

theorem Paragraph.joined_iff (h : Paragraph text p) : Joined text (paragraphUnits text p) ↔
    (p.2 - p.1 > MAX → NoBlankCut (sentences (slice text p.1 p.2))) := by
  rw [paragraphUnits]
  by_cases hlong : p.2 - p.1 > MAX
  · rw [if_pos hlong, ← splitLong_sentences h.lt h.le h.first]
    have hiff := joined_pieces (@pieces_tiles _ (sentenceEnds
      (if p.1 = 0 then none else text[p.1 - 1]?) p.1 (slice text p.1 p.2)) _
      (Nat.le_of_lt h.lt)) h.lt h.le h.last
    exact ⟨fun hj _ => hiff.mp hj, fun hcut => hiff.mpr (hcut hlong)⟩
  · rw [if_neg hlong]
    have hp : ¬ BlankSpan text p := not_blank h.first ⟨Nat.le_refl _, h.lt⟩
    exact ⟨fun _ hl => absurd hl hlong, fun _ => ⟨fun hb => absurd hb hp, trivial⟩⟩

theorem paragraph_of_run {r : Span} (hr : r ∈ runs 0 none text)
    (hlt : (trim text r).1 < (trim text r).2) : Paragraph text (trim text r) := by
  obtain ⟨hw, -⟩ := (runs_spec (i := 0) rfl (Nat.zero_le _)).1
  obtain ⟨-, hr', hle⟩ := hw.mem hr
  obtain ⟨hfirst, hlast⟩ := solid_ends (Nat.le_of_lt hr') hle hlt
  have htrim := (trim_spec (Nat.le_of_lt hr') hle).2.2.1
  exact ⟨hlt, by omega, hfirst, hlast⟩

theorem paragraph_of_mem (hp : p ∈ paragraphSpans text) : Paragraph text p := by
  obtain ⟨hmem, hlt⟩ := List.mem_filter.mp hp
  obtain ⟨r, hr, rfl⟩ := List.mem_map.mp hmem
  exact paragraph_of_run hr (by simpa using hlt)

theorem runs_lines {i : Nat} (h : text.drop i = rest) (hi : i ≤ text.length) :
    (runs i none rest).map (fun s => slice text s.1 s.2) =
        (linesFrom [] rest).filter (· ≠ []) ∧
      ∀ since < i, (runs i (some since) rest).map (fun s => slice text s.1 s.2) =
        (linesFrom (slice text since i) rest).filter (· ≠ []) := by
  induction rest generalizing i with
  | nil =>
    refine ⟨rfl, fun since hlt => ?_⟩
    rw [linesFrom, List.filter_cons_of_pos (by simpa using slice_ne_nil hlt hi)]
    rfl
  | cons c rest ih =>
    obtain ⟨hc, hrest⟩ := drop_cons h
    have hlen := lt_length_of_drop h
    obtain ⟨hnone, hsome⟩ := ih hrest hlen
    by_cases hnl : c = 10
    · constructor
      · rw [runs, if_pos hnl, linesFrom, if_pos hnl, hnone,
          List.filter_cons_of_neg (by simp)]
      · intro since hlt
        rw [runs, if_pos hnl, linesFrom, if_pos hnl, List.map_cons, hnone,
          List.filter_cons_of_pos (by simpa using slice_ne_nil hlt hi)]
    · constructor
      · rw [runs, if_neg hnl, linesFrom, if_neg hnl, hsome i (Nat.lt_succ_self i),
          slice_snoc (Nat.le_refl i) hc, slice_self]
      · intro since hlt
        rw [runs, if_neg hnl, linesFrom, if_neg hnl, hsome since (by omega),
          slice_snoc (Nat.le_of_lt hlt) hc]

/-- The paragraphs of the code are the lines of the text, stripped, that are not empty. -/
theorem readable_iff : Readable text ↔ ∀ p ∈ paragraphSpans text,
    p.2 - p.1 > MAX → NoBlankCut (sentences (slice text p.1 p.2)) := by
  have hlines := (@runs_lines text _ 0 rfl (Nat.zero_le _)).1
  obtain ⟨hw, -⟩ := (runs_spec (i := 0) rfl (Nat.zero_le _)).1
  have hkept : ∀ r ∈ runs 0 none text, slice text (trim text r).1 (trim text r).2 =
      strip (slice text r.1 r.2) ∧ (strip (slice text r.1 r.2)).length =
        (trim text r).2 - (trim text r).1 := by
    intro r hr
    obtain ⟨-, hlt, hle⟩ := hw.mem hr
    obtain ⟨-, -, hright, heq, -⟩ := trim_spec (Nat.le_of_lt hlt) hle
    exact ⟨heq, by rw [← heq, length_slice (by omega)]⟩
  constructor
  · intro h p hp hlong
    obtain ⟨hmem, -⟩ := List.mem_filter.mp hp
    obtain ⟨r, hr, rfl⟩ := List.mem_map.mp hmem
    obtain ⟨heq, hlen⟩ := hkept r hr
    have hline : slice text r.1 r.2 ∈ (lines text).filter (· ≠ []) := by
      rw [lines, List.drop_zero] at *
      rw [← hlines]
      exact List.mem_map_of_mem (f := fun s => slice text s.1 s.2) hr
    rw [heq]
    exact h _ (List.mem_filter.mp hline).1 (by rw [hlen]; exact hlong)
  · intro h line hline hlong
    have hne : line ≠ [] := by
      rintro rfl
      exact absurd hlong (by decide)
    have hmem : line ∈ (runs 0 none text).map fun s => slice text s.1 s.2 := by
      rw [List.drop_zero] at hlines
      rw [hlines]
      exact List.mem_filter.mpr ⟨hline, by simpa using hne⟩
    obtain ⟨r, hr, rfl⟩ := List.mem_map.mp hmem
    obtain ⟨heq, hlen⟩ := hkept r hr
    have hlong' : (trim text r).2 - (trim text r).1 > MAX := by
      rw [← hlen]
      exact hlong
    have hp : trim text r ∈ paragraphSpans text := by
      rw [paragraphSpans, List.mem_filter]
      exact ⟨List.mem_map_of_mem hr, by simpa using (by omega : (trim text r).1 < (trim text r).2)⟩
    have hcut := h _ hp hlong'
    rw [heq] at hcut
    exact hcut

theorem nonblank_iff (text : Str) : (∀ c ∈ chunkText text, c.text ≠ []) ↔ Readable text := by
  have hunits : units text = (paragraphSpans text).flatMap (paragraphUnits text) := rfl
  have hgap := (@gap_flatMap _ (paragraphSpans text) _
    (fun p hp => (paragraph_of_mem hp).unit_gap) fun p hp => (paragraph_of_mem hp).unit_first).1
  have hjoined : Joined text (units text) ↔ Readable text := by
    rw [hunits, joined_flatMap fun p hp => (paragraph_of_mem hp).unit_last, readable_iff]
    exact forall₂_congr fun p hp => (paragraph_of_mem hp).joined_iff
  rw [← hjoined, chunkText]
  rw [← hunits] at hgap
  have hw := (units_spec text).1
  cases hus : units text with
  | nil => exact ⟨fun _ => trivial, fun _ c hc => absurd hc List.not_mem_nil⟩
  | cons u us =>
    rw [hus] at hgap hw
    rw [pack, pack_joined (Nat.le_of_lt hw.2.1) hw.2.2 (Nat.le_refl u.1) hgap]
    rfl

/-! The whole promise. -/

structure Covers (text : Str) (chunks : List Chunk) : Prop where
  seq : chunks.map (·.seq) = List.range chunks.length
  ordered : chunks.Pairwise fun c d => c.stop ≤ d.start
  bounds : ∀ c ∈ chunks, c.start < c.stop ∧ c.stop ≤ text.length ∧ c.stop - c.start ≤ MAX
  texts : ∀ c ∈ chunks, c.text = strip (slice text c.start c.stop)
  nonempty : ∀ c ∈ chunks, c.text ≠ []
  covers : ∀ i, Solid text i → ∃! c, c ∈ chunks ∧ c.start ≤ i ∧ i < c.stop

/-- The chunks cover the text as promised iff none is cut inside a run of whitespace. -/
theorem covers_iff (text : Str) : Covers text (chunkText text) ↔ Readable text := by
  refine ⟨fun h => (nonblank_iff text).mp h.nonempty, fun h => ?_⟩
  obtain ⟨hw, hmax, hin⟩ := chunkText_spec text
  constructor
  · rw [chunkText, pack_seq, List.range_eq_range']
  · have hpair := hw.pairwise
    rw [List.pairwise_map] at hpair
    exact hpair
  · intro c hc
    obtain ⟨-, hlt, hle⟩ := hw.mem (List.mem_map_of_mem hc)
    exact ⟨hlt, hle, hmax c hc⟩
  · exact fun c hc => pack_text hc
  · exact (nonblank_iff text).mpr h
  · intro i hs
    obtain ⟨s, hs, hi⟩ := hin i hs
    obtain ⟨c, hc, rfl⟩ := List.mem_map.mp hs
    refine ⟨c, ⟨hc, hi⟩, fun d hd => ?_⟩
    have heq := hw.unique (List.mem_map_of_mem hd.1) (List.mem_map_of_mem hc) hd.2 hi
    exact List.inj_on_of_nodup_map hw.nodup hd.1 hc heq

/-- Two words with a long run of spaces between them. -/
def farApart : Str := [97] ++ List.replicate 3000 32 ++ [98]

theorem blank_chunk : ¬ Covers farApart (chunkText farApart) := by
  intro h
  have hblank : ∃ c ∈ chunkText farApart, c.text = [] := by decide +kernel
  obtain ⟨c, hc, hnil⟩ := hblank
  exact h.nonempty c hc hnil

end Chunks

end Autora
