import Mathlib.Data.List.Dedup
import Autora.Comparing
import Autora.FailsAlone
import Autora.Lib.Ties

/-! When a comparison's text depends on what was filed alone. -/

namespace Autora.Disclosures

open List (Forall₂)
open TwoRuns (Both)
open Untyped

variable {lib : CompareLibrary}

/-! ## The text, group by group -/

/-- A change's line in the text. -/
def lineText (lib : CompareLibrary) (total : Int) (c : Change) : Str :=
  (lineOf lib total c.kind c).getD [] ++ [10]

def Writable (lib : CompareLibrary) (total : Int) (changes : List Change) : Prop :=
  ∀ c ∈ changes, (lineOf lib total c.kind c).isSome = true

def titleText (title : String) (changes : List Change) : Str :=
  10 :: (lit title ++ lit " (" ++ digitsOf changes.length ++ lit "):" ++ [10])

def noneText (changes : List Change) : Str := if changes = [] then lit "- none" ++ [10] else []

def sectionText (lib : CompareLibrary) (total : Int) (title : String) (changes : List Change) :
    Str := titleText title changes ++ changes.flatMap (lineText lib total) ++ noneText changes

theorem mapM_some {α β : Type} {f : α → Option β} {g : α → β} {l : List α}
    (h : ∀ a ∈ l, f a = some (g a)) : l.mapM f = some (l.map g) := by
  induction l with
  | nil => rfl
  | cons a l ih =>
    rw [List.mapM_cons, h a List.mem_cons_self, ih fun b hb => h b (List.mem_cons_of_mem _ hb)]
    rfl

theorem mapM_none {α β : Type} {f : α → Option β} {l : List α} {a : α} (ha : a ∈ l)
    (h : f a = none) : l.mapM f = none := by
  induction l with
  | nil => exact absurd ha List.not_mem_nil
  | cons b l ih =>
    rw [List.mapM_cons]
    rcases List.mem_cons.mp ha with rfl | ha
    · rw [h]
      rfl
    · rw [ih ha]
      cases f b <;> rfl

theorem sectionLines_some {total : Int} {kind : PositionChange} {title : String}
    {changes : List Change} (hkind : ∀ c ∈ changes, c.kind = kind)
    (hw : Writable lib total changes) : ∃ lines,
      sectionLines lib total kind title changes = some lines ∧
        joined lines = sectionText lib total title changes := by
  have hlines : changes.mapM (lineOf lib total kind) =
      some (changes.map fun c => (lineOf lib total c.kind c).getD []) := by
    apply mapM_some
    intro c hc
    obtain ⟨line, hline⟩ := Option.isSome_iff_exists.mp (hw c hc)
    rw [hline, ← hkind c hc, hline, Option.getD_some]
  refine ⟨_, by rw [sectionLines, hlines]; rfl, ?_⟩
  unfold joined sectionText titleText noneText
  rw [List.flatMap_append, List.flatMap_append, List.flatMap_map]
  congr 1
  · congr 1
    simp
  · split <;> simp

theorem sectionLines_none {total : Int} {kind : PositionChange} {title : String}
    {changes : List Change} {c : Change} (hc : c ∈ changes) (hkind : c.kind = kind)
    (h : lineOf lib total c.kind c = none) :
    sectionLines lib total kind title changes = none := by
  rw [sectionLines, mapM_none hc (hkind ▸ h)]
  rfl

section

variable {keys : List Key} {caption : Caption} {now before : Holdings}

theorem render_eq : render lib keys caption now before =
    (headLines caption now before).bind fun head =>
      (sections.mapM fun s => sectionLines lib now.totalValue s.1 s.2
        ((compare keys now before).get s.1)).map fun parts => joined (head ++ parts.flatten) := by
  unfold render
  dsimp only
  cases headLines caption now before with
  | none => rfl
  | some head =>
    cases sections.mapM fun s => sectionLines lib now.totalValue s.1 s.2
      ((compare keys now before).get s.1) <;> rfl

theorem render_none {c : Change} (hc : c ∈ changesIn keys now before)
    (h : lineOf lib now.totalValue c.kind c = none) :
    render lib keys caption now before = none := by
  have hsection : ∃ s ∈ sections, s.1 = c.kind := by
    cases c.kind <;> decide
  obtain ⟨s, hs, hkind⟩ := hsection
  have hnone : sectionLines lib now.totalValue s.1 s.2 ((compare keys now before).get s.1) =
      none := by
    rw [compare_get]
    exact sectionLines_none (mem_group.mpr ⟨hc, hkind.symm⟩) hkind.symm h
  rw [render_eq, mapM_none hs hnone]
  cases headLines caption now before <;> rfl

theorem render_some (hw : Writable lib now.totalValue (changesIn keys now before)) :
    render lib keys caption now before = (headLines caption now before).map fun head =>
      joined head ++ sections.flatMap fun s =>
        sectionText lib now.totalValue s.2 (group s.1 (changesIn keys now before)) := by
  have hsections : ∀ l : List (PositionChange × String), ∃ parts,
      (l.mapM fun s => sectionLines lib now.totalValue s.1 s.2
        ((compare keys now before).get s.1)) = some parts ∧
      joined parts.flatten = l.flatMap fun s =>
        sectionText lib now.totalValue s.2 (group s.1 (changesIn keys now before)) := by
    intro l
    induction l with
    | nil => exact ⟨[], rfl, rfl⟩
    | cons s l ih =>
      obtain ⟨parts, hparts, hjoined⟩ := ih
      obtain ⟨lines, hlines, htext⟩ : ∃ lines,
          sectionLines lib now.totalValue s.1 s.2 (group s.1 (changesIn keys now before)) =
            some lines ∧ joined lines =
              sectionText lib now.totalValue s.2 (group s.1 (changesIn keys now before)) :=
        sectionLines_some (fun c hc => (mem_group.mp hc).2) fun c hc => hw c (mem_group.mp hc).1
      refine ⟨lines :: parts, ?_, ?_⟩
      · rw [List.mapM_cons, hparts, compare_get, hlines]
        rfl
      · rw [List.flatten_cons, joined, List.flatMap_append, List.flatMap_cons, ← htext, ← hjoined]
        rfl
  obtain ⟨parts, hparts, hjoined⟩ := hsections sections
  rw [render_eq, hparts, ← hjoined]
  cases headLines caption now before with
  | none => rfl
  | some head => exact congrArg some (List.flatMap_append ..)

end

/-! ## Rows and keys in another order -/

theorem find_same {h h' : Holdings} (hs : h.Same h') (k : Key) :
    find h.positions k = find h'.positions k := Tallies.find?_perm hs.positions hs.nodup

theorem totalValue_same {h h' : Holdings} (hs : h.Same h') : h'.totalValue = h.totalValue :=
  ((hs.positions.map _).sum_eq).symm

theorem headLines_same {now before now' before' : Holdings} (caption : Caption)
    (hnow : now.Same now') (hbefore : before.Same before') :
    headLines caption now' before' = headLines caption now before := by
  have htotals : totalLines caption now' before' = totalLines caption now before := by
    unfold totalLines
    rw [totalValue_same hnow, totalValue_same hbefore, hnow.positions.length_eq,
      hbefore.positions.length_eq]
  rw [headLines, headLines, htotals, hnow.inThousands, hbefore.inThousands]

theorem changesIn_perm {keys keys' : List Key} {now before now' before' : Holdings}
    (hk : IsOrder keys now before) (hk' : IsOrder keys' now' before') (hnow : now.Same now')
    (hbefore : before.Same before') :
    (changesIn keys now before).Perm (changesIn keys' now' before') := by
  have hkeys : keys.Perm keys' := by
    rw [List.perm_ext_iff_of_nodup hk.nodup hk'.nodup]
    intro k
    rw [hk.mem, hk'.mem, (hnow.positions.map _).mem_iff, (hbefore.positions.map _).mem_iff]
  have hat : changeAt now.positions before.positions =
      changeAt now'.positions before'.positions := by
    funext k
    rw [changeAt, changeAt, find_same hnow, find_same hbefore]
  rw [changesIn, changesIn, hat]
  exact hkeys.filterMap _

section

variable {total : Int} {all all' : List Change}

theorem group_perm (kind : PositionChange) (h : all.Perm all') :
    (group kind all).Perm (group kind all') := by
  rw [group_eq, group_eq]
  exact ((List.mergeSort_perm _ _).trans (h.filter _)).trans (List.mergeSort_perm _ _).symm

theorem sectionText_perm {title : String} {l l' : List Change} (h : l.Perm l')
    (hlines : l.flatMap (lineText lib total) = l'.flatMap (lineText lib total)) :
    sectionText lib total title l = sectionText lib total title l' := by
  have hempty : l = [] ↔ l' = [] := by
    rw [← List.length_eq_zero_iff, ← List.length_eq_zero_iff, h.length_eq]
  simp only [sectionText, titleText, noneText, h.length_eq, hlines, hempty]

/-- Where ties read the same, a group reads the same from any order of the changes. -/
theorem group_text (kind : PositionChange) (h : all.Perm all')
    (hsteady : Ties.Steady largerFirst (lineText lib total)
      (all.filter fun c => c.kind = kind)) :
    (group kind all).flatMap (lineText lib total) =
      (group kind all').flatMap (lineText lib total) := by
  refine Ties.flatMap_sorted (group_perm kind h) ?_ ?_
    (hsteady.of_perm (List.mergeSort_perm _ _))
  · exact List.pairwise_mergeSort largerFirst_trans largerFirst_total _
  · exact List.pairwise_mergeSort largerFirst_trans largerFirst_total _

/-- Two changes of one group with the same value and the same name read alike, whichever
comes first. -/
def TiesReadAlike (lib : CompareLibrary) (total : Int) (changes : List Change) : Prop :=
  ∀ a ∈ changes, ∀ b ∈ changes, a.kind = b.kind → a.ranked = b.ranked →
    lineText lib total a ++ lineText lib total b = lineText lib total b ++ lineText lib total a

theorem tiesReadAlike_iff : TiesReadAlike lib total all ↔ ∀ kind,
    Ties.Steady largerFirst (lineText lib total) (all.filter fun c => c.kind = kind) := by
  constructor
  · intro h kind a ha b hb hab hba
    rw [List.mem_filter, decide_eq_true_eq] at ha hb
    exact h a ha.1 b hb.1 (ha.2.trans hb.2.symm) (largerFirst_tie.mp ⟨hab, hba⟩)
  · intro h a ha b hb hkind hranked
    obtain ⟨hab, hba⟩ := largerFirst_tie.mpr hranked
    exact h b.kind a (List.mem_filter.mpr ⟨ha, decide_eq_true hkind⟩) b
      (List.mem_filter.mpr ⟨hb, decide_eq_true rfl⟩) hab hba

end

section

variable {keys keys' : List Key} {caption : Caption} {now before now' before' : Holdings}

/-- A comparison whose every number can be written. -/
def HasText (lib : CompareLibrary) (caption : Caption) (now before : Holdings) : Prop :=
  (headLines caption now before).isSome = true ∧
    Writable lib now.totalValue (changes now.positions before.positions)

theorem render_same (hk : IsOrder keys now before) (hk' : IsOrder keys' now' before')
    (hnow : now.Same now') (hbefore : before.Same before')
    (h : HasText lib caption now before →
      TiesReadAlike lib now.totalValue (changes now.positions before.positions)) :
    render lib keys caption now before = render lib keys' caption now' before' := by
  have hall := changesIn_perm hk hk' hnow hbefore
  have hlisted : (changes now.positions before.positions).Perm (changesIn keys now before) := by
    have hsame : ∀ h : Holdings, (h.positions.map Position.key).Nodup → h.Same h :=
      fun h hnodup => ⟨List.Perm.refl _, hnodup, rfl⟩
    have hperm := changesIn_perm (changes_isOrder hnow.nodup hbefore.nodup) hk
      (hsame now hnow.nodup) (hsame before hbefore.nodup)
    rwa [changesIn_of_at (changes_at hnow.nodup hbefore.nodup)] at hperm
  by_cases hw : Writable lib now.totalValue (changesIn keys now before)
  · have hw' : Writable lib now'.totalValue (changesIn keys' now' before') := by
      rw [totalValue_same hnow]
      exact fun c hc => hw c (hall.symm.subset hc)
    rw [render_some hw, render_some hw', headLines_same caption hnow hbefore, totalValue_same hnow]
    cases hhead : headLines caption now before with
    | none => rw [Option.map_none, Option.map_none]
    | some head =>
      have hties := h ⟨by rw [hhead]; rfl, fun c hc => hw c (hlisted.subset hc)⟩
      have hsections : ∀ s ∈ sections,
          sectionText lib now.totalValue s.2 (group s.1 (changesIn keys now before)) =
            sectionText lib now.totalValue s.2 (group s.1 (changesIn keys' now' before')) := by
        intro s _
        refine sectionText_perm (group_perm s.1 hall) (group_text s.1 hall ?_)
        exact (tiesReadAlike_iff.mp hties s.1).of_perm (hlisted.symm.filter _)
      rw [Option.map_some, Option.map_some, List.flatMap_congr hsections]
  · obtain ⟨c, hc, hnone⟩ : ∃ c ∈ changesIn keys now before,
        lineOf lib now.totalValue c.kind c = none := by
      simpa [Writable] using hw
    rw [render_none hc hnone, render_none (hall.subset hc)]
    rw [totalValue_same hnow]
    exact hnone

theorem sections_kind (kind : PositionChange) : ∃ u title v,
    sections = u ++ (kind, title) :: v ∧ ∀ s ∈ u ++ v, s.1 ≠ kind := by
  cases kind
  · exact ⟨[], _, _, rfl, by decide⟩
  · exact ⟨[(.new, "New positions"), (.soldOut, "Sold out")], _, _, rfl, by decide⟩
  · exact ⟨[(.new, "New positions"), (.soldOut, "Sold out"), (.increased, "Increased")], _, _, rfl,
      by decide⟩
  · exact ⟨[(.new, "New positions"), (.soldOut, "Sold out"), (.increased, "Increased"),
      (.decreased, "Decreased")], _, _, rfl, by decide⟩
  · exact ⟨[(.new, "New positions")], _, _, rfl, by decide⟩

/-- Texts that differ in one group alone agree in that group's section. -/
theorem sectionText_of_sections {text text' : PositionChange × String → Str}
    (kind : PositionChange) (h : sections.flatMap text = sections.flatMap text')
    (hothers : ∀ s, s.1 ≠ kind → text s = text' s) : ∃ title, text (kind, title) =
      text' (kind, title) := by
  obtain ⟨u, title, v, hsections, hkinds⟩ := sections_kind kind
  have hu : u.flatMap text = u.flatMap text' :=
    List.flatMap_congr fun s hs => hothers s (hkinds s (List.mem_append_left v hs))
  have hv : v.flatMap text = v.flatMap text' :=
    List.flatMap_congr fun s hs => hothers s (hkinds s (List.mem_append_right u hs))
  rw [hsections, List.flatMap_append, List.flatMap_append, List.flatMap_cons, List.flatMap_cons, hu,
    hv, List.append_cancel_left_eq, List.append_cancel_right_eq] at h
  exact ⟨title, h⟩

theorem lines_of_sectionText {total : Int} {title : String} {l l' : List Change} (h : l.Perm l')
    (htext : sectionText lib total title l = sectionText lib total title l') :
    l.flatMap (lineText lib total) = l'.flatMap (lineText lib total) := by
  have htitle : titleText title l = titleText title l' := by
    rw [titleText, titleText, h.length_eq]
  have hnone : noneText l = noneText l' := by
    have hempty : l = [] ↔ l' = [] := by
      rw [← List.length_eq_zero_iff, ← List.length_eq_zero_iff, h.length_eq]
    simp only [noneText, hempty]
  rw [sectionText, sectionText, htitle, hnone, List.append_cancel_right_eq,
    List.append_cancel_left_eq] at htext
  exact htext

theorem group_append {kind : PositionChange} {l rest : List Change}
    (hl : ∀ c ∈ l, c.kind = kind) (hrest : ∀ c ∈ rest, c.kind ≠ kind) :
    group kind (l ++ rest) = l.mergeSort largerFirst := by
  have hin : l.filter (fun c => c.kind = kind) = l :=
    List.filter_eq_self.mpr fun c hc => decide_eq_true (hl c hc)
  have hout : rest.filter (fun c => c.kind = kind) = [] :=
    List.filter_eq_nil_iff.mpr fun c hc => by simpa using hrest c hc
  rw [group_eq, List.filter_append, hin, hout, List.append_nil]

theorem group_append_other {kind other : PositionChange} {l rest : List Change}
    (hl : ∀ c ∈ l, c.kind = kind) (h : other ≠ kind) :
    group other (l ++ rest) = group other rest := by
  have hout : l.filter (fun c => c.kind = other) = [] :=
    List.filter_eq_nil_iff.mpr fun c hc => by simpa [hl c hc] using Ne.symm h
  rw [group_eq, group_eq, List.filter_append, hout, List.nil_append]

/-- Where every order of the keys gives one text, ties read alike. -/
theorem ties_of_render (hnow : (now.positions.map Position.key).Nodup)
    (hbefore : (before.positions.map Position.key).Nodup)
    (h : ∀ keys keys', IsOrder keys now before → IsOrder keys' now before →
      render lib keys caption now before = render lib keys' caption now before)
    (ht : HasText lib caption now before) :
    TiesReadAlike lib now.totalValue (changes now.positions before.positions) := by
  obtain ⟨hhead, hw⟩ := ht
  obtain ⟨head, hhead⟩ := Option.isSome_iff_exists.mp hhead
  rw [tiesReadAlike_iff]
  intro kind
  let all := changes now.positions before.positions
  let rest := all.filter fun c => !decide (c.kind = kind)
  -- the changes of the group in another order, all others as they were
  have hregrouped : ∀ l : List Change, l.Perm (all.filter fun c => c.kind = kind) →
      IsOrder ((l ++ rest).map Change.key) now before ∧
        changesIn ((l ++ rest).map Change.key) now before = l ++ rest ∧
        Writable lib now.totalValue (l ++ rest) := by
    intro l hl
    have hperm : (l ++ rest).Perm all :=
      (hl.append_right rest).trans (List.filter_append_perm _ all)
    have horder := changes_isOrder hnow hbefore
    refine ⟨⟨?_, ?_⟩, ?_, ?_⟩
    · exact (hperm.map Change.key).nodup_iff.mpr horder.nodup
    · intro k
      rw [(hperm.map Change.key).mem_iff]
      exact horder.mem k
    · exact changesIn_of_at fun c hc => changes_at hnow hbefore c (hperm.subset hc)
    · exact fun c hc => hw c (hperm.subset hc)
  apply Ties.steady_of_flatMap largerFirst_trans largerFirst_total
  intro l hl
  obtain ⟨hk, hin, hw⟩ := hregrouped l hl
  obtain ⟨hk', hin', hw'⟩ := hregrouped _ (List.Perm.refl _)
  have htext := h _ _ hk hk'
  rw [render_some (hin.symm ▸ hw), render_some (hin'.symm ▸ hw'), hhead, hin, hin',
    Option.map_some, Option.map_some, Option.some_inj, List.append_cancel_left_eq] at htext
  have hkinds : ∀ l : List Change, l.Perm (all.filter fun c => c.kind = kind) →
      ∀ c ∈ l, c.kind = kind := by
    intro l hl c hc
    have hmem := hl.subset hc
    rw [List.mem_filter, decide_eq_true_eq] at hmem
    exact hmem.2
  have hrest : ∀ c ∈ rest, c.kind ≠ kind := by
    intro c hc
    have hmem := (List.mem_filter.mp hc).2
    simpa using hmem
  obtain ⟨title, hsection⟩ := sectionText_of_sections kind htext fun s hs => by
    rw [group_append_other (hkinds l hl) hs, group_append_other (hkinds _ (List.Perm.refl _)) hs]
  rw [group_append (hkinds l hl) hrest, group_append (hkinds _ (List.Perm.refl _)) hrest]
    at hsection
  have hperm : (l.mergeSort largerFirst).Perm
      ((all.filter fun c => c.kind = kind).mergeSort largerFirst) :=
    ((List.mergeSort_perm _ _).trans hl).trans (List.mergeSort_perm _ _).symm
  exact lines_of_sectionText hperm hsection

end

/-! ## Two quarters as they were filed -/

/-- The filings of both sides; within a side, rows of one position name it alike. -/
structure Quarters where
  now : List Filed
  before : List Filed
  nowNamed : Named (allRows now)
  beforeNamed : Named (allRows before)

/-- The same filings with the rows of each in another order. -/
structure Quarters.Reordered (q q' : Quarters) : Prop where
  now : Forall₂ Filed.Reordered q.now q'.now
  before : Forall₂ Filed.Reordered q.before q'.before

/-- How a process goes through the set of both sides' keys. -/
structure KeyOrder where
  keys : Holdings → Holdings → List Key
  isOrder : ∀ now before, IsOrder (keys now before) now before

def KeyOrder.at (order : KeyOrder) {keys : List Key} {now before : Holdings}
    (h : IsOrder keys now before) : KeyOrder where
  keys n b := if n = now ∧ b = before then keys else order.keys n b
  isOrder n b := by
    by_cases hnb : n = now ∧ b = before
    · rw [if_pos hnb, hnb.1, hnb.2]
      exact h
    · rw [if_neg hnb]
      exact order.isOrder n b

theorem KeyOrder.at_keys (order : KeyOrder) {keys : List Key} {now before : Holdings}
    (h : IsOrder keys now before) : (order.at h).keys now before = keys := if_pos ⟨rfl, rfl⟩

/-- The keys as they are filed, this quarter's first. -/
def KeyOrder.filed : KeyOrder where
  keys now before := (now.positions.map Position.key ++ before.positions.map Position.key).dedup
  isOrder now before := ⟨List.nodup_dedup _, fun k => by rw [List.mem_dedup, List.mem_append]⟩

/-- The comparison of two quarters, each side read in the given way. -/
def Quarters.compared (read : List Filed → Except Raised Holdings) (order : KeyOrder)
    (q : Quarters) : Except Raised Comparison :=
  read q.now >>= fun now => read q.before >>= fun before =>
    pure (compare (order.keys now before) now before)

/-- The text of two quarters. -/
def Quarters.text (lib : CompareLibrary) (order : KeyOrder) (caption : Caption) (q : Quarters) :
    Except Raised (Option Str) :=
  side lib.toFilingLibrary q.now >>= fun now => side lib.toFilingLibrary q.before >>= fun before =>
    pure (render lib (order.keys now before) caption now before)

/-- Both sides as they are read. -/
structure Quarters.Read (lib : FilingLibrary) (q : Quarters) (now before : Holdings) : Prop where
  now : side lib q.now = .ok now
  before : side lib q.before = .ok before

/-- A comparison that depends on what was filed alone. -/
structure Dependable (lib : CompareLibrary) (caption : Caption) (q : Quarters) : Prop where
  partitioned : ∀ (order : KeyOrder) now before, q.Read lib.toFilingLibrary now before →
    Partitioned (compare (order.keys now before) now before) now before
  totals : ∀ (order : KeyOrder) now before, q.Read lib.toFilingLibrary now before → ∀ kind,
    ((compare (order.keys now before) now before).all.map (deltaOf kind)).sum =
      total kind (allRows q.now) - total kind (allRows q.before)
  addedUp : ∀ order, q.compared (side lib.toFilingLibrary) order =
    q.compared (added lib.toFilingLibrary) order
  sameText : ∀ q', q.Reordered q' → ∀ order order',
    q.text lib order caption = q'.text lib order' caption

/-- No two positions of one group with the same value and the same name read differently, where
the comparison has a text. -/
def TiesSettled (lib : CompareLibrary) (caption : Caption) (q : Quarters) : Prop :=
  ∀ now before, q.Read lib.toFilingLibrary now before → HasText lib caption now before →
    TiesReadAlike lib now.totalValue (changes now.positions before.positions)

section

variable {caption : Caption} {q : Quarters}

theorem text_same (h : TiesSettled lib caption q) {q' : Quarters} (hq : q.Reordered q')
    (order order' : KeyOrder) : q.text lib order caption = q'.text lib order' caption := by
  have hnow : Both Holdings.Same (side lib.toFilingLibrary q.now)
      (side lib.toFilingLibrary q'.now) := side_same hq.now q.nowNamed
  have hbefore : Both Holdings.Same (side lib.toFilingLibrary q.before)
      (side lib.toFilingLibrary q'.before) := side_same hq.before q.beforeNamed
  unfold Quarters.text
  cases hn : side lib.toFilingLibrary q.now <;> cases hn' : side lib.toFilingLibrary q'.now <;>
    rw [hn, hn'] at hnow
  · exact congrArg Except.error hnow
  · exact hnow.elim
  · exact hnow.elim
  · cases hb : side lib.toFilingLibrary q.before <;>
      cases hb' : side lib.toFilingLibrary q'.before <;> rw [hb, hb'] at hbefore
    · exact congrArg Except.error hbefore
    · exact hbefore.elim
    · exact hbefore.elim
    · exact congrArg Except.ok (render_same (order.isOrder _ _) (order'.isOrder _ _) hnow hbefore
        (h _ _ ⟨hn, hb⟩))

theorem Quarters.Reordered.refl (q : Quarters) : q.Reordered q := by
  have hsame : ∀ l : List Filed, Forall₂ Filed.Reordered l l := fun l =>
    List.forall₂_same.mpr fun _ _ => ⟨rfl, rfl, List.Perm.refl _⟩
  exact ⟨hsame _, hsame _⟩

theorem ties_of_text (h : ∀ order order' : KeyOrder,
    q.text lib order caption = q.text lib order' caption) : TiesSettled lib caption q := by
  intro now before hread
  refine ties_of_render (side_nodup hread.now) (side_nodup hread.before) ?_
  intro keys keys' hk hk'
  have htext : ∀ order : KeyOrder, q.text lib order caption =
      .ok (render lib (order.keys now before) caption now before) := by
    intro order
    rw [Quarters.text, hread.now, hread.before]
    rfl
  have hboth := h (KeyOrder.filed.at hk) (KeyOrder.filed.at hk')
  rw [htext, htext, KeyOrder.at_keys, KeyOrder.at_keys] at hboth
  exact Except.ok.inj hboth

/-- A comparison depends on what was filed alone exactly where ties read alike. -/
theorem comparison_dependable_iff (lib : CompareLibrary) (caption : Caption) (q : Quarters) :
    Dependable lib caption q ↔ TiesSettled lib caption q := by
  constructor
  · intro h
    exact ties_of_text fun order order' => h.sameText q (Quarters.Reordered.refl q) order order'
  · intro h
    refine ⟨?_, ?_, ?_, fun q' hq => text_same h hq⟩
    · exact fun order now before _ => compare_partitioned (order.isOrder now before)
    · intro order now before hread kind
      rw [compare_totals (order.isOrder now before) (side_nodup hread.now)
        (side_nodup hread.before), total_side kind hread.now, total_side kind hread.before]
    · intro order
      rw [Quarters.compared, Quarters.compared, side_eq_added]
      congr 1
      funext now
      rw [side_eq_added]

end

/-! ## A call and a put -/

/-- `ROUND_HALF_UP` to tenths of a percent. -/
def halfUpTenths (part whole : Int) : Quantized :=
  ⟨part * whole < 0, (2 * part.natAbs * 1000 + whole.natAbs) / (2 * whole.natAbs)⟩

def exactLibrary : CompareLibrary :=
  { plainLibrary with
    quotient := fun value amount => some (value / amount)
    quantized := fun part whole => some (halfUpTenths part whole) }

/-- Options on one fund, which a filing lists at the value of the shares underneath. -/
def optionRow (putCall : String) (amount : Int) : Position :=
  ⟨"SPDR S&P 500 ETF TR", "TR UNIT", "78462F103", putCall, "SH", amount, amount * 600⟩

def straddleRows (amount : Int) : List Position := [optionRow "CALL" amount, optionRow "PUT" amount]

def filedBy (amount : Int) : Filed :=
  ⟨"Straddle Capital LP", "13F HOLDINGS REPORT", straddleRows amount⟩

def straddle : Quarters where
  now := [filedBy 100000]
  before := [filedBy 50000]
  nowNamed := by
    unfold Named
    decide
  beforeNamed := by
    unfold Named
    decide

def straddleCaption : Caption where
  filer := lit "Straddle Capital LP"
  cik := lit "1000001"
  now := ⟨lit "1000001", lit "0001000001-26-000002", ⟨2026, 8, 14, by decide⟩,
    ⟨2026, 6, 30, by decide⟩⟩
  first := (lit "Straddle Capital LP",
    ⟨lit "1000001", lit "0001000001-26-000001", ⟨2026, 5, 15, by decide⟩,
      ⟨2026, 3, 31, by decide⟩⟩)
  others := []

def straddleHoldings (amount : Int) : Holdings :=
  ⟨"Straddle Capital LP", "13F HOLDINGS REPORT", straddleRows amount, false⟩

theorem straddle_read : straddle.Read exactLibrary.toFilingLibrary (straddleHoldings 100000)
    (straddleHoldings 50000) := by
  have hread : ∀ amount, side exactLibrary.toFilingLibrary [filedBy amount] =
      .ok (straddleHoldings amount) := by
    intro amount
    rw [side_one, holdingsOf_eq, marked, looksLikeThousands]
    have hpriced : priced ((filedBy amount).rows.foldl addUp []) = [] := rfl
    rw [hpriced]
    simp
    rfl
  exact ⟨hread _, hread _⟩

/-- A call and a put on one fund for the same shares stand in either order. -/
theorem straddle_undependable : ¬Dependable exactLibrary straddleCaption straddle := by
  intro h
  have hties := ties_of_text fun order order' =>
    h.sameText straddle (Quarters.Reordered.refl straddle) order order'
  have hread := hties _ _ straddle_read ⟨by decide +kernel, by unfold Writable; decide +kernel⟩
  revert hread
  unfold TiesReadAlike
  decide +kernel

end Autora.Disclosures
