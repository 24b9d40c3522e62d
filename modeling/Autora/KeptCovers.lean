import Mathlib.Data.List.InsertIdx
import Mathlib.Data.List.Nodup
import Mathlib.Data.List.Perm.Basic
import Autora.Covers

/-! What runs of cover transactions keep: no two stories show one photo, a swap loses none, and
every shown cover's object is there as long as no transaction is taken back after it. -/

namespace Autora

namespace Covers

open Untyped

variable {isAlnum : Alnum} {w : World}

/-! The rows. -/

theorem coverOf_some {covers : List StoryCover} {story : Uuid} {r : StoryCover}
    (h : coverOf covers story = some r) : r ∈ covers ∧ r.storyId = story :=
  ⟨List.mem_of_find?_eq_some h, by simpa using List.find?_some h⟩

theorem coverOf_none {covers : List StoryCover} {story : Uuid} (h : coverOf covers story = none) :
    ∀ r ∈ covers, r.storyId ≠ story := by
  simpa [coverOf] using h

theorem eq_of_story {covers : List StoryCover} (once : (covers.map (·.storyId)).Nodup)
    {r r' : StoryCover} (hr : r ∈ covers) (hr' : r' ∈ covers) (h : r.storyId = r'.storyId) :
    r = r' :=
  List.inj_on_of_nodup_map once hr hr' h

theorem coverOf_mem {covers : List StoryCover} (once : (covers.map (·.storyId)).Nodup)
    {r : StoryCover} (hr : r ∈ covers) : coverOf covers r.storyId = some r := by
  cases h : coverOf covers r.storyId with
  | none => exact absurd rfl (coverOf_none h r hr)
  | some r' =>
    obtain ⟨hr', hs⟩ := coverOf_some h
    rw [eq_of_story once hr' hr hs]

theorem mem_write {row r : StoryCover} {covers : List StoryCover} :
    r ∈ write row covers ↔ r = row ∨ r ∈ covers ∧ r.storyId ≠ row.storyId := by
  rw [write]
  split
  · next hany =>
    obtain ⟨old, hold, hs⟩ := List.any_eq_true.mp hany
    rw [List.mem_map]
    constructor
    · intro h
      obtain ⟨x, hx, rfl⟩ := h
      by_cases hstory : x.storyId = row.storyId
      · exact Or.inl (if_pos hstory)
      · rw [if_neg hstory]
        exact Or.inr ⟨hx, hstory⟩
    · intro h
      rcases h with rfl | ⟨hr, hstory⟩
      · exact ⟨old, hold, if_pos (by simpa using hs)⟩
      · exact ⟨r, hr, if_neg hstory⟩
  · next hany =>
    have hnone : ∀ x ∈ covers, x.storyId ≠ row.storyId := by simpa using hany
    rw [List.mem_append, List.mem_singleton, or_comm]
    exact or_congr_right ⟨fun hr => ⟨hr, hnone r hr⟩, fun hr => hr.1⟩

theorem write_once {row : StoryCover} {covers : List StoryCover}
    (once : (covers.map (·.storyId)).Nodup) : ((write row covers).map (·.storyId)).Nodup := by
  rw [write]
  split
  · have hsame : (covers.map fun r => if r.storyId = row.storyId then row else r).map
        (·.storyId) = covers.map (·.storyId) := by
      rw [List.map_map]
      apply List.map_congr_left
      intro r hr
      by_cases h : r.storyId = row.storyId <;> simp [h]
    rwa [hsame]
  · next hany =>
    have hnone : ∀ x ∈ covers, x.storyId ≠ row.storyId := by simpa using hany
    rw [List.map_append, List.nodup_append]
    refine ⟨once, by simp, ?_⟩
    intro a ha b hb
    obtain ⟨x, hx, rfl⟩ := List.mem_map.mp ha
    rw [List.map_singleton, List.mem_singleton] at hb
    exact hb ▸ hnone x hx

/-- A row written over itself. -/
theorem write_self {covers : List StoryCover} (once : (covers.map (·.storyId)).Nodup)
    {r : StoryCover} (hr : r ∈ covers) : write r covers = covers := by
  have hany : (covers.any fun x => x.storyId = r.storyId) = true :=
    List.any_eq_true.mpr ⟨r, hr, by simp⟩
  rw [write, if_pos hany]
  conv_rhs => rw [← List.map_id covers]
  apply List.map_congr_left
  intro x hx
  by_cases h : x.storyId = r.storyId
  · rw [if_pos h, eq_of_story once hx hr h]
    rfl
  · rw [if_neg h]
    rfl

theorem not_usedElsewhere {covers : List StoryCover} {story : Uuid} {photos : List Photo}
    {p : Photo} (hp : p ∈ photos) (h : p.id ∉ usedElsewhere covers (some story) photos) :
    ∀ r ∈ covers, r.state = .active → r.storyId ≠ story → r.providerId ≠ p.id := by
  intro r hr hactive hstory hid
  apply h
  rw [usedElsewhere, ← hid]
  apply List.mem_map_of_mem
  have hphoto : r.providerId ∈ photos.map (·.id) := hid ▸ List.mem_map_of_mem hp
  simpa [hr, hactive, hstory] using hphoto

/-! The keys. -/

theorem keyOf_story {story story' : Uuid} {photo photo' : Photo}
    (h : keyOf isAlnum story photo = keyOf isAlnum story' photo') : story = story' := by
  simp only [keyOf, List.append_assoc] at h
  have htexts := List.append_inj (List.append_cancel_left h)
    (story.length_eq.trans story'.length_eq.symm)
  cases story
  cases story'
  simpa using htexts.1

theorem store_key {out : Outside} {story : Uuid} {photo : Photo} {data : Option Data} {s : Stored}
    (h : store isAlnum out story photo data = .ok s) : s.key = keyOf isAlnum story photo := by
  simp only [store] at h
  split at h
  · cases h
  · split at h
    · cases h
    · split at h
      · cases h
      · cases h
        rfl

/-! A swap's photo and list. -/

theorem freshOf_id {found : List Photo} {id : Str} {p : Photo} (h : freshOf found id = some p) :
    p.id = id := by
  simpa using List.find?_some h

theorem renewed_id (found : List Photo) (p : Photo) : ((freshOf found p.id).getD p).id = p.id := by
  cases h : freshOf found p.id with
  | none => rfl
  | some fresh => exact freshOf_id h

/-- A row looked up again: the same ids, with other links. -/
structure Renewed (row row' : StoryCover) : Prop where
  story : row'.storyId = row.storyId
  shown : row'.photo.map (·.id) = row.photo.map (·.id)
  listed : row'.candidates.map (·.id) = row.candidates.map (·.id)

theorem fetch_ok {out : Outside} {row row' : StoryCover} {photo photo' : Photo} {i : Nat}
    {data : Data} (hphoto : row.candidates[i]? = some photo)
    (h : fetch out row photo i = .ok (row', photo', data)) :
    Renewed row row' ∧ row'.candidates[i]? = some photo' ∧ photo'.id = photo.id := by
  rw [fetch] at h
  split at h
  · cases h
    exact ⟨⟨rfl, rfl, rfl⟩, hphoto, rfl⟩
  · split at h
    · cases h
    · next found _ =>
      split at h
      · cases h
      · dsimp only at h
        rw [List.getElem?_map, hphoto, Option.map_some] at h
        dsimp only at h
        split at h
        · cases h
        · cases h
          have hids : ((·.id) ∘ fun p : Photo => (freshOf found p.id).getD p) = (·.id) :=
            funext fun p => renewed_id found p
          refine ⟨⟨rfl, ?_, ?_⟩, ?_, renewed_id found photo⟩
          · rw [Option.map_map, hids]
          · rw [List.map_map, hids]
          · rw [List.getElem?_map, hphoto, Option.map_some]
  · cases h

/-- The ids of the photo a story shows and of those it may swap to. -/
def StoryCover.photoIds (r : StoryCover) : List Str := r.providerId :: r.candidates.map (·.id)

theorem perm_pick {ids : List Str} {i : Nat} {id : Str} (h : ids[i]? = some id) :
    (id :: ids.eraseIdx i).Perm ids := by
  obtain ⟨hi, rfl⟩ := List.getElem?_eq_some_iff.mp h
  exact List.getElem_cons_eraseIdx_perm hi

theorem swapped_photoIds (row : StoryCover) (photo : Photo) (i : Nat) (s : Stored) :
    (row.swapped photo i s).photoIds =
      photo.id :: (row.candidates.map (·.id)).eraseIdx i ++ (row.photo.map (·.id)).toList := by
  cases hp : row.photo <;>
    simp [StoryCover.photoIds, StoryCover.swapped, StoryCover.show_, hp, List.eraseIdx_map]

/-! The invariant, and what a call that shows a photo writes. -/

variable (isAlnum) in
structure Sound (w : World) : Prop where
  once : (w.covers.map (·.storyId)).Nodup
  shown : ∀ r ∈ w.covers, r.photo.map (·.id) = some r.providerId
  keyed : ∀ r ∈ w.covers, ∃ photo, r.key = keyOf isAlnum r.storyId photo
  /-- No two stories have the same photo as their cover. -/
  apart : ∀ r ∈ w.covers, ∀ r' ∈ w.covers, r.state = .active → r'.state = .active →
    r.providerId = r'.providerId → r = r'

/-- Every cover shown has its object. -/
def Kept (w : World) : Prop := ∀ r ∈ w.covers, r.state = .active → r.key ∈ w.objects

/-- No story lists the photo it shows, or one photo twice. -/
def ListedOnce (w : World) : Prop := ∀ r ∈ w.covers, r.photoIds.Nodup

variable (isAlnum) in
structure Shows (w : World) (row : StoryCover) (s : Stored) : Prop where
  shown : row.photo.map (·.id) = some row.providerId
  active : row.state = .active
  key : row.key = s.key
  keyed : ∃ photo, s.key = keyOf isAlnum row.storyId photo
  free : ∀ r ∈ w.covers, r.state = .active → r.storyId ≠ row.storyId →
    r.providerId ≠ row.providerId

theorem Sound.write {row : StoryCover} {s : Stored} (h : Sound isAlnum w)
    (hrow : Shows isAlnum w row s) (objects : List Str) :
    Sound isAlnum ⟨write row w.covers, objects⟩ := by
  refine ⟨write_once h.once, ?_, ?_, ?_⟩
  · intro r hr
    rcases mem_write.mp hr with rfl | ⟨hr, -⟩
    · exact hrow.shown
    · exact h.shown r hr
  · intro r hr
    rcases mem_write.mp hr with rfl | ⟨hr, -⟩
    · rw [hrow.key]
      exact hrow.keyed
    · exact h.keyed r hr
  · intro r hr r' hr' hactive hactive' hid
    rcases mem_write.mp hr with rfl | ⟨hin, hstory⟩
    · rcases mem_write.mp hr' with rfl | ⟨hin', hstory'⟩
      · rfl
      · exact absurd hid.symm (hrow.free r' hin' hactive' hstory')
    · rcases mem_write.mp hr' with rfl | ⟨hin', -⟩
      · exact absurd hid (hrow.free r hin hactive hstory)
      · exact h.apart r hin r' hin' hactive hactive' hid

theorem mem_forget {out : Outside} {key k : Str} {objects : List Str} :
    k ∈ forget out key objects ↔ k ∈ objects ∧ (out.deletes = true → k ≠ key) := by
  rw [forget]
  cases out.deletes <;> simp

theorem mem_exchange {out : Outside} {old : Option Str} {key k : Str} {objects : List Str} :
    k ∈ exchange out old key objects ↔
      (k = key ∨ k ∈ objects) ∧ (old = some k → k ≠ key → out.deletes = false) := by
  cases old with
  | none => simp [exchange]
  | some old =>
    rw [exchange]
    by_cases hold : old = key
    · subst hold
      simp only [ne_eq, not_true_eq_false, if_false, List.mem_cons, Option.some_inj]
      exact ⟨fun h => ⟨h, fun heq hne => absurd heq.symm hne⟩, fun h => h.1⟩
    · rw [if_pos hold, mem_forget, List.mem_cons, Option.some_inj]
      apply and_congr_right
      intro _
      constructor
      · intro h heq hne
        subst heq
        simpa using h
      · intro h hdel heq
        subst heq
        simp [h rfl hold] at hdel

theorem key_ne {r r' : StoryCover} (h : Sound isAlnum w) (hr : r ∈ w.covers)
    (hr' : ∃ photo, r'.key = keyOf isAlnum r'.storyId photo) (hstory : r.storyId ≠ r'.storyId) :
    r.key ≠ r'.key := by
  intro heq
  obtain ⟨photo, hkey⟩ := h.keyed r hr
  obtain ⟨photo', hkey'⟩ := hr'
  exact hstory (keyOf_story (hkey.symm.trans (heq.trans hkey')))

/-- A cover shown and committed: only the object of the photo it replaces may be gone. -/
theorem Kept.write {row : StoryCover} {s : Stored} {out : Outside} (hkept : Kept w)
    (h : Sound isAlnum w) (hrow : Shows isAlnum w row s) :
    Kept ⟨write row w.covers,
      exchange out ((coverOf w.covers row.storyId).map (·.key)) s.key w.objects⟩ := by
  intro r hr hactive
  rw [mem_exchange]
  rcases mem_write.mp hr with rfl | ⟨hr, hstory⟩
  · exact ⟨Or.inl hrow.key, fun _ hne => absurd hrow.key hne⟩
  · refine ⟨Or.inr (hkept r hr hactive), fun hold _ => ?_⟩
    obtain ⟨old, hold, hkey⟩ := Option.map_eq_some_iff.mp hold
    obtain ⟨hmem, hs⟩ := coverOf_some hold
    exact absurd hkey.symm (key_ne h hr (h.keyed old hmem) (hs ▸ hstory))

/-- A call taken back: the objects are what it left. -/
theorem kept_takenBack {story : Uuid} {key : Str} {out : Outside} (hkept : Kept w)
    (h : Sound isAlnum w) :
    Kept ⟨w.covers, exchange out ((coverOf w.covers story).map (·.key)) key w.objects⟩ ↔
      ∀ r, coverOf w.covers story = some r → r.state = .active → r.key ≠ key →
        out.deletes = false := by
  constructor
  · intro hafter r hr hactive hne
    have hin := mem_exchange.mp (hafter r (coverOf_some hr).1 hactive)
    exact hin.2 (by rw [hr]; rfl) hne
  · intro hdel r hr hactive
    rw [mem_exchange]
    refine ⟨Or.inr (hkept r hr hactive), fun hold hne => ?_⟩
    obtain ⟨old, hold, hkey⟩ := Option.map_eq_some_iff.mp hold
    obtain ⟨hmem, hs⟩ := coverOf_some hold
    by_cases hstory : r.storyId = story
    · rw [← hstory, coverOf_mem h.once hr] at hold
      cases hold
      exact hdel r (hstory ▸ coverOf_mem h.once hr) hactive hne
    · exact absurd hkey.symm (key_ne h hr (h.keyed old hmem) (hs ▸ hstory))

/-! What each call does. -/

theorem setCover_shows {out : Outside} {c : Choice} {s : Stored}
    (hfree : usedElsewhere w.covers (some c.storyId) [c.photo] = [])
    (hactive : ∀ r, coverOf w.covers c.storyId = some r → r.state = .active)
    (hs : store isAlnum out c.storyId c.photo c.data = .ok s) :
    (c.shown (coverOf w.covers c.storyId) s).storyId = c.storyId ∧
      Shows isAlnum w (c.shown (coverOf w.covers c.storyId) s) s := by
  have hstory : (c.shown (coverOf w.covers c.storyId) s).storyId = c.storyId := by
    cases h : coverOf w.covers c.storyId with
    | none => rfl
    | some r => exact (coverOf_some h).2
  refine ⟨hstory, rfl, ?_, rfl, ?_, ?_⟩
  · cases h : coverOf w.covers c.storyId with
    | none => rfl
    | some r => exact hactive r h
  · rw [hstory]
    exact ⟨c.photo, store_key hs⟩
  · rw [hstory]
    intro r hr hact hne
    have hnot : c.photo.id ∉ usedElsewhere w.covers (some c.storyId) [c.photo] := by
      rw [hfree]
      exact List.not_mem_nil
    exact not_usedElsewhere (List.mem_singleton_self _) hnot r hr hact hne

theorem nextFree_some {covers : List StoryCover} {row : StoryCover} {photo : Photo} {i : Nat}
    (h : nextFree covers row = some (photo, i)) :
    row.candidates[i]? = some photo ∧
      ∀ r ∈ covers, r.state = .active → r.storyId ≠ row.storyId → r.providerId ≠ photo.id := by
  have hmem := List.mem_of_find?_eq_some h
  have hfree := List.find?_some h
  have hget : row.candidates[i]? = some photo := by simpa using List.mem_zipIdx_iff_getElem?.mp hmem
  exact ⟨hget, not_usedElsewhere (List.mem_of_getElem? hget) (by simpa using hfree)⟩

theorem prepared_shows {out : Outside} {row row' : StoryCover} {s : Stored}
    (hshown : row.photo.map (·.id) = some row.providerId)
    (h : prepared isAlnum out w.covers row = .ok (row', s)) :
    row'.storyId = row.storyId ∧ Shows isAlnum w row' s ∧
      row'.photoIds.Perm row.photoIds := by
  rw [prepared] at h
  split at h
  · cases h
  · next photo i hnext =>
    obtain ⟨hphoto, hfree⟩ := nextFree_some hnext
    split at h
    · cases h
    · next renewed photo' data hfetch =>
      obtain ⟨hrenewed, hphoto', hid⟩ := fetch_ok hphoto hfetch
      split at h
      · cases h
      · next hstored =>
        cases h
        have hkey := store_key hstored
        refine ⟨hrenewed.story, ⟨rfl, rfl, rfl, ⟨photo', hkey⟩, ?_⟩, ?_⟩
        · intro r hr hactive hne
          rw [show (renewed.swapped photo' i s).storyId = row.storyId from hrenewed.story] at hne
          rw [show (renewed.swapped photo' i s).providerId = photo.id from hid]
          exact hfree r hr hactive hne
        · have hpick : (row.candidates.map (·.id))[i]? = some photo.id := by
            rw [List.getElem?_map, hphoto, Option.map_some]
          rw [swapped_photoIds, hid, hrenewed.listed, hrenewed.shown, hshown, Option.toList_some]
          exact ((perm_pick hpick).append_right _).trans List.perm_append_comm

variable (isAlnum w) in
/-- The call has the store delete the object of a cover that is shown. -/
def Drops : Call → Prop
  | .set c out => out.reads = true ∧ ∃ r s, coverOf w.covers c.storyId = some r ∧
      r.state = .active ∧ ¬ (r.provider = c.photo.provider ∧ r.providerId = c.photo.id) ∧
      usedElsewhere w.covers (some c.storyId) [c.photo] = [] ∧
      store isAlnum out c.storyId c.photo c.data = .ok s ∧ r.key ≠ s.key
  | .swap story out => out.reads = true ∧ ∃ r row s, coverOf w.covers story = some r ∧
      r.state = .active ∧ prepared isAlnum out w.covers r = .ok (row, s) ∧ r.key ≠ s.key
  | .remove story _ => ∃ r, coverOf w.covers story = some r ∧ r.state = .active

def Call.out : Call → Outside
  | .set _ out => out
  | .swap _ out => out
  | .remove _ out => out

variable (isAlnum w) in
/-- A call that deletes the object of a cover that is shown is committed. -/
def Meets (c : Call) : Prop :=
  Drops isAlnum w c → c.out.deletes = true → c.out.flushes = true ∧ c.out.commits = true

/-- A swap keeps every photo of its story. -/
def NoneLost (w w' : World) : Call → Prop
  | .swap story _ => ∀ r, coverOf w.covers story = some r →
      ∃ r', coverOf w'.covers story = some r' ∧ r'.photoIds.Perm r.photoIds
  | _ => True

def Outside.kept (out : Outside) : Bool := out.flushes && out.commits

/-- A list of photos is given without one photo twice. -/
def Call.Distinct : Call → Prop
  | .set c _ => (c.candidates.map (·.id)).Nodup
  | _ => True

variable (isAlnum) in
/-- A call changes nothing, or shows a photo in place of another, or takes the cover off. -/
inductive Outcome (w : World) (c : Call) : World → Prop where
  | nothing (quiet : ¬ Drops isAlnum w c) : Outcome w c w
  | shows (row : StoryCover) (s : Stored) (hrow : Shows isAlnum w row s)
      (drops : Drops isAlnum w c ↔ ∃ r, coverOf w.covers row.storyId = some r ∧
        r.state = .active ∧ r.key ≠ s.key)
      (listed : c.Distinct → ListedOnce w → row.photoIds.Nodup)
      (swapped : ∀ story out, c = .swap story out → row.storyId = story ∧
        ∀ r, coverOf w.covers story = some r → row.photoIds.Perm r.photoIds) :
      Outcome w c ⟨if c.out.kept then write row w.covers else w.covers,
        exchange c.out ((coverOf w.covers row.storyId).map (·.key)) s.key w.objects⟩
  | removed (row : StoryCover) (hrow : row ∈ w.covers)
      (drops : Drops isAlnum w c ↔ row.state = .active)
      (other : ∀ story out, c ≠ .swap story out) :
      Outcome w c ⟨if c.out.kept then write { row with state := .removed } w.covers
        else w.covers, forget c.out row.key w.objects⟩

theorem after_eq (out : Outside) (row : StoryCover) (objects : List Str) :
    w.after out (if out.flushes then .ok row else .error .other, objects) =
      ⟨if out.kept then write row w.covers else w.covers, objects⟩ := by
  cases hf : out.flushes <;> cases hc : out.commits <;> simp [World.after, Outside.kept, hf, hc]

theorem shown_photoIds {c : Choice} (row : Option StoryCover) (s : Stored)
    (h : (c.candidates.map (·.id)).Nodup) : (c.shown row s).photoIds.Nodup := by
  have hsub : ((c.candidates.filter fun p => p.id ≠ c.photo.id).take KEEP_CANDIDATES).Sublist
      (c.candidates.filter fun p => p.id ≠ c.photo.id) := List.take_sublist _ _
  refine List.nodup_cons.mpr ⟨?_, h.sublist ((hsub.trans List.filter_sublist).map _)⟩
  intro hmem
  obtain ⟨p, hp, hid⟩ := List.mem_map.mp hmem
  have hne := (List.mem_filter.mp (hsub.subset hp)).2
  simp only [decide_eq_true_eq] at hne
  exact hne hid

theorem call_set (h : Sound isAlnum w) (c : Choice) (out : Outside) :
    Outcome isAlnum w (.set c out) (call isAlnum w (.set c out)) := by
  rw [call, setCover]
  by_cases hreads : out.reads = false
  · rw [if_pos hreads]
    refine .nothing fun hdrops => ?_
    simp [hdrops.1] at hreads
  rw [if_neg hreads]
  dsimp only
  by_cases hremoved : ((coverOf w.covers c.storyId).any fun r => r.state = .removed) = true
  · rw [if_pos hremoved]
    refine .nothing fun hdrops => ?_
    obtain ⟨-, r, s, hr, hactive, -⟩ := hdrops
    simp [hr, hactive] at hremoved
  rw [if_neg hremoved]
  have hactive : ∀ r, coverOf w.covers c.storyId = some r → r.state = .active := by
    intro r hr
    cases hstate : r.state with
    | active => rfl
    | removed => simp [hr, hstate] at hremoved
  cases hsame : (coverOf w.covers c.storyId).filter fun r =>
      r.provider = c.photo.provider ∧ r.providerId = c.photo.id with
  | some same =>
    obtain ⟨hrow, heq⟩ := Option.filter_eq_some_iff.mp hsame
    have hself : w.after out (.ok same, w.objects) = w := by
      rw [World.after, write_self h.once (coverOf_some hrow).1, ite_self]
    dsimp only
    rw [hself]
    refine .nothing fun hdrops => ?_
    obtain ⟨-, r, s, hr, -, hother, -⟩ := hdrops
    rw [hrow] at hr
    cases hr
    exact hother (of_decide_eq_true heq)
  | none =>
    dsimp only
    by_cases hfree : usedElsewhere w.covers (some c.storyId) [c.photo] = []
    · rw [if_neg (not_not.mpr hfree)]
      cases hs : store isAlnum out c.storyId c.photo c.data with
      | error e =>
        refine .nothing fun hdrops => ?_
        obtain ⟨-, r, s, -, -, -, -, hs', -⟩ := hdrops
        rw [hs] at hs'
        cases hs'
      | ok s =>
        obtain ⟨hstory, hshows⟩ := setCover_shows hfree hactive hs
        dsimp only
        rw [after_eq]
        have hold : (coverOf w.covers c.storyId).map (·.key) =
            (coverOf w.covers (c.shown (coverOf w.covers c.storyId) s).storyId).map (·.key) := by
          rw [hstory]
        rw [hold]
        refine .shows _ s hshows ?_ ?_ nofun
        · rw [hstory]
          constructor
          · intro hdrops
            obtain ⟨-, r, s', hr, hact, -, -, hs', hne⟩ := hdrops
            rw [hs] at hs'
            cases hs'
            exact ⟨r, hr, hact, hne⟩
          · intro hdrops
            obtain ⟨r, hr, hact, hne⟩ := hdrops
            refine ⟨by simpa using hreads, r, s, hr, hact, ?_, hfree, hs, hne⟩
            simpa [hr] using hsame
        · intro hdistinct _
          exact shown_photoIds _ s hdistinct
    · rw [if_pos hfree]
      refine .nothing fun hdrops => ?_
      obtain ⟨-, r, s, -, -, -, hnone, -⟩ := hdrops
      exact hfree hnone

theorem call_swap (h : Sound isAlnum w) (story : Uuid) (out : Outside) :
    Outcome isAlnum w (.swap story out) (call isAlnum w (.swap story out)) := by
  rw [call]
  cases hrow : coverOf w.covers story with
  | none =>
    refine .nothing fun hdrops => ?_
    obtain ⟨-, r, -, -, hr, -⟩ := hdrops
    rw [hrow] at hr
    cases hr
  | some row =>
    dsimp only
    rw [swapCover]
    obtain ⟨hmem, hstory⟩ := coverOf_some hrow
    by_cases hreads : out.reads = false
    · rw [if_pos hreads]
      refine .nothing fun hdrops => ?_
      simp [hdrops.1] at hreads
    · rw [if_neg hreads]
      cases hprep : prepared isAlnum out w.covers row with
      | error e =>
        refine .nothing fun hdrops => ?_
        obtain ⟨-, r, row', s, hr, -, hp, -⟩ := hdrops
        rw [hrow] at hr
        cases hr
        rw [hprep] at hp
        cases hp
      | ok p =>
        obtain ⟨row', s⟩ := p
        obtain ⟨hs, hshows, hperm⟩ := prepared_shows (h.shown row hmem) hprep
        dsimp only
        rw [after_eq]
        have hold : some row.key = (coverOf w.covers row'.storyId).map (·.key) := by
          rw [hs, hstory, hrow]
          rfl
        rw [hold]
        refine .shows row' s hshows ?_ ?_ ?_
        · rw [hs, hstory, hrow]
          constructor
          · intro hdrops
            obtain ⟨-, r, row'', s', hr, hactive, hp, hne⟩ := hdrops
            rw [hrow] at hr
            cases hr
            rw [hprep] at hp
            cases hp
            exact ⟨row, rfl, hactive, hne⟩
          · intro hdrops
            obtain ⟨r, hr, hactive, hne⟩ := hdrops
            cases hr
            exact ⟨by simpa using hreads, row, row', s, hrow, hactive, hprep, hne⟩
        · intro _ hlisted
          exact hperm.nodup_iff.mpr (hlisted row hmem)
        · intro story' out' heq
          cases heq
          refine ⟨hs.trans hstory, fun r hr => ?_⟩
          rw [hrow] at hr
          cases hr
          exact hperm

theorem call_remove (story : Uuid) (out : Outside) :
    Outcome isAlnum w (.remove story out) (call isAlnum w (.remove story out)) := by
  rw [call]
  cases hrow : coverOf w.covers story with
  | none =>
    refine .nothing fun hdrops => ?_
    obtain ⟨r, hr, -⟩ := hdrops
    rw [hrow] at hr
    cases hr
  | some row =>
    dsimp only
    rw [removeCover, after_eq]
    refine .removed row (coverOf_some hrow).1 ?_ nofun
    constructor
    · intro hdrops
      obtain ⟨r, hr, hactive⟩ := hdrops
      rw [hrow] at hr
      cases hr
      exact hactive
    · exact fun hactive => ⟨row, hrow, hactive⟩

theorem call_outcome (h : Sound isAlnum w) (c : Call) :
    Outcome isAlnum w c (call isAlnum w c) := by
  cases c with
  | set c out => exact call_set h c out
  | swap story out => exact call_swap h story out
  | remove story out => exact call_remove story out

variable {w' : World} {c : Call}

theorem Sound.remove {row : StoryCover} (h : Sound isAlnum w) (hrow : row ∈ w.covers)
    (objects : List Str) :
    Sound isAlnum ⟨Covers.write { row with state := .removed } w.covers, objects⟩ := by
  refine ⟨write_once h.once, ?_, ?_, ?_⟩
  · intro r hr
    rcases mem_write.mp hr with rfl | ⟨hr, -⟩
    · exact h.shown row hrow
    · exact h.shown r hr
  · intro r hr
    rcases mem_write.mp hr with rfl | ⟨hr, -⟩
    · exact h.keyed row hrow
    · exact h.keyed r hr
  · intro r hr r' hr' hactive hactive' hid
    rcases mem_write.mp hr with rfl | ⟨hin, -⟩
    · cases hactive
    · rcases mem_write.mp hr' with rfl | ⟨hin', -⟩
      · cases hactive'
      · exact h.apart r hin r' hin' hactive hactive' hid

theorem Outcome.sound (ho : Outcome isAlnum w c w') (h : Sound isAlnum w) : Sound isAlnum w' := by
  cases ho with
  | nothing quiet => exact h
  | shows row s hrow =>
    cases c.out.kept with
    | false => exact ⟨h.once, h.shown, h.keyed, h.apart⟩
    | true => exact h.write hrow _
  | removed row hrow =>
    cases c.out.kept with
    | false => exact ⟨h.once, h.shown, h.keyed, h.apart⟩
    | true => exact h.remove hrow _

theorem coverOf_write {row : StoryCover} {covers : List StoryCover}
    (once : (covers.map (·.storyId)).Nodup) :
    coverOf (write row covers) row.storyId = some row :=
  coverOf_mem (write_once once) (mem_write.mpr (Or.inl rfl))

theorem Outcome.noneLost (ho : Outcome isAlnum w c w') (h : Sound isAlnum w) :
    NoneLost w w' c := by
  cases c with
  | set c out => trivial
  | remove story out => trivial
  | swap story out =>
    intro r hr
    cases ho with
    | nothing quiet => exact ⟨r, hr, List.Perm.refl _⟩
    | shows row s hrow drops listed swapped =>
      obtain ⟨hstory, hperm⟩ := swapped story out rfl
      cases (Call.swap story out).out.kept with
      | false => exact ⟨r, hr, List.Perm.refl _⟩
      | true =>
        subst hstory
        exact ⟨row, coverOf_write h.once, hperm r hr⟩
    | removed row hrow drops other => exact absurd rfl (other story out)

theorem Outcome.listedOnce (ho : Outcome isAlnum w c w') (hdistinct : c.Distinct)
    (hlisted : ListedOnce w) : ListedOnce w' := by
  cases ho with
  | nothing quiet => exact hlisted
  | shows row s hrow drops listed swapped =>
    cases c.out.kept with
    | false => exact hlisted
    | true =>
      intro r hr
      rcases mem_write.mp hr with rfl | ⟨hr, -⟩
      · exact listed hdistinct hlisted
      · exact hlisted r hr
  | removed row hrow =>
    cases c.out.kept with
    | false => exact hlisted
    | true =>
      intro r hr
      rcases mem_write.mp hr with rfl | ⟨hr, -⟩
      · exact hlisted row hrow
      · exact hlisted r hr

/-- After the call every cover shown has its object iff the call meets its condition. -/
theorem Outcome.kept_iff (ho : Outcome isAlnum w c w') (h : Sound isAlnum w) (hkept : Kept w) :
    Kept w' ↔ Meets isAlnum w c := by
  have hdone : c.out.kept = true ↔ c.out.flushes = true ∧ c.out.commits = true := by
    rw [Outside.kept, Bool.and_eq_true]
  rw [Meets, ← hdone]
  cases ho with
  | nothing quiet => exact ⟨fun _ hdrops => absurd hdrops quiet, fun _ => hkept⟩
  | shows row s hrow drops =>
    cases hk : c.out.kept with
    | true => exact ⟨fun _ _ _ => rfl, fun _ => hkept.write h hrow⟩
    | false =>
      refine (kept_takenBack hkept h).trans ?_
      rw [drops]
      constructor
      · intro hall hdrops hdel
        obtain ⟨r, hr, hactive, hne⟩ := hdrops
        rw [hall r hr hactive hne] at hdel
        cases hdel
      · intro hmeets r hr hactive hne
        cases hdel : c.out.deletes with
        | false => rfl
        | true => exact absurd (hmeets ⟨r, hr, hactive, hne⟩ hdel) (by simp)
  | removed row hrow drops =>
    rw [drops]
    cases hk : c.out.kept with
    | true =>
      refine ⟨fun _ _ _ => rfl, fun _ r hr hactive => ?_⟩
      rcases mem_write.mp hr with rfl | ⟨hr, hstory⟩
      · cases hactive
      · exact mem_forget.mpr ⟨hkept r hr hactive, fun _ => key_ne h hr (h.keyed row hrow) hstory⟩
    | false =>
      constructor
      · intro hafter hactive hdel
        exact absurd rfl ((mem_forget.mp (hafter row hrow hactive)).2 hdel)
      · intro hmeets r hr hactive
        refine mem_forget.mpr ⟨hkept r hr hactive, fun hdel hkey => ?_⟩
        by_cases hstory : r.storyId = row.storyId
        · rw [eq_of_story h.once hr hrow hstory] at hactive
          exact absurd (hmeets hactive hdel) (by simp)
        · exact key_ne h hr (h.keyed row hrow) hstory hkey

/-! Runs. -/

variable (isAlnum) in
/-- A property of every call of a run and of the state it finds. -/
def Throughout (P : World → Call → Prop) (w : World) : List Call → Prop
  | [] => True
  | c :: cs => P w c ∧ Throughout P (call isAlnum w c) cs

variable (isAlnum) in
/-- Where no list is given with a photo twice, no story has one twice. -/
def NeverTwice (w : World) (calls : List Call) : Prop :=
  (∀ c ∈ calls, c.Distinct) →
    Throughout isAlnum (fun w c => ListedOnce (call isAlnum w c)) w calls

/-- A company without covers yet; its store may keep other objects. -/
def noCovers (objects : List Str) : World := ⟨[], objects⟩

/-- In every run no two stories show one photo, no story has one twice and no swap loses one; every
cover shown has its object, in every state, iff each call that deletes one is committed. -/
theorem objects_kept_iff (isAlnum : Alnum) (objects : List Str) (calls : List Call) :
    Throughout isAlnum (fun w c => Sound isAlnum (call isAlnum w c) ∧
        NoneLost w (call isAlnum w c) c) (noCovers objects) calls ∧
      NeverTwice isAlnum (noCovers objects) calls ∧
      (Throughout isAlnum (fun w c => Kept (call isAlnum w c)) (noCovers objects) calls ↔
        Throughout isAlnum (Meets isAlnum) (noCovers objects) calls) := by
  have hrun : ∀ {w : World}, Sound isAlnum w →
      Throughout isAlnum (fun w c => Sound isAlnum (call isAlnum w c) ∧
        NoneLost w (call isAlnum w c) c) w calls ∧
      (ListedOnce w → NeverTwice isAlnum w calls) ∧
      (Kept w → (Throughout isAlnum (fun w c => Kept (call isAlnum w c)) w calls ↔
        Throughout isAlnum (Meets isAlnum) w calls)) := by
    induction calls with
    | nil => exact fun _ => ⟨trivial, fun _ _ => trivial, fun _ => Iff.rfl⟩
    | cons c cs ih =>
      intro w h
      have ho := call_outcome h c
      obtain ⟨hall, honce, hiff⟩ := ih (ho.sound h)
      refine ⟨⟨⟨ho.sound h, ho.noneLost h⟩, hall⟩, ?_, ?_⟩
      · intro hlisted hdistinct
        have hafter := ho.listedOnce (hdistinct c List.mem_cons_self) hlisted
        exact ⟨hafter, honce hafter fun c' hc' => hdistinct c' (List.mem_cons_of_mem _ hc')⟩
      · intro hkept
        rw [Throughout, Throughout, ← ho.kept_iff h hkept]
        exact and_congr_right hiff
  have hempty : Sound isAlnum (noCovers objects) := ⟨List.nodup_nil, nofun, nofun, nofun⟩
  obtain ⟨hall, honce, hiff⟩ := hrun hempty
  exact ⟨hall, honce nofun, hiff nofun⟩

/-! A swap taken back after the old photo's object is deleted. -/

def photoOf (id : String) : Photo :=
  ⟨lit "pixabay", lit id, [], [], 1920, 1280, lit "chip", lit "A", lit "photo", []⟩

def willing (commits : Bool) : Outside where
  reads := true
  download := fun _ => .ok [1]
  search := fun _ _ => .ok []
  downloadAgain := fun _ => .ok [1]
  cutCover := .ok
  put := fun key _ => .ok key
  deletes := true
  flushes := true
  commits := commits

def oneStory : Uuid := ⟨List.replicate 36 48, by decide⟩

def takenBack : List Call :=
  [.set ⟨oneStory, photoOf "1", [photoOf "1", photoOf "2"], ⟨[], []⟩, lit "chip", none, none⟩
      (willing true),
    .swap oneStory (willing false)]

theorem object_missing : ¬ Throughout (fun _ => true)
    (fun w c => Kept (call (fun _ => true) w c)) (noCovers []) takenBack := by
  intro h
  have hkept := h.2.1
  have hmissing : ∃ r ∈ (call (fun _ => true) (call (fun _ => true) (noCovers []) takenBack[0])
      takenBack[1]).covers, r.state = .active ∧ r.key ∉ (call (fun _ => true)
        (call (fun _ => true) (noCovers []) takenBack[0]) takenBack[1]).objects := by
    decide +kernel
  obtain ⟨r, hr, hactive, hnot⟩ := hmissing
  exact hnot (hkept r hr hactive)

end Covers

end Autora
