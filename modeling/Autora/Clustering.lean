import Autora.StoryDesk

/-! Clustering loses and doubles nothing: what holds of the stories after every call, and when a
run takes its items. -/

namespace Autora

namespace Clusters

open Untyped

variable {V : Type} {t u : Tables V} {x : SourceItem × Nat} {company s : Nat} {now : Time}

/-- Every item is in one story at most, items with one URL are in one, and the counters count. -/
structure Clustered (t : Tables V) : Prop where
  items : ∀ si ∈ t.storyItems, si.sourceItemId < t.items.length
  stories : ∀ si ∈ t.storyItems, si.storyId < t.stories.length
  once : (t.storyItems.map (·.sourceItemId)).Nodup
  oneUrl : ∀ a ∈ t.storyItems, ∀ b ∈ t.storyItems, ∀ x y, t.items[a.sourceItemId]? = some x →
    t.items[b.sourceItemId]? = some y → x.companyId = y.companyId → x.url = y.url →
      a.storyId = b.storyId
  counts : ∀ s story, t.stories[s]? = some story →
    story.itemsCount = t.storyItems.countP fun si => si.storyId = s

theorem hasStory_iff {i : Nat} : t.hasStory i = true ↔ ∃ si ∈ t.storyItems, si.sourceItemId = i := by
  simp [Tables.hasStory]

/-- More items and stories, with the same items in them. -/
theorem Clustered.grow (h : Clustered t) (hitems : t.items <+: u.items)
    (hlen : t.stories.length ≤ u.stories.length) (hsame : u.storyItems = t.storyItems)
    (hcounts : ∀ s story, u.stories[s]? = some story →
      story.itemsCount = t.storyItems.countP fun si => si.storyId = s) : Clustered u := by
  have hold : ∀ si ∈ t.storyItems, u.items[si.sourceItemId]? = t.items[si.sourceItemId]? := by
    intro si hsi
    obtain ⟨more, hmore⟩ := hitems
    rw [← hmore, List.getElem?_append_left (h.items si hsi)]
  constructor
  · rw [hsame]
    exact fun si hsi => Nat.lt_of_lt_of_le (h.items si hsi) hitems.length_le
  · rw [hsame]
    exact fun si hsi => Nat.lt_of_lt_of_le (h.stories si hsi) hlen
  · rw [hsame]
    exact h.once
  · rw [hsame]
    intro a ha b hb x y hx hy
    rw [hold a ha] at hx
    rw [hold b hb] at hy
    exact h.oneUrl a ha b hb x y hx hy
  · rw [hsame]
    exact hcounts

theorem rescore_counts {k : Nat} {story : Story V}
    (h : (StoryDesk.rescore t s).stories[k]? = some story) :
    ∃ old, t.stories[k]? = some old ∧ old.itemsCount = story.itemsCount := by
  rw [StoryDesk.rescore] at h
  dsimp only at h
  rw [List.getElem?_modify] at h
  obtain ⟨old, hold, rfl⟩ := Option.map_eq_some_iff.mp h
  refine ⟨old, hold, ?_⟩
  split <;> rfl

theorem Clustered.rescore (h : Clustered t) (s : Nat) : Clustered (StoryDesk.rescore t s) := by
  refine h.grow List.prefix_rfl ?_ rfl fun k story hk => ?_
  · rw [StoryDesk.rescore, List.length_modify]
  · obtain ⟨old, hold, hcount⟩ := rescore_counts hk
    rw [← hcount]
    exact h.counts k old hold

theorem rescored (ss : List Nat) (h : Clustered t) : Clustered (ss.foldl StoryDesk.rescore t) ∧
    (ss.foldl StoryDesk.rescore t).storyItems = t.storyItems := by
  induction ss generalizing t with
  | nil => exact ⟨h, rfl⟩
  | cons s ss ih => exact ih (h.rescore s)

theorem Clustered.insertItem (h : Clustered t) (item : SourceItem) :
    Clustered (Clusters.insertItem t item) := by
  rw [Clusters.insertItem]
  split
  · exact h
  · exact h.grow (List.prefix_append _ _) (Nat.le_refl _) rfl h.counts

/-- No item is in a story that is not there yet. -/
theorem Clustered.countP_new (h : Clustered t) :
    t.storyItems.countP (fun si => si.storyId = t.stories.length) = 0 := by
  rw [List.countP_eq_zero]
  intro si hsi heq
  have hlt := h.stories si hsi
  have hid : si.storyId = t.stories.length := of_decide_eq_true heq
  omega

theorem Clustered.counts_append (h : Clustered t) {story : Story V} (hnew : story.itemsCount = 0) :
    ∀ k old, (t.stories ++ [story])[k]? = some old →
      old.itemsCount = t.storyItems.countP fun si => si.storyId = k := by
  intro k old hk
  by_cases hlt : k < t.stories.length
  · rw [List.getElem?_append_left hlt] at hk
    exact h.counts k old hk
  · have hlen := (List.getElem?_eq_some_iff.mp hk).1
    rw [List.length_append, List.length_singleton] at hlen
    have hkey : k = t.stories.length := by omega
    rw [hkey, List.getElem?_concat_length] at hk
    cases hk
    rw [hnew, hkey, h.countP_new]

theorem Clustered.create (h : Clustered t) (desk : StoryDesk V) (title : Str)
    (summary : Option Str) (vector : V) :
    Clustered (desk.create company now title summary vector t) := by
  have hnew := @Clustered.counts_append _ _ h (desk.newStory company now title summary now vector) rfl
  have hgrown : Clustered { t with
      stories := t.stories ++ [desk.newStory company now title summary now vector] } := by
    refine h.grow List.prefix_rfl ?_ rfl hnew
    rw [List.length_append]
    exact Nat.le_add_right _ _
  exact hgrown.rescore _

/-! One item joins a story. -/

theorem mem_sameUrl {q : Nat} : q ∈ t.sameUrl company x ↔ ∃ si ∈ t.storyItems, ∃ other,
    t.items[si.sourceItemId]? = some other ∧ other.companyId = company ∧ other.url = x.1.url ∧
      si.sourceItemId ≠ x.2 ∧ si.storyId = q := by
  rw [Tables.sameUrl, List.mem_filterMap]
  constructor
  · intro h
    obtain ⟨si, hsi, h⟩ := h
    obtain ⟨other, hother, h⟩ := Option.bind_eq_some_iff.mp h
    split at h
    · next hurl =>
      cases h
      exact ⟨si, hsi, other, hother, hurl.1, hurl.2.1, hurl.2.2, rfl⟩
    · cases h
  · intro h
    obtain ⟨si, hsi, other, hother, hc, hu, hne, hq⟩ := h
    refine ⟨si, hsi, Option.bind_eq_some_iff.mpr ⟨other, hother, ?_⟩⟩
    rw [if_pos ⟨hc, hu, hne⟩, hq]

/-- The item is the company's and in no story yet. -/
structure Waits (t : Tables V) (company : Nat) (x : SourceItem × Nat) : Prop where
  item : t.items[x.2]? = some x.1
  company : x.1.companyId = company
  free : t.hasStory x.2 = false

/-- The story found is there, and the one of the items with the same URL. -/
structure Finds (t : Tables V) (company : Nat) (x : SourceItem × Nat)
    (found : Option (Nat × Rat)) : Prop where
  there : ∀ s close, found = some (s, close) → s < t.stories.length
  same : ∀ q ∈ t.sameUrl company x, ∃ close, found = some (q, close)

theorem Waits.ne (h : Waits t company x) {si : StoryItem} (hsi : si ∈ t.storyItems) :
    si.sourceItemId ≠ x.2 := by
  intro heq
  have hfree := h.free
  rw [hasStory_iff.mpr ⟨si, hsi, heq⟩] at hfree
  cases hfree

/-- The stories with one item more in one of them. -/
def counted (stories : List (Story V)) (s : Nat) : List (Story V) :=
  stories.modify s fun story => { story with itemsCount := story.itemsCount + 1 }

theorem counted_counts {stories : List (Story V)} {links : List StoryItem} {new : StoryItem}
    (h : ∀ k story, stories[k]? = some story →
      story.itemsCount = links.countP fun si => si.storyId = k) :
    ∀ k story, (counted stories new.storyId)[k]? = some story →
      story.itemsCount = (links ++ [new]).countP fun si => si.storyId = k := by
  intro k story hk
  rw [counted, List.getElem?_modify] at hk
  obtain ⟨old, hold, rfl⟩ := Option.map_eq_some_iff.mp hk
  have hcount := h k old hold
  rw [List.countP_append, ← hcount]
  by_cases hs : new.storyId = k
  · simp [hs]
  · simp [hs]

/-- What `join` leaves: the story that takes the item is there, and counted once more. -/
theorem join_eq (desk : StoryDesk V) (h : Clustered t) {found : Option (Nat × Rat)}
    (hf : Finds t company x found) (vector : V) :
    ∃ s base, desk.join company now x vector found t =
        (s, { t with
          stories := counted base s
          storyItems := t.storyItems ++ [⟨s, x.2, company, found.map Prod.snd⟩] }) ∧
      s < base.length ∧ t.stories.length ≤ base.length ∧
      (∀ k story, base[k]? = some story →
        story.itemsCount = t.storyItems.countP fun si => si.storyId = k) ∧
      ∀ q ∈ t.sameUrl company x, q = s := by
  cases found with
  | none =>
    refine ⟨_, _, rfl, ?_, ?_, h.counts_append rfl, fun q hq => ?_⟩
    · rw [List.length_append, List.length_singleton]
      exact Nat.lt_succ_self _
    · rw [List.length_append]
      exact Nat.le_add_right _ _
    · obtain ⟨close, hnone⟩ := hf.same q hq
      cases hnone
  | some f =>
    obtain ⟨s, close⟩ := f
    refine ⟨s, t.stories.modify s (desk.drawn vector (x.1.publishedAt.getD now)), rfl, ?_, ?_,
      fun k story hk => ?_, fun q hq => ?_⟩
    · rw [List.length_modify]
      exact hf.there s close rfl
    · rw [List.length_modify]
    · rw [List.getElem?_modify] at hk
      obtain ⟨old, hold, rfl⟩ := Option.map_eq_some_iff.mp hk
      rw [← h.counts k old hold]
      split <;> rfl
    · obtain ⟨close', hsome⟩ := hf.same q hq
      cases hsome
      rfl

theorem join_clustered (desk : StoryDesk V) (h : Clustered t) (hx : Waits t company x)
    {found : Option (Nat × Rat)} (hf : Finds t company x found) (vector : V) :
    Clustered (desk.join company now x vector found t).2 := by
  obtain ⟨s, base, heq, hs, hbase, hcounts, hsame⟩ := join_eq desk h hf vector
  rw [heq]
  -- another item with this URL is in the story that the new one joins
  have hone : ∀ a ∈ t.storyItems, ∀ y, t.items[a.sourceItemId]? = some y →
      y.companyId = x.1.companyId → y.url = x.1.url → a.storyId = s := by
    intro a ha y hy hc hu
    refine hsame _ (mem_sameUrl.mpr ⟨a, ha, y, hy, ?_, hu, hx.ne ha, rfl⟩)
    rw [hc, hx.company]
  constructor
  · intro si hsi
    rcases List.mem_append.mp hsi with hsi | hsi
    · exact h.items si hsi
    · rw [List.mem_singleton.mp hsi]
      exact (List.getElem?_eq_some_iff.mp hx.item).1
  · intro si hsi
    show si.storyId < (counted base s).length
    rw [counted, List.length_modify]
    rcases List.mem_append.mp hsi with hsi | hsi
    · exact Nat.lt_of_lt_of_le (h.stories si hsi) hbase
    · rw [List.mem_singleton.mp hsi]
      exact hs
  · rw [List.map_append, List.nodup_append]
    refine ⟨h.once, List.nodup_singleton _, fun i hi j hj hij => ?_⟩
    obtain ⟨si, hsi, rfl⟩ := List.mem_map.mp hi
    rw [List.map_singleton, List.mem_singleton] at hj
    exact hx.ne hsi (hij.trans hj)
  · intro a ha b hb y z hy hz hc hu
    rcases List.mem_append.mp ha with ha | ha
    · rcases List.mem_append.mp hb with hb | hb
      · exact h.oneUrl a ha b hb y z hy hz hc hu
      · rw [List.mem_singleton.mp hb] at hz ⊢
        rw [hx.item] at hz
        cases hz
        exact hone a ha y hy hc hu
    · rw [List.mem_singleton.mp ha] at hy ⊢
      rw [hx.item] at hy
      cases hy
      rcases List.mem_append.mp hb with hb | hb
      · exact (hone b hb z hz hc.symm hu.symm).symm
      · rw [List.mem_singleton.mp hb]
  · exact @counted_counts _ _ _ ⟨s, x.2, company, found.map Prod.snd⟩ hcounts

/-! The story that is found. -/

/-- The moments around the item that its source's `match_hours` asks for are moments. -/
def InRange (t : Tables V) (item : SourceItem) : Prop :=
  ∀ hours, t.matchHours item = some hours →
    MIN_TIME ≤ item.seenAt - hours * HOUR ∧ item.seenAt + hours * HOUR ≤ MAX_TIME

theorem window_cases (t : Tables V) (item : SourceItem) :
    (InRange t item ∧ ∃ span, StoryDesk.window t item = .ok span) ∨
      (¬ InRange t item ∧ StoryDesk.window t item = .error .overflowError) := by
  unfold StoryDesk.window InRange
  cases hm : t.matchHours item with
  | none => exact Or.inl ⟨nofun, _, rfl⟩
  | some hours =>
    dsimp only
    split
    · next hout =>
      refine Or.inr ⟨fun h => ?_, rfl⟩
      obtain ⟨hmin, hmax⟩ := h hours rfl
      rcases hout with hout | hout
      · exact absurd hmin (Int.not_le.mpr hout)
      · exact absurd hmax (Int.not_le.mpr hout)
    · next hin =>
      refine Or.inl ⟨fun k hk => ?_, _, rfl⟩
      cases hk
      rw [not_or] at hin
      exact ⟨Int.not_lt.mp hin.1, Int.not_lt.mp hin.2⟩

/-- The window of time is asked for: the item may join by meaning, and no story has its URL. -/
def ByMeaning (t : Tables V) (company : Nat) (x : SourceItem × Nat) : Prop :=
  t.sameUrl company x = [] ∧ t.ownStory x.1 = false

theorem match_cases (desk : StoryDesk V) (h : Clustered t) (answers : Answers V) (vector : V) :
    ((ByMeaning t company x → InRange t x.1) ∧
      ∃ found, desk.match_ company now answers x vector t = .ok found ∧ Finds t company x found) ∨
    (¬ (ByMeaning t company x → InRange t x.1) ∧
      desk.match_ company now answers x vector t = .error .overflowError) := by
  rw [StoryDesk.match_]
  dsimp only
  cases hsame : (t.sameUrl company x)[answers.anyOf (t.sameUrl company x) %
      (t.sameUrl company x).length]? with
  | some s =>
    dsimp only
    have hs := List.mem_of_getElem? hsame
    obtain ⟨a, ha, y, hy, hcy, huy, -, rfl⟩ := mem_sameUrl.mp hs
    refine Or.inl ⟨fun hmeaning => ?_, _, rfl, ⟨?_, ?_⟩⟩
    · rw [hmeaning.1] at hs
      cases hs
    · intro s' close heq
      cases heq
      exact h.stories a ha
    · intro q hq
      obtain ⟨b, hb, z, hz, hcz, huz, -, rfl⟩ := mem_sameUrl.mp hq
      refine ⟨1, ?_⟩
      rw [h.oneUrl a ha b hb y z hy hz (hcy.trans hcz.symm) (huy.trans huz.symm)]
  | none =>
    have hnil : t.sameUrl company x = [] := by
      cases hl : t.sameUrl company x with
      | nil => rfl
      | cons q qs =>
        rw [hl, List.getElem?_eq_none_iff] at hsame
        have hlt := Nat.mod_lt (answers.anyOf (q :: qs)) (y := (q :: qs).length) (by simp)
        omega
    dsimp only
    -- none of the stories has the URL, so any story found is as good
    have hfinds : ∀ found : Option (Nat × Rat),
        (∀ s close, found = some (s, close) → s < t.stories.length) → Finds t company x found := by
      intro found hthere
      refine ⟨hthere, fun q hq => ?_⟩
      rw [hnil] at hq
      cases hq
    cases hown : t.ownStory x.1 with
    | true =>
      rw [if_pos rfl]
      refine Or.inl ⟨fun hmeaning => ?_, none, rfl, hfinds none nofun⟩
      have hnot := hmeaning.2
      rw [hown] at hnot
      cases hnot
    | false =>
      rw [if_neg (by decide)]
      rcases window_cases t x.1 with ⟨hin, span, hspan⟩ | ⟨hout, hspan⟩
      · rw [hspan]
        refine Or.inl ⟨fun _ => hin, ?_⟩
        dsimp only
        split
        · exact ⟨none, rfl, hfinds none nofun⟩
        · next story s hfound =>
          have hmem := List.mem_of_getElem? hfound
          have hlt : s < t.stories.length :=
            List.snd_lt_of_mem_zipIdx (List.mem_filter.mp hmem).1
          split
          · exact ⟨none, rfl, hfinds none nofun⟩
          · split
            · refine ⟨_, rfl, hfinds _ fun s' close heq => ?_⟩
              cases heq
              exact hlt
            · exact ⟨none, rfl, hfinds none nofun⟩
      · rw [hspan]
        exact Or.inr ⟨fun hall => hout (hall ⟨hnil, hown⟩), rfl⟩

/-! A run. -/

/-- No other item with this URL is in a story, or comes earlier in the run, and the item may join
by meaning. -/
def Reaches (t : Tables V) (company : Nat) (earlier : List Nat) (x : SourceItem × Nat) : Prop :=
  (∀ j other, t.items[j]? = some other → j ≠ x.2 → other.companyId = company →
    other.url = x.1.url → t.hasStory j = false ∧ j ∉ earlier) ∧ t.ownStory x.1 = false

/-- Each item of a run whose window of time is asked for has one. -/
def Fits (t : Tables V) (company : Nat) (earlier : List Nat) : List (SourceItem × Nat) → Prop
  | [] => True
  | x :: xs => (Reaches t company earlier x → InRange t x.1) ∧
      Fits t company (earlier ++ [x.2]) xs

/-- The tables in the middle of a run, in which the items `earlier` have joined. -/
structure Midway (t u : Tables V) (earlier : List Nat) : Prop where
  clustered : Clustered u
  items : u.items = t.items
  sources : u.sources = t.sources
  placed : ∀ j, u.hasStory j = true ↔ t.hasStory j = true ∨ j ∈ earlier

theorem Midway.byMeaning_iff {earlier : List Nat} (h : Midway t u earlier) :
    ByMeaning u company x ↔ Reaches t company earlier x := by
  have hown : u.ownStory x.1 = t.ownStory x.1 := by
    rw [Tables.ownStory, Tables.ownStory, h.sources]
  rw [ByMeaning, Reaches, hown]
  refine and_congr_left fun _ => ?_
  rw [List.eq_nil_iff_forall_not_mem]
  constructor
  · intro hnone j other hj hne hc hu
    have hfree : ¬ u.hasStory j = true := by
      intro hplaced
      obtain ⟨si, hsi, rfl⟩ := hasStory_iff.mp hplaced
      rw [← h.items] at hj
      exact hnone _ (mem_sameUrl.mpr ⟨si, hsi, other, hj, hc, hu, hne, rfl⟩)
    rw [h.placed, not_or, Bool.not_eq_true] at hfree
    exact hfree
  · intro hall q hq
    obtain ⟨si, hsi, other, hother, hc, hu, hne, -⟩ := mem_sameUrl.mp hq
    rw [h.items] at hother
    have hfree := hall _ other hother hne hc hu
    have hplaced := (h.placed _).mp (hasStory_iff.mpr ⟨si, hsi, rfl⟩)
    rw [hfree.1] at hplaced
    exact hplaced.elim nofun hfree.2

theorem Midway.inRange_iff {earlier : List Nat} (h : Midway t u earlier) {item : SourceItem} :
    InRange u item ↔ InRange t item := by
  have hm : u.matchHours item = t.matchHours item := by
    rw [Tables.matchHours, Tables.matchHours, h.sources]
  rw [InRange, InRange, hm]

/-- What a run that was not stopped leaves: each item in the story it is said to have joined. -/
structure Joined (t u : Tables V) (joined : List (Nat × Nat)) : Prop where
  clustered : Clustered u
  links : u.storyItems.map (fun si => (si.sourceItemId, si.storyId)) =
    t.storyItems.map (fun si => (si.sourceItemId, si.storyId)) ++ joined

theorem clusterItems_cases (desk : StoryDesk V) (answers : Answers V)
    {xs : List (SourceItem × Nat)} : ∀ {u : Tables V} {earlier : List Nat}, Midway t u earlier →
      (∀ x ∈ xs, t.items[x.2]? = some x.1 ∧ x.1.companyId = company ∧ t.hasStory x.2 = false) →
      (earlier ++ xs.map Prod.snd).Nodup →
      (Fits t company earlier xs ∧ ∃ joined u',
        desk.clusterItems company now answers xs u = .ok (joined, u') ∧ Joined u u' joined ∧
          joined.map Prod.fst = xs.map Prod.snd) ∨
      (¬ Fits t company earlier xs ∧
        desk.clusterItems company now answers xs u = .error .overflowError) := by
  induction xs with
  | nil =>
    intro u earlier h _ _
    exact Or.inl ⟨trivial, [], u, rfl, ⟨h.clustered, (List.append_nil _).symm⟩, rfl⟩
  | cons x xs ih =>
    intro u earlier h hwait hnodup
    rw [StoryDesk.clusterItems, Fits]
    dsimp only
    obtain ⟨hitem, hcompany, hfree⟩ := hwait x List.mem_cons_self
    have hnew : x.2 ∉ earlier := by
      intro hin
      exact (List.nodup_append.mp hnodup).2.2 _ hin _ List.mem_cons_self rfl
    have hx : Waits u company x := by
      refine ⟨by rw [h.items]; exact hitem, hcompany, ?_⟩
      rw [← Bool.not_eq_true, h.placed, hfree]
      exact fun hor => hor.elim nofun hnew
    have hiff : (ByMeaning u company x → InRange u x.1) ↔
        (Reaches t company earlier x → InRange t x.1) := by
      rw [h.byMeaning_iff, h.inRange_iff]
    rcases match_cases (x := x) desk h.clustered answers
      (answers.embed (textOf x.1)) with ⟨hok, found, hmatch, hfinds⟩ | ⟨hnot, hmatch⟩
    · rw [hmatch]
      dsimp only
      have hclustered := @join_clustered _ _ _ _ now desk h.clustered hx _ hfinds
        (answers.embed (textOf x.1))
      obtain ⟨s, base, hjoin, -⟩ := join_eq desk h.clustered hfinds
        (answers.embed (textOf x.1))
      rw [hjoin] at hclustered ⊢
      have hmid : Midway t { u with
          stories := counted base s
          storyItems := u.storyItems ++ [⟨s, x.2, company, found.map Prod.snd⟩] }
          (earlier ++ [x.2]) := by
        refine ⟨hclustered, h.items, h.sources, fun j => ?_⟩
        rw [hasStory_iff]
        dsimp only
        rw [List.mem_append, List.mem_singleton, ← or_assoc, ← h.placed, hasStory_iff]
        constructor
        · intro hin
          obtain ⟨si, hsi, rfl⟩ := hin
          rcases List.mem_append.mp hsi with hsi | hsi
          · exact Or.inl ⟨si, hsi, rfl⟩
          · rw [List.mem_singleton.mp hsi]
            exact Or.inr rfl
        · intro hin
          rcases hin with ⟨si, hsi, rfl⟩ | rfl
          · exact ⟨si, List.mem_append_left _ hsi, rfl⟩
          · exact ⟨_, List.mem_append_right _ (List.mem_singleton_self _), rfl⟩
      rw [List.map_cons, List.append_cons] at hnodup
      rcases ih hmid (fun y hy => hwait y (List.mem_cons_of_mem x hy)) hnodup with
        ⟨hfits, joined, u', hrun, hjoined, hids⟩ | ⟨hnfits, hrun⟩
      · rw [hrun]
        refine Or.inl ⟨⟨hiff.mp hok, hfits⟩, (x.2, s) :: joined, u', rfl,
          ⟨hjoined.clustered, ?_⟩, ?_⟩
        · rw [hjoined.links, List.map_append, List.append_cons]
          rfl
        · rw [List.map_cons, List.map_cons, hids]
      · rw [hrun]
        exact Or.inr ⟨fun hall => hnfits hall.2, rfl⟩
    · rw [hmatch]
      exact Or.inr ⟨fun hall => hnot (hiff.mpr hall.1), rfl⟩

/-! The items a run takes. -/

/-- The item is the company's, in no story, and not older than the window. -/
def Pending (t : Tables V) (company : Nat) (now : Time) (i : Nat) : Prop :=
  ∃ item, t.items[i]? = some item ∧ item.companyId = company ∧
    (∀ si ∈ t.storyItems, si.sourceItemId ≠ i) ∧ now - PENDING_WINDOW ≤ item.createdAt

theorem mem_pending : x ∈ t.pending company now ↔ t.items[x.2]? = some x.1 ∧
    x.1.companyId = company ∧ t.hasStory x.2 = false ∧ now - PENDING_WINDOW ≤ x.1.createdAt := by
  obtain ⟨item, i⟩ := x
  rw [Tables.pending, List.mem_filter, List.mk_mem_zipIdx_iff_getElem?]
  simp [and_assoc]

theorem pending_iff {i : Nat} :
    Pending t company now i ↔ i ∈ (t.pending company now).map Prod.snd := by
  rw [List.mem_map]
  constructor
  · intro h
    obtain ⟨item, hi, hc, hfree, hw⟩ := h
    refine ⟨(item, i), mem_pending.mpr ⟨hi, hc, ?_, hw⟩, rfl⟩
    rw [← Bool.not_eq_true, hasStory_iff]
    exact fun hin => hin.elim fun si hsi => hfree si hsi.1 hsi.2
  · intro h
    obtain ⟨x, hx, rfl⟩ := h
    obtain ⟨hi, hc, hfree, hw⟩ := mem_pending.mp hx
    refine ⟨x.1, hi, hc, fun si hsi heq => ?_, hw⟩
    rw [hasStory_iff.mpr ⟨si, hsi, heq⟩] at hfree
    cases hfree

theorem nodup_pending : ((t.pending company now).map Prod.snd).Nodup := by
  have hrange : (t.items.zipIdx.map Prod.snd).Nodup := by
    rw [List.zipIdx_map_snd]
    exact List.nodup_range'
  exact hrange.sublist (List.filter_sublist.map _)

/-- What a run is to do: each item it takes once, and all that are pending up to its size. -/
structure Taken (desk : StoryDesk V) (t u : Tables V) (company : Nat) (now : Time)
    (joined : List (Nat × Nat)) : Prop where
  once : (joined.map Prod.fst).Nodup
  pending : ∀ i ∈ joined.map Prod.fst, Pending t company now i
  atMost : joined.length ≤ desk.batchSize
  full : joined.length < desk.batchSize → ∀ i, Pending t company now i → i ∈ joined.map Prod.fst
  links : u.storyItems.map (fun si => (si.sourceItemId, si.storyId)) =
    t.storyItems.map (fun si => (si.sourceItemId, si.storyId)) ++ joined

theorem perm_pending (answers : Answers V) :
    ((t.pending company now).insertionSort (before answers.tie)).Perm (t.pending company now) :=
  List.perm_insertionSort _ _

theorem taken_of_joined (desk : StoryDesk V) (answers : Answers V) {joined : List (Nat × Nat)}
    (hids : joined.map Prod.fst = (desk.batch company now answers t).map Prod.snd)
    (hlinks : u.storyItems.map (fun si => (si.sourceItemId, si.storyId)) =
      t.storyItems.map (fun si => (si.sourceItemId, si.storyId)) ++ joined) :
    Taken desk t u company now joined := by
  have hperm := @perm_pending _ t company now answers
  have hsub : (desk.batch company now answers t).Sublist
      ((t.pending company now).insertionSort (before answers.tie)) := List.take_sublist _ _
  have hlen : joined.length = (desk.batch company now answers t).length := by
    have hlength := congrArg List.length hids
    rw [List.length_map, List.length_map] at hlength
    exact hlength
  constructor
  · rw [hids]
    exact ((hperm.map Prod.snd).nodup_iff.mpr nodup_pending).sublist (hsub.map Prod.snd)
  · intro i hi
    rw [hids] at hi
    obtain ⟨x, hx, rfl⟩ := List.mem_map.mp hi
    exact pending_iff.mpr (List.mem_map_of_mem (hperm.mem_iff.mp (hsub.subset hx)))
  · rw [hlen, StoryDesk.batch, List.length_take]
    exact Nat.min_le_left _ _
  · intro hlt i hi
    rw [hlen, StoryDesk.batch, List.length_take] at hlt
    obtain ⟨x, hx, rfl⟩ := List.mem_map.mp (pending_iff.mp hi)
    rw [hids, StoryDesk.batch, List.take_of_length_le (by omega)]
    exact List.mem_map_of_mem (hperm.mem_iff.mpr hx)
  · exact hlinks

/-- What is promised of a call. -/
structure Law (desk : StoryDesk V) (t : Tables V) (c : Call V) : Prop where
  clustered : Clustered (call desk t c).2
  taken : ∀ company now answers, c = .cluster company now answers → ∃ joined,
    (call desk t c).1 = .ok joined ∧ Taken desk t (call desk t c).2 company now joined

/-- No item of a run asks for a window of time that is none. -/
def Meets (desk : StoryDesk V) (t : Tables V) : Call V → Prop
  | .cluster company now answers =>
    (∀ x ∈ desk.batch company now answers t, ∀ hours, t.matchHours x.1 = some hours →
      hours ≤ MAX_INTEGER) ∧ Fits t company [] (desk.batch company now answers t)
  | _ => True

theorem clusterPending_cases (desk : StoryDesk V) (h : Clustered t) (answers : Answers V) :
    (Meets desk t (.cluster company now answers) ∧ ∃ joined u,
      desk.clusterPending company now answers t = .ok (joined, u) ∧ Clustered u ∧
        Taken desk t u company now joined) ∨
    (¬ Meets desk t (.cluster company now answers) ∧
      ∃ e, desk.clusterPending company now answers t = .error e) := by
  rw [Meets, StoryDesk.clusterPending]
  by_cases hbig : ∀ x ∈ desk.batch company now answers t, ∀ hours, t.matchHours x.1 = some hours →
      hours ≤ MAX_INTEGER
  · have hany : ¬ ((desk.batch company now answers t).any fun x =>
        (t.matchHours x.1).any fun hours => MAX_INTEGER < hours) = true := by
      rw [List.any_eq_true]
      intro hany
      obtain ⟨x, hx, hx'⟩ := hany
      cases hm : t.matchHours x.1 with
      | none => simp [hm] at hx'
      | some hours =>
        have hle := hbig x hx hours hm
        have hlt := of_decide_eq_true (by simpa [hm] using hx')
        omega
    rw [if_neg hany]
    have hmid : Midway t t [] := ⟨h, rfl, rfl, fun j => by simp⟩
    have hperm := @perm_pending _ t company now answers
    have hsub : (desk.batch company now answers t).Sublist
        ((t.pending company now).insertionSort (before answers.tie)) := List.take_sublist _ _
    have hwait : ∀ x ∈ desk.batch company now answers t, t.items[x.2]? = some x.1 ∧
        x.1.companyId = company ∧ t.hasStory x.2 = false := by
      intro x hx
      obtain ⟨hi, hc, hfree, -⟩ := mem_pending.mp (hperm.mem_iff.mp (hsub.subset hx))
      exact ⟨hi, hc, hfree⟩
    have hnodup : (([] : List Nat) ++ (desk.batch company now answers t).map Prod.snd).Nodup :=
      ((hperm.map Prod.snd).nodup_iff.mpr nodup_pending).sublist (hsub.map Prod.snd)
    rcases clusterItems_cases desk answers hmid hwait hnodup with
      ⟨hfits, joined, u, hrun, hjoined, hids⟩ | ⟨hnot, hrun⟩
    · rw [hrun]
      obtain ⟨hrescored, hsame⟩ := rescored (joined.map Prod.snd).dedup hjoined.clustered
      refine Or.inl ⟨⟨hbig, hfits⟩, joined, _, rfl, hrescored, taken_of_joined desk answers hids ?_⟩
      rw [hsame]
      exact hjoined.links
    · rw [hrun]
      exact Or.inr ⟨fun hmeets => hnot hmeets.2, _, rfl⟩
  · have hany : ((desk.batch company now answers t).any fun x =>
        (t.matchHours x.1).any fun hours => MAX_INTEGER < hours) = true := by
      by_contra hnone
      refine hbig fun x hx hours hh => ?_
      by_contra hgt
      refine hnone (List.any_eq_true.mpr ⟨x, hx, ?_⟩)
      simpa [hh] using Nat.lt_of_not_ge hgt
    rw [if_pos hany]
    exact Or.inr ⟨fun hmeets => hbig hmeets.1, _, rfl⟩

theorem insertItems_clustered (found : List SourceItem) (h : Clustered t) :
    Clustered (found.foldl insertItem t) := by
  induction found generalizing t with
  | nil => exact h
  | cons item found ih => exact ih (h.insertItem item)

/-- No call, stopped or not, leaves an item in two stories or a wrong counter. -/
theorem clustered_call (desk : StoryDesk V) (h : Clustered t) (c : Call V) :
    Clustered (call desk t c).2 := by
  cases c with
  | sources sources => exact ⟨h.items, h.stories, h.once, h.oneUrl, h.counts⟩
  | poll found => exact insertItems_clustered found h
  | create company now title summary vector => exact h.create desk title summary vector
  | cluster company now answers =>
    rw [call]
    rcases clusterPending_cases desk h answers with
      ⟨-, joined, u, hrun, hu, -⟩ | ⟨-, e, hrun⟩
    · rw [hrun]
      exact hu
    · rw [hrun]
      exact h

theorem law_iff (desk : StoryDesk V) (h : Clustered t) (c : Call V) :
    Law desk t c ↔ Meets desk t c := by
  have hclustered := clustered_call desk h c
  cases c with
  | sources sources => exact ⟨fun _ => trivial, fun _ => ⟨hclustered, nofun⟩⟩
  | poll found => exact ⟨fun _ => trivial, fun _ => ⟨hclustered, nofun⟩⟩
  | create company now title summary vector =>
    exact ⟨fun _ => trivial, fun _ => ⟨hclustered, nofun⟩⟩
  | cluster company now answers =>
    rcases clusterPending_cases desk h answers with
      ⟨hmeets, joined, u, hrun, -, htaken⟩ | ⟨hnot, e, hrun⟩
    · refine ⟨fun _ => hmeets, fun _ => ⟨hclustered, fun company' now' answers' heq => ?_⟩⟩
      cases heq
      refine ⟨joined, ?_, ?_⟩
      · rw [call, hrun]
      · rw [call, hrun]
        exact htaken
    · refine ⟨fun hlaw => ?_, fun hmeets => absurd hmeets hnot⟩
      obtain ⟨joined, hok, -⟩ := hlaw.taken company now answers rfl
      rw [call, hrun] at hok
      cases hok

/-- A property of every call of a run of calls, and of the tables it finds. -/
def Throughout (desk : StoryDesk V) (P : Tables V → Call V → Prop) (t : Tables V) :
    List (Call V) → Prop
  | [] => True
  | c :: cs => P t c ∧ Throughout desk P (call desk t c).2 cs

end Clusters

end Autora
