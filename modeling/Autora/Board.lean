import Autora.Lib.Prerequisites
import Autora.Template

/-! The board: the task graphs of the workflow runs and nothing else. It says
what the engine is for: tasks end, their ends unlock or cancel what depends on
them, rounds are added, and a run closes when nothing of it is unfinished. -/

namespace Autora

structure Card where
  id : Id
  run : Id
  name : String
  deps : List Id
  state : TaskState
  deriving DecidableEq

structure RunCard where
  id : Id
  template : String
  state : WorkflowRunState
  deriving DecidableEq

structure Board where
  cards : List Card
  runs : List RunCard

def Card.moved (s : TaskState) (c : Card) : Card := { c with state := s }

@[simp] theorem Card.moved_id (s : TaskState) (c : Card) : (c.moved s).id = c.id := rfl
@[simp] theorem Card.moved_run (s : TaskState) (c : Card) : (c.moved s).run = c.run := rfl
@[simp] theorem Card.moved_name (s : TaskState) (c : Card) : (c.moved s).name = c.name := rfl
@[simp] theorem Card.moved_deps (s : TaskState) (c : Card) : (c.moved s).deps = c.deps := rfl
@[simp] theorem Card.moved_state (s : TaskState) (c : Card) : (c.moved s).state = s := rfl

def ofRun (cards : List Card) (run : Id) : List Card := cards.filter (·.run = run)

def setState (id : Id) (s : TaskState) (cards : List Card) : List Card :=
  cards.map fun c => if c.id = id then c.moved s else c

/-- How a run closes: SUCCEEDED if every task succeeded, FAILED if any failed,
otherwise CANCELLED. -/
def outcome (cards : List Card) : WorkflowRunState :=
  if ∀ c ∈ cards, c.state = .succeeded then .succeeded
  else if ∃ c ∈ cards, c.state = .failed then .failed
  else .cancelled

def doom (doomed : List Id) (cards : List Card) : List Card :=
  cards.map fun c => if c.id ∈ doomed then c.moved .cancelled else c

def closeRun (cards : List Card) (r : RunCard) : RunCard :=
  { r with state := outcome (ofRun cards r.id) }

def AllFinal (cards : List Card) (run : Id) : Prop :=
  ∀ c ∈ cards, c.run = run → c.state.final = true

/-- The runs of `runs'` are those of `runs`, but `run` may have closed: with every
task of it final, and with the outcome they have. -/
def Closes (run : Id) (cards : List Card) (runs runs' : List RunCard) : Prop :=
  runs' = runs ∨ (AllFinal cards run ∧ (∀ r ∈ runs, r.id = run → r.state = .running) ∧
    runs' = runs.map fun r => if r.id = run then closeRun cards r else r)

/-- A run with nothing unfinished is closed. -/
def Completed (run : Id) (b : Board) : Prop :=
  AllFinal b.cards run → ∀ r ∈ b.runs, r.id = run → r.state ≠ .running

/-- The doomed tasks of a run are cancelled, with all that depends on them. -/
structure Spread (run : Id) (doomed : List Id) (b b' : Board) : Prop where
  cards : b'.cards = doom doomed b.cards
  closes : Closes run b'.cards b.runs b'.runs
  inRun : ∀ c ∈ b.cards, c.id ∈ doomed → c.run = run
  unfinished : ∀ c ∈ b.cards, c.id ∈ doomed → c.state.final = false
  downstream : ∀ c ∈ b.cards, c.id ∈ doomed → ∀ d ∈ b.cards, d.run = run → c.id ∈ d.deps →
    d.state.final = true ∨ d.id ∈ doomed

def Cascade (run : Id) (b b' : Board) : Prop := ∃ doomed, Spread run doomed b b'

/-- What depends on a task cannot run any more. -/
def Stopped (id run : Id) (b : Board) : Prop :=
  ∀ d ∈ b.cards, d.run = run → id ∈ d.deps → d.state.final = true

/-! Cards that are rewritten in place. -/

theorem outcome_ne_running (cards : List Card) : outcome cards ≠ .running := by
  unfold outcome
  split
  · simp
  · split <;> simp

theorem outcome_eq_succeeded {cards : List Card} :
    outcome cards = .succeeded ↔ ∀ c ∈ cards, c.state = .succeeded := by
  unfold outcome
  by_cases h : ∀ c ∈ cards, c.state = .succeeded
  · rw [if_pos h]
    exact ⟨fun _ => h, fun _ => rfl⟩
  · rw [if_neg h]
    split <;> simp [h]

theorem outcome_eq_failed {cards : List Card} :
    outcome cards = .failed ↔ ∃ c ∈ cards, c.state = .failed := by
  unfold outcome
  by_cases h : ∀ c ∈ cards, c.state = .succeeded
  · rw [if_pos h]
    constructor
    · exact fun hh => by cases hh
    · rintro ⟨c, hc, hf⟩
      rw [h c hc] at hf
      cases hf
  · rw [if_neg h]
    split
    · next hf => simp [hf]
    · next hf => simp only [reduceCtorEq, hf]

theorem mem_ofRun {cards : List Card} {run : Id} {c : Card} :
    c ∈ ofRun cards run ↔ c ∈ cards ∧ c.run = run := by
  simp [ofRun]

theorem mem_doom {doomed : List Id} {cards : List Card} {c' : Card} :
    c' ∈ doom doomed cards ↔
      ∃ c ∈ cards, (if c.id ∈ doomed then c.moved .cancelled else c) = c' := by
  simp [doom]

theorem mem_setState {id : Id} {s : TaskState} {cards : List Card} {c' : Card} :
    c' ∈ setState id s cards ↔ ∃ c ∈ cards, (if c.id = id then c.moved s else c) = c' := by
  simp [setState]

theorem setState_cancelled (id : Id) (cards : List Card) :
    setState id .cancelled cards = doom [id] cards := by
  simp [setState, doom]

theorem doom_doom (xs ys : List Id) (cards : List Card) :
    doom ys (doom xs cards) = doom (xs ++ ys) cards := by
  simp only [doom, List.map_map]
  refine List.map_congr_left fun c _ => ?_
  by_cases hx : c.id ∈ xs <;> by_cases hy : c.id ∈ ys <;> simp [hx, hy, Card.moved]

theorem doom_nil (cards : List Card) : doom [] cards = cards := by
  simp [doom]

/-- A run whose tasks are all final stays as it is. -/
theorem ofRun_doom {run : Id} {doomed : List Id} {cards : List Card}
    (hf : AllFinal cards run)
    (hu : ∀ c ∈ cards, c.id ∈ doomed → c.state.final = false) :
    ofRun (doom doomed cards) run = ofRun cards run := by
  induction cards with
  | nil => rfl
  | cons c cards ih =>
    have hh := ih (fun d hd => hf d (by simp [hd])) (fun d hd => hu d (by simp [hd]))
    simp only [ofRun, doom, List.map_cons, List.filter_cons] at hh ⊢
    by_cases hr : c.run = run
    · have hn : c.id ∉ doomed := by
        intro hin
        have h₁ := hf c (by simp) hr
        have h₂ := hu c (by simp) hin
        rw [h₁] at h₂
        cases h₂
      simp only [hn, if_false, hr, decide_true, if_true, hh]
    · by_cases hin : c.id ∈ doomed
      · simp only [hin, if_true, Card.moved_run, hr, decide_false, Bool.false_eq_true, if_false, hh]
      · simp only [hin, if_false, hr, decide_false, Bool.false_eq_true, hh]

theorem closeRun_congr {cards cards' : List Card} {r : RunCard}
    (h : ofRun cards' r.id = ofRun cards r.id) : closeRun cards' r = closeRun cards r := by
  simp [closeRun, h]

theorem Closes.trans {run : Id} {cards cards' : List Card} {runs runs' runs'' : List RunCard}
    (h : Closes run cards runs runs') (h' : Closes run cards' runs' runs'')
    (hc : AllFinal cards run → AllFinal cards' run ∧ ofRun cards' run = ofRun cards run) :
    Closes run cards' runs runs'' := by
  rcases h with rfl | ⟨hf, hr, rfl⟩
  · exact h'
  · obtain ⟨hf', heq⟩ := hc hf
    refine .inr ⟨hf', hr, ?_⟩
    have hsame : (runs.map fun r => if r.id = run then closeRun cards r else r) =
        runs.map fun r => if r.id = run then closeRun cards' r else r := by
      refine List.map_congr_left fun r _ => ?_
      by_cases hid : r.id = run
      · have he : ofRun cards' r.id = ofRun cards r.id := by
          rw [hid]
          exact heq
        rw [if_pos hid, if_pos hid, closeRun_congr he]
      · rw [if_neg hid, if_neg hid]
    rcases h' with rfl | ⟨_, hr', rfl⟩
    · exact hsame
    · -- closed already, so there is nothing to close again
      rw [← hsame]
      refine List.map_congr_left (fun r hmem => ?_) |>.trans (List.map_id _)
      by_cases hid : r.id = run
      · have hrun := hr' r hmem hid
        obtain ⟨r₀, _, rfl⟩ := List.mem_map.mp hmem
        by_cases hid₀ : r₀.id = run
        · rw [if_pos hid₀] at hrun
          exact absurd hrun (outcome_ne_running _)
        · rw [if_neg hid₀] at hid
          exact absurd hid hid₀
      · simp [hid]

/-! Cascades compose. -/

theorem Cascade.refl (run : Id) (b : Board) : Cascade run b b :=
  ⟨[], (doom_nil _).symm, .inl rfl, by simp, by simp, by simp⟩

theorem Spread.final {run : Id} {doomed : List Id} {b b' : Board} (h : Spread run doomed b b')
    {c : Card} (hc : c ∈ b.cards) (hf : c.state.final = true) : c ∈ b'.cards := by
  rw [h.cards, mem_doom]
  refine ⟨c, hc, if_neg fun hin => ?_⟩
  have hu := h.unfinished c hc hin
  rw [hf] at hu
  cases hu

theorem Cascade.trans {run : Id} {b b' b'' : Board} (h : Cascade run b b')
    (h' : Cascade run b' b'') : Cascade run b b'' := by
  obtain ⟨xs, hs⟩ := h
  obtain ⟨ys, hs'⟩ := h'
  -- a task doomed in the second half was left alone by the first
  have hlater : ∀ c ∈ b.cards, c.id ∈ ys → c.id ∉ xs → c ∈ b'.cards := by
    intro c hc _ hx
    rw [hs.cards, mem_doom]
    exact ⟨c, hc, if_neg hx⟩
  refine ⟨xs ++ ys, ?_, ?_, ?_, ?_, ?_⟩
  · rw [hs'.cards, hs.cards, doom_doom]
  · refine hs.closes.trans hs'.closes fun hf => ?_
    have heq : ofRun b''.cards run = ofRun b'.cards run := by
      rw [hs'.cards]
      exact ofRun_doom hf hs'.unfinished
    refine ⟨fun c hc hr => ?_, heq⟩
    have hc' : c ∈ ofRun b'.cards run := heq ▸ mem_ofRun.mpr ⟨hc, hr⟩
    exact hf c (mem_ofRun.mp hc').1 hr
  · intro c hc hin
    by_cases hx : c.id ∈ xs
    · exact hs.inRun c hc hx
    · have hy : c.id ∈ ys := (List.mem_append.mp hin).resolve_left hx
      exact hs'.inRun c (hlater c hc hy hx) hy
  · intro c hc hin
    by_cases hx : c.id ∈ xs
    · exact hs.unfinished c hc hx
    · have hy : c.id ∈ ys := (List.mem_append.mp hin).resolve_left hx
      exact hs'.unfinished c (hlater c hc hy hx) hy
  · intro c hc hin d hd hdr hdep
    by_cases hx : c.id ∈ xs
    · rcases hs.downstream c hc hx d hd hdr hdep with h | h
      · exact .inl h
      · exact .inr (List.mem_append_left _ h)
    · have hy : c.id ∈ ys := (List.mem_append.mp hin).resolve_left hx
      by_cases hdx : d.id ∈ xs
      · exact .inr (List.mem_append_left _ hdx)
      · have hd' : d ∈ b'.cards := by
          rw [hs.cards, mem_doom]
          exact ⟨d, hd, if_neg hdx⟩
        rcases hs'.downstream c (hlater c hc hy hx) hy d hd' hdr hdep with h | h
        · exact .inl h
        · exact .inr (List.mem_append_right _ h)

instance (run : Id) : IsPreorder Board (Cascade run) where
  refl := Cascade.refl run
  trans _ _ _ := Cascade.trans

end Autora
