import Autora.Closing

/-! A task finished and nothing else happens: what waited for it is unlocked when
all it depends on has succeeded, and the run closes if that was its last task. -/

namespace Autora

open Transactions

theorem markReady_moves {id : Id} {w w' : World} {u : Unit}
    (h : Returns (TaskManager.markReady id) w u w') : Moves id .ready w w' := by
  simp only [TaskManager.markReady, returns_bind, returns_transitionTask, returns_theTask] at h
  obtain ⟨_, _, ⟨_, _, _, rfl⟩, _, _, ⟨_, rfl⟩, h⟩ := h
  exact (setTask_moves w id .ready).quiet (emitTask_quiet _ _ _ _ _ _ h)

theorem mem_succeeded {w : World} {run i : Id} :
    i ∈ ((w.tasksOf run).filter (·.state = .succeeded)).map (·.id) ↔
      ∃ c ∈ w.board.cards, c.run = run ∧ c.id = i ∧ c.state = .succeeded := by
  simp only [List.mem_map, List.mem_filter, mem_tasksOf, decide_eq_true_eq]
  constructor
  · rintro ⟨t, ⟨⟨hmem, hr⟩, hs⟩, rfl⟩
    have hcard : t.card? = some ⟨t.id, run, t.name, t.dependsOn, t.state⟩ := by
      simp [Task.card?, hr]
    exact ⟨_, mem_board.mpr ⟨t, hmem, hcard⟩, rfl, rfl, hs⟩
  · rintro ⟨c, hc, hr, rfl, hs⟩
    obtain ⟨t, ht, hcard⟩ := mem_board.mp hc
    obtain ⟨htr, hti, _, _, hts⟩ := Task.card?_eq_some.mp hcard
    exact ⟨t, ⟨⟨ht, hr ▸ htr⟩, hts.trans hs⟩, hti⟩

theorem nodup_tasksOf {w : World} (hk : Keyed w) (run : Id) :
    ((w.tasksOf run).map (·.id)).Nodup :=
  (List.filter_sublist.map _).nodup hk.tasks

/-- The siblings unlocked so far. -/
def unlockedTo (run id : Id) (cards : List Card) (pre : List Id) (d : Card) : Card :=
  if d.id ∈ pre then unlockCard run id cards d else d

theorem unlockCard_id (run id : Id) (cards : List Card) (d : Card) :
    (unlockCard run id cards d).id = d.id := by
  unfold unlockCard
  split <;> rfl

theorem unlockedTo_id (run id : Id) (cards : List Card) (pre : List Id) (d : Card) :
    (unlockedTo run id cards pre d).id = d.id := by
  unfold unlockedTo
  split
  · exact unlockCard_id _ _ _ _
  · rfl

theorem unlock_refines {task : Task} {run : Id} {w w' : World} (hk : Keyed w)
    {unlocked : List UnlockedTask}
    (h : Returns (WorkflowEngine.unlock task (w.tasksOf run)) w unlocked w') :
    Kept w w' ∧ w'.board =
      ⟨w.board.cards.map (unlockCard run task.id w.board.cards), w.board.runs⟩ := by
  have hloop : Kept w w' ∧ w'.board = ⟨w.board.cards.map
      (unlockedTo run task.id w.board.cards ((w.tasksOf run).map (·.id))), w.board.runs⟩ := by
    refine foldEach_prefix (I := fun pre _ s => Kept w s ∧ s.board = ⟨w.board.cards.map
      (unlockedTo run task.id w.board.cards (pre.map (·.id))), w.board.runs⟩)
      (fun pre x post he b s b' t hI hs => ?_) ⟨Kept.refl w, ?_⟩ h
    · obtain ⟨hkept, hboard⟩ := hI
      have hnd := nodup_tasksOf hk run
      have hxs : x ∈ w.tasksOf run := by
        rw [he]
        simp
      obtain ⟨hxmem, hxr⟩ := mem_tasksOf.mp hxs
      have hxpre : x.id ∉ pre.map (·.id) := by
        rw [he, List.map_append, List.nodup_append] at hnd
        intro hin
        exact hnd.2.2 _ hin _ (by simp) rfl
      -- the row read is the sibling as it was
      have hxcard : x.card? = some ⟨x.id, run, x.name, x.dependsOn, x.state⟩ := by
        simp [Task.card?, hxr]
      have hxb : (⟨x.id, run, x.name, x.dependsOn, x.state⟩ : Card) ∈ s.board.cards := by
        rw [hboard]
        refine List.mem_map.mpr ⟨_, mem_board.mpr ⟨x, hxmem, hxcard⟩, ?_⟩
        exact if_neg hxpre
      simp only [returns_bind (m := theTask _), returns_theTask] at hs
      obtain ⟨row, s, ⟨hrow, rfl⟩, hs⟩ := hs
      have hrowid := (s.mem_of_task? x.id hrow).2
      have hrowcard := (hkept.keyed hk).card_eq hrow hxb rfl
      obtain ⟨_, _, _, hdeps, hstate⟩ := Task.card?_eq_some.mp hrowcard
      have hdeps : row.dependsOn = x.dependsOn := hdeps
      have hstate : row.state = x.state := hstate
      have hcond : ∀ d ∈ w.board.cards, d.id = x.id →
          ((d.run = run ∧ task.id ∈ d.deps ∧ d.state = .pending ∧ ∀ i ∈ d.deps,
            ∃ c ∈ w.board.cards, c.run = run ∧ c.id = i ∧ c.state = .succeeded) ↔
          (task.id ∈ row.dependsOn ∧ row.state = .pending ∧ row.dependsOn ⊆
            ((w.tasksOf run).filter (·.state = .succeeded)).map (·.id))) := by
        intro d hd hdx
        have hcard := hk.card_eq (hk.task? hxmem) hd hdx
        rw [hxcard, Option.some.injEq] at hcard
        rw [hdeps, hstate, ← hcard]
        constructor
        · rintro ⟨_, h₁, h₂, h₃⟩
          exact ⟨h₁, h₂, fun i hi => mem_succeeded.mpr (h₃ i hi)⟩
        · rintro ⟨h₁, h₂, h₃⟩
          exact ⟨rfl, h₁, h₂, fun i hi => mem_succeeded.mp (h₃ hi)⟩
      have hother : ∀ d, d.id ≠ x.id →
          unlockedTo run task.id w.board.cards ((pre ++ [x]).map (·.id)) d =
            unlockedTo run task.id w.board.cards (pre.map (·.id)) d := by
        intro d hd
        unfold unlockedTo
        simp [hd]
      have hself : ∀ d, d.id = x.id →
          unlockedTo run task.id w.board.cards ((pre ++ [x]).map (·.id)) d =
              unlockCard run task.id w.board.cards d ∧
            unlockedTo run task.id w.board.cards (pre.map (·.id)) d = d := by
        intro d hd
        unfold unlockedTo
        rw [hd]
        exact ⟨if_pos (by simp), if_neg hxpre⟩
      rcases returns_ite.mp hs with ⟨hyes, hs⟩ | ⟨hno, hs⟩
      · simp only [returns_bind, returns_pure] at hs
        obtain ⟨_, s', hmark, rfl, rfl⟩ := hs
        rw [hrowid] at hmark
        have hm := markReady_moves hmark
        refine ⟨hkept.trans hm.kept, ?_⟩
        rw [hm.board, hboard]
        refine congrArg₂ Board.mk ?_ rfl
        simp only [setState, List.map_map]
        refine List.map_congr_left fun d hd => ?_
        simp only [Function.comp_apply, unlockedTo_id]
        by_cases hdx : d.id = x.id
        · rw [if_pos hdx, (hself d hdx).1, (hself d hdx).2]
          exact (if_pos ((hcond d hd hdx).mpr hyes)).symm
        · rw [if_neg hdx, hother d hdx]
      · obtain ⟨_, rfl⟩ := returns_pure.mp hs
        refine ⟨hkept, ?_⟩
        rw [hboard]
        refine congrArg₂ Board.mk (List.map_congr_left fun d hd => ?_) rfl
        by_cases hdx : d.id = x.id
        · rw [(hself d hdx).1, (hself d hdx).2]
          exact (if_neg fun hh => hno ((hcond d hd hdx).mp hh)).symm
        · rw [hother d hdx]
    · refine congrArg₂ Board.mk ?_ rfl
      refine ((List.map_congr_left fun d _ => ?_).trans (List.map_id _)).symm
      exact if_neg (by simp)
  refine ⟨hloop.1, hloop.2.trans (congrArg₂ Board.mk (List.map_congr_left fun d hd => ?_) rfl)⟩
  by_cases hr : d.run = run
  · obtain ⟨t, ht, hcard⟩ := mem_board.mp hd
    obtain ⟨htr, hti, _⟩ := Task.card?_eq_some.mp hcard
    refine if_pos (List.mem_map.mpr ⟨t, mem_tasksOf.mpr ⟨ht, hr ▸ htr⟩, hti⟩)
  · have hfix : unlockCard run task.id w.board.cards d = d := if_neg fun hh => hr hh.1
    unfold unlockedTo
    rw [hfix]
    split <;> rfl

end Autora
