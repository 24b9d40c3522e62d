import Autora.ArticleLife
import Autora.Lifecycles
import Autora.Template

/-! A run of the story template or of the revision template, with the article it makes: the
engine keeps the rounds of the run, the newsroom's commands keep the revisions of the article. -/

namespace Autora.Newsroom

open Systems

/-! The two templates. -/

def textOf (output : Dict) (key : String) : Option String :=
  match output.lookup key with
  | some (.str s) => some s
  | _ => none

def revise (output : Dict) : Bool := textOf output "verdict" = some "revise"

def toAnalyst (output : Dict) : Bool := revise output && textOf output "back_to" = some "analyst"

def toWriter (output : Dict) : Bool := revise output && textOf output "back_to" ≠ some "analyst"

def chiefStops (output : Dict) : Bool :=
  textOf output "verdict" = some "veto" || match output.lookup "dropped" with
    | some (.bool dropped) => dropped
    | _ => false

def issues (output : Dict) : Dict := [("issues", (output.lookup "issues").getD (.list []))]

def sentBack (output : Dict) : Bool := textOf output "decision" = some "revise"

def theirReason (output : Dict) : Dict :=
  [("issues", .list [.dict [("message",
    .str ("審批退回（人工）：" ++ (textOf output "reason").getD ""))]])]

/-- `"…：{title}".format(**params)`. -/
def titled (words : String) (params : Dict) : Except String String :=
  match textOf params "title" with
  | some title => .ok (words ++ "：" ++ title)
  | none => .error "title"

def roundLabel (words name : String) (round : Nat) : Except String String :=
  .ok (name ++ "（" ++ words ++ "第 " ++ toString round ++ " 輪）")

def nodeOf (name words role : String) (dependsOn : List String) : NodeSpec where
  name := name
  displayName := titled words
  requiredRole := role
  dependsOn := dependsOn

def reviewLoop (backTo : String) (again : Dict → Bool) : Loop where
  check := "review"
  backTo := backTo
  again := again
  carry := issues
  maxRounds := maxRevisions
  roundLabel := roundLabel ""

def chiefLoop : Loop where
  check := "chief_review"
  backTo := "draft"
  again := revise
  carry := issues
  maxRounds := maxRevisions
  roundLabel := roundLabel "總編退回"

def approveLoop : Loop where
  check := "approve"
  backTo := "draft"
  again := sentBack
  carry := theirReason
  maxRounds := maxRevisions
  roundLabel := roundLabel "退回後"

def chiefHalt : Halt where
  check := "chief_review"
  fires := chiefStops
  reason _ := .ok "the editor-in-chief stopped it"

/-- `TEMPLATE`. -/
def storyTemplate : WorkflowTemplate where
  name := "newsroom.story_to_article_v2"
  nodes := [nodeOf "research" "研究" "researcher" [],
    nodeOf "analysis" "分析" "analyst" ["research"],
    nodeOf "draft" "撰稿" "writer" ["analysis"],
    nodeOf "review" "審稿" "editor" ["draft"],
    nodeOf "chief_review" "總編終審" "editor_in_chief" ["review"],
    nodeOf "cover" "找首圖" "marketing" ["analysis"],
    { nodeOf "approve" "核准" "human" ["chief_review", "cover"] with
      service := some "newsroom.approve" },
    { nodeOf "publish" "發布" "system" ["approve"] with service := some "newsroom.publish" },
    nodeOf "distribute" "推廣" "marketing" ["publish"]]
  loops := [reviewLoop "analysis" toAnalyst, reviewLoop "draft" toWriter, chiefLoop, approveLoop]
  halts := [chiefHalt]
  valid := by decide +kernel

/-- `REVISION_TEMPLATE`. -/
def revisionTemplate : WorkflowTemplate where
  name := "newsroom.article_revision_v1"
  nodes := [nodeOf "draft" "修改" "writer" [],
    nodeOf "review" "審稿（修改）" "editor" ["draft"],
    nodeOf "chief_review" "總編終審（修改）" "editor_in_chief" ["review"],
    { nodeOf "approve" "核准（修改）" "human" ["chief_review"] with
      service := some "newsroom.approve" },
    { nodeOf "publish" "發布（修改）" "system" ["approve"] with
      service := some "newsroom.publish" }]
  loops := [reviewLoop "draft" revise, chiefLoop, approveLoop]
  halts := [chiefHalt]
  valid := by decide +kernel

/-! The engine on the tasks of one run. -/

/-- A task's id is its place among the tasks of its run. -/
structure Job where
  name : String
  state : TaskState
  dependsOn : List Nat
  deriving DecidableEq, Repr

def unfinished (jobs : List Job) (i : Nat) : Bool := jobs[i]?.any fun j => !j.state.final

def dependsOn (jobs : List Job) (i : Nat) (ids : List Nat) : Bool :=
  jobs[i]?.any fun j => j.dependsOn.any (· ∈ ids)

def setJob (id : Nat) (s : TaskState) (jobs : List Job) : List Job :=
  jobs.modify id fun j => { j with state := s }

/-- What is cancelled when `ids` cannot succeed any more: what depends on them, and so on. -/
def spread (jobs : List Job) : Nat → List Nat → List Nat
  | 0, ids => ids
  | n + 1, ids => spread jobs n (ids ++ (List.range jobs.length).filter fun i =>
      i ∉ ids && unfinished jobs i && dependsOn jobs i ids)

/-- `_cancel_waiting`; a task that is cancelled cancels what depends on it. -/
def cancelWaiting (id : Nat) (jobs : List Job) : List Job :=
  let doomed := (spread jobs jobs.length [id]).filter (unfinished jobs)
  jobs.zipIdx.map fun (j, i) => if i ∈ doomed then { j with state := .cancelled } else j

def latest (jobs : List Job) (name : String) : Option Nat :=
  ((List.range jobs.length).filter fun i => jobs[i]?.any fun j => j.name = name).getLast?

section

variable (t : TemplateSpec)

/-- The tasks of a new run. -/
def instantiate : List Job :=
  t.order.map fun n => ⟨n.name, if n.dependsOn = [] then .ready else .pending,
    n.dependsOn.map fun d => (t.order.map (·.name)).idxOf d⟩

/-- The tasks of another round; what waited for the task that asked for it waits for its copy. -/
def startRound (loop : Loop) (id : Nat) (jobs : List Job) : List Job :=
  let body := t.loopBody loop
  let inside := body.map (·.name)
  let copy (name : String) := jobs.length + inside.idxOf name
  let rewire (i : Nat) := if i = id then copy loop.check else i
  jobs.map (fun j => { j with dependsOn := j.dependsOn.map rewire }) ++
    body.map fun n => ⟨n.name, if n.dependsOn.any (· ∈ inside) then .pending else .ready,
      n.dependsOn.filterMap fun d => if d ∈ inside then some (copy d) else latest jobs d⟩

/-- What waited for the task and has all it waits for is ready. -/
def unlock (id : Nat) (jobs : List Job) : List Job :=
  jobs.map fun j =>
    if j.state = .pending ∧ id ∈ j.dependsOn ∧
        j.dependsOn.all (fun i => jobs[i]?.any fun d => d.state = .succeeded) then
      { j with state := .ready }
    else j

inductive Reaction where
  | halted
  | gaveUp
  | again (loop : Loop)
  | unlocked

/-- What the end of a task makes of the run: a halt, a loop with or without rounds left, or the
work that waited for it. -/
def reaction (jobs : List Job) (name : String) (output : Dict) : Reaction :=
  if t.halts.any fun h => h.check = name && h.fires output then .halted
  else match t.loops.find? fun l => l.check = name && l.again output with
    | none => .unlocked
    | some loop =>
      if loop.maxRounds ≤ (jobs.countP fun j => j.name = loop.check : Nat) - 1 then .gaveUp
      else .again loop

/-- `on_task_finished`. -/
def onTaskFinished (id : Nat) (name : String) (output : Dict) (jobs : List Job) : List Job :=
  match reaction t jobs name output with
  | .halted => cancelWaiting id jobs
  | .gaveUp => cancelWaiting id jobs
  | .again loop => startRound t loop id jobs
  | .unlocked => unlock id jobs

/-- The run closes when every task of it is at an end. -/
def closed (jobs : List Job) : Bool := jobs.all fun j => j.state.final

/-! The verdicts. -/

inductive EditorVerdict where
  | accept (report : Nat)
  | revise (issuesCount : Nat) (backTo : String)
  deriving DecidableEq, Repr

inductive PersonVerdict where
  | approve
  | revise (reason : String)
  | reject
  deriving DecidableEq, Repr

structure Floor where
  jobs : List Job
  desk : Desk
  deriving DecidableEq, Repr

inductive Move where
  /-- A task is claimed, started, or waits for its approval. -/
  | take (id : Nat) (s : TaskState)
  /-- The researcher's, the analyst's, the writer's and the editor's other tools. -/
  | prepare (act : Act)
  | work (id : Nat) (output : Dict)
  | publish (id : Nat) (policy : LanguagePolicy)
  | editor (id : Nat) (verdict : EditorVerdict)
  | chief (id : Nat) (verdict : Verdict) (issuesCount : Nat) (reason : String)
  | person (id : Nat) (verdict : PersonVerdict)

def Act.prepares : Act → Bool
  | .createClaim _ _ => true
  | .linkEvidence _ => true
  | .writeDraft _ _ => true
  | .runFactCheck _ _ => true
  | _ => false

/-- The tasks whose end is one of the other moves. -/
def decided : List String := ["review", "chief_review", "approve", "publish"]

/-- The reviewer has not decided about the current draft: a decision that is taken again is not
this task's, and its report is not accepted. -/
def Desk.undecided (d : Desk) (byChief : Bool) : Bool :=
  d.article.all fun a => (d.earlier a byChief).isNone

def Desk.edit (d : Desk) : EditorVerdict → Except Refusal Desk
  | .accept report => d.acceptDraft report
  | .revise issuesCount _ => d.requestRevision issuesCount

def EditorVerdict.output : EditorVerdict → Dict
  | .accept _ => [("verdict", .str "accept"), ("back_to", .str "writer")]
  | .revise _ backTo => [("verdict", .str "revise"), ("back_to", .str backTo)]

/-- What the editor-in-chief has to report as `dropped`. -/
def Desk.turnedDown (d : Desk) (verdict : Verdict) : Bool :=
  d.article.any fun a => a.state = .rejected ||
    (a.publishedGroup.isSome && verdict ≠ .accept && a.state ≠ .draft)

def chiefOutput (verdict : Verdict) (d : Desk) : Dict :=
  [("verdict", .str (Desk.verdictValue verdict)), ("dropped", .bool (d.turnedDown verdict))]

def Desk.decide (d : Desk) : PersonVerdict → Except Refusal Desk
  | .approve => d.approveArticle .allow
  | .revise reason => d.returnArticle .human reason
  | .reject => d.rejectArticle .human false

def PersonVerdict.output : PersonVerdict → Dict
  | .approve => [("decision", .str "approve")]
  | .revise reason => [("decision", .str "revise"), ("reason", .str reason)]
  | .reject => []

def Floor.running (f : Floor) (id : Nat) (p : String → Bool) : Bool :=
  f.jobs[id]?.any fun j => p j.name && j.state.active

/-- The end of a task: its name, its output and the desk as it is then. -/
def Floor.ends (f : Floor) : Move → Option (Nat × String × Dict × Desk)
  | .work id output =>
    if f.running id fun name => name ∉ decided then
      f.jobs[id]?.map fun j => (id, j.name, output, f.desk)
    else none
  | .publish id policy =>
    if f.running id (· = "publish") then
      (f.desk.publishArticle policy .allow).toOption.map fun d => (id, "publish", [], d)
    else none
  | .editor id verdict =>
    if f.running id (· = "review") && f.desk.undecided false then
      (f.desk.edit verdict).toOption.map fun d => (id, "review", verdict.output, d)
    else none
  | .chief id verdict issuesCount reason =>
    if f.running id (· = "chief_review") && f.desk.undecided true then
      (f.desk.chiefDecide verdict issuesCount reason).toOption.map fun d =>
        (id, "chief_review", chiefOutput verdict d, d)
    else none
  | .person id verdict =>
    if f.running id (· = "approve") && verdict ≠ .reject then
      (f.desk.decide verdict).toOption.map fun d => (id, "approve", verdict.output, d)
    else none
  | _ => none

/-- What the engine does at the end of a task. -/
def Floor.reacts (f : Floor) (move : Move) : Option Reaction :=
  (f.ends move).map fun (id, name, output, _) =>
    reaction t (setJob id .succeeded f.jobs) name output

def Floor.step (rules : WordRules) (f : Floor) (move : Move) : Option Floor :=
  match f.ends move with
  | some (id, name, output, d) =>
    some ⟨onTaskFinished t id name output (setJob id .succeeded f.jobs), d⟩
  | none => match move with
    | .take id s =>
      if f.running id (fun _ => true) && s.active then some { f with jobs := setJob id s f.jobs }
      else none
    | .prepare act =>
      if act.prepares then some { f with desk := f.desk.run rules act } else none
    | .person id .reject =>
      -- the approval's task fails, and what waits for it is cancelled
      if f.running id (· = "approve") then
        (f.desk.decide .reject).toOption.map fun d =>
          ⟨cancelWaiting id (setJob id .failed f.jobs), d⟩
      else none
    | _ => none

end

/-- A story in production that has no article yet. -/
def storyRun (rules : WordRules) : System Floor Move where
  init f := f.jobs = instantiate storyTemplate.toTemplateSpec ∧ f.desk.article = none
  step f move f' := f.step storyTemplate.toTemplateSpec rules move = some f'

/-- A published article that a person wants changed. -/
def revisionRun (rules : WordRules) : System Floor Move where
  init f := f.jobs = instantiate revisionTemplate.toTemplateSpec ∧
    ∃ d reason, Desk.startRevision d .human reason = .ok f.desk
  step f move f' := f.step revisionTemplate.toTemplateSpec rules move = some f'

end Autora.Newsroom
