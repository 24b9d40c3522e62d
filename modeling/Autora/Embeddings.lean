import Autora.Adapters

/-! Embeddings: the adapter, the binding that records its calls, and the evidence that is
captured with them or without. -/

namespace Autora.Models

open Transactions Refusals Untyped

/-- What leaves a part of it other than by returning. -/
inductive EmbedRaised where
  -- an `EmbeddingError`, or an `EmbeddingUnavailable`
  | embedding (unavailable : Bool) (message : Str)
  | value (e : Error)
  | database

structure EmbeddingOutput where
  vectors : List (List Float)
  tokens : Int

structure EmbeddingsProvider where
  name : String
  timeoutS : Str

-- `float(value)`
def toFloat (lib : Library) : Value → Except Error Float
  | .str s => match lib.floatOf s with
    | some x => .ok x
    | none => .error .valueError
  | v => match v.number? with
    | some n => n.toFloat
    | none => .error .typeError

-- `int(value)`
def toInt (lib : Library) : Value → Except Error Int
  | .str s => match lib.intOf s with
    | some n => .ok n
    | none => .error .valueError
  | .bool b => .ok (if b = true then 1 else 0)
  | .int n => .ok n
  | .float x => match lib.truncated x with
    | some n => .ok n
    | none => .error .overflowError
  | _ => .error .typeError

def keyed (row : Value) : Except Error (Value × Value) := do
  let key ← row.get (lit "index") (.int 0)
  pure (key, row)

-- `sorted(data.get("data", []), key=…)`
def rowsOf (lib : Library) (data : Value) : Except Error (List Value) := do
  let rows ← data.get (lit "data") (.list [])
  let rows ← rows.iter
  let rows ← rows.mapM keyed
  let sorted ← Value.sortRows lib.ratioOf rows
  pure (sorted.map (·.2))

def vectorOf (lib : Library) (row : Value) : Except Error (List Float) := do
  let embedding ← row.item (lit "embedding")
  let items ← embedding.iter
  items.mapM (toFloat lib)

def vectorsOf (lib : Library) (data : Value) : Except Error (List (List Float)) := do
  let rows ← rowsOf lib data
  rows.mapM (vectorOf lib)

def tokensOf (lib : Library) (data : Value) : Except Error Int := do
  let usage ← data.get (lit "usage")
  let tokens ← (usage.orElse emptyDict).get (lit "prompt_tokens")
  toInt lib (tokens.orElse (.int 0))

namespace EmbeddingsProvider

variable (lib : Library) (p : EmbeddingsProvider)

def miscounted (vectors texts : Nat) : EmbedRaised :=
  .embedding false (lit p.name ++ lit " returned " ++ lit (toString vectors) ++ lit " vectors for " ++
    lit (toString texts) ++ lit " texts")

-- the body of an answer with status 200
def outputOf (texts : Nat) (data : Value) : Except EmbedRaised EmbeddingOutput :=
  match vectorsOf lib data with
  | .error e => .error (.value e)
  | .ok vectors =>
    if vectors.length ≠ texts then .error (p.miscounted vectors.length texts)
    else match tokensOf lib data with
      | .error e => .error (.value e)
      | .ok tokens => .ok ⟨vectors, tokens⟩

/-- `OpenAICompatibleEmbeddings.embed`. -/
def embed (texts : Nat) : Exchange → Except EmbedRaised EmbeddingOutput
  | .timeout _ => .error (.embedding true
      (lit p.name ++ lit " embeddings did not answer within " ++ p.timeoutS ++ lit "s"))
  | .transportError errorClass _ => .error (.embedding true
      (lit p.name ++ lit " embeddings: " ++ lit errorClass))
  | .decodingError => .error (.embedding true (lit p.name ++ lit " embeddings: DecodingError"))
  | .response r =>
    if r.statusCode ≠ 200 then .error (.embedding (r.statusCode = 429 ∨ 500 ≤ r.statusCode)
      (lit p.name ++ lit " embeddings " ++ lit (toString r.statusCode) ++ lit ": " ++ r.text.take 300))
    else match r.json with
      | .error e => .error (.value e)
      | .ok data => p.outputOf lib texts data

end EmbeddingsProvider

/-! ## The binding -/

/-- A part of a page's text, with its vector if it has one. -/
structure EvidenceChunk where
  seq : Nat
  text : Str
  embedding : Option (List Float)
  embeddingModel : Option Str

/-- A page, as `fetch_url` read it. -/
structure Page where
  url : Str
  finalUrl : Str
  title : Option Str
  contentType : Str
  language : Option Str
  text : Str
  textHash : Str
  retrievedOn : Nat
  truncated : Bool

structure Evidence where
  id : Id
  page : Page
  chunks : List EvidenceChunk

/-- What the caller's transaction has written. -/
structure Session where
  now : Time
  nextId : Id
  calls : List ModelCall
  evidence : List Evidence

structure Embedder where
  provider : EmbeddingsProvider
  modelId : Str
  dim : Nat
  pricePerMtok : Usd
  batchSize : Nat
  batchSize_pos : 0 < batchSize

abbrev EmbedWork := Refusals.Work Session EmbedRaised

-- `quantize` to six places, half to even
def toMicrosEven (q : Usd) : Usd :=
  let n := ⌊q * 1000000⌋
  let rest := q * 1000000 - n
  (if rest < 1 / 2 ∨ (rest = 1 / 2 ∧ n % 2 = 0) then n else n + 1 : Int) / 1000000

def Embedder.cost (e : Embedder) (tokens : Int) : Usd :=
  toMicrosEven (e.pricePerMtok * tokens / 1000000)

/-- What the row's columns hold: counts that are no larger than a BIGINT and not negative,
and a cost that a NUMERIC(18, 6) holds. -/
def Embedder.recordable (e : Embedder) (tokens : Int) : Bool :=
  0 ≤ tokens && tokens ≤ maxBigInt && 0 ≤ e.cost tokens && e.cost tokens < 10 ^ 12

namespace Embedder

variable (lib : Library) (e : Embedder)

/-- `_record`. -/
def record (caller : CallContext) (latencyMs : Nat) (tokens : Int)
    (error : Option (String × Str)) : EmbedWork PUnit := do
  ensure (e.recordable tokens = true ∧ error.all (fun x => storable x.2) = true) .database
  modify fun s => { s with
    nextId := s.nextId + 1
    calls := s.calls ++ [{
      id := s.nextId
      context := caller
      capability := "embedding"
      alias_ := "embed"
      provider := e.provider.name
      modelId := e.modelId
      status := if error.isSome = true then .error else .ok
      stopReason := none
      usage := { inputTokens := tokens.toNat }
      costUsd := e.cost tokens
      latencyMs := latencyMs
      error := error
      createdAt := s.now }] }

def misshapen (dim : Nat) : EmbedRaised :=
  .embedding false (e.modelId ++ lit " returned " ++ lit (toString dim) ++
    lit "-dimensional vectors; storage expects " ++ lit (toString e.dim))

/-- One call of the provider, with the vectors' dimension checked. -/
def output (texts : Nat) (x : Exchange) : Except EmbedRaised EmbeddingOutput :=
  match e.provider.embed lib texts x with
  | .error err => .error err
  | .ok out => match out.vectors.find? fun v => v.length ≠ e.dim with
    | some wrong => .error (e.misshapen wrong.length)
    | none => .ok out

-- the loop over the batches; each call takes some time
def batches (caller : CallContext) (latencyMs : Nat) :
    List (List Str) → List Exchange → EmbedWork (List (List Float))
  | [], _ | _, [] => pure []
  | texts :: rest, x :: exchanges => match e.output lib texts.length x with
    | .ok out => do
      e.record caller latencyMs out.tokens none
      let vectors ← batches caller latencyMs rest exchanges
      pure (out.vectors ++ vectors)
    | .error (.embedding unavailable message) => do
      e.record caller latencyMs 0 (some
        (if unavailable = true then "EmbeddingUnavailable" else "EmbeddingError", message.take 2000))
      raise (.embedding unavailable message)
    | .error err => raise err

/-- `range(0, len(texts), batch_size)`. -/
def split (size : Nat) : Nat → List Str → List (List Str)
  | 0, _ | _, [] => []
  | n + 1, text :: texts =>
    (text :: texts).take size :: split size n ((text :: texts).drop size)

/-- `Embedder.embed`, with what each of its requests meets. -/
def embed (caller : CallContext) (latencyMs : Nat) (texts : List Str) (exchange : Nat → Exchange) :
    EmbedWork (List (List Float)) :=
  let parts := split e.batchSize texts.length texts
  e.batches lib caller latencyMs parts ((List.range parts.length).map exchange)

end Embedder

/-! ## Evidence -/

def Page.texts (page : Page) : List Str :=
  [page.url, page.finalUrl, page.contentType.take 200, page.text] ++ page.title.toList ++
    page.language.toList

def maxEmbedChunks : Nat := 64

def chunkRows (e : Embedder) (chunks : List Str) (vectors : List (List Float)) :
    List EvidenceChunk :=
  chunks.zipIdx.map fun c =>
    { seq := c.2
      text := c.1
      embedding := vectors[c.2]?
      embeddingModel := vectors[c.2]?.map fun _ => e.modelId }

-- the same text from the same address on the same day
def Session.captured? (s : Session) (page : Page) : Option Evidence :=
  s.evidence.find? fun x => x.page.url = page.url && x.page.textHash = page.textHash &&
    x.page.retrievedOn = page.retrievedOn

/-- `capture_text`, of a page whose text `chunk_text` splits so; and whether the evidence
was there. -/
def captureText (lib : Library) (e : Embedder) (caller : CallContext) (latencyMs : Nat)
    (page : Page) (chunks : List Str) (exchange : Nat → Exchange) : EmbedWork (Id × Bool) := do
  let s ← get
  match s.captured? page with
  | some found => pure (found.id, true)
  | none => do
    let vectors ← handled (e.embed lib caller latencyMs (chunks.take maxEmbedChunks) exchange) fun
      -- the chunks stay without vectors
      | .embedding .. => pure []
      | err => raise err
    ensure ((page.texts ++ chunks).all storable = true) .database
    ensure ((vectors.take chunks.length).all lib.storesVector = true) .database
    let s ← get
    modify fun s => { s with
      nextId := s.nextId + 1
      evidence := s.evidence ++ [⟨s.nextId, page, chunkRows e chunks vectors⟩] }
    pure (s.nextId, false)

/-! ## Which answers the embeddings can be read from -/

variable {lib : Library} {p : EmbeddingsProvider} {e : Embedder} {caller : CallContext}
  {latencyMs : Nat} {s t : Session}

/-- A row with an embedding whose items `float` takes. -/
def VectorReadable (lib : Library) (row : Value) : Prop :=
  ∃ embedding items, row.item (lit "embedding") = .ok embedding ∧ embedding.iter = .ok items ∧
    ∀ x ∈ items, Succeeds (toFloat lib x)

structure RowsReadable (lib : Library) (data : Value) (rows : List Value) : Prop where
  isDict : data.isDict = true
  listed : (data.field (lit "data") (.list [])).iter = .ok rows
  rowsDicts : ∀ row ∈ rows, row.isDict = true
  sortable : Succeeds (Value.sortRows lib.ratioOf
    (rows.map fun row => (row.field (lit "index") (.int 0), row)))
  vectors : ∀ row ∈ rows, VectorReadable lib row

structure TokensReadable (lib : Library) (data : Value) : Prop where
  isDict : data.isDict = true
  usage : ((data.field (lit "usage")).orElse emptyDict).isDict = true
  tokens : Succeeds (toInt lib
    ((((data.field (lit "usage")).orElse emptyDict).field (lit "prompt_tokens")).orElse (.int 0)))

/-- The rows can be read; and the token count, where there is a row for every text. -/
def EmbeddingReadable (lib : Library) (texts : Nat) (data : Value) : Prop :=
  ∃ rows, RowsReadable lib data rows ∧ (rows.length = texts → TokensReadable lib data)

theorem vectorOf_iff {row : Value} : Succeeds (vectorOf lib row) ↔ VectorReadable lib row := by
  unfold vectorOf VectorReadable
  rw [succeeds_bind]
  constructor
  · rintro ⟨embedding, hitem, hrest⟩
    obtain ⟨items, hiter, hfloats⟩ := succeeds_bind.mp hrest
    exact ⟨embedding, items, hitem, hiter, succeeds_mapM.mp hfloats⟩
  · rintro ⟨embedding, items, hitem, hiter, hfloats⟩
    exact ⟨embedding, hitem, succeeds_bind.mpr ⟨items, hiter, succeeds_mapM.mpr hfloats⟩⟩

theorem mapM_keyed {rows : List Value} (h : ∀ row ∈ rows, row.isDict = true) :
    rows.mapM keyed = .ok (rows.map fun row => (row.field (lit "index") (.int 0), row)) := by
  induction rows with
  | nil => rfl
  | cons row rows ih =>
    have hget := get_ok_iff.mpr
      ⟨h row (List.mem_cons_self ..), (rfl : row.field (lit "index") (.int 0) = _)⟩
    have hrest := ih fun x hx => h x (List.mem_cons_of_mem _ hx)
    simp [List.mapM_cons, keyed, hget, hrest, bind, Except.bind, pure, Except.pure]

theorem keyed_iff {row : Value} : Succeeds (keyed row) ↔ row.isDict = true := by
  simp only [keyed, succeeds_get_bind, succeeds_pure, and_true]

theorem mapM_length {ε α β : Type} {f : α → Except ε β} {xs : List α} {ys : List β}
    (h : xs.mapM f = .ok ys) : ys.length = xs.length := by
  induction xs generalizing ys with
  | nil =>
    cases h
    rfl
  | cons x xs ih =>
    rw [List.mapM_cons] at h
    cases hx : f x with
    | error e =>
      rw [hx] at h
      cases h
    | ok y =>
      rw [hx] at h
      cases hxs : xs.mapM f with
      | error e =>
        simp only [bind, Except.bind, hxs] at h
        cases h
      | ok zs =>
        simp only [bind, Except.bind, hxs, pure, Except.pure, Except.ok.injEq] at h
        rw [← h, List.length_cons, List.length_cons, ih hxs]

/-- One vector for every row, where the rows can be read. -/
theorem vectorsOf_iff {data : Value} {n : Nat} :
    (∃ vectors, vectorsOf lib data = .ok vectors ∧ vectors.length = n) ↔
      ∃ rows, RowsReadable lib data rows ∧ rows.length = n := by
  constructor
  · rintro ⟨vectors, hvectors, rfl⟩
    obtain ⟨sorted, hsorted, hall⟩ := succeeds_bind.mp ⟨vectors, hvectors⟩
    obtain ⟨hdict, hrows⟩ := succeeds_get_bind.mp ⟨sorted, hsorted⟩
    obtain ⟨rows, hiter, hrest⟩ := succeeds_bind.mp hrows
    obtain ⟨pairs, hpairs, hrest⟩ := succeeds_bind.mp hrest
    have hdicts : ∀ row ∈ rows, row.isDict = true := fun row hrow =>
      keyed_iff.mp (succeeds_mapM.mp ⟨pairs, hpairs⟩ row hrow)
    have hkeys := mapM_keyed hdicts
    have hget := get_ok_iff.mpr ⟨hdict, (rfl : data.field (lit "data") (.list []) = _)⟩
    obtain ⟨out, hout⟩ := succeeds_bind_pure.mp hrest
    have hrun : rowsOf lib data = .ok (out.map (·.2)) := by
      simp [rowsOf, hget, hiter, hpairs, hout, bind, Except.bind, pure, Except.pure]
    rw [hkeys, Except.ok.injEq] at hpairs
    rw [← hpairs] at hout
    have hperm : (out.map (·.2)).Perm rows := by
      have hmap := (Value.sortRows_perm _ hout).map Prod.snd
      simpa [Function.comp_def] using hmap
    rw [hrun, Except.ok.injEq] at hsorted
    rw [← hsorted] at hall
    have hlength : vectors.length = rows.length := by
      simp only [vectorsOf, hrun, bind, Except.bind] at hvectors
      rw [mapM_length hvectors, hperm.length_eq]
    refine ⟨rows, ⟨hdict, hiter, hdicts, ⟨out, hout⟩, fun row hrow => ?_⟩, hlength.symm⟩
    exact vectorOf_iff.mp (succeeds_mapM.mp hall row (hperm.mem_iff.mpr hrow))
  · rintro ⟨rows, ⟨hdict, hiter, hdicts, ⟨out, hout⟩, hvectors⟩, rfl⟩
    have hget := get_ok_iff.mpr ⟨hdict, (rfl : data.field (lit "data") (.list []) = _)⟩
    have hrun : rowsOf lib data = .ok (out.map (·.2)) := by
      simp [rowsOf, hget, hiter, mapM_keyed hdicts, hout, bind, Except.bind, pure, Except.pure]
    have hperm : (out.map (·.2)).Perm rows := by
      have hmap := (Value.sortRows_perm _ hout).map Prod.snd
      simpa [Function.comp_def] using hmap
    have hall : Succeeds ((out.map (·.2)).mapM (vectorOf lib)) :=
      succeeds_mapM.mpr fun row hrow => vectorOf_iff.mpr (hvectors row (hperm.mem_iff.mp hrow))
    obtain ⟨vectors, hvectors⟩ := hall
    refine ⟨vectors, ?_, (mapM_length hvectors).trans hperm.length_eq⟩
    simp only [vectorsOf, hrun, bind, Except.bind]
    exact hvectors

theorem tokensOf_iff {data : Value} : Succeeds (tokensOf lib data) ↔ TokensReadable lib data := by
  simp only [tokensOf, succeeds_get_bind]
  exact ⟨fun h => ⟨h.1, h.2.1, h.2.2⟩, fun h => ⟨h.isDict, h.usage, h.tokens⟩⟩

/-- No error of a value leaves the adapter. -/
def Told (x : Except EmbedRaised EmbeddingOutput) : Prop :=
  Succeeds x ∨ ∃ unavailable message, x = .error (.embedding unavailable message)

theorem not_told_value (err : Error) : ¬ Told (.error (.value err)) := by
  rintro (⟨a, h⟩ | ⟨u, m, h⟩) <;> cases h

theorem outputOf_iff {texts : Nat} {data : Value} :
    Told (p.outputOf lib texts data) ↔ EmbeddingReadable lib texts data := by
  unfold EmbeddingsProvider.outputOf EmbeddingReadable
  cases hvectors : vectorsOf lib data with
  | error err =>
    refine iff_of_false (not_told_value err) ?_
    rintro ⟨rows, hrows, -⟩
    obtain ⟨vectors, hok, -⟩ := vectorsOf_iff.mpr ⟨rows, hrows, rfl⟩
    cases hvectors.symm.trans hok
  | ok vectors =>
    obtain ⟨rows, hrows, hlength⟩ := vectorsOf_iff.mp ⟨vectors, hvectors, rfl⟩
    -- the rows are the ones the answer holds
    have hall : (∃ rows, RowsReadable lib data rows ∧
          (rows.length = texts → TokensReadable lib data)) ↔
        (vectors.length = texts → TokensReadable lib data) := by
      rw [← hlength]
      refine ⟨?_, fun h => ⟨rows, hrows, h⟩⟩
      rintro ⟨rows', hrows', h⟩
      cases hrows.listed.symm.trans hrows'.listed
      exact h
    rw [hall]
    by_cases hcount : vectors.length = texts
    · simp only [hcount, ne_eq, not_true_eq_false, if_false, forall_const]
      rw [← tokensOf_iff]
      cases tokensOf lib data with
      | error err => exact iff_of_false (not_told_value err) (not_succeeds_error err)
      | ok tokens => exact iff_of_true (.inl (succeeds_ok _)) (succeeds_ok tokens)
    · simp only [hcount, ne_eq, not_false_eq_true, if_true, false_imp_iff, iff_true]
      exact .inr ⟨_, _, rfl⟩

/-- The request ends without an answer, in another status than 200, or in JSON the vectors can
be read from. -/
def Exchange.EmbedReadable (lib : Library) (texts : Nat) : Exchange → Prop
  | .response r => r.statusCode = 200 → ∃ data, r.json = .ok data ∧ EmbeddingReadable lib texts data
  | _ => True

theorem provider_embed_iff {texts : Nat} {x : Exchange} :
    Told (p.embed lib texts x) ↔ x.EmbedReadable lib texts := by
  cases x with
  | timeout message => exact iff_of_true (.inr ⟨_, _, rfl⟩) trivial
  | transportError errorClass message => exact iff_of_true (.inr ⟨_, _, rfl⟩) trivial
  | decodingError => exact iff_of_true (.inr ⟨_, _, rfl⟩) trivial
  | response r =>
    by_cases hstatus : r.statusCode = 200
    · simp only [EmbeddingsProvider.embed, Exchange.EmbedReadable, hstatus, ne_eq,
        not_true_eq_false, if_false, forall_const]
      cases hjson : r.json with
      | error err => exact iff_of_false (not_told_value err) (by simp)
      | ok data =>
        rw [outputOf_iff]
        simp
    · simp only [EmbeddingsProvider.embed, Exchange.EmbedReadable, hstatus, ne_eq,
        not_false_eq_true, if_true, false_imp_iff, iff_true]
      exact .inr ⟨_, _, rfl⟩

theorem output_iff {texts : Nat} {x : Exchange} :
    Told (e.output lib texts x) ↔ x.EmbedReadable lib texts := by
  rw [← provider_embed_iff (p := e.provider)]
  unfold Embedder.output
  cases hembed : e.provider.embed lib texts x with
  | error err => rfl
  | ok out =>
    refine iff_of_true ?_ (.inl (succeeds_ok out))
    dsimp only
    cases out.vectors.find? fun v => v.length ≠ e.dim with
    | none => exact .inl (succeeds_ok out)
    | some wrong => exact .inr ⟨_, _, rfl⟩

/-! ## Which batches the binding answers for -/

theorem outputOf_length {texts : Nat} {data : Value} {out : EmbeddingOutput}
    (h : p.outputOf lib texts data = .ok out) : out.vectors.length = texts := by
  unfold EmbeddingsProvider.outputOf at h
  cases hvectors : vectorsOf lib data with
  | error err => simp [hvectors] at h
  | ok vectors =>
    by_cases hcount : vectors.length = texts
    · cases htokens : tokensOf lib data with
      | error err => simp [hvectors, hcount, htokens] at h
      | ok tokens =>
        have hout : EmbeddingOutput.mk vectors tokens = out := by
          simpa [hvectors, hcount, htokens] using h
        rw [← hout]
        exact hcount
    · simp [hvectors, hcount] at h

theorem embed_length {texts : Nat} {x : Exchange} {out : EmbeddingOutput}
    (h : p.embed lib texts x = .ok out) : out.vectors.length = texts := by
  cases x with
  | timeout message => cases h
  | transportError errorClass message => cases h
  | decodingError => cases h
  | response r =>
    unfold EmbeddingsProvider.embed at h
    by_cases hstatus : r.statusCode ≠ 200
    · simp [hstatus] at h
    · cases hjson : r.json with
      | error err => simp [hstatus, hjson] at h
      | ok data =>
        have houtput : p.outputOf lib texts data = .ok out := by
          simpa [hstatus, hjson] using h
        exact outputOf_length houtput

theorem output_length {texts : Nat} {x : Exchange} {out : EmbeddingOutput}
    (h : e.output lib texts x = .ok out) : out.vectors.length = texts := by
  unfold Embedder.output at h
  cases hembed : e.provider.embed lib texts x with
  | error err => simp [hembed] at h
  | ok result =>
    cases hfind : result.vectors.find? fun v => v.length ≠ e.dim with
    | some wrong =>
      simp only [hembed, hfind] at h
      cases h
    | none =>
      simp only [hembed, hfind, Except.ok.injEq] at h
      rw [← h]
      exact embed_length hembed

/-- The answer can be read, and the row that says how the call ended can be written. -/
structure BatchReadable (lib : Library) (e : Embedder) (texts : Nat) (x : Exchange) : Prop where
  read : x.EmbedReadable lib texts
  counted : ∀ out, e.output lib texts x = .ok out → e.recordable out.tokens = true
  told : ∀ unavailable message, e.output lib texts x = .error (.embedding unavailable message) →
    storable (message.take 2000) = true

/-- Every batch that is sent: the next one is after one that gave vectors. -/
def BatchesReadable (lib : Library) (e : Embedder) : List (List Str) → List Exchange → Prop
  | texts :: rest, x :: exchanges => BatchReadable lib e texts.length x ∧
      (Succeeds (e.output lib texts.length x) → BatchesReadable lib e rest exchanges)
  | _, _ => True

/-- How many calls are made. -/
def sent (lib : Library) (e : Embedder) : List (List Str) → List Exchange → Nat
  | texts :: rest, x :: exchanges => match e.output lib texts.length x with
    | .ok _ => sent lib e rest exchanges + 1
    | .error _ => 1
  | _, _ => 0

/-- The vectors of all batches, if every one gave some. -/
def given (lib : Library) (e : Embedder) : List (List Str) → List Exchange →
    Option (List (List Float))
  | texts :: rest, x :: exchanges => match e.output lib texts.length x with
    | .ok out => (given lib e rest exchanges).map (out.vectors ++ ·)
    | .error _ => none
  | _, _ => some []

def EmbedEnds (w : EmbedWork (List (List Float))) (s : Session) (made : Nat)
    (vectors : Option (List (List Float))) : Prop :=
  match vectors with
  | some vectors => ∃ t, Returns w s vectors t ∧ t.calls.length = s.calls.length + made
  | none => ∃ unavailable message t, Raises w s (.embedding unavailable message) t ∧
      t.calls.length = s.calls.length + made

theorem recordable_zero : e.recordable 0 = true := by
  simp [Embedder.recordable, Embedder.cost, toMicrosEven]

theorem record_returns {tokens : Int} {error : Option (String × Str)}
    (htokens : e.recordable tokens = true) (herror : error.all (fun x => storable x.2) = true) :
    ∃ t, Returns (e.record caller latencyMs tokens error) s ⟨⟩ t ∧
      t.calls.length = s.calls.length + 1 := by
  refine ⟨_, returns_bind.mpr ⟨⟨⟩, s, returns_ensure.mpr ⟨⟨htokens, herror⟩, rfl⟩,
    returns_modify.mpr rfl⟩, ?_⟩
  simp

theorem record_refuses {tokens : Int} {error : Option (String × Str)} {t : Session} {u : PUnit}
    (h : Returns (e.record caller latencyMs tokens error) s u t) :
    e.recordable tokens = true ∧ error.all (fun x => storable x.2) = true := by
  obtain ⟨_, _, hensure, -⟩ := returns_bind.mp h
  exact (returns_ensure.mp hensure).1

theorem record_raises {tokens : Int} {error : Option (String × Str)} {err : EmbedRaised}
    (h : Raises (e.record caller latencyMs tokens error) s err t) : err = .database := by
  rcases raises_bind.mp h with hensure | ⟨_, _, -, hmodify⟩
  · exact (raises_ensure.mp hensure).2.1
  · exact absurd hmodify raises_modify

theorem batches_ends (parts : List (List Str)) :
    ∀ (exchanges : List Exchange) (s : Session), BatchesReadable lib e parts exchanges →
      EmbedEnds (e.batches lib caller latencyMs parts exchanges) s (sent lib e parts exchanges)
        (given lib e parts exchanges) := by
  induction parts with
  | nil => exact fun exchanges s _ => ⟨s, returns_pure.mpr ⟨rfl, rfl⟩, rfl⟩
  | cons texts rest ih =>
    intro exchanges s h
    cases exchanges with
    | nil => exact ⟨s, returns_pure.mpr ⟨rfl, rfl⟩, rfl⟩
    | cons x exchanges =>
      obtain ⟨⟨hread, hcounted, htold⟩, hrest⟩ := h
      unfold EmbedEnds given sent Embedder.batches
      cases hout : e.output lib texts.length x with
      | ok out =>
        have hrecorded : ∃ t, Returns (e.record caller latencyMs out.tokens none) s ⟨⟩ t ∧
            t.calls.length = s.calls.length + 1 := record_returns (hcounted out hout) rfl
        obtain ⟨t, hrecord, hcalls⟩ := hrecorded
        have hends := ih exchanges t (hrest ⟨out, hout⟩)
        unfold EmbedEnds at hends
        cases hgiven : given lib e rest exchanges with
        | some vectors =>
          rw [hgiven] at hends
          obtain ⟨u, hret, hlater⟩ := hends
          refine ⟨u, returns_bind.mpr ⟨⟨⟩, t, hrecord, returns_bind.mpr
            ⟨vectors, u, hret, returns_pure.mpr ⟨rfl, rfl⟩⟩⟩, ?_⟩
          dsimp only
          omega
        | none =>
          rw [hgiven] at hends
          obtain ⟨unavailable, message, u, hraise, hlater⟩ := hends
          refine ⟨unavailable, message, u, raises_bind.mpr (.inr ⟨⟨⟩, t, hrecord,
            raises_bind.mpr (.inl hraise)⟩), ?_⟩
          dsimp only
          omega
      | error err =>
        rcases output_iff.mpr hread with hok | ⟨unavailable, message, herror⟩
        · rw [hout] at hok
          exact absurd hok (not_succeeds_error err)
        · cases hout.symm.trans herror
          have hrecorded : ∃ t, Returns (e.record caller latencyMs 0 (some
              (if unavailable = true then "EmbeddingUnavailable" else "EmbeddingError",
                message.take 2000))) s ⟨⟩ t ∧ t.calls.length = s.calls.length + 1 :=
            record_returns recordable_zero (htold unavailable message hout)
          obtain ⟨t, hrecord, hcalls⟩ := hrecorded
          exact ⟨unavailable, message, t, raises_bind.mpr (.inr ⟨⟨⟩, t, hrecord,
            raises_raise.mpr ⟨rfl, rfl⟩⟩), hcalls⟩

/-- It ended in vectors, or in an embedding error. -/
def EmbedAnswers (w : EmbedWork (List (List Float))) (s : Session) : Prop :=
  (∃ vectors t, Returns w s vectors t) ∨
    ∃ unavailable message t, Raises w s (.embedding unavailable message) t

theorem batches_readable (parts : List (List Str)) :
    ∀ (exchanges : List Exchange) (s : Session),
      EmbedAnswers (e.batches lib caller latencyMs parts exchanges) s →
      BatchesReadable lib e parts exchanges := by
  induction parts with
  | nil => exact fun exchanges s _ => trivial
  | cons texts rest ih =>
    intro exchanges s h
    cases exchanges with
    | nil => trivial
    | cons x exchanges =>
      unfold EmbedAnswers Embedder.batches at h
      unfold BatchesReadable
      cases hout : e.output lib texts.length x with
      | ok out =>
        rw [hout] at h
        have hread := output_iff.mp (.inl ⟨out, hout⟩)
        have htold : ∀ (unavailable : Bool) (message : Str),
            e.output lib texts.length x = .error (.embedding unavailable message) →
            storable (message.take 2000) = true := by
          intro unavailable message herror
          cases hout.symm.trans herror
        have hcounted : e.recordable out.tokens = true →
            ∀ out', e.output lib texts.length x = .ok out' → e.recordable out'.tokens = true := by
          intro htokens out' hout'
          cases hout.symm.trans hout'
          exact htokens
        rcases h with ⟨vectors, t, hret⟩ | ⟨unavailable, message, t, hraise⟩
        · obtain ⟨_, u, hrecord, hret⟩ := returns_bind.mp hret
          obtain ⟨vectors', v, hret, -⟩ := returns_bind.mp hret
          exact ⟨⟨hread, hcounted (record_refuses hrecord).1, htold⟩,
            fun _ => ih exchanges u (.inl ⟨vectors', v, hret⟩)⟩
        · rcases raises_bind.mp hraise with hrecord | ⟨_, u, hrecord, hraise⟩
          · cases record_raises hrecord
          · rcases raises_bind.mp hraise with hraise | ⟨_, _, -, hpure⟩
            · exact ⟨⟨hread, hcounted (record_refuses hrecord).1, htold⟩,
                fun _ => ih exchanges u (.inr ⟨unavailable, message, t, hraise⟩)⟩
            · exact absurd hpure raises_pure
      | error err =>
        rw [hout] at h
        have hcounted : ∀ out, e.output lib texts.length x = .ok out →
            e.recordable out.tokens = true := by
          intro out hok
          cases hout.symm.trans hok
        refine ⟨?_, fun hok => ?_⟩
        · cases err with
          | value err =>
            rcases h with ⟨vectors, t, hret⟩ | ⟨unavailable, message, t, hraise⟩
            · exact absurd hret returns_raise
            · cases (raises_raise.mp hraise).1
          | database =>
            rcases h with ⟨vectors, t, hret⟩ | ⟨unavailable, message, t, hraise⟩
            · exact absurd hret returns_raise
            · cases (raises_raise.mp hraise).1
          | embedding unavailable message =>
            refine ⟨output_iff.mp (.inr ⟨unavailable, message, hout⟩), hcounted, ?_⟩
            intro unavailable' message' herror
            cases hout.symm.trans herror
            rcases h with ⟨vectors, t, hret⟩ | ⟨unavailable', message', t, hraise⟩
            · obtain ⟨_, _, -, hret⟩ := returns_bind.mp hret
              exact absurd hret returns_raise
            · rcases raises_bind.mp hraise with hrecord | ⟨_, u, hrecord, -⟩
              · cases record_raises hrecord
              · exact (record_refuses hrecord).2
        · exact absurd hok (not_succeeds_error err)

theorem given_length (parts : List (List Str)) :
    ∀ (exchanges : List Exchange) (vectors : List (List Float)),
      parts.length ≤ exchanges.length → given lib e parts exchanges = some vectors →
      vectors.length = (parts.map List.length).sum := by
  induction parts with
  | nil =>
    intro exchanges vectors _ h
    cases h
    rfl
  | cons texts rest ih =>
    intro exchanges vectors hlen h
    cases exchanges with
    | nil => simp at hlen
    | cons x exchanges =>
      unfold given at h
      cases hout : e.output lib texts.length x with
      | error err =>
        rw [hout] at h
        cases h
      | ok out =>
        rw [hout] at h
        obtain ⟨later, hlater, rfl⟩ := Option.map_eq_some_iff.mp h
        have hrest := ih exchanges later (Nat.le_of_succ_le_succ hlen) hlater
        simp [output_length hout, hrest]

/-- The batches of a text, and what each of their requests meets. -/
def Embedder.plan (e : Embedder) (texts : List Str) (exchange : Nat → Exchange) :
    List (List Str) × List Exchange :=
  let parts := Embedder.split e.batchSize texts.length texts
  (parts, (List.range parts.length).map exchange)

theorem split_sum {size : Nat} (hsize : 0 < size) (n : Nat) :
    ∀ texts : List Str, texts.length ≤ n →
      ((Embedder.split size n texts).map List.length).sum = texts.length := by
  induction n with
  | zero =>
    intro texts h
    have hnil := List.length_eq_zero_iff.mp (Nat.le_zero.mp h)
    rw [hnil]
    rfl
  | succ n ih =>
    intro texts h
    cases texts with
    | nil => rfl
    | cons text texts =>
      have hdrop : ((text :: texts).drop size).length ≤ n := by
        rw [List.length_drop]
        omega
      have hrest := ih _ hdrop
      rw [List.length_drop] at hrest
      simp only [Embedder.split, List.map_cons, List.sum_cons, hrest, List.length_take]
      omega

theorem plan_given {texts : List Str} {exchange : Nat → Exchange} {vectors : List (List Float)}
    (h : given lib e (e.plan texts exchange).1 (e.plan texts exchange).2 = some vectors) :
    vectors.length = texts.length := by
  have hlength : (e.plan texts exchange).1.length ≤ (e.plan texts exchange).2.length := by
    simp [Embedder.plan]
  rw [given_length _ _ vectors hlength h]
  exact split_sum e.batchSize_pos texts.length texts le_rfl

/-- It gave one vector for every text or an embedding error, and a row for every call. -/
def EmbedGives (lib : Library) (e : Embedder) (caller : CallContext) (latencyMs : Nat)
    (texts : List Str) (exchange : Nat → Exchange) (s : Session) : Prop :=
  let made := sent lib e (e.plan texts exchange).1 (e.plan texts exchange).2
  (∃ vectors t, Returns (e.embed lib caller latencyMs texts exchange) s vectors t ∧
    vectors.length = texts.length ∧ t.calls.length = s.calls.length + made) ∨
  ∃ unavailable message t,
    Raises (e.embed lib caller latencyMs texts exchange) s (.embedding unavailable message) t ∧
      t.calls.length = s.calls.length + made

def EmbedReadable (lib : Library) (e : Embedder) (texts : List Str) (exchange : Nat → Exchange) :
    Prop :=
  BatchesReadable lib e (e.plan texts exchange).1 (e.plan texts exchange).2

theorem embed_iff {texts : List Str} {exchange : Nat → Exchange} :
    EmbedGives lib e caller latencyMs texts exchange s ↔ EmbedReadable lib e texts exchange := by
  constructor
  · intro h
    have hanswers : EmbedAnswers (e.embed lib caller latencyMs texts exchange) s := by
      rcases h with ⟨vectors, t, hret, -, -⟩ | ⟨unavailable, message, t, hraise, -⟩
      · exact .inl ⟨vectors, t, hret⟩
      · exact .inr ⟨unavailable, message, t, hraise⟩
    exact batches_readable _ _ s hanswers
  · intro h
    have hends : EmbedEnds (e.embed lib caller latencyMs texts exchange) s
        (sent lib e (e.plan texts exchange).1 (e.plan texts exchange).2)
        (given lib e (e.plan texts exchange).1 (e.plan texts exchange).2) :=
      batches_ends _ _ s h
    unfold EmbedEnds at hends
    cases hgiven : given lib e (e.plan texts exchange).1 (e.plan texts exchange).2 with
    | some vectors =>
      rw [hgiven] at hends
      obtain ⟨t, hret, hcalls⟩ := hends
      exact .inl ⟨vectors, t, hret, plan_given hgiven, hcalls⟩
    | none =>
      rw [hgiven] at hends
      exact .inr hends

/-! ## Evidence, with vectors or without -/

variable {page : Page} {chunks : List Str} {exchange : Nat → Exchange}

/-- The page's evidence is there, with all of its text. -/
def Captures (lib : Library) (e : Embedder) (caller : CallContext) (latencyMs : Nat) (page : Page)
    (chunks : List Str) (exchange : Nat → Exchange) (s : Session) : Prop :=
  ∃ id reused t, Returns (captureText lib e caller latencyMs page chunks exchange) s (id, reused) t ∧
    ∃ x ∈ t.evidence, x.id = id ∧ x.page.url = page.url ∧ x.page.textHash = page.textHash ∧
      (reused = false → x.chunks.map EvidenceChunk.text = chunks)

/-- The service's answers can be read, and the column takes the vectors it gave. -/
structure ServiceReadable (lib : Library) (e : Embedder) (chunks : List Str)
    (exchange : Nat → Exchange) : Prop where
  read : EmbedReadable lib e (chunks.take maxEmbedChunks) exchange
  stored : ∀ vectors, given lib e (e.plan (chunks.take maxEmbedChunks) exchange).1
    (e.plan (chunks.take maxEmbedChunks) exchange).2 = some vectors →
      (vectors.take chunks.length).all lib.storesVector = true

theorem chunkRows_text {vectors : List (List Float)} :
    (chunkRows e chunks vectors).map EvidenceChunk.text = chunks := by
  unfold chunkRows
  rw [List.map_map]
  exact List.zipIdx_map_fst 0 chunks

-- the vectors that `captureText` goes on with
def vectorsFor (lib : Library) (e : Embedder) (caller : CallContext) (latencyMs : Nat)
    (chunks : List Str) (exchange : Nat → Exchange) : EmbedWork (List (List Float)) :=
  handled (e.embed lib caller latencyMs (chunks.take maxEmbedChunks) exchange) fun
    | .embedding .. => pure []
    | err => raise err

theorem vectorsFor_readable {vectors : List (List Float)}
    (h : Returns (vectorsFor lib e caller latencyMs chunks exchange) s vectors t) :
    EmbedReadable lib e (chunks.take maxEmbedChunks) exchange ∧
      vectors = (given lib e (e.plan (chunks.take maxEmbedChunks) exchange).1
        (e.plan (chunks.take maxEmbedChunks) exchange).2).getD [] := by
  have hanswers : EmbedAnswers (e.embed lib caller latencyMs (chunks.take maxEmbedChunks)
      exchange) s := by
    rcases returns_handled.mp h with hret | ⟨err, u, hraise, hret⟩
    · exact .inl ⟨vectors, t, hret⟩
    · cases err with
      | embedding unavailable message => exact .inr ⟨unavailable, message, u, hraise⟩
      | value err => exact absurd hret returns_raise
      | database => exact absurd hret returns_raise
  have hread : EmbedReadable lib e (chunks.take maxEmbedChunks) exchange :=
    batches_readable _ _ s hanswers
  refine ⟨hread, ?_⟩
  have hends : EmbedEnds (e.embed lib caller latencyMs (chunks.take maxEmbedChunks) exchange) s
      (sent lib e (e.plan (chunks.take maxEmbedChunks) exchange).1
        (e.plan (chunks.take maxEmbedChunks) exchange).2)
      (given lib e (e.plan (chunks.take maxEmbedChunks) exchange).1
        (e.plan (chunks.take maxEmbedChunks) exchange).2) := batches_ends _ _ s hread
  unfold EmbedEnds at hends
  cases hgiven : given lib e (e.plan (chunks.take maxEmbedChunks) exchange).1
      (e.plan (chunks.take maxEmbedChunks) exchange).2 with
  | some vectors' =>
    rw [hgiven] at hends
    obtain ⟨u, hret', -⟩ := hends
    rcases returns_handled.mp h with hret | ⟨err, v, hraise, -⟩
    · unfold Returns at hret
      have hsame := hret'.symm.trans hret
      cases hsame
      rfl
    · exact absurd hret' (not_returns_of_raises hraise)
  | none =>
    rw [hgiven] at hends
    obtain ⟨unavailable, message, u, hraise, -⟩ := hends
    rcases returns_handled.mp h with hret | ⟨err, v, hraise', hret⟩
    · exact absurd hret (not_returns_of_raises hraise)
    · obtain ⟨rfl, rfl⟩ := raises_unique hraise hraise'
      obtain ⟨rfl, -⟩ := returns_pure.mp hret
      rfl

theorem vectorsFor_returns (h : EmbedReadable lib e (chunks.take maxEmbedChunks) exchange) :
    ∃ t, Returns (vectorsFor lib e caller latencyMs chunks exchange) s
      ((given lib e (e.plan (chunks.take maxEmbedChunks) exchange).1
        (e.plan (chunks.take maxEmbedChunks) exchange).2).getD []) t := by
  have hends : EmbedEnds (e.embed lib caller latencyMs (chunks.take maxEmbedChunks) exchange) s
      (sent lib e (e.plan (chunks.take maxEmbedChunks) exchange).1
        (e.plan (chunks.take maxEmbedChunks) exchange).2)
      (given lib e (e.plan (chunks.take maxEmbedChunks) exchange).1
        (e.plan (chunks.take maxEmbedChunks) exchange).2) := batches_ends _ _ s h
  unfold EmbedEnds at hends
  cases hgiven : given lib e (e.plan (chunks.take maxEmbedChunks) exchange).1
      (e.plan (chunks.take maxEmbedChunks) exchange).2 with
  | some vectors =>
    rw [hgiven] at hends
    obtain ⟨t, hret, -⟩ := hends
    exact ⟨t, returns_handled.mpr (.inl hret)⟩
  | none =>
    rw [hgiven] at hends
    obtain ⟨unavailable, message, t, hraise, -⟩ := hends
    exact ⟨t, returns_handled.mpr (.inr ⟨_, t, hraise, returns_pure.mpr ⟨rfl, rfl⟩⟩)⟩

theorem captureText_iff :
    Captures lib e caller latencyMs page chunks exchange s ↔
      ((s.captured? page).isSome = true ∨
        (page.texts ++ chunks).all storable = true ∧ ServiceReadable lib e chunks exchange) := by
  unfold Captures captureText
  cases hfound : s.captured? page with
  | some found =>
    refine iff_of_true ?_ (.inl rfl)
    have hmem := List.mem_of_find?_eq_some hfound
    have hsame := List.find?_some hfound
    simp only [Bool.and_eq_true, decide_eq_true_eq] at hsame
    refine ⟨found.id, true, s, returns_bind.mpr ⟨s, s, returns_get.mpr ⟨rfl, rfl⟩, ?_⟩, found, hmem,
      rfl, hsame.1.1, hsame.1.2, by nofun⟩
    rw [hfound]
    exact returns_pure.mpr ⟨rfl, rfl⟩
  | none =>
    simp only [Option.isSome_none, Bool.false_eq_true, false_or]
    constructor
    · rintro ⟨id, reused, t, hrun, -⟩
      obtain ⟨_, _, hget, hembed⟩ := returns_bind.mp hrun
      obtain ⟨rfl, rfl⟩ := returns_get.mp hget
      rw [hfound] at hembed
      obtain ⟨vectors, u, hvectors, hinsert⟩ := returns_bind.mp hembed
      obtain ⟨_, _, hensure, hchunks⟩ := returns_bind.mp hinsert
      obtain ⟨hpage, -⟩ := returns_ensure.mp hensure
      obtain ⟨_, _, hensure', -⟩ := returns_bind.mp hchunks
      obtain ⟨hstored, -⟩ := returns_ensure.mp hensure'
      obtain ⟨hread, hgiven⟩ := vectorsFor_readable hvectors
      refine ⟨hpage, hread, fun given hsome => ?_⟩
      rw [hgiven, hsome] at hstored
      exact hstored
    · rintro ⟨hpage, hread, hstored⟩
      have hreturns : ∃ u, Returns (vectorsFor lib e caller latencyMs chunks exchange) s
          ((given lib e (e.plan (chunks.take maxEmbedChunks) exchange).1
            (e.plan (chunks.take maxEmbedChunks) exchange).2).getD []) u :=
        vectorsFor_returns hread
      obtain ⟨u, hvectors⟩ := hreturns
      have hfits : ((((given lib e (e.plan (chunks.take maxEmbedChunks) exchange).1
          (e.plan (chunks.take maxEmbedChunks) exchange).2).getD []).take chunks.length).all
            lib.storesVector) = true := by
        cases hgiven : given lib e (e.plan (chunks.take maxEmbedChunks) exchange).1
            (e.plan (chunks.take maxEmbedChunks) exchange).2 with
        | some vectors => exact hstored vectors hgiven
        | none => simp
      generalize (given lib e (e.plan (chunks.take maxEmbedChunks) exchange).1
        (e.plan (chunks.take maxEmbedChunks) exchange).2).getD [] = vectors at hvectors hfits
      have hmem : (⟨u.nextId, page, chunkRows e chunks vectors⟩ : Evidence) ∈
          u.evidence ++ [⟨u.nextId, page, chunkRows e chunks vectors⟩] := by simp
      refine ⟨u.nextId, false, { u with
          nextId := u.nextId + 1
          evidence := u.evidence ++ [⟨u.nextId, page, chunkRows e chunks vectors⟩] },
        returns_bind.mpr ⟨s, s, returns_get.mpr ⟨rfl, rfl⟩, ?_⟩,
        ⟨u.nextId, page, chunkRows e chunks vectors⟩, hmem, rfl, rfl, rfl,
        fun _ => chunkRows_text⟩
      rw [hfound]
      refine returns_bind.mpr ⟨vectors, u, hvectors, ?_⟩
      refine returns_bind.mpr ⟨⟨⟩, u, returns_ensure.mpr ⟨hpage, rfl⟩, ?_⟩
      refine returns_bind.mpr ⟨⟨⟩, u, returns_ensure.mpr ⟨hfits, rfl⟩, ?_⟩
      refine returns_bind.mpr ⟨u, u, returns_get.mpr ⟨rfl, rfl⟩, ?_⟩
      exact returns_bind.mpr ⟨⟨⟩, _, returns_modify.mpr rfl, returns_pure.mpr ⟨rfl, rfl⟩⟩

/-! ## The gateway -/

-- what the gateway sees of the adapter
def answerOf : Except Failure ProviderResponse → Answer
  | .ok r => .reply r
  | .error (.provider e) => .fails e
  | .error (.value _) => .raises "Exception"
  | .error .decodingError => .raises "DecodingError"

/-- What the columns of `model_calls` hold. -/
def Recordable (g : ModelGateway) (binding : ModelBinding) : Answer → Prop
  | .reply r => payable (g.replyCost binding r) = true ∧ r.recordable binding = true
  | .fails e => e.recordable binding = true
  | .raises _ | .cancelled => True

/-- The call is recorded; and the gateway goes on with its reply, or with its error. -/
def CallRecorded (g : ModelGateway) (request : ModelRequest) (alias_ : String)
    (binding : ModelBinding) (a : Attempt) (m : Meter) : Prop :=
  ∃ x u, Returns (g.attempt request alias_ binding a) m x u ∧ u.calls.length = m.calls.length + 1 ∧
    ∀ err, x = .error err → a.answer = .fails err

section Gateway

variable {g : ModelGateway} {request : ModelRequest} {alias_ : String} {binding : ModelBinding}
  {a : Attempt} {m : Meter}

theorem answered_of_attempt {x : Except ProviderError ModelResponse} {u : Meter}
    (h : Returns (g.attempt request alias_ binding a) m x u) :
    ∃ reservation v, Returns (g.answered request alias_ binding a reservation) v x u := by
  obtain ⟨_, _, -, hrest⟩ := returns_bind.mp h
  obtain ⟨reservation, v, -, hanswered⟩ := returns_bind.mp hrest
  exact ⟨reservation, v, hanswered⟩

/-- An undisturbed candidate that is reserved for is recorded exactly when the adapter gives
its reply or its own error, and the columns hold what it gives. -/
theorem recorded_iff {result : Except Failure ProviderResponse}
    (hanswer : a.answer = answerOf result) (hreserving : a.reserving = .none)
    (hclosing : a.closing = .none)
    (hlimit : firstExceeded g.costGuard { m with now := a.at_ } request
      (estimateCost request binding) = none) :
    CallRecorded g request alias_ binding a m ↔
      Answers result ∧ Recordable g binding (answerOf result) := by
  have hbroken : a.broken g binding ↔
      ¬ (Answers result ∧ Recordable g binding (answerOf result)) := by
    unfold Attempt.broken
    rw [hanswer]
    cases result with
    | ok r =>
      have hok : Answers (.ok r : Except Failure ProviderResponse) := answers_ok r
      simp only [answerOf, Recordable, hok, true_and, hclosing, reduceCtorEq, or_false,
        not_and_or, Bool.not_eq_true]
    | error failure =>
      cases failure with
      | provider e =>
        have hok : Answers (.error (.provider e) : Except Failure ProviderResponse) :=
          answers_provider e
        simp only [answerOf, Recordable, hok, true_and, hclosing, reduceCtorEq, or_false,
          Bool.not_eq_true]
      | value e => exact iff_of_true trivial fun h => not_answers_value e h.1
      | decodingError =>
        refine iff_of_true trivial ?_
        rintro ⟨⟨x, h⟩ | ⟨e, h⟩, -⟩ <;> cases h
  rw [← not_iff_not, ← hbroken]
  obtain ⟨reservation, s, hreserve, hres⟩ := reserve_reserved hlimit
  have hcut : Returns (cut a.reserving (reserve g.costGuard request binding)) { m with now := a.at_ }
      reservation s := by
    rw [hreserving]
    exact hreserve
  have hcalls : s.calls = m.calls := by
    by_cases hzero : estimateCost request binding = 0
    · rw [(hres.free hzero).2]
    · rw [(hres.held hzero).2]
      rfl
  constructor
  · intro hnot
    by_contra hfine
    apply hnot
    cases ha : a.answer with
    | cancelled => exact absurd (by simp [Attempt.broken, ha]) hfine
    | raises errorClass => exact absurd (by simp [Attempt.broken, ha]) hfine
    | fails err =>
      have hrow : err.recordable binding = true := by
        simpa [Attempt.broken, ha, hclosing] using hfine
      have hnot : a.closing ≠ .beforeCommit := by simp [hclosing]
      have hends := @answered_fails g request binding a s alias_ reservation err ha hrow hnot
      rcases hends with ⟨-, hret⟩ | ⟨hafter, -⟩
      · refine ⟨_, _, attempt_answered m hcut hret, ?_, ?_⟩
        · cases reservation <;>
            simp [Meter.released, Meter.setReservation, Meter.called, hcalls]
        · rintro err' herr
          cases herr
          exact ha
      · cases hclosing.symm.trans hafter
    | reply r =>
      have hrow : payable (g.replyCost binding r) = true ∧ r.recordable binding = true := by
        simpa [Attempt.broken, ha, hclosing, not_or] using hfine
      have hclose : Returns (ModelGateway.closeOk request alias_ binding reservation a.latencyMs
          (g.replyCost binding r) r) s s.nextId ((s.called (okCall s request alias_ binding
            a.latencyMs (g.replyCost binding r) r)).settled reservation (g.replyCost binding r)
              s.nextId) := closeOk_ok hrow.2
      have hret : Returns (g.answered request alias_ binding a reservation) s
          (.ok (ModelGateway.responseOf request alias_ binding a.latencyMs
            (g.replyCost binding r) r s.nextId))
          ((s.called (okCall s request alias_ binding a.latencyMs (g.replyCost binding r)
            r)).settled reservation (g.replyCost binding r) s.nextId) := by
        unfold ModelGateway.answered
        rw [ha]
        refine returns_bind.mpr ⟨⟨⟩, s, returns_ensure.mpr ⟨hrow.1, rfl⟩, ?_⟩
        refine returns_bind.mpr ⟨s.nextId, _, ?_, returns_pure.mpr ⟨rfl, rfl⟩⟩
        rw [hclosing]
        exact hclose
      refine ⟨_, _, attempt_answered m hcut hret, ?_, fun err herr => by cases herr⟩
      cases reservation <;> simp [Meter.settled, Meter.setReservation, Meter.called, hcalls]
  · rintro hbroke ⟨x, u, hret, -, -⟩
    obtain ⟨reservation', v, hanswered⟩ := answered_of_attempt hret
    have hraises : ∃ err, Raises (g.answered request alias_ binding a reservation') v err v :=
      answered_broken hbroke
    obtain ⟨err, hraise⟩ := hraises
    exact absurd hanswered (not_returns_of_raises hraise)

end Gateway

/-- What a model service answers is a reply, vectors, or a failure of the service, the calls
are recorded and the evidence is kept, exactly where each answer can be read. -/
theorem answers_read (lib : Library) :
    (∀ (p : Provider) (binding : ModelBinding) (exchange : Nat → Exchange),
      Answers (p.complete lib binding exchange) ↔
        ∀ x ∈ met exchange p.maxRetries 0, x.Readable (ResponseReadable lib binding)) ∧
    (∀ (e : Embedder) caller latencyMs texts exchange s,
      EmbedGives lib e caller latencyMs texts exchange s ↔ EmbedReadable lib e texts exchange) ∧
    (∀ (g : ModelGateway) request alias_ (p : Provider) binding exchange (a : Attempt) m,
      a.answer = answerOf (p.complete lib binding exchange) → a.reserving = .none →
      a.closing = .none → firstExceeded g.costGuard { m with now := a.at_ } request
        (estimateCost request binding) = none →
      (CallRecorded g request alias_ binding a m ↔
        (∀ x ∈ met exchange p.maxRetries 0, x.Readable (ResponseReadable lib binding)) ∧
          Recordable g binding (answerOf (p.complete lib binding exchange)))) ∧
    ∀ (e : Embedder) caller latencyMs page chunks exchange s,
      Captures lib e caller latencyMs page chunks exchange s ↔
        ((s.captured? page).isSome = true ∨
          (page.texts ++ chunks).all storable = true ∧ ServiceReadable lib e chunks exchange) := by
  refine ⟨complete_iff lib, fun e caller latencyMs texts exchange s => embed_iff,
    fun g request alias_ p binding exchange a m hanswer hreserving hclosing hlimit => ?_,
    fun e caller latencyMs page chunks exchange s => captureText_iff⟩
  rw [← complete_iff lib p binding exchange]
  exact recorded_iff hanswer hreserving hclosing hlimit

-- what a library makes of ASCII texts and whole numbers
def plainLibrary : Library where
  loads := fun _ => .error .valueError
  toStr := fun | .str s => s | _ => []
  takesStr := fun _ => true
  wholeNumber := fun _ => none
  floatOf := fun _ => none
  intOf := fun _ => none
  truncated := fun _ => none
  ratioOf := fun _ => none
  newCallId := fun n => lit "call_" ++ lit (toString n)
  storesVector := fun _ => true

def soloProvider : Provider where
  name := "main"
  timeoutS := lit "60"
  maxRetries := 0

def answered (data : Value) : Exchange := .response ⟨200, .ok data, lit "\x7b...\x7d"⟩

def soloAttempt (data : Value) : Attempt :=
  ⟨0, .none, answerOf (soloProvider.complete plainLibrary soloBinding fun _ => answered data), 0,
    .none⟩

def goodReply : Value :=
  .dict [(lit "choices", .list [.dict [(lit "message", .dict [(lit "content", .str (lit "ok"))])]])]

theorem goodReply_completes :
    soloProvider.complete plainLibrary soloBinding (fun _ => answered goodReply) =
      .ok ⟨[.text (lit "ok")], .other, {}, lit "m"⟩ := by
  rfl

theorem goodReply_readable : ResponseReadable plainLibrary soloBinding goodReply := by
  refine responseOf_iff (p := soloProvider).mp ?_
  have h : responseOf plainLibrary soloProvider soloBinding goodReply =
      .ok ⟨[.text (lit "ok")], .other, {}, lit "m"⟩ := rfl
  rw [h]
  exact answers_ok _

-- a proper reply is recorded
theorem answers_read_reply :
    CallRecorded soloGateway soloRequest "writer" soloBinding (soloAttempt goodReply)
      emptyMeter := by
  refine ((answers_read plainLibrary).2.2.1 soloGateway soloRequest "writer" soloProvider
    soloBinding (fun _ => answered goodReply) (soloAttempt goodReply) emptyMeter rfl rfl rfl
    rfl).mpr ⟨?_, ?_⟩
  · intro x hx
    rw [List.mem_singleton.mp hx]
    exact ⟨goodReply, rfl, goodReply_readable⟩
  · rw [goodReply_completes]
    refine ⟨?_, rfl⟩
    norm_num [payable, ModelGateway.replyCost, ModelRouter.priceFor, soloGateway, soloBinding,
      Price.cost, toMicros]

/-- A choice that is no object: the adapter's walk over it raises an `AttributeError`, and
the call is not recorded. -/
theorem answer_not_read :
    ¬ Answers (soloProvider.complete plainLibrary soloBinding fun _ =>
      answered (.dict [(lit "choices", .list [.str (lit "x")])])) ∧
    ¬ CallRecorded soloGateway soloRequest "writer" soloBinding
      (soloAttempt (.dict [(lit "choices", .list [.str (lit "x")])])) emptyMeter := by
  have hraised : soloProvider.complete plainLibrary soloBinding (fun _ =>
      answered (.dict [(lit "choices", .list [.str (lit "x")])])) =
        .error (.value .attributeError) := rfl
  have hnot : ¬ Answers (soloProvider.complete plainLibrary soloBinding fun _ =>
      answered (.dict [(lit "choices", .list [.str (lit "x")])])) := by
    rw [hraised]
    exact not_answers_value _
  refine ⟨hnot, fun h => hnot ?_⟩
  let attempt := soloAttempt (.dict [(lit "choices", .list [.str (lit "x")])])
  have hanswer : attempt.answer = answerOf (soloProvider.complete plainLibrary soloBinding fun _ =>
      answered (.dict [(lit "choices", .list [.str (lit "x")])])) := rfl
  have hrecorded := @recorded_iff soloGateway soloRequest "writer" soloBinding attempt emptyMeter _
    hanswer rfl rfl rfl
  exact (hrecorded.mp h).1

end Autora.Models
