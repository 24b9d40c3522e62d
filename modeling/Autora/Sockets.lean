import Autora.Gateway

/-! What a socket is sent, over every run of the gateway. -/

namespace Autora.Realtime

open Logs Systems

variable {cfg : EventHub.Config} {log new : List EventRecord} {c c' : Connection} {d : Bool}
variable {a b : Nat}

abbrev headOf (log : List EventRecord) : Nat := Logs.head EventRecord.seq log

/-- The readable seqs of a window. -/
def readableTo (log : List EventRecord) (a b : Nat) : List Nat :=
  ((window EventRecord.seq log a b).filter EventRecord.valid).map EventRecord.seq

theorem readableTo_append (h : b ≤ headOf log) (hnew : ∀ x ∈ new, headOf log < x.seq) :
    readableTo (log ++ new) a b = readableTo log a b := by
  unfold readableTo
  rw [window_append fun x hx => Nat.lt_of_le_of_lt h (hnew x hx)]

theorem readableTo_prefix (h : Ascending EventRecord.seq log) :
    readableTo log a b <+: readable log a :=
  (( window_prefix h).filter _).map _

theorem readableTo_split {m : Nat} (h : Ascending EventRecord.seq log) (ham : a ≤ m) (hmb : m ≤ b) :
    readableTo log a b = readableTo log a m ++ readableTo log m b := by
  unfold readableTo
  rw [window_split h ham hmb, List.filter_append, List.map_append]

theorem readableTo_self : readableTo log a a = [] := by
  have hnone : window EventRecord.seq log a a = [] := by
    refine List.filter_eq_nil_iff.mpr fun x _ => ?_
    simp only [Bool.and_eq_true, decide_eq_true_eq, not_and]
    omega
  rw [readableTo, hnone]
  rfl

theorem readable_append : readable log a <+: readable (log ++ new) a := by
  unfold readable
  rw [after_append, List.filter_append, List.map_append]
  exact List.prefix_append _ _

/-- With nothing readable in between, the next seq is all there is. -/
theorem readableTo_next {row : EventRecord} (h : Ascending EventRecord.seq log)
    (hrow : row ∈ log) (hv : row.valid = true) (ha : a < row.seq)
    (hnone : ∀ x ∈ log, x.valid = true → a < x.seq → row.seq ≤ x.seq) :
    readableTo log a row.seq = [row.seq] := by
  have hone : (window EventRecord.seq log a row.seq).filter EventRecord.valid = [row] := by
    have hmem : row ∈ (window EventRecord.seq log a row.seq).filter EventRecord.valid :=
      List.mem_filter.mpr ⟨mem_window.mpr ⟨hrow, ha, Nat.le_refl _⟩, hv⟩
    have hasc : ((window EventRecord.seq log a row.seq).filter EventRecord.valid).Pairwise
        fun x y => x.seq < y.seq := (List.Pairwise.filter _ h).filter _
    have hall : ∀ x ∈ (window EventRecord.seq log a row.seq).filter EventRecord.valid,
        x.seq = row.seq := by
      intro x hx
      obtain ⟨hx, hxv⟩ := List.mem_filter.mp hx
      obtain ⟨hxl, hax, hxr⟩ := mem_window.mp hx
      exact Nat.le_antisymm hxr (hnone x hxl hxv hax)
    generalize (window EventRecord.seq log a row.seq).filter EventRecord.valid = l at *
    match l, hmem, hasc, hall with
    | [x], hmem, _, _ => rw [List.mem_singleton.mp hmem]
    | x :: y :: l, _, hasc, hall =>
      have hlt := (List.pairwise_cons.mp hasc).1 y List.mem_cons_self
      have hx := hall x List.mem_cons_self
      have hy := hall y (List.mem_cons_of_mem _ List.mem_cons_self)
      omega
  rw [readableTo, hone]
  rfl

/-! One connection. -/

def Connection.pending (c : Connection) : List Nat := c.queue.flatMap Queued.seqs

/-- The socket has been sent what is readable from its `since` up to where it stands. -/
def Connection.Delivered (log : List EventRecord) (c : Connection) : Prop :=
  match c.await with
  | .paging | .sendingPage _ _ | .endingBacklog | .getting =>
    c.start ≤ c.lastSentSeq ∧ c.durable = readableTo log c.start c.lastSentSeq
  | .sending m =>
    c.start ≤ c.lastSentSeq ∧ c.durable ++ m.seqs = readableTo log c.start c.lastSentSeq
  | .finished => c.durable <+: readable log c.start
  | _ => c.durable = []

/-- What has been read and is still to be used. -/
def Connection.Checked (log : List EventRecord) (c : Connection) : Prop :=
  match c.await with
  | .counting h | .greeting h none => sinceProblem c.since h = none ∧ h ≤ headOf log
  | .sendingPage rows last => rows = window EventRecord.seq log c.lastSentSeq last ∧
      c.lastSentSeq ≤ last ∧ last ≤ headOf log
  | _ => True

structure Connection.Sound (log : List EventRecord) (c : Connection) : Prop where
  sent_le : c.lastSentSeq ≤ headOf log
  pending : ∀ q ∈ c.pending, ∃ row ∈ log, row.valid = true ∧ row.seq = q
  delivered : c.Delivered log
  checked : c.Checked log
  closing : c.closing ≠ none → c.await = .finished ∨
    (∃ r, c.await = .sending (.snapshotRequired r) ∧ c.queue = []) ∨
    ∃ r, c.queue = [.snapshotRequired r]
  ended : (c.await ≠ .finished → ∀ m ∈ c.wire, m.isSnapshot = false) ∧
    ∀ m ∈ c.wire.dropLast, m.isSnapshot = false
  opened : c.opened = false → c.await ≠ .getting ∧ ∀ m, c.await ≠ .sending m

/-- How far a connection must have come to need nothing before `r` from its queue. -/
def Connection.Covers (cfg : EventHub.Config) (log : List EventRecord) (c : Connection)
    (r : Nat) : Prop :=
  match c.await with
  | .heading | .paging => r ≤ headOf log
  | .counting h | .greeting h _ => r ≤ h
  | .sendingPage rows last => r ≤ headOf log ∧ (rows.length < cfg.batchSize → r ≤ last)
  | .endingBacklog | .getting | .sending _ => r ≤ c.lastSentSeq
  | _ => True

/-- The queue of a connection goes on where its backlog ends, up to `b`. -/
def Connection.Fed (cfg : EventHub.Config) (log : List EventRecord) (b : Nat) (c : Connection) :
    Prop :=
  c.closing = none → ∃ r, Follows EventRecord.seq EventRecord.valid log r c.pending b ∧
    c.Covers cfg log r

def Await.isTracked : Await → Bool
  | .locking | .tracking | .finished => false
  | _ => true

/-! Commits. -/

theorem Connection.Sound.commit (h : c.Sound log) (hnew : ∀ x ∈ new, headOf log < x.seq) :
    c.Sound (log ++ new) := by
  have hle : headOf log ≤ headOf (log ++ new) := head_le_append
  refine ⟨Nat.le_trans h.sent_le hle, ?_, ?_, ?_, h.closing, h.ended, h.opened⟩
  · intro q hq
    obtain ⟨row, hrow, hv⟩ := h.pending q hq
    exact ⟨row, List.mem_append_left _ hrow, hv⟩
  · have hd := h.delivered
    unfold Connection.Delivered at hd ⊢
    split at hd
    · rw [readableTo_append h.sent_le hnew]
      exact hd
    · rw [readableTo_append h.sent_le hnew]
      exact hd
    · rw [readableTo_append h.sent_le hnew]
      exact hd
    · rw [readableTo_append h.sent_le hnew]
      exact hd
    · rw [readableTo_append h.sent_le hnew]
      exact hd
    · exact hd.trans readable_append
    · exact hd
  · have hc := h.checked
    unfold Connection.Checked at hc ⊢
    split at hc
    · exact ⟨hc.1, Nat.le_trans hc.2 hle⟩
    · exact ⟨hc.1, Nat.le_trans hc.2 hle⟩
    · rw [window_append fun x hx => Nat.lt_of_le_of_lt hc.2.2 (hnew x hx)]
      exact ⟨hc.1, hc.2.1, Nat.le_trans hc.2.2 hle⟩
    · trivial

theorem Connection.Sound.pending_le (h : c.Sound log) : ∀ q ∈ c.pending, q ≤ headOf log := by
  intro q hq
  obtain ⟨row, hrow, _, rfl⟩ := h.pending q hq
  exact le_head hrow

theorem Connection.Fed.commit (h : c.Fed cfg log b) (hs : c.Sound log) (hb : b ≤ headOf log)
    (hnew : ∀ x ∈ new, headOf log < x.seq) : c.Fed cfg (log ++ new) b := by
  intro hclosing
  obtain ⟨r, hf, hc⟩ := h hclosing
  have hle : headOf log ≤ headOf (log ++ new) := head_le_append
  refine ⟨r, hf.append hb hs.pending_le hnew, ?_⟩
  unfold Connection.Covers at hc ⊢
  split at hc
  · exact Nat.le_trans hc hle
  · exact Nat.le_trans hc hle
  · exact hc
  · exact hc
  · exact ⟨Nat.le_trans hc.1 hle, hc.2⟩
  · exact hc
  · exact hc
  · exact hc
  · trivial

/-! Offers. -/

theorem Connection.offer_eq (cfg : EventHub.Config) (c : Connection) (m : Queued) (x : Bool) :
    c.offer cfg m x = c ∨
      (c.closing = none ∧ c.offer cfg m x = { c with
        closing := some .queueOverflow
        queue := [.snapshotRequired .queueOverflow] }) ∨
      (c.closing = none ∧ c.offer cfg m x = { c with queue := c.queue ++ [m] }) := by
  unfold Connection.offer
  split
  · exact .inl rfl
  next hclosing =>
    rw [not_not] at hclosing
    split
    · split
      · exact .inl rfl
      · exact .inr (.inl ⟨hclosing, rfl⟩)
    · exact .inr (.inr ⟨hclosing, rfl⟩)

theorem Connection.Sound.offer (h : c.Sound log) {m : Queued} (x : Bool)
    (hm : ∀ q ∈ m.seqs, ∃ row ∈ log, row.valid = true ∧ row.seq = q) :
    (c.offer cfg m x).Sound log := by
  rcases c.offer_eq cfg m x with he | ⟨_, he⟩ | ⟨hclosing, he⟩
  · rw [he]
    exact h
  · rw [he]
    refine ⟨h.sent_le, ?_, h.delivered, h.checked, fun _ => .inr (.inr ⟨_, rfl⟩), h.ended, h.opened⟩
    intro q hq
    cases hq
  · rw [he]
    refine ⟨h.sent_le, ?_, h.delivered, h.checked, fun hne => absurd hclosing hne, h.ended,
      h.opened⟩
    intro q hq
    simp only [Connection.pending, List.flatMap_append, List.flatMap_cons, List.flatMap_nil,
      List.append_nil] at hq
    rcases List.mem_append.mp hq with hq | hq
    · exact h.pending q hq
    · exact hm q hq

/-- A message without a seq leaves what is fed as it was. -/
theorem Connection.Fed.offer_other (h : c.Fed cfg log b) {m : Queued} (x : Bool)
    (hm : m.seqs = []) : (c.offer cfg m x).Fed cfg log b := by
  rcases c.offer_eq cfg m x with he | ⟨_, he⟩ | ⟨_, he⟩
  · rw [he]
    exact h
  · rw [he]
    intro hclosing
    cases hclosing
  · rw [he]
    intro hclosing
    obtain ⟨r, hf, hc⟩ := h hclosing
    refine ⟨r, ?_, hc⟩
    simp only [Connection.pending, List.flatMap_append, List.flatMap_cons, List.flatMap_nil,
      List.append_nil, hm]
    exact hf

theorem Connection.Fed.offer_event (h : c.Fed cfg log b) {row : EventRecord}
    (hrow : ∀ y ∈ log, y.valid = true → b < y.seq → row.seq ≤ y.seq) :
    (c.offer cfg (.event row) false).Fed cfg log row.seq := by
  have hsame : ∀ c' : Connection, c'.closing ≠ none → c'.Fed cfg log row.seq :=
    fun _ hne hclosing => absurd hclosing hne
  unfold Connection.offer
  split
  · exact hsame c ‹_›
  next hclosing =>
    rw [not_not] at hclosing
    split
    · exact hsame _ (by simp)
    · intro _
      obtain ⟨r, hf, hc⟩ := h hclosing
      refine ⟨r, ?_, hc⟩
      simp only [Connection.pending, List.flatMap_append, List.flatMap_cons, List.flatMap_nil,
        List.append_nil, Queued.seqs]
      exact hf.offer hrow

/-! The awaits of a connection. -/

theorem sinceProblem_none {since : Option Int} {h : Nat} (hp : sinceProblem since h = none) :
    ∃ n : Nat, since = some (n : Int) ∧ n ≤ h := by
  unfold sinceProblem at hp
  split at hp
  · cases hp
  · split at hp
    · cases hp
    · next n hn =>
      refine ⟨n.toNat, ?_, by omega⟩
      rw [Int.toNat_of_nonneg (by omega)]

theorem Connection.durable_send (c : Connection) (m : Message) :
    (c.send m).durable = c.durable ++ m.seqs := by
  simp [Connection.send, Connection.durable]

/-- An await that sends nothing. -/
theorem Connection.Sound.moved (h : c.Sound log) (hf : c.await ≠ .finished)
    (hs : ∀ r, c.await ≠ .sending (.snapshotRequired r)) {a : Await} {n : Nat}
    (hn : n ≤ headOf log) (hd : { c with lastSentSeq := n, await := a }.Delivered log)
    (hc : { c with lastSentSeq := n, await := a }.Checked log)
    (ho : c.opened = false → a ≠ .getting ∧ ∀ m, a ≠ .sending m) :
    { c with lastSentSeq := n, await := a }.Sound log := by
  refine ⟨hn, h.pending, hd, hc, fun hne => ?_, ⟨fun _ => h.ended.1 hf, h.ended.2⟩, ho⟩
  rcases h.closing hne with hc | ⟨r, hc, _⟩ | hc
  · exact absurd hc hf
  · exact absurd hc (hs r)
  · exact .inr (.inr hc)

/-- An await that sends a message, the last one if it asks for a snapshot. -/
theorem Connection.Sound.sent (h : c.Sound log) (hf : c.await ≠ .finished) {m : Message}
    {a : Await} {n : Nat} (ha : a = .finished ∨
      (m.isSnapshot = false ∧ ∀ r, c.await ≠ .sending (.snapshotRequired r)))
    (hn : n ≤ headOf log) (hd : { c.send m with lastSentSeq := n, await := a }.Delivered log)
    (hc : { c.send m with lastSentSeq := n, await := a }.Checked log)
    (ho : c.opened = false → a ≠ .getting ∧ ∀ m, a ≠ .sending m) :
    { c.send m with lastSentSeq := n, await := a }.Sound log := by
  refine ⟨hn, h.pending, hd, hc, fun hne => ?_, ⟨fun hne x hx => ?_, fun x hx => ?_⟩, ho⟩
  · rcases ha with ha | ⟨_, hs⟩
    · exact .inl ha
    · rcases h.closing hne with hc | ⟨r, hc, _⟩ | hc
      · exact absurd hc hf
      · exact absurd hc (hs r)
      · exact .inr (.inr hc)
  · rcases ha with ha | ⟨hm, _⟩
    · exact absurd ha hne
    · rcases List.mem_append.mp hx with hx | hx
      · exact h.ended.1 hf x hx
      · rw [List.mem_singleton.mp hx]
        exact hm
  · simp only [Connection.send, List.dropLast_concat] at hx
    exact h.ended.1 hf x hx

/-- What was sent up to here is what is readable up to here. -/
theorem Connection.Sound.finished (hasc : Ascending EventRecord.seq log) (h : c.Sound log)
    (hf : c.await ≠ .finished) (hs : ∀ m, c.await ≠ .sending m)
    (hd : c.durable = [] ∨ c.durable = readableTo log c.start c.lastSentSeq) :
    { c with await := .finished }.Sound log := by
  refine h.moved hf (fun r => hs _) h.sent_le ?_ trivial fun _ => ⟨by simp, by simp⟩
  show c.durable <+: _
  rcases hd with hd | hd
  · rw [hd]
    exact List.nil_prefix
  · rw [hd]
    exact readableTo_prefix hasc

/-- The next message of the queue. -/
theorem Connection.Sound.got (hasc : Ascending EventRecord.seq log) (h : c.Sound log)
    (ha : c.await = .getting) {m : Queued} {queue : List Queued} (hq : c.queue = m :: queue)
    (hnext : ∀ row, m = .event row → c.lastSentSeq < row.seq →
      ∀ x ∈ log, x.valid = true → c.lastSentSeq < x.seq → row.seq ≤ x.seq)
    {n : Nat} (hn : ∀ row, m = .event row → c.lastSentSeq < row.seq ∧ n = row.seq)
    (hn' : m.seqs = [] → n = c.lastSentSeq) :
    { c with queue := queue, lastSentSeq := n, await := .sending m }.Sound log := by
  have hd := h.delivered
  rw [Connection.Delivered, ha] at hd
  have hpend : ∀ q ∈ m.seqs ++ queue.flatMap Queued.seqs,
      ∃ row ∈ log, row.valid = true ∧ row.seq = q := by
    have hp := h.pending
    rwa [Connection.pending, hq, List.flatMap_cons] at hp
  have hopen : c.opened = false → False := fun hno => (h.opened hno).1 ha
  have hboth : n ≤ headOf log ∧ c.start ≤ n ∧
      c.durable ++ m.seqs = readableTo log c.start n := by
    cases m with
    | event row =>
      obtain ⟨hlt, rfl⟩ := hn row rfl
      obtain ⟨row', hmem, hv, hseq⟩ := hpend row.seq (by simp [Queued.seqs])
      have hone := readableTo_next hasc hmem hv (by rw [hseq]; exact hlt)
        (by rw [hseq]; exact hnext row rfl hlt)
      rw [hseq] at hone
      refine ⟨hseq ▸ le_head hmem, Nat.le_trans hd.1 (Nat.le_of_lt hlt), ?_⟩
      rw [readableTo_split hasc hd.1 (Nat.le_of_lt hlt), hone, hd.2]
      rfl
    | snapshotRequired r =>
      rw [hn' rfl]
      exact ⟨h.sent_le, hd.1, by rw [hd.2]; exact List.append_nil _⟩
    | ephemeral =>
      rw [hn' rfl]
      exact ⟨h.sent_le, hd.1, by rw [hd.2]; exact List.append_nil _⟩
    | heartbeat =>
      rw [hn' rfl]
      exact ⟨h.sent_le, hd.1, by rw [hd.2]; exact List.append_nil _⟩
  refine ⟨hboth.1, fun q hq => hpend q (List.mem_append_right _ hq), hboth.2, trivial,
    fun hne => ?_, ⟨fun _ => h.ended.1 (by simp [ha]), h.ended.2⟩, fun hno => (hopen hno).elim⟩
  rcases h.closing hne with hc | ⟨r, hc, _⟩ | ⟨r, hc⟩
  · rw [ha] at hc
    cases hc
  · rw [ha] at hc
    cases hc
  · rw [hq] at hc
    obtain ⟨rfl, rfl⟩ := List.cons.inj hc
    exact .inr (.inl ⟨r, rfl, rfl⟩)

theorem Connection.Sound.proceed (hasc : Ascending EventRecord.seq log) (h : c.Sound log)
    (hnext : ∀ row queue, c.await = .getting → c.queue = .event row :: queue →
      c.lastSentSeq < row.seq →
        ∀ x ∈ log, x.valid = true → c.lastSentSeq < x.seq → row.seq ≤ x.seq)
    (hp : c.proceed cfg log = some (c', d)) : c'.Sound log := by
  have hd := h.delivered
  have hc := h.checked
  unfold Connection.Delivered at hd
  unfold Connection.Checked at hc
  unfold Connection.proceed at hp
  cases ha : c.await with
  | locking => simp [ha] at hp
  | tracking => simp [ha] at hp
  | finished => simp [ha] at hp
  | heading =>
    simp only [ha] at hp hd
    split at hp
    · cases hp
      exact h.moved (by simp [ha]) (by simp [ha]) h.sent_le hd trivial fun _ => ⟨by simp, by simp⟩
    next hnone =>
    split at hp <;> cases hp <;>
      exact h.moved (by simp [ha]) (by simp [ha]) h.sent_le hd ⟨hnone, Nat.le_refl _⟩
        fun _ => ⟨by simp, by simp⟩
  | counting hh =>
    simp only [ha] at hp hd hc
    cases hp
    refine h.moved (by simp [ha]) (by simp [ha]) h.sent_le hd ?_ fun _ => ⟨by simp, by simp⟩
    unfold Connection.Checked
    by_cases hb : cfg.backlogMax <
        ((after EventRecord.seq log c.start).take (cfg.backlogMax + 1)).length
    · rw [if_pos hb]
      trivial
    · rw [if_neg hb]
      exact hc
  | greeting hh reason =>
    simp only [ha] at hp hd
    split at hp
    · cases hp
      exact h.finished hasc (by simp [ha]) (by simp [ha]) (.inl hd)
    next hopen =>
    cases reason with
    | some reason =>
      cases hp
      refine h.sent (by simp [ha]) (.inr ⟨rfl, by simp [ha]⟩) h.sent_le ?_ trivial
        fun hno => absurd hno hopen
      show (c.send _).durable = []
      rw [Connection.durable_send, hd]
      rfl
    | none =>
      simp only [ha] at hc
      obtain ⟨n, hsince, hn⟩ := sinceProblem_none hc.1
      have hstart : c.start = n := by simp [Connection.start, hsince]
      have hle : c.start ≤ headOf log := by rw [hstart]; exact Nat.le_trans hn hc.2
      have hdel : ∀ mode, c.start ≤ c.start ∧ (c.send (.hello hh mode)).durable =
          readableTo log c.start c.start := by
        intro mode
        rw [Connection.durable_send, hd, readableTo_self]
        exact ⟨Nat.le_refl _, rfl⟩
      simp only at hp
      split at hp <;> cases hp <;>
        exact h.sent (by simp [ha]) (.inr ⟨rfl, by simp [ha]⟩) hle (hdel _) trivial
          fun hno => absurd hno hopen
  | refusing reason =>
    simp only [ha] at hp hd
    split at hp
    · cases hp
      exact h.finished hasc (by simp [ha]) (by simp [ha]) (.inl hd)
    · cases hp
      refine h.sent (by simp [ha]) (.inl rfl) h.sent_le ?_ trivial fun _ => ⟨by simp, by simp⟩
      show (c.send _).durable <+: _
      rw [Connection.durable_send, hd]
      exact List.nil_prefix
  | paging =>
    simp only [ha] at hp hd
    split at hp
    · cases hp
      exact h.moved (by simp [ha]) (by simp [ha]) h.sent_le hd trivial fun _ => ⟨by simp, by simp⟩
    · next last hlast =>
      cases hp
      obtain ⟨hpage, hlt, hmem⟩ := page_eq_window hasc hlast
      exact h.moved (by simp [ha]) (by simp [ha]) h.sent_le hd
        ⟨hpage, Nat.le_of_lt hlt, le_head hmem⟩ fun _ => ⟨by simp, by simp⟩
  | sendingPage rows last =>
    simp only [ha] at hp hd hc
    obtain ⟨hrows, hlt, hle⟩ := hc
    have hsplit := readableTo_split hasc hd.1 hlt
    have hpage : readableTo log c.lastSentSeq last =
        (rows.filter EventRecord.valid).map EventRecord.seq := by rw [hrows]; rfl
    rw [hpage, ← hd.2] at hsplit
    split at hp
    · next hnil =>
      cases hp
      rw [hnil, List.map_nil, List.append_nil] at hsplit
      refine h.moved (by simp [ha]) (by simp [ha]) hle ?_ ?_ fun _ => ?_
      · split <;> exact ⟨Nat.le_trans hd.1 hlt, hsplit.symm⟩
      · split <;> trivial
      · split <;> exact ⟨by simp, by simp⟩
    · next item items hitems =>
      split at hp
      · cases hp
        exact h.finished hasc (by simp [ha]) (by simp [ha]) (.inr hd.2)
      · next hopen =>
        cases hp
        have hdur : (c.send (.events (item :: items))).durable = readableTo log c.start last := by
          rw [Connection.durable_send, hsplit, hitems]
          rfl
        refine h.sent (by simp [ha]) (.inr ⟨rfl, by simp [ha]⟩) hle ?_ ?_
          fun hno => absurd hno hopen
        · split <;> exact ⟨Nat.le_trans hd.1 hlt, hdur⟩
        · split <;> trivial
  | endingBacklog =>
    simp only [ha] at hp hd
    split at hp
    · cases hp
      exact h.finished hasc (by simp [ha]) (by simp [ha]) (.inr hd.2)
    · next hopen =>
      cases hp
      refine h.sent (by simp [ha]) (.inr ⟨rfl, by simp [ha]⟩) h.sent_le ⟨hd.1, ?_⟩ trivial
        fun hno => absurd hno hopen
      show (c.send _).durable = _
      rw [Connection.durable_send, hd.2]
      exact List.append_nil _
  | getting =>
    simp only [ha] at hp hd
    split at hp
    · cases hp
    · next row queue hq =>
      split at hp
      · next hle =>
        -- already sent in the backlog
        cases hp
        refine ⟨h.sent_le, fun q hq' => h.pending q ?_, hd, trivial, fun hne => ?_,
          ⟨fun _ => h.ended.1 (by simp [ha]), h.ended.2⟩, fun hno => ((h.opened hno).1 ha).elim⟩
        · rw [Connection.pending, hq]
          exact List.mem_append_right _ hq'
        · rcases h.closing hne with hc | ⟨r, hc, _⟩ | ⟨r, hc⟩
          · rw [ha] at hc
            cases hc
          · rw [ha] at hc
            cases hc
          · rw [hq] at hc
            cases hc
      · next hgt =>
        cases hp
        have hlt : c.lastSentSeq < row.seq := Nat.lt_of_not_le hgt
        refine h.got hasc ha hq (fun r hr hlt' => ?_) (fun r hr => ?_) fun hnil => ?_
        · cases hr
          exact hnext row queue ha hq hlt
        · cases hr
          exact ⟨hlt, rfl⟩
        · cases hnil
    · next m queue hm hq =>
      cases hp
      refine h.got hasc ha hq (fun r hr _ => absurd hr ?_) (fun r hr => absurd hr ?_) fun _ => rfl
      · rintro rfl
        exact hm _ rfl
      · rintro rfl
        exact hm _ rfl
  | sending m =>
    simp only [ha] at hp hd
    split at hp
    · cases hp
      refine h.sent (by simp [ha]) (.inl rfl) h.sent_le ?_ trivial fun _ => ⟨by simp, by simp⟩
      show (c.send _).durable <+: _
      rw [Connection.durable_send]
      exact hd.2 ▸ readableTo_prefix hasc
    · next hm =>
      cases hp
      have hnot : ∀ r, m ≠ .snapshotRequired r := fun r he => hm r he
      refine h.sent (by simp [ha]) (.inr ⟨?_, ?_⟩) h.sent_le ⟨hd.1, ?_⟩ trivial
        fun hno => ((h.opened hno).2 m ha).elim
      · cases m <;> first | rfl | exact absurd rfl (hnot _)
      · rw [ha]
        intro r he
        cases he
        exact hnot r rfl
      · show (c.send _).durable = _
        rw [Connection.durable_send]
        exact hd.2

/-- A connection that is fed stays fed as it goes on. -/
theorem Connection.Fed.proceed (hasc : Ascending EventRecord.seq log) (hs : c.Sound log)
    (h : c.Fed cfg log b) (hp : c.proceed cfg log = some (c', d)) : c'.Fed cfg log b := by
  have hchk := hs.checked
  have hle := hs.sent_le
  unfold Connection.Checked at hchk
  unfold Connection.proceed at hp
  -- the same queue, in front of somebody who has come as far
  have hsame : ∀ {x : Connection}, x.closing = c.closing → x.pending = c.pending →
      (∀ r, c.Covers cfg log r → x.Covers cfg log r) → x.Fed cfg log b := by
    intro x hx hpend hcov hclosing
    rw [hx] at hclosing
    obtain ⟨r, hf, hc⟩ := h hclosing
    exact ⟨r, hpend ▸ hf, hcov r hc⟩
  unfold Connection.Covers at hsame
  cases ha : c.await with
  | locking => simp [ha] at hp
  | tracking => simp [ha] at hp
  | finished => simp [ha] at hp
  | heading =>
    simp only [ha] at hp hsame
    split at hp
    · cases hp
      exact hsame rfl rfl fun r hr => hr
    · split at hp <;> cases hp <;> exact hsame rfl rfl fun r hr => hr
  | counting hh =>
    simp only [ha] at hp hsame
    cases hp
    exact hsame rfl rfl fun r hr => hr
  | greeting hh reason =>
    simp only [ha] at hp hsame hchk
    split at hp
    · cases hp
      exact hsame rfl rfl fun r _ => trivial
    cases reason with
    | some reason =>
      cases hp
      exact hsame rfl rfl fun r _ => trivial
    | none =>
      simp only at hp hchk
      split at hp
      · next hsince =>
        cases hp
        refine hsame rfl rfl fun r hr => ?_
        show r ≤ c.start
        simpa [Connection.start, hsince] using hr
      · cases hp
        exact hsame rfl rfl fun r hr => Nat.le_trans hr hchk.2
  | refusing reason =>
    simp only [ha] at hp hsame
    split at hp <;> cases hp <;> exact hsame rfl rfl fun r _ => trivial
  | paging =>
    simp only [ha] at hp hsame
    split at hp
    · next hnone =>
      cases hp
      have hnil := List.getLast?_eq_none_iff.mp hnone
      have hlast := head_le_of_after cfg.batch_pos hnil
      exact hsame rfl rfl fun r hr => Nat.le_trans hr hlast
    · next last hlast =>
      cases hp
      exact hsame rfl rfl fun r hr =>
        ⟨hr, fun hn => Nat.le_trans hr (head_le_of_short hlast hasc hn)⟩
  | sendingPage rows last =>
    simp only [ha] at hp hsame
    split at hp
    · cases hp
      refine hsame rfl rfl fun r hr => ?_
      split <;> grind
    · split at hp
      · cases hp
        exact hsame rfl rfl fun r _ => trivial
      · cases hp
        refine hsame rfl rfl fun r hr => ?_
        split <;> grind
  | endingBacklog =>
    simp only [ha] at hp hsame
    split at hp <;> cases hp
    · exact hsame rfl rfl fun r _ => trivial
    · exact hsame rfl rfl fun r hr => hr
  | getting =>
    simp only [ha] at hp
    have hget : ∀ {q : Queued} {queue : List Queued}, c.queue = q :: queue → ∀ n,
        (∀ s ∈ q.seqs, max c.lastSentSeq s ≤ n) → (q.seqs = [] → c.lastSentSeq ≤ n) →
        ∀ a, (a = Await.getting ∨ ∃ m, a = .sending m) →
        Connection.Fed cfg log b { c with queue := queue, lastSentSeq := n, await := a } := by
      intro q queue hq n hn hn' a ha' hclosing
      obtain ⟨r, hf, hc⟩ := h hclosing
      have hr : r ≤ c.lastSentSeq := by
        rw [Connection.Covers, ha] at hc
        exact hc
      refine ⟨n, ?_, by rcases ha' with rfl | ⟨m, rfl⟩ <;> exact Nat.le_refl _⟩
      rw [Connection.pending, hq, List.flatMap_cons] at hf
      show Follows _ _ _ _ (queue.flatMap Queued.seqs) _
      cases q with
      | event row =>
        have hmax := hn row.seq (by simp [Queued.seqs])
        exact hf.2.mono (by omega)
      | snapshotRequired _ => exact hf.mono (Nat.le_trans hr (hn' rfl))
      | ephemeral => exact hf.mono (Nat.le_trans hr (hn' rfl))
      | heartbeat => exact hf.mono (Nat.le_trans hr (hn' rfl))
    split at hp
    · cases hp
    · next row queue hq =>
      split at hp
      · next hle' =>
        cases hp
        exact hget hq c.lastSentSeq (by simp [Queued.seqs]; omega) (fun _ => Nat.le_refl _) _
          (.inl rfl)
      · next hgt =>
        cases hp
        exact hget hq row.seq (by simp [Queued.seqs]; omega) (fun hn => by cases hn) _
          (.inr ⟨_, rfl⟩)
    · next m queue hm hq =>
      cases hp
      refine hget hq c.lastSentSeq ?_ (fun _ => Nat.le_refl _) _ (.inr ⟨_, rfl⟩)
      cases m <;> simp [Queued.seqs] at *
  | sending m =>
    simp only [ha] at hp hsame
    split at hp <;> cases hp
    · exact hsame rfl rfl fun r _ => trivial
    · exact hsame rfl rfl fun r hr => hr

/-! The hub. -/

variable {hub hub' : EventHub} {i : Nat}

/-- How far the events have been offered. -/
def EventHub.position (hub : EventHub) : Nat :=
  match hub.lock with
  | .fetchQuerying n => n
  | .fetchOffering n _ _ _ => n
  | _ => hub.cursor.getD 0

/-- What the holder of the lock has read is still so; the cursor may be gone meanwhile, never
ahead. -/
def EventHub.Locked (hub : EventHub) : Prop :=
  match hub.lock with
  | .free => True
  | .connecting _ | .fetchTracking => hub.cursor = none
  | .fetchQuerying n => n ≤ hub.head ∧ ∀ m, hub.cursor = some m → m = n
  | .fetchOffering n rest last _ => n ≤ last ∧ last ≤ hub.head ∧
      rest = window EventRecord.seq hub.log n last ∧ ∀ m, hub.cursor = some m → m ≤ n

structure EventHub.Steady (cfg : EventHub.Config) (hub : EventHub) : Prop where
  ascending : Ascending EventRecord.seq hub.log
  cursor_le : ∀ n, hub.cursor = some n → n ≤ hub.head
  locked : hub.Locked
  sound : ∀ i c, hub.connections i = some c → c.Sound hub.log
  opened : ∀ i c, hub.connections i = some c → c.opened = true → i ∈ hub.registered
  tracking : ∀ i c, hub.connections i = some c → c.await = .tracking → hub.lock = .connecting i
  fed : ∀ i c, hub.connections i = some c → i ∈ hub.registered → c.await.isTracked = true →
    hub.cursor ≠ none ∧ c.Fed cfg hub.log hub.position

theorem forall_update {conns : Nat → Option Connection} {P : Nat → Connection → Prop}
    (h : ∀ j x, j ≠ i → conns j = some x → P j x) (hc : P i c) :
    ∀ j x, Function.update conns i (some c) j = some x → P j x := by
  intro j x hx
  by_cases hj : j = i
  · subst hj
    rw [Function.update_self] at hx
    cases hx
    exact hc
  · rw [Function.update_of_ne hj] at hx
    exact h j x hj hx

theorem EventHub.Steady.put (h : hub.Steady cfg) (hs : c.Sound hub.log)
    (ho : c.opened = true → i ∈ hub.registered) (ht : c.await ≠ .tracking)
    (hf : i ∈ hub.registered → c.await.isTracked = true →
      hub.cursor ≠ none ∧ c.Fed cfg hub.log hub.position) : (hub.put i c).Steady cfg :=
  ⟨h.ascending, h.cursor_le, h.locked, forall_update (fun j x _ => h.sound j x) hs,
    forall_update (fun j x _ => h.opened j x) ho,
    forall_update (fun j x _ => h.tracking j x) fun ha => absurd ha ht,
    forall_update (fun j x _ => h.fed j x) hf⟩

/-- An event at the head of the queue of a socket that is live is the next readable one,
unless it was sent before. -/
theorem EventHub.Steady.next (h : hub.Steady cfg) (hc : hub.connections i = some c)
    {row : EventRecord} {queue : List Queued} (ha : c.await = .getting)
    (hq : c.queue = .event row :: queue) (_ : c.lastSentSeq < row.seq) :
    ∀ x ∈ hub.log, x.valid = true → c.lastSentSeq < x.seq → row.seq ≤ x.seq := by
  have hs := h.sound i c hc
  have hopen : c.opened = true := by
    cases ho : c.opened with
    | true => rfl
    | false => exact absurd ha (hs.opened ho).1
  have hclosing : c.closing = none := by
    by_contra hne
    rcases hs.closing hne with hf | ⟨r, hf, _⟩ | ⟨r, hf⟩
    · rw [ha] at hf
      cases hf
    · rw [ha] at hf
      cases hf
    · rw [hq] at hf
      cases hf
  obtain ⟨r, hf, hcov⟩ := (h.fed i c hc (h.opened i c hc hopen) (by rw [ha]; rfl)).2 hclosing
  rw [Connection.Covers, ha] at hcov
  rw [Connection.pending, hq, List.flatMap_cons] at hf
  exact fun x hx hv hlt => hf.1 x hx hv (Nat.lt_of_le_of_lt hcov hlt)

theorem Connection.proceed_keeps (hp : c.proceed cfg log = some (c', d)) :
    c'.opened = c.opened ∧ c'.await ≠ .tracking ∧ c.await.isTracked = true := by
  unfold Connection.proceed at hp
  cases ha : c.await <;> simp only [ha] at hp
  all_goals
    repeat' split at hp
    all_goals first
      | cases hp; done
      | (cases hp; exact ⟨rfl, by grind, rfl⟩)

theorem Connection.disconnect_eq (c : Connection) :
    (c.disconnect = { c with opened := false } ∧ c.await ≠ .getting ∧ ∀ m, c.await ≠ .sending m) ∨
      (c.disconnect = { c with opened := false, await := .finished } ∧
        (c.await = .getting ∨ ∃ m, c.await = .sending m)) := by
  unfold Connection.disconnect
  cases c.await <;> simp

theorem Connection.Sound.disconnect (hasc : Ascending EventRecord.seq log) (h : c.Sound log) :
    c.disconnect.Sound log := by
  rcases c.disconnect_eq with ⟨he, hg, hs⟩ | ⟨he, hsender⟩
  · rw [he]
    exact ⟨h.sent_le, h.pending, h.delivered, h.checked, h.closing, h.ended, fun _ => ⟨hg, hs⟩⟩
  · rw [he]
    refine ⟨h.sent_le, h.pending, ?_, trivial, fun _ => .inl rfl,
      ⟨fun hne => absurd rfl hne, h.ended.2⟩, fun _ => ⟨by simp, by simp⟩⟩
    have hd := h.delivered
    show c.durable <+: readable log c.start
    rcases hsender with ha | ⟨m, ha⟩
    · rw [Connection.Delivered, ha] at hd
      exact hd.2 ▸ readableTo_prefix hasc
    · rw [Connection.Delivered, ha] at hd
      exact (List.prefix_append _ _).trans (hd.2 ▸ readableTo_prefix hasc)

theorem EventHub.Steady.disconnect (h : hub.Steady cfg) (hs : c.Sound hub.log)
    (ht : c.await = .tracking → hub.lock = .connecting i) : (hub.disconnect i c).Steady cfg := by
  have hawait : c.disconnect.await = .tracking → c.await = .tracking := by
    rcases c.disconnect_eq with ⟨he, _⟩ | ⟨he, _⟩ <;> rw [he]
    · exact id
    · intro hf
      cases hf
  -- somebody is left, or the cursor goes with the last one
  have hcursor : ∀ n, (hub.disconnect i c).cursor = some n → hub.cursor = some n := by
    intro n hn
    simp only [EventHub.disconnect] at hn
    split at hn
    · cases hn
    · exact hn
  have hnone : hub.cursor = none → (hub.disconnect i c).cursor = none := by
    intro hn
    simp only [EventHub.disconnect, hn, ite_self]
  refine ⟨h.ascending, fun n hn => h.cursor_le n (hcursor n hn), ?_,
    forall_update (fun j x _ => h.sound j x) (hs.disconnect h.ascending),
    forall_update (fun j x hj hx hopen => ?_) (fun hopen => by cases hopen),
    forall_update (fun j x _ => h.tracking j x) (fun ha => ht (hawait ha)),
    forall_update (fun j x hj hx hmem ha => ?_) (fun hmem => by
      simp [EventHub.disconnect] at hmem)⟩
  · have hl := h.locked
    have hlock : (hub.disconnect i c).lock = hub.lock := rfl
    unfold EventHub.Locked at hl ⊢
    rw [hlock]
    cases hlk : hub.lock <;> simp only [hlk] at hl ⊢
    · exact hnone hl
    · exact hnone hl
    · exact ⟨hl.1, fun m hm => hl.2 m (hcursor m hm)⟩
    · exact ⟨hl.1, hl.2.1, hl.2.2.1, fun m hm => hl.2.2.2 m (hcursor m hm)⟩
  · exact List.mem_filter.mpr ⟨h.opened j x hx hopen, by simpa using hj⟩
  · have hmem' : j ∈ hub.registered := (List.mem_filter.mp hmem).1
    obtain ⟨hne, hfed⟩ := h.fed j x hx hmem' ha
    have hsame : (hub.disconnect i c).cursor = hub.cursor := by
      simp only [EventHub.disconnect]
      split
      · next hnil =>
        simp only [EventHub.disconnect] at hmem
        rw [hnil] at hmem
        cases hmem
      · rfl
    refine ⟨by rw [hsame]; exact hne, ?_⟩
    have hpos : (hub.disconnect i c).position = hub.position := by
      unfold EventHub.position
      rw [hsame]
      rfl
    rw [hpos]
    exact hfed

theorem EventHub.Steady.proceed (h : hub.Steady cfg) (hc : hub.connections i = some c)
    (hp : hub.proceed cfg i c = some hub') : hub'.Steady cfg := by
  have hs := h.sound i c hc
  unfold EventHub.proceed at hp
  split at hp
  · next ha =>
    have hcl := hs.closing
    have hd := hs.delivered
    rw [Connection.Delivered, ha] at hd
    split at hp
    · next n _ hcursor =>
      cases hp
      refine h.put ?_ (h.opened i c hc) (by simp) fun _ _ => ⟨by simp [hcursor], fun _ => ?_⟩
      · exact hs.moved (by simp [ha]) (by simp [ha]) hs.sent_le hd trivial fun _ => ⟨by simp, by simp⟩
      · exact ⟨hub.head, Follows.start (Nat.le_refl _), Nat.le_refl _⟩
    · next hlock hcursor =>
      cases hp
      refine ⟨h.ascending, h.cursor_le, hcursor, forall_update (fun j x _ => h.sound j x) ?_,
        forall_update (fun j x _ => h.opened j x) (h.opened i c hc),
        forall_update (fun j x _ hx ha' => ?_) (fun _ => rfl),
        forall_update (fun j x _ hx hmem ha' => ?_) (fun _ ha' => by cases ha')⟩
      · exact hs.moved (by simp [ha]) (by simp [ha]) hs.sent_le hd trivial fun _ => ⟨by simp, by simp⟩
      · have := h.tracking j x hx ha'
        rw [hlock] at this
        cases this
      · exact absurd hcursor (h.fed j x hx hmem ha').1
    · cases hp
  · next ha =>
    have hlock := h.tracking i c hc ha
    have hcursor : hub.cursor = none := by
      have hl := h.locked
      rwa [EventHub.Locked, hlock] at hl
    have hd := hs.delivered
    rw [Connection.Delivered, ha] at hd
    cases hp
    refine ⟨h.ascending, ?_, trivial, forall_update (fun j x _ => h.sound j x) ?_,
      forall_update (fun j x _ => h.opened j x) (h.opened i c hc),
      forall_update (fun j x hj hx ha' => ?_) (fun ha' => by cases ha'),
      forall_update (fun j x _ hx hmem ha' => absurd hcursor (h.fed j x hx hmem ha').1)
        (fun _ _ => ⟨by simp, fun _ => ?_⟩)⟩
    · intro n hn
      cases hn
      exact Nat.le_refl _
    · exact hs.moved (by simp [ha]) (by simp [ha]) hs.sent_le hd trivial fun _ => ⟨by simp, by simp⟩
    · have := h.tracking j x hx ha'
      rw [hlock] at this
      exact absurd (Lock.connecting.inj this).symm hj
    · exact ⟨hub.head, Follows.start (Nat.le_refl _), Nat.le_refl _⟩
  · have hnext := fun row queue (ha : c.await = .getting) (hq : c.queue = .event row :: queue) =>
      h.next hc ha hq
    split at hp
    · cases hp
    · next c' hstep =>
      cases hp
      obtain ⟨hopen, htr, ha⟩ := Connection.proceed_keeps hstep
      refine h.put (hs.proceed h.ascending hnext hstep) (fun ho => h.opened i c hc (hopen ▸ ho)) htr
        fun hmem _ => ?_
      obtain ⟨hne, hfed⟩ := h.fed i c hc hmem ha
      exact ⟨hne, hfed.proceed h.ascending hs hstep⟩
    · next c' hstep =>
      cases hp
      exact h.disconnect (hs.proceed h.ascending hnext hstep)
        fun ha => absurd ha (Connection.proceed_keeps hstep).2.1

theorem EventHub.Steady.fail (h : hub.Steady cfg) (hc : hub.connections i = some c) :
    (hub.fail i c).Steady cfg := by
  have hs := h.sound i c hc
  unfold EventHub.fail
  split
  · exact h.disconnect hs (h.tracking i c hc)
  · exact h.disconnect hs (h.tracking i c hc)
  next hg hsend =>
    have hfin : { c with await := .finished }.Sound hub.log := by
      have hd := hs.delivered
      refine ⟨hs.sent_le, hs.pending, ?_, trivial, fun _ => .inl rfl,
        ⟨fun hne => absurd rfl hne, hs.ended.2⟩, fun _ => ⟨by simp, by simp⟩⟩
      show c.durable <+: readable hub.log c.start
      unfold Connection.Delivered at hd
      split at hd
      · exact hd.2 ▸ readableTo_prefix h.ascending
      · exact hd.2 ▸ readableTo_prefix h.ascending
      · exact hd.2 ▸ readableTo_prefix h.ascending
      · exact hd.2 ▸ readableTo_prefix h.ascending
      · next m hm => exact absurd hm (hsend m)
      · exact hd
      · exact hd ▸ List.nil_prefix
    by_cases hlock : hub.lock = .connecting i
    · have hcursor : hub.cursor = none := by
        have hl := h.locked
        rwa [EventHub.Locked, hlock] at hl
      rw [if_pos hlock]
      refine ⟨h.ascending, h.cursor_le, trivial, forall_update (fun j x _ => h.sound j x) hfin,
        forall_update (fun j x _ => h.opened j x) (h.opened i c hc),
        forall_update (fun j x hj hx ha' => ?_) (fun ha' => by cases ha'),
        forall_update (fun j x _ hx hmem ha' => absurd hcursor (h.fed j x hx hmem ha').1)
          (fun _ ha' => by cases ha')⟩
      have := h.tracking j x hx ha'
      rw [hlock] at this
      exact absurd (Lock.connecting.inj this).symm hj
    · rw [if_neg hlock]
      exact h.put hfin (h.opened i c hc) (by simp) fun _ ha => by cases ha

theorem EventHub.Steady.commit (h : hub.Steady cfg) {rows : List EventRecord}
    (hl : hub.Later rows) : { hub with log := hub.log ++ rows }.Steady cfg := by
  have hle : hub.head ≤ headOf (hub.log ++ rows) := head_le_append
  have hpos : hub.cursor ≠ none → hub.position ≤ hub.head := by
    intro hne
    have hlock := h.locked
    unfold EventHub.Locked at hlock
    unfold EventHub.position
    obtain ⟨n, hn⟩ := Option.ne_none_iff_exists'.mp hne
    have hcn := h.cursor_le n hn
    cases hlk : hub.lock <;> simp only [hlk] at hlock ⊢
    · simpa [hn] using hcn
    · simpa [hn] using hcn
    · simpa [hn] using hcn
    · exact hlock.1
    · exact Nat.le_trans hlock.1 hlock.2.1
  refine ⟨?_, fun n hn => Nat.le_trans (h.cursor_le n hn) hle, ?_,
    fun j x hx => (h.sound j x hx).commit hl.2, h.opened, h.tracking, fun j x hx hmem ha => ?_⟩
  · exact List.pairwise_append.mpr ⟨h.ascending, hl.1, fun x hx y hy =>
      Nat.lt_of_le_of_lt (le_head hx) (hl.2 y hy)⟩
  · have hlock := h.locked
    unfold EventHub.Locked at hlock ⊢
    show match hub.lock with
      | .free => True
      | .connecting _ | .fetchTracking => hub.cursor = none
      | .fetchQuerying n => n ≤ headOf (hub.log ++ rows) ∧ ∀ m, hub.cursor = some m → m = n
      | .fetchOffering n rest last _ => n ≤ last ∧ last ≤ headOf (hub.log ++ rows) ∧
        rest = window EventRecord.seq (hub.log ++ rows) n last ∧ ∀ m, hub.cursor = some m → m ≤ n
    cases hlk : hub.lock <;> simp only [hlk] at hlock ⊢
    · exact hlock
    · exact hlock
    · exact ⟨Nat.le_trans hlock.1 hle, hlock.2⟩
    · refine ⟨hlock.1, Nat.le_trans hlock.2.1 hle, ?_, hlock.2.2.2⟩
      rw [window_append fun x hx => Nat.lt_of_le_of_lt hlock.2.1 (hl.2 x hx)]
      exact hlock.2.2.1
  · obtain ⟨hne, hfed⟩ := h.fed j x hx hmem ha
    exact ⟨hne, hfed.commit (h.sound j x hx) (hpos hne) hl.2⟩

theorem Connection.Fed.skip (h : c.Fed cfg log a)
    (hb : ∀ x ∈ log, x.valid = true → a < x.seq → b < x.seq) : c.Fed cfg log b := by
  intro hclosing
  obtain ⟨r, hf, hc⟩ := h hclosing
  exact ⟨r, hf.skip hb, hc⟩

theorem Connection.offer_keeps (cfg : EventHub.Config) (c : Connection) (m : Queued) (x : Bool) :
    (c.offer cfg m x).await = c.await ∧ (c.offer cfg m x).opened = c.opened := by
  rcases c.offer_eq cfg m x with he | ⟨_, he⟩ | ⟨_, he⟩ <;> rw [he] <;> exact ⟨rfl, rfl⟩

/-- A step of the fetch that changes no connection. -/
theorem EventHub.Steady.fetched (h : hub.Steady cfg) (cursor : Option Nat) (lock : Lock)
    (hc : ∀ n, cursor = some n → n ≤ hub.head)
    (hl : { hub with cursor := cursor, lock := lock }.Locked)
    (hfree : ∀ i, hub.lock ≠ .connecting i)
    (hne : hub.cursor ≠ none → cursor ≠ none)
    (hpos : hub.cursor ≠ none → ∀ x ∈ hub.log, x.valid = true → hub.position < x.seq →
      { hub with cursor := cursor, lock := lock }.position < x.seq) :
    { hub with cursor := cursor, lock := lock }.Steady cfg := by
  refine ⟨h.ascending, hc, hl, h.sound, h.opened, fun j x hx ha => ?_, fun j x hx hmem ha => ?_⟩
  · exact absurd (h.tracking j x hx ha) (hfree j)
  · obtain ⟨hcur, hfed⟩ := h.fed j x hx hmem ha
    exact ⟨hne hcur, hfed.skip (hpos hcur)⟩

/-- The next row of a page goes to everybody, or is skipped. -/
theorem EventHub.Steady.offerRow (h : hub.Steady cfg) {n last : Nat} {row : EventRecord}
    {rest : List EventRecord} {full : Bool}
    (hlock : hub.lock = .fetchOffering n (row :: rest) last full) :
    (if row.valid then
      { hub with lock := .fetchOffering row.seq rest last full }.offerAll cfg (.event row)
    else { hub with lock := .fetchOffering row.seq rest last full }).Steady cfg := by
  have hl := h.locked
  rw [EventHub.Locked, hlock] at hl
  obtain ⟨_, hlast, hrest, hcur⟩ := hl
  obtain ⟨hlt, hle, hone, hafter⟩ := window_cons h.ascending hrest.symm
  have hmem : row ∈ hub.log := by
    have hin : row ∈ window EventRecord.seq hub.log n row.seq := by rw [hone]; simp
    exact (mem_window.mp hin).1
  have hlocked : { hub with lock := .fetchOffering row.seq rest last full }.Locked :=
    ⟨hle, hlast, hafter.symm, fun m hm => Nat.le_trans (hcur m hm) (Nat.le_of_lt hlt)⟩
  have hpos : hub.position = n := by rw [EventHub.position, hlock]
  -- nothing of the log lies between the last row and this one
  have hnext : ∀ x ∈ hub.log, n < x.seq → row.seq ≤ x.seq ∧ (x.seq = row.seq → x = row) := by
    intro x hx hnx
    by_cases hxr : x.seq ≤ row.seq
    · have hin : x ∈ window EventRecord.seq hub.log n row.seq := mem_window.mpr ⟨hx, hnx, hxr⟩
      rw [hone] at hin
      rw [List.mem_singleton.mp hin]
      exact ⟨Nat.le_refl _, fun _ => rfl⟩
    · exact ⟨by omega, by omega⟩
  have htrack : ∀ j x, hub.connections j = some x → x.await ≠ .tracking := by
    intro j x hx ha
    have := h.tracking j x hx ha
    rw [hlock] at this
    cases this
  split
  · next hv =>
    have hseqs : ∀ q ∈ (Queued.event row).seqs, ∃ r ∈ hub.log, r.valid = true ∧ r.seq = q := by
      intro q hq
      rw [List.mem_singleton.mp hq]
      exact ⟨row, hmem, hv, rfl⟩
    have hconn : ∀ {j : Nat} {x : Connection},
        (EventHub.offerAll cfg { hub with lock := .fetchOffering row.seq rest last full }
          (.event row)).connections j = some x → ∃ c, hub.connections j = some c ∧
          x = if j ∈ hub.registered then c.offer cfg (.event row) false else c := by
      intro j x hx
      obtain ⟨c, hc, rfl⟩ := Option.map_eq_some_iff.mp hx
      exact ⟨c, hc, rfl⟩
    refine ⟨h.ascending, h.cursor_le, hlocked, fun j x hx => ?_, fun j x hx hopen => ?_,
      fun j x hx ha => ?_, fun j x hx hreg ha => ?_⟩ <;> obtain ⟨c, hc, rfl⟩ := hconn hx
    · split
      · exact (h.sound j c hc).offer _ hseqs
      · exact h.sound j c hc
    · refine h.opened j c hc ?_
      split at hopen
      · rwa [(c.offer_keeps cfg _ _).2] at hopen
      · exact hopen
    · refine absurd ?_ (htrack j c hc)
      split at ha
      · rwa [(c.offer_keeps cfg _ _).1] at ha
      · exact ha
    · have hreg' : j ∈ hub.registered := hreg
      rw [if_pos hreg', (c.offer_keeps cfg _ _).1] at ha
      rw [if_pos hreg']
      obtain ⟨hne, hfed⟩ := h.fed j c hc hreg' ha
      rw [hpos] at hfed
      exact ⟨hne, hfed.offer_event fun x hx _ hnx => (hnext x hx hnx).1⟩
  · next hv =>
    refine h.fetched _ _ h.cursor_le hlocked (by simp [hlock]) id fun _ x hx hxv hnx => ?_
    rw [hpos] at hnx
    show row.seq < x.seq
    obtain ⟨hle', heq⟩ := hnext x hx hnx
    refine Nat.lt_of_le_of_ne hle' fun he => hv ?_
    rw [← heq he.symm]
    exact hxv

theorem EventHub.Steady.fetchProceed (h : hub.Steady cfg)
    (hp : hub.fetchProceed cfg = some hub') : hub'.Steady cfg := by
  have hl := h.locked
  unfold EventHub.fetchProceed at hp
  cases hlock : hub.lock with
  | free => simp [hlock] at hp
  | connecting j => simp [hlock] at hp
  | fetchTracking =>
    simp only [hlock, Option.some.injEq] at hp
    subst hp
    rw [EventHub.Locked, hlock] at hl
    have hsome : ∀ m, some hub.head = some m → m = hub.head := fun m hm => (Option.some.inj hm).symm
    refine h.fetched _ _ (fun n hn => Nat.le_of_eq (hsome n hn)) ⟨Nat.le_refl _, hsome⟩ (by simp [hlock])
      (fun hne => absurd hl hne) fun hne => absurd hl hne
  | fetchQuerying n =>
    simp only [hlock] at hp
    rw [EventHub.Locked, hlock] at hl
    have hpos : hub.position = n := by rw [EventHub.position, hlock]
    split at hp
    · cases hp
      refine h.fetched _ _ h.cursor_le trivial (by simp [hlock]) id fun hne x _ _ hlt => ?_
      obtain ⟨m, hm⟩ := Option.ne_none_iff_exists'.mp hne
      show hub.cursor.getD 0 < x.seq
      rw [hm, Option.getD_some, hl.2 m hm, ← hpos]
      exact hlt
    · next last hlast =>
      cases hp
      obtain ⟨hpage, hlt, hmem⟩ := page_eq_window h.ascending hlast
      refine h.fetched _ _ h.cursor_le ?_ (by simp [hlock]) id fun _ x _ _ hlt' => hpos ▸ hlt'
      exact ⟨Nat.le_of_lt hlt, le_head hmem, hpage, fun m hm => Nat.le_of_eq (hl.2 m hm)⟩
  | fetchOffering n rest last full =>
    cases rest with
    | cons row rest =>
      simp only [hlock, Option.some.injEq] at hp
      subst hp
      exact h.offerRow hlock
    | nil =>
      simp only [hlock, Option.some.injEq] at hp
      subst hp
      rw [EventHub.Locked, hlock] at hl
      have hpos : hub.position = n := by rw [EventHub.position, hlock]
      have hsome : ∀ m, some last = some m → m = last := fun m hm => (Option.some.inj hm).symm
      have hnone : ∀ x ∈ hub.log, n < x.seq → last < x.seq := by
        intro x hx hnx
        by_contra hle
        have hin : x ∈ window EventRecord.seq hub.log n last := mem_window.mpr ⟨hx, hnx, by omega⟩
        rw [← hl.2.2.1] at hin
        cases hin
      refine h.fetched _ _ (fun m hm => by rw [hsome m hm]; exact hl.2.1) ?_ (by simp [hlock])
        (fun _ => by simp) fun _ x hx _ hnx => ?_
      · cases full
        · trivial
        · exact ⟨hl.2.1, hsome⟩
      · rw [hpos] at hnx
        cases full
        · exact hnone x hx hnx
        · exact hnone x hx hnx

theorem seqs_of_not_isEvent {m : Queued} (h : ¬ m.isEvent = true) : m.seqs = [] := by
  cases m <;> first | rfl | exact absurd rfl h

/-- One step. -/
theorem EventHub.Steady.step (h : hub.Steady cfg) {a : Act} (hs : hub.step cfg a = some hub') :
    hub'.Steady cfg := by
  cases a with
  | commit rows =>
    simp only [EventHub.step] at hs
    split at hs <;> cases hs
    exact h.commit ‹_›
  | connect i since =>
    simp only [EventHub.step] at hs
    split at hs <;> cases hs
    refine ⟨h.ascending, h.cursor_le, h.locked, forall_update (fun j x _ => h.sound j x) ?_,
      forall_update (fun j x _ hx ho => List.mem_cons_of_mem _ (h.opened j x hx ho))
        (fun _ => List.mem_cons_self),
      forall_update (fun j x _ => h.tracking j x) (fun ha => by cases ha),
      forall_update (fun j x hj hx hmem ha => h.fed j x hx ?_ ha) (fun _ ha => by cases ha)⟩
    · exact ⟨Nat.zero_le _, fun q hq => (by cases hq), rfl, trivial, fun hne => absurd rfl hne,
        ⟨fun _ m hm => (by cases hm), fun m hm => (by cases hm)⟩, fun ho => (by cases ho)⟩
    · exact (List.mem_cons.mp hmem).resolve_left hj
  | proceed i =>
    obtain ⟨c, hc, hp⟩ := Option.bind_eq_some_iff.mp hs
    exact h.proceed hc hp
  | fail i =>
    obtain ⟨c, hc, rfl⟩ := Option.map_eq_some_iff.mp hs
    exact h.fail hc
  | disconnect i =>
    obtain ⟨c, hc, rfl⟩ := Option.map_eq_some_iff.mp hs
    exact h.disconnect (h.sound i c hc) (h.tracking i c hc)
  | offer i m droppable =>
    simp only [EventHub.step] at hs
    split at hs
    · cases hs
    next hm =>
      obtain ⟨c, hc, rfl⟩ := Option.map_eq_some_iff.mp hs
      have hseqs := seqs_of_not_isEvent hm
      obtain ⟨hawait, hopened⟩ := c.offer_keeps cfg m droppable
      refine ⟨h.ascending, h.cursor_le, h.locked, forall_update (fun j x _ => h.sound j x) ?_,
        forall_update (fun j x _ => h.opened j x) (fun ho => h.opened i c hc (hopened ▸ ho)),
        forall_update (fun j x _ => h.tracking j x) (fun ha => h.tracking i c hc (hawait ▸ ha)),
        forall_update (fun j x _ => h.fed j x) (fun hmem ha => ?_)⟩
      · refine (h.sound i c hc).offer droppable fun q hq => ?_
        rw [hseqs] at hq
        cases hq
      · obtain ⟨hne, hfed⟩ := h.fed i c hc hmem (hawait ▸ ha)
        exact ⟨hne, hfed.offer_other droppable hseqs⟩
  | fetch =>
    simp only [EventHub.step] at hs
    split at hs <;> cases hs
    · exact h
    · exact ⟨h.ascending, h.cursor_le, h.locked, h.sound, h.opened, h.tracking, h.fed⟩
  | fetchEnter =>
    simp only [EventHub.step] at hs
    split at hs
    · next n hlock _ =>
      have hpos : hub.position = hub.cursor.getD 0 := by rw [EventHub.position, hlock]
      split at hs
      · next cursor hcursor =>
        cases hs
        have hf := h.fetched hub.cursor (.fetchQuerying cursor) h.cursor_le
          ⟨h.cursor_le cursor hcursor, fun m hm => by rw [hcursor] at hm; exact (Option.some.inj hm).symm⟩
          (by simp [hlock]) id fun _ x _ _ hlt => by
            rw [hpos, hcursor] at hlt
            exact hlt
        exact ⟨hf.ascending, hf.cursor_le, hf.locked, hf.sound, hf.opened, hf.tracking, hf.fed⟩
      · next hcursor =>
        cases hs
        have hf := h.fetched hub.cursor .fetchTracking h.cursor_le hcursor
          (by simp [hlock]) id fun hne => absurd hcursor hne
        exact ⟨hf.ascending, hf.cursor_le, hf.locked, hf.sound, hf.opened, hf.tracking, hf.fed⟩
    · cases hs
  | fetchProceed => exact h.fetchProceed hs
  | fetchFail =>
    -- the cursor is where it was: what was offered is offered again
    have hback : (∀ i, hub.lock ≠ .connecting i) → hub' = { hub with lock := .free } →
        hub'.Steady cfg := by
      rintro hlock rfl
      refine h.fetched _ _ h.cursor_le trivial hlock id fun hne x _ _ hlt => ?_
      obtain ⟨m, hm⟩ := Option.ne_none_iff_exists'.mp hne
      refine Nat.lt_of_le_of_lt ?_ hlt
      have hl := h.locked
      show hub.cursor.getD 0 ≤ hub.position
      unfold EventHub.Locked at hl
      unfold EventHub.position
      cases hlk : hub.lock <;> simp only [hlk] at hl ⊢
      · exact Nat.le_refl _
      · exact Nat.le_refl _
      · exact Nat.le_refl _
      · rw [hm, hl.2 m hm]
        exact Nat.le_refl _
      · rw [hm]
        exact hl.2.2.2 m hm
    simp only [EventHub.step] at hs
    split at hs <;> cases hs <;> exact hback (by simp_all) rfl

/-- What a socket is promised. -/
structure EventHub.Faithful (hub : EventHub) (c : Connection) : Prop where
  /-- The readable events after `since`, ascending, each once, up to some point. -/
  exact : c.durable <+: readable hub.log c.start
  /-- Nothing follows a demand for a snapshot. -/
  ended : ∀ pre m post, c.wire = pre ++ m :: post → m.isSnapshot = true → post = []
  /-- A live socket with nothing to do has been sent all that was fetched. -/
  caughtUp : c.await = .getting → c.queue = [] → hub.lock = .free →
    hub.cursor = some hub.head → c.durable = readable hub.log c.start

/-- A socket misses nothing and repeats nothing. -/
theorem socket_faithful (cfg : EventHub.Config) {hub : EventHub}
    (h : (gateway cfg).Reach anyStep hub) (i : Nat) (c : Connection)
    (hc : hub.connections i = some c) : hub.Faithful c := by
  have hsteady : hub.Steady cfg := by
    refine h.invariant ?_ fun _ _ _ hk _ hs => hk.step hs
    rintro hub ⟨hasc, hconn, _, hcur, hlock, _⟩
    have hno : ∀ j x, hub.connections j ≠ some x := by simp [hconn]
    exact ⟨hasc, by simp [hcur], by rw [EventHub.Locked, hlock]; trivial,
      fun j x hx => absurd hx (hno j x), fun j x hx => absurd hx (hno j x),
      fun j x hx => absurd hx (hno j x), fun j x hx => absurd hx (hno j x)⟩
  have hs := hsteady.sound i c hc
  have hd := hs.delivered
  refine ⟨?_, fun pre m post hw hm => ?_, fun ha hq hlock hcur => ?_⟩
  · unfold Connection.Delivered at hd
    split at hd
    · exact hd.2 ▸ readableTo_prefix hsteady.ascending
    · exact hd.2 ▸ readableTo_prefix hsteady.ascending
    · exact hd.2 ▸ readableTo_prefix hsteady.ascending
    · exact hd.2 ▸ readableTo_prefix hsteady.ascending
    · exact (List.prefix_append _ _).trans (hd.2 ▸ readableTo_prefix hsteady.ascending)
    · exact hd
    · exact hd ▸ List.nil_prefix
  · cases post with
    | nil => rfl
    | cons x post =>
      have hmem : m ∈ c.wire.dropLast := by
        rw [hw, List.dropLast_append_cons]
        simp
      rw [hs.ended.2 m hmem] at hm
      cases hm
  · have hopen : c.opened = true := by
      cases ho : c.opened with
      | true => rfl
      | false => exact absurd ha (hs.opened ho).1
    have hclosing : c.closing = none := by
      by_contra hne
      rcases hs.closing hne with hf | ⟨r, hf, _⟩ | ⟨r, hf⟩
      · rw [ha] at hf
        cases hf
      · rw [ha] at hf
        cases hf
      · rw [hq] at hf
        cases hf
    obtain ⟨_, hfed⟩ := hsteady.fed i c hc (hsteady.opened i c hc hopen) (by rw [ha]; rfl)
    obtain ⟨r, hf, hcov⟩ := hfed hclosing
    rw [Connection.Covers, ha] at hcov
    rw [Connection.pending, hq] at hf
    rw [Connection.Delivered, ha] at hd
    have hpos : hub.position = headOf hub.log := by rw [EventHub.position, hlock, hcur]; rfl
    -- nothing readable is left after the last seq that was sent
    have hnone : readableTo hub.log c.lastSentSeq (headOf hub.log) = [] := by
      rw [readableTo, List.map_eq_nil_iff]
      refine List.filter_eq_nil_iff.mpr fun x hx hv => ?_
      obtain ⟨hx, hlt, hle⟩ := mem_window.mp hx
      have hover := hf x hx hv (Nat.lt_of_le_of_lt hcov hlt)
      rw [hpos] at hover
      omega
    have hall : readable hub.log c.start = readableTo hub.log c.start (headOf hub.log) := by
      rw [readable, readableTo, window_head (Nat.le_refl _)]
    rw [hall, readableTo_split hsteady.ascending hd.1 hs.sent_le, hnone, List.append_nil]
    exact hd.2

/-- Three events, one of them not readable. -/
def quiet : EventHub :=
  ⟨[⟨1, true⟩, ⟨4, false⟩, ⟨5, true⟩], fun _ => none, [], none, .free, 0⟩

theorem socket_faithful_overlapping : ∃ (hub : EventHub) (c : Connection), hub.connections 0 = some c ∧
    c.durable = [5, 7, 9] ∧ hub.Faithful c := by
  -- 7 is committed while the socket connects, and comes both in the backlog and live
  let steps : List Act := [.connect 0 (some 1), .proceed 0, .proceed 0, .proceed 0, .proceed 0,
    .proceed 0, .commit [⟨7, true⟩], .fetch, .fetchEnter, .fetchProceed, .fetchProceed,
    .fetchProceed, .proceed 0, .proceed 0, .proceed 0, .proceed 0, .commit [⟨9, true⟩], .fetch,
    .fetchEnter, .fetchProceed, .fetchProceed, .fetchProceed, .proceed 0, .proceed 0]
  have hrun : ((System.follow anyStep (EventHub.step EventHub.default) quiet steps).bind
      fun hub => hub.connections 0).map Connection.durable = some [5, 7, 9] := by decide +kernel
  obtain ⟨c, hbind, hdur⟩ := Option.map_eq_some_iff.mp hrun
  obtain ⟨hub, hfollow, hc⟩ := Option.bind_eq_some_iff.mp hbind
  have hinit : (gateway EventHub.default).init quiet :=
    ⟨by simp [Ascending, quiet], rfl, rfl, rfl, rfl, rfl⟩
  exact ⟨hub, c, hc, hdur, socket_faithful EventHub.default
    ⟨quiet, hinit, System.follow_path (fun _ _ _ hs => hs) hfollow⟩ 0 c hc⟩

end Autora.Realtime
