import Autora.Lib.Systems
import Autora.Events

/-! The browser's realtime client: one company's store is kept in sync over a socket that is
opened again whenever it closes. -/

namespace Autora.Clients

open Systems

inductive ConnectionStatus where
  | idle | connecting | live | reconnecting | offline | unauthorized | notFound
  deriving DecidableEq

/-- What the client reads of the store's company. -/
structure Company where
  companyId : Id
  lastSeq : Nat

/-- An event as the reducer looks at it before it applies it. -/
structure Envelope where
  seq : Option Nat
  companyId : Id

structure Store where
  company : Option Company
  status : ConnectionStatus

/-- A socket the client has created. -/
structure Socket where
  since : Nat
  /-- The `opened` of its handlers. -/
  opened : Bool
  /-- The client has closed it, or its connection is over. -/
  closed : Bool

structure RealtimeClientOptions where
  companyId : Id
  offlineAfterFailures : Nat
  staleAfterHiddenMs : Nat
  ackEveryEvents : Nat

inductive HelloMode where
  | live | backlog | snapshotRequired

/-- A message the server sends; `other` is a text that is no JSON, or a type without a case. -/
inductive Message where
  | hello (mode : HelloMode)
  -- an item that does not parse is dropped
  | events (items : List (Option Envelope))
  | backlogDone
  | event (envelope : Option Envelope)
  | snapshotRequired
  | error (code : String)
  | other

/-- What becomes of the request for a snapshot. -/
inductive SnapshotAnswer where
  -- the status is 401 or 404
  | refused (status : ConnectionStatus)
  -- no answer, another status, or a body that is no snapshot
  | failed
  | hydrated (company : Company)

/-- The client, with its store and its timers, the sockets it has created and the calls of
`open` that await their snapshot. -/
structure RealtimeClient where
  store : Store
  socket : Option Nat
  running : Bool
  halted : Option ConnectionStatus
  needSnapshot : Bool
  failures : Nat
  reconnectTimer : Bool
  /-- The socket the armed watchdog looks at. -/
  watchdog : Option Nat
  ackTimer : Bool
  lastMessageAt : Nat
  unacked : Nat
  now : Nat
  sockets : List Socket
  opens : Nat

/-! ## The store -/

-- `applyEvent`: what was seen, or is another company's, is ignored
def Company.apply (c : Company) (e : Envelope) : Company :=
  match e.seq with
  | none => c
  | some seq => if seq ≤ c.lastSeq ∨ e.companyId ≠ c.companyId then c else { c with lastSeq := seq }

-- `reduce`, with the number of events that were applied
def Company.applyAll : Company → List (Option Envelope) → Company × Nat
  | c, [] => (c, 0)
  | c, none :: items => c.applyAll items
  | c, some e :: items =>
    let rest := (c.apply e).applyAll items
    (rest.1, if (c.apply e).lastSeq = c.lastSeq then rest.2 else rest.2 + 1)

namespace RealtimeClient

variable (o : RealtimeClientOptions) (c : RealtimeClient)

def applyEvents (items : List (Option Envelope)) : RealtimeClient × Nat :=
  match c.store.company with
  | none => (c, 0)
  | some company =>
    let (company', applied) := company.applyAll items
    ({ c with store := { c.store with company := some company' } }, applied)

def setStatus (status : ConnectionStatus) : RealtimeClient :=
  { c with store := { c.store with status := status } }

/-! ## Helpers -/

def reconnectingStatus : ConnectionStatus :=
  if o.offlineAfterFailures ≤ c.failures then .offline else .reconnecting

def scheduleReconnect : RealtimeClient := { c with reconnectTimer := true }

def armWatchdog (i : Nat) : RealtimeClient := { c with watchdog := some i }

def clearWatchdog : RealtimeClient := { c with watchdog := none }

def clearTimers : RealtimeClient :=
  { c with watchdog := none, reconnectTimer := false, ackTimer := false }

def halt (status : ConnectionStatus) : RealtimeClient :=
  ({ c with halted := some status }.clearTimers).setStatus status

-- `socket.close`, or the end of its connection
def closeSocket (i : Nat) : RealtimeClient :=
  { c with sockets := c.sockets.modify i fun s => { s with closed := true } }

def openedSocket (i : Nat) : RealtimeClient :=
  { c with sockets := c.sockets.modify i fun s => { s with opened := true } }

/-- `flushAck`; a socket that has not opened refuses to send. -/
def flushAck : RealtimeClient :=
  if c.unacked = 0 then c
  else match c.socket.bind fun i => c.sockets[i]? with
    | some s => if s.opened = true then { c with unacked := 0 } else c
    | none => c

def count (applied : Nat) : RealtimeClient :=
  let c := { c with unacked := c.unacked + applied }
  if o.ackEveryEvents ≤ c.unacked then c.flushAck else c

/-! ## The connection -/

def closeSnapshotRequired : Nat := 4000
def closeHeartbeatTimeout : Nat := 4002
def closeRehydrate : Nat := 4003

-- `HALT`
def haltStatus (code : Nat) : Option ConnectionStatus :=
  [(4401, ConnectionStatus.unauthorized), (4404, .notFound)].lookup code

def onClose (i : Nat) (code : Nat) : RealtimeClient :=
  if c.socket ≠ some i then c
  else
    let c := { c with socket := none }.clearWatchdog
    if c.running = false ∨ c.halted.isSome = true then c
    else match haltStatus code with
      | some status => c.halt status
      | none =>
        if code = closeSnapshotRequired ∨ code = closeRehydrate then
          { c with needSnapshot := true }.scheduleReconnect
        else
          let c := { c with failures := c.failures + 1 }
          (c.setStatus (c.reconnectingStatus o)).scheduleReconnect

def abandon (i : Nat) (code : Nat) : RealtimeClient := (c.closeSocket i).onClose o i code

/-- `open` from where it has its snapshot. -/
def connect : RealtimeClient :=
  if c.running = false then c
  else
    let i := c.sockets.length
    let since := (c.store.company.map Company.lastSeq).getD 0
    let c := { c with
      sockets := c.sockets ++ [Socket.mk since false false]
      socket := some i
      lastMessageAt := c.now }
    c.armWatchdog i

/-- `open`, to its end or to where it awaits the snapshot. -/
def open_ : RealtimeClient :=
  if c.running = false ∨ c.halted.isSome = true then c
  else
    let c := c.setStatus (if c.failures = 0 then .connecting else c.reconnectingStatus o)
    if c.needSnapshot = true ∨ c.store.company.map Company.companyId ≠ some o.companyId then
      { c with opens := c.opens + 1 }
    else c.connect

/-- A call of `open` goes on with the answer it has awaited. -/
def answered : SnapshotAnswer → RealtimeClient
  | .refused status => { c with opens := c.opens - 1 }.halt status
  | .failed => { c with opens := c.opens - 1, failures := c.failures + 1 }.scheduleReconnect
  | .hydrated company =>
    let c := { c with
      opens := c.opens - 1
      store := { c.store with company := some company }
      needSnapshot := false }
    c.connect

def onMessage (i : Nat) (message : Message) : RealtimeClient :=
  if c.socket ≠ some i then c
  else
    let c := { c with lastMessageAt := c.now }.armWatchdog i
    match message with
    | .hello .snapshotRequired => c
    | .hello .live => { c with failures := 0 }.setStatus .live
    | .hello .backlog => { c with failures := 0 }.setStatus .connecting
    | .events items =>
      let (c, applied) := c.applyEvents items
      c.count o applied
    | .backlogDone => c.setStatus .live
    | .event envelope =>
      let (c, applied) := c.applyEvents [envelope]
      c.count o applied
    | .snapshotRequired => { c with needSnapshot := true }
    | .error code =>
      if code = "unauthorized" then c.halt .unauthorized
      else if code = "not_found" then c.halt .notFound
      else c
    | .other => c

def start : RealtimeClient :=
  if c.running = true then c
  else { c with running := true, halted := none, failures := 0, ackTimer := true }.open_ o

def stop : RealtimeClient :=
  let c := { c with running := false }.clearTimers
  let c := match c.socket with
    | some i => { c with socket := none }.closeSocket i
    | none => c
  c.setStatus .idle

def setVisible (visible : Bool) : RealtimeClient :=
  if visible = false ∨ c.running = false ∨ c.halted.isSome = true then c
  else if o.staleAfterHiddenMs < c.now - c.lastMessageAt then
    let c := { c with needSnapshot := true }
    match c.socket with
    | some i => c.abandon o i closeRehydrate
    | none => c.scheduleReconnect
  else c

/-- The socket's handlers on an error. A browser fires it when the connection is over, and
the close event after it; where none comes, that is no difference. -/
def onError (i : Nat) : RealtimeClient :=
  let c := c.closeSocket i
  let opened := (c.sockets[i]?.map Socket.opened).getD false
  let c := if opened = true then c else c.onClose o i 1006
  c.onClose o i 1006

end RealtimeClient

/-! ## Runs -/

inductive Act where
  | start
  | stop
  | setVisible (visible : Bool)
  | clock (now : Nat)
  | snapshot (answer : SnapshotAnswer)
  | socketOpen (i : Nat)
  | socketMessage (i : Nat) (message : Message)
  | socketError (i : Nat)
  | socketClose (i : Nat) (code : Nat)
  | reconnectFires
  | watchdogFires
  | ackFires

namespace RealtimeClient

/-- One step: a call, an answer, an event of a socket or a timer that is pending. -/
def step (o : RealtimeClientOptions) (c : RealtimeClient) : Act → Option RealtimeClient
  | .start => some (c.start o)
  | .stop => some c.stop
  | .setVisible visible => some (c.setVisible o visible)
  | .clock now => some { c with now := now }
  | .snapshot answer => if 0 < c.opens then some (c.answered answer) else none
  | .socketOpen i => if i < c.sockets.length then some (c.openedSocket i) else none
  | .socketMessage i message =>
    if i < c.sockets.length then some ((c.openedSocket i).onMessage o i message) else none
  | .socketError i => if i < c.sockets.length then some (c.onError o i) else none
  | .socketClose i code =>
    if i < c.sockets.length then some ((c.closeSocket i).onClose o i code) else none
  | .reconnectFires =>
    if c.reconnectTimer = true then some ({ c with reconnectTimer := false }.open_ o) else none
  | .watchdogFires => match c.watchdog with
    | none => none
    | some i =>
      let c := { c with watchdog := none }
      some (if c.socket = some i then c.abandon o i closeHeartbeatTimeout else c)
  | .ackFires => if c.ackTimer = true then some c.flushAck else none

/-- A client as its constructor makes it, over any store. -/
def new (store : Store) (now : Nat) : RealtimeClient where
  store := store
  socket := none
  running := false
  halted := none
  needSnapshot := true
  failures := 0
  reconnectTimer := false
  watchdog := none
  ackTimer := false
  lastMessageAt := 0
  unacked := 0
  now := now
  sockets := []
  opens := 0

def system (o : RealtimeClientOptions) : System RealtimeClient Act where
  init := fun c => ∃ store now, c = new store now
  step := fun c a d => c.step o a = some d

end RealtimeClient

/-! ## One connection -/

namespace RealtimeClient

/-- A socket that is not yet closed. -/
def Live (c : RealtimeClient) (i : Nat) : Prop := (c.sockets.map Socket.closed)[i]? = some false

/-- The connections of a client: at most one at a time; while it is started and not halted,
one, or a reconnect or a snapshot to come; and none while it is not started. -/
structure Kept (c : RealtimeClient) : Prop where
  one : ∀ i j, c.Live i → c.Live j → i = j
  syncing : c.running = true → c.halted = none →
    (∃ i, c.socket = some i ∧ c.Live i) ∨ c.reconnectTimer = true ∨ 0 < c.opens
  stopped : c.running = false → ∀ i, ¬ c.Live i

/-- The step calls `open`, and the call goes past its first check. -/
def begins (c : RealtimeClient) : Act → Prop
  | .start => c.running = false
  | .reconnectFires => c.running = true ∧ c.halted = none
  | _ => False

/-- No call of `open` begins while another awaits its snapshot, or over a socket. -/
def undoubled (c : RealtimeClient) (a : Act) : Prop :=
  c.begins a → c.opens = 0 ∧ c.socket = none

/-- The invariant of runs with such steps. -/
structure Sound (c : RealtimeClient) : Prop where
  current : ∀ i, c.Live i ↔ c.socket = some i
  waiting : 0 < c.opens → c.socket = none
  single : c.opens ≤ 1
  stopped : c.running = false → c.socket = none
  syncing : c.running = true → c.halted = none →
    c.socket ≠ none ∨ c.reconnectTimer = true ∨ 0 < c.opens

/-- What the invariant looks at has not changed. -/
structure Same (c d : RealtimeClient) : Prop where
  live : ∀ i, d.Live i ↔ c.Live i
  socket : d.socket = c.socket
  running : d.running = c.running
  halted : d.halted = c.halted
  reconnectTimer : d.reconnectTimer = c.reconnectTimer
  opens : d.opens = c.opens

variable {o : RealtimeClientOptions} {c d e : RealtimeClient} {i j : Nat}

theorem Sound.kept (h : c.Sound) : c.Kept where
  one i j hi hj := by
    have hsame := ((h.current i).mp hi).symm.trans ((h.current j).mp hj)
    exact Option.some.inj hsame
  syncing hrun hhalt := by
    rcases h.syncing hrun hhalt with hsocket | hrest
    · obtain ⟨i, hi⟩ := Option.ne_none_iff_exists'.mp hsocket
      exact .inl ⟨i, hi, (h.current i).mpr hi⟩
    · exact .inr hrest
  stopped hrun i hi := by
    have hsocket := (h.current i).mp hi
    rw [h.stopped hrun] at hsocket
    cases hsocket

theorem Same.refl (c : RealtimeClient) : c.Same c := ⟨fun _ => .rfl, rfl, rfl, rfl, rfl, rfl⟩

theorem Same.trans (h : c.Same d) (h' : d.Same e) : c.Same e where
  live i := (h'.live i).trans (h.live i)
  socket := h'.socket.trans h.socket
  running := h'.running.trans h.running
  halted := h'.halted.trans h.halted
  reconnectTimer := h'.reconnectTimer.trans h.reconnectTimer
  opens := h'.opens.trans h.opens

theorem Sound.same (h : c.Sound) (hs : c.Same d) : d.Sound where
  current i := by
    rw [hs.live i, hs.socket]
    exact h.current i
  waiting := by
    rw [hs.opens, hs.socket]
    exact h.waiting
  single := by
    rw [hs.opens]
    exact h.single
  stopped := by
    rw [hs.running, hs.socket]
    exact h.stopped
  syncing := by
    rw [hs.running, hs.halted, hs.socket, hs.reconnectTimer, hs.opens]
    exact h.syncing

theorem live_openedSocket : (c.openedSocket i).Live j ↔ c.Live j := by
  simp only [Live, openedSocket, List.getElem?_map, List.getElem?_modify]
  cases c.sockets[j]? with
  | none => simp
  | some s => by_cases h : i = j <;> simp [h]

theorem live_closeSocket : (c.closeSocket i).Live j ↔ c.Live j ∧ j ≠ i := by
  simp only [Live, closeSocket, List.getElem?_map, List.getElem?_modify]
  cases c.sockets[j]? with
  | none => simp
  | some s =>
    by_cases h : i = j
    · simp [h]
    · have hne : j ≠ i := fun heq => h heq.symm
      simp [h, hne]

theorem same_openedSocket : c.Same (c.openedSocket i) :=
  ⟨fun _ => live_openedSocket, rfl, rfl, rfl, rfl, rfl⟩

theorem same_setStatus {status : ConnectionStatus} : c.Same (c.setStatus status) :=
  ⟨fun _ => .rfl, rfl, rfl, rfl, rfl, rfl⟩

theorem same_flushAck : c.Same c.flushAck := by
  unfold flushAck
  by_cases hzero : c.unacked = 0
  · rw [if_pos hzero]
    exact .refl c
  · rw [if_neg hzero]
    cases c.socket.bind fun i => c.sockets[i]? with
    | none => exact .refl c
    | some s =>
      by_cases hopened : s.opened = true
      · simp only [hopened, if_true]
        exact ⟨fun _ => .rfl, rfl, rfl, rfl, rfl, rfl⟩
      · simp only [hopened]
        exact .refl c

theorem same_count (applied : Nat) : c.Same (c.count o applied) := by
  have hadd : c.Same { c with unacked := c.unacked + applied } :=
    ⟨fun _ => .rfl, rfl, rfl, rfl, rfl, rfl⟩
  unfold count
  by_cases hmany : o.ackEveryEvents ≤ c.unacked + applied
  · simp only [hmany, if_true]
    exact hadd.trans same_flushAck
  · simp only [hmany, if_false]
    exact hadd

theorem same_applyEvents (items : List (Option Envelope)) : c.Same (c.applyEvents items).1 := by
  unfold applyEvents
  cases c.store.company with
  | none => exact .refl c
  | some company => exact ⟨fun _ => .rfl, rfl, rfl, rfl, rfl, rfl⟩

/-- A halted client need not sync. -/
theorem Sound.halt (h : c.Sound) (status : ConnectionStatus) : (c.halt status).Sound where
  current := h.current
  waiting := h.waiting
  single := h.single
  stopped := h.stopped
  syncing _ hnone := nomatch hnone

theorem Sound.onMessage (h : c.Sound) {message : Message} : (c.onMessage o i message).Sound := by
  unfold RealtimeClient.onMessage
  by_cases hsocket : c.socket = some i
  · rw [if_neg (not_not_intro hsocket)]
    have harmed : c.Same ({ c with lastMessageAt := c.now }.armWatchdog i) :=
      ⟨fun _ => .rfl, rfl, rfl, rfl, rfl, rfl⟩
    have hsound := h.same harmed
    generalize { c with lastMessageAt := c.now }.armWatchdog i = d at hsound
    have hreset : d.Same { d with failures := 0 } := ⟨fun _ => .rfl, rfl, rfl, rfl, rfl, rfl⟩
    have hcounted : ∀ items, (((d.applyEvents items).1).count o (d.applyEvents items).2).Sound :=
      fun items => hsound.same ((same_applyEvents items).trans (same_count _))
    cases message with
    | hello mode =>
      cases mode with
      | snapshotRequired => exact hsound
      | live => exact hsound.same (hreset.trans same_setStatus)
      | backlog => exact hsound.same (hreset.trans same_setStatus)
    | events items => exact hcounted items
    | backlogDone => exact hsound.same same_setStatus
    | event envelope => exact hcounted [envelope]
    | snapshotRequired => exact hsound.same ⟨fun _ => .rfl, rfl, rfl, rfl, rfl, rfl⟩
    | error code =>
      dsimp only
      by_cases hauth : code = "unauthorized"
      · rw [if_pos hauth]
        exact hsound.halt .unauthorized
      · rw [if_neg hauth]
        by_cases hfound : code = "not_found"
        · rw [if_pos hfound]
          exact hsound.halt .notFound
        · rw [if_neg hfound]
          exact hsound
    | other => exact hsound
  · rw [if_pos hsocket]
    exact h

/-- What `onClose` leaves of a client whose socket it is. -/
theorem onClose_current (h : c.socket = some i) (code : Nat) :
    (c.onClose o i code).sockets = c.sockets ∧ (c.onClose o i code).socket = none ∧
      (c.onClose o i code).running = c.running ∧ (c.onClose o i code).opens = c.opens ∧
      ((c.onClose o i code).running = true → (c.onClose o i code).halted = none →
        (c.onClose o i code).reconnectTimer = true) := by
  unfold onClose
  rw [if_neg (not_not_intro h)]
  by_cases hidle : c.running = false ∨ c.halted.isSome = true
  · dsimp only [clearWatchdog]
    rw [if_pos hidle]
    refine ⟨rfl, rfl, rfl, rfl, fun hrun hhalt => ?_⟩
    rcases hidle with hstopped | hhalted
    · cases hrun.symm.trans hstopped
    · rw [hhalt] at hhalted
      cases hhalted
  · dsimp only [clearWatchdog]
    rw [if_neg hidle]
    cases haltStatus code with
    | some status => exact ⟨rfl, rfl, rfl, rfl, fun _ hnone => nomatch hnone⟩
    | none =>
      dsimp only
      by_cases hcode : code = closeSnapshotRequired ∨ code = closeRehydrate
      · rw [if_pos hcode]
        exact ⟨rfl, rfl, rfl, rfl, fun _ _ => rfl⟩
      · rw [if_neg hcode]
        exact ⟨rfl, rfl, rfl, rfl, fun _ _ => rfl⟩

theorem onClose_other (h : c.socket ≠ some i) (code : Nat) : c.onClose o i code = c := by
  unfold onClose
  rw [if_pos h]

/-- The end of a socket, whichever it is. -/
theorem Sound.closed (h : c.Sound) (i code : Nat) :
    ((c.closeSocket i).onClose o i code).Sound := by
  by_cases hsocket : c.socket = some i
  · obtain ⟨hsockets, hnone, hrun, hopens, htimer⟩ :=
      onClose_current (o := o) (c := c.closeSocket i) hsocket code
    have hlive : ∀ j, ¬ ((c.closeSocket i).onClose o i code).Live j := by
      intro j hj
      have hclosed : (c.closeSocket i).Live j := by
        unfold Live at hj ⊢
        rwa [hsockets] at hj
      obtain ⟨hj', hne⟩ := live_closeSocket.mp hclosed
      have hsame := ((h.current j).mp hj').symm.trans hsocket
      exact hne (Option.some.inj hsame)
    exact {
      current := fun j => iff_of_false (hlive j) (by rw [hnone]; nofun)
      waiting := fun _ => hnone
      single := by
        rw [hopens]
        exact h.single
      stopped := fun _ => hnone
      syncing := fun hrun' hhalt => .inr (.inl (htimer hrun' hhalt)) }
  · rw [onClose_other (c := c.closeSocket i) hsocket]
    refine h.same ⟨fun j => ?_, rfl, rfl, rfl, rfl, rfl⟩
    rw [live_closeSocket]
    refine ⟨And.left, fun hj => ⟨hj, fun heq => hsocket ?_⟩⟩
    rw [← heq]
    exact (h.current j).mp hj

theorem Sound.onError (h : c.Sound) (i : Nat) : (c.onError o i).Sound := by
  have honce := h.closed (o := o) i 1006
  unfold RealtimeClient.onError
  by_cases hopened : ((c.closeSocket i).sockets[i]?.map Socket.opened).getD false = true
  · simp only [hopened, if_true]
    exact honce
  · simp only [hopened]
    have hgone : ((c.closeSocket i).onClose o i 1006).socket ≠ some i := by
      by_cases hsocket : c.socket = some i
      · rw [(onClose_current (c := c.closeSocket i) hsocket 1006).2.1]
        nofun
      · rw [onClose_other (c := c.closeSocket i) hsocket]
        exact hsocket
    simp only [Bool.false_eq_true, if_false]
    rw [onClose_other hgone]
    exact honce

/-- A client with nothing open and nothing awaited. -/
structure Bare (c : RealtimeClient) : Prop where
  live : ∀ i, ¬ c.Live i
  socket : c.socket = none
  opens : c.opens = 0

theorem Sound.bare (h : c.Sound) (hsocket : c.socket = none) (hopens : c.opens = 0) : c.Bare where
  live i hi := by
    have hsome := (h.current i).mp hi
    rw [hsocket] at hsome
    cases hsome
  socket := hsocket
  opens := hopens

theorem connect_running (h : c.running = true) :
    c.connect.sockets.map Socket.closed = c.sockets.map Socket.closed ++ [false] ∧
      c.connect.socket = some c.sockets.length ∧ c.connect.running = true ∧
      c.connect.opens = c.opens := by
  have hrun : ¬ c.running = false := by
    rw [h]
    nofun
  unfold connect
  rw [if_neg hrun]
  exact ⟨by simp [armWatchdog], rfl, h, rfl⟩

theorem connect_stopped (h : c.running = false) : c.connect = c := by
  unfold connect
  rw [if_pos h]

/-- A client that is not to sync. -/
theorem Bare.idle (h : c.Bare) (hidle : c.running = false ∨ c.halted.isSome = true) : c.Sound where
  current i := iff_of_false (h.live i) (by rw [h.socket]; nofun)
  waiting _ := h.socket
  single := by
    rw [h.opens]
    exact Nat.zero_le 1
  stopped _ := h.socket
  syncing hrun hhalt := by
    rcases hidle with hstopped | hhalted
    · cases hrun.symm.trans hstopped
    · rw [hhalt] at hhalted
      cases hhalted

theorem Bare.connect (h : c.Bare) : c.connect.Sound := by
  by_cases hrun : c.running = true
  swap
  · have hstopped : c.running = false := Bool.eq_false_iff.mpr hrun
    rw [connect_stopped hstopped]
    exact h.idle (.inl hstopped)
  obtain ⟨hsockets, hsocket, hrun', hopens⟩ := connect_running hrun
  have hlive : ∀ i, c.connect.Live i ↔ c.connect.socket = some i := by
    intro i
    rw [hsocket, Option.some.injEq]
    unfold Live
    rw [hsockets]
    by_cases hi : i < (c.sockets.map Socket.closed).length
    · rw [List.getElem?_append_left hi]
      have hlt : i < c.sockets.length := by simpa using hi
      exact iff_of_false (h.live i) (by omega)
    · rw [List.getElem?_append_right (Nat.not_lt.mp hi), List.getElem?_singleton]
      rw [List.length_map] at hi ⊢
      by_cases heq : i - c.sockets.length = 0
      · rw [if_pos heq]
        exact iff_of_true rfl (by omega)
      · rw [if_neg heq]
        exact iff_of_false nofun (by omega)
  have hzero : c.connect.opens = 0 := hopens.trans h.opens
  exact {
    current := hlive
    waiting := fun hpos => by omega
    single := by omega
    stopped := fun hstopped => nomatch hrun'.symm.trans hstopped
    syncing := fun _ _ => .inl (by rw [hsocket]; nofun) }

theorem Bare.open_ (h : c.Bare) : (c.open_ o).Sound := by
  unfold RealtimeClient.open_
  by_cases hidle : c.running = false ∨ c.halted.isSome = true
  · rw [if_pos hidle]
    exact h.idle hidle
  · rw [if_neg hidle]
    generalize hstatus : (if c.failures = 0 then ConnectionStatus.connecting
      else c.reconnectingStatus o) = status
    have hbare : (c.setStatus status).Bare := ⟨h.live, h.socket, h.opens⟩
    dsimp only
    by_cases hneed : (c.setStatus status).needSnapshot = true ∨
        (c.setStatus status).store.company.map Company.companyId ≠ some o.companyId
    · rw [if_pos hneed]
      exact {
        current := fun i => iff_of_false (h.live i) (by
          change c.socket ≠ some i
          rw [h.socket]
          nofun)
        waiting := fun _ => h.socket
        single := by
          change c.opens + 1 ≤ 1
          rw [h.opens]
        stopped := fun _ => h.socket
        syncing := fun _ _ => .inr (.inr (Nat.succ_pos c.opens)) }
    · rw [if_neg hneed]
      exact hbare.connect

theorem Sound.scheduleReconnect (h : c.Sound) : c.scheduleReconnect.Sound where
  current := h.current
  waiting := h.waiting
  single := h.single
  stopped := h.stopped
  syncing _ _ := .inr (.inl rfl)

theorem Sound.setVisible (h : c.Sound) (visible : Bool) : (c.setVisible o visible).Sound := by
  unfold RealtimeClient.setVisible
  by_cases hidle : visible = false ∨ c.running = false ∨ c.halted.isSome = true
  · rw [if_pos hidle]
    exact h
  · rw [if_neg hidle]
    by_cases hstale : o.staleAfterHiddenMs < c.now - c.lastMessageAt
    · rw [if_pos hstale]
      have hsame : c.Same { c with needSnapshot := true } :=
        ⟨fun _ => .rfl, rfl, rfl, rfl, rfl, rfl⟩
      have hsound := h.same hsame
      generalize ({ c with needSnapshot := true } : RealtimeClient) = d at hsound ⊢
      cases hsocket : d.socket with
      | some i =>
        simp only [hsocket]
        exact hsound.closed i closeRehydrate
      | none =>
        simp only [hsocket]
        exact hsound.scheduleReconnect
    · rw [if_neg hstale]
      exact h

theorem Sound.answered (h : c.Sound) (hopens : 0 < c.opens) (answer : SnapshotAnswer) :
    (c.answered answer).Sound := by
  have hsocket := h.waiting hopens
  have hone : c.opens - 1 = 0 := by
    have hsingle := h.single
    omega
  have hbare : ∀ d : RealtimeClient, d.sockets = c.sockets → d.socket = c.socket →
      d.opens = c.opens - 1 → d.Bare := by
    intro d hd hd' hd''
    refine ⟨fun i hi => ?_, hd'.trans hsocket, hd''.trans hone⟩
    have hlive : c.Live i := by
      unfold Live at hi ⊢
      rwa [hd] at hi
    have hsome := (h.current i).mp hlive
    rw [hsocket] at hsome
    cases hsome
  cases answer with
  | refused status =>
    exact {
      current := h.current
      waiting := fun _ => hsocket
      single := by
        change c.opens - 1 ≤ 1
        omega
      stopped := h.stopped
      syncing := fun _ hnone => nomatch hnone }
  | failed =>
    exact {
      current := h.current
      waiting := fun _ => hsocket
      single := by
        change c.opens - 1 ≤ 1
        omega
      stopped := h.stopped
      syncing := fun _ _ => .inr (.inl rfl) }
  | hydrated company =>
    have hd := hbare { c with
      opens := c.opens - 1
      store := { c.store with company := some company }
      needSnapshot := false } rfl rfl rfl
    exact hd.connect

/-- A client that has been stopped, and the sockets it has created. -/
structure Gone (n : Nat) (c : RealtimeClient) : Prop where
  running : c.running = false
  socket : c.socket = none
  live : ∀ i, ¬ c.Live i
  created : c.sockets.length = n

theorem Sound.stop_gone (h : c.Sound) : c.stop.Gone c.sockets.length := by
  unfold RealtimeClient.stop
  dsimp only [clearTimers]
  cases hsocket : c.socket with
  | none =>
    refine ⟨rfl, rfl, fun i hi => ?_, rfl⟩
    have hlive : c.Live i := hi
    have hsome := (h.current i).mp hlive
    rw [hsocket] at hsome
    cases hsome
  | some i =>
    refine ⟨rfl, rfl, fun j hj => ?_, List.length_modify ..⟩
    have hclosed : (c.closeSocket i).Live j := hj
    obtain ⟨hlive, hne⟩ := live_closeSocket.mp hclosed
    have hsame := ((h.current j).mp hlive).symm.trans hsocket
    exact hne (Option.some.inj hsame)

theorem stop_opens : c.stop.opens = c.opens := by
  unfold stop
  dsimp only [clearTimers]
  cases c.socket <;> rfl

theorem Sound.stop (h : c.Sound) : c.stop.Sound := by
  have hgone := h.stop_gone
  exact {
    current := fun i => iff_of_false (hgone.live i) (by rw [hgone.socket]; nofun)
    waiting := fun _ => hgone.socket
    single := by
      rw [stop_opens]
      exact h.single
    stopped := fun _ => hgone.socket
    syncing := fun hrun _ => nomatch hrun.symm.trans hgone.running }

theorem Sound.start (h : c.Sound) (hok : c.undoubled .start) : (c.start o).Sound := by
  unfold RealtimeClient.start
  by_cases hrun : c.running = true
  · rw [if_pos hrun]
    exact h
  · rw [if_neg hrun]
    obtain ⟨hopens, hsocket⟩ := hok (Bool.eq_false_iff.mpr hrun)
    have hbare := h.bare hsocket hopens
    exact Bare.open_ ⟨hbare.live, hbare.socket, hbare.opens⟩

theorem Sound.reconnectFires (h : c.Sound) (hok : c.undoubled .reconnectFires) :
    (({ c with reconnectTimer := false } : RealtimeClient).open_ o).Sound := by
  by_cases hidle : c.running = false ∨ c.halted.isSome = true
  · unfold open_
    rw [if_pos hidle]
    exact {
      current := h.current
      waiting := h.waiting
      single := h.single
      stopped := h.stopped
      syncing := fun hrun hhalt => by
        rcases hidle with hstopped | hhalted
        · cases hrun.symm.trans hstopped
        · rw [hhalt] at hhalted
          cases hhalted }
  · rw [not_or, Bool.not_eq_false, Option.not_isSome_iff_eq_none] at hidle
    obtain ⟨hopens, hsocket⟩ := hok hidle
    have hbare := h.bare hsocket hopens
    exact Bare.open_ ⟨hbare.live, hbare.socket, hbare.opens⟩

theorem Sound.step (h : c.Sound) {a : Act} (hok : c.undoubled a) (hstep : c.step o a = some d) :
    d.Sound := by
  cases a with
  | start =>
    cases hstep
    exact h.start hok
  | stop =>
    cases hstep
    exact h.stop
  | setVisible visible =>
    cases hstep
    exact h.setVisible visible
  | clock now =>
    cases hstep
    exact h.same ⟨fun _ => .rfl, rfl, rfl, rfl, rfl, rfl⟩
  | snapshot answer =>
    obtain ⟨hopens, hd⟩ := Option.ite_none_right_eq_some.mp hstep
    cases hd
    exact h.answered hopens answer
  | socketOpen i =>
    obtain ⟨-, hd⟩ := Option.ite_none_right_eq_some.mp hstep
    cases hd
    exact h.same same_openedSocket
  | socketMessage i message =>
    obtain ⟨-, hd⟩ := Option.ite_none_right_eq_some.mp hstep
    cases hd
    exact (h.same same_openedSocket).onMessage
  | socketError i =>
    obtain ⟨-, hd⟩ := Option.ite_none_right_eq_some.mp hstep
    cases hd
    exact h.onError i
  | socketClose i code =>
    obtain ⟨-, hd⟩ := Option.ite_none_right_eq_some.mp hstep
    cases hd
    exact h.closed i code
  | reconnectFires =>
    obtain ⟨-, hd⟩ := Option.ite_none_right_eq_some.mp hstep
    cases hd
    exact h.reconnectFires hok
  | watchdogFires =>
    simp only [RealtimeClient.step] at hstep
    cases hwatchdog : c.watchdog with
    | none =>
      rw [hwatchdog] at hstep
      cases hstep
    | some i =>
      rw [hwatchdog] at hstep
      cases hstep
      have hcleared : c.Same { c with watchdog := none } :=
        ⟨fun _ => .rfl, rfl, rfl, rfl, rfl, rfl⟩
      by_cases hsocket : c.socket = some i
      · rw [if_pos hsocket]
        exact (h.same hcleared).closed i closeHeartbeatTimeout
      · rw [if_neg hsocket]
        exact h.same hcleared
  | ackFires =>
    obtain ⟨-, hd⟩ := Option.ite_none_right_eq_some.mp hstep
    cases hd
    exact h.same same_flushAck

theorem new_sound (store : Store) (now : Nat) : (new store now).Sound where
  current _ := iff_of_false nofun nofun
  waiting _ := rfl
  single := Nat.zero_le 1
  stopped _ := rfl
  syncing hrun _ := nomatch hrun

theorem reach_sound (h : (system o).Reach undoubled c) : c.Sound := by
  refine System.Reach.invariant (I := Sound) ?_ (fun _ _ _ hs hok hstep => hs.step hok hstep) h
  rintro c ⟨store, now, rfl⟩
  exact new_sound store now

/-! ## After a stop, and after two calls of open -/

variable {n : Nat} {a : Act}

theorem flushAck_gone (h : c.socket = none) : c.flushAck = c := by
  unfold flushAck
  rw [h]
  exact ite_self c

theorem Gone.same (h : c.Gone n) (hs : c.Same d) (hsockets : d.sockets.length = c.sockets.length) :
    d.Gone n where
  running := hs.running.trans h.running
  socket := hs.socket.trans h.socket
  live i hi := h.live i ((hs.live i).mp hi)
  created := hsockets.trans h.created

theorem Gone.closeSocket (h : c.Gone n) (i : Nat) : (c.closeSocket i).Gone n where
  running := h.running
  socket := h.socket
  live _ hj := h.live _ (live_closeSocket.mp hj).1
  created := (List.length_modify ..).trans h.created

theorem Gone.onClose (h : c.Gone n) (i code : Nat) : c.onClose o i code = c :=
  onClose_other (by rw [h.socket]; nofun) code

theorem Gone.answered (h : c.Gone n) (answer : SnapshotAnswer) : (c.answered answer).Gone n := by
  cases answer with
  | refused status => exact ⟨h.running, h.socket, h.live, h.created⟩
  | failed => exact ⟨h.running, h.socket, h.live, h.created⟩
  | hydrated company =>
    unfold RealtimeClient.answered
    dsimp only
    have hgone : Gone n { c with
        opens := c.opens - 1
        store := { c.store with company := some company }
        needSnapshot := false } := ⟨h.running, h.socket, h.live, h.created⟩
    have hkeep := connect_stopped hgone.running
    rw [← hkeep] at hgone
    exact hgone

theorem Gone.step (h : c.Gone n) (ha : a ≠ .start) (hstep : c.step o a = some d) : d.Gone n := by
  cases a with
  | start => exact absurd rfl ha
  | stop =>
    cases hstep
    unfold RealtimeClient.stop
    simp only [clearTimers, h.socket]
    exact ⟨rfl, rfl, h.live, h.created⟩
  | setVisible visible =>
    cases hstep
    unfold RealtimeClient.setVisible
    rw [if_pos (.inr (.inl h.running))]
    exact h
  | clock now =>
    cases hstep
    exact h.same ⟨fun _ => .rfl, rfl, rfl, rfl, rfl, rfl⟩ rfl
  | snapshot answer =>
    obtain ⟨-, hd⟩ := Option.ite_none_right_eq_some.mp hstep
    cases hd
    exact h.answered answer
  | socketOpen i =>
    obtain ⟨-, hd⟩ := Option.ite_none_right_eq_some.mp hstep
    cases hd
    exact h.same same_openedSocket (List.length_modify ..)
  | socketMessage i message =>
    obtain ⟨-, hd⟩ := Option.ite_none_right_eq_some.mp hstep
    cases hd
    have hgone : (c.openedSocket i).Gone n := h.same same_openedSocket (List.length_modify ..)
    have hother : (c.openedSocket i).socket ≠ some i := by
      rw [hgone.socket]
      nofun
    unfold RealtimeClient.onMessage
    rw [if_pos hother]
    exact hgone
  | socketError i =>
    obtain ⟨-, hd⟩ := Option.ite_none_right_eq_some.mp hstep
    cases hd
    have hgone := h.closeSocket i
    unfold RealtimeClient.onError
    simp only [hgone.onClose, ite_self]
    exact hgone
  | socketClose i code =>
    obtain ⟨-, hd⟩ := Option.ite_none_right_eq_some.mp hstep
    cases hd
    have hgone := h.closeSocket i
    rw [hgone.onClose]
    exact hgone
  | reconnectFires =>
    obtain ⟨-, hd⟩ := Option.ite_none_right_eq_some.mp hstep
    cases hd
    unfold open_
    rw [if_pos (.inl h.running)]
    exact ⟨h.running, h.socket, h.live, h.created⟩
  | watchdogFires =>
    simp only [RealtimeClient.step, h.socket, reduceCtorEq, if_false] at hstep
    cases hwatchdog : c.watchdog with
    | none =>
      rw [hwatchdog] at hstep
      cases hstep
    | some i =>
      rw [hwatchdog] at hstep
      cases hstep
      exact ⟨h.running, rfl, h.live, h.created⟩
  | ackFires =>
    obtain ⟨-, hd⟩ := Option.ite_none_right_eq_some.mp hstep
    cases hd
    rw [flushAck_gone h.socket]
    exact h

/-- Whether a socket is closed, of each that was created. -/
def flags (c : RealtimeClient) : List Bool := c.sockets.map Socket.closed

theorem not_kept_of_two (h : d.flags = c.flags ++ [false, false]) : ¬ d.Kept := by
  intro hk
  have hfirst : d.Live c.flags.length := by
    change d.flags[c.flags.length]? = some false
    simp [h]
  have hsecond : d.Live (c.flags.length + 1) := by
    change d.flags[c.flags.length + 1]? = some false
    simp [h]
  have hsame := hk.one _ _ hfirst hsecond
  omega

theorem not_kept_of_live (h : d.flags = c.flags ++ [false]) (hi : c.Live i) : ¬ d.Kept := by
  intro hk
  have hlt : i < c.flags.length := (List.getElem?_eq_some_iff.mp hi).1
  have hold : d.Live i := by
    change d.flags[i]? = some false
    rw [h, List.getElem?_append_left hlt]
    exact hi
  have hnew : d.Live c.flags.length := by
    change d.flags[c.flags.length]? = some false
    simp [h]
  have hsame := hk.one _ _ hold hnew
  omega

-- a call that awaits its snapshot gets it
theorem hydrates (o : RealtimeClientOptions) (hrun : c.running = true) (hopens : 0 < c.opens) :
    ∃ d, (system o).Path anyStep c d ∧ d.running = true ∧ d.opens = c.opens - 1 ∧
      d.flags = c.flags ++ [false] := by
  obtain ⟨hflags, -, hrun', hopens'⟩ := connect_running (c := { c with
    opens := c.opens - 1
    store := { c.store with company := some ⟨o.companyId, 0⟩ }
    needSnapshot := false }) hrun
  have hstep : c.step o (.snapshot (.hydrated ⟨o.companyId, 0⟩)) =
      some (c.answered (.hydrated ⟨o.companyId, 0⟩)) := if_pos hopens
  exact ⟨_, .single ⟨_, trivial, hstep⟩, hrun', hopens', hflags⟩

theorem open_cases (hrun : c.running = true) (hhalt : c.halted = none) :
    (c.open_ o).running = true ∧
      ((c.open_ o).opens = c.opens + 1 ∧ (c.open_ o).flags = c.flags ∨
        (c.open_ o).opens = c.opens ∧ (c.open_ o).flags = c.flags ++ [false]) := by
  unfold open_
  rw [if_neg (by rw [hrun, hhalt]; nofun)]
  generalize (if c.failures = 0 then ConnectionStatus.connecting
    else c.reconnectingStatus o) = status
  dsimp only
  by_cases hneed : (c.setStatus status).needSnapshot = true ∨
      (c.setStatus status).store.company.map Company.companyId ≠ some o.companyId
  · rw [if_pos hneed]
    exact ⟨hrun, .inl ⟨rfl, rfl⟩⟩
  · rw [if_neg hneed]
    obtain ⟨hflags, -, hrun', hopens⟩ := connect_running (c := c.setStatus status) hrun
    exact ⟨hrun', .inr ⟨hopens, hflags⟩⟩

/-- A call of `open` over another one, or over a socket, may leave two sockets. -/
theorem doubled (hrun : c.running = true) (hhalt : c.halted = none)
    (h : 0 < c.opens ∨ ∃ i, c.Live i) :
    ∃ d, (system o).Path anyStep (c.open_ o) d ∧ ¬ d.Kept := by
  obtain ⟨hrun', hcases⟩ := open_cases (o := o) hrun hhalt
  rcases hcases with ⟨hopens, hflags⟩ | ⟨hopens, hflags⟩
  · obtain ⟨d, hpath, hrund, hopensd, hflagsd⟩ := hydrates o hrun' (by omega)
    rw [hflags] at hflagsd
    rcases h with hwaits | ⟨i, hi⟩
    · obtain ⟨e, hpath', -, -, hflagse⟩ := hydrates o hrund (by omega)
      rw [hflagsd, List.append_assoc] at hflagse
      exact ⟨e, hpath.trans hpath', not_kept_of_two hflagse⟩
    · exact ⟨d, hpath, not_kept_of_live hflagsd hi⟩
  · rcases h with hwaits | ⟨i, hi⟩
    · obtain ⟨d, hpath, -, -, hflagsd⟩ := hydrates o hrun' (by omega)
      rw [hflags, List.append_assoc] at hflagsd
      exact ⟨d, hpath, not_kept_of_two hflagsd⟩
    · exact ⟨_, .refl, not_kept_of_live hflags hi⟩

theorem Sound.doubled (h : c.Sound) (ha : ¬ c.undoubled a) (hstep : c.step o a = some d) :
    ∃ e, (system o).Path anyStep d e ∧ ¬ e.Kept := by
  unfold undoubled at ha
  rw [Classical.not_imp] at ha
  obtain ⟨hbegins, hover⟩ := ha
  have hover' : 0 < c.opens ∨ ∃ i, c.Live i := by
    by_cases hsocket : c.socket = none
    · exact .inl (Nat.pos_of_ne_zero fun hzero => hover ⟨hzero, hsocket⟩)
    · obtain ⟨i, hi⟩ := Option.ne_none_iff_exists'.mp hsocket
      exact .inr ⟨i, (h.current i).mpr hi⟩
  cases a with
  | start =>
    cases hstep
    have hrun : c.running = false := hbegins
    unfold RealtimeClient.start
    rw [if_neg (by rw [hrun]; nofun)]
    exact RealtimeClient.doubled rfl rfl hover'
  | reconnectFires =>
    obtain ⟨hrun, hhalt⟩ : c.running = true ∧ c.halted = none := hbegins
    obtain ⟨-, hd⟩ := Option.ite_none_right_eq_some.mp hstep
    cases hd
    exact RealtimeClient.doubled hrun hhalt hover'
  | _ => exact hbegins.elim

/-- In a run whose calls of `open` do not overlap, the client keeps exactly one connection,
and a stop ends it for good; a call that overlaps can leave two. -/
theorem one_connection (o : RealtimeClientOptions) (h : (system o).Reach undoubled c) :
    c.Kept ∧
      (∀ d, (system o).Path (fun _ a => a ≠ .start) c.stop d → d.Gone c.sockets.length) ∧
      ∀ a d, ¬ c.undoubled a → c.step o a = some d →
        ∃ e, (system o).Path anyStep d e ∧ ¬ e.Kept := by
  have hsound := reach_sound h
  refine ⟨hsound.kept, fun d hpath => ?_, fun a d ha hstep => hsound.doubled ha hstep⟩
  exact System.Path.invariant (I := Gone c.sockets.length)
    (fun _ _ _ hgone ha hstep => hgone.step ha hstep) hpath hsound.stop_gone

def webOptions : RealtimeClientOptions where
  companyId := 1
  offlineAfterFailures := 5
  staleAfterHiddenMs := 60000
  ackEveryEvents := 50

def freshClient : RealtimeClient := new ⟨none, .idle⟩ 100000

-- started, with its snapshot and its socket
theorem one_connection_started :
    ∃ c : RealtimeClient, c.flags = [false] ∧ c.Kept := by
  have hnew : (system webOptions).Reach undoubled freshClient := .init ⟨_, _, rfl⟩
  have hstart := hnew.step (a := Act.start) (t := freshClient.start webOptions)
    (fun _ => ⟨rfl, rfl⟩) rfl
  have hconnected := hstart.step (a := Act.snapshot (.hydrated ⟨1, 7⟩))
    (t := (freshClient.start webOptions).answered (.hydrated ⟨1, 7⟩)) nofun rfl
  exact ⟨_, rfl, (one_connection webOptions hconnected).1⟩

/-- The page comes to the front while the first snapshot is awaited: the reconnect opens a
second socket beside the first. -/
theorem two_connections :
    ∃ c, (system webOptions).Reach anyStep c ∧ ¬ c.Kept := by
  have hnew : (system webOptions).Reach anyStep freshClient := .init ⟨_, _, rfl⟩
  obtain ⟨c, hc, hflags⟩ : ∃ c, System.follow anyStep (step webOptions) freshClient
      [.start, .setVisible true, .reconnectFires, .snapshot (.hydrated ⟨1, 7⟩),
        .snapshot (.hydrated ⟨1, 7⟩)] = some c ∧ c.flags = freshClient.flags ++ [false, false] :=
    ⟨_, rfl, rfl⟩
  have hpath := System.follow_path (S := system webOptions) (fun _ _ _ h => h) hc
  exact ⟨c, hnew.path hpath, not_kept_of_two hflags⟩

end RealtimeClient

end Autora.Clients
