import Autora.Events
import Autora.Lib.Locks
import Autora.Lib.Systems
import Autora.Lib.Texts

/-! Signing in with an emailed link: requests for a link, redemptions, sign-outs and cookies, as
transactions that interleave statement by statement. -/

namespace Autora.Accounts

open Untyped Texts Systems Locks

structure Reader where
  id : Id
  email : Str
  deriving DecidableEq, Repr

structure LoginToken where
  readerId : Id
  tokenHash : Str
  createdAt : Time
  expiresAt : Time
  usedAt : Option Time
  deriving DecidableEq, Repr

structure ReaderSession where
  readerId : Id
  tokenHash : Str
  createdAt : Time
  expiresAt : Time
  revokedAt : Option Time
  deriving DecidableEq, Repr

/-- The three tables. -/
structure Tables where
  readers : List Reader
  loginTokens : List LoginToken
  readerSessions : List ReaderSession
  deriving DecidableEq, Repr

/-- What was emailed to whom. -/
structure Mail where
  address : Str
  token : Str
  deriving DecidableEq, Repr

def minute : Time := 60 * 1000000
def day : Time := 24 * 60 * minute

def linkValidFor : Time := 15 * minute
def sessionValidFor : Time := 60 * day
def adminSessionValidFor : Time := 14 * day

section Service

-- `str.lower`, `hash_token` and the addresses on `ADMIN_EMAILS`
variable (lower : Str → Str) (hashToken : Str → Str) (adminEmails : List Str)

-- `ADDRESS_PATTERN` on a text without spaces at its ends
def isAddress (email : Str) : Bool :=
  let name := email.takeWhile (· ≠ 64)
  let site := email.drop (name.length + 1)
  !name.isEmpty && email.contains 64 && !site.contains 64 && email.all (fun c => !isSpace c) &&
    (site.drop 1).dropLast.contains 46

def normalise (email : Str) : Option Str :=
  let email := lower (strip email)
  if 254 < email.length ∨ isAddress email = false then none else some email

/-! ## What a transaction changes when it commits -/

inductive Change where
  | link (isNew : Bool) (reader : Reader) (row : LoginToken)
  | session (link : Str) (now : Time) (row : ReaderSession)
  | revoke (tokenHash : Str) (now : Time)
  deriving DecidableEq, Repr

def LoginToken.use (hash : Str) (now : Time) (row : LoginToken) : LoginToken :=
  if row.tokenHash = hash then { row with usedAt := some now } else row

def ReaderSession.revoke (hash : Str) (now : Time) (row : ReaderSession) : ReaderSession :=
  if row.tokenHash = hash then { row with revokedAt := some now } else row

def Tables.apply (t : Tables) : Change → Tables
  | .link isNew reader row =>
    { t with
      readers := if isNew then t.readers ++ [reader] else t.readers
      loginTokens := t.loginTokens ++ [row] }
  | .session link now row =>
    { t with
      loginTokens := t.loginTokens.map (LoginToken.use link now)
      readerSessions := t.readerSessions ++ [row] }
  | .revoke hash now => { t with readerSessions := t.readerSessions.map (.revoke hash now) }

/-! ## Transactions -/

/-- Where a call stands: before which statement of `request_link`, `redeem` or `sign_out`, with
the `now` it started with. -/
inductive Stage where
  | looking (address token : Str) (now : Time)
  | adding (address token : Str) (now : Time)
  | linking (isNew : Bool) (reader : Reader) (token : Str) (now : Time)
  | mailing (isNew : Bool) (reader : Reader) (token : Str) (row : LoginToken)
  | locking (token sessionToken : Str) (now : Time) (admin : Bool)
  | redeeming (row : LoginToken) (sessionToken : Str) (now : Time) (admin : Bool)
  | finding (cookie : Str) (now : Time)
  | revoking (hash : Str) (now : Time)
  | ready (change : Change)
  deriving DecidableEq, Repr

/-- What a transaction waits for others to end with: a row, or an entry of a unique index. -/
inductive Key where
  | id (id : Id)
  | email (address : Str)
  | link (hash : Str)
  | session (hash : Str)
  deriving DecidableEq, Repr

structure State where
  tables : Tables
  mails : List Mail
  /-- No reader has had this id or a later one. -/
  nextId : Id
  calls : Id → Option Stage
  locks : Key → Option Id

inductive Act where
  | requestLink (i : Id) (email token : Str) (now : Time)
  | redeem (i : Id) (token sessionToken : Str) (now : Time) (admin : Bool)
  | signOut (i : Id) (cookie : Str) (now : Time)
  -- the next statement of a call, or its commit
  | next (i : Id)
  -- an error or a lost connection
  | rollback (i : Id)

namespace State

def put (s : State) (i : Id) (stage : Stage) : State :=
  { s with calls := Function.update s.calls i (some stage) }

def close (s : State) (i : Id) : State :=
  { s with calls := Function.update s.calls i none, locks := release s.locks i }

def hold (s : State) (i : Id) (k : Key) : State := { s with locks := take s.locks k i }

def reader (s : State) (id : Id) : Option Reader := s.tables.readers.find? fun r => r.id = id

def byEmail (s : State) (address : Str) : Option Reader :=
  s.tables.readers.find? fun r => r.email = address

def loginToken (s : State) (hash : Str) : Option LoginToken :=
  s.tables.loginTokens.find? fun l => l.tokenHash = hash

def readerSession (s : State) (hash : Str) : Option ReaderSession :=
  s.tables.readerSessions.find? fun r => r.tokenHash = hash

/-- An insert that waits for the key, and fails where it is taken. -/
def insert (s : State) (i : Id) (k : Key) (taken : Bool) (stage : Stage) : Option State :=
  if Free s.locks k i then
    if taken then some (s.close i) else some ((s.hold i k).put i stage)
  else none

-- the row with the new session's token, once the link is marked used
def redeemed (now : Time) (reader : Reader) (sessionToken : Str) (admin : Bool) :
    ReaderSession where
  readerId := reader.id
  tokenHash := hashToken sessionToken
  createdAt := now
  expiresAt := now + if admin then adminSessionValidFor else sessionValidFor
  -- taken off the list since the link was sent: signed out again before the commit
  revokedAt := if admin && !adminEmails.contains reader.email then some now else none

def next (s : State) (i : Id) : Stage → Option State
  | .looking address token now =>
    match s.byEmail address with
    | some reader => some (s.put i (.linking false reader token now))
    | none => some (s.put i (.adding address token now))
  | .adding address token now =>
    let reader : Reader := ⟨s.nextId, address⟩
    { s.hold i (.id s.nextId) with nextId := s.nextId + 1 }.insert i (.email address)
      (s.byEmail address).isSome (.linking true reader token now)
  | .linking isNew reader token now =>
    let hash := hashToken token
    s.insert i (.link hash) (s.loginToken hash).isSome
      (.mailing isNew reader token ⟨reader.id, hash, now, now + linkValidFor, none⟩)
  | .mailing isNew reader token row =>
    some { s.put i (.ready (.link isNew reader row)) with
      mails := s.mails ++ [⟨reader.email, token⟩] }
  | .locking token sessionToken now admin =>
    let hash := hashToken token
    match s.loginToken hash with
    -- "this link no longer works; ask for a new one"
    | none => some (s.close i)
    | some row =>
      s.insert i (.link hash) (row.usedAt.isSome || row.expiresAt ≤ now)
        (.redeeming row sessionToken now admin)
  | .redeeming row sessionToken now admin =>
    match s.reader row.readerId with
    | none => some (s.close i)
    | some reader =>
      let hash := hashToken sessionToken
      s.insert i (.session hash) (s.readerSession hash).isSome
        (.ready (.session row.tokenHash now
          (redeemed hashToken adminEmails now reader sessionToken admin)))
  | .finding cookie now =>
    match s.readerSession (hashToken cookie) with
    | none => some (s.close i)
    | some row =>
      if row.revokedAt.isSome then some (s.close i)
      else some (s.put i (.revoking row.tokenHash now))
  | .revoking hash now => s.insert i (.session hash) false (.ready (.revoke hash now))
  | .ready change => some { s.close i with tables := s.tables.apply change }

def begin_ (s : State) (i : Id) (stage : Stage) : Option State :=
  match s.calls i with
  | none => some (s.put i stage)
  | some _ => none

def step (s : State) : Act → Option State
  | .requestLink i email token now =>
    match normalise lower email with
    | none => some s
    | some address => s.begin_ i (.looking address token now)
  | .redeem i token sessionToken now admin => s.begin_ i (.locking token sessionToken now admin)
  | .signOut i cookie now => if cookie.isEmpty then some s else s.begin_ i (.finding cookie now)
  | .next i => (s.calls i).bind (s.next hashToken adminEmails i)
  | .rollback i => (s.calls i).map fun _ => s.close i

/-- Who holds a cookie: what `reader_for` answers from the committed tables. -/
def readerFor (s : State) (cookie : Str) (now : Time) : Option Reader :=
  if cookie.isEmpty then none
  else match s.readerSession (hashToken cookie) with
    | none => none
    | some row =>
      if row.revokedAt.isSome || row.expiresAt ≤ now then none else s.reader row.readerId

def adminFor (s : State) (cookie : Str) (now : Time) : Option Reader :=
  match s.readerFor hashToken cookie now with
  | none => none
  | some reader => if adminEmails.contains reader.email then some reader else none

end State

/-- Any calls, in any order, from empty tables. -/
def signIn : System State Act where
  init s := s.tables = ⟨[], [], []⟩ ∧ s.mails = [] ∧ s.nextId = 0 ∧ s.calls = (fun _ => none) ∧
    s.locks = fun _ => none
  step s a t := s.step lower hashToken adminEmails a = some t

end Service

end Autora.Accounts
