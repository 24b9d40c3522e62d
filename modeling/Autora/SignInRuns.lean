import Autora.Lib.UniqueRows
import Autora.SignIn
import Mathlib.Data.List.Perm.Basic

/-! A link signs in once, whoever is emailed it, and a cookie opens nothing but the account of
the link it came from. -/

namespace Autora.Accounts

open Untyped Systems Locks UniqueRows

variable {lower hashToken : Str → Str} {adminEmails : List Str} {s t : State} {i j : Id}
  {stage : Stage} {change : Change}

/-! ## What holds of the committed rows -/

/-- The mail a link was sent with, to its reader's address. -/
def Mailed (hashToken : Str → Str) (mails : List Mail) (email hash : Str) : Prop :=
  ∃ m ∈ mails, m.address = email ∧ hashToken m.token = hash

-- the reader a used link signed in, and when
def LoginToken.signedIn (l : LoginToken) : Option (Id × Time) :=
  l.usedAt.map fun now => (l.readerId, now)

structure Link (hashToken : Str → Str) (s : State) (l : LoginToken) : Prop where
  expires : l.expiresAt = l.createdAt + linkValidFor
  used : ∀ now, l.usedAt = some now → now < l.expiresAt
  mailed : ∃ r ∈ s.tables.readers, r.id = l.readerId ∧
    Mailed hashToken s.mails r.email l.tokenHash

structure Rows (hashToken : Str → Str) (s : State) : Prop where
  ids : (s.tables.readers.map Reader.id).Nodup
  emails : (s.tables.readers.map Reader.email).Nodup
  given : ∀ r ∈ s.tables.readers, r.id < s.nextId
  linkHashes : (s.tables.loginTokens.map LoginToken.tokenHash).Nodup
  sessionHashes : (s.tables.readerSessions.map ReaderSession.tokenHash).Nodup
  links : ∀ l ∈ s.tables.loginTokens, Link hashToken s l
  expires : ∀ r ∈ s.tables.readerSessions, r.expiresAt ≤ r.createdAt + sessionValidFor
  /-- One session for each used link. -/
  sessions : (s.tables.readerSessions.map fun r => (r.readerId, r.createdAt)).Perm
    (s.tables.loginTokens.filterMap LoginToken.signedIn)

/-! ## What a transaction knows -/

structure NewReader (s : State) (i : Id) (reader : Reader) : Prop where
  idHeld : s.locks (.id reader.id) = some i
  idFresh : reader.id ∉ s.tables.readers.map Reader.id
  given : reader.id < s.nextId
  emailHeld : s.locks (.email reader.email) = some i
  emailFresh : reader.email ∉ s.tables.readers.map Reader.email

/-- The reader a link is for: a committed one, or the transaction's own. -/
def Owner (s : State) (i : Id) (isNew : Bool) (reader : Reader) : Prop :=
  if isNew then NewReader s i reader else reader ∈ s.tables.readers

structure NewLink (s : State) (i : Id) (reader : Reader) (row : LoginToken) : Prop where
  reader : row.readerId = reader.id
  unused : row.usedAt = none
  expires : row.expiresAt = row.createdAt + linkValidFor
  held : s.locks (.link row.tokenHash) = some i
  fresh : row.tokenHash ∉ s.tables.loginTokens.map LoginToken.tokenHash

structure Usable (s : State) (i : Id) (row : LoginToken) (now : Time) : Prop where
  mem : row ∈ s.tables.loginTokens
  unused : row.usedAt = none
  valid : now < row.expiresAt
  held : s.locks (.link row.tokenHash) = some i

structure NewSession (s : State) (i : Id) (link : LoginToken) (now : Time)
    (row : ReaderSession) : Prop where
  reader : row.readerId = link.readerId
  created : row.createdAt = now
  expires : row.expiresAt ≤ now + sessionValidFor
  held : s.locks (.session row.tokenHash) = some i
  fresh : row.tokenHash ∉ s.tables.readerSessions.map ReaderSession.tokenHash

variable (hashToken) in
def Change.Sound (s : State) (i : Id) : Change → Prop
  | .link isNew reader row => Owner s i isNew reader ∧ NewLink s i reader row ∧
      Mailed hashToken s.mails reader.email row.tokenHash
  | .session hash now row => ∃ l, l.tokenHash = hash ∧ Usable s i l now ∧ NewSession s i l now row
  | .revoke .. => True

variable (hashToken) in
def Stage.Sound (s : State) (i : Id) : Stage → Prop
  | .linking isNew reader _ _ => Owner s i isNew reader
  | .mailing isNew reader token row => Owner s i isNew reader ∧ NewLink s i reader row ∧
      hashToken token = row.tokenHash
  | .redeeming row _ now _ => Usable s i row now
  | .ready change => change.Sound hashToken s i
  | _ => True

structure Sound (hashToken : Str → Str) (s : State) : Prop where
  rows : Rows hashToken s
  held : ∀ n j, s.locks (.id n) = some j → n < s.nextId
  calls : ∀ i stage, s.calls i = some stage → stage.Sound hashToken s i

/-! ## What the others know after a step -/

/-- Rows are only added, under keys their writer holds: whoever holds a key finds no new row
there, and its old ones as they were. -/
structure Grows (s t : State) (j : Id) : Prop where
  readers : ∀ r ∈ s.tables.readers, r ∈ t.tables.readers
  ids : ∀ id, s.locks (.id id) = some j → id ∈ t.tables.readers.map Reader.id →
    id ∈ s.tables.readers.map Reader.id
  emails : ∀ email, s.locks (.email email) = some j → email ∈ t.tables.readers.map Reader.email →
    email ∈ s.tables.readers.map Reader.email
  links : ∀ hash, s.locks (.link hash) = some j →
    hash ∈ t.tables.loginTokens.map LoginToken.tokenHash →
    hash ∈ s.tables.loginTokens.map LoginToken.tokenHash
  kept : ∀ l ∈ s.tables.loginTokens, s.locks (.link l.tokenHash) = some j →
    l ∈ t.tables.loginTokens
  sessions : ∀ hash, s.locks (.session hash) = some j →
    hash ∈ t.tables.readerSessions.map ReaderSession.tokenHash →
    hash ∈ s.tables.readerSessions.map ReaderSession.tokenHash
  mails : ∀ m ∈ s.mails, m ∈ t.mails
  nextId : s.nextId ≤ t.nextId
  locks : ∀ k, s.locks k = some j → t.locks k = some j

theorem Grows.of_tables (htables : t.tables = s.tables) (hmails : ∀ m ∈ s.mails, m ∈ t.mails)
    (hnext : s.nextId ≤ t.nextId) (hlocks : ∀ k, s.locks k = some j → t.locks k = some j) :
    Grows s t j where
  readers := by rw [htables]; exact fun _ hr => hr
  ids := by rw [htables]; exact fun _ _ hid => hid
  emails := by rw [htables]; exact fun _ _ hemail => hemail
  links := by rw [htables]; exact fun _ _ hhash => hhash
  kept := by rw [htables]; exact fun _ hl _ => hl
  sessions := by rw [htables]; exact fun _ _ hhash => hhash
  mails := hmails
  nextId := hnext
  locks := hlocks

theorem Mailed.mono {email hash : Str} (h : Mailed hashToken s.mails email hash)
    (hmails : ∀ m ∈ s.mails, m ∈ t.mails) : Mailed hashToken t.mails email hash := by
  obtain ⟨m, hm, hrest⟩ := h
  exact ⟨m, hmails m hm, hrest⟩

theorem Owner.mono {isNew : Bool} {reader : Reader} (h : Owner s j isNew reader)
    (hg : Grows s t j) : Owner t j isNew reader := by
  cases isNew with
  | true =>
    have h : NewReader s j reader := h
    exact ⟨hg.locks _ h.idHeld, fun hmem => h.idFresh (hg.ids _ h.idHeld hmem),
      h.given.trans_le hg.nextId, hg.locks _ h.emailHeld,
      fun hmem => h.emailFresh (hg.emails _ h.emailHeld hmem)⟩
  | false => exact hg.readers reader h

theorem NewLink.mono {reader : Reader} {row : LoginToken} (h : NewLink s j reader row)
    (hg : Grows s t j) : NewLink t j reader row :=
  ⟨h.reader, h.unused, h.expires, hg.locks _ h.held, fun hmem => h.fresh (hg.links _ h.held hmem)⟩

theorem Usable.mono {row : LoginToken} {now : Time} (h : Usable s j row now) (hg : Grows s t j) :
    Usable t j row now :=
  ⟨hg.kept row h.mem h.held, h.unused, h.valid, hg.locks _ h.held⟩

theorem NewSession.mono {link : LoginToken} {now : Time} {row : ReaderSession}
    (h : NewSession s j link now row) (hg : Grows s t j) : NewSession t j link now row :=
  ⟨h.reader, h.created, h.expires, hg.locks _ h.held,
    fun hmem => h.fresh (hg.sessions _ h.held hmem)⟩

theorem Change.Sound.mono (h : change.Sound hashToken s j) (hg : Grows s t j) :
    change.Sound hashToken t j := by
  cases change with
  | link isNew reader row => exact ⟨h.1.mono hg, h.2.1.mono hg, h.2.2.mono hg.mails⟩
  | session hash now row =>
    obtain ⟨l, hl, husable, hnew⟩ := h
    exact ⟨l, hl, husable.mono hg, hnew.mono hg⟩
  | revoke => trivial

theorem Stage.Sound.mono (h : stage.Sound hashToken s j) (hg : Grows s t j) :
    stage.Sound hashToken t j := by
  cases stage with
  | linking => exact Owner.mono h hg
  | mailing => exact ⟨h.1.mono hg, h.2.1.mono hg, h.2.2⟩
  | redeeming => exact Usable.mono h hg
  | ready => exact Change.Sound.mono h hg
  | _ => trivial

/-! ## Steps that commit nothing -/

theorem Rows.mono (h : Rows hashToken s) (htables : t.tables = s.tables)
    (hmails : ∀ m ∈ s.mails, m ∈ t.mails) (hnext : s.nextId ≤ t.nextId) : Rows hashToken t where
  ids := htables ▸ h.ids
  emails := htables ▸ h.emails
  given := by
    rw [htables]
    exact fun r hr => (h.given r hr).trans_le hnext
  linkHashes := htables ▸ h.linkHashes
  sessionHashes := htables ▸ h.sessionHashes
  links := by
    rw [htables]
    intro l hl
    obtain ⟨hexpires, hused, r, hr, hid, hmailed⟩ := h.links l hl
    exact ⟨hexpires, hused, r, htables ▸ hr, hid, hmailed.mono hmails⟩
  expires := htables ▸ h.expires
  sessions := htables ▸ h.sessions

/-- A step of `i` that commits nothing: the others keep what they know. -/
theorem Sound.put (h : Sound hashToken s) (htables : t.tables = s.tables)
    (hmails : ∀ m ∈ s.mails, m ∈ t.mails) (hnext : s.nextId ≤ t.nextId)
    (hlocks : ∀ k j, s.locks k = some j → t.locks k = some j)
    (hheld : ∀ n j, t.locks (.id n) = some j → n < t.nextId)
    (hcalls : t.calls = Function.update s.calls i (some stage))
    (hstage : stage.Sound hashToken t i) : Sound hashToken t where
  rows := h.rows.mono htables hmails hnext
  held := hheld
  calls := by
    intro j stage' hj
    rw [hcalls] at hj
    by_cases hji : j = i
    · subst hji
      rw [Function.update_self] at hj
      cases hj
      exact hstage
    · rw [Function.update_of_ne hji] at hj
      exact (h.calls j stage' hj).mono (.of_tables htables hmails hnext fun k => hlocks k j)

theorem Sound.close (h : Sound hashToken s) : Sound hashToken (s.close i) where
  rows := h.rows.mono rfl (fun _ hm => hm) le_rfl
  held := by
    intro n j hj
    refine h.held n j ?_
    have hrelease : release s.locks i (.id n) = some j := hj
    unfold release at hrelease
    split at hrelease
    · cases hrelease
    · exact hrelease
  calls := by
    intro j stage' hj
    by_cases hji : j = i
    · subst hji
      simp [State.close] at hj
    · have hj : s.calls j = some stage' := (Function.update_of_ne hji _ _).symm.trans hj
      exact (h.calls j stage' hj).mono
        (.of_tables rfl (fun _ hm => hm) le_rfl fun k hk => release_other hji hk)

/-! ## A commit -/

theorem tokenHash_use (hash : Str) (now : Time) (l : LoginToken) :
    (l.use hash now).tokenHash = l.tokenHash := by
  unfold LoginToken.use
  split <;> rfl

theorem use_other {hash : Str} {now : Time} {l : LoginToken} (h : l.tokenHash ≠ hash) :
    l.use hash now = l := if_neg h

theorem tokenHash_revoke (hash : Str) (now : Time) (r : ReaderSession) :
    (r.revoke hash now).tokenHash = r.tokenHash := by
  unfold ReaderSession.revoke
  split <;> rfl

theorem hashes_use (hash : Str) (now : Time) (links : List LoginToken) :
    (links.map (.use hash now)).map LoginToken.tokenHash = links.map LoginToken.tokenHash := by
  rw [List.map_map]
  exact List.map_congr_left fun l _ => tokenHash_use hash now l

theorem hashes_revoke (hash : Str) (now : Time) (sessions : List ReaderSession) :
    (sessions.map (.revoke hash now)).map ReaderSession.tokenHash =
      sessions.map ReaderSession.tokenHash := by
  rw [List.map_map]
  exact List.map_congr_left fun r _ => tokenHash_revoke hash now r

/-- Marking one unused link used signs its reader in once more. -/
theorem signedIn_use {links : List LoginToken} {l : LoginToken} {now : Time}
    (hnodup : (links.map LoginToken.tokenHash).Nodup) (hl : l ∈ links) (hunused : l.usedAt = none) :
    (links.filterMap LoginToken.signedIn ++ [(l.readerId, now)]).Perm
      ((links.map (.use l.tokenHash now)).filterMap LoginToken.signedIn) := by
  obtain ⟨before, after, rfl⟩ := List.append_of_mem hl
  rw [List.map_append, List.map_cons, List.nodup_append, List.nodup_cons] at hnodup
  obtain ⟨-, ⟨hafter, -⟩, hbefore⟩ := hnodup
  have hsame : ∀ xs : List LoginToken, (∀ x ∈ xs, x.tokenHash ≠ l.tokenHash) →
      xs.map (.use l.tokenHash now) = xs := by
    intro xs hxs
    exact (List.map_congr_left fun x hx => use_other (hxs x hx)).trans (List.map_id xs)
  have hb := hsame before fun x hx heq =>
    hbefore _ (List.mem_map_of_mem hx) _ List.mem_cons_self heq
  have ha := hsame after fun x hx heq => hafter (heq ▸ List.mem_map_of_mem hx)
  have hself : (l.use l.tokenHash now).signedIn = some (l.readerId, now) := by
    rw [LoginToken.use, if_pos rfl]
    rfl
  have hnone : l.signedIn = none := by rw [LoginToken.signedIn, hunused]; rfl
  rw [List.map_append, List.map_cons, hb, ha, List.filterMap_append, List.filterMap_append,
    List.filterMap_cons_none hnone, List.filterMap_cons_some hself]
  refine (List.perm_append_singleton _ _).trans ?_
  exact List.perm_middle.symm

/-- What the committed rows know of readers and links is kept when rows are added. -/
theorem Link.mono {l : LoginToken} (h : Link hashToken s l)
    (hreaders : ∀ r ∈ s.tables.readers, r ∈ t.tables.readers)
    (hmails : ∀ m ∈ s.mails, m ∈ t.mails) : Link hashToken t l := by
  obtain ⟨r, hr, hid, hmailed⟩ := h.mailed
  exact ⟨h.expires, h.used, r, hreaders r hr, hid, hmailed.mono hmails⟩

theorem Rows.link {isNew : Bool} {reader : Reader} {row : LoginToken} (h : Rows hashToken s)
    (hchange : (Change.link isNew reader row).Sound hashToken s i) :
    Rows hashToken { s.close i with tables := s.tables.apply (.link isNew reader row) } := by
  obtain ⟨howner, hlink, hmailed⟩ := hchange
  have hnone : row.signedIn = none := by rw [LoginToken.signedIn, hlink.unused]; rfl
  have hreaders : ∀ r ∈ s.tables.readers,
      r ∈ (s.tables.apply (.link isNew reader row)).readers := by
    intro r hr
    cases isNew with
    | true => exact List.mem_append_left _ hr
    | false => exact hr
  have hreader : reader ∈ (s.tables.apply (.link isNew reader row)).readers := by
    cases isNew with
    | true => exact List.mem_append_right _ (List.mem_singleton_self reader)
    | false => exact howner
  refine ⟨?_, ?_, ?_, nodup_concat h.linkHashes hlink.fresh, h.sessionHashes, fun l hl => ?_,
    h.expires, ?_⟩
  · cases isNew with
    | true => exact nodup_concat h.ids howner.idFresh
    | false => exact h.ids
  · cases isNew with
    | true => exact nodup_concat h.emails howner.emailFresh
    | false => exact h.emails
  · cases isNew with
    | true =>
      intro r hr
      rcases List.mem_append.mp hr with hr | hr
      · exact h.given r hr
      · rw [List.mem_singleton.mp hr]
        exact howner.given
    | false => exact h.given
  · rcases List.mem_append.mp hl with hl | hl
    · exact (h.links l hl).mono hreaders fun _ hm => hm
    · rw [List.mem_singleton.mp hl]
      refine ⟨hlink.expires, fun now hused => ?_, reader, hreader, hlink.reader.symm, hmailed⟩
      rw [hlink.unused] at hused
      cases hused
  · refine h.sessions.trans (List.Perm.of_eq ?_)
    show _ = (s.tables.loginTokens ++ [row]).filterMap LoginToken.signedIn
    rw [List.filterMap_append, List.filterMap_cons_none hnone, List.filterMap_nil, List.append_nil]

theorem Rows.session {hash : Str} {now : Time} {row : ReaderSession} (h : Rows hashToken s)
    (hchange : (Change.session hash now row).Sound hashToken s i) :
    Rows hashToken { s.close i with tables := s.tables.apply (.session hash now row) } := by
  obtain ⟨l, rfl, husable, hnew⟩ := hchange
  refine ⟨h.ids, h.emails, h.given, ?_, nodup_concat h.sessionHashes hnew.fresh, fun l' hl' => ?_,
    fun r hr => ?_, ?_⟩
  · show ((s.tables.loginTokens.map _).map _).Nodup
    rw [hashes_use]
    exact h.linkHashes
  · obtain ⟨l', hmem, rfl⟩ := List.mem_map.mp hl'
    have hold := h.links l' hmem
    by_cases hhash : l'.tokenHash = l.tokenHash
    · have heq : l' = l := List.inj_on_of_nodup_map h.linkHashes hmem husable.mem hhash
      subst heq
      rw [LoginToken.use, if_pos rfl]
      refine ⟨hold.expires, fun now' hused => ?_, hold.mailed⟩
      cases hused
      exact husable.valid
    · rw [use_other hhash]
      exact ⟨hold.expires, hold.used, hold.mailed⟩
  · rcases List.mem_append.mp hr with hr | hr
    · exact h.expires r hr
    · rw [List.mem_singleton.mp hr, hnew.created]
      exact hnew.expires
  · have hsessions : ((s.tables.readerSessions ++ [row]).map fun r => (r.readerId, r.createdAt)) =
        (s.tables.readerSessions.map fun r => (r.readerId, r.createdAt)) ++
          [(l.readerId, now)] := by
      rw [List.map_append, List.map_singleton, hnew.reader, hnew.created]
    show ((s.tables.readerSessions ++ [row]).map _).Perm _
    rw [hsessions]
    exact (h.sessions.append_right _).trans (signedIn_use h.linkHashes husable.mem husable.unused)

theorem Rows.revoke (hash : Str) (now : Time) (h : Rows hashToken s) :
    Rows hashToken { s.close i with tables := s.tables.apply (.revoke hash now) } := by
  have hsame : ∀ r : ReaderSession, (r.revoke hash now).readerId = r.readerId ∧
      (r.revoke hash now).createdAt = r.createdAt ∧
      (r.revoke hash now).expiresAt = r.expiresAt := by
    intro r
    unfold ReaderSession.revoke
    split <;> exact ⟨rfl, rfl, rfl⟩
  refine ⟨h.ids, h.emails, h.given, h.linkHashes, ?_, fun l hl => ?_, fun r hr => ?_, ?_⟩
  · show ((s.tables.readerSessions.map _).map _).Nodup
    rw [hashes_revoke]
    exact h.sessionHashes
  · obtain ⟨hexpires, hused, hmailed⟩ := h.links l hl
    exact ⟨hexpires, hused, hmailed⟩
  · obtain ⟨r, hmem, rfl⟩ := List.mem_map.mp hr
    rw [(hsame r).2.2, (hsame r).2.1]
    exact h.expires r hmem
  · refine (List.Perm.of_eq ?_).trans h.sessions
    show ((s.tables.readerSessions.map _).map _) = _
    rw [List.map_map]
    refine List.map_congr_left fun r _ => ?_
    show ((r.revoke hash now).readerId, (r.revoke hash now).createdAt) = _
    rw [(hsame r).1, (hsame r).2.1]

theorem commit_grows (hi : change.Sound hashToken s i) (hji : j ≠ i) :
    Grows s { s.close i with tables := s.tables.apply change } j := by
  have hother : ∀ {k}, s.locks k = some j → s.locks k ≠ some i :=
    fun hj hi => hji (holder_eq hj hi)
  have hconcat : ∀ {α β : Type} {f : α → β} {xs : List α} {x : α} {k : β}, f x ≠ k →
      k ∈ (xs ++ [x]).map f → k ∈ xs.map f := by
    intro α β f xs x k hne hmem
    rw [List.map_append, List.mem_append, List.map_singleton, List.mem_singleton] at hmem
    exact hmem.resolve_right fun heq => hne heq.symm
  have hlocks : ∀ k, s.locks k = some j → (s.close i).locks k = some j :=
    fun k hk => release_other hji hk
  cases change with
  | link isNew reader row =>
    obtain ⟨howner, hlink, -⟩ := hi
    refine ⟨fun r hr => ?_, fun id hid hmem => ?_, fun email hemail hmem => ?_,
      fun hash hhash => hconcat fun heq => ?_, fun l hl _ => List.mem_append_left _ hl,
      fun _ _ hmem => hmem, fun _ hm => hm, le_rfl, hlocks⟩
    · cases isNew with
      | true => exact List.mem_append_left _ hr
      | false => exact hr
    · cases isNew with
      | true => exact hconcat (fun heq => hother hid (heq ▸ howner.idHeld)) hmem
      | false => exact hmem
    · cases isNew with
      | true => exact hconcat (fun heq => hother hemail (heq ▸ howner.emailHeld)) hmem
      | false => exact hmem
    · exact hother hhash (heq ▸ hlink.held)
  | session hash now row =>
    obtain ⟨l, rfl, husable, hnew⟩ := hi
    refine ⟨fun _ hr => hr, fun _ _ hmem => hmem, fun _ _ hmem => hmem, fun hash _ hmem => ?_,
      fun l' hl' hheld => ?_, fun hash hhash => hconcat fun heq => ?_, fun _ hm => hm, le_rfl,
      hlocks⟩
    · rw [← hashes_use l.tokenHash now]
      exact hmem
    · have hne : l'.tokenHash ≠ l.tokenHash := fun heq => hother hheld (heq ▸ husable.held)
      rw [← (use_other hne : l'.use l.tokenHash now = l')]
      exact List.mem_map_of_mem hl'
    · exact hother hhash (heq ▸ hnew.held)
  | revoke hash now =>
    refine ⟨fun _ hr => hr, fun _ _ hmem => hmem, fun _ _ hmem => hmem, fun _ _ hmem => hmem,
      fun _ hl _ => hl, fun hash' _ hmem => ?_, fun _ hm => hm, le_rfl, hlocks⟩
    rw [← hashes_revoke hash now]
    exact hmem

theorem Sound.commit (h : Sound hashToken s) (hi : s.calls i = some (.ready change)) :
    Sound hashToken { s.close i with tables := s.tables.apply change } := by
  have hchange : change.Sound hashToken s i := h.calls i _ hi
  refine ⟨?_, h.close.held, fun j stage' hj => ?_⟩
  · cases change with
    | link => exact h.rows.link hchange
    | session => exact h.rows.session hchange
    | revoke hash now => exact h.rows.revoke hash now
  · by_cases hji : j = i
    · subst hji
      simp [State.close] at hj
    · have hj : s.calls j = some stage' := (Function.update_of_ne hji _ _).symm.trans hj
      exact (h.calls j stage' hj).mono (commit_grows hchange hji)

/-! ## Every step -/

/-- What the rest of a call may rely on once its insert got the key. -/
theorem Sound.insert {k : Key} {taken : Bool} (h : Sound hashToken s)
    (hinsert : s.insert i k taken stage = some t) (hid : ∀ n, k = .id n → n < s.nextId)
    (hstage : Free s.locks k i → taken = false →
      stage.Sound hashToken ((s.hold i k).put i stage) i) : Sound hashToken t := by
  unfold State.insert at hinsert
  split at hinsert
  · next hfree =>
    split at hinsert
    · cases hinsert
      exact h.close
    · next htaken =>
      cases hinsert
      refine h.put rfl (fun _ hm => hm) le_rfl (fun k' j hk => take_kept hfree hk)
        (fun n j hj => ?_) rfl (hstage hfree (Bool.eq_false_iff.mpr htaken))
      by_cases hkey : Key.id n = k
      · exact hid n hkey.symm
      · exact h.held n j ((take_other hkey).symm.trans hj)
  · cases hinsert

-- what a call knew, once it holds one key more
theorem hold_grows {k : Key} (hfree : Free s.locks k i) (stage : Stage) :
    Grows s ((s.hold i k).put i stage) j :=
  .of_tables rfl (fun _ hm => hm) le_rfl fun _ hk => take_kept hfree hk

/-- An id nobody has had. -/
theorem Sound.give (h : Sound hashToken s) :
    Sound hashToken { s.hold i (.id s.nextId) with nextId := s.nextId + 1 } := by
  have hfree : s.locks (.id s.nextId) = none := by
    cases hlock : s.locks (.id s.nextId) with
    | none => rfl
    | some j => exact absurd (h.held _ j hlock) (lt_irrefl _)
  have hlocks : ∀ k j, s.locks k = some j → take s.locks (.id s.nextId) i k = some j :=
    fun k j hk => take_kept (Or.inl hfree) hk
  refine ⟨h.rows.mono rfl (fun _ hm => hm) (Nat.le_succ _), fun n j hj => ?_, fun j stage hj =>
    (h.calls j stage hj).mono (.of_tables rfl (fun _ hm => hm) (Nat.le_succ _) fun k => hlocks k j)⟩
  by_cases hkey : Key.id n = .id s.nextId
  · cases hkey
    exact Nat.lt_succ_self _
  · exact (h.held n j ((take_other hkey).symm.trans hj)).trans (Nat.lt_succ_self _)

theorem Sound.adding {address token : Str} {now : Time} (h : Sound hashToken s)
    (hstep : s.next hashToken adminEmails i (.adding address token now) = some t) :
    Sound hashToken t := by
  refine h.give.insert hstep (fun n hn => by cases hn) fun hfree htaken => ?_
  have hid : take s.locks (.id s.nextId) i (.id s.nextId) = some i := take_self
  exact {
    idHeld := by
      show take (take s.locks (.id s.nextId) i) (.email address) i (.id s.nextId) = some i
      exact take_kept hfree hid
    idFresh := fun hmem => by
      obtain ⟨r, hr, hid⟩ := List.mem_map.mp hmem
      exact absurd (h.rows.given r hr) (hid ▸ lt_irrefl _)
    given := Nat.lt_succ_self _
    emailHeld := take_self
    emailFresh := fresh_of_find? htaken }

theorem Sound.linking {isNew : Bool} {reader : Reader} {token : Str} {now : Time}
    (h : Sound hashToken s) (hi : s.calls i = some (.linking isNew reader token now))
    (hstep : s.next hashToken adminEmails i (.linking isNew reader token now) = some t) :
    Sound hashToken t := by
  refine h.insert hstep (fun n hn => by cases hn) fun hfree htaken => ?_
  have howner : Owner s i isNew reader := h.calls i _ hi
  exact ⟨howner.mono (hold_grows hfree _), ⟨rfl, rfl, rfl, take_self, fresh_of_find? htaken⟩, rfl⟩

theorem Sound.mailing {isNew : Bool} {reader : Reader} {token : Str} {row : LoginToken}
    (h : Sound hashToken s) (hi : s.calls i = some (.mailing isNew reader token row))
    (hstep : s.next hashToken adminEmails i (.mailing isNew reader token row) = some t) :
    Sound hashToken t := by
  cases hstep
  have hsound : Stage.Sound hashToken s i (.mailing isNew reader token row) := h.calls i _ hi
  have hmails : ∀ m ∈ s.mails, m ∈ s.mails ++ [⟨reader.email, token⟩] :=
    fun m hm => List.mem_append_left _ hm
  refine h.put rfl hmails le_rfl (fun _ _ hk => hk) h.held rfl ?_
  exact ⟨hsound.1.mono (.of_tables rfl hmails le_rfl fun _ hk => hk),
    hsound.2.1.mono (.of_tables rfl hmails le_rfl fun _ hk => hk), ⟨reader.email, token⟩,
    List.mem_append_right _ (List.mem_singleton_self _), rfl, hsound.2.2⟩

theorem Sound.locking {token sessionToken : Str} {now : Time} {admin : Bool}
    (h : Sound hashToken s)
    (hstep : s.next hashToken adminEmails i (.locking token sessionToken now admin) = some t) :
    Sound hashToken t := by
  cases hrow : s.loginToken (hashToken token) with
  | none =>
    simp only [State.next, hrow, Option.some.injEq] at hstep
    exact hstep ▸ h.close
  | some row =>
    simp only [State.next, hrow] at hstep
    refine h.insert hstep (fun n hn => by cases hn) fun _ htaken => ?_
    obtain ⟨hmem, hhash⟩ := eq_of_find? hrow
    rw [Bool.or_eq_false_iff, Option.isSome_eq_false_iff, Option.isNone_iff_eq_none,
      decide_eq_false_iff_not, not_le] at htaken
    exact ⟨hmem, htaken.1, htaken.2, hhash ▸ take_self⟩

theorem Sound.redeeming {row : LoginToken} {sessionToken : Str} {now : Time} {admin : Bool}
    (h : Sound hashToken s) (hi : s.calls i = some (.redeeming row sessionToken now admin))
    (hstep : s.next hashToken adminEmails i (.redeeming row sessionToken now admin) = some t) :
    Sound hashToken t := by
  cases hreader : s.reader row.readerId with
  | none =>
    simp only [State.next, hreader, Option.some.injEq] at hstep
    exact hstep ▸ h.close
  | some reader =>
    simp only [State.next, hreader] at hstep
    refine h.insert hstep (fun n hn => by cases hn) fun hfree htaken => ?_
    have husable : Usable s i row now := h.calls i _ hi
    refine ⟨row, rfl, husable.mono (hold_grows hfree _), (eq_of_find? hreader).2, rfl, ?_,
      take_self, fresh_of_find? htaken⟩
    have hshort : adminSessionValidFor ≤ sessionValidFor := by decide
    show now + _ ≤ now + _
    cases admin with
    | true => exact Nat.add_le_add_left hshort _
    | false => exact le_rfl

theorem Sound.next (h : Sound hashToken s) (hi : s.calls i = some stage)
    (hstep : s.next hashToken adminEmails i stage = some t) : Sound hashToken t := by
  -- a step that says nothing of what the call knows
  have hput : ∀ {stage : Stage}, stage.Sound hashToken (s.put i stage) i →
      Sound hashToken (s.put i stage) := fun hstage =>
    h.put rfl (fun _ hm => hm) le_rfl (fun _ _ hk => hk) h.held rfl hstage
  cases stage with
  | looking address token now =>
    simp only [State.next] at hstep
    split at hstep
    · next reader hreader =>
      cases hstep
      exact hput (eq_of_find? hreader).1
    · cases hstep
      exact hput trivial
  | adding => exact h.adding hstep
  | linking => exact h.linking hi hstep
  | mailing => exact h.mailing hi hstep
  | locking => exact h.locking hstep
  | redeeming => exact h.redeeming hi hstep
  | finding cookie now =>
    simp only [State.next] at hstep
    split at hstep
    · cases hstep
      exact h.close
    · split at hstep
      · cases hstep
        exact h.close
      · cases hstep
        exact hput trivial
  | revoking => exact h.insert hstep (fun n hn => by cases hn) fun _ _ => trivial
  | ready change =>
    cases hstep
    exact h.commit hi

theorem Sound.begin_ (h : Sound hashToken s) (hstep : s.begin_ i stage = some t)
    (hstage : ∀ t, stage.Sound hashToken t i) : Sound hashToken t := by
  unfold State.begin_ at hstep
  split at hstep
  · cases hstep
    exact h.put rfl (fun _ hm => hm) le_rfl (fun _ _ hk => hk) h.held rfl (hstage _)
  · cases hstep

theorem Sound.step {a : Act} (h : Sound hashToken s)
    (hstep : s.step lower hashToken adminEmails a = some t) : Sound hashToken t := by
  cases a with
  | requestLink i email token now =>
    simp only [State.step] at hstep
    split at hstep
    · cases hstep
      exact h
    · exact h.begin_ hstep fun _ => trivial
  | redeem => exact h.begin_ hstep fun _ => trivial
  | signOut i cookie now =>
    simp only [State.step] at hstep
    split at hstep
    · cases hstep
      exact h
    · exact h.begin_ hstep fun _ => trivial
  | next i =>
    obtain ⟨stage, hi, hnext⟩ := Option.bind_eq_some_iff.mp hstep
    exact h.next hi hnext
  | rollback i =>
    obtain ⟨stage, -, rfl⟩ := Option.map_eq_some_iff.mp hstep
    exact h.close

theorem Sound.empty (htables : s.tables = ⟨[], [], []⟩) (hcalls : s.calls = fun _ => none)
    (hlocks : s.locks = fun _ => none) : Sound hashToken s where
  rows := by
    constructor <;> simp [htables]
  held := by
    intro n j hj
    rw [hlocks] at hj
    cases hj
  calls := by
    intro j stage hj
    rw [hcalls] at hj
    cases hj

/-- Every interleaving of the calls keeps the invariant. -/
theorem sound (h : (signIn lower hashToken adminEmails).Reach anyStep s) : Sound hashToken s :=
  System.Reach.invariant (fun _ hs => .empty hs.1 hs.2.2.2.1 hs.2.2.2.2)
    (fun _ _ _ hs _ hstep => hs.step hstep) h

end Autora.Accounts
