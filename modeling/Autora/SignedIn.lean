import Autora.SignInRuns

/-! What a cookie says of whoever holds it, and what a used link and a sign-out leave behind. -/

namespace Autora.Accounts

open Untyped Systems UniqueRows

variable {lower hashToken : Str → Str} {adminEmails : List Str} {s t : State}

/-- A cookie opens the account of the link its session came from: one emailed to the account's own
address and redeemed in time. -/
theorem cookie_opens_own (h : (signIn lower hashToken adminEmails).Reach anyStep s) {cookie : Str}
    {now : Time} {reader : Reader} (hreader : s.readerFor hashToken cookie now = some reader) :
    ∃ row ∈ s.tables.readerSessions, ∃ link ∈ s.tables.loginTokens,
      row.tokenHash = hashToken cookie ∧ row.revokedAt = none ∧
      now < row.createdAt + sessionValidFor ∧
      link.readerId = reader.id ∧ link.usedAt = some row.createdAt ∧
      row.createdAt < link.createdAt + linkValidFor ∧
      ∃ m ∈ s.mails, m.address = reader.email ∧ hashToken m.token = link.tokenHash := by
  have hrows := (sound h).rows
  unfold State.readerFor at hreader
  split at hreader
  · cases hreader
  · split at hreader
    · cases hreader
    · next row hrow =>
      split at hreader
      · cases hreader
      · next hlive =>
        obtain ⟨hmem, hhash⟩ := eq_of_find? hrow
        obtain ⟨hknown, hid⟩ := eq_of_find? hreader
        rw [Bool.not_eq_true, Bool.or_eq_false_iff, Option.isSome_eq_false_iff,
          Option.isNone_iff_eq_none, decide_eq_false_iff_not, not_le] at hlive
        -- the link this session came from
        have hsigned : (row.readerId, row.createdAt) ∈
            s.tables.loginTokens.filterMap LoginToken.signedIn :=
          hrows.sessions.mem_iff.mp (List.mem_map_of_mem hmem)
        obtain ⟨link, hlink, hsigned⟩ := List.mem_filterMap.mp hsigned
        obtain ⟨used, hused, heq⟩ := Option.map_eq_some_iff.mp hsigned
        obtain ⟨howner, rfl⟩ := Prod.mk.inj heq
        obtain ⟨hexpires, hintime, r, hr, hrid, hmailed⟩ := hrows.links link hlink
        have hsame : r = reader := List.inj_on_of_nodup_map hrows.ids hr hknown
          (hrid.trans (howner.trans hid.symm))
        subst hsame
        refine ⟨row, hmem, link, hlink, hhash, hlive.1, hlive.2.trans_le (hrows.expires row hmem),
          hrid.symm, hused, ?_, hmailed⟩
        rw [← hexpires]
        exact hintime _ hused

def unvisited : State := ⟨⟨[], [], []⟩, [], 0, fun _ => none, fun _ => none⟩

-- `a@b.c`
def visitor : Str := [97, 64, 98, 46, 99]

-- two first requests for one address at once: the second waits for the first, and gives up
def signsIn : List Act :=
  [.requestLink 0 visitor [1] 0, .requestLink 1 visitor [2] 0, .next 0, .next 1, .next 0, .next 0,
    .next 0, .next 0, .next 1, .redeem 0 [1] [3] minute false, .next 0, .next 0, .next 0]

def signedOut : List Act := [.signOut 1 [3] (2 * minute), .next 1, .next 1, .next 1]

def run (s : State) (acts : List Act) : Option State :=
  System.follow anyStep (fun s a => s.step id id [] a) s acts

theorem run_path {acts : List Act} (h : run s acts = some t) :
    (signIn id id []).Path anyStep s t :=
  System.follow_path (fun _ _ _ hstep => hstep) h

theorem unvisited_reach : (signIn id id []).Reach anyStep unvisited :=
  .init ⟨rfl, rfl, rfl, rfl, rfl⟩

theorem cookie_opens_own_visitor : ∃ s : State, s.readerFor id [3] day = some ⟨0, visitor⟩ ∧
    ∃ row ∈ s.tables.readerSessions, ∃ link ∈ s.tables.loginTokens,
      row.tokenHash = [3] ∧ row.revokedAt = none ∧ day < row.createdAt + sessionValidFor ∧
      link.readerId = 0 ∧ link.usedAt = some row.createdAt ∧
      row.createdAt < link.createdAt + linkValidFor ∧
      ∃ m ∈ s.mails, m.address = visitor ∧ m.token = link.tokenHash := by
  have hrun : (run unvisited signsIn).map (fun s => s.readerFor id [3] day) =
      some (some ⟨0, visitor⟩) := by decide +kernel
  obtain ⟨s, hs, hreader⟩ := Option.map_eq_some_iff.mp hrun
  exact ⟨s, hreader, cookie_opens_own (unvisited_reach.path (run_path hs)) hreader⟩

/-- A link signs in once: sessions are, one for one, the links that were used, and no address has
two readers nor a token two rows. -/
theorem links_work_once (h : (signIn lower hashToken adminEmails).Reach anyStep s) :
    (s.tables.readerSessions.map fun r => (r.readerId, r.createdAt)).Perm
      (s.tables.loginTokens.filterMap fun l => l.usedAt.map fun now => (l.readerId, now)) ∧
    (s.tables.readers.map Reader.email).Nodup ∧
    (s.tables.loginTokens.map LoginToken.tokenHash).Nodup ∧
    (s.tables.readerSessions.map ReaderSession.tokenHash).Nodup := by
  have hrows := (sound h).rows
  exact ⟨hrows.sessions, hrows.emails, hrows.linkHashes, hrows.sessionHashes⟩

-- two requests and one redemption: one reader, one session
theorem links_work_once_visitor : ∃ s : State, s.tables.readers = [⟨0, visitor⟩] ∧
    s.tables.readerSessions.length = 1 ∧
    (s.tables.readerSessions.map fun r => (r.readerId, r.createdAt)).Perm
      (s.tables.loginTokens.filterMap fun l => l.usedAt.map fun now => (l.readerId, now)) ∧
    (s.tables.readers.map Reader.email).Nodup ∧
    (s.tables.loginTokens.map LoginToken.tokenHash).Nodup ∧
    (s.tables.readerSessions.map ReaderSession.tokenHash).Nodup := by
  have hrun : (run unvisited signsIn).map
      (fun s => (s.tables.readers, s.tables.readerSessions.length)) =
      some ([⟨0, visitor⟩], 1) := by decide +kernel
  obtain ⟨s, hs, hrows⟩ := Option.map_eq_some_iff.mp hrun
  obtain ⟨hreaders, hlength⟩ := Prod.mk.inj hrows
  exact ⟨s, hreaders, hlength, links_work_once (unvisited_reach.path (run_path hs))⟩

/-! ## What stays -/

/-- Only a commit writes the tables. -/
theorem tables_of_step {a : Act} (hstep : s.step lower hashToken adminEmails a = some t) :
    t.tables = s.tables ∨ ∃ i change, s.calls i = some (.ready change) ∧
      t.tables = s.tables.apply change := by
  have hinsert : ∀ {s' : State} {i k taken stage}, s'.insert i k taken stage = some t →
      t.tables = s'.tables := by
    intro s' i k taken stage hinsert
    unfold State.insert at hinsert
    split at hinsert
    · split at hinsert <;> cases hinsert <;> rfl
    · cases hinsert
  have hbegin : ∀ {i stage}, s.begin_ i stage = some t → t.tables = s.tables := by
    intro i stage hbegin
    unfold State.begin_ at hbegin
    split at hbegin
    · cases hbegin
      rfl
    · cases hbegin
  cases a with
  | requestLink i email token now =>
    left
    simp only [State.step] at hstep
    split at hstep
    · cases hstep
      rfl
    · exact hbegin hstep
  | redeem => exact Or.inl (hbegin hstep)
  | signOut i cookie now =>
    left
    simp only [State.step] at hstep
    split at hstep
    · cases hstep
      rfl
    · exact hbegin hstep
  | rollback i =>
    obtain ⟨stage, -, rfl⟩ := Option.map_eq_some_iff.mp hstep
    exact Or.inl rfl
  | next i =>
    obtain ⟨stage, hi, hnext⟩ := Option.bind_eq_some_iff.mp hstep
    cases stage with
    | ready change =>
      cases hnext
      exact Or.inr ⟨i, change, hi, rfl⟩
    | looking =>
      simp only [State.next] at hnext
      split at hnext <;> cases hnext <;> exact Or.inl rfl
    | adding =>
      have htables := hinsert hnext
      exact Or.inl htables
    | linking => exact Or.inl (hinsert hnext)
    | mailing =>
      cases hnext
      exact Or.inl rfl
    | locking =>
      simp only [State.next] at hnext
      split at hnext
      · cases hnext
        exact Or.inl rfl
      · exact Or.inl (hinsert hnext)
    | redeeming =>
      simp only [State.next] at hnext
      split at hnext
      · cases hnext
        exact Or.inl rfl
      · exact Or.inl (hinsert hnext)
    | finding =>
      simp only [State.next] at hnext
      split at hnext
      · cases hnext
        exact Or.inl rfl
      · split at hnext <;> cases hnext <;> exact Or.inl rfl
    | revoking => exact Or.inl (hinsert hnext)

theorem used_kept {link : LoginToken} (hs : Sound hashToken s) {i : Id} {change : Change}
    (hi : s.calls i = some (.ready change)) (hused : link.usedAt.isSome)
    (hlink : link ∈ s.tables.loginTokens) : link ∈ (s.tables.apply change).loginTokens := by
  cases change with
  | link => exact List.mem_append_left _ hlink
  | revoke => exact hlink
  | session hash now row =>
    obtain ⟨l, rfl, husable, -⟩ := hs.calls i _ hi
    have hne : link.tokenHash ≠ l.tokenHash := by
      intro hhash
      have heq := List.inj_on_of_nodup_map hs.rows.linkHashes hlink husable.mem hhash
      rw [heq, husable.unused] at hused
      cases hused
    rw [← (use_other hne : link.use l.tokenHash now = link)]
    exact List.mem_map_of_mem hlink

theorem revoked_kept {hash : Str} (change : Change)
    (hsession : ∃ r ∈ s.tables.readerSessions, r.tokenHash = hash ∧ r.revokedAt.isSome) :
    ∃ r ∈ (s.tables.apply change).readerSessions, r.tokenHash = hash ∧ r.revokedAt.isSome := by
  obtain ⟨r, hr, rfl, hrevoked⟩ := hsession
  cases change with
  | link => exact ⟨r, hr, rfl, hrevoked⟩
  | session => exact ⟨r, List.mem_append_left _ hr, rfl, hrevoked⟩
  | revoke hash now =>
    refine ⟨r.revoke hash now, List.mem_map_of_mem hr, tokenHash_revoke hash now r, ?_⟩
    unfold ReaderSession.revoke
    split
    · rfl
    · exact hrevoked

-- the row a later state has for a token that was signed out
theorem State.readerFor_revoked {hash cookie : Str} (hrows : Rows hashToken s)
    (hsession : ∃ r ∈ s.tables.readerSessions, r.tokenHash = hash ∧ r.revokedAt.isSome)
    (hcookie : hashToken cookie = hash) (now : Time) : s.readerFor hashToken cookie now = none := by
  obtain ⟨r, hr, rfl, hrevoked⟩ := hsession
  unfold State.readerFor
  split
  · rfl
  · split
    · rfl
    · next row hrow =>
      obtain ⟨hmem, hhash⟩ := eq_of_find? hrow
      have hsame := List.inj_on_of_nodup_map hrows.sessionHashes hmem hr (hhash.trans hcookie)
      rw [hsame, hrevoked]
      rfl

/-- What is spent stays spent, whatever runs next: a used link is never used again, and a cookie
that was signed out opens nothing any more. -/
theorem spent_for_good (hs : (signIn lower hashToken adminEmails).Reach anyStep s)
    (hrun : (signIn lower hashToken adminEmails).Path anyStep s t) :
    (∀ link ∈ s.tables.loginTokens, link.usedAt.isSome → link ∈ t.tables.loginTokens) ∧
    ∀ row ∈ s.tables.readerSessions, row.revokedAt.isSome → ∀ cookie now,
      hashToken cookie = row.tokenHash → t.readerFor hashToken cookie now = none := by
  have hkept : (∀ link ∈ s.tables.loginTokens, link.usedAt.isSome → link ∈ t.tables.loginTokens) ∧
      ∀ row ∈ s.tables.readerSessions, row.revokedAt.isSome →
        ∃ r ∈ t.tables.readerSessions, r.tokenHash = row.tokenHash ∧ r.revokedAt.isSome := by
    induction hrun with
    | refl => exact ⟨fun _ hlink _ => hlink, fun row hrow hrevoked => ⟨row, hrow, rfl, hrevoked⟩⟩
    | tail hpath hnext ih =>
      obtain ⟨a, -, hstep⟩ := hnext
      rcases tables_of_step hstep with htables | ⟨i, change, hi, htables⟩
      · rw [htables]
        exact ih
      · rw [htables]
        have hsound := sound (hs.path hpath)
        exact ⟨fun link hlink hused => used_kept hsound hi hused (ih.1 link hlink hused),
          fun row hrow hrevoked => revoked_kept change (ih.2 row hrow hrevoked)⟩
  exact ⟨hkept.1, fun row hrow hrevoked cookie now hcookie =>
    State.readerFor_revoked (sound (hs.path hrun)).rows (hkept.2 row hrow hrevoked) hcookie now⟩

-- the link used and the cookie signed out, and what the same calls do then
theorem spent_for_good_visitor : ∃ s t : State, (s.tables.readerSessions.length = 1 ∧
      s.tables.readerSessions.all (fun r => r.tokenHash = [3] ∧ r.revokedAt.isSome) ∧
      s.tables.loginTokens.any fun l => l.usedAt.isSome) ∧
    (∀ link ∈ s.tables.loginTokens, link.usedAt.isSome → link ∈ t.tables.loginTokens) ∧
    ∀ row ∈ s.tables.readerSessions, row.revokedAt.isSome → ∀ cookie now,
      id cookie = row.tokenHash → t.readerFor id cookie now = none := by
  have hrun : (run unvisited (signsIn ++ signedOut)).map (fun s =>
      decide (s.tables.readerSessions.length = 1 ∧
        s.tables.readerSessions.all (fun r => r.tokenHash = [3] ∧ r.revokedAt.isSome) ∧
        s.tables.loginTokens.any fun l => l.usedAt.isSome) &&
      (run s [.redeem 0 [1] [4] (3 * minute) false, .next 0]).isSome) = some true := by
    decide +kernel
  obtain ⟨s, hs, hrows⟩ := Option.map_eq_some_iff.mp hrun
  rw [Bool.and_eq_true, decide_eq_true_eq] at hrows
  obtain ⟨t, ht⟩ := Option.isSome_iff_exists.mp hrows.2
  exact ⟨s, t, hrows.1, spent_for_good (unvisited_reach.path (run_path hs)) (run_path ht)⟩

end Autora.Accounts
