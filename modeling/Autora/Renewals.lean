import Mathlib.Order.Interval.Set.Disjoint
import Autora.Purchases
import Autora.Lib.Systems

/-! Payments of one customer for one product whose transactions overlap: each
reads what is committed when it reads, and its update waits for the row. -/

namespace Autora.Company

open Systems

variable {product : Product} {customer : Id}

/-- What a payment asks for. -/
structure Paying where
  externalRef : String
  interval : PriceInterval
  paidAt : Time
  deriving DecidableEq, Repr

/-- What a committed payment says. -/
structure Receipt where
  externalRef : String
  interval : PriceInterval
  grantsFrom : Time
  grantsUntil : Time
  deriving DecidableEq, Repr

/-- How far a purchase has come. -/
inductive Stage where
  | begun
  | unknown
  | acquiring
  | away
  | known
  | read (seen : Option Membership)
  | written (row : Membership) (receipt : Receipt)
  deriving DecidableEq, Repr

/-- An open transaction, with the customer row it wrote: when it says they churned. -/
inductive Work where
  | paying (p : Paying) (stage : Stage) (payer : Option (Option Time))
  | expiring (now : Time) (row : Membership) (payer : Option (Option Time))
  deriving DecidableEq, Repr

/-- The committed rows, who holds the lock on which, and the open transactions. -/
structure Session where
  payer : Option (Option Time)
  membership : Option Membership
  receipts : List Receipt
  customerLock : Option Nat
  membershipLock : Option Nat
  work : Nat → Option Work

inductive Step where
  | begin (t : Nat) (p : Paying)
  | findCustomer (t : Nat)
  | findAgain (t : Nat)
  | insertCustomer (t : Nat)
  | reactivate (t : Nat)
  | readMembership (t : Nat)
  | writeMembership (t : Nat) (newId : Id)
  | lockDue (t : Nat) (now : Time)
  | churn (t : Nat)
  | commit (t : Nat)
  | abort (t : Nat)
  deriving DecidableEq, Repr

def Session.put (s : Session) (t : Nat) (w : Option Work) : Session :=
  { s with work := Function.update s.work t w }

/-- The locks of a transaction go when it ends. -/
def Session.release (s : Session) (t : Nat) : Session :=
  { s with
    customerLock := if s.customerLock = some t then none else s.customerLock
    membershipLock := if s.membershipLock = some t then none else s.membershipLock
    work := Function.update s.work t none }

/-- `UPDATE` names the columns the session changed: the others keep what is committed. -/
def patched (seen new row : Membership) : Membership :=
  { row with
    state := if new.state = seen.state then row.state else new.state
    startedAt := if new.startedAt = seen.startedAt then row.startedAt else new.startedAt
    expiresAt := if new.expiresAt = seen.expiresAt then row.expiresAt else new.expiresAt }

/-- The row that `purchase` leaves, from the one it read and the one that is committed. -/
def writtenRow (product : Product) (customer newId : Id) (p : Paying) (until_ : Time) :
    Option Membership → Option Membership → Option Membership
  | none, none => some (grantedRow none product customer newId p.paidAt until_)
  | some seen, some row =>
    some (patched seen (grantedRow (some seen) product customer newId p.paidAt until_) row)
  | _, _ => none

def free (lock : Option Nat) (t : Nat) : Bool := lock = none || lock = some t

/-- The next statement of a purchase, or `none` while it waits or cannot go on. -/
def purchaseStep (product : Product) (customer : Id) (s : Session) (p : Paying)
    (payer : Option (Option Time)) : Stage → Step → Option Session
  | .begun, .findCustomer t =>
    match s.payer with
    | none => some (s.put t (some (.paying p .unknown payer)))
    | some none => some (s.put t (some (.paying p .known payer)))
    | some (some _) => some (s.put t (some (.paying p .away payer)))
  | .unknown, .findAgain t =>
    match s.payer with
    | none => some (s.put t (some (.paying p .acquiring payer)))
    | some _ => some (s.put t (some (.paying p .known payer)))
  | .acquiring, .insertCustomer t =>
    if s.payer = none ∧ free s.customerLock t then
      some { s.put t (some (.paying p .known (some none))) with customerLock := some t }
    else none
  | .away, .reactivate t =>
    if free s.customerLock t then
      some { s.put t (some (.paying p .known (some none))) with customerLock := some t }
    else none
  | .known, .readMembership t => some (s.put t (some (.paying p (.read s.membership) payer)))
  | .read seen, .writeMembership t newId =>
    let from_ := (stretchFrom (seen.map Membership.expiresAt) p.paidAt).1
    match addInterval from_ p.interval with
    | .error _ => none
    | .ok until_ =>
      match writtenRow product customer newId p until_ seen s.membership with
      | none => none
      | some row =>
        -- `expires_after_start`
        if free s.membershipLock t ∧ row.startedAt < row.expiresAt then
          let receipt : Receipt := ⟨p.externalRef, p.interval, from_, until_⟩
          some { s.put t (some (.paying p (.written row receipt) payer)) with
            membershipLock := some t }
        else none
  | .written row receipt, .commit t =>
    -- the unique constraint of the payments
    if receipt.externalRef ∈ s.receipts.map Receipt.externalRef then none
    else some { s.release t with
      payer := payer.or s.payer
      membership := some row
      receipts := s.receipts ++ [receipt] }
  | _, _ => none

/-- The next statement of `expire_due`. -/
def expireStep (s : Session) (now : Time) (row : Membership) (payer : Option (Option Time)) :
    Step → Option Session
  | .churn t =>
    if s.payer = some none ∧ free s.customerLock t then
      some { s.put t (some (.expiring now row (some (some row.expiresAt)))) with
        customerLock := some t }
    else none
  | .commit t => some { s.release t with payer := payer.or s.payer, membership := some row }
  | _ => none

/-- The row `expire_due` locks and marks, unless another transaction holds it. -/
def Session.dueRow (s : Session) (now : Time) : Option Membership :=
  match s.membership with
  | none => none
  | some m =>
    if m.state = .active ∧ m.expiresAt ≤ now ∧ s.membershipLock = none then
      some { m with state := .expired }
    else none

def Step.tx : Step → Nat
  | .begin t _ | .findCustomer t | .findAgain t | .insertCustomer t | .reactivate t
  | .readMembership t | .writeMembership t _ | .lockDue t _ | .churn t | .commit t
  | .abort t => t

def Session.step (product : Product) (customer : Id) (s : Session) (a : Step) :
    Option Session :=
  match s.work a.tx, a with
  | none, .begin t p =>
    -- a reference that is known buys nothing
    if p.externalRef ∈ s.receipts.map Receipt.externalRef then none
    else some (s.put t (some (.paying p .begun none)))
  | none, .lockDue t now =>
    match s.dueRow now with
    | none => none
    | some row =>
      some { s.put t (some (.expiring now row none)) with membershipLock := some t }
  | none, _ => none
  | some _, .abort t => some (s.release t)
  | some (.paying p stage payer), a => purchaseStep product customer s p payer stage a
  | some (.expiring now row payer), a => expireStep s now row payer a

/-- The payments of one customer for one product, from before the first. -/
def renewals (product : Product) (customer : Id) : System Session Step where
  init s := s.membership = none ∧ s.receipts = [] ∧ s.customerLock = none ∧
    s.membershipLock = none ∧ s.work = fun _ => none
  step s a s' := s.step product customer a = some s'

/-- The row a purchase has read and not yet written. -/
def Session.seen (s : Session) (t : Nat) : Option Membership :=
  match s.work t with
  | some (.paying _ (.read seen) _) => seen
  | _ => none

/-- A purchase that extends or reopens a membership writes while the row still says the
expiry it read. -/
def Session.upToDate (s : Session) : Step → Prop
  | .writeMembership t _ =>
    ∀ m ∈ s.seen t, s.membership.map Membership.expiresAt = some m.expiresAt
  | _ => True

instance (s : Session) : DecidablePred s.upToDate := fun a =>
  match a with
  | .writeMembership t _ => inferInstanceAs (Decidable (∀ m ∈ s.seen t, _))
  | .begin _ _ | .findCustomer _ | .findAgain _ | .insertCustomer _ | .reactivate _
  | .readMembership _ | .lockDue _ _ | .churn _ | .commit _ | .abort _ => isTrue trivial

def Receipt.stretch (r : Receipt) : Set Time := Set.Ico r.grantsFrom r.grantsUntil

/-- No paid time is lost. -/
structure Session.Whole (s : Session) : Prop where
  apart : s.receipts.Pairwise fun r r' => Disjoint r.stretch r'.stretch
  long : ∀ r ∈ s.receipts, addInterval r.grantsFrom r.interval = .ok r.grantsUntil
  last : ∀ m, s.membership = some m → IsGreatest {u | ∃ r ∈ s.receipts, r.grantsUntil = u} m.expiresAt
  member : s.receipts = [] ↔ s.membership = none

/-! What every step keeps. -/

variable {s s' : Session} {t : Nat}

/-- What an open transaction that wrote the membership may rely on. -/
def Session.Holds (s : Session) (t : Nat) : Work → Prop
  | .paying _ (.written row r) _ => s.membershipLock = some t ∧ row.expiresAt = r.grantsUntil ∧
      addInterval r.grantsFrom r.interval = .ok r.grantsUntil ∧
      ∀ m, s.membership = some m → m.expiresAt ≤ r.grantsFrom
  | .expiring _ row _ => s.membershipLock = some t ∧
      ∃ m, s.membership = some m ∧ row.expiresAt = m.expiresAt
  | _ => True

/-- Each stretch starts where the ones before it have ended, and the row says where the
last one ends. -/
structure Session.Kept (s : Session) : Prop where
  chained : s.receipts.Pairwise fun r r' => r.grantsUntil ≤ r'.grantsFrom
  long : ∀ r ∈ s.receipts, addInterval r.grantsFrom r.interval = .ok r.grantsUntil
  last : ∀ m, s.membership = some m → (∃ r ∈ s.receipts, r.grantsUntil = m.expiresAt) ∧
    ∀ r ∈ s.receipts, r.grantsUntil ≤ m.expiresAt
  member : s.receipts = [] ↔ s.membership = none
  work : ∀ t w, s.work t = some w → s.Holds t w

theorem Session.Kept.whole (h : s.Kept) : s.Whole := by
  refine ⟨h.chained.imp ?_, h.long, ?_, h.member⟩
  · intro r r' hle
    exact (Set.Ico_disjoint_Ico_same (a := r.grantsFrom)).mono_right
      (Set.Ico_subset_Ico_left hle)
  · intro m hm
    obtain ⟨hin, hle⟩ := h.last m hm
    refine ⟨hin, ?_⟩
    rintro u ⟨r, hr, rfl⟩
    exact hle r hr

theorem Session.Holds.mono {w : Work} (h : s.Holds t w)
    (hlock : s.membershipLock = some t → s'.membershipLock = some t)
    (hm : s.membershipLock = some t → s'.membership = s.membership) : s'.Holds t w := by
  cases w with
  | paying p stage payer =>
    cases stage with
    | written row r =>
      obtain ⟨hl, hrow, hlong, hle⟩ := h
      exact ⟨hlock hl, hrow, hlong, by rwa [hm hl]⟩
    | _ => trivial
  | expiring now row payer =>
    obtain ⟨hl, hrow⟩ := h
    exact ⟨hlock hl, by rwa [hm hl]⟩

/-- A step of `t` that commits nothing. -/
theorem Session.Kept.moved (h : s.Kept) {w : Option Work}
    (hm : s'.membership = s.membership) (hr : s'.receipts = s.receipts)
    (hwork : s'.work = Function.update s.work t w)
    (hlock : ∀ t', t' ≠ t → s.membershipLock = some t' → s'.membershipLock = some t')
    (hw : ∀ x, w = some x → s'.Holds t x) : s'.Kept := by
  refine ⟨by rw [hr]; exact h.chained, by rw [hr]; exact h.long, ?_, by rw [hr, hm]; exact h.member,
    ?_⟩
  · rw [hm, hr]
    exact h.last
  · intro t' x hx
    rw [hwork] at hx
    by_cases ht : t' = t
    · subst ht
      rw [Function.update_self] at hx
      exact hw x hx
    · rw [Function.update_of_ne ht] at hx
      exact (h.work t' x hx).mono (hlock t' ht) fun _ => hm

/-- Whoever holds the row of the membership is the only one that relies on it. -/
theorem Session.Kept.others (h : s.Kept) (hl : s.membershipLock = some t)
    (hwork : s'.work = Function.update s.work t none) : ∀ t' w, s'.work t' = some w →
      s'.Holds t' w := by
  intro t' w hw
  rw [hwork] at hw
  by_cases ht : t' = t
  · subst ht
    rw [Function.update_self] at hw
    cases hw
  · rw [Function.update_of_ne ht] at hw
    have hne : s.membershipLock ≠ some t' := by
      rw [hl]
      intro he
      exact ht (Option.some.inj he).symm
    exact (h.work t' w hw).mono (fun he => absurd he hne) fun he => absurd he hne

theorem Session.Kept.bought (h : s.Kept) {row : Membership} {r : Receipt} {p : Paying}
    {payer payer' : Option (Option Time)}
    (hw : s.work t = some (.paying p (.written row r) payer)) :
    { s.release t with
      payer := payer', membership := some row, receipts := s.receipts ++ [r] }.Kept := by
  obtain ⟨hl, hrow, hlong, hle⟩ := h.work t _ hw
  have hlt := lt_addInterval hlong
  -- what was granted before ends where the row said, and this stretch starts no earlier
  have hbefore : ∀ x ∈ s.receipts, x.grantsUntil ≤ r.grantsFrom := by
    intro x hx
    cases hm : s.membership with
    | none =>
      rw [h.member.mpr hm] at hx
      cases hx
    | some m => exact Nat.le_trans ((h.last m hm).2 x hx) (hle m hm)
  refine ⟨?_, ?_, ?_, ?_, h.others hl rfl⟩
  · refine List.pairwise_append.mpr ⟨h.chained, List.pairwise_singleton _ _, ?_⟩
    intro x hx y hy
    rw [List.mem_singleton.mp hy]
    exact hbefore x hx
  · intro x hx
    rcases List.mem_append.mp hx with hx | hx
    · exact h.long x hx
    · rw [List.mem_singleton.mp hx]
      exact hlong
  · intro m hm
    cases hm
    refine ⟨⟨r, List.mem_append_right _ (List.mem_singleton_self r), hrow.symm⟩, ?_⟩
    intro x hx
    rw [hrow]
    rcases List.mem_append.mp hx with hx | hx
    · exact Nat.le_trans (hbefore x hx) (Nat.le_of_lt hlt)
    · rw [List.mem_singleton.mp hx]
  · simp

theorem Session.Kept.expired (h : s.Kept) {row : Membership} {now : Time}
    {payer payer' : Option (Option Time)}
    (hw : s.work t = some (.expiring now row payer)) :
    { s.release t with payer := payer', membership := some row }.Kept := by
  obtain ⟨hl, m, hm, hrow⟩ := h.work t _ hw
  refine ⟨h.chained, h.long, ?_, ?_, h.others hl rfl⟩
  · intro m' hm'
    cases hm'
    rw [hrow]
    exact h.last m hm
  · show s.receipts = [] ↔ some row = none
    rw [h.member, hm]
    simp

/-- Where nothing came between, the row of a purchase is that of `purchase` itself. -/
theorem writtenRow_alone (newId : Id) (p : Paying) (until_ : Time) (old : Option Membership) :
    writtenRow product customer newId p until_ old old =
      some (grantedRow old product customer newId p.paidAt until_) := by
  cases old with
  | none => rfl
  | some m =>
    have hrow : patched m (grantedRow (some m) product customer newId p.paidAt until_) m =
        grantedRow (some m) product customer newId p.paidAt until_ := by
      unfold patched grantedRow membershipRow
      split <;> simp only [Membership.mk.injEq, ite_eq_right_iff] <;> grind
    simp only [writtenRow, hrow]

/-- A purchase whose row is as it was read writes the end of its own stretch, which starts
no earlier than the row said. -/
theorem writtenRow_expiresAt {newId : Id} {p : Paying} {until_ : Time} {row : Membership}
    {seen old : Option Membership}
    (hseen : ∀ m, seen = some m → old.map Membership.expiresAt = some m.expiresAt)
    (hu : addInterval (stretchFrom (seen.map Membership.expiresAt) p.paidAt).1 p.interval =
      .ok until_)
    (h : writtenRow product customer newId p until_ seen old = some row) :
    row.expiresAt = until_ ∧ ∀ m, old = some m →
      m.expiresAt ≤ (stretchFrom (seen.map Membership.expiresAt) p.paidAt).1 := by
  cases seen with
  | none =>
    cases old with
    | none =>
      cases h
      exact ⟨rfl, fun _ hm => by cases hm⟩
    | some m => cases h
  | some m =>
    have hm := hseen m rfl
    cases old with
    | none => cases h
    | some m₀ =>
      cases h
      have hsame : m₀.expiresAt = m.expiresAt := Option.some.inj hm
      have hfrom : m.expiresAt ≤ (stretchFrom (some m.expiresAt) p.paidAt).1 := by
        unfold stretchFrom
        simp only
        split
        · exact Nat.le_refl _
        · exact Nat.le_of_not_lt ‹_›
      constructor
      · show (if until_ = m.expiresAt then m₀.expiresAt else until_) = until_
        split
        · rw [hsame]
          exact Eq.symm ‹_›
        · rfl
      · intro x hx
        cases hx
        rw [hsame]
        exact hfrom

theorem free_of_other {lock : Option Nat} (h : free lock t = true) :
    ∀ t', t' ≠ t → lock = some t' → some t = some t' := by
  intro t' ht hl
  subst hl
  simp only [free, Bool.or_eq_true, decide_eq_true_eq] at h
  rcases h with h | h
  · cases h
  · exact absurd (Option.some.inj h) ht

theorem purchaseStep_kept {p : Paying} {payer : Option (Option Time)} {stage : Stage} {a : Step}
    (h : s.Kept) (hok : s.upToDate a) (hw : s.work a.tx = some (.paying p stage payer))
    (hs : purchaseStep product customer s p payer stage a = some s') : s'.Kept := by
  have hput : ∀ {st : Stage} {pa : Option (Option Time)} {t : Nat},
      (∀ l, (s.put t (some (.paying p st pa))).Holds l (.paying p st pa)) →
      (s.put t (some (.paying p st pa))).Kept := fun {st pa t} hh =>
    h.moved rfl rfl rfl (fun _ _ hl => hl) fun x hx => by cases hx; exact hh t
  unfold purchaseStep at hs
  split at hs
  · split at hs <;> cases hs <;> exact hput fun _ => trivial
  · split at hs <;> cases hs <;> exact hput fun _ => trivial
  · split at hs <;> cases hs
    exact h.moved rfl rfl rfl (fun _ _ hl => hl) fun x hx => by cases hx; trivial
  · split at hs <;> cases hs
    exact h.moved rfl rfl rfl (fun _ _ hl => hl) fun x hx => by cases hx; trivial
  · cases hs
    exact hput fun _ => trivial
  · next seen t newId =>
    simp only at hs
    split at hs
    · cases hs
    next until_ hu =>
    split at hs
    · cases hs
    next row hrow =>
    split at hs
    next hfree =>
      cases hs
      have hseen : ∀ m, seen = some m →
          s.membership.map Membership.expiresAt = some m.expiresAt := by
        rintro m rfl
        have hread : s.seen t = some m := by
          have hw' : s.work t = _ := hw
          simp only [Session.seen, hw']
        exact hok m hread
      obtain ⟨hexp, hle⟩ := writtenRow_expiresAt hseen hu hrow
      refine h.moved rfl rfl rfl (free_of_other hfree.1) fun x hx => ?_
      cases hx
      exact ⟨rfl, hexp, hu, hle⟩
    · cases hs
  · split at hs <;> cases hs
    exact h.bought hw
  · cases hs

theorem expireStep_kept {now : Time} {row : Membership} {payer : Option (Option Time)} {a : Step}
    (h : s.Kept) (hw : s.work a.tx = some (.expiring now row payer))
    (hs : expireStep s now row payer a = some s') : s'.Kept := by
  unfold expireStep at hs
  split at hs
  · next t =>
    split at hs <;> cases hs
    refine h.moved rfl rfl rfl (fun _ _ hl => hl) fun x hx => ?_
    cases hx
    exact h.work t _ hw
  · cases hs
    exact h.expired hw
  · cases hs

theorem dueRow_eq {now : Time} {row : Membership} (h : s.dueRow now = some row) :
    s.membershipLock = none ∧ ∃ m, s.membership = some m ∧ row.expiresAt = m.expiresAt := by
  unfold Session.dueRow at h
  split at h
  · cases h
  next m hm =>
    split at h
    next hc =>
      cases h
      exact ⟨hc.2.2, m, hm, rfl⟩
    · cases h

/-- One step. -/
theorem step_kept {a : Step} (h : s.Kept) (hok : s.upToDate a)
    (hs : s.step product customer a = some s') : s'.Kept := by
  unfold Session.step at hs
  split at hs
  · split at hs <;> cases hs
    exact h.moved rfl rfl rfl (fun _ _ hl => hl) fun x hx => by cases hx; trivial
  · next t now hw =>
    split at hs
    · cases hs
    next row hrow =>
      cases hs
      obtain ⟨hfree, hm⟩ := dueRow_eq hrow
      refine h.moved rfl rfl rfl (fun t' _ hl => ?_) fun x hx => ?_
      · rw [hfree] at hl
        cases hl
      · cases hx
        exact ⟨rfl, hm⟩
  · cases hs
  · next t hw =>
    cases hs
    refine h.moved rfl rfl rfl (fun t' ht hl => ?_) fun x hx => by cases hx
    show (if s.membershipLock = some t then none else s.membershipLock) = some t'
    rw [hl, if_neg fun he => ht (Option.some.inj he)]
  · exact purchaseStep_kept h hok ‹_› hs
  · exact expireStep_kept h ‹_› hs

/-- A run whose purchases write what they read loses no paid time. -/
theorem no_paid_time_lost (product : Product) (customer : Id) {s : Session}
    (h : (renewals product customer).Reach Session.upToDate s) : s.Whole := by
  refine Session.Kept.whole (h.invariant ?_ fun _ _ _ hk hok hs => step_kept hk hok hs)
  rintro s ⟨hm, hr, _, _, hw⟩
  refine ⟨?_, ?_, ?_, ?_, ?_⟩
  · rw [hr]
    exact List.Pairwise.nil
  · rw [hr]
    intro r hmem
    cases hmem
  · intro m hm'
    rw [hm] at hm'
    cases hm'
  · simp [hr, hm]
  · intro t w ht
    rw [hw] at ht
    cases ht

/-! Two renewals that read the same row. -/

/-- An active customer who has bought nothing yet. -/
def newcomer : Session := ⟨some none, none, [], none, none, fun _ => none⟩

def reading : Product := ⟨1, 1, 1, "membership", .active⟩

/-- A transaction from its first statement to its last read. -/
def asks (t : Nat) (p : Paying) : List Step := [.begin t p, .findCustomer t, .readMembership t]

/-- It writes, and commits. -/
def settles (t : Nat) : List Step := [.writeMembership t 7, .commit t]

def oneMonth (ref : String) (paidAt : Time) : Paying := ⟨ref, .month, paidAt⟩

theorem paid_time_lost : ¬ ∀ (product : Product) (customer : Id) (s : Session),
    (renewals product customer).Reach anyStep s → s.Whole := by
  intro h
  let steps := asks 0 (oneMonth "a" 0) ++ settles 0 ++ asks 1 (oneMonth "b" 1) ++ asks 2 (oneMonth "c" 2) ++
    settles 1 ++ settles 2
  have hrun : (System.follow anyStep (Session.step reading 2) newcomer steps).isSome = true := by decide +kernel
  obtain ⟨s, hs⟩ := Option.isSome_iff_exists.mp hrun
  have htwice : ∃ a b c, s.receipts = [a, b, c] ∧ b.grantsFrom = c.grantsFrom ∧
      b.grantsUntil = c.grantsUntil ∧ b.grantsFrom < b.grantsUntil := by
    have hrec : (System.follow anyStep (Session.step reading 2) newcomer steps).map Session.receipts =
        some [⟨"a", .month, 0, 31 * dayMicros⟩, ⟨"b", .month, 31 * dayMicros, 59 * dayMicros⟩,
          ⟨"c", .month, 31 * dayMicros, 59 * dayMicros⟩] := by decide +kernel
    rw [hs] at hrec
    exact ⟨_, _, _, Option.some.inj hrec, rfl, rfl, by decide⟩
  obtain ⟨a, b, c, hr, hfrom, huntil, hlt⟩ := htwice
  have hwhole := h reading 2 s ⟨newcomer, ⟨rfl, rfl, rfl, rfl, rfl⟩, System.follow_path (fun _ _ _ h => h) hs⟩
  have hapart := hwhole.apart
  rw [hr] at hapart
  have hbc : Disjoint b.stretch c.stretch := by simp_all
  have hinb : b.grantsFrom ∈ b.stretch := ⟨Nat.le_refl _, hlt⟩
  have hinc : b.grantsFrom ∈ c.stretch := by
    rw [Receipt.stretch, ← hfrom, ← huntil]
    exact hinb
  exact Set.disjoint_left.mp hbc hinb hinc

theorem no_paid_time_lost_renewed :
    ∃ s : Session, s.receipts.length = 3 ∧ s.membership.isSome = true ∧ s.Whole := by
  -- the second renewal reads after the first has committed, and the row expires in between
  let steps := asks 0 (oneMonth "a" 0) ++ settles 0 ++ asks 1 (oneMonth "b" 1) ++ settles 1 ++
    [.lockDue 3 (60 * dayMicros), .churn 3, .commit 3, .begin 2 (oneMonth "c" (61 * dayMicros)),
      .findCustomer 2, .reactivate 2, .readMembership 2] ++ settles 2
  have hrun : (System.follow Session.upToDate (Session.step reading 2) newcomer steps).map
      (fun s => (s.receipts.length, s.membership.isSome)) = some (3, true) := by decide +kernel
  obtain ⟨s, hs, hlen⟩ := Option.map_eq_some_iff.mp hrun
  exact ⟨s, congrArg Prod.fst hlen, congrArg Prod.snd hlen,
    no_paid_time_lost reading 2 ⟨newcomer, ⟨rfl, rfl, rfl, rfl, rfl⟩, System.follow_path (fun _ _ _ h => h) hs⟩⟩

end Autora.Company
