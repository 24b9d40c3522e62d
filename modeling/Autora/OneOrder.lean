import Autora.Orders
import Autora.Purchases

/-! One order and the notifications about it: what each of them does, and when
the order buys exactly one stretch. -/

namespace Autora.Company

open Transactions

variable {b b' : Books} {price : Price} {order : Order}

/-- Something that happens to an order after it was opened. -/
inductive Incident where
  | notified (now : Time) (n : Notification)
  | priceRetired

/-- What is heard of the order, and the books afterwards. -/
def Books.meet (b : Books) (order : Order) : Incident → Option Answer × Books
  | .notified now n =>
    let r := payuniNotify n { b with now := now }
    (some r.1, r.2)
  | .priceRetired =>
    match retirePrice order.priceId b with
    | .ok (_, b') => (none, b')
    | .error _ => (none, b)

def Books.hear (order : Order) : Books → List Incident → List Answer × Books
  | b, [] => ([], b)
  | b, i :: is =>
    let r := b.meet order i
    let rest := hear order r.2 is
    (r.1.toList ++ rest.1, rest.2)

def Incident.paid : Incident → Bool
  | .notified _ n => n.paid
  | .priceRetired => false

/-- A notification about the order; one that says paid says the ordered amount. -/
def Incident.About (order : Order) : Incident → Prop
  | .notified _ n => n.merTradeNo = order.merTradeNo ∧
      (n.paid = true → quantize n.tradeAmt = order.amount)
  | .priceRetired => True

def Answer.Handled : Answer → Prop
  | .unhandled _ => False
  | _ => True

/-! The row of the order. -/

theorem byTradeNumber_setOrder {provider merTradeNo : String} {o : Order} {f : Order → Order}
    (h : b.byTradeNumber provider merTradeNo = some o)
    (hf : ∀ x, (f x).provider = x.provider ∧ (f x).merTradeNo = x.merTradeNo) :
    (b.setOrder o.id f).byTradeNumber provider merTradeNo = some (f o) := by
  simp only [Books.byTradeNumber, Books.setOrder] at h ⊢
  rw [List.find?_map]
  have hsame : ((fun o : Order => decide (o.provider = provider) && decide
      (o.merTradeNo = merTradeNo)) ∘ fun x => if x.id = o.id then f x else x) =
      fun o => decide (o.provider = provider) && decide (o.merTradeNo = merTradeNo) := by
    funext x
    simp only [Function.comp]
    split
    · rw [(hf x).1, (hf x).2]
    · rfl
  rw [hsame, h]
  simp

/-- The order as it stands: its row, and its price. -/
structure Standing (price : Price) (order : Order) (retired : Bool) (s : OrderState)
    (payment : Option Id) (b : Books) : Prop where
  row : b.byTradeNumber payuni order.merTradeNo =
    some { order with state := s, paymentId := payment }
  price : b.price? order.priceId =
    some { price with state := if retired then .retired else .active }

/-- The purchase a paid notification asks for. -/
def Order.asks (order : Order) (price : Price) (retired : Bool) (n : Notification) (now : Time) :
    PurchaseArgs :=
  order.purchaseArgs { price with state := if retired then .retired else .active } n.settleArgs now

variable {retired : Bool} {s : OrderState} {payment : Option Id} {n : Notification}

theorem purchaseArgs_row {price : Price} {a : SettleArgs} {now : Time} :
    ({ order with state := s, paymentId := payment } : Order).purchaseArgs price a now =
      order.purchaseArgs price a now := rfl

theorem settle_eq (h : Standing price order retired s payment b)
    (hmer : n.merTradeNo = order.merTradeNo) (hamount : quantize n.tradeAmt = order.amount) :
    settle n.settleArgs b = match purchase (order.asks price retired n b.now) b with
      | .error e => .error (.raised e)
      | .ok (r, b₁) =>
        if s = .paid then
          .ok (⟨{ order with state := s, paymentId := payment }, r.1, r.2⟩, b₁)
        else
          .ok (⟨{ order with state := .paid, paymentId := some r.1.id }, r.1, r.2⟩,
            b₁.setOrder order.id fun o => { o with state := .paid, paymentId := some r.1.id }) := by
  simp only [settle, Order.asks, Notification.settleArgs, hmer, bind, StateT.bind, Except.bind,
    get, getThe, MonadStateOf.get, StateT.get, pure, Except.pure, h.row, orRaise, StateT.pure,
    require, hamount, if_true, h.price, within, purchaseArgs_row]
  generalize purchase _ b = result
  cases result with
  | error e => rfl
  | ok r =>
    simp only
    split
    · rfl
    · rfl

/-! One notification. -/

/-- Everything a notification about the order can do. -/
inductive Heard (price : Price) (order : Order) (retired : Bool) (s : OrderState)
    (n : Notification) (b : Books) : Answer → Books → Prop
  | awaited (hp : n.paid = false) (ha : n.tradeStatus = tradeAwaiting) :
    Heard price order retired s n b .acknowledged b
  | failed (hp : n.paid = false) (ha : n.tradeStatus ≠ tradeAwaiting) (hs : s ≠ .paid) :
    Heard price order retired s n b .acknowledged
      (b.setOrder order.id fun o => { o with state := .failed })
  | late (hp : n.paid = false) (ha : n.tradeStatus ≠ tradeAwaiting) (hs : s = .paid)
    (e : OrderError) : Heard price order retired s n b (.unhandled e) b
  | claimed (hp : n.paid = true) (p : Payment) (hk : b.byProviderRef payuni n.ref = some p)
    (hs : s ≠ .paid) :
    Heard price order retired s n b .acknowledged
      (b.setOrder order.id fun o => { o with state := .paid, paymentId := some p.id })
  | repeated (hp : n.paid = true) (p : Payment) (hk : b.byProviderRef payuni n.ref = some p)
    (hs : s = .paid) : Heard price order retired s n b .acknowledged b
  | bought (hp : n.paid = true) (p : Payment) (b₁ : Books)
    (hk : b.byProviderRef payuni n.ref = none) (hs : s ≠ .paid)
    (hb : Returns (purchase (order.asks price retired n b.now)) b (p, true) b₁) :
    Heard price order retired s n b .acknowledged
      (b₁.setOrder order.id fun o => { o with state := .paid, paymentId := some p.id })
  | boughtAgain (hp : n.paid = true) (p : Payment) (b₁ : Books)
    (hk : b.byProviderRef payuni n.ref = none) (hs : s = .paid)
    (hb : Returns (purchase (order.asks price retired n b.now)) b (p, true) b₁) :
    Heard price order retired s n b .acknowledged b₁
  | raised (hp : n.paid = true) (hk : b.byProviderRef payuni n.ref = none)
    (hno : ∀ r b₁, ¬ Returns (purchase (order.asks price retired n b.now)) b r b₁)
    (e : OrderError) : Heard price order retired s n b (.unhandled e) b

theorem notify_unpaid (h : Standing price order retired s payment b)
    (hmer : n.merTradeNo = order.merTradeNo) (hp : n.paid = false) :
    Heard price order retired s n b (payuniNotify n b).1 (payuniNotify n b).2 := by
  simp only [payuniNotify, hp, heard, abandon, hmer, bind, StateT.bind, Except.bind, get, getThe,
    MonadStateOf.get, StateT.get, pure, Except.pure, h.row, require]
  by_cases ha : n.tradeStatus = tradeAwaiting
  · rw [if_pos ha]
    exact .awaited hp ha
  · rw [if_neg ha]
    by_cases hs : s = .paid
    · subst hs
      exact .late hp ha rfl _
    · rw [if_pos hs]
      exact .failed hp ha hs

theorem notify_paid (h : Standing price order retired s payment b)
    (hmer : n.merTradeNo = order.merTradeNo) (hp : n.paid = true)
    (hamount : quantize n.tradeAmt = order.amount) :
    Heard price order retired s n b (payuniNotify n b).1 (payuniNotify n b).2 := by
  simp only [payuniNotify, hp, if_true, settle_eq h hmer hamount]
  cases hk : b.byProviderRef payuni n.ref with
  | some p =>
    have hr : purchase (order.asks price retired n b.now) b = .ok ((p, false), b) :=
      (returns_purchase_known hk).mpr ⟨rfl, rfl⟩
    rw [hr]
    simp only
    by_cases hs : s = .paid
    · rw [if_pos hs]
      exact .repeated hp p hk hs
    · rw [if_neg hs]
      exact .claimed hp p hk hs
  | none =>
    cases hr : purchase (order.asks price retired n b.now) b with
    | error e =>
      refine .raised hp hk (fun r b₁ hh => ?_) _
      rw [Returns, hr] at hh
      cases hh
    | ok r =>
      obtain ⟨⟨p, created⟩, b₁⟩ := r
      have htrue : created = true := (purchase_bought hk hr).1
      rw [htrue] at hr
      simp only
      by_cases hs : s = .paid
      · rw [if_pos hs]
        exact .boughtAgain hp p b₁ hk hs hr
      · rw [if_neg hs]
        exact .bought hp p b₁ hk hs hr

/-! How the order stands after a step. -/

theorem Standing.now (h : Standing price order retired s payment b) (now : Time) :
    Standing price order retired s payment { b with now := now } :=
  ⟨h.row, h.price⟩

theorem Standing.setOrder (h : Standing price order retired s payment b) (s' : OrderState)
    (payment' : Option Id) : Standing price order retired s' payment'
      (b.setOrder order.id fun o => { o with state := s', paymentId := payment' }) := by
  have hrow := byTradeNumber_setOrder (f := fun o => { o with
    state := s'
    paymentId := payment' }) h.row fun _ => ⟨rfl, rfl⟩
  exact ⟨hrow, h.price⟩

theorem Standing.failed (h : Standing price order retired s payment b) :
    Standing price order retired .failed payment
      (b.setOrder order.id fun o => { o with state := .failed }) := by
  have hrow := byTradeNumber_setOrder (f := fun o => { o with state := .failed }) h.row
    fun _ => ⟨rfl, rfl⟩
  exact ⟨hrow, h.price⟩

theorem Standing.bought {a : PurchaseArgs} {p : Payment}
    (h : Standing price order retired s payment b) (hb : Bought b a p b') :
    Standing price order retired s payment b' := by
  constructor
  · rw [hb.rest]
    exact h.row
  · rw [hb.rest]
    exact h.price

theorem Standing.retire (h : Standing price order retired s payment b) :
    ∃ prices, b.meet order .priceRetired = (none, { b with prices := prices }) ∧
      Standing price order true s payment { b with prices := prices } := by
  refine ⟨_, rfl, h.row, ?_⟩
  have hprice := h.price
  simp only [Books.price?] at hprice ⊢
  rw [List.find?_map]
  have hsame : ((fun p : Price => decide (p.id = order.priceId)) ∘
      fun p => if p.id = order.priceId then { p with state := PriceState.retired } else p) =
      fun p => decide (p.id = order.priceId) := by
    funext p
    simp only [Function.comp]
    split <;> simp [*]
  rw [hsame, hprice]
  have hid := List.find?_some hprice
  simp only [decide_eq_true_eq] at hid
  simp [hid]

theorem meet_notified {now : Time} (h : Standing price order retired s payment b)
    (habout : (Incident.notified now n).About order) :
    ∃ a b', b.meet order (.notified now n) = (some a, b') ∧
      Heard price order retired s n { b with now := now } a b' := by
  refine ⟨_, _, rfl, ?_⟩
  cases hp : n.paid with
  | false => exact notify_unpaid (h.now now) habout.1 hp
  | true => exact notify_paid (h.now now) habout.1 hp (habout.2 hp)

/-- More payments may have come, all of them new. -/
structure Later (b b' : Books) : Prop where
  payments : ∃ ps, b'.payments = b.payments ++ ps ∧ ∀ p ∈ ps, b.nextId ≤ p.id
  nextId : b.nextId ≤ b'.nextId

theorem Later.of_same (hp : b'.payments = b.payments) (hn : b'.nextId = b.nextId) : Later b b' :=
  ⟨⟨[], by simp [hp]⟩, Nat.le_of_eq hn.symm⟩

theorem Later.trans {b'' : Books} (h : Later b b') (h' : Later b' b'') : Later b b'' := by
  obtain ⟨ps, hps, hids⟩ := h.payments
  obtain ⟨ps', hps', hids'⟩ := h'.payments
  refine ⟨⟨ps ++ ps', by rw [hps', hps, List.append_assoc], fun p hp => ?_⟩,
    Nat.le_trans h.nextId h'.nextId⟩
  rcases List.mem_append.mp hp with hp | hp
  · exact hids p hp
  · exact Nat.le_trans h.nextId (hids' p hp)

theorem Later.of_bought {a : PurchaseArgs} {p : Payment} (h : Bought b a p b') : Later b b' := by
  refine ⟨⟨[p], h.payments, fun q hq => ?_⟩, Nat.le_of_lt (Nat.lt_of_le_of_lt h.id.1 h.id.2)⟩
  rw [List.mem_singleton.mp hq]
  exact h.id.1

/-- Whatever happens, payments only come, and a paid order keeps its payment. -/
theorem meet_later {i : Incident} (h : Standing price order retired s payment b)
    (habout : i.About order) :
    ∃ retired' s' payment', Standing price order retired' s' payment' (b.meet order i).2 ∧
      (s = .paid → s' = .paid ∧ payment' = payment) ∧ Later b (b.meet order i).2 := by
  cases i with
  | priceRetired =>
    obtain ⟨prices, hmeet, hs⟩ := h.retire
    rw [hmeet]
    exact ⟨true, s, payment, hs, fun hh => ⟨hh, rfl⟩, .of_same rfl rfl⟩
  | notified now n =>
    obtain ⟨a, b', hmeet, hheard⟩ := meet_notified h habout
    rw [hmeet]
    have hnow := h.now now
    cases hheard with
    | awaited => exact ⟨_, _, _, hnow, fun hh => ⟨hh, rfl⟩, .of_same rfl rfl⟩
    | failed _ _ hs => exact ⟨_, _, _, hnow.failed, fun hh => absurd hh hs, .of_same rfl rfl⟩
    | late => exact ⟨_, _, _, hnow, fun hh => ⟨hh, rfl⟩, .of_same rfl rfl⟩
    | claimed _ p _ hs =>
      exact ⟨_, _, _, hnow.setOrder _ _, fun hh => absurd hh hs, .of_same rfl rfl⟩
    | repeated => exact ⟨_, _, _, hnow, fun hh => ⟨hh, rfl⟩, .of_same rfl rfl⟩
    | bought _ p b₁ hk hs hb =>
      have hbought := (purchase_bought hk hb).2
      have hl := Later.of_bought hbought
      exact ⟨_, _, _, (hnow.bought hbought).setOrder _ _, fun hh => absurd hh hs, hl.payments,
        hl.nextId⟩
    | boughtAgain _ p b₁ hk hs hb =>
      have hbought := (purchase_bought hk hb).2
      have hl := Later.of_bought hbought
      exact ⟨_, _, _, hnow.bought hbought, fun hh => ⟨hh, rfl⟩, hl.payments, hl.nextId⟩
    | raised => exact ⟨_, _, _, hnow, fun hh => ⟨hh, rfl⟩, .of_same rfl rfl⟩

theorem hear_later {is : List Incident} (h : Standing price order retired s payment b)
    (habout : ∀ i ∈ is, i.About order) :
    ∃ retired' s' payment', Standing price order retired' s' payment' (b.hear order is).2 ∧
      (s = .paid → s' = .paid ∧ payment' = payment) ∧ Later b (b.hear order is).2 := by
  induction is generalizing b retired s payment with
  | nil => exact ⟨_, _, _, h, fun hh => ⟨hh, rfl⟩, .of_same rfl rfl⟩
  | cons i is ih =>
    obtain ⟨r₁, s₁, p₁, hs₁, hk₁, hl₁⟩ := meet_later h (habout i (by simp))
    obtain ⟨r₂, s₂, p₂, hs₂, hk₂, hl₂⟩ := ih hs₁ fun j hj => habout j (by simp [hj])
    refine ⟨r₂, s₂, p₂, hs₂, fun hh => ?_, hl₁.trans hl₂⟩
    obtain ⟨h₁, he₁⟩ := hk₁ hh
    obtain ⟨h₂, he₂⟩ := hk₂ h₁
    exact ⟨h₂, he₂.trans he₁⟩

/-! After the order was paid. -/

/-- Nothing new: a paid notification whose reference a payment already carries, one that
still awaits the money, or the end of the price. -/
def Incident.Repeats (b : Books) : Incident → Prop
  | .notified _ n =>
    if n.paid then (b.byProviderRef payuni n.ref).isSome = true
    else n.tradeStatus = tradeAwaiting
  | .priceRetired => True

theorem meet_repeats {i : Incident} (h : Standing price order retired .paid payment b)
    (habout : i.About order) (hi : i.Repeats b) :
    (∀ a ∈ (b.meet order i).1, a.Handled) ∧
      (∃ retired', Standing price order retired' .paid payment (b.meet order i).2) ∧
      (b.meet order i).2.payments = b.payments ∧
      (b.meet order i).2.transactions = b.transactions := by
  cases i with
  | priceRetired =>
    obtain ⟨prices, hmeet, hs⟩ := h.retire
    rw [hmeet]
    exact ⟨by simp, ⟨_, hs⟩, rfl, rfl⟩
  | notified now n =>
    obtain ⟨a, b', hmeet, hheard⟩ := meet_notified h habout
    rw [hmeet]
    have hnow := h.now now
    have hack : ∀ a' ∈ some Answer.acknowledged, a'.Handled := by
      intro a' ha'
      cases ha'
      trivial
    cases hheard with
    | awaited => exact ⟨hack, ⟨_, hnow⟩, rfl, rfl⟩
    | repeated => exact ⟨hack, ⟨_, hnow⟩, rfl, rfl⟩
    | failed _ _ hs => exact absurd rfl hs
    | claimed _ _ _ hs => exact absurd rfl hs
    | bought _ _ _ _ hs => exact absurd rfl hs
    | late hp ha =>
      rw [Incident.Repeats, hp] at hi
      exact absurd hi ha
    | boughtAgain hp p b₁ hk =>
      rw [Incident.Repeats, hp, if_pos rfl] at hi
      have hnone : b.byProviderRef payuni n.ref = none := hk
      rw [hnone] at hi
      cases hi
    | raised hp hk =>
      rw [Incident.Repeats, hp, if_pos rfl] at hi
      have hnone : b.byProviderRef payuni n.ref = none := hk
      rw [hnone] at hi
      cases hi

theorem Incident.Repeats.congr {i : Incident} (h : i.Repeats b) (hp : b'.payments = b.payments) :
    i.Repeats b' := by
  cases i with
  | priceRetired => trivial
  | notified now n =>
    simp only [Incident.Repeats, Books.byProviderRef] at h ⊢
    rw [hp]
    exact h

theorem hear_repeats {is : List Incident} (h : Standing price order retired .paid payment b)
    (habout : ∀ i ∈ is, i.About order) (hi : ∀ i ∈ is, i.Repeats b) :
    (∀ a ∈ (b.hear order is).1, a.Handled) ∧
      (∃ retired', Standing price order retired' .paid payment (b.hear order is).2) ∧
      (b.hear order is).2.payments = b.payments ∧
      (b.hear order is).2.transactions = b.transactions := by
  induction is generalizing b retired with
  | nil => exact ⟨by simp [Books.hear], ⟨_, h⟩, rfl, rfl⟩
  | cons i is ih =>
    obtain ⟨ha, ⟨r₁, hs₁⟩, hp₁, ht₁⟩ := meet_repeats h (habout i (by simp)) (hi i (by simp))
    obtain ⟨ha', hs', hp', ht'⟩ := ih hs₁ (fun j hj => habout j (by simp [hj]))
      fun j hj => (hi j (by simp [hj])).congr hp₁
    refine ⟨fun a hm => ?_, hs', hp'.trans hp₁, ht'.trans ht₁⟩
    rcases List.mem_append.mp hm with hm | hm
    · exact ha a (by simpa using hm)
    · exact ha' a hm

/-- Without an error and without another payment, nothing new came. -/
theorem repeats_of_hear {is : List Incident} (h : Standing price order retired .paid payment b)
    (habout : ∀ i ∈ is, i.About order) (hans : ∀ a ∈ (b.hear order is).1, a.Handled)
    (hlen : (b.hear order is).2.payments.length ≤ b.payments.length) :
    ∀ i ∈ is, i.Repeats b := by
  induction is generalizing b retired with
  | nil => simp
  | cons i is ih =>
    have hi : i.Repeats b := by
      cases i with
      | priceRetired => trivial
      | notified now n =>
        obtain ⟨a, b', hmeet, hheard⟩ := meet_notified h
          (habout (.notified now n) (by simp))
        have hmine : a.Handled := hans a (by simp [Books.hear, hmeet])
        cases hheard with
        | awaited hp ha => simpa [Incident.Repeats, hp] using ha
        | repeated hp p hk =>
          have hsome : b.byProviderRef payuni n.ref = some p := hk
          simp [Incident.Repeats, hp, hsome]
        | failed _ _ hs => exact absurd rfl hs
        | claimed _ _ _ hs => exact absurd rfl hs
        | bought _ _ _ _ hs => exact absurd rfl hs
        | late => exact hmine.elim
        | raised => exact hmine.elim
        | boughtAgain hp p b₁ hk _ hb =>
          have hbought := (purchase_bought hk hb).2
          obtain ⟨_, _, _, _, _, hlater⟩ := hear_later ((h.now now).bought hbought)
            fun j hj => habout j (List.mem_cons_of_mem _ hj)
          obtain ⟨ps, hps, _⟩ := hlater.payments
          have hfinal : (b.hear order (.notified now n :: is)).2 = (b'.hear order is).2 := by
            simp only [Books.hear, hmeet]
          rw [hfinal, hps, hbought.payments] at hlen
          simp only [List.length_append, List.length_cons, List.length_nil] at hlen
          omega
    obtain ⟨_, ⟨r₁, hs₁⟩, hp₁, _⟩ := meet_repeats h (habout i (by simp)) hi
    have hrest := ih hs₁ (fun j hj => habout j (by simp [hj]))
      (fun a ha => hans a (by simp [Books.hear, ha])) (by rw [hp₁]; exact hlen)
    intro j hj
    rcases List.mem_cons.mp hj with rfl | hj
    · exact hi
    · exact (hrest j hj).congr hp₁.symm

/-! Until the order is paid. -/

/-- The books as they were, but for the clock, the orders and the prices. -/
def Quiet (b b' : Books) : Prop :=
  b' = { b with
    now := b'.now
    orders := b'.orders
    prices := b'.prices }

theorem Quiet.trans {b'' : Books} (h : Quiet b b') (h' : Quiet b' b'') : Quiet b b'' := by
  unfold Quiet at h h' ⊢
  rw [h', h]

def Incident.retires : Incident → Bool
  | .priceRetired => true
  | .notified .. => false

theorem meet_unpaid {i : Incident} (h : Standing price order retired s payment b)
    (hs : s ≠ .paid) (habout : i.About order) (hi : i.paid = false) :
    (∀ a ∈ (b.meet order i).1, a.Handled) ∧ Quiet b (b.meet order i).2 ∧
      ∃ s', s' ≠ .paid ∧
        Standing price order (retired || i.retires) s' payment (b.meet order i).2 := by
  cases i with
  | priceRetired =>
    obtain ⟨prices, hmeet, hstand⟩ := h.retire
    rw [hmeet, Incident.retires, Bool.or_true]
    exact ⟨by simp, rfl, s, hs, hstand⟩
  | notified now n =>
    obtain ⟨a, b', hmeet, hheard⟩ := meet_notified h habout
    have hnow := h.now now
    have hp : n.paid = false := hi
    rw [hmeet, Incident.retires, Bool.or_false]
    have hack : ∀ a' ∈ some Answer.acknowledged, a'.Handled := by
      intro a' ha'
      cases ha'
      trivial
    cases hheard with
    | awaited => exact ⟨hack, rfl, s, hs, hnow⟩
    | failed => exact ⟨hack, rfl, .failed, by simp, hnow.failed⟩
    | late _ _ hpaid => exact absurd hpaid hs
    | claimed hp' => rw [hp] at hp'; cases hp'
    | repeated hp' => rw [hp] at hp'; cases hp'
    | bought hp' => rw [hp] at hp'; cases hp'
    | boughtAgain hp' => rw [hp] at hp'; cases hp'
    | raised hp' => rw [hp] at hp'; cases hp'

theorem hear_unpaid {is : List Incident} (h : Standing price order retired s payment b)
    (hs : s ≠ .paid) (habout : ∀ i ∈ is, i.About order) (hi : ∀ i ∈ is, i.paid = false) :
    (∀ a ∈ (b.hear order is).1, a.Handled) ∧ Quiet b (b.hear order is).2 ∧
      ∃ s', s' ≠ .paid ∧ Standing price order (retired || is.any Incident.retires) s' payment
        (b.hear order is).2 := by
  induction is generalizing b retired s with
  | nil =>
    rw [List.any_nil, Bool.or_false]
    exact ⟨by simp [Books.hear], rfl, s, hs, h⟩
  | cons i is ih =>
    obtain ⟨ha, hq, s₁, hs₁, hst₁⟩ := meet_unpaid h hs (habout i (by simp)) (hi i (by simp))
    obtain ⟨ha', hq', s₂, hs₂, hst₂⟩ := ih hst₁ hs₁ (fun j hj => habout j (by simp [hj]))
      fun j hj => hi j (by simp [hj])
    rw [Bool.or_assoc] at hst₂
    refine ⟨fun a hm => ?_, hq.trans hq', s₂, hs₂, hst₂⟩
    rcases List.mem_append.mp hm with hm | hm
    · exact ha a (by simpa using hm)
    · exact ha' a hm

theorem hear_append (pre is : List Incident) :
    b.hear order (pre ++ is) = ((b.hear order pre).1 ++ ((b.hear order pre).2.hear order is).1,
      ((b.hear order pre).2.hear order is).2) := by
  induction pre generalizing b with
  | nil => rfl
  | cons i pre ih => simp [Books.hear, ih]

/-- The first paid notification of a run. -/
theorem first_paid {is : List Incident} (h : ∃ i ∈ is, i.paid = true) :
    ∃ pre now n post, is = pre ++ .notified now n :: post ∧ n.paid = true ∧
      ∀ i ∈ pre, i.paid = false := by
  obtain ⟨i, hi⟩ := Option.isSome_iff_exists.mp (List.find?_isSome.mpr h)
  obtain ⟨hp, pre, post, rfl, hpre⟩ := List.find?_eq_some_iff_append.mp hi
  cases i with
  | priceRetired => cases hp
  | notified now n => exact ⟨pre, now, n, post, rfl, hp, fun j hj => by simpa using hpre j hj⟩

/-! What the notifications come to. -/

/-- Every notification is answered, the order ends paid exactly when a paid notification
came, and then one payment, one ledger row and one stretch are there for it. -/
def OneStretch (b : Books) (order : Order) (is : List Incident) : Prop :=
  (∀ a ∈ (b.hear order is).1, a.Handled) ∧
  ∃ o, (b.hear order is).2.byTradeNumber payuni order.merTradeNo = some o ∧
    (o.state = .paid ↔ ∃ i ∈ is, i.paid = true) ∧
    (o.state = .paid → ∃ p t, (b.hear order is).2.payments = b.payments ++ [p] ∧
      (b.hear order is).2.transactions = b.transactions ++ [t] ∧ o.paymentId = some p.id ∧
      p.transactionId = t.id ∧ t.idempotencyKey = paymentKey p.provider p.externalRef ∧
      p.grantsFrom < p.grantsUntil)

/-- Nothing new after the payment of reference `ref`. -/
def Incident.Follows (b : Books) (ref : String) : Incident → Prop
  | .notified _ n =>
    if n.paid then n.ref = ref ∨ (b.byProviderRef payuni n.ref).isSome = true
    else n.tradeStatus = tradeAwaiting
  | .priceRetired => True

/-- No paid notification comes, or the first one comes while the price is active and can be
booked under a reference no payment carries, and nothing new follows it. -/
def Settles (b : Books) (price : Price) (order : Order) (is : List Incident) : Prop :=
  (∀ i ∈ is, i.paid = false) ∨
  ∃ pre now n post, is = pre ++ .notified now n :: post ∧ n.paid = true ∧
    (∀ i ∈ pre, i.paid = false ∧ i.retires = false) ∧
    b.byProviderRef payuni n.ref = none ∧ Bookable b (order.asks price false n now) ∧
    ∀ i ∈ post, i.Follows b n.ref

theorem follows_iff_repeats {a : PurchaseArgs} {p : Payment} (ha : a.provider = payuni)
    (hb : b'.payments = b.payments ++ [p]) (hp : p.provider = a.provider)
    (hr : p.externalRef = a.externalRef) (i : Incident) :
    i.Follows b a.externalRef ↔ i.Repeats b' := by
  cases i with
  | priceRetired => exact Iff.rfl
  | notified now n =>
    simp only [Incident.Follows, Incident.Repeats, Books.byProviderRef, hb, List.find?_append,
      Option.isSome_or, Bool.or_eq_true]
    have hprovider : p.provider = payuni := hp.trans ha
    have hlast : ([p].find? fun p => decide (p.provider = payuni) &&
        decide (p.externalRef = n.ref)).isSome = true ↔ n.ref = a.externalRef := by
      rw [← hr]
      simp [hprovider]
      exact eq_comm
    rw [hlast, or_comm]

theorem Quiet.bookable {a : PurchaseArgs} (h : Quiet b b') : Bookable b' a ↔ Bookable b a := by
  rw [h]
  exact ⟨fun hh => ⟨hh.sold, hh.booked, hh.unused⟩, fun hh => ⟨hh.sold, hh.booked, hh.unused⟩⟩

theorem Quiet.fresh (h : Quiet b b') (hf : b.Fresh) : b'.Fresh := by
  rw [h]
  exact ⟨hf.customers, hf.members, hf.payments⟩

/-- The notification that pays: the order is bought and stands paid. -/
theorem meet_buys (hf : b.Fresh) {now : Time} (h : Standing price order false s payment b)
    (hs : s ≠ .paid) (habout : (Incident.notified now n).About order) (hp : n.paid = true)
    (hk : b.byProviderRef payuni n.ref = none) (hb : Bookable b (order.asks price false n now)) :
    (b.meet order (.notified now n)).1 = some .acknowledged ∧
      ∃ p b₁, Bought { b with now := now } (order.asks price false n now) p b₁ ∧
        (b.meet order (.notified now n)).2.payments = b₁.payments ∧
        (b.meet order (.notified now n)).2.transactions = b₁.transactions ∧
        Standing price order false .paid (some p.id) (b.meet order (.notified now n)).2 := by
  obtain ⟨a, b', hmeet, hheard⟩ := meet_notified h habout
  rw [hmeet]
  cases hheard with
  | awaited hp' => rw [hp] at hp'; cases hp'
  | failed hp' => rw [hp] at hp'; cases hp'
  | late hp' => rw [hp] at hp'; cases hp'
  | claimed _ p hk' =>
    have hsome : b.byProviderRef payuni n.ref = some p := hk'
    rw [hk] at hsome
    cases hsome
  | repeated _ _ _ hs' => exact absurd hs' hs
  | boughtAgain _ _ _ _ hs' => exact absurd hs' hs
  | bought _ p b₁ hk' _ hret =>
    have hbought := (purchase_bought hk' hret).2
    exact ⟨rfl, p, b₁, hbought, rfl, rfl, ((h.now now).bought hbought).setOrder _ _⟩
  | raised _ hk' hno =>
    have hf' : ({ b with now := now } : Books).Fresh := ⟨hf.customers, hf.members, hf.payments⟩
    have hb' : Bookable { b with now := now } (order.asks price false n now) :=
      ⟨hb.sold, hb.booked, hb.unused⟩
    obtain ⟨p, b₁, hret⟩ := purchase_returns hf' hk' rfl hb'
    exact absurd hret (hno _ _)

theorem oneStretch_of_settles (hf : b.Fresh) (h : Standing price order false .pending none b)
    {is : List Incident} (habout : ∀ i ∈ is, i.About order) (hset : Settles b price order is) :
    OneStretch b order is := by
  rcases hset with hun | ⟨pre, now, n, post, rfl, hp, hpre, hk, hbook, hpost⟩
  · obtain ⟨ha, _, s', hs', hst⟩ := hear_unpaid h (by simp) habout hun
    refine ⟨ha, _, hst.row, ?_, fun hh => absurd hh hs'⟩
    constructor
    · exact fun hh => absurd hh hs'
    · rintro ⟨i, hi, hp⟩
      rw [hun i hi] at hp
      cases hp
  · obtain ⟨ha, hq, s₁, hs₁, hst⟩ := hear_unpaid h (by simp)
      (fun i hi => habout i (by simp [hi])) fun i hi => (hpre i hi).1
    have hactive : pre.any Incident.retires = false := by
      rw [List.any_eq_false]
      exact fun i hi => by simp [(hpre i hi).2]
    rw [hactive] at hst
    have hk₁ : (b.hear order pre).2.byProviderRef payuni n.ref = none := by
      rw [hq]
      exact hk
    obtain ⟨hack, p, b₁, hbought, hpay, htra, hpaid⟩ := meet_buys (hq.fresh hf) hst hs₁
      (habout (.notified now n) (by simp)) hp hk₁ (hq.bookable.mpr hbook)
    have hpayments : ((b.hear order pre).2.meet order (.notified now n)).2.payments =
        b.payments ++ [p] := by
      rw [hpay, hbought.payments, hq]
    obtain ⟨t, ht, htid, htkey⟩ := hbought.transactions
    obtain ⟨hans, ⟨_, hfin⟩, hfp, hft⟩ := hear_repeats hpaid
      (fun i hi => habout i (by simp [hi])) fun i hi =>
        (follows_iff_repeats rfl hpayments hbought.reference.1 hbought.reference.2.1 i).mp
          (hpost i hi)
    rw [OneStretch, hear_append]
    refine ⟨fun a hm => ?_, _, hfin.row, ?_, fun _ => ⟨p, t, ?_, ?_, rfl, htid, ?_, ?_⟩⟩
    · rcases List.mem_append.mp hm with hm | hm
      · exact ha a hm
      · simp only [Books.hear, hack, Option.toList_some, List.singleton_append,
          List.mem_cons] at hm
        rcases hm with rfl | hm
        · trivial
        · exact hans a hm
    · exact ⟨fun _ => ⟨.notified now n, by simp, hp⟩, fun _ => rfl⟩
    · exact hfp.trans hpayments
    · refine hft.trans ?_
      rw [htra, ht, hq]
    · rw [htkey, hbought.reference.1, hbought.reference.2.1]
    · exact lt_addInterval hbought.stretch

theorem settles_of_oneStretch (hf : b.Fresh) (h : Standing price order false .pending none b)
    {is : List Incident} (habout : ∀ i ∈ is, i.About order) (hone : OneStretch b order is) :
    Settles b price order is := by
  by_cases hsome : ∃ i ∈ is, i.paid = true
  · right
    obtain ⟨pre, now, n, post, rfl, hp, hpre⟩ := first_paid hsome
    obtain ⟨_, hq, s₁, hs₁, hst⟩ := hear_unpaid h (by simp)
      (fun i hi => habout i (by simp [hi])) hpre
    obtain ⟨hans, o, hrow, hiff, hpaid⟩ := hone
    obtain ⟨p', t', hpay', htra', hid', _⟩ := hpaid (hiff.mpr hsome)
    rw [hear_append] at hans hrow hpay'
    simp only [Books.hear] at hans hrow hpay'
    obtain ⟨a, b₂, hmeet, hheard⟩ := meet_notified hst (habout (.notified now n) (by simp))
    rw [hmeet] at hans hrow hpay'
    have hmine : a.Handled := hans a (by simp)
    have hpostAbout : ∀ i ∈ post, i.About order := fun i hi => habout i (by simp [hi])
    cases hheard with
    | awaited hp' => rw [hp] at hp'; cases hp'
    | failed hp' => rw [hp] at hp'; cases hp'
    | late hp' => rw [hp] at hp'; cases hp'
    | repeated _ _ _ hs' => exact absurd hs' hs₁
    | boughtAgain _ _ _ _ hs' => exact absurd hs' hs₁
    | raised => exact hmine.elim
    | claimed _ q hq' _ =>
      -- the order keeps a payment that was there before, and the new one has another id
      obtain ⟨_, _, _, hfin, hkeep, _⟩ := hear_later ((hst.now now).setOrder .paid (some q.id))
        hpostAbout
      have hsame := hrow.symm.trans hfin.row
      rw [Option.some.injEq] at hsame
      rw [hsame, (hkeep rfl).2, Option.some.injEq] at hid'
      have hqmem : q ∈ b.payments := by
        have hmem := List.mem_of_find?_eq_some hq'
        rw [hq] at hmem
        exact hmem
      obtain ⟨_, _, _, _, _, hlater⟩ := hear_later h habout
      rw [hear_append] at hlater
      simp only [Books.hear, hmeet] at hlater
      obtain ⟨ps, hps, hids⟩ := hlater.payments
      rw [hpay'] at hps
      have hp'mem : p' ∈ ps := by
        rw [← List.append_cancel_left hps]
        simp
      have hlt := hf.payments q hqmem
      have hle := hids p' hp'mem
      rw [← hid'] at hle
      exact absurd hlt (Nat.not_lt.mpr hle)
    | bought _ q b₁ hk' _ hret =>
      have hbought := (purchase_bought hk' hret).2
      have hk : b.byProviderRef payuni n.ref = none := by
        rw [hq] at hk'
        exact hk'
      have hpayments : b₁.payments = b.payments ++ [q] := by
        rw [hbought.payments, hq]
      have hfresh := hq.fresh hf
      have hfresh' : ({ (b.hear order pre).2 with now := now } : Books).Fresh :=
        ⟨hfresh.customers, hfresh.members, hfresh.payments⟩
      obtain ⟨hactive, hbook⟩ := purchase_bookable hfresh' hk' hret
      have hretired : pre.any Incident.retires = false := by
        cases hr : pre.any Incident.retires with
        | false => rfl
        | true =>
          rw [hr] at hactive
          cases hactive
      rw [hretired] at hbook
      refine ⟨pre, now, n, post, rfl, hp, fun i hi => ⟨hpre i hi, ?_⟩, hk,
        hq.bookable.mp ⟨hbook.sold, hbook.booked, hbook.unused⟩, ?_⟩
      · rw [List.any_eq_false] at hretired
        simpa using hretired i hi
      · have hpaidStand := ((hst.now now).bought hbought).setOrder .paid (some q.id)
        have hrep := repeats_of_hear hpaidStand hpostAbout
          (fun a ha => hans a (by simp [ha])) (by
            rw [hpay']
            show _ ≤ b₁.payments.length
            rw [hpayments]
            simp)
        intro i hi
        have hlast : (b₁.setOrder order.id fun o =>
            { o with state := .paid, paymentId := some q.id }).payments = b.payments ++ [q] :=
          hpayments
        exact (follows_iff_repeats (a := order.asks price (false || pre.any Incident.retires) n now)
          rfl hlast hbought.reference.1 hbought.reference.2.1 i).mpr (hrep i hi)
  · left
    intro i hi
    cases hpaid : i.paid with
    | false => rfl
    | true => exact absurd ⟨i, hi, hpaid⟩ hsome

/-- An order just opened stands pending, at a price that is active. -/
theorem opened_standing {b₀ : Books} {customerRef : String} {amount : Option Money}
    (hf : b₀.Fresh) (hprice : b₀.price? price.id = some price)
    (h : Returns (openOrder price customerRef payuni amount) b₀ order b) :
    b.Fresh ∧ Standing price order false .pending none b := by
  simp only [openOrder, returns_bind, returns_require, returns_within, returns_uuid7, returns_get,
    returns_modify, returns_pure] at h
  obtain ⟨_, _, ⟨hactive, rfl⟩, _, _, ⟨_, rfl⟩, _, _, ⟨rfl, rfl⟩, _, _, ⟨rfl, rfl⟩, _, _,
    ⟨hunique, rfl⟩, _, _, rfl, rfl, rfl⟩ := h
  refine ⟨⟨fun c hc => Nat.lt_succ_of_lt (hf.customers c hc), fun m hm => ?_,
    fun p hp => Nat.lt_succ_of_lt (hf.payments p hp)⟩, ?_, ?_⟩
  · exact ⟨Nat.lt_succ_of_lt (hf.members m hm).1, Nat.lt_succ_of_lt (hf.members m hm).2⟩
  · have hnone := Option.isNone_iff_eq_none.mp hunique
    simp only [Books.byTradeNumber] at hnone ⊢
    rw [List.find?_append, hnone]
    simp [orderRow]
  · have hsame : ({ price with state := if false = true then .retired else .active } : Price) =
        price := by
      rw [if_neg (by simp), ← hactive]
    rw [hsame]
    exact hprice

theorem one_order_one_stretch (b₀ b : Books) (price : Price) (customerRef : String)
    (amount : Option Money) (order : Order) (is : List Incident) (hf : b₀.Fresh)
    (hprice : b₀.price? price.id = some price)
    (hopen : Returns (openOrder price customerRef payuni amount) b₀ order b)
    (habout : ∀ i ∈ is, i.About order) :
    OneStretch b order is ↔ Settles b price order is := by
  obtain ⟨hf', hst⟩ := opened_standing hf hprice hopen
  exact ⟨settles_of_oneStretch hf' hst habout, oneStretch_of_settles hf' hst habout⟩

/-! A shop with one product, sold by the month, and an order for it. -/

def monthly : Price := ⟨2, 1, 1, 100000000, "TWD", .month, .active⟩

def shop : Books where
  fx := ⟨"TWD", [("USD", 32)]⟩
  now := 0
  nextId := 10
  customers := []
  products := [⟨1, 1, 1, "membership", .active⟩]
  prices := [monthly]
  memberships := []
  payments := []
  orders := []
  transactions := []
  modelCalls := []
  cycles := []
  events := []

def ordered : Order := orderRow monthly "reader:7" payuni none 10

def orderedShop : Books := { shop with
  nextId := 11
  orders := [ordered] }

/-- The provider says `status` about the order, under its trade number. -/
def said (status tradeStatus tradeNo : String) : Incident :=
  .notified 1000000 ⟨status, ordered.merTradeNo, tradeNo, 100, tradeStatus⟩

/-- A failed notification after the paid one raises an error nobody catches. -/
theorem failed_after_paid : ¬ OneStretch orderedShop ordered
    [said "SUCCESS" "1" "T1", said "FAILED" "2" "T1"] := by
  rintro ⟨hans, _⟩
  have hanswers : (orderedShop.hear ordered
      [said "SUCCESS" "1" "T1", said "FAILED" "2" "T1"]).1 =
      [.acknowledged, .unhandled (.order "an order that was paid cannot be abandoned")] := by
    decide +kernel
  rw [hanswers] at hans
  exact hans (.unhandled (.order "an order that was paid cannot be abandoned")) (by simp)

/-- The same payment announced twice, with the price retired in between. -/
theorem one_order_one_stretch_repeated : OneStretch orderedShop ordered
    [said "SUCCESS" "1" "T1", .priceRetired, said "SUCCESS" "1" "T1"] := by
  have hopen : Returns (openOrder monthly "reader:7" payuni none) shop ordered orderedShop := by
    simp only [openOrder, returns_bind, returns_require, returns_within, returns_uuid7, returns_get,
      returns_modify, returns_pure]
    exact ⟨(), _, ⟨rfl, rfl⟩, (), _, ⟨by decide +kernel, rfl⟩, _, _, ⟨rfl, rfl⟩, _, _, ⟨rfl, rfl⟩,
      (), _, ⟨rfl, rfl⟩, (), _, rfl, rfl, rfl⟩
  have hfresh : shop.Fresh := ⟨by simp [shop], by simp [shop], by simp [shop]⟩
  have habout : ∀ i ∈ [said "SUCCESS" "1" "T1", .priceRetired, said "SUCCESS" "1" "T1"],
      i.About ordered := by
    intro i hi
    have hamount : quantize 100 = ordered.amount := by decide +kernel
    simp only [List.mem_cons, List.not_mem_nil, or_false] at hi
    rcases hi with rfl | rfl | rfl
    · exact ⟨rfl, fun _ => hamount⟩
    · trivial
    · exact ⟨rfl, fun _ => hamount⟩
  refine (one_order_one_stretch shop orderedShop monthly "reader:7" none ordered _ hfresh rfl
    hopen habout).mpr (.inr ⟨[], _, _, _, rfl, by decide +kernel, by simp, rfl, ?_, ?_⟩)
  · exact ⟨⟨_, rfl, .inl (by decide +kernel), 2678401000000, by decide +kernel⟩,
      ⟨_, rfl, by decide +kernel⟩, rfl⟩
  · intro i hi
    simp only [List.mem_cons, List.not_mem_nil, or_false] at hi
    rcases hi with rfl | rfl
    · trivial
    · exact .inl rfl

end Autora.Company
