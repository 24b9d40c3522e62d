import Autora.Memberships

/-! Orders: what somebody is about to pay for, and the provider's notifications
that settle or abandon it. -/

namespace Autora.Company

open Transactions

inductive OrderError where
  | refused (message : String)
  | order (message : String)
  | integrity (constraint : String)
  | raised (error : BookError)
  deriving DecidableEq, Repr

abbrev OrderTx := StateT Books (Except OrderError)

/-- `trade_number`: `AU` and the last eighteen hexadecimal digits of the id. -/
def tradeNumber (orderId : Id) : String :=
  let hex := (Nat.toDigits 16 (orderId % 16 ^ 18)).map Char.toUpper
  "AU" ++ String.ofList (List.replicate (18 - hex.length) '0' ++ hex)

def Books.byTradeNumber (b : Books) (provider merTradeNo : String) : Option Order :=
  b.orders.find? fun o => o.provider = provider && o.merTradeNo = merTradeNo

def Books.setOrder (b : Books) (id : Id) (f : Order → Order) : Books :=
  { b with orders := b.orders.map fun o => if o.id = id then f o else o }

/-- The row `open_order` writes. -/
def orderRow (price : Price) (customerRef provider : String) (amount : Option Money) (id : Id) :
    Order where
  id := id
  companyId := price.companyId
  priceId := price.id
  customerRef := customerRef
  amount := amount.getD price.amount
  currency := price.currency
  provider := provider
  merTradeNo := tradeNumber id
  state := .pending
  paymentId := none

/-- Write down what somebody is about to pay for. -/
def openOrder (price : Price) (customerRef provider : String) (amount : Option Money) :
    OrderTx Order := do
  require (price.state = .active)
    (.order "this price is retired; nothing new can be bought at it")
  require (isBlank customerRef = false)
    (.order "an order is for somebody; this one is for nobody")
  let orderId ← within .raised uuid7
  let order := orderRow price customerRef provider amount orderId
  let b ← get
  require ((b.byTradeNumber provider order.merTradeNo).isNone)
    (.integrity "uq_orders_provider_mer_trade_no")
  modify fun b => { b with orders := b.orders ++ [order] }
  pure order

structure Settled where
  order : Order
  payment : Payment
  granted : Bool
  deriving DecidableEq, Repr

structure SettleArgs where
  provider : String
  merTradeNo : String
  externalRef : String
  amount : Rat
  paidAt : Option Time := none

/-- What the order of a notification buys. -/
def Order.purchaseArgs (order : Order) (price : Price) (a : SettleArgs) (now : Time) :
    PurchaseArgs where
  price := price
  customerRef := order.customerRef
  provider := a.provider
  externalRef := a.externalRef
  amount := quantize a.amount
  currency := order.currency
  paidAt := a.paidAt.getD now

/-- A payment the provider says happened: check it against its order, then grant. -/
def settle (a : SettleArgs) : OrderTx Settled := do
  let b ← get
  let order ← orRaise (.refused ("no " ++ a.provider ++ " order '" ++ a.merTradeNo ++ "'"))
    (b.byTradeNumber a.provider a.merTradeNo)
  require (quantize a.amount = order.amount)
    (.refused ("order " ++ a.merTradeNo ++ " is for " ++ order.amount.text ++
      ", the notification says " ++ (quantize a.amount).text))
  let price ← orRaise (.raised (.missing "prices")) (b.price? order.priceId)
  let (payment, created) ← within .raised (purchase (order.purchaseArgs price a b.now))
  if order.state = .paid then pure ⟨order, payment, created⟩
  else do
    modify fun b => b.setOrder order.id fun o =>
      { o with state := .paid, paymentId := some payment.id }
    pure ⟨{ order with state := .paid, paymentId := some payment.id }, payment, created⟩

/-- A payment that failed or an order nobody finished. -/
def abandon (order : Order) (state : OrderState) : OrderTx Order := do
  require (order.state ≠ .paid) (.order "an order that was paid cannot be abandoned")
  modify fun b => b.setOrder order.id fun o => { o with state := state }
  pure { order with state := state }

/-! `payuni_notify`, from the notification its envelope held. -/

def succeeded : String := "SUCCESS"

def tradePaid : String := "1"

def tradeAwaiting : String := "0"

/-- `PROVIDER`. -/
def payuni : String := "payuni"

structure Notification where
  status : String
  merTradeNo : String
  tradeNo : String
  tradeAmt : Rat
  tradeStatus : String

def Notification.paid (n : Notification) : Bool :=
  n.status = succeeded && n.tradeStatus = tradePaid

/-- `notification.trade_no or notification.mer_trade_no`. -/
def Notification.ref (n : Notification) : String :=
  if n.tradeNo = "" then n.merTradeNo else n.tradeNo

/-- How the endpoint answers: `1|OK`, a 400, or the error nobody caught. -/
inductive Answer where
  | acknowledged
  | refused (detail : String)
  | unhandled (error : OrderError)
  deriving DecidableEq, Repr

/-- A notification of anything but a payment. -/
def heard (n : Notification) : OrderTx Unit := do
  let b ← get
  match b.byTradeNumber payuni n.merTradeNo with
  | none => pure ()
  | some order =>
    if n.tradeStatus = tradeAwaiting then pure ()
    else do
      let _ ← abandon order .failed
      pure ()

def Notification.settleArgs (n : Notification) : SettleArgs where
  provider := payuni
  merTradeNo := n.merTradeNo
  externalRef := n.ref
  amount := n.tradeAmt

/-- The endpoint: the answer, and the books as they are committed. -/
def payuniNotify (n : Notification) (b : Books) : Answer × Books :=
  if n.paid then
    match settle n.settleArgs b with
    | .ok (_, b') => (.acknowledged, b')
    | .error (.refused _) => (.refused "refused", b)
    | .error e => (.unhandled e, b)
  else
    match heard n b with
    | .ok (_, b') => (.acknowledged, b')
    | .error e => (.unhandled e, b)

/-- `retire_price`. -/
def retirePrice (price : Id) : Tx Unit :=
  modify fun b => { b with prices := b.prices.map fun p =>
    if p.id = price then { p with state := .retired } else p }

end Autora.Company
