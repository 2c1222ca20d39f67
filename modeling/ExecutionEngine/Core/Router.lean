/-
  `OrderRouter`: submit, cancel, amend, the mass-cancel sweep and get, as the
  coroutines they are. Every suspension point of the source is one operation
  here, in the source's order, so an interleaving or a failure can strike
  between any two of them.

  `submit` is the frozen pipeline: kill-switch, dedupe, capability gate, risk
  gate, price band, stage ladder, breaker, single flight, insert, place, settle.
  `amend` branches on the declared semantics of the order's cell.
-/
import ExecutionEngine.Core.Gates
import ExecutionEngine.Adapters.Reconciler

namespace ExecutionEngine

open Async Async.Prog

structure NormalizedOrderResult where
  clientOrderId : String
  brokerOrderId : Option String
  broker : Broker
  status : PublicOrderStatus
  engineState : OrderState
  filledQty : Int
  remainingQty : Int
  avgFillPrice : Option (Decimal × Int)
  rejectReason : Option String
  createdAt : Time
  deriving DecidableEq

structure SubmitOutcome where
  result : NormalizedOrderResult
  duplicate : Bool
  resolution : HandleResolution := .confirmed
  deriving DecidableEq

namespace Router

/-- `_to_result`. -/
def toResult (r : OrderResultRow) : NormalizedOrderResult where
  clientOrderId := r.row.clientOrderId
  brokerOrderId := r.row.brokerOrderId
  broker := r.row.broker
  status := toPublicStatus r.row.status r.filledQty
  engineState := r.row.status
  filledQty := r.filledQty
  remainingQty := r.row.quantity - r.filledQty
  avgFillPrice := r.avgFillPrice
  rejectReason := r.row.rejectReason
  createdAt := r.row.createdAt

/-- `_amended_order`: the stored row with price and quantity overridden. -/
def amendedFields (row : OrderRow) (cid : String) (newPrice : Option Decimal)
    (newQty : Option Int) : OrderFields where
  clientOrderId := cid
  broker := row.broker
  account := row.account
  market := row.market
  symbol := row.symbol
  side := row.side
  orderType := row.orderType
  price := newPrice.or row.price
  stopPrice := row.stopPrice
  quantity := newQty.getD row.quantity
  displayQty := row.displayQty
  tif := row.tif
  positionEffect := row.positionEffect

def amendedOrder (row : OrderRow) (cid : String) (newPrice : Option Decimal)
    (newQty : Option Int) : Except Exn NormalizedOrder :=
  NormalizedOrder.build (amendedFields row cid newPrice newQty)

/-- `get`. -/
def get (cid : String) : Eff NormalizedOrderResult := do
  match ← Eff.store (.fetchOrderResult cid) with
  | none => .raise (.rejected .orderNotFound "unknown client_order_id" cid)
  | some r => .ret (toResult r)

variable (R : Router)

/-! ## Submit -/

/-- `row.created_at if row is not None else _utc_now()`. -/
def submittedAt : Option OrderRow → Eff Time
  | some row => .ret row.createdAt
  | none => Eff.ext .now

/-- `_recover_handle`: with no resolver the row stays PENDING_NEW and the answer is UNKNOWN. -/
def recoverHandle (fuel : Nat) (o : NormalizedOrder) : Eff HandleResolution :=
  if R.handleResolver then do
    let row ← Eff.store (.fetchOrder o.clientOrderId)
    let start ← submittedAt row
    HandleRecovery.recoverHandle (Liberator.resolveOrderNow o.clientOrderId) start
      (HandleRecovery.millis R.settings.handleRecoveryCadenceMs)
      (HandleRecovery.millis R.settings.handleRecoveryDeadlineMs)
      R.settings.handleRecoveryMinPolls fuel 0 false
  else .ret .unknown

/-- `apply_fill` of one reported execution. -/
def applyFillReport (o : NormalizedOrder) (f : FillReport) : Eff Unit := do
  let _ ← Eff.store (.applyFill o.clientOrderId f.brokerFillId f.price f.quantity f.execTs
    o.quantity)
  .ret ()

/-- What an accepting ack with a handle leads to: ack, fills, and the IOC remainder. -/
def settle (a : AdapterId) (o : NormalizedOrder) (no : String) (ack : PlaceAck) :
    Eff HandleResolution := do
  Eff.store (.ackOrder o.clientOrderId no)
  forEach (applyFillReport o) ack.fills
  if ack.remainderCancelled then do
    updateStatus o.clientOrderId .pendingCancel
    let _ ← Eff.ext (.cancel a o.clientOrderId)
    updateStatus o.clientOrderId .cancelled
    .ret .confirmed
  else .ret .confirmed

/-- `ack.reject_reason or "rejected by adapter"`. -/
def rejectReasonOr (reason : Option String) : String :=
  match reason with
  | some r => if r.isEmpty then "rejected by adapter" else r
  | none => "rejected by adapter"

/-- `_place_and_settle`. -/
def placeAndSettle (fuel : Nat) (a : AdapterId) (o : NormalizedOrder) : Eff HandleResolution := do
  let ack ← Eff.ext (.place a o)
  if ack.rejected then do
    updateStatus o.clientOrderId .rejected
    Eff.store (.setRejectReason o.clientOrderId (rejectReasonOr ack.rejectReason))
    .ret .confirmed
  else match ack.brokerOrderId with
    | none => R.recoverHandle fuel o
    | some no => settle a o no ack

/-- `_await_concurrent`, with the number of sleeps the budget still allows. -/
def awaitConcurrent (cid : String) : Nat → Eff SubmitOutcome
  | 0 => do
    match ← Eff.store (.fetchOrderResult cid) with
    | some r => .ret ⟨toResult r, true, .confirmed⟩
    | none => .raise (.rejected .submitInFlight
        "an identical submit is in flight; retry shortly" cid)
  | n + 1 => do
    match ← Eff.store (.fetchOrderResult cid) with
    | some r => .ret ⟨toResult r, true, .confirmed⟩
    | none => do
      Eff.ext (.sleep 50000)
      awaitConcurrent cid n

/-- How many 50 ms sleeps fit before `waited >= budget`. -/
def lockWaitPolls : Nat := ((R.settings.submitLockWaitMs + 49) / 50).toNat

/-- `try: insert_order except DuplicateOrderSignal`: did this call insert the row? -/
def insertFresh (o : NormalizedOrder) (strategyId : Option String) : Eff Bool :=
  tryExcept ((Eff.store (.insertOrder o strategyId)).bind fun _ => .ret true) fun
    | .duplicateOrderSignal _ => .ret false
    | e => .raise e

/-- The body of the single-flight block: an early outcome, or the resolution of a placement. -/
def submitLocked (fuel : Nat) (a : AdapterId) (o : NormalizedOrder) (strategyId : Option String)
    (acquired : Bool) : Eff (SubmitOutcome ⊕ HandleResolution) :=
  if acquired then do
    if ← insertFresh o strategyId then do
      let resolution ← R.placeAndSettle fuel a o
      .ret (.inr resolution)
    else do
      match ← Eff.store (.fetchOrderResult o.clientOrderId) with
      | none => .raise (.rejected .submitInFlight
          "submit raced and no durable row is visible yet" o.clientOrderId)
      | some r => .ret (.inl ⟨toResult r, true, .confirmed⟩)
  else do
    let outcome ← awaitConcurrent o.clientOrderId R.lockWaitPolls
    .ret (.inl outcome)

/-- The gates between the dedupe read and the lock; returns the adapter. -/
def gates (o : NormalizedOrder) : Eff AdapterId := do
  let caps ← Eff.lift (Capabilities.lookup o.broker o.market)
  Eff.lift (Capabilities.assertSupports caps o.orderType o.tif o.positionEffect)
  R.riskCheck o
  R.priceBandCheck o
  let a ← Eff.lift (R.resolveAdapter o.broker o.account)
  breakerGuard a
  .ret a

/-- The read-back after the lock is released. -/
def readBack (cid : String) : SubmitOutcome ⊕ HandleResolution → Eff SubmitOutcome
  | .inl outcome => .ret outcome
  | .inr resolution => do
    match ← Eff.store (.fetchOrderResult cid) with
    | none => .raise (.rejected .orderNotFound "order vanished mid-submit" cid)
    | some r => .ret ⟨toResult r, false, resolution⟩

/-- `submit`. -/
def submit (fuel : Nat) (o : NormalizedOrder) (strategyId : Option String) :
    Eff SubmitOutcome := do
  R.assertDisengaged
  match ← Eff.store (.fetchOrderResult o.clientOrderId) with
  | some existing => .ret ⟨toResult existing, true, .confirmed⟩
  | none => do
    let a ← R.gates o
    let done ← R.singleFlight ("exe:submit:" ++ o.clientOrderId)
      (R.submitLocked fuel a o strategyId)
    readBack o.clientOrderId done

/-! ## Cancel -/

/-- The writes of a cancel once the row and the adapter are settled on. -/
def cancelAt (a : AdapterId) (cid : String) : Eff Unit := do
  updateStatus cid .pendingCancel
  let ack ← Eff.ext (.cancel a cid)
  if ack.ok then updateStatus cid .cancelled
  else .raise (.adapterError ("cancel not confirmed by adapter: " ++ ack.reason.getD "None"))

/-- `cancel`. -/
def cancel (cid : String) : Eff NormalizedOrderResult := do
  match ← Eff.store (.fetchOrder cid) with
  | none => .raise (.rejected .orderNotFound "unknown client_order_id" cid)
  | some row =>
    if StateMachine.isTerminal row.status then
      .raise (.rejected .illegalTransition
        ("order is already terminal (" ++ row.status.value ++ ")") cid)
    else if row.status = .pendingCancel then get cid
    else if row.status ∈ [OrderState.pendingNew, .pendingReplace] then
      .raise (.rejected .illegalTransition
        ("no frozen cancel edge from " ++ row.status.value ++ " (transient pending state)") cid)
    else do
      let a ← Eff.lift (R.resolveAdapter row.broker row.account)
      breakerGuard a
      cancelAt a cid
      get cid

/-! ## Amend -/

/-- `_amend_cancel_replace`. -/
def amendCancelReplace (fuel : Nat) (row : OrderRow) (newCid : Option String)
    (newPrice : Option Decimal) (newQty : Option Int) : Eff SubmitOutcome :=
  match newCid with
  | none => .raise (.rejected .amendRejected
      "cancel_replace amend requires new_client_order_id" row.clientOrderId)
  | some newCid => do
    let _ ← R.cancel row.clientOrderId
    let replacement ← Eff.lift (amendedOrder row newCid newPrice newQty)
    R.submit fuel replacement row.strategyId

/-- `_assert_amend_quantities`. -/
def assertAmendQuantities (row : OrderRow) (newQty : Option Int) (filled : Int) :
    Except Exn Unit :=
  match newQty with
  | none => .ok ()
  | some q =>
    if q ≤ filled then
      .error (.rejected .amendRejected "new_qty <= filled quantity; cancel instead"
        row.clientOrderId)
    else if row.displayQty.any fun d => q < d then
      .error (.rejected .amendRejected
        "new_qty < display_qty (would violate display_qty <= quantity)" row.clientOrderId)
    else .ok ()

/-- `_venue_amend`: an AdapterError is an ack that is not ok. The real adapters' transport
    errors are AdapterErrors too. -/
def venueAmend (a : AdapterId) (cid : String) (newPrice : Option Decimal) (newQty : Option Int) :
    Eff AmendAck :=
  tryExcept (Eff.ext (.amend a cid newPrice newQty)) fun
    | .adapterError m => .ret { ok := false, reason := some m }
    | .transportError m => .ret { ok := false, reason := some m }
    | e => .raise e

/-- `_restore_partial`. -/
def restorePartial (cid : String) (filled : Int) : Eff Unit :=
  if 0 < filled then updateStatus cid .partiallyFilled else .ret ()

/-- The venue leg of a native amend. -/
def amendAt (a : AdapterId) (cid : String) (newPrice : Option Decimal) (newQty : Option Int)
    (filled : Int) : Eff SubmitOutcome := do
  updateStatus cid .pendingReplace
  let ack ← venueAmend a cid newPrice newQty
  if ack.ok then do
    Eff.store (.replaceOrder cid newPrice newQty)
    restorePartial cid filled
    let result ← get cid
    .ret ⟨result, false, .confirmed⟩
  else do
    updateStatus cid .new
    restorePartial cid filled
    .raise (.rejected .amendRejected (match ack.reason with
      | some r => if r.isEmpty then "amend rejected by venue" else r
      | none => "amend rejected by venue") cid)

/-- `_amend_native`. -/
def amendNative (row : OrderRow) (newCid : Option String) (newPrice : Option Decimal)
    (newQty : Option Int) : Eff SubmitOutcome :=
  let cid := row.clientOrderId
  if newCid.isSome then
    .raise (.rejected .amendRejected
      "native amend keeps the same client_order_id; omit new_client_order_id" cid)
  else if row.status ∉ [OrderState.new, .partiallyFilled] then
    .raise (.rejected .illegalTransition
      (if row.status = .pendingReplace then "amend already in flight"
        else "no amend edge from " ++ row.status.value) cid)
  else do
    match ← Eff.store (.fetchOrderResult cid) with
    | none => .raise (.rejected .orderNotFound "order vanished mid-amend" cid)
    | some result => do
      Eff.lift (assertAmendQuantities row newQty result.filledQty)
      let amended ← Eff.lift (amendedOrder row cid newPrice newQty)
      R.riskCheck amended
      let a ← Eff.lift (R.resolveAdapter row.broker row.account)
      breakerGuard a
      amendAt a cid newPrice newQty result.filledQty

/-- `amend`. -/
def amend (fuel : Nat) (cid : String) (newCid : Option String) (newPrice : Option Decimal)
    (newQty : Option Int) : Eff SubmitOutcome := do
  R.assertDisengaged
  if newPrice.isNone && newQty.isNone then
    .raise (.rejected .amendRejected "amend requires new_price and/or new_qty" cid)
  else do
    match ← Eff.store (.fetchOrder cid) with
    | none => .raise (.rejected .orderNotFound "unknown client_order_id" cid)
    | some row => do
      let caps ← Eff.lift (Capabilities.lookup row.broker row.market)
      if caps.amend = .native then R.amendNative row newCid newPrice newQty
      else R.amendCancelReplace fuel row newCid newPrice newQty

/-! ## Mass cancel -/

/-- One order of the sweep: was it cancelled? -/
def sweepOne (row : OrderRow) : Eff Bool :=
  tryExcept
    (do
      let a ← Eff.lift (R.resolveAdapter row.broker row.account)
      updateStatus row.clientOrderId .pendingCancel
      let ack ← Eff.ext (.cancel a row.clientOrderId)
      if ack.ok then do
        updateStatus row.clientOrderId .cancelled
        .ret true
      else .raise (.adapterError ("cancel not confirmed: " ++ ack.reason.getD "None")))
    fun _ => .ret false

/-- The sweep, in order: the cancelled and the failed ids. -/
def sweep : List OrderRow → Eff (List String × List String)
  | [] => .ret ([], [])
  | row :: rows => do
    let ok ← R.sweepOne row
    let (cancelled, failed) ← sweep rows
    .ret (if ok then (row.clientOrderId :: cancelled, failed)
      else (cancelled, row.clientOrderId :: failed))

/-- `mass_cancel`. -/
def massCancel : Eff (List String × List String) := do
  let rows ← Eff.store .fetchOpenOrders
  R.sweep rows

end Router

end ExecutionEngine
