/-
  The executing half of the reconcilers, and handle recovery.

  `reconcileOnce` is one pass of either twin (`ReconcilerVenue` carries which
  broker's rows it works, how they are grouped and where the book comes from);
  `resolveOrderNow` is the burst step only the Liberator reconciler has. Both go
  through `applyRow`: match, read the fill aggregate, plan, execute. A failing
  action is logged and the next one still runs; matching and planning stand outside that guard.

  `recoverHandle` polls the burst step; its fuel bounds the polls of one run, and
  a run that uses it up is stuck rather than wrong.
-/
import ExecutionEngine.Core.Effects

namespace ExecutionEngine

open Async Async.Prog

/-- `update_status`: the application guard, then the guarded write. -/
def updateStatus (cid : String) (s : OrderState) : Eff Unit := do
  match ← Eff.store (.fetchOrder cid) with
  | none =>
    .raise (.rejected .illegalTransition "cannot transition an unknown order" cid)
  | some row =>
    if row.status = s then .ret ()
    else if StateMachine.isLegal row.status s then Eff.store (.writeStatus cid s)
    else .raise (.rejected .illegalTransition
      ("illegal order status transition " ++ row.status.value ++ " -> " ++ s.value) cid)

/-- Which book a group of rows is read from: an account, and a market where the venue splits. -/
abbrev GroupKey := String × Option Market

/-- The part of a reconciler that reaches outside. -/
class ReconcilerVenue (ι : Type) extends VenueItem ι where
  broker : Broker
  groupKey : OrderRow → GroupKey
  /-- `fetch_venue_orders`. -/
  fetchVenueOrders : GroupKey → Eff (List ι)

instance : ReconcilerVenue Liberator.VenueOrderItem where
  broker := .liberator
  groupKey row := (row.account, none)
  fetchVenueOrders key := Eff.ext (.liberatorOrders key.1)

instance : ReconcilerVenue StreamingPro.VenueOrderRow where
  broker := .streamingPro
  groupKey row := (row.account, some row.market)
  fetchVenueOrders key := Eff.ext (.streamingProOrders key.1 (key.2.getD .set))

namespace Reconcile

open ReconcilerVenue

/-- `action.reason or "rejected at venue"`. -/
def reasonOr (reason : String) : String :=
  if reason.isEmpty then "rejected at venue" else reason

/-- `_execute`. -/
def execute : ReconcileAction → Eff Unit
  | .ack cid no => Eff.store (.ackOrder cid no)
  | .fill cid qty price fid total => do
    let ts ← Eff.ext .now
    let _ ← Eff.store (.applyFill cid fid price qty ts total)
    .ret ()
  | .cancelTwoStep cid => do
    updateStatus cid .pendingCancel
    updateStatus cid .cancelled
  | .cancelConfirm cid => updateStatus cid .cancelled
  | .expire cid => updateStatus cid .expired
  | .reject cid reason => do
    updateStatus cid .rejected
    Eff.store (.setRejectReason cid (reasonOr reason))
  | .postAckReject cid reason => do
    Eff.store (.setRejectReason cid (reasonOr reason))
    updateStatus cid .pendingCancel
    updateStatus cid .cancelled

/-- `try: _execute(action); applied += 1`, any exception logged. -/
def attempt (a : ReconcileAction) : Eff Nat :=
  tryExcept ((execute a).bind fun _ => .ret 1) fun _ => .ret 0

/-- `result.filled_qty if result is not None else 0`. -/
def filledOf (result : Option OrderResultRow) : Int :=
  match result with
  | some r => r.filledQty
  | none => 0

/-- `for action in plan_actions(…)`: what the planning raises is not caught. -/
def runPlan (plan : Except Exn (List ReconcileAction)) : Eff Nat :=
  (Eff.lift plan).bind (sumOver attempt)

/-- A plan is run, or planning raises. -/
theorem runPlan_cases {ι : Type} [VenueItem ι] {row : OrderRow} {filledQty : Int} {item : Option ι}
    {now : Time} {ambiguous : Bool} {motive : Eff Nat → Prop}
    (hraise : ∀ e, planError row filledQty item = some e → motive (.raise e))
    (hrun : planError row filledQty item = none →
      motive (sumOver attempt (planActions row filledQty item now ambiguous))) :
    motive (runPlan (plan row filledQty item now ambiguous)) := by
  unfold plan
  cases h : planError row filledQty item with
  | some e => exact hraise e h
  | none => exact hrun h

variable {ι : Type} [ReconcilerVenue ι]

/-- `_apply_row`: the actions applied, and the claimed set afterwards. -/
def applyRow (row : OrderRow) (items : List ι) (claimed : List String) (now : Time)
    (requireStuck : Bool) : Eff (Nat × List String) := do
  let res ← Eff.lift (resolveRow row items claimed now requireStuck)
  let result ← Eff.store (.fetchOrderResult row.clientOrderId)
  let applied ← runPlan (plan row (filledOf result) res.item now res.ambiguous)
  .ret (applied, res.claimed)

/-- The rows of one group, in order, against one snapshot of its book. -/
def applyRows (items : List ι) (now : Time) : List OrderRow → List String → Eff Nat
  | [], _ => .ret 0
  | row :: rows, claimed => do
    let (n, claimed) ← applyRow row items claimed now true
    let m ← applyRows items now rows claimed
    .ret (n + m)

/-- The distinct elements, in order of first appearance. -/
def firstKeys {κ : Type} [DecidableEq κ] : List κ → List κ
  | [] => []
  | k :: ks => k :: (firstKeys ks).filter (· ≠ k)

/-- `by_account.setdefault(...).append(row)`. -/
def groups (ι : Type) [ReconcilerVenue ι] (rows : List OrderRow) :
    List (GroupKey × List OrderRow) :=
  (firstKeys (rows.map (groupKey ι))).map fun k => (k, rows.filter fun r => groupKey ι r = k)

/-- The book of one group, or `none` when the venue could not be read. -/
def readBook (ι : Type) [ReconcilerVenue ι] (key : GroupKey) : Eff (Option (List ι)) :=
  tryExcept ((fetchVenueOrders key).bind fun items => .ret (some items)) fun e =>
    if e.isTransport then .ret none else .raise e

/-- One group of a pass; an unreadable book skips it. -/
def reconcileGroup (ι : Type) [ReconcilerVenue ι] (now : Time)
    (group : GroupKey × List OrderRow) : Eff Nat := do
  match ← readBook ι group.1 with
  | none => .ret 0
  | some items => applyRows items now group.2 (handlesOf group.2)

/-- `reconcile_once`. -/
def reconcileOnce (ι : Type) [ReconcilerVenue ι] : Eff Nat := do
  let rows ← Eff.store (.fetchOrdersForReconcile (broker ι) false)
  if rows.isEmpty then .ret 0
  else do
    let now ← Eff.ext .now
    sumOver (reconcileGroup ι now) (groups ι rows)

end Reconcile

/-! ## The Liberator burst and handle recovery -/

namespace Liberator

/-- `_is_resolved`: a handle is held, or the order is terminal. -/
def isResolved (row : OrderRow) : Bool :=
  row.brokerOrderId.isSome || StateMachine.isTerminal row.status

/-- The handles other live rows of the account hold. -/
def claimedByOthers (row : OrderRow) (working : List OrderRow) : List String :=
  (working.filter fun r => r.account = row.account && r.clientOrderId ≠ row.clientOrderId).filterMap
    OrderRow.brokerOrderId

/-- `resolve_order_now`. -/
def resolveOrderNow (cid : String) : Eff Bool := do
  match ← Eff.store (.fetchOrder cid) with
  | none => .ret true
  | some row =>
    if isResolved row then .ret true
    else do
      let working ← Eff.store (.fetchOrdersForReconcile .liberator false)
      let items ← Eff.ext (.liberatorOrders row.account)
      let now ← Eff.ext .now
      let _ ← Reconcile.applyRow row items (claimedByOthers row working) now false
      let after ← Eff.store (.fetchOrder cid)
      .ret (after.any isResolved)

end Liberator

namespace HandleRecovery

def millis (n : Int) : Time := n * 1000

/-- `_elapsed_ms`, in microseconds. -/
def elapsed (now submittedAt : Time) : Time := max 0 (now - submittedAt)

/-- One attempt: resolved, not yet, or the venue could not be read. -/
def poll (resolve : Eff Bool) : Eff (Option Bool) :=
  tryExcept (resolve.bind fun b => .ret (some b)) fun _ => .ret none

/-- `recover_handle`: at least `minPolls` attempts, then the submit-anchored deadline. -/
def recoverHandle (resolve : Eff Bool) (submittedAt cadence deadline : Time) (minPolls : Int) :
    Nat → Int → Bool → Eff HandleResolution
  | 0, _, _ => .stuck
  | fuel + 1, attempts, readOk => do
    let answer ← poll resolve
    if answer = some true then .ret .confirmed
    else do
      let readOk := readOk || answer.isSome
      let now ← Eff.ext .now
      if minPolls ≤ attempts + 1 && deadline < elapsed now submittedAt + cadence then
        .ret (if readOk then .pending else .unknown)
      else do
        Eff.ext (.sleep cadence)
        recoverHandle resolve submittedAt cadence deadline minPolls fuel (attempts + 1) readOk

end HandleRecovery

end ExecutionEngine
