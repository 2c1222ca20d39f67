/-
  The `execution` store: orders with their fills, and the statements over them.

  Each statement is one atomic function on `Db`, as `db/repositories.py` sends
  it, together with what the schema does on top: the primary key on
  `client_order_id`, the column CHECKs, `UNIQUE (client_order_id,
  broker_fill_id)` and the `orders_guard` trigger, which lets a status change
  only along the thirteen legal edges. Keys and CHECKs are fields of `Entry` and
  `Db`, so a store that breaks them cannot be written down. Rows are never
  deleted.

  `updated_at` is not modelled (no modelled function reads it); the audit table is
  in `Db.OrderEvents`, over the steps of this store. Times are microseconds since the
  epoch, UTC.
-/
import Mathlib.Data.List.Sort
import ExecutionEngine.Contracts.Orders

namespace ExecutionEngine

/-- Microseconds since the epoch, UTC. -/
abbrev Time := Int

/-- One `execution.orders` row. -/
structure OrderRow where
  clientOrderId : String
  broker : Broker
  brokerOrderId : Option String
  account : String
  symbol : String
  market : Market
  side : Side
  orderType : OrderType
  price : Option Decimal
  stopPrice : Option Decimal
  quantity : Int
  displayQty : Option Int
  tif : Tif
  positionEffect : Option PositionEffect
  status : OrderState
  rejectReason : Option String
  strategyId : Option String
  createdAt : Time
  deriving DecidableEq, Repr

/-- One `execution.fills` row. -/
structure FillRow where
  brokerFillId : String
  price : Decimal
  quantity : Int
  execTs : Time
  quantity_pos : 0 < quantity
  deriving DecidableEq

/-- An order row with its fills. -/
structure Entry where
  row : OrderRow
  fills : List FillRow
  quantity_pos : 0 < row.quantity
  uq : (fills.map FillRow.brokerFillId).Nodup
  deriving DecidableEq

/-- `COALESCE(SUM(quantity), 0)` over the fills. -/
def filledQty (fills : List FillRow) : Int := (fills.map FillRow.quantity).sum

def Entry.filled (e : Entry) : Int := filledQty e.fills

/-- The store; the primary key is a field. -/
structure Db where
  entries : List Entry
  pk : (entries.map fun e => e.row.clientOrderId).Nodup
  deriving DecidableEq

/-- The order joined with its fill aggregate. -/
structure OrderResultRow where
  row : OrderRow
  filledQty : Int
  fillNotional : Option Decimal
  deriving DecidableEq

/-- `avg_fill_price`: the notional and the quantity it is divided by. -/
def OrderResultRow.avgFillPrice (r : OrderResultRow) : Option (Decimal × Int) :=
  if r.filledQty ≤ 0 then none else r.fillNotional.map fun n => (n, r.filledQty)

namespace Db

def empty : Db := ⟨[], List.nodup_nil⟩

def find (db : Db) (cid : String) : Option Entry :=
  db.entries.find? fun e => e.row.clientOrderId = cid

/-- Replace the entry with `e`'s key by `e`. -/
def set (db : Db) (e : Entry) : Db where
  entries := db.entries.map fun x =>
    if x.row.clientOrderId = e.row.clientOrderId then e else x
  pk := by
    rw [List.map_map]
    have h : ((fun e => e.row.clientOrderId) ∘ fun x =>
        if x.row.clientOrderId = e.row.clientOrderId then e else x) =
        fun x : Entry => x.row.clientOrderId := by
      funext x
      simp only [Function.comp_apply]
      split
      · rename_i hx; exact hx.symm
      · rfl
    rw [h]
    exact db.pk

theorem find_none {db : Db} {cid : String} :
    db.find cid = none ↔ cid ∉ db.entries.map fun e => e.row.clientOrderId := by
  simp [find, List.find?_eq_none]

/-- Append a row under a new key. -/
def append (db : Db) (e : Entry) (h : db.find e.row.clientOrderId = none) : Db where
  entries := db.entries ++ [e]
  pk := by
    rw [List.map_append, List.nodup_append]
    refine ⟨db.pk, by simp, ?_⟩
    intro a ha b hb hab
    simp only [List.map_cons, List.map_nil, List.mem_singleton] at hb
    subst hb
    exact find_none.mp h (hab ▸ ha)

theorem find_key {db : Db} {cid : String} {e : Entry} (h : db.find cid = some e) :
    e.row.clientOrderId = cid := by
  simpa using List.find?_some h

theorem mem_of_find {db : Db} {cid : String} {e : Entry} (h : db.find cid = some e) :
    e ∈ db.entries :=
  List.mem_of_find?_eq_some h

theorem find_of_mem {db : Db} {e : Entry} (h : e ∈ db.entries) :
    db.find e.row.clientOrderId = some e := by
  obtain ⟨es, pk⟩ := db
  unfold find
  dsimp only at h pk ⊢
  induction es with
  | nil => cases h
  | cons x xs ih =>
    rw [List.map_cons, List.nodup_cons] at pk
    rcases List.mem_cons.mp h with rfl | h
    · simp
    · have hne : x.row.clientOrderId ≠ e.row.clientOrderId := by
        intro hx
        exact pk.1 (hx ▸ List.mem_map_of_mem h)
      rw [List.find?_cons_of_neg (by simpa using hne)]
      exact ih pk.2 h

private theorem find?_replace {es : List Entry} {e x : Entry}
    (h : (es.find? fun y => y.row.clientOrderId = e.row.clientOrderId) = some x) :
    ((es.map fun y => if y.row.clientOrderId = e.row.clientOrderId then e else y).find?
      fun y => y.row.clientOrderId = e.row.clientOrderId) = some e := by
  induction es with
  | nil => simp at h
  | cons y ys ih =>
    rw [List.map_cons]
    by_cases hy : y.row.clientOrderId = e.row.clientOrderId
    · simp [hy]
    · rw [List.find?_cons_of_neg (by simpa using hy)] at h
      rw [if_neg hy, List.find?_cons_of_neg (by simpa using hy)]
      exact ih h

theorem find_set_self {db : Db} {e x : Entry} (h : db.find e.row.clientOrderId = some x) :
    (db.set e).find e.row.clientOrderId = some e :=
  find?_replace h

theorem find_set_ne {db : Db} {e : Entry} {cid : String} (h : cid ≠ e.row.clientOrderId) :
    (db.set e).find cid = db.find cid := by
  unfold find set
  dsimp only
  induction db.entries with
  | nil => rfl
  | cons y ys ih =>
    rw [List.map_cons]
    by_cases hy : y.row.clientOrderId = e.row.clientOrderId
    · rw [if_pos hy, List.find?_cons_of_neg (by simpa using Ne.symm h),
        List.find?_cons_of_neg (by simpa [hy] using Ne.symm h)]
      exact ih
    · rw [if_neg hy]
      by_cases hc : y.row.clientOrderId = cid
      · rw [List.find?_cons_of_pos (by simpa using hc), List.find?_cons_of_pos (by simpa using hc)]
      · rw [List.find?_cons_of_neg (by simpa using hc),
          List.find?_cons_of_neg (by simpa using hc)]
        exact ih

theorem find_set {db : Db} {e x : Entry} {cid : String}
    (h : db.find e.row.clientOrderId = some x) :
    (db.set e).find cid = if cid = e.row.clientOrderId then some e else db.find cid := by
  split
  · rename_i hc; rw [hc]; exact find_set_self h
  · rename_i hc; exact find_set_ne hc

theorem find_append {db : Db} {e : Entry} (h : db.find e.row.clientOrderId = none)
    (cid : String) :
    (db.append e h).find cid = if cid = e.row.clientOrderId then some e else db.find cid := by
  have happ : (db.append e h).find cid =
      (db.find cid).or ([e].find? fun e => e.row.clientOrderId = cid) := by
    unfold find append
    exact List.find?_append
  rw [happ]
  split
  · rename_i hc
    subst hc
    rw [h]
    simp
  · rename_i hc
    rw [List.find?_cons_of_neg (by simpa using Ne.symm hc), List.find?_nil, Option.or_none]

/-! ## Statements -/

/-- `_INSERT_ORDER`: the columns of a new row, prices as `NUMERIC(18,6)` stores them. -/
def newRow (o : OrderFields) (strategyId : Option String) (now : Time) : OrderRow where
  clientOrderId := o.clientOrderId
  broker := o.broker
  brokerOrderId := none
  account := o.account
  symbol := o.symbol
  market := o.market
  side := o.side
  orderType := o.orderType
  price := o.price.map Decimal.numeric
  stopPrice := o.stopPrice.map Decimal.numeric
  quantity := o.quantity
  displayQty := o.displayQty
  tif := o.tif
  positionEffect := o.positionEffect
  status := .pendingNew
  rejectReason := none
  strategyId := strategyId
  createdAt := now

/-- Every number fits its column type. -/
def columnsFit (r : OrderRow) : Bool :=
  (r.price.all Decimal.fitsNumeric) && (r.stopPrice.all Decimal.fitsNumeric) &&
    r.quantity < 2 ^ 63 && r.displayQty.all fun d => d < 2 ^ 63

/-- The numeric column CHECKs. -/
def columnChecks (r : OrderRow) : Bool :=
  (r.price.all Decimal.isPos) && (r.stopPrice.all Decimal.isPos) && 0 < r.quantity &&
    r.displayQty.all fun d => 0 < d && d ≤ r.quantity

theorem columnChecks_pos {r : OrderRow} (h : columnChecks r = true) : 0 < r.quantity := by
  simp only [columnChecks, Bool.and_eq_true, decide_eq_true_eq] at h
  exact h.1.2

/-- `insert_order`: CHECKs come before the primary key. -/
def insertOrder (db : Db) (o : OrderFields) (strategyId : Option String) (now : Time) :
    Except Exn Unit × Db :=
  let row := newRow o strategyId now
  if !columnsFit row then (.error (.storeError "numeric value out of range"), db)
  else if hc : columnChecks row = true then
    if h : db.find row.clientOrderId = none then
      (.ok (), db.append ⟨row, [], columnChecks_pos hc, List.nodup_nil⟩ h)
    else (.error (.duplicateOrderSignal o.clientOrderId), db)
  else (.error (.rejected .storeConstraintViolated "column check" o.clientOrderId), db)

def fetchOrder (db : Db) (cid : String) : Option OrderRow := (db.find cid).map Entry.row

/-- `SUM(price * quantity)`: null over no rows. -/
def fillNotional : List FillRow → Option Decimal
  | [] => none
  | f :: fs => some (fs.foldl (fun acc g => acc.add (g.price.mulInt g.quantity))
      (f.price.mulInt f.quantity))

def fetchOrderResult (db : Db) (cid : String) : Option OrderResultRow :=
  (db.find cid).map fun e => ⟨e.row, e.filled, fillNotional e.fills⟩

def withStatus (e : Entry) (s : OrderState) : Entry :=
  { e with row := { e.row with status := s } }

/-- `ack_order`: status and venue handle in one statement, only from PENDING_NEW. -/
def ackOrder (db : Db) (cid brokerOrderId : String) : Except Exn Unit × Db :=
  match db.find cid with
  | some e =>
    if e.row.status = .pendingNew then
      (.ok (), db.set { e with row := { e.row with
        status := .new, brokerOrderId := some brokerOrderId } })
    else (.error (.rejected .illegalTransition "ack requires the order to be in PENDING_NEW" cid),
      db)
  | none =>
    (.error (.rejected .illegalTransition "ack requires the order to be in PENDING_NEW" cid), db)

/-- `replace_order`: NEW with the amended price and quantity, only from PENDING_REPLACE. -/
def replaceOrder (db : Db) (cid : String) (newPrice : Option Decimal) (newQty : Option Int) :
    Except Exn Unit × Db :=
  let refused : Except Exn Unit × Db :=
    (.error (.rejected .illegalTransition "replace requires the order to be in PENDING_REPLACE" cid),
      db)
  match db.find cid with
  | some e =>
    if e.row.status = .pendingReplace then
      let row := { e.row with
        status := .new
        price := (newPrice.map Decimal.numeric).or e.row.price
        quantity := newQty.getD e.row.quantity }
      if !columnsFit row then (.error (.storeError "numeric value out of range"), db)
      else if hc : columnChecks row = true then
        (.ok (), db.set ⟨row, e.fills, columnChecks_pos hc, e.uq⟩)
      else (.error (.storeError "column check"), db)
    else refused
  | none => refused

/-- `_UPDATE_STATUS` under the `orders_guard` trigger. -/
def writeStatus (db : Db) (cid : String) (s : OrderState) : Except Exn Unit × Db :=
  match db.find cid with
  | some e =>
    if StateMachine.isLegal e.row.status s then (.ok (), db.set (withStatus e s))
    else (.error (.rejected .illegalTransition "orders_guard" cid), db)
  | none => (.ok (), db)

def setRejectReason (db : Db) (cid reason : String) : Except Exn Unit × Db :=
  match db.find cid with
  | some e => (.ok (), db.set { e with row := { e.row with rejectReason := some reason } })
  | none => (.ok (), db)

/-- `_INSERT_FILL ... ON CONFLICT DO NOTHING`. -/
def addFill (e : Entry) (f : FillRow) : Entry :=
  if h : f.brokerFillId ∈ e.fills.map FillRow.brokerFillId then e
  else
    { e with
      fills := e.fills ++ [f]
      uq := by
        rw [List.map_append, List.nodup_append]
        refine ⟨e.uq, by simp, ?_⟩
        intro a ha b hb hab
        simp only [List.map_cons, List.map_nil, List.mem_singleton] at hb
        subst hb
        exact h (hab ▸ ha) }

/-- The state `apply_fill` aims at once the fill is in. -/
def fillTarget (e : Entry) (total : Int) : OrderState :=
  if total ≤ e.filled then .filled else .partiallyFilled

/-- `apply_fill`, one transaction: the fill and the status flip commit together or not at all. -/
def applyFill (db : Db) (cid brokerFillId : String) (price : Decimal) (quantity : Int)
    (execTs : Time) (total : Int) : Except Exn OrderState × Db :=
  match db.find cid with
  | none => (.error (.storeError "fills_client_order_id_fkey"), db)
  | some e =>
    if hq : 0 < quantity then
      if price.numeric.isPos && price.fitsNumeric && quantity < 2 ^ 63 then
        let e' := addFill e ⟨brokerFillId, price.numeric, quantity, execTs, hq⟩
        let target := fillTarget e' total
        if StateMachine.isLegal e.row.status target then (.ok target, db.set (withStatus e' target))
        else (.error (.rejected .illegalTransition "orders_guard" cid), db)
      else (.error (.storeError "fills price check"), db)
    else (.error (.storeError "fills quantity check"), db)

def rows (db : Db) : List OrderRow := db.entries.map Entry.row

/-- `ORDER BY created_at`. -/
def byCreatedAt (rs : List OrderRow) : List OrderRow :=
  rs.insertionSort fun a b => a.createdAt ≤ b.createdAt

/-- `_SELECT_OPEN_ORDERS`. -/
def fetchOpenOrders (db : Db) : List OrderRow :=
  byCreatedAt (db.rows.filter fun r => r.status ∈ [OrderState.new, .partiallyFilled])

def reconcileStates : List OrderState := [.pendingNew, .new, .partiallyFilled, .pendingCancel]

/-- `fetch_orders_for_reconcile`. -/
def fetchOrdersForReconcile (db : Db) (b : Broker) (includePendingReplace : Bool) :
    List OrderRow :=
  let states := reconcileStates ++ if includePendingReplace then [OrderState.pendingReplace] else []
  byCreatedAt (db.rows.filter fun r => r.broker = b && r.status ∈ states)

end Db

end ExecutionEngine
