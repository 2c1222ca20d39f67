/-
  The effects of the engine: every `await` of the router and the reconcilers is
  one operation of `engineSig`.

  Store operations are the statements of `Db.Store` and nothing else touches the
  store. Everything outside the process (Redis, clocks, market data, the venue
  adapters) is an `ExtOp`: it leaves the store alone and answers whatever the
  environment allows, or raises.

  `sem` gives the operations their meaning over `Db`. `Env.storeFails` switches on
  failing store calls, including the ones that fail towards the caller after the
  statement has committed. A listing is ordered by `created_at` only, so rows of
  one instant come back in any order.
-/
import ExecutionEngine.Adapters.Liberator
import ExecutionEngine.Adapters.StreamingPro
import ExecutionEngine.Async.Pool

namespace ExecutionEngine

/-- The three installed adapters. -/
inductive AdapterId where
  | sim | liberator | streamingPro
  deriving DecidableEq, Repr

/-- One execution reported by a venue (or synthesised by sim). -/
structure FillReport where
  brokerFillId : String
  price : Decimal
  quantity : Int
  execTs : Time
  quantity_pos : 0 < quantity

structure PlaceAck where
  rejected : Bool := false
  rejectReason : Option String := none
  brokerOrderId : Option String := none
  fills : List FillReport := []
  /-- IOC: the unfilled remainder is cancelled. -/
  remainderCancelled : Bool := false

structure CancelAck where
  ok : Bool := true
  reason : Option String := none
  deriving DecidableEq

structure AmendAck where
  ok : Bool := true
  semantics : AmendSemantics := .native
  reason : Option String := none
  deriving DecidableEq

/-! ## Operations -/

inductive StoreOp where
  | fetchOrder (cid : String)
  | fetchOrderResult (cid : String)
  | insertOrder (o : NormalizedOrder) (strategyId : Option String)
  | ackOrder (cid brokerOrderId : String)
  | replaceOrder (cid : String) (newPrice : Option Decimal) (newQty : Option Int)
  | writeStatus (cid : String) (s : OrderState)
  | setRejectReason (cid reason : String)
  | applyFill (cid brokerFillId : String) (price : Decimal) (quantity : Int) (execTs : Time)
      (total : Int)
  | fetchOpenOrders
  | fetchOrdersForReconcile (b : Broker) (includePendingReplace : Bool)

@[reducible] def StoreOp.Res : StoreOp → Type
  | .fetchOrder _ => Option OrderRow
  | .fetchOrderResult _ => Option OrderResultRow
  | .insertOrder _ _ => Unit
  | .ackOrder _ _ => Unit
  | .replaceOrder _ _ _ => Unit
  | .writeStatus _ _ => Unit
  | .setRejectReason _ _ => Unit
  | .applyFill _ _ _ _ _ _ => OrderState
  | .fetchOpenOrders => List OrderRow
  | .fetchOrdersForReconcile _ _ => List OrderRow

inductive ExtOp where
  | redisGet (key : String)
  | redisIncr (key : String)
  | redisExpire (key : String) (ttlSeconds : Int)
  /-- `SET key token NX EX ttl`. -/
  | redisSetNx (key : String) (ttlSeconds : Int)
  /-- The compare-and-delete script. -/
  | redisRelease (key : String)
  /-- `SET key value`, without a TTL. -/
  | redisSet (key value : String)
  /-- `int(time.time())`. -/
  | unixTime
  | now
  | sleep (d : Time)
  | lastClose (symbol : String) (market : Market)
  /-- `adapter.breaker.state is OPEN`. -/
  | breakerOpen (a : AdapterId)
  | place (a : AdapterId) (o : NormalizedOrder)
  | cancel (a : AdapterId) (cid : String)
  | amend (a : AdapterId) (cid : String) (newPrice : Option Decimal) (newQty : Option Int)
  | liberatorOrders (account : String)
  | streamingProOrders (account : String) (market : Market)

@[reducible] def ExtOp.Res : ExtOp → Type
  | .redisGet _ => Option String
  | .redisIncr _ => Int
  | .redisExpire _ _ => Unit
  | .redisSetNx _ _ => Bool
  | .redisRelease _ => Unit
  | .redisSet _ _ => Unit
  | .unixTime => Int
  | .now => Time
  | .sleep _ => Unit
  | .lastClose _ _ => Option Decimal
  | .breakerOpen _ => Bool
  | .place _ _ => PlaceAck
  | .cancel _ _ => CancelAck
  | .amend _ _ _ _ => AmendAck
  | .liberatorOrders _ => List Liberator.VenueOrderItem
  | .streamingProOrders _ _ => List StreamingPro.VenueOrderRow

inductive EngineOp where
  | store (o : StoreOp)
  | ext (o : ExtOp)

@[reducible] def EngineOp.Res : EngineOp → Type
  | .store o => o.Res
  | .ext o => o.Res

@[reducible] def engineSig : Async.Sig where
  Op := EngineOp
  Res := EngineOp.Res
  Exn := Exn

/-- A modelled coroutine. -/
abbrev Eff := Async.Prog engineSig

/-- What one coroutine has performed. -/
abbrev History := List (Async.Event engineSig)

/-- What a family of them has performed, with who did it. -/
abbrev Trace (ι : Type) := List (ι × Async.Event engineSig)

/-- `await` of a store call. -/
def Eff.store (o : StoreOp) : Eff o.Res := Async.Prog.perform (S := engineSig) (.store o)

/-- `await` of anything else. -/
def Eff.ext (o : ExtOp) : Eff o.Res := Async.Prog.perform (S := engineSig) (.ext o)

/-- A pure check that may raise. -/
def Eff.lift {α : Type} : Except Exn α → Eff α
  | .ok a => .ret a
  | .error e => .raise e

/-! ## Their meaning over the store -/

/-- What the store answers at time `t`, and the store afterwards. -/
def StoreOp.apply (db : Db) (t : Time) : (o : StoreOp) → Except Exn o.Res × Db
  | .fetchOrder cid => (.ok (db.fetchOrder cid), db)
  | .fetchOrderResult cid => (.ok (db.fetchOrderResult cid), db)
  | .insertOrder o strategyId => db.insertOrder o.toOrderFields strategyId t
  | .ackOrder cid no => db.ackOrder cid no
  | .replaceOrder cid p q => db.replaceOrder cid p q
  | .writeStatus cid s => db.writeStatus cid s
  | .setRejectReason cid reason => db.setRejectReason cid reason
  | .applyFill cid fid price qty ts total => db.applyFill cid fid price qty ts total
  | .fetchOpenOrders => (.ok db.fetchOpenOrders, db)
  | .fetchOrdersForReconcile b i => (.ok (db.fetchOrdersForReconcile b i), db)

/-- `rows` is a listing of `set` by `created_at`. -/
def IsListing (rows set : List OrderRow) : Prop :=
  rows.Perm set ∧ rows.Pairwise fun a b => a.createdAt ≤ b.createdAt

/-- One successful round trip to the store. -/
def StoreOp.Served (db : Db) : (o : StoreOp) → Except Exn o.Res → Db → Prop
  | .fetchOpenOrders => fun r db' =>
    db' = db ∧ ∃ rows, r = .ok rows ∧ IsListing rows db.fetchOpenOrders
  | .fetchOrdersForReconcile b i => fun r db' =>
    db' = db ∧ ∃ rows, r = .ok rows ∧ IsListing rows (db.fetchOrdersForReconcile b i)
  | o => fun r db' => ∃ t, o.apply db t = (r, db')

/-- The world around the process. -/
structure Env where
  /-- May a store call fail towards its caller, with or without having committed? -/
  storeFails : Prop
  /-- The answers an external operation can get, given the store. -/
  allows : Db → (o : ExtOp) → Except Exn o.Res → Prop

/-- The operations over the store. -/
def sem (E : Env) : Async.Sem engineSig Db where
  step db op := match op with
    | .store o => fun r db' =>
      o.Served db r db' ∨ E.storeFails ∧ ∃ e, r = .error e ∧ (db' = db ∨ ∃ r', o.Served db r' db')
    | .ext o => fun r db' => db' = db ∧ E.allows db o r

theorem step_ext {E : Env} {db db' : Db} {o : ExtOp} {r : Except Exn o.Res}
    (h : (sem E).step db (.ext o) r db') : db' = db ∧ E.allows db o r := h

end ExecutionEngine
