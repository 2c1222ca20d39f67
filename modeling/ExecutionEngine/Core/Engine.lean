/-
  The engine as a whole: the calls it takes, and how a run of them is made.

  A `Request` is one call into the process. `engine` starts any family of them as
  threads over one store; `Async.PoolReach` then ranges over every interleaving of
  their steps. `Handler` answers every operation deterministically; `runPool` and
  `Async.run` compute a concrete run with it, and `handler_follows` says such a
  run is one of the behaviours of `sem`.
-/
import ExecutionEngine.Adapters.Sim
import ExecutionEngine.Core.Router
import ExecutionEngine.Core.Steps

namespace ExecutionEngine

open Async Async.Prog

/-- One call into the engine. -/
inductive Request where
  | submit (R : Router) (fuel : Nat) (o : NormalizedOrder) (strategyId : Option String)
  | cancel (R : Router) (cid : String)
  | amend (R : Router) (fuel : Nat) (cid : String) (newCid : Option String)
      (newPrice : Option Decimal) (newQty : Option Int)
  | massCancel (R : Router)
  | reconcileLiberator
  | reconcileStreamingPro
  | resolveOrderNow (cid : String)

/-- The router a call goes through. -/
def Request.router : Request → Option Router
  | .submit R _ _ _ => some R
  | .cancel R _ => some R
  | .amend R _ _ _ _ _ => some R
  | .massCancel R => some R
  | _ => none

/-- The coroutine of a call, its result dropped. -/
def Request.prog : Request → Eff Unit
  | .submit R fuel o sid => (R.submit fuel o sid).bind fun _ => .ret ()
  | .cancel R cid => (R.cancel cid).bind fun _ => .ret ()
  | .amend R fuel cid newCid p q => (R.amend fuel cid newCid p q).bind fun _ => .ret ()
  | .massCancel R => R.massCancel.bind fun _ => .ret ()
  | .reconcileLiberator =>
    (Reconcile.reconcileOnce Liberator.VenueOrderItem).bind fun _ => .ret ()
  | .reconcileStreamingPro =>
    (Reconcile.reconcileOnce StreamingPro.VenueOrderRow).bind fun _ => .ret ()
  | .resolveOrderNow cid => (Liberator.resolveOrderNow cid).bind fun _ => .ret ()

/-- Any family of calls, started together over a store. -/
def engine {ι : Type} (requests : ι → Request) (db : Db) : Pool engineSig Db ι :=
  ⟨fun i => (requests i).prog, db, []⟩

/-- The store has no other writers. -/
def closed : Db → Db → Prop := fun _ _ => False

/-! ## One call at a time -/

/-- The store and everything that was performed on the way. -/
abbrev World := Db × List (Event engineSig)

/-- The operations over the store, with their history. -/
abbrev seqSem (E : Env) : Sem engineSig World := (sem E).traced

/-- A fact about the store is a fact about the world. -/
theorem wp_world {α : Type} {E : Env} {p : Eff α} {Q : Except Exn α → Db → Prop} {x : World}
    (h : wp (sem E) (fun _ _ => True) p Q x.1) :
    wp (seqSem E) (fun _ _ => True) p (fun o y => Q o y.1) x :=
  wp_traced h x.2

/-- The calls of a list one after the other, each run to its end, whatever that is. -/
inductive SeqRun (E : Env) : World → List Request → World → Prop where
  | nil (x : World) : SeqRun E x [] x
  | cons {x y z : World} {q : Request} {qs : List Request} {o : Except Exn Unit}
      (h : Exec (seqSem E) q.prog x o y) (t : SeqRun E y qs z) : SeqRun E x (q :: qs) z

/-- Store calls do not fail. -/
def Env.reliable (allows : Db → (o : ExtOp) → Except Exn o.Res → Prop) : Env := ⟨False, allows⟩

/-! ## Concrete runs -/

/-- Deterministic answers: the store at a fixed time, and a choice for everything else. -/
structure Handler where
  time : Time
  ext : Db → (o : ExtOp) → Except Exn o.Res

def Handler.step (H : Handler) (db : Db) (op : EngineOp) : Except Exn op.Res × Db :=
  match op with
  | .store o => o.apply db H.time
  | .ext o => (H.ext db o, db)

theorem isListing_byCreatedAt (rows : List OrderRow) : IsListing (Db.byCreatedAt rows) rows := by
  refine ⟨List.perm_insertionSort _ rows, ?_⟩
  have : Std.Total fun a b : OrderRow => a.createdAt ≤ b.createdAt :=
    ⟨fun a b => le_total a.createdAt b.createdAt⟩
  have : IsTrans OrderRow fun a b => a.createdAt ≤ b.createdAt :=
    ⟨fun _ _ _ h h' => le_trans h h'⟩
  exact List.pairwise_insertionSort _ rows

theorem isListing_refl_byCreatedAt (rows : List OrderRow) :
    IsListing (Db.byCreatedAt rows) (Db.byCreatedAt rows) :=
  ⟨List.Perm.refl _, (isListing_byCreatedAt rows).2⟩

/-- A handler whose external answers are allowed is a behaviour of the semantics. -/
theorem handler_follows {E : Env} {H : Handler} (h : ∀ db o, E.allows db o (H.ext db o)) :
    Follows (sem E) H.step := by
  intro db op
  cases op with
  | ext o => exact ⟨rfl, h db o⟩
  | store o =>
    refine Or.inl ?_
    cases o with
    | fetchOpenOrders => exact ⟨rfl, _, rfl, isListing_refl_byCreatedAt _⟩
    | fetchOrdersForReconcile b i => exact ⟨rfl, _, rfl, isListing_refl_byCreatedAt _⟩
    | _ => exact ⟨H.time, rfl⟩

/-- The calls of a list one after the other; `none` if one is stuck. -/
def runRequests (H : Handler) : List Request → World → Option World
  | [], x => some x
  | q :: qs, x =>
    match run (traceHandler H.step) q.prog x with
    | (some _, y) => runRequests H qs y
    | (none, _) => none

theorem runRequests_seqRun {E : Env} {H : Handler} (hf : Follows (sem E) H.step)
    {qs : List Request} {x y : World} (h : runRequests H qs x = some y) : SeqRun E x qs y := by
  induction qs generalizing x with
  | nil => exact Option.some.inj h ▸ .nil x
  | cons q qs ih =>
    unfold runRequests at h
    split at h
    · rename_i o z hz
      have he := run_exec hf.traced q.prog x (o := o) (by rw [hz])
      rw [hz] at he
      exact .cons he (ih h)
    · cases h

/-- A computed run ends in a world that passes `test`. -/
theorem exists_run {E : Env} {H : Handler} (hf : Follows (sem E) H.step) {qs : List Request}
    {x : World} {test : World → Bool} (h : (runRequests H qs x).any test = true) :
    ∃ y, SeqRun E x qs y ∧ test y = true := by
  obtain ⟨y, hy, ht⟩ := (Option.any_eq_true _ _).mp h
  exact ⟨y, runRequests_seqRun hf hy, ht⟩

def isPlace : EngineOp → Bool
  | .ext (.place _ _) => true
  | _ => false

/-- A computed run performs a placement in a world that passes `test`. -/
theorem exists_place {α : Type} {E : Env} {H : Handler} (hf : Follows (sem E) H.step) {p : Eff α}
    {x : World} {test : World → Bool}
    (h : ((calls (traceHandler H.step) p x).any fun c => isPlace c.1 && test c.2) = true) :
    ∃ a o y, Reaches (seqSem E) p x (.ext (.place a o)) y ∧ test y = true := by
  obtain ⟨⟨op, y⟩, hmem, hc⟩ := List.any_eq_true.mp h
  obtain ⟨hplace, ht⟩ := Bool.and_eq_true_iff.mp hc
  have hr := mem_calls_reaches hf.traced p x y hmem
  rcases op with so | eo
  · cases hplace
  · cases eo with
    | place a o => exact ⟨a, o, y, hr, ht⟩
    | _ => cases hplace

/-- The computed call returns, and result and world pass `test`. -/
def returnsWith {α : Type} (H : Handler) (p : Eff α) (x : World) (test : α → World → Bool) : Bool :=
  match run (traceHandler H.step) p x with
  | (some (.ok out), y) => test out y
  | _ => false

/-- The computed call raises, and exception and world pass `test`. -/
def raisesWith {α : Type} (H : Handler) (p : Eff α) (x : World) (test : Exn → World → Bool) : Bool :=
  match run (traceHandler H.step) p x with
  | (some (.error er), y) => test er y
  | _ => false

theorem exists_return {α : Type} {E : Env} {H : Handler} (hf : Follows (sem E) H.step) {p : Eff α}
    {x : World} {test : α → World → Bool} (h : returnsWith H p x test = true) :
    ∃ out y, Exec (seqSem E) p x (.ok out) y ∧ test out y = true := by
  unfold returnsWith at h
  split at h
  · rename_i out y hr
    have he := run_exec hf.traced p x (o := .ok out) (by rw [hr])
    rw [hr] at he
    exact ⟨out, y, he, h⟩
  · cases h

theorem exists_raise {α : Type} {E : Env} {H : Handler} (hf : Follows (sem E) H.step) {p : Eff α}
    {x : World} {test : Exn → World → Bool} (h : raisesWith H p x test = true) :
    ∃ er y, Exec (seqSem E) p x (.error er) y ∧ test er y = true := by
  unfold raisesWith at h
  split at h
  · rename_i er y hr
    have he := run_exec hf.traced p x (o := .error er) (by rw [hr])
    rw [hr] at he
    exact ⟨er, y, he, h⟩
  · cases h

/-- Plain answers at one instant: Redis idle, breakers closed, cancels and amends confirmed, the
    simulator as it is, and the given books and place acks of the real venues. -/
def plainExt (t : Time) (ack : NormalizedOrder → PlaceAck) (book : List Liberator.VenueOrderItem) :
    (o : ExtOp) → Except Exn o.Res
  | .redisGet _ => .ok none
  | .redisIncr _ => .ok 1
  | .redisExpire _ _ => .ok ()
  | .redisSetNx _ _ => .ok true
  | .redisRelease _ => .ok ()
  | .redisSet _ _ => .ok ()
  | .unixTime => .ok (t / 1000000)
  | .now => .ok t
  | .sleep _ => .ok ()
  | .lastClose _ _ => .ok none
  | .breakerOpen _ => .ok false
  | .place .sim o => .ok (SimAdapter.placeAck ⟨100, 0⟩ o none t)
  | .place _ o => .ok (ack o)
  | .cancel _ _ => .ok {}
  | .amend _ _ _ _ => .ok {}
  | .liberatorOrders _ => .ok book
  | .streamingProOrders _ _ => .ok []

/-- A plain handler at time `t`. -/
def plainHandler (t : Time) (ack : NormalizedOrder → PlaceAck)
    (book : List Liberator.VenueOrderItem) : Handler :=
  ⟨t, fun _ => plainExt t ack book⟩

/-- Any answer at any time, and store calls that may fail. -/
def anyEnv : Env := ⟨True, fun _ _ _ => True⟩

/-- Any answer at any time over a store that does not fail. -/
def plainEnv : Env := .reliable fun _ _ _ => True

theorem plain_follows (H : Handler) : Follows (sem plainEnv) H.step :=
  handler_follows fun _ _ => trivial

/-- The order is there and has this status. -/
def hasStatus (cid : String) (s : OrderState) (x : World) : Bool :=
  (x.1.find cid).any fun e => e.row.status = s

theorem hasStatus_iff {cid : String} {s : OrderState} {x : World} :
    hasStatus cid s x = true ↔ ∃ e, x.1.find cid = some e ∧ e.row.status = s := by
  simp [hasStatus, Option.any_eq_true]

/-- A limit order for 100 units at 10. -/
def sampleFields (cid : String) (b : Broker) : OrderFields where
  clientOrderId := cid
  broker := b
  account := "12345672"
  market := .set
  symbol := "PTT"
  side := .buy
  orderType := .limit
  price := some ⟨10, 0⟩
  quantity := 100
  tif := .day

/-- The ids of the sample orders. -/
def cidA : String := "aaaaaaaa-0000-4000-8000-00000000000a"
def cidB : String := "bbbbbbbb-0000-4000-8000-00000000000b"

def sampleOrderA (b : Broker) : NormalizedOrder :=
  ⟨sampleFields cidA b, by cases b <;> rfl⟩

/-- The same order under the other id. -/
def sampleOrderB (b : Broker) : NormalizedOrder :=
  ⟨sampleFields cidB b, by cases b <;> rfl⟩

/-- The sample order as the Liberator book lists it: numbered V1, entered at 0, matched by `m`. -/
def sampleItem (m : Int) : Liberator.VenueOrderItem where
  orderNo := "V1"
  symbol := "PTT"
  side := "B"
  volume := 100
  price := some ⟨10, 0⟩
  matched := m
  balance := 100 - m
  entryTime := some (.aware 0)

/-- The same order, to be filled by 30 in the simulator. -/
def partialOrderA : NormalizedOrder :=
  ⟨{ sampleFields cidA .sim with metadata := [("sim_fills", .arr [.int 30])] }, rfl⟩

def simRouter : Router where
  settings := {}

/-- A Liberator router at `micro_live` that may route the sample account, without Redis checks. -/
def liveRouter : Router where
  settings := { stage := .microLive, realRoutingAccounts := ["12345672"] }
  liberator := true

/-- The venue gives each order the number of its id, and refuses to confirm cancels. -/
def stubbornHandler : Handler where
  time := 0
  ext _ o := match o with
    | .cancel _ _ => .ok { ok := false, reason := some "timeout" }
    | o => plainExt 0 (fun o => { brokerOrderId := some ("V-" ++ o.clientOrderId) }) [] o

/-- The same venue, confirming, with the first sample order matched by 40. -/
def liveHandler : Handler :=
  plainHandler 0 (fun o => { brokerOrderId := some ("V-" ++ o.clientOrderId) })
    [{ orderNo := "V-" ++ cidA, symbol := "PTT", side := "B", volume := 100,
       price := some ⟨10, 0⟩, matched := 40, balance := 60 }]

end ExecutionEngine
