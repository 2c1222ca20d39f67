/-
  Which operations each coroutine can get to.

  The gates and the lock are probes: they read Redis, a clock, market data or a
  breaker, and cannot touch the store. `adapter.place` is reached from
  `placeAndSettle` and from nowhere else; every other coroutine is `Placeless`, and
  those that neither list the working set nor ack an order are `Routine`.
-/
import ExecutionEngine.Core.Router
import ExecutionEngine.Core.Steps

namespace ExecutionEngine

open Async Async.Prog

/-- Redis, clocks, market data and breakers. -/
def Probe : EngineOp → Prop
  | .ext (.redisGet _) | .ext (.redisIncr _) | .ext (.redisExpire _ _) => True
  | .ext (.redisSetNx _ _) | .ext (.redisRelease _) => True
  | .ext .unixTime | .ext .now | .ext (.sleep _) => True
  | .ext (.lastClose _ _) | .ext (.breakerOpen _) => True
  | _ => False

/-- Any operation but `adapter.place`. -/
def Placeless : EngineOp → Prop
  | .ext (.place _ _) => False
  | _ => True

/-- Any operation but the insert of an order and `adapter.place`. -/
def Upkeep : EngineOp → Prop
  | .ext (.place _ _) => False
  | .store (.insertOrder _ _) => False
  | _ => True

/-- What the reconcilers and the handle recovery do: nothing that writes to a venue, and to the
    store no insert, no replacement, and only the statuses that end an order. -/
def Survey : EngineOp → Prop
  | .ext (.place _ _) | .ext (.cancel _ _) | .ext (.amend _ _ _ _) => False
  | .store (.insertOrder _ _) | .store (.replaceOrder _ _ _) => False
  | .store (.writeStatus _ s) => s ∈ [OrderState.pendingCancel, .cancelled, .expired, .rejected]
  | _ => True

/-- Any operation but `adapter.place`, the ack and the listing of the working set. -/
def Routine : EngineOp → Prop
  | .ext (.place _ _) => False
  | .store (.ackOrder _ _) | .store (.fetchOrdersForReconcile _ _) => False
  | _ => True

/-- What is both. -/
def Tending : EngineOp → Prop
  | .ext (.place _ _) => False
  | .store (.insertOrder _ _) => False
  | .store (.ackOrder _ _) | .store (.fetchOrdersForReconcile _ _) => False
  | _ => True

/-- Any operation that sends the venue nothing to place or to cancel. -/
def Quiet : EngineOp → Prop
  | .ext (.place _ _) | .ext (.cancel _ _) => False
  | _ => True

/-- Everything outside the store. -/
def External : EngineOp → Prop
  | .ext _ => True
  | .store _ => False

theorem Probe.external {op : EngineOp} (h : Probe op) : External op := by
  rcases op with o | o
  · cases o <;> exact h
  · trivial

theorem Probe.quiet {op : EngineOp} (h : Probe op) : Quiet op := by
  rcases op with o | o <;> cases o <;> first | exact h | trivial

theorem Survey.quiet {op : EngineOp} (h : Survey op) : Quiet op := by
  rcases op with o | o <;> cases o <;> first | exact h.elim | trivial

theorem Probe.routine {op : EngineOp} (h : Probe op) : Routine op := by
  rcases op with o | o <;> cases o <;> first | exact h | trivial

theorem Probe.placeless {op : EngineOp} (h : Probe op) : Placeless op := by
  rcases op with o | o <;> cases o <;> first | exact h | trivial

theorem Probe.tending {op : EngineOp} (h : Probe op) : Tending op := by
  rcases op with o | o <;> cases o <;> first | exact h | trivial

variable {α : Type} {P : EngineOp → Prop}

theorem placeless_of {p : Eff α} (h : Uses Upkeep p) : Uses Placeless p := by
  refine h.mono fun op hop => ?_
  rcases op with o | o
  · trivial
  · cases o <;> exact hop

theorem upkeep_of_survey {p : Eff α} (h : Uses Survey p) : Uses Upkeep p := by
  refine h.mono fun op hop => ?_
  rcases op with o | o <;> cases o <;> first | exact hop.elim | trivial

theorem upkeep_of {p : Eff α} (h : Uses Tending p) : Uses Upkeep p := by
  refine h.mono fun op hop => ?_
  rcases op with o | o <;> cases o <;> first | exact hop | trivial

theorem routine_of {p : Eff α} (h : Uses Tending p) : Uses Routine p := by
  refine h.mono fun op hop => ?_
  rcases op with o | o <;> cases o <;> first | exact hop | trivial

theorem uses_lift (x : Except Exn α) : Uses P (Eff.lift x) := by
  cases x <;> trivial

theorem uses_store {o : StoreOp} (h : P (.store o)) : Uses P (Eff.store o) := uses_perform h

theorem uses_ext {o : ExtOp} (h : P (.ext o)) : Uses P (Eff.ext o) := uses_perform h

/-- A coroutine that stays outside the store leaves it as it is. -/
theorem wp_external {E : Env} {p : Eff α} (h : Uses External p) (db : Db) :
    wp (sem E) (fun _ _ => True) p (fun _ db' => db' = db) db := by
  refine h.keeps rfl (fun _ _ _ _ => trivial) fun s op r s' hop hs hr => ?_
  rcases op with o | o
  · exact hop.elim
  · exact (step_ext hr).1.trans hs

theorem wp_probe {E : Env} {p : Eff α} (h : Uses Probe p) (db : Db) :
    wp (sem E) (fun _ _ => True) p (fun _ db' => db' = db) db :=
  wp_external (h.mono fun _ => Probe.external) db

/-- A probe before the rest: it fails, or the rest runs from the same store. -/
theorem wp_probe_bind {β : Type} {E : Env} {p : Eff α} {f : α → Eff β} {db : Db}
    {Q : Except Exn β → Db → Prop} (h : Uses Probe p) (herr : ∀ er, Q (.error er) db)
    (hok : ∀ a, wp (sem E) (fun _ _ => True) (f a) Q db) :
    wp (sem E) (fun _ _ => True) (p.bind f) Q db := by
  refine wp_bind.mpr (wp_mono (wp_probe h db) fun r db' hdb => ?_)
  obtain rfl : db' = db := hdb
  cases r with
  | error er => exact herr er
  | ok a => exact hok a

/-! ## The gates and the lock -/

namespace Router

variable (R : Router)

theorem uses_assertDisengaged : Uses Probe R.assertDisengaged := by
  unfold assertDisengaged killSwitchStatus
  refine Uses.bind ?_ fun source => ?_
  · split
    · trivial
    · split
      · refine Uses.bind (Uses.tryExcept ?_ fun _ => trivial) fun _ => trivial
        exact (uses_ext trivial).bind fun _ => trivial
      · trivial
  · cases source <;> trivial

theorem uses_incrWithTtl (key : String) (ttl : Int) : Uses Probe (incrWithTtl key ttl) := by
  unfold incrWithTtl
  refine (uses_ext trivial).bind fun count => ?_
  split
  · exact (uses_ext trivial).bind fun _ => trivial
  · trivial

theorem uses_windowedCounts (o : NormalizedOrder) : Uses Probe (R.windowedCounts o) := by
  unfold windowedCounts
  refine Uses.tryExcept ?_ fun _ => trivial
  refine (uses_ext trivial).bind fun _ => (uses_incrWithTtl _ _).bind fun _ => ?_
  refine Uses.bind ?_ fun _ => trivial
  unfold burstCount
  split
  · exact uses_incrWithTtl _ _
  · trivial

theorem uses_windowedChecks (o : NormalizedOrder) : Uses Probe (R.windowedChecks o) := by
  unfold windowedChecks
  split
  · refine (R.uses_windowedCounts o).bind fun counts => ?_
    split
    · exact uses_lift _
    · split
      · trivial
      · split <;> trivial
  · exact uses_lift _

theorem uses_riskCheck (o : NormalizedOrder) : Uses Probe (R.riskCheck o) :=
  (uses_lift _).bind fun _ => (uses_lift _).bind fun _ => R.uses_windowedChecks o

theorem uses_priceBandCheck (o : NormalizedOrder) : Uses Probe (R.priceBandCheck o) := by
  unfold priceBandCheck
  split
  · split
    · trivial
    · refine (uses_ext trivial).bind fun close => ?_
      split
      · trivial
      · split
        · trivial
        · split <;> trivial
  · trivial

theorem uses_breakerGuard (a : AdapterId) : Uses Probe (breakerGuard a) := by
  unfold breakerGuard
  refine (uses_ext trivial).bind fun isOpen => ?_
  split <;> trivial

theorem uses_gates (o : NormalizedOrder) : Uses Probe (R.gates o) := by
  unfold gates
  refine (uses_lift _).bind fun _ => (uses_lift _).bind fun _ => ?_
  refine (R.uses_riskCheck o).bind fun _ => (R.uses_priceBandCheck o).bind fun _ => ?_
  exact (uses_lift _).bind fun a => (uses_breakerGuard a).bind fun _ => trivial

theorem uses_acquireLock (key : String) : Uses Probe (R.acquireLock key) := by
  unfold acquireLock
  split
  · exact Uses.tryExcept (uses_ext trivial) fun _ => trivial
  · trivial

theorem uses_releaseLock (key : String) (acquired : Bool) :
    Uses Probe (R.releaseLock key acquired) := by
  unfold releaseLock
  split
  · exact Uses.tryExcept (uses_ext trivial) fun _ => trivial
  · trivial

end Router

/-! ## Everything but the placement -/

/-- A status update reads the row and writes its status. -/
theorem uses_updateStatus {P : EngineOp → Prop} {cid : String} {s : OrderState}
    (hread : P (.store (.fetchOrder cid))) (hwrite : P (.store (.writeStatus cid s))) :
    Uses P (updateStatus cid s) := by
  unfold updateStatus
  refine (uses_store hread).bind fun row => ?_
  split
  · trivial
  · split
    · trivial
    · split
      · exact uses_store hwrite
      · trivial

namespace Reconcile

/-- The order an action is about. -/
def ReconcileAction.cid : ReconcileAction → String
  | .ack cid _ => cid
  | .fill cid _ _ _ _ => cid
  | .cancelTwoStep cid => cid
  | .cancelConfirm cid => cid
  | .expire cid => cid
  | .reject cid _ => cid
  | .postAckReject cid _ => cid

/-- The operations an action can get to. -/
inductive Performs : ReconcileAction → EngineOp → Prop where
  | ack (cid no : String) : Performs (.ack cid no) (.store (.ackOrder cid no))
  | now (cid : String) (qty : Int) (price : Decimal) (fid : String) (total : Int) :
    Performs (.fill cid qty price fid total) (.ext .now)
  | fill (cid : String) (qty : Int) (price : Decimal) (fid : String) (total : Int) (ts : Time) :
    Performs (.fill cid qty price fid total) (.store (.applyFill cid fid price qty ts total))
  | read (a : ReconcileAction) : Performs a (.store (.fetchOrder a.cid))
  | write (a : ReconcileAction) {s : OrderState}
    (hs : s ∈ [OrderState.pendingCancel, .cancelled, .expired, .rejected]) :
    Performs a (.store (.writeStatus a.cid s))
  | reject (cid reason : String) :
    Performs (.reject cid reason) (.store (.setRejectReason cid (reasonOr reason)))
  | postAckReject (cid reason : String) :
    Performs (.postAckReject cid reason) (.store (.setRejectReason cid (reasonOr reason)))

theorem performs_attempt (a : ReconcileAction) : Uses (Performs a) (attempt a) := by
  refine Uses.tryExcept (Uses.bind ?_ fun _ => uses_ret 1) fun _ => trivial
  have hstatus {s : OrderState}
      (hs : s ∈ [OrderState.pendingCancel, .cancelled, .expired, .rejected]) :
      Uses (Performs a) (updateStatus a.cid s) := uses_updateStatus (.read a) (.write a hs)
  cases a with
  | ack cid no => exact uses_store (.ack cid no)
  | fill cid qty price fid total =>
    refine Uses.bind (uses_ext (.now ..)) fun ts => ?_
    exact Uses.bind (uses_store (.fill cid qty price fid total ts)) fun _ => trivial
  | cancelTwoStep => exact Uses.bind (hstatus (by decide)) fun _ => hstatus (by decide)
  | cancelConfirm => exact hstatus (by decide)
  | expire => exact hstatus (by decide)
  | reject cid reason =>
    exact Uses.bind (hstatus (by decide)) fun _ => uses_store (.reject cid reason)
  | postAckReject cid reason =>
    refine Uses.bind (uses_store (.postAckReject cid reason)) fun _ => ?_
    exact Uses.bind (hstatus (by decide)) fun _ => hstatus (by decide)

theorem survey_attempt (a : ReconcileAction) : Uses Survey (attempt a) := by
  refine (performs_attempt a).mono fun op h => ?_
  cases h with
  | write _ hs => exact hs
  | _ => trivial

variable {ι : Type} [ReconcilerVenue ι]

theorem survey_applyRow (row : OrderRow) (items : List ι) (claimed : List String) (now : Time)
    (requireStuck : Bool) : Uses Survey (applyRow row items claimed now requireStuck) :=
  (uses_lift _).bind fun _ => (uses_store trivial).bind fun _ =>
    (runPlan_cases (fun _ _ => trivial) fun _ => uses_sumOver fun a _ => survey_attempt a).bind
      fun _ => trivial

theorem survey_applyRows (items : List ι) (now : Time) (rows : List OrderRow)
    (claimed : List String) : Uses Survey (applyRows items now rows claimed) := by
  induction rows generalizing claimed with
  | nil => trivial
  | cons row rows ih =>
    exact (survey_applyRow row items claimed now true).bind fun (_, _) =>
      (ih _).bind fun _ => trivial

/-- A pass reaches outside only to read books. -/
theorem survey_reconcileOnce (hbook : ∀ key, Uses Survey
    (ReconcilerVenue.fetchVenueOrders key : Eff (List ι))) : Uses Survey (reconcileOnce ι) := by
  unfold reconcileOnce
  refine (uses_store trivial).bind fun rows => ?_
  split
  · trivial
  · refine (uses_ext trivial).bind fun now => uses_sumOver fun group _ => ?_
    unfold reconcileGroup readBook
    refine Uses.bind (Uses.tryExcept ((hbook _).bind fun _ => trivial) fun e => ?_) fun book => ?_
    · split <;> trivial
    · cases book with
      | none => trivial
      | some items => exact survey_applyRows items now _ _

end Reconcile

theorem survey_resolveOrderNow (cid : String) :
    Uses Survey (Liberator.resolveOrderNow cid) := by
  unfold Liberator.resolveOrderNow
  refine (uses_store trivial).bind fun row => ?_
  split
  · trivial
  · split
    · trivial
    · refine (uses_store trivial).bind fun _ => (uses_ext trivial).bind fun _ => ?_
      refine (uses_ext trivial).bind fun _ => ?_
      exact (Reconcile.survey_applyRow _ _ _ _ _).bind fun _ =>
        (uses_store trivial).bind fun _ => trivial

theorem survey_recoverHandle {resolve : Eff Bool} (h : Uses Survey resolve)
    (submittedAt cadence deadline : Time) (minPolls : Int) (fuel : Nat) (attempts : Int)
    (readOk : Bool) :
    Uses Survey (HandleRecovery.recoverHandle resolve submittedAt cadence deadline minPolls fuel
      attempts readOk) := by
  induction fuel generalizing attempts readOk with
  | zero => trivial
  | succ fuel ih =>
    unfold HandleRecovery.recoverHandle HandleRecovery.poll
    refine Uses.bind (Uses.tryExcept (h.bind fun b => uses_ret (some b)) fun _ => trivial)
      fun answer => ?_
    split
    · trivial
    · refine (uses_ext trivial).bind fun now => ?_
      split
      · trivial
      · exact (uses_ext trivial).bind fun _ => ih _ _

namespace Router

variable (R : Router)

/-- A read of the order and its fills. -/
theorem uses_get {cid : String} (h : P (.store (.fetchOrderResult cid))) : Uses P (get cid) := by
  unfold get
  refine (uses_store h).bind fun row => ?_
  split <;> trivial

theorem survey_recover (fuel : Nat) (o : NormalizedOrder) :
    Uses Survey (R.recoverHandle fuel o) := by
  unfold recoverHandle
  split
  · refine (uses_store trivial).bind fun row => Uses.bind ?_ fun _ => ?_
    · cases row with
      | none => exact uses_ext trivial
      | some row => trivial
    · exact survey_recoverHandle (survey_resolveOrderNow _) _ _ _ _ _ _ _
  · trivial

/-- The settling of an ack writes to the venue only to cancel a remainder. -/
theorem uses_settle {a : AdapterId} {o : NormalizedOrder} {no : String} {ack : PlaceAck}
    (hread : P (.store (.fetchOrder o.clientOrderId)))
    (hack : P (.store (.ackOrder o.clientOrderId no)))
    (hfill : ∀ f : FillReport, P (.store (.applyFill o.clientOrderId f.brokerFillId f.price
      f.quantity f.execTs o.quantity)))
    (hwrite : ∀ s ∈ [OrderState.pendingCancel, .cancelled],
      P (.store (.writeStatus o.clientOrderId s)))
    (hcancel : P (.ext (.cancel a o.clientOrderId))) : Uses P (settle a o no ack) := by
  unfold settle
  refine (uses_store hack).bind fun _ => (uses_forEach fun f => ?_).bind fun _ => ?_
  · exact (uses_store (hfill f)).bind fun _ => trivial
  · split
    · refine Uses.bind (uses_updateStatus hread (hwrite _ (by simp))) fun _ => ?_
      refine (uses_ext hcancel).bind fun _ => ?_
      exact Uses.bind (uses_updateStatus hread (hwrite _ (by simp))) fun _ => trivial
    · trivial

theorem uses_awaitConcurrent {cid : String} (hread : P (.store (.fetchOrderResult cid)))
    (hsleep : P (.ext (.sleep 50000))) (n : Nat) : Uses P (awaitConcurrent cid n) := by
  induction n with
  | zero =>
    refine (uses_store hread).bind fun row => ?_
    split <;> trivial
  | succ n ih =>
    refine (uses_store hread).bind fun row => ?_
    split
    · trivial
    · exact (uses_ext hsleep).bind fun _ => ih

theorem uses_insertFresh {o : NormalizedOrder} {strategyId : Option String}
    (h : P (.store (.insertOrder o strategyId))) : Uses P (insertFresh o strategyId) := by
  unfold insertFresh
  refine Uses.tryExcept ((uses_store h).bind fun _ => trivial) fun e => ?_
  split <;> trivial

theorem uses_readBack {cid : String} (h : P (.store (.fetchOrderResult cid)))
    (done : SubmitOutcome ⊕ HandleResolution) : Uses P (readBack cid done) := by
  cases done with
  | inl outcome => trivial
  | inr resolution =>
    refine (uses_store h).bind fun row => ?_
    split <;> trivial

theorem uses_cancelAt {a : AdapterId} {cid : String} (hread : P (.store (.fetchOrder cid)))
    (hwrite : ∀ s ∈ [OrderState.pendingCancel, .cancelled], P (.store (.writeStatus cid s)))
    (hcancel : P (.ext (.cancel a cid))) : Uses P (cancelAt a cid) := by
  unfold cancelAt
  refine (uses_updateStatus hread (hwrite _ (by simp))).bind fun _ => ?_
  refine (uses_ext hcancel).bind fun ack => ?_
  split
  · exact uses_updateStatus hread (hwrite _ (by simp))
  · trivial

theorem uses_cancel {cid : String} (hprobe : ∀ op, Probe op → P op)
    (hread : P (.store (.fetchOrder cid))) (hresult : P (.store (.fetchOrderResult cid)))
    (hwrite : ∀ s ∈ [OrderState.pendingCancel, .cancelled], P (.store (.writeStatus cid s)))
    (hcancel : ∀ a, P (.ext (.cancel a cid))) : Uses P (R.cancel cid) := by
  unfold cancel
  refine (uses_store hread).bind fun row => ?_
  split
  · trivial
  · split
    · trivial
    · split
      · exact uses_get hresult
      · split
        · trivial
        · refine (uses_lift _).bind fun a => ?_
          refine ((uses_breakerGuard a).mono hprobe).bind fun _ => ?_
          exact (uses_cancelAt hread hwrite (hcancel a)).bind fun _ => uses_get hresult

theorem tending_cancel (cid : String) : Uses Tending (R.cancel cid) :=
  R.uses_cancel (fun _ => Probe.tending) trivial trivial (fun _ _ => trivial) fun _ => trivial

theorem external_venueAmend (a : AdapterId) (cid : String) (p : Option Decimal)
    (q : Option Int) : Uses External (venueAmend a cid p q) := by
  refine Uses.tryExcept (uses_ext trivial) fun er => ?_
  split <;> trivial

/-- The venue leg of a native amend moves the order between PENDING_REPLACE, NEW and
    PARTIALLY_FILLED. -/
theorem uses_amendAt {a : AdapterId} {cid : String} {p : Option Decimal} {q : Option Int}
    {filled : Int} (hread : P (.store (.fetchOrder cid)))
    (hresult : P (.store (.fetchOrderResult cid)))
    (hwrite : ∀ s ∈ [OrderState.pendingReplace, .new, .partiallyFilled],
      P (.store (.writeStatus cid s)))
    (hamend : P (.ext (.amend a cid p q))) (hreplace : P (.store (.replaceOrder cid p q))) :
    Uses P (amendAt a cid p q filled) := by
  have hstatus {s : OrderState} (hs : s ∈ [OrderState.pendingReplace, .new, .partiallyFilled]) :
      Uses P (updateStatus cid s) := uses_updateStatus hread (hwrite s hs)
  have hrestore : Uses P (restorePartial cid filled) := by
    unfold restorePartial
    split
    · exact hstatus (by simp)
    · trivial
  unfold amendAt venueAmend
  refine (hstatus (by simp)).bind fun _ => Uses.bind ?_ fun ack => ?_
  · refine Uses.tryExcept (uses_ext hamend) fun e => ?_
    split <;> trivial
  · split
    · exact (uses_store hreplace).bind fun _ => hrestore.bind fun _ =>
        (uses_get hresult).bind fun _ => trivial
    · exact (hstatus (by simp)).bind fun _ => hrestore.bind fun _ => trivial

theorem tending_amendNative (row : OrderRow) (newCid : Option String) (p : Option Decimal)
    (q : Option Int) : Uses Tending (R.amendNative row newCid p q) := by
  unfold amendNative
  dsimp only
  split
  · trivial
  · split
    · trivial
    · refine (uses_store trivial).bind fun result => ?_
      split
      · trivial
      · generalize amendedOrder row row.clientOrderId p q = built
        refine (uses_lift _).bind fun _ => ?_
        refine (uses_lift built).bind fun amended => ?_
        refine ((R.uses_riskCheck amended).mono fun _ => Probe.tending).bind fun _ => ?_
        refine (uses_lift _).bind fun a => ?_
        exact ((uses_breakerGuard a).mono fun _ => Probe.tending).bind fun _ =>
          uses_amendAt trivial trivial (fun _ _ => trivial) trivial trivial

/-- One order of the sweep writes to the adapter its own row resolves to. -/
theorem uses_sweepOne {row : OrderRow} (hread : P (.store (.fetchOrder row.clientOrderId)))
    (hwrite : ∀ s ∈ [OrderState.pendingCancel, .cancelled],
      P (.store (.writeStatus row.clientOrderId s)))
    (hcancel : ∀ a, R.resolveAdapter row.broker row.account = .ok a →
      P (.ext (.cancel a row.clientOrderId))) : Uses P (R.sweepOne row) := by
  refine Uses.tryExcept ?_ fun _ => trivial
  cases ha : R.resolveAdapter row.broker row.account with
  | error e => trivial
  | ok a =>
    refine (uses_updateStatus hread (hwrite _ (by simp))).bind fun _ => ?_
    refine (uses_ext (hcancel a ha)).bind fun ack => ?_
    split
    · exact (uses_updateStatus hread (hwrite _ (by simp))).bind fun _ => trivial
    · trivial

theorem uses_sweep (hread : ∀ cid, P (.store (.fetchOrder cid)))
    (hwrite : ∀ cid, ∀ s ∈ [OrderState.pendingCancel, .cancelled],
      P (.store (.writeStatus cid s)))
    (hcancel : ∀ a cid, P (.ext (.cancel a cid))) (rows : List OrderRow) :
    Uses P (R.sweep rows) := by
  induction rows with
  | nil => trivial
  | cons row rows ih =>
    refine Uses.bind ?_ fun ok => ih.bind fun (_, _) => trivial
    exact R.uses_sweepOne (hread _) (hwrite _) fun a _ => hcancel a _

theorem tending_massCancel : Uses Tending R.massCancel :=
  (uses_store trivial).bind fun rows =>
    R.uses_sweep (fun _ => trivial) (fun _ _ _ => trivial) (fun _ _ => trivial) rows

end Router

end ExecutionEngine
