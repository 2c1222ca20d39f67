/-
  What stands before a venue: the kill-switch, the PTRM risk gate, the price band,
  the stage ladder with the routing authority, the breaker and the single-flight
  lock. Each raises or lets pass; none of them touches the store.

  `Router` is one `OrderRouter`: its settings and which collaborators were
  injected. `digest` stands for the truncated SHA-256 of the burst key.
-/
import ExecutionEngine.Core.Effects

namespace ExecutionEngine

/-- The settings the routing path reads. -/
structure Settings where
  stage : Stage := .sim
  killSwitchEngaged : Bool := false
  riskMaxOrderQty : Int := 1000
  riskMaxOrderValue : Decimal := ⟨1000000, 0⟩
  riskMaxOrdersPerSecond : Int := 5
  accountMaxNotional : List (String × Decimal) := []
  accountMaxQty : List (String × Int) := []
  realRoutingAccounts : List String := []
  priceBandEnabled : Bool := false
  priceBandMaxPct : Decimal := ⟨100, -1⟩
  duplicateBurstGuardEnabled : Bool := true
  duplicateBurstWindowSeconds : Int := 5
  submitLockTtlSeconds : Int := 10
  submitLockWaitMs : Int := 300
  simDefaultFillPrice : Decimal := ⟨100, 0⟩
  handleRecoveryCadenceMs : Int := 250
  handleRecoveryMinPolls : Int := 3
  handleRecoveryDeadlineMs : Int := 1500

/-- One `OrderRouter`: settings, and which collaborators it was built with. -/
structure Router where
  settings : Settings
  redis : Bool := true
  liberator : Bool := false
  streamingPro : Bool := false
  marketData : Bool := false
  handleResolver : Bool := false
  digest : String → String := id

open Async Async.Prog

namespace Router

variable (R : Router)

/-! ## Kill-switch -/

def killSwitchKey : String := "exe:kill_switch"

/-- `KillSwitch.status`; a failing Redis leaves the env flag alone. -/
def killSwitchStatus : Eff (Option String) :=
  if R.settings.killSwitchEngaged then .ret (some "env")
  else if R.redis then do
    let tripped ← tryExcept (do return (← Eff.ext (.redisGet killSwitchKey)).isSome)
      fun _ => .ret false
    .ret (if tripped then some "redis" else none)
  else .ret none

/-- `assert_disengaged`. -/
def assertDisengaged : Eff Unit := do
  match ← R.killSwitchStatus with
  | some source => .raise (.rejected .killSwitchEngaged
      ("kill switch engaged (source: " ++ source ++ "); all new submits rejected") none)
  | none => .ret ()

/-! ## PTRM risk gate -/

/-- `dict.get(account)`. -/
def forAccount {α : Type} (m : List (String × α)) (account : String) : Option α :=
  (m.find? fun e => e.1 = account).map Prod.snd

/-- `_check_quantity`. -/
def checkQuantity (o : NormalizedOrder) : Except Exn Unit :=
  let own := forAccount R.settings.accountMaxQty o.account
  let limit := own.getD R.settings.riskMaxOrderQty
  if limit < o.quantity then
    .error (.rejected (.riskRejected (if own.isSome then "account_max_qty" else "max_order_qty"))
      ("quantity " ++ toString o.quantity ++ " exceeds max_order_qty " ++ toString limit)
      o.clientOrderId)
  else .ok ()

/-- `_check_notional`: on the price, else the stop price; an unpriced order is skipped. -/
def checkNotional (o : NormalizedOrder) : Except Exn Unit :=
  match o.price.or o.stopPrice with
  | none => .ok ()
  | some basis =>
    let own := forAccount R.settings.accountMaxNotional o.account
    let limit := own.getD R.settings.riskMaxOrderValue
    let notional := basis.mulInt o.quantity
    if limit.lt notional then
      .error (.rejected
        (.riskRejected (if own.isSome then "account_max_notional" else "max_order_value"))
        ("notional " ++ notional.str ++ " exceeds max_order_value " ++ limit.str)
        o.clientOrderId)
    else .ok ()

/-- `_burst_key`. -/
def burstKey (o : NormalizedOrder) : String :=
  let price := match o.price with
    | none => "None"
    | some p => p.formatF
  "exe:burst:" ++ R.digest (o.account ++ "|" ++ o.symbol ++ "|" ++ o.side.value ++ "|" ++
    toString o.quantity ++ "|" ++ o.orderType.value ++ "|" ++ price)

/-- `incr_with_ttl`. -/
def incrWithTtl (key : String) (ttlSeconds : Int) : Eff Int := do
  let count ← Eff.ext (.redisIncr key)
  if count = 1 then do
    Eff.ext (.redisExpire key ttlSeconds)
    .ret count
  else .ret count

/-- `_risk_backend_down`: fail-open in sim and paper, fail-closed in the live stages. -/
def riskBackendDown (o : NormalizedOrder) : Except Exn Unit :=
  if R.settings.stage ∈ [Stage.microLive, .live] then
    .error (.rejected (.riskRejected "risk_backend_down")
      "risk backend unavailable; refusing to route in a live stage" o.clientOrderId)
  else .ok ()

/-- The burst counter, 0 while the guard is off. -/
def burstCount (o : NormalizedOrder) : Eff Int :=
  if R.settings.duplicateBurstGuardEnabled then
    incrWithTtl (R.burstKey o) R.settings.duplicateBurstWindowSeconds
  else .ret 0

/-- The two counters of `_windowed_checks`; `none` when Redis failed. -/
def windowedCounts (o : NormalizedOrder) : Eff (Option (Int × Int)) :=
  tryExcept
    (do
      let second ← Eff.ext .unixTime
      let rate ← incrWithTtl ("exe:rate:" ++ toString second) 2
      let burst ← R.burstCount o
      .ret (some (rate, burst)))
    fun _ => .ret none

/-- `_windowed_checks`. -/
def windowedChecks (o : NormalizedOrder) : Eff Unit :=
  if R.redis then do
    match ← R.windowedCounts o with
    | none => Eff.lift (R.riskBackendDown o)
    | some (rate, burst) =>
      if R.settings.riskMaxOrdersPerSecond < rate then
        .raise (.rejected (.riskRejected "rate_limit")
          ("order rate exceeds " ++ toString R.settings.riskMaxOrdersPerSecond ++ "/s")
          o.clientOrderId)
      else if R.settings.duplicateBurstGuardEnabled && 1 < burst then
        .raise (.rejected .duplicateBurstDetected
          "duplicate economic order within the burst window" o.clientOrderId)
      else .ret ()
  else Eff.lift (R.riskBackendDown o)

/-- `RiskGate.check`. -/
def riskCheck (o : NormalizedOrder) : Eff Unit := do
  Eff.lift (R.checkQuantity o)
  Eff.lift (R.checkNotional o)
  R.windowedChecks o

/-! ## Price band -/

/-- `deviation_pct`, to four places. -/
def deviationPct (price lastClose : Decimal) : Decimal :=
  let e := min price.exp lastClose.exp
  ⟨Decimal.divHalfEven ((price.absSub lastClose).coeff * 1000000) (lastClose.scaledTo e), -4⟩

/-- `PriceBandCheck.check`; the comparison is made without dividing. -/
def priceBandCheck (o : NormalizedOrder) : Eff Unit :=
  if R.settings.priceBandEnabled && R.marketData then
    match o.price with
    | none => .ret ()
    | some price => do
      match ← Eff.ext (.lastClose o.symbol o.market) with
      | none => .ret ()
      | some lastClose =>
        if !lastClose.isPos then .ret ()
        else if (R.settings.priceBandMaxPct.mul lastClose).lt ((price.absSub lastClose).mulInt 100)
        then
          .raise (.rejected .priceBandExceeded
            ("price " ++ price.str ++ " deviates " ++ (deviationPct price lastClose).formatF ++
              "% from last close " ++ lastClose.str ++ " (max " ++
              R.settings.priceBandMaxPct.str ++ "%)") o.clientOrderId)
        else .ret ()
  else .ret ()

/-! ## Stage ladder and routing authority -/

/-- What the caller wants the adapter for. -/
inductive AdapterIntent where
  | trade | read
  deriving DecidableEq, Repr

def realBrokers : List Broker := [.liberator, .streamingPro]

/-- `_real_adapter_for`. -/
def realAdapterFor : Broker → Option AdapterId
  | .liberator => if R.liberator then some .liberator else none
  | .streamingPro => if R.streamingPro then some .streamingPro else none
  | .sim => none

def microLiveUnconfiguredMessage : Broker → String
  | .streamingPro => "stage 'micro_live' requires a configured streaming_pro runtime " ++
      "(owner mode + EXECUTION_ENGINE_STREAMING_PRO_API_KEY)"
  | _ => "stage 'micro_live' requires a configured liberator runtime " ++
      "(owner mode + EXECUTION_ENGINE_LIBERATOR_API_KEY)"

def paperReadUnanswerableMessage (b : Broker) : String :=
  "stage 'paper': no '" ++ b.value ++ "' runtime is configured on this node, so a broker READ " ++
  "cannot be answered — and will NOT be faked. An empty list or a default balance here " ++
  "would be indistinguishable from a real one. Query GET /capabilities: " ++
  "adapter_installed=false for this broker on this deployment."

/-- `resolve_adapter`, the stage ladder. -/
def ladder (b : Broker) (intent : AdapterIntent) : Except Exn AdapterId :=
  let stageRejected (m : String) : Except Exn AdapterId := .error (.rejected .stageRejected m none)
  match R.settings.stage with
  | .sim => .ok .sim
  | .paper =>
    if intent = .read && b ∈ realBrokers then
      match R.realAdapterFor b with
      | none => stageRejected (paperReadUnanswerableMessage b)
      | some a => .ok a
    else .ok .sim
  | .microLive =>
    if b ∈ realBrokers then
      match R.realAdapterFor b with
      | none => stageRejected (microLiveUnconfiguredMessage b)
      | some a => .ok a
    else stageRejected
      ("stage 'micro_live' has no installed adapter for broker '" ++ b.value ++ "'")
  | .live => stageRejected "stage 'live' stays gated in Phase 4 — no real-money default"

/-- `authorized_accounts`. -/
def authorizedAccounts : List String :=
  (R.settings.realRoutingAccounts.map strip).filter fun a => !a.isEmpty

/-- `repr(sorted(xs))` for a set of strings. -/
def sortedRepr (xs : List String) : String :=
  let sorted := xs.dedup.insertionSort (· ≤ ·)
  "[" ++ String.intercalate ", " (sorted.map reprText) ++ "]"

/-- `assert_may_route_real`. -/
def assertMayRouteReal (account : String) (b : Broker) (a : AdapterId) : Except Exn Unit :=
  if a = .sim || b ∉ realBrokers then .ok ()
  else if R.authorizedAccounts.isEmpty then
    .error (.rejected .realRoutingNotAuthorized
      ("this node is not declared the real router for any account, so it cannot route " ++
        b.value ++ " order for " ++ reprText account ++
        " — set EXECUTION_ENGINE_REAL_ROUTING_ACCOUNTS " ++
        "(EH6: exactly one authoritative real-router per broker account)") none)
  else if account ∉ R.authorizedAccounts then
    .error (.rejected .realRoutingNotAuthorized
      ("account " ++ reprText account ++ " is not in this node's real-routing declaration " ++
        "(EH6). Declared: " ++ sortedRepr R.authorizedAccounts) none)
  else .ok ()

/-- `_resolve_adapter`. -/
def resolveAdapter (b : Broker) (account : String) (intent : AdapterIntent := .trade) :
    Except Exn AdapterId := do
  let a ← R.ladder b intent
  R.assertMayRouteReal account b a
  return a

/-- `adapter.breaker.guard()`. -/
def breakerGuard (a : AdapterId) : Eff Unit := do
  if ← Eff.ext (.breakerOpen a) then
    .raise (.rejected .brokerCircuitOpen "broker session circuit breaker is open" none)
  else .ret ()

/-! ## Single flight -/

/-- `client.set(key, token, nx=True, ex=ttl)`: a failing or missing Redis yields the lock. -/
def acquireLock (key : String) : Eff Bool :=
  if R.redis then
    tryExcept (Eff.ext (.redisSetNx key R.settings.submitLockTtlSeconds)) fun _ => .ret true
  else .ret true

def releaseLock (key : String) (acquired : Bool) : Eff Unit :=
  if acquired && R.redis then tryExcept (Eff.ext (.redisRelease key)) fun _ => .ret ()
  else .ret ()

/-- `single_flight`. -/
def singleFlight {α : Type} (key : String) (body : Bool → Eff α) : Eff α := do
  let acquired ← R.acquireLock key
  tryFinally (body acquired) (R.releaseLock key acquired)

end Router

end ExecutionEngine
