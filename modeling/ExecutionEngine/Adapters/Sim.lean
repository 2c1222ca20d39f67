/-
  `SimAdapter`: deterministic paper fills. `placeAck` is what `place` returns once
  the price source has answered (`none`: no source, or no opinion) and the clock
  has been read; the rest is a pure function of the order.

  A fill plan is a list of positive integers whose sum never exceeds the order
  quantity (`fillPlan_sum`), which is where the engine's fills are bounded.
-/
import ExecutionEngine.Core.Effects

namespace ExecutionEngine.SimAdapter

/-- A positive quantity. -/
abbrev PosQty := {q : Int // 0 < q}

/-- `isinstance(q, int) and not isinstance(q, bool) and q > 0`. -/
def posQty : Json → Option PosQty
  | .int n => if h : 0 < n then some ⟨n, h⟩ else none
  | _ => none

/-- The list of positive integers a `sim_fills` value stands for, if it is one. -/
def posQtys : Json → Option (List PosQty)
  | .arr items => items.mapM posQty
  | _ => none

def planSum (plan : List PosQty) : Int := (plan.map Subtype.val).sum

/-- `_fill_plan`: the fill quantities, or a rejection reason. -/
def fillPlan (o : NormalizedOrder) : Except String (List PosQty) :=
  match Json.lookup o.metadata "sim_reject" with
  | .null =>
    let plan : Except String (List PosQty) :=
      match Json.lookup o.metadata "sim_fills" with
      | .null => .ok [⟨o.quantity, o.quantity_pos⟩]
      | raw => match posQtys raw with
        | none => .error "invalid sim_fills: must be a list of positive integers"
        | some plan =>
          if o.quantity < planSum plan then .error "invalid sim_fills: sum exceeds order quantity"
          else .ok plan
    match plan with
    | .error reason => .error reason
    | .ok plan =>
      if o.tif = .fok && plan.map Subtype.val ≠ [o.quantity] then
        .error "FOK requires a single full fill"
      else .ok plan
  | reject => .error reject.pyStr

/-- `_reference_price`. The validators give LIMIT and STOP orders the price they need. -/
def referencePrice (defaultFillPrice : Decimal) (o : NormalizedOrder) : Decimal :=
  let price :=
    if o.orderType ∈ [OrderType.limit, .stopLimit] then o.price
    else if o.orderType = .stop then o.stopPrice
    else o.price.or o.stopPrice
  price.getD defaultFillPrice

/-- `cid[:8]`. -/
def cidPrefix (cid : String) : String := String.ofList (cid.toList.take 8)

/-- `f"SIMF-{prefix}-{i}"`. -/
def simFillId (cid : String) (i : Nat) : String := "SIMF-" ++ cidPrefix cid ++ "-" ++ toString i

/-- The fills of a plan, numbered from `i`. -/
def planFills (cid : String) (price : Decimal) (ts : Time) : Nat → List PosQty → List FillReport
  | _, [] => []
  | i, q :: qs => ⟨simFillId cid i, price, q.1, ts, q.2⟩ :: planFills cid price ts (i + 1) qs

/-- `place`. -/
def placeAck (defaultFillPrice : Decimal) (o : NormalizedOrder) (source : Option Decimal)
    (ts : Time) : PlaceAck :=
  match fillPlan o with
  | .error reason => { rejected := true, rejectReason := some reason }
  | .ok plan =>
    { brokerOrderId := some ("SIM-" ++ cidPrefix o.clientOrderId)
      fills := planFills o.clientOrderId (source.getD (referencePrice defaultFillPrice o)) ts 1 plan
      remainderCancelled := o.tif = .ioc && planSum plan < o.quantity }

/-- A plan never fills more than the order. -/
theorem fillPlan_sum {o : NormalizedOrder} {plan : List PosQty} (h : fillPlan o = .ok plan) :
    planSum plan ≤ o.quantity := by
  unfold fillPlan at h
  split at h
  · dsimp only at h
    split at h
    · cases h
    · rename_i plan' hplan
      split at h
      · cases h
      · obtain rfl := Except.ok.inj h
        split at hplan
        · obtain rfl := Except.ok.inj hplan
          simp [planSum]
        · split at hplan
          · cases hplan
          · split at hplan
            · cases hplan
            · rename_i hle
              obtain rfl := Except.ok.inj hplan
              omega
  · cases h

end ExecutionEngine.SimAdapter
