/-
  Where the price of a simulated fill comes from: the best level of the cached book, else
  the last close of the market-data engine, else the order's own reference price.

  The first two are clamped to the order's limit and the third is not, and no one looks
  at the sign of a close. `PriceLimit` is the clamp over any linear order; `fills_fair_iff`
  says for which orders and answers every fill is positive and within the limit.
  `place` is `SimAdapter.place` with its price sources and its exceptions; when it returns,
  it returns the ack the router's model has for it (`place_ok`).
-/
import ExecutionEngine.Core.SimSettlement
import ExecutionEngine.Feed.BidOffer

namespace ExecutionEngine

open BidOffer (OrderBook OrderBookLevel)

/-! ## A limit, over any linear order -/

namespace PriceLimit

variable {α : Type} [LinearOrder α] {side : Side} {limit : Option α} {p : α}

/-- A buyer pays the limit at most, a seller gets it at least. -/
def Within (side : Side) (limit : Option α) (p : α) : Prop :=
  ∀ l, limit = some l → (side = .buy → p ≤ l) ∧ (side = .sell → l ≤ p)

/-- The nearest price within the limit. -/
def clamp : Side → Option α → α → α
  | _, none, p => p
  | .buy, some l, p => min p l
  | .sell, some l, p => max p l

theorem within_none : Within side none p := by
  intro l h
  cases h

theorem within_self (l : α) : Within side (some l) l := by
  intro l' h
  rw [Option.some.inj h]
  exact ⟨fun _ => le_refl _, fun _ => le_refl _⟩

theorem within_clamp (side : Side) (limit : Option α) (p : α) :
    Within side limit (clamp side limit p) := by
  intro l h
  subst h
  cases side with
  | buy =>
    refine ⟨fun _ => min_le_right p l, fun hno => ?_⟩
    cases hno
  | sell =>
    refine ⟨fun hno => ?_, fun _ => le_max_right p l⟩
    cases hno

/-- Against a positive limit only the price itself can make a buyer's price non-positive. -/
theorem clamp_pos_iff [Zero α] (hlimit : ∀ l, limit = some l → 0 < l) :
    0 < clamp side limit p ↔ 0 < p ∨ (side = .sell ∧ limit.isSome = true) := by
  cases limit with
  | none => simp [clamp]
  | some l =>
    have hl := hlimit l rfl
    cases side with
    | buy => simp [clamp, hl]
    | sell => simp [clamp, hl]

end PriceLimit

namespace SimAdapter

open PriceLimit

/-! ## The sources -/

/-- `min(a, b)`. -/
def pyMin (a b : AnyDecimal) : Except PyError AnyDecimal := do
  let less ← b.lt a
  return if less then b else a

/-- `max(a, b)`. -/
def pyMax (a b : AnyDecimal) : Except PyError AnyDecimal := do
  let more ← a.lt b
  return if more then b else a

/-- `_bound_by_limit`. -/
def boundByLimit (price : AnyDecimal) (o : NormalizedOrder) : Except PyError AnyDecimal :=
  match o.price with
  | none => .ok price
  | some limit => match o.side with
    | .buy => pyMin price (.finite limit)
    | .sell => pyMax price (.finite limit)

/-- `value[key]`. -/
def subscript (value : Json) (key : String) : Except PyError Json :=
  match value with
  | .obj fields => match fields.find? fun f => f.1 = key with
    | some f => .ok f.2
    | none => .error .keyError
  | _ => .error .typeError

/-- A bar under `str(bar["ts"])`. -/
def keyedBar (str : Json → String) (bar : Json) : Except PyError (String × Json) := do
  let ts ← subscript bar "ts"
  return (str ts, bar)

/-- `max(bars, key=...)`: the first of the greatest. -/
def latestBar (first : String × Json) (bars : List (String × Json)) : Json :=
  (bars.foldl (fun best bar => if best.1 < bar.1 then bar else best) first).2

/-- `_latest_close`; `str` is the builtin. -/
def latestClose (str : Json → String) (payload : Json) : Except PyError AnyDecimal :=
  match payload with
  | .obj fields => match Json.lookup fields "bars" with
    | .arr (bar :: bars) => do
      let first ← keyedBar str bar
      let keyed ← bars.mapM (keyedBar str)
      let close ← subscript (latestBar first keyed) "close"
      match close.toDecimal with
      | some d => .ok d
      | none => .error .invalidOperation
    | _ => .error .valueError
  | _ => .error .valueError

/-- An answer of the market-data engine: none that is JSON, or a decoded body. -/
inductive MarketAnswer where
  | failed
  | body (payload : Json)

/-- `last_close`, past the configuration. -/
def lastClose (str : Json → String) : MarketAnswer → Except PyError (Option AnyDecimal)
  | .failed => .ok none
  | .body payload => match latestClose str payload with
    | .ok close => .ok (some close)
    | .error .valueError => .ok none
    | .error .keyError => .ok none
    | .error .invalidOperation => .ok none
    | .error e => .error e

/-- What a `SimFillPricer` finds: the cached book of the order's symbol, and the answer of the
    market-data engine, if one is configured. -/
structure Pricer where
  book : Option OrderBook
  marketData : Option MarketAnswer

/-- The level that the order would trade with. -/
def Pricer.level (pricer : Pricer) (o : NormalizedOrder) : Option OrderBookLevel :=
  pricer.book.bind fun book => match o.side with
    | .buy => book.bestAsk
    | .sell => book.bestBid

/-- `_from_book`. -/
def Pricer.fromBook (pricer : Pricer) (o : NormalizedOrder) :
    Except PyError (Option AnyDecimal) :=
  match pricer.level o with
  | none => .ok none
  | some level => do
    let price ← boundByLimit (.finite level.price) o
    return some price

/-- `_from_market_data`, where one is configured. -/
def Pricer.fromMarketData (str : Json → String) (pricer : Pricer) (o : NormalizedOrder) :
    Except PyError (Option AnyDecimal) :=
  match pricer.marketData with
  | none => .ok none
  | some answer => do
    let close ← lastClose str answer
    match close with
    | none => .ok none
    | some close => do
      let price ← boundByLimit close o
      return some price

/-- `fill_price`. -/
def Pricer.fillPrice (str : Json → String) (pricer : Pricer) (o : NormalizedOrder) :
    Except PyError (Option AnyDecimal) := do
  let bookPrice ← pricer.fromBook o
  match bookPrice with
  | some price => return some price
  | none => pricer.fromMarketData str o

/-! ## The placement -/

/-- The fill reports: pydantic takes a finite price only. -/
def fillReports (cid : String) (price : AnyDecimal) (ts : Time) (plan : List PosQty) :
    Except PyError (List FillReport) :=
  match price, plan with
  | _, [] => .ok []
  | .finite d, plan => .ok (planFills cid d ts 1 plan)
  | .special _, _ => .error .validationError

/-- `price_source.fill_price(order)`, if there is a source. -/
def sourcedPrice (str : Json → String) (source : Option Pricer) (o : NormalizedOrder) :
    Except PyError (Option AnyDecimal) :=
  match source with
  | none => .ok none
  | some pricer => pricer.fillPrice str o

/-- `place`. -/
def place (str : Json → String) (defaultFillPrice : Decimal) (source : Option Pricer)
    (o : NormalizedOrder) (ts : Time) : Except PyError PlaceAck :=
  match fillPlan o with
  | .error reason => .ok { rejected := true, rejectReason := some reason }
  | .ok plan => do
    let sourced ← sourcedPrice str source o
    let price := sourced.getD (.finite (referencePrice defaultFillPrice o))
    let fills ← fillReports o.clientOrderId price ts plan
    return {
      brokerOrderId := some ("SIM-" ++ cidPrefix o.clientOrderId)
      fills := fills
      remainderCancelled := o.tif = .ioc && planSum plan < o.quantity }

/-! ## Clamping decimals -/

section Clamping

variable {o : NormalizedOrder} {c d : Decimal}

theorem pyMin_finite (a b : Decimal) :
    ∃ d, pyMin (.finite a) (.finite b) = .ok (.finite d) ∧ d.value = min a.value b.value := by
  cases h : b.lt a with
  | true =>
    refine ⟨b, ?_, (min_eq_right (Decimal.lt_iff.mp h).le).symm⟩
    simp only [pyMin, AnyDecimal.lt, h]
    rfl
  | false =>
    refine ⟨a, ?_, (min_eq_left (Decimal.not_lt_iff.mp h)).symm⟩
    simp only [pyMin, AnyDecimal.lt, h]
    rfl

theorem pyMax_finite (a b : Decimal) :
    ∃ d, pyMax (.finite a) (.finite b) = .ok (.finite d) ∧ d.value = max a.value b.value := by
  cases h : a.lt b with
  | true =>
    refine ⟨b, ?_, (max_eq_right (Decimal.lt_iff.mp h).le).symm⟩
    simp only [pyMax, AnyDecimal.lt, h]
    rfl
  | false =>
    refine ⟨a, ?_, (max_eq_left (Decimal.not_lt_iff.mp h)).symm⟩
    simp only [pyMax, AnyDecimal.lt, h]
    rfl

/-- `_bound_by_limit` is the clamp. -/
theorem boundByLimit_finite (c : Decimal) (o : NormalizedOrder) :
    ∃ d, boundByLimit (.finite c) o = .ok (.finite d) ∧
      d.value = clamp o.side (o.price.map Decimal.value) c.value := by
  unfold boundByLimit
  cases o.price with
  | none => exact ⟨c, rfl, by rw [Option.map_none, clamp]⟩
  | some limit =>
    cases o.side with
    | buy => exact pyMin_finite c limit
    | sell => exact pyMax_finite c limit

/-- Of NaN and the infinities only the limit itself can come. -/
theorem boundByLimit_special {x : NonFinite} (h : boundByLimit (.special x) o = .ok (.finite d)) :
    o.price = some d := by
  unfold boundByLimit at h
  cases hprice : o.price with
  | none =>
    rw [hprice] at h
    cases h
  | some limit =>
    rw [hprice] at h
    cases hside : o.side with
    | buy =>
      rw [hside] at h
      cases x with
      | inf => exact congrArg some (AnyDecimal.finite.inj (Except.ok.inj h))
      | _ => cases h
    | sell =>
      rw [hside] at h
      cases x with
      | negInf => exact congrArg some (AnyDecimal.finite.inj (Except.ok.inj h))
      | _ => cases h

/-- A fair fill: a positive price within the order's limit. -/
def Fair (o : NormalizedOrder) (price : Decimal) : Prop :=
  0 < price.value ∧ Within o.side (o.price.map Decimal.value) price.value

theorem limit_pos {l : ℚ} (h : o.price.map Decimal.value = some l) : 0 < l := by
  obtain ⟨limit, hlimit, rfl⟩ := Option.map_eq_some_iff.mp h
  exact Decimal.isPos_iff.mp (o.price_pos hlimit)

theorem fair_price (h : o.price = some d) : Fair o d := by
  refine ⟨Decimal.isPos_iff.mp (o.price_pos h), ?_⟩
  rw [h]
  exact within_self _

theorem fair_clamped_iff (h : d.value = clamp o.side (o.price.map Decimal.value) c.value) :
    Fair o d ↔ c.isPos = true ∨ (o.side = .sell ∧ o.price.isSome = true) := by
  rw [Fair, h, and_iff_left (within_clamp _ _ _), clamp_pos_iff fun _ => limit_pos,
    Decimal.isPos_iff, Option.isSome_map]

end Clamping

/-! ## What the sources say -/

/-- The level that the order would trade with, else the last close. -/
def quote (str : Json → String) (source : Option Pricer) (o : NormalizedOrder) :
    Except PyError (Option AnyDecimal) :=
  match source with
  | none => .ok none
  | some pricer => match pricer.level o with
    | some level => .ok (some (.finite level.price))
    | none => match pricer.marketData with
      | none => .ok none
      | some answer => lastClose str answer

section Placing

variable {str : Json → String} {defaultFillPrice : Decimal} {source : Option Pricer}
  {o : NormalizedOrder} {ts : Time} {d : Decimal}

/-- The source's price is the quote, clamped. -/
theorem sourcedPrice_eq : sourcedPrice str source o = (quote str source o).bind fun q =>
    q.elim (.ok none) fun p => (boundByLimit p o).map some := by
  cases source with
  | none => rfl
  | some pricer =>
    have hbound (p : AnyDecimal) : (do
        let price ← boundByLimit p o
        return some price : Except PyError (Option AnyDecimal)) =
        (boundByLimit p o).map some := by
      cases boundByLimit p o <;> rfl
    unfold sourcedPrice quote Pricer.fillPrice Pricer.fromBook
    dsimp only
    cases pricer.level o with
    | some level =>
      dsimp only
      rw [hbound]
      show _ = (boundByLimit (.finite level.price) o).map some
      cases boundByLimit (.finite level.price) o <;> rfl
    | none =>
      show pricer.fromMarketData str o = _
      unfold Pricer.fromMarketData
      cases pricer.marketData with
      | none => rfl
      | some answer =>
        dsimp only
        cases lastClose str answer with
        | error e => rfl
        | ok close =>
          cases close with
          | none => rfl
          | some close => exact hbound close

/-- The price of the fills, whatever the source says. -/
def price (str : Json → String) (defaultFillPrice : Decimal) (source : Option Pricer)
    (o : NormalizedOrder) : Except PyError AnyDecimal :=
  (sourcedPrice str source o).map fun sourced =>
    sourced.getD (.finite (referencePrice defaultFillPrice o))

theorem place_eq {plan : List PosQty} (h : fillPlan o = .ok plan) :
    place str defaultFillPrice source o ts = (price str defaultFillPrice source o).bind fun p =>
      (fillReports o.clientOrderId p ts plan).map fun fills =>
        { brokerOrderId := some ("SIM-" ++ cidPrefix o.clientOrderId)
          fills := fills
          remainderCancelled := o.tif = .ioc && planSum plan < o.quantity } := by
  rw [place, h, price]
  dsimp only
  cases sourcedPrice str source o with
  | error e => rfl
  | ok sourced =>
    show (do
      let fills ← fillReports o.clientOrderId
        (sourced.getD (.finite (referencePrice defaultFillPrice o))) ts plan
      return _ : Except PyError PlaceAck) = _
    cases h : fillReports o.clientOrderId
        (sourced.getD (.finite (referencePrice defaultFillPrice o))) ts plan with
    | error e => simp only [h, Except.map, Except.bind, bind]
    | ok fills =>
      simp only [h, Except.map, Except.bind, bind]
      rfl

theorem planFills_price {cid : String} {i : Nat} {plan : List PosQty} {f : FillReport}
    (h : f ∈ planFills cid d ts i plan) : f.price = d := by
  induction plan generalizing i with
  | nil => exact absurd h List.not_mem_nil
  | cons q qs ih =>
    rcases List.mem_cons.mp h with rfl | h
    · rfl
    · exact ih h

/-- A placement at a finite price is the ack that the router's model has for it. -/
theorem place_finite (h : price str defaultFillPrice source o = .ok (.finite d)) :
    place str defaultFillPrice source o ts = .ok (placeAck defaultFillPrice o (some d) ts) := by
  cases hplan : fillPlan o with
  | error reason => rw [placeAck_error hplan, place, hplan]
  | ok plan =>
    have hreports : fillReports o.clientOrderId (.finite d) ts plan =
        .ok (planFills o.clientOrderId d ts 1 plan) := by
      cases plan <;> rfl
    rw [place_eq hplan, h, placeAck_ok hplan, Bool.decide_and]
    show (fillReports o.clientOrderId (.finite d) ts plan).map _ = _
    rw [hreports]
    rfl

/-- Whatever the price, what the adapter returns is an ack of that model. -/
theorem place_ok {ack : PlaceAck} (h : place str defaultFillPrice source o ts = .ok ack) :
    ∃ sourced, ack = placeAck defaultFillPrice o sourced ts := by
  cases hplan : fillPlan o with
  | error reason =>
    rw [place, hplan] at h
    exact ⟨none, (Except.ok.inj h).symm.trans (placeAck_error hplan).symm⟩
  | ok plan =>
    cases hprice : price str defaultFillPrice source o with
    | error e =>
      rw [place_eq hplan, hprice] at h
      cases h
    | ok p =>
      cases p with
      | finite d =>
        rw [place_finite hprice] at h
        exact ⟨some d, (Except.ok.inj h).symm⟩
      | special x =>
        rw [place_eq hplan, hprice] at h
        cases plan with
        | nil =>
          refine ⟨none, (Except.ok.inj h).symm.trans ?_⟩
          rw [placeAck_ok hplan, Bool.decide_and]
          rfl
        | cons q qs => cases h

/-- Every fill is at that price. -/
theorem fill_priced {ack : PlaceAck} {f : FillReport}
    (h : place str defaultFillPrice source o ts = .ok ack) (hf : f ∈ ack.fills) :
    price str defaultFillPrice source o = .ok (.finite f.price) := by
  cases hplan : fillPlan o with
  | error reason =>
    rw [place, hplan] at h
    obtain rfl := Except.ok.inj h
    exact absurd hf List.not_mem_nil
  | ok plan =>
    cases hprice : price str defaultFillPrice source o with
    | error e =>
      rw [place_eq hplan, hprice] at h
      cases h
    | ok p =>
      cases p with
      | finite d =>
        rw [place_finite hprice, placeAck_ok hplan] at h
        obtain rfl := Except.ok.inj h
        rw [planFills_price hf]
        rfl
      | special x =>
        rw [place_eq hplan, hprice] at h
        cases plan with
        | nil =>
          obtain rfl := Except.ok.inj h
          exact absurd hf List.not_mem_nil
        | cons q qs => cases h

/-- The order declares a fill. -/
def DeclaresFill (o : NormalizedOrder) : Prop := ¬ Refused o ∧ ¬ Declares o []

/-- Without one no fill is made. -/
theorem no_fill {ack : PlaceAck} (hno : ¬ DeclaresFill o)
    (h : place str defaultFillPrice source o ts = .ok ack) : ack.fills = [] := by
  rcases fillPlan_spec o with ⟨-, reason, hplan⟩ | ⟨hok, plan, hdecl, hplan⟩
  · rw [place, hplan] at h
    obtain rfl := Except.ok.inj h
    rfl
  · have hnil : Declares o [] := by
      by_contra hfill
      exact hno ⟨hok, hfill⟩
    obtain rfl : plan = [] := List.map_eq_nil_iff.mp (hdecl.unique hnil)
    rw [place_eq hplan] at h
    cases hprice : price str defaultFillPrice source o with
    | error e =>
      rw [hprice] at h
      cases h
    | ok p =>
      rw [hprice] at h
      obtain rfl := Except.ok.inj h
      rfl

/-- With one a placement that finds a price makes a fill at it. -/
theorem some_fill (ts : Time) (hfill : DeclaresFill o)
    (h : price str defaultFillPrice source o = .ok (.finite d)) :
    ∃ ack, place str defaultFillPrice source o ts = .ok ack ∧ ∃ f ∈ ack.fills, f.price = d := by
  rcases fillPlan_spec o with ⟨hrefused, -⟩ | ⟨-, plan, hdecl, hplan⟩
  · exact absurd hrefused hfill.1
  · refine ⟨_, place_finite h, ?_⟩
    rw [placeAck_ok hplan]
    cases plan with
    | nil => exact absurd hdecl hfill.2
    | cons q qs => exact ⟨_, List.mem_cons_self, rfl⟩

/-! ## When every fill is fair -/

/-- A quote is positive, unless a seller's limit stands in for it; without a quote the stop price of
    a STOP order is within its limit, and the default is positive where an order has no price. -/
structure FairlyPriced (str : Json → String) (defaultFillPrice : Decimal)
    (source : Option Pricer) (o : NormalizedOrder) : Prop where
  quoted : ∀ c, quote str source o = .ok (some (.finite c)) →
    c.isPos = true ∨ (o.side = .sell ∧ o.price.isSome = true)
  stop : quote str source o = .ok none → o.orderType = .stop →
    ∀ limit stop, o.price = some limit → o.stopPrice = some stop →
      Within o.side (some limit.value) stop.value
  default : quote str source o = .ok none → o.price = none → o.stopPrice = none →
    defaultFillPrice.isPos = true

theorem price_isSome (h : o.orderType ∈ pricedTypes) : o.price.isSome = true := o.isValid.price h

theorem stopPrice_isSome (h : o.orderType ∈ stopTypes) : o.stopPrice.isSome = true :=
  o.isValid.stopPrice h

theorem fair_unlimited (hprice : o.price = none) (hpos : d.isPos = true) : Fair o d := by
  refine ⟨Decimal.isPos_iff.mp hpos, ?_⟩
  rw [hprice]
  exact within_none

/-- The reference price of a STOP order is its stop price. -/
theorem reference_stop {stop : Decimal} (ht : o.orderType = .stop) (h : o.stopPrice = some stop) :
    referencePrice defaultFillPrice o = stop := by
  simp [referencePrice, ht, h]

/-- That of any other order is its limit, where it has one. -/
theorem reference_limit {limit : Decimal} (ht : o.orderType ≠ .stop) (h : o.price = some limit) :
    referencePrice defaultFillPrice o = limit := by
  simp [referencePrice, ht, h]

theorem reference_stopPrice {stop : Decimal} (hprice : o.price = none)
    (h : o.stopPrice = some stop) : referencePrice defaultFillPrice o = stop := by
  have hunpriced : o.orderType ∉ pricedTypes := by
    intro ht
    have hsome := price_isSome ht
    rw [hprice] at hsome
    cases hsome
  have ht : o.orderType ∉ [OrderType.limit, .stopLimit] := hunpriced
  rw [referencePrice, if_neg ht, hprice, h, Option.none_or, ite_self, Option.getD_some]

theorem reference_default (hprice : o.price = none) (hstop : o.stopPrice = none) :
    referencePrice defaultFillPrice o = defaultFillPrice := by
  rw [referencePrice, hprice, hstop, Option.none_or, ite_self, ite_self, Option.getD_none]

theorem reference_fair_iff : Fair o (referencePrice defaultFillPrice o) ↔
    (o.orderType = .stop → ∀ limit stop, o.price = some limit → o.stopPrice = some stop →
      Within o.side (some limit.value) stop.value) ∧
    (o.price = none → o.stopPrice = none → defaultFillPrice.isPos = true) := by
  cases hprice : o.price with
  | none =>
    cases hstop : o.stopPrice with
    | none =>
      rw [reference_default hprice hstop]
      constructor
      · intro h
        refine ⟨fun _ _ _ hno => ?_, fun _ _ => Decimal.isPos_iff.mpr h.1⟩
        cases hno
      · exact fun h => fair_unlimited hprice (h.2 rfl rfl)
    | some stop =>
      rw [reference_stopPrice hprice hstop]
      refine iff_of_true (fair_unlimited hprice (o.stopPrice_pos hstop)) ⟨?_, ?_⟩
      · intro _ _ _ hno
        cases hno
      · intro _ hno
        cases hno
  | some limit =>
    by_cases ht : o.orderType = .stop
    · obtain ⟨stop, hstop⟩ := Option.isSome_iff_exists.mp
        (stopPrice_isSome (o := o) (by rw [ht]; decide))
      rw [reference_stop ht hstop, hstop]
      constructor
      · intro h
        refine ⟨fun _ _ _ hl hs => ?_, fun hno => ?_⟩
        · obtain rfl := Option.some.inj hl
          obtain rfl := Option.some.inj hs
          have hwithin := h.2
          rw [hprice] at hwithin
          exact hwithin
        · cases hno
      · intro h
        refine ⟨Decimal.isPos_iff.mp (o.stopPrice_pos hstop), ?_⟩
        rw [hprice]
        exact h.1 ht limit stop rfl rfl
    · rw [reference_limit ht hprice]
      refine iff_of_true (fair_price hprice) ⟨fun hno => absurd hno ht, fun hno => ?_⟩
      cases hno

/-- Without a quote the price is the reference price. -/
theorem price_unquoted (h : quote str source o = .ok none) :
    price str defaultFillPrice source o =
      .ok (.finite (referencePrice defaultFillPrice o)) := by
  rw [price, sourcedPrice_eq, h]
  rfl

/-- With one it is the quote, clamped. -/
theorem price_quoted {p : AnyDecimal} (h : quote str source o = .ok (some p)) :
    price str defaultFillPrice source o = boundByLimit p o := by
  rw [price, sourcedPrice_eq, h]
  show ((boundByLimit p o).map some).map _ = boundByLimit p o
  cases boundByLimit p o <;> rfl

/-- What is neither a finite quote nor the lack of one is not fair or unfair. -/
theorem fairlyPriced_of_quote (hsome : ∀ c, quote str source o ≠ .ok (some (.finite c)))
    (hnone : quote str source o ≠ .ok none) : FairlyPriced str defaultFillPrice source o :=
  ⟨fun c hc => absurd hc (hsome c), fun hno => absurd hno hnone, fun hno => absurd hno hnone⟩

theorem finite_or_fairlyPriced (str : Json → String) (defaultFillPrice : Decimal)
    (source : Option Pricer) (o : NormalizedOrder) :
    (∃ d, price str defaultFillPrice source o = .ok (.finite d)) ∨
      FairlyPriced str defaultFillPrice source o := by
  cases hquote : quote str source o with
  | error e =>
    refine .inr (fairlyPriced_of_quote (fun c hc => ?_) fun hno => ?_)
    · rw [hquote] at hc
      cases hc
    · rw [hquote] at hno
      cases hno
  | ok q =>
    cases q with
    | none => exact .inl ⟨_, price_unquoted hquote⟩
    | some p =>
      cases p with
      | finite c =>
        obtain ⟨d, hd, -⟩ := boundByLimit_finite c o
        exact .inl ⟨d, (price_quoted hquote).trans hd⟩
      | special x =>
        refine .inr (fairlyPriced_of_quote (fun c hc => ?_) fun hno => ?_)
        · rw [hquote] at hc
          cases hc
        · rw [hquote] at hno
          cases hno

theorem fair_iff (hprice : price str defaultFillPrice source o = .ok (.finite d)) :
    Fair o d ↔ FairlyPriced str defaultFillPrice source o := by
  cases hquote : quote str source o with
  | error e =>
    rw [price, sourcedPrice_eq, hquote] at hprice
    cases hprice
  | ok q =>
    cases q with
    | none =>
      rw [price_unquoted hquote] at hprice
      obtain rfl := AnyDecimal.finite.inj (Except.ok.inj hprice)
      rw [reference_fair_iff]
      constructor
      · intro h
        refine ⟨fun c hc => ?_, fun _ => h.1, fun _ => h.2⟩
        rw [hquote] at hc
        cases hc
      · exact fun h => ⟨h.stop hquote, h.default hquote⟩
    | some p =>
      rw [price_quoted hquote] at hprice
      have hquoted : quote str source o ≠ .ok none := by
        intro hno
        rw [hquote] at hno
        cases hno
      cases p with
      | finite c =>
        obtain ⟨d', hd', hvalue⟩ := boundByLimit_finite c o
        obtain rfl := AnyDecimal.finite.inj (Except.ok.inj (hprice.symm.trans hd'))
        rw [fair_clamped_iff hvalue]
        constructor
        · intro h
          refine ⟨fun c' hc' => ?_, fun hno => absurd hno hquoted, fun hno => absurd hno hquoted⟩
          have hsame := Option.some.inj (Except.ok.inj (hquote.symm.trans hc'))
          exact AnyDecimal.finite.inj hsame ▸ h
        · exact fun h => h.quoted c hquote
      | special x =>
        refine iff_of_true (fair_price (boundByLimit_special hprice))
          (fairlyPriced_of_quote (fun c hc => ?_) hquoted)
        rw [hquote] at hc
        cases hc

/-- Every fill is positive and within the order's limit exactly if the order declares no fill, or is
    fairly priced. -/
theorem fills_fair_iff (str : Json → String) (defaultFillPrice : Decimal)
    (source : Option Pricer) (o : NormalizedOrder) (ts : Time) :
    (∀ ack, place str defaultFillPrice source o ts = .ok ack → ∀ f ∈ ack.fills,
      f.price.isPos = true ∧ ∀ limit, o.price = some limit →
        (o.side = .buy → f.price.value ≤ limit.value) ∧
        (o.side = .sell → limit.value ≤ f.price.value)) ↔
    ¬ DeclaresFill o ∨ FairlyPriced str defaultFillPrice source o := by
  have hfair (p : Decimal) : (p.isPos = true ∧ ∀ limit, o.price = some limit →
      (o.side = .buy → p.value ≤ limit.value) ∧ (o.side = .sell → limit.value ≤ p.value)) ↔
      Fair o p := by
    rw [Fair, Decimal.isPos_iff, Within]
    refine and_congr_right fun _ => ?_
    cases o.price with
    | none => simp
    | some limit => simp
  simp only [hfair]
  constructor
  · intro h
    by_cases hfill : DeclaresFill o
    · right
      rcases finite_or_fairlyPriced str defaultFillPrice source o with ⟨d, hprice⟩ | hpriced
      · obtain ⟨ack, hack, f, hf, rfl⟩ := some_fill ts hfill hprice
        exact (fair_iff hprice).mp (h ack hack f hf)
      · exact hpriced
    · exact .inl hfill
  · intro h ack hack f hf
    rcases h with hno | hpriced
    · rw [no_fill hno hack] at hf
      exact absurd hf List.not_mem_nil
    · exact (fair_iff (fill_priced hack hf)).mpr hpriced

/-- Over a book that the feed emitted every order is fairly priced. -/
theorem fairlyPriced_of_book {byRoom : Int → Option (String × Market)} {receivedAt : Time}
    {payload : Dict} {book : OrderBook} {level : OrderBookLevel} {pricer : Pricer}
    (hemitted : BidOffer.handleFrame byRoom receivedAt payload = .ok (some book))
    (hbook : pricer.book = some book) (hlevel : pricer.level o = some level) :
    FairlyPriced str defaultFillPrice (some pricer) o := by
  have hquote : quote str (some pricer) o = .ok (some (.finite level.price)) := by
    unfold quote
    dsimp only
    rw [hlevel]
  have hmem : level ∈ book.bidLevels ++ book.askLevels := by
    rw [Pricer.level, hbook, Option.bind_some] at hlevel
    cases hside : o.side with
    | buy =>
      rw [hside] at hlevel
      exact List.mem_append_right _ (List.mem_of_mem_head? hlevel)
    | sell =>
      rw [hside] at hlevel
      exact List.mem_append_left _ (List.mem_of_mem_head? hlevel)
  refine ⟨fun c hc => .inl ?_, fun hno => ?_, fun hno => ?_⟩
  · obtain rfl := AnyDecimal.finite.inj (Option.some.inj (Except.ok.inj (hquote.symm.trans hc)))
    exact BidOffer.handleFrame_positive hemitted level hmem
  · rw [hquote] at hno
    cases hno
  · rw [hquote] at hno
    cases hno

end Placing

/-! ## A stop beyond its limit -/

/-- A buy stop at 12 that carries a price of 10. -/
def stopAboveLimit : NormalizedOrder :=
  ⟨{ sampleFields cidA .sim with
      orderType := .stop, price := some ⟨10, 0⟩, stopPrice := some ⟨12, 0⟩ }, by decide +kernel⟩

/-- Without a quote it is filled at its stop price, above its own limit. -/
theorem stop_filled_above_limit :
    ¬ ∀ (str : Json → String) (defaultFillPrice : Decimal) (source : Option Pricer)
      (o : NormalizedOrder) (ts : Time) ack, place str defaultFillPrice source o ts = .ok ack →
      ∀ f ∈ ack.fills, f.price.isPos = true ∧ ∀ limit, o.price = some limit →
        (o.side = .buy → f.price.value ≤ limit.value) ∧
        (o.side = .sell → limit.value ≤ f.price.value) := by
  intro h
  have hfill := h Json.pyStr ⟨100, 0⟩ none stopAboveLimit 0 _ rfl _ List.mem_cons_self
  have hbuy := (hfill.2 ⟨10, 0⟩ rfl).1 rfl
  rw [← Decimal.not_lt_iff] at hbuy
  exact absurd hbuy (by decide +kernel)

end SimAdapter

end ExecutionEngine
