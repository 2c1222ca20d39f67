/-
  The write side of the two adapters: what `to_place_payload` sends.

  An order is written down three times: as the payload, as the stored row (prices
  rounded to `NUMERIC(18,6)`), and as the row of the venue's book that echoes the
  payload. `echo_recognised_iff` says when the lost-ack matcher, which compares the
  last two, still knows the order: when its price survived the column, and no other row
  of the book makes the matcher raise.
-/
import ExecutionEngine.Contracts.Value
import ExecutionEngine.Adapters.Twins

namespace ExecutionEngine

open Reconcile

/-! ## Liberator -/

namespace Liberator

/-- The `SETOrderRequest` body. -/
structure SetPayload where
  accountNo : String
  icebergVol : Int
  volume : Int
  symbol : String
  side : String
  pin : String
  price : String
  priceType : String
  validityType : String
  nvdr : Bool

/-- The `TFEXOrderRequest` body. -/
structure TfexPayload where
  accountNo : String
  icebergVol : Int
  volume : Int
  symbol : String
  side : String
  position : String
  pin : String
  price : String
  priceType : String
  validityType : String
  stopCondition : String
  stopSymbol : String
  stopPrice : String

inductive PlacePayload where
  | set (p : SetPayload)
  | tfex (p : TfexPayload)

/-- `_SET_SIDES` and `_TFEX_SIDES`. -/
def venueSide (side : Side) : Market → String
  | .set => match side with
    | .buy => "Buy"
    | .sell => "Sell"
  | .tfex => match side with
    | .buy => "Long"
    | .sell => "Short"

/-- `_SET_PRICE_TYPES` and `_TFEX_PRICE_TYPES`. -/
def priceTypes : Market → OrderType → Option String
  | .set, .limit => some "Limit"
  | .set, .market => some "Market"
  | .set, .mtl => some "MP"
  | .set, .ato => some "ATO"
  | .set, .atc => some "ATC"
  | .set, .iceberg => some "Limit"
  | .tfex, .limit => some "Limit"
  | .tfex, .market => some "Market"
  | .tfex, .stop => some "Stop"
  | .tfex, .stopLimit => some "Stop"
  | .tfex, .iceberg => some "Limit"
  | _, _ => none

/-- `venue_price_type`. -/
def venuePriceType (t : OrderType) (m : Market) : Except Exn String :=
  match priceTypes m t with
  | some mapped => .ok mapped
  | none => .error (.adapterError
      ("order_type " ++ t.value ++ " is not expressible on the Liberator " ++ m.value ++ " wire"))

/-- `_VALIDITY`. -/
def venueValidity : Tif → String
  | .day => "Day"
  | .gtc => "GTC"
  | .ioc => "IOC"
  | .fok => "FOK"

/-- `_POSITIONS`. -/
def positions : PositionEffect → String
  | .openPos => "Open"
  | .closePos => "Close"

/-- `_set_wire_price`: a price is needed, with two decimal places at most. -/
def setWirePrice (o : NormalizedOrder) : Except Exn String :=
  match o.price.or o.stopPrice with
  | none => .error (.adapterError ("liberator SET wire requires price > 0 even for market-family " ++
      "orders; supply an indicative price"))
  | some price =>
    if !price.numEq (price.quantize 2) then
      .error (.adapterError
        ("liberator SET wire allows at most 2 decimal places (got " ++ price.str ++ ")"))
    else .ok (price.quantize 2).formatF

/-- `_BRIDGE_REQUIRED_PIN_PLACEHOLDER`. -/
def bridgeRequiredPinPlaceholder : String := "0000000000"

/-- `to_set_payload`. -/
def toSetPayload (o : NormalizedOrder) : Except Exn SetPayload := do
  let price ← setWirePrice o
  let priceType ← venuePriceType o.orderType .set
  return {
    accountNo := o.account
    icebergVol := o.displayQty.getD 0
    volume := o.quantity
    symbol := o.symbol
    side := venueSide o.side .set
    pin := bridgeRequiredPinPlaceholder
    price := price
    priceType := priceType
    validityType := venueValidity o.tif
    nvdr := false }

/-- `to_tfex_payload`. -/
def toTfexPayload (o : NormalizedOrder) : Except Exn TfexPayload :=
  match o.positionEffect with
  | none => .error (.adapterError "TFEX orders require position_effect")
  | some position => do
    let price := o.price.getD Decimal.zero
    let isStop := o.orderType = .stop || o.orderType = .stopLimit
    let stopPrice := if isStop then o.stopPrice.getD Decimal.zero else Decimal.zero
    let priceType ← venuePriceType o.orderType .tfex
    return {
      accountNo := o.account
      icebergVol := o.displayQty.getD 0
      volume := o.quantity
      symbol := o.symbol
      side := venueSide o.side .tfex
      position := positions position
      pin := bridgeRequiredPinPlaceholder
      price := price.formatF
      priceType := priceType
      validityType := venueValidity o.tif
      stopCondition := ""
      stopSymbol := o.symbol
      stopPrice := stopPrice.formatF }

/-- `to_place_payload`. -/
def toPlacePayload (o : NormalizedOrder) : Except Exn PlacePayload :=
  match o.market with
  | .set => (toSetPayload o).map .set
  | .tfex => (toTfexPayload o).map .tfex

end Liberator

/-! ## Streaming Pro -/

namespace StreamingPro

/-- The `SetOrderRequest` body; the price key is left out of a price-less order. -/
structure SetPayload where
  symbol : String
  side : String
  volume : Int
  account : String
  priceType : String
  validity : String
  price : Option String

/-- The `TfexOrderRequest` body. -/
structure TfexPayload where
  symbol : String
  side : String
  position : String
  volume : Int
  account : String
  priceType : String
  validity : String
  price : Option String

inductive PlacePayload where
  | set (p : SetPayload)
  | tfex (p : TfexPayload)

/-- `_wire_price`. -/
def wirePrice (o : NormalizedOrder) : Option String := (o.price.or o.stopPrice).map Decimal.formatF

/-- `to_set_payload`. -/
def toSetPayload (o : NormalizedOrder) : SetPayload where
  symbol := o.symbol
  side := o.side.value
  volume := o.quantity
  account := o.account
  priceType := o.orderType.value
  validity := o.tif.value
  price := wirePrice o

/-- `to_tfex_payload`. -/
def toTfexPayload (o : NormalizedOrder) : Except Exn TfexPayload :=
  match o.positionEffect with
  | none => .error (.adapterError "TFEX orders require position_effect")
  | some position => .ok {
      symbol := o.symbol
      side := o.side.value
      position := position.value
      volume := o.quantity
      account := o.account
      priceType := o.orderType.value
      validity := o.tif.value
      price := wirePrice o }

/-- `to_place_payload`. -/
def toPlacePayload (o : NormalizedOrder) : Except Exn PlacePayload :=
  match o.market with
  | .set => .ok (.set (toSetPayload o))
  | .tfex => (toTfexPayload o).map .tfex

end StreamingPro

/-! ## The echo -/

/-- What a venue row can echo of a payload. -/
structure SentOrder where
  symbol : String
  volume : Int
  price : Option String

def Liberator.PlacePayload.sent : Liberator.PlacePayload → SentOrder
  | .set p => ⟨p.symbol, p.volume, some p.price⟩
  | .tfex p => ⟨p.symbol, p.volume, some p.price⟩

def StreamingPro.PlacePayload.sent : StreamingPro.PlacePayload → SentOrder
  | .set p => ⟨p.symbol, p.volume, p.price⟩
  | .tfex p => ⟨p.symbol, p.volume, p.price⟩

/-- The spellings of a side in the two venues' books. -/
def readSpellings : Side → List String
  | .buy => ["B", "Buy", "Long"]
  | .sell => ["S", "Sell", "Short"]

/-- The payload price as a number; 0 where none was sent. -/
def readBack (price : Option String) : Option Decimal :=
  match price with
  | some text => Decimal.parse text
  | none => some Decimal.zero

/-- A venue row that echoes a payload, entered within the window of `createdAt`. -/
structure Echoes {ι : Type} [VenueItem ι] (sent : SentOrder) (side : Side) (createdAt : Time)
    (item : ι) : Prop where
  symbol : VenueItem.symbol item = sent.symbol
  volume : VenueItem.volume item = sent.volume
  side : VenueItem.rawSide item ∈ readSpellings side
  price : ∃ p q, readBack sent.price = some p ∧ VenueItem.price item = some q ∧ q.numEq p = true
  entered : ∃ t, VenueItem.entryTime item = some (.aware t) ∧ |t - createdAt| ≤ fuzzyWindow

/-- The matcher answers on this book, and keeps the venue row. -/
def Recognised {ι : Type} (matchLoop : List ι → Except Exn (List ι)) (items : List ι) (item : ι) :
    Prop :=
  ∃ cs, matchLoop items = .ok cs ∧ item ∈ cs

/-- No unclaimed row of the book that agrees with the order in all but its time has one without an
    offset, from which the order's cannot be subtracted. -/
def Comparable {ι : Type} [VenueItem ι] (row : OrderRow) (claimed : List String) (items : List ι) :
    Prop :=
  ∀ x ∈ items, agreesButTime row claimed x = true → ∀ t, VenueItem.entryTime x ≠ some (.naive t)

section Echo

variable {ι : Type} [VenueItem ι] {row : OrderRow} {claimed : List String} {item : ι}

theorem comparable_iff {items : List ι} :
    Comparable row claimed items ↔ ∃ cs, candidates row claimed items = .ok cs := by
  cases h : candidates row claimed items with
  | ok cs =>
    refine iff_of_true (fun x hx hag t ht => ?_) ⟨cs, rfl⟩
    obtain ⟨er, her⟩ := candidates_error_iff.mpr ⟨x, hx, hag, t, ht⟩
    rw [h] at her
    cases her
  | error er =>
    obtain ⟨x, hx, hag, t, ht⟩ := candidates_error_iff.mp ⟨er, h⟩
    exact iff_of_false (fun hc => hc x hx hag t ht) fun ⟨_, hcs⟩ => nomatch hcs

theorem recognised_iff {items : List ι} (hmem : item ∈ items) :
    Recognised (candidates row claimed) items item ↔
      isCandidate row claimed item = true ∧ Comparable row claimed items := by
  rw [comparable_iff]
  constructor
  · rintro ⟨cs, hcs, hin⟩
    rw [candidates_ok hcs] at hin
    exact ⟨(List.mem_filter.mp hin).2, cs, hcs⟩
  · rintro ⟨hcand, cs, hcs⟩
    refine ⟨cs, hcs, ?_⟩
    rw [candidates_ok hcs]
    exact List.mem_filter.mpr ⟨hmem, hcand⟩

theorem priceMismatch_iff {q p : Decimal} (hq : q.isPos = true) (hp : p.isPos = true) :
    priceMismatch (some q) (some p) = false ↔ q.value = p.value := by
  rw [← Decimal.numEq_iff]
  simp [priceMismatch, hq, hp]

/-- A stored row satisfies the column CHECKs. -/
theorem columnChecks_of_insert {db : Db} {o : OrderFields} {sid : Option String} {t : Time}
    (h : (db.insertOrder o sid t).1 = .ok ()) : Db.columnChecks (Db.newRow o sid t) = true := by
  unfold Db.insertOrder at h
  dsimp only at h
  split at h
  · cases h
  · split at h
    · assumption
    · cases h

/-- An echo agrees with the stored order on everything but, perhaps, the price. -/
theorem echo_candidate_iff {o : NormalizedOrder} {sid : Option String} {t : Time}
    {sent : SentOrder}
    (hside : ∀ raw ∈ readSpellings o.side, VenueItem.fromVenueSide ι raw = some o.side)
    (hchecks : Db.columnChecks (Db.newRow o.toOrderFields sid t) = true)
    (hsent : sent.symbol = o.symbol ∧ sent.volume = o.quantity)
    (hprice : ∀ p, o.price = some p → ∃ q, readBack sent.price = some q ∧ q.value = p.value)
    (hecho : Echoes sent o.side t item) (hfree : VenueItem.orderNo item ∉ claimed) :
    isCandidate (Db.newRow o.toOrderFields sid t) claimed item = true ↔
      ∀ p, o.price = some p → Decimal.HasPlaces 6 p.value := by
  obtain ⟨s, hs, hwindow⟩ := hecho.entered
  have hcand : isCandidate (Db.newRow o.toOrderFields sid t) claimed item =
      !priceMismatch (VenueItem.price item) (o.price.map Decimal.numeric) := by
    simp [isCandidate, agreesButTime, hfree, hecho.symbol, hecho.volume, hsent,
      hside _ hecho.side, hs, Db.newRow, hwindow]
  rw [hcand, Bool.not_eq_true']
  cases hp : o.price with
  | none => simp [priceMismatch]
  | some p =>
    obtain ⟨q, hq, hval⟩ := hprice p hp
    obtain ⟨q', r, hq', hr, hrq⟩ := hecho.price
    obtain rfl := Option.some.inj (hq.symm.trans hq')
    have hvalue : r.value = p.value := (Decimal.numEq_iff.mp hrq).trans hval
    have hnumeric : p.numeric.isPos = true := by
      simp only [Db.columnChecks, Db.newRow, hp, Option.map_some, Option.all_some,
        Bool.and_eq_true] at hchecks
      exact hchecks.1.1.1
    have hpos : r.isPos = true := by
      rw [Decimal.isPos_iff, hvalue, ← Decimal.isPos_iff]
      exact o.price_pos hp
    rw [hr, Option.map_some, priceMismatch_iff hpos hnumeric, hvalue, eq_comm,
      Decimal.numeric_exact_iff]
    simp

end Echo

/-! ### Either adapter -/

/-- A price written and read back. -/
theorem readBack_formatF {p : Decimal} (h : 0 ≤ p.coeff) :
    ∃ q, readBack (some p.formatF) = some q ∧ q.value = p.value :=
  Decimal.parse_formatF h

theorem coeff_nonneg {p : Decimal} (h : p.isPos = true) : 0 ≤ p.coeff :=
  (of_decide_eq_true h).le

/-- A SET order is sent with its price, or else its stop price, of two places at most. -/
theorem Liberator.setWirePrice_ok {o : NormalizedOrder} {text : String}
    (h : Liberator.setWirePrice o = .ok text) :
    ∃ p q, o.price.or o.stopPrice = some p ∧ Decimal.HasPlaces 2 p.value ∧
      Decimal.parse text = some q ∧ q.value = p.value := by
  unfold Liberator.setWirePrice at h
  cases hp : o.price.or o.stopPrice with
  | none =>
    rw [hp] at h
    cases h
  | some p =>
    rw [hp] at h
    dsimp only at h
    split at h
    · cases h
    · rename_i heq
      have hval : p.value = (p.quantize 2).value := by
        rw [← Decimal.numEq_iff]
        simpa using heq
      have hpos : (p.quantize 2).isPos = true := by
        rw [Decimal.isPos_iff, ← hval, ← Decimal.isPos_iff]
        rcases Option.or_eq_some_iff.mp hp with hprice | ⟨-, hstop⟩
        · exact o.price_pos hprice
        · exact o.stopPrice_pos hstop
      obtain ⟨q, hq, hqv⟩ := Decimal.parse_formatF (coeff_nonneg hpos)
      refine ⟨p, q, rfl, hval ▸ Decimal.hasPlaces_quantize p 2, ?_, hqv.trans hval.symm⟩
      rw [← Except.ok.inj h]
      exact hq

theorem Liberator.toSetPayload_ok {o : NormalizedOrder} {payload : Liberator.SetPayload}
    (h : Liberator.toSetPayload o = .ok payload) :
    ∃ text name, Liberator.setWirePrice o = .ok text ∧
      Liberator.priceTypes .set o.orderType = some name ∧
      payload = {
        accountNo := o.account, icebergVol := o.displayQty.getD 0, volume := o.quantity
        symbol := o.symbol, side := Liberator.venueSide o.side .set
        pin := Liberator.bridgeRequiredPinPlaceholder, price := text, priceType := name
        validityType := Liberator.venueValidity o.tif, nvdr := false } := by
  unfold Liberator.toSetPayload Liberator.venuePriceType at h
  cases hw : Liberator.setWirePrice o with
  | error e =>
    rw [hw] at h
    cases h
  | ok text =>
    rw [hw] at h
    cases hn : Liberator.priceTypes .set o.orderType with
    | none =>
      rw [hn] at h
      cases h
    | some name =>
      rw [hn] at h
      exact ⟨text, name, rfl, rfl, (Except.ok.inj h).symm⟩

theorem Liberator.toTfexPayload_ok {o : NormalizedOrder} {payload : Liberator.TfexPayload}
    (h : Liberator.toTfexPayload o = .ok payload) :
    ∃ position name, o.positionEffect = some position ∧
      Liberator.priceTypes .tfex o.orderType = some name ∧
      payload = {
        accountNo := o.account, icebergVol := o.displayQty.getD 0, volume := o.quantity
        symbol := o.symbol, side := Liberator.venueSide o.side .tfex
        position := Liberator.positions position, pin := Liberator.bridgeRequiredPinPlaceholder
        price := (o.price.getD Decimal.zero).formatF, priceType := name
        validityType := Liberator.venueValidity o.tif, stopCondition := ""
        stopSymbol := o.symbol
        stopPrice := (if o.orderType = .stop || o.orderType = .stopLimit then
          o.stopPrice.getD Decimal.zero else Decimal.zero).formatF } := by
  unfold Liberator.toTfexPayload Liberator.venuePriceType at h
  cases hpos : o.positionEffect with
  | none =>
    rw [hpos] at h
    cases h
  | some position =>
    rw [hpos] at h
    cases hn : Liberator.priceTypes .tfex o.orderType with
    | none =>
      rw [hn] at h
      cases h
    | some name =>
      rw [hn] at h
      exact ⟨position, name, rfl, rfl, (Except.ok.inj h).symm⟩

/-- Each market has its own body. -/
theorem Liberator.toPlacePayload_ok {o : NormalizedOrder} {payload : Liberator.PlacePayload}
    (h : Liberator.toPlacePayload o = .ok payload) :
    (o.market = .set ∧ ∃ p, Liberator.toSetPayload o = .ok p ∧ payload = .set p) ∨
      o.market = .tfex ∧ ∃ p, Liberator.toTfexPayload o = .ok p ∧ payload = .tfex p := by
  unfold Liberator.toPlacePayload at h
  cases hm : o.market with
  | set =>
    rw [hm] at h
    cases hp : Liberator.toSetPayload o with
    | error e =>
      rw [hp] at h
      cases h
    | ok p =>
      rw [hp] at h
      exact .inl ⟨rfl, p, rfl, (Except.ok.inj h).symm⟩
  | tfex =>
    rw [hm] at h
    cases hp : Liberator.toTfexPayload o with
    | error e =>
      rw [hp] at h
      cases h
    | ok p =>
      rw [hp] at h
      exact .inr ⟨rfl, p, rfl, (Except.ok.inj h).symm⟩

/-- What an accepted order sends: its own symbol and quantity, and its own price as text. -/
structure SendsOrder (o : NormalizedOrder) (sent : SentOrder) : Prop where
  symbol : sent.symbol = o.symbol
  volume : sent.volume = o.quantity
  price : ∀ p, o.price = some p → ∃ q, readBack sent.price = some q ∧ q.value = p.value

theorem Liberator.toPlacePayload_sends {o : NormalizedOrder} {payload : Liberator.PlacePayload}
    (h : Liberator.toPlacePayload o = .ok payload) : SendsOrder o payload.sent := by
  rcases Liberator.toPlacePayload_ok h with ⟨-, p, hp, rfl⟩ | ⟨-, p, hp, rfl⟩
  · obtain ⟨text, name, hw, -, rfl⟩ := Liberator.toSetPayload_ok hp
    refine ⟨rfl, rfl, fun price hprice => ?_⟩
    obtain ⟨p, q, hsent, -, hq, hval⟩ := Liberator.setWirePrice_ok hw
    rw [hprice, Option.some_or] at hsent
    obtain rfl := Option.some.inj hsent
    exact ⟨q, hq, hval⟩
  · obtain ⟨position, name, -, -, rfl⟩ := Liberator.toTfexPayload_ok hp
    refine ⟨rfl, rfl, fun price hprice => ?_⟩
    have hsent : (o.price.getD Decimal.zero) = price := by rw [hprice]; rfl
    change ∃ q, readBack (some (o.price.getD Decimal.zero).formatF) = some q ∧ _
    rw [hsent]
    exact readBack_formatF (coeff_nonneg (o.price_pos hprice))

theorem StreamingPro.wirePrice_sends {o : NormalizedOrder} {p : Decimal} (hp : o.price = some p) :
    ∃ q, readBack (StreamingPro.wirePrice o) = some q ∧ q.value = p.value := by
  unfold StreamingPro.wirePrice
  rw [hp]
  exact readBack_formatF (coeff_nonneg (o.price_pos hp))

theorem StreamingPro.toPlacePayload_sends {o : NormalizedOrder}
    {payload : StreamingPro.PlacePayload} (h : StreamingPro.toPlacePayload o = .ok payload) :
    SendsOrder o payload.sent := by
  unfold StreamingPro.toPlacePayload at h
  split at h
  · obtain rfl := Except.ok.inj h
    exact ⟨rfl, rfl, fun _ hp => StreamingPro.wirePrice_sends hp⟩
  · unfold StreamingPro.toTfexPayload at h
    split at h
    · cases h
    · obtain rfl := Except.ok.inj h
      exact ⟨rfl, rfl, fun _ hp => StreamingPro.wirePrice_sends hp⟩

/-- Either venue's echo of an accepted and stored order is among the candidates of that order
    exactly if the order's price, where it has one, fits the six decimal places of the column, and
    the book holds no row on which the matcher raises. -/
theorem echo_recognised_iff {db : Db} {o : NormalizedOrder} {sid : Option String} {t : Time}
    (claimed : List String) (hstored : (db.insertOrder o.toOrderFields sid t).1 = .ok ()) :
    (∀ payload items item, Liberator.toPlacePayload o = .ok payload →
      Echoes payload.sent o.side t item → item ∈ items → item.orderNo ∉ claimed →
      (Recognised (Liberator.Reconciler.matchLoop (Db.newRow o.toOrderFields sid t) claimed)
          items item ↔
        (∀ p, o.price = some p → Decimal.HasPlaces 6 p.value) ∧
          Comparable (Db.newRow o.toOrderFields sid t) claimed items)) ∧
    ∀ payload items item, StreamingPro.toPlacePayload o = .ok payload →
      Echoes payload.sent o.side t item → item ∈ items → item.orderNo ∉ claimed →
      (Recognised (StreamingPro.Reconciler.matchLoop (Db.newRow o.toOrderFields sid t) claimed)
          items item ↔
        (∀ p, o.price = some p → Decimal.HasPlaces 6 p.value) ∧
          Comparable (Db.newRow o.toOrderFields sid t) claimed items) := by
  have hchecks := columnChecks_of_insert hstored
  constructor
  · intro payload items item hpayload hecho hmem hfree
    have hsent := Liberator.toPlacePayload_sends hpayload
    rw [funext (Liberator.Reconciler.matchLoop_eq _ claimed), recognised_iff hmem]
    refine and_congr_left' (echo_candidate_iff ?_ hchecks ⟨hsent.symbol, hsent.volume⟩ hsent.price
      hecho hfree)
    cases o.side <;> decide
  · intro payload items item hpayload hecho hmem hfree
    have hsent := StreamingPro.toPlacePayload_sends hpayload
    rw [funext (StreamingPro.Reconciler.matchLoop_eq _ claimed), recognised_iff hmem]
    refine and_congr_left' (echo_candidate_iff ?_ hchecks ⟨hsent.symbol, hsent.volume⟩ hsent.price
      hecho hfree)
    cases o.side <;> decide

/-! ### Two prices -/

/-- A Streaming Pro limit order for 100 at the given price. -/
def limitFields (price : Decimal) : OrderFields where
  clientOrderId := "aaaaaaaa-0000-4000-8000-00000000000a"
  broker := .streamingPro
  account := "12345672"
  market := .set
  symbol := "PTT"
  side := .buy
  orderType := .limit
  price := some price
  quantity := 100
  tif := .day

/-- At 10.5, which every venue quotes. -/
def tickOrder : NormalizedOrder := ⟨limitFields ⟨105, -1⟩, by decide +kernel⟩

/-- At 10.0000005, which the column rounds to 10.000001. -/
def fineOrder : NormalizedOrder := ⟨limitFields ⟨100000005, -7⟩, by decide +kernel⟩

/-- The venue row of such an order, entered at 0. -/
def limitEcho (price : Decimal) : StreamingPro.VenueOrderRow where
  orderNo := "V1"
  symbol := "PTT"
  side := "Buy"
  volume := 100
  price := some price
  balance := 100
  entryTime := some (.aware 0)

/-- In a book with a row of another order, which came without an offset. -/
theorem tick_recognised :
    Recognised (StreamingPro.Reconciler.matchLoop (Db.newRow tickOrder.toOrderFields none 0) [])
      [{ limitEcho ⟨105, -1⟩ with orderNo := "V2", volume := 200, entryTime := some (.naive 0) },
        limitEcho ⟨105, -1⟩] (limitEcho ⟨105, -1⟩) := by
  have hpayload : StreamingPro.toPlacePayload tickOrder =
      .ok (.set (StreamingPro.toSetPayload tickOrder)) := rfl
  have hecho : Echoes (StreamingPro.PlacePayload.set (StreamingPro.toSetPayload tickOrder)).sent
      tickOrder.side 0 (limitEcho ⟨105, -1⟩) :=
    ⟨rfl, rfl, by decide, ⟨⟨105, -1⟩, ⟨105, -1⟩, by decide, rfl, by decide⟩, 0, rfl, by decide⟩
  have hstored : (Db.empty.insertOrder tickOrder.toOrderFields none 0).1 = .ok () := rfl
  refine ((echo_recognised_iff [] hstored).2 _ _ _ hpayload hecho (by simp) (by decide)).mpr
    ⟨fun p hp => ?_, fun x hx hag t ht => ?_⟩
  · obtain rfl := Option.some.inj hp
    exact (Decimal.hasPlaces_of_exp rfl : Decimal.HasPlaces 1 (Decimal.value ⟨105, -1⟩)).mono
      (by decide)
  · rcases List.mem_cons.mp hx with rfl | hx
    · exact absurd hag (by decide)
    · obtain rfl := List.mem_singleton.mp hx
      cases ht

/-- The echo of the finer price is no candidate, and after a minute the order, which the venue
    lists, is planned to be rejected as lost. -/
theorem fine_price_unrecognised :
    StreamingPro.toPlacePayload fineOrder = .ok (.set (StreamingPro.toSetPayload fineOrder)) ∧
    (Db.empty.insertOrder fineOrder.toOrderFields none 0).1 = .ok () ∧
    Echoes (StreamingPro.PlacePayload.set (StreamingPro.toSetPayload fineOrder)).sent
      fineOrder.side 0 (limitEcho ⟨100000005, -7⟩) ∧
    StreamingPro.Reconciler.matchLoop (Db.newRow fineOrder.toOrderFields none 0) []
      [limitEcho ⟨100000005, -7⟩] = .ok [] ∧
    StreamingPro.Reconciler.planActions (Db.newRow fineOrder.toOrderFields none 0) 0 none
      (seconds 61) false = [.reject "aaaaaaaa-0000-4000-8000-00000000000a" "ack_lost_unmatched"] :=
  ⟨rfl, rfl, ⟨rfl, rfl, by decide,
    ⟨⟨100000005, -7⟩, ⟨100000005, -7⟩, by decide, rfl, by decide⟩, 0, rfl, by decide⟩,
    by decide, by decide⟩

end ExecutionEngine
