/-
  The Liberator read side: the venue row, its classification, and the reconciler's
  own choices. The venue book lists the current Bangkok day only, so this twin
  asks `absenceIsInformative` before it confirms a cancel on absence.
-/
import ExecutionEngine.Adapters.Reconcile

namespace ExecutionEngine.Liberator

/-- The `OrderItem` subset the reconciler and the reads consume; `matched` is cumulative. -/
structure VenueOrderItem where
  orderNo : String
  accountNo : String := ""
  symbol : String := ""
  side : String := ""
  position : Option String := none
  priceType : String := ""
  icebergVol : Int := 0
  volume : Int := 0
  price : Option Decimal := none
  matched : Int := 0
  balance : Int := 0
  cancelled : Int := 0
  amount : Option Decimal := none
  status : String := ""
  statusShow : String := ""
  rejectCode : String := ""
  validityType : String := ""
  stopPrice : Option Decimal := none
  entryTime : Option Stamp := none
  deriving DecidableEq, Repr

/-- `from_venue_side`. -/
def fromVenueSide (raw : String) : Option Side :=
  let token := upper (strip raw)
  if token ∈ ["B", "BUY", "LONG"] then some .buy
  else if token ∈ ["S", "SELL", "SHORT"] then some .sell
  else none

def cancelledStatus : List String := ["CANCELLED", "CANCELED", "CXL"]
def rejectedStatus : List String := ["REJECTED", "REJECT"]
def expiredStatus : List String := ["EXPIRED", "EXPIRE"]
def cancelledShow : List String := ["C", "X", "XC"]
def rejectedShow : List String := ["R"]
def terminalUnnamedShow : List String := ["XA"]

/-- `classify_venue_state`. -/
def classifyVenueState (item : VenueOrderItem) : VenueOrderState :=
  let status := upper (strip item.status)
  let shown := upper (strip item.statusShow)
  if (strip item.rejectCode).isEmpty = false then .rejected
  else if status ∈ cancelledStatus || shown ∈ cancelledShow then .cancelled
  else if status ∈ rejectedStatus || shown ∈ rejectedShow then .rejected
  else if shown ∈ terminalUnnamedShow then .cancelled
  else if status ∈ expiredStatus then .expired
  else if 0 < item.cancelled && item.balance = 0 && item.matched < item.volume then .cancelled
  else .resting

/-- The first non-empty of `reject_code`, `status_show`, `status`, behind the venue's name. -/
def rejectReason (item : VenueOrderItem) : String :=
  let word :=
    if item.rejectCode.isEmpty = false then item.rejectCode
    else if item.statusShow.isEmpty = false then item.statusShow
    else item.status
  strip ("liberator reject " ++ word)

/-- Is the fill price the cumulative average? -/
def averaged (item : VenueOrderItem) : Bool :=
  !item.price.any Decimal.isPos && item.amount.any Decimal.isPos && 0 < item.matched

/-- `fill_price_for`: venue price, else the cumulative average, else the local price. -/
def fillPriceFor (row : OrderRow) (item : VenueOrderItem) : Option Decimal :=
  if item.price.any Decimal.isPos then item.price
  else match item.amount with
    | some a =>
      if a.isPos && 0 < item.matched then some (a.quantizeDiv item.matched)
      else row.price.or row.stopPrice
    | none => row.price.or row.stopPrice

/-- The Bangkok calendar day (UTC+7), counted from the epoch. -/
def venueDay (t : Time) : Int := (t + Reconcile.seconds (7 * 3600)) / Reconcile.seconds 86400

/-- `absence_is_informative`: only within the venue's current day. -/
def absenceIsInformative (row : OrderRow) (now : Time) : Bool :=
  venueDay row.createdAt = venueDay now

instance : VenueItem VenueOrderItem where
  orderNo := VenueOrderItem.orderNo
  symbol := VenueOrderItem.symbol
  rawSide := VenueOrderItem.side
  fromVenueSide := fromVenueSide
  volume := VenueOrderItem.volume
  price := VenueOrderItem.price
  matched := VenueOrderItem.matched
  entryTime := VenueOrderItem.entryTime
  classifyVenueState := classifyVenueState
  rejectReason := rejectReason
  fillPriceFor := fillPriceFor
  averaged := averaged
  absenceConfirms := absenceIsInformative

/-- `fuzzy_match`. -/
def fuzzyMatch (row : OrderRow) (items : List VenueOrderItem) (claimed : List String) :
    Except Exn (Reconcile.MatchOutcome VenueOrderItem) :=
  Reconcile.fuzzyMatch row items claimed

/-- `plan_actions`. -/
def planActions (row : OrderRow) (filledQty : Int) (item : Option VenueOrderItem) (now : Time)
    (ambiguous : Bool) : List Reconcile.ReconcileAction :=
  Reconcile.planActions row filledQty item now ambiguous

end ExecutionEngine.Liberator
