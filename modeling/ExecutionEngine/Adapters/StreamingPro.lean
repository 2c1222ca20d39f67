/-
  The Streaming Pro read side. It classifies by substring of the two status
  fields, knows no `amount`, and confirms a cancel on absence at any time: the
  day scope of this venue's book is unknown, and the guard of the Liberator twin
  is left out on purpose.
-/
import ExecutionEngine.Adapters.Reconcile

namespace ExecutionEngine.StreamingPro

/-- The order-row subset the reconciler and the reads consume; `matched` is cumulative. -/
structure VenueOrderRow where
  orderNo : String
  accountNo : String := ""
  extOrderNo : String := ""
  orderNoFis : String := ""
  symbol : String := ""
  side : String := ""
  position : Option String := none
  priceType : String := ""
  price : Option Decimal := none
  status : String := ""
  rejectReason : String := ""
  validityType : String := ""
  volume : Int := 0
  matched : Int := 0
  balance : Int := 0
  cancelled : Int := 0
  statusShow : String := ""
  entryTime : Option Stamp := none
  deriving DecidableEq, Repr

/-- `from_venue_side`, through `_READ_SIDES`. -/
def fromVenueSide (raw : String) : Option Side :=
  let token := upper (strip raw)
  if token ∈ ["B", "BUY", "LONG"] then some .buy
  else if token ∈ ["S", "SELL", "SHORT"] then some .sell
  else none

def cancelledStatus : List String := ["CANCELLED", "CANCELED", "CXL"]
def rejectedStatus : List String := ["REJECTED", "REJECT"]
def expiredStatus : List String := ["EXPIRED", "EXPIRE"]

/-- `token in text`. -/
def occursIn (token text : String) : Bool :=
  text.toList.tails.any fun t => token.toList.isPrefixOf t

/-- `classify_venue_state`. -/
def classifyVenueState (row : VenueOrderRow) : VenueOrderState :=
  let blob := upper (row.status ++ " " ++ row.statusShow)
  if (strip row.rejectReason).isEmpty = false then .rejected
  else if cancelledStatus.any fun t => occursIn t blob then .cancelled
  else if rejectedStatus.any fun t => occursIn t blob then .rejected
  else if expiredStatus.any fun t => occursIn t blob then .expired
  else if 0 < row.cancelled && row.balance = 0 && row.matched < row.volume then .cancelled
  else .resting

/-- The first non-empty of `reject_reason`, `status_show`, `status`, behind the venue's name. -/
def rejectReason (row : VenueOrderRow) : String :=
  let word :=
    if row.rejectReason.isEmpty = false then row.rejectReason
    else if row.statusShow.isEmpty = false then row.statusShow
    else row.status
  strip ("streaming_pro reject " ++ word)

/-- `fill_price_for`: venue price, else the local price. -/
def fillPriceFor (row : OrderRow) (item : VenueOrderRow) : Option Decimal :=
  if item.price.any Decimal.isPos then item.price else row.price.or row.stopPrice

instance : VenueItem VenueOrderRow where
  orderNo := VenueOrderRow.orderNo
  symbol := VenueOrderRow.symbol
  rawSide := VenueOrderRow.side
  fromVenueSide := fromVenueSide
  volume := VenueOrderRow.volume
  price := VenueOrderRow.price
  matched := VenueOrderRow.matched
  entryTime := VenueOrderRow.entryTime
  classifyVenueState := classifyVenueState
  rejectReason := rejectReason
  fillPriceFor := fillPriceFor
  averaged _ := false
  absenceConfirms := fun _ _ => true

/-- `fuzzy_match`. -/
def fuzzyMatch (row : OrderRow) (items : List VenueOrderRow) (claimed : List String) :
    Except Exn (Reconcile.MatchOutcome VenueOrderRow) :=
  Reconcile.fuzzyMatch row items claimed

/-- `plan_actions`. -/
def planActions (row : OrderRow) (filledQty : Int) (item : Option VenueOrderRow) (now : Time)
    (ambiguous : Bool) : List Reconcile.ReconcileAction :=
  Reconcile.planActions row filledQty item now ambiguous

end ExecutionEngine.StreamingPro
