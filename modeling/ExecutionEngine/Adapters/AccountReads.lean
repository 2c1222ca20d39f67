/-
  The reads of balance and holdings of an account, at both venues and through the router.

  The walks through the bodies, the field maps and what each refuses are the code's own. What
  `float` reads in a text and which characters are digits to `str` are parameters, and so is the
  venue: any answer to each read.
-/
import ExecutionEngine.Contracts.Numerals
import ExecutionEngine.Adapters.Envelopes
import ExecutionEngine.Core.Gates

namespace ExecutionEngine

/-! ## Records -/

/-- What a read of an account can end with. -/
inductive ReadError where
  | raised (e : Exn)
  /-- `StreamingProAccountUnavailable`. -/
  | accountUnavailable (message : String)
  /-- `StreamingProPositionsUncaptured`, with the number of rows. -/
  | positionsUncaptured (message : String) (rows : Nat)
  | python (e : PyError)
  deriving DecidableEq

structure Position where
  account : String
  market : Market
  symbol : String
  netQty : Int
  side : Option Side := none
  costAmount : Option Decimal := none
  avgPrice : Option Decimal := none
  marketPrice : Option Decimal := none
  marketValue : Option Decimal := none
  unrealizedPl : Option Decimal := none
  deriving DecidableEq

inductive AccountType where
  | cash | derivative | unknown
  deriving DecidableEq, Repr

/-- The margin block of an account. -/
structure Margin (α : Type) where
  equity : Option α := none
  excessEquity : Option α := none
  initialMargin : Option α := none
  maintenanceMargin : Option α := none
  deriving DecidableEq

/-- `_margin_block_belongs_to_derivatives` is a field. -/
structure AccountInfo where
  account : String
  accountType : AccountType := .unknown
  buyingPower : Decimal
  cashBalance : Option Decimal := none
  creditLimit : Option Decimal := none
  withdrawable : Option Decimal := none
  margin : Margin Decimal := {}
  margin_derivative : accountType ≠ .derivative → margin = {}
  deriving DecidableEq

/-- The reads of the two bridges that these readers make. -/
inductive VenueRead where
  /-- Liberator: `portfolio/get/` with the account. -/
  | portfolioGet (account : String)
  /-- Liberator: `profile`. -/
  | profile
  /-- Streaming Pro: `portfolio` and `tfex/portfolio`. -/
  | portfolio (account : String)
  | tfexPortfolio (account : String)
  /-- Streaming Pro: `account-info` and `tfex/account-info`. -/
  | accountInfo (account : String)
  | tfexAccountInfo (account : String)
  deriving DecidableEq

/-- `transport.get_json`: a decoded body, or `raised` for what it raises. -/
abbrev Venue := VenueRead → Except Exn Json

/-- `get_json` among the other exceptions of a read. -/
def Venue.getJson (venue : Venue) (r : VenueRead) : Except ReadError Json :=
  (venue r).mapError .raised

/-- pydantic takes finite decimals only. -/
def finite : Option AnyDecimal → Except ReadError (Option Decimal)
  | none => .ok none
  | some (.finite d) => .ok (some d)
  | some (.special _) => .error (.python .validationError)

def finiteRequired : AnyDecimal → Except ReadError Decimal
  | .finite d => .ok d
  | .special _ => .error (.python .validationError)

def Margin.finite (m : Margin AnyDecimal) : Except ReadError (Margin Decimal) := do
  return {
    equity := ← ExecutionEngine.finite m.equity
    excessEquity := ← ExecutionEngine.finite m.excessEquity
    initialMargin := ← ExecutionEngine.finite m.initialMargin
    maintenanceMargin := ← ExecutionEngine.finite m.maintenanceMargin }

/-- `AccountInfo(...)`. -/
def AccountInfo.build (account : String) (accountType : AccountType) (buyingPower : AnyDecimal)
    (cashBalance creditLimit withdrawable : Option AnyDecimal) (margin : Margin AnyDecimal) :
    Except ReadError AccountInfo := do
  let buyingPower ← finiteRequired buyingPower
  let cashBalance ← finite cashBalance
  let creditLimit ← finite creditLimit
  let withdrawable ← finite withdrawable
  let margin ← margin.finite
  if h : accountType ≠ .derivative → margin = {} then
    return {
      account, accountType, buyingPower, cashBalance, creditLimit, withdrawable, margin
      margin_derivative := h }
  else .error (.python .validationError)

def transportFailure (message : String) : ReadError := .raised (.transportError message)

/-- `isinstance(value, int | float | str)`, and no bool. -/
def Json.isNumeral : Json → Bool
  | .int _ | .num _ | .special _ | .str _ => true
  | _ => false

/-! ## Liberator -/

namespace Liberator

def accountNotFound (message : String) : ReadError :=
  .raised (.rejected .liberatorAccountNotFound message none)

/-- `_position_market`; `isdigit` is that of `str`. -/
def positionMarket (isdigit : Char → Bool) (account : String) : Except ReadError Market :=
  if account.length ≠ 8 || !account.toList.all isdigit then
    .error (accountNotFound ("liberator portfolio: " ++ reprText account ++
      " is not an 8-digit trading account (<investorId><suffix>); a bare investorId returns " ++
      "an empty result that is indistinguishable from a flat account"))
  else match account.toList.getLast? with
    | some '2' => .ok .set
    | some '7' => .ok .tfex
    | suffix => .error (accountNotFound ("liberator portfolio: account suffix " ++
        reprText (String.ofList suffix.toList) ++
        " is neither 2 (CASH BALANCE/SET) nor 7 (DERIVATIVE/TFEX)"))

/-- `_venue_decimal`. -/
def venueDecimal (value : Json) (field : String) : Except ReadError AnyDecimal :=
  if value.isNumeral then
    match value.toDecimal with
    | some d => .ok d
    | none => .error (.python .invalidOperation)
  else .error (transportFailure
    ("liberator profile: " ++ field ++ " is not a number (" ++ value.pyRepr ++ ")"))

/-- `_opt_decimal`. -/
def optDecimal (raw : Dict) (key : String) : Except ReadError (Option AnyDecimal) :=
  match Json.lookup raw key with
  | .null => .ok none
  | value => (venueDecimal value key).map some

/-- `raw.get("symbolDisplay") or raw.get("symbol")`. -/
def symbolRaw (raw : Dict) : Json :=
  if StreamingPro.truthy (Json.lookup raw "symbolDisplay") then Json.lookup raw "symbolDisplay"
  else Json.lookup raw "symbol"

def positionSymbol (raw : Dict) : Except ReadError String :=
  let missing : ReadError := transportFailure
    ("liberator portfolio: position row carries no symbol (" ++ (Json.obj raw).pyRepr ++ ")")
  match symbolRaw raw with
  | .str symbol => if symbol = "" then .error missing else .ok symbol
  | _ => .error missing

def positionQty (symbol : String) (raw : Dict) : Except ReadError Int :=
  match Json.lookup raw "actualVol" with
  | .int qty => .ok qty
  | qty => .error (transportFailure
      ("liberator portfolio: " ++ symbol ++ " actualVol is not an integer (" ++ qty.pyRepr ++ ")"))

/-- `_POSITION_SIDES`; a list or an object cannot be looked up in it. -/
def positionSide (symbol : String) (raw : Dict) : Except ReadError (Option Side) :=
  match Json.lookup raw "sideShow" with
  | .null => .ok none
  | .str "" => .ok none
  | .str "Long" => .ok (some .buy)
  | .str "Short" => .ok (some .sell)
  | .arr _ | .obj _ => .error (.python .typeError)
  | sideShow => .error (transportFailure
      ("liberator portfolio: unmapped sideShow " ++ sideShow.pyRepr ++ " for " ++ symbol ++
        " (known: ['', 'Long', 'Short'])"))

/-- `_position`. -/
def position (account : String) (market : Market) (raw : Dict) : Except ReadError Position := do
  let symbol ← positionSymbol raw
  let netQty ← positionQty symbol raw
  let side ← positionSide symbol raw
  let costAmount ← optDecimal raw "amount"
  let avgPrice ← optDecimal raw "avg"
  let marketPrice ← optDecimal raw "marketPrice"
  let marketValue ← optDecimal raw "marketVal"
  let unrealizedPl ← optDecimal raw "unrealizedPL"
  return {
    account, market, symbol, netQty, side
    costAmount := ← finite costAmount
    avgPrice := ← finite avgPrice
    marketPrice := ← finite marketPrice
    marketValue := ← finite marketValue
    unrealizedPl := ← finite unrealizedPl }

/-- `_venue_result` of a read. -/
def readResult (venue : Venue) (r : VenueRead) (what : String) : Except ReadError Dict := do
  let body ← venue.getJson r
  (venueResult body what).mapError .raised

/-- `LiberatorAdapter.get_positions`. -/
def getPositions (isdigit : Char → Bool) (venue : Venue) (account : String) :
    Except ReadError (List Position) := do
  let market ← positionMarket isdigit account
  let result ← readResult venue (.portfolioGet account) "portfolio"
  match Json.lookup result "stock" with
  | .null => .error (transportFailure
      "liberator portfolio: raw_response.result carried no stock array")
  | .arr rows => do
    let parsed ← (rows.filterMap Json.asDict).mapM (position account market)
    return parsed.filter fun p => p.netQty ≠ 0
  | stock => .error (transportFailure
      ("liberator portfolio: result.stock is " ++ stock.typeName ++ ", not a list"))

/-- `_ACCOUNT_TYPES`. -/
def accountTypeOf (raw : Dict) : AccountType :=
  let type := upper (Json.lookup raw "type").pyStr
  if type = "CASH BALANCE" then .cash else if type = "DERIVATIVE" then .derivative else .unknown

/-- The margin block, read on a derivative account only. -/
def marginOf (raw : Dict) : Except ReadError (Margin AnyDecimal) :=
  if accountTypeOf raw = .derivative then do
    return {
      equity := ← optDecimal raw "equity"
      excessEquity := ← optDecimal raw "excessEquity"
      initialMargin := ← optDecimal raw "totalMr"
      maintenanceMargin := ← optDecimal raw "totalMm" }
  else .ok {}

/-- `_account_info`. -/
def accountInfo (account : String) (raw : Dict) : Except ReadError AccountInfo := do
  let margin ← marginOf raw
  let buyingPower ← venueDecimal (Json.lookup raw "lineAvailable") "lineAvailable"
  let cashBalance ← optDecimal raw "cashBalance"
  let creditLimit ← optDecimal raw "creditLimit"
  let withdrawable ← optDecimal raw "withdrawAvailable"
  AccountInfo.build account (accountTypeOf raw) buyingPower cashBalance creditLimit withdrawable
    margin

/-- Is this the entry of the account? -/
def isEntry (account : String) (raw : Dict) : Bool :=
  match Json.lookup raw "accountNo" with
  | .str no => no = account
  | _ => false

/-- `LiberatorAdapter.get_account`. -/
def getAccount (venue : Venue) (account : String) : Except ReadError AccountInfo := do
  let result ← readResult venue .profile "profile"
  match Json.lookup result "accounts" with
  | .arr accounts =>
    match (accounts.filterMap Json.asDict).find? (isEntry account) with
    | some raw => accountInfo account raw
    | none => .error (accountNotFound ("account " ++ reprText account ++
        " is not on this login's profile (accounts are 8-digit <login><suffix>; a bare login is not an account)"))
  | _ => .error (transportFailure "liberator profile: result carried no accounts list")

end Liberator

/-! ## Streaming Pro -/

namespace StreamingPro

/-- `_opt_decimal`. -/
def optDecimal (body : Dict) (key : String) : Except ReadError (Option AnyDecimal) :=
  let raw := Json.lookup body key
  if raw.isNumeral then
    match raw.toDecimal with
    | some d => .ok (some d)
    | none => .error (.python .invalidOperation)
  else .ok none

/-- `_coerce_int`; `intOfFloat` is `int(float(text))`. -/
def coerceInt (intOfFloat : String → Except PyError Int) : Json → Except PyError (Option Int)
  | .int n => .ok (some n)
  | .num d => .ok (some d.floatToInt)
  | .special .nan => .ok none
  | .special _ => .error .overflowError
  | .str text =>
    match intOfFloat text with
    | .ok n => .ok (some n)
    | .error .typeError => .ok none
    | .error .valueError => .ok none
    | .error e => .error e
  | _ => .ok none

/-- `raw_row.get("currentVolume", raw_row.get("actualVolume"))`. -/
def volumeRaw (raw : Dict) : Json :=
  if raw.any fun f => f.1 = "currentVolume" then Json.lookup raw "currentVolume"
  else Json.lookup raw "actualVolume"

/-- One row of the loop of `get_positions`: its position, if it is one. -/
def positionOf (intOfFloat : String → Except PyError Int) (account : String) (raw : Dict) :
    Except ReadError (Option Position) := do
  let qty ← (coerceInt intOfFloat (volumeRaw raw)).mapError .python
  match Json.lookup raw "symbol", qty with
  | .str symbol, some netQty =>
    if netQty = 0 then return none
    else do
      let costAmount ← optDecimal raw "amount"
      let avgPrice ← optDecimal raw "averagePrice"
      let marketPrice ← optDecimal raw "marketPrice"
      let marketValue ← optDecimal raw "marketValue"
      return some {
        account, symbol, netQty
        market := .set
        costAmount := ← finite costAmount
        avgPrice := ← finite avgPrice
        marketPrice := ← finite marketPrice
        marketValue := ← finite marketValue }
  | _, _ => return none

/-- The holdings the derivatives front answers with, unless it refuses the account. -/
def tfexHoldings (body : Json) : Option Dict :=
  match body.asDict.bind fun fields => (Json.lookup fields "raw").asDict with
  | some raw => if raw.any fun f => f.1 = "code" then none else some raw
  | none => none

/-- `StreamingProAdapter.get_positions`. -/
def getPositions (intOfFloat : String → Except PyError Int) (venue : Venue) (account : String) :
    Except ReadError (List Position) := do
  let tfexBody ← venue.getJson (.tfexPortfolio account)
  match tfexHoldings tfexBody with
  | some raw =>
    match Json.lookup raw "portfolioList" with
    | .arr [] => return []
    | .arr rows => .error (.positionsUncaptured
        ("streaming_pro: TFEX positions exist but their element schema has never " ++
          "been observed — refusing rather than inventing field names") rows.length)
    | _ => .error (transportFailure
        "streaming_pro tfex/portfolio: raw carried no portfolioList array")
  | none => do
    let body ← venue.getJson (.portfolio account)
    match body.asDict.map fun fields => Json.lookup fields "positions" with
    | some (.arr rows) => do
      let parsed ← (rows.filterMap Json.asDict).mapM (positionOf intOfFloat account)
      return parsed.reduceOption
    | _ => .error (transportFailure
        "streaming_pro portfolio: response carried no positions array")

/-- A field of a body, if that is an object. -/
def bodyDecimal (body : Json) (key : String) : Except ReadError (Option AnyDecimal) :=
  match body.asDict with
  | some fields => optDecimal fields key
  | none => .ok none

def accountUnavailableMessage (account : String) : String :=
  "streaming_pro: " ++ reprText account ++ " is on neither front — the SET route carried no " ++
  "lineAvailable and the TFEX route carried no excessEquity. Both fronts answer " ++
  "HTTP 200 with a code/message body for an unknown account, so this is a " ++
  "REFUSAL, not a zero balance."

/-- The `AccountInfo` of the equity front. -/
def setInfo (account : String) (body : Json) (buyingPower : AnyDecimal) :
    Except ReadError AccountInfo := do
  let cashBalance ← bodyDecimal body "cashBalance"
  let creditLimit ← bodyDecimal body "creditLimit"
  AccountInfo.build account .cash buyingPower cashBalance creditLimit none {}

/-- The `AccountInfo` of the derivatives front. -/
def tfexInfo (account : String) (body : Json) (buyingPower : AnyDecimal) :
    Except ReadError AccountInfo := do
  let cashBalance ← bodyDecimal body "cashBalance"
  let creditLimit ← bodyDecimal body "creditLine"
  let equity ← bodyDecimal body "equity"
  let excessEquity ← bodyDecimal body "excessEquity"
  let initialMargin ← bodyDecimal body "totalMR"
  let maintenanceMargin ← bodyDecimal body "totalMM"
  AccountInfo.build account .derivative buyingPower cashBalance creditLimit none
    { equity, excessEquity, initialMargin, maintenanceMargin }

/-- `StreamingProAdapter.get_account`. -/
def getAccount (venue : Venue) (account : String) : Except ReadError AccountInfo := do
  let setBody ← venue.getJson (.accountInfo account)
  match ← bodyDecimal setBody "lineAvailable" with
  | some buyingPower => setInfo account setBody buyingPower
  | none => do
    let tfexBody ← venue.getJson (.tfexAccountInfo account)
    match ← bodyDecimal tfexBody "excessEquity" with
    | some buyingPower => tfexInfo account tfexBody buyingPower
    | none => .error (.accountUnavailable (accountUnavailableMessage account))

end StreamingPro

/-! ## The router -/

namespace Router

variable (R : Router)

/-- `get_positions`; the simulator holds nothing. -/
def getPositions (isdigit : Char → Bool) (intOfFloat : String → Except PyError Int)
    (venue : Venue) (b : Broker) (account : String) : Except ReadError (List Position) := do
  match ← (R.resolveAdapter b account .read).mapError .raised with
  | .sim => return []
  | .liberator => Liberator.getPositions isdigit venue account
  | .streamingPro => StreamingPro.getPositions intOfFloat venue account

/-- `get_account`; the balance of the simulator is made up. -/
def getAccount (venue : Venue) (b : Broker) (account : String) : Except ReadError AccountInfo := do
  match ← (R.resolveAdapter b account .read).mapError .raised with
  | .sim => return {
      account
      buyingPower := ⟨1000000000, 0⟩
      margin_derivative := fun _ => rfl }
  | .liberator => Liberator.getAccount venue account
  | .streamingPro => StreamingPro.getAccount venue account

end Router

end ExecutionEngine
