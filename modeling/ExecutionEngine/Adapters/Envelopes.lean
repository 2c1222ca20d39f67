/-
  The response bodies of the two bridges, down to the point where pydantic takes
  over.

  The walk through an envelope is the code's own and is modelled here. What
  `model_validate` makes of one row is the parameter `validate`, and nothing is
  assumed of it (`Adapters.ProRows` has the one of Streaming Pro).

  The two Liberator readers walk the same envelope. `venueResult` (balances,
  positions) refuses on the venue's own error text; `venueOrderRows` (the
  reconciler's book) never looks at it, and refuses only where there is no result
  object to read (`refusal_read_as_book`).
-/
import ExecutionEngine.Core.Effects

namespace ExecutionEngine

/-- A decoded JSON object. -/
abbrev Dict := List (String × Json)

/-- `x if isinstance(x, dict)`. -/
def Json.asDict : Json → Option Dict
  | .obj fields => some fields
  | _ => none

/-- `x if isinstance(x, list)`. -/
def Json.asList : Json → Option (List Json)
  | .arr items => some items
  | _ => none

/-- `[model_validate(row) for row in rows]`: the first row that fails raises. -/
def validateAll {ι : Type} (validate : Dict → Except Exn ι) (rows : List Dict) :
    Except Exn (List ι) :=
  rows.mapM validate

namespace Liberator

/-- `payload[key]["result"]`, if both levels are objects. -/
def resultUnder (payload : Dict) (key : String) : Option Dict :=
  (Json.lookup payload key).asDict.bind fun envelope => (Json.lookup envelope "result").asDict

def noResultMessage : String :=
  "liberator orders: no result object under 'raw_response' or 'data' — " ++
  "refusing to report this as an empty order book, because an empty book " ++
  "resolves live orders to REJECTED/CANCELLED (GH #208, [[TK-0428]])"

/-- `venue_order_rows`. -/
def venueOrderRows (payload : Dict) : Except Exn (List Dict) :=
  match (resultUnder payload "raw_response").or (resultUnder payload "data") with
  | none => .error (.transportError noResultMessage)
  | some result =>
    match Json.lookup result "list" with
    | .arr items => .ok (items.filterMap Json.asDict)
    | _ => .ok []

/-- `parse_order_items`. -/
def parseOrderItems (validate : Dict → Except Exn VenueOrderItem) (payload : Dict) :
    Except Exn (List VenueOrderItem) := do
  let rows ← venueOrderRows payload
  validateAll validate rows

/-- `_venue_result`. -/
def venueResult (body : Json) (what : String) : Except Exn Dict :=
  match body.asDict.bind fun fields => (Json.lookup fields "raw_response").asDict with
  | none => .error (.transportError ("liberator " ++ what ++ ": no raw_response in the envelope"))
  | some raw =>
    match Json.lookup raw "errMsg" with
    | .str err =>
      if err.isEmpty then resultOf raw
      else .error (.rejected .liberatorAccountNotFound ("liberator " ++ what ++ ": " ++ err) none)
    | _ => resultOf raw
where
  resultOf (raw : Dict) : Except Exn Dict :=
    match (Json.lookup raw "result").asDict with
    | none => .error (.transportError
        ("liberator " ++ what ++ ": raw_response carried no result object"))
    | some result => .ok result

/-! ## The place envelope -/

/-- The inner `data` envelope. -/
structure LiberatorData where
  errorCode : Option Int := none
  errMsg : Option String := none
  result : Option Json := none

/-- One upstream response. -/
structure LiberatorEnvelope where
  success : Bool := false
  message : Option String := none
  data : Option LiberatorData := none
  detail : Json := .null

namespace LiberatorEnvelope

/-- `errorCode == 0` and no `errMsg`. -/
def ok (envelope : LiberatorEnvelope) : Bool :=
  envelope.success && envelope.data.any fun data =>
    data.errorCode = some 0 && data.errMsg.all String.isEmpty

/-- `order_no`: `data.result.orderNo`. -/
def orderNo (envelope : LiberatorEnvelope) : Option String := do
  let data ← envelope.data
  let result ← data.result
  let fields ← result.asDict
  match Json.lookup fields "orderNo" with
  | .null => none
  | value => some value.pyStr

/-- The parts the inner envelope gives to a reject reason. -/
def dataParts (data : LiberatorData) : List String :=
  (match data.errorCode with
    | some 0 => []
    | none => []
    | some code => ["errorCode=" ++ toString code]) ++
  match data.errMsg with
    | some msg => if msg.isEmpty then [] else [msg]
    | none => []

/-- `reject_reason`: never empty. -/
def rejectReason (envelope : LiberatorEnvelope) : String :=
  let parts := match envelope.data with
    | some data => dataParts data
    | none => []
  let parts := if parts.isEmpty then
      match envelope.message with
      | some m => if m.isEmpty then [] else [m]
      | none => []
    else parts
  let parts := if parts.isEmpty then
      match envelope.detail with
      | .null => []
      | detail => [detail.pyStr]
    else parts
  if parts.isEmpty then "liberator rejected the request" else String.intercalate "; " parts

end LiberatorEnvelope

/-- What `place` makes of the response to a placement. -/
def placeAck (envelope : LiberatorEnvelope) : PlaceAck :=
  if envelope.ok then
    match envelope.orderNo with
    | none => {}
    | some no => { brokerOrderId := some no }
  else { rejected := true, rejectReason := some envelope.rejectReason }

end Liberator

namespace StreamingPro

/-- `_LIST_KEYS`. -/
def listKeys : List String := ["orders", "list", "results", "data", "portfolioList"]

/-- `next((payload[k] for k in _LIST_KEYS if isinstance(payload.get(k), list)), [])`. -/
def wrappedList (fields : Dict) : List Json :=
  (listKeys.findSome? fun k => (Json.lookup fields k).asList).getD []

/-- `parse_order_rows`. -/
def parseOrderRows (validate : Dict → Except Exn VenueOrderRow) (payload : Json) :
    Except Exn (List VenueOrderRow) :=
  let raw : Json := match payload with
    | .obj fields => .arr (wrappedList fields)
    | other => other
  match raw with
  | .arr items => validateAll validate (items.filterMap Json.asDict)
  | _ => .ok []

/-- One bridge place or cancel response. -/
structure BridgePlace where
  ok : Bool := false
  orderNo : Option String := none
  extOrderNo : Option String := none
  status : Option String := none
  reason : Option String := none
  detail : Json := .null

/-- `bool(x)` of a decoded value. -/
def truthy : Json → Bool
  | .null => false
  | .bool b => b
  | .int n => n ≠ 0
  | .num d => d.coeff ≠ 0
  | .special _ => true
  | .str s => !s.isEmpty
  | .arr items => !items.isEmpty
  | .obj fields => !fields.isEmpty

/-- `reject_reason`: the first of reason, detail and status that says something. -/
def BridgePlace.rejectReason (place : BridgePlace) : String :=
  let text : Option String → Json
    | some s => .str s
    | none => .null
  match [text place.reason, place.detail, text place.status].find? truthy with
  | some part => part.pyStr
  | none => "streaming_pro rejected the request"

/-- What `place` makes of the response to a placement. -/
def placeAck (place : BridgePlace) : PlaceAck :=
  if !place.ok || place.orderNo.isNone then
    { rejected := true, rejectReason := some place.rejectReason }
  else { brokerOrderId := place.orderNo }

end StreamingPro

/-! ## A refusal that is read as a book -/

namespace Liberator

/-- The venue's own error text, under `raw_response`. -/
def errMsgOf (payload : Dict) : Option String :=
  (Json.lookup payload "raw_response").asDict.bind fun raw =>
    match Json.lookup raw "errMsg" with
    | .str err => if err.isEmpty then none else some err
    | _ => none

/-- `venueResult` refuses an account exactly when there is such a text. -/
theorem venueResult_refuses_iff {payload : Dict} {what message : String} :
    venueResult (.obj payload) what =
        .error (.rejected .liberatorAccountNotFound message none) ↔
      ∃ err, errMsgOf payload = some err ∧ message = "liberator " ++ what ++ ": " ++ err := by
  have hresult (raw : Dict) : venueResult.resultOf what raw ≠
      .error (.rejected .liberatorAccountNotFound message none) := by
    unfold venueResult.resultOf
    split <;> simp
  have hdict : (Json.obj payload).asDict = some payload := rfl
  unfold venueResult errMsgOf
  rw [hdict, Option.bind_some]
  cases (Json.lookup payload "raw_response").asDict with
  | none => simp
  | some raw =>
    dsimp only [Option.bind_some]
    split
    · split
      · simp [hresult]
      · simp [eq_comm]
    · rename_i hstr
      simp [hresult]

theorem venueOrderRows_refuses_iff {payload : Dict} :
    (∃ er, venueOrderRows payload = .error er) ↔
      resultUnder payload "raw_response" = none ∧ resultUnder payload "data" = none := by
  unfold venueOrderRows
  rw [← Option.or_eq_none_iff]
  split
  · rename_i hnone
    simp [hnone]
  · rename_i result hsome
    simp only [hsome, reduceCtorEq, iff_false]
    split <;> simp

/-- Of a body that the account reader refuses, the order reader refuses exactly those that hold
    no result object; every other refusal is read as a book. -/
theorem refusal_read_as_book (validate : Dict → Except Exn VenueOrderItem) {payload : Dict}
    {what message : String}
    (h : venueResult (.obj payload) what =
      .error (.rejected .liberatorAccountNotFound message none)) :
    ((∃ er, venueOrderRows payload = .error er) ∧
        ∃ er, parseOrderItems validate payload = .error er) ↔
      ∃ raw, Json.lookup payload "raw_response" = .obj raw ∧
        (Json.lookup raw "result").asDict = none ∧ resultUnder payload "data" = none := by
  obtain ⟨err, herr, -⟩ := venueResult_refuses_iff.mp h
  have hparse : (∃ er, venueOrderRows payload = .error er) →
      ∃ er, parseOrderItems validate payload = .error er := by
    rintro ⟨er, her⟩
    exact ⟨er, by rw [parseOrderItems, her]; rfl⟩
  rw [and_iff_left_of_imp hparse, venueOrderRows_refuses_iff]
  cases hraw : Json.lookup payload "raw_response" with
  | obj raw => simp [resultUnder, hraw, Json.asDict]
  | _ => simp [errMsgOf, hraw, Json.asDict] at herr

/-- A refused account, as the bridge wraps it, with an empty result object. -/
def refusedBody : Dict :=
  [("success", .bool true),
   ("raw_response", .obj [("errMsg", .str "Account not found"), ("result", .obj [])])]

/-- The account reader refuses it; to the order reader it is an account with an empty book. -/
theorem refused_account_has_empty_book :
    venueResult (.obj refusedBody) "profile" = .error (.rejected .liberatorAccountNotFound
        "liberator profile: Account not found" none) ∧
      venueOrderRows refusedBody = .ok [] ∧
      ∀ validate, parseOrderItems validate refusedBody = .ok [] :=
  ⟨rfl, rfl, fun _ => rfl⟩

/-- Without the result object it is a refusal to both. -/
theorem bare_refusal_refused :
    ∃ er, venueOrderRows [("raw_response", .obj [("errMsg", .str "Account not found")])] =
      .error er := by
  have hrefused : venueResult
      (.obj [("raw_response", .obj [("errMsg", .str "Account not found")])]) "profile" =
      .error (.rejected .liberatorAccountNotFound "liberator profile: Account not found" none) := rfl
  exact ((refusal_read_as_book (fun _ => .error (.validationError "orderNo: Field required"))
    hrefused).mpr ⟨_, rfl, rfl, rfl⟩).1

end Liberator

end ExecutionEngine
