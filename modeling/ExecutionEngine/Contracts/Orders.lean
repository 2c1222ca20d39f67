/-
  `NormalizedOrder`, the one order language, and the capability matrix.

  A `NormalizedOrder` cannot exist unless it passes its validators
  (`OrderFields.check`, the source's own rules in the source's order), so the
  proof travels with the value. `NormalizedOrder.build` is the constructor the
  code calls; it raises on anything else. `metadata` is the simulator's control
  channel and is JSON.
-/
import ExecutionEngine.Contracts.Text
import ExecutionEngine.Contracts.Enums
import ExecutionEngine.Contracts.Errors

namespace ExecutionEngine

/-! ## JSON values -/

/-- The numbers that Python's JSON reader takes beside the finite ones. -/
inductive NonFinite where
  | nan | inf | negInf
  deriving DecidableEq, Repr

/-- A decoded JSON value; `num` is a number written with a fraction or exponent, and `special` is
    `NaN` or an infinity. -/
inductive Json where
  | null
  | bool (b : Bool)
  | int (n : Int)
  | num (d : Decimal)
  | special (x : NonFinite)
  | str (s : String)
  | arr (items : List Json)
  | obj (fields : List (String × Json))

/-- `dict.get(key)`, with an absent key read as null. -/
def Json.lookup (fields : List (String × Json)) (key : String) : Json :=
  match fields.find? fun f => f.1 = key with
  | some f => f.2
  | none => .null

/-- `str(x)`. -/
def NonFinite.pyStr : NonFinite → String
  | .nan => "nan"
  | .inf => "inf"
  | .negInf => "-inf"

mutual

/-- `repr(v)`. -/
def Json.pyRepr : Json → String
  | .null => "None"
  | .bool true => "True"
  | .bool false => "False"
  | .int n => toString n
  | .num d => d.floatStr
  | .special x => x.pyStr
  | .str s => reprText s
  | .arr items => "[" ++ String.intercalate ", " (reprItems items) ++ "]"
  | .obj fields => "\x7b" ++ String.intercalate ", " (reprFields fields) ++ "\x7d"

def Json.reprItems : List Json → List String
  | [] => []
  | v :: items => v.pyRepr :: reprItems items

def Json.reprFields : List (String × Json) → List String
  | [] => []
  | (key, v) :: fields => (reprText key ++ ": " ++ v.pyRepr) :: reprFields fields

end

/-- `str(v)`. -/
def Json.pyStr : Json → String
  | .str s => s
  | v => v.pyRepr

/-- `type(v).__name__`. -/
def Json.typeName : Json → String
  | .null => "NoneType"
  | .bool _ => "bool"
  | .int _ => "int"
  | .num _ | .special _ => "float"
  | .str _ => "str"
  | .arr _ => "list"
  | .obj _ => "dict"

/-! ## UUIDs -/

/-- `s.replace(pat, "")` for a non-empty `pat`; the fuel is the length of the text. -/
def removeAll (pat : List Char) : Nat → List Char → List Char
  | 0, cs => cs
  | _ + 1, [] => []
  | n + 1, c :: cs =>
    if pat.isPrefixOf (c :: cs) then removeAll pat n ((c :: cs).drop pat.length)
    else c :: removeAll pat n cs

def isBrace (c : Char) : Bool := c = '\x7b' || c = '\x7d'

/-- `uuid.UUID(value)` parses and has version 4: the 32 characters that are left without
    `urn:`, `uuid:`, the braces around them and the hyphens are read as a number in base 16,
    whose version digit is 4 and whose variant is that of RFC 4122. -/
def isUuid4 (s : String) : Bool :=
  let plain := removeAll "uuid:".toList s.length (removeAll "urn:".toList s.length s.toList)
  let hex := (trim isBrace plain).filter (· ≠ '-')
  hex.length = 32 && (hexOfText hex).any fun n =>
    0 ≤ n && n.toNat < 2 ^ 128 && n.toNat / 2 ^ 76 % 16 = 4 && n.toNat / 2 ^ 62 % 4 = 2

theorem removeAll_absent {p : Char} {pat : List Char} {cs : List Char} (n : Nat) (h : p ∉ cs) :
    removeAll (p :: pat) n cs = cs := by
  induction cs generalizing n with
  | nil => cases n <;> rfl
  | cons c cs ih =>
    rw [List.mem_cons, not_or] at h
    cases n with
    | zero => rfl
    | succ n =>
      have hno : (p :: pat).isPrefixOf (c :: cs) = false := by
        simp [List.isPrefixOf, h.1]
      rw [removeAll, hno, if_neg Bool.false_ne_true, ih n h.2]

theorem hexDigit_spec : ∀ d < 16, isHex (Nat.digitChar d) = true ∧ Nat.digitChar d ≠ 'u' ∧
    Nat.digitChar d ≠ '-' ∧ Nat.digitChar d ≠ '\x7b' ∧ Nat.digitChar d ≠ '\x7d' := by decide

/-- A digit with these bits of a version 4 id. -/
theorem hexOfDigits_get {hex : List Char} {c : Char} {i : Nat} (h : ∀ c ∈ hex, isHex c = true)
    (hlen : hex.length = 32) (hi : i < 32) (hc : hex[i]? = some c) :
    hexOfDigits hex / 16 ^ (31 - i) % 16 = hexDigitValue c := by
  obtain ⟨hlt, hget⟩ := List.getElem?_eq_some_iff.mp hc
  have hsplit : hex = hex.take i ++ c :: hex.drop (i + 1) := by
    rw [← hget, ← List.drop_eq_getElem_cons, List.take_append_drop]
  have hdrop : (hex.drop (i + 1)).length = 31 - i := by
    rw [List.length_drop, hlen]
    omega
  have hds : ∀ d ∈ hex.drop (i + 1), isHex d = true := fun d hd => h d (List.mem_of_mem_drop hd)
  have hplace := hexOfDigits_place (hex.take i) (h c (List.mem_of_getElem? hc)) hds
  rwa [← hsplit, hdrop] at hplace

/-- Thirty-two digits with the version and the variant in their places. -/
theorem isUuid4_of_digits {s : String} (hex : List Char) (hu : 'u' ∉ s.toList)
    (hbrace : ∀ c ∈ s.toList, isBrace c = false) (hfilter : s.toList.filter (· ≠ '-') = hex)
    (hlen : hex.length = 32) (hhex : ∀ c ∈ hex, isHex c = true) (hversion : hex[12]? = some '4')
    (hvariant : hex[16]?.getD ' ' ∈ ['8', '9', 'a', 'b', 'A', 'B']) : isUuid4 s = true := by
  have hurn : "urn:".toList = ['u', 'r', 'n', ':'] := rfl
  have huuid : "uuid:".toList = ['u', 'u', 'i', 'd', ':'] := rfl
  have hne : hex ≠ [] := by
    rintro rfl
    cases hlen
  obtain ⟨v, hv⟩ : ∃ v, hex[16]? = some v := ⟨_, List.getElem?_eq_getElem (by omega)⟩
  have hlt := hexOfDigits_lt hhex
  have hfour := hexOfDigits_get hhex hlen (by decide) hversion
  have hnine := hexOfDigits_get hhex hlen (by decide) hv
  have hbits : hexDigitValue v / 4 = 2 := by
    rw [hv, Option.getD_some] at hvariant
    simp only [List.mem_cons, List.not_mem_nil, or_false] at hvariant
    rcases hvariant with rfl | rfl | rfl | rfl | rfl | rfl <;> rfl
  have hvalue : hexDigitValue '4' = 4 := rfl
  rw [hlen] at hlt
  rw [hvalue] at hfour
  rw [isUuid4, hurn, huuid, removeAll_absent _ hu, removeAll_absent _ hu, trim_none hbrace, hfilter,
    hlen, hexOfText_digits hne hhex]
  simp only [Option.any_some, decide_true, Bool.true_and, Bool.and_eq_true, decide_eq_true_eq,
    Int.toNat_natCast]
  exact ⟨⟨⟨Int.natCast_nonneg _, by omega⟩, by omega⟩, by omega⟩

/-! ## NormalizedOrder -/

/-- The fields of an order, before validation. -/
structure OrderFields where
  clientOrderId : String
  broker : Broker
  account : String
  market : Market
  symbol : String
  side : Side
  orderType : OrderType
  price : Option Decimal := none
  stopPrice : Option Decimal := none
  quantity : Int
  displayQty : Option Int := none
  tif : Tif
  positionEffect : Option PositionEffect := none
  metadata : List (String × Json) := []

def pricedTypes : List OrderType := [.limit, .stopLimit]

def stopTypes : List OrderType := [.stop, .stopLimit]

/-- `_cross_field_rules`. -/
def OrderFields.crossFieldRules (o : OrderFields) : Except String Unit := do
  if o.price.any fun p => !p.isPos then throw "price must be > 0"
  if o.stopPrice.any fun p => !p.isPos then throw "stop_price must be > 0"
  if o.orderType ∈ pricedTypes && o.price.isNone then
    throw ("price is required for " ++ o.orderType.value)
  if o.orderType ∈ stopTypes && o.stopPrice.isNone then
    throw ("stop_price is required for " ++ o.orderType.value)
  match o.displayQty with
  | some d =>
    if o.orderType ≠ .iceberg then throw "display_qty is only valid for ICEBERG orders"
    if o.quantity < d then throw "display_qty must be <= quantity"
  | none => if o.orderType = .iceberg then throw "ICEBERG orders require display_qty"
  if o.market = .tfex && o.positionEffect.isNone then
    throw "position_effect is required for TFEX orders"
  if o.market = .set && o.positionEffect.isSome then
    throw "position_effect must be omitted for SET orders"

/-- All the validators: field constraints first, then the cross-field rules. -/
def OrderFields.check (o : OrderFields) : Except String Unit := do
  if !isUuid4 o.clientOrderId then throw "client_order_id must be a UUIDv4"
  if o.account.isEmpty then throw "account should have at least 1 character"
  if o.symbol.isEmpty then throw "symbol should have at least 1 character"
  if o.quantity ≤ 0 then throw "quantity should be greater than 0"
  if o.displayQty.any fun d => d ≤ 0 then throw "display_qty should be greater than 0"
  o.crossFieldRules

/-- A validated order. -/
structure NormalizedOrder extends OrderFields where
  valid : toOrderFields.check = .ok ()

/-- `NormalizedOrder(**fields)`. -/
def NormalizedOrder.build (f : OrderFields) : Except Exn NormalizedOrder :=
  match h : f.check with
  | .ok () => .ok ⟨f, h⟩
  | .error m => .error (.validationError m)

theorem NormalizedOrder.build_ok {f : OrderFields} {o : NormalizedOrder}
    (h : NormalizedOrder.build f = .ok o) : o.toOrderFields = f := by
  unfold NormalizedOrder.build at h
  split at h
  · exact (Except.ok.inj h) ▸ rfl
  · cases h

/-- The rules, as propositions. -/
structure OrderFields.Valid (o : OrderFields) : Prop where
  clientOrderId : isUuid4 o.clientOrderId = true
  account : o.account.isEmpty = false
  symbol : o.symbol.isEmpty = false
  quantity_pos : 0 < o.quantity
  displayQty_pos : ∀ d, o.displayQty = some d → 0 < d
  price_pos : ∀ p, o.price = some p → p.isPos = true
  stopPrice_pos : ∀ p, o.stopPrice = some p → p.isPos = true
  price : o.orderType ∈ pricedTypes → o.price.isSome = true
  stopPrice : o.orderType ∈ stopTypes → o.stopPrice.isSome = true
  displayQty : o.displayQty.isSome = true ↔ o.orderType = .iceberg
  displayQty_le : ∀ d, o.displayQty = some d → d ≤ o.quantity
  positionEffect : o.positionEffect.isSome = true ↔ o.market = .tfex

theorem guard_ok {c : Prop} [Decidable c] {message : String} {rest : Except String Unit} :
    (do if c then throw message
        rest) = .ok () ↔ ¬ c ∧ rest = .ok () := by
  by_cases hc : c
  · simp [hc, throw, throwThe, MonadExceptOf.throw, bind, Except.bind]
  · simp [hc]

theorem displayRules_ok {o : OrderFields} {rest : Except String Unit} :
    (match o.displayQty with
      | some d => do
        if o.orderType ≠ OrderType.iceberg then throw "display_qty is only valid for ICEBERG orders"
        if o.quantity < d then throw "display_qty must be <= quantity"
        rest
      | none => do
        if o.orderType = OrderType.iceberg then throw "ICEBERG orders require display_qty"
        rest) = .ok () ↔
      ((o.displayQty.isSome = true ↔ o.orderType = .iceberg) ∧
        ∀ d, o.displayQty = some d → d ≤ o.quantity) ∧ rest = .ok () := by
  cases o.displayQty with
  | none =>
    dsimp only
    rw [guard_ok]
    simp
  | some d =>
    dsimp only
    rw [guard_ok, guard_ok]
    simp [and_assoc]

theorem positionRules_ok {o : OrderFields} :
    (do
      if o.market = .tfex && o.positionEffect.isNone then
        throw "position_effect is required for TFEX orders"
      if o.market = .set && o.positionEffect.isSome then
        throw "position_effect must be omitted for SET orders" : Except String Unit) = .ok () ↔
      (o.positionEffect.isSome = true ↔ o.market = .tfex) := by
  cases o.market <;> cases o.positionEffect <;>
    simp [throw, throwThe, MonadExceptOf.throw, bind, Except.bind, pure, Except.pure]

theorem not_any_iff {α : Type} {x : Option α} {bad : α → Bool} :
    ¬ x.any bad = true ↔ ∀ a, x = some a → bad a = false := by
  cases x <;> simp

theorem required_iff {α : Type} {c : Prop} [Decidable c] {x : Option α} :
    ¬ (decide c && x.isNone) = true ↔ (c → x.isSome = true) := by
  cases x <;> simp

theorem OrderFields.check_iff {o : OrderFields} : o.check = .ok () ↔ o.Valid := by
  unfold OrderFields.check
  rw [guard_ok, guard_ok, guard_ok, guard_ok, guard_ok]
  unfold OrderFields.crossFieldRules
  rw [guard_ok, guard_ok, guard_ok, guard_ok]
  erw [displayRules_ok, positionRules_ok]
  rw [not_any_iff, not_any_iff, not_any_iff, required_iff, required_iff]
  simp only [Bool.not_eq_true', Bool.not_eq_true, Bool.not_eq_false', Bool.not_eq_false, not_le,
    decide_eq_false_iff_not]
  constructor
  · rintro ⟨h1, h2, h3, h4, h5, h6, h7, h8, h9, ⟨h10, h11⟩, h12⟩
    exact ⟨h1, h2, h3, h4, h5, h6, h7, h8, h9, h10, h11, h12⟩
  · rintro ⟨h1, h2, h3, h4, h5, h6, h7, h8, h9, h10, h11, h12⟩
    exact ⟨h1, h2, h3, h4, h5, h6, h7, h8, h9, ⟨h10, h11⟩, h12⟩

theorem OrderFields.quantity_pos {o : OrderFields} (h : o.check = .ok ()) : 0 < o.quantity :=
  (OrderFields.check_iff.mp h).quantity_pos

namespace NormalizedOrder

/-- Valid fields are an order. -/
theorem build_valid {f : OrderFields} (h : f.Valid) :
    ∃ o, NormalizedOrder.build f = .ok o ∧ o.toOrderFields = f := by
  have hcheck := OrderFields.check_iff.mpr h
  unfold NormalizedOrder.build
  split
  · rename_i hok
    exact ⟨⟨f, hok⟩, rfl, rfl⟩
  · rename_i message herr
    rw [hcheck] at herr
    cases herr

theorem isValid (o : NormalizedOrder) : o.Valid := OrderFields.check_iff.mp o.valid

theorem quantity_pos (o : NormalizedOrder) : 0 < o.quantity := o.isValid.quantity_pos

/-- A validated price is positive. -/
theorem price_pos (o : NormalizedOrder) {p : Decimal} (hp : o.price = some p) : p.isPos = true :=
  o.isValid.price_pos p hp

theorem stopPrice_pos (o : NormalizedOrder) {p : Decimal} (hp : o.stopPrice = some p) :
    p.isPos = true :=
  o.isValid.stopPrice_pos p hp

end NormalizedOrder

/-! ## Capability matrix -/

/-- Declared amend semantics. -/
inductive AmendSemantics where
  | native | cancelReplace
  deriving DecidableEq, Repr

structure CapabilitySet where
  broker : Broker
  market : Market
  orderTypes : List OrderType
  tifs : List Tif
  positionEffects : List PositionEffect
  amend : AmendSemantics
  deriving DecidableEq, Repr

namespace Capabilities

def allTypes : List OrderType := [.market, .limit, .stop, .stopLimit, .iceberg, .mtl, .ato, .atc]

def allTifs : List Tif := [.day, .ioc, .fok, .gtc]

def capabilityMatrix : List CapabilitySet :=
  [ ⟨.sim, .set, allTypes, allTifs, [], .native⟩,
    ⟨.sim, .tfex, allTypes, allTifs, [.openPos, .closePos], .native⟩,
    ⟨.liberator, .set, [.market, .limit, .iceberg, .mtl, .ato, .atc], allTifs, [],
      .cancelReplace⟩,
    ⟨.liberator, .tfex, [.market, .limit, .stop, .stopLimit, .iceberg], allTifs,
      [.openPos, .closePos], .cancelReplace⟩,
    ⟨.streamingPro, .set, [.market, .limit], [.day], [], .cancelReplace⟩,
    ⟨.streamingPro, .tfex, [.market, .limit], [.day], [.openPos, .closePos], .cancelReplace⟩ ]

/-- `lookup(broker, market)`. -/
def lookup (broker : Broker) (market : Market) : Except Exn CapabilitySet :=
  match capabilityMatrix.find? fun e => e.broker = broker && e.market = market with
  | some e => .ok e
  | none => .error (.rejected .capabilityUnsupported
      ("market " ++ market.value ++ " unsupported for broker " ++ broker.value) none)

/-- `assert_supports`. -/
def assertSupports (c : CapabilitySet) (t : OrderType) (tif : Tif) (pe : Option PositionEffect) :
    Except Exn Unit :=
  let cell := " unsupported for (" ++ c.broker.value ++ ", " ++ c.market.value ++ ")"
  if t ∉ c.orderTypes then
    .error (.rejected .capabilityUnsupported ("order_type " ++ t.value ++ cell) none)
  else if tif ∉ c.tifs then
    .error (.rejected .capabilityUnsupported ("tif " ++ tif.value ++ cell) none)
  else match pe with
    | some p =>
      if p ∉ c.positionEffects then
        .error (.rejected .capabilityUnsupported ("position_effect " ++ p.value ++ cell) none)
      else .ok ()
    | none => .ok ()

/-- Every broker and market has a row; only the simulator amends in place. -/
theorem lookup_ok (b : Broker) (m : Market) :
    ∃ c, lookup b m = .ok c ∧ (c.amend = .native ↔ b = .sim) := by
  cases b <;> cases m <;> exact ⟨_, rfl, by decide⟩

end Capabilities

end ExecutionEngine
