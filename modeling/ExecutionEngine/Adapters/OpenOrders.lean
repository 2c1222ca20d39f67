/-
  The Liberator read view of open orders, against what the write side sent.

  `venueItemToNormalized` reads a row of the venue's book back into the order language.
  A row that rests and echoes a payload whole (`RestingEcho`) is listed, and reads as the
  order that was sent, with two differences. The wire has one word for STOP and
  STOP_LIMIT, and it is read as STOP. A SET body has one price and no stop price, so a
  stop price comes back as the price, or not at all (`open_order_read_back`). A TFEX
  order without a price is left out of this: its placeholder 0 is read as a price.

  The hash behind the placeholder id is a parameter.
-/
import ExecutionEngine.Adapters.Envelopes
import ExecutionEngine.Adapters.Wire

namespace ExecutionEngine

/-! ## Ids from bytes -/

/-- Two lower-case digits. -/
def hexByte (b : UInt8) : List Char :=
  [Nat.digitChar (b.toNat / 16), Nat.digitChar (b.toNat % 16)]

/-- 8-4-4-4-12. -/
def hyphenated (hex : List Char) : List Char :=
  hex.take 8 ++ '-' :: ((hex.drop 8).take 4 ++ '-' :: ((hex.drop 12).take 4 ++
    '-' :: ((hex.drop 16).take 4 ++ '-' :: hex.drop 20)))

/-- `str(uuid.UUID(bytes=digest))`. -/
def uuidText (digest : List UInt8) : String := String.ofList (hyphenated (digest.flatMap hexByte))

/-- The version and the variant bits of `digest`. -/
def markVersion (digest : List UInt8) : List UInt8 :=
  (digest.modify 6 fun b => b &&& 0x0F ||| 0x40).modify 8 fun b => b &&& 0x3F ||| 0x80

theorem mem_hyphenated {hex : List Char} {c : Char} (h : c ∈ hyphenated hex) :
    c = '-' ∨ c ∈ hex := by
  simp only [hyphenated, List.mem_append, List.mem_cons] at h
  rcases h with h | h | h | h | h | h | h | h | h
  · exact .inr (List.mem_of_mem_take h)
  · exact .inl h
  · exact .inr (List.mem_of_mem_drop (List.mem_of_mem_take h))
  · exact .inl h
  · exact .inr (List.mem_of_mem_drop (List.mem_of_mem_take h))
  · exact .inl h
  · exact .inr (List.mem_of_mem_drop (List.mem_of_mem_take h))
  · exact .inl h
  · exact .inr (List.mem_of_mem_drop h)

theorem filter_hyphenated {hex : List Char} (h : '-' ∉ hex) :
    (hyphenated hex).filter (· ≠ '-') = hex := by
  have hkeep {cs : List Char} (hcs : cs ⊆ hex) : cs.filter (· ≠ '-') = cs :=
    List.filter_eq_self.mpr fun c hc => decide_eq_true fun heq => h (heq ▸ hcs hc)
  have hdrop (n : Nat) : hex.drop n ⊆ hex := List.drop_subset n hex
  have htake (n : Nat) : (hex.drop n).take 4 ⊆ hex :=
    fun c hc => hdrop n (List.take_subset 4 (hex.drop n) hc)
  have hjoin (n : Nat) : (hex.drop n).take 4 ++ hex.drop (n + 4) = hex.drop n := by
    rw [← List.drop_drop]
    exact List.take_append_drop 4 (hex.drop n)
  have hdash (cs : List Char) : ('-' :: cs).filter (· ≠ '-') = cs.filter (· ≠ '-') := by simp
  simp only [hyphenated, List.filter_append, hdash, hkeep (List.take_subset 8 hex), hkeep (htake _),
    hkeep (hdrop _)]
  rw [hjoin 16, hjoin 12, hjoin 8, List.take_append_drop]

/-- Thirty-two digits with the version and the variant in their places. -/
theorem isUuid4_hyphenated {hex : List Char} (hlen : hex.length = 32)
    (hhex : ∀ c ∈ hex, isHex c = true ∧ c ≠ 'u' ∧ c ≠ '-' ∧ c ≠ '\x7b' ∧ c ≠ '\x7d')
    (hversion : hex[12]? = some '4')
    (hvariant : hex[16]?.getD ' ' ∈ ['8', '9', 'a', 'b', 'A', 'B']) :
    isUuid4 (String.ofList (hyphenated hex)) = true := by
  have hu : 'u' ∉ hyphenated hex := by
    intro hmem
    rcases mem_hyphenated hmem with h | h
    · cases h
    · exact (hhex _ h).2.1 rfl
  have hbrace : ∀ c ∈ hyphenated hex, isBrace c = false := by
    intro c hc
    rcases mem_hyphenated hc with rfl | h
    · rfl
    · simp [isBrace, (hhex c h).2.2.2.1, (hhex c h).2.2.2.2]
  exact isUuid4_of_digits _ (by rwa [String.toList_ofList]) (by rwa [String.toList_ofList])
    (by rw [String.toList_ofList, filter_hyphenated fun h => (hhex _ h).2.2.1 rfl]) hlen
    (fun c hc => (hhex c hc).1) hversion hvariant

theorem hexByte_spec (b : UInt8) : ∀ c ∈ hexByte b,
    isHex c = true ∧ c ≠ 'u' ∧ c ≠ '-' ∧ c ≠ '\x7b' ∧ c ≠ '\x7d' := by
  have hb : b.toNat < 256 := b.toNat_lt
  intro c hc
  simp only [hexByte, List.mem_cons, List.not_mem_nil, or_false] at hc
  rcases hc with rfl | rfl
  · exact hexDigit_spec _ (by omega)
  · exact hexDigit_spec _ (by omega)

theorem length_hexBytes (digest : List UInt8) :
    (digest.flatMap hexByte).length = 2 * digest.length := by
  induction digest with
  | nil => rfl
  | cons b digest ih =>
    rw [List.flatMap_cons, List.length_append, ih, List.length_cons]
    change 2 + 2 * digest.length = _
    omega

/-- The first digit of byte `n`. -/
theorem hexBytes_get {digest : List UInt8} {n : Nat} {b : UInt8} (h : digest[n]? = some b) :
    (digest.flatMap hexByte)[2 * n]? = some (Nat.digitChar (b.toNat / 16)) := by
  induction digest generalizing n with
  | nil => simp at h
  | cons first digest ih =>
    cases n with
    | zero =>
      obtain rfl := Option.some.inj h
      rfl
    | succ n =>
      rw [List.getElem?_cons_succ] at h
      rw [List.flatMap_cons]
      exact ih h

theorem version_digit (b : UInt8) : Nat.digitChar ((b &&& 0x0F ||| 0x40).toNat / 16) = '4' := by
  have key : ∀ n < 256, Nat.digitChar ((n &&& 15 ||| 64) / 16) = '4' := by decide +kernel
  rw [UInt8.toNat_or, UInt8.toNat_and]
  exact key _ b.toNat_lt

theorem variant_digit (b : UInt8) :
    Nat.digitChar ((b &&& 0x3F ||| 0x80).toNat / 16) ∈ ['8', '9', 'a', 'b', 'A', 'B'] := by
  have key : ∀ n < 256, Nat.digitChar ((n &&& 63 ||| 128) / 16) ∈
    ['8', '9', 'a', 'b', 'A', 'B'] := by decide +kernel
  rw [UInt8.toNat_or, UInt8.toNat_and]
  exact key _ b.toNat_lt

/-- Sixteen bytes with these bits set are the bytes of a version 4 id. -/
theorem markVersion_isUuid4 {digest : List UInt8} (h : digest.length = 16) :
    isUuid4 (uuidText (markVersion digest)) = true := by
  have hlen : (markVersion digest).length = 16 := by simp [markVersion, h]
  obtain ⟨b, hb⟩ : ∃ b, digest[6]? = some b := ⟨_, List.getElem?_eq_getElem (by omega)⟩
  obtain ⟨c, hc⟩ : ∃ c, digest[8]? = some c := ⟨_, List.getElem?_eq_getElem (by omega)⟩
  have h6 : (markVersion digest)[6]? = some (b &&& 0x0F ||| 0x40) := by
    simp [markVersion, hb]
  have h8 : (markVersion digest)[8]? = some (c &&& 0x3F ||| 0x80) := by
    simp [markVersion, hc]
  refine isUuid4_hyphenated ?_ (fun d hd => ?_) ?_ ?_
  · rw [length_hexBytes, hlen]
  · obtain ⟨byte, -, hbyte⟩ := List.mem_flatMap.mp hd
    exact hexByte_spec byte d hbyte
  · rw [hexBytes_get h6, version_digit]
  · rw [hexBytes_get h8]
    exact variant_digit c

namespace Liberator

variable (sha256 : ByteArray → Vector UInt8 32)

/-- `_synthetic_client_order_id`. -/
def syntheticClientOrderId (orderNo : String) : String :=
  uuidText (markVersion ((sha256 ("liberator:" ++ orderNo).toUTF8).toList.take 16))

/-! ## The read tables -/

/-- `_READ_PRICE_TYPES`. -/
def readPriceTypes : List (String × OrderType) :=
  [("LIMIT", .limit), ("MARKET", .market), ("MP", .mtl), ("ATO", .ato), ("ATC", .atc),
   ("STOP", .stop)]

/-- `_READ_VALIDITY`. -/
def readValidity : List (String × Tif) :=
  [("DAY", .day), ("GTC", .gtc), ("IOC", .ioc), ("FOK", .fok)]

/-- `_READ_POSITIONS`. -/
def readPositions : List (String × PositionEffect) := [("OPEN", .openPos), ("CLOSE", .closePos)]

/-- What the view is built from, once the side and the type are read. -/
def viewFields (item : VenueOrderItem) (account : String) (side : Side) (priceType : OrderType) :
    OrderFields :=
  let orderType := if priceType = .limit && 0 < item.icebergVol then .iceberg else priceType
  let position := strip (item.position.getD "")
  { clientOrderId := syntheticClientOrderId sha256 item.orderNo
    broker := .liberator
    account := if item.accountNo.isEmpty then account else item.accountNo
    market := if position.isEmpty then .set else .tfex
    symbol := item.symbol
    side := side
    orderType := orderType
    price := item.price
    stopPrice := if orderType = .stop then item.stopPrice else none
    quantity := item.volume
    displayQty := if orderType = .iceberg then some item.icebergVol else none
    tif := (readValidity.lookup (upper (strip item.validityType))).getD .day
    positionEffect := readPositions.lookup (upper position) }

/-- `venue_item_to_normalized`. -/
def venueItemToNormalized (item : VenueOrderItem) (account : String) : Option NormalizedOrder :=
  match fromVenueSide item.side, readPriceTypes.lookup (upper (strip item.priceType)) with
  | some side, some priceType =>
    match NormalizedOrder.build (viewFields sha256 item account side priceType) with
    | .ok view => some view
    | .error _ => none
  | _, _ => none

/-- One round of the loop of `get_open_orders`. -/
def openView (account : String) (item : VenueOrderItem) : Option NormalizedOrder :=
  if classifyVenueState item ≠ .resting then none
  else if item.balance ≤ 0 then none
  else venueItemToNormalized sha256 item account

/-- `get_open_orders`, of what `fetch_venue_orders` gives. -/
def getOpenOrders (fetched : Except Exn (List VenueOrderItem)) (account : String) :
    Except Exn (List NormalizedOrder) := do
  let items ← fetched
  return items.filterMap (openView sha256 account)

/-! ## The echo of a payload -/

/-- What a venue row can echo of a body; a SET body has no position and no stop price. -/
structure SentRow where
  symbol : String
  volume : Int
  icebergVol : Int
  price : String
  priceType : String
  validityType : String
  position : Option String
  stopPrice : Option String

def PlacePayload.row : PlacePayload → SentRow
  | .set p => ⟨p.symbol, p.volume, p.icebergVol, p.price, p.priceType, p.validityType, none, none⟩
  | .tfex p => ⟨p.symbol, p.volume, p.icebergVol, p.price, p.priceType, p.validityType,
      some p.position, some p.stopPrice⟩

/-- A price of the row is the number that the text spells. -/
def Spells (text : String) (price : Option Decimal) : Prop :=
  ∃ p q, Decimal.parse text = some p ∧ price = some q ∧ q.value = p.value

/-- A row of the book that rests and echoes what was sent, in one of the venue's own spellings of
    the side. -/
structure RestingEcho (sent : SentRow) (side : Side) (item : VenueOrderItem) : Prop where
  resting : classifyVenueState item = .resting
  symbol : item.symbol = sent.symbol
  side : item.side ∈ readSpellings side
  volume : item.volume = sent.volume
  balance : item.balance = sent.volume
  icebergVol : item.icebergVol = sent.icebergVol
  priceType : item.priceType = sent.priceType
  validityType : item.validityType = sent.validityType
  position : item.position.getD "" = sent.position.getD ""
  price : Spells sent.price item.price
  stopPrice : ∀ text, sent.stopPrice = some text → Spells text item.stopPrice

/-- Both absent, or of one value. -/
def SamePrice : Option Decimal → Option Decimal → Prop := Option.Rel fun a b => a.value = b.value

/-- The view agrees with the order, up to the type, the price and the stop price given here. -/
structure ReadsAs (o : NormalizedOrder) (orderType : OrderType) (price stopPrice : Option Decimal)
    (view : NormalizedOrder) : Prop where
  market : view.market = o.market
  symbol : view.symbol = o.symbol
  side : view.side = o.side
  orderType : view.orderType = orderType
  quantity : view.quantity = o.quantity
  displayQty : view.displayQty = o.displayQty
  tif : view.tif = o.tif
  positionEffect : view.positionEffect = o.positionEffect
  price : SamePrice view.price price
  stopPrice : SamePrice view.stopPrice stopPrice

/-- In every book, `get_open_orders` lists the row, read as such a view. -/
def ListedAs (item : VenueOrderItem) (account : String) (good : NormalizedOrder → Prop) : Prop :=
  ∃ view, venueItemToNormalized sha256 item account = some view ∧ good view ∧
    ∀ items, item ∈ items → ∃ views, getOpenOrders sha256 (.ok items) account = .ok views ∧
      view ∈ views

/-! ## What is sent, and what is read -/

/-- The type as it comes back: the wire has one word for both stop types. -/
def readType : OrderType → OrderType
  | .stopLimit => .stop
  | t => t

/-- The price that the body carries, where it is not the placeholder. -/
def sentPrice (o : NormalizedOrder) : Option Decimal :=
  match o.market with
  | .set => o.price.or o.stopPrice
  | .tfex => o.price

/-- The stop price that the body carries, where it is not the placeholder. -/
def sentStop (o : NormalizedOrder) : Option Decimal :=
  match o.market with
  | .set => none
  | .tfex => if o.orderType = .stop || o.orderType = .stopLimit then o.stopPrice else none

/-- The body of an order, field by field. -/
structure Carries (o : NormalizedOrder) (sent : SentRow) : Prop where
  symbol : sent.symbol = o.symbol
  volume : sent.volume = o.quantity
  icebergVol : sent.icebergVol = o.displayQty.getD 0
  priceType : priceTypes o.market o.orderType = some sent.priceType
  validityType : sent.validityType = venueValidity o.tif
  position : sent.position = o.positionEffect.map positions
  price : ∃ q, Decimal.parse sent.price = some q ∧ q.value = ((sentPrice o).getD .zero).value
  priced : o.market = .set → (sentPrice o).isSome = true
  stopPrice : o.market = .tfex → ∃ text q, sent.stopPrice = some text ∧
    Decimal.parse text = some q ∧ q.value = ((sentStop o).getD .zero).value

theorem sentPrice_pos {o : NormalizedOrder} {p : Decimal} (h : sentPrice o = some p) :
    p.isPos = true := by
  unfold sentPrice at h
  cases hm : o.market with
  | set =>
    rw [hm] at h
    rcases Option.or_eq_some_iff.mp h with hprice | ⟨-, hstop⟩
    · exact o.price_pos hprice
    · exact o.stopPrice_pos hstop
  | tfex =>
    rw [hm] at h
    exact o.price_pos h

theorem sentStop_pos {o : NormalizedOrder} {p : Decimal} (h : sentStop o = some p) :
    p.isPos = true := by
  unfold sentStop at h
  cases hm : o.market with
  | set =>
    rw [hm] at h
    cases h
  | tfex =>
    rw [hm] at h
    dsimp only at h
    split at h
    · exact o.stopPrice_pos h
    · cases h

theorem coeff_getD_nonneg {x : Option Decimal} (h : ∀ p, x = some p → p.isPos = true) :
    0 ≤ (x.getD Decimal.zero).coeff := by
  cases x with
  | none => exact le_refl 0
  | some p => exact coeff_nonneg (h p rfl)

theorem carries_of_payload {o : NormalizedOrder} {payload : PlacePayload}
    (h : toPlacePayload o = .ok payload) : Carries o payload.row := by
  rcases toPlacePayload_ok h with ⟨hm, p, hp, rfl⟩ | ⟨hm, p, hp, rfl⟩
  · obtain ⟨text, name, hw, hname, rfl⟩ := toSetPayload_ok hp
    obtain ⟨price, q, hprice, -, hq, hval⟩ := setWirePrice_ok hw
    have hsent : sentPrice o = some price := by rw [sentPrice, hm, hprice]
    have hno : o.positionEffect = none := by
      rw [← Option.not_isSome_iff_eq_none, o.isValid.positionEffect, hm]
      exact fun heq => by cases heq
    refine ⟨rfl, rfl, rfl, by rw [hm]; exact hname, rfl, by rw [hno]; rfl, ⟨q, hq, ?_⟩, fun _ => ?_,
      fun htfex => ?_⟩
    · rw [hsent]
      exact hval
    · rw [hsent]
      rfl
    · rw [hm] at htfex
      cases htfex
  · obtain ⟨position, name, hpos, hname, rfl⟩ := toTfexPayload_ok hp
    have hprice : sentPrice o = o.price := by rw [sentPrice, hm]
    have hstop : (if o.orderType = .stop || o.orderType = .stopLimit then
        o.stopPrice.getD Decimal.zero else Decimal.zero) = (sentStop o).getD .zero := by
      rw [sentStop, hm]
      dsimp only
      split <;> rfl
    obtain ⟨q, hq, hval⟩ := Decimal.parse_formatF (coeff_getD_nonneg fun p hp =>
      sentPrice_pos (o := o) (hprice.trans hp))
    obtain ⟨r, hr, hrval⟩ := Decimal.parse_formatF (coeff_getD_nonneg fun p hp =>
      sentStop_pos (o := o) hp)
    refine ⟨rfl, rfl, rfl, by rw [hm]; exact hname, rfl, by rw [hpos]; rfl, ⟨q, hq, ?_⟩,
      fun hset => ?_, fun _ => ⟨_, r, rfl, ?_, hrval⟩⟩
    · rw [hval, hprice]
    · rw [hm] at hset
      cases hset
    · rw [← hr, ← hstop]

/-- What the word of a type is read as, before the iceberg volume is looked at. -/
def wireType : OrderType → OrderType
  | .iceberg => .limit
  | t => readType t

theorem readPriceTypes_wire {m : Market} {t : OrderType} {name : String}
    (h : priceTypes m t = some name) :
    readPriceTypes.lookup (upper (strip name)) = some (wireType t) := by
  cases m <;> cases t <;> cases h <;> decide

theorem readValidity_wire (tif : Tif) :
    readValidity.lookup (upper (strip (venueValidity tif))) = some tif := by
  cases tif <;> decide

theorem readPositions_wire (p : PositionEffect) :
    readPositions.lookup (upper (strip (positions p))) = some p ∧
      (strip (positions p)).isEmpty = false := by
  cases p <;> decide

theorem fromVenueSide_spelling {side : Side} {raw : String} (h : raw ∈ readSpellings side) :
    fromVenueSide raw = some side := by
  have hall : ∀ raw ∈ readSpellings side, fromVenueSide raw = some side := by
    cases side <;> decide
  exact hall raw h

theorem Spells.samePrice {text : String} {price sent : Option Decimal} {q : Decimal}
    (h : Spells text price) (hq : Decimal.parse text = some q)
    (hval : q.value = (sent.getD .zero).value) (hsome : sent.isSome = true) :
    SamePrice price sent := by
  obtain ⟨p, r, hp, rfl, hr⟩ := h
  obtain ⟨s, rfl⟩ := Option.isSome_iff_exists.mp hsome
  obtain rfl := Option.some.inj (hq.symm.trans hp)
  exact .some (hr.trans hval)

theorem SamePrice.pos {a b : Option Decimal} (h : SamePrice a b)
    (hb : ∀ p, b = some p → p.isPos = true) : ∀ p, a = some p → p.isPos = true := by
  intro p hp
  cases h with
  | none => cases hp
  | some hval =>
    obtain rfl := Option.some.inj hp
    rw [Decimal.isPos_iff, hval, ← Decimal.isPos_iff]
    exact hb _ rfl

theorem SamePrice.isSome {a b : Option Decimal} (h : SamePrice a b) (hb : b.isSome = true) :
    a.isSome = true := by
  cases h with
  | none => cases hb
  | some hval => rfl

section Read

variable {o : NormalizedOrder} {sent : SentRow} {item : VenueOrderItem}

/-- An iceberg volume is sent with an iceberg order, and with no other. -/
theorem icebergVol_pos_iff (hsent : Carries o sent) (hecho : RestingEcho sent o.side item) :
    0 < item.icebergVol ↔ o.orderType = .iceberg := by
  rw [hecho.icebergVol, hsent.icebergVol, ← o.isValid.displayQty]
  cases hd : o.displayQty with
  | none => simp
  | some d => simpa using o.isValid.displayQty_pos d hd

theorem viewFields_orderType (hsent : Carries o sent) (hecho : RestingEcho sent o.side item)
    (account : String) :
    (viewFields sha256 item account o.side (wireType o.orderType)).orderType =
      readType o.orderType := by
  have hice := icebergVol_pos_iff hsent hecho
  unfold viewFields
  cases ht : o.orderType <;> simp_all [wireType, readType]

theorem viewFields_displayQty (hsent : Carries o sent) (hecho : RestingEcho sent o.side item)
    (account : String) :
    (viewFields sha256 item account o.side (wireType o.orderType)).displayQty = o.displayQty := by
  have htype := viewFields_orderType sha256 hsent hecho account
  have hd : (viewFields sha256 item account o.side (wireType o.orderType)).displayQty =
      if (viewFields sha256 item account o.side (wireType o.orderType)).orderType = .iceberg then
        some item.icebergVol else none := rfl
  have hread : readType o.orderType = .iceberg ↔ o.orderType = .iceberg := by
    cases o.orderType <;> simp [readType]
  rw [hd, htype, hecho.icebergVol, hsent.icebergVol]
  by_cases ht : o.orderType = .iceberg
  · rw [if_pos (hread.mpr ht)]
    obtain ⟨d, hd⟩ := Option.isSome_iff_exists.mp (o.isValid.displayQty.mpr ht)
    rw [hd]
    rfl
  · rw [if_neg (fun h => ht (hread.mp h))]
    rw [← o.isValid.displayQty, Option.not_isSome_iff_eq_none] at ht
    exact ht.symm

/-- The market and the position effect are read off the position. -/
theorem viewFields_position (hsent : Carries o sent) (hecho : RestingEcho sent o.side item)
    (account : String) :
    (viewFields sha256 item account o.side (wireType o.orderType)).market = o.market ∧
      (viewFields sha256 item account o.side (wireType o.orderType)).positionEffect =
        o.positionEffect := by
  have hrule := o.isValid.positionEffect
  have hpos : item.position.getD "" = (o.positionEffect.map positions).getD "" := by
    rw [hecho.position, hsent.position]
  unfold viewFields
  dsimp only
  rw [hpos]
  cases he : o.positionEffect with
  | none =>
    rw [he] at hrule
    have hm : o.market = .set := by
      cases hm : o.market with
      | set => rfl
      | tfex => simp [hm] at hrule
    rw [hm]
    exact ⟨by decide, by decide⟩
  | some p =>
    rw [he] at hrule
    have hm : o.market = .tfex := hrule.mp rfl
    obtain ⟨hlookup, hne⟩ := readPositions_wire p
    rw [hm]
    dsimp only [Option.map_some, Option.getD_some]
    exact ⟨if_neg (by rw [hne]; exact Bool.false_ne_true), hlookup⟩

/-- The stop types are on the TFEX wire only, and their stop price is sent. -/
theorem sentStop_of_stop (hsent : Carries o sent) (ht : o.orderType ∈ stopTypes) :
    o.market = .tfex ∧ sentStop o = o.stopPrice := by
  have hname := hsent.priceType
  cases hm : o.market with
  | tfex =>
    refine ⟨rfl, ?_⟩
    rw [sentStop, hm]
    rcases List.mem_pair.mp ht with ht | ht <;> simp [ht]
  | set =>
    rw [hm] at hname
    rcases List.mem_pair.mp ht with ht | ht <;> rw [ht] at hname <;> cases hname

/-- A stop price is read where the word is STOP. -/
theorem viewFields_stopPrice (hsent : Carries o sent) (hecho : RestingEcho sent o.side item)
    (account : String) :
    SamePrice (viewFields sha256 item account o.side (wireType o.orderType)).stopPrice
      (sentStop o) := by
  have htype := viewFields_orderType sha256 hsent hecho account
  have hstop : (viewFields sha256 item account o.side (wireType o.orderType)).stopPrice =
      if (viewFields sha256 item account o.side (wireType o.orderType)).orderType = .stop then
        item.stopPrice else none := rfl
  have hread : readType o.orderType = .stop ↔ o.orderType ∈ stopTypes := by
    cases o.orderType <;> decide
  rw [hstop, htype]
  by_cases ht : o.orderType ∈ stopTypes
  · obtain ⟨hm, hsentStop⟩ := sentStop_of_stop hsent ht
    obtain ⟨text, q, htext, hq, hval⟩ := hsent.stopPrice hm
    rw [if_pos (hread.mpr ht)]
    refine (hecho.stopPrice text htext).samePrice hq hval ?_
    rw [hsentStop]
    exact o.isValid.stopPrice ht
  · rw [if_neg fun h => ht (hread.mp h)]
    have hnone : sentStop o = none := by
      unfold sentStop
      cases o.market with
      | set => rfl
      | tfex =>
        refine if_neg fun h => ht (List.mem_pair.mpr ?_)
        simpa using h
    rw [hnone]
    exact .none

/-- With a price that was sent, what the view is built from passes the validators. -/
theorem viewFields_valid (hsent : Carries o sent) (hecho : RestingEcho sent o.side item)
    (hpriced : (sentPrice o).isSome = true) :
    (viewFields sha256 item o.account o.side (wireType o.orderType)).Valid := by
  have htype := viewFields_orderType sha256 hsent hecho o.account
  have hdisplay := viewFields_displayQty sha256 hsent hecho o.account
  obtain ⟨hmarket, hposition⟩ := viewFields_position sha256 hsent hecho o.account
  have hstop := viewFields_stopPrice sha256 hsent hecho o.account
  have hquantity : (viewFields sha256 item o.account o.side (wireType o.orderType)).quantity =
      o.quantity := hecho.volume.trans hsent.volume
  have hsymbol : (viewFields sha256 item o.account o.side (wireType o.orderType)).symbol =
      o.symbol := hecho.symbol.trans hsent.symbol
  obtain ⟨q, hq, hval⟩ := hsent.price
  have hprice : SamePrice item.price (sentPrice o) := hecho.price.samePrice hq hval hpriced
  have hsome : item.price.isSome = true := by
    obtain ⟨_, p, _, hp, _⟩ := hecho.price
    rw [hp]
    rfl
  refine ⟨?_, ?_, ?_, ?_, ?_, hprice.pos fun _ => sentPrice_pos, hstop.pos fun _ => sentStop_pos,
    fun _ => hsome, ?_, ?_, ?_, ?_⟩
  · exact markVersion_isUuid4 (by simp)
  · change (if item.accountNo.isEmpty then o.account else item.accountNo).isEmpty = false
    split
    · exact o.isValid.account
    · rename_i hne
      simpa using hne
  · rw [hsymbol]
    exact o.isValid.symbol
  · rw [hquantity]
    exact o.isValid.quantity_pos
  · rw [hdisplay]
    exact o.isValid.displayQty_pos
  · intro ht
    have ht : o.orderType ∈ stopTypes := by
      rw [htype] at ht
      revert ht
      cases o.orderType <;> decide
    refine hstop.isSome ?_
    rw [(sentStop_of_stop hsent ht).2]
    exact o.isValid.stopPrice ht
  · rw [hdisplay, htype, o.isValid.displayQty]
    cases o.orderType <;> simp [readType]
  · rw [hdisplay, hquantity]
    exact o.isValid.displayQty_le
  · rw [hposition, hmarket]
    exact o.isValid.positionEffect

/-- The row is read, as the order that was sent up to its type and its prices. -/
theorem view_reads (hsent : Carries o sent) (hecho : RestingEcho sent o.side item)
    (hpriced : (sentPrice o).isSome = true) :
    ∃ view, venueItemToNormalized sha256 item o.account = some view ∧
      ReadsAs o (readType o.orderType) (sentPrice o) (sentStop o) view := by
  obtain ⟨view, hbuild, hfields⟩ :=
    NormalizedOrder.build_valid (viewFields_valid sha256 hsent hecho hpriced)
  have htype := viewFields_orderType sha256 hsent hecho o.account
  have hdisplay := viewFields_displayQty sha256 hsent hecho o.account
  obtain ⟨hmarket, hposition⟩ := viewFields_position sha256 hsent hecho o.account
  have hstop := viewFields_stopPrice sha256 hsent hecho o.account
  obtain ⟨q, hq, hval⟩ := hsent.price
  have hprice : SamePrice item.price (sentPrice o) := hecho.price.samePrice hq hval hpriced
  rw [← hfields] at htype hdisplay hmarket hposition hstop
  refine ⟨view, ?_, hmarket, ?_, ?_, htype, ?_, hdisplay, ?_, hposition, ?_, hstop⟩
  · unfold venueItemToNormalized
    rw [fromVenueSide_spelling hecho.side, hecho.priceType, readPriceTypes_wire hsent.priceType]
    dsimp only
    rw [hbuild]
  · rw [hfields]
    exact hecho.symbol.trans hsent.symbol
  · rw [hfields]
    rfl
  · rw [hfields]
    exact hecho.volume.trans hsent.volume
  · rw [hfields, viewFields]
    dsimp only
    rw [hecho.validityType, hsent.validityType, readValidity_wire]
    rfl
  · rw [hfields]
    exact hprice

/-- A resting row with something left is listed as it is read. -/
theorem listed_of_read {view : NormalizedOrder} {account : String} {good : NormalizedOrder → Prop}
    (hecho : RestingEcho sent o.side item) (hbalance : 0 < item.balance)
    (hread : venueItemToNormalized sha256 item account = some view) (hgood : good view) :
    ListedAs sha256 item account good := by
  refine ⟨view, hread, hgood, fun items hmem => ⟨_, rfl, List.mem_filterMap.mpr ⟨item, hmem, ?_⟩⟩⟩
  rw [openView, if_neg (not_not.mpr hecho.resting), if_neg (not_le.mpr hbalance), hread]

end Read

/-- A resting row that echoes what was sent for an order is listed, and reads as that order, its
    stop type as STOP, with the price and the stop price that its body carries. -/
theorem open_order_read_back {o : NormalizedOrder} {payload : PlacePayload}
    (hpayload : toPlacePayload o = .ok payload)
    (hpriced : o.market = .tfex → o.price.isSome = true) {item : VenueOrderItem}
    (hecho : RestingEcho payload.row o.side item) :
    ListedAs sha256 item o.account
      (ReadsAs o (readType o.orderType) (sentPrice o) (sentStop o)) := by
  have hsent := carries_of_payload hpayload
  have hsome : (sentPrice o).isSome = true := by
    cases hm : o.market with
    | set => exact hsent.priced hm
    | tfex =>
      rw [sentPrice, hm]
      exact hpriced hm
  obtain ⟨view, hread, hgood⟩ := view_reads sha256 hsent hecho hsome
  refine listed_of_read sha256 hecho ?_ hread hgood
  rw [hecho.balance, hsent.volume]
  exact o.quantity_pos

theorem view_price {item : VenueOrderItem} {account : String} {view : NormalizedOrder}
    (h : venueItemToNormalized sha256 item account = some view) : view.price = item.price := by
  unfold venueItemToNormalized at h
  split at h
  · split at h
    · rename_i built hbuild
      obtain rfl := Option.some.inj h
      rw [NormalizedOrder.build_ok hbuild]
      rfl
    · cases h
  · cases h

/-- The placeholder 0 of a TFEX order without a price is not a price that an order can have. -/
theorem unpriced_not_read {o : NormalizedOrder} {payload : PlacePayload}
    (hpayload : toPlacePayload o = .ok payload) (hm : o.market = .tfex) (hnone : o.price = none)
    {item : VenueOrderItem} (hecho : RestingEcho payload.row o.side item) (account : String) :
    venueItemToNormalized sha256 item account = none := by
  obtain ⟨q, hq, hval⟩ := (carries_of_payload hpayload).price
  obtain ⟨p, r, hp, hr, hrval⟩ := hecho.price
  obtain rfl := Option.some.inj (hq.symm.trans hp)
  have hzero : r.value = 0 := by
    rw [hrval, hval, sentPrice, hm, hnone]
    simp [Decimal.value, Decimal.zero, Decimal.ofInt]
  cases hread : venueItemToNormalized sha256 item account with
  | none => rfl
  | some view =>
    have hpos := view.price_pos ((view_price sha256 hread).trans hr)
    rw [Decimal.isPos_iff, hzero] at hpos
    exact absurd hpos (lt_irrefl 0)

/-! ## Orders that come back otherwise -/

/-- Absent where the body carries the placeholder. -/
def unlessPlaceholder (text : Option String) (price : Option Decimal) : Option Decimal :=
  if text = some "0" then none else price

/-- Whatever resting row echoes the body of the order, it is listed, and it reads as the order. -/
def RoundTrips (o : NormalizedOrder) : Prop :=
  ∀ payload, toPlacePayload o = .ok payload → ∀ item, RestingEcho payload.row o.side item →
    ListedAs sha256 item o.account (ReadsAs o o.orderType
      (unlessPlaceholder (some payload.row.price) o.price)
      (unlessPlaceholder payload.row.stopPrice o.stopPrice))

/-- The digest of "liberator:V1". -/
def digestV1 : Vector UInt8 32 :=
  #v[28, 18, 23, 23, 85, 76, 87, 227, 198, 176, 94, 16, 194, 52, 163, 5,
     177, 13, 71, 71, 168, 164, 142, 199, 247, 185, 238, 236, 253, 75, 132, 188]

/-- A TFEX order to buy and open one contract. -/
def futuresFields (t : OrderType) (price stopPrice : Option Decimal) : OrderFields where
  clientOrderId := "aaaaaaaa-0000-4000-8000-00000000000a"
  broker := .liberator
  account := "12345672"
  market := .tfex
  symbol := "S50Z26"
  side := .buy
  orderType := t
  price := price
  stopPrice := stopPrice
  quantity := 1
  tif := .day
  positionEffect := some .openPos

/-- The venue's row of such an order. -/
def futuresRow (priceType : String) (price stopPrice : Decimal) : VenueOrderItem where
  orderNo := "V1"
  accountNo := "12345672"
  symbol := "S50Z26"
  side := "B"
  position := some "Open"
  priceType := priceType
  volume := 1
  price := some price
  balance := 1
  validityType := "Day"
  stopPrice := some stopPrice

def stopLimitOrder : NormalizedOrder :=
  ⟨futuresFields .stopLimit (some ⟨9005, -1⟩) (some ⟨900, 0⟩), by decide +kernel⟩

/-- Without a price. -/
def marketOrder : NormalizedOrder := ⟨futuresFields .market none none, by decide +kernel⟩

/-- A SET limit order that carries a stop price. -/
def setStopOrder : NormalizedOrder :=
  ⟨{ futuresFields .limit (some ⟨10, 0⟩) (some ⟨9, 0⟩) with
      market := .set, symbol := "PTT", quantity := 100, positionEffect := none },
    by decide +kernel⟩

def setStopRow : VenueOrderItem :=
  { futuresRow "Limit" ⟨10, 0⟩ ⟨0, 0⟩ with
    symbol := "PTT", position := none, volume := 100, balance := 100, stopPrice := none }

theorem stopLimit_echo :
    ∃ payload, toPlacePayload stopLimitOrder = .ok payload ∧
      RestingEcho payload.row .buy (futuresRow "Stop" ⟨9005, -1⟩ ⟨900, 0⟩) := by
  refine ⟨_, rfl, by decide, rfl, by decide, rfl, rfl, rfl, rfl, rfl, rfl,
    ⟨⟨9005, -1⟩, _, by decide, rfl, rfl⟩, ?_⟩
  rintro text ⟨⟩
  exact ⟨⟨900, 0⟩, _, by decide, rfl, rfl⟩

/-- It is listed, with its prices, as a STOP order. -/
theorem stopLimit_read_back :
    ListedAs (fun _ => digestV1) (futuresRow "Stop" ⟨9005, -1⟩ ⟨900, 0⟩) stopLimitOrder.account
      (ReadsAs stopLimitOrder (readType stopLimitOrder.orderType) (sentPrice stopLimitOrder)
        (sentStop stopLimitOrder)) := by
  obtain ⟨payload, hpayload, hecho⟩ := stopLimit_echo
  exact open_order_read_back (fun _ => digestV1) hpayload (fun _ => rfl) hecho

/-- A STOP_LIMIT order comes back as STOP, a SET order without its stop price, and a TFEX order
    without a price not at all. -/
theorem round_trip_fails :
    ¬ RoundTrips (fun _ => digestV1) stopLimitOrder ∧
      ¬ RoundTrips (fun _ => digestV1) setStopOrder ∧
      ¬ RoundTrips (fun _ => digestV1) marketOrder := by
  refine ⟨fun h => ?_, fun h => ?_, fun h => ?_⟩
  · obtain ⟨payload, hpayload, hecho⟩ := stopLimit_echo
    obtain ⟨view, hview, hreads, -⟩ := h payload hpayload _ hecho
    have htype : (venueItemToNormalized (fun _ => digestV1)
        (futuresRow "Stop" ⟨9005, -1⟩ ⟨900, 0⟩) stopLimitOrder.account).map
          (fun view => view.orderType) = some .stop := by decide +kernel
    have hname := hreads.orderType
    rw [hview, Option.map_some, hname] at htype
    cases htype
  · obtain ⟨payload, hpayload⟩ : ∃ p, toPlacePayload setStopOrder = .ok p := ⟨_, rfl⟩
    have hecho : RestingEcho payload.row setStopOrder.side setStopRow := by
      cases hpayload
      exact ⟨by decide, rfl, by decide, rfl, rfl, rfl, rfl, rfl, rfl,
        ⟨⟨1000, -2⟩, _, by decide, rfl, by decide +kernel⟩, fun _ h => by cases h⟩
    obtain ⟨view, hview, hreads, -⟩ := h payload hpayload setStopRow hecho
    have hstop : (venueItemToNormalized (fun _ => digestV1) setStopRow
        setStopOrder.account).map (fun view => view.stopPrice) = some none := by decide +kernel
    have hsame := hreads.stopPrice
    rw [hview, Option.map_some] at hstop
    rw [Option.some.inj hstop] at hsame
    cases hpayload
    cases hsame
  · obtain ⟨payload, hpayload⟩ : ∃ p, toPlacePayload marketOrder = .ok p := ⟨_, rfl⟩
    have hecho : RestingEcho payload.row marketOrder.side
        (futuresRow "Market" ⟨0, 0⟩ ⟨0, 0⟩) := by
      cases hpayload
      refine ⟨by decide, rfl, by decide, rfl, rfl, rfl, rfl, rfl, rfl,
        ⟨⟨0, 0⟩, _, by decide, rfl, rfl⟩, ?_⟩
      rintro text ⟨⟩
      exact ⟨⟨0, 0⟩, _, by decide, rfl, rfl⟩
    obtain ⟨view, hview, -⟩ := h payload hpayload _ hecho
    rw [unpriced_not_read _ hpayload rfl rfl hecho] at hview
    cases hview

end Liberator

end ExecutionEngine
