/-
  The BidOfferV2 parser of the order-book feed.

  `readPrice` and `readVolume` say what a value of the two parallel arrays is worth, and
  `bookSide` what they make of a whole side. `parseBidOfferPayload` is the code. It
  computes `bookSide`, or it raises: a NaN price and an infinite one escape the
  handlers, and so does an infinite room, sequence or volume (`parse_total_iff`).
  `_run` handles none of these exceptions, and the feed ends there.
-/
import ExecutionEngine.Contracts.Numerals
import ExecutionEngine.Adapters.Envelopes

namespace ExecutionEngine.BidOffer

/-- One price level; `Field(ge=0)` is a field. -/
structure OrderBookLevel where
  price : Decimal
  volume : Int
  volume_nonneg : 0 ≤ volume
  deriving DecidableEq

/-- `OrderBookLevel(price=price, volume=max(volume, 0))`: pydantic takes no infinite decimal. -/
def OrderBookLevel.build (price : AnyDecimal) (volume : Int) : Except PyError OrderBookLevel :=
  match price with
  | .finite d => .ok ⟨d, max volume 0, le_max_right volume 0⟩
  | .special _ => .error .validationError

/-- `try: int(v) except (TypeError, ValueError)`, with what the handler makes of it. -/
def intOr (default : Int) (v : Json) : Except PyError Int :=
  match v.toInt with
  | .error .typeError => .ok default
  | .error .valueError => .ok default
  | r => r

/-- One round of the loop: the level, if the pair has one. -/
def levelOf (rawPrice rawVolume : Json) : Except PyError (Option OrderBookLevel) :=
  match rawPrice.toDecimal with
  | none => .ok none
  | some price => do
    let dropped ← price.leZero
    if dropped then return none
    else do
      let volume ← intOr 0 rawVolume
      let level ← OrderBookLevel.build price volume
      return some level

/-- The loop. -/
def levelsOf : List (Json × Json) → Except PyError (List OrderBookLevel)
  | [] => .ok []
  | (rawPrice, rawVolume) :: pairs => do
    let level ← levelOf rawPrice rawVolume
    let levels ← levelsOf pairs
    return level.toList ++ levels

/-- `_price_volume_levels`. -/
def priceVolumeLevels : Json → Json → Except PyError (List OrderBookLevel)
  | .arr prices, .arr volumes => levelsOf (prices.zip volumes)
  | _, _ => .ok []

/-- The room, the sequence, the bids and the asks of an update. -/
structure ParsedBook where
  room : Int
  sequence : Int
  bids : List OrderBookLevel
  asks : List OrderBookLevel
  deriving DecidableEq

/-- `payload.get("vs", 0)`. -/
def sequenceRaw (payload : Dict) : Json :=
  if payload.any fun f => f.1 = "vs" then Json.lookup payload "vs" else .int 0

/-- `parse_bid_offer_payload`. -/
def parseBidOfferPayload (payload : Dict) : Except PyError (Option ParsedBook) :=
  match Json.lookup payload "room" with
  | .null => .ok none
  | raw => match raw.toInt with
    | .error .typeError => .ok none
    | .error .valueError => .ok none
    | .error e => .error e
    | .ok room => do
      let sequence ← intOr 0 (sequenceRaw payload)
      let bids ← priceVolumeLevels (Json.lookup payload "bp") (Json.lookup payload "bv")
      let asks ← priceVolumeLevels (Json.lookup payload "op") (Json.lookup payload "ov")
      return some ⟨room, sequence, bids, asks⟩

/-! ## What a side is worth -/

/-- The finite positive decimal that a value stands for. -/
def readPrice (v : Json) : Option Decimal :=
  match v.toDecimal with
  | some (.finite d) => if d.isPos then some d else none
  | _ => none

/-- The volume that a value stands for: 0 if it is none, or negative. -/
def readVolume (v : Json) : Int :=
  match v.toInt with
  | .ok n => max n 0
  | .error _ => 0

/-- The pairs of two arrays, up to the shorter one. -/
def pairsOf : Json → Json → List (Json × Json)
  | .arr prices, .arr volumes => prices.zip volumes
  | _, _ => []

/-- The levels of one pair: one, or none. -/
def pairLevel (pair : Json × Json) : Option (Decimal × Int) :=
  (readPrice pair.1).map fun price => (price, readVolume pair.2)

/-- A side of the book: the pairs with a price, in order. -/
def bookSide (prices volumes : Json) : List (Decimal × Int) :=
  (pairsOf prices volumes).filterMap pairLevel

def OrderBookLevel.pair (level : OrderBookLevel) : Decimal × Int := (level.price, level.volume)

/-- A NaN, or an infinite price that is not negative. -/
def isWild (v : Json) : Bool :=
  match v.toDecimal with
  | some (.special x) => x ≠ .negInf
  | _ => false

/-- The loop gets past the pair. -/
def PairReadable (pair : Json × Json) : Prop :=
  isWild pair.1 = false ∧ ((readPrice pair.1).isSome = true → pair.2.isInfinite = false)

/-! ## The loop -/

/-- `int` with its handler raises for an infinite float only. -/
theorem intOr_infinite {v : Json} (h : v.isInfinite = true) : intOr 0 v = .error .overflowError := by
  rcases v.toInt_cases with ⟨-, hint⟩ | ⟨hfinite, -⟩
  · rw [intOr, hint]
  · rw [hfinite] at h
    cases h

theorem intOr_finite {v : Json} (h : v.isInfinite = false) :
    ∃ n, intOr 0 v = .ok n ∧ max n 0 = readVolume v := by
  rcases v.toInt_cases with ⟨hinfinite, -⟩ | ⟨-, ⟨n, hint⟩ | hint | hint⟩
  · rw [hinfinite] at h
    cases h
  · exact ⟨n, by rw [intOr, hint], by rw [readVolume, hint]⟩
  · exact ⟨0, by rw [intOr, hint], by rw [readVolume, hint, max_self]⟩
  · exact ⟨0, by rw [intOr, hint], by rw [readVolume, hint, max_self]⟩

theorem levelOf_readable {pair : Json × Json} (h : PairReadable pair) :
    ∃ level, levelOf pair.1 pair.2 = .ok level ∧
      level.map OrderBookLevel.pair = pairLevel pair := by
  obtain ⟨rawPrice, rawVolume⟩ := pair
  obtain ⟨hwild, hvolume⟩ := h
  unfold levelOf pairLevel
  dsimp only at hwild hvolume ⊢
  cases hprice : rawPrice.toDecimal with
  | none => exact ⟨none, rfl, by rw [readPrice, hprice]; rfl⟩
  | some price =>
    cases price with
    | special x =>
      have hneg : x = .negInf := by
        rw [isWild, hprice] at hwild
        simpa using hwild
      rw [hneg]
      exact ⟨none, rfl, by rw [readPrice, hprice]; rfl⟩
    | finite d =>
      have hread : readPrice rawPrice = if d.isPos then some d else none := by
        rw [readPrice, hprice]
      cases hpos : d.isPos with
      | false =>
        rw [hpos] at hread
        refine ⟨none, ?_, by rw [hread]; rfl⟩
        simp only [AnyDecimal.leZero, hpos, Bool.not_false]
        rfl
      | true =>
        rw [hpos] at hread
        rw [hread] at hvolume
        obtain ⟨n, hn, hmax⟩ := intOr_finite (hvolume rfl)
        refine ⟨some ⟨d, max n 0, le_max_right n 0⟩, ?_, ?_⟩
        · simp only [AnyDecimal.leZero, hpos, Bool.not_true, hn]
          rfl
        · rw [hread, if_pos rfl, Option.map_some, Option.map_some, ← hmax]
          rfl

theorem levelOf_unreadable {pair : Json × Json} (h : ¬ PairReadable pair) :
    ∃ e, levelOf pair.1 pair.2 = .error e := by
  obtain ⟨rawPrice, rawVolume⟩ := pair
  unfold levelOf
  unfold PairReadable at h
  dsimp only at h ⊢
  cases hprice : rawPrice.toDecimal with
  | none =>
    refine absurd ⟨?_, ?_⟩ h
    · rw [isWild, hprice]
    · rw [readPrice, hprice]
      exact fun hno => absurd hno Bool.false_ne_true
  | some price =>
    cases price with
    | special x =>
      cases x with
      | nan => exact ⟨_, rfl⟩
      | negInf =>
        refine absurd ⟨?_, ?_⟩ h
        · rw [isWild, hprice]
          rfl
        · rw [readPrice, hprice]
          exact fun hno => absurd hno Bool.false_ne_true
      | inf =>
        cases hvolume : intOr 0 rawVolume with
        | error e => exact ⟨e, rfl⟩
        | ok n => exact ⟨.validationError, rfl⟩
    | finite d =>
      have hread : readPrice rawPrice = if d.isPos then some d else none := by
        rw [readPrice, hprice]
      have htame : isWild rawPrice = false := by rw [isWild, hprice]
      cases hpos : d.isPos with
      | false =>
        refine absurd ⟨htame, ?_⟩ h
        rw [hread, hpos]
        exact fun hno => absurd hno Bool.false_ne_true
      | true =>
        have hvolume : rawVolume.isInfinite = true := by
          by_contra hno
          exact h ⟨htame, fun _ => Bool.eq_false_iff.mpr hno⟩
        refine ⟨.overflowError, ?_⟩
        simp only [AnyDecimal.leZero, hpos, Bool.not_true, intOr_infinite hvolume]
        rfl

/-- The loop computes the side, or raises at the first pair that is not readable. -/
theorem levelsOf_spec (pairs : List (Json × Json)) :
    (∀ pair ∈ pairs, PairReadable pair) ∧ (∃ levels, levelsOf pairs = .ok levels ∧
      levels.map OrderBookLevel.pair = pairs.filterMap pairLevel) ∨
    ¬ (∀ pair ∈ pairs, PairReadable pair) ∧ ∃ e, levelsOf pairs = .error e := by
  induction pairs with
  | nil => exact .inl ⟨fun _ h => absurd h List.not_mem_nil, [], rfl, rfl⟩
  | cons pair pairs ih =>
    obtain ⟨rawPrice, rawVolume⟩ := pair
    rw [List.forall_mem_cons]
    by_cases hreadable : PairReadable (rawPrice, rawVolume)
    · obtain ⟨level, hlevel, hpair⟩ := levelOf_readable hreadable
      dsimp only at hlevel
      rcases ih with ⟨hall, levels, hlevels, hmap⟩ | ⟨hsome, e, he⟩
      · refine .inl ⟨⟨hreadable, hall⟩, level.toList ++ levels, ?_, ?_⟩
        · simp only [levelsOf, hlevel, hlevels]
          rfl
        · rw [List.map_append, hmap, List.filterMap_cons, ← hpair]
          cases level <;> rfl
      · refine .inr ⟨fun h => hsome h.2, e, ?_⟩
        simp only [levelsOf, hlevel, he]
        rfl
    · obtain ⟨e, he⟩ := levelOf_unreadable hreadable
      dsimp only at he
      refine .inr ⟨fun h => hreadable h.1, e, ?_⟩
      simp only [levelsOf, he]
      rfl

/-- Every pair of two arrays is readable. -/
def SideReadable (prices volumes : Json) : Prop :=
  ∀ pair ∈ pairsOf prices volumes, PairReadable pair

theorem priceVolumeLevels_eq (prices volumes : Json) :
    priceVolumeLevels prices volumes = levelsOf (pairsOf prices volumes) := by
  cases prices <;> cases volumes <;> rfl

theorem priceVolumeLevels_spec (prices volumes : Json) :
    SideReadable prices volumes ∧ (∃ levels, priceVolumeLevels prices volumes = .ok levels ∧
      levels.map OrderBookLevel.pair = bookSide prices volumes) ∨
    ¬ SideReadable prices volumes ∧ ∃ e, priceVolumeLevels prices volumes = .error e := by
  rw [priceVolumeLevels_eq]
  exact levelsOf_spec (pairsOf prices volumes)

theorem mem_bookSide_pos {prices volumes : Json} {pair : Decimal × Int}
    (h : pair ∈ bookSide prices volumes) : pair.1.isPos = true := by
  obtain ⟨raw, -, hraw⟩ := List.mem_filterMap.mp h
  unfold pairLevel at hraw
  cases hprice : readPrice raw.1 with
  | none =>
    rw [hprice] at hraw
    cases hraw
  | some d =>
    rw [hprice] at hraw
    obtain rfl := Option.some.inj hraw
    unfold readPrice at hprice
    split at hprice
    · split at hprice
      · rename_i hpos
        exact Option.some.inj hprice ▸ hpos
      · cases hprice
    · cases hprice

/-! ## The payload -/

/-- A parsed book is what its payload says, level by level. -/
structure Sound (payload : Dict) (book : ParsedBook) : Prop where
  bids : book.bids.map OrderBookLevel.pair =
    bookSide (Json.lookup payload "bp") (Json.lookup payload "bv")
  asks : book.asks.map OrderBookLevel.pair =
    bookSide (Json.lookup payload "op") (Json.lookup payload "ov")
  positive : ∀ level ∈ book.bids ++ book.asks, level.price.isPos = true ∧ 0 ≤ level.volume

/-- The room is not an infinite float; and if it is a number, neither is the sequence, and every
    pair of the two sides is readable. -/
def Readable (payload : Dict) : Prop :=
  (Json.lookup payload "room").isInfinite = false ∧
  ((∃ room, (Json.lookup payload "room").toInt = .ok room) →
    (sequenceRaw payload).isInfinite = false ∧
    SideReadable (Json.lookup payload "bp") (Json.lookup payload "bv") ∧
    SideReadable (Json.lookup payload "op") (Json.lookup payload "ov"))

theorem sound_of_sides {payload : Dict} {book : ParsedBook}
    (hbids : book.bids.map OrderBookLevel.pair =
      bookSide (Json.lookup payload "bp") (Json.lookup payload "bv"))
    (hasks : book.asks.map OrderBookLevel.pair =
      bookSide (Json.lookup payload "op") (Json.lookup payload "ov")) : Sound payload book := by
  refine ⟨hbids, hasks, fun level hlevel => ⟨?_, level.volume_nonneg⟩⟩
  have hpos (levels : List OrderBookLevel) (hmem : level ∈ levels) (prices volumes : Json)
      (hside : levels.map OrderBookLevel.pair = bookSide prices volumes) :
      level.price.isPos = true := by
    have hpair : level.pair ∈ bookSide prices volumes := hside ▸ List.mem_map_of_mem hmem
    exact mem_bookSide_pos hpair
  rcases List.mem_append.mp hlevel with hmem | hmem
  · exact hpos _ hmem _ _ hbids
  · exact hpos _ hmem _ _ hasks

/-- The parser past the room. -/
theorem parse_room {payload : Dict} {room : Int}
    (hroom : (Json.lookup payload "room").toInt = .ok room) :
    parseBidOfferPayload payload = (do
      let sequence ← intOr 0 (sequenceRaw payload)
      let bids ← priceVolumeLevels (Json.lookup payload "bp") (Json.lookup payload "bv")
      let asks ← priceVolumeLevels (Json.lookup payload "op") (Json.lookup payload "ov")
      return some ⟨room, sequence, bids, asks⟩) := by
  unfold parseBidOfferPayload
  cases hraw : Json.lookup payload "room" with
  | null =>
    rw [hraw] at hroom
    cases hroom
  | _ =>
    rw [hraw] at hroom
    dsimp only
    rw [hroom]

theorem parse_no_room {payload : Dict} (hroom : (Json.lookup payload "room").isInfinite = false)
    (hno : ¬ ∃ room, (Json.lookup payload "room").toInt = .ok room) :
    parseBidOfferPayload payload = .ok none := by
  rcases (Json.lookup payload "room").toInt_cases with ⟨hinfinite, -⟩ | ⟨-, h | hint | hint⟩
  · rw [hroom] at hinfinite
    cases hinfinite
  · exact absurd h hno
  all_goals
    unfold parseBidOfferPayload
    cases hraw : Json.lookup payload "room" with
    | null => rfl
    | _ =>
      rw [hraw] at hint
      dsimp only
      rw [hint]

theorem parse_infinite_room {payload : Dict}
    (hroom : (Json.lookup payload "room").isInfinite = true) :
    parseBidOfferPayload payload = .error .overflowError := by
  rcases (Json.lookup payload "room").toInt_cases with ⟨-, hint⟩ | ⟨hfinite, -⟩
  · unfold parseBidOfferPayload
    cases hraw : Json.lookup payload "room" with
    | null =>
      rw [hraw] at hroom
      cases hroom
    | _ =>
      rw [hraw] at hint
      dsimp only
      rw [hint]
  · rw [hroom] at hfinite
    cases hfinite

/-- A readable payload is parsed to what it says; any other one raises. -/
theorem parse_spec (payload : Dict) :
    Readable payload ∧ (∃ r, parseBidOfferPayload payload = .ok r ∧
      ∀ book, r = some book → Sound payload book) ∨
    ¬ Readable payload ∧ ∃ e, parseBidOfferPayload payload = .error e := by
  cases hroom : (Json.lookup payload "room").isInfinite with
  | true =>
    exact .inr ⟨fun h => Bool.false_ne_true (h.1.symm.trans hroom), _, parse_infinite_room hroom⟩
  | false =>
    by_cases hint : ∃ room, (Json.lookup payload "room").toInt = .ok room
    · obtain ⟨room, hroomInt⟩ := hint
      rw [parse_room hroomInt]
      cases hseq : (sequenceRaw payload).isInfinite with
      | true =>
        refine .inr ⟨fun h => ?_, .overflowError, ?_⟩
        · exact Bool.false_ne_true ((h.2 ⟨room, hroomInt⟩).1.symm.trans hseq)
        · rw [intOr_infinite hseq]
          rfl
      | false =>
        obtain ⟨sequence, hsequence, -⟩ := intOr_finite hseq
        rw [hsequence]
        rcases priceVolumeLevels_spec (Json.lookup payload "bp") (Json.lookup payload "bv") with
          ⟨hbidside, bids, hbids, hbidmap⟩ | ⟨hbidside, e, he⟩
        · rcases priceVolumeLevels_spec (Json.lookup payload "op") (Json.lookup payload "ov") with
            ⟨haskside, asks, hasks, haskmap⟩ | ⟨haskside, e, he⟩
          · rw [hbids, hasks]
            refine .inl ⟨⟨hroom, fun _ => ⟨hseq, hbidside, haskside⟩⟩, _, rfl, ?_⟩
            intro book hbook
            obtain rfl := Option.some.inj hbook
            exact sound_of_sides hbidmap haskmap
          · rw [hbids, he]
            exact .inr ⟨fun h => haskside (h.2 ⟨room, hroomInt⟩).2.2, e, rfl⟩
        · rw [he]
          exact .inr ⟨fun h => hbidside (h.2 ⟨room, hroomInt⟩).2.1, e, rfl⟩
    · refine .inl ⟨⟨hroom, fun h => absurd h hint⟩, none, parse_no_room hroom hint, ?_⟩
      intro book hbook
      cases hbook

/-- The parser returns, and what it returns is what the payload says, exactly for a readable
    payload. -/
theorem parse_total_iff (payload : Dict) :
    (∃ r, parseBidOfferPayload payload = .ok r ∧ ∀ book, r = some book → Sound payload book) ↔
      Readable payload := by
  rcases parse_spec payload with ⟨hreadable, hparse⟩ | ⟨hunreadable, e, he⟩
  · exact iff_of_true hparse hreadable
  · refine iff_of_false ?_ hunreadable
    rintro ⟨r, hr, -⟩
    rw [he] at hr
    cases hr

/-- A second bid at NaN. -/
def nanPayload : Dict :=
  [("room", .int 7), ("vs", .int 1), ("bp", .arr [.str "10.50", .special .nan]),
    ("bv", .arr [.int 100, .int 5]), ("op", .arr []), ("ov", .arr [])]

/-- The comparison with 0 is outside the handler. -/
theorem nan_price_escapes :
    ¬ ∀ payload, ∃ r, parseBidOfferPayload payload = .ok r ∧
      ∀ book, r = some book → Sound payload book := by
  intro h
  obtain ⟨r, hr, -⟩ := h nanPayload
  have hraises : parseBidOfferPayload nanPayload = .error .invalidOperation := by decide +kernel
  rw [hraises] at hr
  cases hr

/-! ## The feed -/

/-- A normalized L2 snapshot; index 0 is the best level. -/
structure OrderBook where
  symbol : String
  market : Market
  bidLevels : List OrderBookLevel
  askLevels : List OrderBookLevel
  bidFlag : String := "NORMAL"
  askFlag : String := "NORMAL"
  sequence : Int
  receivedAt : Time
  deriving DecidableEq

/-- `best_bid`. -/
def OrderBook.bestBid (book : OrderBook) : Option OrderBookLevel := book.bidLevels.head?

/-- `best_ask`. -/
def OrderBook.bestAsk (book : OrderBook) : Option OrderBookLevel := book.askLevels.head?

/-- `_handle_frame` of an update: the book it emits, for a room that is subscribed. -/
def handleFrame (byRoom : Int → Option (String × Market)) (receivedAt : Time) (payload : Dict) :
    Except PyError (Option OrderBook) := do
  let parsed ← parseBidOfferPayload payload
  return parsed.bind fun book => (byRoom book.room).bind fun (symbol, market) =>
    if book.bids.isEmpty && book.asks.isEmpty then none
    else some { symbol, market, bidLevels := book.bids, askLevels := book.asks,
                sequence := book.sequence, receivedAt }

/-- `async for raw in ws`, inside `_run`, which handles none of the `PyError`s: the books that
    were emitted, and the exception that ended the task. -/
def readFrames (byRoom : Int → Option (String × Market)) :
    List (Time × Dict) → List OrderBook × Option PyError
  | [] => ([], none)
  | (receivedAt, payload) :: frames =>
    match handleFrame byRoom receivedAt payload with
    | .error e => ([], some e)
    | .ok book => (book.toList ++ (readFrames byRoom frames).1, (readFrames byRoom frames).2)

section Reading

variable {byRoom : Int → Option (String × Market)} {receivedAt : Time} {payload : Dict}

theorem handleFrame_spec (byRoom : Int → Option (String × Market)) (receivedAt : Time)
    (payload : Dict) :
    Readable payload ∧ (∃ book, handleFrame byRoom receivedAt payload = .ok book) ∨
    ¬ Readable payload ∧ ∃ e, handleFrame byRoom receivedAt payload = .error e := by
  unfold handleFrame
  rcases parse_spec payload with ⟨hreadable, r, hr, -⟩ | ⟨hunreadable, e, he⟩
  · rw [hr]
    exact .inl ⟨hreadable, _, rfl⟩
  · rw [he]
    exact .inr ⟨hunreadable, e, rfl⟩

/-- Every level of an emitted book has a positive price. -/
theorem handleFrame_positive {book : OrderBook}
    (h : handleFrame byRoom receivedAt payload = .ok (some book)) :
    ∀ level ∈ book.bidLevels ++ book.askLevels, level.price.isPos = true := by
  unfold handleFrame at h
  rcases parse_spec payload with ⟨-, r, hr, hsound⟩ | ⟨-, e, he⟩
  · rw [hr] at h
    obtain ⟨parsed, rfl, hbook⟩ := Option.bind_eq_some_iff.mp (Except.ok.inj h)
    obtain ⟨⟨symbol, market⟩, -, hbook⟩ := Option.bind_eq_some_iff.mp hbook
    dsimp only at hbook
    split at hbook
    · cases hbook
    · obtain rfl := Option.some.inj hbook
      exact fun level hlevel => ((hsound parsed rfl).positive level hlevel).1
  · rw [he] at h
    cases h

/-- The reader lives as long as its frames are readable. -/
theorem readFrames_lives_iff (frames : List (Time × Dict)) :
    (readFrames byRoom frames).2 = none ↔ ∀ frame ∈ frames, Readable frame.2 := by
  induction frames with
  | nil => exact iff_of_true rfl fun _ h => absurd h List.not_mem_nil
  | cons frame frames ih =>
    obtain ⟨receivedAt, payload⟩ := frame
    rw [List.forall_mem_cons, readFrames]
    rcases handleFrame_spec byRoom receivedAt payload with
      ⟨hreadable, book, hbook⟩ | ⟨hunreadable, e, he⟩
    · rw [hbook]
      exact ih.trans (and_iff_right hreadable).symm
    · rw [he]
      exact iff_of_false (fun h => nomatch h) fun h => hunreadable h.1

/-- After the first frame that is not, nothing is emitted. -/
theorem readFrames_stops {good rest : List (Time × Dict)}
    (hgood : ∀ frame ∈ good, Readable frame.2) (hbad : ¬ Readable payload) :
    (readFrames byRoom (good ++ (receivedAt, payload) :: rest)).1 = (readFrames byRoom good).1 := by
  induction good with
  | nil =>
    rcases handleFrame_spec byRoom receivedAt payload with
      ⟨hreadable, -⟩ | ⟨-, e, he⟩
    · exact absurd hreadable hbad
    · show (readFrames byRoom ((receivedAt, payload) :: rest)).1 = []
      rw [readFrames, he]
  | cons frame good ih =>
    obtain ⟨hframe, hgood⟩ := List.forall_mem_cons.mp hgood
    rcases handleFrame_spec byRoom frame.1 frame.2 with
      ⟨-, book, hbook⟩ | ⟨hunreadable, -⟩
    · rw [List.cons_append, readFrames, readFrames, hbook]
      exact congrArg (book.toList ++ ·) (ih hgood)
    · exact absurd hframe hunreadable

end Reading

end ExecutionEngine.BidOffer
