/-
  Streaming Pro order rows, from decoded JSON to `VenueOrderRow`.

  The aliases, the defaults and the time validator that runs before the fields are the
  code's own. What pydantic makes of one value (`Coercions`) and what the standard library
  reads in a text (`Clocks`) are parameters, and nothing is assumed of them.

  `modelValidate` takes exactly the `Acceptable` rows. A date and time without an offset
  comes out of it naive, and the matcher raises on such a row (`times_safe_iff`). One row
  that is not acceptable takes the whole book with it (`insert_harmless_iff`).
-/
import ExecutionEngine.Contracts.Numerals
import ExecutionEngine.Encoding.Isoformat
import ExecutionEngine.Core.Matching
import ExecutionEngine.Adapters.Envelopes

namespace ExecutionEngine.StreamingPro

/-! ## What is not the code's own -/

/-- What pydantic makes of a value for a field of this type, in its lax mode. -/
structure Coercions where
  str : Json → Option String
  int : Json → Option Int
  decimal : Json → Option Decimal
  datetime : Json → Option Stamp

/-- `str` of a value, the two readers of `datetime` (where they do not raise `ValueError`), and
    the offset of the venue's zone at a local time. -/
structure Clocks where
  str : Json → String
  strptime : String → Option Int
  fromisoformat : String → Option Stamp
  venueOffset : Int → Int

variable (C : Coercions) (B : Clocks)

/-! ## The fields -/

/-- The value under the first of the keys that is there: the aliases, then the field's name. -/
def present (data : Dict) (keys : List String) : Option Json :=
  keys.findSome? fun key => (data.find? fun f => f.1 = key).map Prod.snd

/-- A field with a default. -/
def field {α : Type} (coerce : Json → Option α) (default : α) (keys : List String) (data : Dict) :
    Option α :=
  match present data keys with
  | none => some default
  | some v => coerce v

/-- A field that takes null. -/
def nullable {α : Type} (coerce : Json → Option α) : Json → Option (Option α)
  | .null => some none
  | v => (coerce v).map some

def orderNoKeys : List String := ["orderNo", "order_no"]
def accountNoKeys : List String := ["accountNo", "account_no"]
def extOrderNoKeys : List String := ["extOrderNo", "ext_order_no"]
def orderNoFisKeys : List String := ["orderNoFis", "order_no_fis"]
def priceTypeKeys : List String := ["priceType", "price_type"]
def rejectReasonKeys : List String := ["rejectReason", "reject_reason"]
def validityTypeKeys : List String := ["validity", "validity_type"]
def volumeKeys : List String := ["qty", "vol", "volume"]
def matchedKeys : List String := ["matchQty", "matched"]
def balanceKeys : List String := ["balanceQty", "balance"]
def cancelledKeys : List String := ["cancelQty", "cancelled"]
def statusShowKeys : List String := ["showStatus", "showOrderStatus", "status_show"]
def entryTimeKeys : List String := ["entryTime", "entry_time"]

/-! ## The time validator -/

/-- The `entryTime` that the validator looks at. -/
inductive RawTime where
  /-- Absent, or null. -/
  | missing
  /-- Not a text, or a blank one. -/
  | unusable
  | text (s : String)
  deriving DecidableEq

def rawTime (data : Dict) : RawTime :=
  match Json.lookup data "entryTime" with
  | .null => .missing
  | .str s => if (strip s).isEmpty then .unusable else .text (strip s)
  | _ => .unusable

/-- `len(text) <= 8 and ":" in text`. -/
def timeOnly (text : String) : Bool := text.length ≤ 8 && text.toList.contains ':'

/-- `str(data.get("entryDate") or "").strip()`. -/
def datePart (data : Dict) : String :=
  let raw := Json.lookup data "entryDate"
  strip (if truthy raw then B.str raw else "")

/-- `composed.replace(tzinfo=_VENUE_TZ)`. -/
def anchored (wall : Int) : Stamp := .aware (wall - B.venueOffset wall)

/-- What `_compose_entry_time` puts in place of `entryTime`, if it replaces it. -/
def composeEntryTime (data : Dict) : Option (Option Stamp) :=
  match rawTime data with
  | .missing => none
  | .unusable => some none
  | .text text =>
    if timeOnly text then some ((B.strptime (datePart B data ++ " " ++ text)).map (anchored B))
    else some (B.fromisoformat text)

/-- The `entry_time` field, after the validator. -/
def entryTimeOf (data : Dict) : Option (Option Stamp) :=
  match composeEntryTime B data with
  | some composed => some composed
  | none => field (nullable C.datetime) none entryTimeKeys data

/-! ## A row -/

/-- `VenueOrderRow.model_validate`, where it does not raise. -/
def modelValidate (data : Dict) : Option VenueOrderRow := do
  let orderNo ← (present data orderNoKeys).bind C.str
  let accountNo ← field C.str "" accountNoKeys data
  let extOrderNo ← field C.str "" extOrderNoKeys data
  let orderNoFis ← field C.str "" orderNoFisKeys data
  let symbol ← field C.str "" ["symbol"] data
  let side ← field C.str "" ["side"] data
  let position ← field (nullable C.str) none ["position"] data
  let priceType ← field C.str "" priceTypeKeys data
  let price ← field (nullable C.decimal) none ["price"] data
  let status ← field C.str "" ["status"] data
  let rejectReason ← field C.str "" rejectReasonKeys data
  let validityType ← field C.str "" validityTypeKeys data
  let volume ← field C.int 0 volumeKeys data
  let matched ← field C.int 0 matchedKeys data
  let balance ← field C.int 0 balanceKeys data
  let cancelled ← field C.int 0 cancelledKeys data
  let statusShow ← field C.str "" statusShowKeys data
  let entryTime ← entryTimeOf C B data
  return { orderNo, accountNo, extOrderNo, orderNoFis, symbol, side, position, priceType, price,
           status, rejectReason, validityType, volume, matched, balance, cancelled, statusShow,
           entryTime }

/-- `VenueOrderRow.model_validate`. -/
def validate (data : Dict) : Except Exn VenueOrderRow :=
  match modelValidate C B data with
  | some row => .ok row
  | none => .error (.validationError "VenueOrderRow")

/-! ## Which rows are taken -/

/-- A value under one of the keys is one that the field takes. -/
def Fits {α : Type} (coerce : Json → Option α) (keys : List String) (data : Dict) : Prop :=
  ∀ v, present data keys = some v → (coerce v).isSome = true

def optionalTexts : List (List String) :=
  [accountNoKeys, extOrderNoKeys, orderNoFisKeys, ["symbol"], ["side"], priceTypeKeys, ["status"],
   rejectReasonKeys, validityTypeKeys, statusShowKeys]

def counts : List (List String) := [volumeKeys, matchedKeys, balanceKeys, cancelledKeys]

/-- Every field of the row has a value that pydantic takes, where it has one, and the order
    number has one. Of the times only an `entry_time` in the place of `entryTime` counts. -/
structure Acceptable (data : Dict) : Prop where
  orderNo : ∃ v, present data orderNoKeys = some v ∧ (C.str v).isSome = true
  texts : ∀ keys ∈ optionalTexts, Fits C.str keys data
  position : Fits (nullable C.str) ["position"] data
  price : Fits (nullable C.decimal) ["price"] data
  counts : ∀ keys ∈ counts, Fits C.int keys data
  entryTime : rawTime data = .missing → Fits (nullable C.datetime) entryTimeKeys data

theorem field_isSome {α : Type} {coerce : Json → Option α} {default : α} {keys : List String}
    {data : Dict} : (field coerce default keys data).isSome = true ↔ Fits coerce keys data := by
  unfold field Fits
  cases present data keys <;> simp

theorem composeEntryTime_none {data : Dict} :
    composeEntryTime B data = none ↔ rawTime data = .missing := by
  unfold composeEntryTime
  cases rawTime data with
  | missing => simp
  | unusable => simp
  | text s => dsimp only; split <;> simp

theorem entryTimeOf_isSome {data : Dict} :
    (entryTimeOf C B data).isSome = true ↔
      (rawTime data = .missing → Fits (nullable C.datetime) entryTimeKeys data) := by
  rw [← composeEntryTime_none B, entryTimeOf]
  cases composeEntryTime B data with
  | none => simp [field_isSome]
  | some composed => simp

/-- Whether a field fits does not depend on the fields before it. -/
theorem isSome_bind {α β : Type} {x : Option α} {f : α → Option β} {P Q : Prop}
    (hx : x.isSome = true ↔ P) (hf : ∀ a, (f a).isSome = true ↔ Q) :
    (x.bind f).isSome = true ↔ P ∧ Q := by
  cases x with
  | none => simp [← hx]
  | some a => simp [hf a, ← hx]

/-- The model takes exactly the acceptable rows. -/
theorem modelValidate_isSome {data : Dict} :
    (modelValidate C B data).isSome = true ↔ Acceptable C data := by
  have hno : ((present data orderNoKeys).bind C.str).isSome = true ↔
      ∃ v, present data orderNoKeys = some v ∧ (C.str v).isSome = true := by
    cases present data orderNoKeys <;> simp
  -- the fields in the order of the class
  refine (isSome_bind hno fun _ => isSome_bind field_isSome fun _ => isSome_bind field_isSome
    fun _ => isSome_bind field_isSome fun _ => isSome_bind field_isSome fun _ =>
    isSome_bind field_isSome fun _ => isSome_bind field_isSome fun _ => isSome_bind field_isSome
    fun _ => isSome_bind field_isSome fun _ => isSome_bind field_isSome fun _ =>
    isSome_bind field_isSome fun _ => isSome_bind field_isSome fun _ => isSome_bind field_isSome
    fun _ => isSome_bind field_isSome fun _ => isSome_bind field_isSome fun _ =>
    isSome_bind field_isSome fun _ => isSome_bind field_isSome fun _ =>
    isSome_bind (entryTimeOf_isSome C B) fun _ => iff_true_intro rfl).trans ?_
  constructor
  · rintro ⟨h0, h1, h2, h3, h4, h5, h6, h7, h8, h9, h10, h11, h12, h13, h14, h15, h16, h17, -⟩
    refine ⟨h0, ?_, h6, h8, ?_, h17⟩
    · simp [optionalTexts, h1, h2, h3, h4, h5, h7, h9, h10, h11, h16]
    · simp [StreamingPro.counts, h12, h13, h14, h15]
  · rintro ⟨h0, htexts, h6, h8, hcounts, h17⟩
    simp only [optionalTexts, List.forall_mem_cons] at htexts
    simp only [StreamingPro.counts, List.forall_mem_cons] at hcounts
    obtain ⟨h1, h2, h3, h4, h5, h7, h9, h10, h11, h16, -⟩ := htexts
    obtain ⟨h12, h13, h14, h15, -⟩ := hcounts
    exact ⟨h0, h1, h2, h3, h4, h5, h6, h7, h8, h9, h10, h11, h12, h13, h14, h15, h16, h17, trivial⟩

theorem modelValidate_entryTime {data : Dict} {row : VenueOrderRow}
    (h : modelValidate C B data = some row) : entryTimeOf C B data = some row.entryTime := by
  unfold modelValidate at h
  iterate 17 obtain ⟨_, -, h⟩ := Option.bind_eq_some_iff.mp h
  obtain ⟨entryTime, htime, hrow⟩ := Option.bind_eq_some_iff.mp h
  obtain rfl := Option.some.inj hrow
  exact htime

/-! ## The rows of a response -/

/-- The rows that `parse_order_rows` validates. -/
def objectRows (payload : Json) : List Dict :=
  match payload with
  | .obj fields => (wrappedList fields).filterMap Json.asDict
  | .arr items => items.filterMap Json.asDict
  | _ => []

theorem parseOrderRows_eq (validate : Dict → Except Exn VenueOrderRow) (payload : Json) :
    parseOrderRows validate payload = validateAll validate (objectRows payload) := by
  cases payload <;> rfl

/-- All the rows are taken, or the read raises. -/
theorem validateAll_ok {rows : List Dict} {book : List VenueOrderRow} :
    validateAll (validate C B) rows = .ok book ↔ rows.map (modelValidate C B) = book.map some := by
  unfold validateAll
  induction rows generalizing book with
  | nil => cases book <;> simp [pure, Except.pure]
  | cons data rows ih =>
    rw [List.mapM_cons, List.map_cons, validate]
    cases hrow : modelValidate C B data with
    | none => cases book <;> simp [bind, Except.bind]
    | some row =>
      cases hrest : rows.mapM (validate C B) with
      | error e =>
        have hne (rest : List VenueOrderRow) : rows.map (modelValidate C B) ≠ rest.map some := by
          intro hmap
          rw [ih.mpr hmap] at hrest
          cases hrest
        cases book <;> simp [bind, Except.bind, hne]
      | ok rest =>
        rw [ih.mp hrest, ← List.map_cons,
          (List.map_injective_iff.mpr (Option.some_injective _)).eq_iff]
        simp [bind, Except.bind, pure, Except.pure]

theorem mem_book {rows : List Dict} {book : List VenueOrderRow} {row : VenueOrderRow}
    (h : validateAll (validate C B) rows = .ok book) (hrow : row ∈ book) :
    ∃ data ∈ rows, modelValidate C B data = some row := by
  have hmem : some row ∈ book.map some := List.mem_map_of_mem hrow
  rw [← (validateAll_ok C B).mp h] at hmem
  exact List.mem_map.mp hmem

/-! ## Times -/

/-- No reader gives the row a time without an offset: neither `fromisoformat`, of a text that
    carries its own date, nor pydantic, of an `entry_time` in the place of `entryTime`. -/
def Anchored (data : Dict) : Prop :=
  match rawTime data with
  | .missing => ∀ v, present data entryTimeKeys = some v →
      ∀ t, nullable C.datetime v ≠ some (some (.naive t))
  | .unusable => True
  | .text s => timeOnly s = false → ∀ t, B.fromisoformat s ≠ some (.naive t)

/-- A time of day is anchored at the venue's zone, so it is never naive. -/
theorem anchored_iff {data : Dict} :
    Anchored C B data ↔ ∀ t, entryTimeOf C B data ≠ some (some (.naive t)) := by
  unfold Anchored entryTimeOf composeEntryTime
  cases rawTime data with
  | missing =>
    dsimp only [field]
    cases present data entryTimeKeys <;> simp
  | unusable => simp
  | text s =>
    dsimp only
    cases timeOnly s <;> simp [anchored]

/-- The row with these two values under the time keys. -/
def withTimes (time date : Json) (data : Dict) : Dict :=
  ("entryTime", time) :: ("entryDate", date) :: data

theorem present_withTimes {keys : List String} (ht : "entryTime" ∉ keys) (hd : "entryDate" ∉ keys)
    (time date : Json) (data : Dict) :
    present (withTimes time date data) keys = present data keys := by
  unfold present withTimes
  induction keys with
  | nil => rfl
  | cons key keys ih =>
    simp only [List.mem_cons, not_or] at ht hd
    rw [List.findSome?_cons, List.findSome?_cons, ih ht.2 hd.2]
    simp [ht.1, hd.1]

/-- No value of the time keys makes a row unacceptable. -/
theorem acceptable_withTimes {data : Dict} (h : Acceptable C data) (time date : Json) :
    Acceptable C (withTimes time date data) := by
  have hfits {α : Type} {coerce : Json → Option α} {keys : List String}
      (hkeys : "entryTime" ∉ keys ∧ "entryDate" ∉ keys) (hf : Fits coerce keys data) :
      Fits coerce keys (withTimes time date data) := by
    unfold Fits
    rw [present_withTimes hkeys.1 hkeys.2]
    exact hf
  have htexts : ∀ keys ∈ optionalTexts, "entryTime" ∉ keys ∧ "entryDate" ∉ keys := by decide
  have hcounts : ∀ keys ∈ counts, "entryTime" ∉ keys ∧ "entryDate" ∉ keys := by decide
  refine ⟨?_, fun keys hk => hfits (htexts keys hk) (h.texts keys hk),
    hfits (by decide) h.position, hfits (by decide) h.price,
    fun keys hk => hfits (hcounts keys hk) (h.counts keys hk), fun hm v hv => ?_⟩
  · rw [present_withTimes (by decide) (by decide)]
    exact h.orderNo
  · -- only null is missing, and null is a value that the field takes
    have htime : Json.lookup (withTimes time date data) "entryTime" = time := rfl
    have hnull : time = .null := by
      unfold rawTime at hm
      rw [htime] at hm
      split at hm
      · rfl
      · split at hm <;> cases hm
      · cases hm
    have hpresent : present (withTimes time date data) entryTimeKeys = some time := rfl
    rw [hpresent, hnull] at hv
    obtain rfl := Option.some.inj hv
    rfl

/-- What the reconciler needs of the times of a response. -/
structure TimesSafe (payload : Json) : Prop where
  /-- The time of a row that is taken has an offset, or there is none. -/
  aware : ∀ data ∈ objectRows payload, ∀ row, modelValidate C B data = some row →
    ∀ t, row.entryTime ≠ some (.naive t)
  /-- No value of the time keys is a reason to refuse a row. -/
  harmless : ∀ data ∈ objectRows payload, (modelValidate C B data).isSome = true →
    ∀ time date, (modelValidate C B (withTimes time date data)).isSome = true
  /-- The matcher does not raise on the book. -/
  matcher : ∀ book, parseOrderRows (validate C B) payload = .ok book →
    ∀ row claimed, ∃ m, fuzzyMatch row book claimed = .ok m

/-- The times are safe exactly where no row that is taken has a naive one. -/
theorem times_safe_iff (payload : Json) :
    TimesSafe C B payload ↔
      ∀ data ∈ objectRows payload, Acceptable C data → Anchored C B data := by
  constructor
  · intro h data hdata hacc
    obtain ⟨row, hrow⟩ := Option.isSome_iff_exists.mp ((modelValidate_isSome C B).mpr hacc)
    rw [anchored_iff, modelValidate_entryTime C B hrow]
    exact fun t ht => h.aware data hdata row hrow t (Option.some.inj ht)
  · intro h
    have haware : ∀ data ∈ objectRows payload, ∀ row, modelValidate C B data = some row →
        ∀ t, row.entryTime ≠ some (.naive t) := by
      intro data hdata row hrow t ht
      have hacc : Acceptable C data := (modelValidate_isSome C B).mp (by rw [hrow]; rfl)
      refine (anchored_iff C B).mp (h data hdata hacc) t ?_
      rw [modelValidate_entryTime C B hrow, ht]
    refine ⟨haware, fun data _ htaken time date => ?_, fun book hbook row claimed => ?_⟩
    · rw [modelValidate_isSome] at htaken ⊢
      exact acceptable_withTimes C htaken time date
    · rw [parseOrderRows_eq] at hbook
      have hall : Reconcile.Aware book := by
        intro item hitem
        obtain ⟨data, hdata, hrow⟩ := mem_book C B hbook hitem
        exact haware data hdata item hrow
      obtain ⟨cs, hcs⟩ := Reconcile.candidates_aware hall row claimed
      exact ⟨_, by rw [fuzzyMatch, Reconcile.fuzzyMatch, hcs]; rfl⟩

/-! ## Readers of plain values -/

/-- The coercions of the plain JSON values. Texts are not coerced to times here. -/
def plainCoercions : Coercions where
  str
    | .str s => some s
    | _ => none
  int
    | .bool b => some (if b then 1 else 0)
    | .int n => some n
    | .str s => intOfText s
    | _ => none
  decimal v := match v.toDecimal with
    | some (.finite d) => some d
    | _ => none
  datetime _ := none

/-- Days from 1970-01-01, by years that begin in March. -/
def epochDay (year month day : Nat) : Int :=
  let y := if month ≤ 2 then year - 1 else year
  (365 * y + y / 4 - y / 100 + y / 400 + (153 * ((month + 9) % 12) + 2) / 5 + day : Nat) - 719469

/-- A date and time as a point of its zone, in microseconds. -/
def wallTime (d : Datetime) : Int :=
  (((epochDay d.year d.month d.day * 24 + d.hour) * 60 + d.minute) * 60 + d.second) * 1000000 +
    d.microsecond

def stampOf (d : Datetime) : Stamp :=
  match d.utcoffset with
  | some o => .aware (wallTime d - o)
  | none => .naive (wallTime d)

/-- The readers of full ISO texts; Bangkok is seven hours ahead. -/
def isoClocks : Clocks where
  str := Json.pyStr
  strptime text :=
    (Datetime.readIso (text.toList.map fun c => if c = ' ' then 'T' else c)).map wallTime
  fromisoformat text := (Datetime.readIso text.toList).map stampOf
  venueOffset _ := 25200000000

/-- A time of day at the venue, with its date beside it: 04:37:02 UTC. -/
example : entryTimeOf plainCoercions isoClocks
    [("entryDate", .str "2026-08-31"), ("entryTime", .str "11:37:02")] =
      some (some (.aware 1788151022000000)) := by decide +kernel

/-- A SET row with a date and time that has no offset. -/
def localRow : Dict :=
  [("orderNo", .str "73709728"), ("symbol", .str "PTT"), ("side", .str "Buy"), ("vol", .int 100),
   ("entryTime", .str "2026-08-31T11:37:02")]

/-- It is taken with that time, and the matcher raises on the book that holds it. -/
theorem local_time_taken :
    ¬ TimesSafe plainCoercions isoClocks (.arr [.obj localRow]) ∧
      ∃ book, parseOrderRows (validate plainCoercions isoClocks) (.arr [.obj localRow]) = .ok book ∧
        fuzzyMatch (Db.newRow (sampleFields cidA .streamingPro) none 0) book [] =
          .error (.typeError "can't subtract offset-naive and offset-aware datetimes") := by
  have hbook : parseOrderRows (validate plainCoercions isoClocks) (.arr [.obj localRow]) =
      .ok [{ orderNo := "73709728", symbol := "PTT", side := "Buy", volume := 100,
             entryTime := some (.naive 1788176222000000) }] := by rfl
  refine ⟨fun h => ?_, _, hbook, rfl⟩
  obtain ⟨m, hm⟩ := h.matcher _ hbook (Db.newRow (sampleFields cidA .streamingPro) none 0) []
  cases hm

/-! ## Odd rows -/

/-- A value that is put into a list of rows leaves the others alone exactly where it is no object,
    or an acceptable row. -/
theorem insert_harmless_iff {pre post : List Json} {book : List VenueOrderRow}
    (h : parseOrderRows (validate C B) (.arr (pre ++ post)) = .ok book) (v : Json) :
    (∃ book', parseOrderRows (validate C B) (.arr (pre ++ v :: post)) = .ok book' ∧
        book.Sublist book') ↔
      ∀ data, v = .obj data → Acceptable C data := by
  simp only [parseOrderRows_eq, objectRows, validateAll_ok, List.filterMap_append,
    List.map_append] at h ⊢
  obtain ⟨front, back, rfl, hfront, hback⟩ := List.append_eq_map_iff.mp h
  cases hv : v.asDict with
  | none =>
    rw [List.filterMap_cons_none hv]
    refine iff_of_true ⟨front ++ back, h, List.Sublist.refl _⟩ ?_
    rintro data rfl
    cases hv
  | some fields =>
    obtain rfl : v = .obj fields := by
      cases v with
      | obj f => rw [Option.some.inj hv]
      | _ => cases hv
    rw [List.filterMap_cons_some hv, List.map_cons]
    constructor
    · rintro ⟨book', hbook', -⟩ data hdata
      obtain rfl := Json.obj.inj hdata
      rw [← modelValidate_isSome C B]
      have hmem : modelValidate C B fields ∈ book'.map some := by
        rw [← hbook']
        simp
      obtain ⟨row, -, hrow⟩ := List.mem_map.mp hmem
      rw [← hrow]
      rfl
    · intro hacc
      obtain ⟨row, hrow⟩ :=
        Option.isSome_iff_exists.mp ((modelValidate_isSome C B).mpr (hacc fields rfl))
      refine ⟨front ++ row :: back, ?_, ?_⟩
      · rw [hrow, ← hfront, ← hback]
        simp
      · exact (List.Sublist.refl front).append (List.sublist_cons_self row back)

/-- One row without an order number, in a book of one order. -/
theorem odd_row_blinds :
    ∃ book, parseOrderRows (validate plainCoercions isoClocks)
        (.arr ([] ++ [.obj [("orderNo", .str "73709728")]])) = .ok book ∧
      ¬ ∃ book', parseOrderRows (validate plainCoercions isoClocks)
        (.arr ([] ++ .obj [] :: [.obj [("orderNo", .str "73709728")]])) = .ok book' ∧
          book.Sublist book' := by
  refine ⟨[{ orderNo := "73709728" }], rfl, ?_⟩
  rintro ⟨book', h, -⟩
  cases h

/-- Null beside it does no harm. -/
theorem null_row_harmless :
    ∃ book', parseOrderRows (validate plainCoercions isoClocks)
        (.arr ([] ++ .null :: [.obj [("orderNo", .str "73709728")]])) = .ok book' ∧
      [({ orderNo := "73709728" } : VenueOrderRow)].Sublist book' :=
  (insert_harmless_iff plainCoercions isoClocks rfl .null).mpr fun data h => by cases h

/-! ## The identifier of a SET cancel -/

/-- `_lookup_ext_order_no`, of the response to `GET /orders`. -/
def lookupExtOrderNo (response : Except Exn Json) (orderNo : String) : Except Exn (Option String) :=
  match response.bind (parseOrderRows (validate C B)) with
  | .error (.transportError _) => .ok none
  | .error (.validationError _) => .ok none
  | .error er => .error er
  | .ok rows => .ok ((rows.find? fun r => r.orderNo = orderNo).bind fun row =>
      let found := if row.extOrderNo.isEmpty then row.orderNoFis else row.extOrderNo
      if found.isEmpty then none else some found)

theorem validateAll_refuses {rows : List Dict} {data : Dict} (hmem : data ∈ rows)
    (hodd : ¬ Acceptable C data) :
    validateAll (validate C B) rows = .error (.validationError "VenueOrderRow") := by
  unfold validateAll
  induction rows with
  | nil => cases hmem
  | cons first rows ih =>
    rw [List.mapM_cons, validate]
    cases hfirst : modelValidate C B first with
    | none => rfl
    | some row =>
      have hrest : data ∈ rows := by
        rcases List.mem_cons.mp hmem with rfl | hrest
        · exact absurd ((modelValidate_isSome C B).mp (by rw [hfirst]; rfl)) hodd
        · exact hrest
      rw [ih hrest]
      rfl

/-- With one odd row in the book no order of the account has an identifier to cancel with. -/
theorem lookup_blinded {items : List Json} {data : Dict} (hmem : .obj data ∈ items)
    (hodd : ¬ Acceptable C data) (orderNo : String) :
    lookupExtOrderNo C B (.ok (.arr items)) orderNo = .ok none := by
  have hrows : data ∈ objectRows (.arr items) := List.mem_filterMap.mpr ⟨_, hmem, rfl⟩
  have hparse : (Except.ok (.arr items) : Except Exn Json).bind
      (parseOrderRows (validate C B)) = .error (.validationError "VenueOrderRow") :=
    (parseOrderRows_eq _ _).trans (validateAll_refuses C B hrows hodd)
  rw [lookupExtOrderNo, hparse]

end ExecutionEngine.StreamingPro
