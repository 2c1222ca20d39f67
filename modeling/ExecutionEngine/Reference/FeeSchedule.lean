/-
  The fee schedule: an append-only series of dated entries for each field of an
  instrument, read as of a date.

  `load` is the loader, down from what the TOML parser makes of the file, and
  `appendEntry` is what the parser makes of the file once a series has one more entry.
  What `date.fromisoformat` and `datetime.fromisoformat` read in a text is a parameter
  (`Readers`), and nothing is assumed of it.

  `resolve` returns the entry in force of the series in the order it was appended
  (`Dated.InForce`), if it has an age and is not refused for it (`resolve_ok_iff`), and an
  entry that is appended changes nothing before its date (`keepsPast`). An entry has an
  age where the moment it was recorded subtracts from now; the refusals of entries that
  have one are those of stale ones, unless `allow_stale` is passed (`appended_series_resolves`).
-/
import ExecutionEngine.Contracts.Numerals
import ExecutionEngine.Adapters.ProRows
import ExecutionEngine.Containers.Odict
import ExecutionEngine.Dated.Series

namespace ExecutionEngine.Fees

/-! ## TOML -/

/-- A value of a TOML document; dates and times are carried as the text `str` gives them. -/
inductive Toml where
  | str (s : String)
  | int (n : Int)
  | float (d : Decimal)
  | special (x : NonFinite)
  | bool (b : Bool)
  | moment (text : String)
  | arr (items : List Toml)
  | table (fields : List (String × Toml))

abbrev Table := List (String × Toml)

namespace Toml

/-- `str(v)`. Containers are abbreviated: the text is only ever shown. -/
def pyStr : Toml → String
  | .str s => s
  | .int n => toString n
  | .float d => d.floatStr
  | .special x => x.pyStr
  | .bool true => "True"
  | .bool false => "False"
  | .moment text => text
  | .arr _ => "[...]"
  | .table _ => "\x7b...\x7d"

/-- `bool(v)`. -/
def truthy : Toml → Bool
  | .str s => !s.isEmpty
  | .int n => n ≠ 0
  | .float d => d.coeff ≠ 0
  | .special _ => true
  | .bool b => b
  | .moment _ => true
  | .arr items => !items.isEmpty
  | .table fields => !fields.isEmpty

/-- `int(v)`. -/
def toInt : Toml → Except PyError Int
  | .str s => match intOfText s with
    | some n => .ok n
    | none => .error .valueError
  | .int n => .ok n
  | .float d => .ok d.floatToInt
  | .special .nan => .error .valueError
  | .special _ => .error .overflowError
  | .bool b => .ok (if b then 1 else 0)
  | _ => .error .typeError

end Toml

/-- What the parser makes of a document to which an entry is added: the array under the path gets
    one more table. It is written as a block `[[path]]` at the end, or between the brackets of an
    array that stands inline, after which TOML takes no such block; what is parsed is the same.
    `none` is a path that leads to something other than an array. -/
def appendEntry (block : Table) : List String → Table → Option Table
  | [], _ => none
  | [key], doc =>
    match doc.lookup key with
    | none => some (Odict.set key (.arr [.table block]) doc)
    | some (.arr items) => some (Odict.set key (.arr (items ++ [.table block])) doc)
    | some _ => none
  | key :: path, doc =>
    match doc.lookup key with
    | none => (appendEntry block path []).map fun sub => Odict.set key (.table sub) doc
    | some (.table sub) => (appendEntry block path sub).map fun sub => Odict.set key (.table sub) doc
    | some (.arr items) =>
      match items.getLast? with
      | some (.table sub) => (appendEntry block path sub).map fun sub =>
          Odict.set key (.arr (items.dropLast ++ [.table sub])) doc
      | _ => none
    | some _ => none

/-! ## The schedule -/

/-- The number of a calendar day. -/
abbrev Date := Int

/-- The readers of ISO texts, where they do not raise `ValueError`. -/
structure Readers where
  date : String → Option Date
  datetime : String → Option Stamp

/-- What the loader and the readers raise, with what the text of it reports. -/
inductive FeeError where
  | py (e : PyError)
  | attributeError
  | indexError
  | sourceKind (key kind : String)
  | unquoted (key : String)
  | noInstrument (instrument : String) (known gaps : List String)
  | noField (instrument field : String) (known : List String)
  | noneEffective (instrument field : String) (on earliest : Date)
  | stale (instrument field : String) (age : Int) (recordedUtc : Stamp) (maxAgeDays : Int)
    (source : String)
  deriving DecidableEq

/-- One dated basis entry. -/
structure FeeEntry where
  key : String
  value : AnyDecimal
  unit : String
  sourceKind : String
  source : String
  corroborated : Bool
  effectiveFrom : Date
  recordedUtc : Stamp
  maxAgeDays : Int
  note : String := ""
  verbatim : String := ""
  deriving DecidableEq

/-- One moment less another, in microseconds; a moment with an offset and one without do not
    subtract. -/
def minus : Stamp → Stamp → Except FeeError Int
  | .aware a, .aware b => .ok (a - b)
  | .naive a, .naive b => .ok (a - b)
  | _, _ => .error (.py .typeError)

namespace FeeEntry

/-- `age_days`, at the moment `now or datetime.now(UTC)`. -/
def ageDays (e : FeeEntry) (now : Stamp) : Except FeeError Int :=
  (minus now e.recordedUtc).map fun us => us / 86400000000

/-- `is_stale`. -/
def isStale (e : FeeEntry) (now : Stamp) : Except FeeError Bool :=
  (e.ageDays now).map fun age => e.maxAgeDays < age

end FeeEntry

/-- A field's series, oldest first. -/
structure Series where
  entries : List FeeEntry
  oldest_first : entries.Pairwise fun a b => a.effectiveFrom ≤ b.effectiveFrom

/-- `tuple(sorted(parsed, key=lambda e: e.effective_from))`. -/
def Series.sorted (parsed : List FeeEntry) : Series :=
  ⟨Dated.oldestFirst FeeEntry.effectiveFrom parsed, Dated.pairwise_oldestFirst _ parsed⟩

structure Instrument where
  key : String
  label : String
  venue : String
  ticker : String
  broker : String
  series : List (String × Series)

/-- A class deliberately not made canonical, and what would change that. -/
structure Gap where
  instrument : String
  label : String
  whatExists : String
  whereFound : String
  whyNotCanonical : String
  whatWouldCloseIt : String

structure FeeSchedule where
  schemaVersion : Int
  currency : String
  instruments : List (String × Instrument)
  gaps : List Gap

namespace FeeSchedule

/-- `series_for`. -/
def seriesFor (S : FeeSchedule) (instrument field : String) : Except FeeError Series :=
  match S.instruments.lookup instrument with
  | none => .error (.noInstrument instrument (S.instruments.map Prod.fst)
      (S.gaps.map Gap.instrument))
  | some inst =>
    match inst.series.lookup field with
    | none => .error (.noField instrument field (inst.series.map Prod.fst))
    | some series => .ok series

/-- `resolve` of a series: the staleness of the entry is asked for first. -/
def resolveIn (instrument field : String) (series : Series) (on : Date) (allowStale : Bool)
    (now : Stamp) : Except FeeError FeeEntry :=
  match Dated.lastApplicable FeeEntry.effectiveFrom on series.entries with
  | none =>
    match series.entries with
    | [] => .error .indexError
    | earliest :: _ => .error (.noneEffective instrument field on earliest.effectiveFrom)
  | some entry => do
    let isStale ← entry.isStale now
    if isStale && !allowStale then
      throw (.stale instrument field (← entry.ageDays now) entry.recordedUtc entry.maxAgeDays
        entry.source)
    return entry

/-- `resolve`: the entry in force on a date that the caller must supply. -/
def resolve (S : FeeSchedule) (instrument field : String) (on : Date) (allowStale : Bool)
    (now : Stamp) : Except FeeError FeeEntry :=
  match S.seriesFor instrument field with
  | .error e => .error e
  | .ok series => resolveIn instrument field series on allowStale now

end FeeSchedule

/-! ## The loader -/

def sourceKinds : List String :=
  ["operator_supplied", "venue_fetched", "derived", "observed_adopted"]

/-- `raw[key]`. -/
def item (raw : Table) (key : String) : Except FeeError Toml :=
  match raw.lookup key with
  | some v => .ok v
  | none => .error (.py .keyError)

/-- `str(raw[key])`. -/
def text (raw : Table) (key : String) : Except FeeError String :=
  (item raw key).map Toml.pyStr

/-- `str(raw.get(key, "")).strip()`. -/
def optionalText (raw : Table) (key : String) : String :=
  strip (((raw.lookup key).map Toml.pyStr).getD "")

/-- `v.items()`. -/
def items : Toml → Except FeeError Table
  | .table fields => .ok fields
  | _ => .error .attributeError

/-- `v[..]` on what should be a table. -/
def subscript : Toml → Except FeeError Table
  | .table fields => .ok fields
  | _ => .error (.py .typeError)

/-- `text.replace("Z", "+00:00")`. -/
def zuluToOffset (text : String) : String :=
  String.ofList (text.toList.flatMap fun c => if c = 'Z' then "+00:00".toList else [c])

/-- A result, or the exception that stands for there being none. -/
def orRaise {α : Type} (e : PyError) : Option α → Except FeeError α
  | some a => .ok a
  | none => .error (.py e)

section Loader

variable (R : Readers)

/-- `_entry`. -/
def entry (key : String) (raw : Table) : Except FeeError FeeEntry := do
  let kind ← text raw "source_kind"
  if kind ∉ sourceKinds then throw (.sourceKind key kind)
  let value ← match ← item raw "value" with
    | .str s => orRaise .invalidOperation (AnyDecimal.ofText s)
    | _ => throw (.unquoted key)
  let unit ← text raw "unit"
  let source ← text raw "source"
  let corroborated ← (item raw "corroborated").map Toml.truthy
  let effectiveFrom ← orRaise .valueError (R.date (← text raw "effective_from"))
  let recordedUtc ← orRaise .valueError (R.datetime (zuluToOffset (← text raw "recorded_utc")))
  let maxAgeDays ← match (← item raw "max_age_days").toInt with
    | .ok n => pure n
    | .error e => throw (.py e)
  return { key, value, unit, sourceKind := kind, source, corroborated, effectiveFrom, recordedUtc,
           maxAgeDays, note := optionalText raw "note", verbatim := optionalText raw "verbatim" }

/-- The list comprehension over one field's blocks. -/
def parsedEntries (instrument field : String) (blocks : List Toml) :
    Except FeeError (List FeeEntry) :=
  blocks.mapM fun block => do entry R (instrument ++ "." ++ field) (← subscript block)

/-- `isinstance(fv, list)`. -/
def listed : Table → List (String × List Toml)
  | [] => []
  | (field, .arr blocks) :: rest => (field, blocks) :: listed rest
  | _ :: rest => listed rest

/-- The loop over an instrument's fields. -/
def seriesOf (key : String) (fields : Table) : Except FeeError (List (String × Series)) :=
  Odict.entries (fun field blocks => (parsedEntries R key field blocks).map Series.sorted)
    (listed fields)

/-- The instrument with these series. -/
def described (key : String) (fields : Table) (series : List (String × Series)) :
    Except FeeError Instrument := do
  let label ← text fields "label"
  let venue ← text fields "venue"
  let ticker ← text fields "ticker"
  let broker ← text fields "broker"
  return { key, label, venue, ticker, broker, series }

/-- One turn of the loop over the instruments. -/
def instrumentOf (key : String) (block : Toml) : Except FeeError Instrument := do
  let fields ← items block
  described key fields (← seriesOf R key fields)

/-- One of `raw.get("gap", [])`. -/
def gapOf (g : Toml) : Except FeeError Gap := do
  let raw ← subscript g
  let instrument ← text raw "instrument"
  let label ← text raw "label"
  let whatExists ← text raw "what_exists"
  let whereFound ← text raw "where"
  let whyNotCanonical ← text raw "why_not_canonical"
  let whatWouldCloseIt ← text raw "what_would_close_it"
  return { instrument, label, whatExists := strip whatExists, whereFound := strip whereFound,
           whyNotCanonical := strip whyNotCanonical,
           whatWouldCloseIt := strip whatWouldCloseIt }

/-- `for g in v`. -/
def iterate : Option Toml → Except FeeError (List Toml)
  | none => .ok []
  | some (.arr gs) => .ok gs
  | some (.table fields) => .ok (fields.map fun x => .str x.1)
  | some (.str s) => .ok (s.toList.map fun c => .str (String.singleton c))
  | some _ => .error (.py .typeError)

/-- The part of the document besides the instruments. -/
def frontMatter (raw : Table) : Except FeeError (List Gap × Int × String) := do
  let gaps ← (← iterate (raw.lookup "gap")).mapM gapOf
  let schemaVersion ← match (← item raw "schema_version").toInt with
    | .ok n => pure n
    | .error e => throw (.py e)
  let currency ← text (← subscript (← item raw "meta")) "currency"
  return (gaps, schemaVersion, currency)

/-- `load_fee_schedule`, of the parsed document. -/
def load (raw : Table) : Except FeeError FeeSchedule := do
  let blocks ← items (← item raw "instrument")
  let instruments ← Odict.entries (instrumentOf R) blocks
  let (gaps, schemaVersion, currency) ← frontMatter raw
  return { schemaVersion, currency, instruments, gaps }

end Loader

/-! ## Resolving -/

/-- Two moments that subtract: both have an offset, or neither has. -/
def comparable : Stamp → Stamp → Bool
  | .aware _, .aware _ => true
  | .naive _, .naive _ => true
  | _, _ => false

/-- The entry in force on a date, of a series in the order it was appended. -/
abbrev InForce (on : Date) (parsed : List FeeEntry) (x : FeeEntry) : Prop :=
  Dated.InForce FeeEntry.effectiveFrom on parsed x

namespace FeeEntry

variable {x : FeeEntry} {now : Stamp} {allowStale : Bool}

/-- `resolve` gets past the entry's staleness. -/
def Accepted (x : FeeEntry) (allowStale : Bool) (now : Stamp) : Prop :=
  ∃ isStale, x.isStale now = .ok isStale ∧ (isStale && !allowStale) = false

theorem isStale_comparable (h : comparable now x.recordedUtc = true) :
    ∃ isStale, x.isStale now = .ok isStale := by
  unfold isStale ageDays
  cases now <;> cases hrec : x.recordedUtc <;> rw [hrec] at h
  · exact ⟨_, rfl⟩
  · exact absurd h Bool.false_ne_true
  · exact absurd h Bool.false_ne_true
  · exact ⟨_, rfl⟩

/-- An entry that has an age is refused for it only if it is stale and that is not allowed. -/
theorem not_accepted_iff (h : comparable now x.recordedUtc = true) :
    ¬ x.Accepted allowStale now ↔ x.isStale now = .ok true ∧ allowStale = false := by
  obtain ⟨isStale, hstale⟩ := isStale_comparable h
  unfold Accepted
  rw [hstale]
  cases isStale <;> cases allowStale <;> simp

end FeeEntry

namespace FeeSchedule

variable {instrument field : String} {on : Date} {allowStale : Bool} {now : Stamp}
  {parsed : List FeeEntry} {x : FeeEntry}

/-- A series resolves to the entry in force, if that one is accepted. -/
theorem resolveIn_ok_iff :
    resolveIn instrument field (Series.sorted parsed) on allowStale now = .ok x ↔
      InForce on parsed x ∧ x.Accepted allowStale now := by
  have hlast : Dated.lastApplicable FeeEntry.effectiveFrom on (Series.sorted parsed).entries =
      some x ↔ InForce on parsed x := Dated.lastApplicable_oldestFirst
  unfold resolveIn
  rw [← hlast]
  cases Dated.lastApplicable FeeEntry.effectiveFrom on (Series.sorted parsed).entries with
  | none =>
    refine iff_of_false ?_ fun h => nomatch h.1
    cases (Series.sorted parsed).entries <;> exact fun h => nomatch h
  | some found =>
    unfold FeeEntry.Accepted
    dsimp only
    cases hstale : found.isStale now with
    | error e =>
      refine iff_of_false (fun h => nomatch h) ?_
      rintro ⟨heq, isStale, hok, -⟩
      obtain rfl := Option.some.inj heq
      rw [hstale] at hok
      cases hok
    | ok isStale =>
      cases hrefused : isStale && !allowStale with
      | true =>
        refine iff_of_false ?_ ?_
        · intro h
          simp only [bind, Except.bind, hrefused, if_true] at h
          cases hage : found.ageDays now <;> rw [hage] at h <;> cases h
        · rintro ⟨heq, isStale', hok, hallowed⟩
          obtain rfl := Option.some.inj heq
          rw [hstale] at hok
          obtain rfl := Except.ok.inj hok
          rw [hrefused] at hallowed
          cases hallowed
      | false =>
        simp only [bind, Except.bind, hrefused, Bool.false_eq_true, if_false]
        constructor
        · intro h
          obtain rfl := Except.ok.inj h
          exact ⟨rfl, isStale, hstale, hrefused⟩
        · rintro ⟨heq, -⟩
          rw [Option.some.inj heq]
          rfl

end FeeSchedule

/-! ## Loading -/

section Loading

variable {R : Readers} {raw ins fields : Table} {instrument field : String} {blocks : List Toml}
  {parsed : List FeeEntry} {S : FeeSchedule}

/-- The document has these entries for a field, in the order of the file. -/
inductive IsSeries (R : Readers) (raw : Table) (instrument field : String)
    (parsed : List FeeEntry) : Prop where
  | found {ins fields : Table} {blocks : List Toml}
    (hraw : raw.lookup "instrument" = some (.table ins))
    (hins : ins.lookup instrument = some (.table fields))
    (hfield : fields.lookup field = some (.arr blocks))
    (hparsed : parsedEntries R instrument field blocks = .ok parsed)

theorem load_ok (h : load R raw = .ok S) :
    ∃ ins instruments front, raw.lookup "instrument" = some (.table ins) ∧
      Odict.entries (instrumentOf R) ins = .ok instruments ∧ frontMatter raw = .ok front ∧
      S = { schemaVersion := front.2.1, currency := front.2.2, instruments, gaps := front.1 } := by
  unfold load item at h
  cases hraw : raw.lookup "instrument" with
  | none =>
    rw [hraw] at h
    cases h
  | some v =>
    rw [hraw] at h
    cases v with
    | table ins =>
      simp only [items, bind, Except.bind] at h
      cases hins : Odict.entries (instrumentOf R) ins with
      | error e =>
        rw [hins] at h
        cases h
      | ok instruments =>
        rw [hins] at h
        cases hfront : frontMatter raw with
        | error e =>
          rw [hfront] at h
          cases h
        | ok front =>
          rw [hfront] at h
          exact ⟨ins, instruments, front, rfl, hins, rfl, (Except.ok.inj h).symm⟩
    | _ => cases h

theorem load_eq {instruments : List (String × Instrument)} {front : List Gap × Int × String}
    (hraw : raw.lookup "instrument" = some (.table ins))
    (hins : Odict.entries (instrumentOf R) ins = .ok instruments)
    (hfront : frontMatter raw = .ok front) :
    load R raw = .ok { schemaVersion := front.2.1, currency := front.2.2, instruments,
                       gaps := front.1 } := by
  simp only [load, item, hraw, items, bind, Except.bind, hins, hfront]
  rfl

theorem lookup_listed (h : fields.lookup field = some (.arr blocks)) :
    (listed fields).lookup field = some blocks := by
  induction fields with
  | nil => cases h
  | cons x fields ih =>
    obtain ⟨key, v⟩ := x
    by_cases hkey : key = field
    · subst hkey
      rw [List.lookup_cons_self] at h
      obtain rfl := Option.some.inj h
      exact List.lookup_cons_self
    · rw [Odict.lookup_cons_ne hkey] at h
      cases v with
      | arr other =>
        rw [listed, Odict.lookup_cons_ne hkey]
        exact ih h
      | _ => exact ih h

theorem listed_set (h : fields.lookup field = some (.arr blocks)) (blocks' : List Toml) :
    listed (Odict.set field (.arr blocks') fields) = Odict.set field blocks' (listed fields) := by
  induction fields with
  | nil => cases h
  | cons x fields ih =>
    obtain ⟨key, v⟩ := x
    by_cases hkey : key = field
    · subst hkey
      rw [List.lookup_cons_self] at h
      obtain rfl := Option.some.inj h
      simp only [Odict.set, if_true, listed]
    · rw [Odict.lookup_cons_ne hkey] at h
      rw [Odict.set, if_neg hkey]
      cases v with
      | arr other =>
        simp only [listed, Odict.set, if_neg hkey]
        rw [ih h]
      | _ => exact ih h

/-- The texts of a table are those it had before one of its arrays was given another value. -/
theorem text_set (h : fields.lookup field = some (.arr blocks)) (blocks' : List Toml)
    (key : String) : text (Odict.set field (.arr blocks') fields) key = text fields key := by
  unfold text item
  rw [Odict.lookup_set]
  by_cases hkey : key = field
  · rw [if_pos hkey, hkey, h]
    rfl
  · rw [if_neg hkey]

/-- The texts do not look at the series. -/
theorem described_ok {key : String} {series : List (String × Series)} {inst : Instrument}
    (h : described key fields series = .ok inst) :
    inst.series = series ∧
      ∀ series', described key fields series' = .ok { inst with series := series' } := by
  unfold described at h ⊢
  simp only [bind, Except.bind] at h ⊢
  cases hlabel : text fields "label" with
  | error e => rw [hlabel] at h; cases h
  | ok label =>
  cases hvenue : text fields "venue" with
  | error e => rw [hlabel, hvenue] at h; cases h
  | ok venue =>
  cases hticker : text fields "ticker" with
  | error e => rw [hlabel, hvenue, hticker] at h; cases h
  | ok ticker =>
  cases hbroker : text fields "broker" with
  | error e => rw [hlabel, hvenue, hticker, hbroker] at h; cases h
  | ok broker =>
    rw [hlabel, hvenue, hticker, hbroker] at h
    obtain rfl := Except.ok.inj h
    exact ⟨rfl, fun _ => rfl⟩

theorem described_set (h : fields.lookup field = some (.arr blocks)) (blocks' : List Toml)
    (key : String) (series : List (String × Series)) :
    described key (Odict.set field (.arr blocks') fields) series = described key fields series := by
  unfold described
  simp only [text_set h]

theorem instrumentOf_ok {key : String} {block : Toml} {inst : Instrument}
    (h : instrumentOf R key block = .ok inst) :
    ∃ fields, block = .table fields ∧ seriesOf R key fields = .ok inst.series ∧
      ∀ series, described key fields series = .ok { inst with series } := by
  cases block with
  | table fields =>
    simp only [instrumentOf, items, bind, Except.bind] at h
    cases hseries : seriesOf R key fields with
    | error e =>
      rw [hseries] at h
      cases h
    | ok series =>
      rw [hseries] at h
      obtain ⟨rfl, hother⟩ := described_ok h
      exact ⟨fields, rfl, hseries, hother⟩
  | _ => cases h

/-- Another array under a field is another series of the instrument. -/
theorem instrumentOf_set {inst : Instrument} {blocks' : List Toml} {parsed' : List FeeEntry}
    (h : instrumentOf R instrument (.table fields) = .ok inst)
    (hfield : fields.lookup field = some (.arr blocks))
    (hparsed : parsedEntries R instrument field blocks' = .ok parsed') :
    instrumentOf R instrument (.table (Odict.set field (.arr blocks') fields)) =
      .ok { inst with series := Odict.set field (Series.sorted parsed') inst.series } := by
  obtain ⟨_, heq, hseries, hdescribed⟩ := instrumentOf_ok h
  obtain rfl := Toml.table.inj heq
  have hset : seriesOf R instrument (Odict.set field (.arr blocks') fields) =
      .ok (Odict.set field (Series.sorted parsed') inst.series) := by
    unfold seriesOf
    rw [listed_set hfield]
    apply Odict.entries_set hseries
    rw [hparsed]
    rfl
  simp only [instrumentOf, items, bind, Except.bind, hset]
  rw [described_set hfield]
  exact hdescribed _

/-- A loaded field resolves in the series that the document has for it. -/
theorem seriesFor_loaded (hload : load R raw = .ok S) (hseries : IsSeries R raw instrument field parsed) :
    S.seriesFor instrument field = .ok (Series.sorted parsed) := by
  obtain @⟨ins, fields, blocks, hraw, hinst, hfield, hparsed⟩ := hseries
  obtain ⟨ins', instruments, front, hraw', hins, -, rfl⟩ := load_ok hload
  obtain rfl := Toml.table.inj (Option.some.inj (hraw.symm.trans hraw'))
  rcases Odict.lookup_entries hins instrument with ⟨hnone, -⟩ | ⟨v, inst, hv, hmade, hbuilt⟩
  · rw [hinst] at hnone
    cases hnone
  obtain rfl := Option.some.inj (hinst.symm.trans hv)
  obtain ⟨_, heq, hlist, -⟩ := instrumentOf_ok hmade
  obtain rfl := Toml.table.inj heq
  rcases Odict.lookup_entries hlist field with ⟨hnone, -⟩ | ⟨v, series, hv, hmade, hfound⟩
  · rw [lookup_listed hfield] at hnone
    cases hnone
  obtain rfl := Option.some.inj ((lookup_listed hfield).symm.trans hv)
  rw [hparsed] at hmade
  obtain rfl := Except.ok.inj hmade
  simp only [FeeSchedule.seriesFor, hbuilt, hfound]

/-! ## Appending -/

/-- The document with one more entry for a field. -/
theorem appendEntry_eq {block : Table} (hraw : raw.lookup "instrument" = some (.table ins))
    (hins : ins.lookup instrument = some (.table fields))
    (hfield : fields.lookup field = some (.arr blocks)) :
    appendEntry block ["instrument", instrument, field] raw =
      some (Odict.set "instrument" (.table (Odict.set instrument (.table
        (Odict.set field (.arr (blocks ++ [.table block])) fields)) ins)) raw) := by
  simp only [appendEntry, hraw, hins, hfield, Option.map_some]

theorem parsedEntries_snoc {block : Table} {e : FeeEntry}
    (hparsed : parsedEntries R instrument field blocks = .ok parsed)
    (hentry : entry R (instrument ++ "." ++ field) block = .ok e) :
    parsedEntries R instrument field (blocks ++ [.table block]) = .ok (parsed ++ [e]) := by
  unfold parsedEntries at hparsed ⊢
  rw [List.mapM_append, hparsed, List.mapM_cons]
  simp only [subscript, bind, Except.bind, hentry]
  rfl

theorem frontMatter_set (v : Toml) :
    frontMatter (Odict.set "instrument" v raw) = frontMatter raw := by
  unfold frontMatter item
  rw [Odict.lookup_set_ne (by decide), Odict.lookup_set_ne (by decide),
    Odict.lookup_set_ne (by decide)]

/-- The grown document loads, and the field has one more entry at the end. -/
theorem load_append {block : Table} {e : FeeEntry} (hload : load R raw = .ok S)
    (hseries : IsSeries R raw instrument field parsed)
    (hentry : entry R (instrument ++ "." ++ field) block = .ok e) :
    ∃ raw' S', appendEntry block ["instrument", instrument, field] raw = some raw' ∧
      load R raw' = .ok S' ∧ IsSeries R raw' instrument field (parsed ++ [e]) := by
  obtain @⟨ins, fields, blocks, hraw, hinst, hfield, hparsed⟩ := hseries
  obtain ⟨ins', instruments, front, hraw', hins, hfront, rfl⟩ := load_ok hload
  obtain rfl := Toml.table.inj (Option.some.inj (hraw.symm.trans hraw'))
  have hgrown := parsedEntries_snoc hparsed hentry
  rcases Odict.lookup_entries hins instrument with ⟨hnone, -⟩ | ⟨v, inst, hv, hmade, -⟩
  · rw [hinst] at hnone
    cases hnone
  obtain rfl := Option.some.inj (hinst.symm.trans hv)
  have hset := Odict.entries_set hins (instrumentOf_set hmade hfield hgrown)
  have hload' := load_eq (Odict.lookup_set_self _ _ raw) hset ((frontMatter_set _).trans hfront)
  exact ⟨_, _, appendEntry_eq hraw hinst hfield, hload', .found (Odict.lookup_set_self _ _ _)
    (Odict.lookup_set_self _ _ _) (Odict.lookup_set_self _ _ _) hgrown⟩

/-- Every other field has the entries it had. -/
theorem append_elsewhere {block raw' : Table} {instrument' field' : String}
    {parsed' : List FeeEntry} (hseries : IsSeries R raw instrument field parsed)
    (hraw' : appendEntry block ["instrument", instrument, field] raw = some raw')
    (hne : (instrument', field') ≠ (instrument, field))
    (h : IsSeries R raw instrument' field' parsed') : IsSeries R raw' instrument' field' parsed' := by
  obtain @⟨ins, fields, blocks, hraw, hinst, hfield, -⟩ := hseries
  obtain @⟨ins', fields', blocks', hraw₂, hinst', hfield', hparsed'⟩ := h
  obtain rfl := Toml.table.inj (Option.some.inj (hraw.symm.trans hraw₂))
  rw [appendEntry_eq hraw hinst hfield] at hraw'
  obtain rfl := Option.some.inj hraw'
  by_cases hi : instrument' = instrument
  · subst hi
    obtain rfl := Toml.table.inj (Option.some.inj (hinst.symm.trans hinst'))
    have hf : field' ≠ field := fun heq => hne (by rw [heq])
    refine .found (Odict.lookup_set_self _ _ _) (Odict.lookup_set_self _ _ _) ?_ hparsed'
    rw [Odict.lookup_set_ne hf]
    exact hfield'
  · refine .found (Odict.lookup_set_self _ _ _) ?_ hfield' hparsed'
    rw [Odict.lookup_set_ne hi]
    exact hinst'

end Loading

/-! ## What appending and resolving promise -/

section Promises

variable {R : Readers} {raw : Table} {instrument field : String} {parsed : List FeeEntry}
  {S : FeeSchedule}

/-- An entry that is appended changes nothing before its date. -/
def KeepsPast (R : Readers) (raw : Table) (S : FeeSchedule) (instrument field : String) : Prop :=
  ∀ block e, entry R (instrument ++ "." ++ field) block = .ok e →
    ∃ raw' S', appendEntry block ["instrument", instrument, field] raw = some raw' ∧
      load R raw' = .ok S' ∧ ∀ on < e.effectiveFrom, ∀ allowStale now x,
        S'.resolve instrument field on allowStale now = .ok x ↔
          S.resolve instrument field on allowStale now = .ok x

/-- What is resolved is the entry in force. Where that one has an age, a failure means that no
    entry is applicable or that the one in force is stale and was not asked for as such. -/
def ResolvesInForce (S : FeeSchedule) (instrument field : String) (parsed : List FeeEntry) : Prop :=
  ∀ on allowStale now,
    (∀ x, S.resolve instrument field on allowStale now = .ok x → InForce on parsed x) ∧
      ((∀ x, InForce on parsed x → comparable now x.recordedUtc = true) →
        ((∃ e, S.resolve instrument field on allowStale now = .error e) ↔
          (∀ a ∈ parsed, on < a.effectiveFrom) ∨
            ∃ x, InForce on parsed x ∧ x.isStale now = .ok true ∧ allowStale = false))

theorem resolve_ok_iff (hload : load R raw = .ok S) (hseries : IsSeries R raw instrument field parsed)
    {on : Date} {allowStale : Bool} {now : Stamp} {x : FeeEntry} :
    S.resolve instrument field on allowStale now = .ok x ↔
      InForce on parsed x ∧ x.Accepted allowStale now := by
  rw [FeeSchedule.resolve, seriesFor_loaded hload hseries]
  exact FeeSchedule.resolveIn_ok_iff

theorem keepsPast (hload : load R raw = .ok S) (hseries : IsSeries R raw instrument field parsed) :
    KeepsPast R raw S instrument field := by
  intro block e hentry
  obtain ⟨raw', S', happend, hload', hseries'⟩ := load_append hload hseries hentry
  refine ⟨raw', S', happend, hload', fun on hon allowStale now x => ?_⟩
  rw [resolve_ok_iff hload hseries, resolve_ok_iff hload' hseries']
  exact and_congr_left fun _ => Dated.inForce_append hon

theorem resolvesInForce (hload : load R raw = .ok S)
    (hseries : IsSeries R raw instrument field parsed) :
    ResolvesInForce S instrument field parsed := by
  intro on allowStale now
  have hok (x : FeeEntry) : S.resolve instrument field on allowStale now = .ok x ↔
      InForce on parsed x ∧ x.Accepted allowStale now := resolve_ok_iff hload hseries
  refine ⟨fun x hx => ((hok x).mp hx).1, fun hage => ?_⟩
  have hnone : (∀ a ∈ parsed, on < a.effectiveFrom) ↔ ¬ ∃ x, InForce on parsed x := by
    rw [Dated.exists_inForce_iff]
    simp only [not_exists, not_and, not_le]
  have hfails : (∃ e, S.resolve instrument field on allowStale now = .error e) ↔
      ∀ x, InForce on parsed x → ¬ x.Accepted allowStale now := by
    constructor
    · rintro ⟨e, he⟩ x hx haccepted
      have hfound := (hok x).mpr ⟨hx, haccepted⟩
      rw [he] at hfound
      cases hfound
    · intro hno
      cases hresolve : S.resolve instrument field on allowStale now with
      | error e => exact ⟨e, rfl⟩
      | ok x =>
        obtain ⟨hx, haccepted⟩ := (hok x).mp hresolve
        exact absurd haccepted (hno x hx)
  rw [hfails, hnone]
  constructor
  · intro hno
    by_cases hthere : ∃ x, InForce on parsed x
    · obtain ⟨x, hx⟩ := hthere
      exact .inr ⟨x, hx, (FeeEntry.not_accepted_iff (hage x hx)).mp (hno x hx)⟩
    · exact .inl hthere
  · rintro (hthere | ⟨x, hx, hstale⟩) y hy
    · exact absurd ⟨y, hy⟩ hthere
    · rw [hy.unique hx]
      exact (FeeEntry.not_accepted_iff (hage x hx)).mpr hstale

/-- Appending an entry keeps what is resolved before its date, and what is resolved is the entry in
    force. -/
theorem appended_series_resolves (hload : load R raw = .ok S)
    (hseries : IsSeries R raw instrument field parsed) :
    KeepsPast R raw S instrument field ∧ ResolvesInForce S instrument field parsed :=
  ⟨keepsPast hload hseries, resolvesInForce hload hseries⟩

end Promises

/-! ## A commission with two entries -/

/-- The readers of full ISO texts. -/
def isoReaders : Readers where
  date text := (Datetime.readIso (text.toList ++ "T00:00:00".toList)).map fun d =>
    StreamingPro.epochDay d.year d.month d.day
  datetime text := (Datetime.readIso text.toList).map StreamingPro.stampOf

/-- A block as it stands in the file. -/
def commissionBlock (value effectiveFrom recordedUtc : String) : Table :=
  [("value", .str value), ("effective_from", .str effectiveFrom),
   ("unit", .str "THB per contract per side"), ("source_kind", .str "operator_supplied"),
   ("source", .str "operator, verbal"), ("corroborated", .bool false),
   ("recorded_utc", .str recordedUtc), ("max_age_days", .int 180)]

/-- A document with one instrument. -/
def documentOf (commission : List Table) : Table :=
  [("schema_version", .int 1), ("meta", .table [("currency", .str "THB")]),
   ("instrument", .table [("s50_futures", .table
     [("label", .str "SET50 Index Futures"), ("venue", .str "TFEX"), ("ticker", .str "S50"),
      ("broker", .str "liberator"), ("commission", .arr (commission.map Toml.table))])])]

/-- What the loader makes of `commissionBlock`; the days count from 1970. -/
def commissionEntry (value : AnyDecimal) (effectiveFrom : Date) (recordedUtc : Stamp) : FeeEntry :=
  { key := "s50_futures.commission", value, unit := "THB per contract per side",
    sourceKind := "operator_supplied", source := "operator, verbal", corroborated := false,
    effectiveFrom, recordedUtc, maxAgeDays := 180 }

/-- The second entry is appended with an earlier date than the first. -/
def outOfOrder : Table :=
  documentOf [commissionBlock "14" "2026-09-04" "2026-09-04T08:37:26Z",
    commissionBlock "15" "2026-08-01" "2026-09-05T08:37:26Z"]

def outOfOrderEntries : List FeeEntry :=
  [commissionEntry (.finite ⟨14, 0⟩) 20700 (.aware 1788511046000000),
   commissionEntry (.finite ⟨15, 0⟩) 20666 (.aware 1788597446000000)]

theorem out_of_order_resolves : ∃ S, load isoReaders outOfOrder = .ok S ∧
    KeepsPast isoReaders outOfOrder S "s50_futures" "commission" ∧
    ResolvesInForce S "s50_futures" "commission" outOfOrderEntries := by
  have hseries : IsSeries isoReaders outOfOrder "s50_futures" "commission" outOfOrderEntries :=
    .found rfl rfl rfl rfl
  exact ⟨_, rfl, appended_series_resolves rfl hseries⟩

/-- An entry is in force, is past its limit of 180 days, and is refused for that. -/
theorem stale_entry_refused : ∃ S, load isoReaders outOfOrder = .ok S ∧
    (∃ x, InForce 20710 outOfOrderEntries x) ∧
    S.resolve "s50_futures" "commission" 20710 false (.aware 1804236000000000) =
      .error (.stale "s50_futures" "commission" 182 (.aware 1788511046000000) 180
        "operator, verbal") := by
  refine ⟨_, rfl, ?_, rfl⟩
  rw [Dated.exists_inForce_iff]
  exact ⟨_, List.mem_cons_self, by decide⟩

end ExecutionEngine.Fees
