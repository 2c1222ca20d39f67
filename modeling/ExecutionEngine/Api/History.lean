/-
  The order history of an account: `get_order_history` with its cursor, and the
  statements behind it.

  The route reads one row more than the page holds and continues below the last row
  of the page, so it is a reading of `Paging.Keyset` through an encoded cursor
  (`reads_history`). Orders stay in the store under the same key
  (`continues_of_run`), and the walk theorem of the library then gives
  `order_history_complete`.

  What `datetime.fromisoformat` and `urlsafe_b64decode` make of other texts than
  those `isoformat` and `urlsafe_b64encode` write, and how the driver carries a
  `timestamptz`, are parameters (`Readers`). So is the collation of
  `client_order_id`: any map into a linear order that tells ids apart.
-/
import Mathlib.Data.Prod.Lex
import Mathlib.Data.String.Basic
import ExecutionEngine.Encoding.Base64
import ExecutionEngine.Encoding.Isoformat
import ExecutionEngine.Paging.Keyset
import ExecutionEngine.Core.Resolution

namespace ExecutionEngine

open Async

/-- The reading side of the standard library, and the driver's `timestamptz`. -/
structure Readers where
  /-- `datetime.fromisoformat`; `none` is `ValueError`. -/
  fromisoformat : List Char → Option Datetime
  /-- `base64.urlsafe_b64decode`; `none` is `binascii.Error`. -/
  b64decode : List Char → Option (List UInt8)
  /-- A stored timestamp as the driver hands it over. -/
  utc : Time → Datetime
  /-- A timestamp as the driver sends it. -/
  instant : Datetime → Time

/-- What was written is read. -/
structure Readers.Lawful (C : Readers) : Prop where
  iso : ∀ d : Datetime, C.fromisoformat d.isoformat = some d
  b64 : ∀ bytes, C.b64decode (Base64.encode bytes) = some bytes

/-- The driver hands this timestamp over aware, and takes it back. -/
def Readers.Carries (C : Readers) (t : Time) : Prop :=
  (C.utc t).utcoffset.isSome = true ∧ C.instant (C.utc t) = t

/-- An exception of the route: its own, or one of the engine's. -/
inductive ApiError where
  | http (status : Nat) (detail : String)
  | engine (e : Exn)
  deriving DecidableEq

/-! ## The cursor -/

/-- `str.encode()`. -/
def utf8Encode (s : String) : List UInt8 := s.toUTF8.data.toList

/-- `bytes.decode()`; `none` is `UnicodeDecodeError`. -/
def utf8Decode (bytes : List UInt8) : Option String := String.fromUTF8? ⟨bytes.toArray⟩

/-- `_encode_cursor`. -/
def encodeCursor (createdAt : Datetime) (cid : String) : String :=
  String.ofList (Base64.strip (Base64.encode
    (utf8Encode (String.ofList createdAt.isoformat ++ "|" ++ cid))))

def malformedCursor : ApiError :=
  .http 422 "malformed cursor — pass back the next_cursor value unchanged"

/-- The two parts of a cursor's text, split at the first bar. -/
def readCursor (C : Readers) (raw : String) : Option (Datetime × String) :=
  match C.fromisoformat (raw.toList.takeWhile (· ≠ '|')), raw.toList.dropWhile (· ≠ '|') with
  | some parsed, _ :: cid =>
    if cid.isEmpty || parsed.utcoffset.isNone then none else some (parsed, String.ofList cid)
  | _, _ => none

/-- `_parse_cursor`. -/
def parseCursor (C : Readers) : Option String → Except ApiError (Option (Datetime × String))
  | none => .ok none
  | some cursor =>
    if cursor.isEmpty then .ok none
    else
      match ((C.b64decode (Base64.repad cursor.toList)).bind utf8Decode).bind (readCursor C) with
      | some parsed => .ok (some parsed)
      | none => .error malformedCursor

theorem utf8_round (s : String) : utf8Decode (utf8Encode s) = some s := by
  simp [utf8Decode, utf8Encode, String.fromUTF8?, s.isValidUTF8, String.fromUTF8]

theorem bar_not_iso (d : Datetime) : ∀ c ∈ d.isoformat, decide (c ≠ '|') = true := by
  intro c hc
  refine decide_eq_true fun hbar => ?_
  have hiso := d.isoformat_isIso c hc
  rw [hbar] at hiso
  exact absurd hiso (by decide)

/-- The text of a cursor is taken apart into what it was made of. -/
theorem readCursor_text {C : Readers} (hC : C.Lawful) {d : Datetime} {cid : String}
    (hd : d.utcoffset.isSome = true) (hcid : cid ≠ "") :
    readCursor C (String.ofList d.isoformat ++ "|" ++ cid) = some (d, cid) := by
  have htext : (String.ofList d.isoformat ++ "|" ++ cid).toList =
      d.isoformat ++ '|' :: cid.toList := by simp
  have hne : cid.toList.isEmpty = false := by
    rw [List.isEmpty_eq_false_iff]
    simpa using hcid
  unfold readCursor
  rw [htext, List.takeWhile_append_of_pos (bar_not_iso d),
    List.dropWhile_append_of_pos (bar_not_iso d)]
  simp [hC.iso, hne, Option.isNone_eq_false_iff.mpr hd]

theorem encode_ne_nil {bytes : List UInt8} (h : bytes ≠ []) :
    Base64.strip (Base64.encode bytes) ≠ [] := by
  intro hnil
  have hpad := Base64.repad_strip bytes
  rw [hnil] at hpad
  have hround := Base64.decode_encode bytes
  rw [← hpad] at hround
  exact h (Option.some.inj hround).symm

/-- A cursor comes back as it was made. -/
theorem parse_encode {C : Readers} (hC : C.Lawful) {d : Datetime} {cid : String}
    (hd : d.utcoffset.isSome = true) (hcid : cid ≠ "") :
    parseCursor C (some (encodeCursor d cid)) = .ok (some (d, cid)) := by
  have hbytes : utf8Encode (String.ofList d.isoformat ++ "|" ++ cid) ≠ [] := by
    intro hnil
    have hround := utf8_round (String.ofList d.isoformat ++ "|" ++ cid)
    rw [hnil, show utf8Decode [] = some "" from rfl] at hround
    have htext := congrArg String.toList (Option.some.inj hround)
    simp at htext
  have hne : (encodeCursor d cid).isEmpty = false := by
    have hlist := encode_ne_nil hbytes
    simpa [encodeCursor, String.isEmpty_iff, Bool.eq_false_iff] using hlist
  unfold parseCursor
  simp only [hne, Bool.false_eq_true, if_false]
  rw [encodeCursor, String.toList_ofList, Base64.repad_strip, hC.b64, Option.bind_some, utf8_round,
    Option.bind_some, readCursor_text hC hd hcid]

/-! ## The statements -/

section Statements

variable {κ : Type} [LinearOrder κ] (collate : String → κ)

/-- The rows `_SELECT_ACCOUNT_ORDERS` is about, without its cursor. -/
def Db.accountOrders (db : Db) (account : String) (b : Broker) (since until_ : Time) :
    List OrderResultRow :=
  (db.entries.filter fun e => e.row.account = account && e.row.broker = b &&
    since ≤ e.row.createdAt && e.row.createdAt < until_).map resultRow

/-- `(created_at, client_order_id)`. -/
def historyKey (r : OrderResultRow) : Time ×ₗ κ :=
  toLex (r.row.createdAt, collate r.row.clientOrderId)

/-- `fetch_account_orders`. -/
def Db.fetchAccountOrders (db : Db) (account : String) (b : Broker) (since until_ : Time)
    (before : Option (Time × String)) (limit : Nat) : List OrderResultRow :=
  Keyset.select (historyKey collate) (db.accountOrders account b since until_)
    (before.map fun c => toLex (c.1, collate c.2)) limit

/-- `fetch_fills_for_orders`, one order's share: `ORDER BY exec_ts, fill_id`. -/
def Db.fetchFillsFor (db : Db) (cid : String) : List FillRow :=
  match db.find cid with
  | some e => e.fills.insertionSort fun f g => f.execTs ≤ g.execTs
  | none => []

/-- `fetch_first_order_at`. -/
def Db.fetchFirstOrderAt (db : Db) : Option Time := (db.entries.map fun e => e.row.createdAt).min?

/-- The store as the three statements of one read find it. -/
structure Reading where
  orders : Db
  fills : Db
  first : Db

/-- `OrderRouter.get_order_history`: the adapter is resolved, and not used. -/
def Router.getOrderHistory (R : Router) (S : Reading) (b : Broker) (account : String)
    (since until_ : Time) (before : Option (Time × String)) (limit : Nat) :
    Except Exn (List OrderResultRow × (String → List FillRow) × Option Time) := do
  let _ ← R.resolveAdapter b account .read
  return (S.orders.fetchAccountOrders collate account b since until_ before limit,
    S.fills.fetchFillsFor, S.first.fetchFirstOrderAt)

/-! ## The route -/

/-- `_aware`. -/
def aware (value : Option Datetime) (name : String) (default : Datetime) :
    Except ApiError Datetime :=
  match value with
  | none => .ok default
  | some d =>
    if d.utcoffset.isNone then
      .error (.http 422 ("'" ++ name ++
        "' must carry a timezone offset (e.g. 2026-09-29T00:00:00+07:00)"))
    else .ok d

/-- `datetime(1970, 1, 1, tzinfo=UTC)`. -/
def epoch : Datetime where
  year := 1970
  month := 1
  day := 1
  hour := 0
  minute := 0
  second := 0
  microsecond := 0
  utcoffset := some 0
  date_valid := by decide
  time_valid := by decide
  offset_valid := by decide

structure HistoryOrder where
  body : OrderResultRow
  publicStatus : PublicOrderStatus
  fills : List FillRow

/-- The content of the response; the fixed texts of `coverage` are left out. -/
structure OrderHistory where
  account : String
  broker : Broker
  completeSince : Option String
  window : String × String
  orders : List HistoryOrder
  nextCursor : Option String

/-- `datetime.isoformat` of a timestamp that the driver hands over. -/
def Readers.isoText (C : Readers) (t : Time) : String := String.ofList (C.utc t).isoformat

/-- `get_order_history`; `now` is the clock where no `until` is given. -/
def getOrderHistory (C : Readers) (R : Router) (S : Reading) (now : Datetime) (account : String)
    (b : Broker) (since until_ : Option Datetime) (limit : Nat) (cursor : Option String) :
    Except ApiError OrderHistory := do
  let lo ← aware since "since" epoch
  let hi ← aware until_ "until" now
  let before ← parseCursor C cursor
  let (rows, fills, firstAt) ← (R.getOrderHistory collate S b account (C.instant lo) (C.instant hi)
    (before.map fun c => (C.instant c.1, c.2)) (limit + 1)).mapError ApiError.engine
  let page := rows.take limit
  let more := limit < rows.length
  let last := if more then page.getLast? else none
  return {
    account := account
    broker := b
    completeSince := firstAt.map C.isoText
    window := (String.ofList lo.isoformat, String.ofList hi.isoformat)
    orders := page.map fun r =>
      ⟨r, toPublicStatus r.row.status r.filledQty, fills r.row.clientOrderId⟩
    nextCursor := last.map fun r => encodeCursor (C.utc r.row.createdAt) r.row.clientOrderId }

/-! ## Completeness -/

/-- Orders stay, under the same key and in the same book, and the others were created later. -/
structure Continues (db₀ db : Db) : Prop where
  kept : ∀ e ∈ db₀.entries, ∃ e' ∈ db.entries, e'.row.clientOrderId = e.row.clientOrderId ∧
    e'.row.account = e.row.account ∧ e'.row.broker = e.row.broker ∧
    e'.row.createdAt = e.row.createdAt
  later : ∀ e ∈ db.entries, db₀.find e.row.clientOrderId = none →
    ∀ e₀ ∈ db₀.entries, e₀.row.createdAt < e.row.createdAt

variable {collate} {account : String} {b : Broker} {lo hi : Time}

theorem mem_accountOrders {db : Db} {r : OrderResultRow} :
    r ∈ db.accountOrders account b lo hi ↔ ∃ e ∈ db.entries, (e.row.account = account ∧
      e.row.broker = b ∧ lo ≤ e.row.createdAt ∧ e.row.createdAt < hi) ∧ resultRow e = r := by
  simp [Db.accountOrders, and_assoc]

/-- The ids of the matching orders are distinct. -/
theorem accountOrders_ids (db : Db) :
    ((db.accountOrders account b lo hi).map fun r => r.row.clientOrderId).Nodup := by
  rw [Db.accountOrders, List.map_map]
  exact db.pk.sublist (List.filter_sublist.map _)

omit [LinearOrder κ] in
theorem historyKeys_nodup (hcollate : Function.Injective collate) (db : Db) :
    ((db.accountOrders account b lo hi).map (historyKey collate)).Nodup := by
  refine (List.nodup_map_iff_inj_on ((accountOrders_ids db).of_map _)).mpr ?_
  intro r hr r' hr' hkey
  have hcid : r.row.clientOrderId = r'.row.clientOrderId :=
    hcollate (Prod.mk.inj (toLex.injective hkey)).2
  exact List.inj_on_of_nodup_map (accountOrders_ids db) hr hr' hcid

/-- The matching keys of a later store are those of the start, and keys above all of them. -/
theorem grown_of_continues (hcollate : Function.Injective collate) {db₀ db : Db}
    (h : Continues db₀ db) :
    Keyset.Grown ((db₀.accountOrders account b lo hi).map (historyKey collate))
      ((db.accountOrders account b lo hi).map (historyKey collate)) where
  nodup := historyKeys_nodup hcollate db
  kept := by
    intro x hx
    obtain ⟨r, hr, rfl⟩ := List.mem_map.mp hx
    obtain ⟨e, he, ⟨ha, hb, hlo, hhi⟩, rfl⟩ := mem_accountOrders.mp hr
    obtain ⟨e', he', hcid, ha', hb', hc'⟩ := h.kept e he
    refine List.mem_map.mpr ⟨resultRow e', mem_accountOrders.mpr ⟨e', he', ?_, rfl⟩, ?_⟩
    · exact ⟨ha'.trans ha, hb'.trans hb, hc' ▸ hlo, hc' ▸ hhi⟩
    · simp only [historyKey, resultRow, hcid, hc']
  above := by
    intro x hx hnew s hs
    obtain ⟨r, hr, rfl⟩ := List.mem_map.mp hx
    obtain ⟨r₀, hr₀, rfl⟩ := List.mem_map.mp hs
    obtain ⟨e, he, hmatch, rfl⟩ := mem_accountOrders.mp hr
    obtain ⟨e₀, he₀, -, rfl⟩ := mem_accountOrders.mp hr₀
    cases hfind : db₀.find e.row.clientOrderId with
    | none => exact Prod.Lex.toLex_lt_toLex.mpr (.inl (h.later e he hfind e₀ he₀))
    | some e₁ =>
      -- an order of the start, so its key is one of the start's
      obtain ⟨e', he', hcid, ha, hb, hc⟩ := h.kept e₁ (Db.mem_of_find hfind)
      have hkey := Db.find_key hfind
      have hsame : e' = e := by
        have hfound := Db.find_of_mem he'
        rw [hcid, hkey, Db.find_of_mem he] at hfound
        exact (Option.some.inj hfound).symm
      subst hsame
      refine absurd (List.mem_map.mpr ⟨resultRow e₁, mem_accountOrders.mpr
        ⟨e₁, Db.mem_of_find hfind, ?_, rfl⟩, ?_⟩) hnew
      · rw [← ha, ← hb, ← hc]
        exact hmatch
      · simp only [historyKey, resultRow, hkey, hc]

variable {C : Readers} {R : Router} {a : AdapterId} {since until_ : Datetime} {limit : Nat}

/-- Every order can be named in a cursor. -/
structure Sendable (C : Readers) (db : Db) : Prop where
  id : ∀ e ∈ db.entries, e.row.clientOrderId ≠ ""
  time : ∀ e ∈ db.entries, C.Carries e.row.createdAt

/-- The `n`-th read of the route, with this cursor, returns this page. -/
def ReadsPage (collate : String → κ) (C : Readers) (R : Router) (readings : Nat → Reading)
    (now : Nat → Datetime) (account : String) (b : Broker) (since until_ : Datetime) (limit : Nat)
    (n : Nat) (cursor : Option String) (p : Keyset.Page OrderResultRow String) : Prop :=
  ∃ h, getOrderHistory collate C R (readings n) (now n) account b (some since) (some until_) limit
    cursor = .ok h ∧ p = ⟨h.orders.map HistoryOrder.body, h.nextCursor⟩

/-- The cursor that names a row. -/
def rowCursor (C : Readers) (r : OrderResultRow) : String :=
  encodeCursor (C.utc r.row.createdAt) r.row.clientOrderId

/-- The route is a keyset reading of the matching orders. -/
theorem reads_history (hC : C.Lawful) (hcollate : Function.Injective collate)
    (hR : R.resolveAdapter b account .read = .ok a) (hsince : since.utcoffset.isSome = true)
    (huntil : until_.utcoffset.isSome = true) (readings : Nat → Reading) (now : Nat → Datetime)
    (hsend : Sendable C (readings 0).orders) :
    Keyset.Reads (historyKey collate) limit
      (((readings 0).orders.accountOrders account b (C.instant since) (C.instant until_)).map
        (historyKey collate))
      (fun n => (readings n).orders.accountOrders account b (C.instant since) (C.instant until_))
      (rowCursor C) (ReadsPage collate C R readings now account b since until_ limit) := by
  intro n c hc
  have hbefore : ∃ before, parseCursor C (c.map (rowCursor C)) = .ok before ∧
      before.map (fun c => (C.instant c.1, c.2)) =
        c.map fun r => (r.row.createdAt, r.row.clientOrderId) := by
    cases c with
    | none => exact ⟨none, rfl, rfl⟩
    | some r =>
      -- the row has the id and the time of an order of the start
      obtain ⟨hkey, -⟩ := hc r rfl
      obtain ⟨r₀, hr₀, heq⟩ := List.mem_map.mp hkey
      obtain ⟨e, he, -, rfl⟩ := mem_accountOrders.mp hr₀
      obtain ⟨htime, hcid⟩ := Prod.mk.inj (toLex.injective heq)
      have hcarries := hsend.time e he
      rw [show e.row.createdAt = r.row.createdAt from htime] at hcarries
      have hid := hsend.id e he
      rw [show e.row.clientOrderId = r.row.clientOrderId from hcollate hcid] at hid
      exact ⟨_, parse_encode hC hcarries.1 hid, by simp [hcarries.2]⟩
  obtain ⟨before, hparse, hinstant⟩ := hbefore
  have hlo : aware (some since) "since" epoch = .ok since := by
    simp [aware, Option.isNone_eq_false_iff.mpr hsince]
  have hhi : aware (some until_) "until" (now n) = .ok until_ := by
    simp [aware, Option.isNone_eq_false_iff.mpr huntil]
  have hrows : (before.map fun c => (C.instant c.1, c.2)).map
      (fun c => toLex (c.1, collate c.2)) = c.map (historyKey collate) := by
    rw [hinstant, Option.map_map]
    rfl
  have hrouter : (R.getOrderHistory collate (readings n) b account (C.instant since)
      (C.instant until_) (before.map fun c => (C.instant c.1, c.2)) (limit + 1)) =
      .ok (Keyset.select (historyKey collate) ((readings n).orders.accountOrders account b
        (C.instant since) (C.instant until_)) (c.map (historyKey collate)) (limit + 1),
        (readings n).fills.fetchFillsFor, (readings n).first.fetchFirstOrderAt) := by
    rw [Router.getOrderHistory, hR, Db.fetchAccountOrders, hrows]
    rfl
  unfold ReadsPage
  rw [getOrderHistory, hlo, hhi, hparse]
  dsimp only [bind, Except.bind]
  rw [hrouter]
  refine ⟨_, rfl, congrArg₂ Keyset.Page.mk ?_ rfl⟩
  simp [Keyset.cut, Function.comp_def]

/-- Whatever `since`, `until`, the collation and the pages' size: reading from the top until there
    is no cursor ends, and returns the matching orders of the first reading, each once and in
    strictly decreasing order of `(created_at, client_order_id)`, while later orders come in and
    the others move on. And a cursor is read back as it was written. -/
theorem order_history_complete (hC : C.Lawful) (hcollate : Function.Injective collate)
    (hR : R.resolveAdapter b account .read = .ok a) (hsince : since.utcoffset.isSome = true)
    (huntil : until_.utcoffset.isSome = true) (hlimit : 1 ≤ limit) (readings : Nat → Reading)
    (now : Nat → Datetime) (hsend : Sendable C (readings 0).orders)
    (hcont : ∀ n, Continues (readings 0).orders (readings n).orders) :
    (∃ pages, Keyset.Walk (ReadsPage collate C R readings now account b since until_ limit) 0 none
      pages) ∧
    (∀ pages, Keyset.Walk (ReadsPage collate C R readings now account b since until_ limit) 0 none
      pages → (pages.flatten.map (historyKey collate)).Pairwise (· > ·) ∧
        (pages.flatten.map fun r => r.row.clientOrderId).Perm
          (((readings 0).orders.accountOrders account b (C.instant since)
            (C.instant until_)).map fun r => r.row.clientOrderId)) ∧
    ∀ (d : Datetime) (cid : String), d.utcoffset.isSome = true → cid ≠ "" →
      parseCursor C (some (encodeCursor d cid)) = .ok (some (d, cid)) := by
  let rows (n : Nat) : List OrderResultRow :=
    (readings n).orders.accountOrders account b (C.instant since) (C.instant until_)
  have hgrown : ∀ n, Keyset.Grown ((rows 0).map (historyKey collate))
      ((rows n).map (historyKey collate)) := fun n => grown_of_continues hcollate (hcont n)
  have hreads : Keyset.Reads (historyKey collate) limit ((rows 0).map (historyKey collate)) rows
      (rowCursor C) (ReadsPage collate C R readings now account b since until_ limit) :=
    reads_history hC hcollate hR hsince huntil readings now hsend
  obtain ⟨pages, hwalk, hsorted, hperm⟩ := Keyset.walk_complete hlimit hgrown hreads
  refine ⟨⟨pages, hwalk⟩, fun pages' hwalk' => ?_, fun d cid hd hcid => parse_encode hC hd hcid⟩
  have hsame : pages' = pages := by
    refine hwalk'.unique (fun n c p q hp hq => ?_) hwalk
    obtain ⟨h, hok, rfl⟩ := hp
    obtain ⟨h', hok', rfl⟩ := hq
    rw [Except.ok.inj (hok.symm.trans hok')]
  subst hsame
  refine ⟨hsorted, ?_⟩
  -- the collation tells ids apart, so a key gives its id back
  have hids := hperm.map fun k => Function.invFun collate (ofLex k).2
  have hinv (rs : List OrderResultRow) : (rs.map (historyKey collate)).map
      (fun k => Function.invFun collate (ofLex k).2) = rs.map fun r => r.row.clientOrderId := by
    rw [List.map_map]
    exact List.map_congr_left fun r _ => Function.leftInverse_invFun hcollate _
  rwa [hinv, hinv] at hids

end Statements

/-! ## The store between two reads -/

section Run

variable {ι : Type} [DecidableEq ι] {E : Env} {P Q : Pool engineSig Db ι}

theorem Change.createdAt {o : StoreOp} {e e' : Entry} (h : Change o e e') :
    e'.row.createdAt = e.row.createdAt := by
  cases h with
  | ack | status | reason => rfl
  | replace _ _ _ hrow => rw [hrow]
  | fill => simp [Db.withStatus]

/-- The order is there, in the same book and created at the same time. -/
def Stays (e : Entry) (db : Db) : Prop :=
  ∃ e', db.find e.row.clientOrderId = some e' ∧ e'.row.account = e.row.account ∧
    e'.row.broker = e.row.broker ∧ e'.row.createdAt = e.row.createdAt

theorem Stays.step {e : Entry} {db db' : Db} {op : EngineOp} {r : Except Exn op.Res}
    (h : Stays e db) (hs : (sem E).step db op r db') : Stays e db' := by
  obtain ⟨e₁, he₁, ha, hb, hc⟩ := h
  obtain ⟨e₂, he₂, rfl | ⟨o, -, -, hchange⟩⟩ := step_entry hs he₁
  · exact ⟨e₂, he₂, ha, hb, hc⟩
  · have hbook := hchange.book
    simp only [OrderRow.book, Prod.mk.injEq] at hbook
    exact ⟨e₂, he₂, hbook.2.1.trans ha, hbook.1.trans hb, hchange.createdAt.trans hc⟩

/-- In every run of the engine orders stay; so where the new ones are stamped later, the store
    continues the one the run began with. -/
theorem continues_of_run (hP : PoolReach (sem E) closed Q P)
    (hlate : ∀ e ∈ P.state.entries, Q.state.find e.row.clientOrderId = none →
      ∀ e₀ ∈ Q.state.entries, e₀.row.createdAt < e.row.createdAt) :
    Continues Q.state P.state := by
  refine ⟨fun e he => ?_, hlate⟩
  have hstays : Stays e P.state :=
    pool_invariant (I := fun db _ => Stays e db) ⟨e, Db.find_of_mem he, rfl, rfl, rfl⟩
      (fun _ _ _ _ _ _ h hs => h.step hs) (fun _ _ _ _ h => h.elim) hP
  obtain ⟨e', he', ha, hb, hc⟩ := hstays
  exact ⟨e', Db.mem_of_find he', Db.find_key he', ha, hb, hc⟩

end Run

/-! ## A walk over orders of one instant -/

/-- Midnight of 2026-09-29, UTC. -/
def sampleMidnight : Time := 1790640000000000

/-- A time of that day. -/
def sampleUtc (t : Time) : Datetime :=
  let s := ((t - sampleMidnight) % 86400000000).toNat
  { year := 2026
    month := 9
    day := 29
    hour := s / 3600000000 % 24
    minute := s / 60000000 % 60
    second := s / 1000000 % 60
    microsecond := s % 1000000
    utcoffset := some 0
    date_valid := by decide
    time_valid := by omega
    offset_valid := by simp }

/-- The instant of a value of that day. -/
def sampleInstant (d : Datetime) : Time :=
  sampleMidnight + ((d.hour * 60 + d.minute) * 60 + d.second : Nat) * 1000000 + d.microsecond -
    d.utcoffset.getD 0

/-- Readers that are right on what the writers write, and a driver that is right on that day. -/
def sampleReaders : Readers where
  fromisoformat := Datetime.readIso
  b64decode := Base64.decode
  utc := sampleUtc
  instant := sampleInstant

theorem sampleReaders_lawful : sampleReaders.Lawful where
  iso := Datetime.readIso_isoformat
  b64 := Base64.decode_encode

/-- A simulated order created at this time. -/
def sampleStored (cid : String) (t : Time) : Entry :=
  ⟨Db.newRow (sampleFields cid .sim) none t, [], (by decide : (0 : Int) < 100), List.nodup_nil⟩

/-- 03:00 of that day. -/
def sampleThree : Time := sampleMidnight + 10800000000

/-- Two orders of one instant, and a third one from the second read on. -/
def sampleHistory : Nat → Db
  | 0 => ⟨[sampleStored cidA sampleThree, sampleStored cidB sampleThree], by decide⟩
  | _ + 1 => ⟨[sampleStored cidA sampleThree, sampleStored cidB sampleThree,
      sampleStored "cccccccc-0000-4000-8000-00000000000c" (sampleThree + 1)], by decide⟩

theorem sampleHistory_continues (n : Nat) : Continues (sampleHistory 0) (sampleHistory n) := by
  cases n with
  | zero =>
    refine ⟨fun e he => ⟨e, he, rfl, rfl, rfl, rfl⟩, fun e he hnone => ?_⟩
    rw [Db.find_of_mem he] at hnone
    cases hnone
  | succ n =>
    refine ⟨fun e he => ⟨e, List.mem_append_left _ he, rfl, rfl, rfl, rfl⟩,
      fun e he hnone e₀ he₀ => ?_⟩
    have hthree : e₀.row.createdAt = sampleThree := by
      rcases List.mem_pair.mp he₀ with rfl | rfl <;> rfl
    rcases List.mem_append.mp (show e ∈ (sampleHistory 0).entries ++ [_] from he) with hold | hnew
    · rw [Db.find_of_mem hold] at hnone
      cases hnone
    · rw [List.mem_singleton.mp hnew, hthree]
      decide

theorem sampleHistory_sendable : Sendable sampleReaders (sampleHistory 0) where
  id e he := by
    rcases List.mem_pair.mp he with rfl | rfl
    · exact (by decide : cidA ≠ "")
    · exact (by decide : cidB ≠ "")
  time e he := by
    have hthree : e.row.createdAt = sampleThree := by
      rcases List.mem_pair.mp he with rfl | rfl <;> rfl
    rw [hthree]
    exact ⟨rfl, by decide⟩

/-- One order a page, from a store that gets a third order between the reads: the walk ends. -/
theorem sample_history_complete : ∃ pages, Keyset.Walk (ReadsPage id sampleReaders simRouter
    (fun n => ⟨sampleHistory n, sampleHistory n, sampleHistory n⟩) (fun _ => epoch) "12345672" .sim
    (sampleUtc sampleMidnight) (sampleUtc (sampleMidnight - 1)) 1) 0 none pages ∧
    (pages.flatten.map fun r => r.row.clientOrderId).Perm [cidA, cidB] := by
  have hread : simRouter.resolveAdapter .sim "12345672" .read = .ok .sim := rfl
  have hsince : (sampleUtc sampleMidnight).utcoffset.isSome = true := rfl
  have huntil : (sampleUtc (sampleMidnight - 1)).utcoffset.isSome = true := rfl
  obtain ⟨⟨pages, hwalk⟩, hall, -⟩ := order_history_complete sampleReaders_lawful
    Function.injective_id hread hsince huntil (Nat.le_refl 1)
    (fun n => ⟨sampleHistory n, sampleHistory n, sampleHistory n⟩) (fun _ => epoch)
    sampleHistory_sendable sampleHistory_continues
  exact ⟨pages, hwalk, (hall pages hwalk).2⟩

end ExecutionEngine
