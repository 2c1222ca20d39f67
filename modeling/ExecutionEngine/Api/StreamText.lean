/-
  The text of `GET /orders/stream`, and what a client makes of it.

  `frameText` is the text of one frame and `wireDump` the JSON of an event. `read_frames` says
  what a client has read of a stream that breaks off anywhere: the messages of the first frames,
  and the number of the last event among them.
-/
import ExecutionEngine.Api.History
import ExecutionEngine.Contracts.Numerals
import ExecutionEngine.Encoding.EventStream
import ExecutionEngine.Encoding.JsonRoundTrip
import ExecutionEngine.Events.Delivery

namespace ExecutionEngine

open JsonText (Text Value Floats)
open EventStream (Message)

def PublicOrderStatus.value : PublicOrderStatus → String
  | .new => "NEW"
  | .partiallyFilled => "PARTIALLY_FILLED"
  | .filled => "FILLED"
  | .cancelled => "CANCELLED"
  | .rejected => "REJECTED"
  | .expired => "EXPIRED"

namespace OrderStream

variable {F : Type}

/-! ## The JSON of an event -/

def text (s : String) : Value F := .str (Text.ofString s)

def optText : Option String → Value F
  | none => .null
  | some s => text s

/-- A member of an object. -/
def member (name : String) (v : Value F) : Text × Value F := (Text.ofString name, v)

/-- `FillEvent`, as `model_dump` writes it. -/
def fillDump (iso : Time → String) (f : FillEvent) : Value F :=
  .obj
    [ member "broker_fill_id" (text f.brokerFillId),
      member "price" (text f.price.formatF),
      member "quantity" (.int f.quantity),
      member "exec_ts" (text (iso f.execTs)) ]

/-- `OrderUpdateEvent.wire_dump`; `iso` is how pydantic writes an instant. -/
def wireDump (iso : Time → String) (e : OrderUpdateEvent) : Value F :=
  .obj
    [ member "seq" (.int e.seq),
      member "client_order_id" (text e.clientOrderId),
      member "strategy_id" (optText e.strategyId),
      member "engine_state" (text e.engineState.value),
      member "status" (text e.status.value),
      member "broker_order_id" (optText e.brokerOrderId),
      member "price" (optText (e.price.map Decimal.formatF)),
      member "quantity" (e.quantity.elim .null .int),
      member "fill" (e.fill.elim .null (fillDump iso)),
      member "ts" (text (iso e.ts)) ]

/-! ## The text of a frame -/

variable (fl : Floats F) (levels : Nat) (iso : Time → String)

/-- `str` of a number that is not too long. -/
def numberText (n : Int) : Option (List Char) :=
  if (Nat.toDigits 10 n.natAbs).length ≤ JsonText.maxDigits then some (JsonText.intText n) else none

/-- The lines of a frame, without the blank one at its end. `none` is what `json.dumps` or `str`
    raises. -/
def frameLines : Frame → Option (List (List Char))
  | .event e => (JsonText.dumps fl levels (wireDump iso e)).map fun data =>
      [ "id: ".toList ++ JsonText.intText e.seq, "event: ".toList ++ e.engineState.value.toList,
        "data: ".toList ++ data ]
  | .resyncRequired afterSeq => (numberText afterSeq).map fun n =>
      ["event: resync_required".toList, "data: \x7b\"after_seq\": ".toList ++ (n ++ ['}'])]
  | .gap dropped => (numberText dropped).map fun n =>
      ["event: gap".toList, "data: \x7b\"dropped\": ".toList ++ (n ++ ['}'])]
  | .keepAlive => some [": keep-alive".toList]

/-- The text of a frame. -/
def frameText (f : Frame) : Option (List Char) :=
  (frameLines fl levels iso f).map EventStream.unlines

/-- What the frames send. -/
def streamText : List Frame → Option (List Char)
  | [] => some []
  | f :: fs => (frameText fl levels iso f).bind fun t => (streamText fs).map fun ts => t ++ ts

/-! ## What a client reads -/

def resyncType : List Char := "resync_required".toList

def gapType : List Char := "gap".toList

/-- The events among the messages, as the client reads their JSON. -/
def clientEvents (messages : List Message) : List (Except JsonText.ReadError (Value F)) :=
  (messages.filter fun m => m.type ≠ resyncType ∧ m.type ≠ gapType).map fun m =>
    JsonText.loads fl levels m.data

/-- The client is told that it has missed something. -/
def told (messages : List Message) : Bool :=
  messages.any fun m => m.type = resyncType || m.type = gapType

/-- The frames that tell it. -/
def tells : Frame → Bool
  | .resyncRequired _ | .gap _ => true
  | .event _ | .keepAlive => false

/-- The id that a client is left with after these frames. -/
def cursorText (id : List Char) (frames : List Frame) : List Char :=
  ((eventsOf frames).getLast?.map fun e => JsonText.intText e.seq).getD id

variable {fl levels iso}

theorem text_plain (s : String) : (text s : Value F).Plain := JsonText.sound_chars s.toList

theorem optText_plain (s : Option String) : (optText s : Value F).Plain := by
  cases s with
  | none => trivial
  | some s => exact text_plain s

theorem member_name (name : String) : Text.Sound (Text.ofString name) :=
  JsonText.sound_chars name.toList

theorem fillDump_plain (f : FillEvent) : (fillDump iso f : Value F).Plain := by
  have hnames : (["broker_fill_id", "price", "quantity", "exec_ts"].map Text.ofString).Nodup := by
    decide
  refine ⟨hnames, ?_⟩
  exact ⟨member_name _, text_plain _, member_name _, text_plain _, member_name _, trivial,
    member_name _, text_plain _, trivial⟩

/-- The JSON of an event comes back. -/
theorem wireDump_plain (e : OrderUpdateEvent) : (wireDump iso e : Value F).Plain := by
  have hnames : (["seq", "client_order_id", "strategy_id", "engine_state", "status",
      "broker_order_id", "price", "quantity", "fill", "ts"].map Text.ofString).Nodup := by decide
  have hquantity : (e.quantity.elim .null .int : Value F).Plain := by
    cases e.quantity <;> trivial
  have hfill : (e.fill.elim .null (fillDump iso) : Value F).Plain := by
    cases e.fill with
    | none => trivial
    | some f => exact fillDump_plain f
  refine ⟨hnames, ?_⟩
  exact ⟨member_name _, trivial, member_name _, text_plain _, member_name _, optText_plain _,
    member_name _, text_plain _, member_name _, text_plain _, member_name _, optText_plain _,
    member_name _, optText_plain _, member_name _, hquantity, member_name _, hfill,
    member_name _, text_plain _, trivial⟩

theorem unbroken_of_printable {cs : List Char} (h : JsonText.Printable cs) :
    EventStream.Unbroken cs := by
  intro c hc
  have hp := h c hc
  constructor <;> rintro rfl <;> cases hp

theorem printable_int (n : Int) : JsonText.Printable (JsonText.intText n) :=
  .append (JsonText.signText_printable _) (JsonText.digits_printable (JsonText.wholeOf n.natAbs).1)

theorem printable_literal {s : String} (h : s.toList.all JsonText.isPrintable = true) :
    JsonText.Printable s.toList := JsonText.printable_of_all h

theorem engineState_printable (st : OrderState) : JsonText.Printable st.value.toList := by
  cases st <;> exact printable_literal rfl

theorem engineState_type (st : OrderState) :
    st.value.toList ≠ [] ∧ st.value.toList ≠ resyncType ∧ st.value.toList ≠ gapType := by
  cases st <;> decide

theorem numberText_printable {n : Int} {cs : List Char} (h : numberText n = some cs) :
    JsonText.Printable cs := by
  unfold numberText at h
  split at h
  · rw [← Option.some.inj h]
    exact printable_int n
  · cases h

/-- A line of a frame: some literal text, and printable text after it. -/
theorem line_of_literal {s : String} (hs : s.toList.all JsonText.isPrintable = true)
    (hne : s.toList ≠ []) {cs : List Char} (h : JsonText.Printable cs) :
    EventStream.Unbroken (s.toList ++ cs) ∧ s.toList ++ cs ≠ [] :=
  ⟨unbroken_of_printable ((printable_literal hs).append h), by simp [hne]⟩

theorem number_line {s : String} (hs : s.toList.all JsonText.isPrintable = true)
    (hne : s.toList ≠ []) {n : Int} {cs : List Char} (h : numberText n = some cs) :
    EventStream.Unbroken (s.toList ++ (cs ++ ['\x7d'])) ∧ s.toList ++ (cs ++ ['\x7d']) ≠ [] :=
  line_of_literal hs hne ((numberText_printable h).append (.cons rfl JsonText.printable_nil))

/-- The lines of a frame are lines. -/
theorem frameLines_unbroken {f : Frame} {ls : List (List Char)}
    (h : frameLines fl levels iso f = some ls) :
    ∀ l ∈ ls, EventStream.Unbroken l ∧ l ≠ [] := by
  have bare {s : String} (hs : s.toList.all JsonText.isPrintable = true) (hne : s.toList ≠ []) :
      EventStream.Unbroken s.toList ∧ s.toList ≠ [] :=
    ⟨unbroken_of_printable (printable_literal hs), hne⟩
  intro l hl
  cases f with
  | event e =>
    obtain ⟨data, hdata, rfl⟩ := Option.map_eq_some_iff.mp h
    simp only [List.mem_cons, List.not_mem_nil, or_false] at hl
    rcases hl with rfl | rfl | rfl
    · exact line_of_literal rfl (by decide) (printable_int _)
    · exact line_of_literal rfl (by decide) (engineState_printable _)
    · exact line_of_literal rfl (by decide) (JsonText.dumps_printable hdata)
  | resyncRequired afterSeq =>
    obtain ⟨n, hn, rfl⟩ := Option.map_eq_some_iff.mp h
    simp only [List.mem_cons, List.not_mem_nil, or_false] at hl
    rcases hl with rfl | rfl
    · exact bare rfl (by decide)
    · exact number_line rfl (by decide) hn
  | gap dropped =>
    obtain ⟨n, hn, rfl⟩ := Option.map_eq_some_iff.mp h
    simp only [List.mem_cons, List.not_mem_nil, or_false] at hl
    rcases hl with rfl | rfl
    · exact bare rfl (by decide)
    · exact number_line rfl (by decide) hn
  | keepAlive =>
    rw [← Option.some.inj h, List.mem_singleton] at hl
    rw [hl]
    exact bare rfl (by decide)

/-! ## A stream that breaks off -/

/-- What a client has to show for the frames that it has read whole. -/
structure Seen (fl : Floats F) (levels : Nat) (iso : Time → String) (id : List Char)
    (frames : List Frame) (r : EventStream.Reader) : Prop where
  cursor : r.lastEventId = cursorText id frames
  events : clientEvents fl levels r.messages = (eventsOf frames).map fun e => .ok (wireDump iso e)
  told : told r.messages = frames.any tells

/-- Between two frames. -/
structure Between (fl : Floats F) (levels : Nat) (iso : Time → String) (id : List Char)
    (frames : List Frame) (r : EventStream.Reader) : Prop extends Seen fl levels iso id frames r where
  idle : r.Idle
  buffered : r.idBuffer = r.lastEventId

theorem between_start (id : List Char) :
    Between fl levels iso id [] (EventStream.Reader.start id) where
  cursor := rfl
  events := rfl
  told := rfl
  idle := ⟨rfl, rfl⟩
  buffered := rfl

theorem clientEvents_append (ms ms' : List Message) :
    clientEvents fl levels (ms ++ ms') =
      clientEvents fl levels ms ++ clientEvents fl levels ms' := by
  simp [clientEvents]

theorem told_append (ms ms' : List Message) : told (ms ++ ms') = (told ms || told ms') :=
  List.any_append

theorem cursorText_snoc (id : List Char) (frames : List Frame) (f : Frame) :
    cursorText id (frames ++ [f]) = cursorText (cursorText id frames) [f] := by
  cases f <;> simp [cursorText, eventsOf]

/-- What a reader between two frames makes of the lines of the next one. -/
theorem lines_frame {f : Frame} {ls : List (List Char)} (h : frameLines fl levels iso f = some ls)
    {r : EventStream.Reader} (hidle : r.Idle) (hbuf : r.idBuffer = r.lastEventId) :
    ∃ ms, r.lines (ls ++ [[]]) =
        { r with
          idBuffer := cursorText r.lastEventId [f]
          lastEventId := cursorText r.lastEventId [f]
          messages := r.messages ++ ms } ∧
      clientEvents fl levels ms = (eventsOf [f]).map (fun e => .ok (wireDump iso e)) ∧
      told ms = tells f := by
  obtain ⟨data, type, idBuffer, lastEventId, messages⟩ := r
  obtain ⟨rfl, rfl⟩ : data = [] ∧ type = [] := hidle
  obtain rfl : idBuffer = lastEventId := hbuf
  have hmessage (idBuffer' : List Char) (type : List Char) (htype : type ≠ [])
      (data : List Char) := EventStream.Reader.lines_message
        (r := ⟨[], [], idBuffer', idBuffer, messages⟩) ⟨rfl, rfl⟩ htype data
  cases f with
  | event e =>
    obtain ⟨data, hdata, rfl⟩ := Option.map_eq_some_iff.mp h
    obtain ⟨htype, hresync, hgap⟩ := engineState_type e.engineState
    have hid : Char.ofNat 0 ∉ JsonText.intText e.seq := fun hmem => by
      have hprint := printable_int e.seq _ hmem
      cases hprint
    refine ⟨[⟨e.engineState.value.toList, data, JsonText.intText e.seq⟩], ?_, ?_, ?_⟩
    · have hfirst := EventStream.Reader.line_id ⟨[], [], idBuffer, idBuffer, messages⟩ hid
      have hrest := hmessage (JsonText.intText e.seq) _ htype data
      show EventStream.Reader.lines
        (EventStream.Reader.line _ (['i', 'd'] ++ ':' :: ' ' :: JsonText.intText e.seq)) _ = _
      rw [hfirst]
      exact hrest
    · have hread : JsonText.loads fl levels data = .ok (wireDump iso e) :=
        JsonText.loads_dumps (wireDump_plain e) hdata le_rfl
      simp [clientEvents, eventsOf, hresync, hgap, hread]
    · simp [told, tells, hresync, hgap]
  | resyncRequired afterSeq =>
    obtain ⟨n, -, rfl⟩ := Option.map_eq_some_iff.mp h
    exact ⟨_, hmessage idBuffer resyncType (by decide) _, rfl, rfl⟩
  | gap dropped =>
    obtain ⟨n, -, rfl⟩ := Option.map_eq_some_iff.mp h
    exact ⟨_, hmessage idBuffer gapType (by decide) _, rfl, rfl⟩
  | keepAlive =>
    obtain rfl := Option.some.inj h
    refine ⟨[], ?_, rfl, rfl⟩
    rw [List.append_nil]
    exact EventStream.Reader.lines_comment ⟨rfl, rfl⟩ " keep-alive".toList

theorem Between.frame {id : List Char} {frames : List Frame} {r : EventStream.Reader}
    (hb : Between fl levels iso id frames r) {f : Frame} {ls : List (List Char)}
    (h : frameLines fl levels iso f = some ls) :
    Between fl levels iso id (frames ++ [f]) (r.lines (ls ++ [[]])) := by
  obtain ⟨ms, hlines, hevents, htold⟩ := lines_frame h hb.idle hb.buffered
  rw [hlines]
  refine { cursor := ?_, events := ?_, told := ?_, idle := hb.idle, buffered := rfl }
  · rw [cursorText_snoc, ← hb.cursor]
  · rw [clientEvents_append, hb.events, hevents, eventsOf_append, List.map_append]
  · rw [told_append, hb.told, htold, List.any_append, List.any_cons, List.any_nil, Bool.or_false]

/-- The lines of a frame are no message before its blank line. -/
theorem Between.cut {id : List Char} {frames : List Frame} {r : EventStream.Reader}
    (hb : Between fl levels iso id frames r) {ls : List (List Char)} (h : [] ∉ ls) :
    Seen fl levels iso id frames (r.lines ls) := by
  obtain ⟨hmessages, hid⟩ := EventStream.Reader.lines_unblank (r := r) h
  exact ⟨hid.trans hb.cursor, hmessages ▸ hb.events, hmessages ▸ hb.told⟩

theorem Between.lines {id : List Char} {frames more : List Frame} {r : EventStream.Reader}
    {cs : List Char}
    (hb : Between fl levels iso id frames r) (h : streamText fl levels iso more = some cs)
    {L : List (List Char)} (hL : L <+: EventStream.linesFrom [] cs) :
    ∃ seen rest, more = seen ++ rest ∧ Seen fl levels iso id (frames ++ seen) (r.lines L) ∧
      (L = EventStream.linesFrom [] cs → rest = []) := by
  induction more generalizing frames r cs L with
  | nil =>
    obtain rfl := Option.some.inj h
    obtain rfl := List.prefix_nil.mp hL
    refine ⟨[], [], rfl, ?_, fun _ => rfl⟩
    rw [List.append_nil]
    exact hb.toSeen
  | cons f more ih =>
    obtain ⟨t, ht, hrest⟩ := Option.bind_eq_some_iff.mp h
    obtain ⟨ts, hts, rfl⟩ := Option.map_eq_some_iff.mp hrest
    obtain ⟨ls, hls, rfl⟩ := Option.map_eq_some_iff.mp ht
    have hlines := frameLines_unbroken hls
    rw [EventStream.linesFrom_unlines fun l hl => (hlines l hl).1] at hL ⊢
    rcases EventStream.prefix_block hL with hcut | ⟨M, rfl, hM⟩
    · have hblank : [] ∉ L := fun hmem => (hlines _ (hcut.subset hmem)).2 rfl
      refine ⟨[], f :: more, rfl, ?_, fun hwhole => ?_⟩
      · rw [List.append_nil]
        exact hb.cut hblank
      · rw [hwhole] at hblank
        exact absurd (List.mem_append_right _ List.mem_cons_self) hblank
    · obtain ⟨seen, rest, rfl, hseen, hwhole⟩ := ih (hb.frame hls) hts hM
      refine ⟨f :: seen, rest, rfl, ?_, fun hall =>
        hwhole (List.cons.inj (List.append_cancel_left hall)).2⟩
      have hblock : r.lines (ls ++ [] :: M) = (r.lines (ls ++ [[]])).lines M := by
        rw [← EventStream.Reader.lines_append, List.append_assoc, List.singleton_append]
      rw [List.append_assoc] at hseen
      rw [hblock]
      exact hseen

/-- A client that has read part of a stream has the first frames of it, and all of them if it has
    read the whole. -/
theorem read_frames (id : List Char) {frames : List Frame} {cs p : List Char}
    (h : streamText fl levels iso frames = some cs) (hp : p <+: cs) :
    ∃ seen rest, frames = seen ++ rest ∧ Seen fl levels iso id seen (EventStream.read id p) ∧
      (p = cs → rest = []) := by
  have hlines : EventStream.linesFrom [] p <+: EventStream.linesFrom [] cs := by
    obtain ⟨ds, rfl⟩ := hp
    exact EventStream.linesFrom_prefix [] p ds
  obtain ⟨seen, rest, hframes, hseen, hwhole⟩ := (between_start id).lines h hlines
  exact ⟨seen, rest, hframes, hseen, fun hp => hwhole (congrArg _ hp)⟩

end OrderStream

end ExecutionEngine
