/-
  The text frames of the Liberator socket: Engine.IO and Socket.IO, as far as the feed needs
  them.

  `frameOf` is what the provider makes of a text: a ping, an update of `BidOfferV2` or nothing.
  `frameOf_update_iff` says which texts are updates, and `frameOf_error_iff` which end the reader
  before they are parsed: `decode_event` handles a `JSONDecodeError`, but neither the `ValueError`
  of a whole number with more than 4300 digits nor the `RecursionError` of a text nested deeper
  than the `levels` that the recursion limit leaves, whatever the namespace. `raw_feed` carries
  both to a whole session. `event_round_trip` is the round trip of an event, and
  `rooms_round_trip` the one of the packets that join and leave rooms.
-/
import ExecutionEngine.Encoding.JsonRoundTrip
import ExecutionEngine.OrderBook.Provider

namespace ExecutionEngine.EngineIo

open JsonText (Text Value Floats FloatLit loads)
open OrderBooks (Provider Session ReaderState)
open BidOffer (OrderBook Readable handleFrame readFrames)

/-- `BID_OFFER_NS`. -/
def bidOfferNs : List Char := "BidOfferV2".toList

def sioConnect : List Char := ['4', '0']

def sioEvent : List Char := ['4', '2']

inductive FrameKind where
  | open | ping | event | other
  deriving DecidableEq, Repr

structure EventFrame (F : Type) where
  ns : List Char
  name : Text
  arg : Value F

/-! ## Packets -/

/-- `42/<NS>,` before the JSON text of an event. -/
def eventPacket (ns body : List Char) : List Char := sioEvent ++ '/' :: (ns ++ ',' :: body)

variable {F : Type} (fl : Floats F)

/-- `json.dumps([name, text])`. -/
def callText (name : String) (text : List Char) : List Char :=
  (Value.arr [.str (Text.ofString name), .str (text.map Char.toNat)]).text fl

/-- `"[" + ",".join(str(i) for i in ids) + "]"`. -/
def idsText (ids : List Int) : List Char :=
  '[' :: (JsonText.compactText fl (ids.map .int) ++ [']'])

/-- `join_rooms_packet`; `str` of a number that is too long raises. -/
def joinRoomsPacket (ids : List Int) : Option (List Char) :=
  if JsonText.itemsFit (ids.map Value.int : List (Value F)) then
    some (eventPacket bidOfferNs (callText fl "join" (idsText fl ids)))
  else none

/-- `leave_room_packet`. -/
def leaveRoomPacket (id : Int) : Option (List Char) :=
  if (Value.int id : Value F).fits then
    some (eventPacket bidOfferNs (callText fl "leave" (idsText fl [id])))
  else none

/-! ## Reading a frame -/

def classify (raw : List Char) : FrameKind :=
  if raw = ['2'] then .ping
  else if ['0'].isPrefixOf raw && !sioConnect.isPrefixOf raw then .open
  else if sioEvent.isPrefixOf raw then .event
  else .other

/-- The namespace of an event and the text after it. -/
def eventBody (raw : List Char) : Option (List Char × List Char) :=
  if sioEvent.isPrefixOf raw then
    match raw.drop sioEvent.length with
    | '/' :: cs =>
      if ',' ∈ cs then some (cs.takeWhile (· ≠ ','), (cs.dropWhile (· ≠ ',')).tail) else none
    | body => some (['/'], body)
  else none

/-- A list with a name in front. -/
def eventOf (ns : List Char) : Value F → Option (EventFrame F)
  | .arr (.str name :: args) => some ⟨ns, name, args.head?.getD .null⟩
  | _ => none

/-- `decode_event`: a `JSONDecodeError` is no event, what else `json.loads` raises is raised. -/
def decodeEvent (levels : Nat) (raw : List Char) : Except PyError (Option (EventFrame F)) :=
  match eventBody raw with
  | none => .ok none
  | some (ns, body) =>
    match loads fl levels body with
    | .ok v => .ok (eventOf ns v)
    | .error .malformed => .ok none
    | .error .tooDeep => .error .recursionError
    | .error _ => .error .valueError

/-- A text with U+FFFD for half a surrogate pair, which no number and no key of the feed has. -/
def textString (t : Text) : String :=
  String.ofList (t.map fun c => if c.isValidChar then Char.ofNat c else Char.ofNat 65533)

/-- The decimal that a literal spells. -/
def floatDecimal (x : FloatLit) : Decimal :=
  let places := x.frac.elim [] Subtype.val
  let exponent := x.exp.elim 0 fun e =>
    signed (e.sign = some .minus) (Nat.ofDigitChars 10 e.digits.1 0)
  ⟨signed x.neg (Nat.ofDigitChars 10 (x.whole.1.1 ++ places) 0), exponent - places.length⟩

mutual

/-- A decoded value, as the parser of the feed takes it. -/
def toJson : Value F → Json
  | .null => .null
  | .bool b => .bool b
  | .int n => .int n
  | .float x => match fl.spell x with
    | .nan => .special .nan
    | .infinity => .special .inf
    | .negInfinity => .special .negInf
    | .lit l => .num (floatDecimal l)
  | .str s => .str (textString s)
  | .arr vs => .arr (itemsJson vs)
  | .obj fs => .obj (fieldsJson fs)

def itemsJson : List (Value F) → List Json
  | [] => []
  | v :: vs => toJson v :: itemsJson vs

def fieldsJson : List (Text × Value F) → Dict
  | [] => []
  | (k, v) :: fs => (textString k, toJson v) :: fieldsJson fs

end

/-- What `_handle_frame` makes of a text, before it parses an update. -/
def frameOf (levels : Nat) (receivedAt : Time) (raw : List Char) :
    Except PyError OrderBooks.Frame :=
  match classify raw with
  | .ping => .ok .ping
  | .event =>
    match decodeEvent fl levels raw with
    | .error e => .error e
    | .ok (some ⟨ns, name, .obj fs⟩) =>
      if ns = bidOfferNs ∧ name = Text.ofString "update" then
        .ok (.update receivedAt (fieldsJson fl fs))
      else .ok .other
    | .ok _ => .ok .other
  | _ => .ok .other

/-! ## Events and the texts around them -/

theorem classify_event {raw : List Char} (h : sioEvent.isPrefixOf raw = true) :
    classify raw = .event := by
  obtain ⟨cs, rfl⟩ := List.isPrefixOf_iff_prefix.mp h
  simp [classify, sioEvent]

/-- Only a text that begins so is an event. -/
theorem eventBody_none {raw : List Char} (h : classify raw ≠ .event) : eventBody raw = none := by
  unfold eventBody
  rw [if_neg]
  exact fun hp => h (classify_event hp)

theorem eventBody_classify {raw : List Char} {x : List Char × List Char}
    (h : eventBody raw = some x) : classify raw = .event := by
  by_contra hne
  rw [eventBody_none hne] at h
  cases h

/-- A namespace ends at its comma. -/
theorem eventBody_packet {ns : List Char} (hns : ',' ∉ ns) (body : List Char) :
    eventBody (eventPacket ns body) = some (ns, body) := by
  have hkeep : ∀ c ∈ ns, decide (c ≠ ',') = true := fun c hc =>
    decide_eq_true fun he => hns (he ▸ hc)
  have htake : (ns ++ ',' :: body).takeWhile (· ≠ ',') = ns := by
    rw [List.takeWhile_append_of_pos hkeep, List.takeWhile_cons_of_neg (by simp), List.append_nil]
  have hdrop : ((ns ++ ',' :: body).dropWhile (· ≠ ',')).tail = body := by
    rw [List.dropWhile_append_of_pos hkeep, List.dropWhile_cons_of_neg (by simp), List.tail_cons]
  have hprefix : sioEvent.isPrefixOf (eventPacket ns body) = true :=
    List.isPrefixOf_iff_prefix.mpr (List.prefix_append ..)
  have hrest : (eventPacket ns body).drop sioEvent.length = '/' :: (ns ++ ',' :: body) := rfl
  have hcomma : ',' ∈ ns ++ ',' :: body := List.mem_append_right _ List.mem_cons_self
  unfold eventBody
  rw [if_pos hprefix, hrest]
  simp only [if_pos hcomma, htake, hdrop]

/-- The texts of a named namespace. -/
theorem eventBody_iff {raw ns body : List Char} (hns : ns ≠ ['/']) :
    eventBody raw = some (ns, body) ↔ ',' ∉ ns ∧ raw = eventPacket ns body := by
  constructor
  · intro h
    have hread := h
    unfold eventBody at h
    split at h
    · rename_i hp
      obtain ⟨cs, rfl⟩ := List.isPrefixOf_iff_prefix.mp hp
      rw [List.drop_left] at h
      split at h
      · split at h
        · rename_i hcomma
          obtain ⟨ns', body', rfl, hns'⟩ := List.eq_append_cons_of_mem hcomma
          have hpacket := eventBody_packet hns' body'
          have hraw : sioEvent ++ '/' :: (ns' ++ ',' :: body') = eventPacket ns' body' := rfl
          rw [hraw, hpacket] at hread
          obtain ⟨rfl, rfl⟩ := Prod.mk.inj (Option.some.inj hread)
          exact ⟨hns', hraw⟩
        · cases h
      · exact absurd (Prod.mk.inj (Option.some.inj h)).1.symm hns
    · cases h
  · rintro ⟨hns, rfl⟩
    exact eventBody_packet hns body

theorem bidOfferNs_comma : ',' ∉ bidOfferNs := by decide

theorem bidOfferNs_named : bidOfferNs ≠ ['/'] := by decide

/-! ## Round trips -/

variable {fl}

/-- The text of an event: its name and its argument. -/
def eventText (fl : Floats F) (name : Text) (arg : Value F) : List Char :=
  (Value.arr [.str name, arg]).text fl

theorem loads_eventText {name : Text} {arg : Value F} {levels : Nat} (hname : Text.Sound name)
    (hp : arg.Plain) (hfit : arg.fits = true) (hdepth : arg.depth ≤ levels) :
    loads fl (levels + 1) (eventText fl name arg) = .ok (.arr [.str name, arg]) := by
  have hfits : (Value.arr [.str name, arg]).fits = true := by
    simp [Value.fits, JsonText.itemsFit, hfit]
  have hdeep : (Value.arr [.str name, arg]).depth ≤ levels + 1 := by
    simp [Value.depth, JsonText.itemsDepth, hdepth]
  have hdumps : JsonText.dumps fl (levels + 1) (.arr [.str name, arg]) =
      some (eventText fl name arg) := by
    rw [JsonText.dumps, hfits, Bool.true_and, decide_eq_true hdeep]
    rfl
  exact JsonText.loads_dumps ⟨hname, hp, trivial⟩ hdumps le_rfl

theorem decode_named {ns : List Char} {name : Text} {arg : Value F} {levels : Nat} (hns : ',' ∉ ns)
    (hname : Text.Sound name) (hp : arg.Plain) (hfit : arg.fits = true)
    (hdepth : arg.depth ≤ levels) :
    decodeEvent fl (levels + 1) (eventPacket ns (eventText fl name arg)) =
      .ok (some ⟨ns, name, arg⟩) := by
  unfold decodeEvent
  rw [eventBody_packet hns]
  simp only [loads_eventText hname hp hfit hdepth]
  rfl

/-- What is written for an event is read as that event, in a namespace and in the default one: its
    texts are sound, no key of an object in it stands twice, its whole numbers can be written, and
    the recursion limit leaves a level more than it is deep. -/
theorem event_round_trip {ns : List Char} {name : Text} {arg : Value F} {levels : Nat}
    (hns : ',' ∉ ns) (hname : Text.Sound name) (hp : arg.Plain) (hfit : arg.fits = true)
    (hdepth : arg.depth ≤ levels) :
    decodeEvent fl (levels + 1) (eventPacket ns (eventText fl name arg)) =
      .ok (some ⟨ns, name, arg⟩) ∧
    decodeEvent fl (levels + 1) (sioEvent ++ eventText fl name arg) =
      .ok (some ⟨['/'], name, arg⟩) := by
  refine ⟨decode_named hns hname hp hfit hdepth, ?_⟩
  have hbody : eventBody (sioEvent ++ eventText fl name arg) =
      some (['/'], eventText fl name arg) := by
    have hprefix : sioEvent.isPrefixOf (sioEvent ++ eventText fl name arg) = true :=
      List.isPrefixOf_iff_prefix.mpr (List.prefix_append ..)
    unfold eventBody
    rw [if_pos hprefix, List.drop_left, eventText, Value.text]
    rfl
  unfold decodeEvent
  rw [hbody]
  simp only [loads_eventText hname hp hfit hdepth]
  rfl

theorem sample_round_trip :
    decodeEvent JsonText.spelled 3 (eventPacket "StockV2".toList
      (eventText JsonText.spelled (Text.ofString "tick") (.obj [([112], .arr [.int (-7), .null])]))) =
        .ok (some ⟨"StockV2".toList, Text.ofString "tick", .obj [([112], .arr [.int (-7), .null])]⟩) ∧
    decodeEvent JsonText.spelled 3 (sioEvent ++
      eventText JsonText.spelled (Text.ofString "tick") (.obj [([112], .arr [.int (-7), .null])])) =
        .ok (some ⟨['/'], Text.ofString "tick", .obj [([112], .arr [.int (-7), .null])]⟩) :=
  event_round_trip (by decide) (JsonText.sound_chars _)
    ⟨by unfold Odict.Unique; decide,
      ⟨by unfold JsonText.Text.Sound; decide, ⟨trivial, trivial, trivial⟩, trivial⟩⟩
    rfl (by decide)

/-- One level more, and the same packet ends the reader. -/
example : decodeEvent JsonText.spelled 2 (eventPacket "StockV2".toList
    (eventText JsonText.spelled (Text.ofString "tick") (.obj [([112], .arr [.int (-7), .null])]))) =
      .error .recursionError := rfl

theorem itemsDepth_ids (ids : List Int) :
    JsonText.itemsDepth (ids.map Value.int : List (Value F)) = 0 := by
  induction ids with
  | nil => rfl
  | cons id ids ih => rw [List.map_cons, JsonText.itemsDepth, ih]; rfl

theorem idsText_loads {ids : List Int} (levels : Nat)
    (hfit : JsonText.itemsFit (ids.map Value.int : List (Value F)) = true) :
    loads fl (levels + 1) (idsText fl ids) = .ok (.arr (ids.map .int)) := by
  refine JsonText.loads_compact ?_ hfit ((itemsDepth_ids ids).trans_le (Nat.zero_le levels))
  induction ids with
  | nil => trivial
  | cons id ids ih =>
    rw [List.map_cons, JsonText.itemsFit, Bool.and_eq_true] at hfit
    exact ⟨trivial, ih hfit.2⟩

theorem itemsFit_false {ids : List Int}
    (h : JsonText.itemsFit (ids.map Value.int : List (Value F)) = false) :
    ∃ id ∈ ids, JsonText.maxDigits < (Nat.toDigits 10 id.natAbs).length := by
  induction ids with
  | nil => cases h
  | cons id ids ih =>
    rw [List.map_cons, JsonText.itemsFit, Bool.and_eq_false_iff] at h
    rcases h with h | h
    · exact ⟨id, List.mem_cons_self, by simpa [Value.fits] using h⟩
    · obtain ⟨id', hmem, hlong⟩ := ih h
      exact ⟨id', List.mem_cons_of_mem _ hmem, hlong⟩

/-- A text asks the feed to do `name` to the rooms `ids`. -/
def Asks (fl : Floats F) (levels : Nat) (name : String) (ids : List Int) (raw : List Char) : Prop :=
  classify raw = .event ∧ ∃ text : List Char,
    decodeEvent fl levels raw =
      .ok (some ⟨bidOfferNs, Text.ofString name, .str (text.map Char.toNat)⟩) ∧
    loads fl levels text = .ok (.arr (ids.map .int))

theorem asks_call (levels : Nat) (name : String) {ids : List Int}
    (hfit : JsonText.itemsFit (ids.map Value.int : List (Value F)) = true) :
    Asks fl (levels + 1) name ids (eventPacket bidOfferNs (callText fl name (idsText fl ids))) :=
  ⟨eventBody_classify (eventBody_packet bidOfferNs_comma _), idsText fl ids,
    decode_named bidOfferNs_comma (JsonText.sound_chars _) (JsonText.sound_chars _) rfl
      (Nat.zero_le levels),
    idsText_loads levels hfit⟩

/-- The packets that join and leave rooms say so of exactly the rooms that were given, unless a
    room has too many digits to be written. A single level is enough to read them. -/
theorem rooms_round_trip (fl : Floats F) (levels : Nat) (ids : List Int) (id : Int) :
    ((∃ raw, joinRoomsPacket fl ids = some raw ∧ Asks fl (levels + 1) "join" ids raw) ∨
      joinRoomsPacket fl ids = none ∧
        ∃ i ∈ ids, JsonText.maxDigits < (Nat.toDigits 10 i.natAbs).length) ∧
    ((∃ raw, leaveRoomPacket fl id = some raw ∧ Asks fl (levels + 1) "leave" [id] raw) ∨
      leaveRoomPacket fl id = none ∧ JsonText.maxDigits < (Nat.toDigits 10 id.natAbs).length) := by
  constructor
  · unfold joinRoomsPacket
    split
    · rename_i hfit
      exact .inl ⟨_, rfl, asks_call levels "join" hfit⟩
    · rename_i hlong
      exact .inr ⟨rfl, itemsFit_false (by simpa using hlong)⟩
  · unfold leaveRoomPacket
    split
    · rename_i hfit
      exact .inl ⟨_, rfl, asks_call levels "leave" (by simp [JsonText.itemsFit, hfit])⟩
    · rename_i hlong
      exact .inr ⟨rfl, by simpa [Value.fits] using hlong⟩

/-! ## What a text is to the provider -/

/-- `42/BidOfferV2,["update",{…}]`. -/
def IsUpdate (fl : Floats F) (levels : Nat) (raw : List Char) (payload : Dict) : Prop :=
  ∃ body fs args, raw = eventPacket bidOfferNs body ∧
    loads fl levels body = .ok (.arr (.str (Text.ofString "update") :: .obj fs :: args)) ∧
    payload = fieldsJson fl fs

/-- What `json.loads` raises for an event, of whatever namespace, that is no decode error: it has a
    whole number that is too long, or it is nested too deep. -/
def Raises (fl : Floats F) (levels : Nat) (raw : List Char) (x : PyError) : Prop :=
  ∃ ns body, eventBody raw = some (ns, body) ∧
    (loads fl levels body = .error .tooManyDigits ∧ x = .valueError ∨
      loads fl levels body = .error .tooDeep ∧ x = .recursionError)

variable {levels : Nat}

theorem eventOf_some {ns : List Char} {v : Value F} {e : EventFrame F} (h : eventOf ns v = some e) :
    ∃ args, v = .arr (.str e.name :: args) ∧ e.ns = ns ∧ e.arg = args.head?.getD .null := by
  unfold eventOf at h
  split at h
  · obtain rfl := Option.some.inj h
    exact ⟨_, rfl, rfl, rfl⟩
  · cases h

/-- `decode_event` raises what `json.loads` raises, but for a decode error. -/
theorem decodeEvent_error_iff {raw : List Char} {x : PyError} :
    decodeEvent fl levels raw = .error x ↔ Raises fl levels raw x := by
  unfold decodeEvent Raises
  split
  · rename_i hnone
    simp [hnone]
  · rename_i ns body hbody
    have hne : loads fl levels body ≠ .error .exhausted := JsonText.loads_ne_exhausted levels body
    constructor
    · intro h
      refine ⟨ns, body, hbody, ?_⟩
      split at h
      · cases h
      · cases h
      · rename_i he
        obtain rfl := Except.error.inj h
        exact .inr ⟨he, rfl⟩
      · rename_i e hmalformed hdeep he
        obtain rfl := Except.error.inj h
        cases e with
        | malformed => exact absurd rfl hmalformed
        | tooDeep => exact absurd rfl hdeep
        | exhausted => exact absurd he hne
        | tooManyDigits => exact .inl ⟨he, rfl⟩
    · rintro ⟨ns', body', hbody', ⟨he, rfl⟩ | ⟨he, rfl⟩⟩ <;>
        rw [hbody] at hbody' <;>
        obtain ⟨rfl, rfl⟩ := Prod.mk.inj (Option.some.inj hbody') <;>
        simp only [he]

/-- What `decode_event` finds in a text of the feed's namespace. -/
theorem decodeEvent_obj_iff {raw : List Char} {name : Text} {fs : List (Text × Value F)} :
    decodeEvent fl levels raw = .ok (some ⟨bidOfferNs, name, .obj fs⟩) ↔
      ∃ body args, raw = eventPacket bidOfferNs body ∧
        loads fl levels body = .ok (.arr (.str name :: .obj fs :: args)) := by
  constructor
  · intro h
    unfold decodeEvent at h
    split at h
    · cases h
    · rename_i ns body hbody
      split at h
      · rename_i v hv
        obtain ⟨args, rfl, hns, harg⟩ := eventOf_some (Except.ok.inj h)
        obtain rfl : bidOfferNs = ns := hns
        obtain ⟨-, rfl⟩ := (eventBody_iff bidOfferNs_named).mp hbody
        cases args with
        | nil => cases harg
        | cons a args =>
          obtain rfl : Value.obj fs = a := harg
          exact ⟨body, args, rfl, hv⟩
      · cases h
      · cases h
      · cases h
  · rintro ⟨body, args, rfl, hloads⟩
    unfold decodeEvent
    rw [eventBody_packet bidOfferNs_comma]
    simp only [hloads]
    rfl

theorem Raises.event {raw : List Char} {x : PyError} (h : Raises fl levels raw x) :
    classify raw = .event := by
  obtain ⟨ns, body, hbody, -⟩ := h
  exact eventBody_classify hbody

theorem IsUpdate.event {raw : List Char} {payload : Dict} (h : IsUpdate fl levels raw payload) :
    classify raw = .event := by
  obtain ⟨body, fs, args, rfl, -⟩ := h
  exact eventBody_classify (eventBody_packet bidOfferNs_comma body)

/-- Which texts end the reader before they are parsed. -/
theorem frameOf_error_iff {t : Time} {raw : List Char} {x : PyError} :
    frameOf fl levels t raw = .error x ↔ Raises fl levels raw x := by
  by_cases hc : classify raw = .event
  · unfold frameOf
    rw [← decodeEvent_error_iff]
    simp only [hc]
    split
    · rename_i e he
      rw [he]
      simp
    · rename_i ns name fs hok
      rw [hok]
      split <;> simp
    · rename_i o hok
      rw [hok]
      simp
  · refine iff_of_false (fun h => ?_) fun h => hc h.event
    unfold frameOf at h
    split at h
    · cases h
    · exact hc (by assumption)
    · cases h

/-- Which texts are updates of the feed. -/
theorem frameOf_update_iff {t t' : Time} {raw : List Char} {payload : Dict} :
    frameOf fl levels t raw = .ok (.update t' payload) ↔
      t' = t ∧ IsUpdate fl levels raw payload := by
  by_cases hc : classify raw = .event
  · have hupdate : IsUpdate fl levels raw payload ↔ ∃ fs, payload = fieldsJson fl fs ∧
        decodeEvent fl levels raw = .ok (some ⟨bidOfferNs, Text.ofString "update", .obj fs⟩) := by
      constructor
      · rintro ⟨body, fs, args, hraw, hloads, hpayload⟩
        exact ⟨fs, hpayload, decodeEvent_obj_iff.mpr ⟨body, args, hraw, hloads⟩⟩
      · rintro ⟨fs, hpayload, hdecode⟩
        obtain ⟨body, args, hraw, hloads⟩ := decodeEvent_obj_iff.mp hdecode
        exact ⟨body, fs, args, hraw, hloads, hpayload⟩
    rw [hupdate]
    unfold frameOf
    simp only [hc]
    split
    · rename_i e he
      simp [he]
    · rename_i ns name fs hok
      rw [hok]
      split
      · rename_i hnamed
        obtain ⟨rfl, rfl⟩ := hnamed
        constructor
        · intro h
          obtain ⟨rfl, rfl⟩ := OrderBooks.Frame.update.inj (Except.ok.inj h)
          exact ⟨rfl, fs, rfl, rfl⟩
        · rintro ⟨rfl, fs', rfl, hfs⟩
          obtain rfl := Value.obj.inj (EventFrame.mk.inj (Option.some.inj (Except.ok.inj hfs))).2.2
          rfl
      · rename_i hnamed
        refine iff_of_false (fun h => by cases h) ?_
        rintro ⟨-, fs', -, hfs⟩
        have hframe := EventFrame.mk.inj (Option.some.inj (Except.ok.inj hfs))
        exact hnamed ⟨hframe.1, hframe.2.1⟩
    · rename_i o hother hok
      refine iff_of_false (fun h => by cases h) ?_
      rintro ⟨-, fs', -, hfs⟩
      rw [hfs] at hok
      exact hother _ _ _ (Except.ok.inj hok).symm
  · refine iff_of_false (fun h => ?_) fun h => hc h.2.event
    unfold frameOf at h
    split at h
    · cases h
    · exact hc (by assumption)
    · cases h

/-! ## A session of texts -/

/-- `_handle_frame`: the book of a text, if it has one. -/
def handleRaw (fl : Floats F) (levels : Nat) (byRoom : Int → Option (String × Market))
    (receivedAt : Time) (raw : List Char) : Except PyError (Option OrderBook) :=
  match frameOf fl levels receivedAt raw with
  | .error e => .error e
  | .ok (.update receivedAt payload) => handleFrame byRoom receivedAt payload
  | .ok _ => .ok none

/-- `async for raw in ws`: the books that were emitted, and the exception that ended the task. -/
def readRaw (fl : Floats F) (levels : Nat) (byRoom : Int → Option (String × Market)) :
    List (Time × List Char) → List OrderBook × Option PyError
  | [] => ([], none)
  | (receivedAt, raw) :: raws =>
    match handleRaw fl levels byRoom receivedAt raw with
    | .error e => ([], some e)
    | .ok book => (book.toList ++ (readRaw fl levels byRoom raws).1, (readRaw fl levels byRoom raws).2)

/-- The update that a text is. -/
def updateOf (fl : Floats F) (levels : Nat) (x : Time × List Char) : Option (Time × Dict) :=
  match frameOf fl levels x.1 x.2 with
  | .ok (.update receivedAt payload) => some (receivedAt, payload)
  | _ => none

/-- A text that the reader gets past. -/
def Harmless (fl : Floats F) (levels : Nat) (raw : List Char) : Prop :=
  (∀ x, ¬ Raises fl levels raw x) ∧ ∀ payload, IsUpdate fl levels raw payload → Readable payload

theorem updateOf_iff {x : Time × List Char} {t : Time} {payload : Dict} :
    updateOf fl levels x = some (t, payload) ↔ t = x.1 ∧ IsUpdate fl levels x.2 payload := by
  rw [← frameOf_update_iff]
  unfold updateOf
  split
  · rename_i t' payload' hok
    rw [hok]
    simp
  · rename_i hother
    exact iff_of_false (fun h => by cases h) fun h => hother _ _ h

variable {byRoom : Int → Option (String × Market)}

/-- One text: it is harmless, and its update is handled, or it ends the reader. -/
theorem handleRaw_spec (fl : Floats F) (levels : Nat) (byRoom : Int → Option (String × Market))
    (x : Time × List Char) :
    Harmless fl levels x.2 ∧ (∃ book, handleRaw fl levels byRoom x.1 x.2 = .ok book ∧
      readFrames byRoom (updateOf fl levels x).toList = (book.toList, none)) ∨
    ¬ Harmless fl levels x.2 ∧ ∃ e, handleRaw fl levels byRoom x.1 x.2 = .error e := by
  obtain ⟨t, raw⟩ := x
  cases hframe : frameOf fl levels t raw with
  | error e =>
    have hraises := frameOf_error_iff.mp hframe
    exact .inr ⟨fun h => h.1 e hraises, e, by rw [handleRaw, hframe]⟩
  | ok f =>
    have hquiet : ∀ x, ¬ Raises fl levels raw x := fun x h => by
      rw [frameOf_error_iff.mpr h] at hframe
      cases hframe
    cases f with
    | update t' payload =>
      obtain ⟨rfl, hupdate⟩ := frameOf_update_iff.mp hframe
      have hraw : handleRaw fl levels byRoom t' raw = handleFrame byRoom t' payload := by
        rw [handleRaw, hframe]
      have hof : updateOf fl levels (t', raw) = some (t', payload) := updateOf_iff.mpr ⟨rfl, hupdate⟩
      rcases BidOffer.handleFrame_spec byRoom t' payload with ⟨hread, book, hbook⟩ | ⟨hunread, e, he⟩
      · refine .inl ⟨⟨hquiet, fun p hp => ?_⟩, book, hraw.trans hbook, ?_⟩
        · have hsame := (frameOf_update_iff (t := t')).mpr ⟨rfl, hp⟩
          rw [hframe] at hsame
          obtain ⟨-, rfl⟩ := OrderBooks.Frame.update.inj (Except.ok.inj hsame)
          exact hread
        · rw [hof, Option.toList_some, readFrames, hbook]
          simp [readFrames]
      · exact .inr ⟨fun h => hunread (h.2 payload hupdate), e, hraw.trans he⟩
    | ping | other =>
      refine .inl ⟨⟨hquiet, fun p hp => ?_⟩, none, by rw [handleRaw, hframe], by
        rw [updateOf, hframe]; rfl⟩
      rw [frameOf_update_iff.mpr ⟨rfl, hp⟩] at hframe
      cases hframe

theorem readFrames_cons {frame : Time × Dict} {frames : List (Time × Dict)} {book : Option OrderBook}
    (h : readFrames byRoom [frame] = (book.toList, none)) :
    readFrames byRoom (frame :: frames) =
      (book.toList ++ (readFrames byRoom frames).1, (readFrames byRoom frames).2) := by
  obtain ⟨t, payload⟩ := frame
  rw [readFrames] at h ⊢
  cases hframe : handleFrame byRoom t payload with
  | error e =>
    rw [hframe] at h
    cases congrArg Prod.snd h
  | ok book' =>
    rw [hframe] at h
    have hbooks := congrArg Prod.fst h
    simp only [readFrames, List.append_nil] at hbooks
    simp only [hbooks]

/-- The reader goes on as long as no text is harmful, and what it has emitted then are the books of
    the updates before the first one that is; and the updates are the texts that spell one. -/
theorem raw_feed (fl : Floats F) (levels : Nat) (byRoom : Int → Option (String × Market))
    (raws : List (Time × List Char)) :
    ((readRaw fl levels byRoom raws).2 = none ↔ ∀ x ∈ raws, Harmless fl levels x.2) ∧
    (∃ good rest, raws = good ++ rest ∧ (∀ x ∈ good, Harmless fl levels x.2) ∧
      (∀ bad ∈ rest.head?, ¬ Harmless fl levels bad.2) ∧
      (readRaw fl levels byRoom raws).1 = (readFrames byRoom (good.filterMap (updateOf fl levels))).1) ∧
    ∀ x t payload, updateOf fl levels x = some (t, payload) ↔
      t = x.1 ∧ IsUpdate fl levels x.2 payload := by
  refine ⟨?_, ?_, fun x t payload => updateOf_iff⟩
  · induction raws with
    | nil => exact iff_of_true rfl fun _ h => absurd h List.not_mem_nil
    | cons x raws ih =>
      rw [List.forall_mem_cons, readRaw]
      rcases handleRaw_spec fl levels byRoom x with ⟨hx, book, hbook, -⟩ | ⟨hx, e, he⟩
      · rw [hbook]
        exact ih.trans (and_iff_right hx).symm
      · rw [he]
        exact iff_of_false (fun h => nomatch h) fun h => hx h.1
  · induction raws with
    | nil => exact ⟨[], [], rfl, fun _ h => absurd h List.not_mem_nil, fun _ h => (by cases h), rfl⟩
    | cons x raws ih =>
      rcases handleRaw_spec fl levels byRoom x with ⟨hx, book, hbook, hof⟩ | ⟨hx, e, he⟩
      · obtain ⟨good, rest, rfl, hgood, hrest, hbooks⟩ := ih
        refine ⟨x :: good, rest, rfl, List.forall_mem_cons.mpr ⟨hx, hgood⟩, hrest, ?_⟩
        rw [readRaw, hbook, List.filterMap_cons]
        cases hx' : updateOf fl levels x with
        | none =>
          rw [hx', Option.toList_none, readFrames] at hof
          have hnil : book.toList = [] := (congrArg Prod.fst hof).symm
          simp only [hnil, List.nil_append, hbooks]
        | some frame =>
          rw [hx', Option.toList_some] at hof
          simp only [readFrames_cons hof, hbooks]
      · refine ⟨[], x :: raws, rfl, fun _ h => absurd h List.not_mem_nil, fun bad hbad => ?_, ?_⟩
        · obtain rfl := Option.some.inj hbad
          exact hx
        · rw [readRaw, he]
          rfl

end ExecutionEngine.EngineIo
