/-
  A client of `GET /orders/stream` that comes back.

  A connection breaks off anywhere in its text; the client comes back with the id that it was left
  with, and `parseCursor` reads it. `Visits` is any number of connections of that kind to one
  process. `resumed_exact`: a client that was never told that it has missed something has been
  sent the events behind its first cursor that it wants, in order, each once and none left out.
-/
import ExecutionEngine.Api.StreamText

namespace ExecutionEngine.OrderStream

open JsonText (Text Value Floats)
open EventStream (Message)
open EventHub (HubHistory Logged)
open Streaming (connect CalmRun CaughtUp Follows)

variable {F : Type}

/-! ## The cursor -/

/-- `_parse_cursor`: the header, or else the query. -/
def parseCursor (header : Option String) (lastEventId : Option Int) : Except ApiError Int :=
  match header with
  | none => .ok (lastEventId.getD 0)
  | some raw => match intOfText raw with
    | some n => .ok n
    | none => .error (.http 422 "invalid Last-Event-ID")

/-- The id of an event is read as its number. -/
theorem parseCursor_seq {n : Nat} {lastEventId : Option Int} {c : Int}
    (h : parseCursor (some (String.ofList (JsonText.intText n))) lastEventId = .ok c) : c = n := by
  have hdigits : ∀ c ∈ Nat.toDigits 10 n, c.isDigit = true := fun c hc =>
    Nat.isDigit_of_mem_toDigits (by decide) (by decide) hc
  have htext : JsonText.intText n = Nat.toDigits 10 n := by
    simp [JsonText.intText, JsonText.signText]
  have hplain (c : Char) (hc : c ∈ Nat.toDigits 10 n) :=
    isHex_plain (c := c) (by rw [isHex, hdigits c hc]; rfl)
  have hsign : splitSign (Nat.toDigits 10 n) = (false, Nat.toDigits 10 n) := by
    obtain ⟨d, ds, hds⟩ := List.exists_cons_of_ne_nil (Nat.toDigits_ne_nil (b := 10) (n := n))
    obtain ⟨-, -, hminus, hplus, -⟩ := hplain d (hds ▸ List.mem_cons_self)
    rw [hds, splitSign_plain hminus hplus]
  have hread : intOfText (String.ofList (JsonText.intText n)) =
      if (Nat.toDigits 10 n).length ≤ 4300 then some (n : Int) else none := by
    rw [intOfText, String.toList_ofList, htext, map_plainChar fun c hc => (hplain c hc).1,
      trim_none fun c hc => (hplain c hc).2.1, hsign]
    dsimp only
    rw [intDigits, digitRuns_plain Nat.toDigits_ne_nil hdigits (by decide), Option.filter_some]
    split
    · simp_all [signed, Nat.ofDigitChars_toDigits]
    · simp_all
  rw [parseCursor, hread] at h
  split at h
  · rename_i m hm
    split at hm
    · rw [← Except.ok.inj h, ← Option.some.inj hm]
    · cases hm
  · cases h

/-! ## One connection after another -/

/-- The events that a reader wants. -/
def wantedBy (cid : Option String) (log : List OrderUpdateEvent) : List OrderUpdateEvent :=
  log.filter fun e => cid.all fun x => e.clientOrderId = x

variable (fl : Floats F) (levels : Nat) (iso : Time → String) (ring queue : Nat)
  (cid : Option String)

/-- A connection that asks with `id`: the process has published `log` before it and `later` while
    it lasted, nothing of that into a full queue, and `cs` is what was sent. -/
structure Visit (id : List Char) (log later : List OrderUpdateEvent) where
  number : Nat
  hub : EventHub
  history : HubHistory ring queue number log hub
  afterSeq : Int
  asks : parseCursor (some (String.ofList id)) none = .ok afterSeq
  seeded : List String
  state : Streaming
  run : CalmRun { afterSeq, clientOrderId := cid } number
    (connect { afterSeq, clientOrderId := cid } number seeded hub) later state
  cs : List Char
  sent : streamText fl levels iso state.frames = some cs

/-- Connections of one client to one process, each broken off somewhere: the events published up
    to the last of them, the id that the client has and the messages that it was dispatched. -/
inductive Visits (c : Nat) : List OrderUpdateEvent → List Char → List Message → Prop where
  | start {log : List OrderUpdateEvent} (h : c ≤ log.length) : Visits c log (JsonText.intText c) []
  | visit {log before later : List OrderUpdateEvent} {id p : List Char} {messages : List Message}
    (prev : Visits c log id messages) (v : Visit fl levels iso ring queue cid id before later)
    (hlog : log <+: before) (hp : p <+: v.cs) :
    Visits c (before ++ later) (EventStream.read id p).lastEventId
      (messages ++ (EventStream.read id p).messages)

variable {fl levels iso ring queue cid}

namespace Visit

variable {id : List Char} {before later : List OrderUpdateEvent}
  (v : Visit fl levels iso ring queue cid id before later)

include v

theorem numbered : Ring.Numbered OrderUpdateEvent.seq (before ++ later) := by
  have hl := v.history.logged
  have hsub : Logged before
      (connect { afterSeq := v.afterSeq, clientOrderId := cid } v.number v.seeded v.hub).hub :=
    ⟨hl.ring, hl.next, hl.numbered⟩
  exact (v.run.logged hsub).numbered

theorem wanted (es : List OrderUpdateEvent) :
    StreamArgs.wanted { afterSeq := v.afterSeq, clientOrderId := cid } v.seeded es =
      wantedBy cid es := by
  rw [StreamArgs.wanted, StreamArgs.pass_cid rfl]
  rfl

theorem follows : Follows { afterSeq := v.afterSeq, clientOrderId := cid } v.number v.seeded
    before.length (v.hub.replay v.afterSeq).2 ((v.hub.replay v.afterSeq).1 ++ later) v.state :=
  v.run.follows (Streaming.follows_connect v.history.logged v.history.absent)

/-- What is due: what the ring still has behind the cursor, and what came later. -/
theorem due (hring : 1 ≤ ring) {n : Nat} (hn : 0 < n) (hreach : n ≤ before.length)
    (hafter : v.afterSeq = n) :
    (v.hub.replay v.afterSeq).1 ++ later =
      (before ++ later).drop (max n (before.length - ring)) := by
  have hsize := v.history.ringBufferSize
  have hreplay := (EventHub.replay_logged v.history.logged (by rwa [hsize]) hn).1
  rw [hafter, hreplay, hsize, List.drop_append_of_le_length]
  exact Nat.max_le.mpr ⟨hreach, Nat.sub_le ..⟩

/-- If the hub does not see a gap, that is everything behind the cursor. -/
theorem due_all (hring : 1 ≤ ring) {n : Nat} (hn : 0 < n) (hreach : n ≤ before.length)
    (hafter : v.afterSeq = n) (hgap : (v.hub.replay v.afterSeq).2 = false) :
    (v.hub.replay v.afterSeq).1 ++ later = (before ++ later).drop n := by
  have hl := v.history.logged
  have hsize := v.history.ringBufferSize
  have hkept : ¬ ∃ e ∈ Ring.evicted ring before, n < e.seq := fun hlost => by
    rw [← hsize] at hlost
    rw [hafter, (EventHub.replay_logged hl (by rwa [hsize]) hn).2.mpr hlost] at hgap
    cases hgap
  rw [v.due hring hn hreach hafter, Nat.max_eq_left (Ring.reaches_of_kept hl.numbered hkept)]

/-- An event that was sent is one behind the cursor. -/
theorem sent_behind (hring : 1 ≤ ring) {n : Nat} (hn : 0 < n) (hreach : n ≤ before.length)
    (hafter : v.afterSeq = n) {e : OrderUpdateEvent} (he : e ∈ eventsOf v.state.frames) :
    n < e.seq ∧ e.seq ≤ (before ++ later).length := by
  have hmem := v.follows.sent.subset he
  rw [v.wanted, v.due hring hn hreach hafter, ← v.numbered.above] at hmem
  obtain ⟨hdrop, hlow⟩ := List.mem_filter.mp (List.mem_filter.mp hmem).1
  exact ⟨of_decide_eq_true hlow, (v.numbered.place (List.mem_of_mem_drop hdrop)).2.1⟩

/-- With a gap the first frame tells of it. -/
theorem first_tells (hgap : (v.hub.replay v.afterSeq).2 = true) {seen rest : List Frame}
    (hframes : v.state.frames = seen ++ rest) (htold : seen.any tells = false) : seen = [] := by
  have hadvised := v.follows.advised
  cases seen with
  | nil => rfl
  | cons f seen =>
    rw [hgap, hframes, Advised] at hadvised
    split at hadvised
    · cases hadvised.2
    · obtain rfl : f = .resyncRequired v.afterSeq := Option.some.inj hadvised
      cases htold

/-- The events of the first frames, if none of them tells of a loss. -/
theorem events_prefix (hring : 1 ≤ ring) {n : Nat} (hn : 0 < n) (hreach : n ≤ before.length)
    (hafter : v.afterSeq = n) {seen rest : List Frame} (hframes : v.state.frames = seen ++ rest)
    (htold : seen.any tells = false) :
    eventsOf seen <+: wantedBy cid ((before ++ later).drop n) := by
  cases hgap : (v.hub.replay v.afterSeq).2 with
  | true =>
    rw [v.first_tells hgap hframes htold]
    exact List.nil_prefix
  | false =>
    have hsent := v.follows.sent
    rw [v.wanted, v.due_all hring hn hreach hafter hgap, hframes, eventsOf_append] at hsent
    exact (List.prefix_append _ _).trans hsent

/-- And of all frames, once nothing is left to send. -/
theorem events_all (hring : 1 ≤ ring) {n : Nat} (hn : 0 < n) (hreach : n ≤ before.length)
    (hafter : v.afterSeq = n) (htold : v.state.frames.any tells = false)
    (hdone : CaughtUp v.number v.state) :
    eventsOf v.state.frames = wantedBy cid ((before ++ later).drop n) := by
  cases hgap : (v.hub.replay v.afterSeq).2 with
  | true =>
    have hadvised := v.follows.advised
    obtain ⟨⟨m, hlive⟩, -⟩ := hdone
    rw [hgap, v.first_tells hgap (List.append_nil _).symm htold, Advised, hlive] at hadvised
    cases hadvised
  | false =>
    rw [v.follows.sent_all hdone, v.wanted, v.due_all hring hn hreach hafter hgap]

end Visit

/-! ## What the client has -/

/-- The client has been sent what it wants behind `c`, up to the event that its id names. -/
def Received (fl : Floats F) (levels : Nat) (iso : Time → String) (cid : Option String) (c : Nat)
    (log : List OrderUpdateEvent) (id : List Char) (messages : List Message) : Prop :=
  ∃ n : Nat, id = JsonText.intText n ∧ c ≤ n ∧ n ≤ log.length ∧
    (told messages = false →
      clientEvents fl levels messages =
        (wantedBy cid ((log.take n).drop c)).map fun e => .ok (wireDump iso e))

theorem wantedBy_append (xs ys : List OrderUpdateEvent) :
    wantedBy cid (xs ++ ys) = wantedBy cid xs ++ wantedBy cid ys := List.filter_append ..

/-- Up to `n` and then up to `m`. -/
theorem take_split {log : List OrderUpdateEvent} {c n m : Nat} (hc : c ≤ n) (hm : n ≤ m)
    (hlen : m ≤ log.length) :
    (log.take m).drop c = (log.take n).drop c ++ (log.take m).drop n := by
  have hfirst : (log.take m).take n = log.take n := by rw [List.take_take, Nat.min_eq_left hm]
  conv_lhs => rw [← List.take_append_drop n (log.take m), hfirst]
  exact List.drop_append_of_le_length (by rw [List.length_take]; omega)

theorem Received.visit {c : Nat} (hring : 1 ≤ ring) (hc : 0 < c)
    {log before later : List OrderUpdateEvent} {id p : List Char} {messages : List Message}
    (h : Received fl levels iso cid c log id messages)
    (v : Visit fl levels iso ring queue cid id before later)
    (hlog : log <+: before) (hp : p <+: v.cs) :
    Received fl levels iso cid c (before ++ later) (EventStream.read id p).lastEventId
      (messages ++ (EventStream.read id p).messages) := by
  obtain ⟨n, rfl, hcn, hn, hevents⟩ := h
  have hafter : v.afterSeq = n := parseCursor_seq v.asks
  have hreach : n ≤ before.length := hn.trans hlog.length_le
  obtain ⟨seen, rest, hframes, hseen, -⟩ := read_frames (JsonText.intText n) v.sent hp
  have htake : (before ++ later).take n = log.take n := by
    obtain ⟨more, rfl⟩ := hlog
    rw [List.append_assoc, List.take_append_of_le_length hn]
  have hnext (hsilent : told (messages ++ (EventStream.read (JsonText.intText n) p).messages) = false) :
      told messages = false ∧ seen.any tells = false := by
    rw [told_append, hseen.told, Bool.or_eq_false_iff] at hsilent
    exact hsilent
  cases hlast : (eventsOf seen).getLast? with
  | none =>
    have hnone : eventsOf seen = [] := List.getLast?_eq_none_iff.mp hlast
    refine ⟨n, ?_, hcn, by rw [List.length_append]; omega, fun hsilent => ?_⟩
    · rw [hseen.cursor, cursorText, hlast]
      rfl
    · rw [clientEvents_append, hseen.events, hnone, List.map_nil, List.append_nil,
        hevents (hnext hsilent).1, htake]
  | some e =>
    have hmem : e ∈ eventsOf v.state.frames := by
      rw [hframes, eventsOf_append]
      exact List.mem_append_left _ (List.mem_of_getLast? hlast)
    obtain ⟨hlow, hhigh⟩ := v.sent_behind hring (hc.trans_le hcn) hreach hafter hmem
    refine ⟨e.seq, ?_, by omega, hhigh, fun hsilent => ?_⟩
    · rw [hseen.cursor, cursorText, hlast]
      rfl
    · have hprefix := v.events_prefix hring (hc.trans_le hcn) hreach hafter hframes
        (hnext hsilent).2
      rw [clientEvents_append, hevents (hnext hsilent).1, hseen.events, ← List.map_append,
        v.numbered.upto hprefix hlast, take_split hcn (Nat.le_of_lt hlow) hhigh, htake,
        wantedBy_append]
      rfl

theorem Visits.received {c : Nat} (hring : 1 ≤ ring) (hc : 0 < c) {log : List OrderUpdateEvent}
    {id : List Char} {messages : List Message}
    (h : Visits fl levels iso ring queue cid c log id messages) :
    Received fl levels iso cid c log id messages := by
  induction h with
  | start h =>
    refine ⟨c, rfl, Nat.le_refl c, h, fun _ => ?_⟩
    rw [List.drop_eq_nil_of_le (by rw [List.length_take]; omega)]
    rfl
  | visit _ v hlog hp ih => exact ih.visit hring hc v hlog hp

/-- What was taken up to some event is the first part of it all. -/
theorem wanted_first (log : List OrderUpdateEvent) (c n : Nat) :
    wantedBy cid ((log.take n).drop c) <+: wantedBy cid (log.drop c) := by
  rw [List.drop_take]
  exact (List.take_prefix _ _).filter _

/-- A client that comes back with the id that it has, however its connections broke off, and that
    was never told of a loss: the events that it has read are the first of those it wants behind
    its first cursor, in order and each once, and they are all of them once the last connection
    has nothing left to send and is read whole. -/
theorem resumed_exact {c : Nat} (hring : 1 ≤ ring) (hc : 0 < c)
    {log before later : List OrderUpdateEvent} {id p : List Char} {messages : List Message}
    (h : Visits fl levels iso ring queue cid c log id messages)
    (v : Visit fl levels iso ring queue cid id before later) (hlog : log <+: before)
    (hp : p <+: v.cs)
    (hsilent : told (messages ++ (EventStream.read id p).messages) = false) :
    clientEvents fl levels (messages ++ (EventStream.read id p).messages) <+:
      (wantedBy cid ((before ++ later).drop c)).map (fun e => .ok (wireDump iso e)) ∧
    (CaughtUp v.number v.state → p = v.cs →
      clientEvents fl levels (messages ++ (EventStream.read id p).messages) =
        (wantedBy cid ((before ++ later).drop c)).map fun e => .ok (wireDump iso e)) := by
  obtain ⟨n, hid, hcn, hn, hevents⟩ := h.received hring hc
  obtain ⟨m, -, -, -, hfirst⟩ := (h.visit v hlog hp).received hring hc
  refine ⟨?_, fun hdone hwhole => ?_⟩
  · rw [hfirst hsilent]
    exact (wanted_first _ c m).map _
  · subst hid
    obtain ⟨seen, rest, hframes, hseen, hrest⟩ := read_frames (JsonText.intText n) v.sent hp
    have hall : seen = v.state.frames := by rw [hframes, hrest hwhole, List.append_nil]
    rw [told_append, hseen.told, Bool.or_eq_false_iff, hall] at hsilent
    have hreach : n ≤ before.length := hn.trans hlog.length_le
    have hsplit : (before ++ later).drop c = (log.take n).drop c ++ (before ++ later).drop n := by
      obtain ⟨more, rfl⟩ := hlog
      have hlen : n ≤ (log ++ more ++ later).length := by
        simp only [List.length_append]
        omega
      have hsame := take_split hcn hlen (Nat.le_refl _)
      rw [List.take_length] at hsame
      rw [hsame, List.append_assoc, List.take_append_of_le_length hn]
    rw [clientEvents_append, hevents hsilent.1, hseen.events, hall,
      v.events_all hring (hc.trans_le hcn) hreach (parseCursor_seq v.asks) hsilent.2 hdone,
      ← List.map_append, hsplit, wantedBy_append]

/-- The hub of one process after one publication. -/
def sampleStart : EventHub :=
  { ringBufferSize := 2, subscriberQueueSize := 8 : EventHub }.publish
    { clientOrderId := "a", engineState := .pendingNew } 0

def sampleEvent : OrderUpdateEvent :=
  sampleStart.stamp { clientOrderId := "b", engineState := .pendingNew } 1

def sampleFrames : List Frame := [.event sampleEvent]

theorem sample_text : (streamText JsonText.spelled 2 (fun _ => "") sampleFrames).isSome = true :=
  rfl

/-- A client that has the first event; the second is replayed. -/
def sampleVisit : Visit JsonText.spelled 2 (fun _ => "") 2 8 none (JsonText.intText (1 : Nat))
    (sampleStart.ring ++ [sampleEvent]) [] where
  number := 0
  hub := Streaming.sampleHub
  history := (HubHistory.new.publish { clientOrderId := "a", engineState := .pendingNew } 0).publish
    { clientOrderId := "b", engineState := .pendingNew } 1
  afterSeq := 1
  asks := rfl
  seeded := []
  state := _
  run := (CalmRun.refl.step (fun h => absurd rfl h) (.advance rfl)).step
    (fun h => absurd rfl h) (.advance rfl)
  cs := (streamText JsonText.spelled 2 (fun _ => "") sampleFrames).get sample_text
  sent := (Option.some_get sample_text).symm

theorem sample_silent :
    told (EventStream.read (JsonText.intText (1 : Nat)) sampleVisit.cs).messages = false := by
  obtain ⟨seen, rest, hframes, hseen, hwhole⟩ :=
    read_frames (JsonText.intText (1 : Nat)) sampleVisit.sent List.prefix_rfl
  rw [hwhole rfl, List.append_nil] at hframes
  rw [hseen.told, ← hframes]
  rfl

theorem sample_resumed :
    clientEvents JsonText.spelled 2
      (EventStream.read (JsonText.intText (1 : Nat)) sampleVisit.cs).messages =
        [.ok (wireDump (fun _ => "") sampleEvent)] := by
  have hdone : CaughtUp sampleVisit.number sampleVisit.state :=
    ⟨⟨2, rfl⟩, fun s hs => by cases hs; rfl⟩
  have hstart : Visits JsonText.spelled 2 (fun _ => "") 2 8 none 1 sampleStart.ring
      (JsonText.intText (1 : Nat)) [] := .start (by decide)
  have hresumed := resumed_exact (c := 1) (by decide) (by decide) hstart sampleVisit
    (List.prefix_append _ _)
    List.prefix_rfl (by rw [List.nil_append]; exact sample_silent)
  have hall := hresumed.2 hdone rfl
  rw [List.nil_append] at hall
  rw [hall]
  rfl

end ExecutionEngine.OrderStream
