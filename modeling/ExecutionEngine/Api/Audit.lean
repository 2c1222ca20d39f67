/-
  The audit reads: `GET /admin/orders/{cid}/audit` and `GET /admin/audit/export`.

  Both are made up from `order_events` rows; nothing is stored for them. `order_audit` reads the
  order and its rows in two statements, between which the store may go on. `audit_sound` says
  what the response shows for any run of the engine; `audit_export` writes one JSON object on a
  line, and `export_exact` says what a client reads back.

  `JSONB` is read as an object; how a timestamp is written is a parameter.
-/
import ExecutionEngine.Api.StreamText
import ExecutionEngine.Core.Engine
import ExecutionEngine.Db.OrderEvents

namespace ExecutionEngine.Audit

open Async StateMachine AuditDb
open JsonText (Text Value Floats)
open OrderStream (text optText member)

variable {F : Type}

/-- The object that a `JSONB` column holds. -/
abbrev Object (F : Type) := List (Text × Value F)

/-- `event_type_for`. -/
def eventTypeFor : Option OrderState → OrderState → String
  | none, _ => "create"
  | some source, .new => if source = .pendingReplace then "replace" else "ack"
  | some _, .partiallyFilled => "fill"
  | some _, .filled => "fill"
  | some _, .pendingCancel => "cancel_request"
  | some _, .cancelled => "cancel"
  | some _, .pendingReplace => "replace_request"
  | some _, .rejected => "reject"
  | some _, .expired => "expire"
  | some _, .pendingNew => "create"

/-- One event of the response. -/
structure AuditEvent (F : Type) where
  seq : Nat
  fromStatus : Option OrderState
  toStatus : OrderState
  brokerOrderId : Value F
  eventType : String
  occurredAt : String
  metadata : Object F

def AuditEvent.toJson (ev : AuditEvent F) : Value F :=
  .obj
    [ member "seq" (.int ev.seq),
      member "from_status" (optText (ev.fromStatus.map OrderState.value)),
      member "to_status" (text ev.toStatus.value),
      member "broker_order_id" ev.brokerOrderId,
      member "event_type" (text ev.eventType),
      member "occurred_at" (text ev.occurredAt),
      member "metadata" (.obj ev.metadata) ]

structure AuditResponse (F : Type) where
  clientOrderId : String
  broker : Broker
  symbol : String
  events : List (AuditEvent F)

def AuditResponse.toJson (r : AuditResponse F) : Value F :=
  .obj
    [ member "client_order_id" (text r.clientOrderId),
      member "broker" (text r.broker.value),
      member "symbol" (text r.symbol),
      member "events" (.arr (r.events.map AuditEvent.toJson)) ]

/-- `_SELECT_ORDER_EVENTS`. -/
def fetchOrderEvents (a : AuditDb (Object F)) (cid : String) : List (OrderEventRow (Object F)) :=
  (a.events.filter fun ev => ev.clientOrderId = cid).insertionSort fun x y => x.eventId ≤ y.eventId

/-- `_synthesize_event`; `iso` is `_to_utc_iso` of what the driver hands over. -/
def synthesizeEvent (iso : Time → String) (seq : Nat) (row : OrderEventRow (Object F)) :
    AuditEvent F :=
  let metadata := row.event.getD []
  { seq
    fromStatus := row.fromStatus
    toStatus := row.toStatus
    brokerOrderId := (metadata.lookup (Text.ofString "broker_order_id")).getD .null
    eventType := eventTypeFor row.fromStatus row.toStatus
    occurredAt := iso row.createdAt
    metadata }

/-- `order_audit`: the order is read from `a`, then its rows from `a'`. -/
def orderAudit (iso : Time → String) (a a' : AuditDb (Object F)) (cid : String) :
    Except Exn (AuditResponse F) :=
  match a.db.fetchOrder cid with
  | none => .error (.rejected .orderNotFound "unknown client_order_id" cid)
  | some header => .ok
    { clientOrderId := cid
      broker := header.broker
      symbol := header.symbol
      events := (fetchOrderEvents a' cid).mapIdx fun i row => synthesizeEvent iso (i + 1) row }

/-! ## Labels -/

/-- A label of a frozen edge says where it leads. -/
theorem label_edge {source : Option OrderState} {target : OrderState}
    (h : Edge source (some target)) :
    (eventTypeFor source target = "create" ↔ source = none) ∧
    (eventTypeFor source target = "ack" → source = some .pendingNew) ∧
    (eventTypeFor source target = "cancel" → source = some .pendingCancel) ∧
    (eventTypeFor source target = "replace" → source = some .pendingReplace) ∧
    (eventTypeFor source target = "cancel_request" ↔ target = .pendingCancel) ∧
    (eventTypeFor source target = "replace_request" ↔ target = .pendingReplace) ∧
    (eventTypeFor source target ∈ ["cancel", "reject", "expire"] → isTerminal target = true) := by
  cases source with
  | none =>
    obtain rfl : target = .pendingNew := h
    decide
  | some source =>
    revert h
    cases source <;> cases target <;> simp [Edge, legalEdges, eventTypeFor, isTerminal, terminalStates]

/-! ## What a response shows -/

/-- The move that an event records. -/
def AuditEvent.move (ev : AuditEvent F) : Option OrderState × Option OrderState :=
  (ev.fromStatus, some ev.toStatus)

/-- The events are a trail along frozen edges to this status, and each has the label that
    `event_type_for` gives to its edge. -/
structure Labelled (current : OrderState) (events : List (AuditEvent F)) : Prop where
  labels : ∀ ev ∈ events, ev.eventType = eventTypeFor ev.fromStatus ev.toStatus
  trail : Trail.Leads Edge none (events.map AuditEvent.move) (some current)

/-- What the events of a response say of an order with this status and venue handle. -/
structure Sound (current : OrderState) (handle : Option String) (events : List (AuditEvent F)) :
    Prop extends Labelled current events where
  /-- Numbered from 1. -/
  numbered : ∀ i ev, events[i]? = some ev → ev.seq = i + 1
  /-- The birth comes first, and nothing else is one. -/
  created : ∃ first rest, events = first :: rest ∧ first.eventType = "create" ∧
    first.toStatus = .pendingNew ∧ ∀ ev ∈ rest, ev.eventType ≠ "create"
  /-- Each event goes on from the one before it, and the last one arrives at the status. -/
  joined : ∀ xs x y ys, events = xs ++ x :: y :: ys → y.fromStatus = some x.toStatus
  arrived : events.getLast?.map AuditEvent.toStatus = some current
  /-- An acknowledgement is the second event. -/
  acked : ∀ xs ev ys, events = xs ++ ev :: ys → ev.eventType = "ack" → xs.length = 1
  /-- What closes an order is the last event. -/
  closed : ∀ xs ev ys, events = xs ++ ev :: ys →
    (ev.eventType ∈ ["cancel", "reject", "expire"] ∨ ev.toStatus = .filled) → ys = []
  /-- A cancel and a replace have been requested just before. -/
  requested : ∀ xs ev ys, events = xs ++ ev :: ys →
    (ev.eventType = "cancel" → xs.getLast?.map AuditEvent.eventType = some "cancel_request") ∧
    (ev.eventType = "replace" → xs.getLast?.map AuditEvent.eventType = some "replace_request")
  /-- No event shows another handle. -/
  handles : ∀ ev ∈ events, ev.brokerOrderId = .null ∨ ev.brokerOrderId = optText handle

namespace Labelled

variable {current : OrderState} {events : List (AuditEvent F)}

/-- A place in the events is a place in the trail. -/
theorem at_place (h : Labelled current events) {xs ys : List (AuditEvent F)} {ev : AuditEvent F}
    (hsplit : events = xs ++ ev :: ys) :
    Trail.Leads Edge none (xs.map AuditEvent.move) ev.fromStatus ∧
      Edge ev.fromStatus (some ev.toStatus) ∧ ev.eventType = eventTypeFor ev.fromStatus ev.toStatus := by
  have htrail := h.trail
  rw [hsplit, List.map_append, List.map_cons] at htrail
  obtain ⟨hxs, hmove, -⟩ := htrail.at
  exact ⟨hxs, hmove, h.labels ev (hsplit ▸ List.mem_append_right xs List.mem_cons_self)⟩

theorem not_edge_none (s : Option OrderState) : ¬ Edge s none := by
  cases s <;> exact id

/-- The event before one that leaves `s` arrived there. -/
theorem before (h : Labelled current events) {xs ys : List (AuditEvent F)} {ev : AuditEvent F}
    (hsplit : events = xs ++ ev :: ys) {s : OrderState} (hs : ev.fromStatus = some s) :
    ∃ zs x, xs = zs ++ [x] ∧ x.toStatus = s := by
  obtain ⟨hxs, -, -⟩ := h.at_place hsplit
  rw [hs] at hxs
  rcases List.eq_nil_or_concat xs with rfl | ⟨zs, x, rfl⟩
  · cases hxs
  · rw [List.concat_eq_append, List.map_append] at hxs
    obtain ⟨-, -, hlast⟩ := Trail.Leads.at hxs
    exact ⟨zs, x, List.concat_eq_append, Option.some.inj hlast⟩

theorem created (h : Labelled current events) :
    ∃ first rest, events = first :: rest ∧ first.eventType = "create" ∧
      first.toStatus = .pendingNew ∧ ∀ ev ∈ rest, ev.eventType ≠ "create" := by
  have htrail := h.trail
  match events, h, htrail with
  | [], _, htrail => cases htrail
  | first :: rest, h, htrail =>
    obtain ⟨hfirst, hmove, hrest⟩ := htrail
    have hborn : first.fromStatus = none := hfirst
    have hlabel := h.labels first List.mem_cons_self
    rw [hborn] at hlabel hmove
    refine ⟨first, rest, rfl, hlabel, hmove, fun ev hev hcreate => ?_⟩
    obtain ⟨xs, ys, hsplit⟩ := List.append_of_mem hev
    have hplace : first :: rest = (first :: xs) ++ ev :: ys := by rw [hsplit, List.cons_append]
    obtain ⟨hxs, hedge, hev⟩ := h.at_place hplace
    have hnone := (label_edge hedge).1.mp (hev ▸ hcreate)
    rw [hnone] at hxs
    obtain ⟨zs, s, -, -, henter⟩ := hxs.2.2.arrives (by simp)
    exact not_edge_none s henter

theorem acked (h : Labelled current events) {xs ys : List (AuditEvent F)} {ev : AuditEvent F}
    (hsplit : events = xs ++ ev :: ys) (hack : ev.eventType = "ack") : xs.length = 1 := by
  obtain ⟨-, hedge, hlabel⟩ := h.at_place hsplit
  have hsource := (label_edge hedge).2.1 (hlabel ▸ hack)
  have htrail := h.trail
  rw [hsplit, List.map_append, List.map_cons, AuditEvent.move, hsource] at htrail
  rw [← List.length_map (f := AuditEvent.move)]
  refine htrail.second_at (by simp) fun c hc d => ?_
  cases c with
  | none => exact not_edge_none d
  | some c => exact absurd hc (not_edge_pendingNew c)

theorem closed (h : Labelled current events) {xs ys : List (AuditEvent F)} {ev : AuditEvent F}
    (hsplit : events = xs ++ ev :: ys)
    (hclosing : ev.eventType ∈ ["cancel", "reject", "expire"] ∨ ev.toStatus = .filled) : ys = [] := by
  obtain ⟨-, hedge, hlabel⟩ := h.at_place hsplit
  have hterminal : isTerminal ev.toStatus = true := by
    rcases hclosing with hclosing | hfilled
    · exact (label_edge hedge).2.2.2.2.2.2 (hlabel ▸ hclosing)
    · rw [hfilled]
      rfl
  have htrail := h.trail
  rw [hsplit, List.map_append, List.map_cons] at htrail
  refine List.map_eq_nil_iff.mp (htrail.ends_at fun c hc => ?_)
  cases c with
  | none => exact hc
  | some c => exact not_edge_of_terminal hterminal hc

theorem requested (h : Labelled current events) {xs ys : List (AuditEvent F)} {ev : AuditEvent F}
    (hsplit : events = xs ++ ev :: ys) :
    (ev.eventType = "cancel" → xs.getLast?.map AuditEvent.eventType = some "cancel_request") ∧
    (ev.eventType = "replace" → xs.getLast?.map AuditEvent.eventType = some "replace_request") := by
  obtain ⟨-, hedge, hlabel⟩ := h.at_place hsplit
  obtain ⟨-, -, hcancel, hreplace, -⟩ := label_edge hedge
  constructor
  · intro hev
    obtain ⟨zs, x, rfl, hx⟩ := h.before hsplit (hcancel (hlabel ▸ hev))
    have hplace : events = zs ++ x :: ev :: ys := by rw [hsplit, List.append_assoc]; rfl
    obtain ⟨-, hedge', hlabel'⟩ := h.at_place hplace
    rw [List.getLast?_concat, Option.map_some, hlabel']
    exact congrArg some ((label_edge hedge').2.2.2.2.1.mpr hx)
  · intro hev
    obtain ⟨zs, x, rfl, hx⟩ := h.before hsplit (hreplace (hlabel ▸ hev))
    have hplace : events = zs ++ x :: ev :: ys := by rw [hsplit, List.append_assoc]; rfl
    obtain ⟨-, hedge', hlabel'⟩ := h.at_place hplace
    rw [List.getLast?_concat, Option.map_some, hlabel']
    exact congrArg some ((label_edge hedge').2.2.2.2.2.1.mpr hx)

theorem joined (h : Labelled current events) {xs ys : List (AuditEvent F)} {x y : AuditEvent F}
    (hsplit : events = xs ++ x :: y :: ys) : y.fromStatus = some x.toStatus := by
  have htrail := h.trail
  rw [hsplit, List.map_append, List.map_cons, List.map_cons] at htrail
  exact htrail.joins.symm

theorem arrived (h : Labelled current events) :
    events.getLast?.map AuditEvent.toStatus = some current := by
  have htrail := h.trail
  obtain ⟨zs, a, hzs, -, -⟩ := htrail.arrives (by simp)
  rcases List.eq_nil_or_concat events with rfl | ⟨xs, x, rfl⟩
  · simp at hzs
  · rw [List.concat_eq_append, List.map_append] at hzs
    obtain ⟨-, hx⟩ := List.append_inj' hzs rfl
    have hmove := congrArg Prod.snd (List.cons.inj hx).1
    rw [List.concat_eq_append, List.getLast?_concat, Option.map_some]
    exact hmove

end Labelled

/-! ## Every run -/

variable {iso : Time → String} {snapshot : OrderRow → Object F} {E : Env} {ι : Type}
  [DecidableEq ι]

/-- The snapshot has the order's venue handle. -/
def Snapshots (snapshot : OrderRow → Object F) : Prop :=
  ∀ row, (snapshot row).lookup (Text.ofString "broker_order_id") = some (optText row.brokerOrderId)

theorem fetchOrderEvents_eq {a : AuditDb (Object F)} (h : Trailed snapshot a) (cid : String) :
    fetchOrderEvents a cid = a.events.filter fun ev => ev.clientOrderId = cid := by
  refine List.Pairwise.insertionSort_eq ?_
  exact (h.increasing.sublist List.filter_sublist).imp fun hlt => Nat.le_of_lt hlt

/-- The events that are made of the rows of an order. -/
def synthesized (iso : Time → String) (a : AuditDb (Object F)) (cid : String) :
    List (AuditEvent F) :=
  (fetchOrderEvents a cid).mapIdx fun i row => synthesizeEvent iso (i + 1) row

theorem synthesized_mem {a : AuditDb (Object F)} {cid : String} {ev : AuditEvent F}
    (h : ev ∈ synthesized iso a cid) :
    ∃ i, ∃ row ∈ fetchOrderEvents a cid, ev = synthesizeEvent iso (i + 1) row := by
  obtain ⟨i, hi, rfl⟩ := List.mem_mapIdx.mp h
  exact ⟨i, _, List.getElem_mem hi, rfl⟩

theorem synthesized_labelled (iso : Time → String) {a : AuditDb (Object F)}
    (h : Trailed snapshot a) {cid : String} {e : Entry} (he : a.db.find cid = some e) :
    Labelled e.row.status (synthesized iso a cid) where
  labels := fun ev hev => by
    obtain ⟨i, row, -, rfl⟩ := synthesized_mem hev
    rfl
  trail := by
    have htrail := h.trail cid
    rw [status, he] at htrail
    have hmoves : (synthesized iso a cid).map AuditEvent.move = moves cid a.events := by
      rw [synthesized, fetchOrderEvents_eq h]
      refine List.ext_getElem? fun i => ?_
      rw [List.getElem?_map, List.getElem?_mapIdx, moves, List.getElem?_map, Option.map_map]
      rfl
    rw [hmoves]
    exact htrail

theorem synthesized_handles {a : AuditDb (Object F)} (hsnap : Snapshots snapshot)
    (h : Trailed snapshot a) {cid : String} {e : Entry} (he : a.db.find cid = some e) :
    ∀ ev ∈ synthesized iso a cid,
      ev.brokerOrderId = .null ∨ ev.brokerOrderId = optText e.row.brokerOrderId := by
  intro ev hev
  obtain ⟨i, row, hrow, rfl⟩ := synthesized_mem hev
  rw [fetchOrderEvents_eq h, List.mem_filter, decide_eq_true_eq] at hrow
  obtain ⟨r, e', hevent, he', -, -, hhandle⟩ := h.snapshots row hrow.1
  rw [hrow.2, he] at he'
  obtain rfl := Option.some.inj he'
  have hshown : (synthesizeEvent iso (i + 1) row).brokerOrderId = optText r.brokerOrderId := by
    rw [synthesizeEvent, hevent, Option.getD_some, hsnap r]
    rfl
  rw [hshown]
  rcases hhandle with hnone | hsame
  · exact .inl (by rw [hnone]; rfl)
  · exact .inr (by rw [hsame])

/-- A response shows what became of the order. -/
theorem synthesized_sound {a : AuditDb (Object F)} (hsnap : Snapshots snapshot)
    (h : Trailed snapshot a) {cid : String} {e : Entry} (he : a.db.find cid = some e) :
    Sound e.row.status e.row.brokerOrderId (synthesized iso a cid) :=
  have hl := synthesized_labelled iso h he
  { hl with
    numbered := fun i ev hev => by
      rw [synthesized, List.getElem?_mapIdx] at hev
      obtain ⟨row, -, rfl⟩ := Option.map_eq_some_iff.mp hev
      rfl
    created := hl.created
    joined := fun _ _ _ _ hsplit => hl.joined hsplit
    arrived := hl.arrived
    acked := fun _ _ _ hsplit => hl.acked hsplit
    closed := fun _ _ _ hsplit => hl.closed hsplit
    requested := fun _ _ _ hsplit => hl.requested hsplit
    handles := synthesized_handles hsnap h he }

/-- What was synthesized before comes first. -/
theorem synthesized_grows (iso : Time → String) {a a' : AuditDb (Object F)} (h : Trailed snapshot a)
    (h' : Trailed snapshot a') (hext : Extends a a') (cid : String) :
    synthesized iso a cid <+: synthesized iso a' cid := by
  obtain ⟨more, hmore⟩ := hext.events
  rw [synthesized, synthesized, fetchOrderEvents_eq h, fetchOrderEvents_eq h', ← hmore,
    List.filter_append, List.mapIdx_append]
  exact List.prefix_append _ _

/-- From an empty store, however the coroutines of this process and of others interleave, also
    between the two statements of the read: an unknown order is refused, and the response of a
    known one shows its whole life. -/
theorem audit_sound (iso : Time → String) (hsnap : Snapshots snapshot)
    {P₀ Q P : Pool engineSig (AuditDb (Object F)) ι}
    (h₀ : P₀.state = empty) (hQ : PoolReach (audited E snapshot) (elsewhere E snapshot) P₀ Q)
    (hP : PoolReach (audited E snapshot) (elsewhere E snapshot) Q P) (cid : String) :
    (Q.state.db.find cid = none ∧ orderAudit iso Q.state P.state cid =
      .error (.rejected .orderNotFound "unknown client_order_id" cid)) ∨
    ∃ e response, P.state.db.find cid = some e ∧
      orderAudit iso Q.state P.state cid = .ok response ∧ response.clientOrderId = cid ∧
      response.broker = e.row.broker ∧ response.symbol = e.row.symbol ∧
      Sound e.row.status e.row.brokerOrderId response.events := by
  have hstart : Trailed snapshot P₀.state := h₀ ▸ trailed_empty
  have hend := trailed_run hstart (hQ.trans hP)
  cases he : Q.state.db.find cid with
  | none => exact .inl ⟨rfl, by simp [orderAudit, Db.fetchOrder, he]⟩
  | some e =>
    obtain ⟨e', he', hbroker, hsymbol, -⟩ := (extends_run hP).orders cid e he
    refine .inr ⟨e', ⟨cid, e.row.broker, e.row.symbol, synthesized iso P.state cid⟩, he', ?_, rfl,
      hbroker.symm, hsymbol.symm, synthesized_sound hsnap hend he'⟩
    simp [orderAudit, Db.fetchOrder, he, synthesized]

/-- A snapshot of the venue handle alone. -/
def handleSnapshot (row : OrderRow) : Object JsonText.Spelling :=
  [member "broker_order_id" (optText row.brokerOrderId)]

theorem handleSnapshot_has : Snapshots handleSnapshot := fun _ => List.lookup_cons_self

/-- One coroutine that inserts an order and acknowledges it. -/
def sampleStart : Pool engineSig (AuditDb (Object JsonText.Spelling)) Unit where
  threads := fun _ => (Eff.store (.insertOrder (sampleOrderA .sim) none)).bind fun _ =>
    Eff.store (.ackOrder cidA "V1")
  state := empty
  trace := []

/-- The first steps of it. -/
def sampleSteps (n : Nat) : Pool engineSig (AuditDb (Object JsonText.Spelling)) Unit :=
  runPool (auditedHandler handleSnapshot 7 (plainHandler 7 (fun _ => {}) []).step)
    (List.replicate n ()) sampleStart

theorem sampleSteps_reach (n : Nat) :
    PoolReach (audited plainEnv handleSnapshot) (elsewhere plainEnv handleSnapshot) sampleStart
      (sampleSteps n) :=
  runPool_reach (audited_follows (plain_follows _)) _ _

theorem sample_sound : ∃ response,
    orderAudit toString (sampleSteps 2).state (sampleSteps 2).state cidA = .ok response ∧
      Sound .new (some "V1") response.events := by
  have hfound : (((sampleSteps 2).state.db.find cidA).any fun e =>
      e.row.status = .new && e.row.brokerOrderId = some "V1") = true := by decide +kernel
  obtain ⟨e, he, hrow⟩ := (Option.any_eq_true _ _).mp hfound
  simp only [Bool.and_eq_true, decide_eq_true_eq] at hrow
  rcases audit_sound toString handleSnapshot_has rfl (sampleSteps_reach 2) .refl cidA with
    ⟨hnone, -⟩ | ⟨e', response, he', hok, -, -, -, hsound⟩
  · rw [he] at hnone
    cases hnone
  · obtain rfl : e = e' := Option.some.inj (he.symm.trans he')
    rw [hrow.1, hrow.2] at hsound
    exact ⟨response, hok, hsound⟩

/-- A later response has the same header, and its events begin with those of the earlier one. -/
theorem audit_grows {P₀ Q P Q' P' : Pool engineSig (AuditDb (Object F)) ι}
    (h₀ : P₀.state = empty) (hQ : PoolReach (audited E snapshot) (elsewhere E snapshot) P₀ Q)
    (hP : PoolReach (audited E snapshot) (elsewhere E snapshot) Q P)
    (hQ' : PoolReach (audited E snapshot) (elsewhere E snapshot) P Q')
    (hP' : PoolReach (audited E snapshot) (elsewhere E snapshot) Q' P') {cid : String}
    {response : AuditResponse F} (h : orderAudit iso Q.state P.state cid = .ok response) :
    ∃ later, orderAudit iso Q'.state P'.state cid =
        .ok { response with events := response.events ++ later } ∧
      ∀ i ev, later[i]? = some ev → ev.seq = response.events.length + i + 1 := by
  have hstart : Trailed snapshot P₀.state := h₀ ▸ trailed_empty
  have hmiddle := trailed_run hstart (hQ.trans hP)
  have hend := trailed_run hmiddle (hQ'.trans hP')
  cases he : Q.state.db.find cid with
  | none => simp [orderAudit, Db.fetchOrder, he] at h
  | some e =>
    obtain rfl : (⟨cid, e.row.broker, e.row.symbol, synthesized iso P.state cid⟩ :
        AuditResponse F) = response := by
      simpa [orderAudit, Db.fetchOrder, he, synthesized] using h
    obtain ⟨e', he', hbroker, hsymbol, -⟩ := (extends_run (hP.trans hQ')).orders cid e he
    obtain ⟨later, hlater⟩ :=
      synthesized_grows iso hmiddle hend (extends_run (hQ'.trans hP')) cid
    refine ⟨later, ?_, fun i ev hev => ?_⟩
    · rw [hlater, ← hbroker, ← hsymbol]
      simp [orderAudit, Db.fetchOrder, he', synthesized]
    · have hplace : (synthesized iso P'.state cid)[(synthesized iso P.state cid).length + i]? =
          some ev := by
        rw [← hlater, List.getElem?_append_right (Nat.le_add_right ..), Nat.add_sub_cancel_left, hev]
      rw [synthesized, List.getElem?_mapIdx] at hplace
      obtain ⟨row, -, rfl⟩ := Option.map_eq_some_iff.mp hplace
      rfl

theorem sample_grows : ∃ response later,
    orderAudit toString (sampleSteps 1).state (sampleSteps 1).state cidA = .ok response ∧
      orderAudit toString (sampleSteps 2).state (sampleSteps 2).state cidA =
        .ok { response with events := response.events ++ later } := by
  have hfound : ((sampleSteps 1).state.db.fetchOrder cidA).isSome = true := by decide +kernel
  obtain ⟨header, hheader⟩ := Option.isSome_iff_exists.mp hfound
  have hok : orderAudit toString (sampleSteps 1).state (sampleSteps 1).state cidA =
      .ok ⟨cidA, header.broker, header.symbol,
        synthesized toString (sampleSteps 1).state cidA⟩ := by
    rw [orderAudit, hheader]
    rfl
  have hnext : PoolReach (audited plainEnv handleSnapshot) (elsewhere plainEnv handleSnapshot)
      (sampleSteps 1) (sampleSteps 2) :=
    runPool_reach (audited_follows (plain_follows _)) [()] (sampleSteps 1)
  obtain ⟨later, hlater, -⟩ := audit_grows rfl (sampleSteps_reach 1) .refl hnext .refl hok
  exact ⟨_, later, hok, hlater⟩

/-! ## The export -/

/-- `_export_query`: the rows joined to their orders, from `fromTs` on, before `toTs` and of one
    strategy, each if it is asked for. -/
def exportRows (fromTs toTs : Option Time) (strategyId : Option String) (a : AuditDb (Object F)) :
    List (OrderEventRow (Object F) × OrderRow) :=
  let joined := a.events.filterMap fun ev =>
    (a.db.fetchOrder ev.clientOrderId).map fun order => (ev, order)
  (joined.filter fun x =>
    fromTs.all (fun t => t ≤ x.1.createdAt) && toTs.all (fun t => x.1.createdAt < t) &&
      strategyId.all fun s => x.2.strategyId = some s).insertionSort fun x y =>
        x.1.eventId ≤ y.1.eventId

/-- What `stream_order_events` yields for a row. -/
def exportRecord (iso : Time → String) (x : OrderEventRow (Object F) × OrderRow) : Value F :=
  .obj
    [ member "event_id" (.int x.1.eventId),
      member "client_order_id" (text x.1.clientOrderId),
      member "from_status" (optText (x.1.fromStatus.map OrderState.value)),
      member "to_status" (text x.1.toStatus.value),
      member "event" (x.1.event.elim .null .obj),
      member "strategy_id" (optText x.2.strategyId),
      member "created_at" (text (iso x.1.createdAt)) ]

/-- The lines of `audit_export`; `none` is what `json.dumps` raises. -/
def exportLines (fl : Floats F) (levels : Nat) (iso : Time → String) :
    List (OrderEventRow (Object F) × OrderRow) → Option (List (List Char))
  | [] => some []
  | x :: xs => (JsonText.dumps fl levels (exportRecord iso x)).bind fun l =>
      (exportLines fl levels iso xs).map fun ls => l :: ls

/-- `audit_export`. -/
def exportText (fl : Floats F) (levels : Nat) (iso : Time → String)
    (fromTs toTs : Option Time) (strategyId : Option String) (a : AuditDb (Object F)) :
    Option (List Char) :=
  (exportLines fl levels iso (exportRows fromTs toTs strategyId a)).map fun ls =>
    ls.flatMap fun l => l ++ ['\n']

/-- Every object of the table can be written and read back. -/
def Readable (snapshot : OrderRow → Object F) : Prop :=
  ∀ row, (Value.obj (snapshot row) : Value F).Plain

theorem exportRecord_plain {x : OrderEventRow (Object F) × OrderRow}
    (h : ∀ fields, x.1.event = some fields → (Value.obj fields : Value F).Plain) :
    (exportRecord iso x).Plain := by
  have hnames : (["event_id", "client_order_id", "from_status", "to_status", "event",
      "strategy_id", "created_at"].map Text.ofString).Nodup := by decide
  have hevent : (x.1.event.elim .null .obj : Value F).Plain := by
    cases hx : x.1.event with
    | none => trivial
    | some fields => exact h fields hx
  refine ⟨hnames, ?_⟩
  open OrderStream in
  exact ⟨member_name _, trivial, member_name _, text_plain _, member_name _, optText_plain _,
    member_name _, text_plain _, member_name _, hevent, member_name _, optText_plain _,
    member_name _, text_plain _, trivial⟩

variable {fl : Floats F} {levels : Nat}

/-- The lines are lines, and each is read back as its record. -/
theorem exportLines_read {xs : List (OrderEventRow (Object F) × OrderRow)} {ls : List (List Char)}
    (hplain : ∀ x ∈ xs, (exportRecord iso x).Plain) (h : exportLines fl levels iso xs = some ls)
    {levels' : Nat} (hle : levels ≤ levels') :
    (∀ l ∈ ls, EventStream.Unbroken l) ∧
      ls.map (JsonText.loads fl levels') = xs.map fun x => .ok (exportRecord iso x) := by
  induction xs generalizing ls with
  | nil =>
    obtain rfl := Option.some.inj h
    exact ⟨(fun _ hl => by cases hl), rfl⟩
  | cons x xs ih =>
    obtain ⟨hx, hxs⟩ := List.forall_mem_cons.mp hplain
    obtain ⟨l, hl, hrest⟩ := Option.bind_eq_some_iff.mp h
    obtain ⟨ls, hls, rfl⟩ := Option.map_eq_some_iff.mp hrest
    obtain ⟨hlines, hread⟩ := ih hxs hls
    refine ⟨List.forall_mem_cons.mpr ⟨?_, hlines⟩, ?_⟩
    · exact OrderStream.unbroken_of_printable (JsonText.dumps_printable hl)
    · rw [List.map_cons, List.map_cons, hread, JsonText.loads_dumps hx hl hle]

/-- The rows that an export selects, before they are ordered. -/
def Selected (fromTs toTs : Option Time) (strategyId : Option String) (ev : OrderEventRow (Object F))
    (order : OrderRow) : Prop :=
  (∀ t ∈ fromTs, t ≤ ev.createdAt) ∧ (∀ t ∈ toTs, ev.createdAt < t) ∧
    ∀ s ∈ strategyId, order.strategyId = some s

theorem mem_exportRows {fromTs toTs : Option Time} {strategyId : Option String}
    {a : AuditDb (Object F)} {ev : OrderEventRow (Object F)} {order : OrderRow} :
    (ev, order) ∈ exportRows fromTs toTs strategyId a ↔
      ev ∈ a.events ∧ a.db.fetchOrder ev.clientOrderId = some order ∧
        Selected fromTs toTs strategyId ev order := by
  have hpass : (fromTs.all (fun t => t ≤ ev.createdAt) && toTs.all (fun t => ev.createdAt < t) &&
      strategyId.all fun s => order.strategyId = some s) = true ↔
        Selected fromTs toTs strategyId ev order := by
    cases fromTs <;> cases toTs <;> cases strategyId <;> simp [Selected, and_assoc]
  rw [exportRows, List.mem_insertionSort, List.mem_filter, hpass, List.mem_filterMap]
  constructor
  · rintro ⟨⟨x, hx, hjoin⟩, hsel⟩
    obtain ⟨o, ho, hpair⟩ := Option.map_eq_some_iff.mp hjoin
    obtain ⟨rfl, rfl⟩ := Prod.mk.inj hpair
    exact ⟨hx, ho, hsel⟩
  · rintro ⟨hev, ho, hsel⟩
    exact ⟨⟨ev, hev, by rw [ho]; rfl⟩, hsel⟩

/-- The rows of an export come in the order of their ids, each once. -/
theorem exportRows_increasing {a : AuditDb (Object F)} (h : Trailed snapshot a)
    (fromTs toTs : Option Time) (strategyId : Option String) :
    (exportRows fromTs toTs strategyId a).Pairwise fun x y => x.1.eventId < y.1.eventId := by
  have hjoined : (a.events.filterMap fun ev =>
      (a.db.fetchOrder ev.clientOrderId).map fun order => (ev, order)).Pairwise
        fun x y => x.1.eventId < y.1.eventId := by
    refine List.Pairwise.filterMap _ (fun x y hlt x' hx y' hy => ?_) h.increasing
    obtain ⟨-, -, rfl⟩ := Option.map_eq_some_iff.mp hx
    obtain ⟨-, -, rfl⟩ := Option.map_eq_some_iff.mp hy
    exact hlt
  have hsorted := hjoined.sublist (List.filter_sublist (p := fun x =>
    fromTs.all (fun t => t ≤ x.1.createdAt) && toTs.all (fun t => x.1.createdAt < t) &&
      strategyId.all fun s => x.2.strategyId = some s))
  rw [exportRows, List.Pairwise.insertionSort_eq (hsorted.imp fun hlt => Nat.le_of_lt hlt)]
  exact hsorted

/-- What is selected up to an instant, or from there on. -/
theorem selected_split {fromTs toTs : Option Time} {strategyId : Option String} {t : Time}
    (hlo : ∀ t₀ ∈ fromTs, t₀ ≤ t) (hhi : ∀ t₁ ∈ toTs, t ≤ t₁) (ev : OrderEventRow (Object F))
    (order : OrderRow) :
    Selected fromTs (some t) strategyId ev order ∨ Selected (some t) toTs strategyId ev order ↔
      Selected fromTs toTs strategyId ev order := by
  constructor
  · rintro (⟨hfrom, hto, hs⟩ | ⟨hfrom, hto, hs⟩)
    · exact ⟨hfrom, fun t₁ ht => (hto t rfl).trans_le (hhi t₁ ht), hs⟩
    · exact ⟨fun t₀ ht => (hlo t₀ ht).trans (hfrom t rfl), hto, hs⟩
  · rintro ⟨hfrom, hto, hs⟩
    rcases Int.lt_or_le ev.createdAt t with hbefore | hafter
    · exact .inl ⟨hfrom, fun _ ht => Option.some.inj ht ▸ hbefore, hs⟩
    · exact .inr ⟨fun _ ht => Option.some.inj ht ▸ hafter, hto, hs⟩

/-- Two exports that meet at an instant. -/
theorem exportRows_meet {a : AuditDb (Object F)} (h : Trailed snapshot a) {fromTs toTs : Option Time}
    (strategyId : Option String) {t : Time} (hlo : ∀ t₀ ∈ fromTs, t₀ ≤ t)
    (hhi : ∀ t₁ ∈ toTs, t ≤ t₁) :
    (exportRows fromTs (some t) strategyId a ++ exportRows (some t) toTs strategyId a).Perm
      (exportRows fromTs toTs strategyId a) := by
  have hnodup (lo hi : Option Time) : (exportRows lo hi strategyId a).Nodup :=
    (exportRows_increasing h lo hi strategyId).imp fun hlt heq => by
      rw [heq] at hlt
      exact Nat.lt_irrefl _ hlt
  refine (List.perm_ext_iff_of_nodup ?_ (hnodup _ _)).mpr fun x => ?_
  · refine List.nodup_append.mpr ⟨hnodup _ _, hnodup _ _, fun x hx y hy heq => ?_⟩
    obtain ⟨-, -, -, hbefore, -⟩ := mem_exportRows.mp hx
    obtain ⟨-, -, hafter, -, -⟩ := mem_exportRows.mp hy
    have hlt := hbefore t rfl
    rw [heq] at hlt
    exact absurd (hafter t rfl) (Int.not_le.mpr hlt)
  · rw [List.mem_append, mem_exportRows, mem_exportRows, mem_exportRows, ← selected_split hlo hhi]
    tauto

/-- From an empty store, in any run: each line of an export is read back as the record of a row
    wherever values may be nested as deep, the rows are those of the table that are within the
    bounds and of the strategy, in the order of their ids, and an export up to some instant and one
    from there on have between them what one over both has. -/
theorem export_exact (hread : Readable snapshot) {P₀ P : Pool engineSig (AuditDb (Object F)) ι}
    (h₀ : P₀.state = empty) (hP : PoolReach (audited E snapshot) (elsewhere E snapshot) P₀ P)
    (fromTs toTs : Option Time) (strategyId : Option String) {cs : List Char}
    (h : exportText fl levels iso fromTs toTs strategyId P.state = some cs) :
    (∀ levels', levels ≤ levels' → (EventStream.linesFrom [] cs).map (JsonText.loads fl levels') =
      (exportRows fromTs toTs strategyId P.state).map fun x => .ok (exportRecord iso x)) ∧
    (∀ x ∈ exportRows fromTs toTs strategyId P.state, x.1 ∈ P.state.events) ∧
    (exportRows fromTs toTs strategyId P.state).Pairwise (fun x y => x.1.eventId < y.1.eventId) ∧
    (∀ ev ∈ P.state.events, ∃ order, P.state.db.fetchOrder ev.clientOrderId = some order ∧
      ((ev, order) ∈ exportRows fromTs toTs strategyId P.state ↔
        Selected fromTs toTs strategyId ev order)) ∧
    ∀ t, (∀ t₀ ∈ fromTs, t₀ ≤ t) → (∀ t₁ ∈ toTs, t ≤ t₁) →
      (exportRows fromTs (some t) strategyId P.state ++
        exportRows (some t) toTs strategyId P.state).Perm
          (exportRows fromTs toTs strategyId P.state) := by
  have hend : Trailed snapshot P.state := trailed_run (h₀ ▸ trailed_empty) hP
  refine ⟨fun levels' hle => ?_, fun x hx => (mem_exportRows.mp hx).1,
    exportRows_increasing hend _ _ _, fun ev hev => ?_, fun t hlo hhi =>
      exportRows_meet hend strategyId hlo hhi⟩
  · obtain ⟨ls, hls, rfl⟩ := Option.map_eq_some_iff.mp h
    have hplain : ∀ x ∈ exportRows fromTs toTs strategyId P.state,
        (exportRecord iso x).Plain := by
      refine fun x hx => exportRecord_plain fun fields hf => ?_
      obtain ⟨row, -, hevent, -⟩ := hend.snapshots x.1 (mem_exportRows.mp hx).1
      rw [hevent] at hf
      exact Option.some.inj hf ▸ hread row
    obtain ⟨hlines, hback⟩ := exportLines_read hplain hls hle
    rw [← List.append_nil (ls.flatMap _), EventStream.linesFrom_lines hlines]
    exact (congrArg _ (List.append_nil ls)).trans hback
  · obtain ⟨-, e, -, he, -⟩ := hend.snapshots ev hev
    have hrow : P.state.db.fetchOrder ev.clientOrderId = some e.row := by rw [Db.fetchOrder, he]; rfl
    refine ⟨e.row, hrow, ?_⟩
    rw [mem_exportRows]
    exact ⟨fun hx => hx.2.2, fun hx => ⟨hev, hrow, hx⟩⟩

theorem handleSnapshot_readable : Readable handleSnapshot := fun row =>
  ⟨by unfold Odict.Unique; simp [handleSnapshot], OrderStream.member_name _,
    OrderStream.optText_plain _, trivial⟩

theorem sample_export : ∃ cs,
    exportText JsonText.spelled 2 toString none none none (sampleSteps 2).state = some cs ∧
      (EventStream.linesFrom [] cs).map (JsonText.loads JsonText.spelled 2) =
        (exportRows none none none (sampleSteps 2).state).map fun x =>
          .ok (exportRecord toString x) := by
  have hsome : (exportText JsonText.spelled 2 toString none none none
      (sampleSteps 2).state).isSome = true := by decide +kernel
  obtain ⟨cs, hcs⟩ := Option.isSome_iff_exists.mp hsome
  exact ⟨cs, hcs, (export_exact handleSnapshot_readable rfl (sampleSteps_reach 2) none none none
    hcs).1 2 le_rfl⟩

end ExecutionEngine.Audit
