/-
  `execution.order_events`: the audit rows that a trigger of the store writes.

  `orders_append_event` fires after every statement on `orders`: one row for an insert and one for
  a change of status, with a snapshot of the order. Its code belongs to the schema; what it does
  is documented, and the snapshot is a parameter. Row ids come from an identity column, so they
  increase, with gaps; a timestamp is any. `audited` is the engine's store with that table beside
  it, and nothing else writes there.

  `Trailed` is the invariant of every run: the rows of an order are a trail along the frozen edges
  from nothing to the status that the order has.
-/
import Mathlib.Data.List.MinMax
import ExecutionEngine.Containers.Trail
import ExecutionEngine.Core.Steps

namespace ExecutionEngine

open Async StateMachine

/-- One `execution.order_events` row; `J` is what a `JSONB` object is read as. -/
structure OrderEventRow (J : Type) where
  eventId : Nat
  clientOrderId : String
  fromStatus : Option OrderState
  toStatus : OrderState
  event : Option J
  createdAt : Time
  deriving DecidableEq

/-- The store with its audit table. -/
structure AuditDb (J : Type) where
  db : Db
  events : List (OrderEventRow J)

namespace AuditDb

variable {J : Type} {E : Env} {snapshot : OrderRow → J}

def empty : AuditDb J := ⟨.empty, []⟩

/-! ## The trigger -/

/-- What the trigger sees of one order. -/
def firedAt : Option Entry → Entry → List (Option OrderState × OrderRow)
  | none, e => [(none, e.row)]
  | some old, e => if old.row.status = e.row.status then [] else [(some old.row.status, e.row)]

/-- What it sees of a statement. -/
def fired (db db' : Db) : List (Option OrderState × OrderRow) :=
  db'.entries.flatMap fun e => firedAt (db.find e.row.clientOrderId) e

/-- The rows it writes. -/
inductive Appended (snapshot : OrderRow → J) : List (OrderEventRow J) →
    List (Option OrderState × OrderRow) → List (OrderEventRow J) → Prop where
  | nil (events : List (OrderEventRow J)) : Appended snapshot events [] events
  | cons {events events' : List (OrderEventRow J)} {source : Option OrderState} {row : OrderRow}
    {fs : List (Option OrderState × OrderRow)} (eventId : Nat) (createdAt : Time)
    (hid : ∀ ev ∈ events, ev.eventId < eventId)
    (rest : Appended snapshot (events ++
      [⟨eventId, row.clientOrderId, source, row.status, some (snapshot row), createdAt⟩]) fs events') :
    Appended snapshot events ((source, row) :: fs) events'

/-- Rows with the next free ids, at one instant. -/
def append (snapshot : OrderRow → J) (now : Time) (events : List (OrderEventRow J)) :
    List (Option OrderState × OrderRow) → List (OrderEventRow J)
  | [] => events
  | (source, row) :: fs =>
    let eventId := (events.map OrderEventRow.eventId).foldr max 0 + 1
    append snapshot now (events ++
      [⟨eventId, row.clientOrderId, source, row.status, some (snapshot row), now⟩]) fs

theorem append_appended (now : Time) (events : List (OrderEventRow J))
    (fs : List (Option OrderState × OrderRow)) :
    Appended snapshot events fs (append snapshot now events fs) := by
  induction fs generalizing events with
  | nil => exact .nil events
  | cons f fs ih =>
    obtain ⟨source, row⟩ := f
    refine .cons _ now (fun ev hev => Nat.lt_succ_of_le ?_) (ih _)
    exact List.le_max_of_le' 0 (List.mem_map_of_mem hev) (Nat.le_refl _)

/-- The engine's operations over the store with its audit table. -/
def audited (E : Env) (snapshot : OrderRow → J) : Sem engineSig (AuditDb J) where
  step a op r a' := (sem E).step a.db op r a'.db ∧
    Appended snapshot a.events (fired a.db a'.db) a'.events

/-- A handler that keeps the table. -/
def auditedHandler (snapshot : OrderRow → J) (now : Time)
    (h : Db → (op : EngineOp) → Except Exn op.Res × Db) (a : AuditDb J) (op : EngineOp) :
    Except Exn op.Res × AuditDb J :=
  let (r, db') := h a.db op
  (r, ⟨db', append snapshot now a.events (fired a.db db')⟩)

/-- Whatever the engine does has its rows. -/
theorem audited_follows {now : Time} {h : Db → (op : EngineOp) → Except Exn op.Res × Db}
    (hf : Follows (sem E) h) : Follows (audited E snapshot) (auditedHandler snapshot now h) :=
  fun a op => ⟨hf a.db op, append_appended now a.events _⟩

/-- Another process on the same store. -/
def elsewhere (E : Env) (snapshot : OrderRow → J) (a a' : AuditDb J) : Prop :=
  ∃ op r, (audited E snapshot).step a op r a'

/-! ## The rows of one order -/

/-- The moves that the rows of an order record. -/
def moves (cid : String) (events : List (OrderEventRow J)) : List (Option OrderState × Option OrderState) :=
  (events.filter fun ev => ev.clientOrderId = cid).map fun ev => (ev.fromStatus, some ev.toStatus)

/-- The birth of an order, or one of the frozen edges. -/
def Edge : Option OrderState → Option OrderState → Prop
  | none, some b => b = .pendingNew
  | some a, some b => (a, b) ∈ legalEdges
  | _, none => False

def status (db : Db) (cid : String) : Option OrderState := (db.find cid).map fun e => e.row.status

/-- The rows of an order are a trail to its status, each with a snapshot of the order, and the ids
    increase. An order has no venue handle before it leaves `PENDING_NEW`. -/
structure Trailed (snapshot : OrderRow → J) (a : AuditDb J) : Prop where
  increasing : a.events.Pairwise fun x y => x.eventId < y.eventId
  trail : ∀ cid, Trail.Leads Edge none (moves cid a.events) (status a.db cid)
  snapshots : ∀ ev ∈ a.events, ∃ row e, ev.event = some (snapshot row) ∧
    a.db.find ev.clientOrderId = some e ∧ row.clientOrderId = ev.clientOrderId ∧
    row.status = ev.toStatus ∧
    (row.brokerOrderId = none ∨ row.brokerOrderId = e.row.brokerOrderId)
  unacked : ∀ cid e, a.db.find cid = some e → e.row.status = .pendingNew →
    e.row.brokerOrderId = none

theorem trailed_empty : Trailed snapshot (empty : AuditDb J) where
  increasing := List.Pairwise.nil
  trail := fun _ => rfl
  snapshots := fun _ h => by cases h
  unacked := fun _ _ h => by cases h

/-! ## What a statement appends -/

/-- What a list of groups has under a key, if each key has one group. -/
theorem filter_flatMap_key {α β : Type} {key : α → String} {keyOf : β → String} {g : α → List β}
    (hg : ∀ a, ∀ b ∈ g a, keyOf b = key a) {as : List α} (h : (as.map key).Nodup) (k : String) :
    (as.flatMap g).filter (fun b => keyOf b = k) = (as.find? fun a => key a = k).elim [] g := by
  have hall (a : α) (ha : key a = k) : (g a).filter (fun b => keyOf b = k) = g a :=
    List.filter_eq_self.mpr fun b hb => decide_eq_true ((hg a b hb).trans ha)
  have hnone (a : α) (ha : key a ≠ k) : (g a).filter (fun b => keyOf b = k) = [] :=
    List.filter_eq_nil_iff.mpr fun b hb => by simpa [hg a b hb] using ha
  induction as with
  | nil => rfl
  | cons a as ih =>
    rw [List.map_cons, List.nodup_cons] at h
    rw [List.flatMap_cons, List.filter_append, ih h.2]
    by_cases ha : key a = k
    · have hrest : as.find? (fun a => key a = k) = none := by
        refine List.find?_eq_none.mpr fun b hb hk => h.1 ?_
        rw [ha, ← of_decide_eq_true hk]
        exact List.mem_map_of_mem hb
      rw [hall a ha, hrest, List.find?_cons_of_pos (by simpa using ha)]
      exact List.append_nil _
    · rw [hnone a ha, List.nil_append, List.find?_cons_of_neg (by simpa using ha)]

theorem firedAt_row {old : Option Entry} {e : Entry} {f : Option OrderState × OrderRow}
    (h : f ∈ firedAt old e) : f.2 = e.row := by
  unfold firedAt at h
  split at h
  · rw [List.mem_singleton.mp h]
  · split at h
    · cases h
    · rw [List.mem_singleton.mp h]

/-- What the trigger sees of one order. -/
theorem fired_filter (db db' : Db) (cid : String) :
    (fired db db').filter (fun f => f.2.clientOrderId = cid) =
      (db'.find cid).elim [] (firedAt (db.find cid)) := by
  rw [fired, filter_flatMap_key (fun e f hf => by rw [firedAt_row hf]) db'.pk cid]
  change (db'.find cid).elim _ _ = _
  cases hfind : db'.find cid with
  | none => rfl
  | some e =>
    rw [Option.elim_some, Option.elim_some, Db.find_key hfind]

section

variable {events events' : List (OrderEventRow J)} {fs : List (Option OrderState × OrderRow)}

theorem Appended.moves (h : Appended snapshot events fs events') (cid : String) :
    moves cid events' = moves cid events ++
      (fs.filter fun f => f.2.clientOrderId = cid).map fun f => (f.1, some f.2.status) := by
  induction h with
  | nil => simp
  | @cons events _ source row fs eventId createdAt _ _ ih =>
    rw [ih]
    by_cases hcid : row.clientOrderId = cid <;> simp [AuditDb.moves, hcid]

theorem Appended.increasing (h : Appended snapshot events fs events')
    (hinc : events.Pairwise fun x y => x.eventId < y.eventId) :
    events'.Pairwise fun x y => x.eventId < y.eventId := by
  induction h with
  | nil => exact hinc
  | cons eventId createdAt hid _ ih =>
    refine ih (List.pairwise_append.mpr ⟨hinc, List.pairwise_singleton _ _, fun x hx y hy => ?_⟩)
    rw [List.mem_singleton.mp hy]
    exact hid x hx

theorem Appended.prefix_of (h : Appended snapshot events fs events') : events <+: events' := by
  induction h with
  | nil => exact List.prefix_rfl
  | cons _ _ _ _ ih => exact (List.prefix_append _ _).trans ih

/-- A row that was not there before. -/
theorem Appended.fresh (h : Appended snapshot events fs events') {ev : OrderEventRow J}
    (hev : ev ∈ events') : ev ∈ events ∨ ∃ f ∈ fs, ev.clientOrderId = f.2.clientOrderId ∧
      ev.toStatus = f.2.status ∧ ev.event = some (snapshot f.2) := by
  induction h with
  | nil => exact .inl hev
  | @cons events _ source row fs eventId createdAt _ _ ih =>
    rcases ih hev with hold | ⟨f, hf, hrow⟩
    · rcases List.mem_append.mp hold with hold | hnew
      · exact .inl hold
      · rw [List.mem_singleton.mp hnew]
        exact .inr ⟨(source, row), List.mem_cons_self, rfl, rfl, rfl⟩
    · exact .inr ⟨f, List.mem_cons_of_mem _ hf, hrow⟩

end

/-- A statement touches the handle of an order that is still `PENDING_NEW` only. -/
theorem change_handle {o : StoreOp} {e e' : Entry} (h : Change o e e') :
    e'.row.brokerOrderId = e.row.brokerOrderId ∨
      e.row.status = .pendingNew ∧ e'.row.status = .new := by
  cases h with
  | ack no hs => exact .inr ⟨hs, rfl⟩
  | replace _ _ _ hrow => exact .inl (by rw [hrow])
  | status | reason => exact .inl rfl
  | fill => exact .inl (by simp [Db.withStatus])

/-- Nothing enters `PENDING_NEW`. -/
theorem not_edge_pendingNew (s : OrderState) : (s, OrderState.pendingNew) ∉ legalEdges := by
  cases s <;> decide

/-! ## Every run -/

variable {a a' : AuditDb J} {op : EngineOp} {r : Except Exn op.Res}

theorem Trailed.leads (h : Trailed snapshot a) (hs : (audited E snapshot).step a op r a')
    (cid : String) : Trail.Leads Edge none (moves cid a'.events) (status a'.db cid) := by
  have htrail := h.trail cid
  rw [hs.2.moves cid, fired_filter]
  rcases step_find hs.1 cid with heq | ⟨_, _, _, e, _, _, hnone, hrow, _, he⟩ |
    ⟨_, e, e', _, hc, _, he, he'⟩
  · have hnothing : (a'.db.find cid).elim [] (firedAt (a.db.find cid)) = [] := by
      rw [heq]
      cases a.db.find cid <;> simp [firedAt]
    rw [hnothing, List.map_nil, List.append_nil, status, heq]
    exact htrail
  · rw [status, hnone] at htrail
    rw [status, hnone, he]
    refine htrail.snoc ?_
    rw [hrow]
    rfl
  · rw [status, he] at htrail
    rw [status, he, he', Option.elim_some, firedAt]
    split
    · rename_i hsame
      rw [List.map_nil, List.append_nil, Option.map_some, ← hsame]
      exact htrail
    · rename_i hne
      exact htrail.snoc ((isLegal_iff.mp hc.legal).resolve_left hne)

theorem Trailed.handles (h : Trailed snapshot a) (hs : (audited E snapshot).step a op r a') :
    (∀ ev ∈ a'.events, ∃ row e, ev.event = some (snapshot row) ∧
      a'.db.find ev.clientOrderId = some e ∧ row.clientOrderId = ev.clientOrderId ∧
      row.status = ev.toStatus ∧
      (row.brokerOrderId = none ∨ row.brokerOrderId = e.row.brokerOrderId)) ∧
    ∀ cid e, a'.db.find cid = some e → e.row.status = .pendingNew → e.row.brokerOrderId = none := by
  refine ⟨fun ev hev => ?_, fun cid e' he' hpending => ?_⟩
  · rcases hs.2.fresh hev with hold | ⟨f, hf, hcid, hstatus, hevent⟩
    · obtain ⟨row, e, hevent, he, hrow, hstatus, hhandle⟩ := h.snapshots ev hold
      rcases step_find hs.1 ev.clientOrderId with heq | ⟨_, _, _, _, _, _, hnone, _⟩ |
        ⟨_, e₁, e', _, hc, _, he₁, he'⟩
      · exact ⟨row, e, hevent, heq.trans he, hrow, hstatus, hhandle⟩
      · rw [hnone] at he
        cases he
      · obtain rfl : e = e₁ := Option.some.inj (he.symm.trans he₁)
        refine ⟨row, e', hevent, he', hrow, hstatus, ?_⟩
        rcases change_handle hc with hsame | ⟨hpending, -⟩
        · rwa [hsame]
        · have hnone := h.unacked _ e he hpending
          rw [hnone] at hhandle
          exact .inl (hhandle.elim id id)
    · obtain ⟨e', he', hf⟩ := List.mem_flatMap.mp hf
      rw [firedAt_row hf] at hcid hstatus hevent
      refine ⟨e'.row, e', hevent, ?_, hcid.symm, hstatus.symm, .inr rfl⟩
      rw [hcid]
      exact Db.find_of_mem he'
  · rcases step_find hs.1 cid with heq | ⟨_, _, _, e, _, _, _, hrow, _, he⟩ |
      ⟨_, e, e₁, _, hc, _, he, he₁⟩
    · exact h.unacked cid e' (heq ▸ he') hpending
    · obtain rfl : e = e' := Option.some.inj (he.symm.trans he')
      rw [hrow]
      rfl
    · obtain rfl : e₁ = e' := Option.some.inj (he₁.symm.trans he')
      have hstill : e.row.status = .pendingNew := by
        rcases isLegal_iff.mp hc.legal with hsame | hedge
        · exact hsame.trans hpending
        · rw [hpending] at hedge
          exact absurd hedge (not_edge_pendingNew _)
      rcases change_handle hc with hsame | ⟨-, hnew⟩
      · exact hsame.trans (h.unacked cid e he hstill)
      · rw [hpending] at hnew
        cases hnew

theorem Trailed.step (h : Trailed snapshot a) (hs : (audited E snapshot).step a op r a') :
    Trailed snapshot a' where
  increasing := hs.2.increasing h.increasing
  trail := h.leads hs
  snapshots := (h.handles hs).1
  unacked := (h.handles hs).2

theorem trailed_run {ι : Type} [DecidableEq ι] {P₀ P : Pool engineSig (AuditDb J) ι}
    (h₀ : Trailed snapshot P₀.state)
    (hP : PoolReach (audited E snapshot) (elsewhere E snapshot) P₀ P) :
    Trailed snapshot P.state :=
  pool_invariant (I := fun a _ => Trailed snapshot a) h₀ (fun _ _ _ _ _ _ h hs => h.step hs)
    (fun _ _ _ h ⟨_, _, hs⟩ => h.step hs) hP

/-! ## Rows stay -/

/-- The table goes on from where it was, and an order stays what it is. -/
structure Extends (a a' : AuditDb J) : Prop where
  events : a.events <+: a'.events
  orders : ∀ cid e, a.db.find cid = some e → ∃ e', a'.db.find cid = some e' ∧
    e'.row.broker = e.row.broker ∧ e'.row.symbol = e.row.symbol ∧
    e'.row.strategyId = e.row.strategyId

theorem Extends.refl (a : AuditDb J) : Extends a a :=
  ⟨List.prefix_rfl, fun _ e he => ⟨e, he, rfl, rfl, rfl⟩⟩

theorem Extends.trans {a'' : AuditDb J} (h : Extends a a') (h' : Extends a' a'') :
    Extends a a'' := by
  refine ⟨h.events.trans h'.events, fun cid e he => ?_⟩
  obtain ⟨e', he', hbroker, hsymbol, hstrategy⟩ := h.orders cid e he
  obtain ⟨e'', he'', hbroker', hsymbol', hstrategy'⟩ := h'.orders cid e' he'
  exact ⟨e'', he'', hbroker'.trans hbroker, hsymbol'.trans hsymbol, hstrategy'.trans hstrategy⟩

/-- What no statement changes. -/
theorem change_header {o : StoreOp} {e e' : Entry} (h : Change o e e') :
    e'.row.broker = e.row.broker ∧ e'.row.symbol = e.row.symbol ∧
      e'.row.strategyId = e.row.strategyId := by
  cases h with
  | ack | status | reason => exact ⟨rfl, rfl, rfl⟩
  | replace _ _ _ hrow =>
    rw [hrow]
    exact ⟨rfl, rfl, rfl⟩
  | fill => simp [Db.withStatus]

theorem extends_step (hs : (audited E snapshot).step a op r a') : Extends a a' := by
  refine ⟨hs.2.prefix_of, fun cid e he => ?_⟩
  rcases step_find hs.1 cid with heq | ⟨_, _, _, _, _, _, hnone, _⟩ |
    ⟨_, e₁, e', _, hc, _, he₁, he'⟩
  · exact ⟨e, heq.trans he, rfl, rfl, rfl⟩
  · rw [hnone] at he
    cases he
  · obtain rfl : e = e₁ := Option.some.inj (he.symm.trans he₁)
    exact ⟨e', he', change_header hc⟩

theorem extends_run {ι : Type} [DecidableEq ι] {P₀ P : Pool engineSig (AuditDb J) ι}
    (hP : PoolReach (audited E snapshot) (elsewhere E snapshot) P₀ P) : Extends P₀.state P.state :=
  pool_invariant (I := fun a _ => Extends P₀.state a) (.refl _)
    (fun _ _ _ _ _ _ h hs => h.trans (extends_step hs))
    (fun _ _ _ h ⟨_, _, hs⟩ => h.trans (extends_step hs)) hP

end AuditDb

end ExecutionEngine
