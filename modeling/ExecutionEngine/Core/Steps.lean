/-
  What one store operation can do.

  `Change o e e'` lists, statement by statement, how an entry that is there can
  move; `served_cases` says a statement does nothing, inserts one fresh
  PENDING_NEW row, or makes one such move. Everything later about the store is
  read off these two: rows stay (`step_find_isSome`), a status only ever takes a
  frozen edge (`step_status`), a terminal status is final.
-/
import ExecutionEngine.Core.Effects
import ExecutionEngine.Db.Fills

namespace ExecutionEngine

open StateMachine

/-- How a statement can move the entry it names. -/
inductive Change : StoreOp → Entry → Entry → Prop where
  | ack {e : Entry} (no : String) (hs : e.row.status = .pendingNew) :
    Change (.ackOrder e.row.clientOrderId no) e
      { e with row := { e.row with status := .new, brokerOrderId := some no } }
  | replace {e e' : Entry} (p : Option Decimal) (q : Option Int)
      (hs : e.row.status = .pendingReplace)
      (hrow : e'.row = { e.row with
        status := .new
        price := (p.map Decimal.numeric).or e.row.price
        quantity := q.getD e.row.quantity })
      (hfills : e'.fills = e.fills) :
    Change (.replaceOrder e.row.clientOrderId p q) e e'
  | status {e : Entry} {s : OrderState} (hl : isLegal e.row.status s = true) :
    Change (.writeStatus e.row.clientOrderId s) e (Db.withStatus e s)
  | reason {e : Entry} (reason : String) :
    Change (.setRejectReason e.row.clientOrderId reason) e
      { e with row := { e.row with rejectReason := some reason } }
  | fill {e : Entry} {f : FillRow} (price : Decimal) {total : Int}
      (hp : f.price = price.numeric)
      (hl : isLegal e.row.status (Db.fillTarget (Db.addFill e f) total) = true) :
    Change (.applyFill e.row.clientOrderId f.brokerFillId price f.quantity f.execTs total) e
      (Db.withStatus (Db.addFill e f) (Db.fillTarget (Db.addFill e f) total))

/-- A change never touches the key. -/
theorem Change.key {o : StoreOp} {e e' : Entry} (h : Change o e e') :
    e'.row.clientOrderId = e.row.clientOrderId := by
  cases h with
  | ack | status | reason => rfl
  | replace _ _ _ hrow => rw [hrow]
  | fill => simp [Db.withStatus]

/-- A change of status takes one of the thirteen edges. -/
theorem Change.legal {o : StoreOp} {e e' : Entry} (h : Change o e e') :
    isLegal e.row.status e'.row.status = true := by
  cases h with
  | ack _ hs => simp only [hs]; decide
  | replace _ _ hs hrow =>
    rw [hrow, hs]
    exact (by decide : isLegal .pendingReplace .new = true)
  | status hl => exact hl
  | reason => simp [isLegal]
  | fill _ _ hl => exact hl

/-- The store after a change: one entry replaced, the rest as it was. -/
theorem find_change {db : Db} {o : StoreOp} {e e' : Entry} (h : Change o e e')
    (hf : db.find e.row.clientOrderId = some e) (cid : String) :
    (db.set e').find cid = if cid = e.row.clientOrderId then some e' else db.find cid := by
  have hf' : db.find e'.row.clientOrderId = some e := by rw [h.key]; exact hf
  rw [Db.find_set hf', h.key]

/-! ## Statement by statement -/

namespace Db

variable (db : Db)

theorem insertOrder_cases (o : OrderFields) (strategyId : Option String) (t : Time) :
    (∃ e : Entry, db.find o.clientOrderId = none ∧ e.row = newRow o strategyId t ∧ e.fills = [] ∧
      ∃ h, db.insertOrder o strategyId t = (.ok (), db.append e h)) ∨
    ∃ x, db.insertOrder o strategyId t = (.error x, db) := by
  unfold insertOrder
  dsimp only
  split
  · exact .inr ⟨_, rfl⟩
  · split
    · rename_i hc
      split
      · rename_i h
        exact .inl ⟨⟨_, [], columnChecks_pos hc, List.nodup_nil⟩, h, rfl, rfl, h, rfl⟩
      · exact .inr ⟨_, rfl⟩
    · exact .inr ⟨_, rfl⟩

theorem ackOrder_cases (cid no : String) :
    (∃ e, db.find cid = some e ∧ e.row.status = .pendingNew ∧ db.ackOrder cid no = (.ok (),
      db.set { e with row := { e.row with status := .new, brokerOrderId := some no } })) ∨
    ∃ x, db.ackOrder cid no = (.error x, db) := by
  unfold ackOrder
  split
  · rename_i e he
    split
    · rename_i hs
      exact .inl ⟨e, he, hs, rfl⟩
    · exact .inr ⟨_, rfl⟩
  · exact .inr ⟨_, rfl⟩

theorem replaceOrder_cases (cid : String) (p : Option Decimal) (q : Option Int) :
    (∃ e e' : Entry, db.find cid = some e ∧ e.row.status = .pendingReplace ∧
      e'.row = { e.row with
        status := .new
        price := (p.map Decimal.numeric).or e.row.price
        quantity := q.getD e.row.quantity } ∧
      e'.fills = e.fills ∧ db.replaceOrder cid p q = (.ok (), db.set e')) ∨
    ∃ x, db.replaceOrder cid p q = (.error x, db) := by
  unfold replaceOrder
  dsimp only
  split
  · rename_i e he
    split
    · rename_i hs
      split
      · exact .inr ⟨_, rfl⟩
      · split
        · rename_i hc
          exact .inl ⟨e, ⟨_, e.fills, columnChecks_pos hc, e.uq⟩, he, hs, rfl, rfl, rfl⟩
        · exact .inr ⟨_, rfl⟩
    · exact .inr ⟨_, rfl⟩
  · exact .inr ⟨_, rfl⟩

theorem writeStatus_cases (cid : String) (s : OrderState) :
    (∃ e, db.find cid = some e ∧ isLegal e.row.status s = true ∧
      db.writeStatus cid s = (.ok (), db.set (withStatus e s))) ∨
    ∃ r, db.writeStatus cid s = (r, db) := by
  unfold writeStatus
  split
  · rename_i e he
    split
    · rename_i hl
      exact .inl ⟨e, he, hl, rfl⟩
    · exact .inr ⟨_, rfl⟩
  · exact .inr ⟨_, rfl⟩

theorem setRejectReason_cases (cid reason : String) :
    (∃ e, db.find cid = some e ∧ db.setRejectReason cid reason = (.ok (),
      db.set { e with row := { e.row with rejectReason := some reason } })) ∨
    ∃ r, db.setRejectReason cid reason = (r, db) := by
  unfold setRejectReason
  split
  · rename_i e he
    exact .inl ⟨e, he, rfl⟩
  · exact .inr ⟨_, rfl⟩

theorem applyFill_cases (cid fid : String) (price : Decimal) (qty : Int) (ts : Time)
    (total : Int) :
    (∃ (e : Entry) (f : FillRow), db.find cid = some e ∧ f.brokerFillId = fid ∧
      f.price = price.numeric ∧ f.quantity = qty ∧ f.execTs = ts ∧
      isLegal e.row.status (fillTarget (addFill e f) total) = true ∧
      db.applyFill cid fid price qty ts total = (.ok (fillTarget (addFill e f) total),
        db.set (withStatus (addFill e f) (fillTarget (addFill e f) total)))) ∨
    ∃ x, db.applyFill cid fid price qty ts total = (.error x, db) := by
  unfold applyFill
  split
  · exact .inr ⟨_, rfl⟩
  · rename_i e he
    split
    · rename_i hq
      split
      · dsimp only
        split
        · rename_i hl
          exact .inl ⟨e, ⟨fid, price.numeric, qty, ts, hq⟩, he, rfl, rfl, rfl, rfl, hl, rfl⟩
        · exact .inr ⟨_, rfl⟩
      · exact .inr ⟨_, rfl⟩
    · exact .inr ⟨_, rfl⟩

end Db

/-! ## Every operation -/

/-- A statement leaves the store alone, inserts a fresh row, or changes one entry. -/
theorem served_cases {db db' : Db} {o : StoreOp} {r : Except Exn o.Res}
    (h : o.Served db r db') :
    db' = db ∨
    (∃ (ord : NormalizedOrder) (strategyId : Option String) (t : Time) (e : Entry)
      (hnew : db.find e.row.clientOrderId = none), o = .insertOrder ord strategyId ∧
      e.row = Db.newRow ord.toOrderFields strategyId t ∧ e.fills = [] ∧ db' = db.append e hnew) ∨
    ∃ e e', db.find e.row.clientOrderId = some e ∧ Change o e e' ∧ db' = db.set e' := by
  cases o with
  | fetchOrder cid | fetchOrderResult cid =>
    obtain ⟨t, ht⟩ := h
    exact .inl (congrArg Prod.snd ht).symm
  | fetchOpenOrders | fetchOrdersForReconcile b i => exact .inl h.1
  | insertOrder ord strategyId =>
    obtain ⟨t, ht⟩ := h
    change db.insertOrder ord.toOrderFields strategyId t = _ at ht
    rcases Db.insertOrder_cases db ord.toOrderFields strategyId t with
      ⟨e, hnone, hrow, hfills, hn, hc⟩ | ⟨x, hc⟩
    · rw [hc] at ht
      exact .inr (.inl ⟨ord, strategyId, t, e, hn, rfl, hrow, hfills, (congrArg Prod.snd ht).symm⟩)
    · rw [hc] at ht
      exact .inl (congrArg Prod.snd ht).symm
  | ackOrder cid no =>
    obtain ⟨t, ht⟩ := h
    change db.ackOrder cid no = _ at ht
    rcases Db.ackOrder_cases db cid no with ⟨e, he, hs, hc⟩ | ⟨x, hc⟩
    · rw [hc] at ht
      obtain rfl := Db.find_key he
      exact .inr (.inr ⟨e, _, he, .ack no hs, (congrArg Prod.snd ht).symm⟩)
    · rw [hc] at ht
      exact .inl (congrArg Prod.snd ht).symm
  | replaceOrder cid p q =>
    obtain ⟨t, ht⟩ := h
    change db.replaceOrder cid p q = _ at ht
    rcases Db.replaceOrder_cases db cid p q with
      ⟨e, e', he, hs, hrow, hfills, hc⟩ | ⟨x, hc⟩
    · rw [hc] at ht
      obtain rfl := Db.find_key he
      exact .inr (.inr ⟨e, e', he, .replace p q hs hrow hfills, (congrArg Prod.snd ht).symm⟩)
    · rw [hc] at ht
      exact .inl (congrArg Prod.snd ht).symm
  | writeStatus cid s =>
    obtain ⟨t, ht⟩ := h
    change db.writeStatus cid s = _ at ht
    rcases Db.writeStatus_cases db cid s with ⟨e, he, hl, hc⟩ | ⟨x, hc⟩
    · rw [hc] at ht
      obtain rfl := Db.find_key he
      exact .inr (.inr ⟨e, _, he, .status hl, (congrArg Prod.snd ht).symm⟩)
    · rw [hc] at ht
      exact .inl (congrArg Prod.snd ht).symm
  | setRejectReason cid reason =>
    obtain ⟨t, ht⟩ := h
    change db.setRejectReason cid reason = _ at ht
    rcases Db.setRejectReason_cases db cid reason with ⟨e, he, hc⟩ | ⟨x, hc⟩
    · rw [hc] at ht
      obtain rfl := Db.find_key he
      exact .inr (.inr ⟨e, _, he, .reason reason, (congrArg Prod.snd ht).symm⟩)
    · rw [hc] at ht
      exact .inl (congrArg Prod.snd ht).symm
  | applyFill cid fid price qty ts total =>
    obtain ⟨t, ht⟩ := h
    change db.applyFill cid fid price qty ts total = _ at ht
    rcases Db.applyFill_cases db cid fid price qty ts total with
      ⟨e, f, he, rfl, hp, rfl, rfl, hl, hc⟩ | ⟨x, hc⟩
    · rw [hc] at ht
      obtain rfl := Db.find_key he
      exact .inr (.inr ⟨e, _, he, .fill price hp hl, (congrArg Prod.snd ht).symm⟩)
    · rw [hc] at ht
      exact .inl (congrArg Prod.snd ht).symm

/-- What a whole step of the engine can do to the store: nothing, or what a statement does. -/
theorem step_served {E : Env} {db db' : Db} {op : EngineOp} {r : Except Exn op.Res}
    (h : (sem E).step db op r db') :
    db' = db ∨ ∃ (o : StoreOp) (r' : Except Exn o.Res), op = .store o ∧ o.Served db r' db' := by
  cases op with
  | ext o => exact .inl h.1
  | store o =>
    rcases h with h | ⟨-, e, -, h | ⟨r', h⟩⟩
    · exact .inr ⟨o, r, rfl, h⟩
    · exact .inl h
    · exact .inr ⟨o, r', rfl, h⟩

/-- One step, seen at one id: no change, a fresh row, or one `Change`. -/
theorem step_find {E : Env} {db db' : Db} {op : EngineOp} {r : Except Exn op.Res}
    (h : (sem E).step db op r db') (cid : String) :
    db'.find cid = db.find cid ∨
    (∃ (ord : NormalizedOrder) (strategyId : Option String) (t : Time) (e : Entry),
      op = .store (.insertOrder ord strategyId) ∧ ord.clientOrderId = cid ∧
      db.find cid = none ∧ e.row = Db.newRow ord.toOrderFields strategyId t ∧ e.fills = [] ∧
      db'.find cid = some e) ∨
    ∃ (o : StoreOp) (e e' : Entry), op = .store o ∧ Change o e e' ∧ e.row.clientOrderId = cid ∧
      db.find cid = some e ∧ db'.find cid = some e' := by
  rcases step_served h with rfl | ⟨o, r', rfl, hs⟩
  · exact .inl rfl
  · rcases served_cases hs with rfl | ⟨ord, sid, t, e, hn, rfl, hrow, hfills, rfl⟩ |
      ⟨e, e', he, hc, rfl⟩
    · exact .inl rfl
    · rw [Db.find_append]
      by_cases hcid : cid = e.row.clientOrderId
      · subst hcid
        exact .inr (.inl ⟨ord, sid, t, e, rfl, by rw [hrow]; rfl, hn, hrow, hfills, if_pos rfl⟩)
      · exact .inl (if_neg hcid)
    · rw [find_change hc he]
      by_cases hcid : cid = e.row.clientOrderId
      · subst hcid
        exact .inr (.inr ⟨o, e, e', rfl, hc, rfl, he, if_pos rfl⟩)
      · exact .inl (if_neg hcid)

/-- Rows are never deleted. -/
theorem step_find_isSome {E : Env} {db db' : Db} {op : EngineOp} {r : Except Exn op.Res}
    (h : (sem E).step db op r db') {cid : String} (hs : (db.find cid).isSome = true) :
    (db'.find cid).isSome = true := by
  rcases step_find h cid with heq | ⟨_, _, _, _, _, _, _, _, _, hf⟩ | ⟨_, _, _, _, _, _, _, hf⟩
  · rw [heq]; exact hs
  · rw [hf]; rfl
  · rw [hf]; rfl

/-- Every status change takes a frozen edge. -/
theorem step_status {E : Env} {db db' : Db} {op : EngineOp} {r : Except Exn op.Res}
    (h : (sem E).step db op r db') {cid : String} {e : Entry} (he : db.find cid = some e) :
    ∃ e', db'.find cid = some e' ∧
      (e'.row.status = e.row.status ∨ (e.row.status, e'.row.status) ∈ legalEdges) := by
  rcases step_find h cid with heq | ⟨_, _, _, _, _, _, hn, _⟩ | ⟨o, e₁, e', _, hc, _, he₁, hf⟩
  · exact ⟨e, by rw [heq, he], .inl rfl⟩
  · rw [hn] at he
    cases he
  · rw [he] at he₁
    obtain rfl := Option.some.inj he₁
    refine ⟨e', hf, ?_⟩
    rcases isLegal_iff.mp hc.legal with h | h
    · exact .inl h.symm
    · exact .inr h

/-- An insert that answers ok found no row and left one in PENDING_NEW. -/
theorem step_insert_ok {E : Env} {db db' : Db} {ord : NormalizedOrder}
    {strategyId : Option String}
    (h : (sem E).step db (.store (.insertOrder ord strategyId)) (.ok ()) db') :
    db.find ord.clientOrderId = none ∧ ∃ (t : Time) (e : Entry),
      db'.find ord.clientOrderId = some e ∧ e.fills = [] ∧
      e.row = Db.newRow ord.toOrderFields strategyId t := by
  rcases h with ⟨t, ht⟩ | ⟨-, e, he, -⟩
  · change db.insertOrder ord.toOrderFields strategyId t = _ at ht
    rcases Db.insertOrder_cases db ord.toOrderFields strategyId t with
      ⟨e, hnone, hrow, hfills, hn, hc⟩ | ⟨x, hc⟩
    · rw [hc] at ht
      obtain rfl := congrArg Prod.snd ht
      refine ⟨hnone, t, e, ?_, hfills, hrow⟩
      rw [Db.find_append, hrow]
      exact if_pos rfl
    · rw [hc] at ht
      cases congrArg Prod.fst ht
  · cases he

end ExecutionEngine
