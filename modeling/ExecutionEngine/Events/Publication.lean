/-
  The repository writers and the events they publish.

  A writer commits a statement and publishes only when it runs again, after the
  `await` returned; another writer's commit or publication can fall in between. A
  `Writers` state keeps the committed announcements that are still unpublished in the
  order of their commits, next to the log of what was published and the list of
  statuses the order has been committed in (the audit trigger's). Writers make the
  repository calls in any order, which covers every coroutine of the engine.

  `Apart` is a condition on the commits of one order alone: none meets an announcement of
  another writer that carries another state and is still unpublished, none lands behind an
  error answer, and no redelivered fill moves the status. Nothing is asked of the order in
  which the writers publish, or of what they do to other orders. `stream_agrees` says that
  in every state of a run whose moves are apart the stream is the durable history, since
  what waits to be published then carries one state (`Journal.uniform`); `stream_disagrees`
  is a run of two writers in which it is not.
-/
import Mathlib.Data.List.Destutter
import ExecutionEngine.Core.Engine
import ExecutionEngine.Core.Specs
import ExecutionEngine.Events.Hub

namespace ExecutionEngine

open StateMachine

/-! ## Consecutive repeats -/

section Repeats

variable {α : Type} [DecidableEq α]

theorem destutter'_snoc (a x : α) (l : List α) :
    (l ++ [x]).destutter' (· ≠ ·) a =
      l.destutter' (· ≠ ·) a ++ if (a :: l).getLast? = some x then [] else [x] := by
  induction l generalizing a with
  | nil => by_cases h : a = x <;> simp [h]
  | cons b l ih =>
    by_cases h : a = b
    · subst h
      have hskip (m : List α) : (a :: m).destutter' (· ≠ ·) a = m.destutter' (· ≠ ·) a := by
        simp
      rw [List.cons_append, hskip, hskip, ih, List.getLast?_cons_cons]
    · have hkeep (m : List α) : (b :: m).destutter' (· ≠ ·) a = a :: m.destutter' (· ≠ ·) b :=
        List.destutter'_cons_pos m h
      rw [List.cons_append, hkeep, hkeep, ih, List.getLast?_cons_cons, List.cons_append]

/-- One more element counts unless it repeats the last. -/
theorem destutter_snoc (l : List α) (x : α) :
    (l ++ [x]).destutter (· ≠ ·) =
      l.destutter (· ≠ ·) ++ if l.getLast? = some x then [] else [x] := by
  cases l with
  | nil => simp
  | cons a l => exact destutter'_snoc a x l

theorem destutter_getLast? (l : List α) : (l.destutter (· ≠ ·)).getLast? = l.getLast? := by
  induction l using List.reverseRecOn with
  | nil => rfl
  | append_singleton l x ih =>
    rw [destutter_snoc]
    split
    · rename_i h
      rw [List.append_nil, ih, h, List.getLast?_concat]
    · rw [List.getLast?_concat, List.getLast?_concat]

end Repeats

/-! ## The writers' calls -/

/-- What a writer publishes once its statement has committed; `insert_order` first records the
    attribution. -/
structure Announcement where
  attribution : Option String := none
  publication : Publication

/-- A statement that is announced: `update_status` with the row it has read. -/
inductive WriteCall where
  | insertOrder (o : NormalizedOrder) (strategyId : Option String)
  | ackOrder (cid brokerOrderId : String)
  | replaceOrder (cid : String) (newPrice : Option Decimal) (newQty : Option Int)
  | updateStatus (row : OrderRow) (newStatus : OrderState)
  | applyFill (cid brokerFillId : String) (price : Decimal) (quantity : Int) (execTs : Time)
      (total : Int)

namespace WriteCall

def cid : WriteCall → String
  | insertOrder o _ => o.clientOrderId
  | ackOrder cid _ => cid
  | replaceOrder cid _ _ => cid
  | updateStatus row _ => row.clientOrderId
  | applyFill cid _ _ _ _ _ => cid

@[reducible] def statement : WriteCall → StoreOp
  | insertOrder o sid => .insertOrder o sid
  | ackOrder cid no => .ackOrder cid no
  | replaceOrder cid p q => .replaceOrder cid p q
  | updateStatus row s => .writeStatus row.clientOrderId s
  | applyFill cid fid price qty ts total => .applyFill cid fid price qty ts total

/-- The fill is already recorded: its insert hits the conflict clause. -/
def redelivered (db : Db) (cid brokerFillId : String) : Bool :=
  (db.find cid).any fun e => brokerFillId ∈ e.fills.map FillRow.brokerFillId

/-- What is published after the statement has met this store and answered. -/
def announcement (db : Db) : (c : WriteCall) → Except Exn c.statement.Res → Option Announcement
  | insertOrder o sid, .ok _ =>
    some ⟨sid, { clientOrderId := o.clientOrderId, engineState := .pendingNew, strategyId := sid }⟩
  | ackOrder cid no, .ok _ =>
    some ⟨none, { clientOrderId := cid, engineState := .new, brokerOrderId := some no }⟩
  | replaceOrder cid p q, .ok _ =>
    some ⟨none, { clientOrderId := cid, engineState := .new, price := p, quantity := q }⟩
  | updateStatus row s, .ok _ =>
    some ⟨none, { clientOrderId := row.clientOrderId, engineState := s, strategyId := row.strategyId,
                  brokerOrderId := row.brokerOrderId }⟩
  | applyFill cid fid price qty ts _, .ok target =>
    if redelivered db cid fid then none
    else some ⟨none, { clientOrderId := cid, engineState := target,
                       fill := some ⟨fid, price, qty, ts⟩ }⟩
  | _, .error _ => none

end WriteCall

/-- `hub.register_strategy` if there is one, then `hub.publish`. -/
def EventHub.announce (H : EventHub) (a : Announcement) (now : Time) : EventHub :=
  let H := a.attribution.elim H fun sid => H.registerStrategy a.publication.clientOrderId sid
  H.publish a.publication now

/-- The event that `announce` publishes. -/
def EventHub.announced (H : EventHub) (a : Announcement) (now : Time) : OrderUpdateEvent :=
  (a.attribution.elim H fun sid => H.registerStrategy a.publication.clientOrderId sid).stamp
    a.publication now

/-! ## The writers together -/

/-- The store, the hub and the writers. -/
structure Writers (ι : Type) where
  db : Db
  hub : EventHub
  /-- `update_status` between its read and its write. -/
  guarding : ι → Option (OrderRow × OrderState) := fun _ => none
  /-- Committed and not yet published, in the order of the commits. -/
  pending : List (ι × Announcement) := []
  published : List OrderUpdateEvent := []
  /-- The statuses one order was committed in. -/
  committed : List OrderState := []

namespace Writers

variable {ι : Type}

def statusAt (cid : String) (db : Db) : Option OrderState := (db.find cid).map fun e => e.row.status

/-- The audit trigger's row for a step of the store, if any. -/
def transition (cid : String) (db db' : Db) : List OrderState :=
  if statusAt cid db' = statusAt cid db then [] else (statusAt cid db').toList

/-- A step of one writer. -/
inductive Move (ι : Type) where
  | read (i : ι) (row : OrderRow) (newStatus : OrderState)
  | commit (i : ι) (c : WriteCall) (r : Except Exn c.statement.Res) (db' : Db)
  | publish (earlier : List (ι × Announcement)) (i : ι) (a : Announcement) (now : Time)

/-- Writer `i` has published what it has committed. -/
def Free (w : Writers ι) (i : ι) : Prop := ∀ x ∈ w.pending, x.1 ≠ i

instance [DecidableEq ι] (w : Writers ι) (i : ι) : Decidable (w.Free i) :=
  inferInstanceAs (Decidable (∀ x ∈ w.pending, x.1 ≠ i))

/-- A status is written by the `update_status` that has read the row, any other call by a writer
    that is not in the middle of one. -/
def Ready (w : Writers ι) (i : ι) : WriteCall → Prop
  | .updateStatus row s => w.guarding i = some (row, s)
  | _ => w.guarding i = none

/-- What the moves do; `committed` is kept for the order `cid`. -/
inductive Step [DecidableEq ι] (E : Env) (cid : String) : Writers ι → Move ι → Writers ι → Prop where
  | read {w : Writers ι} {i : ι} {row : OrderRow} {s : OrderState} (hfree : w.Free i)
    (hread : w.db.fetchOrder row.clientOrderId = some row) (hne : row.status ≠ s)
    (hlegal : isLegal row.status s = true) :
    Step E cid w (.read i row s)
      { w with guarding := Function.update w.guarding i (some (row, s)) }
  | commit {w : Writers ι} {i : ι} {c : WriteCall} {r : Except Exn c.statement.Res} {db' : Db}
    (hfree : w.Free i) (hready : w.Ready i c)
    (hstep : (sem E).step w.db (.store c.statement) r db') :
    Step E cid w (.commit i c r db')
      { w with
        db := db'
        guarding := Function.update w.guarding i none
        pending := w.pending ++ ((c.announcement w.db r).map fun a => (i, a)).toList
        committed := w.committed ++ transition cid w.db db' }
  | publish {w : Writers ι} {earlier later : List (ι × Announcement)} {i : ι} {a : Announcement}
    {now : Time} (hp : w.pending = earlier ++ (i, a) :: later) :
    Step E cid w (.publish earlier i a now)
      { w with
        hub := w.hub.announce a now
        pending := earlier ++ later
        published := w.published ++ [w.hub.announced a now] }

/-! ## What the stream says of an order -/

/-- The states published for the order, in the order of the numbers. -/
def statesOf (cid : String) (es : List OrderUpdateEvent) : List OrderState :=
  (es.filter fun e => e.clientOrderId = cid).map OrderUpdateEvent.engineState

/-- What a fill event says, in the precision of the store. -/
def FillEvent.recorded (f : FillEvent) : String × Decimal × Int × Time :=
  (f.brokerFillId, f.price.numeric, f.quantity, f.execTs)

def fillsOf (cid : String) (es : List OrderUpdateEvent) : List (String × Decimal × Int × Time) :=
  ((es.filter fun e => e.clientOrderId = cid).filterMap OrderUpdateEvent.fill).map FillEvent.recorded

/-- The fills the store has recorded for the order. -/
def recordedFills (cid : String) (db : Db) : List (String × Decimal × Int × Time) :=
  ((db.find cid).elim [] Entry.fills).map fun f => (f.brokerFillId, f.price, f.quantity, f.execTs)

/-- The announcements about the order that are still to be published. -/
def unpublished (cid : String) (pending : List (ι × Announcement)) : List Publication :=
  (pending.map fun x => x.2.publication).filter fun p => p.clientOrderId = cid

def unpublishedStates (cid : String) (pending : List (ι × Announcement)) : List OrderState :=
  (unpublished cid pending).map Publication.engineState

def unpublishedFills (cid : String) (pending : List (ι × Announcement)) :
    List (String × Decimal × Int × Time) :=
  ((unpublished cid pending).filterMap Publication.fill).map FillEvent.recorded

/-- The stream agrees with the durable history: what was published, in the order of the numbers
    and without consecutive repeats, and then what is committed and still to be published, are
    the statuses committed, and likewise every recorded fill is in exactly one event. -/
def StreamAgrees (cid : String) (w : Writers ι) : Prop :=
  (statesOf cid w.published ++ unpublishedStates cid w.pending).destutter (· ≠ ·) = w.committed ∧
  (fillsOf cid w.published ++ unpublishedFills cid w.pending).Perm (recordedFills cid w.db)

/-- A fill that is recorded already aims at the status the order has. -/
def restates (db : Db) : WriteCall → Bool
  | .applyFill cid fid _ _ _ total => (db.find cid).all fun e =>
    fid ∉ e.fills.map FillRow.brokerFillId || Db.fillTarget e total = e.row.status
  | _ => true

/-- The condition on a commit about the order: behind an error answer it has changed nothing, a
    redelivered fill moves no status, and what is still unpublished about the order (by the other
    writers, a writer publishes before it commits again) carries the state it announces. -/
def Apart (cid : String) (w : Writers ι) : Move ι → Prop
  | .commit _ c r db' => c.cid = cid →
    (r.isOk = false → db'.find cid = w.db.find cid) ∧ restates w.db c = true ∧
    ∀ a ∈ c.announcement w.db r, ∀ p ∈ unpublished cid w.pending,
      p.engineState = a.publication.engineState
  | _ => True

instance (cid : String) (w : Writers ι) : (m : Move ι) → Decidable (w.Apart cid m)
  | .commit _ _ _ _ => inferInstanceAs (Decidable (_ → _))
  | .read _ _ _ => isTrue trivial
  | .publish _ _ _ _ => isTrue trivial

/-- Runs whose moves are all apart. -/
inductive ApartRun [DecidableEq ι] (E : Env) (cid : String) (w₀ : Writers ι) :
    Writers ι → Prop where
  | refl : ApartRun E cid w₀ w₀
  | step {w w' : Writers ι} {m : Move ι} (run : ApartRun E cid w₀ w) (ha : w.Apart cid m)
    (hs : Step E cid w m w') : ApartRun E cid w₀ w'

/-! ## One commit -/

variable {E : Env} {cid : String} {db db' : Db} {c : WriteCall}

theorem statusAt_of_find {e : Entry} (h : db.find cid = some e) :
    statusAt cid db = some e.row.status := by rw [statusAt, h]; rfl

theorem recordedFills_of_find {e : Entry} (h : db.find cid = some e) :
    recordedFills cid db =
      e.fills.map fun f => (f.brokerFillId, f.price, f.quantity, f.execTs) := by
  rw [recordedFills, h]
  rfl

/-- What a call says about the order. -/
def about (cid : String) (a : Option Announcement) : Option Publication :=
  (a.map Announcement.publication).filter fun p => p.clientOrderId = cid

/-- A publication explains a step of the store: it carries the status the order now has and the
    fill that was added. Without one nothing has changed. -/
def Explained (cid : String) (db db' : Db) : Option Publication → Prop
  | none => statusAt cid db' = statusAt cid db ∧ recordedFills cid db' = recordedFills cid db
  | some p => statusAt cid db' = some p.engineState ∧
    recordedFills cid db' = recordedFills cid db ++ (p.fill.map FillEvent.recorded).toList

theorem explained_of_find (h : db'.find cid = db.find cid) : Explained cid db db' none := by
  rw [Explained, statusAt, statusAt, recordedFills, recordedFills, h]
  exact ⟨rfl, rfl⟩

theorem announcement_cid {r : Except Exn c.statement.Res} {a : Announcement}
    (h : c.announcement db r = some a) : a.publication.clientOrderId = c.cid := by
  cases c with
  | applyFill cid fid price qty ts total =>
    cases r with
    | error e => cases h
    | ok target =>
      simp only [WriteCall.announcement] at h
      split at h
      · cases h
      · rw [← Option.some.inj h]
        rfl
  | _ =>
    cases r with
    | error e => cases h
    | ok v =>
      rw [← Option.some.inj h]
      rfl

/-- A call changes the order it names. -/
theorem change_cid {o : StoreOp} {e e' : Entry} (hc : Change o e e') (h : c.statement = o) :
    c.cid = e.row.clientOrderId := by
  cases hc <;> cases c <;> simp only [WriteCall.statement, StoreOp.ackOrder.injEq,
    StoreOp.replaceOrder.injEq, StoreOp.writeStatus.injEq, StoreOp.applyFill.injEq, reduceCtorEq] at h
  all_goals exact h.1

/-- A call leaves the other orders alone. -/
theorem commit_elsewhere {r : Except Exn c.statement.Res}
    (h : (sem E).step db (.store c.statement) r db') (hne : c.cid ≠ cid) :
    db'.find cid = db.find cid := by
  rcases step_find h cid with heq | ⟨ord, sid, t, e, hop, hcid, -⟩ | ⟨o, e, e', hop, hc, hcid, -⟩
  · exact heq
  · cases c <;> cases hop
    exact absurd hcid hne
  · exact absurd ((change_cid hc (EngineOp.store.inj hop)).trans hcid) hne

theorem explained_about {r : Except Exn c.statement.Res} {a : Announcement}
    (ha : c.announcement db r = some a) (h : Explained c.cid db db' (some a.publication)) :
    Explained c.cid db db' (about c.cid (c.announcement db r)) := by
  have habout : about c.cid (c.announcement db r) = some a.publication := by
    simp [ha, about, announcement_cid ha]
  rw [habout]
  exact h

/-- A statement that answered was served. -/
theorem served_ok {o : StoreOp} {v : o.Res} (h : (sem E).step db (.store o) (.ok v) db') :
    o.Served db (.ok v) db' := by
  rcases h with h | ⟨-, e, he, -⟩
  · exact h
  · cases he

/-- The order's entry after a change to it. -/
theorem explained_of_change {o : StoreOp} {e e' : Entry} {p : Publication} (hc : Change o e e')
    (he : db.find e.row.clientOrderId = some e) (hstatus : e'.row.status = p.engineState)
    (hfills : (e'.fills.map fun f => (f.brokerFillId, f.price, f.quantity, f.execTs)) =
      (e.fills.map fun f => (f.brokerFillId, f.price, f.quantity, f.execTs)) ++
        (p.fill.map FillEvent.recorded).toList) :
    Explained e.row.clientOrderId db (db.set e') (some p) := by
  have he' : (db.set e').find e.row.clientOrderId = some e' := by
    rw [find_change hc he, if_pos rfl]
  refine ⟨by rw [statusAt_of_find he', hstatus], ?_⟩
  rw [recordedFills_of_find he', recordedFills_of_find he, hfills]

theorem explained_insert {o : NormalizedOrder} {sid : Option String} {v : Unit}
    (h : (sem E).step db (.store (.insertOrder o sid)) (.ok v) db') :
    Explained o.clientOrderId db db' (some
      { clientOrderId := o.clientOrderId, engineState := .pendingNew, strategyId := sid }) := by
  obtain ⟨hnone, t, e, he, hfills, hrow⟩ := step_insert_ok h
  refine ⟨by rw [statusAt_of_find he, hrow]; rfl, ?_⟩
  rw [recordedFills_of_find he, recordedFills, hnone, hfills]
  rfl

theorem explained_ack {no : String} {v : Unit}
    (h : (sem E).step db (.store (.ackOrder cid no)) (.ok v) db') :
    Explained cid db db'
      (some { clientOrderId := cid, engineState := .new, brokerOrderId := some no }) := by
  obtain ⟨t, ht⟩ := served_ok h
  change db.ackOrder cid no = _ at ht
  rcases Db.ackOrder_cases db cid no with ⟨e, he, hs, hc⟩ | ⟨x, hc⟩
  · obtain ⟨-, rfl⟩ := Prod.mk.inj (hc.symm.trans ht)
    obtain rfl := Db.find_key he
    exact explained_of_change (.ack no hs) he rfl (List.append_nil _).symm
  · cases (Prod.mk.inj (hc.symm.trans ht)).1

theorem explained_replace {price : Option Decimal} {qty : Option Int} {v : Unit}
    (h : (sem E).step db (.store (.replaceOrder cid price qty)) (.ok v) db') :
    Explained cid db db'
      (some { clientOrderId := cid, engineState := .new, price := price, quantity := qty }) := by
  obtain ⟨t, ht⟩ := served_ok h
  change db.replaceOrder cid price qty = _ at ht
  rcases Db.replaceOrder_cases db cid price qty with ⟨e, e', he, hs, hrow, hfills, hc⟩ | ⟨x, hc⟩
  · obtain ⟨-, rfl⟩ := Prod.mk.inj (hc.symm.trans ht)
    obtain rfl := Db.find_key he
    exact explained_of_change (.replace price qty hs hrow hfills) he (by rw [hrow])
      (by rw [hfills]; exact (List.append_nil _).symm)
  · cases (Prod.mk.inj (hc.symm.trans ht)).1

theorem explained_status {row : OrderRow} {s : OrderState} {v : Unit}
    (hrow : (db.find row.clientOrderId).isSome = true)
    (h : (sem E).step db (.store (.writeStatus row.clientOrderId s)) (.ok v) db') :
    Explained row.clientOrderId db db' (some
      { clientOrderId := row.clientOrderId, engineState := s, strategyId := row.strategyId,
        brokerOrderId := row.brokerOrderId }) := by
  obtain ⟨t, ht⟩ := served_ok h
  change db.writeStatus row.clientOrderId s = _ at ht
  obtain ⟨e, he⟩ := Option.isSome_iff_exists.mp hrow
  have hkey := Db.find_key he
  rw [← hkey] at ht he ⊢
  by_cases hl : isLegal e.row.status s = true
  · simp only [Db.writeStatus, he, hl, if_true] at ht
    obtain ⟨-, rfl⟩ := Prod.mk.inj ht
    exact explained_of_change (.status hl) he rfl (List.append_nil _).symm
  · simp only [Db.writeStatus, he, hl] at ht
    cases (Prod.mk.inj ht).1

theorem explained_fill {fid : String} {price : Decimal} {qty : Int} {ts : Time} {total : Int}
    {v : OrderState}
    (h : (sem E).step db (.store (.applyFill cid fid price qty ts total)) (.ok v) db')
    (hagain : restates db (.applyFill cid fid price qty ts total) = true) :
    Explained cid db db'
      (about cid ((WriteCall.applyFill cid fid price qty ts total).announcement db (.ok v))) := by
  obtain ⟨t, ht⟩ := served_ok h
  change db.applyFill cid fid price qty ts total = _ at ht
  rcases Db.applyFill_cases db cid fid price qty ts total with
    ⟨e, f, he, rfl, hp, rfl, rfl, hl, hc⟩ | ⟨x, hc⟩
  · obtain ⟨htarget, rfl⟩ := Prod.mk.inj (hc.symm.trans ht)
    obtain rfl := Except.ok.inj htarget
    obtain rfl := Db.find_key he
    have hchange := Change.fill price hp hl
    by_cases hknown : f.brokerFillId ∈ e.fills.map FillRow.brokerFillId
    · have hsilent : WriteCall.redelivered db e.row.clientOrderId f.brokerFillId = true := by
        simpa [WriteCall.redelivered, he] using hknown
      simp only [WriteCall.announcement, hsilent, if_true]
      -- the fill is not inserted again, and its target is the status the order has
      rw [addFill_redelivered hknown] at hchange ⊢
      simp only [restates, he, Option.all_some, Bool.or_eq_true, decide_eq_true_eq] at hagain
      have hsame := hagain.resolve_left (not_not_intro hknown)
      have he' := find_change hchange he e.row.clientOrderId
      rw [if_pos rfl] at he'
      refine ⟨?_, ?_⟩
      · rw [statusAt_of_find he', statusAt_of_find he]
        exact congrArg some hsame
      · rw [recordedFills_of_find he', recordedFills_of_find he]
        rfl
    · have hnew : WriteCall.redelivered db e.row.clientOrderId f.brokerFillId = false := by
        simpa [WriteCall.redelivered, he] using hknown
      have hsaid : (WriteCall.applyFill e.row.clientOrderId f.brokerFillId price f.quantity f.execTs
          total).announcement db (.ok (Db.fillTarget (Db.addFill e f) total)) = some ⟨none,
            { clientOrderId := e.row.clientOrderId
              engineState := Db.fillTarget (Db.addFill e f) total
              fill := some ⟨f.brokerFillId, price, f.quantity, f.execTs⟩ }⟩ := by
        simp only [WriteCall.announcement, hnew, Bool.false_eq_true, if_false]
      refine explained_about hsaid (explained_of_change hchange he rfl ?_)
      show (Db.addFill e f).fills.map _ = _
      rw [recorded_addFill hknown, List.map_append, List.map_singleton, hp]
      rfl
  · cases (Prod.mk.inj (hc.symm.trans ht)).1

/-- What such a commit publishes explains what it has done to the order. -/
theorem commit_explained {r : Except Exn c.statement.Res} {w : Writers ι} {i : ι}
    (h : (sem E).step w.db (.store c.statement) r db') (ha : w.Apart cid (.commit i c r db'))
    (hrow : ∀ row s, c = .updateStatus row s → (w.db.find row.clientOrderId).isSome = true) :
    Explained cid w.db db' (about cid (c.announcement w.db r)) := by
  by_cases hne : c.cid = cid
  · cases r with
    | error e =>
      have hnone : c.announcement w.db (.error e) = none := by cases c <;> rfl
      rw [hnone]
      exact explained_of_find ((ha hne).1 rfl)
    | ok v =>
      obtain ⟨-, hagain, -⟩ := ha hne
      subst hne
      cases c with
      | insertOrder o sid => exact explained_about rfl (explained_insert h)
      | ackOrder cid no => exact explained_about rfl (explained_ack h)
      | replaceOrder cid price qty => exact explained_about rfl (explained_replace h)
      | updateStatus row s => exact explained_about rfl (explained_status (hrow row s rfl) h)
      | applyFill cid fid price qty ts total =>
        exact explained_fill h hagain
  · have hnone : about cid (c.announcement w.db r) = none := by
      cases ha : c.announcement w.db r with
      | none => rfl
      | some a => simp [about, announcement_cid ha, hne]
    rw [hnone]
    exact explained_of_find (commit_elsewhere h hne)

/-! ## The log -/

theorem statesOf_snoc (cid : String) (es : List OrderUpdateEvent) (e : OrderUpdateEvent) :
    statesOf cid (es ++ [e]) =
      statesOf cid es ++ if e.clientOrderId = cid then [e.engineState] else [] := by
  by_cases h : e.clientOrderId = cid <;> simp [statesOf, h]

theorem fillsOf_snoc (cid : String) (es : List OrderUpdateEvent) (e : OrderUpdateEvent) :
    fillsOf cid (es ++ [e]) = fillsOf cid es ++
      if e.clientOrderId = cid then (e.fill.map FillEvent.recorded).toList else [] := by
  by_cases h : e.clientOrderId = cid
  · cases hf : e.fill <;> simp [fillsOf, h, hf]
  · simp [fillsOf, h]

theorem unpublished_append (cid : String) (xs ys : List (ι × Announcement)) :
    unpublished cid (xs ++ ys) = unpublished cid xs ++ unpublished cid ys := by
  simp [unpublished]

theorem unpublished_commit (cid : String) (xs : List (ι × Announcement)) (i : ι)
    (a : Option Announcement) :
    unpublished cid (xs ++ (a.map fun a => (i, a)).toList) =
      unpublished cid xs ++ (about cid a).toList := by
  rw [unpublished_append]
  cases a with
  | none => rfl
  | some a =>
    by_cases h : a.publication.clientOrderId = cid <;>
      simp [unpublished, about, Option.filter, h]

theorem announce_logged {H : EventHub} {log : List OrderUpdateEvent} (h : EventHub.Logged log H)
    (a : Announcement) (now : Time) :
    EventHub.Logged (log ++ [H.announced a now]) (H.announce a now) := by
  unfold EventHub.announce EventHub.announced
  cases a.attribution with
  | none => exact EventHub.logged_publish h a.publication now
  | some sid =>
    have haside : EventHub.Elsewhere 0 H (H.registerStrategy a.publication.clientOrderId sid) :=
      .register H _ sid
    exact EventHub.logged_publish (haside.logged h) a.publication now

/-! ## The invariant -/

/-- What such a run keeps: the stream agrees, what is unpublished about the order carries one
    state, the last status committed is the one the order has, a row that was read is still there,
    and the published events are the hub's log. -/
structure Journal (cid : String) (w : Writers ι) : Prop where
  agrees : w.StreamAgrees cid
  uniform : ∀ p ∈ unpublished cid w.pending, ∀ q ∈ unpublished cid w.pending,
    p.engineState = q.engineState
  last : w.committed.getLast? = statusAt cid w.db
  known : ∀ i row s, w.guarding i = some (row, s) → (w.db.find row.clientOrderId).isSome = true
  logged : EventHub.Logged w.published w.hub

theorem transition_last {cs : List OrderState} (h : cs.getLast? = statusAt cid db)
    (hrow : statusAt cid db ≠ none → statusAt cid db' ≠ none) :
    (cs ++ transition cid db db').getLast? = statusAt cid db' := by
  unfold transition
  split
  · rename_i hsame
    rw [List.append_nil, h, hsame]
  · cases hs : statusAt cid db' with
    | some s => rw [Option.toList_some, List.getLast?_concat]
    | none =>
      rename_i hmoved
      exact absurd hs (hrow fun hnone => hmoved (hs.trans hnone.symm))

variable {w w' : Writers ι}

theorem Journal.read [DecidableEq ι] {i : ι} {row : OrderRow} {s : OrderState} (h : Journal cid w)
    (hread : w.db.fetchOrder row.clientOrderId = some row) :
    Journal cid { w with guarding := Function.update w.guarding i (some (row, s)) } := by
  refine ⟨h.agrees, h.uniform, h.last, fun j row' s' hj => ?_, h.logged⟩
  by_cases hji : j = i
  · subst hji
    simp only [Function.update_self, Option.some.injEq, Prod.mk.injEq] at hj
    obtain ⟨rfl, -⟩ := hj
    obtain ⟨e, he, -⟩ := Option.map_eq_some_iff.mp hread
    exact Option.isSome_iff_exists.mpr ⟨e, he⟩
  · simp only [Function.update_of_ne hji] at hj
    exact h.known j row' s' hj

/-- A commit that meets no other state still to be published leaves one state there. -/
theorem uniform_commit {r : Except Exn c.statement.Res} {i : ι}
    (h : ∀ p ∈ unpublished cid w.pending, ∀ q ∈ unpublished cid w.pending,
      p.engineState = q.engineState)
    (ha : w.Apart cid (.commit i c r db')) :
    ∀ p ∈ unpublished cid (w.pending ++ ((c.announcement w.db r).map fun a => (i, a)).toList),
    ∀ q ∈ unpublished cid (w.pending ++ ((c.announcement w.db r).map fun a => (i, a)).toList),
      p.engineState = q.engineState := by
  rw [unpublished_commit]
  have hnew : ∀ p ∈ unpublished cid w.pending, ∀ q ∈ (about cid (c.announcement w.db r)).toList,
      p.engineState = q.engineState := by
    intro p hp q hq
    cases hsaid : c.announcement w.db r with
    | none => simp [hsaid, about] at hq
    | some a =>
      simp only [hsaid, about, Option.map_some, Option.mem_toList, Option.filter_eq_some_iff,
        Option.some.injEq, decide_eq_true_eq] at hq
      obtain ⟨rfl, hcid⟩ := hq
      exact (ha ((announcement_cid hsaid).symm.trans hcid)).2.2 a hsaid p hp
  intro p hp q hq
  rcases List.mem_append.mp hp with hp | hp <;> rcases List.mem_append.mp hq with hq | hq
  · exact h p hp q hq
  · exact hnew p hp q hq
  · exact (hnew q hq p hp).symm
  · rw [Option.mem_toList] at hp hq
    rw [Option.some.inj (hp.symm.trans hq)]

/-- A commit extends both sides by the same. -/
theorem Journal.commit [DecidableEq ι] {i : ι} {r : Except Exn c.statement.Res} (h : Journal cid w)
    (ha : w.Apart cid (.commit i c r db')) (hready : w.Ready i c)
    (hstep : (sem E).step w.db (.store c.statement) r db') :
    Journal cid
      { w with
        db := db'
        guarding := Function.update w.guarding i none
        pending := w.pending ++ ((c.announcement w.db r).map fun a => (i, a)).toList
        committed := w.committed ++ transition cid w.db db' } := by
  have hexplained := commit_explained hstep ha fun row s hc => by
    subst hc
    exact h.known i row s hready
  have hlasts : (statesOf cid w.published ++ unpublishedStates cid w.pending).getLast? =
      statusAt cid w.db := by
    rw [← h.last, ← h.agrees.1, destutter_getLast?]
  refine ⟨⟨?_, ?_⟩, uniform_commit h.uniform ha, transition_last h.last fun hsome hnone => ?_,
    fun j row s hj => ?_, h.logged⟩
  · show (statesOf cid w.published ++ unpublishedStates cid (w.pending ++ _)).destutter _ = _
    rw [unpublishedStates, unpublished_commit, List.map_append, ← List.append_assoc, transition]
    cases habout : about cid (c.announcement w.db r) with
    | none =>
      rw [habout] at hexplained
      rw [if_pos hexplained.1, List.append_nil]
      simpa [unpublishedStates] using h.agrees.1
    | some p =>
      rw [habout] at hexplained
      have hsnoc := destutter_snoc (statesOf cid w.published ++ unpublishedStates cid w.pending)
        p.engineState
      rw [h.agrees.1, hlasts] at hsnoc
      rw [hexplained.1]
      by_cases hsame : statusAt cid w.db = some p.engineState
      · rw [if_pos hsame.symm]
        rw [if_pos hsame] at hsnoc
        exact hsnoc
      · rw [if_neg fun heq => hsame heq.symm]
        rw [if_neg hsame] at hsnoc
        exact hsnoc
  · show (fillsOf cid w.published ++ unpublishedFills cid (w.pending ++ _)).Perm _
    rw [unpublishedFills, unpublished_commit, List.filterMap_append, List.map_append,
      ← List.append_assoc]
    cases habout : about cid (c.announcement w.db r) with
    | none =>
      rw [habout] at hexplained
      rw [hexplained.2]
      simpa [unpublishedFills] using h.agrees.2
    | some p =>
      rw [habout] at hexplained
      rw [hexplained.2]
      have hone : (([p].filterMap Publication.fill).map FillEvent.recorded) =
          (p.fill.map FillEvent.recorded).toList := by
        cases hf : p.fill <;> simp [hf]
      rw [Option.toList_some, hone]
      exact h.agrees.2.append_right _
  · have hthere : (w.db.find cid).isSome = true := by
      cases hf : w.db.find cid with
      | none => simp [statusAt, hf] at hsome
      | some e => rfl
    have hstill := step_find_isSome hstep hthere
    simp only [statusAt, Option.map_eq_none_iff] at hnone
    rw [hnone] at hstill
    cases hstill
  · by_cases hji : j = i
    · subst hji
      simp at hj
    · simp only [Function.update_of_ne hji] at hj
      exact step_find_isSome hstep (h.known j row s hj)

/-- Publishing moves an announcement from one side of the log to the other. -/
theorem Journal.publish {earlier later : List (ι × Announcement)} {i : ι} {a : Announcement}
    {now : Time} (h : Journal cid w) (hp : w.pending = earlier ++ (i, a) :: later) :
    Journal cid
      { w with
        hub := w.hub.announce a now
        pending := earlier ++ later
        published := w.published ++ [w.hub.announced a now] } := by
  obtain ⟨hstates, hfills⟩ := h.agrees
  have huniform := h.uniform
  rw [hp, List.append_cons] at hstates hfills huniform
  simp only [unpublishedStates, unpublishedFills, unpublished_append, List.map_append,
    List.filterMap_append] at hstates hfills
  have hcid : (w.hub.announced a now).clientOrderId = a.publication.clientOrderId := rfl
  have hstate : (w.hub.announced a now).engineState = a.publication.engineState := rfl
  have hfill : (w.hub.announced a now).fill = a.publication.fill := rfl
  refine ⟨⟨?_, ?_⟩, fun p hpm q hqm => ?_, h.last, h.known, announce_logged h.logged a now⟩
  · show (statesOf cid (w.published ++ _) ++ unpublishedStates cid (earlier ++ later)).destutter _ = _
    rw [statesOf_snoc, hcid, hstate, unpublishedStates, unpublished_append, List.map_append]
    by_cases hc : a.publication.clientOrderId = cid
    · -- the announcements committed before it carry the same state, so it may pass them
      have hsame : (unpublished cid earlier).map Publication.engineState =
          List.replicate (unpublished cid earlier).length a.publication.engineState := by
        refine List.eq_replicate_iff.mpr ⟨List.length_map _, fun s hs => ?_⟩
        obtain ⟨p, hpm, rfl⟩ := List.mem_map.mp hs
        refine huniform p ?_ a.publication ?_
        · simp [unpublished_append, hpm]
        · simp [unpublished, hc]
      have hone : unpublished cid [(i, a)] = [a.publication] := by simp [unpublished, hc]
      rw [hone, List.map_singleton, hsame] at hstates
      rw [if_pos hc, hsame, ← hstates]
      congr 1
      simp only [List.append_assoc, List.append_cancel_left_eq]
      rw [← List.append_assoc, ← List.append_assoc, List.append_cancel_right_eq,
        ← List.replicate_succ', List.singleton_append, ← List.replicate_succ]
    · have hone : unpublished cid [(i, a)] = [] := by simp [unpublished, hc]
      rw [hone, List.map_nil, List.append_nil] at hstates
      rw [if_neg hc, List.append_nil, hstates]
  · show (fillsOf cid (w.published ++ _) ++ unpublishedFills cid (earlier ++ later)).Perm _
    refine List.Perm.trans ?_ hfills
    rw [fillsOf_snoc, hcid, hfill, unpublishedFills, unpublished_append, List.filterMap_append,
      List.map_append, List.append_assoc, List.append_assoc]
    refine List.Perm.append_left _ ?_
    have hone : ((unpublished cid [(i, a)]).filterMap Publication.fill).map FillEvent.recorded =
        if a.publication.clientOrderId = cid then (a.publication.fill.map FillEvent.recorded).toList
        else [] := by
      by_cases hc : a.publication.clientOrderId = cid
      · cases hf : a.publication.fill <;> simp [unpublished, hc, hf]
      · simp [unpublished, hc]
    rw [hone, ← List.append_assoc, ← List.append_assoc]
    exact List.Perm.append_right _ List.perm_append_comm
  · have hin {x : Publication} (hx : x ∈ unpublished cid (earlier ++ later)) :
        x ∈ unpublished cid (earlier ++ [(i, a)] ++ later) := by
      rw [unpublished_append] at hx ⊢
      rw [unpublished_append]
      exact (List.mem_append.mp hx).elim
        (fun hx => List.mem_append_left _ (List.mem_append_left _ hx)) (List.mem_append_right _)
    exact huniform p (hin hpm) q (hin hqm)

theorem Journal.step [DecidableEq ι] {m : Move ι} (h : Journal cid w) (ha : w.Apart cid m)
    (hs : Step E cid w m w') : Journal cid w' := by
  cases hs with
  | read hfree hread hne hlegal => exact h.read hread
  | commit hfree hready hstep => exact h.commit ha hready hstep
  | publish hp => exact h.publish hp

theorem ApartRun.journal [DecidableEq ι] {w₀ : Writers ι} (run : ApartRun E cid w₀ w)
    (h : Journal cid w₀) : Journal cid w := by
  induction run with
  | refl => exact h
  | step _ ha hs ih => exact ih.step ha hs

/-- A statement served at time `t`. -/
def commitAt [DecidableEq ι] (cid : String) (w : Writers ι) (i : ι) (c : WriteCall) (t : Time) :
    Writers ι :=
  { w with
    db := (c.statement.apply w.db t).2
    guarding := Function.update w.guarding i none
    pending := w.pending ++
      ((c.announcement w.db (c.statement.apply w.db t).1).map fun a => (i, a)).toList
    committed := w.committed ++ transition cid w.db (c.statement.apply w.db t).2 }

theorem commitAt_step [DecidableEq ι] {i : ι} (t : Time) (hfree : w.Free i)
    (hready : w.Ready i c) :
    Step E cid w (.commit i c (c.statement.apply w.db t).1 (c.statement.apply w.db t).2)
      (w.commitAt cid i c t) := by
  refine .commit hfree hready (.inl ?_)
  cases c <;> exact ⟨t, rfl⟩

/-- The `n`-th of the unpublished announcements goes out. -/
def publishAt (w : Writers ι) (n : Nat) (now : Time) : Writers ι :=
  (w.pending[n]?).elim w fun x =>
    { w with
      hub := w.hub.announce x.2 now
      pending := w.pending.eraseIdx n
      published := w.published ++ [w.hub.announced x.2 now] }

theorem publishAt_step [DecidableEq ι] {n : Nat} {x : ι × Announcement}
    (hx : w.pending[n]? = some x) (now : Time) :
    Step E cid w (.publish (w.pending.take n) x.1 x.2 now) (w.publishAt n now) := by
  obtain ⟨hn, hget⟩ := List.getElem?_eq_some_iff.mp hx
  have hsplit : w.pending = w.pending.take n ++ (x.1, x.2) :: w.pending.drop (n + 1) := by
    rw [← hget, List.getElem_cons_drop, List.take_append_drop]
  rw [publishAt, hx, Option.elim_some, List.eraseIdx_eq_take_drop_succ]
  exact .publish hsplit

/-- The next move is one of the writers'. -/
def Next [DecidableEq ι] (E : Env) (cid : String) (w w' : Writers ι) : Prop :=
  ∃ m, Step E cid w m w'

def noWriters : Writers Bool where
  db := .empty
  hub := { ringBufferSize := 1024, subscriberQueueSize := 256 }

/-- A submit has inserted the order. -/
def insertedWriters : Writers Bool :=
  noWriters.commitAt cidA true (.insertOrder (sampleOrderA .sim) none) 0

/-- It has published that and acked the order. -/
def ackedWriters : Writers Bool :=
  (insertedWriters.publishAt 0 0).commitAt cidA true (.ackOrder cidA "V1") 0

def ackedRow : OrderRow :=
  { Db.newRow (sampleOrderA .sim).toOrderFields none 0 with
    status := .new, brokerOrderId := some "V1" }

/-- A cancel has read the row. -/
def readingWriters : Writers Bool :=
  { ackedWriters with
    guarding := Function.update ackedWriters.guarding false (some (ackedRow, .pendingCancel)) }

/-- It has put the order in PENDING_CANCEL; neither has published since. -/
def crossedWriters : Writers Bool :=
  readingWriters.commitAt cidA false (.updateStatus ackedRow .pendingCancel) 0

/-- The cancel publishes first. -/
def crossedStream : Writers Bool := (crossedWriters.publishAt 1 0).publishAt 0 0

theorem crossed_next : Relation.ReflTransGen (Next plainEnv cidA) noWriters crossedStream := by
  have insert : Next plainEnv cidA noWriters insertedWriters :=
    ⟨_, commitAt_step 0 (by decide) rfl⟩
  have birth : Next plainEnv cidA insertedWriters (insertedWriters.publishAt 0 0) :=
    ⟨_, publishAt_step rfl 0⟩
  have ack : Next plainEnv cidA (insertedWriters.publishAt 0 0) ackedWriters :=
    ⟨_, commitAt_step 0 (by decide +kernel) rfl⟩
  have read : Next plainEnv cidA ackedWriters readingWriters :=
    ⟨_, .read (by decide +kernel) (by decide +kernel) (by decide) rfl⟩
  have write : Next plainEnv cidA readingWriters crossedWriters :=
    ⟨_, commitAt_step 0 (by decide +kernel) rfl⟩
  have cancelSaid : Next plainEnv cidA crossedWriters (crossedWriters.publishAt 1 0) :=
    ⟨_, publishAt_step rfl 0⟩
  have ackSaid : Next plainEnv cidA (crossedWriters.publishAt 1 0) crossedStream :=
    ⟨_, publishAt_step rfl 0⟩
  exact (((((Relation.ReflTransGen.single insert).tail birth).tail ack).tail read).tail write).tail
    cancelSaid |>.tail ackSaid

inductive Party
  | submit
  | pass
  | cancel
  deriving DecidableEq

def emptyWriters : Writers Party where
  db := .empty
  hub := { ringBufferSize := 1024, subscriberQueueSize := 256 }

def newWriters : Writers Party :=
  emptyWriters.commitAt cidA .submit (.insertOrder (sampleOrderA .sim) none) 0

/-- The submit has published the insert and acked the order. -/
def numberedWriters : Writers Party :=
  (newWriters.publishAt 0 0).commitAt cidA .submit (.ackOrder cidA "V1") 0

/-- The cancel reads the row before the ack is published. -/
def sharedWriters : Writers Party :=
  { numberedWriters with
    guarding := Function.update numberedWriters.guarding .cancel (some (ackedRow, .pendingCancel)) }

/-- The ack is published; the submit and the pass have each recorded a fill. -/
def filledWriters : Writers Party :=
  ((sharedWriters.publishAt 0 0).commitAt cidA .submit (.applyFill cidA "f1" ⟨10, 0⟩ 30 0 100)
    0).commitAt cidA .pass (.applyFill cidA "f2" ⟨10, 0⟩ 20 0 100) 0

/-- The pass publishes its fill first, then the submit; the cancel writes the status it has read
    the row for, and publishes. -/
def cancelledWriters : Writers Party :=
  (((filledWriters.publishAt 1 0).publishAt 0 0).commitAt cidA .cancel
    (.updateStatus ackedRow .pendingCancel) 0).publishAt 0 0

theorem ApartRun.commit [DecidableEq ι] {w₀ : Writers ι} {i : ι} {t : Time}
    (run : ApartRun E cid w₀ w) (hfree : w.Free i) (hready : w.Ready i c)
    (ha : w.Apart cid (.commit i c (c.statement.apply w.db t).1 (c.statement.apply w.db t).2)) :
    ApartRun E cid w₀ (w.commitAt cid i c t) :=
  run.step ha (commitAt_step t hfree hready)

theorem ApartRun.publish [DecidableEq ι] {w₀ : Writers ι} {n : Nat} {x : ι × Announcement}
    {now : Time} (run : ApartRun E cid w₀ w) (hx : w.pending[n]? = some x) :
    ApartRun E cid w₀ (w.publishAt n now) :=
  run.step (m := .publish (w.pending.take n) x.1 x.2 now) trivial (publishAt_step hx now)

end Writers

end ExecutionEngine
