/-
  A submit whose order the venue has accepted.

  After `adapter.place` the router settles the ack in several statements, each of
  which the store refuses if the order has moved on meanwhile, and a reconcile
  pass can move it between any two of them. `accepted_submit_fails` is a run in
  which a pass acks the order first: the router's own ack is refused and the
  exception reaches the caller, for an order that is live at the venue.

  `Unhindered` says who may write the order until the submit returns. Up to the
  venue's answer nobody else, if it carries a number; then nobody may take the
  order out of the `phase` the settling is in: waiting for its ack, taking fills,
  or with the cancel of its remainder under way. That every statement meets the
  order where it needs it is `Poised`, an invariant carried through the settling,
  and `accepted_submit_settles` says that in every such run an accepted submit does
  not fail, records every fill of the ack, and the order keeps the number that was
  written first.
-/
import ExecutionEngine.Core.Resolution
import ExecutionEngine.Core.Overfill
import ExecutionEngine.Core.Responses

namespace ExecutionEngine

open Async Async.Prog StateMachine

/-- Store calls do not fail, and clock and timer answer. -/
structure Env.Sturdy (E : Env) : Prop where
  store : ¬ E.storeFails
  now : ∀ db r, E.allows db .now r → ∃ t, r = .ok t
  sleep : ∀ db d r, E.allows db (.sleep d) r → r = .ok ()

/-- The acks of a history with which the venue has accepted an order. -/
def accepted (h : History) : List PlaceAck :=
  h.filterMap fun
    | ⟨.ext (.place _ _), .ok ack⟩ => if ack.rejected then none else some ack
    | _ => none

/-! ## How far the settling has come -/

/-- What of the settling is in a history: its ack, how many fills, and the two updates of a
    cancelled remainder. -/
structure Progress where
  acked : Bool
  fills : Nat
  cancelling : Bool
  cancelled : Bool

def isAckOf (cid : String) : EngineOp → Bool
  | .store (.ackOrder c _) => c = cid
  | _ => false

def isStatusOf (cid : String) (s : OrderState) : EngineOp → Bool
  | .store (.writeStatus c s') => c = cid && s' = s
  | _ => false

def progress (cid : String) (h : History) : Progress where
  acked := h.any fun ev => isAckOf cid ev.op
  fills := h.countP fun ev => isFillOf cid ev.op
  cancelling := h.any fun ev => isStatusOf cid .pendingCancel ev.op
  cancelled := h.any fun ev => isStatusOf cid .cancelled ev.op

/-- What the order waits for while it is settled: its ack, fills, or the end of its cancel. -/
inductive Phase where
  | waiting
  | filling
  | cancelling

/-- Where the next statement of the settling finds an order in this phase. One that is filled may
    take a fill still, but not the cancel of a remainder. -/
def Phase.has (total : Int) (remainder : Bool) : Phase → Entry → Bool
  | .waiting, e => e.row.status = .pendingNew
  | .filling, e => e.row.status = .new || e.row.status = .partiallyFilled ||
      !remainder && e.row.status = .filled && total ≤ e.filled
  | .cancelling, e => e.row.status = .pendingCancel

/-- The phase in which an ack with this much done leaves the order, until there is no more to do. -/
def Progress.phase (ack : PlaceAck) (p : Progress) : Option Phase :=
  if !p.acked then some .waiting
  else if p.fills < ack.fills.length then some .filling
  else if !ack.remainderCancelled || p.cancelled then none
  else if p.cancelling then some .cancelling
  else some .filling

def InPhase (o : NormalizedOrder) (ack : PlaceAck) (db : Db) (ph : Phase) : Prop :=
  (db.find o.clientOrderId).any (ph.has o.quantity ack.remainderCancelled) = true

instance (o : NormalizedOrder) (ack : PlaceAck) (db : Db) (ph : Phase) :
    Decidable (InPhase o ack db ph) :=
  inferInstanceAs (Decidable (_ = _))

/-! ## Who writes the order -/

/-- A write of this order that was answered: an ack, a fill, a status or a replacement. -/
def isWriteOf (cid : String) : Event engineSig → Bool
  | ⟨.store (.ackOrder c _), .ok _⟩ => c = cid
  | ⟨.store (.applyFill c _ _ _ _ _), .ok _⟩ => c = cid
  | ⟨.store (.writeStatus c _), .ok _⟩ => c = cid
  | ⟨.store (.replaceOrder c _ _), .ok _⟩ => c = cid
  | _ => false

/-- Another coroutine does not take the order out of the phase in which its settling is. -/
def LeavesPhase (o : NormalizedOrder) (h : History) (db db' : Db) : Prop :=
  ∀ ack ∈ accepted h, ack.brokerOrderId.isSome = true →
    ∀ ph ∈ (progress o.clientOrderId h).phase ack, InPhase o ack db ph → InPhase o ack db' ph

instance (o : NormalizedOrder) (h : History) (db db' : Db) : Decidable (LeavesPhase o h db db') :=
  inferInstanceAs (Decidable (∀ _ ∈ _, _))

/-- A fill the fills table can hold. -/
def recordable (f : FillReport) : Bool :=
  f.price.numeric.isPos && f.price.fitsNumeric && f.quantity < 2 ^ 63

/-- A step of the submit itself. An ack without a number carries no fills; one with a number comes
    while the order is still `free`, with fills the table can hold. Where a remainder is cancelled,
    each fill leaves some of it, and the cancel is answered. -/
def ownStep (o : NormalizedOrder) (free : Bool) (h : History) (db : Db) : Event engineSig → Bool
  | ⟨.ext (.place _ _), .ok ack⟩ => ack.rejected || match ack.brokerOrderId with
    | none => ack.fills.isEmpty
    | some _ => free && ack.fills.all recordable
  | ⟨.ext (.cancel _ _), .error _⟩ => false
  | ⟨.store (.applyFill _ _ _ qty _ _), _⟩ => (accepted h).all fun ack =>
    !(ack.brokerOrderId.isSome && ack.remainderCancelled) ||
      filledAt o.clientOrderId db + qty < o.quantity
  | _ => true

/-- A step of a run in which the settling of thread `i`, a submit of `o`, is not hindered. -/
def Unhindered {ι : Type} [DecidableEq ι] (i : ι) (o : NormalizedOrder)
    (tr : List (ι × Event engineSig)) (db : Db) (j : ι) (ev : Event engineSig) (db' : Db) : Prop :=
  if j = i then
    ownStep o (tr.all fun x => x.1 = i || !isWriteOf o.clientOrderId x.2) (localHistory i tr) db ev
      = true
  else LeavesPhase o (localHistory i tr) db db'

instance {ι : Type} [DecidableEq ι] (i : ι) (o : NormalizedOrder)
    (tr : List (ι × Event engineSig)) (db : Db) (j : ι) (ev : Event engineSig) (db' : Db) :
    Decidable (Unhindered i o tr db j ev db') :=
  inferInstanceAs (Decidable (ite _ _ _))

/-- Rows and recorded fills stay. -/
structure Records (db db' : Db) : Prop where
  stays : ∀ cid, (db.find cid).isSome = true → (db'.find cid).isSome = true
  named : ∀ cid fid, Named cid fid db → Named cid fid db'

instance : IsPreorder Db Records where
  refl _ := ⟨fun _ h => h, fun _ _ h => h⟩
  trans _ _ _ h h' := ⟨fun cid x => h'.stays cid (h.stays cid x),
    fun cid fid x => h'.named cid fid (h.named cid fid x)⟩

theorem step_records {E : Env} {db db' : Db} {op : EngineOp} {r : Except Exn op.Res}
    (h : (sem E).step db op r db') : Records db db' := by
  refine ⟨fun cid hs => step_find_isSome h hs, fun cid fid hn => ?_⟩
  rcases step_filledAt h cid with ⟨-, hsame⟩ | ⟨_, _, _, _, _, _, _, _, _, hsame⟩
  · exact hsame fid hn
  · exact hsame fid hn

/-- What a submit relies on of the others. -/
structure Relied (o : NormalizedOrder) (h : History) (db db' : Db) : Prop
    extends Records db db' where
  leaves : LeavesPhase o h db db'

instance (o : NormalizedOrder) (h : History) : IsPreorder Db (Relied o h) where
  refl s := ⟨refl_of Records s, fun _ _ _ _ _ hin => hin⟩
  trans _ _ _ h h' := ⟨trans_of Records h.toRecords h'.toRecords,
    fun ack ha hno ph hph hin => h'.leaves ack ha hno ph hph (h.leaves ack ha hno ph hph hin)⟩

/-! ## A row nobody has written -/

/-- Inserted by this coroutine, which has not written it since. -/
def untouched (cid : String) (h : History) : Bool :=
  h.any (isInsertOf cid) && h.all fun ev => !isWriteOf cid ev

/-- PENDING_NEW. -/
def waits (cid : String) (db : Db) : Bool :=
  (db.find cid).any fun e => e.row.status = .pendingNew

/-- A statement that moves a status is answered, over a store that does not fail. -/
theorem served_moved {db db' : Db} {so : StoreOp} {r : Except Exn so.Res} {e e' : Entry}
    (h : so.Served db r db') (he : db.find e.row.clientOrderId = some e)
    (hc : Change so e e') (he' : db'.find e.row.clientOrderId = some e') :
    isWriteOf e.row.clientOrderId ⟨.store so, r⟩ = true ∨ e'.row.status = e.row.status := by
  have hstay {s' : Db} (hs : s'.find e.row.clientOrderId = some e') (hdb : s' = db) :
      e'.row.status = e.row.status := by
    rw [hdb, he] at hs
    rw [Option.some.inj hs]
  cases hc with
  | ack no =>
    obtain ⟨t, ht⟩ := h
    change db.ackOrder _ no = _ at ht
    rcases Db.ackOrder_cases db e.row.clientOrderId no with ⟨_, _, _, hd⟩ | ⟨x, hd⟩
    · obtain ⟨rfl, -⟩ := Prod.mk.inj (hd.symm.trans ht)
      exact .inl (decide_eq_true rfl)
    · exact .inr (hstay he' (Prod.mk.inj (hd.symm.trans ht)).2.symm)
  | replace p q =>
    obtain ⟨t, ht⟩ := h
    change db.replaceOrder _ p q = _ at ht
    rcases Db.replaceOrder_cases db e.row.clientOrderId p q with ⟨_, _, _, _, _, _, hd⟩ | ⟨x, hd⟩
    · obtain ⟨rfl, -⟩ := Prod.mk.inj (hd.symm.trans ht)
      exact .inl (decide_eq_true rfl)
    · exact .inr (hstay he' (Prod.mk.inj (hd.symm.trans ht)).2.symm)
  | @status _ s =>
    obtain ⟨t, ht⟩ := h
    change db.writeStatus _ s = _ at ht
    rcases Db.writeStatus_cases db e.row.clientOrderId s with ⟨_, _, _, hd⟩ | ⟨x, hd⟩
    · obtain ⟨rfl, -⟩ := Prod.mk.inj (hd.symm.trans ht)
      exact .inl (decide_eq_true rfl)
    · exact .inr (hstay he' (Prod.mk.inj (hd.symm.trans ht)).2.symm)
  | reason => exact .inr rfl
  | @fill _ f price total =>
    obtain ⟨t, ht⟩ := h
    change db.applyFill _ f.brokerFillId price f.quantity f.execTs total = _ at ht
    rcases Db.applyFill_cases db e.row.clientOrderId f.brokerFillId price f.quantity f.execTs total
      with ⟨_, _, _, _, _, _, _, _, hd⟩ | ⟨x, hd⟩
    · obtain ⟨rfl, -⟩ := Prod.mk.inj (hd.symm.trans ht)
      exact .inl (decide_eq_true rfl)
    · exact .inr (hstay he' (Prod.mk.inj (hd.symm.trans ht)).2.symm)

/-- Inserted and written by nobody, it is in PENDING_NEW still. -/
theorem waits_of_unwritten {ι : Type} [DecidableEq ι] {E : Env} (hE : ¬ E.storeFails)
    {requests : ι → Request} {db₀ : Db} {P : Pool engineSig Db ι} {cid : String}
    (hP : PoolReach (sem E) closed (engine requests db₀) P)
    (hins : ∃ x ∈ P.trace, isInsertOf cid x.2 = true)
    (hfree : ∀ x ∈ P.trace, isWriteOf cid x.2 = false) : waits cid P.state = true := by
  refine pool_invariant (I := fun s (tr : List (ι × Event engineSig)) =>
    (∃ x ∈ tr, isInsertOf cid x.2 = true) → (∀ x ∈ tr, isWriteOf cid x.2 = false) →
      waits cid s = true) ?_ (fun s tr i op r s' ih hs hins hfree => ?_)
    (fun _ _ _ _ h => h.elim) hP hins hfree
  · rintro ⟨x, hx, -⟩
    cases hx
  · obtain ⟨x, hx, hxi⟩ := hins
    rcases List.mem_append.mp hx with hold | hnew
    · have hwait := ih ⟨x, hold, hxi⟩ fun y hy => hfree y (List.mem_append_left _ hy)
      obtain ⟨e, he, hnew⟩ := (Option.any_eq_true _ _).mp hwait
      obtain ⟨e', he', rfl | ⟨so, rfl, rfl, hc⟩⟩ := step_entry hs he
      · exact (Option.any_eq_true _ _).mpr ⟨_, he', hnew⟩
      · have hserved := hs.resolve_right fun hf => hE hf.1
        rcases served_moved hserved he hc he' with hw | hsame
        · exact absurd hw (by simp [hfree _ (List.mem_append_right _ (List.mem_singleton_self _))])
        · exact (Option.any_eq_true _ _).mpr ⟨e', he', by rw [hsame]; exact hnew⟩
    · -- the insert itself
      obtain rfl := List.mem_singleton.mp hnew
      obtain ⟨ord, sid, rfl, heq⟩ := isInsertOf_iff.mp hxi
      obtain ⟨rfl, hr⟩ := Event.mk.inj heq
      obtain rfl := eq_of_heq hr
      obtain ⟨-, t, e, he, -, hrow⟩ := step_insert_ok hs
      exact (Option.any_eq_true _ _).mpr ⟨e, he, by rw [hrow]; rfl⟩

/-! ## Before the venue has answered -/

section Submitting

variable {α β : Type} {E : Env} {o : NormalizedOrder} {cid : String} {x : World}

/-- What a submit's coroutine assumes of its own steps: the order is free where nobody has written
    it, and an order it has inserted and not written is then in PENDING_NEW. -/
def Own (o : NormalizedOrder) (h : History) (db : Db) (op : EngineOp) (r : Except Exn op.Res) :
    Prop :=
  ownStep o (!untouched o.clientOrderId h || waits o.clientOrderId db) h db ⟨op, r⟩ = true

/-- The guarantee of a submit's coroutine under the assumption on its own steps. -/
abbrev Submitting (E : Env) (o : NormalizedOrder) (p : Eff α) (Q : Except Exn α → World → Prop)
    (x : World) : Prop :=
  wp ((sem E).amongWhere (Relied o) (Own o)) (fun _ _ => True) p Q x

/-- Any operation that neither reaches the venue nor writes an order that is there. -/
def Unwriting : EngineOp → Prop
  | .ext (.place _ _) | .ext (.cancel _ _) => False
  | .store (.ackOrder _ _) | .store (.applyFill _ _ _ _ _ _) => False
  | .store (.writeStatus _ _) | .store (.replaceOrder _ _ _) => False
  | _ => True

theorem Probe.unwriting {op : EngineOp} (h : Probe op) : Unwriting op := by
  rcases op with so | eo <;> [cases so; cases eo] <;> first | exact h | trivial

/-- Nothing has been accepted, and the order not been written. -/
def Idle (x : World) : Prop := accepted x.2 = [] ∧ ∀ ev ∈ x.2, Unwriting ev.op

theorem accepted_append (h t : History) : accepted (h ++ t) = accepted h ++ accepted t :=
  List.filterMap_append

theorem accepted_snoc {h : History} {op : EngineOp} {r : Except Exn op.Res}
    (hop : isPlace op = false) : accepted (h ++ [⟨op, r⟩]) = accepted h := by
  have hnone : accepted [⟨op, r⟩] = [] := by
    rcases op with so | eo
    · rfl
    · cases eo <;> first | rfl | cases hop
  rw [accepted_append, hnone, List.append_nil]

theorem Quiet.not_place {op : EngineOp} (hq : Quiet op) : isPlace op = false := by
  rcases op with so | eo
  · rfl
  · cases eo <;> first | rfl | exact hq.elim

theorem Unwriting.not_place {op : EngineOp} (hq : Unwriting op) : isPlace op = false := by
  rcases op with so | eo
  · rfl
  · cases eo <;> first | rfl | exact hq.elim

theorem Idle.snoc {s s' : Db} {h : History} (hx : Idle (s, h)) {op : EngineOp}
    (hq : Unwriting op) (r : Except Exn op.Res) : Idle (s', h ++ [⟨op, r⟩]) := by
  refine ⟨(accepted_snoc hq.not_place).trans hx.1, fun ev hev => ?_⟩
  rcases List.mem_append.mp hev with hold | hnew
  · exact hx.2 ev hold
  · rw [List.mem_singleton.mp hnew]
    exact hq

theorem Idle.not_write (hx : Idle x) : (x.2.all fun ev => !isWriteOf cid ev) = true := by
  refine List.all_eq_true.mpr fun ev hev => ?_
  have hfree := hx.2 ev hev
  obtain ⟨op, r⟩ := ev
  rcases op with so | eo
  · cases so <;> first | exact hfree.elim | rfl
  · rfl

/-- Nothing of a settling has been done. -/
theorem Idle.progress (hx : Idle x) : progress cid x.2 = ⟨false, 0, false, false⟩ := by
  have hno {f : EngineOp → Bool} (hf : ∀ op, Unwriting op → f op = false) :
      (x.2.any fun ev => f ev.op) = false :=
    List.any_eq_false.mpr fun ev hev => by simp [hf _ (hx.2 ev hev)]
  have hcount : (x.2.countP fun ev => isFillOf cid ev.op) = 0 := by
    refine List.countP_eq_zero.mpr fun ev hev => ?_
    have hfree := hx.2 ev hev
    obtain ⟨op, r⟩ := ev
    rcases op with so | eo
    · cases so <;> first | exact hfree.elim | exact Bool.false_ne_true
    · exact Bool.false_ne_true
  have hstatus (s : OrderState) (op : EngineOp) (h : Unwriting op) :
      isStatusOf cid s op = false := by
    rcases op with so | eo
    · cases so <;> first | exact h.elim | rfl
    · rfl
  have hack (op : EngineOp) (h : Unwriting op) : isAckOf cid op = false := by
    rcases op with so | eo
    · cases so <;> first | exact h.elim | rfl
    · rfl
  simp only [ExecutionEngine.progress, hno hack, hno (hstatus _), hcount]

theorem idle_unwriting {p : Eff α} (hp : Uses Unwriting p) (hx : Idle x) :
    Submitting E o p (fun _ y => Idle y) x :=
  hp.amongWhere hx (fun _ _ _ _ h => h) fun _ _ r _ _ hop hi _ => hi.snoc hop r

theorem submitting_stored (p : Eff α) (hx : (x.1.find cid).isSome = true) :
    Submitting E o p (fun _ y => (y.1.find cid).isSome = true) x :=
  (uses_univ p).amongWhere (I := fun y => (y.1.find cid).isSome = true) hx
    (fun _ _ _ hr h => hr.stays cid h) fun _ _ _ _ _ _ h hs => step_find_isSome hs h

/-! ## Once it has accepted -/

/-- The venue has accepted with this ack alone; the order is there, with these fills recorded. -/
structure Live (cid : String) (ack : PlaceAck) (ids : List String) (x : World) : Prop where
  stored : (x.1.find cid).isSome = true
  accepted : accepted x.2 = [ack]
  recorded : ∀ fid ∈ ids, Named cid fid x.1

variable {ack : PlaceAck} {ids : List String}

theorem Live.rely {s s' : Db} {h : History} (hl : Live cid ack ids (s, h))
    (hr : Records s s') : Live cid ack ids (s', h) where
  stored := hr.stays cid hl.stored
  accepted := hl.accepted
  recorded fid hf := hr.named cid fid (hl.recorded fid hf)

theorem Live.snoc {s s' : Db} {h : History} {op : EngineOp} {r : Except Exn op.Res}
    (hl : Live cid ack ids (s, h)) (hop : isPlace op = false) (hs : (sem E).step s op r s') :
    Live cid ack ids (s', h ++ [⟨op, r⟩]) :=
  have hr := hl.rely (step_records hs)
  { stored := hr.stored
    accepted := (accepted_snoc hop).trans hr.accepted
    recorded := hr.recorded }

theorem live_quiet {p : Eff α} (hp : Uses Quiet p) (hx : Live cid ack ids x) :
    Submitting E o p (fun _ y => Live cid ack ids y) x :=
  hp.amongWhere hx (fun _ _ _ hr hl => hl.rely hr.toRecords)
    fun _ _ _ _ _ hop hl hs => hl.snoc hop.not_place hs

/-- A quiet operation that is answered. -/
theorem live_perform {op : EngineOp} {J : op.Res → Db → Prop} (hq : Quiet op)
    (hx : Live cid ack ids x)
    (hgood : ∀ s₁ r s', (s₁.find cid).isSome = true → (sem E).step s₁ op r s' →
      ∃ a, r = .ok a ∧ J a s') :
    Submitting E o (Prog.perform (S := engineSig) op)
      (outcome (fun a y => Live cid ack ids y ∧ J a y.1) fun _ _ => False) x := by
  obtain ⟨s, h⟩ := x
  refine wp_amongWhere_perform fun s₁ r s' hr _ hs => ?_
  have hl := hx.rely hr.toRecords
  obtain ⟨a, rfl, hJ⟩ := hgood s₁ r s' hl.stored hs
  exact ⟨hl.snoc hq.not_place hs, hJ⟩

theorem sturdy_served (hE : E.Sturdy) {db db' : Db} {so : StoreOp} {r : Except Exn so.Res}
    (h : (sem E).step db (.store so) r db') : so.Served db r db' :=
  h.resolve_right fun hf => hE.store hf.1

/-! ### The settling of an ack with a number -/

/-- It has come this far, and the order is in the phase that goes with it. -/
structure Poised (o : NormalizedOrder) (ack : PlaceAck) (ids : List String) (p : Progress)
    (x : World) : Prop extends Live o.clientOrderId ack ids x where
  numbered : ack.brokerOrderId.isSome = true
  progress : progress o.clientOrderId x.2 = p
  stands : ∀ ph ∈ p.phase ack, InPhase o ack x.1 ph

variable {p q : Progress}

theorem Poised.rely {s s' : Db} {h : History} (hx : Poised o ack ids p (s, h))
    (hr : Relied o h s s') : Poised o ack ids p (s', h) where
  toLive := hx.toLive.rely hr.toRecords
  numbered := hx.numbered
  progress := hx.progress
  stands ph hph :=
    hr.leaves ack (by rw [hx.accepted]; exact List.mem_singleton_self ack) hx.numbered ph
      (by rw [hx.progress]; exact hph) (hx.stands ph hph)

/-- One more statement. -/
theorem Poised.snoc {s s' : Db} {h : History} {op : EngineOp} {r : Except Exn op.Res}
    (hx : Poised o ack ids p (s, h)) (hop : isPlace op = false) (hs : (sem E).step s op r s')
    (hp : ExecutionEngine.progress o.clientOrderId (h ++ [⟨op, r⟩]) = q)
    (hstands : ∀ ph ∈ q.phase ack, InPhase o ack s' ph) :
    Poised o ack ids q (s', h ++ [⟨op, r⟩]) where
  toLive := hx.toLive.snoc hop hs
  numbered := hx.numbered
  progress := hp
  stands := hstands

theorem inPhase_iff {db : Db} {ph : Phase} : InPhase o ack db ph ↔
    ∃ e, db.find o.clientOrderId = some e ∧ ph.has o.quantity ack.remainderCancelled e = true :=
  Option.any_eq_true _ _

/-- A statement that has written the order. -/
theorem Poised.wrote {s : Db} {h : History} {so so' : StoreOp} {r : Except Exn so.Res}
    {e e' : Entry} (hx : Poised o ack ids p (s, h)) (he : s.find o.clientOrderId = some e)
    (hc : Change so' e e') (hs : (sem E).step s (.store so) r (s.set e'))
    (hp : ExecutionEngine.progress o.clientOrderId (h ++ [⟨.store so, r⟩]) = q)
    (hhas : ∀ ph ∈ q.phase ack, ph.has o.quantity ack.remainderCancelled e' = true) :
    (s.set e').find o.clientOrderId = some e' ∧
      Poised o ack ids q (s.set e', h ++ [⟨.store so, r⟩]) := by
  have hkey := Db.find_key he
  have hfound : (s.set e').find o.clientOrderId = some e' := by
    rw [← hkey] at he ⊢
    rw [find_change hc he, if_pos rfl]
  exact ⟨hfound, hx.snoc rfl hs hp fun ph hph => inPhase_iff.mpr ⟨e', hfound, hhas ph hph⟩⟩

theorem progress_snoc (h : History) (ev : Event engineSig) :
    progress cid (h ++ [ev]) = ⟨(progress cid h).acked || isAckOf cid ev.op,
      (progress cid h).fills + (if isFillOf cid ev.op = true then 1 else 0),
      (progress cid h).cancelling || isStatusOf cid .pendingCancel ev.op,
      (progress cid h).cancelled || isStatusOf cid .cancelled ev.op⟩ := by
  simp [progress, List.countP_append, List.countP_cons]

/-- Acked, with the cancel not begun: the order takes fills, as long as there is more to do. -/
theorem filling_of {n : Nat} {ph : Phase} (h : ph ∈ (Progress.mk true n false false).phase ack) :
    ph = .filling := by
  have hph : Progress.phase ack ⟨true, n, false, false⟩ = some ph := h
  unfold Progress.phase at hph
  split at hph
  · rename_i hacked
    cases hacked
  · split at hph
    · exact (Option.some.inj hph).symm
    · split at hph
      · cases hph
      · split at hph
        · rename_i hcancelling
          cases hcancelling
        · exact (Option.some.inj hph).symm

/-- The ack. -/
theorem poised_ackOrder (hE : E.Sturdy) (no : String)
    (hx : Poised o ack ids ⟨false, 0, false, false⟩ x) :
    Submitting E o (Eff.store (.ackOrder o.clientOrderId no))
      (outcome (fun _ y => Poised o ack ids ⟨true, 0, false, false⟩ y) fun _ _ => False) x := by
  obtain ⟨s, h⟩ := x
  refine wp_amongWhere_perform fun s₁ r s' hr _ hs => ?_
  have hx₁ := hx.rely hr
  obtain ⟨e, he, hnew⟩ := inPhase_iff.mp (hx₁.stands .waiting rfl)
  have hnew : e.row.status = .pendingNew := of_decide_eq_true hnew
  obtain ⟨t, ht⟩ := sturdy_served hE hs
  change s₁.ackOrder _ no = _ at ht
  simp only [Db.ackOrder, he, hnew, if_true] at ht
  obtain ⟨rfl, rfl⟩ := Prod.mk.inj ht
  refine (hx₁.wrote he (.ack no hnew) hs ?_ fun ph hph => ?_).2
  · rw [progress_snoc, hx.progress]
    simp [isAckOf, isFillOf, isStatusOf]
  · rw [filling_of hph]
    rfl

/-- What takes a fill takes it legally, and takes the next one after it. -/
theorem fill_legal {e : Entry} {total : Int} {remainder : Bool} (f : FillRow)
    (h : Phase.filling.has total remainder e = true)
    (hleft : remainder = true → (Db.addFill e f).filled < total) :
    isLegal e.row.status (Db.fillTarget (Db.addFill e f) total) = true ∧
      Phase.filling.has total remainder
        (Db.withStatus (Db.addFill e f) (Db.fillTarget (Db.addFill e f) total)) = true := by
  have hle := filled_le_addFill e f
  simp only [Phase.has, Bool.or_eq_true, Bool.and_eq_true, Bool.not_eq_true', decide_eq_true_eq]
    at h
  unfold Db.fillTarget
  split
  · rename_i hfull
    have hrem : remainder = false := by
      by_contra hr
      have := hleft (by simpa using hr)
      omega
    refine ⟨?_, ?_⟩
    · rcases h with (hs | hs) | ⟨⟨-, hs⟩, -⟩ <;> rw [hs] <;> decide
    · rw [hrem]
      exact decide_eq_true hfull
  · rename_i hpart
    refine ⟨?_, by simp [Phase.has, Db.withStatus]⟩
    rcases h with (hs | hs) | ⟨-, hs⟩
    · rw [hs]; decide
    · rw [hs]; decide
    · omega

/-- One fill of the ack is recorded. -/
theorem poised_applyFill (hE : E.Sturdy) (f : FillReport) (hf : recordable f = true) {k : Nat}
    (hk : k < ack.fills.length) (hx : Poised o ack ids ⟨true, k, false, false⟩ x) :
    Submitting E o (Router.applyFillReport o f)
      (outcome (fun _ y => Poised o ack (f.brokerFillId :: ids) ⟨true, k + 1, false, false⟩ y)
        fun _ _ => False) x := by
  unfold Router.applyFillReport
  refine wp_seq (I := fun _ y => Poised o ack (f.brokerFillId :: ids) ⟨true, k + 1, false, false⟩ y)
    ?_ fun _ y hy => hy
  obtain ⟨s, h⟩ := x
  refine wp_amongWhere_perform fun s₁ r s' hr hok hs => ?_
  have hx₁ := hx.rely hr
  obtain ⟨e, he, hfill⟩ := inPhase_iff.mp (hx₁.stands .filling (by simp [Progress.phase, hk]))
  have hleft : ack.remainderCancelled = true →
      (Db.addFill e ⟨f.brokerFillId, f.price.numeric, f.quantity, f.execTs, f.quantity_pos⟩).filled
        < o.quantity := by
    intro hrem
    have hroom := List.all_eq_true.mp hok ack
      (by rw [hx₁.accepted]; exact List.mem_singleton_self ack)
    rw [hx₁.numbered, hrem, filledAt_of_find he] at hroom
    have hroom : e.filled + f.quantity < o.quantity := of_decide_eq_true hroom
    exact lt_of_le_of_lt (addFill_filled e _).2 hroom
  obtain ⟨hlegal, hnext⟩ := fill_legal _ hfill hleft
  obtain ⟨t, ht⟩ := sturdy_served hE hs
  change s₁.applyFill _ _ _ _ _ _ = _ at ht
  have hfits : (f.price.numeric.isPos && f.price.fitsNumeric && decide (f.quantity < 2 ^ 63))
      = true := hf
  simp only [Db.applyFill, he, dif_pos f.quantity_pos, hfits, if_true] at ht
  rw [if_pos hlegal] at ht
  obtain ⟨rfl, rfl⟩ := Prod.mk.inj ht
  obtain ⟨hfound, hy⟩ := hx₁.wrote (q := ⟨true, k + 1, false, false⟩) he
    (.fill f.price rfl hlegal) hs
    (by rw [progress_snoc, hx.progress]; simp [isAckOf, isFillOf, isStatusOf])
    fun ph hph => by rw [filling_of hph]; exact hnext
  exact { hy with
    recorded := fun fid hfid => by
      rcases List.mem_cons.mp hfid with rfl | hfid
      · exact ⟨_, hfound, addFill_named.mpr (.inr rfl)⟩
      · exact hy.recorded fid hfid }

/-- And so are all of them. -/
theorem poised_applyFills (hE : E.Sturdy) (fills : List FillReport)
    (hf : ∀ f ∈ fills, recordable f = true) {k : Nat} (hk : k + fills.length = ack.fills.length)
    (hx : Poised o ack ids ⟨true, k, false, false⟩ x) :
    Submitting E o (forEach (Router.applyFillReport o) fills)
      (outcome (fun _ y => Poised o ack ((fills.map FillReport.brokerFillId).reverse ++ ids)
        ⟨true, ack.fills.length, false, false⟩ y) fun _ _ => False) x := by
  induction fills generalizing x ids k with
  | nil =>
    rw [← hk]
    exact hx
  | cons f fills ih =>
    rw [List.length_cons] at hk
    refine wp_seq (poised_applyFill hE f (hf f List.mem_cons_self) (by omega) hx) fun _ y hy => ?_
    rw [List.map_cons, List.reverse_cons, List.append_assoc]
    exact ih (fun g hg => hf g (List.mem_cons_of_mem _ hg)) (by omega) hy

/-- A status update of a remainder's cancel, from the phase that goes before it. -/
theorem poised_updateStatus (hE : E.Sturdy) {s : OrderState} (ph : Phase)
    (hph : p.phase ack = some ph)
    (hfrom : ∀ e, ph.has o.quantity ack.remainderCancelled e = true →
      e.row.status ≠ s ∧ isLegal e.row.status s = true)
    (hp : ∀ h r, progress o.clientOrderId h = p → ExecutionEngine.progress o.clientOrderId
      (h ++ [⟨.store (.writeStatus o.clientOrderId s), r⟩]) = q)
    (hto : ∀ e : Entry, ∀ ph' ∈ q.phase ack,
      ph'.has o.quantity ack.remainderCancelled (Db.withStatus e s) = true)
    (hx : Poised o ack ids p x) :
    Submitting E o (updateStatus o.clientOrderId s)
      (outcome (fun _ y => Poised o ack ids q y) fun _ _ => False) x := by
  unfold updateStatus
  refine wp_seq (I := fun row y => Poised o ack ids p y ∧ ∃ e : Entry, row = some e.row ∧
    e.row.status ≠ s ∧ isLegal e.row.status s = true) ?_ fun row y hy => ?_
  · obtain ⟨db, h⟩ := x
    refine wp_amongWhere_perform fun s₁ r s' hr _ hs => ?_
    have hx₁ := hx.rely hr
    obtain ⟨e, he, hhas⟩ := inPhase_iff.mp (hx₁.stands ph hph)
    obtain ⟨t, ht⟩ := sturdy_served hE hs
    change (Except.ok (s₁.fetchOrder o.clientOrderId), s₁) = _ at ht
    obtain ⟨rfl, rfl⟩ := Prod.mk.inj ht
    refine ⟨hx₁.snoc rfl hs ?_ hx₁.stands, e, fetchOrder_of_find he, hfrom e hhas⟩
    rw [progress_snoc, hx.progress]
    simp [isAckOf, isFillOf, isStatusOf]
  · obtain ⟨hy, e, rfl, hne, hlegal⟩ := hy
    dsimp only
    rw [if_neg hne, if_pos hlegal]
    obtain ⟨db, h⟩ := y
    refine wp_amongWhere_perform fun s₁ r s' hr _ hs => ?_
    have hx₁ := hy.rely hr
    obtain ⟨e₁, he₁, hhas⟩ := inPhase_iff.mp (hx₁.stands ph hph)
    have hlegal₁ := (hfrom e₁ hhas).2
    obtain ⟨t, ht⟩ := sturdy_served hE hs
    change s₁.writeStatus _ s = _ at ht
    simp only [Db.writeStatus, he₁, hlegal₁, if_true] at ht
    obtain ⟨rfl, rfl⟩ := Prod.mk.inj ht
    exact (hx₁.wrote he₁ (.status hlegal₁) hs (hp _ _ hy.progress) (hto e₁)).2

/-- The remainder's cancel is sent, and answered. -/
theorem poised_cancel (a : AdapterId) (hx : Poised o ack ids p x) :
    Submitting E o (Eff.ext (.cancel a o.clientOrderId))
      (outcome (fun _ y => Poised o ack ids p y) fun _ _ => False) x := by
  obtain ⟨s, h⟩ := x
  refine wp_amongWhere_perform fun s₁ r s' hr hok hs => ?_
  have hx₁ := hx.rely hr
  cases r with
  | error e => exact Bool.false_ne_true hok
  | ok c =>
    refine hx₁.snoc rfl hs ?_ fun ph hph => ?_
    · rw [progress_snoc, hx.progress]
      simp [isAckOf, isFillOf, isStatusOf]
    · rw [(step_ext hs).1]
      exact hx₁.stands ph hph

/-- The settling of an ack with a number does not fail, and records its fills. -/
theorem poised_settle (hE : E.Sturdy) (a : AdapterId) (no : String)
    (hf : ∀ f ∈ ack.fills, recordable f = true)
    (hx : Poised o ack [] ⟨false, 0, false, false⟩ x) :
    Submitting E o (Router.settle a o no ack)
      (outcome (fun _ y => Live o.clientOrderId ack
        (ack.fills.map FillReport.brokerFillId).reverse y) fun _ _ => False) x := by
  unfold Router.settle
  refine wp_seq (poised_ackOrder hE no hx) fun _ y₁ h₁ => ?_
  refine wp_seq (poised_applyFills hE ack.fills hf (Nat.zero_add _) h₁) fun _ y₂ h₂ => ?_
  rw [List.append_nil] at h₂
  split
  · rename_i hrem
    refine wp_seq (poised_updateStatus (q := ⟨true, ack.fills.length, true, false⟩)
      hE .filling ?_ ?_ ?_ ?_ h₂) fun _ y₃ h₃ => ?_
    · simp [Progress.phase, hrem]
    · intro e he
      simp only [Phase.has, hrem, Bool.not_true, Bool.false_and, Bool.or_false, Bool.or_eq_true,
        decide_eq_true_eq] at he
      rcases he with he | he <;> rw [he] <;> decide
    · intro h r hh
      rw [progress_snoc, hh]
      simp [isAckOf, isFillOf, isStatusOf]
    · intro e ph' hph'
      have : Phase.cancelling = ph' := by simpa [Progress.phase, hrem] using hph'
      subst this
      rfl
    · refine wp_seq (poised_cancel a h₃) fun _ y₄ h₄ => ?_
      refine wp_seq (poised_updateStatus (q := ⟨true, ack.fills.length, true, true⟩)
        hE .cancelling ?_ ?_ ?_ ?_ h₄) fun _ y₅ h₅ => h₅.toLive
      · simp [Progress.phase, hrem]
      · intro e he
        rw [show e.row.status = .pendingCancel from of_decide_eq_true he]
        decide
      · intro h r hh
        rw [progress_snoc, hh]
        simp [isAckOf, isFillOf, isStatusOf]
      · intro e ph' hph'
        simp [Progress.phase, hrem] at hph'
  · exact h₂.toLive

/-! ### The recovery of a handle -/

theorem live_ext {eo : ExtOp} (hq : Quiet (.ext eo))
    (hans : ∀ db r, E.allows db eo r → ∃ a, r = .ok a) (hx : Live cid ack ids x) :
    Submitting E o (Eff.ext eo)
      (outcome (fun _ y => Live cid ack ids y ∧ True) fun _ _ => False) x :=
  live_perform (J := fun _ _ => True) hq hx fun s₁ r _ _ hs =>
    (hans s₁ r (step_ext hs).2).imp fun _ ha => ⟨ha, trivial⟩

theorem live_recoverHandle (hE : E.Sturdy) {resolve : Eff Bool} (hquiet : Uses Quiet resolve)
    (t cadence deadline : Time) (minPolls : Int) (fuel : Nat) (attempts : Int) (readOk : Bool)
    (hx : Live cid ack ids x) :
    Submitting E o
      (HandleRecovery.recoverHandle resolve t cadence deadline minPolls fuel attempts readOk)
      (outcome (fun _ y => Live cid ack ids y) fun _ _ => False) x := by
  induction fuel generalizing x attempts readOk with
  | zero => trivial
  | succ fuel ih =>
    unfold HandleRecovery.recoverHandle HandleRecovery.poll
    -- an attempt swallows every exception
    refine wp_seq (I := fun _ y => Live cid ack ids y) ?_ fun answer y₁ h₁ => ?_
    · refine wp_tryExcept.mpr (wp_bind.mpr (wp_mono (live_quiet hquiet hx) fun r y hy => ?_))
      cases r <;> exact hy
    · split
      · exact h₁
      · refine wp_seq (live_ext trivial (fun db r h => hE.now db r h) h₁) fun now y₂ h₂ => ?_
        split
        · exact h₂.1
        · refine wp_seq (live_ext trivial (fun db r h => ⟨(), hE.sleep db _ r h⟩) h₂.1)
            fun _ y₃ h₃ => ih _ _ h₃.1

/-! ### The whole submit -/

/-- Nothing was accepted, or the order is there with every fill of the ack. -/
def Landed (cid : String) (x : World) : Prop :=
  accepted x.2 = [] ∨ ∃ ack ids, Live cid ack ids x ∧
    ∀ f ∈ ack.fills, f.brokerFillId ∈ ids

theorem none_quiet {p : Eff α} (hp : Uses Quiet p) (hx : accepted x.2 = []) :
    Submitting E o p (fun _ y => accepted y.2 = []) x :=
  hp.amongWhere (I := fun y => accepted y.2 = []) hx (fun _ _ _ _ h => h)
    fun _ _ _ _ _ hop hi _ => (accepted_snoc hop.not_place).trans hi

theorem landed_quiet {p : Eff α} (hp : Uses Quiet p) (hx : Landed cid x) :
    Submitting E o p (fun _ y => Landed cid y) x := by
  rcases hx with hnone | ⟨ack, ids, hl, hf⟩
  · exact wp_mono (none_quiet hp hnone) fun _ _ h => .inl h
  · exact wp_mono (live_quiet hp hl) fun _ _ h => .inr ⟨ack, ids, h, hf⟩

/-- After a placement: nothing accepted, or live with this ack, and poised if it has a number. -/
theorem idle_place {a : AdapterId} (hx : Idle x)
    (hins : ∃ ev ∈ x.2, isInsertOf o.clientOrderId ev = true)
    (hrow : (x.1.find o.clientOrderId).isSome = true) :
    Submitting E o (Eff.ext (.place a o))
      (outcome (fun ack y => if ack.rejected = true then accepted y.2 = [] else
        Live o.clientOrderId ack [] y ∧ (ack.brokerOrderId = none → ack.fills = []) ∧
        (ack.brokerOrderId.isSome = true → Poised o ack [] ⟨false, 0, false, false⟩ y ∧
          ∀ f ∈ ack.fills, recordable f = true))
        fun _ y => accepted y.2 = []) x := by
  obtain ⟨s, h⟩ := x
  refine wp_amongWhere_perform fun s₁ r s' hr hok hs => ?_
  have hlast : accepted (h ++ [⟨.ext (.place a o), r⟩]) = accepted [⟨.ext (.place a o), r⟩] := by
    rw [accepted_append, show accepted h = [] from hx.1, List.nil_append]
  cases r with
  | error e => exact hlast
  | ok ack =>
    rw [outcome_ok]
    split
    · rename_i hrej
      exact hlast.trans (by simp [accepted, hrej])
    · rename_i hrej
      have hlive : Live o.clientOrderId ack [] (s', h ++ [⟨.ext (.place a o), .ok ack⟩]) :=
        ⟨step_find_isSome hs (hr.stays _ hrow), hlast.trans (by simp [accepted, hrej]),
          fun _ hf => nomatch hf⟩
      have hstep : (match ack.brokerOrderId with
          | none => ack.fills.isEmpty
          | some _ => (!untouched o.clientOrderId h || waits o.clientOrderId s₁) &&
            ack.fills.all recordable) = true :=
        (Bool.or_eq_true_iff.mp hok).resolve_left hrej
      refine ⟨hlive, fun hno => ?_, fun hno => ?_⟩
      · rw [hno] at hstep
        exact List.isEmpty_iff.mp hstep
      · obtain ⟨no, hno'⟩ := Option.isSome_iff_exists.mp hno
        rw [hno'] at hstep
        obtain ⟨hfree, hfills⟩ := Bool.and_eq_true_iff.mp hstep
        have huntouched : untouched o.clientOrderId h = true :=
          Bool.and_eq_true_iff.mpr ⟨List.any_eq_true.mpr hins, hx.not_write⟩
        have hwaits : waits o.clientOrderId s₁ = true := by simpa [huntouched] using hfree
        refine ⟨{ hlive with
          numbered := hno
          progress := ?_
          stands := fun ph hph => ?_ }, List.all_eq_true.mp hfills⟩
        · rw [progress_snoc, hx.progress]
          rfl
        · obtain rfl : Phase.waiting = ph := Option.some.inj hph
          change InPhase o ack s' .waiting
          rw [(step_ext hs).1]
          exact hwaits

theorem submitting_placeAndSettle (R : Router) (hE : E.Sturdy) (fuel : Nat) (a : AdapterId)
    (hx : Idle x) (hins : ∃ ev ∈ x.2, isInsertOf o.clientOrderId ev = true)
    (hrow : (x.1.find o.clientOrderId).isSome = true) :
    Submitting E o (R.placeAndSettle fuel a o)
      (outcome (fun _ y => Landed o.clientOrderId y) fun _ y => accepted y.2 = []) x := by
  unfold Router.placeAndSettle
  refine wp_seq (idle_place hx hins hrow) fun ack y₁ h₁ => ?_
  split
  · rename_i hrej
    rw [if_pos hrej] at h₁
    refine wp_mono (none_quiet ?_ h₁) fun r y hy => ?_
    · exact Uses.bind (uses_updateStatus trivial trivial) fun _ => (uses_store trivial).bind
        fun _ => uses_ret _
    · cases r with
      | ok _ => exact .inl hy
      | error _ => exact hy
  · rename_i hrej
    rw [if_neg hrej] at h₁
    obtain ⟨hl, hfills, hpoised⟩ := h₁
    split
    · rename_i hno
      have hnone {y : World} (h : Live o.clientOrderId ack [] y) : Landed o.clientOrderId y :=
        .inr ⟨ack, [], h, by rw [hfills hno]; simp⟩
      unfold Router.recoverHandle
      split
      · refine wp_seq_ok (live_perform (J := fun row _ => ∃ e : OrderRow, row = some e) trivial hl
          fun s₁ r s' hstored hs => ?_) fun row y₂ h₂ => ?_
        · obtain ⟨t, ht⟩ := sturdy_served hE hs
          obtain ⟨e, he⟩ := Option.isSome_iff_exists.mp hstored
          have hr : (.ok (s₁.fetchOrder o.clientOrderId) : Except Exn (Option OrderRow)) = r :=
            congrArg Prod.fst ht
          exact ⟨_, hr.symm, e.row, fetchOrder_of_find he⟩
        · obtain ⟨hl₂, e, rfl⟩ := h₂
          refine wp_mono (live_recoverHandle hE ((survey_resolveOrderNow _).mono
            fun _ => Survey.quiet) _ _ _ _ _ _ _ hl₂) fun r y hy => ?_
          cases r with
          | ok _ => exact hnone hy
          | error _ => exact hy.elim
      · exact hnone hl
    · rename_i no hno
      obtain ⟨hx₁, hf⟩ := hpoised (by rw [hno]; rfl)
      refine wp_mono (poised_settle hE a no hf hx₁) fun r y hy => ?_
      cases r with
      | ok _ => exact .inr ⟨ack, _, hy, fun f hf =>
          List.mem_reverse.mpr (List.mem_map.mpr ⟨f, hf, rfl⟩)⟩
      | error _ => exact hy.elim

/-- What the single-flight block hands on: an outcome that is served, or an order that is there. -/
def HandsOver (cid : String) : SubmitOutcome ⊕ HandleResolution → World → Prop
  | .inl _, x => accepted x.2 = []
  | .inr _, x => Landed cid x ∧ (x.1.find cid).isSome = true

theorem submitting_submitLocked (R : Router) (hE : E.Sturdy) (fuel : Nat) (a : AdapterId)
    (sid : Option String) (acquired : Bool) (hx : Idle x) :
    Submitting E o (R.submitLocked fuel a o sid acquired)
      (outcome (HandsOver o.clientOrderId) fun _ y => accepted y.2 = []) x := by
  unfold Router.submitLocked
  split
  · refine wp_seq (I := fun fresh y => Idle y ∧ (fresh = true →
      (∃ ev ∈ y.2, isInsertOf o.clientOrderId ev = true) ∧
        (y.1.find o.clientOrderId).isSome = true)) ?_ fun fresh y₁ h₁ => ?_
    · refine wp_tryExcept.mpr (wp_bind.mpr ?_)
      obtain ⟨s, h⟩ := x
      refine wp_amongWhere_perform fun s₁ r s' _ _ hs => ?_
      have hfree : Unwriting (.store (.insertOrder o sid)) := trivial
      have hidle : Idle (s', h ++ [⟨.store (.insertOrder o sid), r⟩]) := hx.snoc hfree r
      cases r with
      | ok _ =>
        obtain ⟨-, t, e, he, -⟩ := step_insert_ok hs
        exact ⟨hidle, fun _ => ⟨⟨_, List.mem_append_right _ (List.mem_singleton_self _),
          isInsertOf_iff.mpr ⟨o, sid, rfl, rfl⟩⟩, by rw [he]; rfl⟩⟩
      | error er =>
        rw [outcome_error]
        cases er with
        | duplicateOrderSignal cid => exact ⟨hidle, fun hf => by cases hf⟩
        | _ => exact hidle.1
    · cases fresh with
      | true =>
        obtain ⟨hins, hrow⟩ := h₁.2 rfl
        refine wp_seq (I := fun _ y => Landed o.clientOrderId y ∧
          (y.1.find o.clientOrderId).isSome = true) (wp_mono (wp_and
            (submitting_placeAndSettle R hE fuel a h₁.1 hins hrow) (submitting_stored _ hrow))
            fun r y hy => ?_) fun _ _ hy => hy
        cases r with
        | ok _ => exact hy
        | error _ => exact hy.1
      | false =>
        refine wp_seq (wp_outcome (idle_unwriting (uses_store trivial) h₁.1) fun _ _ h => h.1)
          fun row y hy => ?_
        cases row with
        | none => exact hy.1
        | some _ => exact hy.1
  · exact wp_seq (wp_outcome (idle_unwriting (Router.uses_awaitConcurrent trivial trivial _) hx)
      fun _ _ h => h.1) fun _ _ hy => hy.1

/-- How a submit may end: without an accepted order, or with every fill of its ack recorded; and
    with an exception only without one. -/
def SettledEnd (cid : String) : Except Exn SubmitOutcome → World → Prop :=
  outcome (fun _ x => ∀ ack ∈ accepted x.2, ∀ f ∈ ack.fills, Named cid f.brokerFillId x.1)
    fun _ x => accepted x.2 = []

theorem settled_of_none (hx : accepted x.2 = []) (out : SubmitOutcome) :
    SettledEnd cid (.ok out) x := by
  intro ack hacc
  rw [hx] at hacc
  cases hacc

theorem Landed.settled (hx : Landed cid x) (out : SubmitOutcome) :
    SettledEnd cid (.ok out) x := by
  intro ack hacc f hf
  rcases hx with hnone | ⟨ack', ids, hl, hids⟩
  · rw [hnone] at hacc
    cases hacc
  · rw [hl.accepted] at hacc
    obtain rfl := List.mem_singleton.mp hacc
    exact hl.recorded _ (hids f hf)

theorem Landed.snoc {s s₁ s' : Db} {h : History} {op : EngineOp} {r : Except Exn op.Res}
    (hx : Landed cid (s, h)) (hq : Quiet op) (hr : Records s s₁)
    (hs : (sem E).step s₁ op r s') : Landed cid (s', h ++ [⟨op, r⟩]) := by
  rcases hx with hnone | ⟨ack, ids, hl, hf⟩
  · exact .inl ((accepted_snoc hq.not_place).trans hnone)
  · exact .inr ⟨ack, ids, (hl.rely hr).snoc hq.not_place hs, hf⟩

theorem submitting_readBack (hE : E.Sturdy) (done : SubmitOutcome ⊕ HandleResolution)
    (hx : HandsOver cid done x) :
    Submitting E o (Router.readBack cid done) (SettledEnd cid) x := by
  cases done with
  | inl out => exact settled_of_none hx out
  | inr res =>
    obtain ⟨s, h⟩ := x
    refine wp_bind.mpr (wp_amongWhere_perform fun s₁ r s' hr _ hs => ?_)
    have hland := hx.1.snoc (show Quiet (.store (.fetchOrderResult cid)) from trivial) hr.toRecords hs
    obtain ⟨t, ht⟩ := sturdy_served hE hs
    obtain ⟨e, he⟩ := Option.isSome_iff_exists.mp (hr.stays cid hx.2)
    have hread : (.ok (s₁.fetchOrderResult cid) : Except Exn (Option OrderResultRow)) = r :=
      congrArg Prod.fst ht
    subst hread
    rw [fetchOrderResult_of_find he] at hland ⊢
    exact hland.settled ⟨Router.toResult (resultRow e), false, res⟩

/-- How the single-flight block ends. -/
abbrev BlockEnd (cid : String) : Except Exn (SubmitOutcome ⊕ HandleResolution) → World → Prop :=
  outcome (HandsOver cid) fun _ x => accepted x.2 = []

theorem blockEnd_quiet {p : Eff α} {out : Except Exn (SubmitOutcome ⊕ HandleResolution)}
    (hp : Uses Quiet p) (hx : BlockEnd cid out x) :
    Submitting E o p (fun _ y => BlockEnd cid out y) x := by
  rcases out with e | (outcome | res)
  · exact none_quiet hp hx
  · exact none_quiet hp hx
  · exact wp_and (landed_quiet hp hx.1) (submitting_stored p hx.2)

/-- Releasing the lock raises nothing. -/
theorem submitting_releaseLock (R : Router) (key : String) (acquired : Bool)
    {out : Except Exn (SubmitOutcome ⊕ HandleResolution)} (hx : BlockEnd cid out x) :
    Submitting E o (R.releaseLock key acquired)
      (outcome (fun _ y => BlockEnd cid out y) fun _ _ => False) x := by
  unfold Router.releaseLock
  split
  · refine wp_tryExcept.mpr (wp_mono (blockEnd_quiet (uses_ext trivial) hx) fun r y hy => ?_)
    cases r <;> exact hy
  · exact hx

theorem submitting_submit (R : Router) (hE : E.Sturdy) (fuel : Nat) (sid : Option String)
    (hx : Idle x) :
    Submitting E o (R.submit fuel o sid) (SettledEnd o.clientOrderId) x := by
  have hprobe {β : Type} {p : Eff β} {y : World} (hp : Uses Probe p) (hy : Idle y) :
      Submitting E o p (outcome (fun _ z => Idle z) fun _ z => accepted z.2 = []) y :=
    wp_outcome (idle_unwriting (hp.mono fun _ => Probe.unwriting) hy) fun _ _ h => h.1
  unfold Router.submit
  refine wp_seq (hprobe R.uses_assertDisengaged hx) fun _ y₁ h₁ => ?_
  refine wp_seq (wp_outcome (idle_unwriting (uses_store trivial) h₁) fun _ _ h => h.1)
    fun existing y₂ h₂ => ?_
  cases existing with
  | some row => exact settled_of_none h₂.1 _
  | none =>
    refine wp_seq (hprobe (R.uses_gates o) h₂) fun a y₃ h₃ => ?_
    refine wp_seq (I := HandsOver o.clientOrderId) ?_ fun done y₄ hd =>
      submitting_readBack hE done hd
    unfold Router.singleFlight
    refine wp_seq (hprobe (R.uses_acquireLock _) h₃) fun acquired y₄ h₄ =>
      wp_tryFinally.mpr ?_
    refine wp_mono (submitting_submitLocked R hE fuel a sid acquired h₄) fun out y₅ hout => ?_
    refine wp_mono (submitting_releaseLock R _ acquired hout) fun r y₆ h₆ => ?_
    cases r with
    | error _ => exact h₆.elim
    | ok _ => cases out <;> exact h₆

end Submitting

/-! ## The submit comes to an end

  Its one loop without a bound of its own is the recovery of a handle, and a round
  of that sleeps once. -/

section Ending

variable {φ : History → Prop} {h : History}

theorem stalls_lift {α : Type} (x : Except Exn α) : Stalls φ (Eff.lift x) h := by
  cases x <;> trivial

theorem stalls_store (o : StoreOp) : Stalls φ (Eff.store o) h := stalls_perform (S := engineSig) _

theorem stalls_ext (o : ExtOp) : Stalls φ (Eff.ext o) h := stalls_perform (S := engineSig) _

theorem stalls_updateStatus (cid : String) (s : OrderState) : Stalls φ (updateStatus cid s) h := by
  unfold updateStatus
  refine (stalls_store _).bind fun row t => ?_
  split
  · trivial
  · split
    · trivial
    · split
      · exact stalls_store _
      · trivial

theorem stalls_attempt (a : Reconcile.ReconcileAction) : Stalls φ (Reconcile.attempt a) h := by
  refine Stalls.tryExcept (Stalls.bind ?_ fun _ _ => trivial) fun _ _ => trivial
  cases a with
  | ack cid no => exact stalls_store _
  | fill cid qty price fid total =>
    exact (stalls_ext _).bind fun ts _ => (stalls_store _).bind fun _ _ => trivial
  | cancelTwoStep cid =>
    exact (stalls_updateStatus _ _).bind fun _ _ => stalls_updateStatus _ _
  | cancelConfirm cid => exact stalls_updateStatus _ _
  | expire cid => exact stalls_updateStatus _ _
  | reject cid reason => exact (stalls_updateStatus _ _).bind fun _ _ => stalls_store _
  | postAckReject cid reason =>
    refine (stalls_store _).bind fun _ _ => ?_
    exact (stalls_updateStatus _ _).bind fun _ _ => stalls_updateStatus _ _

theorem stalls_resolveOrderNow (cid : String) : Stalls φ (Liberator.resolveOrderNow cid) h := by
  unfold Liberator.resolveOrderNow Reconcile.applyRow
  refine (stalls_store _).bind fun row _ => ?_
  split
  · trivial
  · split
    · trivial
    · refine (stalls_store _).bind fun _ _ => (stalls_ext _).bind fun _ _ => ?_
      refine (stalls_ext _).bind fun _ _ => Stalls.bind ?_ fun _ _ => ?_
      · refine (stalls_lift _).bind fun _ _ => (stalls_store _).bind fun _ _ => ?_
        refine Stalls.bind ?_ fun _ _ => trivial
        exact (stalls_lift _).bind fun as _ => stalls_sumOver fun a _ => stalls_attempt a
      · exact (stalls_store _).bind fun _ _ => trivial

def isSleep (ev : Event engineSig) : Bool :=
  match ev.op with
  | .ext (.sleep _) => true
  | _ => false

/-- The sleeps of a history. -/
def sleeps (h : History) : Nat := h.countP isSleep

theorem sleeps_append (h t : History) : sleeps (h ++ t) = sleeps h + sleeps t :=
  List.countP_append

theorem stalls_recovery {resolve : Eff Bool}
    (hresolve : ∀ {φ : History → Prop} {h : History}, Stalls φ resolve h)
    (t cadence deadline : Time) (minPolls : Int) (limit fuel : Nat) (attempts : Int)
    (readOk : Bool) (hfuel : limit ≤ sleeps h + fuel) :
    Stalls (fun h => limit ≤ sleeps h)
      (HandleRecovery.recoverHandle resolve t cadence deadline minPolls fuel attempts readOk) h := by
  induction fuel generalizing h attempts readOk with
  | zero => exact hfuel
  | succ fuel ih =>
    unfold HandleRecovery.recoverHandle HandleRecovery.poll
    refine Stalls.bind (Stalls.tryExcept (hresolve.bind fun _ _ => trivial) fun _ _ => trivial)
      fun answer t₁ => ?_
    split
    · trivial
    · refine (stalls_ext _).bind fun now t₂ => ?_
      split
      · trivial
      · refine fun r => ?_
        cases r with
        | error e => trivial
        | ok u =>
          -- one round more and one sleep more
          refine ih _ _ ?_
          rw [sleeps_append, sleeps_append, sleeps_append]
          have hone : sleeps [⟨.ext (.sleep cadence), .ok u⟩] = 1 := rfl
          omega

variable (R : Router)

theorem stalls_assertDisengaged : Stalls φ R.assertDisengaged h := by
  unfold Router.assertDisengaged Router.killSwitchStatus
  refine Stalls.bind ?_ fun source _ => by cases source <;> trivial
  split
  · trivial
  · split
    · refine Stalls.bind (Stalls.tryExcept ?_ fun _ _ => trivial) fun _ _ => trivial
      exact (stalls_ext _).bind fun _ _ => trivial
    · trivial

theorem stalls_incrWithTtl (key : String) (ttl : Int) :
    Stalls φ (Router.incrWithTtl key ttl) h := by
  unfold Router.incrWithTtl
  refine (stalls_ext _).bind fun count _ => ?_
  split
  · exact (stalls_ext _).bind fun _ _ => trivial
  · trivial

theorem stalls_windowedCounts (o : NormalizedOrder) : Stalls φ (R.windowedCounts o) h := by
  unfold Router.windowedCounts Router.burstCount
  refine Stalls.tryExcept ?_ fun _ _ => trivial
  refine (stalls_ext _).bind fun _ _ => (stalls_incrWithTtl _ _).bind fun _ _ => ?_
  refine Stalls.bind ?_ fun _ _ => trivial
  split
  · exact stalls_incrWithTtl _ _
  · trivial

theorem stalls_windowedChecks (o : NormalizedOrder) : Stalls φ (R.windowedChecks o) h := by
  unfold Router.windowedChecks
  split
  · refine (stalls_windowedCounts R o).bind fun counts _ => ?_
    split
    · exact stalls_lift _
    · split
      · trivial
      · split <;> trivial
  · exact stalls_lift _

theorem stalls_priceBandCheck (o : NormalizedOrder) : Stalls φ (R.priceBandCheck o) h := by
  unfold Router.priceBandCheck
  split
  · split
    · trivial
    · refine (stalls_ext _).bind fun close _ => ?_
      split
      · trivial
      · split
        · trivial
        · split <;> trivial
  · trivial

theorem stalls_gates (o : NormalizedOrder) : Stalls φ (R.gates o) h := by
  unfold Router.gates Router.riskCheck Router.breakerGuard
  refine (stalls_lift _).bind fun _ _ => (stalls_lift _).bind fun _ _ => ?_
  refine Stalls.bind ?_ fun _ _ => (stalls_priceBandCheck R o).bind fun _ _ => ?_
  · refine (stalls_lift _).bind fun _ _ => (stalls_lift _).bind fun _ _ => ?_
    exact stalls_windowedChecks R o
  · refine (stalls_lift _).bind fun a _ => Stalls.bind ?_ fun _ _ => trivial
    refine (stalls_ext _).bind fun isOpen _ => ?_
    split <;> trivial

theorem stalls_awaitConcurrent (cid : String) (n : Nat) :
    Stalls φ (Router.awaitConcurrent cid n) h := by
  induction n generalizing h with
  | zero =>
    refine (stalls_store _).bind fun row _ => ?_
    split <;> trivial
  | succ n ih =>
    refine (stalls_store _).bind fun row _ => ?_
    split
    · trivial
    · exact (stalls_ext _).bind fun _ _ => ih

theorem stalls_settle (a : AdapterId) (o : NormalizedOrder) (no : String) (ack : PlaceAck) :
    Stalls φ (Router.settle a o no ack) h := by
  unfold Router.settle Router.applyFillReport
  refine (stalls_store _).bind fun _ _ => (stalls_forEach fun f _ => ?_).bind fun _ _ => ?_
  · exact (stalls_store _).bind fun _ _ => trivial
  · split
    · refine (stalls_updateStatus _ _).bind fun _ _ => (stalls_ext _).bind fun _ _ => ?_
      exact (stalls_updateStatus _ _).bind fun _ _ => trivial
    · trivial

theorem stalls_placeAndSettle (fuel : Nat) (a : AdapterId) (o : NormalizedOrder) :
    Stalls (fun h => fuel ≤ sleeps h) (R.placeAndSettle fuel a o) h := by
  unfold Router.placeAndSettle
  refine (stalls_ext _).bind fun ack _ => ?_
  split
  · refine (stalls_updateStatus _ _).bind fun _ _ => ?_
    exact (stalls_store _).bind fun _ _ => trivial
  · split
    · unfold Router.recoverHandle
      split
      · refine (stalls_store _).bind fun row _ => Stalls.bind ?_ fun start _ => ?_
        · cases row with
          | none => exact stalls_ext _
          | some row => trivial
        · exact stalls_recovery (stalls_resolveOrderNow _) _ _ _ _ _ _ _ _ (by omega)
      · trivial
    · exact stalls_settle a o _ ack

/-- A submit is stuck only after using its fuel up, a sleep for each round. -/
theorem stalls_submit (fuel : Nat) (o : NormalizedOrder) (sid : Option String) :
    Stalls (fun h => fuel ≤ sleeps h) (R.submit fuel o sid) h := by
  unfold Router.submit
  refine (stalls_assertDisengaged R).bind fun _ _ => (stalls_store _).bind fun existing _ => ?_
  cases existing with
  | some row => trivial
  | none =>
    refine (stalls_gates R o).bind fun a _ => Stalls.bind ?_ fun done _ => ?_
    · unfold Router.singleFlight Router.acquireLock
      refine Stalls.bind ?_ fun acquired _ => Stalls.tryFinally ?_ fun _ => ?_
      · split
        · exact Stalls.tryExcept (stalls_ext _) fun _ _ => trivial
        · trivial
      · unfold Router.submitLocked Router.insertFresh
        split
        · refine Stalls.bind (Stalls.tryExcept ?_ fun e _ => ?_) fun fresh _ => ?_
          · exact (stalls_store _).bind fun _ _ => trivial
          · split <;> trivial
          · split
            · exact (stalls_placeAndSettle R fuel a o).bind fun _ _ => trivial
            · refine (stalls_store _).bind fun row _ => ?_
              split <;> trivial
        · exact (stalls_awaitConcurrent _ _).bind fun _ _ => trivial
      · unfold Router.releaseLock
        split
        · exact Stalls.tryExcept (stalls_ext _) fun _ _ => trivial
        · trivial
    · cases done with
      | inl outcome => trivial
      | inr resolution =>
        refine (stalls_store _).bind fun row _ => ?_
        split <;> trivial

end Ending

/-! ## Every run -/

/-- The order carries this number, and is past PENDING_NEW. -/
def Numbered (cid no : String) (db : Db) : Prop :=
  ∃ e, db.find cid = some e ∧ e.row.brokerOrderId = some no ∧ e.row.status ≠ .pendingNew

section Run

variable {ι : Type} [DecidableEq ι] {E : Env} {requests : ι → Request} {P : Pool engineSig Db ι}
  {db db₀ : Db} {cid no : String}

/-- The number that is written first stays: an ack needs PENDING_NEW, and nothing returns there. -/
theorem Numbered.step {op : EngineOp} {r : Except Exn op.Res} {db' : Db}
    (h : Numbered cid no db) (hs : (sem E).step db op r db') : Numbered cid no db' := by
  obtain ⟨e, he, hno, hpast⟩ := h
  obtain ⟨e', he', rfl | ⟨o, -, -, hchange⟩⟩ := step_entry hs he
  · exact ⟨e', he', hno, hpast⟩
  · refine ⟨e', he', ?_, fun hnew => hpast (hchange.pendingNew hnew)⟩
    rcases hchange.handle with hsame | ⟨_, -, hnew, -⟩
    · rw [hsame, hno]
    · exact absurd hnew hpast

/-- An ack that is answered has written its number. -/
theorem numbered_of_ack {db' : Db}
    (hs : (sem E).step db (.store (.ackOrder cid no)) (.ok ()) db') : Numbered cid no db' := by
  rcases hs with ⟨t, ht⟩ | ⟨-, x, hx, -⟩
  · change db.ackOrder cid no = _ at ht
    rcases Db.ackOrder_cases db cid no with ⟨e, he, hnew, hc⟩ | ⟨x, hc⟩
    · rw [hc] at ht
      obtain rfl := (Prod.mk.inj ht).2
      obtain rfl := Db.find_key he
      refine ⟨_, by rw [find_change (.ack no hnew) he, if_pos rfl], rfl, fun h => ?_⟩
      cases h
    · rw [hc] at ht
      cases (Prod.mk.inj ht).1
  · cases hx

/-- From the moment either path has recorded a number, the order carries it. -/
theorem numbered_run (hP : PoolReach (sem E) closed (engine requests db₀) P) {j : ι}
    (hack : (j, ⟨.store (.ackOrder cid no), .ok ()⟩) ∈ P.trace) : Numbered cid no P.state := by
  refine pool_invariant (I := fun s tr => ∀ j : ι, ∀ no,
    (j, (⟨.store (.ackOrder cid no), .ok ()⟩ : Event engineSig)) ∈ tr → Numbered cid no s)
    (fun j no hm => by cases hm) (fun s tr i op r s' ih hs j no hm => ?_)
    (fun _ _ _ _ h => h.elim) hP j no hack
  rcases List.mem_append.mp hm with hm | hm
  · exact (ih j no hm).step hs
  · obtain ⟨-, hev⟩ := Prod.mk.inj (List.mem_singleton.mp hm)
    obtain ⟨rfl, hr⟩ := Event.mk.inj hev
    obtain rfl := eq_of_heq hr
    exact numbered_of_ack hs

variable {i : ι} {R : Router} {fuel : Nat} {o : NormalizedOrder} {sid : Option String}

/-- What acceptance promises of thread `i`, a submit of `o`: it does not fail, it is not stuck
    before its fuel is used up, and once it has returned, its fills are recorded; and the order
    carries the number that either path has recorded. -/
structure Promised (i : ι) (R : Router) (fuel : Nat) (o : NormalizedOrder) (sid : Option String)
    (P : Pool engineSig Db ι) : Prop where
  returns : accepted (localHistory i P.trace) ≠ [] → ∀ e, P.threads i ≠ .raise e
  ends : P.threads i = .stuck → fuel ≤ sleeps (localHistory i P.trace)
  records : ∀ out, Played (R.submit fuel o sid) (localHistory i P.trace) (.ret out) →
    ∀ ack ∈ accepted (localHistory i P.trace), ∀ f ∈ ack.fills, Named o.clientOrderId f.brokerFillId P.state
  numbered : ∀ j no, (j, ⟨.store (.ackOrder o.clientOrderId no), .ok ()⟩) ∈ P.trace →
    Numbered o.clientOrderId no P.state

theorem ownStep_imp {free free' : Bool} {h : History} {ev : Event engineSig}
    (himp : free = true → free' = true) (hstep : ownStep o free h db ev = true) :
    ownStep o free' h db ev = true := by
  unfold ownStep at hstep ⊢
  split
  · rename_i a ord ack
    rcases Bool.or_eq_true_iff.mp hstep with hrej | hack
    · exact Bool.or_eq_true_iff.mpr (.inl hrej)
    · refine Bool.or_eq_true_iff.mpr (.inr ?_)
      revert hack
      cases ack.brokerOrderId with
      | none => exact id
      | some no =>
        intro hack
        obtain ⟨hfree, hfills⟩ := Bool.and_eq_true_iff.mp hack
        exact Bool.and_eq_true_iff.mpr ⟨himp hfree, hfills⟩
  · exact hstep
  · exact hstep
  · rfl

/-- Where nobody else has written the order, and its submit has not since its insert, it waits. -/
theorem unhindered_own (hE : E.Sturdy) (hP : PoolReach (sem E) closed (engine requests db₀) P)
    {op : EngineOp} {r : Except Exn op.Res} {s' : Db}
    (h : Unhindered i o P.trace P.state i ⟨op, r⟩ s') :
    Own o (localHistory i P.trace) P.state op r := by
  unfold Unhindered at h
  rw [if_pos rfl] at h
  refine ownStep_imp (fun hfree => ?_) h
  by_cases hun : untouched o.clientOrderId (localHistory i P.trace) = true
  · obtain ⟨hins, hown⟩ := Bool.and_eq_true_iff.mp hun
    obtain ⟨ev, hev, hins⟩ := List.any_eq_true.mp hins
    have hwaits : waits o.clientOrderId P.state = true := by
      refine waits_of_unwritten hE.store hP ⟨_, mem_localHistory.mp hev, hins⟩ fun x hx => ?_
      by_cases hxi : x.1 = i
      · have hx' : (i, x.2) ∈ P.trace := hxi ▸ hx
        simpa using List.all_eq_true.mp hown x.2 (mem_localHistory.mpr hx')
      · simpa [hxi] using List.all_eq_true.mp hfree x hx
    rw [hwaits, Bool.or_true]
  · simp [hun]

end Run

/-! ## A submit beside a pass -/

/-- Everything is answered, over a store that does not fail. -/
def answeringEnv : Env := .reliable fun _ _ r => ∃ a, r = .ok a

theorem answering_sturdy : answeringEnv.Sturdy where
  store h := h
  now _ _ h := h
  sleep _ _ _ h := h.elim fun _ h => h

/-- The sample order as the Streaming Pro book lists it: numbered V1, entered at 0. -/
def sampleProRow : StreamingPro.VenueOrderRow where
  orderNo := "V1"
  symbol := "PTT"
  side := "B"
  price := some ⟨10, 0⟩
  volume := 100
  balance := 100
  entryTime := some (.aware 0)

/-- The store writes at 0 and the pass runs at `now`; the venue numbers the order V1. -/
def proHandler (now : Time) : Handler where
  time := 0
  ext _ o := match o with
    | .now => .ok now
    | .streamingProOrders _ _ => .ok [sampleProRow]
    | o => plainExt 0 (fun _ => { brokerOrderId := some "V1" }) [] o

theorem pro_follows (now : Time) : Follows (sem answeringEnv) (proHandler now).step := by
  refine handler_follows fun db o => ?_
  cases o with
  | place a o => cases a <;> exact ⟨_, rfl⟩
  | _ => exact ⟨_, rfl⟩

/-- One submit of the sample order, and one pass over the Streaming Pro orders. -/
def submitAndPass : Bool → Request
  | false => .submit proRouter 0 (sampleOrderA .streamingPro) none
  | true => .reconcileStreamingPro

/-- The pass runs between the insert and the answer of the venue. -/
def passSchedule : List Bool :=
  List.replicate 10 false ++ List.replicate 9 true ++ List.replicate 9 false

def passRun (now : Time) : Pool engineSig Db Bool :=
  runPool (proHandler now).step passSchedule (engine submitAndPass Db.empty)

def raisedWith (test : Exn → Bool) : Eff Unit → Bool
  | .raise e => test e
  | _ => false

/-- Taken as V1, with 60 filled at once and the remainder cancelled. -/
def partAck : PlaceAck where
  brokerOrderId := some "V1"
  fills := [⟨"f1", ⟨10, 0⟩, 60, 0, by decide⟩]
  remainderCancelled := true

/-- The venue answers with that ack, and its book has 30 of the order matched so far. -/
def partHandler : Handler where
  time := 0
  ext _ o := match o with
    | .streamingProOrders _ _ => .ok [{ sampleProRow with matched := 30, balance := 70 }]
    | o => plainExt 0 (fun _ => partAck) [] o

theorem part_follows : Follows (sem answeringEnv) partHandler.step := by
  refine handler_follows fun db o => ?_
  cases o with
  | place a o => cases a <;> exact ⟨_, rfl⟩
  | _ => exact ⟨_, rfl⟩

/-- The pass runs between the router's ack and its fill. -/
def partSchedule : List Bool :=
  List.replicate 12 false ++ List.replicate 6 true ++ List.replicate 8 false

def partRun : Pool engineSig Db Bool :=
  runPool partHandler.step partSchedule (engine submitAndPass Db.empty)

end ExecutionEngine
