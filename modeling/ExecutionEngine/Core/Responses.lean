/-
  What a bridge response leads to in the store.

  Two responses say less than the code reads into them. A Streaming Pro orders
  response without an order list parses to an empty book, and an empty book is
  evidence to the planner: `unreadable_book_is_empty` says what a pass over it
  does to every order of the group. A placement that was accepted without an order
  number is an open question at Liberator and a rejection at Streaming Pro
  (`place_honest_iff`).
-/
import ExecutionEngine.Adapters.Envelopes
import ExecutionEngine.Core.LostAck
import ExecutionEngine.Core.Telescope

namespace ExecutionEngine

open Async Async.Prog StateMachine

namespace StreamingPro

/-! ## Bodies without an order list -/

/-- A list of rows, bare or under one of the known keys. -/
def hasOrderList : Json → Bool
  | .arr _ => true
  | .obj fields => listKeys.any fun k => (Json.lookup fields k).asList.isSome
  | _ => false

theorem wrappedList_none {fields : Dict} (h : hasOrderList (.obj fields) = false) :
    wrappedList fields = [] := by
  have hnone : (listKeys.findSome? fun k => (Json.lookup fields k).asList) = none := by
    rw [List.findSome?_eq_none_iff]
    intro k hk
    have hk := List.any_eq_false.mp h k hk
    simpa using hk
  rw [wrappedList, hnone]
  rfl

theorem parseOrderRows_unreadable (validate : Dict → Except Exn VenueOrderRow) {body : Json}
    (h : hasOrderList body = false) : parseOrderRows validate body = .ok [] := by
  cases body with
  | obj fields =>
    simp only [parseOrderRows, wrappedList_none h]
    rfl
  | arr items => cases h
  | _ => rfl

end StreamingPro

namespace Reconcile

open StreamingPro (VenueOrderRow)

/-! ## A pass over an empty book -/

section EmptyBook

variable {ι : Type} [ReconcilerVenue ι] {row : OrderRow} {claimed : List String} {now : Time}

/-- Against an empty book every row resolves to nothing, without ambiguity. -/
theorem resolveRow_nil {requireStuck : Bool} {res : Resolution ι}
    (h : resolveRow row [] claimed now requireStuck = .ok res) :
    res.item = none ∧ res.ambiguous = false := by
  rcases resolveRow_cases h with ⟨item, hh, -⟩ | ⟨-, -, m, rfl, rfl⟩ | ⟨-, -, rfl⟩
  · obtain ⟨hmem, -⟩ := byHandle_some hh
    cases hmem
  · exact ⟨rfl, rfl⟩
  · exact ⟨rfl, rfl⟩

variable {allows : Db → (o : ExtOp) → Except Exn o.Res → Prop} {db : Db} {cid : String} {e : Entry}

theorem execute_cancelConfirm (he : db.find cid = some e) (hs : e.row.status = .pendingCancel) :
    wp (sem (.reliable allows)) (fun _ _ => True) (execute (.cancelConfirm cid))
      (fun r db' => r = .ok () ∧ db'.find cid = some (Db.withStatus e .cancelled)) db := by
  obtain rfl := Db.find_key he
  refine wp_mono (updateStatus_reliable he (s := .cancelled) (by rw [hs]; rfl)) fun r db₁ h₁ => ?_
  exact ⟨h₁.1, h₁.2.find_self⟩

theorem setRejectReason_reliable (he : db.find cid = some e) (reason : String) :
    wp (sem (.reliable allows)) (fun _ _ => True) (Eff.store (.setRejectReason cid reason))
      (fun r db' => r = .ok () ∧
        db'.find cid = some { e with row := { e.row with rejectReason := some reason } }) db :=
  wp_perform.mpr ⟨trivial, fun _ _ hs => step_setRejectReason he hs⟩

theorem execute_reject {reason : String} (he : db.find cid = some e)
    (hs : e.row.status = .pendingNew) :
    wp (sem (.reliable allows)) (fun _ _ => True) (execute (.reject cid reason))
      (fun r db' => r = .ok () ∧ db'.find cid = some { e with row := { e.row with
        status := .rejected, rejectReason := some (reasonOr reason) } }) db := by
  obtain rfl := Db.find_key he
  rw [execute, Prog.bind_eq, wp_bind]
  refine wp_mono (updateStatus_reliable he (s := .rejected) (by rw [hs]; rfl)) fun r db₁ h₁ => ?_
  obtain ⟨rfl, hput⟩ := h₁
  rw [outcome_ok]
  have he₁ := hput.find_self
  rw [withStatus_key] at he₁
  exact setRejectReason_reliable he₁ _

/-- What absence makes of an order, at a venue where it always confirms a cancel. -/
def ifAbsent (now : Time) (e : Entry) : Entry :=
  if e.row.status = .pendingCancel then Db.withStatus e .cancelled
  else if e.row.status = .pendingNew ∧ ackLostTimeout < now - e.row.createdAt then
    { e with row := { e.row with
      status := .rejected, rejectReason := some (reasonOr ackLostUnmatched) } }
  else e

theorem applyVisit_absent {res : Resolution VenueOrderRow}
    (he : db.find row.clientOrderId = some e) (hrow : e.row = row) (hitem : res.item = none)
    (hamb : res.ambiguous = false) :
    wp (sem (.reliable allows)) (fun _ _ => True) (applyVisit row res now)
      (fun _ db' => db'.find row.clientOrderId = some (ifAbsent now e)) db := by
  subst hrow
  have hall : wp (sem (.reliable allows)) (fun _ _ => True)
      (sumOver attempt (planActions e.row e.filled res.item now res.ambiguous))
      (fun r db' => (∃ n, r = .ok n) ∧
        db'.find e.row.clientOrderId = some (ifAbsent now e)) db := by
    rw [hitem, hamb]
    unfold planActions planAbsent ifAbsent
    dsimp only
    by_cases hnew : e.row.status = .pendingNew
    · have hcancel : e.row.status ≠ .pendingCancel := by simp [hnew]
      rw [if_pos hnew, if_neg (by decide), if_neg hcancel]
      by_cases hold : ackLostTimeout < now - e.row.createdAt
      · rw [if_pos hold, if_pos ⟨hnew, hold⟩]
        exact wp_attempt_one (execute_reject he hnew)
      · rw [if_neg hold, if_neg fun h => hold h.2]
        exact wp_attempt_none he
    · rw [if_neg hnew]
      by_cases hcancel : e.row.status = .pendingCancel
      · have hconfirms : VenueItem.absenceConfirms VenueOrderRow e.row now = true := rfl
        rw [if_pos hcancel, if_pos hcancel, if_pos hconfirms]
        exact wp_attempt_one (execute_cancelConfirm he hcancel)
      · rw [if_neg hcancel, if_neg hcancel, if_neg fun h => hnew h.1]
        exact wp_attempt_none he
  unfold applyVisit
  rw [Prog.bind_eq, wp_bind]
  refine wp_perform.mpr ⟨trivial, fun r db₁ hs => ?_⟩
  obtain ⟨t, ht⟩ := step_reliable hs
  obtain ⟨rfl, rfl⟩ := Prod.mk.inj ht
  have hplan : planError e.row e.filled res.item = none := by rw [hitem, planError]
  rw [outcome_ok, fetchOrderResult_of_find he]
  change wp _ _ (runPlan (plan e.row e.filled res.item now res.ambiguous) >>= _) _ _
  rw [plan_ok hplan, Prog.bind_eq, wp_bind]
  refine wp_mono hall fun r db' h => ?_
  obtain ⟨⟨n, rfl⟩, h⟩ := h
  exact h

/-- A pass over an empty book settles every order of the group as absent. -/
theorem PassData.Runs.absent {P : PassData VenueOrderRow} {db db' : Db} {row : OrderRow}
    (h : P.Runs db db') (hrow : row ∈ P.rows)
    (hempty : P.book (ReconcilerVenue.groupKey VenueOrderRow row) = []) :
    ∃ e, db.find row.clientOrderId = some e ∧ e.row = row ∧
      db'.find row.clientOrderId = some (ifAbsent P.now e) := by
  obtain ⟨e, he, hrow'⟩ := (mem_listing h.listing hrow).1.find
  refine ⟨e, he, hrow', ?_⟩
  refine h.visited (Q := fun o => o = some (ifAbsent P.now e)) ⟨row, hrow, rfl⟩
    fun row₁ res hv hcid db₁ hdb₁ => ?_
  obtain ⟨hrow₁, -, claimed, hres⟩ := PassData.mem_visitsOf hv
  obtain rfl := List.inj_on_of_nodup_map (listing_nodup h.listing) hrow₁ hrow hcid
  rw [hempty] at hres
  obtain ⟨hitem, hamb⟩ := resolveRow_nil hres
  exact applyVisit_absent (hdb₁.trans he) hrow' hitem hamb

/-- Every response without an order list is read as an empty book, and the pass over it takes
    that as evidence: a PENDING_CANCEL order is confirmed cancelled and a PENDING_NEW order older
    than a minute is rejected; any other order of the group is left as it was. -/
theorem unreadable_book_is_empty (validate : Dict → Except Exn VenueOrderRow) {body : Json}
    (hbody : StreamingPro.hasOrderList body = false) :
    StreamingPro.parseOrderRows validate body = .ok [] ∧
    ∀ (P : PassData VenueOrderRow) (db db' : Db) (row : OrderRow), P.Runs db db' → row ∈ P.rows →
      StreamingPro.parseOrderRows validate body =
        .ok (P.book (ReconcilerVenue.groupKey VenueOrderRow row)) →
      ∃ e e', db.find row.clientOrderId = some e ∧ db'.find row.clientOrderId = some e' ∧
        (row.status = .pendingCancel → e'.row.status = .cancelled) ∧
        (row.status = .pendingNew → ackLostTimeout < P.now - row.createdAt →
          e'.row.status = .rejected ∧ e'.row.rejectReason = some ackLostUnmatched) ∧
        (e' = e ↔ row.status ≠ .pendingCancel ∧
          (row.status = .pendingNew → P.now - row.createdAt ≤ ackLostTimeout)) := by
  have hparse := StreamingPro.parseOrderRows_unreadable validate hbody
  refine ⟨hparse, fun P db db' row hruns hrow hbook => ?_⟩
  rw [hparse] at hbook
  obtain ⟨e, he, rfl, he'⟩ := hruns.absent hrow (Except.ok.inj hbook).symm
  refine ⟨e, ifAbsent P.now e, he, he', fun hs => ?_, fun hs hold => ?_, ?_⟩
  · rw [ifAbsent, if_pos hs]
    rfl
  · have hcancel : e.row.status ≠ .pendingCancel := by simp [hs]
    rw [ifAbsent, if_neg hcancel, if_pos ⟨hs, hold⟩]
    exact ⟨rfl, rfl⟩
  · unfold ifAbsent
    split
    · rename_i hs
      refine iff_of_false (fun heq => ?_) fun h => h.1 hs
      have hstatus := congrArg (fun x => x.row.status) heq
      simp [hs] at hstatus
    · rename_i hcancel
      split
      · rename_i hgone
        refine iff_of_false (fun heq => ?_) fun h => absurd hgone.2 (not_lt.mpr (h.2 hgone.1))
        have hstatus := congrArg (fun x => x.row.status) heq
        simp [hgone.1] at hstatus
      · rename_i hstays
        refine iff_of_true rfl ⟨hcancel, fun hnew => ?_⟩
        exact not_lt.mp fun hold => hstays ⟨hnew, hold⟩

/-- The pass over `db` at `t` that finds no row in any Streaming Pro book. -/
def emptyPass (t : Time) (db : Db) : PassData VenueOrderRow where
  allows _ o r := r = plainExt t (fun _ => {}) [] o
  book _ := []
  rows := db.fetchOrdersForReconcile .streamingPro false
  now := t

/-- The store after that pass, if it returns. -/
def emptyPassEnd (t : Time) (db : Db) : Option Db :=
  match run (plainHandler t (fun _ => {}) []).step
    (sumOver (reconcileGroup VenueOrderRow t) (groups VenueOrderRow (emptyPass t db).rows)) db with
  | (some (.ok _), db') => some db'
  | _ => none

theorem emptyPass_runs {t : Time} {db db' : Db} (h : emptyPassEnd t db = some db') :
    (emptyPass t db).Runs db db' where
  clock _ r hr := ⟨t, hr⟩
  books key d := by
    refine readBook_spec (wp_perform.mpr ⟨trivial, fun r d' hs => ?_⟩)
    obtain ⟨rfl, rfl⟩ := step_ext hs
    exact ⟨rfl, rfl⟩
  listing := isListing_refl_byCreatedAt _
  exec := by
    unfold emptyPassEnd at h
    split at h
    · rename_i n db₁ hr
      obtain rfl := Option.some.inj h
      have hfollows : Follows (sem (.reliable (emptyPass t db).allows))
          (plainHandler t (fun _ => {}) []).step := handler_follows fun _ _ => rfl
      have hexec := run_exec hfollows _ db (o := .ok n) (by rw [hr])
      rw [hr] at hexec
      exact ⟨n, hexec⟩
    · cases h

/-- A refusal as the bridge passes it on. -/
def refusal : Json := .obj [("code", .str "4031"), ("message", .str "session expired")]

/-- A pending order at Streaming Pro, inserted at 0. -/
def pendingProDb : Db := (Db.empty.insertOrder (sampleFields cidA .streamingPro) none 0).2

theorem refusal_rejects_order :
    ∃ db e, StreamingPro.parseOrderRows (fun _ => .error (.validationError "")) refusal = .ok [] ∧
      (emptyPass (seconds 61) pendingProDb).Runs pendingProDb db ∧
      db.find cidA = some e ∧ e.row.status = .rejected ∧
      e.row.rejectReason = some ackLostUnmatched := by
  have h : (emptyPassEnd (seconds 61) pendingProDb).any (fun db => (db.find cidA).any fun e =>
      decide (e.row.status = .rejected) &&
        decide (e.row.rejectReason = some ackLostUnmatched)) = true := by decide +kernel
  obtain ⟨db, hend, he⟩ := (Option.any_eq_true _ _).mp h
  obtain ⟨e, he, hst⟩ := (Option.any_eq_true _ _).mp he
  simp only [Bool.and_eq_true, decide_eq_true_eq] at hst
  exact ⟨db, e, rfl, emptyPass_runs hend, he, hst.1, hst.2⟩

/-- The same pass, by the general statement. -/
theorem refusal_is_empty_book :
    StreamingPro.hasOrderList refusal = false ∧
      StreamingPro.parseOrderRows (fun _ => .error (.validationError "")) refusal = .ok [] :=
  ⟨by decide, (unreadable_book_is_empty (fun _ => .error (.validationError "")) (by decide)).1⟩

end EmptyBook

end Reconcile

/-! ## Acceptance without a number -/

/-- The response of one of the two bridges to a placement. -/
inductive BridgeResponse where
  | liberator (envelope : Liberator.LiberatorEnvelope)
  | streamingPro (place : StreamingPro.BridgePlace)

namespace BridgeResponse

/-- Does the response say that the venue took the order? -/
def accepted : BridgeResponse → Bool
  | .liberator envelope => envelope.ok
  | .streamingPro place => place.ok

def orderNo : BridgeResponse → Option String
  | .liberator envelope => envelope.orderNo
  | .streamingPro place => place.orderNo

/-- The ack that `place` makes of it. -/
def placeAck : BridgeResponse → PlaceAck
  | .liberator envelope => Liberator.placeAck envelope
  | .streamingPro place => StreamingPro.placeAck place

theorem liberator_rejected (envelope : Liberator.LiberatorEnvelope) :
    (Liberator.placeAck envelope).rejected = !envelope.ok := by
  unfold Liberator.placeAck
  cases envelope.ok with
  | false => rfl
  | true =>
    cases envelope.orderNo with
    | none => rfl
    | some no => rfl

theorem streamingPro_rejected (place : StreamingPro.BridgePlace) :
    (StreamingPro.placeAck place).rejected = (!place.ok || place.orderNo.isNone) := by
  unfold StreamingPro.placeAck
  split
  · rename_i h
    rw [h]
  · rename_i h
    rw [Bool.not_eq_true _ |>.mp h]

/-- An accepted order whose ack is not a rejection carries its number. -/
theorem placeAck_number {r : BridgeResponse} (hacc : r.accepted = true)
    (hrej : r.placeAck.rejected = false) : r.placeAck.brokerOrderId = r.orderNo := by
  cases r with
  | liberator envelope =>
    have hok : envelope.ok = true := hacc
    simp only [placeAck, Liberator.placeAck, orderNo, hok, if_true]
    cases envelope.orderNo with
    | none => rfl
    | some no => rfl
  | streamingPro place =>
    have hrej' := (streamingPro_rejected place).symm.trans hrej
    simp only [placeAck, StreamingPro.placeAck, orderNo, hrej', Bool.false_eq_true, if_false]

end BridgeResponse

/-- The operation does not record this order as rejected. -/
def Sparing (cid : String) : EngineOp → Prop
  | .store (.writeStatus c s) => ¬ (c = cid ∧ s = .rejected)
  | _ => True

namespace Router

variable (R : Router)

/-- The rest of the place path, once the ack is there. -/
def settleAck (fuel : Nat) (a : AdapterId) (o : NormalizedOrder) (ack : PlaceAck) :
    Eff HandleResolution :=
  if ack.rejected then do
    updateStatus o.clientOrderId .rejected
    Eff.store (.setRejectReason o.clientOrderId (rejectReasonOr ack.rejectReason))
    .ret .confirmed
  else match ack.brokerOrderId with
    | none => R.recoverHandle fuel o
    | some no => settle a o no ack

theorem placeAndSettle_eq (fuel : Nat) (a : AdapterId) (o : NormalizedOrder) :
    R.placeAndSettle fuel a o = (Eff.ext (.place a o)).bind (R.settleAck fuel a o) := rfl

theorem sparing_settle (a : AdapterId) (o : NormalizedOrder) (no : String) (ack : PlaceAck) :
    Uses (Sparing o.clientOrderId) (settle a o no ack) := by
  have hstatus (s : OrderState) (hs : s ≠ .rejected) :
      Uses (Sparing o.clientOrderId) (updateStatus o.clientOrderId s) :=
    uses_updateStatus trivial fun h => hs h.2
  unfold settle
  refine Uses.bind (uses_store trivial) fun _ => Uses.bind (uses_forEach fun f => ?_) fun _ => ?_
  · exact (uses_store trivial).bind fun _ => trivial
  · split
    · refine (hstatus _ (by decide)).bind fun _ => ?_
      exact (uses_ext trivial).bind fun _ => (hstatus _ (by decide)).bind fun _ => trivial
    · trivial

end Router

/-- The place path takes the response at its word: the ack is a rejection exactly if the venue did
    not accept; an accepted order is not recorded as rejected by settling the ack; and without a
    number it goes to handle recovery, which without a resolver leaves the row as it is. -/
structure PlaceHonest (r : BridgeResponse) : Prop where
  rejected_iff : r.placeAck.rejected = true ↔ r.accepted = false
  spares : r.accepted = true → ∀ no, r.orderNo = some no → ∀ (R : Router) fuel a o,
    Uses (Sparing o.clientOrderId) (R.settleAck fuel a o r.placeAck)
  recovers : r.accepted = true → r.orderNo = none → ∀ (R : Router) fuel a o,
    R.settleAck fuel a o r.placeAck = R.recoverHandle fuel o
  pends : r.accepted = true → r.orderNo = none → ∀ (R : Router) fuel a o,
    R.handleResolver = false → R.settleAck fuel a o r.placeAck = .ret .unknown

/-- Only Streaming Pro's accepted order without a number is not taken at its word. -/
theorem place_honest_iff (r : BridgeResponse) :
    PlaceHonest r ↔
      ¬ ∃ place, r = .streamingPro place ∧ place.ok = true ∧ place.orderNo = none := by
  have hrejected : r.placeAck.rejected = true ↔ r.accepted = false ∨
      ∃ place, r = .streamingPro place ∧ place.ok = true ∧ place.orderNo = none := by
    cases r with
    | liberator envelope =>
      have h := BridgeResponse.liberator_rejected envelope
      simp [BridgeResponse.placeAck, BridgeResponse.accepted, h]
    | streamingPro place =>
      have h := BridgeResponse.streamingPro_rejected place
      cases hok : place.ok <;> simp [BridgeResponse.placeAck, BridgeResponse.accepted, h, hok]
  constructor
  · intro hhonest hbad
    have hacc := hhonest.rejected_iff.mp (hrejected.mpr (.inr hbad))
    obtain ⟨place, rfl, hok, -⟩ := hbad
    exact Bool.false_ne_true (hacc.symm.trans hok)
  · intro hgood
    have hiff : r.placeAck.rejected = true ↔ r.accepted = false :=
      hrejected.trans (or_iff_left hgood)
    have hspared : r.accepted = true → r.placeAck.rejected = false := by
      intro hacc
      rw [Bool.eq_false_iff, ne_eq, hiff, hacc]
      decide
    have hrecovers : r.accepted = true → r.orderNo = none → ∀ (R : Router) fuel a o,
        R.settleAck fuel a o r.placeAck = R.recoverHandle fuel o := by
      intro hacc hno R fuel a o
      have hnum := BridgeResponse.placeAck_number hacc (hspared hacc)
      simp only [Router.settleAck, hspared hacc, hnum, hno, Bool.false_eq_true, if_false]
    refine ⟨hiff, fun hacc no hno R fuel a o => ?_, hrecovers, fun hacc hno R fuel a o hR => ?_⟩
    · have hnum := BridgeResponse.placeAck_number hacc (hspared hacc)
      simp only [Router.settleAck, hspared hacc, hnum, hno, Bool.false_eq_true, if_false]
      exact Router.sparing_settle a o no _
    · rw [hrecovers hacc hno, Router.recoverHandle, hR]
      rfl

/-- Accepted by the venue, without a number. -/
def unnumbered : StreamingPro.BridgePlace where
  ok := true
  status := some "Pending"

/-- A Streaming Pro router at `micro_live` without a handle resolver. -/
def proRouter : Router where
  settings := { stage := .microLive, realRoutingAccounts := ["12345672"] }
  streamingPro := true

/-- The submit that gets this response records the order as rejected, with the venue's status
    as the reason. -/
theorem unnumbered_accept_rejected :
    ∃ out y e, (BridgeResponse.streamingPro unnumbered).accepted = true ∧
      Exec (seqSem plainEnv) (proRouter.submit 0 (sampleOrderA .streamingPro) none)
        (Db.empty, []) (.ok out) y ∧
      y.1.find cidA = some e ∧ e.row.status = .rejected ∧
      e.row.rejectReason = some "Pending" := by
  have h : returnsWith
      (plainHandler 0 (fun _ => (BridgeResponse.streamingPro unnumbered).placeAck) [])
      (proRouter.submit 0 (sampleOrderA .streamingPro) none) (Db.empty, []) (fun _ y =>
        (y.1.find cidA).any fun e => decide (e.row.status = .rejected) &&
          decide (e.row.rejectReason = some "Pending")) = true := by decide +kernel
  obtain ⟨out, y, hexec, he⟩ := exists_return (plain_follows _) h
  obtain ⟨e, he, hst⟩ := (Option.any_eq_true _ _).mp he
  simp only [Bool.and_eq_true, decide_eq_true_eq] at hst
  exact ⟨out, y, e, rfl, hexec, he, hst.1, hst.2⟩

end ExecutionEngine
