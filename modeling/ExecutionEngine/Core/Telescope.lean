/-
  Reconciled fills telescope to the venue's cumulative counter.

  A pass reads the durable aggregate, records the difference to the counter as one
  fill, and names it after the counter. `visit_counts` says what one visit to a
  working order does; `fills_telescope` is the induction over passes: after each
  one the aggregate is the largest counter seen, whatever the order in which the
  venue reported them.
-/
import ExecutionEngine.Contracts.Value
import ExecutionEngine.Core.StatusFills

namespace ExecutionEngine

open Async Async.Prog StateMachine

namespace Reconcile

/-! ## Actions that go through -/

section Attempts

variable {E : Env} {db : Db}

theorem wp_attempt_one {a : ReconcileAction} {I : Db → Prop}
    (h : wp (sem E) (fun _ _ => True) (execute a) (fun r db' => r = .ok () ∧ I db') db) :
    wp (sem E) (fun _ _ => True) (sumOver attempt [a])
      (fun r db' => (∃ n, r = .ok n) ∧ I db') db := by
  rw [sumOver, wp_bind, attempt, wp_tryExcept, wp_bind]
  refine wp_mono h fun r db' h' => ?_
  obtain ⟨rfl, hI⟩ := h'
  exact ⟨⟨1, rfl⟩, hI⟩

theorem wp_attempt_none {I : Db → Prop} (h : I db) :
    wp (sem E) (fun _ _ => True) (sumOver attempt [])
      (fun r db' => (∃ n, r = .ok n) ∧ I db') db :=
  ⟨⟨0, rfl⟩, h⟩

end Attempts

section Stages

variable {allows : Db → (o : ExtOp) → Except Exn o.Res → Prop} {db : Db} {cid : String} {e : Entry}

/-- Working at the venue: NEW or PARTIALLY_FILLED. -/
def Resting (s : OrderState) : Prop := s = .new ∨ s = .partiallyFilled

theorem find_set_entry {e' : Entry} (he : db.find cid = some e)
    (hk : e'.row.clientOrderId = e.row.clientOrderId) : (db.set e').find cid = some e' := by
  have hcid : cid = e'.row.clientOrderId := (hk.trans (Db.find_key he)).symm
  rw [hcid] at he ⊢
  exact Db.find_set_self he

/-- The reason is written beside whatever else the order holds. -/
theorem step_setRejectReason {db' : Db} {reason : String} {r : Except Exn Unit}
    (he : db.find cid = some e)
    (h : (sem (.reliable allows)).step db (.store (.setRejectReason cid reason)) r db') :
    r = .ok () ∧
      db'.find cid = some { e with row := { e.row with rejectReason := some reason } } := by
  obtain ⟨t, ht⟩ := step_reliable h
  change db.setRejectReason cid reason = _ at ht
  simp only [Db.setRejectReason, he] at ht
  obtain ⟨rfl, rfl⟩ := Prod.mk.inj ht
  exact ⟨rfl, find_set_entry he rfl⟩

theorem execute_ack (no : String) (he : db.find cid = some e) (hs : e.row.status = .pendingNew) :
    wp (sem (.reliable allows)) (fun _ _ => True) (execute (.ack cid no))
      (fun r db' => r = .ok () ∧ db'.find cid = some { e with row := { e.row with
        status := .new, brokerOrderId := some no } }) db := by
  refine wp_perform.mpr ⟨trivial, fun r db' h => ?_⟩
  obtain ⟨t, ht⟩ := step_reliable h
  change db.ackOrder cid no = _ at ht
  have hack : db.ackOrder cid no = (.ok (), db.set { e with row := { e.row with
      status := .new, brokerOrderId := some no } }) := by
    simp only [Db.ackOrder, he, hs, if_true]
  rw [hack] at ht
  obtain ⟨rfl, rfl⟩ := Prod.mk.inj ht
  exact ⟨rfl, find_set_entry he rfl⟩

/-- A price and a quantity the fills table can hold. -/
def Storable (price : Decimal) (qty : Int) : Prop :=
  price.numeric.isPos = true ∧ price.fitsNumeric = true ∧ qty < 2 ^ 63

theorem applyFill_storable (fid : String) {price : Decimal} {qty : Int} (ts : Time) (total : Int)
    (he : db.find cid = some e) (hs : Resting e.row.status) (hq : 0 < qty)
    (hp : Storable price qty) :
    ∃ (f : FillRow) (db' : Db), f.brokerFillId = fid ∧ f.quantity = qty ∧
      db.applyFill cid fid price qty ts total = (.ok (Db.fillTarget (Db.addFill e f) total), db') ∧
      db'.find cid = some
        (Db.withStatus (Db.addFill e f) (Db.fillTarget (Db.addFill e f) total)) := by
  obtain ⟨hpos, hfits, hlt⟩ := hp
  refine ⟨⟨fid, price.numeric, qty, ts, hq⟩, _, rfl, rfl, ?_,
    find_set_entry he (by rw [withStatus_key, addFill_row])⟩
  have hl (s : OrderState) (h : s = .filled ∨ s = .partiallyFilled) :
      isLegal e.row.status s = true := by
    rcases hs with hs | hs <;> rcases h with h | h <;> rw [hs, h] <;> decide
  have htarget : isLegal e.row.status (Db.fillTarget
      (Db.addFill e ⟨fid, price.numeric, qty, ts, hq⟩) total) = true := by
    refine hl _ ?_
    unfold Db.fillTarget
    split
    · exact .inl rfl
    · exact .inr rfl
  simp only [Db.applyFill, he, hq, hpos, hfits, hlt, htarget, dif_pos, decide_true, Bool.and_self,
    if_true]

/-! ## One visit -/

variable {ι : Type} [VenueItem ι]

/-- The venue row stands (it was not rejected) and its counter can be recorded as a fill. -/
structure Reports (row : OrderRow) (item : ι) : Prop where
  price : ∃ p, VenueItem.fillPriceFor row item = some p ∧ Storable p (VenueItem.matched item)
  stands : VenueItem.classifyVenueState item ≠ .rejected

/-- How the counter of `item` leaves an order, before the venue's own state is looked at. -/
structure Counted (item : ι) (e e' : Entry) : Prop where
  filled : e'.filled = max e.filled (VenueItem.matched item)
  quantity : e'.row.quantity = e.row.quantity
  full : e.row.quantity ≤ e'.filled → e'.row.status = .filled
  rest : e'.filled < e.row.quantity → Resting e'.row.status
  fills : e'.fills = e.fills ∨ ∃ f, e'.fills = e.fills ++ [f] ∧
    f.brokerFillId = fillId (VenueItem.orderNo item) (VenueItem.matched item)

/-- The ack of a PENDING_NEW row. -/
theorem stage_ack {row : OrderRow} (item : ι) (he : db.find row.clientOrderId = some e)
    (hrow : e.row = row) (hlive : row.status = .pendingNew ∨ Resting row.status) :
    wp (sem (.reliable allows)) (fun _ _ => True)
      (sumOver attempt (if row.status = .pendingNew then
        [.ack row.clientOrderId (VenueItem.orderNo item)] else []))
      (fun r db' => (∃ n, r = .ok n) ∧ ∃ e₁, db'.find row.clientOrderId = some e₁ ∧
        e₁.fills = e.fills ∧ e₁.row.quantity = e.row.quantity ∧ Resting e₁.row.status) db := by
  split
  · rename_i hs
    refine wp_attempt_one (wp_mono (execute_ack _ he (hrow ▸ hs)) fun r db' h => ?_)
    exact ⟨h.1, _, h.2, rfl, rfl, .inl rfl⟩
  · rename_i hs
    exact wp_attempt_none ⟨e, he, rfl, rfl, hrow ▸ hlive.resolve_left hs⟩

/-- The fill of the difference, if there is one. -/
theorem stage_fill {row : OrderRow} {item : ι}
    (hclock : ∀ db r, allows db .now r → ∃ t, r = .ok t)
    (he : db.find row.clientOrderId = some e) (hs : Resting e.row.status)
    (hq : e.row.quantity = row.quantity) (hlt : e.filled < row.quantity) (hb : IdsBelow e)
    (hprice : ∃ p, VenueItem.fillPriceFor row item = some p ∧
      Storable p (VenueItem.matched item)) :
    wp (sem (.reliable allows)) (fun _ _ => True)
      (sumOver attempt (fillActions row e.filled item))
      (fun r db' => (∃ n, r = .ok n) ∧ ∃ e₁, db'.find row.clientOrderId = some e₁ ∧
        Counted item e e₁) db := by
  obtain ⟨p, hp, hstore⟩ := hprice
  have hnn : 0 ≤ e.filled := filledQty_nonneg e.fills
  unfold fillActions
  split
  · rename_i hdelta
    rw [hp]
    refine wp_attempt_one ?_
    rw [execute, Prog.bind_eq, wp_bind]
    refine wp_perform.mpr ⟨trivial, fun r db₁ hstep => ?_⟩
    obtain ⟨rfl, hnow⟩ := step_ext hstep
    obtain ⟨ts, rfl⟩ := hclock db₁ r hnow
    rw [outcome_ok, Prog.bind_eq, wp_bind]
    refine wp_perform.mpr ⟨trivial, fun r db₂ hstep => ?_⟩
    obtain ⟨t, ht⟩ := step_reliable hstep
    change db₁.applyFill _ _ p _ ts row.quantity = _ at ht
    have hstore' : Storable p (VenueItem.matched item - e.filled) :=
      ⟨hstore.1, hstore.2.1, by have := hstore.2.2; omega⟩
    obtain ⟨f, db', hname, hqty, hfill, hfind⟩ := applyFill_storable
      (fillId (VenueItem.orderNo item) (VenueItem.matched item)) ts row.quantity he hs hdelta hstore'
    rw [hfill] at ht
    obtain ⟨rfl, rfl⟩ := Prod.mk.inj ht
    -- the counter is above every counter a fill was named after
    have hnew : ∀ g ∈ e.fills, g.brokerFillId ≠ f.brokerFillId := by
      intro g hg heq
      have := hb g hg _ _ (heq.trans hname)
      omega
    obtain ⟨hfills, hfilled⟩ := addFill_new hnew
    have hmax : (Db.addFill e f).filled = max e.filled (VenueItem.matched item) := by
      rw [hfilled, hqty, max_eq_right (by omega)]
      omega
    refine ⟨rfl, _, hfind, hmax, ?_, fun hle => ?_, fun hlt => ?_, .inr ⟨f, hfills, hname⟩⟩
    · rw [withStatus_quantity, addFill_row]
    · rw [withStatus_filled, hq] at hle
      rw [withStatus_status, Db.fillTarget, if_pos hle]
    · rw [withStatus_filled, hq] at hlt
      rw [withStatus_status, Db.fillTarget, if_neg (not_le.mpr hlt)]
      exact .inr rfl
  · rename_i hdelta
    refine wp_attempt_none ⟨e, he, ⟨?_, rfl, ?_, fun _ => hs, .inl rfl⟩⟩
    · exact (max_eq_left (by omega)).symm
    · intro hle
      omega

/-- How a visit with `item` leaves a working order. -/
structure Visited (item : ι) (e e' : Entry) : Prop where
  filled : e'.filled = max e.filled (VenueItem.matched item)
  quantity : e'.row.quantity = e.row.quantity
  full : e'.row.status = .filled ↔ e.row.quantity ≤ e'.filled
  fills : e'.fills = e.fills ∨ ∃ f, e'.fills = e.fills ++ [f] ∧
    f.brokerFillId = fillId (VenueItem.orderNo item) (VenueItem.matched item)
  open_resting : isTerminal e'.row.status = false →
    Resting e'.row.status ∧ VenueItem.classifyVenueState item = .resting

theorem Visited.of_counted {item : ι} {e₁ e' : Entry} (h : Counted item e e₁)
    (hf : e'.fills = e₁.fills) (hq : e'.row.quantity = e₁.row.quantity)
    (hfull : e'.row.status = .filled ↔ e.row.quantity ≤ e₁.filled)
    (hopen : isTerminal e'.row.status = false →
      Resting e'.row.status ∧ VenueItem.classifyVenueState item = .resting) :
    Visited item e e' := by
  have hfilled : e'.filled = e₁.filled := congrArg filledQty hf
  exact ⟨hfilled.trans h.filled, hq.trans h.quantity, by rw [hfilled]; exact hfull,
    by rw [hf]; exact h.fills, hopen⟩

theorem execute_cancelTwoStep (he : db.find cid = some e) (hs : Resting e.row.status) :
    wp (sem (.reliable allows)) (fun _ _ => True) (execute (.cancelTwoStep cid))
      (fun r db' => r = .ok () ∧ db'.find cid = some (Db.withStatus e .cancelled)) db := by
  obtain rfl := Db.find_key he
  rw [execute, Prog.bind_eq, wp_bind]
  refine wp_mono (updateStatus_reliable he (s := .pendingCancel)
    (by rcases hs with h | h <;> rw [h] <;> decide)) fun r db₁ h₁ => ?_
  obtain ⟨rfl, hput₁⟩ := h₁
  rw [outcome_ok]
  refine wp_mono (updateStatus_reliable hput₁.find_self (s := .cancelled) rfl) fun r db₂ h₂ => ?_
  exact ⟨h₂.1, h₂.2.find_self⟩

theorem execute_expire (he : db.find cid = some e) (hs : Resting e.row.status) :
    wp (sem (.reliable allows)) (fun _ _ => True) (execute (.expire cid))
      (fun r db' => r = .ok () ∧ db'.find cid = some (Db.withStatus e .expired)) db := by
  obtain rfl := Db.find_key he
  refine wp_mono (updateStatus_reliable he (s := .expired)
    (by rcases hs with h | h <;> rw [h] <;> decide)) fun r db₁ h₁ => ?_
  exact ⟨h₁.1, h₁.2.find_self⟩

/-- The venue's own state, looked at while the counter is below the quantity. -/
theorem stage_terminal {row : OrderRow} {item : ι} {e₁ : Entry}
    (hq : e.row.quantity = row.quantity) (hlt : e.filled < row.quantity)
    (hrep : Reports row item) (he₁ : db.find row.clientOrderId = some e₁)
    (hc : Counted item e e₁) :
    wp (sem (.reliable allows)) (fun _ _ => True)
      (sumOver attempt (if VenueItem.matched item < row.quantity then
        venueTerminalActions row item else []))
      (fun r db' => (∃ n, r = .ok n) ∧ ∃ e', db'.find row.clientOrderId = some e' ∧
        Visited item e e') db := by
  split
  · rename_i hm
    have hbelow : e₁.filled < e.row.quantity := by
      rw [hc.filled, hq]
      exact max_lt hlt hm
    have hs := hc.rest hbelow
    have hno : ¬ e.row.quantity ≤ e₁.filled := not_le.mpr hbelow
    unfold venueTerminalActions
    split
    · refine wp_attempt_one (wp_mono (execute_cancelTwoStep he₁ hs) fun r db' h => ?_)
      exact ⟨h.1, _, h.2, .of_counted hc rfl rfl (iff_of_false (by simp) hno) fun h => nomatch h⟩
    · refine wp_attempt_one (wp_mono (execute_expire he₁ hs) fun r db' h => ?_)
      exact ⟨h.1, _, h.2, .of_counted hc rfl rfl (iff_of_false (by simp) hno) fun h => nomatch h⟩
    · rename_i hrej
      exact absurd hrej hrep.stands
    · rename_i hrest
      refine wp_attempt_none ⟨e₁, he₁, .of_counted hc rfl rfl ⟨fun h => ?_, fun h => absurd h hno⟩
        fun _ => ⟨hs, hrest⟩⟩
      rcases hs with hs | hs <;> rw [hs] at h <;> cases h
  · rename_i hm
    have hfull : e.row.quantity ≤ e₁.filled := by
      rw [hc.filled, hq]
      exact le_max_of_le_right (not_lt.mp hm)
    have hs := hc.full hfull
    refine wp_attempt_none ⟨e₁, he₁, .of_counted hc rfl rfl ⟨fun _ => hfull, fun _ => hs⟩
      fun h => ?_⟩
    rw [hs] at h
    cases h

/-- The plan for a row that is not cancelling, against a venue row that was not refused. -/
theorem planPresent_stages {row : OrderRow} {item : ι} {filled : Int}
    (hpc : row.status ≠ .pendingCancel)
    (hrej : ¬ (row.status = .pendingNew ∧ VenueItem.classifyVenueState item = .rejected)) :
    planPresent row filled item =
      (if row.status = .pendingNew then [.ack row.clientOrderId (VenueItem.orderNo item)] else []) ++
        fillActions row filled item ++
        if VenueItem.matched item < row.quantity then venueTerminalActions row item else [] := by
  unfold planPresent
  rw [if_neg (by simpa using hrej), if_neg hpc]

/-- A visit to a working order: the ack, the fill up to the counter, then the venue's own state. -/
theorem visit_stages {row : OrderRow} {res : Resolution ι} {item : ι} {now : Time} {J : Db → Prop}
    (hclock : ∀ db r, allows db .now r → ∃ t, r = .ok t)
    (he : db.find row.clientOrderId = some e) (hrow : e.row = row)
    (hlive : row.status = .pendingNew ∧ VenueItem.classifyVenueState item ≠ .rejected ∨
      Resting row.status)
    (hlt : e.filled < row.quantity) (hb : IdsBelow e) (hitem : res.item = some item)
    (hprice : ∃ p, VenueItem.fillPriceFor row item = some p ∧ Storable p (VenueItem.matched item))
    (hterminal : ∀ db₂ e₂, db₂.find row.clientOrderId = some e₂ → Counted item e e₂ →
      wp (sem (.reliable allows)) (fun _ _ => True)
        (sumOver attempt (if VenueItem.matched item < row.quantity then
          venueTerminalActions row item else []))
        (fun r db' => (∃ n, r = .ok n) ∧ J db') db₂) :
    wp (sem (.reliable allows)) (fun _ _ => True) (applyVisit row res now)
      (fun _ db' => J db') db := by
  have hq : e.row.quantity = row.quantity := by rw [hrow]
  have hplan : planActions row e.filled res.item now res.ambiguous =
      (if row.status = .pendingNew then [.ack row.clientOrderId (VenueItem.orderNo item)] else []) ++
        fillActions row e.filled item ++
        if VenueItem.matched item < row.quantity then venueTerminalActions row item else [] := by
    rw [hitem]
    refine planPresent_stages ?_ ?_
    · rcases hlive with ⟨h, -⟩ | h | h <;> rw [h] <;> decide
    · rintro ⟨hnew, hrej⟩
      rcases hlive with ⟨-, hstands⟩ | h | h
      · exact hstands hrej
      · rw [h] at hnew
        cases hnew
      · rw [h] at hnew
        cases hnew
  have hall : wp (sem (.reliable allows)) (fun _ _ => True)
      (sumOver attempt (planActions row e.filled res.item now res.ambiguous))
      (fun r db' => (∃ n, r = .ok n) ∧ J db') db := by
    rw [hplan]
    refine wp_sumOver_append
      (I := fun db' => ∃ e₂, db'.find row.clientOrderId = some e₂ ∧ Counted item e e₂)
      (wp_sumOver_append (stage_ack item he hrow (hlive.imp_left And.left)) ?_) ?_
    · rintro db₁ ⟨e₁, he₁, hf₁, hq₁, hs₁⟩
      have hfilled₁ : e₁.filled = e.filled := congrArg filledQty hf₁
      have hstage := stage_fill hclock he₁ hs₁ (hq₁.trans hq) (hfilled₁ ▸ hlt) (hb.of_fills hf₁)
        hprice
      rw [hfilled₁] at hstage
      refine wp_mono hstage fun r db₂ h => ⟨h.1, h.2.imp fun e₂ h₂ => ⟨h₂.1, ?_⟩⟩
      obtain ⟨hc₁, hc₂, hc₃, hc₄, hc₅⟩ := h₂.2
      rw [hfilled₁] at hc₁
      rw [hq₁] at hc₂ hc₃ hc₄
      rw [hf₁] at hc₅
      exact ⟨hc₁, hc₂, hc₃, hc₄, hc₅⟩
    · rintro db₂ ⟨e₂, he₂, hc⟩
      exact hterminal db₂ e₂ he₂ hc
  unfold applyVisit
  rw [Prog.bind_eq, wp_bind]
  refine wp_perform.mpr ⟨trivial, fun r db₁ hs => ?_⟩
  obtain ⟨t, ht⟩ := step_reliable hs
  obtain ⟨rfl, rfl⟩ := Prod.mk.inj ht
  have hplans : planError row e.filled res.item = none := by
    obtain ⟨p, hp, -, hfits, -⟩ := hprice
    have hfits := Decimal.fitsQuantum_of_fitsNumeric hfits
    have hquiet : fillPriceError row item = none := by simp [fillPriceError, hp, hfits]
    rw [hitem, planError, hquiet, ite_self]
  rw [outcome_ok, fetchOrderResult_of_find he]
  change wp _ _ (runPlan (plan row e.filled res.item now res.ambiguous) >>= _) _ _
  rw [plan_ok hplans, Prog.bind_eq, wp_bind]
  refine wp_mono hall fun r db' h => ?_
  obtain ⟨⟨n, rfl⟩, h⟩ := h
  exact h

/-- A visit to a working order whose venue row reports: the aggregate goes up to the counter. -/
theorem visit_counts {row : OrderRow} {res : Resolution ι} {item : ι} {now : Time}
    (hclock : ∀ db r, allows db .now r → ∃ t, r = .ok t)
    (he : db.find row.clientOrderId = some e) (hrow : e.row = row)
    (hlive : row.status = .pendingNew ∨ Resting row.status) (hlt : e.filled < row.quantity)
    (hb : IdsBelow e) (hitem : res.item = some item) (hrep : Reports row item) :
    wp (sem (.reliable allows)) (fun _ _ => True) (applyVisit row res now)
      (fun _ db' => ∃ e', db'.find row.clientOrderId = some e' ∧ Visited item e e') db :=
  visit_stages hclock he hrow (hlive.imp_left fun h => ⟨h, hrep.stands⟩) hlt hb hitem hrep.price
    fun _ _ he₂ hc => stage_terminal (by rw [hrow]) hlt hrep he₂ hc

end Stages

/-! ## Sequences of passes -/

section Passes

variable {ι : Type} [ReconcilerVenue ι] {cid : String}

/-- The pass resolves the order's row to `item`, which reports. -/
def PassData.Sees (P : PassData ι) (cid : String) (item : ι) : Prop :=
  ∃ row res, (row, res) ∈ P.visitsOf (ReconcilerVenue.groupKey ι row) ∧
    row.clientOrderId = cid ∧ res.item = some item ∧ Reports row item

/-- Passes one after the other, each with what it saw of the order. -/
inductive SeenPasses (cid : String) : Db → List ι → Db → Prop where
  | nil (db : Db) : SeenPasses cid db [] db
  | snoc {db db₁ db₂ : Db} {items : List ι} {item : ι} {P : PassData ι}
      (t : SeenPasses cid db items db₁) (hruns : P.Runs db₁ db₂) (hsees : P.Sees cid item) :
      SeenPasses cid db (items ++ [item]) db₂

/-- An order that a pass works on: nothing in the way of the next fill. -/
structure Working (e : Entry) : Prop where
  live : e.row.status = .pendingNew ∨ Resting e.row.status
  below : e.filled < e.row.quantity
  ids : IdsBelow e

theorem Agrees.working {e : Entry} (h : Agrees e)
    (hlive : e.row.status = .pendingNew ∨ Resting e.row.status) : Working e := by
  have hq := e.quantity_pos
  have hagree := h.1
  refine ⟨hlive, ?_, h.2⟩
  rcases hlive with hs | hs | hs <;> rw [hs] at hagree <;> simp only [AgreesWith] at hagree <;>
    omega

/-- The names of the fills stay below the aggregate. -/
theorem Visited.idsBelow {item : ι} {e e' : Entry} (h : Visited item e e') (hb : IdsBelow e) :
    IdsBelow e' := by
  intro g hg no m hname
  rw [h.filled]
  rcases h.fills with hf | ⟨f, hf, hid⟩
  · exact le_max_of_le_left (hb g (hf ▸ hg) no m hname)
  · rw [hf] at hg
    rcases List.mem_append.mp hg with hg | hg
    · exact le_max_of_le_left (hb g hg no m hname)
    · rw [List.mem_singleton.mp hg, hid] at hname
      exact le_max_of_le_right (fillId_inj hname).ge

/-- The order after passes that saw `items`, from `e`. -/
structure Telescoped (items : List ι) (e e' : Entry) : Prop where
  filled : e'.filled = (items.map VenueItem.matched).foldl max e.filled
  quantity : e'.row.quantity = e.row.quantity
  full : e'.row.status = .filled ↔ e.row.quantity ≤ e'.filled
  added : ∃ fs : List FillRow, e'.fills = e.fills ++ fs ∧ ∀ f ∈ fs, ∃ item ∈ items,
    f.brokerFillId = fillId (VenueItem.orderNo item) (VenueItem.matched item)
  ids : IdsBelow e'
  open_live : isTerminal e'.row.status = false →
    e'.row.status = .pendingNew ∨ Resting e'.row.status
  /-- The last venue row, seen again, asks for nothing. -/
  quiet : ∀ item, items.getLast? = some item → isTerminal e'.row.status = false →
    ∀ now ambiguous, planActions e'.row e'.filled (some item) now ambiguous = []

theorem Working.telescoped {e : Entry} (h : Working e) : Telescoped ([] : List ι) e e where
  filled := rfl
  quantity := rfl
  full := by
    refine iff_of_false ?_ (not_le.mpr h.below)
    rcases h.live with hs | hs | hs <;> rw [hs] <;> decide
  added := ⟨[], by simp, fun _ hf => nomatch hf⟩
  ids := h.ids
  open_live _ := h.live
  quiet _ hitem := nomatch hitem

/-- Once the aggregate has caught up with a resting venue row, the plan is empty. -/
theorem plan_quiet {row : OrderRow} {filled : Int} {item : ι} (hs : Resting row.status)
    (hm : VenueItem.matched item ≤ filled)
    (hrest : VenueItem.classifyVenueState item = .resting) (now : Time) (ambiguous : Bool) :
    planActions row filled (some item) now ambiguous = [] := by
  have hfill : fillActions row filled item = [] := if_neg (by omega)
  have hterm : venueTerminalActions row item = [] := by rw [venueTerminalActions, hrest]
  unfold planActions planPresent
  dsimp only
  rw [hfill, hterm, hrest]
  rcases hs with hs | hs <;> simp [hs]

theorem Telescoped.snoc {items : List ι} {item : ι} {e e₁ e₂ : Entry}
    (h : Telescoped items e e₁) (hv : Visited item e₁ e₂) : Telescoped (items ++ [item]) e e₂ where
  filled := by
    rw [hv.filled, h.filled, List.map_append, List.foldl_append]
    rfl
  quantity := hv.quantity.trans h.quantity
  full := by
    rw [hv.full, h.quantity]
  added := by
    obtain ⟨fs, hfs, hids⟩ := h.added
    rcases hv.fills with hf | ⟨f, hf, hid⟩
    · refine ⟨fs, hf.trans hfs, fun f hmem => ?_⟩
      obtain ⟨i, hi, hname⟩ := hids f hmem
      exact ⟨i, List.mem_append_left _ hi, hname⟩
    · refine ⟨fs ++ [f], by rw [hf, hfs, List.append_assoc], fun g hmem => ?_⟩
      rcases List.mem_append.mp hmem with hmem | hmem
      · obtain ⟨i, hi, hname⟩ := hids g hmem
        exact ⟨i, List.mem_append_left _ hi, hname⟩
      · rw [List.mem_singleton.mp hmem]
        exact ⟨item, by simp, hid⟩
  ids := hv.idsBelow h.ids
  open_live hopen := .inr (hv.open_resting hopen).1
  quiet i hi hopen := by
    rw [List.getLast?_concat] at hi
    obtain rfl := Option.some.inj hi
    obtain ⟨hs, hrest⟩ := hv.open_resting hopen
    refine plan_quiet hs ?_ hrest
    rw [hv.filled]
    exact le_max_right ..

/-- A listed order that telescoped so far is still working. -/
theorem Telescoped.working {items : List ι} {e e' : Entry} (h : Telescoped items e e')
    (hlisted : e'.row.status ∈ Db.reconcileStates) : Working e' := by
  have hopen : isTerminal e'.row.status = false := by
    revert hlisted
    cases e'.row.status <;> decide
  refine ⟨h.open_live hopen, ?_, h.ids⟩
  have hnot : e'.row.status ≠ .filled := by
    intro hs
    rw [hs] at hopen
    cases hopen
  have hbelow : ¬ e.row.quantity ≤ e'.filled := fun hle => hnot (h.full.mpr hle)
  rw [h.quantity]
  omega

/-- One more pass that sees the order. -/
theorem Telescoped.pass {items : List ι} {item : ι} {P : PassData ι} {db db' : Db}
    {e e₁ : Entry} (h : Telescoped items e e₁) (he : db.find cid = some e₁)
    (hruns : P.Runs db db') (hsees : P.Sees cid item) :
    ∃ e₂, db'.find cid = some e₂ ∧ Telescoped (items ++ [item]) e e₂ := by
  obtain ⟨row, res, hvisit, rfl, hitem, hrep⟩ := hsees
  have hrow := (PassData.mem_visitsOf hvisit).1
  obtain ⟨hcur, -, hstatus⟩ := mem_listing hruns.listing hrow
  obtain ⟨e', he', hrow'⟩ := hcur.find
  rw [he] at he'
  obtain rfl := Option.some.inj he'
  have hlisted : e₁.row.status ∈ Db.reconcileStates := by
    rw [hrow']
    simpa using hstatus
  have hw := h.working hlisted
  refine hruns.visited (Q := fun o => ∃ e₂, o = some e₂ ∧ Telescoped (items ++ [item]) e e₂)
    ⟨row, hrow, rfl⟩ fun row₁ res₁ hv₁ hcid₁ db₁ hdb₁ => ?_
  obtain ⟨rfl, rfl⟩ := PassData.visit_unique (listing_nodup hruns.listing) hv₁ hvisit hcid₁
  have hlive := hw.live
  have hbelow := hw.below
  rw [hrow'] at hlive hbelow
  refine wp_mono (visit_counts hruns.clock (hdb₁.trans he) hrow' hlive hbelow hw.ids hitem hrep)
    fun _ db₂ h₂ => ?_
  obtain ⟨e₂, he₂, hv⟩ := h₂
  exact ⟨e₂, he₂, h.snoc hv⟩

theorem SeenPasses.telescoped {items : List ι} {db db' : Db} {e : Entry}
    (h : SeenPasses cid db items db') (he : db.find cid = some e) (hw : Working e) :
    ∃ e', db'.find cid = some e' ∧ Telescoped items e e' := by
  induction h with
  | nil => exact ⟨e, he, hw.telescoped⟩
  | snoc _ hruns hsees ih =>
    obtain ⟨e₁, he₁, h₁⟩ := ih
    exact h₁.pass he₁ hruns hsees

/-- What a pass over `db` plans for a row it visits. -/
def PassData.planned (P : PassData ι) (db : Db) (row : OrderRow) (res : Resolution ι) :
    List ReconcileAction :=
  planActions row (filledOf (db.fetchOrderResult row.clientOrderId)) res.item P.now res.ambiguous

/-- Another pass that meets the last venue row again plans nothing. -/
theorem Telescoped.planned_nil {items : List ι} {item : ι} {P : PassData ι} {db : Db}
    {e e' : Entry} {row : OrderRow} {res : Resolution ι} (h : Telescoped items e e')
    (he : db.find row.clientOrderId = some e') (hlast : items.getLast? = some item)
    (hlist : IsListing P.rows (db.fetchOrdersForReconcile (ReconcilerVenue.broker ι) false))
    (hvisit : (row, res) ∈ P.visitsOf (ReconcilerVenue.groupKey ι row))
    (hitem : res.item = some item) : P.planned db row res = [] := by
  obtain ⟨hcur, -, hstatus⟩ := mem_listing hlist (PassData.mem_visitsOf hvisit).1
  obtain ⟨e₁, he₁, hrow⟩ := hcur.find
  rw [he] at he₁
  obtain rfl := Option.some.inj he₁
  have hopen : isTerminal e'.row.status = false := by
    rw [hrow]
    revert hstatus
    cases row.status <;> decide
  have hquiet := h.quiet item hlast hopen P.now res.ambiguous
  rw [hrow] at hquiet
  rw [PassData.planned, fetchOrderResult_of_find he, hitem]
  exact hquiet

/-- However the counters the passes see go up, repeat or dip: the fills add up to the largest, the
    order is FILLED exactly when that reaches its quantity, no fill name is used twice, and a
    further pass over the last venue row plans nothing. -/
theorem fills_telescope {requests : List Request} {x : World}
    (hrun : SeqRun adapterEnv (Db.empty, []) requests x) {e : Entry}
    (he : x.1.find cid = some e)
    (hlive : e.row.status ∈ [OrderState.pendingNew, .new, .partiallyFilled]) {items : List ι}
    {db : Db} (hseen : SeenPasses cid x.1 items db) :
    ∃ e', db.find cid = some e' ∧
      e'.filled = (items.map VenueItem.matched).foldl max e.filled ∧
      (e'.row.status = .filled ↔
        e.row.quantity ≤ (items.map VenueItem.matched).foldl max e.filled) ∧
      (e'.fills.map FillRow.brokerFillId).Nodup ∧
      (∃ fs : List FillRow, e'.fills = e.fills ++ fs ∧ ∀ f ∈ fs, ∃ item ∈ items,
        f.brokerFillId = fillId (VenueItem.orderNo item) (VenueItem.matched item)) ∧
      ∀ item, items.getLast? = some item → ∀ P : PassData ι,
        IsListing P.rows (db.fetchOrdersForReconcile (ReconcilerVenue.broker ι) false) →
        ∀ row res, (row, res) ∈ P.visitsOf (ReconcilerVenue.groupKey ι row) →
          row.clientOrderId = cid → res.item = some item → P.planned db row res = [] := by
  have hworks : e.row.status = .pendingNew ∨ Resting e.row.status := by
    simpa [Resting] using hlive
  have hagrees := agreement_run agreement_empty hrun cid e he
  obtain ⟨e', he', h⟩ := hseen.telescoped he (Agrees.working hagrees hworks)
  refine ⟨e', he', h.filled, ?_, e'.uq, h.added, fun item hlast P hlist row res hvisit hcid => ?_⟩
  · rw [← h.filled]
    exact h.full
  · subst hcid
    exact h.planned_nil he' hlast hlist hvisit

end Passes

/-! ## A sample run -/

section Sample

open Liberator (VenueOrderItem)

/-- Does the pass resolve the order to `item`, and can its counter be recorded? -/
def samplePassSees (cid : String) (t : Time) (item : VenueOrderItem) (db : Db) : Bool :=
  (samplePass t [item] db).rows.any fun row => row.clientOrderId = cid &&
    (((samplePass t [item] db).visitsOf (ReconcilerVenue.groupKey VenueOrderItem row)).any fun v =>
      v.1 = row && v.2.item = some item) &&
    ((Liberator.fillPriceFor row item).any fun p =>
      p.numeric.isPos && p.fitsNumeric && item.matched < 2 ^ 63) &&
    Liberator.classifyVenueState item ≠ .rejected

theorem samplePass_sees {cid : String} {t : Time} {item : VenueOrderItem} {db : Db}
    (h : samplePassSees cid t item db = true) : (samplePass t [item] db).Sees cid item := by
  obtain ⟨row, -, h⟩ := List.any_eq_true.mp h
  simp only [Bool.and_eq_true, decide_eq_true_eq] at h
  obtain ⟨⟨⟨hcid, hvisit⟩, hprice⟩, hstands⟩ := h
  obtain ⟨⟨row', res⟩, hmem, hv⟩ := List.any_eq_true.mp hvisit
  simp only [Bool.and_eq_true, decide_eq_true_eq] at hv
  obtain ⟨rfl, hitem⟩ := hv
  obtain ⟨p, hp, hstore⟩ := (Option.any_eq_true _ _).mp hprice
  simp only [Bool.and_eq_true, decide_eq_true_eq] at hstore
  exact ⟨row', res, hmem, hcid, hitem, ⟨p, hp, hstore.1.1, hstore.1.2, hstore.2⟩, hstands⟩

/-- Passes over books of one row each, all of which see the order. -/
def samplePasses (cid : String) : List (Time × VenueOrderItem) → Db → Option Db
  | [], db => some db
  | (t, item) :: rest, db =>
    if samplePassSees cid t item db then (samplePassEnd t [item] db).bind (samplePasses cid rest)
    else none

theorem samplePasses_seen {cid : String} {books : List (Time × VenueOrderItem)}
    {items : List VenueOrderItem} {db₀ db db' : Db} (hseen : SeenPasses cid db₀ items db)
    (h : samplePasses cid books db = some db') :
    SeenPasses cid db₀ (items ++ books.map Prod.snd) db' := by
  induction books generalizing items db with
  | nil =>
    obtain rfl := Option.some.inj h
    simpa using hseen
  | cons book rest ih =>
    obtain ⟨t, item⟩ := book
    unfold samplePasses at h
    split at h
    · rename_i hsees
      obtain ⟨db₁, hend, hrest⟩ := Option.bind_eq_some_iff.mp h
      have := ih (hseen.snoc (samplePass_runs hend) (samplePass_sees hsees)) hrest
      simpa using this
    · cases h

/-- A counter that goes to 40, dips to 30 and comes back at 100 fills the order once. -/
theorem dipping_counter_telescopes :
    ∃ x db e e', SeqRun adapterEnv (Db.empty, [])
        [.submit liveRouter 0 (sampleOrderA .liberator) none] x ∧
      x.1.find cidA = some e ∧ e.filled = 0 ∧
      SeenPasses cidA x.1 [sampleItem 40, sampleItem 30, sampleItem 100] db ∧
      db.find cidA = some e' ∧ e'.filled = 100 ∧
      (e'.row.status = .filled ↔ e.row.quantity ≤ 100) := by
  have h : ((runRequests quietHandler [.submit liveRouter 0 (sampleOrderA .liberator) none]
      (Db.empty, [])).any fun x => (x.1.find cidA).any (fun e =>
        decide (e.row.status = .pendingNew) && decide (e.filled = 0)) &&
        (samplePasses cidA [(seconds 10, sampleItem 40), (seconds 20, sampleItem 30),
          (seconds 30, sampleItem 100)] x.1).isSome) = true := by decide +kernel
  obtain ⟨x, hrun, hx⟩ := exists_run quiet_follows h
  obtain ⟨he, hdb⟩ := Bool.and_eq_true_iff.mp hx
  obtain ⟨e, he, hst⟩ := (Option.any_eq_true _ _).mp he
  simp only [Bool.and_eq_true, decide_eq_true_eq] at hst
  obtain ⟨db, hdb⟩ := Option.isSome_iff_exists.mp hdb
  have hseen := samplePasses_seen (.nil x.1) hdb
  obtain ⟨e', he', hfilled, hfull, -⟩ :=
    fills_telescope hrun he (by rw [hst.1]; decide) hseen
  have hmax : ([sampleItem 40, sampleItem 30, sampleItem 100].map VenueItem.matched).foldl max
      e.filled = 100 := by
    rw [hst.2]
    decide
  refine ⟨x, db, e, e', hrun, he, hst.2, hseen, he', hfilled.trans hmax, ?_⟩
  rw [← hmax]
  exact hfull

end Sample

end Reconcile

end ExecutionEngine
