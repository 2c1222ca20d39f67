/-
  What a submit to the simulator comes to.

  The metadata of an order declare its outcome: a rejection (`Refused`) or a fill plan
  (`Declares`); `fillPlan_spec` says that the adapter reads them so. The router then
  acks the order, applies the fills one transaction at a time (`fills_spec`, an
  induction on the plan: until the last fill the order is still working) and cancels
  an IOC remainder. `sim_settles` puts this under the whole of `submit`, over a store
  that does not fail and that nobody else writes to.
-/
import ExecutionEngine.Core.Responses

namespace ExecutionEngine

open Async Async.Prog StateMachine Reconcile

namespace SimAdapter

/-! ## What an order declares -/

def simReject (o : NormalizedOrder) : Json := Json.lookup o.metadata "sim_reject"

def simFills (o : NormalizedOrder) : Json := Json.lookup o.metadata "sim_fills"

/-- A list of positive integers that adds up to the order's quantity at most. -/
def IsPlan (o : NormalizedOrder) (raw : Json) (plan : List Int) : Prop :=
  raw = .arr (plan.map .int) ∧ (∀ q ∈ plan, 0 < q) ∧ plan.sum ≤ o.quantity

/-- The fill quantities an order declares; nothing said is one full fill. -/
def Declares (o : NormalizedOrder) (plan : List Int) : Prop :=
  simFills o = .null ∧ plan = [o.quantity] ∨ IsPlan o (simFills o) plan

/-- The order declares its own rejection, something that is no plan, or a plan its FOK forbids. -/
def Refused (o : NormalizedOrder) : Prop :=
  simReject o ≠ .null ∨ (simFills o ≠ .null ∧ ¬ ∃ plan, IsPlan o (simFills o) plan) ∨
    (o.tif = .fok ∧ ¬ Declares o [o.quantity])

variable {o : NormalizedOrder} {plan : List PosQty}

theorem posQty_iff {j : Json} {q : PosQty} : posQty j = some q ↔ j = .int q.1 := by
  cases j with
  | int n =>
    by_cases h : 0 < n
    · simp only [posQty, dif_pos h, Option.some.injEq, Json.int.injEq]
      constructor
      · rintro rfl
        rfl
      · rintro rfl
        rfl
    · simp only [posQty, dif_neg h, Json.int.injEq]
      refine iff_of_false nofun ?_
      rintro rfl
      exact h q.2
  | _ => exact iff_of_false nofun nofun

theorem mapM_posQty_iff {items : List Json} :
    items.mapM posQty = some plan ↔ items = plan.map fun q => .int q.1 := by
  induction items generalizing plan with
  | nil =>
    cases plan with
    | nil => exact iff_of_true rfl rfl
    | cons q qs => exact iff_of_false nofun nofun
  | cons j items ih =>
    rw [List.mapM_cons]
    cases plan with
    | nil =>
      refine iff_of_false (fun h => ?_) nofun
      simp [Option.bind_eq_some_iff] at h
    | cons q qs =>
      simp only [Option.bind_eq_bind, Option.pure_def, Option.bind_eq_some_iff, Option.some.injEq,
        List.cons.injEq, List.map_cons, posQty_iff]
      constructor
      · rintro ⟨a, ha, b, hb, rfl, rfl⟩
        exact ⟨ha, ih.mp hb⟩
      · rintro ⟨ha, hb⟩
        exact ⟨q, ha, qs, ih.mpr hb, rfl, rfl⟩

theorem posQtys_iff {raw : Json} :
    posQtys raw = some plan ↔ raw = .arr (plan.map fun q => .int q.1) := by
  cases raw with
  | arr items => simp only [posQtys, mapM_posQty_iff, Json.arr.injEq]
  | _ => exact iff_of_false nofun nofun

/-- A list of positive integers, with the proofs. -/
theorem exists_posQtys {qs : List Int} (h : ∀ q ∈ qs, 0 < q) :
    ∃ plan : List PosQty, plan.map Subtype.val = qs :=
  ⟨qs.attach.map fun q => ⟨q.1, h q.1 q.2⟩, by simp⟩

theorem arr_int_inj {xs ys : List Int} (h : Json.arr (xs.map .int) = .arr (ys.map .int)) :
    xs = ys := by
  have hmap := Json.arr.inj h
  exact List.map_injective_iff.mpr (fun a b hab => Json.int.inj hab) hmap

theorem Declares.unique {p q : List Int} (hp : Declares o p) (hq : Declares o q) : p = q := by
  rcases hp with ⟨hnull, rfl⟩ | ⟨hraw, -⟩ <;> rcases hq with ⟨hnull', rfl⟩ | ⟨hraw', -⟩
  · rfl
  · rw [hnull] at hraw'
    cases hraw'
  · rw [hnull'] at hraw
    cases hraw
  · exact arr_int_inj (hraw.symm.trans hraw')

/-- The plan before the FOK rule. -/
theorem declares_iff : Declares o (plan.map Subtype.val) ↔
    simFills o = .null ∧ plan = [⟨o.quantity, o.quantity_pos⟩] ∨
    posQtys (simFills o) = some plan ∧ planSum plan ≤ o.quantity := by
  refine or_congr (and_congr_right fun _ => ?_) ?_
  · constructor
    · intro h
      exact List.map_injective_iff.mpr Subtype.val_injective h
    · rintro rfl
      rfl
  · rw [posQtys_iff, IsPlan, List.map_map]
    refine and_congr_right fun _ => and_iff_right fun q hq => ?_
    obtain ⟨p, -, rfl⟩ := List.mem_map.mp hq
    exact p.2

/-- With nothing said the plan is one full fill, which FOK allows. -/
theorem fillPlan_null (hreject : simReject o = .null) (hfills : simFills o = .null) :
    fillPlan o = .ok [⟨o.quantity, o.quantity_pos⟩] := by
  have hreject : Json.lookup o.metadata "sim_reject" = .null := hreject
  have hfills : Json.lookup o.metadata "sim_fills" = .null := hfills
  simp [fillPlan, hreject, hfills]

/-- Something that is no list of positive integers. -/
theorem fillPlan_invalid (hreject : simReject o = .null) (hfills : simFills o ≠ .null)
    (h : posQtys (simFills o) = none) : ∃ reason, fillPlan o = .error reason := by
  have hreject : Json.lookup o.metadata "sim_reject" = .null := hreject
  unfold fillPlan simFills at *
  rw [hreject]
  cases hraw : Json.lookup o.metadata "sim_fills" with
  | null => exact absurd hraw hfills
  | _ =>
    rw [hraw] at h
    dsimp only
    rw [h]
    exact ⟨_, rfl⟩

/-- A list of positive integers has to be covered, and allowed by the FOK rule. -/
theorem fillPlan_listed (hreject : simReject o = .null) (h : posQtys (simFills o) = some plan) :
    (o.quantity < planSum plan → ∃ reason, fillPlan o = .error reason) ∧
    (planSum plan ≤ o.quantity →
      (o.tif = .fok → plan.map Subtype.val ≠ [o.quantity] → ∃ reason, fillPlan o = .error reason) ∧
      ((o.tif = .fok → plan.map Subtype.val = [o.quantity]) → fillPlan o = .ok plan)) := by
  have hreject : Json.lookup o.metadata "sim_reject" = .null := hreject
  have hraw : Json.lookup o.metadata "sim_fills" = .arr (plan.map fun q => .int q.1) :=
    posQtys_iff.mp h
  unfold simFills at h
  rw [hraw] at h
  unfold fillPlan
  rw [hreject, hraw]
  dsimp only
  rw [h]
  dsimp only
  constructor
  · intro hover
    rw [if_pos hover]
    exact ⟨_, rfl⟩
  · intro hcovered
    rw [if_neg (not_lt.mpr hcovered)]
    dsimp only
    constructor
    · intro hfok hne
      rw [if_pos (by rw [Bool.and_eq_true, decide_eq_true_eq, decide_eq_true_eq]; exact ⟨hfok, hne⟩)]
      exact ⟨_, rfl⟩
    · intro hok
      rw [if_neg]
      rw [Bool.and_eq_true, decide_eq_true_eq, decide_eq_true_eq]
      exact fun hboth => hboth.2 (hok hboth.1)

theorem fillPlan_reject (hreject : simReject o ≠ .null) : ∃ reason, fillPlan o = .error reason := by
  unfold fillPlan simReject at *
  cases hraw : Json.lookup o.metadata "sim_reject" with
  | null => exact absurd hraw hreject
  | _ => exact ⟨_, rfl⟩

/-- The adapter reads the metadata as they are meant. -/
theorem fillPlan_spec (o : NormalizedOrder) :
    Refused o ∧ (∃ reason, fillPlan o = .error reason) ∨
    ¬ Refused o ∧ ∃ plan, Declares o (plan.map Subtype.val) ∧ fillPlan o = .ok plan := by
  by_cases hreject : simReject o = .null
  · by_cases hfills : simFills o = .null
    · have hone : Declares o [o.quantity] := .inl ⟨hfills, rfl⟩
      refine .inr ⟨?_, [⟨o.quantity, o.quantity_pos⟩], hone, fillPlan_null hreject hfills⟩
      rintro (h | ⟨h, -⟩ | ⟨-, h⟩)
      · exact h hreject
      · exact h hfills
      · exact h hone
    · cases hplan : posQtys (simFills o) with
      | none =>
        refine .inl ⟨.inr (.inl ⟨hfills, ?_⟩), fillPlan_invalid hreject hfills hplan⟩
        rintro ⟨qs, hraw, hpos, -⟩
        obtain ⟨plan, rfl⟩ := exists_posQtys hpos
        rw [List.map_map] at hraw
        rw [posQtys_iff.mpr hraw] at hplan
        cases hplan
      | some plan =>
        obtain ⟨hover, hcovered⟩ := fillPlan_listed hreject hplan
        rcases lt_or_ge o.quantity (planSum plan) with hlt | hle
        · refine .inl ⟨.inr (.inl ⟨hfills, ?_⟩), hover hlt⟩
          rintro ⟨qs, hraw, -, hsum⟩
          have hsame := posQtys_iff.mp hplan
          rw [hraw] at hsame
          have hqs : qs = plan.map Subtype.val := arr_int_inj (by rw [hsame, List.map_map]; rfl)
          rw [planSum, ← hqs] at hlt
          omega
        · have hdecl : Declares o (plan.map Subtype.val) := declares_iff.mpr (.inr ⟨hplan, hle⟩)
          obtain ⟨hforbidden, hallowed⟩ := hcovered hle
          by_cases hfok : o.tif = .fok ∧ plan.map Subtype.val ≠ [o.quantity]
          · refine .inl ⟨.inr (.inr ⟨hfok.1, fun h => hfok.2 (hdecl.unique h)⟩), ?_⟩
            exact hforbidden hfok.1 hfok.2
          · have hone : o.tif = .fok → plan.map Subtype.val = [o.quantity] := by
              intro htif
              by_contra hne
              exact hfok ⟨htif, hne⟩
            refine .inr ⟨?_, plan, hdecl, hallowed hone⟩
            rintro (h | ⟨-, h⟩ | ⟨htif, h⟩)
            · exact h hreject
            · rcases hdecl with ⟨hnull, -⟩ | hisPlan
              · exact hfills hnull
              · exact h ⟨_, hisPlan⟩
            · rw [hone htif] at hdecl
              exact h hdecl
  · exact .inl ⟨.inl hreject, fillPlan_reject hreject⟩

/-- The index can be read off a fill's id. -/
theorem simFillId_inj {cid : String} {i j : Nat} (h : simFillId cid i = simFillId cid j) : i = j := by
  have hlist := congrArg String.toList h
  rw [simFillId, simFillId, String.toList_append, String.toList_append (t := toString j)] at hlist
  exact repr_inj (String.toList_inj.mp (List.append_cancel_left hlist))

theorem planSum_cons (q : PosQty) (qs : List PosQty) : planSum (q :: qs) = q.1 + planSum qs := by
  rw [planSum, planSum, List.map_cons, List.sum_cons]

theorem planSum_nonneg (plan : List PosQty) : 0 ≤ planSum plan := by
  induction plan with
  | nil => exact le_refl 0
  | cons q qs ih =>
    have := q.2
    rw [planSum_cons]
    omega

theorem planSum_pos {plan : List PosQty} (h : plan ≠ []) : 0 < planSum plan := by
  cases plan with
  | nil => exact absurd rfl h
  | cons q qs =>
    have := q.2
    have := planSum_nonneg qs
    rw [planSum_cons]
    omega

/-! ## The fills -/

section Fills

variable {allows : Db → (o : ExtOp) → Except Exn o.Res → Prop} {db : Db} {e : Entry}

/-- How an accepted order stands with `filled` of it filled, by a plan that did it or not. -/
def workingStatus (o : NormalizedOrder) (filled : Int) : OrderState :=
  if filled = o.quantity then .filled else if filled = 0 then .new else .partiallyFilled

/-- The order's own row on the way: nothing but the plan has filled it, under ids below `i`. -/
structure Filling (o : NormalizedOrder) (i : Nat) (sum : Int) (e : Entry) : Prop where
  filled : e.filled = sum
  quantity : e.row.quantity = o.quantity
  status : e.row.status = workingStatus o sum
  ids : ∀ f ∈ e.fills, ∃ j < i, f.brokerFillId = simFillId o.clientOrderId j

/-- One fill of the plan. -/
theorem Filling.fill {i : Nat} {filled : Int} {price : Decimal} {ts : Time} {q : PosQty}
    (h : Filling o i filled e) (he : db.find o.clientOrderId = some e) (hnn : 0 ≤ filled)
    (hle : filled + q.1 ≤ o.quantity) (hprice : Storable price q.1) :
    wp (sem (.reliable allows)) (fun _ _ => True)
      (Router.applyFillReport o ⟨simFillId o.clientOrderId i, price, q.1, ts, q.2⟩)
      (fun r db' => r = .ok () ∧ ∃ e', db'.find o.clientOrderId = some e' ∧
        Filling o (i + 1) (filled + q.1) e') db := by
  have hq := q.2
  have hresting : Resting e.row.status := by
    have hlt : filled ≠ o.quantity := by omega
    rw [h.status, workingStatus, if_neg hlt]
    by_cases hzero : filled = 0
    · exact .inl (if_pos hzero)
    · exact .inr (if_neg hzero)
  obtain ⟨f, db', hname, hqty, happly, hfind⟩ :=
    applyFill_storable (simFillId o.clientOrderId i) ts o.quantity he hresting hq hprice
  have hnew : ∀ g ∈ e.fills, g.brokerFillId ≠ f.brokerFillId := by
    intro g hg heq
    obtain ⟨j, hj, hid⟩ := h.ids g hg
    have := simFillId_inj (hid.symm.trans (heq.trans hname))
    omega
  obtain ⟨hfills, hsum⟩ := addFill_new hnew
  unfold Router.applyFillReport
  rw [Prog.bind_eq, wp_bind]
  refine wp_perform.mpr ⟨trivial, fun r db₁ hs => ?_⟩
  obtain ⟨t, ht⟩ := step_reliable hs
  obtain ⟨rfl, rfl⟩ := Prod.mk.inj (happly.symm.trans ht)
  rw [outcome_ok]
  refine ⟨rfl, _, hfind, ?_⟩
  constructor
  · rw [withStatus_filled, hsum, h.filled, hqty]
  · rw [withStatus_quantity, addFill_row]
    exact h.quantity
  · show Db.fillTarget (Db.addFill e f) o.quantity = _
    rw [Db.fillTarget, hsum, h.filled, hqty, workingStatus]
    by_cases hfull : filled + q.1 = o.quantity
    · rw [if_pos hfull.ge, if_pos hfull]
    · rw [if_neg (by omega), if_neg hfull, if_neg (by omega)]
  · intro g hg
    have hg : g ∈ (Db.addFill e f).fills := hg
    rw [hfills] at hg
    rcases List.mem_append.mp hg with hg | hg
    · obtain ⟨j, hj, hid⟩ := h.ids g hg
      exact ⟨j, by omega, hid⟩
    · rw [List.mem_singleton.mp hg]
      exact ⟨i, Nat.lt_succ_self i, hname⟩

/-- The fills of the plan, one after the other. -/
theorem fills_spec {i : Nat} {filled : Int} {price : Decimal} {ts : Time} (plan : List PosQty)
    (h : Filling o i filled e) (he : db.find o.clientOrderId = some e) (hnn : 0 ≤ filled)
    (hle : filled + planSum plan ≤ o.quantity) (hprice : Storable price o.quantity) :
    wp (sem (.reliable allows)) (fun _ _ => True)
      (forEach (Router.applyFillReport o) (planFills o.clientOrderId price ts i plan))
      (fun r db' => r = .ok () ∧ ∃ e' j, db'.find o.clientOrderId = some e' ∧
        Filling o j (filled + planSum plan) e') db := by
  induction plan generalizing i filled e db with
  | nil =>
    refine ⟨rfl, e, i, he, ?_⟩
    rw [planSum, List.map_nil, List.sum_nil, add_zero]
    exact h
  | cons q qs ih =>
    have hq := q.2
    have hqs := planSum_nonneg qs
    rw [planSum_cons] at hle ⊢
    have hstorable : Storable price q.1 := ⟨hprice.1, hprice.2.1, by have := hprice.2.2; omega⟩
    rw [planFills, forEach, wp_bind]
    refine wp_mono (h.fill he hnn (by omega) hstorable) fun r db₁ h₁ => ?_
    obtain ⟨rfl, e₁, he₁, hfilling⟩ := h₁
    rw [outcome_ok, ← add_assoc]
    exact ih hfilling he₁ (by omega) (by omega)

/-! ## The outcome -/

/-- The order has come to what its metadata declare. -/
structure AsDeclared (o : NormalizedOrder) (e : Entry) : Prop where
  rejected : e.row.status = .rejected ∧ e.fills = [] ↔ Refused o
  filled : ¬ Refused o → ∀ plan, Declares o plan → e.filled = plan.sum ∧
    (e.row.status = .filled ↔ plan.sum = o.quantity) ∧
    (e.row.status = .cancelled ↔ o.tif = .ioc ∧ plan.sum < o.quantity) ∧
    (e.row.status = .partiallyFilled ↔ plan ≠ [] ∧ plan.sum ≠ o.quantity ∧ o.tif ≠ .ioc) ∧
    (e.row.status = .new ↔ plan = [] ∧ o.tif ≠ .ioc)

/-- The status an accepted order is left in. -/
def finalStatus (o : NormalizedOrder) (sum : Int) : OrderState :=
  if o.tif = .ioc ∧ sum < o.quantity then .cancelled else workingStatus o sum

theorem workingStatus_open {sum : Int} (h : sum < o.quantity) :
    workingStatus o sum = if sum = 0 then .new else .partiallyFilled :=
  if_neg h.ne

theorem asDeclared_of_plan (hok : ¬ Refused o) (hplan : Declares o (plan.map Subtype.val))
    (hle : planSum plan ≤ o.quantity) (hfilled : e.filled = planSum plan)
    (hstatus : e.row.status = finalStatus o (planSum plan)) : AsDeclared o e := by
  have hpos := o.quantity_pos
  have hempty : plan.map Subtype.val = [] ↔ planSum plan = 0 := by
    rw [List.map_eq_nil_iff]
    constructor
    · rintro rfl
      rfl
    · intro hzero
      by_contra hne
      have := planSum_pos hne
      omega
  constructor
  · refine iff_of_false (fun h => ?_) hok
    rw [hstatus, finalStatus, workingStatus] at h
    have hno := h.1
    split at hno
    · cases hno
    · split at hno
      · cases hno
      · split at hno <;> cases hno
  · rintro - plan' hplan'
    obtain rfl := hplan.unique hplan'
    have hsum : (plan.map Subtype.val).sum = planSum plan := rfl
    rw [hsum, ne_eq (plan.map Subtype.val), hempty]
    refine ⟨hfilled, ?_⟩
    rw [hstatus, finalStatus]
    by_cases hfull : planSum plan = o.quantity
    · have hnot : ¬ (o.tif = .ioc ∧ planSum plan < o.quantity) := by omega
      have hzero : planSum plan ≠ 0 := by omega
      rw [if_neg hnot, workingStatus, if_pos hfull]
      simp [hfull, hpos.ne']
    · have hlt : planSum plan < o.quantity := by omega
      rw [workingStatus_open hlt]
      by_cases hioc : o.tif = .ioc
      · simp [hioc, hlt, hfull]
      · by_cases hzero : planSum plan = 0
        · simp [hioc, hzero, hpos.ne]
        · simp [hioc, hzero, hfull]

theorem asDeclared_of_refused (h : Refused o) (hstatus : e.row.status = .rejected)
    (hfills : e.fills = []) : AsDeclared o e :=
  ⟨iff_of_true ⟨hstatus, hfills⟩ h, fun hok => absurd h hok⟩

/-- A price that the fills table takes. -/
def StoredPrice (price : Decimal) : Prop :=
  price.numeric.isPos = true ∧ price.fitsNumeric = true

instance (price : Decimal) : Decidable (StoredPrice price) := inferInstanceAs (Decidable (_ ∧ _))

/-- The simulator answers: a placement at a price that can be stored, and every cancel. -/
structure Simulates (allows : Db → (o : ExtOp) → Except Exn o.Res → Prop) (o : NormalizedOrder) :
    Prop where
  place : ∀ db r, allows db (.place .sim o) r → ∃ defaultFillPrice source ts,
    r = .ok (placeAck defaultFillPrice o source ts) ∧
    StoredPrice (source.getD (referencePrice defaultFillPrice o))
  cancel : ∀ db r, allows db (.cancel .sim o.clientOrderId) r → r = .ok {}

/-- The freshly inserted row. -/
structure Fresh (o : NormalizedOrder) (e : Entry) : Prop where
  status : e.row.status = .pendingNew
  quantity : e.row.quantity = o.quantity
  fills : e.fills = []
  bounded : o.quantity < 2 ^ 63

theorem settle_spec {price : Decimal} {ts : Time} {ack : PlaceAck} (no : String)
    (hsim : Simulates allows o) (he : db.find o.clientOrderId = some e) (hfresh : Fresh o e)
    (hle : planSum plan ≤ o.quantity) (hprice : StoredPrice price)
    (hfills : ack.fills = planFills o.clientOrderId price ts 1 plan)
    (hremainder : ack.remainderCancelled = decide (o.tif = .ioc ∧ planSum plan < o.quantity)) :
    wp (sem (.reliable allows)) (fun _ _ => True) (Router.settle .sim o no ack)
      (fun r db' => r = .ok .confirmed ∧ ∃ e', db'.find o.clientOrderId = some e' ∧
        e'.filled = planSum plan ∧ e'.row.status = finalStatus o (planSum plan)) db := by
  have hpos := o.quantity_pos
  unfold Router.settle
  rw [Prog.bind_eq, wp_bind]
  refine wp_mono (execute_ack no he hfresh.status) fun r db₁ h₁ => ?_
  obtain ⟨rfl, he₁⟩ := h₁
  have hfilling : Filling o 1 0 { e with row := { e.row with
      status := .new, brokerOrderId := some no } } := by
    refine ⟨?_, hfresh.quantity, ?_, ?_⟩
    · show filledQty e.fills = 0
      rw [hfresh.fills]
      rfl
    · rw [workingStatus, if_neg hpos.ne, if_pos rfl]
    · intro f hf
      have hf : f ∈ e.fills := hf
      rw [hfresh.fills] at hf
      cases hf
  rw [outcome_ok, Prog.bind_eq, wp_bind, hfills]
  refine wp_mono (fills_spec plan hfilling he₁ le_rfl (by omega)
    ⟨hprice.1, hprice.2, hfresh.bounded⟩) fun r db₂ h₂ => ?_
  obtain ⟨rfl, e₂, j, he₂, hdone⟩ := h₂
  rw [zero_add] at hdone
  rw [outcome_ok, hremainder]
  split
  · rename_i hioc
    rw [decide_eq_true_eq] at hioc
    have hopen : isLegal e₂.row.status .pendingCancel = true := by
      rw [hdone.status, workingStatus_open hioc.2]
      split <;> decide
    obtain hkey := Db.find_key he₂
    rw [Prog.bind_eq, wp_bind]
    refine wp_mono (updateStatus_reliable he₂ hopen) fun r db₃ h₃ => ?_
    obtain ⟨rfl, hput₃⟩ := h₃
    have he₃ := hput₃.find_self
    rw [withStatus_key, hkey] at he₃
    rw [outcome_ok, Prog.bind_eq, wp_bind]
    refine wp_perform.mpr ⟨trivial, fun r db₄ hs => ?_⟩
    obtain ⟨rfl, hr⟩ := step_ext hs
    obtain rfl := hsim.cancel _ r hr
    rw [outcome_ok, Prog.bind_eq, wp_bind]
    refine wp_mono (updateStatus_reliable he₃ (s := .cancelled) rfl) fun r db₅ h₅ => ?_
    obtain ⟨rfl, hput₅⟩ := h₅
    have he₅ := hput₅.find_self
    rw [withStatus_key, withStatus_key, hkey] at he₅
    refine ⟨rfl, _, he₅, hdone.filled, ?_⟩
    rw [finalStatus, if_pos hioc]
    rfl
  · rename_i hkeep
    rw [decide_eq_true_eq] at hkeep
    refine ⟨rfl, e₂, he₂, hdone.filled, ?_⟩
    rw [finalStatus, if_neg hkeep]
    exact hdone.status

/-- The rejection of a placement: the status, then the reason. -/
theorem settle_reject (R : Router) (fuel : Nat) {reason : String}
    (he : db.find o.clientOrderId = some e) (hfresh : Fresh o e) :
    wp (sem (.reliable allows)) (fun _ _ => True)
      (R.settleAck fuel .sim o { rejected := true, rejectReason := some reason })
      (fun r db' => r = .ok .confirmed ∧ ∃ e', db'.find o.clientOrderId = some e' ∧
        e'.row.status = .rejected ∧ e'.fills = []) db := by
  have hlegal : isLegal e.row.status .rejected = true := by
    rw [hfresh.status]
    rfl
  have hkey := Db.find_key he
  unfold Router.settleAck
  rw [if_pos rfl, Prog.bind_eq, wp_bind]
  refine wp_mono (updateStatus_reliable he hlegal) fun r db₁ h₁ => ?_
  obtain ⟨rfl, hput⟩ := h₁
  have he₁ := hput.find_self
  rw [withStatus_key, hkey] at he₁
  rw [outcome_ok, Prog.bind_eq, wp_bind]
  refine wp_mono (setRejectReason_reliable he₁ _) fun r db₂ h₂ => ?_
  obtain ⟨rfl, he₂⟩ := h₂
  exact ⟨rfl, _, he₂, rfl, hfresh.fills⟩

theorem placeAck_error {defaultFillPrice : Decimal} {source : Option Decimal} {ts : Time}
    {reason : String} (h : fillPlan o = .error reason) :
    placeAck defaultFillPrice o source ts = { rejected := true, rejectReason := some reason } := by
  rw [placeAck, h]

theorem placeAck_ok {defaultFillPrice : Decimal} {source : Option Decimal} {ts : Time}
    (h : fillPlan o = .ok plan) :
    placeAck defaultFillPrice o source ts =
      { brokerOrderId := some ("SIM-" ++ cidPrefix o.clientOrderId)
        fills := planFills o.clientOrderId (source.getD (referencePrice defaultFillPrice o)) ts 1
          plan
        remainderCancelled := decide (o.tif = .ioc ∧ planSum plan < o.quantity) } := by
  rw [placeAck, h, Bool.decide_and]

/-- Placing a fresh order. -/
theorem placeAndSettle_spec (R : Router) (fuel : Nat) (hsim : Simulates allows o)
    (he : db.find o.clientOrderId = some e) (hfresh : Fresh o e) :
    wp (sem (.reliable allows)) (fun _ _ => True) (R.placeAndSettle fuel .sim o)
      (fun r db' => (∃ h, r = .ok h) ∧ ∃ e', db'.find o.clientOrderId = some e' ∧
        AsDeclared o e') db := by
  rw [Router.placeAndSettle_eq, wp_bind]
  refine wp_perform.mpr ⟨trivial, fun r db₁ hs => ?_⟩
  obtain ⟨rfl, hr⟩ := step_ext hs
  obtain ⟨defaultFillPrice, source, ts, rfl, hprice⟩ := hsim.place _ r hr
  rw [outcome_ok]
  rcases fillPlan_spec o with ⟨hrefused, reason, hplan⟩ | ⟨hok, plan, hdecl, hplan⟩
  · rw [placeAck_error hplan]
    refine wp_mono (settle_reject R fuel he hfresh) fun r db₂ h₂ => ?_
    obtain ⟨rfl, e', he', hstatus, hfills⟩ := h₂
    exact ⟨⟨_, rfl⟩, e', he', asDeclared_of_refused hrefused hstatus hfills⟩
  · rw [placeAck_ok hplan]
    have hle := fillPlan_sum hplan
    refine wp_mono (settle_spec _ hsim he hfresh hle hprice rfl rfl) fun r db₂ h₂ => ?_
    obtain ⟨rfl, e', he', hfilled, hstatus⟩ := h₂
    exact ⟨⟨_, rfl⟩, e', he', asDeclared_of_plan hok hdecl hle hfilled hstatus⟩

/-! ## The submit -/

/-- The columns of the orders table take the order's row. -/
def Insertable (o : NormalizedOrder) (sid : Option String) : Prop :=
  ∀ t, Db.columnsFit (Db.newRow o.toOrderFields sid t) = true ∧
    Db.columnChecks (Db.newRow o.toOrderFields sid t) = true

/-- The insert puts the fresh row, or nothing. -/
theorem insertFresh_spec (sid : Option String) (hnew : db.find o.clientOrderId = none) :
    wp (sem (.reliable allows)) (fun _ _ => True) (Router.insertFresh o sid)
      (outcome (fun fresh db' => fresh = true ∧
        ∃ e, db'.find o.clientOrderId = some e ∧ Fresh o e)
        fun _ db' => db' = db ∧ ¬ Insertable o sid) db := by
  unfold Router.insertFresh
  rw [wp_tryExcept, wp_bind]
  refine wp_perform.mpr ⟨trivial, fun r db₁ hs => ?_⟩
  obtain ⟨t, ht⟩ := step_reliable hs
  change db.insertOrder o.toOrderFields sid t = _ at ht
  unfold Db.insertOrder at ht
  dsimp only at ht
  split at ht
  · rename_i hfits
    obtain ⟨rfl, rfl⟩ := Prod.mk.inj ht
    refine ⟨rfl, fun h => ?_⟩
    rw [(h t).1] at hfits
    cases hfits
  · rename_i hfits
    split at ht
    · rename_i hchecks
      replace ht := (dif_pos hnew).symm.trans ht
      obtain ⟨rfl, rfl⟩ := Prod.mk.inj ht
      rw [outcome_ok]
      refine ⟨rfl, ⟨Db.newRow o.toOrderFields sid t, [], Db.columnChecks_pos hchecks,
        List.nodup_nil⟩, ?_, rfl, rfl, rfl, ?_⟩
      · exact (Db.find_append _ _).trans (if_pos rfl)
      · simp only [Db.columnsFit, Bool.not_eq_true, Bool.not_eq_false', Bool.and_eq_true,
          decide_eq_true_eq] at hfits
        exact hfits.1.2
    · rename_i hchecks
      obtain ⟨rfl, rfl⟩ := Prod.mk.inj ht
      exact ⟨rfl, fun h => hchecks (h t).2⟩

/-- The gates let an order through to the adapter it resolves to. -/
theorem gates_resolve (R : Router) (o : NormalizedOrder) {E : Env} :
    wp (sem E) (fun _ _ => True) (R.gates o)
      (outcome (fun a db' => db' = db ∧ R.resolveAdapter o.broker o.account = .ok a)
        fun _ db' => db' = db) db := by
  unfold Router.gates
  refine wp_seq (wp_outcome (wp_probe (uses_lift _) db) fun _ _ h => h) ?_
  rintro caps _ rfl
  refine wp_seq (wp_outcome (wp_probe (uses_lift _) _) fun _ _ h => h) ?_
  rintro - _ rfl
  refine wp_seq (wp_outcome (wp_probe (R.uses_riskCheck o) _) fun _ _ h => h) ?_
  rintro - _ rfl
  refine wp_seq (wp_outcome (wp_probe (R.uses_priceBandCheck o) _) fun _ _ h => h) ?_
  rintro - db₁ rfl
  cases R.resolveAdapter o.broker o.account with
  | error er => exact rfl
  | ok a =>
    show wp (sem E) _ ((Router.breakerGuard a).bind fun _ => ret a) _ _
    refine wp_seq (wp_outcome (wp_probe (Router.uses_breakerGuard a) _) fun _ _ h => h) ?_
    rintro - _ rfl
    exact ⟨rfl, rfl⟩

/-- The order is as declared, or nothing has happened. -/
def Settles {α : Type} (o : NormalizedOrder) (db : Db) (r : Except Exn α) (db' : Db) : Prop :=
  (∃ e, db'.find o.clientOrderId = some e ∧ AsDeclared o e) ∨ db' = db ∧ ∃ er, r = .error er

/-- Nobody else is submitting the order, so waiting for its row is in vain. -/
theorem awaitConcurrent_absent (hnew : db.find o.clientOrderId = none) (n : Nat) :
    wp (sem (.reliable allows)) (fun _ _ => True) (Router.awaitConcurrent o.clientOrderId n)
      (fun r db' => db' = db ∧ ∃ er, r = .error er) db := by
  have hnone : db.fetchOrderResult o.clientOrderId = none := by
    rw [Db.fetchOrderResult, hnew, Option.map_none]
  induction n with
  | zero =>
    refine wp_readResult (fun er => ⟨rfl, er, rfl⟩) ?_
    rw [hnone]
    exact ⟨rfl, _, rfl⟩
  | succ n ih =>
    refine wp_readResult (fun er => ⟨rfl, er, rfl⟩) ?_
    rw [hnone]
    refine wp_seq (wp_outcome (wp_external (uses_ext trivial) db) fun er _ h => ⟨h, er, rfl⟩) ?_
    rintro - _ rfl
    exact ih

/-- With the lock, only a row that the table does not take is refused. -/
theorem submitLocked_spec (R : Router) (fuel : Nat) (sid : Option String) (acquired : Bool)
    (hsim : Simulates allows o) (hnew : db.find o.clientOrderId = none) :
    wp (sem (.reliable allows)) (fun _ _ => True) (R.submitLocked fuel .sim o sid acquired)
      (fun r db' => (∃ e, db'.find o.clientOrderId = some e ∧ AsDeclared o e) ∨
        db' = db ∧ (∃ er, r = .error er) ∧ (acquired = true → ¬ Insertable o sid)) db := by
  unfold Router.submitLocked
  split
  · refine wp_seq (wp_mono (insertFresh_spec sid hnew) fun r db₁ h => ?_)
      (I := fun fresh db' => fresh = true ∧
        ∃ e, db'.find o.clientOrderId = some e ∧ Fresh o e) ?_
    · cases r with
      | ok fresh => exact h
      | error er => exact .inr ⟨h.1, ⟨er, rfl⟩, fun _ => h.2⟩
    · rintro fresh db₁ ⟨rfl, e, he, hfresh⟩
      refine wp_seq_ok (wp_mono (placeAndSettle_spec R fuel hsim he hfresh) fun r db₂ h => ?_)
        (I := fun _ db' => ∃ e, db'.find o.clientOrderId = some e ∧ AsDeclared o e) ?_
      · obtain ⟨⟨resolution, rfl⟩, h⟩ := h
        exact h
      · exact fun resolution db₂ h => .inl h
  · rename_i hwaits
    rw [Prog.bind_eq, wp_bind]
    refine wp_mono (awaitConcurrent_absent hnew _) fun r db₁ h => ?_
    obtain ⟨rfl, er, rfl⟩ := h
    exact .inr ⟨rfl, ⟨er, rfl⟩, fun h => absurd h hwaits⟩

theorem singleFlight_spec (R : Router) (fuel : Nat) (sid : Option String) {key : String}
    (hsim : Simulates allows o) (hnew : db.find o.clientOrderId = none) :
    wp (sem (.reliable allows)) (fun _ _ => True)
      (R.singleFlight key (R.submitLocked fuel .sim o sid)) (Settles o db) db := by
  unfold Router.singleFlight
  refine wp_seq (wp_outcome (wp_probe (R.uses_acquireLock _) db)
    fun er _ h => .inr ⟨h, er, rfl⟩) ?_
  rintro acquired db₁ rfl
  rw [wp_tryFinally]
  refine wp_mono (submitLocked_spec R fuel sid acquired hsim hnew) fun r db₂ h => ?_
  replace h : Settles o db₁ r db₂ := h.imp_right fun h => ⟨h.1, h.2.1⟩
  refine wp_mono (wp_probe (R.uses_releaseLock _ acquired) db₂) fun x db₃ hx => ?_
  obtain rfl : db₃ = db₂ := hx
  cases x with
  | ok u => exact h
  | error er => exact h.imp_right fun h => ⟨h.1, er, rfl⟩

/-- A submit of a new order that goes to the simulator is refused, and the store is as it was, or
    the order has come to what it declares. -/
theorem submit_settles (R : Router) (fuel : Nat) (sid : Option String) (hsim : Simulates allows o)
    (hnew : db.find o.clientOrderId = none)
    (hroute : R.resolveAdapter o.broker o.account = .ok .sim) :
    wp (sem (.reliable allows)) (fun _ _ => True) (R.submit fuel o sid) (Settles o db) db := by
  have hnone : db.fetchOrderResult o.clientOrderId = none := by
    rw [Db.fetchOrderResult, hnew, Option.map_none]
  unfold Router.submit
  refine wp_seq (wp_outcome (wp_probe R.uses_assertDisengaged db)
    fun er _ h => .inr ⟨h, er, rfl⟩) ?_
  rintro - db rfl
  refine wp_readResult (fun er => .inr ⟨rfl, er, rfl⟩) ?_
  rw [hnone]
  refine wp_seq (wp_mono (gates_resolve R o) fun r db₁ h => ?_)
    (I := fun a db' => db' = db ∧ a = .sim) ?_
  · cases r with
    | ok a =>
      rw [outcome_ok] at h ⊢
      exact ⟨h.1, Except.ok.inj (h.2.symm.trans hroute)⟩
    | error er => exact .inr ⟨h, er, rfl⟩
  · rintro a db₁ ⟨rfl, rfl⟩
    refine wp_seq (wp_mono (singleFlight_spec R fuel sid hsim hnew) fun r db₂ h => ?_)
      (I := fun _ db' => ∃ e, db'.find o.clientOrderId = some e ∧ AsDeclared o e) ?_
    · cases r with
      | ok done =>
        rcases h with h | ⟨-, er, her⟩
        · exact h
        · cases her
      | error er =>
        rcases h with h | ⟨h, -⟩
        · exact .inl h
        · exact .inr ⟨h, er, rfl⟩
    · rintro done db₂ ⟨e, he, hdecl⟩
      cases done with
      | inl outcome => exact .inl ⟨e, he, hdecl⟩
      | inr resolution =>
        refine wp_readResult (fun er => .inl ⟨e, he, hdecl⟩) ?_
        rw [fetchOrderResult_of_find he]
        exact .inl ⟨e, he, hdecl⟩

end Fills

end SimAdapter

open SimAdapter

/-- Sim submits settle exactly as declared. A submit of a new order that goes to the simulator is
    refused with the store as it was, or leaves the order as its metadata declare it; and behind
    the gates and the lock no order that the table takes is refused. -/
theorem sim_settles (R : Router) (fuel : Nat) (sid : Option String)
    {allows : Db → (o : ExtOp) → Except Exn o.Res → Prop} {o : NormalizedOrder} {db : Db}
    (hsim : Simulates allows o) (hnew : db.find o.clientOrderId = none)
    (hroute : R.resolveAdapter o.broker o.account = .ok .sim) :
    (∀ out db', Exec (sem (.reliable allows)) (R.submit fuel o sid) db out db' →
      (∃ e, db'.find o.clientOrderId = some e ∧ AsDeclared o e) ∨
        db' = db ∧ ∃ er, out = .error er) ∧
    (Insertable o sid → ∀ out db',
      Exec (sem (.reliable allows)) (R.submitLocked fuel .sim o sid true) db out db' →
      ∃ e, db'.find o.clientOrderId = some e ∧ AsDeclared o e) := by
  constructor
  · intro out db' hexec
    exact (submit_settles R fuel sid hsim hnew hroute).exec hexec
  · intro hrow out db' hexec
    rcases (submitLocked_spec R fuel sid true hsim hnew).exec hexec with h | ⟨-, -, h⟩
    · exact h
    · exact absurd hrow (h rfl)

/-- The simulator at its default price, with nothing else on line. -/
def simAllows (_ : Db) (o : ExtOp) (r : Except Exn o.Res) : Prop :=
  r = plainExt 0 (fun _ => {}) [] o

theorem simAllows_simulates {o : NormalizedOrder} (h : StoredPrice (referencePrice ⟨100, 0⟩ o)) :
    Simulates simAllows o :=
  ⟨fun _ _ hr => ⟨⟨100, 0⟩, none, 0, hr, h⟩, fun _ _ hr => hr⟩

theorem partialOrderA_declares : Declares partialOrderA [30] ∧ ¬ Refused partialOrderA := by
  have hplan : IsPlan partialOrderA (simFills partialOrderA) [30] :=
    ⟨rfl, by decide, by decide +kernel⟩
  refine ⟨.inr hplan, ?_⟩
  rintro (h | ⟨-, h⟩ | ⟨h, -⟩)
  · exact h rfl
  · exact h ⟨_, hplan⟩
  · cases h

/-- A run in which 30 of 100 are filled. -/
theorem sim_settles_partial :
    ∃ out db' e, Exec (sem (.reliable simAllows)) (simRouter.submit 0 partialOrderA none)
      Db.empty (.ok out) db' ∧ db'.find cidA = some e ∧ e.filled = 30 ∧
      e.row.status = .partiallyFilled := by
  have hrun : ((run (plainHandler 0 (fun _ => {}) []).step
      (simRouter.submit 0 partialOrderA none) Db.empty).1.any Except.isOk) = true := by
    decide +kernel
  obtain ⟨r, hr, hok⟩ := (Option.any_eq_true _ _).mp hrun
  have hfollows : Follows (sem (.reliable simAllows)) (plainHandler 0 (fun _ => {}) []).step :=
    handler_follows fun _ _ => rfl
  have hexec := run_exec hfollows _ _ hr
  have hprice : StoredPrice (referencePrice ⟨100, 0⟩ partialOrderA) := by decide +kernel
  cases r with
  | error er => cases hok
  | ok out =>
    rcases (sim_settles simRouter 0 none (simAllows_simulates hprice) rfl rfl).1 _ _ hexec with
      ⟨e, he, hdecl⟩ | ⟨-, er, her⟩
    · obtain ⟨hplan, hkept⟩ := partialOrderA_declares
      obtain ⟨hfilled, -, -, hpartial, -⟩ := hdecl.filled hkept _ hplan
      exact ⟨out, _, e, hexec, he, hfilled, hpartial.mpr (by decide +kernel)⟩
    · cases her

end ExecutionEngine
