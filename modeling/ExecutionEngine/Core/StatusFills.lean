/-
  Status and fills agree over whole runs.

  Three kinds of writes can break the agreement: a fill, the in-place replace of a
  native amend, and the status writes that take an amended order back to NEW or
  PARTIALLY_FILLED. Everything else is `Safe` wherever it happens. The fill loop
  of a placement, the one fill of a reconcile visit and the venue leg of a native
  amend are followed step by step; `agreement_run` puts them together over every
  sequence of calls.
-/
import ExecutionEngine.Adapters.FillIds
import ExecutionEngine.Core.Amend
import ExecutionEngine.Core.Pass

namespace ExecutionEngine

open Async Async.Prog StateMachine

/-! ## The agreement -/

/-- What a status says about the filled part of a quantity. -/
def AgreesWith (s : OrderState) (filled quantity : Int) : Prop :=
  match s with
  | .filled => filled = quantity
  | .partiallyFilled => 0 < filled ∧ filled < quantity
  | .pendingNew | .new | .rejected => filled = 0
  | .cancelled | .expired | .pendingCancel | .pendingReplace => filled < quantity

/-- No fill is named after a counter above what is filled. -/
def IdsBelow (e : Entry) : Prop :=
  ∀ f ∈ e.fills, ∀ no m, f.brokerFillId = Reconcile.fillId no m → m ≤ e.filled

/-- The status of the order agrees with its recorded fills, and so do their names. -/
def Agrees (e : Entry) : Prop :=
  AgreesWith e.row.status e.filled e.row.quantity ∧ IdsBelow e

theorem IdsBelow.of_fills {e e' : Entry} (h : IdsBelow e) (hf : e'.fills = e.fills) :
    IdsBelow e' := by
  rw [IdsBelow, Entry.filled, hf]
  exact h

/-- A fill named after no counter above the aggregate it leads to. -/
theorem idsBelow_addFill {e : Entry} {f : FillRow} (hb : IdsBelow e)
    (hid : ∀ no m, f.brokerFillId = Reconcile.fillId no m → m ≤ e.filled + f.quantity) :
    IdsBelow (Db.addFill e f) := by
  rcases addFill_cases e f with ⟨heq, -⟩ | hadd
  · rw [heq]
    exact hb
  · have hf := f.quantity_pos
    have hsum : (Db.addFill e f).filled = e.filled + f.quantity := by
      rw [Entry.filled, hadd, filledQty_append]
      rfl
    intro g hg no m hname
    rw [hadd] at hg
    rw [hsum]
    rcases List.mem_append.mp hg with hg | hg
    · have := hb g hg no m hname
      omega
    · rw [List.mem_singleton.mp hg] at hname
      exact hid no m hname

/-- A fill that fits, applied against the order's own quantity, leaves the agreement. -/
theorem agrees_fill {e : Entry} {f : FillRow} (hb : IdsBelow e)
    (hfit : e.filled + f.quantity ≤ e.row.quantity)
    (hid : ∀ no m, f.brokerFillId = Reconcile.fillId no m → m ≤ e.filled + f.quantity) :
    Agrees (Db.withStatus (Db.addFill e f) (Db.fillTarget (Db.addFill e f) e.row.quantity)) := by
  obtain ⟨hpos, hle⟩ := addFill_filled e f
  have hq : (Db.addFill e f).row.quantity = e.row.quantity := by rw [addFill_row]
  refine ⟨?_, (idsBelow_addFill hb hid).of_fills rfl⟩
  unfold Db.fillTarget
  split
  · rename_i hfull
    change (Db.addFill e f).filled = (Db.addFill e f).row.quantity
    omega
  · rename_i hpart
    change 0 < (Db.addFill e f).filled ∧ (Db.addFill e f).filled < (Db.addFill e f).row.quantity
    omega

/-! ## Writes that are safe anywhere -/

/-- Statuses that can be written without looking at the fills. -/
def safeTargets : List OrderState :=
  [.pendingCancel, .cancelled, .rejected, .expired, .pendingReplace]

/-- Operations that keep the agreement in every store. -/
def Safe : EngineOp → Prop
  | .store (.writeStatus _ s) => s ∈ safeTargets
  | .store (.applyFill _ _ _ _ _ _) => False
  | .store (.replaceOrder _ _ _) => False
  | _ => True

/-- A legal move to a safe target keeps the agreement. -/
theorem AgreesWith.move {s s' : OrderState} {filled quantity : Int}
    (ha : AgreesWith s filled quantity) (hq : 0 < quantity) (hl : isLegal s s' = true)
    (hs : s' ∈ safeTargets) : AgreesWith s' filled quantity := by
  cases s <;> cases s' <;>
    first
    | exact absurd hs (by decide)
    | exact absurd hl (by decide)
    | (simp only [AgreesWith] at ha ⊢; omega)

/-- The store moved without touching fills and quantities, and without breaking an agreement. -/
structure Mild (db db' : Db) : Prop where
  keeps : ∀ cid e, db.find cid = some e → ∃ e', db'.find cid = some e' ∧ e'.fills = e.fills ∧
    e'.row.quantity = e.row.quantity ∧ (Agrees e → Agrees e')
  fresh : ∀ cid, db.find cid = none → ∀ e', db'.find cid = some e' → Agrees e'

instance : IsPreorder Db Mild where
  refl db := ⟨fun _ e he => ⟨e, he, rfl, rfl, id⟩, fun _ hn e' he' => by rw [hn] at he'; cases he'⟩
  trans a b c hab hbc := by
    refine ⟨fun cid e he => ?_, fun cid hn e' he' => ?_⟩
    · obtain ⟨e₁, he₁, hf₁, hq₁, ha₁⟩ := hab.keeps cid e he
      obtain ⟨e₂, he₂, hf₂, hq₂, ha₂⟩ := hbc.keeps cid e₁ he₁
      exact ⟨e₂, he₂, hf₂.trans hf₁, hq₂.trans hq₁, ha₂ ∘ ha₁⟩
    · cases hb : b.find cid with
      | none => exact hbc.fresh cid hb e' he'
      | some e₁ =>
        obtain ⟨e₂, he₂, -, -, ha₂⟩ := hbc.keeps cid e₁ hb
        rw [he'] at he₂
        obtain rfl := Option.some.inj he₂
        exact ha₂ (hab.fresh cid hn e₁ hb)

/-- The order `cid` agrees, if it is there. -/
def AgreesAt (cid : String) (db : Db) : Prop := ∀ e, db.find cid = some e → Agrees e

/-- Every order of the store agrees. -/
def Agreement (db : Db) : Prop := ∀ cid, AgreesAt cid db

theorem AgreesAt.mild {db db' : Db} {cid : String} (h : AgreesAt cid db) (hm : Mild db db') :
    AgreesAt cid db' := by
  intro e' he'
  cases hf : db.find cid with
  | none => exact hm.fresh cid hf e' he'
  | some e =>
    obtain ⟨e₁, he₁, -, -, ha⟩ := hm.keeps cid e hf
    rw [he'] at he₁
    obtain rfl := Option.some.inj he₁
    exact ha (h e hf)

theorem AgreesAt.put {db db' : Db} {cid : String} {e : Entry} (h : AgreesAt cid db)
    (hput : db.Put db' e) (he : Agrees e) : AgreesAt cid db' := by
  intro e' he'
  rw [hput cid] at he'
  split at he'
  · exact Option.some.inj he' ▸ he
  · exact h e' he'

theorem Agreement.mild {db db' : Db} (h : Agreement db) (hm : Mild db db') : Agreement db' :=
  fun cid => (h cid).mild hm

theorem Agreement.put {db db' : Db} {e : Entry} (h : Agreement db) (hput : db.Put db' e)
    (he : Agrees e) : Agreement db' :=
  fun cid => (h cid).put hput he

theorem Change.mild {o : StoreOp} {e e' : Entry} (h : Change o e e') (hs : Safe (.store o)) :
    e'.fills = e.fills ∧ e'.row.quantity = e.row.quantity ∧ (Agrees e → Agrees e') := by
  cases h with
  | ack no hst =>
    refine ⟨rfl, rfl, fun ha => ⟨?_, ha.2⟩⟩
    have hagree := ha.1
    rw [hst] at hagree
    exact hagree
  | replace => exact hs.elim
  | status hl => exact ⟨rfl, rfl, fun ha => ⟨ha.1.move e.quantity_pos hl hs, ha.2⟩⟩
  | reason => exact ⟨rfl, rfl, id⟩
  | fill => exact hs.elim

section Moves

variable {E : Env}

theorem step_mild {db db' : Db} {op : EngineOp} {r : Except Exn op.Res} (hs : Safe op)
    (h : (sem E).step db op r db') : Mild db db' := by
  refine ⟨fun cid e he => ?_, fun cid hn e' he' => ?_⟩
  · rcases step_find h cid with heq | ⟨_, _, _, _, _, _, hn, _⟩ | ⟨o, e₁, e', rfl, hc, -, he₁, hf⟩
    · exact ⟨e, heq.trans he, rfl, rfl, id⟩
    · rw [hn] at he
      cases he
    · rw [he] at he₁
      obtain rfl := Option.some.inj he₁
      exact ⟨e', hf, hc.mild hs⟩
  · rcases step_find h cid with heq | ⟨_, _, _, e, _, _, _, hrow, hfills, hf⟩ |
      ⟨_, _, _, _, _, _, he₁, _⟩
    · rw [heq, hn] at he'
      cases he'
    · rw [hf] at he'
      obtain rfl := Option.some.inj he'
      have hst : e.row.status = .pendingNew := by
        rw [hrow]
        rfl
      rw [Agrees, hst, IdsBelow, hfills]
      simp [AgreesWith, Entry.filled, hfills, filledQty]
    · rw [hn] at he₁
      cases he₁

theorem moves_mild {α : Type} {p : Eff α} (h : Uses Safe p) : Moves (sem E) Mild p :=
  h.moves fun _ _ _ _ hop hs => step_mild hop hs

theorem keeps_agreement {α : Type} {p : Eff α} (h : Uses Safe p) {db : Db} (ha : Agreement db) :
    wp (sem E) (fun _ _ => True) p (fun _ db' => Agreement db') db :=
  wp_mono (moves_mild h db) fun _ _ hm => ha.mild hm

theorem Probe.safe {op : EngineOp} (h : Probe op) : Safe op := by
  rcases op with o | o
  · cases o <;> exact h.elim
  · trivial

theorem safe_updateStatus (cid : String) {s : OrderState} (h : s ∈ safeTargets) :
    Uses Safe (updateStatus cid s) :=
  uses_updateStatus trivial h

end Moves

/-! ## Fills -/

section Fills

variable {E : Env} {db db' : Db} {cid : String} {e : Entry}

/-- A fill that fits is refused, or leaves one agreeing entry with at most that much more. -/
theorem step_fill {fid : String} {price : Decimal} {qty : Int} {ts : Time}
    {r : Except Exn OrderState} (he : db.find cid = some e) (hb : IdsBelow e)
    (hfit : e.filled + qty ≤ e.row.quantity)
    (hid : ∀ no m, fid = Reconcile.fillId no m → m ≤ e.filled + qty)
    (h : (sem E).step db (.store (.applyFill cid fid price qty ts e.row.quantity)) r db') :
    db' = db ∨ ∃ e', db.Put db' e' ∧ Agrees e' ∧ e'.row.clientOrderId = cid ∧
      e'.row.quantity = e.row.quantity ∧ e'.filled ≤ e.filled + qty := by
  rcases step_served h with rfl | ⟨o, r', ho, hs⟩
  · exact .inl rfl
  · cases ho
    rcases served_cases hs with rfl | ⟨_, _, _, _, _, hins, _⟩ | ⟨e₁, e', he₁, hc, rfl⟩
    · exact .inl rfl
    · cases hins
    · have hput := find_change hc he₁
      have hk := hc.key
      cases hc with
      | fill price hp hl =>
        rename_i f
        rw [he] at he₁
        obtain rfl := Option.some.inj he₁
        refine .inr ⟨_, fun c => ?_, agrees_fill hb hfit hid, hk, by simp [Db.withStatus], ?_⟩
        · rw [hput c, hk]
        · rw [withStatus_filled]
          exact (addFill_filled e f).2

/-- An adapter's fills, applied in turn to an order they fit. -/
theorem applyFillReports_agreement {o : NormalizedOrder} (fills : List FillReport)
    (ha : Agreement db) (he : db.find o.clientOrderId = some e) (hq : e.row.quantity = o.quantity)
    (hfit : e.filled + (fills.map FillReport.quantity).sum ≤ o.quantity)
    (hids : ∀ f ∈ fills, ∀ no m, f.brokerFillId = Reconcile.fillId no m → m < 0) :
    wp (sem E) (fun _ _ => True) (forEach (Router.applyFillReport o) fills)
      (fun _ db' => Agreement db') db := by
  induction fills generalizing db e with
  | nil => exact ha
  | cons f fs ih =>
    rw [List.map_cons, List.sum_cons] at hfit
    have hrest : 0 ≤ (fs.map FillReport.quantity).sum := by
      refine List.sum_nonneg fun q hq => ?_
      obtain ⟨g, -, rfl⟩ := List.mem_map.mp hq
      exact g.quantity_pos.le
    rw [forEach, wp_bind]
    unfold Router.applyFillReport
    rw [Prog.bind_eq, wp_bind]
    refine wp_perform.mpr ⟨trivial, fun r db₁ hs => ?_⟩
    rw [← hq] at hs
    have hf := f.quantity_pos
    have hid : ∀ no m, f.brokerFillId = Reconcile.fillId no m → m ≤ e.filled + f.quantity := by
      intro no m hname
      have hneg := hids f (List.mem_cons_self ..) no m hname
      have hnn : 0 ≤ e.filled := filledQty_nonneg e.fills
      omega
    have hids' : ∀ g ∈ fs, ∀ no m, g.brokerFillId = Reconcile.fillId no m → m < 0 :=
      fun g hg => hids g (List.mem_cons_of_mem _ hg)
    rcases step_fill he (ha _ e he).2 (by omega) hid hs with rfl | ⟨e', hput, hagree, hk, hq', hle⟩
    · cases r with
      | error er => exact ha
      | ok s => exact ih ha he hq (by omega) hids'
    · have ha₁ := ha.put hput hagree
      cases r with
      | error er => exact ha₁
      | ok s =>
        exact ih ha₁ (hk ▸ hput.find_self) (hq'.trans hq) (by omega) hids'

end Fills

/-! ## A reconcile visit -/

namespace Reconcile

/-- Is the action a fill? -/
def ReconcileAction.isFill : ReconcileAction → Bool
  | .fill _ _ _ _ _ => true
  | _ => false

theorem safe_attempt {a : ReconcileAction} (h : a.isFill = false) : Uses Safe (attempt a) := by
  refine (performs_attempt a).mono fun op hop => ?_
  cases hop with
  | fill => cases h
  | write a hs =>
    have hsafe : [OrderState.pendingCancel, .cancelled, .expired, .rejected] ⊆ safeTargets := by
      decide
    exact hsafe hs
  | _ => trivial

/-- The fill an action makes is within the order it names. -/
def Fits (db : Db) : ReconcileAction → Prop
  | .fill cid qty _ fid total => ∃ e, db.find cid = some e ∧ IdsBelow e ∧
      total = e.row.quantity ∧ e.filled + qty ≤ e.row.quantity ∧
      ∀ no m, fid = fillId no m → m ≤ e.filled + qty
  | _ => True

theorem Fits.mild {db db' : Db} {a : ReconcileAction} (h : Fits db a) (hm : Mild db db') :
    Fits db' a := by
  cases a with
  | fill cid qty price fid total =>
    obtain ⟨e, he, hb, ht, hle, hid⟩ := h
    obtain ⟨e', he', hf, hq, -⟩ := hm.keeps cid e he
    have hfilled : e'.filled = e.filled := congrArg filledQty hf
    refine ⟨e', he', hb.of_fills hf, by rw [hq]; exact ht, ?_, ?_⟩ <;> rw [hfilled]
    · rw [hq]
      exact hle
    · exact hid
  | _ => trivial

variable {E : Env} {db : Db} {c : String}

theorem attempt_fill_agrees {cid fid : String} {qty total : Int} {price : Decimal}
    (ha : AgreesAt c db) (hfit : Fits db (.fill cid qty price fid total)) :
    wp (sem E) (fun _ _ => True) (attempt (.fill cid qty price fid total))
      (fun _ db' => AgreesAt c db') db := by
  obtain ⟨e, he, hb, rfl, hle, hid⟩ := hfit
  rw [attempt, wp_tryExcept, wp_bind, execute, Prog.bind_eq, wp_bind]
  refine wp_perform.mpr ⟨trivial, fun r db₁ hs => ?_⟩
  obtain rfl := (step_ext hs).1
  cases r with
  | error er => exact ha
  | ok ts =>
    rw [outcome_ok, Prog.bind_eq, wp_bind]
    refine wp_perform.mpr ⟨trivial, fun r db₂ hs => ?_⟩
    have ha₂ : AgreesAt c db₂ := by
      rcases step_fill he hb hle hid hs with rfl | ⟨e', hput, hagree, -⟩
      · exact ha
      · exact ha.put hput hagree
    cases r <;> exact ha₂

/-- A plan with at most one fill, one that fits, keeps the agreement. -/
theorem attempts_agree {actions : List ReconcileAction} (ha : AgreesAt c db)
    (hone : (actions.filter ReconcileAction.isFill).length ≤ 1)
    (hfit : ∀ a ∈ actions, Fits db a) :
    wp (sem E) (fun _ _ => True) (sumOver attempt actions) (fun _ db' => AgreesAt c db') db := by
  induction actions generalizing db with
  | nil => exact ha
  | cons a as ih =>
    rw [sumOver, wp_bind]
    cases hfill : a.isFill with
    | false =>
      rw [List.filter_cons_of_neg (by simp [hfill])] at hone
      refine wp_mono (moves_mild (E := E) (safe_attempt hfill) db) fun r db₁ hm => ?_
      have ha₁ := ha.mild hm
      cases r with
      | error er => exact ha₁
      | ok n =>
        rw [outcome_ok, wp_bind]
        refine wp_mono (ih ha₁ hone fun b hb => (hfit b (List.mem_cons_of_mem _ hb)).mild hm)
          fun r db₂ h₂ => ?_
        cases r <;> exact h₂
    | true =>
      -- the one fill; what follows is safe
      rw [List.filter_cons_of_pos hfill, List.length_cons] at hone
      have hnone : ∀ b ∈ as, b.isFill = false := by
        have hnil : as.filter ReconcileAction.isFill = [] :=
          List.length_eq_zero_iff.mp (by omega)
        intro b hb
        exact Bool.eq_false_iff.mpr (List.filter_eq_nil_iff.mp hnil b hb)
      have hfirst : wp (sem E) (fun _ _ => True) (attempt a) (fun _ db' => AgreesAt c db') db := by
        have hf := hfit a (List.mem_cons_self ..)
        cases a with
        | fill => exact attempt_fill_agrees ha hf
        | _ => cases hfill
      refine wp_mono hfirst fun r db₁ ha₁ => ?_
      cases r with
      | error er => exact ha₁
      | ok n =>
        rw [outcome_ok, wp_bind]
        refine wp_mono (wp_sumOver (M := sem E) ha₁ fun b hb db₂ ha₂ =>
          wp_mono (moves_mild (safe_attempt (hnone b hb)) db₂) fun _ _ hm => ha₂.mild hm)
          fun r db₂ h₂ => ?_
        cases r <;> exact h₂

variable {ι : Type} [VenueItem ι]

theorem venueTerminalActions_fills (row : OrderRow) (item : ι) :
    (venueTerminalActions row item).filter ReconcileAction.isFill = [] := by
  unfold venueTerminalActions
  repeat' split
  all_goals rfl

/-- The fills of a plan are the fill actions of its venue row, or none. -/
theorem planActions_fills (row : OrderRow) (filled : Int) (item : Option ι) (now : Time)
    (ambiguous : Bool) :
    (planActions row filled item now ambiguous).filter ReconcileAction.isFill = [] ∨
    ∃ i, item = some i ∧ (planActions row filled item now ambiguous).filter
      ReconcileAction.isFill = fillActions row filled i := by
  cases item with
  | none =>
    refine .inl ?_
    unfold planActions planAbsent
    dsimp only
    repeat' split
    all_goals rfl
  | some i =>
    unfold planActions planPresent
    dsimp only
    split
    · exact .inl (venueTerminalActions_fills row i)
    · split
      · refine .inl ?_
        split <;> rfl
      · refine .inr ⟨i, rfl, ?_⟩
        have hack : (if row.status = .pendingNew then
            [ReconcileAction.ack row.clientOrderId (VenueItem.orderNo i)] else []).filter
            ReconcileAction.isFill = [] := by
          split <;> rfl
        have hterm : (if VenueItem.matched i < row.quantity then venueTerminalActions row i
            else []).filter ReconcileAction.isFill = [] := by
          split
          · exact venueTerminalActions_fills row i
          · rfl
        have hfills : (fillActions row filled i).filter ReconcileAction.isFill =
            fillActions row filled i := by
          unfold fillActions
          repeat' split
          all_goals rfl
        rw [List.filter_append, List.filter_append, hack, hterm, hfills, List.nil_append,
          List.append_nil]

/-- A plan for a current row against a venue row within its quantity fits. -/
theorem planActions_fit {row : OrderRow} {e : Entry} {item : Option ι} (now : Time)
    (ambiguous : Bool) (he : db.find row.clientOrderId = some e) (hrow : e.row = row)
    (hb : IdsBelow e) (hm : ∀ i, item = some i → VenueItem.matched i ≤ row.quantity) :
    ((planActions row e.filled item now ambiguous).filter ReconcileAction.isFill).length ≤ 1 ∧
      ∀ a ∈ planActions row e.filled item now ambiguous, Fits db a := by
  have hfits : ∀ i, item = some i → ∀ a ∈ fillActions row e.filled i, Fits db a := by
    intro i hi a ha
    unfold fillActions at ha
    split at ha
    · split at ha
      · cases ha
      · rw [List.mem_singleton.mp ha]
        have hle := hm i hi
        refine ⟨e, he, hb, by rw [hrow], by rw [hrow]; omega, fun no m hname => ?_⟩
        rw [← fillId_inj hname]
        omega
    · cases ha
  have hlen : ∀ i : ι, (fillActions row e.filled i).length ≤ 1 := by
    intro i
    unfold fillActions
    repeat' split
    all_goals simp
  rcases planActions_fills row e.filled item now ambiguous with hnil | ⟨i, hi, hf⟩
  · refine ⟨by rw [hnil]; simp, fun a ha => ?_⟩
    cases a with
    | fill =>
      have hmem := List.mem_filter.mpr ⟨ha, (rfl : ReconcileAction.isFill (.fill ..) = true)⟩
      rw [hnil] at hmem
      cases hmem
    | _ => trivial
  · refine ⟨by rw [hf]; exact hlen i, fun a ha => ?_⟩
    cases a with
    | fill =>
      have hmem := List.mem_filter.mpr ⟨ha, (rfl : ReconcileAction.isFill (.fill ..) = true)⟩
      rw [hf] at hmem
      exact hfits i hi _ hmem
    | _ => trivial

/-- A visit to a current row keeps the agreement, if its venue row is within its quantity. -/
theorem applyVisit_agrees {row : OrderRow} {res : Resolution ι} {now : Time}
    (ha : AgreesAt c db) (hcur : Current row db) (hrow : AgreesAt row.clientOrderId db)
    (hm : ∀ i, res.item = some i → VenueItem.matched i ≤ row.quantity) :
    wp (sem E) (fun _ _ => True) (applyVisit row res now) (fun _ db' => AgreesAt c db') db := by
  obtain ⟨e, he, her⟩ := hcur.find
  unfold applyVisit
  refine wp_readResult (fun _ => ha) ?_
  rw [fetchOrderResult_of_find he]
  change wp _ _ (runPlan (plan row e.filled res.item now res.ambiguous) >>= _) _ _
  obtain ⟨hone, hfit⟩ := planActions_fit now res.ambiguous he her (hrow e he).2 hm
  rw [Prog.bind_eq, wp_bind]
  have hrun : wp (sem E) (fun _ _ => True) (runPlan (plan row e.filled res.item now res.ambiguous))
      (fun _ db' => AgreesAt c db') db :=
    runPlan_cases (motive := fun p => wp (sem E) (fun _ _ => True) p _ db) (fun _ _ => ha)
      fun _ => attempts_agree ha hone hfit
  refine wp_mono hrun fun r db₁ ha₁ => ?_
  cases r <;> exact ha₁

end Reconcile

/-! ## What the adapters answer -/

/-- The venue has matched no more than its own order quantity, nor than the quantity of a local
    order that holds its number. -/
def BookFits (ι : Type) [ReconcilerVenue ι] (db : Db) (key : GroupKey) (items : List ι) : Prop :=
  ∀ item ∈ items, VenueItem.matched item ≤ VenueItem.volume item ∧
    ∀ cid e, db.find cid = some e → e.row.broker = ReconcilerVenue.broker ι →
      ReconcilerVenue.groupKey ι e.row = key →
      e.row.brokerOrderId = some (VenueItem.orderNo item) →
      VenueItem.matched item ≤ e.row.quantity

/-- The acks an adapter can give: what the simulator computes, and no fills from a real venue. -/
def AckFits (a : AdapterId) (o : NormalizedOrder) (ack : PlaceAck) : Prop :=
  match a with
  | .sim => ∃ defaultFillPrice source ts, ack = SimAdapter.placeAck defaultFillPrice o source ts
  | _ => ack.fills = []

/-- Any answer or error of the outside world, with acks and books as above. -/
def adapterAnswers (db : Db) : (o : ExtOp) → Except Exn o.Res → Prop
  | .place a o, .ok ack => AckFits a o ack
  | .liberatorOrders account, .ok items =>
    BookFits Liberator.VenueOrderItem db (account, none) items
  | .streamingProOrders account market, .ok items =>
    BookFits StreamingPro.VenueOrderRow db (account, some market) items
  | _, _ => True

/-- The adapters as they are, over a store that does not fail. -/
def adapterEnv : Env := .reliable adapterAnswers

theorem planFills_sum (cid : String) (price : Decimal) (ts : Time) (i : Nat)
    (plan : List SimAdapter.PosQty) :
    ((SimAdapter.planFills cid price ts i plan).map FillReport.quantity).sum =
      SimAdapter.planSum plan := by
  induction plan generalizing i with
  | nil => rfl
  | cons q qs ih =>
    rw [SimAdapter.planFills, List.map_cons, List.sum_cons, ih, SimAdapter.planSum,
      SimAdapter.planSum, List.map_cons, List.sum_cons]

/-- No ack fills more than the order. -/
theorem AckFits.sum {a : AdapterId} {o : NormalizedOrder} {ack : PlaceAck}
    (h : AckFits a o ack) : (ack.fills.map FillReport.quantity).sum ≤ o.quantity := by
  have hpos := o.quantity_pos
  have hnil (hf : ack.fills = []) : (ack.fills.map FillReport.quantity).sum ≤ o.quantity := by
    rw [hf]
    exact hpos.le
  cases a with
  | sim =>
    obtain ⟨d, source, ts, rfl⟩ := h
    unfold SimAdapter.placeAck
    cases hplan : SimAdapter.fillPlan o with
    | error reason => exact hpos.le
    | ok plan =>
      dsimp only
      rw [planFills_sum]
      exact SimAdapter.fillPlan_sum hplan
  | liberator => exact hnil h
  | streamingPro => exact hnil h

theorem planFills_ids {cid : String} {price : Decimal} {ts : Time} {plan : List SimAdapter.PosQty}
    {i : Nat} {f : FillReport} (hf : f ∈ SimAdapter.planFills cid price ts i plan) :
    ∃ j, f.brokerFillId = SimAdapter.simFillId cid j := by
  induction plan generalizing i with
  | nil => cases hf
  | cons q qs ih =>
    rcases List.mem_cons.mp hf with rfl | hf
    · exact ⟨i, rfl⟩
    · exact ih hf

/-- No fill of an ack is named like a reconciled one. -/
theorem AckFits.ids {a : AdapterId} {o : NormalizedOrder} {ack : PlaceAck}
    (h : AckFits a o ack) : ∀ f ∈ ack.fills, ∀ no m, f.brokerFillId = Reconcile.fillId no m →
      m < 0 := by
  have hnil (hf : ack.fills = []) : ∀ f ∈ ack.fills, ∀ no m,
      f.brokerFillId = Reconcile.fillId no m → m < 0 := by
    intro f hmem
    rw [hf] at hmem
    cases hmem
  cases a with
  | sim =>
    obtain ⟨d, source, ts, rfl⟩ := h
    unfold SimAdapter.placeAck
    cases hplan : SimAdapter.fillPlan o with
    | error reason => exact fun f hf => nomatch hf
    | ok plan =>
      intro f hf no m hname
      obtain ⟨j, hj⟩ := planFills_ids hf
      exact simFillId_fillId (hj.symm.trans hname)
  | liberator => exact hnil h
  | streamingPro => exact hnil h

/-! ## Call by call -/

section Calls

variable {db : Db}

/-- The burst keeps the agreement. -/
theorem resolveOrderNow_agreement (cid : String) (ha : Agreement db) :
    wp (sem adapterEnv) (fun _ _ => True) (Liberator.resolveOrderNow cid)
      (fun _ db' => Agreement db') db := by
  unfold Liberator.resolveOrderNow
  rw [Prog.bind_eq, wp_bind]
  refine wp_perform.mpr ⟨trivial, fun r db₁ hs => ?_⟩
  obtain ⟨rfl, hr⟩ := step_fetchOrder hs
  cases r with
  | error er => exact ha
  | ok row =>
    obtain rfl := hr row rfl
    rw [outcome_ok]
    cases hf : db₁.find cid with
    | none =>
      rw [Db.fetchOrder, hf]
      exact ha
    | some e =>
      obtain rfl := Db.find_key hf
      rw [fetchOrder_of_find hf]
      dsimp only
      split
      · exact ha
      · rename_i hopen
        have hnone : e.row.brokerOrderId = none := by
          simp only [Liberator.isResolved, Bool.or_eq_true, not_or, Bool.not_eq_true,
            Option.isSome_eq_false_iff, Option.isNone_iff_eq_none] at hopen
          exact hopen.1
        rw [Prog.bind_eq, wp_bind]
        refine wp_perform.mpr ⟨trivial, fun r db₂ hs => ?_⟩
        obtain rfl := (step_listing hs).1
        cases r with
        | error er => exact ha
        | ok working =>
          rw [outcome_ok, Prog.bind_eq, wp_bind]
          refine wp_perform.mpr ⟨trivial, fun r db₃ hs => ?_⟩
          obtain ⟨rfl, hbook⟩ := step_ext hs
          cases r with
          | error er => exact ha
          | ok items =>
            rw [outcome_ok, Prog.bind_eq, wp_bind]
            refine wp_perform.mpr ⟨trivial, fun r db₄ hs => ?_⟩
            obtain rfl := (step_ext hs).1
            cases r with
            | error er => exact ha
            | ok now =>
              rw [outcome_ok, Prog.bind_eq, wp_bind, Reconcile.applyRow_eq, wp_bind]
              cases hres : Reconcile.resolveRow e.row items
                  (Liberator.claimedByOthers e.row working) now false with
              | error er => exact ha
              | ok res =>
                have hcur : Current e.row db₄ := fetchOrder_of_find hf
                rw [Eff.lift, wp_ret, outcome_ok]
                have hm : ∀ i, res.item = some i → VenueItem.matched i ≤ e.row.quantity := by
                  intro i hi
                  obtain ⟨hmem, hno | hvol⟩ := Reconcile.resolveRow_item hres hi
                  · rw [hnone] at hno
                    cases hno
                  · exact hvol ▸ (hbook i hmem).1
                refine wp_mono (wp_forall fun c => Reconcile.applyVisit_agrees (ha c) hcur (ha _) hm)
                  fun r db₅ ha₅ => ?_
                cases r with
                | error er => exact ha₅
                | ok out =>
                  rw [outcome_ok, Prog.bind_eq, wp_bind]
                  refine wp_perform.mpr ⟨trivial, fun r db₆ hs => ?_⟩
                  obtain ⟨rfl, -⟩ := step_fetchOrder hs
                  cases r <;> exact ha₅

/-- Settling an ack that fits an order without fills. -/
theorem settle_agreement {a : AdapterId} {o : NormalizedOrder} {ack : PlaceAck} {e : Entry}
    (no : String) (hfits : AckFits a o ack) (ha : Agreement db)
    (he : db.find o.clientOrderId = some e) (hq : e.row.quantity = o.quantity)
    (hnew : e.fills = []) :
    wp (sem adapterEnv) (fun _ _ => True) (Router.settle a o no ack)
      (fun _ db' => Agreement db') db := by
  unfold Router.settle
  rw [Prog.bind_eq, wp_bind]
  refine wp_perform.mpr ⟨trivial, fun r db₁ hs => ?_⟩
  have hsafe : Safe (.store (.ackOrder o.clientOrderId no)) := trivial
  have hm : Mild db db₁ := step_mild hsafe hs
  have ha₁ := ha.mild hm
  cases r with
  | error er => exact ha₁
  | ok u =>
    obtain ⟨e₁, he₁, hf₁, hq₁, -⟩ := hm.keeps _ e he
    have hfit : e₁.filled + (ack.fills.map FillReport.quantity).sum ≤ o.quantity := by
      rw [Entry.filled, hf₁, hnew]
      simpa [filledQty] using hfits.sum
    rw [outcome_ok, Prog.bind_eq, wp_bind]
    refine wp_mono (applyFillReports_agreement ack.fills ha₁ he₁ (hq₁.trans hq) hfit hfits.ids)
      fun r db₂ ha₂ => ?_
    cases r with
    | error er => exact ha₂
    | ok u =>
      refine keeps_agreement ?_ ha₂
      split
      · refine (safe_updateStatus _ (by decide)).bind fun _ => Uses.bind (uses_ext trivial)
          fun _ => (safe_updateStatus _ (by decide)).bind fun _ => trivial
      · trivial

theorem placeAndSettle_agreement (R : Router) (fuel : Nat) (a : AdapterId) {o : NormalizedOrder}
    {e : Entry} (ha : Agreement db) (he : db.find o.clientOrderId = some e)
    (hq : e.row.quantity = o.quantity) (hnew : e.fills = []) :
    wp (sem adapterEnv) (fun _ _ => True) (R.placeAndSettle fuel a o)
      (fun _ db' => Agreement db') db := by
  unfold Router.placeAndSettle
  rw [Prog.bind_eq, wp_bind]
  refine wp_perform.mpr ⟨trivial, fun r db₁ hs => ?_⟩
  obtain ⟨rfl, hack⟩ := step_ext hs
  cases r with
  | error er => exact ha
  | ok ack =>
    rw [outcome_ok]
    split
    · refine keeps_agreement ?_ ha
      exact Uses.bind (safe_updateStatus _ (by decide)) fun _ =>
        Uses.bind (uses_store trivial) fun _ => uses_ret _
    · split
      · unfold Router.recoverHandle
        split
        · rw [Prog.bind_eq, wp_bind]
          refine wp_perform.mpr ⟨trivial, fun r db₂ hs => ?_⟩
          obtain ⟨rfl, -⟩ := step_fetchOrder hs
          cases r with
          | error er => exact ha
          | ok row =>
            rw [outcome_ok, Prog.bind_eq, wp_bind]
            have hstart : Uses Safe (Router.submittedAt row) := by
              cases row with
              | none => exact uses_ext trivial
              | some row => trivial
            refine wp_mono (keeps_agreement hstart ha) fun r db₃ ha₃ => ?_
            cases r with
            | error er => exact ha₃
            | ok start =>
              rw [outcome_ok]
              exact wp_recoverHandle (fun _ h => resolveOrderNow_agreement _ h) _ _ _ _ _ _ _ ha₃
        · exact ha
      · exact settle_agreement _ hack ha he hq hnew

theorem submitLocked_agreement (R : Router) (fuel : Nat) (a : AdapterId) (o : NormalizedOrder)
    (sid : Option String) (acquired : Bool) (ha : Agreement db) :
    wp (sem adapterEnv) (fun _ _ => True) (R.submitLocked fuel a o sid acquired)
      (fun _ db' => Agreement db') db := by
  unfold Router.submitLocked
  split
  · rw [Prog.bind_eq, wp_bind]
    refine wp_mono (wp_and (keeps_agreement (Router.uses_insertFresh trivial) ha) (insertFresh_ok sid db))
      fun r db₁ h₁ => ?_
    obtain ⟨ha₁, hins⟩ := h₁
    cases r with
    | error er => exact ha₁
    | ok fresh =>
      rw [outcome_ok]
      cases fresh with
      | false =>
        refine keeps_agreement ?_ ha₁
        refine Uses.bind (uses_store trivial) fun row => ?_
        split <;> trivial
      | true =>
        obtain ⟨t, e, he, hfills, hrow⟩ := hins rfl
        have hq : e.row.quantity = o.quantity := by
          rw [hrow]
          rfl
        rw [if_pos rfl, Prog.bind_eq, wp_bind]
        refine wp_mono (placeAndSettle_agreement R fuel a ha₁ he hq hfills) fun r db₂ ha₂ => ?_
        cases r <;> exact ha₂
  · exact keeps_agreement ((Router.uses_awaitConcurrent trivial trivial _).bind fun _ => uses_ret _) ha

theorem submit_agreement (R : Router) (fuel : Nat) (o : NormalizedOrder) (sid : Option String)
    (ha : Agreement db) :
    wp (sem adapterEnv) (fun _ _ => True) (R.submit fuel o sid) (fun _ db' => Agreement db') db := by
  have hprobe {α : Type} {p : Eff α} (h : Uses Probe p) {db : Db} (ha : Agreement db) :
      wp (sem adapterEnv) (fun _ _ => True) p (fun _ db' => Agreement db') db :=
    keeps_agreement (h.mono fun _ => Probe.safe) ha
  unfold Router.submit
  rw [Prog.bind_eq, wp_bind]
  refine wp_mono (hprobe R.uses_assertDisengaged ha) fun r db₁ ha₁ => ?_
  cases r with
  | error er => exact ha₁
  | ok u =>
    rw [outcome_ok]
    refine wp_readResult (fun _ => ha₁) ?_
    split
    · exact ha₁
    · rw [Prog.bind_eq, wp_bind]
      refine wp_mono (hprobe (R.uses_gates o) ha₁) fun r db₂ ha₂ => ?_
      cases r with
      | error er => exact ha₂
      | ok a =>
        rw [outcome_ok, Prog.bind_eq, wp_bind]
        unfold Router.singleFlight
        rw [Prog.bind_eq, wp_bind]
        refine wp_mono (hprobe (R.uses_acquireLock _) ha₂) fun r db₃ ha₃ => ?_
        cases r with
        | error er => exact ha₃
        | ok acquired =>
          rw [outcome_ok, wp_tryFinally]
          refine wp_mono (submitLocked_agreement R fuel a o sid acquired ha₃) fun r db₄ ha₄ => ?_
          refine wp_mono (hprobe (R.uses_releaseLock _ acquired) ha₄) fun r' db₅ ha₅ => ?_
          cases r' with
          | error er => exact ha₅
          | ok u =>
            cases r with
            | error er => exact ha₅
            | ok done =>
              refine keeps_agreement ?_ ha₅
              cases done with
              | inl outcome => trivial
              | inr resolution =>
                refine Uses.bind (uses_store trivial) fun row => ?_
                split <;> trivial

/-! ## Cancel, amend, mass cancel -/

theorem safe_cancel (R : Router) (cid : String) : Uses Safe (R.cancel cid) := by
  unfold Router.cancel
  refine Uses.bind (uses_store trivial) fun row => ?_
  split
  · trivial
  · split
    · trivial
    · split
      · exact Router.uses_get trivial
      · split
        · trivial
        · refine (uses_lift _).bind fun a => ?_
          refine Uses.bind ((Router.uses_breakerGuard a).mono fun _ => Probe.safe) fun _ => ?_
          refine Uses.bind ?_ fun _ => Router.uses_get trivial
          refine (safe_updateStatus _ (by decide)).bind fun _ => ?_
          refine Uses.bind (uses_ext trivial) fun ack => ?_
          split
          · exact safe_updateStatus _ (by decide)
          · trivial

theorem safe_massCancel (R : Router) : Uses Safe R.massCancel := by
  refine Uses.bind (uses_store trivial) fun rows => ?_
  induction rows with
  | nil => trivial
  | cons row rows ih =>
    refine Uses.bind (Uses.tryExcept ?_ fun _ => trivial) fun ok => Uses.bind ih fun _ => ?_
    · refine Uses.bind (uses_lift _) fun a => ?_
      refine (safe_updateStatus _ (by decide)).bind fun _ => ?_
      refine Uses.bind (uses_ext trivial) fun ack => ?_
      split
      · exact (safe_updateStatus _ (by decide)).bind fun _ => trivial
      · trivial
    · trivial

/-- The way back from NEW of an amended order with fills. -/
theorem restorePartial_agreement {db' : Db} {cid : String} {e : Entry} {filled : Int}
    (ha : Agreement db) (hput : db.Put db' e) (hk : e.row.clientOrderId = cid)
    (hst : e.row.status = .new) (hf : e.filled = filled) (hlt : e.filled < e.row.quantity)
    (hb : IdsBelow e) :
    wp (sem adapterEnv) (fun _ _ => True) (Router.restorePartial cid filled)
      (fun r db'' => r = .ok () ∧ Agreement db'') db' := by
  have he : db'.find cid = some e := hk ▸ hput.find_self
  subst hf
  unfold Router.restorePartial
  split
  · rename_i hpos
    refine wp_mono (updateStatus_reliable he (by rw [hst]; decide)) fun r db'' h => ?_
    exact ⟨h.1, ha.put (hput.trans h.2 rfl) ⟨⟨hpos, hlt⟩, hb⟩⟩
  · rename_i hpos
    refine ⟨rfl, ha.put hput ⟨?_, hb⟩⟩
    have hnn : 0 ≤ e.filled := filledQty_nonneg e.fills
    rw [hst]
    change e.filled = 0
    omega

/-- The venue leg of a native amend, from NEW or PARTIALLY_FILLED to a total above the fills. -/
theorem amendAt_agreement (a : AdapterId) {cid : String} {e : Entry} {p : Option Decimal}
    {q : Option Int} (ha : Agreement db) (he : db.find cid = some e)
    (hlive : e.row.status = .new ∨ e.row.status = .partiallyFilled)
    (hq : ∀ n, q = some n → e.filled < n) :
    wp (sem adapterEnv) (fun _ _ => True) (Router.amendAt a cid p q e.filled)
      (fun _ db' => Agreement db') db := by
  have hk := Db.find_key he
  have hlt : e.filled < e.row.quantity := by
    have hagree := (ha cid e he).1
    have hpos := e.quantity_pos
    rcases hlive with h | h <;> rw [h] at hagree
    · exact (show e.filled = 0 from hagree) ▸ hpos
    · exact hagree.2
  unfold Router.amendAt
  rw [Prog.bind_eq, wp_bind]
  refine wp_mono (updateStatus_reliable he (s := .pendingReplace)
    (by rcases hlive with h | h <;> rw [h] <;> decide)) fun r db₁ h₁ => ?_
  obtain ⟨rfl, hput₁⟩ := h₁
  have hb : IdsBelow e := (ha cid e he).2
  have ha₁ : Agreement db₁ := ha.put hput₁ ⟨hlt, hb⟩
  have he₁ : db₁.find cid = some (Db.withStatus e .pendingReplace) := by
    rw [← hk]
    exact hput₁.find_self
  rw [outcome_ok, Prog.bind_eq, wp_bind]
  refine wp_mono (wp_external (Router.external_venueAmend a cid p q) db₁) fun r db₂ h₂ => ?_
  obtain rfl : db₂ = db₁ := h₂
  cases r with
  | error er => exact ha₁
  | ok ack =>
    rw [outcome_ok]
    split
    · rw [Prog.bind_eq, wp_bind]
      refine wp_perform.mpr ⟨trivial, fun r db₃ hs => ?_⟩
      obtain ⟨t, ht⟩ := step_reliable hs
      change db₂.replaceOrder cid p q = _ at ht
      rcases Db.replaceOrder_cases db₂ cid p q with
        ⟨e₁, e', he₁', -, hrow, hfills, hc⟩ | ⟨x, hc⟩
      · rw [hc] at ht
        obtain ⟨rfl, rfl⟩ := Prod.mk.inj ht
        rw [he₁] at he₁'
        obtain rfl := Option.some.inj he₁'
        have hk' : e'.row.clientOrderId = cid := by
          rw [hrow]
          exact hk
        have hput' : db₂.Put (db₂.set e') e' :=
          .of_set (x := Db.withStatus e .pendingReplace) (by rw [hk']; exact he₁)
        have hfilled : e'.filled = e.filled := congrArg filledQty hfills
        have hlt' : e'.filled < e'.row.quantity := by
          rw [hfilled, hrow]
          change e.filled < q.getD e.row.quantity
          cases q with
          | none => exact hlt
          | some n => exact hq n rfl
        rw [outcome_ok, Prog.bind_eq, wp_bind]
        refine wp_mono (restorePartial_agreement ha₁ hput' hk' (by rw [hrow]) hfilled hlt'
          (hb.of_fills hfills))
          fun r db₄ h₄ => ?_
        obtain ⟨rfl, ha₄⟩ := h₄
        exact keeps_agreement (Uses.bind (Router.uses_get trivial) fun _ => uses_ret _) ha₄
      · rw [hc] at ht
        obtain ⟨rfl, rfl⟩ := Prod.mk.inj ht
        exact ha₁
    · rw [Prog.bind_eq, wp_bind]
      refine wp_mono (updateStatus_reliable he₁ (s := .new) rfl) fun r db₃ h₃ => ?_
      obtain ⟨rfl, hput₃⟩ := h₃
      rw [outcome_ok, Prog.bind_eq, wp_bind]
      refine wp_mono (restorePartial_agreement ha₁ hput₃ hk rfl rfl hlt hb) fun r db₄ h₄ => ?_
      obtain ⟨rfl, ha₄⟩ := h₄
      exact ha₄

theorem amend_agreement (R : Router) (fuel : Nat) (cid : String) (newCid : Option String)
    (p : Option Decimal) (q : Option Int) {x : World} (ha : Agreement x.1) :
    wp (seqSem adapterEnv) (fun _ _ => True) (R.amend fuel cid newCid p q)
      (fun _ y => Agreement y.1) x := by
  refine amend_branches (fun _ _ _ => trivial) (fun _ y hy => by rw [hy.1]; exact ha) ?_ ?_
  · intro e y he hy _
    refine wp_world (Q := fun _ db' => Agreement db') ?_
    rw [hy.1]
    refine amendNative_rule he (fun _ => ha) fun _ hlive hlt a => ?_
    exact amendAt_agreement a ha he hlive hlt
  · intro e y he hy _
    refine wp_world (Q := fun _ db' => Agreement db') ?_
    rw [hy.1]
    unfold Router.amendCancelReplace
    split
    · exact ha
    · rename_i newCid
      generalize Router.amendedOrder e.row newCid p q = built
      rw [Prog.bind_eq, wp_bind]
      refine wp_mono (keeps_agreement (safe_cancel R _) ha) fun r db₁ ha₁ => ?_
      cases r with
      | error er => exact ha₁
      | ok res =>
        rw [outcome_ok, Prog.bind_eq, wp_bind]
        refine wp_mono (keeps_agreement (uses_lift _) ha₁) fun r db₂ ha₂ => ?_
        cases r with
        | error er => exact ha₂
        | ok o => exact submit_agreement R fuel o _ ha₂

/-! ## Reconcile passes -/

section Passes

variable {ι : Type} [ReconcilerVenue ι]

/-- A pass keeps the agreement, if the books it reads fit. -/
theorem reconcileOnce_agreement
    (hbook : Reconcile.BookRead adapterEnv fun db key ans =>
      ∀ items : List ι, ans = some items → BookFits ι db key items)
    (ha : Agreement db) :
    wp (sem adapterEnv) (fun _ _ => True) (Reconcile.reconcileOnce ι)
      (fun _ db' => Agreement db') db := by
  refine Reconcile.wp_reconcileOnce (fun _ => ha) fun rows now hl => ?_
  refine wp_forall fun cid => ?_
  have hvisit : ∀ g ∈ Reconcile.groups ι rows, Reconcile.VisitSpec adapterEnv now cid
      (fun o => ∀ e, o = some e → Agrees e)
      (fun db key ans => ∀ items : List ι, ans = some items → BookFits ι db key items) db g := by
    intro g hg db' items hdb' hitems row res hmem hcid db'' hdb''
    subst hcid
    obtain ⟨claimed, hrow, hres⟩ := Reconcile.mem_visits hmem
    have hmem' : row ∈ rows := by
      rw [Reconcile.mem_groups hg] at hrow
      exact (List.mem_filter.mp hrow).1
    have hkey : ReconcilerVenue.groupKey ι row = g.1 := by
      rw [Reconcile.mem_groups hg] at hrow
      exact of_decide_eq_true (List.mem_filter.mp hrow).2
    obtain ⟨hcur, hb, -⟩ := mem_listing hl hmem'
    obtain ⟨e, he, her⟩ := hcur.find
    have ha'' : AgreesAt row.clientOrderId db'' := fun e' he' => ha _ e' (hdb'' ▸ he')
    refine Reconcile.applyVisit_agrees ha'' (hcur.of_find hdb'') ha'' fun i hi => ?_
    obtain ⟨hi, hno | hvol⟩ := Reconcile.resolveRow_item hres hi
    · have := (hitems items rfl i hi).2 _ e (hdb'.trans he) (her ▸ hb) (her ▸ hkey) (her ▸ hno)
      rwa [her] at this
    · exact hvol ▸ (hitems items rfl i hi).1
  refine wp_mono (Reconcile.pass_local hbook (listing_nodup hl) hvisit) fun r db' h => ?_
  rcases h with h | ⟨h, -⟩
  · exact h
  · intro e he
    exact ha cid e (h ▸ he)

end Passes

theorem liberator_books : Reconcile.BookRead adapterEnv fun db key ans =>
    ∀ items, ans = some items → BookFits Liberator.VenueOrderItem db key items := by
  intro key db
  refine Reconcile.readBook_spec ?_
  refine wp_perform.mpr ⟨trivial, fun r db' hs => ?_⟩
  obtain ⟨rfl, hfits⟩ := step_ext hs
  cases r with
  | error er => exact ⟨rfl, fun _ h => nomatch h⟩
  | ok items =>
    refine ⟨rfl, fun items' h item hitem => ?_⟩
    obtain rfl := Option.some.inj h
    refine ⟨(hfits item hitem).1, fun cid e he hb hkey hno => ?_⟩
    refine (hfits item hitem).2 cid e he hb ?_ hno
    rw [← hkey]
    rfl

theorem streamingPro_books : Reconcile.BookRead adapterEnv fun db key ans =>
    ∀ items, ans = some items → BookFits StreamingPro.VenueOrderRow db key items := by
  intro key db
  refine Reconcile.readBook_spec ?_
  refine wp_perform.mpr ⟨trivial, fun r db' hs => ?_⟩
  obtain ⟨rfl, hfits⟩ := step_ext hs
  cases r with
  | error er => exact ⟨rfl, fun _ h => nomatch h⟩
  | ok items =>
    refine ⟨rfl, fun items' h item hitem => ?_⟩
    obtain rfl := Option.some.inj h
    refine ⟨(hfits item hitem).1, fun cid e he hb hkey hno => ?_⟩
    refine (hfits item hitem).2 cid e he hb ?_ hno
    rw [← hkey]
    rfl

/-- Every call keeps the agreement, however it ends. -/
theorem request_agreement (q : Request) {x : World} (ha : Agreement x.1) :
    wp (seqSem adapterEnv) (fun _ _ => True) q.prog (fun _ y => Agreement y.1) x := by
  have hdrop {α : Type} {p : Eff α}
      (h : wp (seqSem adapterEnv) (fun _ _ => True) p (fun _ y => Agreement y.1) x) :
      wp (seqSem adapterEnv) (fun _ _ => True) (p.bind fun _ => .ret ())
        (fun _ y => Agreement y.1) x := by
    rw [wp_bind]
    refine wp_mono h fun r y hy => ?_
    cases r <;> exact hy
  cases q with
  | submit R fuel o sid => exact hdrop (wp_world (submit_agreement R fuel o sid ha))
  | cancel R cid => exact hdrop (wp_world (keeps_agreement (safe_cancel R cid) ha))
  | amend R fuel cid newCid p q => exact hdrop (amend_agreement R fuel cid newCid p q ha)
  | massCancel R => exact hdrop (wp_world (keeps_agreement (safe_massCancel R) ha))
  | reconcileLiberator => exact hdrop (wp_world (reconcileOnce_agreement liberator_books ha))
  | reconcileStreamingPro =>
    exact hdrop (wp_world (reconcileOnce_agreement streamingPro_books ha))
  | resolveOrderNow cid => exact hdrop (wp_world (resolveOrderNow_agreement cid ha))

end Calls

/-! ## Whole runs -/

/-- Status and fills of one order, spelled out. -/
structure StatusFillsAgree (e : Entry) : Prop where
  filled_iff : e.row.status = .filled ↔ e.filled = e.row.quantity
  partially : e.row.status = .partiallyFilled → 0 < e.filled ∧ e.filled < e.row.quantity
  untouched : e.row.status ∈ [OrderState.pendingNew, .new, .rejected] → e.filled = 0
  below : e.row.status ∈ [OrderState.cancelled, .expired, .pendingCancel, .pendingReplace] →
    e.filled < e.row.quantity

theorem Agrees.statusFillsAgree {e : Entry} (h : Agrees e) : StatusFillsAgree e := by
  have hq := e.quantity_pos
  have h := h.1
  constructor
  · constructor
    · intro hs
      rw [hs] at h
      exact h
    · intro hsum
      cases hs : e.row.status <;> rw [hs] at h <;> simp only [AgreesWith] at h <;> omega
  · intro hs
    rw [hs] at h
    exact h
  · intro hs
    cases hst : e.row.status <;> rw [hst] at h hs <;>
      first | exact h | exact absurd hs (by decide)
  · intro hs
    cases hst : e.row.status <;> rw [hst] at h hs <;>
      first | exact h | exact absurd hs (by decide)

theorem agreement_run {requests : List Request} {x y : World} (ha : Agreement x.1)
    (hrun : SeqRun adapterEnv x requests y) : Agreement y.1 := by
  induction hrun with
  | nil x => exact ha
  | cons h _ ih => exact ih ((request_agreement _ ha).exec h)

/-- One step of the engine moves a status along a frozen edge or not at all, and never out of a
    terminal one. -/
def StepLegal (db db' : Db) : Prop :=
  ∀ cid e, db.find cid = some e → ∃ e', db'.find cid = some e' ∧
    (e'.row.status = e.row.status ∨ (e.row.status, e'.row.status) ∈ legalEdges) ∧
    (isTerminal e.row.status = true → e'.row.status = e.row.status)

theorem step_legal {E : Env} {db db' : Db} {op : EngineOp} {r : Except Exn op.Res}
    (h : (sem E).step db op r db') : StepLegal db db' := by
  intro cid e he
  obtain ⟨e', he', hedge⟩ := step_status h he
  refine ⟨e', he', hedge, fun ht => ?_⟩
  rcases hedge with h | h
  · exact h
  · exact absurd h (not_edge_of_terminal ht)

/-- Terminal statuses stay. -/
def Final (db db' : Db) : Prop :=
  ∀ cid e, db.find cid = some e → isTerminal e.row.status = true →
    ∃ e', db'.find cid = some e' ∧ e'.row.status = e.row.status

instance : IsPreorder Db Final where
  refl _ := fun _ e he _ => ⟨e, he, rfl⟩
  trans _ _ _ hab hbc := fun cid e he ht => by
    obtain ⟨e₁, he₁, hs₁⟩ := hab cid e he ht
    obtain ⟨e₂, he₂, hs₂⟩ := hbc cid e₁ he₁ (hs₁ ▸ ht)
    exact ⟨e₂, he₂, hs₂.trans hs₁⟩

theorem final_run {E : Env} {requests : List Request} {x y : World}
    (hrun : SeqRun E x requests y) : Final x.1 y.1 := by
  induction hrun with
  | nil x => exact refl_of Final x.1
  | cons h _ ih =>
    refine trans_of Final ?_ ih
    have hmoves {p : Eff Unit} : Moves (sem E) Final p :=
      (uses_univ p).moves fun _ _ _ _ _ hs cid e he ht =>
        (step_legal hs cid e he).imp fun e' h => ⟨h.1, h.2.2 ht⟩
    exact (wp_world (hmoves _)).exec h

theorem agreement_empty : Agreement Db.empty := fun _ _ h => nomatch h

/-- Over every run of calls, one at a time, with any answers the adapters can give and books that
    never match more than the order: between calls status and fills agree in every order, every
    step on the way takes a frozen edge, and a terminal status is final. -/
theorem status_fills_run {requests : List Request} {x : World}
    (hrun : SeqRun adapterEnv (Db.empty, []) requests x) :
    (∀ cid e, x.1.find cid = some e → StatusFillsAgree e) ∧
    (∀ (q : Request) (op : EngineOp) (r : Except Exn op.Res) (y z : World),
      Reaches (seqSem adapterEnv) q.prog x op y → (seqSem adapterEnv).step y op r z →
        StepLegal y.1 z.1) ∧
    ∀ later y, SeqRun adapterEnv x later y → Final x.1 y.1 :=
  ⟨fun cid e he => (agreement_run agreement_empty hrun cid e he).statusFillsAgree,
    fun _ _ _ _ _ _ hs => step_legal hs.1, fun _ _ h => final_run h⟩

/-- No venue shows any order; everything else is plain. -/
def quietHandler : Handler := plainHandler 0 (fun _ => {}) []

theorem quiet_follows : Follows (sem adapterEnv) quietHandler.step := by
  refine handler_follows fun db o => ?_
  cases o with
  | place a o =>
    cases a with
    | sim => exact ⟨_, _, _, rfl⟩
    | liberator => exact rfl
    | streamingPro => exact rfl
  | liberatorOrders account => exact fun _ h => nomatch h
  | streamingProOrders account market => exact fun _ h => nomatch h
  | _ => trivial

/-- Filled by 30, amended to 50, cancelled: 30 of 50 stay filled. -/
theorem partial_amended_cancelled :
    ∃ x e, SeqRun adapterEnv (Db.empty, [])
        [.submit simRouter 0 partialOrderA none, .amend simRouter 0 cidA none none (some 50),
          .cancel simRouter cidA] x ∧
      x.1.find cidA = some e ∧ e.row.status = .cancelled ∧ e.filled = 30 ∧
      StatusFillsAgree e := by
  have h : ((runRequests quietHandler
      [.submit simRouter 0 partialOrderA none, .amend simRouter 0 cidA none none (some 50),
        .cancel simRouter cidA] (Db.empty, [])).any fun x =>
        hasStatus cidA .cancelled x && holds cidA 30 50 x) = true := by decide +kernel
  obtain ⟨x, hrun, hx⟩ := exists_run quiet_follows h
  obtain ⟨hst, hfill⟩ := Bool.and_eq_true_iff.mp hx
  obtain ⟨e, he, hst⟩ := hasStatus_iff.mp hst
  obtain ⟨e', he', hfilled, -⟩ := holds_iff.mp hfill
  rw [he] at he'
  obtain rfl := Option.some.inj he'
  exact ⟨x, e, hrun, he, hst, hfilled, (status_fills_run hrun).1 cidA e he⟩

end ExecutionEngine
