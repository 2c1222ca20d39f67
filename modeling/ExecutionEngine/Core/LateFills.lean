/-
  What an order has recorded when it becomes CANCELLED.

  From PENDING_CANCEL on no statement touches the fills: there is no edge to
  PARTIALLY_FILLED or FILLED. So a CANCELLED order has the fills it had when the
  cancel began (`cancelled_since_pending`); what the venue matched and no pass
  has recorded by then is never recorded. A pass that finds a working order
  cancelled at the venue records the counter of its row first
  (`PassData.Runs.counts`).
-/
import ExecutionEngine.Core.Cancels
import ExecutionEngine.Core.Overfill
import ExecutionEngine.Core.Telescope

namespace ExecutionEngine

open Async Async.Prog StateMachine

/-! ## From PENDING_CANCEL on -/

/-- The one way in: a resting order is written PENDING_CANCEL. -/
theorem step_into_closing {E : Env} {db db' : Db} {op : EngineOp} {r : Except Exn op.Res}
    (h : (sem E).step db op r db') {cid : String} {e' : Entry} (he' : db'.find cid = some e')
    (hc : Closing e'.row.status) :
    ∃ e, db.find cid = some e ∧ e'.fills = e.fills ∧
      (Closing e.row.status ∨ Reconcile.Resting e.row.status ∧ e'.row.status = .pendingCancel) := by
  rcases step_find h cid with heq | ⟨_, _, _, e, _, _, _, hrow, _, he⟩ |
    ⟨o, e, e₁, -, hch, -, he, he₁⟩
  · exact ⟨e', heq ▸ he', rfl, .inl hc⟩
  · rw [he] at he'
    obtain rfl := Option.some.inj he'
    rw [hrow] at hc
    simp [Closing, Db.newRow] at hc
  · rw [he₁] at he'
    obtain rfl := Option.some.inj he'
    have hfrom : Closing e.row.status ∨
        Reconcile.Resting e.row.status ∧ e₁.row.status = .pendingCancel := by
      have hl := hch.legal
      revert hl hc
      cases e.row.status <;> cases e₁.row.status <;>
        simp [Closing, Reconcile.Resting, isLegal, legalEdges]
    refine ⟨e, he, ?_, hfrom⟩
    cases hch with
    | ack | status | reason => rfl
    | replace _ _ _ _ hfills => exact hfills
    | fill =>
      rw [withStatus_status, Db.fillTarget] at hc
      split at hc <;> simp [Closing] at hc

section Run

variable {ι : Type} [DecidableEq ι] {E : Env} {P₀ P : Pool engineSig Db ι} {cid : String}

/-- The moment at which the cancel of an order began, with the fills it had. -/
def CancelBegan (E : Env) (P₀ P : Pool engineSig Db ι) (cid : String) (fills : List FillRow) :
    Prop :=
  ∃ Q Q' e₀ e₁, PoolReach (sem E) closed P₀ Q ∧ PoolStep (sem E) closed Q Q' ∧
    PoolReach (sem E) closed Q' P ∧ Q.state.find cid = some e₀ ∧
    Reconcile.Resting e₀.row.status ∧ Q'.state.find cid = some e₁ ∧
    e₁.row.status = .pendingCancel ∧ e₀.fills = fills

/-- In every run, an order on its way to CANCELLED has the fills it had when that began, or at the
    start of the run. -/
theorem closing_since (hP : PoolReach (sem E) closed P₀ P) {e : Entry}
    (he : P.state.find cid = some e) (hc : Closing e.row.status) :
    (∃ e₀, P₀.state.find cid = some e₀ ∧ Closing e₀.row.status ∧ e₀.fills = e.fills) ∨
      CancelBegan E P₀ P cid e.fills := by
  induction hP generalizing e with
  | refl => exact .inl ⟨e, he, hc, rfl⟩
  | @tail Q P' hQ hstep ih =>
    have hlast := hstep
    cases hstep with
    | env henv => exact henv.elim
    | thread i hi hs =>
      obtain ⟨e₀, he₀, hfills, hclosing | ⟨hrest, hpc⟩⟩ := step_into_closing hs he hc
      · rw [hfills]
        refine (ih he₀ hclosing).imp_right ?_
        rintro ⟨A, B, a, b, hA, hAB, hB, hrest⟩
        exact ⟨A, B, a, b, hA, hAB, hB.tail hlast, hrest⟩
      · exact .inr ⟨Q, _, e₀, e, hQ, hlast, .refl, he₀, hrest, he, hpc, hfills.symm⟩

end Run

/-! ## A pass that sees the order -/

namespace Reconcile

section Visit

variable {E : Env} {db : Db} {cid : String}

/-- Without a fill the aggregate stays. -/
theorem keeps_filled {α : Type} {p : Eff α} (h : Uses Neutral p) {n : Int}
    (hn : ∃ e, db.find cid = some e ∧ e.filled = n) :
    wp (sem E) (fun _ _ => True) p (fun _ db' => ∃ e, db'.find cid = some e ∧ e.filled = n) db := by
  refine h.keeps hn (fun _ _ _ _ => trivial) ?_
  rintro s op r s' hop ⟨e, he, hfilled⟩ hs
  have hsome : (s'.find cid).isSome = true := step_find_isSome hs (by rw [he]; rfl)
  obtain ⟨e', he'⟩ := Option.isSome_iff_exists.mp hsome
  refine ⟨e', he', ?_⟩
  rcases step_filledAt hs cid with ⟨hsame, -⟩ | ⟨_, _, _, _, _, rfl, -⟩
  · rw [filledAt_of_find he', filledAt_of_find he, hfilled] at hsame
    exact hsame
  · exact hop.elim

variable {allows : Db → (o : ExtOp) → Except Exn o.Res → Prop} {e : Entry}

theorem terminal_keeps_filled {ι : Type} [VenueItem ι] (row : OrderRow) (item : ι) {n : Int}
    (hn : ∃ e, db.find cid = some e ∧ e.filled = n) :
    wp (sem (.reliable allows)) (fun _ _ => True)
      (sumOver attempt (if VenueItem.matched item < row.quantity then
        venueTerminalActions row item else []))
      (fun r db' => (∃ n, r = .ok n) ∧ ∃ e, db'.find cid = some e ∧ e.filled = n) db := by
  refine wp_and (attempts_return _) (keeps_filled (uses_sumOver fun a ha => ?_) hn)
  refine neutral_attempt ?_
  split at ha
  · have hnil := venueTerminalActions_fills row item
    exact Bool.eq_false_iff.mpr (List.filter_eq_nil_iff.mp hnil a ha)
  · cases ha

/-- The pass resolves the order to a venue row whose counter can be recorded. -/
def PassData.Finds {ι : Type} [ReconcilerVenue ι] (P : PassData ι) (cid : String) (item : ι) :
    Prop :=
  ∃ row res, (row, res) ∈ P.visitsOf (ReconcilerVenue.groupKey ι row) ∧
    row.clientOrderId = cid ∧ res.item = some item ∧
    ∃ p, VenueItem.fillPriceFor row item = some p ∧ Storable p (VenueItem.matched item)

/-- A pass that finds a working order brings its fills up to the counter, also if the venue has
    cancelled or rejected it. -/
theorem PassData.Runs.counts {ι : Type} [ReconcilerVenue ι] {P : PassData ι} {db' : Db} {item : ι}
    (hruns : P.Runs db db') (he : db.find cid = some e) (hw : Working e)
    (hlive : e.row.status = .pendingNew → VenueItem.classifyVenueState item ≠ .rejected)
    (hfinds : P.Finds cid item) :
    ∃ e', db'.find cid = some e' ∧ e'.filled = max e.filled (VenueItem.matched item) := by
  obtain ⟨row, res, hvisit, rfl, hitem, hprice⟩ := hfinds
  have hrow := (PassData.mem_visitsOf hvisit).1
  obtain ⟨hcur, -, hstatus⟩ := mem_listing hruns.listing hrow
  obtain ⟨e₁, he₁, hrow₁⟩ := hcur.find
  rw [he] at he₁
  obtain rfl := Option.some.inj he₁
  refine hruns.visited (Q := fun o => ∃ e', o = some e' ∧
    e'.filled = max e.filled (VenueItem.matched item)) ⟨row, hrow, rfl⟩
    fun row₁ res₁ hv₁ hcid₁ db₁ hdb₁ => ?_
  obtain ⟨rfl, rfl⟩ := PassData.visit_unique (listing_nodup hruns.listing) hv₁ hvisit hcid₁
  have hbelow := hw.below
  have hworks := hw.live
  rw [hrow₁] at hlive hbelow hworks
  refine visit_stages hruns.clock (hdb₁.trans he) hrow₁ (hworks.imp_left fun h => ⟨h, hlive h⟩)
    hbelow hw.ids hitem hprice fun db₂ e₂ he₂ hc => ?_
  exact terminal_keeps_filled row₁ item ⟨e₂, he₂, hc.filled⟩

end Visit

section Sample

open Liberator (VenueOrderItem)

/-- The sample order, matched by 40 and cancelled for the rest. -/
def cancelledItem : VenueOrderItem := { sampleItem 40 with balance := 0, cancelled := 60 }

/-- The venue of `liveHandler`, and nothing else. -/
def liveEnv : Env := .reliable fun db o r => r = liveHandler.ext db o

end Sample

end Reconcile

end ExecutionEngine
