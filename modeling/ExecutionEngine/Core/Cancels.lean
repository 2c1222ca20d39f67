/-
  Cancel requests over whole runs.

  An order gets to PENDING_CANCEL in two ways: in front of a cancel request, or as
  the first half of a two-step cancel. `Survives` says that a relation between
  states holds over both and over every other operation; then it holds over every
  call (`Survives.request`). The relation `Asked` is what the calls guarantee:
  PENDING_CANCEL has a request behind it, and a request leaves the order
  PENDING_CANCEL or CANCELLED, whatever the venue answers.
-/
import ExecutionEngine.Core.Refusals

namespace ExecutionEngine

open Async Async.Prog StateMachine

/-! ## Once through every call -/

/-- Anything but a write of PENDING_CANCEL and a cancel request. -/
def Plain : EngineOp → Prop
  | .store (.writeStatus _ .pendingCancel) => False
  | .ext (.cancel _ _) => False
  | _ => True

theorem Probe.plain {op : EngineOp} (h : Probe op) : Plain op := by
  rcases op with o | o
  · exact h.elim
  · cases o <;> first | exact h | trivial

/-- The two fragments that write PENDING_CANCEL move along the relation, and so does every other
    operation. -/
structure Survives {σ : Type} (M : Sem engineSig σ) (Rel : σ → σ → Prop) : Prop where
  plain : ∀ {s op r s'}, Plain op → M.step s op r s' → Rel s s'
  ask : ∀ a cid, Moves M Rel
    ((updateStatus cid .pendingCancel).bind fun _ => Eff.ext (.cancel a cid))
  twoStep : ∀ cid, Moves M Rel
    ((updateStatus cid .pendingCancel).bind fun _ => updateStatus cid .cancelled)

namespace Survives

variable {σ α : Type} {M : Sem engineSig σ} {Rel : σ → σ → Prop} [IsPreorder σ Rel]

theorem uses (h : Survives M Rel) {p : Eff α} (hp : Uses Plain p) : Moves M Rel p :=
  hp.moves fun _ _ _ _ hop hs => h.plain hop hs

theorem probe (h : Survives M Rel) {p : Eff α} (hp : Uses Probe p) : Moves M Rel p :=
  h.uses (hp.mono fun _ => Probe.plain)

theorem store (h : Survives M Rel) {o : StoreOp} (ho : Plain (.store o)) :
    Moves M Rel (Eff.store o) :=
  h.uses (uses_store ho)

theorem ext (h : Survives M Rel) {o : ExtOp} (ho : Plain (.ext o)) : Moves M Rel (Eff.ext o) :=
  h.uses (uses_ext ho)

theorem status (h : Survives M Rel) (cid : String) {s : OrderState}
    (hs : Plain (.store (.writeStatus cid s))) : Moves M Rel (updateStatus cid s) :=
  h.uses (uses_updateStatus trivial hs)

/-- A request with what follows it. -/
theorem askThen (h : Survives M Rel) (a : AdapterId) (cid : String) {k : CancelAck → Eff α}
    (hk : ∀ ack, Moves M Rel (k ack)) :
    Moves M Rel ((updateStatus cid .pendingCancel).bind fun _ =>
      (Eff.ext (.cancel a cid)).bind k) := by
  rw [← bind_assoc]
  exact (h.ask a cid).bind hk

theorem attempt (h : Survives M Rel) (a : Reconcile.ReconcileAction) :
    Moves M Rel (Reconcile.attempt a) := by
  refine Moves.tryExcept (Moves.bind ?_ fun _ => moves_ret 1) fun _ => moves_ret 0
  cases a with
  | ack => exact h.store trivial
  | fill => exact Moves.bind (h.ext trivial) fun _ => Moves.bind (h.store trivial) fun _ => moves_ret _
  | cancelTwoStep cid => exact h.twoStep cid
  | cancelConfirm cid => exact h.status cid trivial
  | expire cid => exact h.status cid trivial
  | reject cid => exact Moves.bind (h.status cid trivial) fun _ => h.store trivial
  | postAckReject cid => exact Moves.bind (h.store trivial) fun _ => h.twoStep cid

section Pass

variable {ι : Type} [ReconcilerVenue ι]

theorem applyRow (h : Survives M Rel) (row : OrderRow) (items : List ι) (claimed : List String)
    (now : Time) (requireStuck : Bool) :
    Moves M Rel (Reconcile.applyRow row items claimed now requireStuck) :=
  (h.probe (uses_lift _)).bind fun _ => Moves.bind (h.store trivial) fun _ =>
    (Reconcile.runPlan_cases (fun _ _ => moves_raise _) fun _ =>
      moves_sumOver fun a _ => h.attempt a).bind fun _ => moves_ret _

theorem applyRows (h : Survives M Rel) (items : List ι) (now : Time) (rows : List OrderRow)
    (claimed : List String) : Moves M Rel (Reconcile.applyRows items now rows claimed) := by
  induction rows generalizing claimed with
  | nil => exact moves_ret 0
  | cons row rows ih =>
    exact (h.applyRow row items claimed now true).bind fun (_, _) =>
      (ih _).bind fun _ => moves_ret _

theorem reconcileOnce (h : Survives M Rel) (hbook : ∀ key, Uses Plain
    (ReconcilerVenue.fetchVenueOrders key : Eff (List ι))) :
    Moves M Rel (Reconcile.reconcileOnce ι) := by
  unfold Reconcile.reconcileOnce
  refine Moves.bind (h.store trivial) fun rows => ?_
  split
  · exact moves_ret 0
  · refine Moves.bind (h.ext trivial) fun now => moves_sumOver fun group _ => ?_
    unfold Reconcile.reconcileGroup Reconcile.readBook
    refine Moves.bind (Moves.tryExcept ((h.uses (hbook _)).bind fun _ => moves_ret _) fun e => ?_)
      fun book => ?_
    · split
      · exact moves_ret _
      · exact moves_raise _
    · cases book with
      | none => exact moves_ret 0
      | some items => exact h.applyRows items now _ _

end Pass

theorem resolveOrderNow (h : Survives M Rel) (cid : String) :
    Moves M Rel (Liberator.resolveOrderNow cid) := by
  unfold Liberator.resolveOrderNow
  refine Moves.bind (h.store trivial) fun row => ?_
  split
  · exact moves_ret _
  · split
    · exact moves_ret _
    · refine Moves.bind (h.store trivial) fun _ => Moves.bind (h.ext trivial) fun _ => ?_
      refine Moves.bind (h.ext trivial) fun _ => (h.applyRow _ _ _ _ _).bind fun _ => ?_
      exact Moves.bind (h.store trivial) fun _ => moves_ret _

theorem recoverHandle (h : Survives M Rel) {resolve : Eff Bool} (hr : Moves M Rel resolve)
    (submittedAt cadence deadline : Time) (minPolls : Int) (fuel : Nat) (attempts : Int)
    (readOk : Bool) :
    Moves M Rel (HandleRecovery.recoverHandle resolve submittedAt cadence deadline minPolls fuel
      attempts readOk) := by
  induction fuel generalizing attempts readOk with
  | zero => exact fun _ => trivial
  | succ fuel ih =>
    unfold HandleRecovery.recoverHandle HandleRecovery.poll
    refine Moves.bind (Moves.tryExcept (hr.bind fun b => moves_ret (some b)) fun _ => moves_ret _)
      fun answer => ?_
    split
    · exact moves_ret _
    · refine Moves.bind (h.ext trivial) fun now => ?_
      split
      · exact moves_ret _
      · exact Moves.bind (h.ext trivial) fun _ => ih _ _

theorem placeAndSettle (h : Survives M Rel) (R : Router) (fuel : Nat) (a : AdapterId)
    (o : NormalizedOrder) : Moves M Rel (R.placeAndSettle fuel a o) := by
  unfold Router.placeAndSettle
  refine Moves.bind (h.ext trivial) fun ack => ?_
  split
  · exact Moves.bind (h.status _ trivial) fun _ => Moves.bind (h.store trivial) fun _ => moves_ret _
  · split
    · unfold Router.recoverHandle
      split
      · refine Moves.bind (h.store trivial) fun row => Moves.bind ?_ fun start =>
          h.recoverHandle (h.resolveOrderNow _) _ _ _ _ _ _ _
        cases row with
        | none => exact h.ext trivial
        | some row => exact moves_ret _
      · exact moves_ret _
    · unfold Router.settle
      refine Moves.bind (h.store trivial) fun _ => (moves_forEach fun f _ => ?_).bind fun _ => ?_
      · exact Moves.bind (h.store trivial) fun _ => moves_ret _
      · split
        · exact h.askThen a _ fun _ => Moves.bind (h.status _ trivial) fun _ => moves_ret _
        · exact moves_ret _

theorem submit (h : Survives M Rel) (R : Router) (fuel : Nat) (o : NormalizedOrder)
    (sid : Option String) : Moves M Rel (R.submit fuel o sid) := by
  unfold Router.submit
  refine (h.probe R.uses_assertDisengaged).bind fun _ => Moves.bind (h.store trivial) fun existing => ?_
  split
  · exact moves_ret _
  · refine (h.probe (R.uses_gates o)).bind fun a => Moves.bind ?_ fun done => ?_
    · refine (h.probe (R.uses_acquireLock _)).bind fun acquired => ?_
      refine Moves.tryFinally ?_ (h.probe (R.uses_releaseLock _ _))
      unfold Router.submitLocked
      split
      · refine Moves.bind (h.uses (Router.uses_insertFresh trivial)) fun fresh => ?_
        split
        · exact (h.placeAndSettle R fuel a o).bind fun _ => moves_ret _
        · refine h.uses (Uses.bind (uses_store trivial) fun row => ?_)
          split <;> trivial
      · exact (h.uses (Router.uses_awaitConcurrent trivial trivial _)).bind fun _ => moves_ret _
    · exact h.uses (Router.uses_readBack trivial done)

theorem cancel (h : Survives M Rel) (R : Router) (cid : String) : Moves M Rel (R.cancel cid) := by
  unfold Router.cancel
  refine Moves.bind (h.store trivial) fun row => ?_
  split
  · exact moves_raise _
  · split
    · exact moves_raise _
    · split
      · exact h.uses (Router.uses_get trivial)
      · split
        · exact moves_raise _
        · refine (h.probe (uses_lift _)).bind fun a => ?_
          refine (h.probe (Router.uses_breakerGuard a)).bind fun _ => Moves.bind ?_ fun _ =>
            h.uses (Router.uses_get trivial)
          refine h.askThen a cid fun ack => ?_
          split
          · exact h.status cid trivial
          · exact moves_raise _

theorem amendNative (h : Survives M Rel) (R : Router) (row : OrderRow) (newCid : Option String)
    (p : Option Decimal) (q : Option Int) : Moves M Rel (R.amendNative row newCid p q) := by
  unfold Router.amendNative
  dsimp only
  split
  · exact moves_raise _
  · split
    · exact moves_raise _
    · refine Moves.bind (h.store trivial) fun result => ?_
      split
      · exact moves_raise _
      · refine (h.probe (uses_lift _)).bind fun _ => (h.probe (uses_lift _)).bind fun amended => ?_
        refine (h.probe (R.uses_riskCheck amended)).bind fun _ => ?_
        refine (h.probe (uses_lift _)).bind fun a => ?_
        refine (h.probe (Router.uses_breakerGuard a)).bind fun _ => h.uses ?_
        refine Router.uses_amendAt trivial trivial (fun s hs => ?_) trivial trivial
        simp only [List.mem_cons, List.not_mem_nil, or_false] at hs
        rcases hs with rfl | rfl | rfl <;> trivial

theorem amend (h : Survives M Rel) (R : Router) (fuel : Nat) (cid : String)
    (newCid : Option String) (p : Option Decimal) (q : Option Int) :
    Moves M Rel (R.amend fuel cid newCid p q) := by
  unfold Router.amend
  refine (h.probe R.uses_assertDisengaged).bind fun _ => ?_
  split
  · exact moves_raise _
  · refine Moves.bind (h.store trivial) fun row => ?_
    split
    · exact moves_raise _
    · refine (h.probe (uses_lift _)).bind fun caps => ?_
      split
      · exact h.amendNative R _ newCid p q
      · unfold Router.amendCancelReplace
        split
        · exact moves_raise _
        · refine (h.cancel R _).bind fun _ => (h.probe (uses_lift _)).bind fun replacement => ?_
          exact h.submit R fuel replacement _

theorem sweep (h : Survives M Rel) (R : Router) (rows : List OrderRow) :
    Moves M Rel (R.sweep rows) := by
  induction rows with
  | nil => exact moves_ret _
  | cons row rows ih =>
    refine Moves.bind (Moves.tryExcept ?_ fun _ => moves_ret _) fun ok =>
      ih.bind fun (_, _) => moves_ret _
    refine (h.probe (uses_lift _)).bind fun a => h.askThen a _ fun ack => ?_
    split
    · exact Moves.bind (h.status _ trivial) fun _ => moves_ret _
    · exact moves_raise _

/-- Every call moves along the relation, however it ends. -/
theorem request (h : Survives M Rel) (q : Request) : Moves M Rel q.prog := by
  cases q with
  | submit R fuel o sid => exact (h.submit R fuel o sid).bind fun _ => moves_ret _
  | cancel R cid => exact (h.cancel R cid).bind fun _ => moves_ret _
  | amend R fuel cid newCid p q => exact (h.amend R fuel cid newCid p q).bind fun _ => moves_ret _
  | massCancel R =>
    exact Moves.bind (Moves.bind (h.store trivial) fun rows => h.sweep R rows) fun _ => moves_ret _
  | reconcileLiberator =>
    exact (h.reconcileOnce fun _ => uses_ext trivial).bind fun _ => moves_ret _
  | reconcileStreamingPro =>
    exact (h.reconcileOnce fun _ => uses_ext trivial).bind fun _ => moves_ret _
  | resolveOrderNow cid => exact (h.resolveOrderNow cid).bind fun _ => moves_ret _

end Survives

/-! ## What the requests leave behind -/

def statusAt (cid : String) (db : Db) : Option OrderState := (db.find cid).map (·.row.status)

theorem statusAt_of_find {cid : String} {db : Db} {e : Entry} (h : db.find cid = some e) :
    statusAt cid db = some e.row.status := by
  rw [statusAt, h]
  rfl

/-- On the way to CANCELLED, or there. -/
def Closing (s : OrderState) : Prop := s = .pendingCancel ∨ s = .cancelled

theorem Closing.edge {s s' : OrderState} (h : Closing s) (hl : isLegal s s' = true) :
    Closing s' := by
  rcases h with rfl | rfl <;> revert hl <;> cases s' <;> simp [Closing, isLegal, legalEdges]

/-- The order is there and in such a state. -/
def Winding (cid : String) (db : Db) : Prop := ∃ s, statusAt cid db = some s ∧ Closing s

/-- From `x` to `y`: PENDING_CANCEL was there or has a request behind it, and an order that was on
    its way to CANCELLED, or has been asked for, is so. -/
structure Asked (cid : String) (x y : World) : Prop where
  grows : x.2 <+: y.2
  sent : statusAt cid y.1 = some .pendingCancel →
    statusAt cid x.1 = some .pendingCancel ∨ CancelSent cid x y
  winding : Winding cid x.1 ∨ CancelSent cid x y → Winding cid y.1

section Asked

variable {allows : Db → (o : ExtOp) → Except Exn o.Res → Prop} {cid c : String} {x y z : World}

/-- A request was sent before a point of the run, or after it. -/
theorem CancelSent.split (h : CancelSent cid x z) (hxy : x.2 <+: y.2) (hyz : y.2 <+: z.2) :
    CancelSent cid x y ∨ CancelSent cid y z := by
  obtain ⟨t, ht, ev, hev, hof⟩ := h
  obtain ⟨t₁, ht₁⟩ := hxy
  obtain ⟨t₂, ht₂⟩ := hyz
  have heq : t = t₁ ++ t₂ := by
    rw [← ht₂, ← ht₁, List.append_assoc] at ht
    exact (List.append_cancel_left ht).symm
  rw [heq] at hev
  rcases List.mem_append.mp hev with hev | hev
  · exact .inl ⟨t₁, ht₁.symm, ev, hev, hof⟩
  · exact .inr ⟨t₂, ht₂.symm, ev, hev, hof⟩

instance : IsPreorder World (Asked cid) where
  refl x := by
    refine ⟨List.prefix_rfl, .inl, fun h => h.elim id ?_⟩
    rintro ⟨t, ht, ev, hev, -⟩
    rw [List.self_eq_append_right.mp ht] at hev
    cases hev
  trans x y z h h' := by
    refine ⟨h.grows.trans h'.grows, fun hz => ?_, fun hor => ?_⟩
    · rcases h'.sent hz with hy | hsent
      · exact (h.sent hy).imp_right fun hsent => hsent.mono List.prefix_rfl h'.grows
      · exact .inr (hsent.mono h.grows List.prefix_rfl)
    · rcases hor with hx | hsent
      · exact h'.winding (.inl (h.winding (.inl hx)))
      · rcases hsent.split h.grows h'.grows with hsent | hsent
        · exact h'.winding (.inl (h.winding (.inr hsent)))
        · exact h'.winding (.inr hsent)

theorem not_sent_of_quiet {t : List (Event engineSig)} (ht : y.2 = x.2 ++ t)
    (hq : ∀ ev ∈ t, isCancelOf cid ev = false) : ¬CancelSent cid x y := by
  rintro ⟨t', ht', ev, hev, hof⟩
  rw [ht] at ht'
  rw [← List.append_cancel_left ht'] at hev
  rw [hq ev hev] at hof
  cases hof

/-- Nothing is asked for and the status stays, or the order is cancelled. -/
theorem asked_of_unsent {t : List (Event engineSig)} (ht : y.2 = x.2 ++ t)
    (hq : ∀ ev ∈ t, isCancelOf cid ev = false)
    (hs : statusAt cid y.1 = statusAt cid x.1 ∨ statusAt cid y.1 = some .cancelled) :
    Asked cid x y := by
  refine ⟨⟨t, ht.symm⟩, fun hpc => ?_, fun hor => ?_⟩
  · rcases hs with hs | hs
    · exact .inl (hs ▸ hpc)
    · rw [hs] at hpc
      cases hpc
  · have hx := hor.resolve_right (not_sent_of_quiet ht hq)
    rcases hs with hs | hs
    · rw [Winding, hs]
      exact hx
    · exact ⟨_, hs, .inr rfl⟩

theorem Later.asked (h : Later x y) : Asked cid x y := by
  obtain ⟨hdb, t, ht, hq⟩ := h
  exact asked_of_unsent ht (fun ev hev => (quiet_not_cancel cid (hq ev hev)).1) (.inl (by rw [hdb]))

/-- An update of the status is refused and changes nothing, or goes through. -/
theorem updateStatus_either (c : String) (s : OrderState) (x : World) :
    wp (seqSem (.reliable allows)) (fun _ _ => True) (updateStatus c s)
      (fun r y => (∃ er, r = .error er) ∧ Later x y ∨ r = .ok () ∧ ∃ e, x.1.find c = some e ∧
        isLegal e.row.status s = true ∧ x.1.Put y.1 (Db.withStatus e s) ∧
        ∃ t, y.2 = x.2 ++ t ∧ ∀ ev ∈ t, Quiet ev.op) x := by
  by_cases hl : ∃ e, x.1.find c = some e ∧ isLegal e.row.status s = true
  · obtain ⟨e, he, hl⟩ := hl
    refine wp_mono (updateStatus_quietly he hl) fun r y hy => .inr ?_
    exact ⟨hy.1, e, he, hl, hy.2⟩
  · push Not at hl
    unfold updateStatus
    rw [Prog.bind_eq, wp_bind]
    refine wp_perform.mpr ⟨trivial, fun r y hs => ?_⟩
    obtain ⟨hdb, hr⟩ := step_fetchOrder hs.1
    have hy : Later x y := .of_step hs hdb trivial
    cases r with
    | error er => exact .inl ⟨⟨er, rfl⟩, hy⟩
    | ok row =>
      obtain rfl := hr row rfl
      rw [outcome_ok]
      cases he : x.1.find c with
      | none =>
        rw [Db.fetchOrder, he]
        exact .inl ⟨⟨_, rfl⟩, hy⟩
      | some e =>
        have hne := hl e he
        rw [fetchOrder_of_find he]
        dsimp only
        split
        · rename_i hsame
          rw [hsame] at hne
          simp [isLegal] at hne
        · exact .inl ⟨⟨_, rfl⟩, hy⟩

theorem statusAt_put_self {db db' : Db} {e : Entry} (h : db.Put db' e) :
    statusAt e.row.clientOrderId db' = some e.row.status :=
  statusAt_of_find h.find_self

theorem statusAt_put_ne {db db' : Db} {e : Entry} (h : db.Put db' e)
    (hc : cid ≠ e.row.clientOrderId) : statusAt cid db' = statusAt cid db := by
  rw [statusAt, h.find_ne hc, statusAt]

/-- One operation other than a request and the write that precedes it. -/
theorem asked_plain {op : EngineOp} {r : Except Exn op.Res} (hop : Plain op)
    (hs : (seqSem (.reliable allows)).step x op r y) : Asked cid x y := by
  have hunsent : ¬CancelSent cid x y := by
    refine not_sent_of_quiet hs.2 fun ev hev => ?_
    rw [List.mem_singleton.mp hev]
    rcases op with o | o
    · rfl
    · cases o <;> first | exact hop.elim | rfl
  refine ⟨⟨_, hs.2.symm⟩, fun hpc => .inl ?_, fun hor => ?_⟩
  · rcases step_find hs.1 cid with heq | ⟨_, _, _, e, _, _, _, hrow, _, he⟩ |
      ⟨o, e, e', rfl, hch, -, he, he'⟩
    · rw [statusAt, ← heq]
      exact hpc
    · rw [statusAt_of_find he, hrow] at hpc
      cases hpc
    · rw [statusAt_of_find he'] at hpc
      rw [statusAt_of_find he]
      cases hch with
      | ack => cases hpc
      | replace p q _ hrow =>
        rw [hrow] at hpc
        cases hpc
      | @status _ s hl =>
        obtain rfl : s = .pendingCancel := Option.some.inj hpc
        exact hop.elim
      | reason => exact hpc
      | fill =>
        rw [withStatus_status, Db.fillTarget] at hpc
        split at hpc <;> cases hpc
  · obtain ⟨s, hs', hclosing⟩ := hor.resolve_right hunsent
    cases he : x.1.find cid with
    | none => simp [statusAt, he] at hs'
    | some e =>
      rw [statusAt_of_find he] at hs'
      obtain rfl := Option.some.inj hs'
      obtain ⟨e', he', hedge⟩ := step_status hs.1 he
      exact ⟨_, statusAt_of_find he', hclosing.edge (isLegal_iff.mpr (hedge.imp_left Eq.symm))⟩

theorem asked_survives : Survives (seqSem (.reliable allows)) (Asked cid) where
  plain hop hs := asked_plain hop hs
  ask a c x := by
    rw [wp_bind]
    refine wp_mono (updateStatus_either c .pendingCancel x) fun r x₁ hx₁ => ?_
    rcases hx₁ with ⟨⟨er, rfl⟩, hlater⟩ | ⟨rfl, e, he, -, hput, t, ht, hq⟩
    · exact hlater.asked
    rw [outcome_ok]
    refine wp_perform.mpr ⟨trivial, fun r y hs => ?_⟩
    have hdb : y.1 = x₁.1 := (step_ext hs.1).1
    have hy : y.2 = x.2 ++ (t ++ [⟨.ext (.cancel a c), r⟩]) := by
      rw [hs.2, ht, List.append_assoc]
    obtain rfl := Db.find_key he
    by_cases hc : cid = e.row.clientOrderId
    · subst hc
      have hpc : statusAt e.row.clientOrderId y.1 = some .pendingCancel := by
        rw [hdb]
        exact statusAt_put_self hput
      have hsent : CancelSent e.row.clientOrderId x y :=
        ⟨_, hy, ⟨.ext (.cancel a e.row.clientOrderId), r⟩, by simp, by simp [isCancelOf]⟩
      exact ⟨⟨_, hy.symm⟩, fun _ => .inr hsent, fun _ => ⟨_, hpc, .inl rfl⟩⟩
    · refine asked_of_unsent hy (fun ev hev => ?_) (.inl ?_)
      · rcases List.mem_append.mp hev with hev | hev
        · exact (quiet_not_cancel cid (hq ev hev)).1
        · rw [List.mem_singleton.mp hev]
          simp [isCancelOf, Ne.symm hc]
      · rw [hdb]
        exact statusAt_put_ne hput hc
  twoStep c x := by
    rw [wp_bind]
    refine wp_mono (updateStatus_either c .pendingCancel x) fun r x₁ hx₁ => ?_
    rcases hx₁ with ⟨⟨er, rfl⟩, hlater⟩ | ⟨rfl, e, he, -, hput, t, ht, hq⟩
    · exact hlater.asked
    obtain rfl := Db.find_key he
    rw [outcome_ok]
    refine wp_mono (updateStatus_quietly hput.find_self (s := .cancelled) rfl) fun r y hy => ?_
    obtain ⟨-, hput', t', ht', hq'⟩ := hy
    have hall := hput.trans hput' rfl
    refine asked_of_unsent (t := t ++ t') (by rw [ht', ht, List.append_assoc]) ?_ ?_
    · intro ev hev
      rcases List.mem_append.mp hev with hev | hev
      · exact (quiet_not_cancel cid (hq ev hev)).1
      · exact (quiet_not_cancel cid (hq' ev hev)).1
    · by_cases hc : cid = e.row.clientOrderId
      · subst hc
        exact .inr (statusAt_put_self hall)
      · exact .inl (statusAt_put_ne hall hc)

/-- Over a whole run. -/
theorem asked_run {requests : List Request} (h : SeqRun (.reliable allows) x requests y) :
    Asked cid x y := by
  induction h with
  | nil x => exact refl_of (Asked cid) x
  | cons hexec _ ih => exact trans_of (Asked cid) ((asked_survives.request _ _).exec hexec) ih

/-- A cancel that returns was confirmed, or found the order PENDING_CANCEL. -/
theorem cancel_returns {R : Router} {res : NormalizedOrderResult}
    (h : Exec (seqSem (.reliable allows)) (R.cancel cid) y (.ok res) z) :
    (∃ t, z.2 = y.2 ++ t ∧ ∃ ev ∈ t, isCancelOk cid ev = true) ∨
      statusAt cid y.1 = some .pendingCancel := by
  cases he : y.1.find cid with
  | none =>
    have hnone : wp (seqSem (.reliable allows)) (fun _ _ => True) (R.cancel cid)
        (fun r _ => ∀ res, r ≠ .ok res) y := by
      unfold Router.cancel
      rw [Prog.bind_eq, wp_bind]
      refine wp_perform.mpr ⟨trivial, fun r z hs => ?_⟩
      obtain ⟨-, hr⟩ := step_fetchOrder hs.1
      cases r with
      | error er => exact fun _ h => by cases h
      | ok row =>
        obtain rfl := hr row rfl
        rw [Db.fetchOrder, he]
        exact fun _ h => by cases h
    exact absurd rfl (hnone.exec h res)
  | some e =>
    obtain ⟨⟨t, e', ht, -, hput, hleg⟩, -⟩ := (cancel_leg R he).exec h
    obtain rfl := Db.find_key he
    rcases (cancel_spec R he y.2).exec h with ⟨hpc, -⟩ | ⟨hlive, hcancelled, -⟩
    · rw [statusAt_of_find he, hpc]
      exact .inr rfl
    · -- the order ends CANCELLED, and only a confirmed request does that
      have hz := hcancelled.find_self
      rw [withStatus_key] at hz
      cases hleg with
      | confirmed _ hok => exact .inl ⟨t, ht, hok⟩
      | untouched =>
        rw [hput.find_self] at hz
        rcases hlive with hl | hl <;> rw [Option.some.inj hz] at hl <;> cases hl
      | unconfirmed =>
        have hz' := hput.find_self
        rw [withStatus_key, hz] at hz'
        cases congrArg (·.row.status) (Option.some.inj hz')

theorem mem_reconcile {db : Db} {e : Entry} (h : db.find cid = some e)
    (hpc : e.row.status = .pendingCancel) :
    e.row ∈ db.fetchOrdersForReconcile e.row.broker false := by
  have hmem : e.row ∈ db.rows := List.mem_map_of_mem (Db.mem_of_find h)
  simp [Db.fetchOrdersForReconcile, Db.byCreatedAt, Db.reconcileStates, hmem, hpc]

/-- Over every run of calls, whatever the adapters answer: an order that a cancel was sent for is
    CANCELLED, or PENDING_CANCEL and in the working set of its reconciler; and a cancel that
    returns was confirmed in that call, or found the order PENDING_CANCEL, with a request sent for
    it before unless it was so from the start. -/
theorem cancel_not_dropped {db : Db} {requests : List Request}
    (hrun : SeqRun (.reliable allows) (db, []) requests y) (cid : String) :
    ((∃ ev ∈ y.2, isCancelOf cid ev = true) → ∃ e, y.1.find cid = some e ∧
      (e.row.status = .cancelled ∨ e.row.status = .pendingCancel ∧
        e.row ∈ y.1.fetchOrdersForReconcile e.row.broker false)) ∧
    ∀ (R : Router) (res : NormalizedOrderResult) (z : World),
      Exec (seqSem (.reliable allows)) (R.cancel cid) y (.ok res) z →
      (∃ t, z.2 = y.2 ++ t ∧ ∃ ev ∈ t, isCancelOk cid ev = true) ∨
        statusAt cid y.1 = some .pendingCancel ∧
          ((∃ ev ∈ y.2, isCancelOf cid ev = true) ∨ statusAt cid db = some .pendingCancel) := by
  have hasked : Asked cid (db, []) y := asked_run hrun
  have hsent : CancelSent cid (db, []) y ↔ ∃ ev ∈ y.2, isCancelOf cid ev = true := by
    simp [CancelSent]
  constructor
  · intro hev
    obtain ⟨s, hs, hclosing⟩ := hasked.winding (.inr (hsent.mpr hev))
    cases he : y.1.find cid with
    | none => simp [statusAt, he] at hs
    | some e =>
      rw [statusAt_of_find he] at hs
      obtain rfl := Option.some.inj hs
      refine ⟨e, rfl, ?_⟩
      rcases hclosing with hpc | hcancelled
      · exact .inr ⟨hpc, mem_reconcile he hpc⟩
      · exact .inl hcancelled
  · intro R res z hexec
    refine (cancel_returns hexec).imp_right fun hpc => ⟨hpc, ?_⟩
    exact (hasked.sent hpc).symm.imp_left hsent.mp

end Asked

/-! ## A refused cancel -/

/-- Submitted, and a cancel that the venue refused. -/
def refusedCancel : List Request :=
  [.submit liveRouter 0 (sampleOrderA .liberator) none, .cancel liveRouter cidA]

theorem refused_cancel_waits :
    ∃ y e, SeqRun plainEnv (Db.empty, []) refusedCancel y ∧ y.1.find cidA = some e ∧
      (e.row.status = .cancelled ∨ e.row.status = .pendingCancel ∧
        e.row ∈ y.1.fetchOrdersForReconcile e.row.broker false) := by
  have h : ((runRequests stubbornHandler refusedCancel (Db.empty, [])).any fun y =>
      y.2.any (isCancelOf cidA)) = true := by decide +kernel
  obtain ⟨y, hrun, hy⟩ := exists_run (plain_follows stubbornHandler) h
  obtain ⟨e, he, hst⟩ := (cancel_not_dropped hrun cidA).1 (List.any_eq_true.mp hy)
  exact ⟨y, e, hrun, he, hst⟩

def isBookRead : Event engineSig → Bool
  | ⟨.ext (.liberatorOrders _), _⟩ => true
  | ⟨.ext (.streamingProOrders _ _), _⟩ => true
  | _ => false

/-- After a refused cancel another one returns, and a sweep finds nothing to do: the venue was
    asked once, confirmed nothing, and no book was read. -/
theorem refused_cancel_not_resent :
    ∃ y z w res, SeqRun plainEnv (Db.empty, []) refusedCancel y ∧
      Exec (seqSem plainEnv) (liveRouter.cancel cidA) y (.ok res) z ∧
      Exec (seqSem plainEnv) liveRouter.massCancel z (.ok ([], [])) w ∧
      w.2.countP (isCancelOf cidA) = 1 ∧ y.2.countP (isCancelOf cidA) = 1 ∧
      (∀ ev ∈ w.2, isCancelOk cidA ev = false) ∧ ∀ ev ∈ w.2, isBookRead ev = false := by
  have hf := plain_follows stubbornHandler
  have h : ((runRequests stubbornHandler refusedCancel (Db.empty, [])).any fun y =>
      decide (y.2.countP (isCancelOf cidA) = 1) &&
      returnsWith stubbornHandler (liveRouter.cancel cidA) y fun _ z =>
        returnsWith stubbornHandler liveRouter.massCancel z fun out w =>
          decide (out = ([], [])) && decide (w.2.countP (isCancelOf cidA) = 1) &&
            (w.2.all fun ev => !isCancelOk cidA ev) && w.2.all fun ev => !isBookRead ev) = true := by
    decide +kernel
  obtain ⟨y, hrun, hy⟩ := exists_run hf h
  obtain ⟨hcount, hy⟩ := Bool.and_eq_true_iff.mp hy
  obtain ⟨res, z, hcancel, hz⟩ := exists_return hf hy
  obtain ⟨out, w, hsweep, hw⟩ := exists_return hf hz
  simp only [Bool.and_eq_true, decide_eq_true_eq, List.all_eq_true, Bool.not_eq_true'] at hw
  obtain ⟨⟨⟨rfl, hcount'⟩, hok⟩, hbook⟩ := hw
  exact ⟨y, z, w, res, hrun, hcancel, hsweep, hcount', of_decide_eq_true hcount, hok, hbook⟩

end ExecutionEngine
