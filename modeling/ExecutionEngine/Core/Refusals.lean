/-
  What a cancel_replace amend leaves behind when it is refused.

  The cancel comes first and the replacement runs the whole submit pipeline after
  it, so a replacement that a cap refuses leaves a cancelled original: flat, never
  doubled. `amend_refusals` says what holds over a store that does not fail: an
  amend that never got to the cancel changed nothing; a replacement that is
  refused leaves no row and no placement, and the original as the cancel left it;
  an amend that returns under a fresh id shows a new row with the amended terms.
-/
import ExecutionEngine.Core.Amend

namespace ExecutionEngine

open Async Async.Prog StateMachine

/-! ## How the cancel leaves the original -/

theorem quiet_not_cancel (cid : String) {ev : Event engineSig} (h : Quiet ev.op) :
    isCancelOf cid ev = false ∧ isCancelOk cid ev = false ∧ isPlace ev.op = false := by
  obtain ⟨op, r⟩ := ev
  rcases op with so | eo
  · exact ⟨rfl, rfl, rfl⟩
  · cases eo <;> first | exact h.elim | exact ⟨rfl, rfl, rfl⟩

/-- The original after the events `t`: untouched without a cancel request, CANCELLED behind a
    confirmed one, PENDING_CANCEL behind an unconfirmed one. -/
inductive CancelLeg (cid : String) (e : Entry) (t : List (Event engineSig)) : Entry → Prop where
  | untouched (h : ∀ ev ∈ t, isCancelOf cid ev = false) : CancelLeg cid e t e
  | confirmed (hlive : e.row.status = .new ∨ e.row.status = .partiallyFilled)
      (h : ∃ ev ∈ t, isCancelOk cid ev = true) : CancelLeg cid e t (Db.withStatus e .cancelled)
  | unconfirmed (hlive : e.row.status = .new ∨ e.row.status = .partiallyFilled)
      (hsent : ∃ ev ∈ t, isCancelOf cid ev = true) (h : ∀ ev ∈ t, isCancelOk cid ev = false) :
      CancelLeg cid e t (Db.withStatus e .pendingCancel)

/-- Quiet events around do not matter. -/
theorem CancelLeg.mono {cid : String} {e e' : Entry} {t t' : List (Event engineSig)}
    (h : CancelLeg cid e t e') (hsub : t ⊆ t') (hq : ∀ ev ∈ t', ev ∈ t ∨ Quiet ev.op) :
    CancelLeg cid e t' e' := by
  cases h with
  | untouched h =>
    exact .untouched fun ev hev => (hq ev hev).elim (h ev) fun hq => (quiet_not_cancel cid hq).1
  | confirmed hlive h =>
    obtain ⟨ev, hev, hok⟩ := h
    exact .confirmed hlive ⟨ev, hsub hev, hok⟩
  | unconfirmed hlive hsent h =>
    obtain ⟨ev, hev, hof⟩ := hsent
    exact .unconfirmed hlive ⟨ev, hsub hev, hof⟩ fun ev hev =>
      (hq ev hev).elim (h ev) fun hq => (quiet_not_cancel cid hq).2.1

/-- From `x` to `y` the store moved as a cancel of `cid` moves it, and nothing was placed. -/
def Leg (cid : String) (e : Entry) (x y : World) : Prop :=
  ∃ t e', y.2 = x.2 ++ t ∧ (∀ ev ∈ t, isPlace ev.op = false) ∧ x.1.Put y.1 e' ∧
    CancelLeg cid e t e'

section Leg

variable {cid : String} {e : Entry} {x y z : World}

theorem Later.leg (h : Later x y) (he : x.1.find cid = some e) : Leg cid e x y := by
  obtain ⟨hdb, t, ht, hq⟩ := h
  refine ⟨t, e, ht, fun ev hev => (quiet_not_cancel cid (hq ev hev)).2.2, ?_,
    .untouched fun ev hev => (quiet_not_cancel cid (hq ev hev)).1⟩
  rw [hdb]
  exact .self (by rw [Db.find_key he]; exact he)

/-- The original is still there. -/
theorem Leg.find (h : Leg cid e x y) (hcid : e.row.clientOrderId = cid) :
    ∃ e', y.1.find cid = some e' := by
  obtain ⟨t, e', -, -, hput, hleg⟩ := h
  refine ⟨e', ?_⟩
  have hk : e'.row.clientOrderId = cid := by cases hleg <;> exact hcid
  rw [← hk]
  exact hput.find_self

theorem Leg.later (h : Leg cid e x y) (h' : Later y z) : Leg cid e x z := by
  obtain ⟨t, e', ht, hplace, hput, hleg⟩ := h
  obtain ⟨hdb, t', ht', hq⟩ := h'
  refine ⟨t ++ t', e', by rw [ht', ht, List.append_assoc], fun ev hev => ?_, hdb ▸ hput,
    hleg.mono (List.subset_append_left ..) fun ev hev => (List.mem_append.mp hev).imp_right (hq ev)⟩
  rcases List.mem_append.mp hev with hev | hev
  · exact hplace ev hev
  · exact (quiet_not_cancel cid (hq ev hev)).2.2

theorem Leg.after (h : Leg cid e y z) (h' : Later x y) : Leg cid e x z := by
  obtain ⟨t, e', ht, hplace, hput, hleg⟩ := h
  obtain ⟨hdb, t', ht', hq⟩ := h'
  refine ⟨t' ++ t, e', by rw [ht, ht', List.append_assoc], fun ev hev => ?_, hdb ▸ hput,
    hleg.mono (List.subset_append_right ..) fun ev hev =>
      (List.mem_append.mp hev).symm.imp_right (hq ev)⟩
  rcases List.mem_append.mp hev with hev | hev
  · exact (quiet_not_cancel cid (hq ev hev)).2.2
  · exact hplace ev hev

end Leg

section CancelLeg

variable {allows : Db → (o : ExtOp) → Except Exn o.Res → Prop} {cid : String} {e : Entry}
  {x : World}

theorem quiet_updateStatus (cid : String) (s : OrderState) : Uses Quiet (updateStatus cid s) :=
  uses_updateStatus trivial trivial

/-- A legal status update goes through and sends nothing. -/
theorem updateStatus_quietly (he : x.1.find cid = some e) {s : OrderState}
    (hl : isLegal e.row.status s = true) :
    wp (seqSem (.reliable allows)) (fun _ _ => True) (updateStatus cid s)
      (fun r y => r = .ok () ∧ x.1.Put y.1 (Db.withStatus e s) ∧
        ∃ t, y.2 = x.2 ++ t ∧ ∀ ev ∈ t, Quiet ev.op) x :=
  wp_mono (wp_and (wp_traced (updateStatus_reliable he hl) x.2)
    ((quiet_updateStatus cid s).history x)) fun _ _ hy => ⟨hy.1.1, hy.1.2, hy.2⟩

/-- A cancel request for `cid` was sent on the way from `x` to `y`. -/
def CancelSent (cid : String) (x y : World) : Prop :=
  ∃ t, y.2 = x.2 ++ t ∧ ∃ ev ∈ t, isCancelOf cid ev = true

theorem CancelSent.mono {x' y y' : World} (h : CancelSent cid x y) (hx : x'.2 <+: x.2)
    (hy : y.2 <+: y'.2) : CancelSent cid x' y' := by
  obtain ⟨t, ht, ev, hev, hof⟩ := h
  obtain ⟨u, hu⟩ := hx
  obtain ⟨v, hv⟩ := hy
  refine ⟨u ++ t ++ v, ?_, ev, by simp [hev], hof⟩
  rw [← hv, ht, ← hu, List.append_assoc, List.append_assoc, List.append_assoc]

theorem cancelAt_leg (he : x.1.find cid = some e)
    (hlive : e.row.status = .new ∨ e.row.status = .partiallyFilled) (a : AdapterId) :
    wp (seqSem (.reliable allows)) (fun _ _ => True) (Router.cancelAt a cid)
      (fun _ y => Leg cid e x y ∧ CancelSent cid x y) x := by
  have hpc : isLegal e.row.status .pendingCancel = true := by
    rcases hlive with h | h <;> rw [h] <;> decide
  have hcid := Db.find_key he
  unfold Router.cancelAt
  rw [Prog.bind_eq, wp_bind]
  refine wp_mono (updateStatus_quietly he hpc) fun r x₁ hx₁ => ?_
  obtain ⟨rfl, hput₁, t₁, ht₁, hq₁⟩ := hx₁
  rw [outcome_ok, Prog.bind_eq, wp_bind]
  refine wp_perform.mpr ⟨trivial, fun r x₂ hs => ?_⟩
  have hdb : x₂.1 = x₁.1 := (step_ext hs.1).1
  -- the one event between the two status updates
  have ht₂ : x₂.2 = x.2 ++ (t₁ ++ [⟨.ext (.cancel a cid), r⟩]) := by
    rw [hs.2, ht₁, List.append_assoc]
  have hsent : CancelSent cid x x₂ :=
    ⟨_, ht₂, ⟨.ext (.cancel a cid), r⟩, by simp, by simp [isCancelOf]⟩
  have hplace : ∀ ev ∈ t₁ ++ [⟨.ext (.cancel a cid), r⟩], isPlace ev.op = false := by
    intro ev hev
    rcases List.mem_append.mp hev with hev | hev
    · exact (quiet_not_cancel cid (hq₁ ev hev)).2.2
    · rw [List.mem_singleton.mp hev]
      rfl
  have hstuck (hno : isCancelOk cid ⟨.ext (.cancel a cid), r⟩ = false) :
      Leg cid e x x₂ := by
    refine ⟨_, _, ht₂, hplace, hdb ▸ hput₁, .unconfirmed hlive ?_ fun ev hev => ?_⟩
    · exact ⟨⟨.ext (.cancel a cid), r⟩, by simp, by simp [isCancelOf]⟩
    · rcases List.mem_append.mp hev with hev | hev
      · exact (quiet_not_cancel cid (hq₁ ev hev)).2.1
      · rw [List.mem_singleton.mp hev]
        exact hno
  cases r with
  | error er => exact ⟨hstuck rfl, hsent⟩
  | ok ack =>
    rw [outcome_ok]
    split
    · rename_i hok
      have he₂ : x₂.1.find cid = some (Db.withStatus e .pendingCancel) := by
        rw [hdb, ← hcid]
        exact hput₁.find_self
      refine wp_mono (updateStatus_quietly he₂ (s := .cancelled) rfl) fun r x₃ hx₃ => ?_
      obtain ⟨-, hput₃, t₃, ht₃, hq₃⟩ := hx₃
      refine ⟨⟨(t₁ ++ [⟨.ext (.cancel a cid), .ok ack⟩]) ++ t₃, _,
        by rw [ht₃, ht₂, List.append_assoc], fun ev hev => ?_, (hdb ▸ hput₁).trans hput₃ rfl,
        .confirmed hlive ?_⟩, hsent.mono List.prefix_rfl ⟨t₃, ht₃.symm⟩⟩
      · rcases List.mem_append.mp hev with hev | hev
        · exact hplace ev hev
        · exact (quiet_not_cancel cid (hq₃ ev hev)).2.2
      · exact ⟨⟨.ext (.cancel a cid), .ok ack⟩, by simp, by simp [isCancelOk, hok]⟩
    · rename_i hok
      exact ⟨hstuck (by simp [isCancelOk, hok]), hsent⟩

/-- A cancel leaves the order as its requests say; one that returns without a request found it
    PENDING_CANCEL. -/
theorem cancel_leg (R : Router) (he : x.1.find cid = some e) :
    wp (seqSem (.reliable allows)) (fun _ _ => True) (R.cancel cid)
      (fun r y => Leg cid e x y ∧
        ∀ res, r = .ok res → e.row.status ≠ .pendingCancel → CancelSent cid x y) x := by
  refine cancel_branches R he (fun er y hy => ?_) (fun y hy hpc => ?_) fun a y hy hlive => ?_
  · exact ⟨hy.leg he, fun _ hres => by cases hres⟩
  · refine wp_mono (wp_and (wp_traced (get_reliable (hy.1 ▸ he)) y.2)
      ((Router.uses_get (P := Quiet) trivial).history y)) fun r z hz => ?_
    exact ⟨(hy.trans ⟨hz.1.2, hz.2⟩).leg he, fun _ _ hne => absurd hpc hne⟩
  · refine wp_mono (cancelAt_leg (hy.1 ▸ he) hlive a) fun r z hz => ?_
    obtain ⟨hleg, hsent⟩ := hz
    have hsent : CancelSent cid x z := hsent.mono hy.grows List.prefix_rfl
    cases r with
    | error er => exact ⟨hleg.after hy, fun _ _ _ => hsent⟩
    | ok u =>
      obtain ⟨e₁, he₁⟩ := hleg.find (Db.find_key he)
      rw [outcome_ok]
      refine wp_mono (wp_and (wp_traced (get_reliable he₁) z.2)
        ((Router.uses_get (P := Quiet) trivial).history z)) fun r w hw => ?_
      have hw : Later z w := ⟨hw.1.2, hw.2⟩
      exact ⟨(hleg.after hy).later hw, fun _ _ _ => hsent.mono List.prefix_rfl hw.grows⟩

end CancelLeg

/-! ## The replacement and its gates -/

/-- The checks of `submit` that need no I/O: capability, quantity cap, notional cap. -/
def Router.screen (R : Router) (o : NormalizedOrder) : Except Exn Unit := do
  let caps ← Capabilities.lookup o.broker o.market
  Capabilities.assertSupports caps o.orderType o.tif o.positionEffect
  R.checkQuantity o
  R.checkNotional o

theorem gates_screened {R : Router} {o : NormalizedOrder} {er : Exn}
    (h : R.screen o = .error er) : R.gates o = .raise er := by
  unfold Router.screen at h
  unfold Router.gates Router.riskCheck
  cases hcaps : Capabilities.lookup o.broker o.market with
  | error e =>
    rw [hcaps] at h
    obtain rfl := Except.error.inj h
    rfl
  | ok caps =>
    rw [hcaps] at h
    change (Capabilities.assertSupports caps o.orderType o.tif o.positionEffect >>= _) = _ at h
    change (Eff.lift (Capabilities.assertSupports caps o.orderType o.tif o.positionEffect) >>= _) = _
    cases hs : Capabilities.assertSupports caps o.orderType o.tif o.positionEffect with
    | error e =>
      rw [hs] at h
      obtain rfl := Except.error.inj h
      rfl
    | ok u =>
      rw [hs] at h
      change (R.checkQuantity o >>= _) = _ at h
      change ((Eff.lift (R.checkQuantity o) >>= _) >>= _) = _
      cases hq : R.checkQuantity o with
      | error e =>
        rw [hq] at h
        obtain rfl := Except.error.inj h
        rfl
      | ok u =>
        rw [hq] at h
        change R.checkNotional o = _ at h
        change ((Eff.lift (R.checkNotional o) >>= _) >>= _) = _
        rw [h]
        rfl

/-- A replacement that is not a valid order, or that a check without I/O refuses. -/
def Unacceptable (R : Router) (row : OrderRow) (c : String) (p : Option Decimal)
    (q : Option Int) : Prop :=
  ∀ o, Router.amendedOrder row c p q = .ok o → ∃ er, R.screen o = .error er

section Amend

variable {E : Env} {R : Router} {fuel : Nat} {cid : String} {newCid : Option String}
  {p : Option Decimal} {q : Option Int} {x y : World} {e : Entry}

/-- A screened order under a free id is refused with nothing written and nothing sent. -/
theorem submit_screened {o : NormalizedOrder} {er : Exn} (sid : Option String)
    (hs : R.screen o = .error er) (hfree : x.1.find o.clientOrderId = none) :
    wp (seqSem E) (fun _ _ => True) (R.submit fuel o sid)
      (fun r y => (∃ er', r = .error er') ∧ Later x y) x := by
  unfold Router.submit
  rw [Prog.bind_eq, wp_bind]
  refine wp_mono (wp_later R.uses_assertDisengaged x) fun r x₁ hx₁ => ?_
  cases r with
  | error er => exact ⟨⟨er, rfl⟩, hx₁⟩
  | ok u =>
    rw [outcome_ok, Prog.bind_eq, wp_bind]
    refine wp_perform.mpr ⟨trivial, fun r x₂ hstep => ?_⟩
    obtain ⟨hdb, hr⟩ := step_fetchOrderResult hstep.1
    have hx₂ : Later x x₂ := hx₁.trans (.of_step hstep hdb trivial)
    cases r with
    | error er => exact ⟨⟨er, rfl⟩, hx₂⟩
    | ok existing =>
      obtain rfl := hr existing rfl
      rw [outcome_ok, hx₁.1, Db.fetchOrderResult, hfree]
      dsimp only [Option.map_none]
      rw [gates_screened hs]
      exact ⟨⟨er, rfl⟩, hx₂⟩

/-- What an amend of a resting order on a cancel_replace broker does, refused or not. -/
structure AmendOutcome (R : Router) (cid : String) (newCid : Option String) (p : Option Decimal)
    (q : Option Int) (e : Entry) (x : World) (r : Except Exn SubmitOutcome) (y : World) : Prop where
  /-- Refused before the cancel: nothing changed. -/
  early : e.row.status ≠ .pendingCancel → ¬CancelSent cid x y →
    (∃ er, r = .error er) ∧ ∀ c, y.1.find c = x.1.find c
  /-- The replacement is unacceptable: no row and no placement for it, the original as the cancel
      left it. -/
  late : ∀ c, newCid = some c → x.1.find c = none → Unacceptable R e.row c p q →
    (∃ er, r = .error er) ∧ Leg cid e x y
  /-- A normal return under a fresh id shows a new row with the amended terms. -/
  returns : ∀ out, r = .ok out → ∃ c, newCid = some c ∧ (x.1.find c = none →
    ∃ z, y.1.find c = some z ∧ z.row.price = (p.or e.row.price).map Decimal.numeric ∧
      z.row.quantity = q.getD e.row.quantity ∧ out.result = Router.toResult (resultRow z))

theorem Later.outcome {er : Exn} (h : Later x y) (he : x.1.find cid = some e) :
    AmendOutcome R cid newCid p q e x (.error er) y where
  early _ _ := ⟨⟨er, rfl⟩, fun c => by rw [h.1]⟩
  late _ _ _ _ := ⟨⟨er, rfl⟩, h.leg he⟩
  returns _ hout := nomatch hout

theorem isCancelOf_of_ok {ev : Event engineSig} (h : isCancelOk cid ev = true) :
    isCancelOf cid ev = true := by
  unfold isCancelOk at h
  split at h
  · simp only [Bool.and_eq_true] at h
    exact h.1
  · cases h

/-- Without a cancel request the leg changed nothing. -/
theorem Leg.unchanged (h : Leg cid e x y) (he : x.1.find cid = some e)
    (hno : ¬CancelSent cid x y) (c : String) : y.1.find c = x.1.find c := by
  obtain ⟨t, e', ht, -, hput, hleg⟩ := h
  cases hleg with
  | untouched =>
    rw [hput c, Db.find_key he]
    split
    · rename_i hc
      rw [hc, he]
    · rfl
  | confirmed _ h =>
    obtain ⟨ev, hev, hok⟩ := h
    exact absurd ⟨t, ht, ev, hev, isCancelOf_of_ok hok⟩ hno
  | unconfirmed _ h => exact absurd ⟨t, ht, h⟩ hno

theorem Leg.find_ne (h : Leg cid e x y) (hcid : e.row.clientOrderId = cid) {c : String}
    (hc : c ≠ cid) : y.1.find c = x.1.find c := by
  obtain ⟨t, e', -, -, hput, hleg⟩ := h
  have hk : e'.row.clientOrderId = cid := by cases hleg <;> exact hcid
  exact hput.find_ne (hk ▸ hc)

variable {allows : Db → (o : ExtOp) → Except Exn o.Res → Prop}

/-- The two refusals of the cancel_replace branch, before and after the cancel. -/
theorem amendCancelReplace_refusals (he : x.1.find cid = some e) :
    wp (seqSem (.reliable allows)) (fun _ _ => True)
      (R.amendCancelReplace fuel e.row newCid p q)
      (fun r y => (e.row.status ≠ .pendingCancel → ¬CancelSent cid x y →
          (∃ er, r = .error er) ∧ ∀ c, y.1.find c = x.1.find c) ∧
        ∀ c, newCid = some c → x.1.find c = none → Unacceptable R e.row c p q →
          (∃ er, r = .error er) ∧ Leg cid e x y) x := by
  have hcid := Db.find_key he
  unfold Router.amendCancelReplace
  split
  · exact ⟨fun _ _ => ⟨⟨_, rfl⟩, fun _ => rfl⟩, fun _ hc => nomatch hc⟩
  · rename_i c
    rw [Prog.bind_eq, wp_bind, hcid]
    refine wp_mono (cancel_leg R he) fun r x₁ hx₁ => ?_
    obtain ⟨hleg, hsent⟩ := hx₁
    cases r with
    | error er =>
      exact ⟨fun _ hno => ⟨⟨er, rfl⟩, hleg.unchanged he hno⟩, fun _ _ _ _ => ⟨⟨er, rfl⟩, hleg⟩⟩
    | ok res =>
      rw [outcome_ok, Prog.bind_eq, wp_bind]
      -- past the cancel, only the second refusal is left
      have hearly {r : Except Exn SubmitOutcome} {y : World} (hpre : x₁.2 <+: y.2)
          (hne : e.row.status ≠ .pendingCancel) (hno : ¬CancelSent cid x y) :
          (∃ er, r = .error er) ∧ ∀ c, y.1.find c = x.1.find c :=
        absurd ((hsent res rfl hne).mono List.prefix_rfl hpre) hno
      cases hb : Router.amendedOrder e.row c p q with
      | error er =>
        exact ⟨fun hne hno => hearly List.prefix_rfl hne hno, fun _ _ _ _ => ⟨⟨er, rfl⟩, hleg⟩⟩
      | ok o =>
        have hgrow := (uses_univ (R.submit fuel o e.row.strategyId)).history
          (M := sem (.reliable allows)) x₁
        rw [Eff.lift, wp_ret, outcome_ok]
        by_cases hbad : x.1.find c = none ∧ Unacceptable R e.row c p q
        · obtain ⟨hfree, hun⟩ := hbad
          obtain ⟨er, her⟩ := hun o hb
          have hfree₁ : x₁.1.find o.clientOrderId = none := by
            rw [(amendedOrder_quantity hb).1, hleg.find_ne hcid, hfree]
            rintro rfl
            rw [he] at hfree
            cases hfree
          refine wp_mono (submit_screened _ her hfree₁) fun r y hy => ?_
          exact ⟨fun hne hno => hearly hy.2.grows hne hno, fun _ _ _ _ =>
            ⟨hy.1, hleg.later hy.2⟩⟩
        · refine wp_mono hgrow fun r y hy => ?_
          obtain ⟨t, ht, -⟩ := hy
          refine ⟨fun hne hno => hearly ⟨t, ht.symm⟩ hne hno, fun c' hc' hfree hun => ?_⟩
          obtain rfl := Option.some.inj hc'
          exact absurd ⟨hfree, hun⟩ hbad

theorem returns_of_replaced {c : String} {o : NormalizedOrder} {out : SubmitOutcome} {db db' : Db}
    (hb : Router.amendedOrder e.row c p q = .ok o) (h : Replaced cid c e o out db db')
    (hfree : db.find c = none) :
    ∃ z, db'.find c = some z ∧ z.row.price = (p.or e.row.price).map Decimal.numeric ∧
      z.row.quantity = q.getD e.row.quantity ∧ out.result = Router.toResult (resultRow z) := by
  obtain ⟨z, sid, t, hz, hterms⟩ := h.fresh hfree
  obtain ⟨z', hz', hout⟩ := h.shows
  rw [hz] at hz'
  obtain rfl := Option.some.inj hz'
  have hf : o.toOrderFields = Router.amendedFields e.row c p q := NormalizedOrder.build_ok hb
  rw [hf] at hterms
  exact ⟨z, hz, congrArg OrderRow.price hterms, congrArg OrderRow.quantity hterms, hout⟩

/-- For every order on a cancel_replace broker, every amend of it and every answer, over a store
    that does not fail: `AmendOutcome`. -/
theorem amend_refusals {r : Except Exn SubmitOutcome} (he : x.1.find cid = some e)
    (hreal : e.row.broker ≠ .sim)
    (hexec : Exec (seqSem (.reliable allows)) (R.amend fuel cid newCid p q) x r y) :
    AmendOutcome R cid newCid p q e x r y := by
  have hwp : wp (seqSem (.reliable allows)) (fun _ _ => True) (R.amend fuel cid newCid p q)
      (AmendOutcome R cid newCid p q e x) x := by
    refine amend_branches (fun _ _ _ => trivial) (fun _ _ hy => hy.outcome he) ?_ ?_
    · intro e₁ x₁ he₁ _ hsim
      rw [he] at he₁
      obtain rfl := Option.some.inj he₁
      exact absurd hsim hreal
    · intro e₁ x₁ he₁ hx₁ _
      rw [he] at he₁
      obtain rfl := Option.some.inj he₁
      have hdb := hx₁.1
      refine wp_mono (wp_and (amendCancelReplace_refusals (hdb ▸ he))
        (amendCancelReplace_returns (hdb ▸ he))) fun r y hy => ?_
      obtain ⟨⟨hearly, hlate⟩, hret⟩ := hy
      refine ⟨fun hne hno => ?_, fun c hc hfree hun => ?_, fun out hout => ?_⟩
      · have hno₁ : ¬CancelSent cid x₁ y := fun h => hno (h.mono hx₁.grows List.prefix_rfl)
        rw [← hdb]
        exact hearly hne hno₁
      · obtain ⟨her, hleg⟩ := hlate c hc (hdb ▸ hfree) hun
        exact ⟨her, hleg.after hx₁⟩
      · subst hout
        obtain ⟨c, o, hc, hb, hrep⟩ := hret
        rw [hdb] at hrep
        exact ⟨c, hc, returns_of_replaced hb hrep⟩
  exact hwp.exec hexec

end Amend

/-- The row of the sample order after its ack. -/
def restingRow : OrderRow :=
  { Db.newRow (sampleFields cidA .liberator) none 0 with
    status := .new
    brokerOrderId := some ("V-" ++ cidA) }

/-- The order is there with this row. -/
def hasRow (row : OrderRow) (x : World) : Bool :=
  (x.1.find row.clientOrderId).any fun e => e.row = row

theorem hasRow_iff {row : OrderRow} {x : World} :
    hasRow row x = true ↔ ∃ e, x.1.find row.clientOrderId = some e ∧ e.row = row := by
  simp [hasRow, Option.any_eq_true]

/-- 5000 is above the quantity cap. -/
theorem oversized_unacceptable : Unacceptable liveRouter restingRow cidB none (some 5000) := by
  intro o ho
  have hs : liveRouter.screen o = (Router.amendedOrder restingRow cidB none (some 5000)).bind
      liveRouter.screen := by
    rw [ho]
    rfl
  rw [hs]
  exact ⟨_, rfl⟩

/-- The resting sample order, amended to 5000: refused, with the original cancelled. -/
theorem oversized_run :
    ((runRequests liveHandler [.submit liveRouter 0 (sampleOrderA .liberator) none]
      (Db.empty, [])).any fun x => hasRow restingRow x &&
        raisesWith liveHandler (liveRouter.amend 0 cidA (some cidB) none (some 5000)) x
          fun _ y => hasStatus cidA .cancelled y) = true := by decide +kernel

theorem oversized_amend_outcome :
    ∃ x y e er, x.1.find cidA = some e ∧ e.row = restingRow ∧
      Exec (seqSem plainEnv) (liveRouter.amend 0 cidA (some cidB) none (some 5000)) x (.error er) y ∧
      AmendOutcome liveRouter cidA (some cidB) none (some 5000) e x (.error er) y := by
  have hf := plain_follows liveHandler
  obtain ⟨x, -, hx⟩ := exists_run hf oversized_run
  obtain ⟨hrow, hraise⟩ := Bool.and_eq_true_iff.mp hx
  obtain ⟨e, he, hrow⟩ := hasRow_iff.mp hrow
  obtain ⟨er, y, hexec, -⟩ := exists_raise hf hraise
  exact ⟨x, y, e, er, he, hrow, hexec, amend_refusals he (by rw [hrow]; decide) hexec⟩

/-- A refusal that needs no I/O comes after the cancel. -/
theorem oversized_amend_cancels :
    ∃ x y e r, SeqRun plainEnv (Db.empty, [])
        [.submit liveRouter 0 (sampleOrderA .liberator) none] x ∧
      x.1.find cidA = some e ∧ e.row.status = .new ∧
      Unacceptable liveRouter e.row cidB none (some 5000) ∧
      Exec (seqSem plainEnv) (liveRouter.amend 0 cidA (some cidB) none (some 5000)) x r y ∧
      ¬((∃ er, r = .error er) ∧ y.1.find cidA = x.1.find cidA ∧ ¬CancelSent cidA x y) := by
  have hf := plain_follows liveHandler
  obtain ⟨x, hrun, hx⟩ := exists_run hf oversized_run
  obtain ⟨hrow, hraise⟩ := Bool.and_eq_true_iff.mp hx
  obtain ⟨e, he, hrow⟩ := hasRow_iff.mp hrow
  obtain ⟨er, y, hexec, hy⟩ := exists_raise hf hraise
  obtain ⟨e', he', hst'⟩ := hasStatus_iff.mp hy
  have hst : e.row.status = .new := by
    rw [hrow]
    rfl
  refine ⟨x, y, e, .error er, hrun, he, hst, hrow ▸ oversized_unacceptable, hexec, ?_⟩
  rintro ⟨-, hsame, -⟩
  have he : x.1.find cidA = some e := he
  rw [he', he] at hsame
  rw [Option.some.inj hsame, hst] at hst'
  cases hst'

end ExecutionEngine
