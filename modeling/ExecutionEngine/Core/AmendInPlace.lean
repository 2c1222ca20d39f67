/-
  The native amend, from a resting order back to a resting order.

  A native amend leaves NEW or PARTIALLY_FILLED for PENDING_REPLACE, asks the adapter
  and comes back over two or three writes. `AmendLeg` lists the ways the order can
  look afterwards: as before if the adapter was not asked, with the new terms behind
  a confirmed request, with the old ones behind a refused one; the status it comes
  back to is read off its fills. `amend_all_or_nothing` is about every amend of a
  simulator order that runs alone over a store that takes the amended row.
-/
import ExecutionEngine.Core.Redelivery

namespace ExecutionEngine

open Async Async.Prog StateMachine

namespace AmendInPlace

/-! ## Asking the adapter -/

/-- An amend request for `cid`, whatever the answer. -/
def isAmendOf (cid : String) (ev : Event engineSig) : Bool :=
  match ev.op with
  | .ext (.amend _ c _ _) => c = cid
  | _ => false

/-- A confirmed amend request for `cid`. -/
def isAmendOk (cid : String) : Event engineSig → Bool
  | ⟨.ext (.amend _ c _ _), .ok ack⟩ => c = cid && ack.ok
  | _ => false

theorem isAmendOf_of_ok {cid : String} {ev : Event engineSig} (h : isAmendOk cid ev = true) :
    isAmendOf cid ev = true := by
  unfold isAmendOk at h
  split at h
  · simp only [Bool.and_eq_true] at h
    exact h.1
  · cases h

theorem isAmendOk_false {cid : String} {ev : Event engineSig} (h : isAmendOf cid ev = false) :
    isAmendOk cid ev = false := by
  cases hok : isAmendOk cid ev with
  | false => rfl
  | true =>
    rw [isAmendOf_of_ok hok] at h
    cases h

/-- Any operation but `adapter.amend`. -/
def Unasked : EngineOp → Prop
  | .ext (.amend _ _ _ _) => False
  | _ => True

theorem unasked_probe {op : EngineOp} (h : Probe op) : Unasked op := by
  rcases op with o | o
  · trivial
  · cases o <;> first | exact h.elim | trivial

theorem not_of_unasked {cid : String} {ev : Event engineSig} (h : Unasked ev.op) :
    isAmendOf cid ev = false := by
  obtain ⟨op, r⟩ := ev
  rcases op with o | o
  · rfl
  · cases o <;> first | exact h.elim | rfl

/-- The store is as in `x`, and the adapter was not asked to amend since. -/
def Before (x y : World) : Prop := y.1 = x.1 ∧ ∃ t, y.2 = x.2 ++ t ∧ ∀ ev ∈ t, Unasked ev.op

theorem Before.refl (x : World) : Before x x :=
  ⟨rfl, [], (List.append_nil _).symm, fun _ h => absurd h List.not_mem_nil⟩

theorem Before.trans {x y z : World} (h : Before x y) (h' : Before y z) : Before x z := by
  obtain ⟨hdb, t, ht, hu⟩ := h
  obtain ⟨hdb', t', ht', hu'⟩ := h'
  refine ⟨hdb'.trans hdb, t ++ t', by rw [ht', ht, List.append_assoc], fun ev hev => ?_⟩
  rcases List.mem_append.mp hev with hev | hev
  · exact hu ev hev
  · exact hu' ev hev

theorem Before.of_step {E : Env} {x y : World} {op : EngineOp} {r : Except Exn op.Res}
    (hs : (seqSem E).step x op r y) (hdb : y.1 = x.1) (hu : Unasked op) : Before x y := by
  refine ⟨hdb, [⟨op, r⟩], hs.2, fun ev hev => ?_⟩
  rw [List.mem_singleton.mp hev]
  exact hu

theorem wp_before {α : Type} {E : Env} {p : Eff α} (h : Uses Probe p) (x : World) :
    wp (seqSem E) (fun _ _ => True) p (fun _ y => Before x y) x :=
  wp_mono (wp_and (wp_traced (wp_probe h x.1) x.2) (h.history x)) fun _ _ hy =>
    ⟨hy.1, hy.2.imp fun _ ht => ⟨ht.1, fun ev hev => unasked_probe (ht.2 ev hev)⟩⟩

/-- A probe before the rest: it fails, or the rest runs from a store that has not moved. -/
theorem wp_check {α β : Type} {E : Env} {p : Eff α} {f : α → Eff β} {x y : World}
    {Q : Except Exn β → World → Prop} (hp : Uses Probe p) (hxy : Before x y)
    (herr : ∀ er z, Before x z → Q (.error er) z)
    (hok : ∀ a z, Before x z → wp (seqSem E) (fun _ _ => True) (f a) Q z) :
    wp (seqSem E) (fun _ _ => True) (p.bind f) Q y := by
  refine wp_bind.mpr (wp_mono (wp_before hp y) fun r z hz => ?_)
  cases r with
  | error er => exact herr er z (hxy.trans hz)
  | ok a => exact hok a z (hxy.trans hz)

/-! ## Up to the request -/

section Preflight

variable {E : Env} {R : Router} {cid : String} {e : Entry} {newCid : Option String}
  {p : Option Decimal} {q : Option Int} {x : World}

/-- An amend of a simulator order is refused before anything is written, or gets to the adapter
    with the order resting and a total above its fills. -/
theorem amend_preflight (fuel : Nat) (he : x.1.find cid = some e) (hsim : e.row.broker = .sim)
    {Q : Except Exn SubmitOutcome → World → Prop}
    (herr : ∀ er y, Before x y → Q (.error er) y)
    (hgo : ∀ a y, Before x y → Reconcile.Resting e.row.status →
      (∀ n, q = some n → e.filled < n) →
      wp (seqSem E) (fun _ _ => True) (Router.amendAt a cid p q e.filled) Q y) :
    wp (seqSem E) (fun _ _ => True) (R.amend fuel cid newCid p q) Q x := by
  obtain rfl := Db.find_key he
  unfold Router.amend
  refine wp_check R.uses_assertDisengaged (.refl x) herr fun _ x₁ hx₁ => ?_
  split
  · exact herr _ x₁ hx₁
  · rw [Prog.bind_eq, wp_bind]
    refine wp_perform.mpr ⟨trivial, fun r x₂ hs => ?_⟩
    obtain ⟨hdb, hr⟩ := step_fetchOrder hs.1
    have hx₂ := hx₁.trans (.of_step hs hdb trivial)
    cases r with
    | error er => exact herr er x₂ hx₂
    | ok row =>
      obtain rfl := hr row rfl
      rw [outcome_ok, hx₁.1, fetchOrder_of_find he]
      obtain ⟨caps, hcaps, hnative⟩ := Capabilities.lookup_ok e.row.broker e.row.market
      dsimp only
      rw [hcaps, Eff.lift, Prog.bind_eq, Prog.bind, if_pos (hnative.mpr hsim)]
      unfold Router.amendNative
      dsimp only
      split
      · exact herr _ x₂ hx₂
      · split
        · exact herr _ x₂ hx₂
        · rename_i hst
          have hlive : Reconcile.Resting e.row.status := by
            simpa [Reconcile.Resting] using not_not.mp hst
          rw [Prog.bind_eq, wp_bind]
          refine wp_perform.mpr ⟨trivial, fun r x₃ hs => ?_⟩
          obtain ⟨hdb, hr⟩ := step_fetchOrderResult hs.1
          have hx₃ := hx₂.trans (.of_step hs hdb trivial)
          cases r with
          | error er => exact herr er x₃ hx₃
          | ok result =>
            obtain rfl := hr result rfl
            rw [outcome_ok, hx₂.1, fetchOrderResult_of_find he]
            dsimp only
            cases hq : Router.assertAmendQuantities e.row q (resultRow e).filledQty with
            | error er => exact herr er x₃ hx₃
            | ok u =>
              have hlt := assertAmendQuantities_ok hq
              generalize Router.amendedOrder e.row e.row.clientOrderId p q = built
              refine wp_check (uses_lift (.ok u)) hx₃ herr fun _ x₄ hx₄ => ?_
              refine wp_check (uses_lift _) hx₄ herr fun amended x₄ hx₄ => ?_
              refine wp_check (R.uses_riskCheck amended) hx₄ herr fun _ x₅ hx₅ => ?_
              refine wp_check (uses_lift _) hx₅ herr fun a x₆ hx₆ => ?_
              refine wp_check (Router.uses_breakerGuard a) hx₆ herr fun _ x₇ hx₇ => ?_
              exact hgo a x₇ hx₇ hlive hlt

end Preflight

/-! ## The venue leg -/

/-- The row with the amended terms, as `NUMERIC(18,6)` stores them. -/
def amendedRow (row : OrderRow) (p : Option Decimal) (q : Option Int) : OrderRow :=
  { row with
    price := (p.map Decimal.numeric).or row.price
    quantity := q.getD row.quantity }

/-- The status an order comes back to. -/
def restored (filled : Int) : OrderState := if 0 < filled then .partiallyFilled else .new

/-- How an amend can leave an order. -/
inductive AmendLeg (cid : String) (p : Option Decimal) (q : Option Int) (e : Entry)
    (t : List (Event engineSig)) : Entry → Prop where
  | refused (h : ∀ ev ∈ t, isAmendOf cid ev = false) : AmendLeg cid p q e t e
  | accepted {e' : Entry} (h : ∃ ev ∈ t, isAmendOk cid ev = true)
      (hq : ∀ n, q = some n → e.filled < n)
      (hrow : e'.row = { amendedRow e.row p q with status := restored e.filled })
      (hfills : e'.fills = e.fills) : AmendLeg cid p q e t e'
  | rejected (h : ∃ ev ∈ t, isAmendOf cid ev = true) (hno : ∀ ev ∈ t, isAmendOk cid ev = false) :
      AmendLeg cid p q e t (Db.withStatus e (restored e.filled))

/-- Events before that ask nobody do not matter. -/
theorem AmendLeg.mono {cid : String} {p : Option Decimal} {q : Option Int} {e e' : Entry}
    {t t' : List (Event engineSig)} (h : AmendLeg cid p q e t e')
    (hno : ∀ ev ∈ t', isAmendOf cid ev = false) : AmendLeg cid p q e (t' ++ t) e' := by
  have hnever : ∀ ev ∈ t', isAmendOk cid ev = false := fun ev hev => isAmendOk_false (hno ev hev)
  cases h with
  | refused h => exact .refused (List.forall_mem_append.mpr ⟨hno, h⟩)
  | accepted h hq hrow hfills =>
    obtain ⟨ev, hev, hok⟩ := h
    exact .accepted ⟨ev, List.mem_append_right t' hev, hok⟩ hq hrow hfills
  | rejected h hnot =>
    obtain ⟨ev, hev, hof⟩ := h
    exact .rejected ⟨ev, List.mem_append_right t' hev, hof⟩
      (List.forall_mem_append.mpr ⟨hnever, hnot⟩)

section Leg

variable {allows : Db → (o : ExtOp) → Except Exn o.Res → Prop} {db : Db} {cid : String} {e : Entry}
  {p : Option Decimal} {q : Option Int}

theorem restorePartial_reliable (he : db.find cid = some e) (hs : e.row.status = .new)
    (filled : Int) :
    wp (sem (.reliable allows)) (fun _ _ => True) (Router.restorePartial cid filled)
      (fun r db' => r = .ok () ∧ db.Put db' (Db.withStatus e (restored filled))) db := by
  unfold Router.restorePartial restored
  split
  · exact updateStatus_reliable he (by rw [hs]; decide)
  · obtain rfl := Db.find_key he
    rw [withStatus_self hs]
    exact ⟨rfl, .self he⟩

/-- The store takes the amended row. -/
def Takes (row : OrderRow) (p : Option Decimal) (q : Option Int) : Prop :=
  Db.columnsFit (amendedRow row p q) = true ∧ Db.columnChecks (amendedRow row p q) = true

theorem replaceOrder_takes (he : db.find cid = some e) (hs : e.row.status = .pendingReplace)
    (htakes : Takes e.row p q) :
    ∃ e' : Entry, e'.row = { amendedRow e.row p q with status := .new } ∧ e'.fills = e.fills ∧
      db.replaceOrder cid p q = (.ok (), db.set e') := by
  obtain ⟨hfits, hchecks⟩ := htakes
  have hfits' : Db.columnsFit { amendedRow e.row p q with status := .new } = true := hfits
  have hchecks' : Db.columnChecks { amendedRow e.row p q with status := .new } = true := hchecks
  refine ⟨⟨_, e.fills, Db.columnChecks_pos hchecks', e.uq⟩, rfl, rfl, ?_⟩
  unfold Db.replaceOrder
  simp only [he]
  rw [if_pos hs]
  unfold amendedRow at hfits' hchecks'
  rw [if_neg (by rw [hfits']; simp), dif_pos hchecks']
  rfl

/-- Behind a confirmed request. -/
theorem confirmed_leg (he : db.find cid = some e) (hs : e.row.status = .pendingReplace)
    (htakes : Takes e.row p q) :
    wp (sem (.reliable allows)) (fun _ _ => True)
      (do Eff.store (.replaceOrder cid p q)
          Router.restorePartial cid e.filled
          let result ← Router.get cid
          .ret (⟨result, false, .confirmed⟩ : SubmitOutcome))
      (fun _ db' => ∃ e', e'.row = { amendedRow e.row p q with status := restored e.filled } ∧
        e'.fills = e.fills ∧ db.Put db' e') db := by
  obtain ⟨e₁, hrow, hfills, hreplace⟩ := replaceOrder_takes he hs htakes
  have hk : e₁.row.clientOrderId = cid := by
    rw [hrow]
    exact Db.find_key he
  rw [Prog.bind_eq, wp_bind]
  refine wp_perform.mpr ⟨trivial, fun r db₁ hstep => ?_⟩
  obtain ⟨t, ht⟩ := step_reliable hstep
  change db.replaceOrder cid p q = _ at ht
  rw [hreplace] at ht
  obtain ⟨rfl, rfl⟩ := Prod.mk.inj ht
  have hput : db.Put (db.set e₁) e₁ := .of_set (x := e) (by rw [hk]; exact he)
  have he₁ : (db.set e₁).find cid = some e₁ := hk ▸ hput.find_self
  rw [outcome_ok, Prog.bind_eq, wp_bind]
  refine wp_mono (restorePartial_reliable he₁ (by rw [hrow]) e.filled) fun r db₂ h₂ => ?_
  obtain ⟨rfl, hput₂⟩ := h₂
  have hend : ∃ e', e'.row = { amendedRow e.row p q with status := restored e.filled } ∧
      e'.fills = e.fills ∧ db.Put db₂ e' := by
    refine ⟨Db.withStatus e₁ (restored e.filled), ?_, hfills, hput.trans hput₂ rfl⟩
    change { e₁.row with status := restored e.filled } = _
    rw [hrow]
  have he₂ : db₂.find cid = some (Db.withStatus e₁ (restored e.filled)) := by
    rw [← hk]
    exact hput₂.find_self
  rw [outcome_ok, Prog.bind_eq, wp_bind]
  refine wp_mono (get_reliable he₂) fun r db₃ h₃ => ?_
  obtain ⟨rfl, rfl⟩ := h₃
  exact hend

/-- Behind a refused one. -/
theorem refused_leg (he : db.find cid = some e) (hs : e.row.status = .pendingReplace)
    (filled : Int) (er : Exn) :
    wp (sem (.reliable allows)) (fun _ _ => True)
      (do updateStatus cid .new
          Router.restorePartial cid filled
          (.raise er : Eff SubmitOutcome))
      (fun _ db' => db.Put db' (Db.withStatus e (restored filled))) db := by
  rw [Prog.bind_eq, wp_bind]
  refine wp_mono (updateStatus_reliable he (s := .new) (by rw [hs]; decide)) fun r db₁ h₁ => ?_
  obtain ⟨rfl, hput₁⟩ := h₁
  have he₁ : db₁.find cid = some (Db.withStatus e .new) := by
    obtain rfl := Db.find_key he
    exact hput₁.find_self
  rw [outcome_ok, Prog.bind_eq, wp_bind]
  refine wp_mono (restorePartial_reliable he₁ rfl filled) fun r db₂ h₂ => ?_
  obtain ⟨rfl, hput₂⟩ := h₂
  exact hput₁.trans hput₂ rfl

/-- What follows a stretch that asks nobody. -/
theorem exists_append (cid : String) {x y z : World} {t : List (Event engineSig)} (hy : y.2 = x.2 ++ t)
    (hz : ∃ t', z.2 = y.2 ++ t' ∧ ∀ ev ∈ t', Unasked ev.op) :
    ∃ t', z.2 = x.2 ++ (t ++ t') ∧ ∀ ev ∈ t', isAmendOf cid ev = false := by
  obtain ⟨t', ht', hu⟩ := hz
  exact ⟨t', by rw [ht', hy, List.append_assoc], fun ev hev => not_of_unasked (hu ev hev)⟩

/-- The amend answers, or fails with an adapter error. -/
def Answers (allows : Db → (o : ExtOp) → Except Exn o.Res → Prop) : Prop :=
  ∀ db a cid p q x, allows db (.amend a cid p q) (.error x) →
    (∃ m, x = .adapterError m) ∨ ∃ m, x = .transportError m

/-- One event of the request, whatever the answer is taken for. -/
theorem venueAmend_spec (hans : Answers allows) (a : AdapterId) (x : World) :
    wp (seqSem (.reliable allows)) (fun _ _ => True) (Router.venueAmend a cid p q)
      (outcome (fun ack y => y.1 = x.1 ∧ ∃ ev, y.2 = x.2 ++ [ev] ∧ isAmendOf cid ev = true ∧
        isAmendOk cid ev = ack.ok) fun _ _ => False) x := by
  unfold Router.venueAmend
  refine wp_tryExcept.mpr (wp_perform.mpr ⟨trivial, fun r y hy => ?_⟩)
  obtain ⟨hdb, hall⟩ := step_ext hy.1
  cases r with
  | ok ack => exact ⟨hdb, _, hy.2, by simp [isAmendOf], by simp [isAmendOk]⟩
  | error er =>
    have hev : ∃ ev, y.2 = x.2 ++ [ev] ∧ isAmendOf cid ev = true ∧ isAmendOk cid ev = false :=
      ⟨_, hy.2, by simp [isAmendOf], rfl⟩
    rcases hans _ _ _ _ _ er hall with ⟨m, rfl⟩ | ⟨m, rfl⟩
    · exact ⟨hdb, hev⟩
    · exact ⟨hdb, hev⟩

/-- The venue leg of a resting order comes back to a resting order. -/
theorem amendAt_leg (hans : Answers allows) (a : AdapterId) {x : World}
    (he : x.1.find cid = some e) (hlive : Reconcile.Resting e.row.status)
    (hq : ∀ n, q = some n → e.filled < n) (htakes : Takes e.row p q) :
    wp (seqSem (.reliable allows)) (fun _ _ => True) (Router.amendAt a cid p q e.filled)
      (fun _ y => ∃ t e', y.2 = x.2 ++ t ∧ x.1.Put y.1 e' ∧ AmendLeg cid p q e t e') x := by
  obtain rfl := Db.find_key he
  unfold Router.amendAt
  rw [Prog.bind_eq, wp_bind]
  have hl : isLegal e.row.status .pendingReplace = true := by
    rcases hlive with hs | hs <;> rw [hs] <;> decide
  have hstatus (s : OrderState) : Uses Unasked (updateStatus e.row.clientOrderId s) :=
    uses_updateStatus trivial trivial
  have hrestore (n : Int) : Uses Unasked (Router.restorePartial e.row.clientOrderId n) := by
    unfold Router.restorePartial
    split
    · exact hstatus _
    · trivial
  refine wp_mono (wp_and (wp_traced (updateStatus_reliable he hl) x.2)
    ((hstatus .pendingReplace).history x)) fun r y hy => ?_
  obtain ⟨⟨rfl, hput⟩, t₁, ht₁, hu₁⟩ := hy
  have he₁ : y.1.find e.row.clientOrderId = some (Db.withStatus e .pendingReplace) := hput.find_self
  have hno₁ : ∀ ev ∈ t₁, isAmendOf e.row.clientOrderId ev = false :=
    fun ev hev => not_of_unasked (hu₁ ev hev)
  rw [outcome_ok, Prog.bind_eq]
  refine wp_seq_ok (venueAmend_spec hans a y) ?_
  rintro ack z ⟨hdb, ev, hev, hof, hok⟩
  have he₂ : z.1.find e.row.clientOrderId = some (Db.withStatus e .pendingReplace) := by
    rw [hdb]
    exact he₁
  have hz : z.2 = x.2 ++ (t₁ ++ [ev]) := by rw [hev, ht₁, List.append_assoc]
  split
  · rename_i hack
    have huses : Uses Unasked (do
        Eff.store (.replaceOrder e.row.clientOrderId p q)
        Router.restorePartial e.row.clientOrderId e.filled
        let result ← Router.get e.row.clientOrderId
        .ret (⟨result, false, .confirmed⟩ : SubmitOutcome)) :=
      (uses_store trivial).bind fun _ => (hrestore _).bind fun _ =>
        (Router.uses_get trivial).bind fun _ => trivial
    refine wp_mono (wp_and (wp_traced (confirmed_leg he₂ rfl htakes) z.2) (huses.history z))
      fun r w hw => ?_
    obtain ⟨⟨e', hrow, hfills, hput'⟩, hgrown⟩ := hw
    obtain ⟨t₂, ht₂, -⟩ := exists_append e.row.clientOrderId hz hgrown
    refine ⟨_, e', ht₂, (hdb ▸ hput).trans hput' (by rw [hrow]; rfl), .accepted ?_ hq hrow hfills⟩
    exact ⟨ev, by simp, by rw [hok, hack]⟩
  · rename_i hack
    have huses (er : Exn) : Uses Unasked (do
        updateStatus e.row.clientOrderId .new
        Router.restorePartial e.row.clientOrderId e.filled
        (.raise er : Eff SubmitOutcome)) :=
      (hstatus .new).bind fun _ => (hrestore _).bind fun _ => trivial
    refine wp_mono (wp_and (wp_traced (refused_leg he₂ rfl e.filled _) z.2) ((huses _).history z))
      fun r w hw => ?_
    obtain ⟨hput', hgrown⟩ := hw
    obtain ⟨t₂, ht₂, hno₂⟩ := exists_append e.row.clientOrderId hz hgrown
    refine ⟨_, _, ht₂, (hdb ▸ hput).trans hput' rfl, .rejected ⟨ev, by simp, hof⟩ ?_⟩
    intro ev' hmem
    rcases List.mem_append.mp hmem with hmem | hmem
    · rcases List.mem_append.mp hmem with hmem | hmem
      · exact isAmendOk_false (hno₁ ev' hmem)
      · rw [List.mem_singleton.mp hmem, hok]
        exact Bool.eq_false_iff.mpr hack
    · exact isAmendOk_false (hno₂ ev' hmem)

end Leg

/-! ## All or nothing -/

/-- The order after an amend whose events are `t`: its fills and its reject reason as before; with
    the amended price and quantity if the adapter confirmed, and its own otherwise; in the status
    it had if that agrees with its fills, or if the adapter was not asked. -/
structure AllOrNothing (cid : String) (p : Option Decimal) (q : Option Int) (e : Entry)
    (t : List (Event engineSig)) (e' : Entry) : Prop where
  fills : e'.fills = e.fills
  rejectReason : e'.row.rejectReason = e.row.rejectReason
  amended : (∃ ev ∈ t, isAmendOk cid ev = true) →
    e'.row.price = (p.map Decimal.numeric).or e.row.price ∧
    e'.row.quantity = q.getD e.row.quantity ∧
    (q.isSome = true ∨ e.filled < e.row.quantity → e.filled < e'.row.quantity) ∧
    ∀ d, e.row.displayQty = some d → d ≤ e'.row.quantity
  original : (∀ ev ∈ t, isAmendOk cid ev = false) →
    e'.row.price = e.row.price ∧ e'.row.quantity = e.row.quantity
  unasked : (∀ ev ∈ t, isAmendOf cid ev = false) → e'.row.status = e.row.status
  asked : (∃ ev ∈ t, isAmendOf cid ev = true) → e'.row.status = restored e.filled
  status : AgreesWith e.row.status e.filled e.row.quantity → e'.row.status = e.row.status

theorem restored_agrees {s : OrderState} {filled quantity : Int} (hlive : Reconcile.Resting s)
    (ha : AgreesWith s filled quantity) : restored filled = s := by
  unfold restored
  rcases hlive with rfl | rfl
  · have hzero : filled = 0 := ha
    rw [if_neg (by omega)]
  · have hpos : 0 < filled := ha.1
    rw [if_pos hpos]

section Leg

variable {cid : String} {e e' : Entry} {p : Option Decimal} {q : Option Int}
  {t : List (Event engineSig)}

theorem AmendLeg.allOrNothing (h : AmendLeg cid p q e t e')
    (hlive : Reconcile.Resting e.row.status) (htakes : Takes e.row p q) :
    AllOrNothing cid p q e t e' := by
  cases h with
  | refused h =>
    refine ⟨rfl, rfl, fun ⟨ev, hev, hok⟩ => ?_, fun _ => ⟨rfl, rfl⟩, fun _ => rfl,
      fun ⟨ev, hev, hof⟩ => ?_, fun _ => rfl⟩
    · rw [isAmendOk_false (h ev hev)] at hok
      cases hok
    · rw [h ev hev] at hof
      cases hof
  | accepted h hq hrow hfills =>
    obtain ⟨ev, hev, hok⟩ := h
    have hquantity : e'.row.quantity = q.getD e.row.quantity := by rw [hrow]; rfl
    have hstatus : e'.row.status = restored e.filled := by rw [hrow]
    refine ⟨hfills, by rw [hrow]; rfl, fun _ => ⟨by rw [hrow]; rfl, hquantity, ?_, ?_⟩,
      fun hno => ?_, fun hno => ?_, fun _ => hstatus, fun ha => ?_⟩
    · rw [hquantity]
      cases q with
      | none => exact fun hor => hor.elim (fun h => nomatch h) id
      | some n => exact fun _ => hq n rfl
    · intro d hd
      have hchecks := htakes.2
      have hdisplay : (amendedRow e.row p q).displayQty = some d := hd
      simp only [Db.columnChecks, Bool.and_eq_true, hdisplay, Option.all_some,
        decide_eq_true_eq] at hchecks
      rw [hquantity]
      exact hchecks.2.2
    · rw [hno ev hev] at hok
      cases hok
    · have hof := isAmendOf_of_ok hok
      rw [hno ev hev] at hof
      cases hof
    · exact hstatus.trans (restored_agrees hlive ha)
  | rejected h hno =>
    obtain ⟨ev, hev, hof⟩ := h
    refine ⟨rfl, rfl, fun ⟨ev', hev', hok⟩ => ?_, fun _ => ⟨rfl, rfl⟩, fun hnone => ?_,
      fun _ => rfl, fun ha => restored_agrees hlive ha⟩
    · rw [hno ev' hev'] at hok
      cases hok
    · rw [hnone ev hev] at hof
      cases hof

end Leg

/-- A native amend of a resting order, alone, over a store that does not fail and takes the amended
    row: whatever the checks and the adapter say, all or nothing, and no other order moves. -/
theorem amend_all_or_nothing {allows : Db → (o : ExtOp) → Except Exn o.Res → Prop}
    (hans : Answers allows) (R : Router) (fuel : Nat) {x y : World} {cid : String} {e : Entry}
    (he : x.1.find cid = some e) (hsim : e.row.broker = .sim)
    (hlive : Reconcile.Resting e.row.status) (newCid : Option String) {p : Option Decimal}
    {q : Option Int} (htakes : Takes e.row p q) {r : Except Exn SubmitOutcome}
    (hexec : Exec (seqSem (.reliable allows)) (R.amend fuel cid newCid p q) x r y) :
    ∃ t e', y.2 = x.2 ++ t ∧ x.1.Put y.1 e' ∧ AllOrNothing cid p q e t e' := by
  have hwp : wp (seqSem (.reliable allows)) (fun _ _ => True) (R.amend fuel cid newCid p q)
      (fun _ y => ∃ t e', y.2 = x.2 ++ t ∧ x.1.Put y.1 e' ∧ AmendLeg cid p q e t e') x := by
    refine amend_preflight fuel he hsim ?_ ?_
    · rintro er z ⟨hdb, t, ht, hu⟩
      obtain rfl := Db.find_key he
      exact ⟨t, e, ht, by rw [hdb]; exact .self he, .refused fun ev hev => not_of_unasked (hu ev hev)⟩
    · rintro a z ⟨hdb, t, ht, hu⟩ _ hq
      have hez : z.1.find cid = some e := by rw [hdb]; exact he
      refine wp_mono (amendAt_leg hans a hez hlive hq htakes) ?_
      rintro r w ⟨t', e', ht', hput, hleg⟩
      refine ⟨t ++ t', e', by rw [ht', ht, List.append_assoc], hdb ▸ hput, ?_⟩
      exact hleg.mono fun ev hev => not_of_unasked (hu ev hev)
  obtain ⟨t, e', ht, hput, hleg⟩ := hwp.exec hexec
  exact ⟨t, e', ht, hput, hleg.allOrNothing hlive htakes⟩

section Sample

open Redelivery (filledStore restingStore)
open Reconcile (liveEnv)

/-- The sample order with 40 units filled, amended to 80 at 11. -/
theorem sample_amend :
    ∃ r y t e e', Exec (seqSem liveEnv) (simRouter.amend 0 cidA none (some ⟨11, 0⟩) (some 80))
        (filledStore, []) r y ∧ filledStore.find cidA = some e ∧
      e.row.status = .partiallyFilled ∧ e.filled = 40 ∧ filledStore.Put y.1 e' ∧
      AllOrNothing cidA (some ⟨11, 0⟩) (some 80) e t e' := by
  have hreturns : returnsWith liveHandler (simRouter.amend 0 cidA none (some ⟨11, 0⟩) (some 80))
      (filledStore, []) (fun _ _ => true) = true := by decide +kernel
  have hf : Follows (sem liveEnv) liveHandler.step := handler_follows fun _ _ => rfl
  obtain ⟨out, y, hexec, -⟩ := exists_return hf hreturns
  have hfind : ∃ e, filledStore.find cidA = some e ∧ e.row.broker = .sim ∧
      e.row.status = .partiallyFilled ∧ e.filled = 40 ∧ Takes e.row (some ⟨11, 0⟩) (some 80) :=
    ⟨_, rfl, rfl, rfl, rfl, by decide +kernel, by decide +kernel⟩
  obtain ⟨e, he, hsim, hst, hfilled, htakes⟩ := hfind
  have hans : Answers fun db o r => r = liveHandler.ext db o :=
    fun _ _ _ _ _ _ h => nomatch h
  obtain ⟨t, e', -, hput, hall⟩ := amend_all_or_nothing hans simRouter 0 he hsim (.inr hst) none
    htakes hexec
  exact ⟨_, y, t, e, e', hexec, he, hst, hfilled, hput, hall⟩

/-- The sample order back in NEW with 40 units filled: an amend whose restore was lost. -/
def staleStore : Db :=
  ((filledStore.writeStatus cidA .pendingReplace).2.replaceOrder cidA (some ⟨10, 0⟩) none).2

theorem evolves_stale : Evolves plainEnv filledStore staleStore :=
  .tail (Redelivery.evolves_writeStatus filledStore cidA .pendingReplace)
    ⟨.store (.replaceOrder cidA (some ⟨10, 0⟩) none), _, .inl ⟨0, rfl⟩⟩

/-- The next amend of it ends in another status than it started from. -/
theorem stale_amend_moves :
    restingStore.applyFill cidA "F1" ⟨10, 0⟩ 40 0 100 = (.ok .partiallyFilled, filledStore) ∧
    Evolves plainEnv Db.empty restingStore ∧ Evolves plainEnv filledStore staleStore ∧
    ∃ r y e e', Exec (seqSem liveEnv) (simRouter.amend 0 cidA none (some ⟨11, 0⟩) none)
        (staleStore, []) r y ∧ staleStore.find cidA = some e ∧ e.row.status = .new ∧
      y.1.find cidA = some e' ∧ e'.row.status = .partiallyFilled := by
  refine ⟨rfl, Redelivery.evolves_resting, evolves_stale, ?_⟩
  have hreturns : returnsWith liveHandler (simRouter.amend 0 cidA none (some ⟨11, 0⟩) none)
      (staleStore, []) (fun _ y => hasStatus cidA .partiallyFilled y) = true := by decide +kernel
  have hf : Follows (sem liveEnv) liveHandler.step := handler_follows fun _ _ => rfl
  obtain ⟨out, y, hexec, hend⟩ := exists_return hf hreturns
  obtain ⟨e', he', hst'⟩ := hasStatus_iff.mp hend
  have hfind : ∃ e, staleStore.find cidA = some e ∧ e.row.status = .new := ⟨_, rfl, rfl⟩
  obtain ⟨e, he, hst⟩ := hfind
  exact ⟨_, y, e, e', hexec, he, hst, he', hst'⟩

end Sample

end AmendInPlace

end ExecutionEngine
