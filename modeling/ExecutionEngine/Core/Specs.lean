/-
  What the router's coroutines do when nothing runs beside them.

  `updateStatus_spec` and `cancel_spec` say how one entry can end; the rest of the
  store is as before (`Db.Put`). `submit_moves` and `submit_returns` say that a
  submit touches its own id only, keeps the terms of a row that is there, gives a
  fresh row the terms of the order, and returns what the store holds under that id.
  Store calls may fail throughout, before or after they commit.
-/
import ExecutionEngine.Core.Engine
import ExecutionEngine.Core.Footprint

namespace ExecutionEngine

open Async Async.Prog StateMachine

/-- `db'` is `db` with `e` under its key. -/
def Db.Put (db db' : Db) (e : Entry) : Prop :=
  ∀ c, db'.find c = if c = e.row.clientOrderId then some e else db.find c

namespace Db.Put

variable {db db' db'' : Db} {e e' : Entry}

theorem self (h : db.find e.row.clientOrderId = some e) : Db.Put db db e := by
  intro c
  split
  · rename_i hc; rw [hc, h]
  · rfl

theorem find_self (h : Db.Put db db' e) : db'.find e.row.clientOrderId = some e := by
  rw [h]; exact if_pos rfl

theorem find_ne (h : Db.Put db db' e) {c : String} (hc : c ≠ e.row.clientOrderId) :
    db'.find c = db.find c := by
  rw [h]; exact if_neg hc

theorem trans (h : Db.Put db db' e) (h' : Db.Put db' db'' e')
    (hk : e'.row.clientOrderId = e.row.clientOrderId) : Db.Put db db'' e' := by
  intro c
  rw [h' c]
  split
  · rfl
  · rename_i hc
    rw [hk] at hc
    exact h.find_ne hc

theorem of_set {x : Entry} (h : db.find e.row.clientOrderId = some x) :
    Db.Put db (db.set e) e :=
  fun _ => Db.find_set h

end Db.Put

/-! ## Single operations -/

section Steps

variable {E : Env} {db db' : Db} {cid : String}

theorem step_fetchOrder {r : Except Exn (Option OrderRow)}
    (h : (sem E).step db (.store (.fetchOrder cid)) r db') :
    db' = db ∧ ∀ x, r = .ok x → x = db.fetchOrder cid := by
  rcases h with ⟨t, ht⟩ | ⟨-, e, rfl, h | ⟨r', t, ht⟩⟩
  · obtain ⟨rfl, rfl⟩ := Prod.mk.inj ht
    exact ⟨rfl, fun x hx => (Except.ok.inj hx).symm⟩
  · exact ⟨h, fun x hx => nomatch hx⟩
  · exact ⟨(Prod.mk.inj ht).2.symm, fun x hx => nomatch hx⟩

theorem step_fetchOrderResult {r : Except Exn (Option OrderResultRow)}
    (h : (sem E).step db (.store (.fetchOrderResult cid)) r db') :
    db' = db ∧ ∀ x, r = .ok x → x = db.fetchOrderResult cid := by
  rcases h with ⟨t, ht⟩ | ⟨-, e, rfl, h | ⟨r', t, ht⟩⟩
  · obtain ⟨rfl, rfl⟩ := Prod.mk.inj ht
    exact ⟨rfl, fun x hx => (Except.ok.inj hx).symm⟩
  · exact ⟨h, fun x hx => nomatch hx⟩
  · exact ⟨(Prod.mk.inj ht).2.symm, fun x hx => nomatch hx⟩

theorem step_listing {b : Broker} {i : Bool} {r : Except Exn (List OrderRow)}
    (h : (sem E).step db (.store (.fetchOrdersForReconcile b i)) r db') :
    db' = db ∧ ∀ rows, r = .ok rows → IsListing rows (db.fetchOrdersForReconcile b i) := by
  rcases h with ⟨hdb, rows, rfl, hl⟩ | ⟨-, e, rfl, h | ⟨r', hdb, -⟩⟩
  · exact ⟨hdb, fun x hx => Except.ok.inj hx ▸ hl⟩
  · exact ⟨h, fun x hx => nomatch hx⟩
  · exact ⟨hdb, fun x hx => nomatch hx⟩

theorem step_openOrders {r : Except Exn (List OrderRow)}
    (h : (sem E).step db (.store .fetchOpenOrders) r db') :
    db' = db ∧ ∀ rows, r = .ok rows → IsListing rows db.fetchOpenOrders := by
  rcases h with ⟨hdb, rows, rfl, hl⟩ | ⟨-, e, rfl, h | ⟨r', hdb, -⟩⟩
  · exact ⟨hdb, fun x hx => Except.ok.inj hx ▸ hl⟩
  · exact ⟨h, fun x hx => nomatch hx⟩
  · exact ⟨hdb, fun x hx => nomatch hx⟩

theorem step_writeStatus {e : Entry} {s : OrderState} {r : Except Exn Unit}
    (he : db.find cid = some e) (hl : isLegal e.row.status s = true)
    (h : (sem E).step db (.store (.writeStatus cid s)) r db') :
    (r = .ok () → db' = db.set (Db.withStatus e s)) ∧
      (db' = db ∨ db' = db.set (Db.withStatus e s)) := by
  have hw : db.writeStatus cid s = (.ok (), db.set (Db.withStatus e s)) := by
    simp only [Db.writeStatus, he, hl, if_true]
  rcases h with ⟨t, ht⟩ | ⟨-, x, rfl, h | ⟨r', t, ht⟩⟩
  · change db.writeStatus cid s = _ at ht
    rw [hw] at ht
    obtain ⟨rfl, rfl⟩ := Prod.mk.inj ht
    exact ⟨fun _ => rfl, .inr rfl⟩
  · refine ⟨fun hx => ?_, .inl h⟩
    cases hx
  · change db.writeStatus cid s = _ at ht
    rw [hw] at ht
    refine ⟨fun hx => ?_, .inr (Prod.mk.inj ht).2.symm⟩
    cases hx

theorem step_replaceOrder_ok {e : Entry} {p : Option Decimal} {q : Option Int}
    (he : db.find cid = some e)
    (h : (sem E).step db (.store (.replaceOrder cid p q)) (.ok ()) db') :
    ∃ e' : Entry, e'.row = { e.row with
        status := .new
        price := (p.map Decimal.numeric).or e.row.price
        quantity := q.getD e.row.quantity } ∧ e'.fills = e.fills ∧ db' = db.set e' := by
  rcases h with ⟨t, ht⟩ | ⟨-, x, hx, -⟩
  · change db.replaceOrder cid p q = _ at ht
    rcases Db.replaceOrder_cases db cid p q with ⟨e₁, e', he₁, -, hrow, hfills, hc⟩ | ⟨x, hc⟩
    · rw [he] at he₁
      obtain rfl := Option.some.inj he₁
      rw [hc] at ht
      exact ⟨e', hrow, hfills, (Prod.mk.inj ht).2.symm⟩
    · rw [hc] at ht
      cases (Prod.mk.inj ht).1
  · cases hx

end Steps

theorem fetchOrder_of_find {db : Db} {cid : String} {e : Entry} (h : db.find cid = some e) :
    db.fetchOrder cid = some e.row := by
  rw [Db.fetchOrder, h]; rfl

/-- The row of `fetch_order_result`. -/
def resultRow (e : Entry) : OrderResultRow := ⟨e.row, e.filled, Db.fillNotional e.fills⟩

theorem fetchOrderResult_of_find {db : Db} {cid : String} {e : Entry}
    (h : db.find cid = some e) : db.fetchOrderResult cid = some (resultRow e) := by
  rw [Db.fetchOrderResult, h]; rfl

theorem fetchOrderResult_some {db : Db} {cid : String} {r : OrderResultRow}
    (h : db.fetchOrderResult cid = some r) : ∃ e, db.find cid = some e ∧ r = resultRow e := by
  rw [Db.fetchOrderResult] at h
  obtain ⟨e, he, rfl⟩ := Option.map_eq_some_iff.mp h
  exact ⟨e, he, rfl⟩

/-- Reading the result row, then going on. -/
theorem wp_readResult {α : Type} {E : Env} {db : Db} {cid : String}
    {k : Option OrderResultRow → Eff α} {Q : Except Exn α → Db → Prop}
    (herr : ∀ x, Q (.error x) db)
    (hok : wp (sem E) (fun _ _ => True) (k (db.fetchOrderResult cid)) Q db) :
    wp (sem E) (fun _ _ => True) (Eff.store (.fetchOrderResult cid) >>= k) Q db := by
  rw [Prog.bind_eq, wp_bind]
  refine wp_perform.mpr ⟨trivial, fun r db' hs => ?_⟩
  obtain ⟨rfl, hr⟩ := step_fetchOrderResult hs
  cases r with
  | error x => exact herr x
  | ok row =>
    obtain rfl := hr row rfl
    exact hok

/-! ## Stretches that leave the store alone -/

section Stretch

variable {E : Env}

/-- The store is as in `x`, and the venue was sent nothing to place or to cancel since. -/
def Later (x y : World) : Prop := y.1 = x.1 ∧ ∃ t, y.2 = x.2 ++ t ∧ ∀ ev ∈ t, Quiet ev.op

theorem Later.trans {x y z : World} (h : Later x y) (h' : Later y z) : Later x z := by
  obtain ⟨hdb, t, ht, hq⟩ := h
  obtain ⟨hdb', t', ht', hq'⟩ := h'
  refine ⟨hdb'.trans hdb, t ++ t', by rw [ht', ht, List.append_assoc], fun ev hev => ?_⟩
  rcases List.mem_append.mp hev with hev | hev
  · exact hq ev hev
  · exact hq' ev hev

theorem Later.grows {x y : World} (h : Later x y) : x.2 <+: y.2 := by
  obtain ⟨-, t, ht, -⟩ := h
  exact ⟨t, ht.symm⟩

/-- One quiet operation that leaves the store alone. -/
theorem Later.of_step {x y : World} {op : EngineOp} {r : Except Exn op.Res}
    (hs : (seqSem E).step x op r y) (hdb : y.1 = x.1) (hq : Quiet op) : Later x y := by
  refine ⟨hdb, [⟨op, r⟩], hs.2, fun ev hev => ?_⟩
  rw [List.mem_singleton.mp hev]
  exact hq

theorem wp_later {α : Type} {p : Eff α} (h : Uses Probe p) (x : World) :
    wp (seqSem E) (fun _ _ => True) p (fun _ y => Later x y) x :=
  wp_mono (wp_and (wp_traced (wp_probe h x.1) x.2) (h.history x)) fun _ _ hy =>
    ⟨hy.1, hy.2.imp fun _ ht => ⟨ht.1, fun ev hev => (ht.2 ev hev).quiet⟩⟩

/-- A placeless coroutine under a condition that speaks of placements only. -/
theorem wp_under {α : Type} {pre : World → EngineOp → Prop}
    (hpre : ∀ y op, Placeless op → pre y op) {p : Eff α} {Q : Except Exn α → World → Prop}
    {y : World} (h : Uses Placeless p) (hq : wp (seqSem E) (fun _ _ => True) p Q y) :
    wp (seqSem E) pre p Q y := by
  have hp : wp (seqSem E) pre p (fun _ _ => True) y :=
    h.keeps (I := fun _ => True) trivial (fun s op hop _ => hpre s op hop)
      fun _ _ _ _ _ _ _ => trivial
  exact wp_mono (wp_and hp hq) fun _ _ hz => hz.2

end Stretch

/-! ## update_status and cancel -/

section Cancel

variable {E : Env} {db : Db} {cid : String} {e : Entry}

/-- On success the entry has the new status along a legal move; on failure it has the old or the
    new one. Nothing else changes. -/
theorem updateStatus_spec (he : db.find cid = some e) (s : OrderState) :
    wp (sem E) (fun _ _ => True) (updateStatus cid s)
      (outcome
        (fun _ db' => isLegal e.row.status s = true ∧ db.Put db' (Db.withStatus e s))
        fun _ db' => db.Put db' e ∨
          isLegal e.row.status s = true ∧ db.Put db' (Db.withStatus e s)) db := by
  obtain rfl := Db.find_key he
  unfold updateStatus
  rw [Prog.bind_eq, wp_bind]
  refine wp_perform.mpr ⟨trivial, fun r db' hs => ?_⟩
  obtain ⟨rfl, hr⟩ := step_fetchOrder hs
  cases r with
  | error x => exact .inl (.self he)
  | ok row =>
    obtain rfl := hr row rfl
    rw [outcome_ok, fetchOrder_of_find he]
    dsimp only
    split
    · rename_i hsame
      refine ⟨by simp [isLegal, hsame], ?_⟩
      rw [withStatus_self hsame]
      exact .self he
    · split
      · rename_i hl
        refine wp_perform.mpr ⟨trivial, fun r db'' hw => ?_⟩
        obtain ⟨hok, hany⟩ := step_writeStatus he hl hw
        have hput : db'.Put (db'.set (Db.withStatus e s)) (Db.withStatus e s) :=
          .of_set (e := Db.withStatus e s) he
        cases r with
        | ok u => exact ⟨hl, hok rfl ▸ hput⟩
        | error x =>
          rcases hany with rfl | rfl
          · exact .inl (.self he)
          · exact .inr ⟨hl, hput⟩
      · exact .inl (.self he)

/-- A confirmed cancel request for `cid`. -/
def isCancelOk (cid : String) : Event engineSig → Bool
  | ⟨.ext (.cancel _ c), .ok ack⟩ => c = cid && ack.ok
  | _ => false

/-- A cancel request for `cid`, whatever the answer. -/
def isCancelOf (cid : String) (ev : Event engineSig) : Bool :=
  match ev.op with
  | .ext (.cancel _ c) => c = cid
  | _ => false

/-- How a cancel can leave the entry: untouched, PENDING_CANCEL or CANCELLED. -/
def CancelEnd (e e' : Entry) : Prop :=
  e' = e ∨ (e.row.status = .new ∨ e.row.status = .partiallyFilled) ∧
    (e' = Db.withStatus e .pendingCancel ∨ e' = Db.withStatus e .cancelled)

theorem cancelAt_spec (he : db.find cid = some e)
    (hlive : e.row.status = .new ∨ e.row.status = .partiallyFilled) (a : AdapterId)
    (h : List (Event engineSig)) :
    wp (seqSem E) (fun _ _ => True) (Router.cancelAt a cid)
      (outcome
        (fun _ x => db.Put x.1 (Db.withStatus e .cancelled) ∧ ∃ ev ∈ x.2, isCancelOk cid ev = true)
        fun _ x => ∃ e', CancelEnd e e' ∧ db.Put x.1 e') (db, h) := by
  unfold Router.cancelAt
  rw [Prog.bind_eq, wp_bind]
  refine wp_mono (wp_traced (updateStatus_spec he .pendingCancel) h) fun o x hx => ?_
  obtain ⟨db₁, h₁⟩ := x
  cases o with
  | error er =>
    rcases hx with hx | ⟨-, hx⟩
    · exact ⟨e, .inl rfl, hx⟩
    · exact ⟨_, .inr ⟨hlive, .inl rfl⟩, hx⟩
  | ok u =>
    obtain ⟨-, hput₁⟩ := hx
    dsimp only at hput₁
    obtain rfl := Db.find_key he
    rw [outcome_ok, Prog.bind_eq, wp_bind]
    refine wp_perform.mpr ⟨trivial, fun r y hy => ?_⟩
    obtain ⟨db₂, h₂⟩ := y
    obtain ⟨hdb, hh⟩ := hy
    obtain rfl : db₂ = db₁ := (step_ext hdb).1
    cases r with
    | error er => exact ⟨_, .inr ⟨hlive, .inl rfl⟩, hput₁⟩
    | ok ack =>
      rw [outcome_ok]
      split
      · rename_i hok
        have he₁ := hput₁.find_self
        refine wp_mono (wp_and (wp_traced (updateStatus_spec (E := E) he₁ .cancelled) h₂)
          ((uses_updateStatus (P := Placeless) trivial trivial).history (M := sem E) (db₂, h₂))) fun o z hz => ?_
        obtain ⟨hz, t, ht, -⟩ := hz
        cases o with
        | error er =>
          rcases hz with hz | ⟨-, hz⟩
          · exact ⟨_, .inr ⟨hlive, .inl rfl⟩, hput₁.trans hz rfl⟩
          · exact ⟨_, .inr ⟨hlive, .inr rfl⟩, hput₁.trans hz rfl⟩
        | ok u =>
          refine ⟨hput₁.trans hz.2 rfl, ⟨.ext (.cancel a e.row.clientOrderId), .ok ack⟩, ?_, ?_⟩
          · rw [ht]
            dsimp only at hh
            rw [hh]
            simp
          · simp [isCancelOk, hok]
      · exact ⟨_, .inr ⟨hlive, .inl rfl⟩, hput₁⟩

theorem get_spec (he : db.find cid = some e) :
    wp (sem E) (fun _ _ => True) (Router.get cid)
      (outcome (fun res db' => db' = db ∧ res = Router.toResult (resultRow e))
        fun _ db' => db' = db) db := by
  refine wp_readResult (fun _ => rfl) ?_
  rw [fetchOrderResult_of_find he]
  exact ⟨rfl, rfl⟩

/-- A cancel fails before it writes anything, or reads a PENDING_CANCEL order back, or takes a
    resting order to the venue. -/
theorem cancel_branches (R : Router) {x : World} (he : x.1.find cid = some e)
    {Q : Except Exn NormalizedOrderResult → World → Prop}
    (herr : ∀ er y, Later x y → Q (.error er) y)
    (hpending : ∀ y, Later x y → e.row.status = .pendingCancel →
      wp (seqSem E) (fun _ _ => True) (Router.get cid) Q y)
    (hlive : ∀ a y, Later x y → (e.row.status = .new ∨ e.row.status = .partiallyFilled) →
      wp (seqSem E) (fun _ _ => True) (Router.cancelAt a cid)
        (outcome (fun _ z => wp (seqSem E) (fun _ _ => True) (Router.get cid) Q z)
          fun er z => Q (.error er) z) y) :
    wp (seqSem E) (fun _ _ => True) (R.cancel cid) Q x := by
  unfold Router.cancel
  rw [Prog.bind_eq, wp_bind]
  refine wp_perform.mpr ⟨trivial, fun r x₁ hs => ?_⟩
  obtain ⟨hdb, hr⟩ := step_fetchOrder hs.1
  have hx₁ : Later x x₁ := .of_step hs hdb trivial
  cases r with
  | error er => exact herr er x₁ hx₁
  | ok row =>
    obtain rfl := hr row rfl
    rw [outcome_ok, fetchOrder_of_find he]
    dsimp only
    split
    · exact herr _ x₁ hx₁
    · rename_i hterm
      split
      · rename_i hpc
        exact hpending x₁ hx₁ hpc
      · rename_i hnpc
        split
        · exact herr _ x₁ hx₁
        · rename_i hpend
          have hrest : e.row.status = .new ∨ e.row.status = .partiallyFilled := by
            revert hterm hnpc hpend
            cases e.row.status <;> decide
          rw [Prog.bind_eq, wp_bind]
          refine wp_mono (wp_later (uses_lift _) x₁) fun r x₂ hx₂ => ?_
          cases r with
          | error er => exact herr er x₂ (hx₁.trans hx₂)
          | ok a =>
            rw [outcome_ok, Prog.bind_eq, wp_bind]
            refine wp_mono (wp_later (Router.uses_breakerGuard a) x₂) fun r x₃ hx₃ => ?_
            have hx₁₃ := hx₁.trans (hx₂.trans hx₃)
            cases r with
            | error er => exact herr er x₃ hx₁₃
            | ok u =>
              rw [outcome_ok, Prog.bind_eq, wp_bind]
              exact hlive a x₃ hx₁₃ hrest

/-- A cancel that returns found the order PENDING_CANCEL and did nothing, or took it from NEW or
    PARTIALLY_FILLED to CANCELLED behind a confirmed request. -/
theorem cancel_spec (R : Router) (he : db.find cid = some e) (h : List (Event engineSig)) :
    wp (seqSem E) (fun _ _ => True) (R.cancel cid)
      (outcome
        (fun _ x => e.row.status = .pendingCancel ∧ db.Put x.1 e ∨
          (e.row.status = .new ∨ e.row.status = .partiallyFilled) ∧
            db.Put x.1 (Db.withStatus e .cancelled) ∧ ∃ ev ∈ x.2, isCancelOk cid ev = true)
        fun _ x => ∃ e', CancelEnd e e' ∧ db.Put x.1 e') (db, h) := by
  have hself : db.Put db e := .self (by rw [Db.find_key he]; exact he)
  refine cancel_branches (x := (db, h)) R he (fun er y hy => ?_) (fun y hy hpc => ?_)
    fun a y hy hlive => ?_
  · exact ⟨e, .inl rfl, hy.1.symm ▸ hself⟩
  · obtain ⟨db₁, h₁⟩ := y
    obtain rfl : db₁ = db := hy.1
    refine wp_mono (wp_traced (get_spec he) h₁) fun o z hz => ?_
    cases o with
    | error er => exact ⟨e, .inl rfl, hz.symm ▸ hself⟩
    | ok res => exact .inl ⟨hpc, hz.1.symm ▸ hself⟩
  · obtain ⟨db₁, h₁⟩ := y
    obtain rfl : db₁ = db := hy.1
    refine wp_mono (cancelAt_spec he hlive a h₁) fun o z hz => ?_
    obtain ⟨db₂, h₂⟩ := z
    cases o with
    | error er => exact hz
    | ok u =>
      obtain ⟨hput, ev, hev, hok⟩ := hz
      dsimp only at hput hev
      obtain rfl := Db.find_key he
      rw [outcome_ok]
      refine wp_mono (wp_and (wp_traced (get_spec hput.find_self) h₂)
        ((Router.uses_get (P := Placeless) trivial).history (M := sem E) (db₂, h₂)))
        fun o z hz => ?_
      obtain ⟨hz, t, ht, -⟩ := hz
      cases o with
      | error er => exact ⟨_, .inr ⟨hlive, .inr rfl⟩, (show z.1 = db₂ from hz) ▸ hput⟩
      | ok res =>
        refine .inr ⟨hlive, hz.1.symm ▸ hput, ev, ?_, hok⟩
        rw [ht]
        exact List.mem_append_left _ hev

end Cancel

/-! ## Over a store that does not fail -/

section Reliable

variable {allows : Db → (o : ExtOp) → Except Exn o.Res → Prop} {db : Db} {cid : String} {e : Entry}

theorem step_reliable {db' : Db} {o : StoreOp} {r : Except Exn o.Res}
    (h : (sem (.reliable allows)).step db (.store o) r db') : o.Served db r db' := by
  rcases h with h | ⟨hfail, -⟩
  · exact h
  · exact hfail.elim

/-- A legal status update goes through. -/
theorem updateStatus_reliable (he : db.find cid = some e) {s : OrderState}
    (hl : isLegal e.row.status s = true) :
    wp (sem (.reliable allows)) (fun _ _ => True) (updateStatus cid s)
      (fun r db' => r = .ok () ∧ db.Put db' (Db.withStatus e s)) db := by
  obtain rfl := Db.find_key he
  unfold updateStatus
  rw [Prog.bind_eq, wp_bind]
  refine wp_perform.mpr ⟨trivial, fun r db' hs => ?_⟩
  obtain ⟨t, ht⟩ := step_reliable hs
  obtain ⟨rfl, rfl⟩ := Prod.mk.inj ht
  rw [outcome_ok, fetchOrder_of_find he]
  dsimp only
  split
  · rename_i hsame
    refine ⟨rfl, ?_⟩
    rw [withStatus_self hsame]
    exact .self he
  · refine wp_perform.mpr ⟨trivial, fun r db'' hw => ?_⟩
    obtain ⟨t, ht⟩ := step_reliable hw
    have hw : db.writeStatus e.row.clientOrderId s = (.ok (), db.set (Db.withStatus e s)) := by
      simp only [Db.writeStatus, he, hl, if_true]
    change db.writeStatus e.row.clientOrderId s = _ at ht
    rw [hw] at ht
    obtain ⟨rfl, rfl⟩ := Prod.mk.inj ht
    exact ⟨rfl, .of_set (e := Db.withStatus e s) he⟩

theorem get_reliable (he : db.find cid = some e) :
    wp (sem (.reliable allows)) (fun _ _ => True) (Router.get cid)
      (fun r db' => r = .ok (Router.toResult (resultRow e)) ∧ db' = db) db := by
  unfold Router.get
  rw [Prog.bind_eq, wp_bind]
  refine wp_perform.mpr ⟨trivial, fun r db' hs => ?_⟩
  obtain ⟨t, ht⟩ := step_reliable hs
  obtain ⟨rfl, rfl⟩ := Prod.mk.inj ht
  rw [outcome_ok, fetchOrderResult_of_find he]
  exact ⟨rfl, rfl⟩

end Reliable

/-! ## Submit touches one id -/

/-- The columns a submit fixes for good. -/
def OrderRow.terms (r : OrderRow) : OrderRow :=
  { r with status := .pendingNew, brokerOrderId := none, rejectReason := none }

/-- Reads, external operations, and the writes of `cid` that leave its terms alone. -/
def On (cid : String) : EngineOp → Prop
  | .store (.ackOrder c _) => c = cid
  | .store (.writeStatus c _) => c = cid
  | .store (.setRejectReason c _) => c = cid
  | .store (.applyFill c _ _ _ _ _) => c = cid
  | .store (.insertOrder _ _) => False
  | .store (.replaceOrder _ _ _) => False
  | _ => True

/-- What one submit of `o` may perform. -/
def SubmitOp (o : NormalizedOrder) (op : EngineOp) : Prop :=
  On o.clientOrderId op ∨ ∃ sid, op = .store (.insertOrder o sid)

/-- How a submit of `o` can move the store. -/
structure SubmitRel (o : NormalizedOrder) (db db' : Db) : Prop where
  frame : ∀ c, c ≠ o.clientOrderId → db'.find c = db.find c
  keeps : ∀ e, db.find o.clientOrderId = some e →
    ∃ e', db'.find o.clientOrderId = some e' ∧ e'.row.terms = e.row.terms
  fresh : db.find o.clientOrderId = none → ∀ e', db'.find o.clientOrderId = some e' →
    ∃ sid t, e'.row.terms = Db.newRow o.toOrderFields sid t

instance (o : NormalizedOrder) : IsPreorder Db (SubmitRel o) where
  refl db := ⟨fun _ _ => rfl, fun e he => ⟨e, he, rfl⟩, fun hn e' he' => by rw [hn] at he'; cases he'⟩
  trans a b c hab hbc := by
    refine ⟨fun x hx => (hbc.frame x hx).trans (hab.frame x hx), fun e he => ?_, fun hn e' he' => ?_⟩
    · obtain ⟨e₁, he₁, ht₁⟩ := hab.keeps e he
      obtain ⟨e₂, he₂, ht₂⟩ := hbc.keeps e₁ he₁
      exact ⟨e₂, he₂, ht₂.trans ht₁⟩
    · cases hb : b.find o.clientOrderId with
      | none => exact hbc.fresh hb e' he'
      | some e₁ =>
        obtain ⟨sid, t, ht⟩ := hab.fresh hn e₁ hb
        obtain ⟨e₂, he₂, ht₂⟩ := hbc.keeps e₁ hb
        rw [he'] at he₂
        obtain rfl := Option.some.inj he₂
        exact ⟨sid, t, ht₂.trans ht⟩

theorem Change.on {o : StoreOp} {e e' : Entry} {cid : String} (h : Change o e e')
    (hon : On cid (.store o)) : e.row.clientOrderId = cid ∧ e'.row.terms = e.row.terms := by
  cases h with
  | ack => exact ⟨hon, rfl⟩
  | replace => exact hon.elim
  | status => exact ⟨hon, rfl⟩
  | reason => exact ⟨hon, rfl⟩
  | fill => exact ⟨hon, by simp [Db.withStatus, OrderRow.terms]⟩

theorem step_submitRel {E : Env} {db db' : Db} {o : NormalizedOrder} {op : EngineOp}
    {r : Except Exn op.Res} (hop : SubmitOp o op) (h : (sem E).step db op r db') :
    SubmitRel o db db' := by
  have hfind := step_find h
  constructor
  · intro c hc
    rcases hfind c with heq | ⟨ord, sid, t, e, hins, hcid, -⟩ | ⟨so, e, e', hso, hch, hcid, -⟩
    · exact heq
    · rcases hop with hop | ⟨sid', hop⟩
      · rw [hins] at hop
        exact hop.elim
      · rw [hins] at hop
        cases hop
        exact absurd hcid.symm hc
    · rcases hop with hop | ⟨sid', hop⟩
      · rw [hso] at hop
        exact absurd (hcid ▸ (hch.on hop).1) hc
      · rw [hso] at hop
        cases hop
        cases hch
  · intro e he
    rcases hfind o.clientOrderId with heq | ⟨_, _, _, _, _, _, hnone, _⟩ |
      ⟨so, e₁, e', hso, hch, -, he₁, he'⟩
    · exact ⟨e, heq.trans he, rfl⟩
    · rw [hnone] at he
      cases he
    · rw [he] at he₁
      obtain rfl := Option.some.inj he₁
      rcases hop with hop | ⟨sid', hop⟩
      · rw [hso] at hop
        exact ⟨e', he', (hch.on hop).2⟩
      · rw [hso] at hop
        cases hop
        cases hch
  · intro hn e' he'
    rcases hfind o.clientOrderId with heq | ⟨ord, sid, t, e, hins, hcid, -, hrow, -, hfe⟩ |
      ⟨so, e₁, e₂, hso, hch, -, he₁, -⟩
    · rw [heq, hn] at he'
      cases he'
    · rw [hfe] at he'
      obtain rfl := Option.some.inj he'
      rcases hop with hop | ⟨sid', hop⟩
      · rw [hins] at hop
        exact hop.elim
      · rw [hins] at hop
        cases hop
        exact ⟨sid, t, by rw [hrow]; rfl⟩
    · rw [hn] at he₁
      cases he₁

theorem Probe.on {op : EngineOp} (h : Probe op) (cid : String) : On cid op := by
  rcases op with o | o <;> cases o <;> first | exact h.elim | trivial

theorem on_updateStatus (cid : String) (s : OrderState) : Uses (On cid) (updateStatus cid s) :=
  uses_updateStatus trivial rfl

namespace Reconcile

theorem on_attempt (a : ReconcileAction) : Uses (On a.cid) (attempt a) := by
  refine (performs_attempt a).mono fun op h => ?_
  cases h <;> first | exact rfl | trivial

theorem on_attempts {actions : List ReconcileAction} {cid : String}
    (h : ∀ a ∈ actions, a.cid = cid) : Uses (On cid) (sumOver attempt actions) :=
  uses_sumOver fun a ha => h a ha ▸ on_attempt a

variable {ι : Type} [VenueItem ι]

theorem venueTerminalActions_cid (row : OrderRow) (item : ι) :
    ∀ a ∈ venueTerminalActions row item, a.cid = row.clientOrderId := by
  unfold venueTerminalActions
  split
  · simp [ReconcileAction.cid]
  · simp [ReconcileAction.cid]
  · split <;> simp [ReconcileAction.cid]
  · simp

theorem fillActions_cid (row : OrderRow) (filled : Int) (item : ι) :
    ∀ a ∈ fillActions row filled item, a.cid = row.clientOrderId := by
  unfold fillActions
  split
  · split <;> simp [ReconcileAction.cid]
  · simp

/-- A plan is about its own row. -/
theorem planActions_cid (row : OrderRow) (filled : Int) (item : Option ι) (now : Time)
    (ambiguous : Bool) :
    ∀ a ∈ planActions row filled item now ambiguous, a.cid = row.clientOrderId := by
  unfold planActions
  cases item with
  | none =>
    dsimp only
    unfold planAbsent
    repeat' split
    all_goals simp [ReconcileAction.cid]
  | some item =>
    dsimp only
    unfold planPresent
    split
    · exact venueTerminalActions_cid row item
    · split
      · split <;> simp [ReconcileAction.cid]
      · intro a ha
        rcases List.mem_append.mp ha with ha | ha
        · rcases List.mem_append.mp ha with ha | ha
          · split at ha
            · rw [List.mem_singleton.mp ha]; rfl
            · cases ha
          · exact fillActions_cid row filled item a ha
        · split at ha
          · exact venueTerminalActions_cid row item a ha
          · cases ha

theorem on_runPlan (row : OrderRow) (filled : Int) (item : Option ι) (now : Time)
    (ambiguous : Bool) :
    Uses (On row.clientOrderId) (runPlan (plan row filled item now ambiguous)) :=
  runPlan_cases (fun _ _ => trivial) fun _ => on_attempts (planActions_cid row filled item now _)

end Reconcile

theorem on_applyRow {ι : Type} [ReconcilerVenue ι] (row : OrderRow) (items : List ι)
    (claimed : List String) (now : Time) (requireStuck : Bool) :
    Uses (On row.clientOrderId) (Reconcile.applyRow row items claimed now requireStuck) :=
  (uses_lift _).bind fun _ => (uses_store trivial).bind fun _ =>
    (Reconcile.on_runPlan row _ _ now _).bind fun _ => trivial

section Submit

variable {E : Env} {o : NormalizedOrder}

theorem moves_on {α : Type} {p : Eff α} (h : Uses (On o.clientOrderId) p) :
    Moves (sem E) (SubmitRel o) p :=
  h.moves fun _ _ _ _ hop hs => step_submitRel (.inl hop) hs

theorem moves_probe {α : Type} {p : Eff α} (h : Uses Probe p) : Moves (sem E) (SubmitRel o) p :=
  moves_on (h.mono fun _ hop => hop.on _)

theorem resolveOrderNow_moves :
    Moves (sem E) (SubmitRel o) (Liberator.resolveOrderNow o.clientOrderId) := by
  intro db
  unfold Liberator.resolveOrderNow
  rw [Prog.bind_eq, wp_bind]
  refine wp_perform.mpr ⟨trivial, fun r db' hs => ?_⟩
  obtain ⟨rfl, hr⟩ := step_fetchOrder hs
  cases r with
  | error x => exact refl_of (SubmitRel o) db'
  | ok row =>
    obtain rfl := hr row rfl
    rw [outcome_ok]
    -- the burst works on the row it read, which is the row of this id
    cases hf : db'.find o.clientOrderId with
    | none =>
      rw [Db.fetchOrder, hf]
      exact refl_of (SubmitRel o) db'
    | some e =>
      rw [fetchOrder_of_find hf]
      have hcid := Db.find_key hf
      refine moves_on (p := _) ?_ db'
      dsimp only
      split
      · trivial
      · refine (uses_store trivial).bind fun _ => (uses_ext trivial).bind fun _ => ?_
        refine (uses_ext trivial).bind fun _ => ?_
        exact (hcid ▸ on_applyRow e.row _ _ _ _).bind fun _ => (uses_store trivial).bind
          fun _ => trivial

/-- Handle recovery keeps what each attempt keeps. -/
theorem wp_recoverHandle {I : Db → Prop} {resolve : Eff Bool}
    (h : ∀ db, I db → wp (sem E) (fun _ _ => True) resolve (fun _ db' => I db') db)
    (submittedAt cadence deadline : Time) (minPolls : Int) (fuel : Nat) (attempts : Int)
    (readOk : Bool) {db : Db} (hI : I db) :
    wp (sem E) (fun _ _ => True) (HandleRecovery.recoverHandle resolve submittedAt cadence deadline
      minPolls fuel attempts readOk) (fun _ db' => I db') db := by
  induction fuel generalizing attempts readOk db with
  | zero => trivial
  | succ fuel ih =>
    unfold HandleRecovery.recoverHandle HandleRecovery.poll
    rw [Prog.bind_eq, wp_bind, wp_tryExcept, wp_bind]
    refine wp_mono (h db hI) fun r db₁ h₁ => ?_
    -- an attempt that raises is an answer too
    suffices hrest : ∀ answer : Option Bool, wp (sem E) (fun _ _ => True)
        (if answer = some true then Prog.ret HandleResolution.confirmed else do
          let now ← Eff.ext .now
          if minPolls ≤ attempts + 1 && deadline < HandleRecovery.elapsed now submittedAt + cadence
          then .ret (if readOk || answer.isSome then .pending else .unknown)
          else do
            Eff.ext (.sleep cadence)
            HandleRecovery.recoverHandle resolve submittedAt cadence deadline minPolls fuel
              (attempts + 1) (readOk || answer.isSome))
        (fun _ db' => I db') db₁ by
      cases r with
      | error er => exact hrest none
      | ok b => exact hrest (some b)
    intro answer
    split
    · exact h₁
    · rw [Prog.bind_eq, wp_bind]
      refine wp_perform.mpr ⟨trivial, fun r db₂ hs => ?_⟩
      obtain rfl := (step_ext hs).1
      cases r with
      | error er => exact h₁
      | ok now =>
        rw [outcome_ok]
        split
        · exact h₁
        · rw [Prog.bind_eq, wp_bind]
          refine wp_perform.mpr ⟨trivial, fun r db₃ hs => ?_⟩
          obtain rfl := (step_ext hs).1
          cases r with
          | error er => exact h₁
          | ok u => exact ih _ _ h₁

theorem placeAndSettle_moves (R : Router) (fuel : Nat) (a : AdapterId) :
    Moves (sem E) (SubmitRel o) (R.placeAndSettle fuel a o) := by
  unfold Router.placeAndSettle
  refine Moves.bind (moves_on (uses_ext trivial)) fun ack => ?_
  split
  · exact moves_on (Uses.bind (on_updateStatus _ _) fun _ => Uses.bind (uses_store rfl)
      fun _ => trivial)
  · split
    · unfold Router.recoverHandle
      split
      · refine Moves.bind (moves_on (uses_store trivial)) fun row => Moves.bind ?_ fun start => ?_
        · cases row with
          | none => exact moves_probe (uses_ext trivial)
          | some row => exact moves_ret _
        · exact fun db => wp_recoverHandle (I := SubmitRel o db)
            (fun _ h => resolveOrderNow_moves.after h) _ _ _ _ _ _ _ (refl_of (SubmitRel o) db)
      · exact moves_ret _
    · refine moves_on ?_
      unfold Router.settle
      refine Uses.bind (uses_store rfl) fun _ => Uses.bind (uses_forEach fun f => ?_) fun _ => ?_
      · exact Uses.bind (uses_store rfl) fun _ => trivial
      · split
        · exact (on_updateStatus _ _).bind fun _ => (uses_ext trivial).bind fun _ =>
            (on_updateStatus _ _).bind fun _ => trivial
        · trivial

theorem insertFresh_moves (sid : Option String) :
    Moves (sem E) (SubmitRel o) (Router.insertFresh o sid) := by
  refine Moves.tryExcept (Moves.bind (moves_perform fun s r s' hs => ?_) fun _ => moves_ret _)
    fun e => ?_
  · exact step_submitRel (.inr ⟨sid, rfl⟩) hs
  · split
    · exact moves_ret _
    · exact moves_raise _

/-- `insertFresh` says yes only behind an insert of its own. -/
theorem insertFresh_ok (sid : Option String) (db : Db) :
    wp (sem E) (fun _ _ => True) (Router.insertFresh o sid) (fun r db' => r = .ok true →
      ∃ t e, db'.find o.clientOrderId = some e ∧ e.fills = [] ∧
        e.row = Db.newRow o.toOrderFields sid t) db := by
  unfold Router.insertFresh
  rw [wp_tryExcept, wp_bind]
  refine wp_perform.mpr ⟨trivial, fun r db₁ hs => ?_⟩
  cases r with
  | ok u => exact fun _ => (step_insert_ok hs).2
  | error er =>
    rw [outcome_error, outcome_error]
    split
    · exact fun h => nomatch h
    · exact fun h => nomatch h

/-- A submit moves only its own id. -/
theorem submit_moves (R : Router) (fuel : Nat) (sid : Option String) :
    Moves (sem E) (SubmitRel o) (R.submit fuel o sid) := by
  unfold Router.submit
  refine (moves_probe R.uses_assertDisengaged).bind fun _ => ?_
  refine Moves.bind (moves_on (uses_store trivial)) fun existing => ?_
  split
  · exact moves_ret _
  · refine (moves_probe (R.uses_gates o)).bind fun a => Moves.bind ?_ fun done => ?_
    · refine (moves_probe (R.uses_acquireLock _)).bind fun acquired => ?_
      refine Moves.tryFinally ?_ (moves_probe (R.uses_releaseLock _ _))
      unfold Router.submitLocked
      split
      · refine (insertFresh_moves sid).bind fun fresh => ?_
        split
        · exact (placeAndSettle_moves R fuel a).bind fun _ => moves_ret _
        · refine moves_on (Uses.bind (uses_store trivial) fun row => ?_)
          split <;> trivial
      · exact (moves_on (Router.uses_awaitConcurrent trivial trivial _)).bind fun _ => moves_ret _
    · cases done with
      | inl outcome => exact moves_ret _
      | inr resolution =>
        refine moves_on (Uses.bind (uses_store trivial) fun row => ?_)
        split <;> trivial

/-! ## What a submit returns -/

/-- The outcome shows the order as the store holds it. -/
def Shows (cid : String) (out : SubmitOutcome) (db : Db) : Prop :=
  ∃ e, db.find cid = some e ∧ out.result = Router.toResult (resultRow e)

theorem shows_of_read {cid : String} {db : Db} {r : OrderResultRow} {dup : Bool}
    {resolution : HandleResolution} (h : db.fetchOrderResult cid = some r) :
    Shows cid ⟨Router.toResult r, dup, resolution⟩ db := by
  obtain ⟨e, he, rfl⟩ := fetchOrderResult_some h
  exact ⟨e, he, rfl⟩

theorem awaitConcurrent_returns (cid : String) (n : Nat) (db : Db) :
    wp (sem E) (fun _ _ => True) (Router.awaitConcurrent cid n)
      (outcome (Shows cid) fun _ _ => True) db := by
  induction n generalizing db with
  | zero =>
    refine wp_readResult (fun _ => trivial) ?_
    cases hr : db.fetchOrderResult cid with
    | none => trivial
    | some row => exact shows_of_read hr
  | succ n ih =>
    refine wp_readResult (fun _ => trivial) ?_
    cases hr : db.fetchOrderResult cid with
    | none =>
      dsimp only
      rw [Prog.bind_eq, wp_bind]
      refine wp_perform.mpr ⟨trivial, fun r db' _ => ?_⟩
      cases r with
      | error x => trivial
      | ok u => exact ih db'
    | some row => exact shows_of_read hr

theorem submitLocked_returns (R : Router) (fuel : Nat) (a : AdapterId) (sid : Option String)
    (acquired : Bool) (db : Db) :
    wp (sem E) (fun _ _ => True) (R.submitLocked fuel a o sid acquired)
      (outcome (fun done db' => ∀ out, done = .inl out → Shows o.clientOrderId out db')
        fun _ _ => True) db := by
  unfold Router.submitLocked
  split
  · rw [Prog.bind_eq, wp_bind]
    refine wp_mono (insertFresh_moves sid db) fun x db₁ _ => ?_
    cases x with
    | error x => trivial
    | ok fresh =>
      rw [outcome_ok]
      split
      · rw [Prog.bind_eq, wp_bind]
        refine wp_mono (placeAndSettle_moves R fuel a db₁) fun x db₂ _ => ?_
        cases x with
        | error x => trivial
        | ok resolution => exact fun out hout => nomatch hout
      · refine wp_readResult (fun _ => trivial) ?_
        cases hr : db₁.fetchOrderResult o.clientOrderId with
        | none => trivial
        | some row =>
          intro out hout
          obtain rfl := Sum.inl.inj hout
          exact shows_of_read hr
  · rw [Prog.bind_eq, wp_bind]
    refine wp_mono (awaitConcurrent_returns _ _ db) fun x db₁ hx => ?_
    cases x with
    | error x => trivial
    | ok outc =>
      intro out hout
      obtain rfl := Sum.inl.inj hout
      exact hx

theorem singleFlight_returns (R : Router) (fuel : Nat) (a : AdapterId) (sid : Option String)
    (key : String) (db : Db) :
    wp (sem E) (fun _ _ => True) (R.singleFlight key (R.submitLocked fuel a o sid))
      (outcome (fun done db' => ∀ out, done = .inl out → Shows o.clientOrderId out db')
        fun _ _ => True) db := by
  unfold Router.singleFlight
  refine wp_probe_bind (R.uses_acquireLock key) (fun _ => trivial) fun acquired => ?_
  rw [wp_tryFinally]
  refine wp_mono (submitLocked_returns R fuel a sid acquired db) fun x db₂ hx => ?_
  refine wp_mono (wp_probe (R.uses_releaseLock key acquired) db₂) fun y db₃ hy => ?_
  obtain rfl : db₃ = db₂ := hy
  cases y with
  | error y => trivial
  | ok u => exact hx

/-- A submit that returns shows the order as the store then holds it. -/
theorem submit_returns (R : Router) (fuel : Nat) (sid : Option String) (db : Db) :
    wp (sem E) (fun _ _ => True) (R.submit fuel o sid)
      (outcome (Shows o.clientOrderId) fun _ _ => True) db := by
  unfold Router.submit
  refine wp_probe_bind R.uses_assertDisengaged (fun _ => trivial) fun _ => ?_
  refine wp_readResult (fun _ => trivial) ?_
  cases hr : db.fetchOrderResult o.clientOrderId with
  | some row => exact shows_of_read hr
  | none =>
    dsimp only
    refine wp_probe_bind (R.uses_gates o) (fun _ => trivial) fun a => ?_
    rw [Prog.bind_eq, wp_bind]
    refine wp_mono (singleFlight_returns R fuel a sid _ db) fun x db₃ hx => ?_
    cases x with
    | error x => trivial
    | ok done =>
      rw [outcome_ok]
      cases done with
      | inl out => exact hx out rfl
      | inr resolution =>
        refine wp_readResult (fun _ => trivial) ?_
        cases hr : db₃.fetchOrderResult o.clientOrderId with
        | none => trivial
        | some row => exact shows_of_read hr

/-- Under an id that is taken, a submit changes nothing. -/
theorem submit_existing (R : Router) (fuel : Nat) (sid : Option String) {db : Db} {e : Entry}
    (he : db.find o.clientOrderId = some e) :
    wp (sem E) (fun _ _ => True) (R.submit fuel o sid) (fun _ db' => db' = db) db := by
  unfold Router.submit
  refine wp_probe_bind R.uses_assertDisengaged (fun _ => rfl) fun _ => ?_
  refine wp_readResult (fun _ => rfl) ?_
  rw [fetchOrderResult_of_find he]
  rfl

end Submit

/-! ## The checks of a native amend -/

/-- A total that passes is above what has been filled. -/
theorem assertAmendQuantities_ok {row : OrderRow} {q : Option Int} {filled : Int} {u : Unit}
    (h : Router.assertAmendQuantities row q filled = .ok u) : ∀ n, q = some n → filled < n := by
  rintro n rfl
  unfold Router.assertAmendQuantities at h
  dsimp only at h
  split at h
  · cases h
  · rename_i hle
    exact not_le.mp hle

/-- A native amend fails before it writes anything, or goes to the venue with a live order and a
    total above its fills. -/
theorem amendNative_rule {E : Env} {R : Router} {db : Db} {cid : String} {e : Entry}
    {newCid : Option String} {p : Option Decimal} {q : Option Int}
    {Q : Except Exn SubmitOutcome → Db → Prop} (he : db.find cid = some e)
    (herr : ∀ er, Q (.error er) db)
    (hgo : newCid = none → (e.row.status = .new ∨ e.row.status = .partiallyFilled) →
      (∀ n, q = some n → e.filled < n) → ∀ a,
        wp (sem E) (fun _ _ => True) (Router.amendAt a cid p q e.filled) Q db) :
    wp (sem E) (fun _ _ => True) (R.amendNative e.row newCid p q) Q db := by
  obtain rfl := Db.find_key he
  unfold Router.amendNative
  dsimp only
  split
  · exact herr _
  · rename_i hnew
    split
    · exact herr _
    · rename_i hst
      have hlive : e.row.status = .new ∨ e.row.status = .partiallyFilled := by
        simpa using not_not.mp hst
      refine wp_readResult herr ?_
      rw [fetchOrderResult_of_find he]
      dsimp only
      generalize Router.amendedOrder e.row e.row.clientOrderId p q = built
      cases hq : Router.assertAmendQuantities e.row q (resultRow e).filledQty with
      | error er => exact herr er
      | ok u =>
        have hlt := assertAmendQuantities_ok hq
        refine wp_probe_bind (uses_lift (.ok u)) herr fun _ => ?_
        refine wp_probe_bind (uses_lift built) herr fun amended => ?_
        refine wp_probe_bind (R.uses_riskCheck amended) herr fun _ => ?_
        refine wp_probe_bind (uses_lift _) herr fun a => ?_
        refine wp_probe_bind (Router.uses_breakerGuard a) herr fun _ => ?_
        exact hgo (Option.not_isSome_iff_eq_none.mp hnew) hlive hlt a

end ExecutionEngine
