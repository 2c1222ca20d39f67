/-
  What a mass cancel accounts for.

  The sweep takes the open orders one by one and reports each as cancelled or as
  failed. `sweepOne_spec` lists how one order can end: CANCELLED behind a confirmed
  request, as it was, or PENDING_CANCEL; `sweep_spec` puts the orders of a listing
  together. `mass_cancel_accounts` is about any store, any adapter and any store
  calls that fail, as long as one that fails changes nothing (`atomicSem`).
-/
import ExecutionEngine.Core.Acceptance
import ExecutionEngine.Core.Plans

namespace ExecutionEngine

open Async Async.Prog StateMachine

namespace MassCancel

/-! ## Store calls that fail and change nothing -/

variable {allows : Db → (o : ExtOp) → Except Exn o.Res → Prop}

/-- The operations over a store whose failing calls leave it alone. -/
def atomicSem (allows : Db → (o : ExtOp) → Except Exn o.Res → Prop) : Sem engineSig Db where
  step db op := match op with
    | .store o => fun r db' => o.Served db r db' ∨ (∃ e, r = .error e) ∧ db' = db
    | .ext o => fun r db' => db' = db ∧ allows db o r

/-- They are among the behaviours of a store that may fail. -/
theorem sem_of_atomic {db db' : Db} {op : EngineOp} {r : Except Exn op.Res}
    (h : (atomicSem allows).step db op r db') : (sem ⟨True, allows⟩).step db op r db' := by
  cases op with
  | ext o => exact h
  | store o =>
    obtain h | ⟨⟨e, he⟩, hdb⟩ := h
    · exact .inl h
    · exact .inr ⟨trivial, e, he, .inl hdb⟩

theorem atomic_of_reliable {db db' : Db} {op : EngineOp} {r : Except Exn op.Res}
    (h : (sem (.reliable allows)).step db op r db') : (atomicSem allows).step db op r db' := by
  cases op with
  | ext o => exact h
  | store o => exact .inl (step_reliable h)

/-- A legal status update goes through, or raises and changes nothing. -/
theorem updateStatus_atomic {db : Db} {e : Entry} {s : OrderState}
    (he : db.find e.row.clientOrderId = some e) (hl : isLegal e.row.status s = true) :
    wp (atomicSem allows) (fun _ _ => True) (updateStatus e.row.clientOrderId s)
      (outcome (fun _ db' => db.Put db' (Db.withStatus e s)) fun _ db' => db' = db) db := by
  unfold updateStatus
  rw [Prog.bind_eq, wp_bind]
  refine wp_perform.mpr ⟨trivial, fun r db' hs => ?_⟩
  obtain ⟨rfl, hread⟩ := step_fetchOrder (sem_of_atomic hs)
  cases r with
  | error er => rfl
  | ok row =>
    obtain rfl := hread row rfl
    rw [outcome_ok, fetchOrder_of_find he]
    dsimp only
    split
    · rename_i hsame
      rw [withStatus_self hsame]
      exact Db.Put.self he
    · refine wp_perform.mpr ⟨trivial, fun r db'' hw => ?_⟩
      have hwrite : db'.writeStatus e.row.clientOrderId s = (.ok (), db'.set (Db.withStatus e s)) := by
        simp only [Db.writeStatus, he, hl, if_true]
      obtain ⟨t, ht⟩ | ⟨⟨er, rfl⟩, rfl⟩ := hw
      · change db'.writeStatus e.row.clientOrderId s = _ at ht
        rw [hwrite] at ht
        obtain ⟨rfl, rfl⟩ := Prod.mk.inj ht
        exact Db.Put.of_set (e := Db.withStatus e s) he
      · rfl

/-! ## One order -/

/-- How the sweep can leave an order, and what it reports. -/
inductive SweptOne (e : Entry) (db db' : Db) (t : History) : Bool → Prop where
  | cancelled (hok : ∃ ev ∈ t, isCancelOk e.row.clientOrderId ev = true)
      (hput : db.Put db' (Db.withStatus e .cancelled)) : SweptOne e db db' t true
  | untouched (hput : db.Put db' e) : SweptOne e db db' t false
  | waiting (hput : db.Put db' (Db.withStatus e .pendingCancel)) : SweptOne e db db' t false

section One

variable {R : Router} {x : World} {e : Entry}

/-- An open order ends CANCELLED behind a confirmed request, or is reported as failed. -/
theorem sweepOne_spec (he : x.1.find e.row.clientOrderId = some e)
    (hlive : Reconcile.Resting e.row.status) :
    wp (atomicSem allows).traced (fun _ _ => True) (R.sweepOne e.row)
      (outcome (fun b y => ∃ t, y.2 = x.2 ++ t ∧ SweptOne e x.1 y.1 t b) fun _ _ => False) x := by
  unfold Router.sweepOne
  rw [wp_tryExcept]
  cases ha : R.resolveAdapter e.row.broker e.row.account with
  | error er => exact ⟨[], by simp, .untouched (.self he)⟩
  | ok a =>
    have hl : isLegal e.row.status .pendingCancel = true := by
      rcases hlive with hs | hs <;> rw [hs] <;> decide
    rw [Eff.lift, Prog.bind_eq, Prog.bind, Prog.bind_eq, wp_bind]
    refine wp_mono (wp_and (wp_traced (updateStatus_atomic he hl) x.2)
      ((uses_univ _).history x)) fun r y hy => ?_
    obtain ⟨hy, t₁, ht₁, -⟩ := hy
    cases r with
    | error er =>
      have hdb : y.1 = x.1 := hy
      exact ⟨t₁, ht₁, .untouched (by rw [hdb]; exact .self he)⟩
    | ok u =>
      have hput : x.1.Put y.1 (Db.withStatus e .pendingCancel) := hy
      rw [outcome_ok, Prog.bind_eq, wp_bind]
      refine wp_perform.mpr ⟨trivial, fun r z hz => ?_⟩
      obtain ⟨⟨hdb, -⟩, hev⟩ := hz
      have hz₂ : z.2 = x.2 ++ (t₁ ++ [⟨.ext (.cancel a e.row.clientOrderId), r⟩]) := by
        rw [hev, ht₁, List.append_assoc]
      have hputz : x.1.Put z.1 (Db.withStatus e .pendingCancel) := hdb ▸ hput
      cases r with
      | error er => exact ⟨_, hz₂, .waiting hputz⟩
      | ok ack =>
        rw [outcome_ok]
        split
        · rename_i hok
          have hez : z.1.find e.row.clientOrderId = some (Db.withStatus e .pendingCancel) :=
            hputz.find_self
          rw [Prog.bind_eq, wp_bind]
          refine wp_mono (wp_and (wp_traced
            (updateStatus_atomic (e := Db.withStatus e .pendingCancel) hez rfl) z.2)
            ((uses_univ _).history z)) fun r w hw => ?_
          obtain ⟨hw, t₂, ht₂, -⟩ := hw
          have hw₂ := ht₂.trans (congrArg (· ++ t₂) hz₂)
          rw [List.append_assoc] at hw₂
          cases r with
          | error er =>
            have hdb' : w.1 = z.1 := hw
            exact ⟨_, hw₂, .waiting (hdb' ▸ hputz)⟩
          | ok u' =>
            refine ⟨_, hw₂, .cancelled ⟨⟨.ext (.cancel a e.row.clientOrderId), .ok ack⟩, by simp, ?_⟩
              (hputz.trans hw rfl)⟩
            simp [isCancelOk, hok]
        · exact ⟨_, hz₂, .waiting hputz⟩

end One

/-! ## A listing of them -/

/-- What a sweep of `rows` has reported and done. -/
structure Swept (rows : List OrderRow) (db db' : Db) (t : History)
    (cancelled failed : List String) : Prop where
  perm : (cancelled ++ failed).Perm (rows.map OrderRow.clientOrderId)
  done : ∀ cid ∈ cancelled, (∃ ev ∈ t, isCancelOk cid ev = true) ∧
    ∃ e, db.find cid = some e ∧ db'.find cid = some (Db.withStatus e .cancelled)
  kept : ∀ cid ∈ failed, ∃ e, db.find cid = some e ∧
    (db'.find cid = some e ∨ db'.find cid = some (Db.withStatus e .pendingCancel))
  others : ∀ cid, cid ∉ rows.map OrderRow.clientOrderId → db'.find cid = db.find cid

theorem SweptOne.find_ne {e : Entry} {db db' : Db} {t : History} {b : Bool}
    (h : SweptOne e db db' t b) {cid : String} (hne : cid ≠ e.row.clientOrderId) :
    db'.find cid = db.find cid := by
  cases h with
  | cancelled _ hput | untouched hput | waiting hput => exact hput.find_ne hne

/-- One more order in front. -/
theorem Swept.cons {e : Entry} {rows : List OrderRow} {db db₁ db' : Db} {t t' : History} {b : Bool}
    {cancelled failed : List String} (he : db.find e.row.clientOrderId = some e)
    (hnew : e.row.clientOrderId ∉ rows.map OrderRow.clientOrderId)
    (hone : SweptOne e db db₁ t b) (h : Swept rows db₁ db' t' cancelled failed) :
    Swept (e.row :: rows) db db' (t ++ t')
      (if b then e.row.clientOrderId :: cancelled else cancelled)
      (if b then failed else e.row.clientOrderId :: failed) := by
  have hlisted : ∀ cid ∈ cancelled ++ failed, cid ≠ e.row.clientOrderId := by
    rintro cid hcid rfl
    exact hnew (h.perm.mem_iff.mp hcid)
  have hcancelled : ∀ cid ∈ cancelled, (∃ ev ∈ t ++ t', isCancelOk cid ev = true) ∧
      ∃ e', db.find cid = some e' ∧ db'.find cid = some (Db.withStatus e' .cancelled) := by
    intro cid hcid
    obtain ⟨⟨ev, hev, hok⟩, e', he', hend⟩ := h.done cid hcid
    rw [hone.find_ne (hlisted cid (List.mem_append_left _ hcid))] at he'
    exact ⟨⟨ev, List.mem_append_right _ hev, hok⟩, e', he', hend⟩
  have hfailed : ∀ cid ∈ failed, ∃ e', db.find cid = some e' ∧
      (db'.find cid = some e' ∨ db'.find cid = some (Db.withStatus e' .pendingCancel)) := by
    intro cid hcid
    obtain ⟨e', he', hend⟩ := h.kept cid hcid
    rw [hone.find_ne (hlisted cid (List.mem_append_right _ hcid))] at he'
    exact ⟨e', he', hend⟩
  have hothers : ∀ cid, cid ∉ (e.row :: rows).map OrderRow.clientOrderId →
      db'.find cid = db.find cid := by
    intro cid hcid
    rw [List.map_cons, List.mem_cons, not_or] at hcid
    exact (h.others cid hcid.2).trans (hone.find_ne hcid.1)
  -- the rest of the sweep leaves this order alone
  have hself : db'.find e.row.clientOrderId = db₁.find e.row.clientOrderId :=
    h.others _ hnew
  cases hone with
  | cancelled hok hput =>
    obtain ⟨ev, hev, hok⟩ := hok
    refine ⟨h.perm.cons _, ?_, hfailed, hothers⟩
    intro cid hcid
    obtain rfl | hcid := List.mem_cons.mp hcid
    · exact ⟨⟨ev, List.mem_append_left _ hev, hok⟩, e, he, hself.trans hput.find_self⟩
    · exact hcancelled cid hcid
  | untouched hput =>
    refine ⟨List.perm_middle.trans (h.perm.cons _), hcancelled, ?_, hothers⟩
    intro cid hcid
    obtain rfl | hcid := List.mem_cons.mp hcid
    · exact ⟨e, he, .inl (hself.trans hput.find_self)⟩
    · exact hfailed cid hcid
  | waiting hput =>
    refine ⟨List.perm_middle.trans (h.perm.cons _), hcancelled, ?_, hothers⟩
    intro cid hcid
    obtain rfl | hcid := List.mem_cons.mp hcid
    · exact ⟨e, he, .inr (hself.trans hput.find_self)⟩
    · exact hfailed cid hcid

/-- The sweep of a list of open orders, each in it once. -/
theorem sweep_spec {R : Router} {rows : List OrderRow} {x : World}
    (hnodup : (rows.map OrderRow.clientOrderId).Nodup)
    (hopen : ∀ row ∈ rows, Reconcile.Resting row.status ∧
      ∃ e, x.1.find row.clientOrderId = some e ∧ e.row = row) :
    wp (atomicSem allows).traced (fun _ _ => True) (R.sweep rows)
      (outcome (fun lists y => ∃ t, y.2 = x.2 ++ t ∧ Swept rows x.1 y.1 t lists.1 lists.2)
        fun _ _ => False) x := by
  induction rows generalizing x with
  | nil =>
    refine ⟨[], (List.append_nil _).symm, List.Perm.refl [], ?_, ?_, fun _ _ => rfl⟩
    · intro cid hcid
      cases hcid
    · intro cid hcid
      cases hcid
  | cons row rows ih =>
    obtain ⟨hnew, hnodup'⟩ := List.nodup_cons.mp hnodup
    obtain ⟨hlive, e, he, rfl⟩ := hopen row List.mem_cons_self
    unfold Router.sweep
    rw [Prog.bind_eq]
    refine wp_seq_ok (sweepOne_spec he hlive) ?_
    rintro b y ⟨t, ht, hone⟩
    have hrest : ∀ row' ∈ rows, Reconcile.Resting row'.status ∧
        ∃ e', y.1.find row'.clientOrderId = some e' ∧ e'.row = row' := by
      intro row' hrow'
      obtain ⟨hlive', e', he', hr⟩ := hopen row' (List.mem_cons_of_mem _ hrow')
      have hne : row'.clientOrderId ≠ e.row.clientOrderId := by
        intro heq
        exact hnew (heq ▸ List.mem_map_of_mem hrow')
      exact ⟨hlive', e', (hone.find_ne hne).trans he', hr⟩
    rw [Prog.bind_eq]
    refine wp_seq_ok (ih hnodup' hrest) ?_
    rintro ⟨cancelled, failed⟩ z ⟨t', ht', hswept⟩
    refine ⟨t ++ t', by rw [ht', ht, List.append_assoc], ?_⟩
    have hcons := hswept.cons he hnew hone
    cases b <;> exact hcons

/-! ## The whole sweep -/

theorem mem_openOrders {db : Db} {rows : List OrderRow} (h : IsListing rows db.fetchOpenOrders)
    {row : OrderRow} : row ∈ rows ↔ Reconcile.Resting row.status ∧
      ∃ e, db.find row.clientOrderId = some e ∧ e.row = row := by
  rw [h.1.mem_iff, Db.fetchOpenOrders, Db.byCreatedAt, List.mem_insertionSort, List.mem_filter]
  have hstatus : decide (row.status ∈ [OrderState.new, .partiallyFilled]) = true ↔
      Reconcile.Resting row.status := by
    simp [Reconcile.Resting]
  rw [hstatus, and_comm]
  refine and_congr_right fun _ => ?_
  constructor
  · intro hmem
    obtain ⟨e, he, rfl⟩ := List.mem_map.mp hmem
    exact ⟨e, Db.find_of_mem he, rfl⟩
  · rintro ⟨e, he, hrow⟩
    exact List.mem_map.mpr ⟨e, Db.mem_of_find he, hrow⟩

theorem openOrders_nodup {db : Db} {rows : List OrderRow} (h : IsListing rows db.fetchOpenOrders) :
    (rows.map OrderRow.clientOrderId).Nodup := by
  have hperm : rows.Perm (db.rows.filter fun r => r.status ∈ [OrderState.new, .partiallyFilled]) :=
    h.1.trans (List.perm_insertionSort _ _)
  refine (hperm.map _).nodup_iff.mpr ?_
  refine List.Nodup.sublist (List.Sublist.map _ List.filter_sublist) ?_
  rw [Db.rows, List.map_map]
  exact db.pk

theorem stalls_massCancel {R : Router} {φ : History → Prop} {h : History} :
    Stalls φ R.massCancel h := by
  have hsweep : ∀ (rows : List OrderRow) (h : History), Stalls φ (R.sweep rows) h := by
    intro rows
    induction rows with
    | nil => exact fun _ => trivial
    | cons row rows ih =>
      intro h
      refine Stalls.bind (Stalls.tryExcept ?_ fun _ _ => trivial) fun ok t =>
        (ih (h ++ t)).bind fun _ _ => trivial
      refine (stalls_lift _).bind fun a _ => (stalls_updateStatus _ _).bind fun _ _ =>
        (stalls_ext _).bind fun ack _ => ?_
      split
      · exact (stalls_updateStatus _ _).bind fun _ _ => trivial
      · trivial
  exact (stalls_store _).bind fun rows t => hsweep rows (h ++ t)

/-- The orders of `db` that a sweep with the events `t` has reported, and how it left them. -/
structure Accounting (db db' : Db) (t : History) (cancelled failed : List String) : Prop where
  once : (cancelled ++ failed).Nodup
  every : ∀ cid, cid ∈ cancelled ++ failed ↔ ∃ e, db.find cid = some e ∧
    Reconcile.Resting e.row.status
  done : ∀ cid ∈ cancelled, (∃ ev ∈ t, isCancelOk cid ev = true) ∧
    ∃ e, db.find cid = some e ∧ db'.find cid = some (Db.withStatus e .cancelled)
  kept : ∀ cid ∈ failed, ∃ e, db.find cid = some e ∧
    (db'.find cid = some e ∨ db'.find cid = some (Db.withStatus e .pendingCancel))
  others : ∀ cid, cid ∉ cancelled ++ failed → db'.find cid = db.find cid

theorem Swept.accounting {rows : List OrderRow} {db db' : Db} {t : History}
    {cancelled failed : List String} (h : Swept rows db db' t cancelled failed)
    (hlist : IsListing rows db.fetchOpenOrders) : Accounting db db' t cancelled failed := by
  have hmem : ∀ cid, cid ∈ cancelled ++ failed ↔ ∃ e, db.find cid = some e ∧
      Reconcile.Resting e.row.status := by
    intro cid
    rw [h.perm.mem_iff, List.mem_map]
    constructor
    · rintro ⟨row, hrow, rfl⟩
      obtain ⟨hlive, e, he, rfl⟩ := (mem_openOrders hlist).mp hrow
      exact ⟨e, he, hlive⟩
    · rintro ⟨e, he, hlive⟩
      obtain rfl := Db.find_key he
      exact ⟨e.row, (mem_openOrders hlist).mpr ⟨hlive, e, he, rfl⟩, rfl⟩
  refine ⟨h.perm.nodup_iff.mpr (openOrders_nodup hlist), hmem, h.done, h.kept, ?_⟩
  intro cid hcid
  exact h.others cid fun hin => hcid (h.perm.mem_iff.mpr hin)

/-- A mass cancel comes to an end, whatever it is answered. Alone over a store whose failing calls
    change nothing, it raises only if it cannot list the open orders, and accounts for each of them
    otherwise. -/
theorem mass_cancel_accounts (R : Router) :
    (∀ (σ : Type) (handler : σ → (op : EngineOp) → Except Exn op.Res × σ) (s : σ),
      ∃ o, (run handler R.massCancel s).1 = some o) ∧
    ∀ (allows : Db → (o : ExtOp) → Except Exn o.Res → Prop) (x y : World)
      (r : Except Exn (List String × List String)),
      Exec (atomicSem allows).traced R.massCancel x r y →
      (∃ er, r = .error er ∧ y = (x.1, x.2 ++ [⟨.store .fetchOpenOrders, .error er⟩])) ∨
      ∃ cancelled failed t, r = .ok (cancelled, failed) ∧ y.2 = x.2 ++ t ∧
        Accounting x.1 y.1 t cancelled failed := by
  refine ⟨fun σ handler s => (stalls_massCancel (h := [])).ends handler s, ?_⟩
  intro allows x y r hexec
  have hwp : wp (atomicSem allows).traced (fun _ _ => True) R.massCancel
      (fun r y => (∃ er, r = .error er ∧ y = (x.1, x.2 ++ [⟨.store .fetchOpenOrders, .error er⟩])) ∨
        ∃ cancelled failed t, r = .ok (cancelled, failed) ∧ y.2 = x.2 ++ t ∧
          Accounting x.1 y.1 t cancelled failed) x := by
    unfold Router.massCancel
    rw [Prog.bind_eq, wp_bind]
    refine wp_perform.mpr ⟨trivial, fun r z hz => ?_⟩
    obtain ⟨hs, hev⟩ := hz
    obtain ⟨hdb, hlist⟩ := step_openOrders (sem_of_atomic hs)
    cases r with
    | error er => exact .inl ⟨er, rfl, Prod.ext hdb hev⟩
    | ok rows =>
      have hlist := hlist rows rfl
      rw [outcome_ok]
      have hopen : ∀ row ∈ rows, Reconcile.Resting row.status ∧
          ∃ e, z.1.find row.clientOrderId = some e ∧ e.row = row := by
        intro row hrow
        rw [hdb]
        exact (mem_openOrders hlist).mp hrow
      refine wp_mono (sweep_spec (openOrders_nodup hlist) hopen) fun r w hw => ?_
      cases r with
      | error er => exact hw.elim
      | ok lists =>
        obtain ⟨t, ht, hswept⟩ := hw
        rw [hdb] at hswept
        have hacc := hswept.accounting hlist
        refine .inr ⟨_, _, [⟨.store .fetchOpenOrders, .ok rows⟩] ++ t, rfl, ?_, hacc.once, hacc.every, ?_,
          hacc.kept, hacc.others⟩
        · rw [ht, hev, List.append_assoc]
        · intro cid hcid
          obtain ⟨⟨ev, hmem, hok⟩, hend⟩ := hacc.done cid hcid
          exact ⟨⟨ev, List.mem_append_right _ hmem, hok⟩, hend⟩
  exact hwp.exec hexec

def cidC : String := "cccccccc-0000-4000-8000-00000000000c"

/-- Three orders at rest, the second of them partly filled. -/
def crowdedStore : Db :=
  let inserted := (((Reconcile.sampleStore .sim).insertOrder (sampleFields cidB .sim) none
    1).2.insertOrder (sampleFields cidC .sim) none 2).2
  let acked := (((inserted.ackOrder cidA "V1").2.ackOrder cidB "V2").2.ackOrder cidC "V3").2
  (acked.applyFill cidB "F1" ⟨10, 0⟩ 40 2 100).2

/-- The venue confirms the first cancel, refuses the second, and is not reached with the third. -/
def pickyHandler : Handler where
  time := 3
  ext _ o := match o with
    | .cancel _ cid =>
      if cid = cidB then .ok { ok := false, reason := some "too late" }
      else if cid = cidC then .error (.transportError "connection reset")
      else .ok {}
    | o => plainExt 3 (fun _ => {}) [] o

/-- One is cancelled, and the two that are not are reported. -/
theorem sample_mass_cancel :
    ∃ y t, Exec (atomicSem fun _ _ _ => True).traced simRouter.massCancel
        (crowdedStore, []) (.ok ([cidA], [cidB, cidC])) y ∧
      Accounting crowdedStore y.1 t [cidA] [cidB, cidC] := by
  have hreturns : returnsWith pickyHandler simRouter.massCancel (crowdedStore, [])
      (fun out _ => out = ([cidA], [cidB, cidC])) = true := by decide +kernel
  obtain ⟨out, y, hexec, hout⟩ := exists_return (plain_follows pickyHandler) hreturns
  obtain rfl : out = ([cidA], [cidB, cidC]) := of_decide_eq_true hout
  have hatomic : Exec (atomicSem fun _ _ _ => True).traced simRouter.massCancel
      (crowdedStore, []) (.ok ([cidA], [cidB, cidC])) y :=
    hexec.mono fun _ _ _ _ hs => ⟨atomic_of_reliable hs.1, hs.2⟩
  obtain ⟨er, her, -⟩ | ⟨cancelled, failed, t, hr, -, hacc⟩ :=
    (mass_cancel_accounts simRouter).2 _ _ _ _ hatomic
  · cases her
  · obtain ⟨rfl, rfl⟩ := Prod.mk.inj (Except.ok.inj hr)
    exact ⟨y, t, hatomic, hacc⟩

end MassCancel

end ExecutionEngine
