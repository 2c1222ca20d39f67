/-
  What a plan does to the order it was made for.

  A plan is a list computed from one snapshot; its actions then run one after the
  other, and one that raises is logged and passed over (`Each` over `execute`, which
  is what `attempt` counts). `plan_executable`: over a store that does not fail,
  alone, no action ever meets the guard of the frozen machine. `failed_fill_survives`
  says for which venue rows a lost fill can still be recorded by a later pass, and
  `pending_cancel_resolves` which terminal venue rows end a PENDING_CANCEL.
-/
import ExecutionEngine.Async.Attempts
import ExecutionEngine.Core.LateFills
import ExecutionEngine.Core.LostAck

namespace ExecutionEngine

open Async Async.Prog StateMachine

namespace Reconcile

/-- The executing half of `_apply_row` is each action in turn, and counts those that returned. -/
theorem attempts_each {E : Env} {db db' : Db} {plan : List ReconcileAction} {r : Except Exn Nat} :
    Exec (sem E) (sumOver attempt plan) db r db' ↔
      ∃ acts, acts.map Prod.fst = plan ∧ Each (sem E) execute db acts db' ∧
        r = .ok (completed acts) :=
  exec_sumOver_counted

/-! ## The frozen graph, statement by statement -/

/-- The status a statement asks for is the order's own, or one frozen edge away. -/
def OnGraph (db : Db) : EngineOp → Prop
  | .store (.ackOrder cid _) => ∀ e, db.find cid = some e → e.row.status = .pendingNew
  | .store (.writeStatus cid s) => ∀ e, db.find cid = some e → isLegal e.row.status s = true
  | .store (.applyFill cid fid _ qty _ total) => ∀ e, db.find cid = some e → ∀ f : FillRow,
      f.brokerFillId = fid → f.quantity = qty →
      isLegal e.row.status (Db.fillTarget (Db.addFill e f) total) = true
  | _ => True

/-- An action that did not end in `IllegalTransition`. -/
def NotIllegal (o : Except Exn Unit) : Prop :=
  ∀ x, o = .error x → x.hasCode .illegalTransition = false

theorem notIllegal_ok {o : Except Exn Unit} (h : o = .ok ()) : NotIllegal o := by
  rintro x rfl
  cases h

theorem resting_target {s : OrderState} (h : Resting s) (e : Entry) (total : Int) :
    isLegal s (Db.fillTarget e total) = true := by
  unfold Db.fillTarget
  rcases h with rfl | rfl
  · split <;> decide
  · split <;> decide

section Reliable

variable {allows : Db → (o : ExtOp) → Except Exn o.Res → Prop} {db : Db} {cid : String} {e : Entry}

/-- The application guard stands before every status write. -/
theorem updateStatus_onGraph (E : Env) (db : Db) (cid : String) (s : OrderState) :
    wp (sem E) OnGraph (updateStatus cid s) (fun _ _ => True) db := by
  unfold updateStatus
  rw [Prog.bind_eq, wp_bind]
  refine wp_perform.mpr ⟨trivial, fun r db' hs => ?_⟩
  obtain ⟨rfl, hr⟩ := step_fetchOrder hs
  cases r with
  | error x => trivial
  | ok row =>
    obtain rfl := hr row rfl
    rw [outcome_ok, Db.fetchOrder]
    cases hf : db'.find cid with
    | none => trivial
    | some e =>
      dsimp only [Option.map_some]
      split
      · trivial
      · split
        · rename_i hl
          refine wp_perform.mpr ⟨fun e' he' => ?_, fun _ _ _ => trivial⟩
          rw [hf] at he'
          exact Option.some.inj he' ▸ hl
        · trivial

/-- A legal status update: on the graph, and it goes through. -/
theorem update_onGraph (he : db.find cid = some e) {s : OrderState}
    (hl : isLegal e.row.status s = true) :
    wp (sem (.reliable allows)) OnGraph (updateStatus cid s)
      (fun r db' => r = .ok () ∧ db'.find cid = some (Db.withStatus e s)) db := by
  obtain rfl := Db.find_key he
  refine wp_mono (wp_and (updateStatus_onGraph _ db _ s) (updateStatus_reliable he hl)) ?_
  intro r db' h
  exact ⟨h.2.1, h.2.2.find_self⟩

theorem setRejectReason_onGraph (he : db.find cid = some e) (reason : String) :
    wp (sem (.reliable allows)) OnGraph (Eff.store (.setRejectReason cid reason))
      (fun r db' => r = .ok () ∧ ∃ e', db'.find cid = some e' ∧ e'.row.status = e.row.status) db := by
  refine wp_perform.mpr ⟨trivial, fun r db' hs => ?_⟩
  obtain ⟨rfl, hfind⟩ := step_setRejectReason he hs
  exact ⟨rfl, _, hfind, rfl⟩

/-- The two steps of a cancel. -/
theorem closing_onGraph (he : db.find cid = some e) (hs : Resting e.row.status) :
    wp (sem (.reliable allows)) OnGraph
      ((updateStatus cid .pendingCancel).bind fun _ => updateStatus cid .cancelled)
      (fun r _ => r = .ok ()) db := by
  have hl : isLegal e.row.status .pendingCancel = true := by
    rcases hs with hs | hs <;> rw [hs] <;> decide
  refine wp_seq_ok (I := fun _ db' => db'.find cid = some (Db.withStatus e .pendingCancel)) ?_ ?_
  · refine wp_mono (update_onGraph he hl) fun r db' h => ?_
    obtain ⟨rfl, hfind⟩ := h
    exact hfind
  · intro _ db' hfind
    exact wp_mono (update_onGraph hfind (s := .cancelled) rfl) fun _ _ h => h.1

/-! ## The actions -/

/-- From which statuses an action goes through. -/
def Applicable : ReconcileAction → OrderState → Prop
  | .ack _ _, s => s = .pendingNew
  | .reject _ _, s => s = .pendingNew
  | .cancelConfirm _, s => s = .pendingCancel
  | .fill _ _ _ _ _, s => Resting s
  | .cancelTwoStep _, s => Resting s
  | .expire _, s => Resting s
  | .postAckReject _ _, s => Resting s

theorem fill_onGraph (hclock : ∀ db r, allows db .now r → ∃ t, r = .ok t)
    (he : db.find cid = some e) (hs : Resting e.row.status) (qty : Int) (price : Decimal)
    (fid : String) (total : Int) :
    wp (sem (.reliable allows)) OnGraph (execute (.fill cid qty price fid total))
      (fun o db' => NotIllegal o ∧ ∃ e', db'.find cid = some e' ∧
        (e' = e ∨ ∃ f : FillRow, f.quantity = qty ∧
          e' = Db.withStatus (Db.addFill e f) (Db.fillTarget (Db.addFill e f) total))) db := by
  rw [execute, Prog.bind_eq, wp_bind]
  refine wp_perform.mpr ⟨trivial, fun r db₁ hstep => ?_⟩
  obtain ⟨rfl, hnow⟩ := step_ext hstep
  obtain ⟨ts, rfl⟩ := hclock db₁ r hnow
  rw [outcome_ok, Prog.bind_eq, wp_bind]
  have hgraph : OnGraph db₁ (.store (.applyFill cid fid price qty ts total)) := by
    intro e' he' f _ _
    rw [he] at he'
    exact Option.some.inj he' ▸ resting_target hs _ total
  refine wp_perform.mpr ⟨hgraph, fun r db₂ hstep => ?_⟩
  obtain ⟨t, ht⟩ := step_reliable hstep
  change db₁.applyFill cid fid price qty ts total = _ at ht
  rcases Db.applyFill_cases db₁ cid fid price qty ts total with
    ⟨e₁, f, he₁, rfl, -, rfl, rfl, -, hc⟩ | ⟨x, hc⟩
  · rw [he] at he₁
    obtain rfl := Option.some.inj he₁
    rw [hc] at ht
    obtain ⟨rfl, rfl⟩ := Prod.mk.inj ht
    refine ⟨notIllegal_ok rfl, _, find_set_entry he ?_, .inr ⟨f, rfl, rfl⟩⟩
    rw [withStatus_key, addFill_row]
  · -- refused by a CHECK of the fills table, not by the guard
    have hx : NotIllegal (.error x) := by
      rintro x' hx'
      obtain rfl := Except.error.inj hx'
      revert hc
      simp only [Db.applyFill, he, resting_target hs, if_true]
      split
      · split
        · intro hc
          cases (Prod.mk.inj hc).1
        · intro hc
          rw [← Except.error.inj (Prod.mk.inj hc).1]
          rfl
      · intro hc
        rw [← Except.error.inj (Prod.mk.inj hc).1]
        rfl
    rw [hc] at ht
    obtain ⟨rfl, rfl⟩ := Prod.mk.inj ht
    exact ⟨hx, e, he, .inl rfl⟩

theorem ack_onGraph (no : String) (he : db.find cid = some e) (hs : e.row.status = .pendingNew) :
    wp (sem (.reliable allows)) OnGraph (execute (.ack cid no))
      (fun o db' => NotIllegal o ∧ db'.find cid = some { e with row := { e.row with
        status := .new, brokerOrderId := some no } }) db := by
  have hgraph : OnGraph db (.store (.ackOrder cid no)) := by
    intro e' he'
    rw [he] at he'
    exact Option.some.inj he' ▸ hs
  refine wp_perform.mpr ⟨hgraph, fun r db' hstep => ?_⟩
  obtain ⟨hr, hfind⟩ := (wp_perform.mp (execute_ack no he hs)).2 r db' hstep
  exact ⟨notIllegal_ok hr, hfind⟩

/-- An action that is applicable runs on the graph. -/
theorem execute_onGraph (hclock : ∀ db r, allows db .now r → ∃ t, r = .ok t)
    {a : ReconcileAction} (hcid : a.cid = cid) (he : db.find cid = some e)
    (ha : Applicable a e.row.status) :
    wp (sem (.reliable allows)) OnGraph (execute a) (fun o _ => NotIllegal o) db := by
  have hupdate (s : OrderState) (hl : isLegal e.row.status s = true) :
      wp (sem (.reliable allows)) OnGraph (updateStatus cid s) (fun o _ => NotIllegal o) db :=
    wp_mono (update_onGraph he hl) fun _ _ h => notIllegal_ok h.1
  subst hcid
  cases a with
  | ack c no => exact wp_mono (ack_onGraph no he ha) fun _ _ h => h.1
  | fill c qty price fid total =>
    exact wp_mono (fill_onGraph hclock he ha qty price fid total) fun _ _ h => h.1
  | cancelTwoStep c => exact wp_mono (closing_onGraph he ha) fun _ _ h => notIllegal_ok h
  | cancelConfirm c =>
    exact hupdate .cancelled (by rw [show e.row.status = .pendingCancel from ha]; decide)
  | expire c =>
    exact hupdate .expired (by rcases ha with hs | hs <;> rw [hs] <;> decide)
  | reject c reason =>
    have hl : isLegal e.row.status .rejected = true := by
      rw [show e.row.status = .pendingNew from ha]
      decide
    refine wp_seq_ok (I := fun _ db' => db'.find c = some (Db.withStatus e .rejected)) ?_ ?_
    · refine wp_mono (update_onGraph he hl) fun r db' h => ?_
      obtain ⟨rfl, hfind⟩ := h
      exact hfind
    · intro _ db' hfind
      exact wp_mono (setRejectReason_onGraph hfind _) fun _ _ h => notIllegal_ok h.1
  | postAckReject c reason =>
    refine wp_seq_ok (I := fun _ db' => ∃ e', db'.find c = some e' ∧ Resting e'.row.status) ?_ ?_
    · refine wp_mono (setRejectReason_onGraph he _) fun r db' h => ?_
      obtain ⟨rfl, e', he', hst⟩ := h
      exact ⟨e', he', hst ▸ ha⟩
    · rintro _ db' ⟨e', he', hs⟩
      exact wp_mono (closing_onGraph he' hs) fun _ _ h => notIllegal_ok h

/-! ## Every plan is executable -/

variable {ι : Type} [VenueItem ι] {row : OrderRow} {item : ι}

/-- Whatever each action comes to, the whole list stays on the graph. -/
def Executable (allows : Db → (o : ExtOp) → Except Exn o.Res → Prop)
    (plan : List ReconcileAction) (db : Db) : Prop :=
  wpEach (sem (.reliable allows)) OnGraph execute (fun _ => NotIllegal) (fun _ => True) plan db

theorem executable_nil : Executable allows [] db := trivial

theorem executable_single (hclock : ∀ db r, allows db .now r → ∃ t, r = .ok t)
    {a : ReconcileAction} (hcid : a.cid = cid) (he : db.find cid = some e)
    (ha : Applicable a e.row.status) : Executable allows [a] db :=
  wp_mono (execute_onGraph hclock hcid he ha) fun _ _ h => ⟨h, trivial⟩

/-- The venue's own state, on an order at rest. -/
theorem terminal_executable (hclock : ∀ db r, allows db .now r → ∃ t, r = .ok t)
    (he : db.find row.clientOrderId = some e) (hs : Resting e.row.status)
    (hrej : ¬ (row.status = .pendingNew ∧ VenueItem.classifyVenueState item = .rejected)) :
    Executable allows (venueTerminalActions row item) db := by
  unfold venueTerminalActions
  split
  · exact executable_single hclock rfl he hs
  · exact executable_single hclock rfl he hs
  · rename_i hclass
    split
    · rename_i hst
      exact absurd ⟨hst, hclass⟩ hrej
    · exact executable_single hclock rfl he hs
  · exact executable_nil

/-- The order is at rest after the ack, with the fills and the quantity it had. -/
theorem acks_stage (item : ι) (he : db.find row.clientOrderId = some e) (hrow : e.row = row)
    (hlive : row.status = .pendingNew ∨ Resting row.status) :
    wpEach (sem (.reliable allows)) OnGraph execute (fun _ => NotIllegal)
      (fun db' => ∃ e₁, db'.find row.clientOrderId = some e₁ ∧ e₁.fills = e.fills ∧
        Resting e₁.row.status)
      (if row.status = .pendingNew then [.ack row.clientOrderId (VenueItem.orderNo item)] else [])
      db := by
  split
  · rename_i hs
    refine wp_mono (ack_onGraph _ he (hrow ▸ hs)) fun o db' h => ⟨h.1, _, h.2, rfl, .inl rfl⟩
  · rename_i hs
    exact ⟨e, he, rfl, hrow ▸ hlive.resolve_left hs⟩

/-- While the counter is below the quantity, the fill leaves the order at rest. -/
theorem fills_stage (hclock : ∀ db r, allows db .now r → ∃ t, r = .ok t)
    (he : db.find row.clientOrderId = some e) (hs : Resting e.row.status) :
    wpEach (sem (.reliable allows)) OnGraph execute (fun _ => NotIllegal)
      (fun db' => VenueItem.matched item < row.quantity →
        ∃ e₁, db'.find row.clientOrderId = some e₁ ∧ Resting e₁.row.status)
      (fillActions row e.filled item) db := by
  unfold fillActions
  split
  · split
    · exact fun _ => ⟨e, he, hs⟩
    · refine wp_mono (fill_onGraph hclock he hs _ _ _ _) fun o db' h => ⟨h.1, fun hm => ?_⟩
      obtain ⟨-, e', he', rfl | ⟨f, hqty, rfl⟩⟩ := h
      · exact ⟨e', he', hs⟩
      · have hle := (addFill_filled e f).2
        have hpart : Db.fillTarget (Db.addFill e f) row.quantity = .partiallyFilled :=
          if_neg (by omega)
        exact ⟨_, he', .inr hpart⟩
  · exact fun _ => ⟨e, he, hs⟩

theorem plan_onGraph (hclock : ∀ db r, allows db .now r → ∃ t, r = .ok t)
    (he : db.find row.clientOrderId = some e) (hrow : e.row = row)
    (hset : row.status ∈ Db.reconcileStates) (item : Option ι) (now : Time) (ambiguous : Bool) :
    Executable allows (planActions row e.filled item now ambiguous) db := by
  subst hrow
  cases item with
  | none =>
    unfold planActions planAbsent
    dsimp only
    split
    · rename_i hst
      split
      · exact executable_nil
      · split
        · exact executable_single hclock rfl he hst
        · exact executable_nil
    · split
      · rename_i hst
        split
        · exact executable_single hclock rfl he hst
        · exact executable_nil
      · exact executable_nil
  | some item =>
    unfold planActions planPresent
    dsimp only
    split
    · rename_i hrej
      simp only [Bool.and_eq_true, decide_eq_true_eq] at hrej
      rw [venueTerminalActions, hrej.2]
      dsimp only
      rw [if_pos hrej.1]
      exact executable_single hclock rfl he hrej.1
    · rename_i hrej
      simp only [Bool.and_eq_true, decide_eq_true_eq] at hrej
      split
      · rename_i hst
        split
        · exact executable_single hclock rfl he hst
        · exact executable_nil
      · rename_i hpc
        have hlive : e.row.status = .pendingNew ∨ Resting e.row.status := by
          simpa [Db.reconcileStates, Resting, hpc] using hset
        refine wpEach_append.mpr (wpEach_append.mpr (wpEach_mono (acks_stage item he rfl hlive) ?_))
        rintro db₁ ⟨e₁, he₁, hf₁, hs₁⟩
        have hfilled : e.filled = e₁.filled := (congrArg filledQty hf₁).symm
        rw [hfilled]
        refine wpEach_mono (fills_stage hclock he₁ hs₁) fun db₂ h₂ => ?_
        split
        · rename_i hm
          obtain ⟨e₂, he₂, hs₂⟩ := h₂ hm
          exact terminal_executable hclock he₂ hs₂ hrej
        · exact executable_nil

/-- A plan for a current row of the working set, executed alone over a store that does not fail:
    no action ends in `IllegalTransition`, and every statement keeps to the frozen graph. -/
theorem plan_executable (hclock : ∀ db r, allows db .now r → ∃ t, r = .ok t)
    (he : db.find row.clientOrderId = some e) (hrow : e.row = row)
    (hset : row.status ∈ Db.reconcileStates) (item : Option ι) (now : Time) (ambiguous : Bool) :
    (∀ acts db', acts.map Prod.fst = planActions row e.filled item now ambiguous →
      Each (sem (.reliable allows)) execute db acts db' → ∀ p ∈ acts, NotIllegal p.2) ∧
    ∀ op db₁, Reaches (sem (.reliable allows))
        (sumOver attempt (planActions row e.filled item now ambiguous)) db op db₁ →
      OnGraph db₁ op := by
  have hplan := plan_onGraph hclock he hrow hset item now ambiguous
  refine ⟨fun acts db' hacts hrun => ?_, fun op db₁ hreach => ?_⟩
  · rw [Executable, ← hacts] at hplan
    exact (hplan.each hrun).1
  · exact hplan.sumOver.reaches hreach

end Reliable

section Sample

/-- The store after the sample order came in. -/
def sampleStore (b : Broker) : Db := (Db.empty.insertOrder (sampleFields cidA b) none 0).2

theorem sampleStore_find (b : Broker) :
    ∃ e, (sampleStore b).find cidA = some e ∧ e.row = sampleRow b ∧ e.fills = [] := by
  cases b <;> exact ⟨_, rfl, rfl, rfl⟩

/-- A lost ack, 40 units matched and the rest cancelled, all in one plan. -/
theorem sample_plan_executable :
    (planActions (sampleRow .liberator) 0 (some cancelledItem) (seconds 10) false).length = 3 ∧
    ∀ acts db', acts.map Prod.fst =
        planActions (sampleRow .liberator) 0 (some cancelledItem) (seconds 10) false →
      Each (sem liveEnv) execute (sampleStore .liberator) acts db' →
      ∀ p ∈ acts, NotIllegal p.2 := by
  obtain ⟨e, he, hrow, hfills⟩ := sampleStore_find .liberator
  have hfilled : e.filled = 0 := congrArg filledQty hfills
  refine ⟨by decide +kernel, fun acts db' hacts hrun => ?_⟩
  rw [← hfilled] at hacts
  have hclock (db : Db) (r : Except Exn Time) (h : r = liveHandler.ext db .now) :
      ∃ t, r = .ok t := ⟨_, h⟩
  exact (plan_executable hclock he hrow (by decide) (some cancelledItem) (seconds 10) false).1
    acts db' hacts hrun

end Sample

/-! ## A fill that fails -/

section Failing

variable {E : Env} {db : Db} {cid : String} {e : Entry}

theorem exec_updateStatus (E : Env) (he : db.find cid = some e) {s : OrderState}
    (hl : isLegal e.row.status s = true) :
    ∃ db', Exec (sem E) (updateStatus cid s) db (.ok ()) db' ∧
      db'.find cid = some (Db.withStatus e s) := by
  have hread : Exec (sem E) (Eff.store (.fetchOrder cid)) db (.ok (some e.row)) db :=
    .perform (.inl ⟨0, by rw [← fetchOrder_of_find he]; rfl⟩)
  by_cases hsame : e.row.status = s
  · refine ⟨db, .bind hread ?_, by rw [withStatus_self hsame, he]⟩
    dsimp only
    rw [if_pos hsame]
    exact .ret () db
  · refine ⟨db.set (Db.withStatus e s), .bind hread ?_, find_set_entry he rfl⟩
    dsimp only
    rw [if_neg hsame, if_pos hl]
    refine .perform (.inl ⟨0, ?_⟩)
    change db.writeStatus cid s = _
    simp only [Db.writeStatus, he, hl, if_true]

theorem exec_setRejectReason (E : Env) (he : db.find cid = some e) (reason : String) :
    ∃ db' e', Exec (sem E) (Eff.store (.setRejectReason cid reason)) db (.ok ()) db' ∧
      db'.find cid = some e' ∧ e'.row.status = e.row.status := by
  refine ⟨_, { e with row := { e.row with rejectReason := some reason } },
    .perform (.inl ⟨0, ?_⟩), find_set_entry he rfl, rfl⟩
  change db.setRejectReason cid reason = _
  simp only [Db.setRejectReason, he]

theorem exec_ack (E : Env) (no : String) (he : db.find cid = some e)
    (hs : e.row.status = .pendingNew) :
    ∃ db' e', Exec (sem E) (execute (.ack cid no)) db (.ok ()) db' ∧
      db'.find cid = some e' ∧ Resting e'.row.status := by
  refine ⟨_, { e with row := { e.row with status := .new, brokerOrderId := some no } },
    .perform (.inl ⟨0, ?_⟩), find_set_entry he rfl, .inl rfl⟩
  change db.ackOrder cid no = _
  simp only [Db.ackOrder, he, hs, if_true]

theorem exec_closing (E : Env) (he : db.find cid = some e) (hs : Resting e.row.status) :
    ∃ db', Exec (sem E) ((updateStatus cid .pendingCancel).bind fun _ =>
        updateStatus cid .cancelled) db (.ok ()) db' ∧
      db'.find cid = some (Db.withStatus e .cancelled) := by
  obtain ⟨db₁, hrun₁, he₁⟩ := exec_updateStatus E he (s := .pendingCancel)
    (by rcases hs with hs | hs <;> rw [hs] <;> decide)
  obtain ⟨db₂, hrun₂, he₂⟩ := exec_updateStatus E he₁ (s := .cancelled) rfl
  exact ⟨db₂, .bind hrun₁ hrun₂, he₂⟩

variable {ι : Type} [VenueItem ι] {row : OrderRow} {item : ι}

/-- A venue row that is over closes an order at rest. -/
theorem exec_terminal (E : Env) (he : db.find row.clientOrderId = some e)
    (hs : Resting e.row.status) (hover : VenueItem.classifyVenueState item ≠ .resting)
    (hrej : ¬ (row.status = .pendingNew ∧ VenueItem.classifyVenueState item = .rejected)) :
    ∃ a db' e', venueTerminalActions row item = [a] ∧ Exec (sem E) (execute a) db (.ok ()) db' ∧
      db'.find row.clientOrderId = some e' ∧ isTerminal e'.row.status = true := by
  unfold venueTerminalActions
  split
  · obtain ⟨db', hrun, hfind⟩ := exec_closing E he hs
    exact ⟨_, db', _, rfl, hrun, hfind, rfl⟩
  · obtain ⟨db', hrun, hfind⟩ := exec_updateStatus E he (s := .expired)
      (by rcases hs with hs | hs <;> rw [hs] <;> decide)
    exact ⟨_, db', _, rfl, hrun, hfind, rfl⟩
  · rename_i hclass
    rw [if_neg fun hst => hrej ⟨hst, hclass⟩]
    obtain ⟨db₁, e₁, hrun₁, he₁, hst₁⟩ := exec_setRejectReason E he
      (reasonOr (VenueItem.rejectReason item))
    obtain ⟨db', hrun, hfind⟩ := exec_closing E he₁ (hst₁ ▸ hs)
    exact ⟨_, db', _, rfl, .bind hrun₁ hrun, hfind, rfl⟩
  · rename_i hclass
    exact absurd hclass hover

/-- However the calls of the plan fail: if its fill raised and left nothing behind, the order is
    not terminal when the plan is through. -/
def SurvivesFailedFill (plan : List ReconcileAction) (cid : String) (db : Db) : Prop :=
  ∀ (E : Env) (before after : List (ReconcileAction × Except Exn Unit)) (a : ReconcileAction)
    (x : Exn) (db₁ db' : Db), a.isFill = true →
    before.map Prod.fst ++ a :: after.map Prod.fst = plan →
    Each (sem E) execute db before db₁ → Exec (sem E) (execute a) db₁ (.error x) db₁ →
    Each (sem E) execute db₁ after db' →
    ∀ e', db'.find cid = some e' → isTerminal e'.row.status = false

/-- The plan records a fill and closes the order behind it. -/
structure FillCloses (row : OrderRow) (filled : Int) (item : ι) : Prop where
  cancelNotPending : row.status ≠ .pendingCancel
  delta : filled < VenueItem.matched item
  price : (VenueItem.fillPriceFor row item).isSome = true
  partly : VenueItem.matched item < row.quantity
  ended : VenueItem.classifyVenueState item ≠ .resting
  acked : ¬ (row.status = .pendingNew ∧ VenueItem.classifyVenueState item = .rejected)

theorem mem_fillActions {filled : Int} {a : ReconcileAction}
    (ha : a ∈ fillActions row filled item) : filled < VenueItem.matched item ∧
      (VenueItem.fillPriceFor row item).isSome = true ∧ fillActions row filled item = [a] := by
  unfold fillActions at ha ⊢
  split at ha
  · rename_i hdelta
    split at ha
    · cases ha
    · rename_i p hp
      rw [if_pos hdelta, hp, List.mem_singleton.mp ha]
      exact ⟨by omega, rfl, rfl⟩
  · cases ha

theorem terminal_not_fill {a : ReconcileAction} (ha : a ∈ venueTerminalActions row item) :
    a.isFill = false := by
  by_contra hfill
  have hmem := List.mem_filter.mpr ⟨ha, Bool.eq_true_of_not_eq_false hfill⟩
  rw [venueTerminalActions_fills] at hmem
  cases hmem

/-- Where a fill of a plan comes from. -/
theorem fill_of_plan {filled : Int} {item : Option ι} {now : Time} {ambiguous : Bool}
    {a : ReconcileAction} (ha : a ∈ planActions row filled item now ambiguous)
    (hfill : a.isFill = true) : ∃ i, item = some i ∧ row.status ≠ .pendingCancel ∧
      ¬ (row.status = .pendingNew ∧ VenueItem.classifyVenueState i = .rejected) ∧
      a ∈ fillActions row filled i := by
  have hplan := List.mem_filter.mpr ⟨ha, hfill⟩
  rcases planActions_fills row filled item now ambiguous with hnil | ⟨i, rfl, hfills⟩
  · rw [hnil] at hplan
    cases hplan
  · rw [hfills] at hplan
    refine ⟨i, rfl, fun hpc => ?_, fun hrej => ?_, hplan⟩
    · change a ∈ planPresent row filled i at ha
      unfold planPresent at ha
      rw [if_neg (by simp [hpc]), if_pos hpc] at ha
      split at ha
      · rw [List.mem_singleton.mp ha] at hfill
        cases hfill
      · cases ha
    · change a ∈ planPresent row filled i at ha
      unfold planPresent at ha
      rw [if_pos (by simpa using hrej)] at ha
      rw [terminal_not_fill ha] at hfill
      cases hfill

/-- In a list that ends with its only fill, nothing follows a fill. -/
theorem last_fill {as bs cs : List ReconcileAction} {a x : ReconcileAction}
    (has : ∀ b ∈ as, b.isFill = false) (ha : a.isFill = true) (h : bs ++ a :: cs = as ++ [x]) :
    bs = as ∧ cs = [] := by
  rcases List.eq_nil_or_concat cs with rfl | ⟨init, b, rfl⟩
  · exact ⟨(List.append_inj' h rfl).1, rfl⟩
  · have hsplit : (bs ++ a :: init) ++ [b] = as ++ [x] := by
      rw [← h]
      simp
    have hmem : a ∈ as := by
      rw [← (List.append_inj' hsplit rfl).1]
      simp
    rw [has a hmem] at ha
    cases ha

/-- An ack that may fail leaves the order PENDING_NEW or NEW. -/
theorem each_ack {no : String} {o : Except Exn Unit} {db' : Db} (he : db.find cid = some e)
    (hs : e.row.status = .pendingNew) (h : Each (sem E) execute db [(.ack cid no, o)] db') :
    ∃ e', db'.find cid = some e' ∧ isTerminal e'.row.status = false := by
  cases h with
  | cons hack hnil =>
    cases hnil
    rcases step_find (exec_perform hack) cid with heq | ⟨_, _, _, _, _, _, hn, _⟩ |
      ⟨so, e₁, e', hso, hc, -, he₁, hfind⟩
    · exact ⟨e, heq.trans he, by rw [hs]; decide⟩
    · rw [hn] at he
      cases he
    · cases hso
      cases hc with
      | ack _ _ => exact ⟨_, hfind, rfl⟩

theorem open_of_working (hset : row.status ∈ Db.reconcileStates) :
    isTerminal row.status = false := by
  revert hset
  cases row.status <;> decide

/-- Where the plan closes the order behind its fill, the statement of the fill may be the one that
    fails. -/
theorem lost_fill_closes {i : ι} (he : db.find row.clientOrderId = some e) (hrow : e.row = row)
    (hset : row.status ∈ Db.reconcileStates) (hcl : FillCloses row e.filled i) (now : Time)
    (ambiguous : Bool) :
    ¬ SurvivesFailedFill (planActions row e.filled (some i) now ambiguous) row.clientOrderId db := by
  subst hrow
  intro hsurvive
  obtain ⟨p, hp⟩ := Option.isSome_iff_exists.mp hcl.price
  have hfills : fillActions e.row e.filled i = [.fill e.row.clientOrderId
      (VenueItem.matched i - e.filled) p (fillId (VenueItem.orderNo i) (VenueItem.matched i))
      e.row.quantity] := by
    unfold fillActions
    rw [if_pos (by have := hcl.delta; omega), hp]
  -- the ack goes through, or there is none
  obtain ⟨before, db₁, e₁, hbefore, hacks, he₁, hs₁⟩ : ∃ before db₁ e₁,
      before.map Prod.fst = (if e.row.status = .pendingNew then
        [ReconcileAction.ack e.row.clientOrderId (VenueItem.orderNo i)] else []) ∧
      Each (sem anyEnv) execute db before db₁ ∧ db₁.find e.row.clientOrderId = some e₁ ∧
      Resting e₁.row.status := by
    by_cases hst : e.row.status = .pendingNew
    · obtain ⟨db₁, e₁, hrun, he₁, hs₁⟩ := exec_ack anyEnv (VenueItem.orderNo i) he hst
      exact ⟨[(_, _)], db₁, e₁, by rw [if_pos hst]; rfl, each_single hrun, he₁, hs₁⟩
    · refine ⟨[], db, e, by rw [if_neg hst]; rfl, .nil db, he, ?_⟩
      simpa [Db.reconcileStates, Resting, hst, hcl.cancelNotPending] using hset
  obtain ⟨t, db', e', hterm, hclose, he', hdone⟩ :=
    exec_terminal anyEnv he₁ hs₁ hcl.ended hcl.acked
  -- the clock answers, the fill statement does not
  have hlost : Exec (sem anyEnv) (execute (.fill e.row.clientOrderId
      (VenueItem.matched i - e.filled) p (fillId (VenueItem.orderNo i) (VenueItem.matched i))
      e.row.quantity)) db₁ (.error (.storeError "connection lost")) db₁ :=
    .bind (a := (0 : Time)) (.perform ⟨rfl, trivial⟩)
      (.bind_error (.perform (.inr ⟨trivial, _, rfl, .inl rfl⟩)))
  have hshape : before.map Prod.fst ++ .fill e.row.clientOrderId
      (VenueItem.matched i - e.filled) p (fillId (VenueItem.orderNo i) (VenueItem.matched i))
      e.row.quantity :: ([(t, Except.ok ())] : List (ReconcileAction × Except Exn Unit)).map
        Prod.fst = planActions e.row e.filled (some i) now ambiguous := by
    change _ = planPresent e.row e.filled i
    rw [planPresent_stages hcl.cancelNotPending hcl.acked, hfills, if_pos hcl.partly, hterm,
      hbefore, List.append_assoc]
    rfl
  have hno := hsurvive anyEnv before [(t, .ok ())] _ _ db₁ db' rfl hshape hacks hlost
    (each_single hclose) e' he'
  rw [hdone] at hno
  cases hno

/-- Elsewhere the plan ends with its fill, and the order is as open as before. -/
theorem open_fill_survives (he : db.find row.clientOrderId = some e) (hrow : e.row = row)
    (hset : row.status ∈ Db.reconcileStates) {item : Option ι} (now : Time) (ambiguous : Bool)
    (hno : ¬ ∃ i, item = some i ∧ FillCloses row e.filled i) :
    SurvivesFailedFill (planActions row e.filled item now ambiguous) row.clientOrderId db := by
  subst hrow
  have hopen := open_of_working hset
  intro E before after a x db₁ db' hfill hshape hbefore _ hafter e' he'
  have hmem : a ∈ planActions e.row e.filled item now ambiguous := by
    rw [← hshape]
    simp
  obtain ⟨i, rfl, hpc, hrej, ha⟩ := fill_of_plan hmem hfill
  obtain ⟨hdelta, hprice, hfills⟩ := mem_fillActions ha
  have hterm : (if VenueItem.matched i < e.row.quantity then venueTerminalActions e.row i
      else []) = [] := by
    split
    · rename_i hm
      have hrest : VenueItem.classifyVenueState i = .resting := by
        by_contra hover
        exact hno ⟨i, rfl, hpc, hdelta, hprice, hm, hover, hrej⟩
      rw [venueTerminalActions, hrest]
    · rfl
  change _ = planPresent e.row e.filled i at hshape
  rw [planPresent_stages hpc hrej, hterm, hfills, List.append_nil] at hshape
  obtain ⟨hbs, hcs⟩ := last_fill (by split <;> simp [ReconcileAction.isFill]) hfill hshape
  obtain rfl := List.map_eq_nil_iff.mp hcs
  obtain rfl := each_nil hafter
  by_cases hst : e.row.status = .pendingNew
  · rw [if_pos hst] at hbs
    obtain ⟨⟨b, o⟩, rfl, rfl⟩ := List.map_eq_singleton_iff.mp hbs
    obtain ⟨e₁, he₁, hopen₁⟩ := each_ack he hst hbefore
    rw [he'] at he₁
    exact Option.some.inj he₁ ▸ hopen₁
  · rw [if_neg hst] at hbs
    obtain rfl := List.map_eq_nil_iff.mp hbs
    obtain rfl := each_nil hbefore
    rw [he'] at he
    exact Option.some.inj he ▸ hopen

/-- A lost fill stays recordable exactly where the plan does not close the order behind it. -/
theorem failed_fill_survives (he : db.find row.clientOrderId = some e) (hrow : e.row = row)
    (hset : row.status ∈ Db.reconcileStates) (item : Option ι) (now : Time) (ambiguous : Bool) :
    SurvivesFailedFill (planActions row e.filled item now ambiguous) row.clientOrderId db ↔
      ¬ ∃ i, item = some i ∧ FillCloses row e.filled i := by
  refine ⟨?_, open_fill_survives he hrow hset now ambiguous⟩
  rintro hsurvive ⟨i, rfl, hcl⟩
  exact lost_fill_closes he hrow hset hcl now ambiguous hsurvive

/-- The sample order, matched by 40 and resting: the fill can be lost without harm. -/
theorem resting_fill_survives :
    SurvivesFailedFill (planActions (sampleRow .liberator) 0 (some (sampleItem 40)) (seconds 10)
      false) cidA (sampleStore .liberator) := by
  obtain ⟨e, he, hrow, hfills⟩ := sampleStore_find .liberator
  have hfilled : e.filled = 0 := congrArg filledQty hfills
  rw [← hfilled]
  refine (failed_fill_survives he hrow (by decide) _ _ _).mpr ?_
  rintro ⟨i, hi, hcl⟩
  obtain rfl := Option.some.inj hi
  exact hcl.ended (by decide +kernel)

/-- Matched by 40 and cancelled for the rest: a lost fill statement leaves the order CANCELLED. -/
theorem cancelled_fill_lost :
    ¬ SurvivesFailedFill (planActions (sampleRow .liberator) 0 (some cancelledItem) (seconds 10)
      false) cidA (sampleStore .liberator) := by
  obtain ⟨e, he, hrow, hfills⟩ := sampleStore_find .liberator
  have hfilled : e.filled = 0 := congrArg filledQty hfills
  have hcl : FillCloses (sampleRow .liberator) e.filled cancelledItem := by
    rw [hfilled]
    exact ⟨by decide, by decide, by decide +kernel, by decide, by decide +kernel, by decide⟩
  rw [← hfilled]
  exact lost_fill_closes he hrow (by decide) hcl _ _

end Failing

/-! ## PENDING_CANCEL -/

section PendingCancel

variable {db : Db} {e : Entry} {ι : Type} [VenueItem ι] {row : OrderRow}

/-- Terminal at the venue: over, or matched in full. -/
def VenueTerminal (row : OrderRow) (item : ι) : Prop :=
  VenueItem.classifyVenueState item ≠ .resting ∨ row.quantity ≤ VenueItem.matched item

/-- Executed alone over a store that does not fail, the plan has a run, and every run of it leaves
    the order terminal. -/
def Concludes (plan : List ReconcileAction) (cid : String) (db : Db) : Prop :=
  ∀ allows : Db → (o : ExtOp) → Except Exn o.Res → Prop,
    (∃ acts db', acts.map Prod.fst = plan ∧ Each (sem (.reliable allows)) execute db acts db') ∧
    ∀ acts db', acts.map Prod.fst = plan → Each (sem (.reliable allows)) execute db acts db' →
      ∃ e', db'.find cid = some e' ∧ isTerminal e'.row.status = true

theorem concludes_confirm (he : db.find row.clientOrderId = some e)
    (hs : e.row.status = .pendingCancel) :
    Concludes [.cancelConfirm row.clientOrderId] row.clientOrderId db := by
  have hl : isLegal e.row.status .cancelled = true := by
    rw [hs]
    decide
  intro allows
  constructor
  · obtain ⟨db', hrun, -⟩ := exec_updateStatus (.reliable allows) he hl
    exact ⟨[(_, _)], db', rfl, each_single hrun⟩
  · intro acts db' hacts hrun
    have hplan : wpEach (sem (.reliable allows)) OnGraph execute (fun _ _ => True)
        (fun db' => db'.find row.clientOrderId = some (Db.withStatus e .cancelled))
        (acts.map Prod.fst) db := by
      rw [hacts]
      exact wp_mono (update_onGraph he hl) fun _ _ h => ⟨trivial, h.2⟩
    exact ⟨_, (hplan.each hrun).2, rfl⟩

/-- A PENDING_CANCEL order is resolved by the venue rows that say cancelled or expired, and by no
    other: not by a refusal, and not by a full match. -/
theorem pending_cancel_resolves (he : db.find row.clientOrderId = some e) (hrow : e.row = row)
    (hs : row.status = .pendingCancel) (item : ι) (now : Time) (ambiguous : Bool) :
    (planActions row e.filled (some item) now ambiguous ≠ [] ∧
      Concludes (planActions row e.filled (some item) now ambiguous) row.clientOrderId db) ↔
      VenueItem.classifyVenueState item ∈ [VenueOrderState.cancelled, .expired] := by
  have hplan : planActions row e.filled (some item) now ambiguous =
      if VenueItem.classifyVenueState item ∈ [VenueOrderState.cancelled, .expired] then
        [.cancelConfirm row.clientOrderId] else [] := by
    change planPresent row e.filled item = _
    unfold planPresent
    rw [if_neg (by simp [hs]), if_pos hs]
  rw [hplan]
  constructor
  · rintro ⟨hne, -⟩
    by_contra hclass
    exact hne (if_neg hclass)
  · intro hclass
    rw [if_pos hclass]
    exact ⟨List.cons_ne_nil _ _, concludes_confirm he (hrow ▸ hs)⟩

/-- The sample order numbered V1, with a cancel under way. -/
def cancellingStore : Db :=
  (((sampleStore .liberator).ackOrder cidA "V1").2.writeStatus cidA .pendingCancel).2

def cancellingRow : OrderRow :=
  { sampleRow .liberator with status := .pendingCancel, brokerOrderId := some "V1" }

theorem cancellingStore_find :
    ∃ e, cancellingStore.find cidA = some e ∧ e.row = cancellingRow ∧ e.fills = [] :=
  ⟨_, rfl, rfl, rfl⟩

/-- The sample order, refused at the venue. -/
def refusedItem : Liberator.VenueOrderItem := { sampleItem 0 with rejectCode := "R01" }

/-- Matched in full, or refused, while the cancel was under way: the plan is empty at either venue,
    and the order stays PENDING_CANCEL. -/
theorem pending_cancel_stuck :
    cancellingRow.status = .pendingCancel ∧
    VenueTerminal cancellingRow (sampleItem 100) ∧
    planActions cancellingRow 0 (some (sampleItem 100)) (seconds 10) false = [] ∧
    VenueTerminal cancellingRow refusedItem ∧
    planActions cancellingRow 0 (some refusedItem) (seconds 10) false = [] ∧
    planActions cancellingRow 0
      (some { sampleVenueRow none with matched := 100, status := "MATCHED" }) (seconds 10) false = [] :=
  ⟨rfl, .inr (by decide), by decide +kernel, .inl (by decide +kernel), by decide +kernel,
    by decide +kernel⟩

/-- Cancelled at the venue: the order is concluded. -/
theorem cancelled_concludes :
    planActions cancellingRow 0 (some cancelledItem) (seconds 10) false ≠ [] ∧
      Concludes (planActions cancellingRow 0 (some cancelledItem) (seconds 10) false) cidA
        cancellingStore := by
  obtain ⟨e, he, hrow, hfills⟩ := cancellingStore_find
  have hfilled : e.filled = 0 := congrArg filledQty hfills
  rw [← hfilled]
  exact (pending_cancel_resolves he hrow rfl cancelledItem (seconds 10) false).mpr
    (by decide +kernel)

end PendingCancel

end Reconcile

end ExecutionEngine
