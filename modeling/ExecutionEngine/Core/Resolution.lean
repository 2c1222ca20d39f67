/-
  What a returned `resolution` says about the order.

  `Resolved` orders carry a handle or are terminal; `Onward` says that nothing
  comes back from there, nor back to PENDING_NEW. In a run from an empty store an
  order is waiting for its ack or resolved (`sound_run`): the one way to NEW
  without a handle would be a status write on a waiting order, and no call makes
  it (`newRule_request`).

  A submit that placed the order itself answers `confirmed` for a resolved order
  only (`fresh_honest`). A submit that is served the row of another one answers
  `confirmed` in any case, so it is honest exactly if it did not meet the row
  still waiting (`resolution_honest_iff`).
-/
import ExecutionEngine.Async.Rely
import ExecutionEngine.Core.Handles
import ExecutionEngine.Core.Placement

namespace ExecutionEngine

open Async Async.Prog StateMachine Liberator

/-! ## Onward -/

/-- The order carries a handle or is terminal. -/
def Resolved (cid : String) (db : Db) : Prop :=
  ∃ e, db.find cid = some e ∧ isResolved e.row = true

/-- The order is there, and past PENDING_NEW. -/
def Past (cid : String) (db : Db) : Prop :=
  ∃ e, db.find cid = some e ∧ e.row.status ≠ .pendingNew

/-- Rows stay, what has left PENDING_NEW does not return, and what is resolved stays so. -/
structure Onward (db db' : Db) : Prop where
  stays : ∀ cid, (db.find cid).isSome = true → (db'.find cid).isSome = true
  past : ∀ cid, Past cid db → Past cid db'
  resolved : ∀ cid, Resolved cid db → Resolved cid db'

instance : IsPreorder Db Onward where
  refl _ := ⟨fun _ h => h, fun _ h => h, fun _ h => h⟩
  trans _ _ _ h h' := ⟨fun cid x => h'.stays cid (h.stays cid x),
    fun cid x => h'.past cid (h.past cid x), fun cid x => h'.resolved cid (h.resolved cid x)⟩

theorem isResolved_iff {row : OrderRow} :
    isResolved row = true ↔ row.brokerOrderId.isSome = true ∨ isTerminal row.status = true := by
  simp [isResolved]

theorem Change.stays_resolved {o : StoreOp} {e e' : Entry} (h : Change o e e')
    (hr : isResolved e.row = true) : isResolved e'.row = true := by
  rcases isResolved_iff.mp hr with hno | hterm
  · rcases h.handle with hh | ⟨no, -, -, -, hh⟩
    · exact isResolved_iff.mpr (.inl (hh ▸ hno))
    · exact isResolved_iff.mpr (.inl (by rw [hh]; rfl))
  · have hsame := isLegal_of_terminal hterm h.legal
    exact isResolved_iff.mpr (.inr (hsame ▸ hterm))

section Step

variable {E : Env} {db db' : Db} {op : EngineOp} {r : Except Exn op.Res}

/-- An entry before a step, and what it is after. -/
theorem step_entry (h : (sem E).step db op r db') {cid : String} {e : Entry}
    (he : db.find cid = some e) : ∃ e', db'.find cid = some e' ∧
      (e' = e ∨ ∃ o, op = .store o ∧ e.row.clientOrderId = cid ∧ Change o e e') := by
  rcases step_find h cid with heq | ⟨_, _, _, _, _, _, hnone, -⟩ |
    ⟨o, e₁, e', rfl, hc, hkey, he₁, he'⟩
  · exact ⟨e, heq.trans he, .inl rfl⟩
  · rw [he] at hnone
    cases hnone
  · rw [he] at he₁
    obtain rfl := Option.some.inj he₁
    exact ⟨e', he', .inr ⟨o, rfl, hkey, hc⟩⟩

/-- A status write that answers ok on a stored order has landed. -/
theorem step_writeStatus_ok {cid : String} {s : OrderState} {e : Entry} (he : db.find cid = some e)
    (h : (sem E).step db (.store (.writeStatus cid s)) (.ok ()) db') :
    ∃ e', db'.find cid = some e' ∧ e'.row.status = s := by
  obtain rfl := Db.find_key he
  by_cases hl : isLegal e.row.status s = true
  · obtain rfl := (step_writeStatus he hl h).1 rfl
    exact ⟨Db.withStatus e s, by rw [find_change (.status hl) he, if_pos rfl], rfl⟩
  · rcases h with ⟨t, ht⟩ | ⟨-, x, hx, -⟩
    · have hw : (db.writeStatus e.row.clientOrderId s).1 = .ok () := congrArg Prod.fst ht
      simp only [Db.writeStatus, he, hl] at hw
      cases hw
    · cases hx

theorem step_onward (h : (sem E).step db op r db') : Onward db db' := by
  refine ⟨fun cid hs => step_find_isSome h hs, fun cid ⟨e, he, hs⟩ => ?_, fun cid ⟨e, he, hr⟩ => ?_⟩
  · obtain ⟨e', he', rfl | ⟨o, -, -, hc⟩⟩ := step_entry h he
    · exact ⟨_, he', hs⟩
    · exact ⟨e', he', fun hnew => hs (hc.pendingNew hnew)⟩
  · obtain ⟨e', he', rfl | ⟨o, -, -, hc⟩⟩ := step_entry h he
    · exact ⟨_, he', hr⟩
    · exact ⟨e', he', hc.stays_resolved hr⟩

end Step

/-! ## Nobody writes NEW on a waiting order -/

/-- A status write of NEW meets an order that is past PENDING_NEW. -/
def NewRule (db : Db) : EngineOp → Prop
  | .store (.writeStatus cid .new) => Past cid db
  | _ => True

/-- Any operation but a status write of NEW. -/
def Forward : EngineOp → Prop
  | .store (.writeStatus _ .new) => False
  | _ => True

theorem Forward.newRule {db : Db} {op : EngineOp} (h : Forward op) : NewRule db op := by
  rcases op with o | o
  · cases o with
    | writeStatus cid s => cases s <;> first | exact h.elim | trivial
    | _ => trivial
  · trivial

theorem Probe.forward {op : EngineOp} (h : Probe op) : Forward op := by
  rcases op with o | o
  · cases o <;> exact h.elim
  · trivial

theorem Survey.forward {op : EngineOp} (h : Survey op) : Forward op := by
  rcases op with o | o
  · cases o with
    | writeStatus cid s => cases s <;> trivial
    | _ => trivial
  · trivial

section Rule

variable {α β : Type} {E : Env} {pre : Db → EngineOp → Prop} {db : Db} {cid : String}

/-- The guarantee of a coroutine while the others move the store onward. -/
abbrev Beside (E : Env) (pre : Db → EngineOp → Prop) (p : Eff α) (Q : Except Exn α → Db → Prop)
    (db : Db) : Prop :=
  wp ((sem E).among Onward) (within Onward pre) p Q db

/-- What lasts under every move onward lasts beside any coroutine of the footprint. -/
theorem beside_uses {F : EngineOp → Prop} {p : Eff α} {I : Db → Prop} (hp : Uses F p)
    (hpre : ∀ db op, F op → pre db op) (hI : ∀ a b, Onward a b → I a → I b) (h₀ : I db) :
    Beside E pre p (fun _ db' => I db') db :=
  hp.among h₀ hI (fun db _ hop _ => hpre db _ hop) fun _ _ _ _ _ h hs => hI _ _ (step_onward hs) h

/-- A status update that returns has left the order in that status. -/
theorem beside_updateStatus {s : OrderState}
    (hread : ∀ db₁, Onward db db₁ → pre db₁ (.store (.fetchOrder cid)))
    (hwrite : ∀ db₁, Onward db db₁ → pre db₁ (.store (.writeStatus cid s))) :
    Beside E pre (updateStatus cid s)
      (outcome (fun _ db' => ∃ e, db'.find cid = some e ∧ e.row.status = s) fun _ _ => True) db := by
  unfold updateStatus
  refine wp_bind.mpr (wp_among_perform fun db₁ h₁ => ⟨hread db₁ h₁, fun r db' hs => ?_⟩)
  obtain ⟨rfl, hr⟩ := step_fetchOrder hs
  cases r with
  | error x => trivial
  | ok row =>
    obtain rfl := hr row rfl
    rw [outcome_ok]
    cases he : db'.find cid with
    | none => simp only [Db.fetchOrder, he]; trivial
    | some e =>
      rw [fetchOrder_of_find he]
      dsimp only
      split
      · rename_i hsame
        exact ⟨e, he, hsame⟩
      · split
        · refine wp_among_perform fun db₂ h₂ => ⟨hwrite db₂ (trans_of Onward h₁ h₂), fun r db₃ hw => ?_⟩
          cases r with
          | error x => trivial
          | ok u =>
            -- the row is still there, so the write found it
            obtain ⟨e₂, he₂⟩ := Option.isSome_iff_exists.mp (h₂.stays cid (by rw [he]; rfl))
            exact step_writeStatus_ok he₂ hw
        · trivial

end Rule

section Forward

variable (R : Router)

theorem forward_ending {cid : String} :
    ∀ s ∈ [OrderState.pendingCancel, .cancelled], Forward (.store (.writeStatus cid s)) := by
  simp [Forward]

theorem forward_cancel (cid : String) : Uses Forward (R.cancel cid) :=
  R.uses_cancel (fun _ => Probe.forward) trivial trivial forward_ending fun _ => trivial

theorem forward_placeAndSettle (fuel : Nat) (a : AdapterId) (o : NormalizedOrder) :
    Uses Forward (R.placeAndSettle fuel a o) := by
  refine (uses_ext trivial).bind fun ack => ?_
  split
  · exact Uses.bind (uses_updateStatus trivial trivial) fun _ =>
      (uses_store trivial).bind fun _ => trivial
  · split
    · exact (R.survey_recover fuel o).mono fun _ => Survey.forward
    · exact Router.uses_settle trivial trivial (fun _ => trivial) forward_ending trivial

theorem forward_submit (fuel : Nat) (o : NormalizedOrder) (sid : Option String) :
    Uses Forward (R.submit fuel o sid) := by
  refine (R.uses_assertDisengaged.mono fun _ => Probe.forward).bind fun _ => ?_
  refine (uses_store trivial).bind fun existing => ?_
  split
  · trivial
  · refine ((R.uses_gates o).mono fun _ => Probe.forward).bind fun a => ?_
    refine Uses.bind ?_ fun done => Router.uses_readBack trivial done
    refine ((R.uses_acquireLock _).mono fun _ => Probe.forward).bind fun acquired => ?_
    refine Uses.tryFinally ?_ ((R.uses_releaseLock _ acquired).mono fun _ => Probe.forward)
    unfold Router.submitLocked
    split
    · refine (Router.uses_insertFresh trivial).bind fun fresh => ?_
      cases fresh with
      | true => exact (forward_placeAndSettle R fuel a o).bind fun _ => trivial
      | false =>
        refine (uses_store trivial).bind fun row => ?_
        split <;> trivial
    · exact (Router.uses_awaitConcurrent trivial trivial _).bind fun _ => trivial

variable {α : Type} {E : Env} {db : Db}

theorem newRule_forward {p : Eff α} (hp : Uses Forward p) :
    Beside E NewRule p (fun _ _ => True) db :=
  beside_uses (I := fun _ => True) hp (fun _ _ => Forward.newRule) (fun _ _ _ _ => trivial) trivial

/-- The venue leg of an amend writes NEW only on an order it has put in PENDING_REPLACE. -/
theorem newRule_amendAt (a : AdapterId) (cid : String) (p : Option Decimal) (q : Option Int)
    (filled : Int) : Beside E NewRule (Router.amendAt a cid p q filled) (fun _ _ => True) db := by
  have hrestore : Uses Forward (Router.restorePartial cid filled) := by
    unfold Router.restorePartial
    split
    · exact uses_updateStatus trivial trivial
    · trivial
  unfold Router.amendAt
  refine wp_seq (I := fun _ => Past cid) ?_ fun _ db₁ hpast => ?_
  · refine wp_mono (beside_updateStatus (fun _ _ => trivial) fun _ _ => trivial) fun x db' h => ?_
    cases x with
    | error _ => trivial
    | ok _ =>
      obtain ⟨e, he, hs⟩ := h
      exact ⟨e, he, by rw [hs]; decide⟩
  · refine wp_seq (wp_outcome (I := Past cid) ?_ fun _ _ _ => trivial) fun ack db₂ hpast₂ => ?_
    · refine beside_uses (Router.external_venueAmend a cid p q) (fun db op hop => ?_)
        (fun _ _ h => h.past cid) hpast
      rcases op with o | o
      · exact hop.elim
      · trivial
    · split
      · exact newRule_forward ((uses_store trivial).bind fun _ => hrestore.bind fun _ =>
          (Router.uses_get trivial).bind fun _ => trivial)
      · exact wp_seq (beside_updateStatus (fun _ _ => trivial) fun db₃ h₃ => h₃.past cid hpast₂)
          fun _ _ _ => newRule_forward (hrestore.bind fun _ => trivial)

theorem newRule_amend (fuel : Nat) (cid : String) (newCid : Option String) (p : Option Decimal)
    (q : Option Int) : Beside E NewRule (R.amend fuel cid newCid p q) (fun _ _ => True) db := by
  have hgo {β γ : Type} {p : Eff β} {f : β → Eff γ} {db : Db} (hp : Uses Forward p)
      (hf : ∀ a db', Beside E NewRule (f a) (fun _ _ => True) db') :
      Beside E NewRule (p.bind f) (fun _ _ => True) db :=
    wp_seq (wp_outcome (newRule_forward hp) fun _ _ _ => trivial) fun a db' _ => hf a db'
  unfold Router.amend
  refine hgo (R.uses_assertDisengaged.mono fun _ => Probe.forward) fun _ _ => ?_
  split
  · trivial
  · refine hgo (uses_store trivial) fun row _ => ?_
    cases row with
    | none => trivial
    | some row =>
      refine hgo (uses_lift _) fun caps _ => ?_
      split
      · unfold Router.amendNative
        dsimp only
        split
        · trivial
        · split
          · trivial
          · refine hgo (uses_store trivial) fun result _ => ?_
            cases result with
            | none => trivial
            | some result =>
              generalize Router.amendedOrder row row.clientOrderId p q = built
              refine hgo (uses_lift _) fun _ _ => hgo (uses_lift _) fun amended _ => ?_
              refine hgo ((R.uses_riskCheck amended).mono fun _ => Probe.forward) fun _ _ => ?_
              refine hgo (uses_lift _) fun a _ => ?_
              refine hgo ((Router.uses_breakerGuard a).mono fun _ => Probe.forward) fun _ _ => ?_
              exact newRule_amendAt a _ p q _
      · unfold Router.amendCancelReplace
        split
        · trivial
        · rename_i newCid
          generalize Router.amendedOrder row newCid p q = built
          refine hgo (forward_cancel R _) fun _ _ => hgo (uses_lift _) fun replacement _ => ?_
          exact newRule_forward (forward_submit R fuel replacement _)

/-- No call writes NEW on an order that waits for its ack. -/
theorem newRule_request (q : Request) : Beside E NewRule q.prog (fun _ _ => True) db := by
  have hdrop {β : Type} {p : Eff β} (hp : Uses Forward p) :
      Beside E NewRule (p.bind fun _ => .ret ()) (fun _ _ => True) db :=
    newRule_forward (hp.bind fun _ => uses_ret _)
  cases q with
  | submit R fuel o sid => exact hdrop (forward_submit R fuel o sid)
  | cancel R cid => exact hdrop (forward_cancel R cid)
  | amend R fuel cid newCid p q =>
    exact wp_seq (wp_outcome (newRule_amend R fuel cid newCid p q) fun _ _ _ => trivial)
      fun _ _ _ => trivial
  | massCancel R =>
    exact hdrop ((uses_store trivial).bind fun rows => R.uses_sweep (fun _ => trivial)
      (fun _ => forward_ending) (fun _ _ => trivial) rows)
  | reconcileLiberator | reconcileStreamingPro =>
    exact hdrop ((Reconcile.survey_reconcileOnce fun _ => uses_ext trivial).mono
      fun _ => Survey.forward)
  | resolveOrderNow cid => exact hdrop ((survey_resolveOrderNow cid).mono fun _ => Survey.forward)

end Forward

/-! ## Waiting or resolved -/

/-- Every order is PENDING_NEW or resolved. -/
def Sound (db : Db) : Prop :=
  ∀ cid e, db.find cid = some e → e.row.status = .pendingNew ∨ isResolved e.row = true

/-- The one way to NEW without a handle is a status write on a waiting order. -/
theorem Change.sound {o : StoreOp} {e e' : Entry} (h : Change o e e')
    (he : e.row.status = .pendingNew ∨ isResolved e.row = true)
    (hrule : o = .writeStatus e.row.clientOrderId .new → e.row.status ≠ .pendingNew) :
    e'.row.status = .pendingNew ∨ isResolved e'.row = true := by
  rcases he with hnew | hres
  · cases h with
    | ack no hs => exact .inr (isResolved_iff.mpr (.inl rfl))
    | replace p q hs => rw [hnew] at hs; cases hs
    | @status e s hl =>
      change s = .pendingNew ∨ isResolved (Db.withStatus e s).row = true
      rw [hnew] at hl
      cases s with
      | pendingNew => exact .inl rfl
      | new => exact absurd hnew (hrule rfl)
      | rejected => exact .inr (isResolved_iff.mpr (.inr (show isTerminal .rejected = true by decide)))
      | _ => cases hl
    | reason => exact .inl hnew
    | fill price hp hl =>
      rw [hnew] at hl
      revert hl
      unfold Db.fillTarget
      split <;> intro hl <;> cases hl
  · exact .inr (h.stays_resolved hres)

theorem step_sound {E : Env} {db db' : Db} {op : EngineOp} {r : Except Exn op.Res}
    (h : (sem E).step db op r db') (hsound : Sound db) (hrule : NewRule db op) : Sound db' := by
  intro cid e' he'
  rcases step_find h cid with heq | ⟨ord, sid, t, e, -, -, -, hrow, -, he⟩ |
    ⟨o, e, e₁, rfl, hc, rfl, he, he₁⟩
  · exact hsound cid e' (heq ▸ he')
  · rw [he] at he'
    obtain rfl := Option.some.inj he'
    exact .inl (by rw [hrow]; rfl)
  · rw [he₁] at he'
    obtain rfl := Option.some.inj he'
    refine hc.sound (hsound _ e he) fun ho => ?_
    subst ho
    obtain ⟨e₂, he₂, hpast⟩ : Past e.row.clientOrderId db := hrule
    rw [he] at he₂
    obtain rfl := Option.some.inj he₂
    exact hpast

/-! ## A placement that is confirmed -/

section Fresh

variable {α β : Type} {E : Env} {db : Db} {cid : String} (R : Router)

/-- What is stored stays stored beside and under any coroutine. -/
theorem beside_stored (p : Eff α) (h : (db.find cid).isSome = true) :
    Beside E (fun _ _ => True) p (fun _ db' => (db'.find cid).isSome = true) db :=
  beside_uses (uses_univ p) (fun _ _ _ => trivial) (fun _ _ h => h.stays cid) h

theorem beside_resolved (p : Eff α) (h : Resolved cid db) :
    Beside E (fun _ _ => True) p (fun _ db' => Resolved cid db') db :=
  beside_uses (uses_univ p) (fun _ _ _ => trivial) (fun _ _ h => h.resolved cid) h

/-- Whatever comes first, the order is still there for the rest. -/
theorem stored_seq {p : Eff α} {f : α → Eff β} {Q : Except Exn β → Db → Prop}
    (h : (db.find cid).isSome = true)
    (herr : ∀ e db', (db'.find cid).isSome = true → Q (.error e) db')
    (hf : ∀ a db', (db'.find cid).isSome = true → Beside E (fun _ _ => True) (f a) Q db') :
    Beside E (fun _ _ => True) (p.bind f) Q db :=
  wp_seq (wp_outcome (beside_stored p h) herr) hf

/-- `resolve_order_now` says yes only for a resolved order, if the order is there. -/
theorem beside_resolveOrderNow (h : (db.find cid).isSome = true) :
    Beside E (fun _ _ => True) (resolveOrderNow cid)
      (outcome (fun b db' => (db'.find cid).isSome = true ∧ (b = true → Resolved cid db'))
        fun _ db' => (db'.find cid).isSome = true) db := by
  have hread {db₁ db' : Db} {x : Option OrderRow} {row : OrderRow}
      (hs : (sem E).step db₁ (.store (.fetchOrder cid)) (.ok x) db') (hx : x = some row)
      (hr : isResolved row = true) : Resolved cid db' := by
    obtain ⟨rfl, hrow⟩ := step_fetchOrder hs
    obtain ⟨e, he, rfl⟩ := Option.map_eq_some_iff.mp ((hrow x rfl).symm.trans hx)
    exact ⟨e, he, hr⟩
  unfold resolveOrderNow
  refine wp_bind.mpr (wp_among_perform fun db₁ h₁ => ⟨trivial, fun r db₂ hs => ?_⟩)
  have hstored : (db₂.find cid).isSome = true := step_find_isSome hs (h₁.stays cid h)
  cases r with
  | error x => exact hstored
  | ok x =>
    rw [outcome_ok]
    cases x with
    | none =>
      -- the order is there, so it is read
      obtain ⟨rfl, hrow⟩ := step_fetchOrder hs
      obtain ⟨e, he⟩ := Option.isSome_iff_exists.mp hstored
      rw [fetchOrder_of_find he] at hrow
      cases hrow none rfl
    | some row =>
      dsimp only
      split
      · rename_i hres
        exact ⟨hstored, fun _ => hread hs rfl hres⟩
      · refine stored_seq hstored (fun _ _ h => h) fun _ db₃ h₃ => ?_
        refine stored_seq h₃ (fun _ _ h => h) fun _ db₄ h₄ => ?_
        refine stored_seq h₄ (fun _ _ h => h) fun _ db₅ h₅ => ?_
        refine stored_seq h₅ (fun _ _ h => h) fun _ db₆ h₆ => ?_
        refine wp_bind.mpr (wp_among_perform fun db₇ h₇ => ⟨trivial, fun r db₈ hs' => ?_⟩)
        have hstored' := step_find_isSome hs' (h₇.stays cid h₆)
        cases r with
        | error x => exact hstored'
        | ok x =>
          refine ⟨hstored', fun hany => ?_⟩
          obtain ⟨row', hrow', hres⟩ := Option.any_eq_true .. |>.mp hany
          exact hread hs' hrow' hres

theorem beside_recoverHandle (h : (db.find cid).isSome = true) (t cadence deadline : Time)
    (minPolls : Int) (fuel : Nat) (attempts : Int) (readOk : Bool) :
    Beside E (fun _ _ => True)
      (HandleRecovery.recoverHandle (resolveOrderNow cid) t cadence deadline minPolls fuel attempts
        readOk)
      (outcome (fun res db' => res = .confirmed → Resolved cid db') fun _ _ => True) db := by
  induction fuel generalizing db attempts readOk with
  | zero => trivial
  | succ fuel ih =>
    unfold HandleRecovery.recoverHandle HandleRecovery.poll
    refine wp_seq (I := fun answer db' => (db'.find cid).isSome = true ∧
      (answer = some true → Resolved cid db')) ?_ fun answer db₁ h₁ => ?_
    · refine wp_tryExcept.mpr (wp_bind.mpr (wp_mono (beside_resolveOrderNow h) fun x db' hx => ?_))
      cases x with
      | ok b => exact ⟨hx.1, fun hb => hx.2 (Option.some.inj hb)⟩
      | error e => exact ⟨hx, fun hb => by cases hb⟩
    · split
      · rename_i hyes
        exact fun _ => h₁.2 hyes
      · refine stored_seq h₁.1 (fun _ _ _ => trivial) fun now db₂ h₂ => ?_
        split
        · intro hconf
          split at hconf <;> cases hconf
        · exact stored_seq h₂ (fun _ _ _ => trivial) fun _ db₃ h₃ => ih h₃ _ _

/-- `ack_order` that answers ok leaves the handle on the row. -/
theorem step_ackOrder_ok {db' : Db} {no : String}
    (h : (sem E).step db (.store (.ackOrder cid no)) (.ok ()) db') : Resolved cid db' := by
  rcases h with ⟨t, ht⟩ | ⟨-, x, hx, -⟩
  · change db.ackOrder cid no = _ at ht
    rcases Db.ackOrder_cases db cid no with ⟨e, he, hs, hc⟩ | ⟨x, hc⟩
    · rw [hc] at ht
      obtain rfl := (Prod.mk.inj ht).2
      obtain rfl := Db.find_key he
      exact ⟨_, by rw [find_change (.ack no hs) he, if_pos rfl], isResolved_iff.mpr (.inl rfl)⟩
    · rw [hc] at ht
      cases (Prod.mk.inj ht).1
  · cases hx

/-- A placement answers `confirmed` only for an order that is resolved. -/
theorem beside_placeAndSettle (fuel : Nat) (a : AdapterId) (o : NormalizedOrder)
    (h : (db.find o.clientOrderId).isSome = true) :
    Beside E (fun _ _ => True) (R.placeAndSettle fuel a o)
      (outcome (fun res db' => res = .confirmed → Resolved o.clientOrderId db')
        fun _ _ => True) db := by
  unfold Router.placeAndSettle
  refine stored_seq h (fun _ _ _ => trivial) fun ack db₁ h₁ => ?_
  split
  · refine wp_seq (beside_updateStatus (fun _ _ => trivial) fun _ _ => trivial) fun _ db₂ hs => ?_
    obtain ⟨e, he, hrej⟩ := hs
    have hres : Resolved o.clientOrderId db₂ :=
      ⟨e, he, isResolved_iff.mpr (.inr (by rw [hrej]; decide))⟩
    exact wp_seq (wp_outcome (beside_resolved _ hres) fun _ _ _ => trivial) fun _ db₃ h₃ _ => h₃
  · split
    · unfold Router.recoverHandle
      split
      · refine stored_seq h₁ (fun _ _ _ => trivial) fun row db₂ h₂ => ?_
        exact stored_seq h₂ (fun _ _ _ => trivial) fun t db₃ h₃ =>
          beside_recoverHandle h₃ _ _ _ _ _ _ _
      · exact fun hu => by cases hu
    · rename_i no
      unfold Router.settle
      refine wp_seq (I := fun _ => Resolved o.clientOrderId) ?_ fun _ db₂ hres => ?_
      · refine wp_among_perform fun db₂ _ => ⟨trivial, fun r db₃ hs => ?_⟩
        cases r with
        | ok _ => exact step_ackOrder_ok hs
        | error x => trivial
      · exact wp_mono (beside_resolved _ hres) fun x _ h => by cases x <;> first | exact fun _ => h | trivial

/-- What is returned as `confirmed` carries a handle or is terminal; anything else is reported
    pending or unknown. -/
def HonestOutcome (out : SubmitOutcome) : Prop :=
  out.resolution = .confirmed →
    out.result.brokerOrderId.isSome = true ∨ isTerminal out.result.engineState = true

/-- Honest, if the submit placed the order itself. -/
def FreshHonest (out : SubmitOutcome) : Prop := out.duplicate = false → HonestOutcome out

/-- What the single-flight block hands on: a served duplicate, or a resolution of its own. -/
def Handed (cid : String) : SubmitOutcome ⊕ HandleResolution → Db → Prop
  | .inl out, _ => out.duplicate = true
  | .inr res, db => res = .confirmed → Resolved cid db

theorem beside_awaitConcurrent (n : Nat) :
    Beside E (fun _ _ => True) (Router.awaitConcurrent cid n)
      (outcome (fun out _ => out.duplicate = true) fun _ _ => True) db := by
  induction n generalizing db with
  | zero =>
    refine wp_bind.mpr (wp_among_perform fun db₁ _ => ⟨trivial, fun r db₂ _ => ?_⟩)
    rcases r with x | (_ | row) <;> trivial
  | succ n ih =>
    refine wp_bind.mpr (wp_among_perform fun db₁ _ => ⟨trivial, fun r db₂ _ => ?_⟩)
    rcases r with x | (_ | row)
    · trivial
    · refine wp_bind.mpr (wp_among_perform fun db₃ _ => ⟨trivial, fun r db₄ _ => ?_⟩)
      cases r with
      | ok _ => exact ih
      | error _ => trivial
    · exact rfl

theorem beside_submitLocked (fuel : Nat) (a : AdapterId) (o : NormalizedOrder)
    (sid : Option String) (acquired : Bool) :
    Beside E (fun _ _ => True) (R.submitLocked fuel a o sid acquired)
      (outcome (Handed o.clientOrderId) fun _ _ => True) db := by
  unfold Router.submitLocked
  split
  · refine wp_seq (I := fun fresh db' => fresh = true →
      (db'.find o.clientOrderId).isSome = true) ?_ fun fresh db₁ hfresh => ?_
    · refine wp_tryExcept.mpr (wp_bind.mpr ?_)
      refine wp_among_perform fun db₁ _ => ⟨trivial, fun r db₂ hs => ?_⟩
      cases r with
      | ok _ =>
        obtain ⟨-, t, e, he, -⟩ := step_insert_ok hs
        exact fun _ => by rw [he]; rfl
      | error x =>
        rw [outcome_error]
        cases x with
        | duplicateOrderSignal cid => exact fun hf => by cases hf
        | _ => trivial
    · cases fresh with
      | true => exact wp_seq (beside_placeAndSettle R fuel a o (hfresh rfl)) fun _ _ h => h
      | false =>
        refine wp_bind.mpr (wp_among_perform fun db₂ _ => ⟨trivial, fun r db₃ _ => ?_⟩)
        rcases r with x | (_ | row) <;> trivial
  · exact wp_seq (beside_awaitConcurrent _) fun _ _ h => h

theorem beside_readBack (done : SubmitOutcome ⊕ HandleResolution) (h : Handed cid done db) :
    Beside E (fun _ _ => True) (Router.readBack cid done)
      (outcome (fun out _ => FreshHonest out) fun _ _ => True) db := by
  cases done with
  | inl out =>
    intro hfresh
    rw [show out.duplicate = true from h] at hfresh
    cases hfresh
  | inr res =>
    refine wp_bind.mpr (wp_among_perform fun db₁ h₁ => ⟨trivial, fun r db₂ hs => ?_⟩)
    obtain ⟨rfl, hr⟩ := step_fetchOrderResult hs
    rcases r with x | (_ | row)
    · trivial
    · trivial
    · intro _ hconf
      -- the order was resolved before this read, so it is read resolved
      obtain ⟨e, he, hres⟩ := h₁.resolved cid (h hconf)
      have hrow := hr _ rfl
      rw [fetchOrderResult_of_find he] at hrow
      obtain rfl := Option.some.inj hrow
      exact isResolved_iff.mp hres

theorem beside_submit (fuel : Nat) (o : NormalizedOrder) (sid : Option String) :
    Beside E (fun _ _ => True) (R.submit fuel o sid)
      (outcome (fun out _ => FreshHonest out) fun _ _ => True) db := by
  have hany {β : Type} (p : Eff β) {db : Db} :
      Beside E (fun _ _ => True) p (outcome (fun _ _ => True) fun _ _ => True) db :=
    wp_outcome (beside_uses (I := fun _ => True) (uses_univ p) (fun _ _ _ => trivial)
      (fun _ _ _ _ => trivial) trivial) fun _ _ _ => trivial
  unfold Router.submit
  refine wp_seq (hany _) fun _ db₁ _ => wp_seq (hany _) fun existing db₂ _ => ?_
  cases existing with
  | some row => exact fun hfresh => by cases hfresh
  | none =>
    refine wp_seq (hany _) fun a db₃ _ => ?_
    refine wp_seq (I := Handed o.clientOrderId) ?_ fun done db₄ hd => beside_readBack done hd
    unfold Router.singleFlight
    refine wp_seq (hany _) fun acquired db₄ _ => wp_tryFinally.mpr ?_
    refine wp_mono (beside_submitLocked R fuel a o sid acquired) fun x db₅ hx => ?_
    cases x with
    | error e => exact hany _
    | ok done =>
      refine wp_outcome ?_ fun _ _ _ => trivial
      refine beside_uses (uses_univ _) (fun _ _ _ => trivial) (fun db db' hon hd => ?_) hx
      cases done with
      | inl out => exact hd
      | inr res => exact fun hconf => hon.resolved _ (hd hconf)

end Fresh

/-! ## A row that is served -/

section Served

variable {α β : Type} {cid : String} {h : History}

/-- No insert of the order so far. -/
def Uninserted (cid : String) (h : History) : Prop := ∀ ev ∈ h, isInsertOf cid ev = false

/-- `x` answered a read of the order's result row, with no insert of the order before it. -/
def Sees (cid : String) (h : History) (x : Except Exn (Option OrderResultRow)) : Prop :=
  ∃ a b, h = a ++ ⟨.store (.fetchOrderResult cid), x⟩ :: b ∧ Uninserted cid a

/-- Such reads have found nothing. -/
def Vetted (cid : String) (h : History) : Prop := ∀ x, Sees cid h x → x = .ok none

/-- The outcome of a submit that is served the row `r`. -/
def servedOutcome (r : OrderResultRow) : SubmitOutcome := ⟨Router.toResult r, true, .confirmed⟩

/-- What a submit that has returned `out` has read: nothing, or the row it was served. -/
def ReadsOf (cid : String) (out : SubmitOutcome) (h : History) : Prop :=
  (∀ x, Sees cid h x → x = .ok none ∨ ∃ r, x = .ok (some r) ∧ out = servedOutcome r) ∧
    (out.duplicate = true → ∃ r, Sees cid h (.ok (some r)) ∧ out = servedOutcome r)

/-- Neither a read of the order's result row nor its insert. -/
def Aside (cid : String) : EngineOp → Prop
  | .store (.fetchOrderResult cid') => cid' ≠ cid
  | .store (.insertOrder o _) => o.clientOrderId ≠ cid
  | _ => True

theorem Probe.aside {op : EngineOp} (hp : Probe op) : Aside cid op := by
  rcases op with o | o
  · cases o <;> exact hp.elim
  · trivial

theorem Sees.snoc {x : Except Exn (Option OrderResultRow)} (hx : Sees cid h x)
    (ev : Event engineSig) : Sees cid (h ++ [ev]) x := by
  obtain ⟨a, b, rfl, ha⟩ := hx
  exact ⟨a, b ++ [ev], by simp, ha⟩

/-- A read that is seen was seen before, or is the last event. -/
theorem sees_snoc {ev : Event engineSig} {x : Except Exn (Option OrderResultRow)}
    (hx : Sees cid (h ++ [ev]) x) :
    Sees cid h x ∨ Uninserted cid h ∧ ev = ⟨.store (.fetchOrderResult cid), x⟩ := by
  obtain ⟨a, b, heq, ha⟩ := hx
  rcases List.eq_nil_or_concat b with rfl | ⟨b', y, rfl⟩
  · obtain ⟨rfl, hlast⟩ := List.append_inj' heq rfl
    exact .inr ⟨ha, (List.cons.inj hlast).1⟩
  · have heq' : h ++ [ev] = (a ++ ⟨.store (.fetchOrderResult cid), x⟩ :: b') ++ [y] := by
      rw [heq]; simp
    obtain ⟨rfl, -⟩ := List.append_inj' heq' rfl
    exact .inl ⟨a, b', rfl, ha⟩

theorem sees_aside {op : EngineOp} (hop : Aside cid op) {r : Except Exn op.Res}
    {x : Except Exn (Option OrderResultRow)} (hx : Sees cid (h ++ [⟨op, r⟩]) x) :
    Sees cid h x := by
  rcases sees_snoc hx with hx | ⟨-, hev⟩
  · exact hx
  · obtain ⟨rfl, -⟩ := Event.mk.inj hev
    exact absurd rfl hop

theorem Uninserted.snoc (hu : Uninserted cid h) {op : EngineOp} (hop : Aside cid op)
    (r : Except Exn op.Res) : Uninserted cid (h ++ [⟨op, r⟩]) := by
  intro ev hev
  rcases List.mem_append.mp hev with hev | hev
  · exact hu ev hev
  · obtain rfl := List.mem_singleton.mp hev
    by_contra hins
    obtain ⟨o, sid, hcid, heq⟩ := isInsertOf_iff.mp (by simpa using hins)
    obtain ⟨rfl, -⟩ := Event.mk.inj heq
    exact hop hcid

/-- After an own insert nothing counts any more. -/
theorem Vetted.after_insert (hv : Vetted cid h) (hi : ¬ Uninserted cid h)
    (ev : Event engineSig) : Vetted cid (h ++ [ev]) ∧ ¬ Uninserted cid (h ++ [ev]) := by
  refine ⟨fun x hx => ?_, fun hu => hi fun ev' hev => hu ev' (List.mem_append_left _ hev)⟩
  rcases sees_snoc hx with hx | ⟨hu, -⟩
  · exact hv x hx
  · exact absurd hu hi

theorem ReadsOf.aside {out : SubmitOutcome} (ho : ReadsOf cid out h) {op : EngineOp}
    (hop : Aside cid op) (r : Except Exn op.Res) : ReadsOf cid out (h ++ [⟨op, r⟩]) :=
  ⟨fun x hx => ho.1 x (sees_aside hop hx),
    fun hd => (ho.2 hd).imp fun _ hr => ⟨hr.1.snoc _, hr.2⟩⟩

/-- A read that finds the row accounts for the outcome it is served as. -/
theorem ReadsOf.served (hv : Vetted cid h) (hu : Uninserted cid h) (r : OrderResultRow) :
    ReadsOf cid (servedOutcome r) (h ++ [⟨.store (.fetchOrderResult cid), .ok (some r)⟩]) := by
  refine ⟨fun x hx => ?_, fun _ => ⟨r, ⟨h, [], rfl, hu⟩, rfl⟩⟩
  rcases sees_snoc hx with hx | ⟨-, hev⟩
  · exact .inl (hv x hx)
  · obtain ⟨-, hr⟩ := Event.mk.inj hev
    exact .inr ⟨r, (eq_of_heq hr).symm, rfl⟩

/-- A read that finds nothing. -/
theorem Vetted.unseen (hv : Vetted cid h) :
    Vetted cid (h ++ [⟨.store (.fetchOrderResult cid), .ok none⟩]) := by
  intro x hx
  rcases sees_snoc hx with hx | ⟨-, hev⟩
  · exact hv x hx
  · obtain ⟨-, hr⟩ := Event.mk.inj hev
    exact (eq_of_heq hr).symm

/-- What holds of a coroutine's own history, whatever the answers. -/
abbrev Locally (p : Eff α) (Q : Except Exn α → History → Prop) (h : History) : Prop :=
  wp (S := engineSig) Sem.free (fun _ _ => True) p Q h

/-- No insert of the order and no row of it so far. -/
def Blank (cid : String) (h : History) : Prop := Vetted cid h ∧ Uninserted cid h

theorem locally_aside {p : Eff α} (hp : Uses (Aside cid) p) {I : History → Prop}
    (hI : ∀ h op r, Aside cid op → I h → I (h ++ [⟨op, r⟩])) (h₀ : I h) :
    Locally p (fun _ h' => I h') h := by
  refine hp.keeps h₀ (fun _ _ _ _ => trivial) fun h' op r h'' hop hi hs => ?_
  rw [show h'' = h' ++ [⟨op, r⟩] from hs]
  exact hI h' op r hop hi

theorem Blank.aside (hb : Blank cid h) {op : EngineOp} (hop : Aside cid op)
    (r : Except Exn op.Res) : Blank cid (h ++ [⟨op, r⟩]) :=
  ⟨fun x hx => hb.1 x (sees_aside hop hx), hb.2.snoc hop r⟩

/-- First something beside the point. -/
theorem blank_seq {p : Eff α} {f : α → Eff β} {Q : Except Exn β → History → Prop}
    (hp : Uses (Aside cid) p) (hb : Blank cid h) (herr : ∀ e h', Q (.error e) h')
    (hf : ∀ a h', Blank cid h' → Locally (f a) Q h') : Locally (p.bind f) Q h :=
  wp_seq (wp_outcome (locally_aside hp (fun _ _ r hop hb => hb.aside hop r) hb)
    fun e h' _ => herr e h') hf

/-- A read of the result row: nothing, or the row that is served. -/
theorem locally_read {f : Option OrderResultRow → Eff β} {Q : Except Exn β → History → Prop}
    (hb : Blank cid h) (herr : ∀ e h', Q (.error e) h')
    (hnone : ∀ h', Blank cid h' → Locally (f none) Q h')
    (hsome : ∀ r h', ReadsOf cid (servedOutcome r) h' → Locally (f (some r)) Q h') :
    Locally ((Eff.store (.fetchOrderResult cid)).bind f) Q h := by
  refine wp_bind.mpr (wp_perform.mpr ⟨trivial, fun r h' hs => ?_⟩)
  rw [show h' = h ++ [⟨.store (.fetchOrderResult cid), r⟩] from hs]
  rcases r with e | (_ | r)
  · exact herr e _
  · refine hnone _ ⟨hb.1.unseen, fun ev hev => ?_⟩
    rcases List.mem_append.mp hev with hev | hev
    · exact hb.2 ev hev
    · rw [List.mem_singleton.mp hev]
      rfl
  · exact hsome r _ (.served hb.1 hb.2 r)

/-- What the single-flight block hands on, and what it has read. -/
def HandedOn (cid : String) : SubmitOutcome ⊕ HandleResolution → History → Prop
  | .inl out, h => ReadsOf cid out h
  | .inr _, h => Vetted cid h ∧ ¬ Uninserted cid h

theorem HandedOn.aside {done : SubmitOutcome ⊕ HandleResolution} (hd : HandedOn cid done h)
    {op : EngineOp} (hop : Aside cid op) (r : Except Exn op.Res) :
    HandedOn cid done (h ++ [⟨op, r⟩]) := by
  cases done with
  | inl out => exact ReadsOf.aside hd hop r
  | inr res => exact hd.1.after_insert hd.2 _

theorem locally_awaitConcurrent (n : Nat) (hb : Blank cid h) :
    Locally (Router.awaitConcurrent cid n)
      (outcome (fun out h' => ReadsOf cid out h') fun _ _ => True) h := by
  induction n generalizing h with
  | zero => exact locally_read hb (fun _ _ => trivial) (fun _ _ => trivial) fun _ _ hr => hr
  | succ n ih =>
    refine locally_read hb (fun _ _ => trivial) (fun h' hb' => ?_) fun _ _ hr => hr
    exact blank_seq (uses_ext trivial) hb' (fun _ _ => trivial) fun _ h'' hb'' => ih hb''

/-- After the own insert anything may follow. -/
theorem locally_inserted {p : Eff α} (hi : Vetted cid h ∧ ¬ Uninserted cid h) :
    Locally p (fun _ h' => Vetted cid h' ∧ ¬ Uninserted cid h') h := by
  refine (uses_univ p).keeps hi (fun _ _ _ _ => trivial) fun h' op r h'' _ hi' hs => ?_
  rw [show h'' = h' ++ [⟨op, r⟩] from hs]
  exact hi'.1.after_insert hi'.2 _

theorem locally_submitLocked (R : Router) (fuel : Nat) (a : AdapterId) (o : NormalizedOrder)
    (sid : Option String) (acquired : Bool) (hb : Blank o.clientOrderId h) :
    Locally (R.submitLocked fuel a o sid acquired)
      (outcome (HandedOn o.clientOrderId) fun _ _ => True) h := by
  unfold Router.submitLocked
  split
  · refine wp_seq (I := fun fresh h' => if fresh = true then
      Vetted o.clientOrderId h' ∧ ¬ Uninserted o.clientOrderId h'
      else Blank o.clientOrderId h') ?_ fun fresh h₁ hfresh => ?_
    · refine wp_tryExcept.mpr (wp_bind.mpr (wp_perform.mpr ⟨trivial, fun r h' hs => ?_⟩))
      rw [show h' = h ++ [⟨.store (.insertOrder o sid), r⟩] from hs]
      have hvetted : Vetted o.clientOrderId (h ++ [⟨.store (.insertOrder o sid), r⟩]) := by
        intro x hx
        rcases sees_snoc hx with hx | ⟨-, hev⟩
        · exact hb.1 x hx
        · cases (Event.mk.inj hev).1
      cases r with
      | ok _ =>
        refine ⟨hvetted, fun hu => ?_⟩
        have hins := hu _ (List.mem_append_right _ (List.mem_singleton_self _))
        rw [isInsertOf_iff.mpr ⟨o, sid, rfl, rfl⟩] at hins
        cases hins
      | error e =>
        rw [outcome_error]
        cases e with
        | duplicateOrderSignal cid =>
          refine ⟨hvetted, fun ev hev => ?_⟩
          rcases List.mem_append.mp hev with hev | hev
          · exact hb.2 ev hev
          · rw [List.mem_singleton.mp hev]
            rfl
        | _ => trivial
    · cases fresh with
      | true =>
        exact wp_seq (wp_outcome (locally_inserted hfresh) fun _ _ _ => trivial) fun _ _ hi => hi
      | false =>
        exact locally_read hfresh (fun _ _ => trivial) (fun _ _ => trivial) fun _ _ hr => hr
  · exact wp_seq (locally_awaitConcurrent _ hb) fun _ _ ho => ho

theorem locally_submit (R : Router) (fuel : Nat) (o : NormalizedOrder) (sid : Option String)
    (hb : Blank o.clientOrderId h) :
    Locally (R.submit fuel o sid)
      (outcome (fun out h' => ReadsOf o.clientOrderId out h') fun _ _ => True) h := by
  unfold Router.submit
  refine blank_seq (R.uses_assertDisengaged.mono fun _ => Probe.aside) hb (fun _ _ => trivial)
    fun _ h₁ hb₁ => ?_
  refine locally_read hb₁ (fun _ _ => trivial) (fun h₂ hb₂ => ?_) fun _ _ hr => hr
  refine blank_seq ((R.uses_gates o).mono fun _ => Probe.aside) hb₂ (fun _ _ => trivial)
    fun a h₃ hb₃ => ?_
  refine wp_seq (I := HandedOn o.clientOrderId) ?_ fun done h₄ hd => ?_
  · unfold Router.singleFlight
    refine blank_seq ((R.uses_acquireLock _).mono fun _ => Probe.aside) hb₃ (fun _ _ => trivial)
      fun acquired h₄ hb₄ => wp_tryFinally.mpr ?_
    refine wp_mono (locally_submitLocked R fuel a o sid acquired hb₄) fun x h₅ hx => ?_
    have hrelease := (R.uses_releaseLock ("exe:submit:" ++ o.clientOrderId) acquired).mono
      fun op hp => (Probe.aside hp : Aside o.clientOrderId op)
    cases x with
    | error e =>
      exact wp_outcome (locally_aside (I := fun _ => True) hrelease (fun _ _ _ _ _ => trivial)
        trivial) fun _ _ _ => trivial
    | ok done =>
      have hd : HandedOn o.clientOrderId done h₅ := hx
      exact wp_outcome (locally_aside hrelease (fun _ _ r hop hd => hd.aside hop r) hd)
        fun _ _ _ => trivial
  · cases done with
    | inl out => exact hd
    | inr res =>
      refine wp_seq (wp_outcome (locally_inserted hd) fun _ _ _ => trivial) fun row h₅ hi => ?_
      cases row with
      | none => trivial
      | some row => exact ⟨fun x hx => .inl (hi.1 x hx), fun hdup => by cases hdup⟩

end Served

section Run

variable {ι : Type} [DecidableEq ι] {E : Env} {requests : ι → Request} {P : Pool engineSig Db ι}

/-- In a run from an empty store an order waits for its ack without a handle, or is resolved. -/
theorem sound_run (hP : PoolReach (sem E) closed (engine requests Db.empty) P) :
    Sound P.state ∧ AllUnacked P.state := by
  induction hP with
  | refl =>
    refine ⟨fun cid e he => ?_, fun cid e he => ?_⟩ <;>
    · simp [engine, Db.find, Db.empty] at he
  | @tail Q _ hQ hstep ih =>
    cases hstep with
    | env he => exact he.elim
    | @thread i op k r s' hi hs =>
      have hrule : NewRule Q.state op :=
        rely_demand rfl (fun _ _ h => h.elim) (fun _ _ => uses_univ _)
          (fun _ _ _ _ _ h => step_onward h) (newRule_request (requests i)) hQ hi
      exact ⟨step_sound hs ih.1 hrule, step_unacked hs ih.2⟩

/-- Thread `i`, without having inserted the order, has read it while it was waiting for its ack. -/
def ReadsWaiting (E : Env) (requests : ι → Request) (i : ι) (cid : String)
    (P : Pool engineSig Db ι) : Prop :=
  ∃ Q Q' : Pool engineSig Db ι, ∃ r, PoolReach (sem E) closed (engine requests Db.empty) Q ∧
    PoolReach (sem E) closed Q' P ∧
    (sem E).step Q.state (.store (.fetchOrderResult cid)) r Q'.state ∧
    Q'.trace = Q.trace ++ [(i, ⟨.store (.fetchOrderResult cid), r⟩)] ∧
    Uninserted cid (localHistory i Q.trace) ∧
    ∃ e, Q.state.find cid = some e ∧ e.row.status = .pendingNew

variable {i : ι} {R : Router} {fuel : Nat} {o : NormalizedOrder} {sid : Option String}
  {out : SubmitOutcome}

/-- What a submit has returned is accounted for by what it has read. -/
theorem readsOf_run (hout : Played (R.submit fuel o sid) (localHistory i P.trace) (.ret out)) :
    ReadsOf o.clientOrderId out (localHistory i P.trace) := by
  refine hout.locally (locally_submit R fuel o sid ⟨fun x hx => ?_, fun ev hev => ?_⟩)
  · obtain ⟨a, b, heq, -⟩ := hx
    simp at heq
  · cases hev

theorem fresh_honest (hP : PoolReach (sem E) closed (engine requests Db.empty) P)
    (hi : requests i = .submit R fuel o sid)
    (hout : Played (R.submit fuel o sid) (localHistory i P.trace) (.ret out)) :
    FreshHonest out := by
  obtain ⟨_, _, hfresh⟩ := rely_returned rfl (fun _ _ h => h.elim)
    (fun j _ => uses_univ ((engine requests Db.empty).threads j))
    (fun _ _ _ _ _ h => step_onward h)
    (show (requests i).prog = _ by rw [hi]; rfl) (beside_submit R fuel o sid) hP hout
  exact hfresh

/-- A submit is honest about what it knows exactly if it did not read the order of another submit
    while that was waiting for its ack. -/
theorem resolution_honest_iff (hP : PoolReach (sem E) closed (engine requests Db.empty) P)
    (hi : requests i = .submit R fuel o sid)
    (hout : Played (R.submit fuel o sid) (localHistory i P.trace) (.ret out)) :
    HonestOutcome out ↔ ¬ ReadsWaiting E requests i o.clientOrderId P := by
  have hacc := readsOf_run hout
  constructor
  · rintro hhonest ⟨Q, Q', r, hQ, hQ', hs, htr, hun, e, he, hwait⟩
    obtain ⟨t, ht⟩ := reach_trace hQ'
    have hsees : Sees o.clientOrderId (localHistory i P.trace) r := by
      refine ⟨localHistory i Q.trace, localHistory i t, ?_, hun⟩
      rw [ht, htr, localHistory_append, localHistory_append, localHistory_self]
      simp
    obtain ⟨-, hr⟩ := step_fetchOrderResult hs
    rcases hacc.1 r hsees with rfl | ⟨row, rfl, rfl⟩
    · have hnone := hr none rfl
      rw [fetchOrderResult_of_find he] at hnone
      cases hnone
    · -- a waiting order has no handle, and the answer is `confirmed` all the same
      have hrow := hr _ rfl
      rw [fetchOrderResult_of_find he] at hrow
      obtain rfl := Option.some.inj hrow
      have hnone : e.row.brokerOrderId = none := (sound_run hQ).2 _ e he hwait
      rcases hhonest rfl with h | h
      · rw [show (servedOutcome (resultRow e)).result.brokerOrderId = none from hnone] at h
        cases h
      · rw [show (servedOutcome (resultRow e)).result.engineState = .pendingNew from hwait] at h
        cases h
  · intro hnot
    cases hd : out.duplicate with
    | false => exact fresh_honest hP hi hout hd
    | true =>
      obtain ⟨row, ⟨a, b, hsplit, hun⟩, rfl⟩ := hacc.2 hd
      obtain ⟨pre, post, htr, hpre, -⟩ := localHistory_split hsplit
      obtain ⟨Q, Q', hQ, hQ', hs, hQtr, hQtr'⟩ := event_source rfl hP htr
      obtain ⟨-, hr⟩ := step_fetchOrderResult hs
      obtain ⟨e, he, rfl⟩ := fetchOrderResult_some (hr _ rfl).symm
      have hpast : e.row.status ≠ .pendingNew := by
        intro hwait
        refine hnot ⟨Q, Q', _, hQ, hQ', hs, by rw [hQtr', hQtr], ?_, e, he, hwait⟩
        rw [hQtr, hpre]
        exact hun
      rcases (sound_run hQ).1 _ e he with hwait | hres
      · exact absurd hwait hpast
      · exact fun _ => isResolved_iff.mp hres

end Run

/-! ## Two submits of one order -/

/-- The row a history is served passes `test`. -/
def servedWith (cid : String) (test : OrderResultRow → Bool) : History → Bool
  | [] => false
  | ev :: h =>
    if isInsertOf cid ev then false
    else match ev with
      | ⟨.store (.fetchOrderResult cid'), .ok (some r)⟩ =>
        if cid' = cid then test r else servedWith cid test h
      | _ => servedWith cid test h

theorem servedWith_sees {cid : String} {test : OrderResultRow → Bool} {h : History}
    (hs : servedWith cid test h = true) : ∃ r, Sees cid h (.ok (some r)) ∧ test r = true := by
  induction h with
  | nil => cases hs
  | cons ev h ih =>
    have hlater (hev : isInsertOf cid ev = false) (hs : servedWith cid test h = true) :
        ∃ r, Sees cid (ev :: h) (.ok (some r)) ∧ test r = true := by
      obtain ⟨r, ⟨a, b, rfl, ha⟩, ht⟩ := ih hs
      refine ⟨r, ⟨ev :: a, b, rfl, fun ev' hev' => ?_⟩, ht⟩
      rcases List.mem_cons.mp hev' with rfl | hev'
      · exact hev
      · exact ha ev' hev'
    unfold servedWith at hs
    split at hs
    · cases hs
    · rename_i hins
      split at hs
      · rename_i cid' r
        split at hs
        · rename_i hcid
          subst hcid
          exact ⟨r, ⟨[], h, rfl, fun _ hm => by cases hm⟩, hs⟩
        · exact hlater (by simpa using hins) hs
      · exact hlater (by simpa using hins) hs

/-- Two submits of the sample order through one Liberator router. -/
def twoSubmits (_ : Bool) : Request := .submit liveRouter 0 (sampleOrderA .liberator) none

/-- The first one to its end, then the second one. -/
def twoSubmitsRun (H : Handler) : Pool engineSig Db Bool :=
  runPool H.step (List.replicate 20 false ++ List.replicate 20 true) (engine twoSubmits Db.empty)

theorem twoSubmitsRun_reach (H : Handler) :
    PoolReach (sem plainEnv) closed (engine twoSubmits Db.empty) (twoSubmitsRun H) :=
  runPool_reach (plain_follows H) _ _

def returned : Eff Unit → Bool
  | .ret _ => true
  | _ => false

/-- What the second submit is served in a computed run. -/
theorem second_served (H : Handler) (test : OrderResultRow → Bool)
    (hend : returned ((twoSubmitsRun H).threads true) = true)
    (hserved : servedWith cidA test (localHistory true (twoSubmitsRun H).trace) = true) :
    ∃ r, test r = true ∧ Played (liveRouter.submit 0 (sampleOrderA .liberator) none)
      (localHistory true (twoSubmitsRun H).trace) (.ret (servedOutcome r)) := by
  have hret : (twoSubmitsRun H).threads true = .ret () := by
    unfold returned at hend
    split at hend
    · assumption
    · cases hend
  obtain ⟨out, hout⟩ := exists_played (i := true) (f := fun _ => ())
    (p := liveRouter.submit 0 (sampleOrderA .liberator) none) rfl rfl
    (twoSubmitsRun_reach H) hret
  obtain ⟨r, hsees, ht⟩ := servedWith_sees hserved
  rcases (readsOf_run hout).1 _ hsees with hnone | ⟨r', hr', rfl⟩
  · cases hnone
  · obtain rfl := Option.some.inj (Except.ok.inj hr')
    exact ⟨r, ht, hout⟩

/-- The venue acks without a number, so the order waits; a repeated submit answers `confirmed`
    for it, with neither a handle nor a terminal state. -/
theorem repeated_submit_confirmed :
    ∃ out : SubmitOutcome,
      PoolReach (sem plainEnv) closed (engine twoSubmits Db.empty)
        (twoSubmitsRun (plainHandler 0 (fun _ => {}) [])) ∧
      Played (liveRouter.submit 0 (sampleOrderA .liberator) none)
        (localHistory true (twoSubmitsRun (plainHandler 0 (fun _ => {}) [])).trace) (.ret out) ∧
      out.resolution = .confirmed ∧ out.result.engineState = .pendingNew ∧
      out.result.brokerOrderId = none ∧ ¬ HonestOutcome out := by
  obtain ⟨r, ht, hout⟩ := second_served (plainHandler 0 (fun _ => {}) [])
    (fun r => r.row.status = .pendingNew && r.row.brokerOrderId.isNone)
    (by decide +kernel) (by decide +kernel)
  obtain ⟨hs, hno⟩ := Bool.and_eq_true_iff.mp ht
  have hwait : r.row.status = .pendingNew := of_decide_eq_true hs
  have hnone : r.row.brokerOrderId = none := Option.isNone_iff_eq_none.mp hno
  refine ⟨servedOutcome r, twoSubmitsRun_reach _, hout, rfl, hwait, hnone, ?_⟩
  intro hhonest
  rcases hhonest rfl with h | h
  · rw [show (servedOutcome r).result.brokerOrderId = none from hnone] at h
    cases h
  · rw [show (servedOutcome r).result.engineState = .pendingNew from hwait] at h
    cases h

/-- Where the venue gives the number with the ack, the repeated submit is honest, and has not read
    the order waiting. -/
theorem acked_submit_confirmed :
    ∃ out : SubmitOutcome, out.resolution = .confirmed ∧ HonestOutcome out ∧
      ¬ ReadsWaiting plainEnv twoSubmits true cidA (twoSubmitsRun liveHandler) := by
  obtain ⟨r, hno, hout⟩ := second_served liveHandler (fun r => r.row.brokerOrderId.isSome)
    (by decide +kernel) (by decide +kernel)
  have hhonest : HonestOutcome (servedOutcome r) := fun _ => .inl hno
  have hnot :=
    (resolution_honest_iff (i := true) (twoSubmitsRun_reach liveHandler) rfl hout).mp hhonest
  exact ⟨servedOutcome r, rfl, hhonest, hnot⟩

end ExecutionEngine
