/-
  What a refusal tells the caller of a submit or a cancel.

  A typed rejection crosses the API as a status and an envelope. A caller that is
  refused wants to know whether anything has happened. `refusal_harmless`: unless
  the code is `illegal_transition`, nothing has. The call has sent nothing to a
  venue, and its only statement to the store that writes, if it got that far, was an
  insert that the store refused. This holds in every interleaving with other
  calls, with store calls and everything outside failing as they like.

  Two things carry it. Before the insert a call only probes and reads (`Meek`), so
  its history stays clean. After it no rejection but `illegal_transition` can come
  (`Late`): that is what the guarded statements raise, and the reads find the row,
  since rows stay.
-/
import ExecutionEngine.Core.Acceptance

namespace ExecutionEngine.Refusal

open Async Async.Prog

/-! ## The envelope -/

/-- `_STATUS_BY_CODE` and `_THROTTLE_CAPS`. -/
def statusFor : Code → Nat
  | .riskRejected cap => if cap = "rate_limit" then 429 else 422
  | .killSwitchEngaged => 503
  | .stageRejected => 403
  | .realRoutingNotAuthorized => 409
  | .capabilityUnsupported => 422
  | .priceBandExceeded => 422
  | .duplicateBurstDetected => 409
  | .orderNotFound => 404
  | .liberatorAccountNotFound => 404
  | .illegalTransition => 409
  | .storeConstraintViolated => 422
  | .submitInFlight => 409
  | .amendRejected => 409
  | .brokerCircuitOpen => 503

/-- An error answer, without its `detail`. -/
structure ErrorAnswer where
  status : Nat
  code : String
  message : String
  clientOrderId : Option String
  deriving DecidableEq

/-- `_handle_rejection`; what is not a typed rejection has no envelope. -/
def handleRejection : Exn → Option ErrorAnswer
  | .rejected c message cid => some ⟨statusFor c, c.value, message, cid⟩
  | _ => none

/-! ## Clean histories -/

/-- Nothing asked of a venue, and nothing written to the store. -/
def Harmless : Event engineSig → Prop
  | ⟨.ext (.place _ _), _⟩ | ⟨.ext (.cancel _ _), _⟩ | ⟨.ext (.amend _ _ _ _), _⟩ => False
  | ⟨.store (.insertOrder _ _), r⟩ =>
    (∃ cid, r = .error (.duplicateOrderSignal cid)) ∨ ∃ c m cid, r = .error (.rejected c m cid)
  | ⟨.store (.ackOrder _ _), _⟩ | ⟨.store (.replaceOrder _ _ _), _⟩ => False
  | ⟨.store (.writeStatus _ _), _⟩ | ⟨.store (.setRejectReason _ _), _⟩ => False
  | ⟨.store (.applyFill _ _ _ _ _ _), _⟩ => False
  | _ => True

/-- Probes, and reads of the store. -/
def Meek : EngineOp → Prop
  | .store (.fetchOrder _) | .store (.fetchOrderResult _) => True
  | op => Probe op

theorem Meek.harmless {op : EngineOp} (h : Meek op) (r : Except Exn op.Res) : Harmless ⟨op, r⟩ := by
  rcases op with o | o <;> cases o <;> first | exact h.elim | trivial

theorem meek_of_probe {op : EngineOp} (h : Probe op) : Meek op := by
  rcases op with o | o
  · cases o <;> first | exact h | trivial
  · cases o <;> exact h

/-- The exceptions that only this code raises. -/
def isOwn : Exn → Bool
  | .rejected _ _ _ | .duplicateOrderSignal _ => true
  | _ => false

/-- The store raises them only as the answer of a statement, and what is outside raises none. -/
def OwnWords (db : Db) : (op : EngineOp) → Except Exn op.Res → Prop
  | .store o, r => ∀ e, r = .error e → isOwn e = true → o.Served db r db
  | .ext _, r => ∀ e, r = .error e → isOwn e = false

/-- The guarantee of a coroutine among others that leave the rows there. -/
abbrev Among {α : Type} (E : Env) (p : Eff α) (Q : Except Exn α → World → Prop) (x : World) :
    Prop :=
  wp ((sem E).amongWhere (fun _ => Records) fun _ => OwnWords) (fun _ _ => True) p Q x

def Clean (x : World) : Prop := ∀ ev ∈ x.2, Harmless ev

def Stored (cid : String) (x : World) : Prop := (x.1.find cid).isSome = true

/-- The only rejection that comes late. -/
def Late (e : Exn) : Prop := ∀ c m cid, e = .rejected c m cid → c = .illegalTransition

/-- A rejection with any other code is one before anything has happened. -/
def Honest (e : Exn) (x : World) : Prop :=
  ∀ c m cid, e = .rejected c m cid → c = .illegalTransition ∨ Clean x

section Guarantees

variable {α : Type} {E : Env} {x : World} {cid : String}

theorem Clean.snoc {s s' : Db} {h : History} (hx : Clean (s, h)) {ev : Event engineSig}
    (hev : Harmless ev) : Clean (s', h ++ [ev]) := by
  intro e he
  rcases List.mem_append.mp he with hold | hnew
  · exact hx e hold
  · exact List.mem_singleton.mp hnew ▸ hev

theorem Clean.honest (hx : Clean x) (e : Exn) : Honest e x := fun _ _ _ _ => .inr hx

theorem Late.honest {e : Exn} (he : Late e) (x : World) : Honest e x :=
  fun c m cid h => .inl (he c m cid h)

theorem clean_meek {p : Eff α} (hp : Uses Meek p) (hx : Clean x) :
    Among E p (fun _ y => Clean y) x :=
  hp.amongWhere hx (fun _ _ _ _ h => h) fun _ _ r _ _ hop hi _ => hi.snoc (hop.harmless r)

/-- A clean stretch before the rest. -/
theorem clean_seq {β : Type} {p : Eff α} {f : α → Eff β} {Q : Except Exn β → World → Prop}
    (hp : Uses Meek p) (hx : Clean x) (herr : ∀ e y, Honest e y → Q (.error e) y)
    (hf : ∀ a y, Clean y → Among E (f a) Q y) : Among E (p.bind f) Q x :=
  wp_seq (wp_outcome (clean_meek hp hx) fun e y hy => herr e y (hy.honest e)) hf

theorem among_any (p : Eff α) : Among E p (fun _ _ => True) x :=
  (uses_univ p).amongWhere (I := fun _ => True) trivial (fun _ _ _ _ h => h)
    fun _ _ _ _ _ _ h _ => h

theorem stored_keeps (p : Eff α) (hx : Stored cid x) : Among E p (fun _ y => Stored cid y) x :=
  (uses_univ p).amongWhere (I := Stored cid) hx (fun _ _ _ hr h => hr.stays cid h)
    fun _ _ _ _ _ _ h hs => step_find_isSome hs h

/-- A clean stretch about a row that is there. -/
theorem settled_seq {β : Type} {p : Eff α} {f : α → Eff β} (hp : Uses Meek p)
    (hx : Clean x ∧ Stored cid x)
    (hf : ∀ a y, Clean y ∧ Stored cid y → Among E (f a) (outcome (fun _ _ => True) Honest) y) :
    Among E (p.bind f) (outcome (fun _ _ => True) Honest) x :=
  wp_seq (wp_outcome (I := fun y => Clean y ∧ Stored cid y)
    (wp_and (clean_meek hp hx.1) (stored_keeps p hx.2)) fun e _ hy => hy.1.honest e) hf

/-- What a read finds is there. -/
theorem stored_fetchOrder (cid : String) : Among E (Eff.store (.fetchOrder cid))
    (outcome (fun row y => row.isSome = true → Stored cid y) fun _ _ => True) x := by
  obtain ⟨s, h⟩ := x
  refine wp_amongWhere_perform fun s₁ r s' _ _ hs => ?_
  cases r with
  | error e => trivial
  | ok row =>
    rcases hs with ⟨t, ht⟩ | ⟨-, e, he, -⟩
    · obtain ⟨hrow, rfl⟩ := Prod.mk.inj ht
      obtain rfl := Except.ok.inj hrow
      intro hsome
      simpa [Stored, Db.fetchOrder] using hsome
    · cases he

/-! ## Late rejections -/

/-- The typed answers of a statement. -/
theorem served_code {db db' : Db} {o : StoreOp} {c : Code} {m : String} {z : Option String}
    (h : o.Served db (.error (.rejected c m z)) db') :
    c = .illegalTransition ∨ ∃ ord sid, o = .insertOrder ord sid := by
  cases o with
  | fetchOpenOrders | fetchOrdersForReconcile =>
    obtain ⟨-, rows, hrows, -⟩ := h
    cases hrows
  | fetchOrder | fetchOrderResult =>
    obtain ⟨t, ht⟩ := h
    cases (Prod.mk.inj ht).1
  | insertOrder ord sid => exact .inr ⟨ord, sid, rfl⟩
  | ackOrder cid no =>
    obtain ⟨t, ht⟩ := h
    change db.ackOrder cid no = _ at ht
    grind [Db.ackOrder]
  | replaceOrder cid p q =>
    obtain ⟨t, ht⟩ := h
    change db.replaceOrder cid p q = _ at ht
    grind [Db.replaceOrder]
  | writeStatus cid s =>
    obtain ⟨t, ht⟩ := h
    change db.writeStatus cid s = _ at ht
    grind [Db.writeStatus]
  | setRejectReason cid reason =>
    obtain ⟨t, ht⟩ := h
    change db.setRejectReason cid reason = _ at ht
    grind [Db.setRejectReason]
  | applyFill cid fid price qty ts total =>
    obtain ⟨t, ht⟩ := h
    change db.applyFill cid fid price qty ts total = _ at ht
    unfold Db.applyFill at ht
    dsimp only at ht
    split at ht
    · cases ht
    · split at ht
      · split at ht
        · split at ht
          · cases ht
          · exact .inl (Exn.rejected.inj (Except.error.inj (Prod.mk.inj ht).1)).1.symm
        · cases ht
      · cases ht

/-- Every rejection of the coroutine is late. -/
abbrev RaisesLate (E : Env) (p : Eff α) : Prop :=
  ∀ x, Among E p (outcome (fun _ _ => True) fun e _ => Late e) x

theorem RaisesLate.bind {β : Type} {p : Eff α} {f : α → Eff β} (hp : RaisesLate E p)
    (hf : ∀ a, RaisesLate E (f a)) : RaisesLate E (p.bind f) :=
  fun x => wp_seq (hp x) fun a y _ => hf a y

theorem late_ret (a : α) : RaisesLate E (.ret a : Eff α) := fun _ => trivial

theorem late_of_untyped {e : Exn} (he : ∀ c m cid, e ≠ .rejected c m cid) : Late e :=
  fun c m cid h => absurd h (he c m cid)

theorem late_ext (o : ExtOp) : RaisesLate E (Eff.ext o) := by
  rintro ⟨s, h⟩
  refine wp_amongWhere_perform fun s₁ r s' _ hok _ => ?_
  cases r with
  | ok a => trivial
  | error e =>
    rintro c m z rfl
    cases hok _ rfl

theorem late_store {o : StoreOp} (ho : ∀ ord sid, o ≠ .insertOrder ord sid) :
    RaisesLate E (Eff.store o) := by
  rintro ⟨s, h⟩
  refine wp_amongWhere_perform fun s₁ r s' _ hok _ => ?_
  cases r with
  | ok a => trivial
  | error e =>
    rintro c m z rfl
    rcases served_code (hok _ rfl rfl) with hc | ⟨ord, sid, hins⟩
    · exact hc
    · exact absurd hins (ho ord sid)

theorem late_forEach {β : Type} {f : β → Eff Unit} {bs : List β} (hf : ∀ b, RaisesLate E (f b)) :
    RaisesLate E (forEach f bs) := by
  induction bs with
  | nil => exact late_ret ()
  | cons b bs ih => exact (hf b).bind fun _ => ih

theorem late_updateStatus (cid : String) (s : OrderState) : RaisesLate E (updateStatus cid s) := by
  have hillegal (m : String) : RaisesLate E
      (.raise (.rejected .illegalTransition m cid) : Eff Unit) := by
    rintro x c m' z he
    exact (Exn.rejected.inj he).1.symm
  unfold updateStatus
  refine RaisesLate.bind (late_store (by simp)) fun row => ?_
  split
  · exact hillegal _
  · split
    · exact late_ret ()
    · split
      · exact late_store (by simp)
      · exact hillegal _

theorem late_settle (a : AdapterId) (o : NormalizedOrder) (no : String) (ack : PlaceAck) :
    RaisesLate E (Router.settle a o no ack) := by
  unfold Router.settle
  refine RaisesLate.bind (late_store (by simp)) fun _ => RaisesLate.bind ?_ fun _ => ?_
  · refine late_forEach fun f => ?_
    exact RaisesLate.bind (late_store (by simp)) fun _ => late_ret ()
  · split
    · refine RaisesLate.bind (late_updateStatus _ _) fun _ => ?_
      exact RaisesLate.bind (late_ext _) fun _ =>
        RaisesLate.bind (late_updateStatus _ _) fun _ => late_ret _
    · exact late_ret _

/-- The recovery of a handle swallows what its polls raise. -/
theorem late_recovery (resolve : Eff Bool) (t cadence deadline : Time) (minPolls : Int) (fuel : Nat)
    (attempts : Int) (readOk : Bool) : RaisesLate E
      (HandleRecovery.recoverHandle resolve t cadence deadline minPolls fuel attempts readOk) := by
  induction fuel generalizing attempts readOk with
  | zero => exact fun _ => trivial
  | succ fuel ih =>
    unfold HandleRecovery.recoverHandle
    refine RaisesLate.bind (fun x => ?_) fun answer => ?_
    · unfold HandleRecovery.poll
      refine wp_tryExcept.mpr (wp_bind.mpr ?_)
      refine wp_mono (among_any resolve) fun r y _ => ?_
      cases r <;> trivial
    · split
      · exact late_ret _
      · refine RaisesLate.bind (late_ext _) fun now => ?_
        split
        · exact late_ret _
        · exact RaisesLate.bind (late_ext _) fun _ => ih _ _

theorem late_submittedAt (row : Option OrderRow) : RaisesLate E (Router.submittedAt row) := by
  cases row with
  | none => exact late_ext _
  | some row => exact late_ret _

theorem late_placeAndSettle (R : Router) (fuel : Nat) (a : AdapterId) (o : NormalizedOrder) :
    RaisesLate E (R.placeAndSettle fuel a o) := by
  unfold Router.placeAndSettle
  refine RaisesLate.bind (late_ext _) fun ack => ?_
  split
  · refine RaisesLate.bind (late_updateStatus _ _) fun _ => ?_
    exact RaisesLate.bind (late_store (by simp)) fun _ => late_ret _
  · split
    · unfold Router.recoverHandle
      split
      · exact RaisesLate.bind (late_store (by simp)) fun _ =>
          RaisesLate.bind (late_submittedAt _) fun _ => late_recovery _ _ _ _ _ _ _ _
      · exact late_ret _
    · exact late_settle a o _ ack

/-- A coroutine whose rejections are late, about a row that is there. -/
theorem RaisesLate.stored {p : Eff α} (hp : RaisesLate E p) (hx : Stored cid x) :
    Among E p (outcome (fun _ y => Stored cid y) Honest) x := by
  refine wp_mono (wp_and (hp x) (stored_keeps p hx)) fun r y hy => ?_
  cases r with
  | ok a => exact hy.2
  | error e => exact Late.honest hy.1 y

/-- A row that is there is found. -/
theorem stored_fetchOrderResult (hx : Stored cid x) :
    Among E (Eff.store (.fetchOrderResult cid))
      (outcome (fun row _ => row.isSome = true) Honest) x := by
  have hlate := late_store (E := E) (o := .fetchOrderResult cid) (by simp) x
  have hfound : Among E (Eff.store (.fetchOrderResult cid))
      (fun r _ => ∀ row : Option OrderResultRow, r = .ok row → row.isSome = true) x := by
    obtain ⟨s, h⟩ := x
    refine wp_amongWhere_perform fun s₁ r s' hr _ hs row hrow => ?_
    subst hrow
    rcases hs with ⟨t, ht⟩ | ⟨-, e, he, -⟩
    · obtain rfl := Except.ok.inj (Prod.mk.inj ht).1
      simpa [Db.fetchOrderResult] using hr.stays cid hx
    · cases he
  refine wp_mono (wp_and hlate hfound) fun r y hy => ?_
  cases r with
  | ok row => exact hy.2 row rfl
  | error e => exact Late.honest hy.1 y

end Guarantees

/-! ## The calls -/

section Calls

variable {E : Env} {x : World} (R : Router)

theorem meek_awaitConcurrent (cid : String) (n : Nat) : Uses Meek (Router.awaitConcurrent cid n) :=
  Router.uses_awaitConcurrent trivial trivial n

/-- What the single-flight block hands on: an outcome, or an order that is there. -/
def BlockEnd (cid : String) : Except Exn (SubmitOutcome ⊕ HandleResolution) → World → Prop
  | .ok (.inl _), _ => True
  | .ok (.inr _), y => Stored cid y
  | .error e, y => Honest e y

/-- The insert: refused with nothing written, or the row is there. -/
theorem among_insertFresh (o : NormalizedOrder) (sid : Option String) (hx : Clean x) :
    Among E (Router.insertFresh o sid)
      (outcome (fun fresh y => if fresh = true then Stored o.clientOrderId y else Clean y) Honest)
      x := by
  obtain ⟨s, h⟩ := x
  refine wp_tryExcept.mpr (wp_bind.mpr (wp_amongWhere_perform fun s₁ r s' _ _ hs => ?_))
  cases r with
  | ok _ =>
    obtain ⟨-, t, e, he, -⟩ := step_insert_ok hs
    rw [outcome_ok, wp_ret, outcome_ok, outcome_ok, if_pos rfl, Stored, he]
    rfl
  | error e =>
    rw [outcome_error, outcome_error]
    cases e with
    | duplicateOrderSignal cid =>
      have hclean : Clean (s', h ++ [⟨.store (.insertOrder o sid), .error (.duplicateOrderSignal cid)⟩]) :=
        hx.snoc (Or.inl ⟨cid, rfl⟩)
      exact hclean
    | rejected c m cid =>
      have hclean : Clean (s', h ++ [⟨.store (.insertOrder o sid), .error (.rejected c m cid)⟩]) :=
        hx.snoc (Or.inr ⟨c, m, cid, rfl⟩)
      exact hclean.honest _
    | _ => exact (late_of_untyped (by simp)).honest _

theorem among_submitLocked (fuel : Nat) (a : AdapterId) (o : NormalizedOrder) (sid : Option String)
    (acquired : Bool) (hx : Clean x) :
    Among E (R.submitLocked fuel a o sid acquired) (BlockEnd o.clientOrderId) x := by
  unfold Router.submitLocked
  split
  · refine wp_seq (among_insertFresh o sid hx) fun fresh y hy => ?_
    cases fresh with
    | true =>
      exact wp_seq ((late_placeAndSettle R fuel a o).stored hy) fun _ _ hz => hz
    | false =>
      refine clean_seq (uses_store trivial) hy (fun _ _ h => h) fun row z hz => ?_
      cases row with
      | none => exact hz.honest _
      | some _ => trivial
  · exact clean_seq (meek_awaitConcurrent _ _) hx (fun _ _ h => h) fun _ _ _ => trivial

theorem blockEnd_probe {α : Type} {p : Eff α} (hp : Uses Probe p) {cid : String}
    {out : Except Exn (SubmitOutcome ⊕ HandleResolution)} (hx : BlockEnd cid out x) :
    Among E p (fun _ y => BlockEnd cid out y) x := by
  rcases out with e | (outcome | res)
  · by_cases hc : Clean x
    · exact wp_mono (clean_meek (hp.mono fun _ => meek_of_probe) hc) fun _ _ hy => hy.honest e
    · have hlate : Late e := fun c m z he => (hx c m z he).resolve_right hc
      exact wp_mono (among_any p) fun _ y _ => hlate.honest y
  · exact among_any p
  · exact stored_keeps p hx

/-- Releasing the lock keeps all of it, and raises nothing. -/
theorem among_releaseLock (key : String) (acquired : Bool) {cid : String}
    {out : Except Exn (SubmitOutcome ⊕ HandleResolution)} (hx : BlockEnd cid out x) :
    Among E (R.releaseLock key acquired)
      (outcome (fun _ y => BlockEnd cid out y) fun _ _ => False) x := by
  unfold Router.releaseLock
  split
  · refine wp_tryExcept.mpr (wp_mono (blockEnd_probe (uses_ext (show Probe (.ext (.redisRelease key)) from trivial)) hx) fun r y hy => ?_)
    cases r <;> exact hy
  · exact hx

theorem among_readBack {cid : String} (done : SubmitOutcome ⊕ HandleResolution)
    (hx : BlockEnd cid (.ok done) x) :
    Among E (Router.readBack cid done) (outcome (fun _ _ => True) Honest) x := by
  cases done with
  | inl outcome => trivial
  | inr res =>
    refine wp_seq (stored_fetchOrderResult hx) fun row y hy => ?_
    obtain ⟨row, rfl⟩ := Option.isSome_iff_exists.mp hy
    trivial

/-- Every rejection of a submit is honest. -/
theorem among_submit (fuel : Nat) (o : NormalizedOrder) (sid : Option String) (hx : Clean x) :
    Among E (R.submit fuel o sid) (outcome (fun _ _ => True) Honest) x := by
  unfold Router.submit
  refine clean_seq (R.uses_assertDisengaged.mono fun _ => meek_of_probe) hx (fun _ _ h => h)
    fun _ y₁ h₁ => clean_seq (uses_store trivial) h₁ (fun _ _ h => h) fun existing y₂ h₂ => ?_
  cases existing with
  | some row => trivial
  | none =>
    refine clean_seq ((R.uses_gates o).mono fun _ => meek_of_probe) h₂ (fun _ _ h => h)
      fun a y₃ h₃ => ?_
    refine wp_seq (I := fun done y => BlockEnd o.clientOrderId (.ok done) y) ?_
      fun done y hd => among_readBack done hd
    unfold Router.singleFlight
    refine clean_seq ((R.uses_acquireLock _).mono fun _ => meek_of_probe) h₃ (fun _ _ h => h)
      fun acquired y₄ h₄ => wp_tryFinally.mpr ?_
    refine wp_mono (among_submitLocked R fuel a o sid acquired h₄) fun out y₅ hout => ?_
    refine wp_mono (among_releaseLock R _ acquired hout) fun r y₆ h₆ => ?_
    cases r with
    | error _ => exact h₆.elim
    | ok _ => cases out <;> exact h₆

theorem among_get {cid : String} (hx : Stored cid x) :
    Among E (Router.get cid) (outcome (fun _ _ => True) Honest) x := by
  unfold Router.get
  refine wp_seq (stored_fetchOrderResult hx) fun row y hy => ?_
  obtain ⟨row, rfl⟩ := Option.isSome_iff_exists.mp hy
  trivial

/-- The writes of a cancel and the answer after them. -/
theorem among_cancelAt (a : AdapterId) (cid : String) (hx : Stored cid x) :
    Among E (do
      Router.cancelAt a cid
      Router.get cid) (outcome (fun _ _ => True) Honest) x := by
  have hlate : RaisesLate E (Router.cancelAt a cid) := by
    unfold Router.cancelAt
    refine RaisesLate.bind (late_updateStatus _ _) fun _ => RaisesLate.bind (late_ext _) fun ack => ?_
    split
    · exact late_updateStatus _ _
    · exact fun _ => late_of_untyped (by simp)
  exact wp_seq (hlate.stored hx) fun _ _ hy => among_get hy

/-- Every rejection of a cancel is honest. -/
theorem among_cancel (cid : String) (hx : Clean x) :
    Among E (R.cancel cid) (outcome (fun _ _ => True) Honest) x := by
  unfold Router.cancel
  have hread : Among E (Eff.store (.fetchOrder cid))
      (outcome (fun row y => Clean y ∧ (row.isSome = true → Stored cid y)) Honest) x := by
    refine wp_mono (wp_and (clean_meek (uses_store trivial) hx) (stored_fetchOrder cid)) fun r y hy => ?_
    cases r with
    | ok row => exact hy
    | error e => exact hy.1.honest e
  refine wp_seq hread fun row y hy => ?_
  obtain ⟨hclean, hstored⟩ := hy
  rcases row with _ | row
  · exact hclean.honest _
  · have hrow : Stored cid y := hstored rfl
    dsimp only
    split
    · exact hclean.honest _
    · split
      · exact among_get hrow
      · split
        · exact hclean.honest _
        · refine settled_seq (uses_lift _) ⟨hclean, hrow⟩ fun a z hz => ?_
          refine settled_seq ((Router.uses_breakerGuard a).mono fun _ => meek_of_probe) hz
            fun _ w hw => among_cancelAt a cid hw.2

/-! ## What a refused caller may conclude -/

/-- A call that promises it. -/
inductive Plain : Request → Prop where
  | submit (R : Router) (fuel : Nat) (o : NormalizedOrder) (sid : Option String) :
    Plain (.submit R fuel o sid)
  | cancel (R : Router) (cid : String) : Plain (.cancel R cid)

theorem among_plain {q : Request} (hq : Plain q) (hx : Clean x) :
    Among E q.prog (outcome (fun _ _ => True) Honest) x := by
  cases hq with
  | submit R fuel o sid => exact wp_seq (among_submit R fuel o sid hx) fun _ _ _ => trivial
  | cancel R cid => exact wp_seq (among_cancel R cid hx) fun _ _ _ => trivial

end Calls

/-- In every interleaving of calls and of others that leave the rows there: a submit or cancel that
    is answered with an envelope has, unless its code is `illegal_transition` (and its status then
    409), sent nothing to a venue and written nothing. -/
theorem refusal_harmless {ι : Type} [DecidableEq ι] {E : Env} {env : Db → Db → Prop}
    {requests : ι → Request} {db : Db} {i : ι} {P : Pool engineSig Db ι}
    (henv : ∀ s s', env s s' → Records s s') (hq : Plain (requests i))
    (hP : Relation.ReflTransGen (StepWhere (sem E) env i fun _ => OwnWords) (engine requests db) P)
    {e : Exn} (hend : P.threads i = .raise e) {ans : ErrorAnswer}
    (hans : handleRejection e = some ans)
    (hcode : ans.status ≠ 409 ∨ ans.code ≠ "illegal_transition") :
    ∀ ev ∈ localHistory i P.trace, Harmless ev := by
  have hclean : Clean (db, ([] : History)) := fun ev hev => nomatch hev
  obtain ⟨q, s, -, hthread, -, hw⟩ := rely_guarantee_where rfl henv
    (fun j _ => uses_univ ((engine requests db).threads j))
    (fun _ _ _ _ _ h => step_records h) (Prog.bind_ret _).symm (among_plain hq hclean) hP
  rw [Prog.bind_ret, hend] at hthread
  subst hthread
  cases e with
  | rejected c m cid =>
    obtain rfl := Option.some.inj hans
    rcases hw c m cid rfl with rfl | hdone
    · rcases hcode with h | h
      · exact absurd rfl h
      · exact absurd rfl h
    · exact hdone
  | _ => cases hans

/-- More than the quantity cap, in a live stage, beside a pass of the reconciler. -/
def oversizedSubmit : Bool → Request
  | false => .submit liveRouter 0 ⟨{ sampleFields cidA .liberator with quantity := 5000 }, rfl⟩ none
  | true => .reconcileLiberator

def answered {op : EngineOp} : Except Exn op.Res → Bool
  | .ok _ => true
  | .error _ => false

theorem ownWords_of_ok {db : Db} {op : EngineOp} {r : Except Exn op.Res} (h : answered r = true) :
    OwnWords db op r := by
  cases r with
  | ok a => cases op <;> exact fun _ hr => nomatch hr
  | error e => cases h

/-- The risk gate refuses it with 422, and it has not been sent. -/
theorem oversized_harmless :
    let P := runPool liveHandler.step [false, true, false, false, true] (engine oversizedSubmit Db.empty)
    P.threads false = .raise (.rejected (.riskRejected "max_order_qty")
      "quantity 5000 exceeds max_order_qty 1000" cidA) ∧
      ∀ ev ∈ localHistory false P.trace, Harmless ev := by
  have hown : runsWhere liveHandler.step false (fun _ _ _ r => answered r)
      [false, true, false, false, true] (engine oversizedSubmit Db.empty) = true := by
    decide +kernel
  have hrun : Relation.ReflTransGen (StepWhere (sem plainEnv) closed false fun _ => OwnWords)
      (engine oversizedSubmit Db.empty)
      (runPool liveHandler.step [false, true, false, false, true] (engine oversizedSubmit Db.empty)) :=
    runPool_where (plain_follows liveHandler) (fun _ _ _ _ h => ownWords_of_ok h) _ _ hown
  have hend : (runPool liveHandler.step [false, true, false, false, true]
      (engine oversizedSubmit Db.empty)).threads false = .raise (.rejected (.riskRejected "max_order_qty")
        "quantity 5000 exceeds max_order_qty 1000" cidA) := rfl
  exact ⟨hend, refusal_harmless (fun _ _ h => h.elim) (.submit ..) hrun hend rfl (.inl (by decide))⟩

end ExecutionEngine.Refusal
