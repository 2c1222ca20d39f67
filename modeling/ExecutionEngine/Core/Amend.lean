/-
  Amend, seen whole.

  A cancel_replace amend trusts `cancel` to return only when the original is gone.
  It is not so: a cancel of a PENDING_CANCEL order returns at once. The first part
  says exactly when the replacement is placed behind a confirmed cancel
  (`replacement_place_iff`).

  The second part is about quantity. The native branch checks the recorded fills;
  the cancel_replace branch rebuilds the order from its row and does not look at
  them. `amend_exposure_iff` says exactly when filled plus working is the total
  that was asked for. What an amend leaves behind when it is refused is in
  `Core.Refusals`.
-/
import ExecutionEngine.Core.Specs

namespace ExecutionEngine

open Async Async.Prog StateMachine

/-! ## Up to the placement of the replacement -/

section Placement

variable {E : Env} {o : NormalizedOrder} {x y : World}

/-- The store moved for `o` only, and the history grew. -/
def Along (o : NormalizedOrder) (x y : World) : Prop := SubmitRel o x.1 y.1 ∧ x.2 <+: y.2

instance (o : NormalizedOrder) : IsPreorder World (Along o) where
  refl x := ⟨refl_of (SubmitRel o) x.1, List.prefix_rfl⟩
  trans _ _ _ h h' := ⟨trans_of (SubmitRel o) h.1 h'.1, h.2.trans h'.2⟩

theorem moves_along {α : Type} {p : Eff α} (h : Uses (SubmitOp o) p) :
    Moves (seqSem E) (Along o) p :=
  h.moves fun _ _ _ _ hop hs => ⟨step_submitRel hop hs.1, by rw [hs.2]; exact List.prefix_append _ _⟩

/-- What holds when a submit of `o` that started in `x` performs `op` in `y`. -/
def AtPlace (o : NormalizedOrder) (x y : World) : EngineOp → Prop
  | .ext (.place _ o') => o' = o ∧ x.1.find o.clientOrderId = none ∧ Along o x y
  | _ => True

theorem atPlace_of_placeless {op : EngineOp} (h : Placeless op) : AtPlace o x y op := by
  rcases op with so | eo
  · trivial
  · cases eo <;> first | exact h.elim | trivial

theorem wp_atPlace {α : Type} {p : Eff α} (h : Uses Placeless p) :
    wp (seqSem E) (AtPlace o x) p (fun _ _ => True) y :=
  h.keeps (I := fun _ => True) trivial (fun _ _ hop _ => atPlace_of_placeless hop)
    fun _ _ _ _ _ _ _ => trivial

/-- A placeless stretch of the submit. -/
theorem wp_stretch {α : Type} {p : Eff α} (h : Uses Placeless p) (h' : Uses (SubmitOp o) p)
    (hxy : Along o x y) :
    wp (seqSem E) (AtPlace o x) p (fun _ z => Along o x z) y :=
  wp_mono (wp_and (wp_atPlace h) ((moves_along h').after hxy)) fun _ _ hz => hz.2

theorem wp_stretch_probe {α : Type} {p : Eff α} (h : Uses Probe p) (hxy : Along o x y) :
    wp (seqSem E) (AtPlace o x) p (fun _ z => Along o x z) y :=
  wp_stretch (h.mono fun _ => Probe.placeless) (h.mono fun _ hop => .inl (hop.on _)) hxy

theorem placeAndSettle_atPlace (R : Router) (fuel : Nat) (a : AdapterId)
    (hfresh : x.1.find o.clientOrderId = none) (hxy : Along o x y) :
    wp (seqSem E) (AtPlace o x) (R.placeAndSettle fuel a o) (fun _ _ => True) y := by
  unfold Router.placeAndSettle
  rw [Prog.bind_eq, wp_bind]
  refine wp_perform.mpr ⟨⟨rfl, hfresh, hxy⟩, fun r z _ => ?_⟩
  cases r with
  | error er => trivial
  | ok ack =>
    rw [outcome_ok]
    refine wp_atPlace ?_
    split
    · exact Uses.bind (uses_updateStatus trivial trivial) fun _ =>
        (uses_store trivial).bind fun _ => trivial
    · split
      · exact placeless_of (upkeep_of_survey (R.survey_recover fuel o))
      · exact Router.uses_settle trivial trivial (fun _ => trivial) (fun _ _ => trivial) trivial

theorem submitLocked_atPlace (R : Router) (fuel : Nat) (a : AdapterId) (sid : Option String)
    (acquired : Bool) (hfresh : x.1.find o.clientOrderId = none) (hxy : Along o x y) :
    wp (seqSem E) (AtPlace o x) (R.submitLocked fuel a o sid acquired) (fun _ _ => True) y := by
  unfold Router.submitLocked
  split
  · rw [Prog.bind_eq, wp_bind]
    refine wp_mono (wp_stretch (Router.uses_insertFresh trivial)
      (Router.uses_insertFresh (.inr ⟨sid, rfl⟩)) hxy)
      fun r z hz => ?_
    cases r with
    | error er => trivial
    | ok fresh =>
      rw [outcome_ok]
      split
      · rw [Prog.bind_eq, wp_bind]
        refine wp_mono (placeAndSettle_atPlace R fuel a hfresh hz) fun r _ _ => ?_
        cases r <;> trivial
      · refine wp_atPlace ((uses_store trivial).bind fun row => ?_)
        split <;> trivial
  · exact wp_atPlace ((Router.uses_awaitConcurrent trivial trivial _).bind fun _ => uses_ret _)

/-- A submit places its own order, under an id that was free when it started, with every other
    order as it was then. -/
theorem submit_atPlace (R : Router) (fuel : Nat) (sid : Option String) (x : World) :
    wp (seqSem E) (AtPlace o x) (R.submit fuel o sid) (fun _ _ => True) x := by
  unfold Router.submit
  rw [Prog.bind_eq, wp_bind]
  refine wp_mono (wp_and (wp_stretch_probe R.uses_assertDisengaged (refl_of (Along o) x))
    (wp_traced (wp_probe R.uses_assertDisengaged x.1) x.2)) fun r x₁ hx₁ => ?_
  obtain ⟨hx₁, hdb₁⟩ := hx₁
  cases r with
  | error er => trivial
  | ok u =>
    rw [outcome_ok, Prog.bind_eq, wp_bind]
    refine wp_perform.mpr ⟨trivial, fun r x₂ hs => ?_⟩
    obtain ⟨hdb₂, hr⟩ := step_fetchOrderResult hs.1
    have hx₂ : Along o x x₂ := by
      refine trans_of (Along o) hx₁ ⟨hdb₂ ▸ refl_of (SubmitRel o) x₁.1, ?_⟩
      rw [hs.2]
      exact List.prefix_append _ _
    cases r with
    | error er => trivial
    | ok existing =>
      rw [outcome_ok]
      cases existing with
      | some row => trivial
      | none =>
        have hfresh : x.1.find o.clientOrderId = none := by
          have hnone := hr none rfl
          rw [hdb₁, Db.fetchOrderResult] at hnone
          exact Option.map_eq_none_iff.mp hnone.symm
        dsimp only
        rw [Prog.bind_eq, wp_bind]
        refine wp_mono (wp_stretch_probe (R.uses_gates o) hx₂) fun r x₃ hx₃ => ?_
        cases r with
        | error er => trivial
        | ok a =>
          rw [outcome_ok, Prog.bind_eq, wp_bind]
          unfold Router.singleFlight
          rw [Prog.bind_eq, wp_bind]
          refine wp_mono (wp_stretch_probe (R.uses_acquireLock _) hx₃) fun r x₄ hx₄ => ?_
          cases r with
          | error er => trivial
          | ok acquired =>
            rw [outcome_ok, wp_tryFinally]
            refine wp_mono (submitLocked_atPlace R fuel a sid acquired hfresh hx₄)
              fun r x₅ _ => ?_
            refine wp_mono (wp_atPlace ((R.uses_releaseLock _ acquired).mono
              fun _ => Probe.placeless)) fun r' x₆ _ => ?_
            cases r' with
            | error er => trivial
            | ok u =>
              cases r with
              | error er => trivial
              | ok done => exact wp_atPlace (Router.uses_readBack trivial done)

end Placement

/-! ## The two branches -/

section Branches

variable {E : Env} {R : Router} {fuel : Nat} {cid : String} {newCid : Option String}
  {p : Option Decimal} {q : Option Int} {x : World}

/-- An amend fails before it writes anything, or goes down one of the two branches with the row
    as stored. -/
theorem amend_branches {pre : World → EngineOp → Prop} (hpre : ∀ y op, Placeless op → pre y op)
    {Q : Except Exn SubmitOutcome → World → Prop}
    (herr : ∀ er y, Later x y → Q (.error er) y)
    (hnative : ∀ e y, x.1.find cid = some e → Later x y → e.row.broker = .sim →
      wp (seqSem E) pre (R.amendNative e.row newCid p q) Q y)
    (hreplace : ∀ e y, x.1.find cid = some e → Later x y → e.row.broker ≠ .sim →
      wp (seqSem E) pre (R.amendCancelReplace fuel e.row newCid p q) Q y) :
    wp (seqSem E) pre (R.amend fuel cid newCid p q) Q x := by
  unfold Router.amend
  rw [Prog.bind_eq, wp_bind]
  refine wp_mono (wp_under hpre (R.uses_assertDisengaged.mono fun _ => Probe.placeless)
    (wp_later R.uses_assertDisengaged x)) fun r x₁ hx₁ => ?_
  cases r with
  | error er => exact herr er x₁ hx₁
  | ok u =>
    rw [outcome_ok]
    split
    · exact herr _ x₁ hx₁
    · rw [Prog.bind_eq, wp_bind]
      refine wp_perform.mpr ⟨hpre _ _ trivial, fun r x₂ hs => ?_⟩
      obtain ⟨hdb, hr⟩ := step_fetchOrder hs.1
      have hx₂ : Later x x₂ := hx₁.trans (.of_step hs hdb trivial)
      cases r with
      | error er => exact herr er x₂ hx₂
      | ok row =>
        obtain rfl := hr row rfl
        rw [outcome_ok, hx₁.1]
        cases hf : x.1.find cid with
        | none =>
          rw [Db.fetchOrder, hf]
          exact herr _ x₂ hx₂
        | some e =>
          rw [fetchOrder_of_find hf]
          obtain ⟨caps, hcaps, hsem⟩ := Capabilities.lookup_ok e.row.broker e.row.market
          dsimp only
          rw [hcaps, Eff.lift, Prog.bind_eq, Prog.bind]
          split
          · rename_i hnat
            exact hnative e x₂ hf hx₂ (hsem.mp hnat)
          · rename_i hnat
            exact hreplace e x₂ hf hx₂ (mt hsem.mpr hnat)

end Branches

/-! ## Is the original gone when the replacement is placed? -/

/-- CANCELLED in the store, behind a cancel request that was confirmed. -/
def OriginalGone (cid : String) (y : World) : Prop :=
  (∃ e, y.1.find cid = some e ∧ e.row.status = .cancelled) ∧
    ∃ ev ∈ y.2, isCancelOk cid ev = true

/-- At each placement, the original is gone exactly when `gone` says so. -/
def GoneIff (cid : String) (gone : Prop) (y : World) : EngineOp → Prop
  | .ext (.place _ _) => OriginalGone cid y ↔ gone
  | _ => True

theorem goneIff_of_placeless {cid : String} {gone : Prop} (y : World) (op : EngineOp)
    (h : Placeless op) : GoneIff cid gone y op := by
  rcases op with so | eo
  · trivial
  · cases eo <;> first | exact h.elim | trivial

section Replacement

variable {E : Env} {R : Router} {fuel : Nat} {cid : String} {newCid : Option String}
  {p : Option Decimal} {q : Option Int} {x : World} {e : Entry}

theorem amendCancelReplace_gone (he : x.1.find cid = some e) :
    wp (seqSem E) (GoneIff cid (e.row.status ≠ .pendingCancel))
      (R.amendCancelReplace fuel e.row newCid p q) (fun _ _ => True) x := by
  have hcid := Db.find_key he
  unfold Router.amendCancelReplace
  split
  · trivial
  · rename_i c
    rw [Prog.bind_eq, wp_bind, hcid]
    refine wp_mono (wp_under goneIff_of_placeless (placeless_of (upkeep_of (R.tending_cancel cid)))
      (cancel_spec (E := E) R he x.2)) fun r x₁ hx₁ => ?_
    cases r with
    | error er => trivial
    | ok res =>
      rw [outcome_ok] at hx₁ ⊢
      rw [Prog.bind_eq, wp_bind]
      cases Router.amendedOrder e.row c p q with
      | error er => trivial
      | ok o =>
        rw [Eff.lift, wp_ret, outcome_ok]
        refine wp_pre_mono (submit_atPlace R fuel e.row.strategyId x₁) fun y op hy => ?_
        rcases op with so | eo
        · trivial
        · cases eo with
          | place a o' =>
            obtain ⟨-, hfresh, hrel, hpre⟩ := hy
            -- the new id was free, so it is not the original's
            have hne (e' : Entry) (h' : x₁.1.find cid = some e') : cid ≠ o.clientOrderId := by
              intro heq
              rw [← heq, h'] at hfresh
              cases hfresh
            rcases hx₁ with ⟨hpc, hput⟩ | ⟨hlive, hput, ev, hev, hok⟩
            · have hf := hput.find_self
              rw [hcid] at hf
              have hy' := (hrel.frame cid (hne _ hf)).trans hf
              constructor
              · rintro ⟨⟨e', he', hst⟩, -⟩
                rw [hy'] at he'
                obtain rfl := Option.some.inj he'
                rw [hpc] at hst
                cases hst
              · exact fun h => absurd hpc h
            · have hf : x₁.1.find cid = some (Db.withStatus e .cancelled) := by
                rw [← hcid]
                exact hput.find_self
              have hy' := (hrel.frame cid (hne _ hf)).trans hf
              refine ⟨fun _ => ?_, fun _ => ⟨⟨_, hy', rfl⟩, ev, ?_, hok⟩⟩
              · rcases hlive with h | h <;> rw [h] <;> decide
              · exact hpre.subset hev
          | _ => trivial

/-- Over every run of earlier calls and every answer: when an amend gets to `adapter.place`, the
    original is CANCELLED behind a confirmed cancel exactly when it was not PENDING_CANCEL as the
    amend began. -/
theorem replacement_place_iff {db₀ : Db} {requests : List Request} {a : AdapterId}
    {o : NormalizedOrder} {y : World} (_hrun : SeqRun E (db₀, []) requests x)
    (hreach : Reaches (seqSem E) (R.amend fuel cid newCid p q) x (.ext (.place a o)) y) :
    OriginalGone cid y ↔ ∃ e, x.1.find cid = some e ∧ e.row.status ≠ .pendingCancel := by
  have hwp : wp (seqSem E) (GoneIff cid (∃ e, x.1.find cid = some e ∧
      e.row.status ≠ .pendingCancel)) (R.amend fuel cid newCid p q) (fun _ _ => True) x := by
    refine amend_branches goneIff_of_placeless (fun _ _ _ => trivial) ?_ ?_
    · intro e y _ _ _
      have hnative := placeless_of (upkeep_of (R.tending_amendNative e.row newCid p q))
      exact wp_mono (wp_under goneIff_of_placeless hnative (hnative.history y)) fun _ _ _ => trivial
    · intro e y he hy _
      refine wp_pre_mono (amendCancelReplace_gone (hy.1 ▸ he)) fun z op hz => ?_
      have hiff : (∃ e', x.1.find cid = some e' ∧ e'.row.status ≠ .pendingCancel) ↔
          e.row.status ≠ .pendingCancel := by
        rw [he]
        simp
      rw [hiff]
      exact hz
  exact hwp.reaches hreach

end Replacement

/-- A resting order, amended: the replacement is placed over a cancelled original. -/
theorem replacement_after_cancel :
    ∃ x y a o, SeqRun plainEnv (Db.empty, [])
        [.submit liveRouter 0 (sampleOrderA .liberator) none] x ∧
      Reaches (seqSem plainEnv) (liveRouter.amend 0 cidA (some cidB) none (some 50)) x
        (.ext (.place a o)) y ∧ OriginalGone cidA y := by
  have hf := plain_follows liveHandler
  have h : ((runRequests liveHandler [.submit liveRouter 0 (sampleOrderA .liberator) none]
      (Db.empty, [])).any fun x => hasStatus cidA .new x &&
        (calls (traceHandler liveHandler.step)
          (liveRouter.amend 0 cidA (some cidB) none (some 50)) x).any fun c =>
            isPlace c.1 && hasStatus cidA .cancelled c.2) = true := by decide +kernel
  obtain ⟨x, hrun, hx⟩ := exists_run hf h
  obtain ⟨hnew, hx⟩ := Bool.and_eq_true_iff.mp hx
  obtain ⟨a, o, y, hreach, -⟩ := exists_place hf hx
  obtain ⟨e, he, hs⟩ := hasStatus_iff.mp hnew
  refine ⟨x, y, a, o, hrun, hreach, (replacement_place_iff hrun hreach).mpr ⟨e, he, ?_⟩⟩
  rw [hs]
  decide

/-- A cancel the venue does not confirm leaves the order PENDING_CANCEL; the next amend places the
    replacement beside it. -/
theorem replacement_beside_original :
    ∃ x y a o, SeqRun plainEnv (Db.empty, [])
        [.submit liveRouter 0 (sampleOrderA .liberator) none, .cancel liveRouter cidA] x ∧
      Reaches (seqSem plainEnv) (liveRouter.amend 0 cidA (some cidB) none (some 50)) x
        (.ext (.place a o)) y ∧ ¬OriginalGone cidA y := by
  have hf := plain_follows stubbornHandler
  have h : ((runRequests stubbornHandler
      [.submit liveRouter 0 (sampleOrderA .liberator) none, .cancel liveRouter cidA]
      (Db.empty, [])).any fun x =>
        (calls (traceHandler stubbornHandler.step)
          (liveRouter.amend 0 cidA (some cidB) none (some 50)) x).any fun c =>
            isPlace c.1 && hasStatus cidA .pendingCancel c.2) = true := by decide +kernel
  obtain ⟨x, hrun, hx⟩ := exists_run hf h
  obtain ⟨a, o, y, hreach, hy⟩ := exists_place hf hx
  obtain ⟨e, he, hs⟩ := hasStatus_iff.mp hy
  refine ⟨x, y, a, o, hrun, hreach, ?_⟩
  rintro ⟨⟨e', he', hs'⟩, -⟩
  rw [he] at he'
  obtain rfl := Option.some.inj he'
  rw [hs] at hs'
  cases hs'

/-! ## Filled plus working -/

theorem amendedOrder_quantity {row : OrderRow} {c : String} {p : Option Decimal} {q : Option Int}
    {o : NormalizedOrder} (h : Router.amendedOrder row c p q = .ok o) :
    o.clientOrderId = c ∧ o.quantity = q.getD row.quantity := by
  have hf : o.toOrderFields = Router.amendedFields row c p q := NormalizedOrder.build_ok h
  rw [hf]
  exact ⟨rfl, rfl⟩

section Exposure

variable {E : Env} {R : Router} {fuel : Nat} {cid : String} {newCid : Option String}
  {p : Option Decimal} {q : Option Int} {x y : World} {e : Entry}

theorem restorePartial_spec {db : Db} (he : db.find cid = some e) (filled : Int) :
    wp (sem E) (fun _ _ => True) (Router.restorePartial cid filled)
      (outcome (fun _ db' => ∃ s, db.Put db' (Db.withStatus e s)) fun _ _ => True) db := by
  unfold Router.restorePartial
  split
  · refine wp_mono (updateStatus_spec he .partiallyFilled) fun r db' h => ?_
    cases r with
    | error er => trivial
    | ok u => exact ⟨_, h.2⟩
  · exact ⟨e.row.status, .self (by rw [withStatus_self rfl, Db.find_key he]; exact he)⟩

theorem amendAt_spec {db : Db} (a : AdapterId) (he : db.find cid = some e) (filled : Int) :
    wp (sem E) (fun _ _ => True) (Router.amendAt a cid p q filled)
      (outcome (fun _ db' => ∃ e', db'.find cid = some e' ∧
        e'.row.quantity = q.getD e.row.quantity ∧ e'.fills = e.fills) fun _ _ => True) db := by
  obtain rfl := Db.find_key he
  unfold Router.amendAt
  rw [Prog.bind_eq, wp_bind]
  refine wp_mono (updateStatus_spec he .pendingReplace) fun r db₁ h₁ => ?_
  cases r with
  | error er => trivial
  | ok u =>
    have he₁ := h₁.2.find_self
    rw [outcome_ok, Prog.bind_eq, wp_bind]
    refine wp_mono (wp_external (Router.external_venueAmend a _ p q) db₁) fun r db₂ h₂ => ?_
    obtain rfl : db₂ = db₁ := h₂
    cases r with
    | error er => trivial
    | ok ack =>
      rw [outcome_ok]
      split
      · rw [Prog.bind_eq, wp_bind]
        refine wp_perform.mpr ⟨trivial, fun r db₃ hs => ?_⟩
        cases r with
        | error er => trivial
        | ok u =>
          obtain ⟨e', hrow, hfills, rfl⟩ := step_replaceOrder_ok he₁ hs
          have hk : e'.row.clientOrderId = e.row.clientOrderId := by rw [hrow]; rfl
          have he' : (db₂.set e').find e.row.clientOrderId = some e' := by
            rw [← hk]
            exact Db.find_set_self (by rw [hk]; exact he₁)
          rw [outcome_ok, Prog.bind_eq, wp_bind]
          refine wp_mono (restorePartial_spec he' filled) fun r db₄ h₄ => ?_
          cases r with
          | error er => trivial
          | ok u =>
            obtain ⟨s, hput⟩ := h₄
            have he₄ := hput.find_self
            rw [show (Db.withStatus e' s).row.clientOrderId = e.row.clientOrderId from hk] at he₄
            rw [outcome_ok, Prog.bind_eq, wp_bind]
            refine wp_mono (get_spec he₄) fun r db₅ h₅ => ?_
            cases r with
            | error er => trivial
            | ok res =>
              obtain rfl : db₅ = db₄ := h₅.1
              exact ⟨_, he₄, by simp [Db.withStatus, hrow], hfills⟩
      · -- a refused amend raises whatever the restore does
        rw [Prog.bind_eq, wp_bind]
        refine wp_mono (updateStatus_spec he₁ .new) fun r db₃ h₃ => ?_
        cases r with
        | error er => trivial
        | ok u =>
          have he₃ := h₃.2.find_self
          rw [outcome_ok, Prog.bind_eq, wp_bind]
          refine wp_mono (restorePartial_spec he₃ filled) fun r db₄ _ => ?_
          cases r <;> trivial

/-- A native amend that returns has set the quantity asked for, above what was filled, and kept
    the fills. -/
theorem amendNative_spec {db : Db} (he : db.find cid = some e) :
    wp (sem E) (fun _ _ => True) (R.amendNative e.row newCid p q)
      (outcome (fun _ db' => newCid = none ∧ (∀ n, q = some n → e.filled < n) ∧
        ∃ e', db'.find cid = some e' ∧ e'.row.quantity = q.getD e.row.quantity ∧
          e'.fills = e.fills) fun _ _ => True) db := by
  refine amendNative_rule he (fun _ => trivial) fun hnew _ hlt a => ?_
  obtain rfl := Db.find_key he
  refine wp_mono (amendAt_spec a he _) fun r db' h => ?_
  cases r with
  | error er => trivial
  | ok out => exact ⟨hnew, hlt, h⟩

/-- The submit leg, from a store where the original is `e₁`: the original keeps its fills, and the
    new id holds the replacement, or the order that was there already. -/
theorem submit_leg {o : NormalizedOrder} {db : Db} {e₁ : Entry} (he₁ : db.find cid = some e₁)
    (fuel : Nat) (sid : Option String) :
    wp (sem E) (fun _ _ => True) (R.submit fuel o sid)
      (outcome (fun out db' => Shows o.clientOrderId out db' ∧
        (∃ e', db'.find cid = some e' ∧ e'.fills = e₁.fills) ∧
        (db.find o.clientOrderId = none → ∃ z sid t, db'.find o.clientOrderId = some z ∧
          z.row.terms = Db.newRow o.toOrderFields sid t) ∧
        ∀ z, db.find o.clientOrderId = some z → db'.find o.clientOrderId = some z)
        fun _ _ => True) db := by
  cases hf : db.find o.clientOrderId with
  | some z =>
    refine wp_mono (wp_and (submit_existing R fuel sid hf) (submit_returns R fuel sid db))
      fun r db' h => ?_
    obtain ⟨rfl, hshow⟩ := h
    cases r with
    | error er => trivial
    | ok out =>
      refine ⟨hshow, ⟨e₁, he₁, rfl⟩, fun hn => ?_, fun z' hz' => hf.trans hz'⟩
      cases hn
  | none =>
    have hne : cid ≠ o.clientOrderId := by
      rintro rfl
      rw [hf] at he₁
      cases he₁
    refine wp_mono (wp_and (submit_moves R fuel sid db) (submit_returns R fuel sid db))
      fun r db' h => ?_
    obtain ⟨hrel, hshow⟩ := h
    cases r with
    | error er => trivial
    | ok out =>
      have ⟨z, hz, _⟩ := hshow
      obtain ⟨sid', t, ht⟩ := hrel.fresh hf z hz
      refine ⟨hshow, ⟨e₁, (hrel.frame cid hne).trans he₁, rfl⟩, fun _ => ⟨z, sid', t, hz, ht⟩, ?_⟩
      intro z' hz'
      cases hz'

/-- What a cancel_replace amend that returns has done. -/
structure Replaced (cid c : String) (e : Entry) (o : NormalizedOrder) (out : SubmitOutcome)
    (db db' : Db) : Prop where
  shows : Shows c out db'
  original : ∃ e', db'.find cid = some e' ∧ e'.fills = e.fills
  fresh : db.find c = none → ∃ z sid t, db'.find c = some z ∧
    z.row.terms = Db.newRow o.toOrderFields sid t
  taken : ∀ z, db.find c = some z → ∃ z', db'.find c = some z' ∧
    z'.row.quantity = z.row.quantity

theorem amendCancelReplace_returns (he : x.1.find cid = some e) :
    wp (seqSem E) (fun _ _ => True) (R.amendCancelReplace fuel e.row newCid p q)
      (outcome (fun out y => ∃ c o, newCid = some c ∧
        Router.amendedOrder e.row c p q = .ok o ∧ Replaced cid c e o out x.1 y.1)
        fun _ _ => True) x := by
  have hcid := Db.find_key he
  unfold Router.amendCancelReplace
  split
  · trivial
  · rename_i c
    rw [Prog.bind_eq, wp_bind, hcid]
    refine wp_mono (cancel_spec (E := E) R he x.2) fun r x₁ hx₁ => ?_
    cases r with
    | error er => trivial
    | ok res =>
      rw [outcome_ok] at hx₁ ⊢
      rw [Prog.bind_eq, wp_bind]
      cases hb : Router.amendedOrder e.row c p q with
      | error er => trivial
      | ok o =>
        rw [Eff.lift, wp_ret, outcome_ok]
        -- the cancel moved the status of the original and nothing else
        obtain ⟨e₁, hput, hfills, hqty, hk⟩ : ∃ e₁ : Entry, x.1.Put x₁.1 e₁ ∧
            e₁.fills = e.fills ∧ e₁.row.quantity = e.row.quantity ∧
            e₁.row.clientOrderId = cid := by
          rcases hx₁ with ⟨-, hput⟩ | ⟨-, hput, -⟩
          · exact ⟨e, hput, rfl, rfl, hcid⟩
          · exact ⟨_, hput, rfl, rfl, hcid⟩
        have he₁ : x₁.1.find cid = some e₁ := hk ▸ hput.find_self
        obtain ⟨hoc, -⟩ := amendedOrder_quantity hb
        refine wp_mono (wp_traced (submit_leg he₁ fuel e.row.strategyId) x₁.2) fun r y hy => ?_
        cases r with
        | error er => trivial
        | ok out =>
          obtain ⟨hshow, ⟨e', he', hf'⟩, hfresh, htaken⟩ := hy
          rw [hoc] at hshow hfresh htaken
          refine ⟨c, o, rfl, hb, hshow, ⟨e', he', hf'.trans hfills⟩, fun hnone => ?_, fun z hz => ?_⟩
          · refine hfresh ((hput.find_ne ?_).trans hnone)
            rw [hk]
            rintro rfl
            rw [he] at hnone
            cases hnone
          · by_cases hc : c = cid
            · subst hc
              rw [he] at hz
              obtain rfl := Option.some.inj hz
              exact ⟨e₁, htaken e₁ he₁, hqty⟩
            · exact ⟨z, htaken z ((hput.find_ne (by rw [hk]; exact hc)).trans hz), rfl⟩

/-- The total an amend asks for. -/
def requestedTotal (e : Entry) (newQty : Option Int) : Int := newQty.getD e.row.quantity

/-- After the amend: filled plus working is the total asked for, and a new quantity was above what
    had been filled. A native amend (no new id) works on in place, a cancel_replace amend under
    the new id. -/
def ExposureAsAsked (cid : String) (newCid : Option String) (newQty : Option Int) (e : Entry)
    (db' : Db) : Prop :=
  (∃ e', db'.find cid = some e' ∧
    match newCid with
    | none => e'.filled + (e'.row.quantity - e'.filled) = requestedTotal e newQty
    | some c => ∃ z, db'.find c = some z ∧ e'.filled + z.row.quantity = requestedTotal e newQty) ∧
  ∀ n, newQty = some n → e.filled < n

/-- The amend is native; or its new id is free and nothing was filled; or its new id is taken, by an
    order of exactly the rest. -/
def ExposureCondition (newCid : Option String) (newQty : Option Int) (e : Entry) (db : Db) : Prop :=
  match newCid with
  | none => True
  | some c =>
    match db.find c with
    | none => e.filled = 0
    | some z => e.filled + z.row.quantity = requestedTotal e newQty

theorem exposure_iff_of_replaced {c : String} {o : NormalizedOrder} {out : SubmitOutcome}
    {db db' : Db} (hb : Router.amendedOrder e.row c p q = .ok o)
    (h : Replaced cid c e o out db db') :
    ExposureAsAsked cid (some c) q e db' ↔ ExposureCondition (some c) q e db := by
  obtain ⟨e', he', hfills⟩ := h.original
  have hfilled : e'.filled = e.filled := congrArg filledQty hfills
  have hqty : o.quantity = requestedTotal e q := (amendedOrder_quantity hb).2
  have hopos := o.quantity_pos
  have hask : ∀ n, q = some n → requestedTotal e q = n := by
    rintro n rfl
    rfl
  unfold ExposureAsAsked ExposureCondition
  rw [he']
  dsimp only
  cases hf : db.find c with
  | none =>
    obtain ⟨z, sid, t, hz, hterms⟩ := h.fresh hf
    have hzq : z.row.quantity = o.quantity := congrArg OrderRow.quantity hterms
    constructor
    · rintro ⟨⟨e₂, he₂, z', hz', hsum⟩, -⟩
      obtain rfl := Option.some.inj he₂
      rw [hz] at hz'
      obtain rfl := Option.some.inj hz'
      dsimp only
      omega
    · intro h0
      dsimp only at h0
      exact ⟨⟨e', rfl, z, hz, by omega⟩, fun n hn => by have := hask n hn; omega⟩
  | some z =>
    obtain ⟨z', hz', hzq⟩ := h.taken z hf
    have hzpos := z.quantity_pos
    constructor
    · rintro ⟨⟨e₂, he₂, z₂, hz₂, hsum⟩, -⟩
      obtain rfl := Option.some.inj he₂
      rw [hz'] at hz₂
      obtain rfl := Option.some.inj hz₂
      dsimp only
      omega
    · intro h0
      dsimp only at h0
      exact ⟨⟨e', rfl, z', hz', by omega⟩, fun n hn => by have := hask n hn; omega⟩

/-- For every order, fills and amend that completes normally: filled plus working is the total
    asked for, and a quantity at or below the fills was not let through, exactly under
    `ExposureCondition`. -/
theorem amend_exposure_iff {out : SubmitOutcome} (he : x.1.find cid = some e)
    (hexec : Exec (seqSem E) (R.amend fuel cid newCid p q) x (.ok out) y) :
    ExposureAsAsked cid newCid q e y.1 ↔ ExposureCondition newCid q e x.1 := by
  have hwp : wp (seqSem E) (fun _ _ => True) (R.amend fuel cid newCid p q)
      (outcome (fun _ y => ExposureAsAsked cid newCid q e y.1 ↔ ExposureCondition newCid q e x.1)
        fun _ _ => True) x := by
    refine amend_branches (fun _ _ _ => trivial) (fun _ _ _ => trivial) ?_ ?_
    · intro e₁ x₁ he₁ hx₁ _
      rw [he] at he₁
      obtain rfl := Option.some.inj he₁
      refine wp_mono (wp_traced (amendNative_spec (hx₁.1 ▸ he)) x₁.2) fun r z hz => ?_
      cases r with
      | error er => trivial
      | ok out =>
        obtain ⟨rfl, hlt, e', he', hqty, -⟩ := hz
        refine ⟨fun _ => trivial, fun _ => ⟨⟨e', he', ?_⟩, hlt⟩⟩
        rw [requestedTotal, ← hqty]
        omega
    · intro e₁ x₁ he₁ hx₁ _
      rw [he] at he₁
      obtain rfl := Option.some.inj he₁
      refine wp_mono (amendCancelReplace_returns (hx₁.1 ▸ he)) fun r z hz => ?_
      cases r with
      | error er => trivial
      | ok out =>
        obtain ⟨c, o, rfl, hb, hrep⟩ := hz
        rw [hx₁.1] at hrep
        exact exposure_iff_of_replaced hb hrep
  exact hwp.exec hexec

end Exposure

/-- The order is there with this much filled and this quantity. -/
def holds (cid : String) (filled quantity : Int) (x : World) : Bool :=
  (x.1.find cid).any fun e => e.filled = filled && e.row.quantity = quantity

theorem holds_iff {cid : String} {filled quantity : Int} {x : World} :
    holds cid filled quantity x = true ↔
      ∃ e, x.1.find cid = some e ∧ e.filled = filled ∧ e.row.quantity = quantity := by
  simp [holds, Option.any_eq_true]

/-- Filled by 30, amended natively to 50. -/
theorem native_exposure :
    ∃ x y e out, x.1.find cidA = some e ∧ e.filled = 30 ∧
      Exec (seqSem plainEnv) (simRouter.amend 0 cidA none none (some 50)) x (.ok out) y ∧
      ExposureAsAsked cidA none (some 50) e y.1 := by
  have hf := plain_follows liveHandler
  have h : ((runRequests liveHandler [.submit simRouter 0 partialOrderA none] (Db.empty, [])).any
      fun x => holds cidA 30 100 x &&
        returnsWith liveHandler (simRouter.amend 0 cidA none none (some 50)) x
          fun _ y => holds cidA 30 50 y) = true := by decide +kernel
  obtain ⟨x, -, hx⟩ := exists_run hf h
  obtain ⟨hx, hret⟩ := Bool.and_eq_true_iff.mp hx
  obtain ⟨e, he, hfilled, -⟩ := holds_iff.mp hx
  obtain ⟨out, y, hexec, -⟩ := exists_return hf hret
  exact ⟨x, y, e, out, he, hfilled, hexec, (amend_exposure_iff he hexec).mpr trivial⟩

/-- Filled by 40 of 100 at the venue and re-priced: the replacement is again for 100. -/
theorem replacement_ignores_fills :
    ∃ x y e out, SeqRun plainEnv (Db.empty, [])
        [.submit liveRouter 0 (sampleOrderA .liberator) none, .reconcileLiberator] x ∧
      x.1.find cidA = some e ∧
      Exec (seqSem plainEnv) (liveRouter.amend 0 cidA (some cidB) (some ⟨11, 0⟩) none) x (.ok out)
        y ∧ ¬ExposureAsAsked cidA (some cidB) none e y.1 := by
  have hf := plain_follows liveHandler
  have h : ((runRequests liveHandler
      [.submit liveRouter 0 (sampleOrderA .liberator) none, .reconcileLiberator]
      (Db.empty, [])).any fun x => holds cidA 40 100 x &&
        returnsWith liveHandler (liveRouter.amend 0 cidA (some cidB) (some ⟨11, 0⟩) none) x
          fun _ y => holds cidA 40 100 y && holds cidB 0 100 y) = true := by decide +kernel
  obtain ⟨x, hrun, hx⟩ := exists_run hf h
  obtain ⟨hx, hret⟩ := Bool.and_eq_true_iff.mp hx
  obtain ⟨e, he, -, hqty⟩ := holds_iff.mp hx
  obtain ⟨out, y, hexec, hy⟩ := exists_return hf hret
  obtain ⟨hyA, hyB⟩ := Bool.and_eq_true_iff.mp hy
  obtain ⟨eA, heA, hfA, -⟩ := holds_iff.mp hyA
  obtain ⟨eB, heB, -, hqB⟩ := holds_iff.mp hyB
  refine ⟨x, y, e, out, hrun, he, hexec, ?_⟩
  rintro ⟨⟨e', he', z, hz, hsum⟩, -⟩
  rw [heA] at he'
  rw [heB] at hz
  obtain rfl := Option.some.inj he'
  obtain rfl := Option.some.inj hz
  rw [requestedTotal, Option.getD_none] at hsum
  omega

end ExecutionEngine
