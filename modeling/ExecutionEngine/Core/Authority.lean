/-
  Who may write to a venue.

  Every path to a venue write (placement, IOC remainder, cancel, amend,
  replacement leg, sweep) first resolves its adapter for the broker and account
  of the order at hand, and no statement ever changes the broker or account of a
  stored row (`Keeps`). So at the moment of the call the adapter is the one the
  router resolves for the order as it is stored (`cleared_request`), and what it
  resolves to is read off the stage ladder and the account declaration
  (`resolveAdapter_ok`).
-/
import ExecutionEngine.Async.Rely
import ExecutionEngine.Core.Handles

namespace ExecutionEngine

open Async Async.Prog

/-- The broker an adapter speaks to. -/
def AdapterId.broker : AdapterId → Broker
  | .sim => .sim
  | .liberator => .liberator
  | .streamingPro => .streamingPro

/-- The adapter an operation writes to. -/
def writesTo : EngineOp → Option AdapterId
  | .ext (.place a _) | .ext (.cancel a _) | .ext (.amend a _ _ _) => some a
  | _ => none

/-- Broker and account of the order an operation writes for: the order placed, or the row stored
    under the id. -/
def orderFor (db : Db) : EngineOp → Option (Broker × String)
  | .ext (.place _ o) => some (o.broker, o.account)
  | .ext (.cancel _ cid) | .ext (.amend _ cid _ _) =>
    (db.find cid).map fun e => (e.row.broker, e.row.account)
  | _ => none

/-! ## What the router resolves to -/

namespace Router

variable {R : Router} {b : Broker} {account : String} {a : AdapterId}

theorem broker_of_realAdapterFor (h : R.realAdapterFor b = some a) : a.broker = b ∧ a ≠ .sim := by
  cases b with
  | liberator | streamingPro =>
    simp only [realAdapterFor] at h
    split at h
    · obtain rfl := Option.some.inj h
      exact ⟨rfl, by decide⟩
    · cases h
  | sim => cases h

/-- The ladder: the simulator in `sim` and `paper`, an installed real adapter in `micro_live`, and
    a refusal otherwise. -/
theorem ladder_trade (R : Router) (b : Broker) :
    (R.settings.stage ∈ [Stage.sim, .paper] ∧ R.ladder b .trade = .ok .sim) ∨
    (R.settings.stage = .microLive ∧ b ∈ realBrokers ∧
      ∃ a, R.realAdapterFor b = some a ∧ R.ladder b .trade = .ok a) ∨
    ∃ m, R.ladder b .trade = .error (.rejected .stageRejected m none) := by
  unfold ladder
  cases hs : R.settings.stage with
  | sim => exact .inl ⟨by simp, rfl⟩
  | paper => exact .inl ⟨by simp, rfl⟩
  | live => exact .inr (.inr ⟨_, rfl⟩)
  | microLive =>
    dsimp only
    by_cases hb : b ∈ realBrokers
    · rw [if_pos hb]
      cases ha : R.realAdapterFor b with
      | none => exact .inr (.inr ⟨_, rfl⟩)
      | some a => exact .inr (.inl ⟨rfl, hb, a, rfl, rfl⟩)
    · rw [if_neg hb]
      exact .inr (.inr ⟨_, rfl⟩)

/-- The routing authority passes the simulator and declared accounts. -/
theorem assertMayRouteReal_cases (R : Router) (account : String) (hb : b ∈ realBrokers)
    (ha : a ≠ .sim) :
    (account ∈ R.authorizedAccounts ∧ R.assertMayRouteReal account b a = .ok ()) ∨
    ∃ m, R.assertMayRouteReal account b a = .error (.rejected .realRoutingNotAuthorized m none) := by
  unfold assertMayRouteReal
  rw [if_neg (by simp [ha, hb])]
  by_cases hnone : R.authorizedAccounts.isEmpty = true
  · rw [if_pos hnone]
    exact .inr ⟨_, rfl⟩
  · rw [if_neg hnone]
    by_cases hacc : account ∈ R.authorizedAccounts
    · exact .inl ⟨hacc, by rw [if_neg (by simp [hacc])]⟩
    · exact .inr ⟨_, by rw [if_pos hacc]⟩

theorem resolveAdapter_of_ladder (h : R.ladder b .trade = .ok a) :
    R.resolveAdapter b account = (R.assertMayRouteReal account b a).map fun _ => a := by
  unfold resolveAdapter
  rw [h]
  cases hm : R.assertMayRouteReal account b a with
  | ok _ => exact congrArg (fun x : Except Exn Unit => do x; return a) hm
  | error e => exact congrArg (fun x : Except Exn Unit => do x; return a) hm

theorem resolveAdapter_of_refused {e : Exn} (h : R.ladder b .trade = .error e) :
    R.resolveAdapter b account = .error e := by
  unfold resolveAdapter
  rw [h]
  rfl

/-- `_resolve_adapter` answers the simulator in `sim` and `paper`, the order's own adapter in
    `micro_live` for a declared account, and refuses everything else. -/
theorem resolveAdapter_cases (R : Router) (b : Broker) (account : String) :
    (R.settings.stage ∈ [Stage.sim, .paper] ∧ R.resolveAdapter b account = .ok .sim) ∨
    (R.settings.stage = .microLive ∧ account ∈ R.authorizedAccounts ∧
      ∃ a, a ≠ .sim ∧ a.broker = b ∧ R.resolveAdapter b account = .ok a) ∨
    ∃ code m, code ∈ [Code.stageRejected, .realRoutingNotAuthorized] ∧
      R.resolveAdapter b account = .error (.rejected code m none) := by
  rcases R.ladder_trade b with ⟨hs, h⟩ | ⟨hs, hb, a, hreal, h⟩ | ⟨m, h⟩
  · refine .inl ⟨hs, ?_⟩
    rw [resolveAdapter_of_ladder h]
    rfl
  · obtain ⟨hbroker, hne⟩ := broker_of_realAdapterFor hreal
    rcases R.assertMayRouteReal_cases account hb hne with ⟨hacc, hok⟩ | ⟨m, herr⟩
    · refine .inr (.inl ⟨hs, hacc, a, hne, hbroker, ?_⟩)
      rw [resolveAdapter_of_ladder h, hok]
      rfl
    · refine .inr (.inr ⟨.realRoutingNotAuthorized, m, by simp, ?_⟩)
      rw [resolveAdapter_of_ladder h, herr]
      rfl
  · exact .inr (.inr ⟨.stageRejected, m, by simp, resolveAdapter_of_refused h⟩)

/-- An adapter that was resolved is the simulator below the live stages, or the order's own in
    `micro_live` for a declared account. -/
theorem resolveAdapter_ok (h : R.resolveAdapter b account = .ok a) :
    (a = .sim ∧ R.settings.stage ∈ [Stage.sim, .paper]) ∨
    (a ≠ .sim ∧ R.settings.stage = .microLive ∧ a.broker = b ∧
      account ∈ R.authorizedAccounts) := by
  rcases R.resolveAdapter_cases b account with ⟨hs, h'⟩ | ⟨hs, hacc, a', hne, hb, h'⟩ |
    ⟨_, _, _, h'⟩
  · rw [h'] at h
    obtain rfl := Except.ok.inj h
    exact .inl ⟨rfl, hs⟩
  · rw [h'] at h
    obtain rfl := Except.ok.inj h
    exact .inr ⟨hne, hs, hb, hacc⟩
  · rw [h'] at h
    cases h

end Router

/-! ## What nobody changes -/

/-- Rows stay, with their broker, account and market. -/
def Keeps (db db' : Db) : Prop := ∀ row, Lasting row db → Lasting row db'

instance : IsPreorder Db Keeps where
  refl _ _ h := h
  trans _ _ _ h h' row hrow := h' row (h row hrow)

theorem step_keeps {E : Env} {db db' : Db} {op : EngineOp} {r : Except Exn op.Res}
    (h : (sem E).step db op r db') : Keeps db db' := fun _ hrow => step_lasting h hrow

/-- The row of an order that has been inserted. -/
theorem lasting_insert {E : Env} {db db' : Db} {o : NormalizedOrder} {sid : Option String}
    (h : (sem E).step db (.store (.insertOrder o sid)) (.ok ()) db') :
    ∃ row : OrderRow, row.clientOrderId = o.clientOrderId ∧ row.broker = o.broker ∧
      row.account = o.account ∧ Lasting row db' := by
  obtain ⟨-, t, e, he, -, hrow⟩ := step_insert_ok h
  refine ⟨e.row, by rw [hrow]; rfl, by rw [hrow]; rfl, by rw [hrow]; rfl, e, ?_, rfl⟩
  rw [show e.row.clientOrderId = o.clientOrderId by rw [hrow]; rfl]
  exact he

theorem Current.lasting {row : OrderRow} {db : Db} (h : Current row db) : Lasting row db := by
  obtain ⟨e, he, hrow⟩ := h.find
  exact ⟨e, he, by rw [hrow]⟩

/-! ## The calls of a thread among others -/

/-- A write goes to the adapter the router resolves for the order as it is stored. -/
def Cleared (R : Router) (db : Db) (op : EngineOp) : Prop :=
  ∀ a, writesTo op = some a → ∃ b account, orderFor db op = some (b, account) ∧
    R.resolveAdapter b account = .ok a

/-- Any operation that writes to no venue. -/
def Writeless : EngineOp → Prop
  | .ext (.place _ _) | .ext (.cancel _ _) | .ext (.amend _ _ _ _) => False
  | _ => True

theorem Writeless.cleared {R : Router} {db : Db} {op : EngineOp} (h : Writeless op) :
    Cleared R db op := by
  intro a ha
  rcases op with o | o
  · cases ha
  · cases o <;> first | exact h.elim | cases ha

theorem Probe.writeless {op : EngineOp} (h : Probe op) : Writeless op := by
  rcases op with o | o <;> cases o <;> first | exact h.elim | trivial

theorem Survey.writeless {op : EngineOp} (h : Survey op) : Writeless op := by
  rcases op with o | o <;> cases o <;> first | exact h.elim | trivial

/-- The only writes are cancels and amends of this order, at an adapter resolved for it. -/
def Owned (R : Router) (row : OrderRow) : EngineOp → Prop
  | .ext (.place _ _) => False
  | .ext (.cancel a cid) | .ext (.amend a cid _ _) =>
    R.resolveAdapter row.broker row.account = .ok a ∧ cid = row.clientOrderId
  | _ => True

theorem Owned.cleared {R : Router} {row : OrderRow} {db : Db} {op : EngineOp} (h : Owned R row op)
    (hrow : Lasting row db) : Cleared R db op := by
  obtain ⟨e, he, hbook⟩ := hrow
  simp only [OrderRow.book, Prod.mk.injEq] at hbook
  have hfor : (db.find row.clientOrderId).map (fun e => (e.row.broker, e.row.account)) =
      some (row.broker, row.account) := by
    rw [he, Option.map_some, hbook.1, hbook.2.1]
  intro a ha
  rcases op with o | o
  · cases ha
  · cases o with
    | place a' o => exact h.elim
    | cancel a' cid | amend a' cid p q =>
      obtain ⟨hres, rfl⟩ := h
      obtain rfl := Option.some.inj ha
      exact ⟨_, _, hfor, hres⟩
    | _ => cases ha

section Clear

variable {α : Type} {E : Env} {R : Router} {row : OrderRow} {db : Db}

/-- The guarantee of a coroutine on `R` while the others keep rows and their books. -/
abbrev Clear (E : Env) (R : Router) (p : Eff α) (Q : Except Exn α → Db → Prop) (db : Db) : Prop :=
  wp ((sem E).among Keeps) (within Keeps (Cleared R)) p Q db

theorem clear_perform {op : EngineOp} {Q : Except Exn op.Res → Db → Prop}
    (h : ∀ db₁, Keeps db db₁ → Cleared R db₁ op ∧ ∀ r db', (sem E).step db₁ op r db' → Q r db') :
    Clear E R (Prog.perform (S := engineSig) op) Q db := wp_among_perform h

/-- Coroutines that write to no venue are clear, and a row they know stays. -/
theorem clear_writeless {p : Eff α} (hp : Uses Writeless p) (hrow : Lasting row db) :
    Clear E R p (fun _ db' => Lasting row db') db :=
  hp.among hrow (fun _ _ hk h => hk row h) (fun _ _ hop _ => hop.cleared)
    fun _ _ _ _ _ h hst => step_lasting hst h

theorem clear_writeless' {p : Eff α} (hp : Uses Writeless p) :
    Clear E R p (fun _ _ => True) db :=
  hp.among (I := fun _ => True) trivial (fun _ _ _ _ => trivial) (fun _ _ hop _ => hop.cleared)
    fun _ _ _ _ _ _ _ => trivial

/-- The cancels and amends of a row that is known are clear, and all rows known stay. -/
theorem clear_owned {p : Eff α} {rows : List OrderRow} (hp : Uses (Owned R row) p)
    (hmem : row ∈ rows) (hrows : ∀ x ∈ rows, Lasting x db) :
    Clear E R p (fun _ db' => ∀ x ∈ rows, Lasting x db') db :=
  hp.among hrows (fun _ _ hk h x hx => hk x (h x hx))
    (fun _ _ hop h => hop.cleared (h row hmem)) fun _ _ _ _ _ h hst x hx => step_lasting hst (h x hx)

theorem clear_owned' {p : Eff α} (hp : Uses (Owned R row) p) (hrow : Lasting row db) :
    Clear E R p (fun _ _ => True) db :=
  wp_mono (clear_owned hp (List.mem_singleton_self row) fun _ hx => List.mem_singleton.mp hx ▸ hrow)
    fun _ _ _ => trivial

theorem clear_probe {p : Eff α} (hp : Uses Probe p) : Clear E R p (fun _ _ => True) db :=
  clear_writeless' (hp.mono fun _ => Probe.writeless)

variable {β : Type}

theorem clear_bind {p : Eff α} {f : α → Eff β} {I : α → Db → Prop}
    (hp : Clear E R p (outcome I fun _ _ => True) db)
    (hf : ∀ a db', I a db' → Clear E R (f a) (fun _ _ => True) db') :
    Clear E R (p.bind f) (fun _ _ => True) db := wp_seq hp hf

/-- First something that writes to no venue. -/
theorem clear_then {p : Eff α} {f : α → Eff β} {Q : Except Exn β → Db → Prop}
    (hp : Uses Writeless p) (herr : ∀ e db', Q (.error e) db')
    (hf : ∀ a db', Clear E R (f a) Q db') : Clear E R (p.bind f) Q db :=
  wp_seq (wp_outcome (clear_writeless' hp) fun e db' _ => herr e db') fun a db' _ => hf a db'

/-- The same with a row that is known. -/
theorem clear_keeping {p : Eff α} {f : α → Eff β} (hp : Uses Writeless p) (hrow : Lasting row db)
    (hf : ∀ a db', Lasting row db' → Clear E R (f a) (fun _ _ => True) db') :
    Clear E R (p.bind f) (fun _ _ => True) db :=
  wp_seq (wp_outcome (clear_writeless hp hrow) fun _ _ _ => trivial) hf

theorem clear_lift {x : Except Exn α} {f : α → Eff β}
    (hf : ∀ a, x = .ok a → Clear E R (f a) (fun _ _ => True) db) :
    Clear E R ((Eff.lift x).bind f) (fun _ _ => True) db := by
  cases x with
  | ok a => exact hf a rfl
  | error e => trivial

/-- A read of a row makes it known. -/
theorem clear_fetchOrder {cid : String} {f : Option OrderRow → Eff β}
    (hnone : ∀ db', Clear E R (f none) (fun _ _ => True) db')
    (hsome : ∀ row db', row.clientOrderId = cid → Lasting row db' →
      Clear E R (f (some row)) (fun _ _ => True) db') :
    Clear E R ((Eff.store (.fetchOrder cid)).bind f) (fun _ _ => True) db := by
  refine clear_bind (I := fun x db' => ∀ row, x = some row →
    row.clientOrderId = cid ∧ Lasting row db') ?_ fun x db' hx => ?_
  · refine clear_perform fun db₁ _ => ⟨Writeless.cleared trivial, fun r db' hs => ?_⟩
    obtain ⟨rfl, hr⟩ := step_fetchOrder hs
    cases r with
    | error e => trivial
    | ok x =>
      intro row hrow
      have hx := (hr x rfl).symm.trans hrow
      obtain ⟨e, he, rfl⟩ := Option.map_eq_some_iff.mp hx
      have hkey := Db.find_key he
      exact ⟨hkey, e, by rw [hkey, he], rfl⟩
  · cases x with
    | none => exact hnone db'
    | some row => exact hsome row db' (hx row rfl).1 (hx row rfl).2

end Clear

/-! ## Every call -/

section Calls

variable {E : Env} (R : Router) {db : Db}

theorem clear_cancel (cid : String) : Clear E R (R.cancel cid) (fun _ _ => True) db := by
  unfold Router.cancel
  rw [Prog.bind_eq]
  refine clear_fetchOrder (fun _ => trivial) fun row db₁ hcid hrow => ?_
  dsimp only
  split
  · trivial
  · split
    · exact clear_writeless' (Router.uses_get trivial)
    · split
      · trivial
      · rw [Prog.bind_eq]
        refine clear_lift fun a ha => ?_
        rw [Prog.bind_eq]
        refine clear_keeping ((Router.uses_breakerGuard a).mono fun _ => Probe.writeless) hrow
          fun _ db₂ hrow₂ => ?_
        rw [Prog.bind_eq]
        refine clear_bind (I := fun _ _ => True) ?_ fun _ _ _ =>
          clear_writeless' (Router.uses_get trivial)
        have howned : Uses (Owned R row) (Router.cancelAt a cid) :=
          Router.uses_cancelAt trivial (fun _ _ => trivial) ⟨ha, hcid.symm⟩
        exact wp_outcome (clear_owned' howned hrow₂) fun _ _ _ => trivial

theorem clear_sweep {rows : List OrderRow} (hrows : ∀ row ∈ rows, Lasting row db) :
    Clear E R (R.sweep rows) (fun _ _ => True) db := by
  induction rows generalizing db with
  | nil => trivial
  | cons row rows ih =>
    unfold Router.sweep
    rw [Prog.bind_eq]
    -- the writes of one row leave every other listed row known
    refine clear_bind (I := fun _ db' => ∀ row ∈ rows, Lasting row db') ?_ fun ok db' hrest => ?_
    · have howned : Uses (Owned R row) (R.sweepOne row) :=
        R.uses_sweepOne trivial (fun _ _ => trivial) fun a ha => ⟨ha, rfl⟩
      refine wp_outcome (wp_mono (clear_owned howned (List.mem_cons_self ..) hrows)
        fun _ db' h y hy => ?_) fun _ _ _ => trivial
      exact h y (List.mem_cons_of_mem _ hy)
    · rw [Prog.bind_eq]
      exact clear_bind (wp_outcome (ih hrest) fun _ _ _ => trivial) fun _ _ _ => trivial

theorem clear_massCancel : Clear E R R.massCancel (fun _ _ => True) db := by
  refine clear_bind (I := fun rows db' => ∀ row ∈ rows, Lasting row db') ?_ fun rows db' h =>
    clear_sweep R h
  refine clear_perform fun db₁ _ => ⟨Writeless.cleared trivial, fun r db' hs => ?_⟩
  obtain ⟨rfl, hr⟩ := step_openOrders hs
  cases r with
  | error e => trivial
  | ok rows =>
    intro row hrow
    have hmem := (hr rows rfl).1.mem_iff.mp hrow
    rw [Db.fetchOpenOrders, Db.byCreatedAt, List.mem_insertionSort, List.mem_filter] at hmem
    obtain ⟨e, he, rfl⟩ := List.mem_map.mp hmem.1
    exact (current_of_mem he).lasting

theorem clear_gates (o : NormalizedOrder) :
    Clear E R (R.gates o)
      (outcome (fun a _ => R.resolveAdapter o.broker o.account = .ok a) fun _ _ => True) db := by
  have hpass : ∀ (e : Exn) (db' : Db), outcome (fun a _ => R.resolveAdapter o.broker o.account =
      .ok a) (fun _ _ => True) (.error e) db' := fun _ _ => trivial
  unfold Router.gates
  refine clear_then (uses_lift _) hpass fun caps db₁ => ?_
  refine clear_then (uses_lift _) hpass fun _ db₂ => ?_
  refine clear_then ((R.uses_riskCheck o).mono fun _ => Probe.writeless) hpass fun _ db₃ => ?_
  refine clear_then ((R.uses_priceBandCheck o).mono fun _ => Probe.writeless) hpass fun _ db₄ => ?_
  cases ha : R.resolveAdapter o.broker o.account with
  | error e => trivial
  | ok a =>
    change Clear E R ((Router.breakerGuard a).bind fun _ => .ret a) _ _
    exact clear_then ((Router.uses_breakerGuard a).mono fun _ => Probe.writeless) hpass
      fun _ _ => rfl

theorem clear_placeAndSettle (fuel : Nat) {a : AdapterId} {o : NormalizedOrder} {row : OrderRow}
    (hcid : row.clientOrderId = o.clientOrderId) (hb : row.broker = o.broker)
    (hacc : row.account = o.account) (ha : R.resolveAdapter o.broker o.account = .ok a)
    (hrow : Lasting row db) : Clear E R (R.placeAndSettle fuel a o) (fun _ _ => True) db := by
  unfold Router.placeAndSettle
  rw [Prog.bind_eq]
  refine clear_bind (I := fun _ => Lasting row) ?_ fun ack db₁ hrow₁ => ?_
  · refine clear_perform fun db₁ hk => ⟨fun a' ha' => ?_, fun r db' hs => ?_⟩
    · obtain rfl := Option.some.inj ha'
      exact ⟨_, _, rfl, ha⟩
    · cases r with
      | ok _ => exact step_lasting hs (hk row hrow)
      | error _ => trivial
  · split
    · refine clear_writeless' (Uses.bind (uses_updateStatus trivial trivial) fun _ => ?_)
      exact (uses_store trivial).bind fun _ => uses_ret _
    · split
      · exact clear_writeless' ((R.survey_recover fuel o).mono fun _ => Survey.writeless)
      · refine clear_owned' ?_ hrow₁
        rw [← hb, ← hacc] at ha
        exact Router.uses_settle trivial trivial (fun _ => trivial) (fun _ _ => trivial)
          ⟨ha, hcid.symm⟩

theorem clear_submitLocked (fuel : Nat) {a : AdapterId} {o : NormalizedOrder}
    (ha : R.resolveAdapter o.broker o.account = .ok a) (sid : Option String) (acquired : Bool) :
    Clear E R (R.submitLocked fuel a o sid acquired) (fun _ _ => True) db := by
  unfold Router.submitLocked
  split
  · rw [Prog.bind_eq]
    -- after an insert of its own the row is there, with the order's broker and account
    refine clear_bind (I := fun fresh db' => fresh = true → ∃ row : OrderRow,
      row.clientOrderId = o.clientOrderId ∧ row.broker = o.broker ∧ row.account = o.account ∧
      Lasting row db') ?_ fun fresh db₁ hfresh => ?_
    · unfold Router.insertFresh
      refine wp_tryExcept.mpr (wp_bind.mpr ?_)
      refine clear_perform fun db₁ _ => ⟨Writeless.cleared trivial, fun r db' hs => ?_⟩
      cases r with
      | ok _ => exact fun _ => lasting_insert hs
      | error x =>
        rw [outcome_error]
        cases x with
        | duplicateOrderSignal cid => exact fun hf => by cases hf
        | _ => trivial
    · cases fresh with
      | true =>
        obtain ⟨row, hcid, hb, hacc, hrow⟩ := hfresh rfl
        rw [if_pos rfl, Prog.bind_eq]
        exact clear_bind (wp_outcome (clear_placeAndSettle R fuel hcid hb hacc ha hrow)
          fun _ _ _ => trivial) fun _ _ _ => trivial
      | false =>
        refine clear_writeless' ((uses_store trivial).bind fun row => ?_)
        split <;> trivial
  · refine clear_writeless' ?_
    exact (Router.uses_awaitConcurrent trivial trivial _).bind fun _ => uses_ret _

theorem clear_submit (fuel : Nat) (o : NormalizedOrder) (sid : Option String) :
    Clear E R (R.submit fuel o sid) (fun _ _ => True) db := by
  unfold Router.submit
  rw [Prog.bind_eq]
  refine clear_then (R.uses_assertDisengaged.mono fun _ => Probe.writeless)
    (fun _ _ => trivial) fun _ db₁ => ?_
  rw [Prog.bind_eq]
  refine clear_then (uses_store trivial) (fun _ _ => trivial) fun existing db₂ => ?_
  cases existing with
  | some r => trivial
  | none =>
    dsimp only
    rw [Prog.bind_eq]
    refine clear_bind (clear_gates R o) fun a db₃ ha => ?_
    rw [Prog.bind_eq]
    refine clear_bind (I := fun _ _ => True) ?_ fun done _ _ =>
      clear_writeless' (Router.uses_readBack trivial done)
    unfold Router.singleFlight
    rw [Prog.bind_eq]
    refine wp_bind.mpr (wp_mono (clear_probe (R.uses_acquireLock _)) fun x db₄ _ => ?_)
    cases x with
    | error e => trivial
    | ok acquired =>
      rw [outcome_ok, wp_tryFinally]
      refine wp_mono (clear_submitLocked R fuel ha sid acquired) fun x db₅ _ => ?_
      refine wp_mono (clear_probe (R.uses_releaseLock _ acquired)) fun y _ _ => ?_
      cases y <;> cases x <;> trivial

theorem clear_amendNative {row : OrderRow} (newCid : Option String) (p : Option Decimal)
    (q : Option Int) (hrow : Lasting row db) :
    Clear E R (R.amendNative row newCid p q) (fun _ _ => True) db := by
  unfold Router.amendNative
  dsimp only
  split
  · trivial
  · split
    · trivial
    · rw [Prog.bind_eq]
      refine clear_keeping (uses_store trivial) hrow fun result db₁ hrow₁ => ?_
      cases result with
      | none => trivial
      | some result =>
        dsimp only
        generalize Router.amendedOrder row row.clientOrderId p q = built
        rw [Prog.bind_eq]
        refine clear_lift fun _ _ => ?_
        rw [Prog.bind_eq]
        refine clear_lift fun amended _ => ?_
        rw [Prog.bind_eq]
        refine clear_keeping ((R.uses_riskCheck amended).mono fun _ => Probe.writeless) hrow₁
          fun _ db₂ hrow₂ => ?_
        rw [Prog.bind_eq]
        refine clear_lift fun a ha => ?_
        rw [Prog.bind_eq]
        refine clear_keeping ((Router.uses_breakerGuard a).mono fun _ => Probe.writeless) hrow₂
          fun _ db₃ hrow₃ => clear_owned' ?_ hrow₃
        exact Router.uses_amendAt trivial trivial (fun _ _ => trivial) ⟨ha, rfl⟩ trivial

theorem clear_amend (fuel : Nat) (cid : String) (newCid : Option String) (p : Option Decimal)
    (q : Option Int) : Clear E R (R.amend fuel cid newCid p q) (fun _ _ => True) db := by
  unfold Router.amend
  rw [Prog.bind_eq]
  refine clear_then (R.uses_assertDisengaged.mono fun _ => Probe.writeless)
    (fun _ _ => trivial) fun _ db₁ => ?_
  split
  · trivial
  · rw [Prog.bind_eq]
    refine clear_fetchOrder (fun _ => trivial) fun row db₂ _ hrow => ?_
    dsimp only
    rw [Prog.bind_eq]
    refine clear_lift fun caps _ => ?_
    split
    · exact clear_amendNative R newCid p q hrow
    · unfold Router.amendCancelReplace
      split
      · trivial
      · rename_i newCid
        generalize Router.amendedOrder row newCid p q = built
        rw [Prog.bind_eq]
        refine clear_bind (wp_outcome (clear_cancel R row.clientOrderId) fun _ _ _ => trivial)
          fun _ _ _ => ?_
        rw [Prog.bind_eq]
        exact clear_lift fun replacement _ => clear_submit R fuel replacement _

end Calls

/-! ## Whole runs -/

section Run

variable {ι ι' : Type} [DecidableEq ι] [DecidableEq ι'] {E E' : Env} {requests : ι → Request}
  {requests' : ι' → Request} {db₀ db₀' : Db} {P : Pool engineSig Db ι} {P' : Pool engineSig Db ι'}
  {i : ι} {op : EngineOp} {k : Except Exn op.Res → Eff Unit}

theorem cleared_thread {α : Type} {p : Eff α} {R : Router}
    (hi : (requests i).prog = p.bind fun _ => .ret ()) (hp : Clear E R p (fun _ _ => True) db₀)
    (hP : PoolReach (sem E) closed (engine requests db₀) P) (hk : P.threads i = .call op k) :
    Cleared R P.state op :=
  rely_demand (Q := fun _ _ => True) rfl (fun _ _ h => h.elim) (fun _ _ => uses_univ _)
    (fun _ _ _ _ _ h => step_keeps h)
    (show Clear E R (requests i).prog _ db₀ from
      hi ▸ wp_seq (wp_outcome hp fun _ _ _ => trivial) fun _ _ _ => trivial) hP hk

/-- A reconciler or the handle recovery is never about to write. -/
theorem writeless_thread (hi : Uses Writeless (requests i).prog)
    (hP : PoolReach (sem E) closed (engine requests db₀) P) (hk : P.threads i = .call op k) :
    writesTo op = none := by
  have hw := pool_uses (show Uses Writeless ((engine requests db₀).threads i) from hi) hP
  rw [hk] at hw
  rcases op with o | o
  · rfl
  · cases o <;> first | exact hw.1.elim | rfl

/-- Every write of a run is cleared by the router whose call makes it. -/
theorem cleared_run (hP : PoolReach (sem E) closed (engine requests db₀) P)
    (hk : P.threads i = .call op k) {a : AdapterId} (ha : writesTo op = some a) :
    ∃ R, (requests i).router = some R ∧ Cleared R P.state op := by
  have hsurvey (h : Uses Survey (requests i).prog) : False := by
    rw [writeless_thread (h.mono fun _ => Survey.writeless) hP hk] at ha
    cases ha
  cases hq : requests i with
  | submit R fuel o sid =>
    exact ⟨R, rfl, cleared_thread (by rw [hq]; rfl) (clear_submit R fuel o sid) hP hk⟩
  | cancel R cid => exact ⟨R, rfl, cleared_thread (by rw [hq]; rfl) (clear_cancel R cid) hP hk⟩
  | amend R fuel cid newCid p q =>
    exact ⟨R, rfl, cleared_thread (by rw [hq]; rfl) (clear_amend R fuel cid newCid p q) hP hk⟩
  | massCancel R => exact ⟨R, rfl, cleared_thread (by rw [hq]; rfl) (clear_massCancel R) hP hk⟩
  | reconcileLiberator | reconcileStreamingPro =>
    refine (hsurvey ?_).elim
    rw [hq]
    exact (Reconcile.survey_reconcileOnce fun _ => uses_ext trivial).bind fun _ => uses_ret _
  | resolveOrderNow cid =>
    refine (hsurvey ?_).elim
    rw [hq]
    exact (survey_resolveOrderNow cid).bind fun _ => uses_ret _

/-- At this moment a call on `R` is about to write to a real adapter for an order of `account`. -/
def WritesReal (requests : ι → Request) (P : Pool engineSig Db ι) (R : Router)
    (account : String) : Prop :=
  ∃ i op k a b, (requests i).router = some R ∧ P.threads i = .call op k ∧ writesTo op = some a ∧
    a ≠ .sim ∧ orderFor P.state op = some (b, account)

/-- In every interleaving of calls over any store, a write goes to the simulator in `sim` and
    `paper`, and otherwise to the adapter of the order's own broker, in `micro_live`, for an
    account the router declares; with any other stage or account the router refuses to resolve an
    adapter. So nodes with disjoint declarations never both write for one account. -/
theorem only_authorized_write (hP : PoolReach (sem E) closed (engine requests db₀) P)
    (hP' : PoolReach (sem E') closed (engine requests' db₀') P') :
    (∀ i op k a, P.threads i = .call op k → writesTo op = some a →
      ∃ R b account, (requests i).router = some R ∧ orderFor P.state op = some (b, account) ∧
        ((a = .sim ∧ R.settings.stage ∈ [Stage.sim, .paper]) ∨
          (a ≠ .sim ∧ R.settings.stage = .microLive ∧ a.broker = b ∧
            account ∈ R.authorizedAccounts))) ∧
    (∀ (R : Router) b account, R.settings.stage ∉ [Stage.sim, .paper] →
      ¬ (R.settings.stage = .microLive ∧ account ∈ R.authorizedAccounts) →
      ∃ code m, code ∈ [Code.stageRejected, .realRoutingNotAuthorized] ∧
        R.resolveAdapter b account = .error (.rejected code m none)) ∧
    ∀ (R R' : Router) account, R.authorizedAccounts.Disjoint R'.authorizedAccounts →
      ¬ (WritesReal requests P R account ∧ WritesReal requests' P' R' account) := by
  have hdeclared {κ : Type} [DecidableEq κ] {F : Env} {qs : κ → Request} {db : Db}
      {X : Pool engineSig Db κ} (hX : PoolReach (sem F) closed (engine qs db) X) {R : Router}
      {account : String} (h : WritesReal qs X R account) : account ∈ R.authorizedAccounts := by
    obtain ⟨i, op, k, a, b, hR, hk, ha, hne, hfor⟩ := h
    obtain ⟨R₁, hR₁, hclear⟩ := cleared_run hX hk ha
    obtain rfl := Option.some.inj (hR.symm.trans hR₁)
    obtain ⟨b', account', hfor', hres⟩ := hclear a ha
    obtain ⟨rfl, rfl⟩ := Prod.mk.inj (Option.some.inj (hfor.symm.trans hfor'))
    rcases Router.resolveAdapter_ok hres with ⟨hsim, -⟩ | ⟨-, -, -, hacc⟩
    · exact absurd hsim hne
    · exact hacc
  refine ⟨fun i op k a hk ha => ?_, fun R b account hstage hauth => ?_, fun R R' account hdis => ?_⟩
  · obtain ⟨R, hR, hclear⟩ := cleared_run hP hk ha
    obtain ⟨b, account, hfor, hres⟩ := hclear a ha
    exact ⟨R, b, account, hR, hfor, Router.resolveAdapter_ok hres⟩
  · rcases R.resolveAdapter_cases b account with ⟨hs, -⟩ | ⟨hs, hacc, -⟩ | h
    · exact absurd hs hstage
    · exact absurd ⟨hs, hacc⟩ hauth
    · exact h
  · rintro ⟨hw, hw'⟩
    exact hdis (hdeclared hP hw) (hdeclared hP' hw')

end Run

/-- The same node, declared for another account. -/
def otherRouter : Router :=
  { liveRouter with settings := { liveRouter.settings with realRoutingAccounts := ["87654321"] } }

def liveSubmit (R : Router) (_ : Unit) : Request := .submit R 0 (sampleOrderA .liberator) none

/-- A submit on a node that is about to place, or has been refused. -/
def submitRun (R : Router) : Pool engineSig Db Unit :=
  runPool liveHandler.step (List.replicate 10 ()) (engine (liveSubmit R) Db.empty)

theorem submitRun_reach (R : Router) :
    PoolReach (sem plainEnv) closed (engine (liveSubmit R) Db.empty) (submitRun R) :=
  runPool_reach (plain_follows liveHandler) _ _

/-- The adapter a thread is about to write to, and for which account. -/
def nextWrite (P : Pool engineSig Db Unit) : Option (AdapterId × String) :=
  match P.threads () with
  | .call op _ => (writesTo op).bind fun a => (orderFor P.state op).map fun x => (a, x.2)
  | _ => none

/-- The declared node is about to place the sample order at Liberator; the other is not. -/
theorem live_write_authorized :
    WritesReal (liveSubmit liveRouter) (submitRun liveRouter) liveRouter "12345672" ∧
    ¬ WritesReal (liveSubmit otherRouter) (submitRun otherRouter) otherRouter "12345672" := by
  have hnext : nextWrite (submitRun liveRouter) = some (.liberator, "12345672") := by
    decide +kernel
  have hwrite : WritesReal (liveSubmit liveRouter) (submitRun liveRouter) liveRouter
      "12345672" := by
    unfold nextWrite at hnext
    split at hnext
    · rename_i op k hk
      obtain ⟨a, ha, hfor⟩ := Option.bind_eq_some_iff.mp hnext
      obtain ⟨⟨b, account⟩, hb, heq⟩ := Option.map_eq_some_iff.mp hfor
      obtain ⟨rfl, rfl⟩ := Prod.mk.inj heq
      exact ⟨(), op, k, .liberator, b, rfl, hk, ha, by decide, hb⟩
    · cases hnext
  have hlive : liveRouter.authorizedAccounts = ["12345672"] := by decide +kernel
  have hdisjoint : liveRouter.authorizedAccounts.Disjoint otherRouter.authorizedAccounts := by
    rw [hlive, List.singleton_disjoint]
    decide +kernel
  refine ⟨hwrite, fun hother => ?_⟩
  exact (only_authorized_write (submitRun_reach liveRouter) (submitRun_reach otherRouter)).2.2 _ _ _
    hdisjoint ⟨hwrite, hother⟩

end ExecutionEngine
