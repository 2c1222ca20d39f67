/-
  A deployment, from its settings to its writes.

  `boot` is the start of the process: the routing declaration is checked before anything else, and
  a broker's adapter exists only at a broker stage, in owner mode, with that broker's key. What
  then runs are requests at the app, the breaker hooks of the heartbeats and the passes of the
  reconcilers (`Task`); a request becomes a call of the router only through the guards of its
  route.

  `contact_authorized` puts these together over every interleaving: what stands behind a write to a
  real venue, in the settings and in the request.
-/
import ExecutionEngine.Api.Access
import ExecutionEngine.Core.Authority
import ExecutionEngine.Core.KillSwitch

namespace ExecutionEngine

open Async Async.Prog

/-! ## Start -/

def Stage.value : Stage → String
  | .sim => "sim"
  | .paper => "paper"
  | .microLive => "micro_live"
  | .live => "live"

/-- The settings of the process. -/
structure AppSettings where
  routing : Settings
  publicMode : Bool := true
  apiKey : Option String := none
  readApiKey : Option String := none
  liberatorApiKey : Option String := none
  streamingProApiKey : Option String := none
  /-- Is there a base URL for the market-data client? -/
  marketData : Bool := false

namespace AppSettings

def brokerStages : List Stage := [.paper, .microLive, .live]

def reconcileStages : List Stage := [.microLive, .live]

def realRoutingStages : List Stage := [.microLive, .live]

variable (S : AppSettings)

def keys : Access.Keys := ⟨S.publicMode, S.apiKey, S.readApiKey⟩

/-- `authorized_accounts`. -/
def authorizedAccounts : List String := ({ settings := S.routing } : Router).authorizedAccounts

/-- `assert_startup_declaration`, with the text of the ConfigError. -/
def assertStartupDeclaration : Except String Unit :=
  if S.routing.stage ∉ realRoutingStages then .ok ()
  else if S.authorizedAccounts.isEmpty then
    .error ("stage=" ++ S.routing.stage.value ++ " requires EXECUTION_ENGINE_REAL_ROUTING_ACCOUNTS " ++
      "(EH6: exactly one authoritative real-router per broker account). Refusing to " ++
      "start rather than refusing every order at submit time.")
  else if S.liberatorApiKey = none ∧ S.streamingProApiKey = none then
    .error ("EXECUTION_ENGINE_REAL_ROUTING_ACCOUNTS declares " ++
      Router.sortedRepr S.authorizedAccounts ++ " but this node holds " ++
      "NO broker credential — the declaration and the credentials disagree. Refusing " ++
      "rather than picking one (EH6/EH7: a stale account map went unnoticed for 31 days).")
  else .ok ()

/-- The key of a broker's bridge. -/
def credential : AdapterId → Option String
  | .liberator => S.liberatorApiKey
  | .streamingPro => S.streamingProApiKey
  | .sim => none

/-- `liberator_enabled` and `streaming_pro_enabled`: the start predicate of a broker's runtime. -/
def enabled (a : AdapterId) : Bool :=
  S.routing.stage ∈ brokerStages && !S.publicMode && (S.credential a).isSome

end AppSettings

/-- A process that has started. -/
structure Node where
  settings : AppSettings
  declared : settings.assertStartupDeclaration = .ok ()

/-- The start of `lifespan`. -/
def boot (S : AppSettings) : Except String Node :=
  match h : S.assertStartupDeclaration with
  | .ok () => .ok ⟨S, h⟩
  | .error m => .error m

theorem boot_settings {S : AppSettings} {N : Node} (h : boot S = .ok N) : N.settings = S := by
  unfold boot at h
  split at h
  · obtain rfl := Except.ok.inj h
    rfl
  · cases h

/-- A process starts unless it could route real orders without a declaration or without a key. -/
theorem boot_iff {S : AppSettings} : (∃ N, boot S = .ok N) ↔
    (S.routing.stage ∈ AppSettings.realRoutingStages →
      S.authorizedAccounts ≠ [] ∧ ∃ a, (S.credential a).isSome) := by
  have hboot : (∃ N, boot S = .ok N) ↔ S.assertStartupDeclaration = .ok () := by
    constructor
    · rintro ⟨N, h⟩
      exact boot_settings h ▸ N.declared
    · intro h
      refine ⟨⟨S, h⟩, ?_⟩
      unfold boot
      split
      · rfl
      · rename_i m hm
        cases h.symm.trans hm
  have hkey : (∃ a, (S.credential a).isSome) ↔
      ¬ (S.liberatorApiKey = none ∧ S.streamingProApiKey = none) := by
    rw [not_and_or, ← ne_eq, ← ne_eq, ← Option.isSome_iff_ne_none, ← Option.isSome_iff_ne_none]
    constructor
    · rintro ⟨a, ha⟩
      cases a with
      | sim => cases ha
      | liberator => exact .inl ha
      | streamingPro => exact .inr ha
    · rintro (h | h)
      · exact ⟨.liberator, h⟩
      · exact ⟨.streamingPro, h⟩
  rw [hboot, hkey]
  unfold AppSettings.assertStartupDeclaration
  by_cases hstage : S.routing.stage ∈ AppSettings.realRoutingStages
  · rw [if_neg (not_not.mpr hstage)]
    by_cases hnone : S.authorizedAccounts.isEmpty = true
    · rw [if_pos hnone]
      refine iff_of_false (by simp) fun h => (h hstage).1 (List.isEmpty_iff.mp hnone)
    · rw [if_neg hnone]
      by_cases hcred : S.liberatorApiKey = none ∧ S.streamingProApiKey = none
      · rw [if_pos hcred]
        exact iff_of_false (by simp) fun h => (h hstage).2 hcred
      · rw [if_neg hcred]
        exact iff_of_true rfl fun _ => ⟨fun h => hnone (List.isEmpty_iff.mpr h), hcred⟩
  · rw [if_pos hstage]
    exact iff_of_true rfl fun h => absurd h hstage

namespace Node

variable (N : Node)

/-- Does the reconciler of a broker run? -/
def reconciles (a : AdapterId) : Bool :=
  N.settings.enabled a && N.settings.routing.stage ∈ AppSettings.reconcileStages

/-- `get_router_dep`: the router of a request. -/
def router (digest : String → String) : Router where
  settings := N.settings.routing
  liberator := N.settings.enabled .liberator
  streamingPro := N.settings.enabled .streamingPro
  marketData := N.settings.marketData
  handleResolver := N.reconciles .liberator
  digest := digest

/-- The router of a breaker hook: it has the adapter of its own broker only. -/
def tripRouter (a : AdapterId) : Router where
  settings := N.settings.routing
  liberator := a = .liberator
  streamingPro := a = .streamingPro

/-- The body of a request, parsed. -/
inductive Body where
  | none
  | order (o : NormalizedOrder) (strategyId : Option String)
  | amend (newCid : Option String) (newPrice : Option Decimal) (newQty : Option Int)

/-- The handlers that perform operations of the engine. The others only read, beside it. -/
def handler (R : Router) (fuel : Nat) : Access.Endpoint → List (String × String) → Body →
    Option (Eff Unit)
  | .submitOrder, _, .order o sid => some ((R.submit fuel o sid).bind fun _ => .ret ())
  | .getOrder, [(_, cid)], _ => some ((Router.get cid).bind fun _ => .ret ())
  | .cancelOrder, [(_, cid)], _ => some ((R.cancel cid).bind fun _ => .ret ())
  | .amendOrder, [(_, cid)], .amend newCid p q =>
    some ((R.amend fuel cid newCid p q).bind fun _ => .ret ())
  | .killSwitchState, _, _ => some (R.killSwitchStatus.bind fun _ => .ret ())
  | .killSwitchEngage, _, _ => some (R.killSwitchEngage.bind fun _ => .ret ())
  | _, _, _ => none

/-- What a process does: requests, hooks of tripped breakers, and passes of reconcilers. -/
inductive Task where
  | http (req : Access.Request) (body : Body) (digest : String → String) (fuel : Nat)
  | onTrip (a : AdapterId)
  | reconcilePass (a : AdapterId)

/-- The coroutine of a task, if it comes to one. -/
def coroutine (F : Access.Framework) : Task → Option (Eff Unit)
  | .http req body digest fuel =>
    match F.serve N.settings.keys req with
    | some (e, args) => handler (N.router digest) fuel e args body
    | none => none
  | .onTrip a =>
    if N.settings.enabled a then some ((N.tripRouter a).massCancel.bind fun _ => .ret ()) else none
  | .reconcilePass .liberator =>
    if N.reconciles .liberator then
      some ((Reconcile.reconcileOnce Liberator.VenueOrderItem).bind fun _ => .ret ())
    else none
  | .reconcilePass .streamingPro =>
    if N.reconciles .streamingPro then
      some ((Reconcile.reconcileOnce StreamingPro.VenueOrderRow).bind fun _ => .ret ())
    else none
  | .reconcilePass .sim => none

/-- Any family of tasks at work over a store. A task without a coroutine performs nothing. -/
def atWork {ι : Type} (F : Access.Framework) (tasks : ι → Task) (db : Db) : Pool engineSig Db ι :=
  ⟨fun i => (N.coroutine F (tasks i)).getD (.ret ()), db, []⟩

end Node

/-! ## What a coroutine can be about to do -/

/-- The only writes are cancels. -/
def OnlyCancels : EngineOp → Prop
  | .ext (.place _ _) | .ext (.amend _ _ _ _) => False
  | _ => True

theorem OnlyCancels.of_probe {op : EngineOp} (h : Probe op) : OnlyCancels op := by
  rcases op with o | o <;> cases o <;> first | exact h.elim | trivial

namespace Router

variable {R : Router} {E : Env} {db : Db} {b : Broker} {account : String} {a : AdapterId}

/-- A real adapter that was resolved is installed. -/
theorem resolveAdapter_installed (h : R.resolveAdapter b account = .ok a) (ha : a ≠ .sim) :
    R.realAdapterFor b = some a := by
  rcases R.ladder_trade b with ⟨-, hl⟩ | ⟨-, -, a', hreal, hl⟩ | ⟨m, hl⟩
  · rw [resolveAdapter_of_ladder hl] at h
    cases hm : R.assertMayRouteReal account b .sim with
    | error e => rw [hm] at h; cases h
    | ok _ =>
      rw [hm] at h
      exact absurd (Except.ok.inj h).symm ha
  · rw [resolveAdapter_of_ladder hl] at h
    cases hm : R.assertMayRouteReal account b a' with
    | error e => rw [hm] at h; cases h
    | ok _ =>
      rw [hm] at h
      rw [hreal]
      exact congrArg some (Except.ok.inj h)
  · rw [resolveAdapter_of_refused hl] at h
    cases h

theorem onlyCancels_massCancel (R : Router) : Uses OnlyCancels R.massCancel :=
  (uses_store trivial).bind fun rows =>
    R.uses_sweep (fun _ => trivial) (fun _ _ _ => trivial) (fun _ _ => trivial) rows

theorem onlyCancels_cancel (R : Router) (cid : String) : Uses OnlyCancels (R.cancel cid) :=
  R.uses_cancel (fun _ => OnlyCancels.of_probe) trivial trivial (fun _ _ => trivial) fun _ => trivial

theorem uses_killSwitchStatus (R : Router) : Uses Probe R.killSwitchStatus := by
  unfold killSwitchStatus
  split
  · trivial
  · split
    · refine Uses.bind (Uses.tryExcept ?_ fun _ => trivial) fun _ => trivial
      exact (uses_ext trivial).bind fun _ => trivial
    · trivial

theorem uses_engage {P : EngineOp → Prop} (R : Router)
    (hP : P (.ext (.redisSet killSwitchKey "engaged"))) : Uses P R.engage := by
  unfold engage
  split
  · exact uses_ext hP
  · trivial

theorem onlyCancels_killSwitchEngage (R : Router) : Uses OnlyCancels R.killSwitchEngage := by
  unfold killSwitchEngage
  refine (R.uses_killSwitchStatus.mono fun _ => OnlyCancels.of_probe).bind fun source => ?_
  cases source with
  | some source => trivial
  | none =>
    refine Uses.bind (Uses.tryExcept (R.uses_engage trivial) fun e => ?_) fun _ => ?_
    · split <;> trivial
    · exact R.onlyCancels_massCancel.bind fun (_, _) => trivial

theorem clear_killSwitchEngage (R : Router) :
    Clear E R R.killSwitchEngage (fun _ _ => True) db := by
  unfold killSwitchEngage
  rw [Prog.bind_eq]
  refine clear_then (R.uses_killSwitchStatus.mono fun _ => Probe.writeless) (fun _ _ => trivial)
    fun source db₁ => ?_
  cases source with
  | some source => trivial
  | none =>
    dsimp only
    rw [Prog.bind_eq]
    refine clear_then (Uses.tryExcept (R.uses_engage trivial) fun e => ?_) (fun _ _ => trivial)
      fun _ db₂ => ?_
    · split <;> trivial
    · rw [Prog.bind_eq]
      exact clear_bind (I := fun _ _ => True)
        (wp_outcome (clear_massCancel R) fun _ _ _ => trivial) fun (_, _) _ _ => trivial

end Router

namespace Node

variable {N : Node} {F : Access.Framework} {E : Env} {a : AdapterId} {op : EngineOp}

/-- A task that may write to an adapter: a request with the full key, at an endpoint that trades or
    at one that cancels, or the hook of the adapter's own breaker, which cancels. -/
def Backs (N : Node) (F : Access.Framework) (a : AdapterId) (op : EngineOp) : Task → Prop
  | .http req _ _ _ => ∃ e args, F.serve N.settings.keys req = some (e, args) ∧
      Access.Full N.settings.keys req.apiKey ∧
      (e ∈ [.submitOrder, .amendOrder] ∨ e ∈ [.cancelOrder, .killSwitchEngage] ∧ OnlyCancels op)
  | .onTrip b => b = a ∧ OnlyCancels op
  | .reconcilePass _ => False

/-- An endpoint of the trading surface takes the full key. -/
theorem full_of_serve {S : Access.Keys} {req : Access.Request} {e : Access.Endpoint}
    {args : Access.Params} (h : F.serve S req = some (e, args))
    (he : e ∈ [.submitOrder, .amendOrder] ∨ e ∈ [.cancelOrder, .killSwitchEngage]) :
    Access.Full S req.apiKey := by
  obtain ⟨hkey, -⟩ := Access.Framework.permits_of_serve h
  simp only [List.mem_cons, List.not_mem_nil, or_false] at he
  rcases he with (rfl | rfl) | rfl | rfl <;> simpa [Access.isOpen, Access.readsAccount] using hkey

/-- The router of a request has the adapters that are enabled. -/
theorem router_installed {digest : String → String} {b : Broker}
    (h : (N.router digest).realAdapterFor b = some a) : N.settings.enabled a = true := by
  cases b with
  | sim => cases h
  | liberator =>
    by_cases hen : N.settings.enabled .liberator = true
    · rw [Router.realAdapterFor, router, if_pos hen] at h
      exact Option.some.inj h ▸ hen
    · rw [Router.realAdapterFor, router, if_neg hen] at h
      cases h
  | streamingPro =>
    by_cases hen : N.settings.enabled .streamingPro = true
    · rw [Router.realAdapterFor, router, if_pos hen] at h
      exact Option.some.inj h ▸ hen
    · rw [Router.realAdapterFor, router, if_neg hen] at h
      cases h

theorem tripRouter_installed {a' : AdapterId} {b : Broker}
    (h : (N.tripRouter a').realAdapterFor b = some a) : a' = a := by
  cases b with
  | sim => cases h
  | liberator | streamingPro =>
    simp only [Router.realAdapterFor, tripRouter, decide_eq_true_eq] at h
    split at h
    · rw [← Option.some.inj h]
      assumption
    · cases h

/-- What becomes of a task writes nowhere, or goes through a router with the settings of the
    process, and each adapter that router has is enabled and backed by the task. -/
theorem coroutine_spec {t : Task} {p : Eff Unit} (h : N.coroutine F t = some p) :
    Uses Writeless p ∨ ∃ R : Router, R.settings = N.settings.routing ∧
      (∀ db, Clear E R p (fun _ _ => True) db) ∧
      ∀ b a, R.realAdapterFor b = some a →
        N.settings.enabled a = true ∧ Uses (fun op => N.Backs F a op t) p := by
  have hclear {α : Type} {q : Eff α} {R : Router}
      (hq : ∀ db, Clear E R q (fun _ _ => True) db) (db : Db) :
      Clear E R (q.bind fun _ => .ret ()) (fun _ _ => True) db :=
    wp_seq (wp_outcome (hq db) fun _ _ _ => trivial) fun _ _ _ => trivial
  cases t with
  | reconcilePass a =>
    refine .inl ?_
    cases a with
    | sim => cases h
    | liberator | streamingPro =>
      simp only [coroutine] at h
      split at h
      · obtain rfl := Option.some.inj h
        exact ((Reconcile.survey_reconcileOnce fun _ => uses_ext trivial).mono
          fun _ => Survey.writeless).bind fun _ => uses_ret _
      · cases h
  | onTrip a' =>
    simp only [coroutine] at h
    split at h
    · rename_i hen
      obtain rfl := Option.some.inj h
      refine .inr ⟨N.tripRouter a', rfl, hclear fun db => clear_massCancel _, fun b a ha => ?_⟩
      obtain rfl := tripRouter_installed ha
      exact ⟨hen, ((Router.onlyCancels_massCancel _).mono fun _ hop => ⟨rfl, hop⟩).bind
        fun _ => uses_ret _⟩
    · cases h
  | http req body digest fuel =>
    simp only [coroutine] at h
    split at h
    · rename_i e args hserve
      have htrade (he : e ∈ [Access.Endpoint.submitOrder, .amendOrder]) (q : Eff Unit) (a) :
          Uses (fun op => N.Backs F a op (.http req body digest fuel)) q :=
        (uses_univ q).mono fun _ _ =>
          ⟨e, args, hserve, full_of_serve hserve (.inl he), .inl he⟩
      have hreduce (he : e ∈ [Access.Endpoint.cancelOrder, .killSwitchEngage]) {α : Type}
          {q : Eff α} (hq : Uses OnlyCancels q) (a) :
          Uses (fun op => N.Backs F a op (.http req body digest fuel)) (q.bind fun _ => .ret ()) :=
        (hq.mono fun _ hop =>
          ⟨e, args, hserve, full_of_serve hserve (.inr he), .inr ⟨he, hop⟩⟩).bind
          fun _ => uses_ret _
      unfold handler at h
      split at h
      · obtain rfl := Option.some.inj h
        exact .inr ⟨N.router digest, rfl, hclear fun db => clear_submit _ fuel _ _,
          fun b a ha => ⟨router_installed ha, htrade (by simp) _ a⟩⟩
      · obtain rfl := Option.some.inj h
        exact .inl ((Router.uses_get trivial).bind fun _ => uses_ret _)
      · obtain rfl := Option.some.inj h
        exact .inr ⟨N.router digest, rfl, hclear fun db => clear_cancel _ _,
          fun b a ha => ⟨router_installed ha, hreduce (by simp) (Router.onlyCancels_cancel _ _) a⟩⟩
      · obtain rfl := Option.some.inj h
        exact .inr ⟨N.router digest, rfl, hclear fun db => clear_amend _ fuel _ _ _ _,
          fun b a ha => ⟨router_installed ha, htrade (by simp) _ a⟩⟩
      · obtain rfl := Option.some.inj h
        exact .inl (((N.router digest).uses_killSwitchStatus.mono fun _ => Probe.writeless).bind
          fun _ => uses_ret _)
      · obtain rfl := Option.some.inj h
        exact .inr ⟨N.router digest, rfl, hclear fun db => Router.clear_killSwitchEngage _,
          fun b a ha => ⟨router_installed ha,
            hreduce (by simp) (Router.onlyCancels_killSwitchEngage _) a⟩⟩
      · cases h
    · cases h

end Node

/-! ## Whole runs -/

namespace Node

variable {ι : Type} [DecidableEq ι] {N : Node} {F : Access.Framework} {E : Env}
  {tasks : ι → Task} {db₀ : Db}
  {P : Pool engineSig Db ι} {i : ι} {op : EngineOp} {k : Except Exn op.Res → Eff Unit}
  {a : AdapterId}

/-- Behind every write to a real venue, in every interleaving of whatever the process does: the
    stage is `micro_live`, in owner mode, with that broker's key; the order is the broker's and its
    account declared; and the task is a request with the full key at an endpoint for it, or the
    hook of that broker's breaker, which only cancels. -/
theorem contact_authorized (hP : PoolReach (sem E) closed (N.atWork F tasks db₀) P)
    (hk : P.threads i = .call op k) (ha : writesTo op = some a) (hreal : a ≠ .sim) :
    N.settings.routing.stage = .microLive ∧ N.settings.publicMode = false ∧
      (N.settings.credential a).isSome ∧
      (∃ account ∈ N.settings.authorizedAccounts, orderFor P.state op = some (a.broker, account)) ∧
      N.Backs F a op (tasks i) := by
  cases hc : N.coroutine F (tasks i) with
  | none =>
    -- such a task has nothing to perform
    have hnever : Uses (fun _ => False) ((N.atWork F tasks db₀).threads i) := by
      change Uses _ ((N.coroutine F (tasks i)).getD (.ret ()))
      rw [hc]
      trivial
    have huses := pool_uses hnever hP
    rw [hk] at huses
    exact huses.1.elim
  | some p =>
    have hthread : (N.atWork F tasks db₀).threads i = p := by
      change (N.coroutine F (tasks i)).getD (.ret ()) = p
      rw [hc]
      rfl
    rcases coroutine_spec (E := E) hc with hw | ⟨R, hset, hclear, hadapters⟩
    · have huses := pool_uses (hthread ▸ hw) hP
      rw [hk] at huses
      rcases op with o | o
      · cases ha
      · cases o <;> first | exact huses.1.elim | cases ha
    · have hcleared : Cleared R P.state op :=
        rely_demand (Q := fun _ _ => True) rfl (fun _ _ h => h.elim) (fun _ _ => uses_univ _)
          (fun _ _ _ _ _ h => step_keeps h) (hthread ▸ hclear db₀) hP hk
      obtain ⟨b, account, hfor, hres⟩ := hcleared a ha
      obtain ⟨hen, hback⟩ := hadapters b a (Router.resolveAdapter_installed hres hreal)
      have hbacks := pool_uses (hthread ▸ hback) hP
      rw [hk] at hbacks
      rcases Router.resolveAdapter_ok hres with ⟨hsim, -⟩ | ⟨-, hstage, hbroker, hacc⟩
      · exact absurd hsim hreal
      · rw [AppSettings.enabled, Bool.and_eq_true, Bool.and_eq_true, Bool.not_eq_true'] at hen
        rw [hset] at hstage
        refine ⟨hstage, hen.1.2, hen.2, ⟨account, ?_, hbroker ▸ hfor⟩, hbacks.1⟩
        unfold Router.authorizedAccounts at hacc
        rwa [hset] at hacc

/-- An owner-mode node with the Liberator key, declared for one account. -/
def sampleNode : Node where
  settings :=
    { routing := liveRouter.settings
      publicMode := false
      apiKey := some "full"
      liberatorApiKey := some "bridge" }
  declared := by decide +kernel

/-- An order posted under the gateway's prefix. -/
def sampleTask (_ : Unit) : Task :=
  .http { method := "POST", path := "/api/v2/engines/execution/orders", apiKey := some "full" }
    (.order (sampleOrderA .liberator) none) id 0

/-- It is about to be placed. -/
def sampleContact : Pool engineSig Db Unit :=
  runPool liveHandler.step (List.replicate 10 ())
    (sampleNode.atWork Access.plainFramework sampleTask Db.empty)

theorem sample_contact : nextWrite sampleContact = some (.liberator, "12345672") ∧
    sampleNode.settings.routing.stage = .microLive ∧
    ∃ account ∈ sampleNode.settings.authorizedAccounts, account = "12345672" := by
  have hnext : nextWrite sampleContact = some (.liberator, "12345672") := by decide +kernel
  have hreach : PoolReach (sem plainEnv) closed
      (sampleNode.atWork Access.plainFramework sampleTask Db.empty)
      sampleContact := runPool_reach (plain_follows liveHandler) _ _
  refine ⟨hnext, ?_⟩
  unfold nextWrite at hnext
  split at hnext
  · rename_i op k hk
    obtain ⟨a, ha, hfor⟩ := Option.bind_eq_some_iff.mp hnext
    obtain ⟨⟨b, account⟩, hb, heq⟩ := Option.map_eq_some_iff.mp hfor
    obtain ⟨rfl, rfl⟩ := Prod.mk.inj heq
    obtain ⟨hstage, -, -, ⟨account', hacc, hb'⟩, -⟩ :=
      contact_authorized hreach hk ha (by decide)
    obtain ⟨-, rfl⟩ := Prod.mk.inj (Option.some.inj (hb'.symm.trans hb))
    exact ⟨hstage, _, hacc, rfl⟩
  · cases hnext

end Node

end ExecutionEngine
