/-
  Which handler a request reaches, and with which key.

  `app` is the table of routes in the order of their registration. How a framework takes a request
  to a handler is a parameter (`Framework`), with what the code relies on as its laws: the first
  route that takes path and method, its dependencies before its handler, and texts of a template
  that match themselves. `access_iff` says for every request when the handler of an endpoint runs,
  from what the endpoint is for (`Permits`) rather than from the guards that are listed at its
  route; `alias_agrees` is the surface under the gateway's prefix, which comes to the same handlers
  as the native one, without `/admin`.
-/
import ExecutionEngine.Contracts.Numerals

namespace ExecutionEngine.Access

/-! ## Routes -/

inductive Endpoint where
  /-- What the framework serves of its own: the schema and its viewers. -/
  | frameworkPage
  | orderBookSnapshot | orderBookStream | orderStream
  | auditExport | orderAudit
  | health | capabilities | submitOrder | getOrder
  | getAccount | getPositions | getOpenOrders | getOrderHistory | getVenueOrders
  | cancelOrder | amendOrder
  | killSwitchState | killSwitchEngage | killSwitchDisengage
  deriving DecidableEq, Repr

inductive Guard where
  | requireApiKey | requireReadOrFullKey | requireOwnerMode
  deriving DecidableEq, Repr

structure Route where
  methods : List String
  path : String
  endpoint : Endpoint
  dependencies : List Guard
  deriving DecidableEq, Repr

/-- The routes of `api/streams.py`. -/
def streamsRouter : List Route :=
  [⟨["GET"], "/order-book/{symbol}", .orderBookSnapshot, [.requireApiKey]⟩,
    ⟨["GET"], "/order-book/{symbol}/stream", .orderBookStream, [.requireApiKey]⟩,
    ⟨["GET"], "/orders/stream", .orderStream, [.requireApiKey]⟩]

/-- The routes of `api/audit.py`, with the prefix and the guards of the router. -/
def auditRouter : List Route :=
  let owner := [Guard.requireApiKey, .requireOwnerMode]
  [⟨["GET"], "/admin/audit/export", .auditExport, owner⟩,
    ⟨["GET"], "/admin/orders/{client_order_id}/audit", .orderAudit, owner⟩]

/-- The routes of `api/routes.py`. -/
def coreRouter : List Route :=
  let reads := [Guard.requireReadOrFullKey, .requireOwnerMode]
  let owner := [Guard.requireApiKey, .requireOwnerMode]
  [⟨["GET"], "/health", .health, []⟩,
    ⟨["GET"], "/capabilities", .capabilities, [.requireApiKey]⟩,
    ⟨["POST"], "/orders", .submitOrder, owner⟩,
    ⟨["GET"], "/orders/{client_order_id}", .getOrder, [.requireApiKey]⟩,
    ⟨["GET"], "/accounts/{account}", .getAccount, reads⟩,
    ⟨["GET"], "/accounts/{account}/positions", .getPositions, reads⟩,
    ⟨["GET"], "/accounts/{account}/open-orders", .getOpenOrders, reads⟩,
    ⟨["GET"], "/accounts/{account}/orders", .getOrderHistory, reads⟩,
    ⟨["GET"], "/accounts/{account}/venue-orders", .getVenueOrders, reads⟩,
    ⟨["DELETE"], "/orders/{client_order_id}", .cancelOrder, owner⟩,
    ⟨["PATCH"], "/orders/{client_order_id}", .amendOrder, owner⟩,
    ⟨["GET"], "/admin/kill-switch", .killSwitchState, owner⟩,
    ⟨["POST"], "/admin/kill-switch/engage", .killSwitchEngage, owner⟩,
    ⟨["POST"], "/admin/kill-switch/disengage", .killSwitchDisengage, owner⟩]

/-- `str.startswith`. -/
def startsWith (s lit : String) : Bool := lit.toList.isPrefixOf s.toList

/-- `ALIAS_EXCLUDED_PREFIX`. -/
def aliasExcludedPrefix : String := "/admin"

def aliasExcluded (r : Route) : Bool :=
  r.path = aliasExcludedPrefix || startsWith r.path (aliasExcludedPrefix ++ "/")

/-- `_gateway_alias_router`. -/
def gatewayAliasRouter : List Route :=
  (streamsRouter ++ coreRouter).filter fun r => !aliasExcluded r

/-- `GATEWAY_PROXY_PREFIX`. -/
def gatewayProxyPrefix : String := "/api/v2/engines/execution"

/-- `include_router` with a prefix. -/
def Route.under (pre : String) (r : Route) : Route := { r with path := pre ++ r.path }

/-! ## Guards -/

/-- The settings that the guards read. -/
structure Keys where
  publicMode : Bool := true
  apiKey : Option String := none
  readApiKey : Option String := none

inductive Refusal where
  | http (status : Nat) (detail : String)
  | typed (status : Nat) (code message : String)
  | raised (e : PyError)
  deriving DecidableEq

def isAscii (s : String) : Bool := s.toList.all fun c => c.toNat < 128

/-- `hmac.compare_digest` of two texts. -/
def compareDigest (a b : String) : Except Refusal Bool :=
  if isAscii a && isAscii b then .ok (a = b) else .error (.raised .typeError)

/-- `_is_read_key`. -/
def isReadKey (provided : String) (S : Keys) : Except Refusal Bool :=
  match S.readApiKey with
  | none => .ok false
  | some readKey =>
    if readKey = "" then .ok false
    else do
      let collides ← match S.apiKey with
        | none => pure false
        | some key => compareDigest readKey key
      if collides then return false
      compareDigest provided readKey

def notConfigured : Refusal := .http 503 "API key authentication is not configured on the server"

def invalidKey : Refusal := .http 401 "invalid API key"

/-- `require_api_key`. -/
def requireApiKey (header : Option String) (S : Keys) : Except Refusal Unit :=
  match S.apiKey with
  | none => .error notConfigured
  | some key => do
    let provided := header.getD ""
    if ← compareDigest provided key then return ()
    if ← isReadKey provided S then
      throw (.typed 403 "read_key_forbidden"
        ("the read-only key is accepted only on the account-read routes; this route needs " ++
          "the full key"))
    throw invalidKey

/-- `require_read_or_full_key`. -/
def requireReadOrFullKey (header : Option String) (S : Keys) : Except Refusal Unit :=
  match S.apiKey with
  | none => .error notConfigured
  | some key => do
    let provided := header.getD ""
    if ← compareDigest provided key then return ()
    if ← isReadKey provided S then return ()
    throw invalidKey

/-- `require_owner_mode`. -/
def requireOwnerMode (S : Keys) : Except Refusal Unit :=
  if S.publicMode then .error (.typed 403 "public_mode" "endpoint disabled in public mode")
  else .ok ()

/-- A guard of a route, at a request. -/
def check (header : Option String) (S : Keys) : Guard → Except Refusal Unit
  | .requireApiKey => requireApiKey header S
  | .requireReadOrFullKey => requireReadOrFullKey header S
  | .requireOwnerMode => requireOwnerMode S

/-! ## Requests -/

/-- The path parameters. -/
abbrev Params := List (String × String)

/-- A request, as far as it decides which handler runs. -/
structure Request where
  method : String
  path : String
  apiKey : Option String := none
  /-- Do the parameters and the body pass the validation of the endpoint? -/
  valid : Endpoint → Params → Bool := fun _ _ => true

/-- The first route that takes method and path, with the path parameters. -/
def routeFor (params : String → String → Option Params) (routes : List Route)
    (method path : String) : Option (Route × Params) :=
  routes.findSome? fun r =>
    if method ∈ r.methods then (params r.path path).map fun args => (r, args) else none

/-- Where the pages of a framework stand. -/
def pagePaths : List String := ["/openapi.json", "/docs", "/redoc"]

/-- A text that stands for itself at the start of a template. -/
def isLiteral (lit : String) : Bool := startsWith lit "/" && '{' ∉ lit.toList

/-- The web framework, by what the code relies on. -/
structure Framework where
  /-- The parameters of a path that matches a template. -/
  params : String → String → Option Params
  /-- The routes that it registers of its own. -/
  pages : List Route
  /-- The handler that runs for a request, under guards of which some pass. -/
  handler : List Route → (Guard → Bool) → Request → Option (Endpoint × Params)
  /-- Routes are tried in the order of registration; the handler runs if every dependency of its
      route has passed and the input is valid. -/
  registration_order : ∀ routes passes req e args, handler routes passes req = some (e, args) ↔
    ∃ r, routeFor params routes req.method req.path = some (r, args) ∧ r.endpoint = e ∧
      (∀ g ∈ r.dependencies, passes g = true) ∧ req.valid e args = true
  /-- A text in front of a template is matched by itself. -/
  literal_matches : ∀ lit template path : String, isLiteral lit = true →
    startsWith template "/" = true →
    params (lit ++ template) (lit ++ path) = params template path
  /-- And by nothing else. -/
  literal_needed : ∀ lit template path : String, isLiteral lit = true →
    (params (lit ++ template) path).isSome = true → startsWith path lit = true
  pages_own : ∀ r ∈ pages, r.endpoint = .frameworkPage ∧ r.dependencies = [] ∧
    ∃ lit ∈ pagePaths, startsWith r.path lit = true

/-- `create_app`: the routes in the order of their registration. -/
def Framework.app (F : Framework) : List Route :=
  F.pages ++ streamsRouter ++ auditRouter ++ coreRouter ++
    gatewayAliasRouter.map (Route.under gatewayProxyPrefix)

/-- Does the guard of a route let a request pass? -/
def passes (header : Option String) (S : Keys) (g : Guard) : Bool := (check header S g).isOk

/-- The handler that runs for a request. -/
def Framework.serve (F : Framework) (S : Keys) (req : Request) : Option (Endpoint × Params) :=
  F.handler F.app (passes req.apiKey S) req

/-! ## A framework -/

/-- A template at a path: a parameter takes what stands before the next slash. -/
def matchTemplate : Nat → List Char → List Char → Option Params
  | 0, _, _ => none
  | _ + 1, [], path => if path = [] then some [] else none
  | n + 1, c :: template, path =>
    if c = '{' then
      let value := path.takeWhile (· ≠ '/')
      if value = [] then none
      else (matchTemplate n (template.dropWhile (· ≠ '}')).tail (path.dropWhile (· ≠ '/'))).map
        fun args => (String.ofList (template.takeWhile (· ≠ '}')), String.ofList value) :: args
    else if path.head? = some c then matchTemplate n template path.tail
    else none

def templateParams (template path : String) : Option Params :=
  matchTemplate (template.toList.length + 1) template.toList path.toList

theorem matchTemplate_literal {lit : List Char} (h : '{' ∉ lit) (n : Nat) (ts ps : List Char) :
    matchTemplate (n + lit.length) (lit ++ ts) (lit ++ ps) = matchTemplate n ts ps := by
  induction lit with
  | nil => rfl
  | cons c lit ih =>
    obtain ⟨hc, hlit⟩ := not_or.mp (fun hmem => h (List.mem_cons.mpr hmem))
    rw [List.length_cons, ← Nat.add_assoc, List.cons_append, List.cons_append, matchTemplate,
      if_neg (Ne.symm hc), List.head?_cons, if_pos rfl, List.tail_cons, ih hlit]

theorem prefix_of_matchTemplate {lit : List Char} (h : '{' ∉ lit) {n : Nat} {ts ps : List Char}
    (hm : (matchTemplate (n + lit.length) (lit ++ ts) ps).isSome = true) : lit <+: ps := by
  induction lit generalizing ps with
  | nil => exact List.nil_prefix
  | cons c lit ih =>
    obtain ⟨hc, hlit⟩ := not_or.mp (fun hmem => h (List.mem_cons.mpr hmem))
    rw [List.length_cons, ← Nat.add_assoc, List.cons_append, matchTemplate,
      if_neg (Ne.symm hc)] at hm
    split at hm
    · rename_i hhead
      obtain ⟨ps', rfl⟩ : ∃ ps', ps = c :: ps' := by
        cases ps with
        | nil => cases hhead
        | cons p ps => exact ⟨ps, by rw [Option.some.inj hhead]⟩
      exact List.cons_prefix_cons.mpr ⟨rfl, ih hlit hm⟩
    · cases hm

theorem plain_of_isLiteral {lit : String} (h : isLiteral lit = true) : '{' ∉ lit.toList :=
  of_decide_eq_true (Bool.and_eq_true_iff.mp h).2

/-- A framework without pages of its own. -/
def plainFramework : Framework where
  params := templateParams
  pages := []
  handler routes passes req :=
    (routeFor templateParams routes req.method req.path).bind fun x =>
      if x.1.dependencies.all passes && req.valid x.1.endpoint x.2 then some (x.1.endpoint, x.2)
      else none
  registration_order routes passes req e args := by
    rw [Option.bind_eq_some_iff]
    constructor
    · rintro ⟨⟨r, args'⟩, hr, h⟩
      split at h
      · rename_i hboth
        rw [Bool.and_eq_true, List.all_eq_true] at hboth
        obtain ⟨rfl, rfl⟩ := Prod.mk.inj (Option.some.inj h)
        exact ⟨r, hr, rfl, hboth⟩
      · cases h
    · rintro ⟨r, hr, rfl, hpass, hvalid⟩
      refine ⟨(r, args), hr, if_pos ?_⟩
      rw [Bool.and_eq_true, List.all_eq_true]
      exact ⟨hpass, hvalid⟩
  literal_matches lit template path hlit _ := by
    unfold templateParams
    rw [String.toList_append, String.toList_append, List.length_append, Nat.add_assoc, Nat.add_comm]
    exact matchTemplate_literal (plain_of_isLiteral hlit) ..
  literal_needed lit template path hlit h := by
    unfold templateParams at h
    rw [String.toList_append, List.length_append, Nat.add_assoc, Nat.add_comm] at h
    exact List.isPrefixOf_iff_prefix.mpr (prefix_of_matchTemplate (plain_of_isLiteral hlit) h)
  pages_own r hr := absurd hr List.not_mem_nil

/-! ## What an endpoint is for -/

/-- What anybody may see. -/
def isOpen : Endpoint → Bool
  | .frameworkPage | .health => true
  | _ => false

/-- `READ_KEY_ROUTES`. -/
def readsAccount : Endpoint → Bool
  | .getAccount | .getPositions | .getOpenOrders | .getOrderHistory | .getVenueOrders => true
  | _ => false

/-- What a public deployment answers. -/
def readsPublic : Endpoint → Bool
  | .capabilities | .getOrder | .orderBookSnapshot | .orderBookStream | .orderStream => true
  | e => isOpen e

/-- The request has this key in its header. A key that is the empty text is had without one. -/
def Presents (header : Option String) (key : String) : Prop :=
  header = some key ∨ key = "" ∧ header = none

/-- The key is the full one. -/
def Full (S : Keys) (header : Option String) : Prop :=
  ∃ key, S.apiKey = some key ∧ isAscii key = true ∧ Presents header key

/-- The key is the read-only one, and that is a key of its own. -/
def ReadOnly (S : Keys) (header : Option String) : Prop :=
  ∃ key readKey, S.apiKey = some key ∧ S.readApiKey = some readKey ∧ readKey ≠ "" ∧
    readKey ≠ key ∧ isAscii key = true ∧ isAscii readKey = true ∧ header = some readKey

/-- Who may call an endpoint. -/
def Permits (S : Keys) (header : Option String) (e : Endpoint) : Prop :=
  (isOpen e = true ∨ Full S header ∨ readsAccount e = true ∧ ReadOnly S header) ∧
    (S.publicMode = true → readsPublic e = true)

/-! ## The guards keep to it -/

section Guards

variable {S : Keys} {header : Option String} {provided a b : String}

theorem compareDigest_ok {x : Bool} :
    compareDigest a b = .ok x ↔ isAscii a = true ∧ isAscii b = true ∧ x = decide (a = b) := by
  unfold compareDigest
  split
  · rename_i h
    rw [Bool.and_eq_true] at h
    simp [h.1, h.2, eq_comm]
  · rename_i h
    rw [Bool.and_eq_true, not_and] at h
    simp only [reduceCtorEq, false_iff, not_and]
    exact fun ha hb => absurd hb (h ha)

theorem presents_iff {key : String} : Presents header key ↔ header.getD "" = key := by
  unfold Presents
  cases header with
  | none => simp [eq_comm]
  | some provided => simp

theorem presents_some {key : String} (h : key ≠ "") : Presents header key ↔ header = some key := by
  simp [Presents, h]

theorem isReadKey_true {key : String} (hkey : S.apiKey = some key) :
    isReadKey (header.getD "") S = .ok true ↔ ReadOnly S header := by
  unfold isReadKey ReadOnly
  cases hr : S.readApiKey with
  | none => simp
  | some readKey =>
    by_cases hempty : readKey = ""
    · dsimp only
      rw [if_pos hempty]
      refine iff_of_false (by simp) ?_
      rintro ⟨k, r, -, hk, hne, -⟩
      exact hne (Option.some.inj hk ▸ hempty)
    · simp only [hkey, if_neg hempty, Option.some.injEq, exists_and_left, exists_eq_left']
      rw [← presents_some hempty, presents_iff]
      cases hc : compareDigest readKey key with
      | error e =>
        refine iff_of_false (by simp [bind, Except.bind]) ?_
        rintro ⟨-, -, hk, hrk, -⟩
        cases (compareDigest_ok.mpr ⟨hrk, hk, rfl⟩).symm.trans hc
      | ok collides =>
        obtain ⟨hrk, hk, rfl⟩ := compareDigest_ok.mp hc
        by_cases heq : readKey = key
        · simp [bind, Except.bind, pure, Except.pure, heq]
        · simp only [bind, Except.bind, heq, decide_false, Bool.false_eq_true, if_false]
          rw [compareDigest_ok]
          constructor
          · rintro ⟨-, -, h⟩
            exact ⟨hempty, heq, hk, hrk, by simpa using h⟩
          · rintro ⟨-, -, -, -, h⟩
            exact ⟨h.symm ▸ hrk, hrk, by simp [h]⟩

/-- The full key is compared first: what follows is for another key, and is a refusal. -/
theorem requireApiKey_ok : requireApiKey header S = .ok () ↔ Full S header := by
  unfold requireApiKey Full
  simp only [presents_iff]
  cases hkey : S.apiKey with
  | none => simp
  | some key =>
    simp only [Option.some.injEq, exists_eq_left']
    cases hc : compareDigest (header.getD "") key with
    | error e =>
      refine iff_of_false (by simp [bind, Except.bind]) ?_
      rintro ⟨hk, heq⟩
      cases (compareDigest_ok.mpr ⟨heq ▸ hk, hk, rfl⟩).symm.trans hc
    | ok same =>
      obtain ⟨-, hk, rfl⟩ := compareDigest_ok.mp hc
      by_cases heq : header.getD "" = key
      · simp [bind, Except.bind, pure, Except.pure, heq, hk]
      · refine iff_of_false ?_ fun h => heq h.2
        simp only [bind, Except.bind, heq, decide_false, Bool.false_eq_true, if_false]
        cases isReadKey (header.getD "") S with
        | error e => simp
        | ok b => cases b <;> simp [throw, throwThe, MonadExceptOf.throw]

theorem requireReadOrFullKey_ok :
    requireReadOrFullKey header S = .ok () ↔ Full S header ∨ ReadOnly S header := by
  unfold requireReadOrFullKey
  cases hkey : S.apiKey with
  | none => simp [Full, ReadOnly, hkey]
  | some key =>
    dsimp only
    cases hc : compareDigest (header.getD "") key with
    | error e =>
      refine iff_of_false (by simp [bind, Except.bind]) ?_
      rintro (⟨k, hk, ha, heq⟩ | ⟨k, r, hk, -, -, -, ha, har, rfl⟩)
      all_goals obtain rfl := Option.some.inj (hkey.symm.trans hk)
      · rw [presents_iff] at heq
        cases (compareDigest_ok.mpr ⟨heq ▸ ha, ha, rfl⟩).symm.trans hc
      · cases (compareDigest_ok.mpr ⟨har, ha, rfl⟩).symm.trans hc
    | ok same =>
      obtain ⟨-, hk, rfl⟩ := compareDigest_ok.mp hc
      have hfull : Full S header ↔ header.getD "" = key := by
        simp only [Full, hkey, Option.some.injEq, exists_eq_left', hk, true_and, presents_iff]
      by_cases heq : header.getD "" = key
      · rw [hfull]
        simp [bind, Except.bind, pure, Except.pure, heq]
      · rw [hfull, ← isReadKey_true hkey]
        simp only [bind, Except.bind, heq, decide_false, Bool.false_eq_true, if_false, false_or]
        cases isReadKey (header.getD "") S with
        | error e => simp
        | ok b => cases b <;> simp [pure, Except.pure, throw, throwThe, MonadExceptOf.throw]

theorem requireOwnerMode_ok : requireOwnerMode S = .ok () ↔ S.publicMode = false := by
  unfold requireOwnerMode
  cases S.publicMode <;> simp

theorem passes_iff {g : Guard} : passes header S g = true ↔ check header S g = .ok () := by
  unfold passes
  cases check header S g <;> simp [Except.isOk, Except.toBool]

end Guards

/-- The guards that belong to an endpoint. -/
def guardsOf (e : Endpoint) : List Guard :=
  (if isOpen e then [] else if readsAccount e then [.requireReadOrFullKey] else [.requireApiKey]) ++
    if readsPublic e then [] else [.requireOwnerMode]

/-- The guards of an endpoint pass exactly those who may call it. -/
theorem guardsOf_pass {S : Keys} {header : Option String} (e : Endpoint) :
    (∀ g ∈ guardsOf e, passes header S g = true) ↔ Permits S header e := by
  unfold Permits guardsOf
  simp only [passes_iff]
  cases e <;>
    simp [isOpen, readsAccount, readsPublic, check, requireApiKey_ok, requireReadOrFullKey_ok,
      requireOwnerMode_ok]

/-! ## The app -/

theorem mem_native_of_alias {r : Route} (h : r ∈ gatewayAliasRouter) :
    r ∈ streamsRouter ++ auditRouter ++ coreRouter := by
  rcases List.mem_append.mp (List.mem_filter.mp h).1 with h | h
  · exact List.mem_append_left _ (List.mem_append_left _ h)
  · exact List.mem_append_right _ h

theorem routeFor_mem {params : String → String → Option Params} {routes : List Route}
    {method path : String} {r : Route} {args : Params}
    (h : routeFor params routes method path = some (r, args)) : r ∈ routes := by
  obtain ⟨r', hr', h⟩ := List.exists_of_findSome?_eq_some h
  split at h
  · obtain ⟨_, -, heq⟩ := Option.map_eq_some_iff.mp h
    exact (Prod.mk.inj heq).1 ▸ hr'
  · cases h

namespace Framework

variable {F : Framework} {S : Keys}

theorem app_eq : F.app = F.pages ++ (streamsRouter ++ auditRouter ++ coreRouter ++
    gatewayAliasRouter.map (Route.under gatewayProxyPrefix)) := by
  simp [app]

/-- Every route lists the guards of its endpoint, under the prefix as well. -/
theorem dependencies_of_mem {r : Route} (h : r ∈ F.app) : r.dependencies = guardsOf r.endpoint := by
  have hown : ∀ r ∈ streamsRouter ++ auditRouter ++ coreRouter,
      r.dependencies = guardsOf r.endpoint := by decide
  rw [app_eq, List.mem_append, List.mem_append] at h
  rcases h with h | h | h
  · obtain ⟨he, hd, -⟩ := F.pages_own r h
    rw [he, hd]
    rfl
  · exact hown r h
  · obtain ⟨r, hr, rfl⟩ := List.mem_map.mp h
    exact hown r (mem_native_of_alias hr)

/-- The guards of a route pass exactly those who may call its endpoint. -/
theorem dependencies_pass {header : Option String} {r : Route} (h : r ∈ F.app) :
    (∀ g ∈ r.dependencies, passes header S g = true) ↔ Permits S header r.endpoint := by
  rw [dependencies_of_mem h]
  exact guardsOf_pass r.endpoint

/-- A handler runs for those who may call it. -/
theorem permits_of_serve {req : Request} {e : Endpoint} {args : Params}
    (h : F.serve S req = some (e, args)) : Permits S req.apiKey e := by
  obtain ⟨r, hr, rfl, hpass, -⟩ := (F.registration_order ..).mp h
  exact (dependencies_pass (routeFor_mem hr)).mp hpass

end Framework

/-- An owner-mode deployment with both keys. -/
def sampleKeys : Keys := ⟨false, some "full", some "read"⟩

def sampleRequest : Request := { method := "DELETE", path := "/orders/7", apiKey := some "full" }

theorem startsWith_iff {s lit : String} :
    startsWith s lit = true ↔ ∃ rest : String, s = lit ++ rest := by
  unfold startsWith
  rw [List.isPrefixOf_iff_prefix]
  constructor
  · rintro ⟨cs, hcs⟩
    exact ⟨String.ofList cs, String.toList_injective (by rw [String.toList_append, ← hcs]; simp)⟩
  · rintro ⟨rest, rfl⟩
    rw [String.toList_append]
    exact List.prefix_append _ _

/-- Two beginnings of one text: one begins with the other. -/
theorem startsWith_comparable {s lit lit' : String} (h : startsWith s lit = true)
    (h' : startsWith s lit' = true) : (startsWith lit lit' || startsWith lit' lit) = true := by
  unfold startsWith at *
  rw [List.isPrefixOf_iff_prefix] at h h'
  rw [Bool.or_eq_true, List.isPrefixOf_iff_prefix, List.isPrefixOf_iff_prefix]
  exact (List.prefix_or_prefix_of_prefix h h').symm

theorem startsWith_trans {s t u : String} (h : startsWith s t = true)
    (h' : startsWith t u = true) : startsWith s u = true := by
  unfold startsWith at *
  rw [List.isPrefixOf_iff_prefix] at *
  exact h'.trans h

/-- The first parts of the paths outside the surface under the prefix. -/
def outside : List String := ["/admin", "/api"] ++ pagePaths

/-- Does the path of a route begin with one of these? -/
def Route.startsIn (lits : List String) (r : Route) : Bool :=
  lits.any fun lit => startsWith r.path lit

/-- No two of these texts begin one another. -/
def apart (lits lits' : List String) : Bool :=
  lits.all fun lit => lits'.all fun lit' => !(startsWith lit lit' || startsWith lit' lit)

theorem apart_iff {lits lits' : List String} : apart lits lits' = true ↔
    ∀ lit ∈ lits, ∀ lit' ∈ lits', (startsWith lit lit' || startsWith lit' lit) = false := by
  simp [apart]

/-- A path begins with texts of one list only. -/
theorem startsIn_apart {lits lits' : List String} {r : Route} (hapart : apart lits lits' = true)
    (h : r.startsIn lits = true) : r.startsIn lits' = false := by
  obtain ⟨lit, hmem, hlit⟩ := List.any_eq_true.mp h
  refine List.any_eq_false.mpr fun lit' hmem' hlit' => ?_
  have hboth := startsWith_comparable hlit hlit'
  rw [apart_iff.mp hapart lit hmem lit' hmem'] at hboth
  cases hboth

section Alias

variable {params : String → String → Option Params} {routes routes' : List Route}
  {method path : String}

theorem routeFor_append : routeFor params (routes ++ routes') method path =
    (routeFor params routes method path).or (routeFor params routes' method path) :=
  List.findSome?_append ..

theorem routeFor_cons (r : Route) : routeFor params (r :: routes) method path =
    (routeFor params [r] method path).or (routeFor params routes method path) := by
  rw [← routeFor_append, List.singleton_append]

theorem routeFor_none (h : ∀ r ∈ routes, params r.path path = none) :
    routeFor params routes method path = none := by
  refine List.findSome?_eq_none_iff.mpr fun r hr => ?_
  rw [h r hr]
  split <;> rfl

/-- Only routes that could take the path count. -/
theorem routeFor_filter {q : Route → Bool}
    (h : ∀ r ∈ routes, q r = false → params r.path path = none) :
    routeFor params routes method path = routeFor params (routes.filter q) method path := by
  induction routes with
  | nil => rfl
  | cons r routes ih =>
    rw [List.forall_mem_cons] at h
    rw [routeFor_cons, ih h.2]
    cases hq : q r with
    | false =>
      rw [List.filter_cons_of_neg (by simp [hq]), routeFor_none (by simpa using h.1 hq),
        Option.none_or]
    | true =>
      rw [List.filter_cons_of_pos hq]
      exact (routeFor_cons r).symm

end Alias

/-- What a request is taken to: the endpoint, its guards and the path parameters. -/
def target (x : Route × Params) : Endpoint × List Guard × Params :=
  (x.1.endpoint, x.1.dependencies, x.2)

/-- The first texts of the paths that are served under the prefix too. -/
def aliased : List String := ["/order-book", "/orders", "/health", "/capabilities", "/accounts"]

theorem aliased_iff : ∀ r ∈ streamsRouter ++ auditRouter ++ coreRouter,
    r.startsIn aliased = !aliasExcluded r := by
  simp [streamsRouter, auditRouter, coreRouter, Route.startsIn, aliased, aliasExcluded,
    aliasExcludedPrefix, startsWith, List.isPrefixOf]

theorem outside_apart : apart outside aliased = true := by
  simp [apart, outside, pagePaths, aliased, startsWith, List.isPrefixOf]

theorem outside_literal : ∀ lit ∈ outside, isLiteral lit = true := by
  simp [outside, pagePaths, isLiteral, startsWith]

theorem aliased_literal : ∀ lit ∈ aliased, isLiteral lit = true := by
  simp [aliased, isLiteral, startsWith]

theorem startsWith_excluded {r : Route} (h : aliasExcluded r = true) :
    startsWith r.path aliasExcludedPrefix = true := by
  rcases Bool.or_eq_true_iff.mp h with h | h
  · exact startsWith_iff.mpr ⟨"", by rw [of_decide_eq_true h, String.append_empty]⟩
  · exact startsWith_trans h (startsWith_iff.mpr ⟨"/", rfl⟩)

theorem startsIn_excluded {r : Route} (h : aliasExcluded r = true) : r.startsIn outside = true :=
  List.any_eq_true.mpr ⟨_, List.mem_cons_self, startsWith_excluded h⟩

theorem startsIn_under (r : Route) : (r.under gatewayProxyPrefix).startsIn outside = true := by
  refine List.any_eq_true.mpr ⟨"/api", List.mem_cons_of_mem _ List.mem_cons_self, ?_⟩
  exact startsWith_iff.mpr ⟨"/v2/engines/execution" ++ r.path, rfl⟩

theorem startsIn_alias {r : Route} (h : r ∈ gatewayAliasRouter) : r.startsIn aliased = true := by
  rw [aliased_iff r (mem_native_of_alias h)]
  exact (List.mem_filter.mp h).2

theorem aliased_filter : (streamsRouter ++ auditRouter ++ coreRouter ++
    gatewayAliasRouter.map (Route.under gatewayProxyPrefix)).filter (Route.startsIn aliased) =
      gatewayAliasRouter := by
  have hunder : (gatewayAliasRouter.map (Route.under gatewayProxyPrefix)).filter
      (Route.startsIn aliased) = [] := by
    refine List.filter_eq_nil_iff.mpr fun r hr => ?_
    obtain ⟨r, -, rfl⟩ := List.mem_map.mp hr
    rw [startsIn_apart outside_apart (startsIn_under r)]
    decide
  have haudit : auditRouter.filter (fun r => !aliasExcluded r) = [] := by
    simp [auditRouter, aliasExcluded, aliasExcludedPrefix, startsWith, List.isPrefixOf]
  rw [List.filter_append, hunder, List.append_nil, List.filter_congr aliased_iff,
    List.filter_append, List.filter_append, haudit, List.append_nil, ← List.filter_append]
  rfl

namespace Framework

variable {F : Framework} {S : Keys} {lits : List String} {method path : String}

/-- A route whose path begins with a text takes only paths that do. -/
theorem startsWith_of_params {r : Route} {lit : String} (hlit : isLiteral lit = true)
    (hr : startsWith r.path lit = true) (h : F.params r.path path ≠ none) :
    startsWith path lit = true := by
  obtain ⟨rest, hrest⟩ := startsWith_iff.mp hr
  rw [hrest] at h
  exact F.literal_needed lit rest path hlit (Option.isSome_iff_ne_none.mpr h)

/-- A path that begins elsewhere is not taken. -/
theorem params_none {lit : String} (hplain : ∀ lit' ∈ lits, isLiteral lit' = true)
    (hapart : apart [lit] lits = true) (hpath : startsWith path lit = true) {r : Route}
    (hr : r.startsIn lits = true) : F.params r.path path = none := by
  by_contra hne
  obtain ⟨lit', hmem, hlit'⟩ := List.any_eq_true.mp hr
  have hboth := startsWith_comparable hpath (startsWith_of_params (hplain lit' hmem) hlit' hne)
  rw [apart_iff.mp hapart lit (List.mem_singleton_self lit) lit' hmem] at hboth
  cases hboth

theorem pages_startsIn {r : Route} (h : r ∈ F.pages) : r.startsIn pagePaths = true := by
  obtain ⟨-, -, lit, hmem, hlit⟩ := F.pages_own r h
  exact List.any_eq_true.mpr ⟨lit, hmem, hlit⟩

theorem pages_outside {r : Route} (h : r ∈ F.pages) : r.startsIn outside = true := by
  have hpages := pages_startsIn h
  unfold Route.startsIn outside at *
  rw [List.any_append, hpages, Bool.or_true]

/-- Routes under a prefix take there what they take without it. -/
theorem routeFor_under {pre : String} (hpre : isLiteral pre = true) {routes : List Route}
    (hpaths : ∀ r ∈ routes, startsWith r.path "/" = true) :
    routeFor F.params (routes.map (Route.under pre)) method (pre ++ path) =
      (routeFor F.params routes method path).map fun x => (x.1.under pre, x.2) := by
  induction routes with
  | nil => rfl
  | cons r routes ih =>
    rw [List.forall_mem_cons] at hpaths
    have hparams : F.params (r.under pre).path (pre ++ path) = F.params r.path path :=
      F.literal_matches pre r.path path hpre hpaths.1
    have hfirst : routeFor F.params [r.under pre] method (pre ++ path) =
        (routeFor F.params [r] method path).map fun x => (x.1.under pre, x.2) := by
      unfold routeFor
      rw [List.findSome?_singleton, List.findSome?_singleton, hparams]
      change (if method ∈ r.methods then _ else none) =
        Option.map _ (if method ∈ r.methods then _ else none)
      split
      · rw [Option.map_map]
        rfl
      · rfl
    rw [List.map_cons, routeFor_cons r, routeFor_cons (r.under pre), hfirst, ih hpaths.2,
      Option.map_or]

/-- Under the prefix only the routes that are mounted there count. -/
theorem routeFor_prefixed :
    (routeFor F.params F.app method (gatewayProxyPrefix ++ path)).map target =
      (routeFor F.params gatewayAliasRouter method path).map target := by
  have hown : ∀ r ∈ streamsRouter ++ auditRouter ++ coreRouter,
      r.startsIn ("/admin" :: (pagePaths ++ aliased)) = true := by
    intro r hr
    have halias := aliased_iff r hr
    unfold Route.startsIn at *
    rw [List.any_cons, List.any_append, halias]
    cases hex : aliasExcluded r with
    | true =>
      have hadmin : startsWith r.path "/admin" = true := startsWith_excluded hex
      rw [hadmin, Bool.true_or]
    | false => rw [Bool.not_false, Bool.or_true, Bool.or_true]
  have hslash : ∀ r ∈ gatewayAliasRouter, startsWith r.path "/" = true := by
    intro r hr
    obtain ⟨lit, hmem, hlit⟩ := List.any_eq_true.mp (startsIn_alias hr)
    exact startsWith_trans hlit (Bool.and_eq_true_iff.mp (aliased_literal lit hmem)).1
  have hplain : ∀ lit ∈ "/admin" :: (pagePaths ++ aliased), isLiteral lit = true := by
    intro lit hmem
    rw [List.mem_cons, List.mem_append] at hmem
    rcases hmem with rfl | hmem | hmem
    · exact outside_literal _ List.mem_cons_self
    · exact outside_literal lit (List.mem_append_right _ hmem)
    · exact aliased_literal lit hmem
  have hapart : apart ["/api"] ("/admin" :: (pagePaths ++ aliased)) = true := by
    simp [apart, pagePaths, aliased, startsWith, List.isPrefixOf]
  have hprefix : isLiteral gatewayProxyPrefix = true := by
    simp [gatewayProxyPrefix, isLiteral, startsWith]
  have hnative : ∀ r ∈ F.pages ++ (streamsRouter ++ auditRouter ++ coreRouter),
      F.params r.path (gatewayProxyPrefix ++ path) = none := by
    have hpath : startsWith (gatewayProxyPrefix ++ path) "/api" = true :=
      startsWith_iff.mpr ⟨"/v2/engines/execution" ++ path, rfl⟩
    intro r hr
    refine params_none hplain hapart hpath ?_
    rcases List.mem_append.mp hr with hr | hr
    · have hpages := pages_startsIn hr
      unfold Route.startsIn at hpages ⊢
      rw [List.any_cons, List.any_append, hpages, Bool.true_or, Bool.or_true]
    · exact hown r hr
  have happ : F.app = (F.pages ++ (streamsRouter ++ auditRouter ++ coreRouter)) ++
      gatewayAliasRouter.map (Route.under gatewayProxyPrefix) := by simp [app]
  rw [happ, routeFor_append, routeFor_none hnative, Option.none_or,
    routeFor_under hprefix hslash, Option.map_map]
  rfl

/-- Without the prefix they are all that counts, for a path that begins like none of the others. -/
theorem routeFor_native (h : ∀ lit ∈ outside, startsWith path lit = false) :
    routeFor F.params F.app method path = routeFor F.params gatewayAliasRouter method path := by
  have hfilter : F.app.filter (Route.startsIn aliased) = gatewayAliasRouter := by
    rw [app_eq, List.filter_append, aliased_filter, List.filter_eq_nil_iff.mpr, List.nil_append]
    intro r hr
    rw [startsIn_apart outside_apart (pages_outside hr)]
    decide
  rw [← hfilter]
  refine routeFor_filter fun r hr hother => ?_
  have hout : r.startsIn outside = true := by
    rw [app_eq] at hr
    rw [List.mem_append, List.mem_append] at hr
    rcases hr with hr | hr | hr
    · exact pages_outside hr
    · exact startsIn_excluded (by simpa [hother] using aliased_iff r hr)
    · obtain ⟨r, -, rfl⟩ := List.mem_map.mp hr
      exact startsIn_under r
  by_contra hne
  obtain ⟨lit, hmem, hlit⟩ := List.any_eq_true.mp hout
  exact absurd (startsWith_of_params (outside_literal lit hmem) hlit hne) (by simp [h lit hmem])

theorem routeFor_outside {lit : String} (hmem : lit ∈ outside) (h : startsWith path lit = true) :
    routeFor F.params gatewayAliasRouter method path = none := by
  have hapart : apart [lit] aliased = true := by
    rw [apart_iff]
    intro lit₁ h₁
    rw [List.mem_singleton.mp h₁]
    exact apart_iff.mp outside_apart lit hmem
  exact routeFor_none fun r hr => params_none aliased_literal hapart h (startsIn_alias hr)

/-- What runs is settled by what the request is taken to. -/
theorem serve_eq (req : Request) : F.serve S req =
    ((routeFor F.params F.app req.method req.path).map target).bind fun x =>
      if x.2.1.all (passes req.apiKey S) && req.valid x.1 x.2.2 then some (x.1, x.2.2)
      else none := by
  refine Option.ext fun x => ?_
  obtain ⟨e, args⟩ := x
  unfold serve
  rw [F.registration_order]
  cases routeFor F.params F.app req.method req.path with
  | none => simp
  | some x =>
    obtain ⟨r, args'⟩ := x
    simp only [Option.map_some, Option.bind_some, target, Option.some.injEq, Prod.mk.injEq]
    constructor
    · rintro ⟨r', ⟨rfl, rfl⟩, rfl, hpass, hvalid⟩
      rw [if_pos (by rw [hvalid, Bool.and_true, List.all_eq_true]; exact hpass)]
    · intro h
      split at h
      · rename_i hboth
        rw [Bool.and_eq_true, List.all_eq_true] at hboth
        obtain ⟨rfl, rfl⟩ := Prod.mk.inj (Option.some.inj h)
        exact ⟨r, ⟨rfl, rfl⟩, rfl, hboth⟩
      · cases h

end Framework

/-- Under the gateway's prefix every request is taken to the endpoint, the guards and the parameters
    that it is taken to without it, and the same handler runs; but nothing of `/admin`, of the
    framework's own pages and of the prefix itself is there. -/
theorem alias_agrees (F : Framework) (S : Keys) (req : Request) :
    (routeFor F.params F.app req.method (gatewayProxyPrefix ++ req.path)).map target =
      (if outside.any (startsWith req.path) then none
        else (routeFor F.params F.app req.method req.path).map target) ∧
    F.serve S { req with path := gatewayProxyPrefix ++ req.path } =
      if outside.any (startsWith req.path) then none else F.serve S req := by
  have hroute : (routeFor F.params F.app req.method (gatewayProxyPrefix ++ req.path)).map target =
      if outside.any (startsWith req.path) then none
      else (routeFor F.params F.app req.method req.path).map target := by
    rw [Framework.routeFor_prefixed]
    split
    · rename_i hout
      obtain ⟨lit, hmem, hlit⟩ := List.any_eq_true.mp hout
      rw [Framework.routeFor_outside hmem hlit]
      rfl
    · rename_i hin
      rw [Bool.not_eq_true, List.any_eq_false] at hin
      rw [Framework.routeFor_native fun lit hmem => by simpa using hin lit hmem]
  refine ⟨hroute, ?_⟩
  rw [Framework.serve_eq, Framework.serve_eq req]
  dsimp only
  rw [hroute]
  split
  · rfl
  · rfl

theorem sample_alias :
    plainFramework.serve sampleKeys
        { sampleRequest with path := "/api/v2/engines/execution/orders/7" } =
      plainFramework.serve sampleKeys sampleRequest ∧
    plainFramework.serve sampleKeys
        { sampleRequest with path := "/api/v2/engines/execution/admin/kill-switch" } = none :=
  ⟨(alias_agrees plainFramework sampleKeys sampleRequest).2,
    (alias_agrees plainFramework sampleKeys { sampleRequest with path := "/admin/kill-switch" }).2⟩

end ExecutionEngine.Access
