/-
  `OrderBookService` and `ProviderRouter`: the book cache, the subscribers' queues and
  the refcounts, and which keys the router holds.

  `Desk` is both, with the contexts of `subscription` that are open or on their way in
  or out. An `Event` is a stretch of code between two awaits, with what it returns: a
  call to a provider is awaited, and what the provider does meanwhile is left open. What
  the service and the router do before such an await is one step, because no other task
  runs until it: the count of `_acquire` and the router's entry go together, and so do
  those of `_release`.

  `Runs` are the runs from an empty desk, with the events in order.
-/
import Mathlib.Data.Rat.Defs
import Mathlib.Algebra.Order.Ring.Rat
import ExecutionEngine.Containers.Lru
import ExecutionEngine.Containers.Mailbox
import ExecutionEngine.Feed.BidOffer

namespace ExecutionEngine.OrderBooks

open BidOffer (OrderBook)

/-- What books are kept under: `(symbol, market)`. -/
structure Key where
  symbol : String
  market : Market
  deriving DecidableEq

/-- `(book.symbol, book.market)`. -/
def keyOf (book : OrderBook) : Key := ⟨book.symbol, book.market⟩

/-! ## The router -/

inductive OrderBookSource where
  | liberator
  deriving DecidableEq, Repr

/-- The router; a primary that is not configured is a `ValueError` of its constructor. -/
structure ProviderRouter where
  providers : List OrderBookSource
  active : OrderBookSource
  active_configured : active ∈ providers
  overrides : List (String × OrderBookSource)
  errorThreshold : Int
  windowSeconds : Time
  subscriptions : List (Key × OrderBookSource) := []
  errorTimes : List (OrderBookSource × List Time) := []

namespace ProviderRouter

/-- `_route_for`. -/
def routeFor (r : ProviderRouter) (symbol : String) : OrderBookSource :=
  match r.overrides.lookup symbol with
  | some source => if source ∈ r.providers then source else r.active
  | none => r.active

/-- `subscribe`, until it awaits the provider it names. -/
def subscribe (r : ProviderRouter) (key : Key) : ProviderRouter × OrderBookSource :=
  ({ r with subscriptions := Odict.set key (r.routeFor key.symbol) r.subscriptions },
    r.routeFor key.symbol)

/-- `unsubscribe`, until it awaits the provider it names, if it names one. -/
def unsubscribe (r : ProviderRouter) (key : Key) : ProviderRouter × Option OrderBookSource :=
  ({ r with subscriptions := Odict.pop key r.subscriptions }, r.subscriptions.lookup key)

/-- `_secondary`. -/
def secondary (r : ProviderRouter) : Option OrderBookSource :=
  r.providers.find? fun source => source ≠ r.active

/-- The provider to fail over to, and the subscriptions that `_failover` is to move there. -/
structure Migration where
  target : OrderBookSource
  moving : List Key

/-- `_failover`, until its loop. -/
def failover (r : ProviderRouter) : ProviderRouter × Option Migration :=
  match h : r.secondary with
  | none => (r, none)
  | some target =>
    ({ r with active := target, active_configured := List.mem_of_find?_eq_some h,
              errorTimes := Odict.set r.active [] r.errorTimes },
      some ⟨target, (r.subscriptions.filter fun x => x.2 = r.active ∧
        r.overrides.lookup x.1.symbol = none).map Prod.fst⟩)

/-- `on_error`, until the loop of the failover, if it comes to one. -/
def onError (r : ProviderRouter) (source : OrderBookSource) (now : Time) :
    ProviderRouter × Option Migration :=
  let times := ((r.errorTimes.lookup source).getD [] ++ [now]).filter fun t =>
    now - r.windowSeconds ≤ t
  let r := { r with errorTimes := Odict.set source times r.errorTimes }
  if source ≠ r.active then (r, none)
  else if times.length < r.errorThreshold then (r, none)
  else r.failover

/-- There is one source, and it is the active one. -/
theorem secondary_none (r : ProviderRouter) : r.secondary = none := by
  apply List.find?_eq_none.mpr
  intro source _
  cases source
  cases r.active
  decide

theorem failover_eq (r : ProviderRouter) : r.failover = (r, none) := by
  unfold failover
  split
  · rfl
  · rename_i target h
    rw [secondary_none] at h
    cases h

/-- An error moves nothing. -/
theorem onError_keeps (r : ProviderRouter) (source : OrderBookSource) (now : Time) :
    (r.onError source now).1.subscriptions = r.subscriptions ∧ (r.onError source now).2 = none := by
  unfold onError
  dsimp only
  rw [failover_eq]
  split
  · exact ⟨rfl, rfl⟩
  · split <;> exact ⟨rfl, rfl⟩

end ProviderRouter

/-! ## The service -/

/-- The service. A queue is known by a number, which stands for its identity; `queues` is what is
    in each. -/
structure OrderBookService where
  maxSymbols : Nat
  maxAgeSeconds : ℚ
  subscriberQueueSize : Nat
  cache : List (Key × OrderBook) := []
  subscribers : List (Key × List Nat) := []
  refcounts : List (Key × Nat) := []
  queues : List (Nat × List OrderBook) := []

namespace OrderBookService

/-- The queues of a key. -/
def queuesOf (s : OrderBookService) (key : Key) : List Nat := (s.subscribers.lookup key).getD []

/-- `_refcounts.get(key, 0)`. -/
def refcount (s : OrderBookService) (key : Key) : Nat := (s.refcounts.lookup key).getD 0

/-- What is in a queue. -/
def queue (s : OrderBookService) (q : Nat) : List OrderBook := (s.queues.lookup q).getD []

/-- The loop of `publish`. -/
def offerAll (size : Nat) (book : OrderBook) :
    List Nat → List (Nat × List OrderBook) → List (Nat × List OrderBook)
  | [], queues => queues
  | q :: qs, queues => offerAll size book qs
      (Odict.set q (Mailbox.offer size ((queues.lookup q).getD []) book) queues)

/-- `publish`. -/
def publish (s : OrderBookService) (book : OrderBook) : OrderBookService :=
  { s with
    cache := Lru.evict s.maxSymbols (Lru.put (keyOf book) book s.cache)
    queues := offerAll s.subscriberQueueSize book (s.queuesOf (keyOf book)) s.queues }

/-- `(now - book.received_at).total_seconds() > max_age_seconds`. -/
def tooOld (s : OrderBookService) (book : OrderBook) (now : Time) : Bool :=
  s.maxAgeSeconds < ((now - book.receivedAt : Int) : ℚ) / 1000000

/-- `get`: a stale entry reads as absent. -/
def get (s : OrderBookService) (key : Key) (now : Time) : Option OrderBook × OrderBookService :=
  match s.cache.lookup key with
  | none => (none, s)
  | some book =>
    if s.tooOld book now then (none, s)
    else (some book, { s with cache := Lru.put key book s.cache })

/-- `_acquire` with a new queue, and whether the router is to be awaited. -/
def acquire (s : OrderBookService) (key : Key) (q : Nat) : OrderBookService × Bool :=
  let count := s.refcount key + 1
  ({ s with
      queues := Odict.set q [] s.queues
      subscribers := Odict.set key (s.queuesOf key ++ [q]) s.subscribers
      refcounts := Odict.set key count s.refcounts }, count = 1)

/-- `_release`, and whether the router is to be awaited. -/
def release (s : OrderBookService) (key : Key) (q : Nat) : OrderBookService × Bool :=
  let subscribers := match s.subscribers.lookup key with
    | some qs => if q ∈ qs then Odict.set key (qs.erase q) s.subscribers else s.subscribers
    | none => s.subscribers
  let count := s.refcount key - 1
  if count = 0 then
    ({ s with refcounts := Odict.pop key s.refcounts, subscribers := Odict.pop key subscribers },
      true)
  else ({ s with refcounts := Odict.set key count s.refcounts, subscribers }, false)

/-- A consumer has taken a book off its queue. -/
def setQueue (s : OrderBookService) (q : Nat) (books : List OrderBook) : OrderBookService :=
  { s with queues := Odict.set q books s.queues }

/-! ### What each operation does -/

variable {s : OrderBookService} {key k : Key} {q : Nat} {book : OrderBook}

theorem refcount_acquire :
    (s.acquire key q).1.refcount k = if k = key then s.refcount key + 1 else s.refcount k := by
  show ((Odict.set key (s.refcount key + 1) s.refcounts).lookup k).getD 0 = _
  rw [Odict.lookup_set]
  by_cases h : k = key
  · rw [if_pos h, if_pos h]
    rfl
  · rw [if_neg h, if_neg h]
    rfl

theorem queuesOf_acquire :
    (s.acquire key q).1.queuesOf k = if k = key then s.queuesOf key ++ [q] else s.queuesOf k := by
  show ((Odict.set key (s.queuesOf key ++ [q]) s.subscribers).lookup k).getD [] = _
  rw [Odict.lookup_set]
  by_cases h : k = key
  · rw [if_pos h, if_pos h]
    rfl
  · rw [if_neg h, if_neg h]
    rfl

theorem acquire_first : (s.acquire key q).2 = true ↔ s.refcount key = 0 := by
  rw [acquire, decide_eq_true_iff]
  omega

theorem refcount_release :
    (s.release key q).1.refcount k = if k = key then s.refcount key - 1 else s.refcount k := by
  unfold release
  dsimp only
  split
  · rename_i hzero
    show ((Odict.pop key s.refcounts).lookup k).getD 0 = _
    rw [Odict.lookup_pop]
    by_cases h : k = key
    · rw [if_pos h, if_pos h, hzero]
      rfl
    · rw [if_neg h, if_neg h]
      rfl
  · show ((Odict.set key (s.refcount key - 1) s.refcounts).lookup k).getD 0 = _
    rw [Odict.lookup_set]
    by_cases h : k = key
    · rw [if_pos h, if_pos h]
      rfl
    · rw [if_neg h, if_neg h]
      rfl

/-- A queue that is there is taken off the list, and the list is dropped when it was the last. -/
theorem queuesOf_release (hmem : q ∈ s.queuesOf key)
    (hlen : (s.queuesOf key).length = s.refcount key) :
    (s.release key q).1.queuesOf k =
      if k = key then (s.queuesOf key).erase q else s.queuesOf k := by
  obtain ⟨qs, hqs⟩ : ∃ qs, s.subscribers.lookup key = some qs := by
    cases hlookup : s.subscribers.lookup key with
    | none =>
      rw [queuesOf, hlookup] at hmem
      cases hmem
    | some qs => exact ⟨qs, rfl⟩
  have hof : s.queuesOf key = qs := by
    rw [queuesOf, hqs]
    rfl
  rw [hof] at hmem hlen ⊢
  have herase : (qs.erase q).length = qs.length - 1 := List.length_erase_of_mem hmem
  unfold release
  simp only [hqs, if_pos hmem]
  split
  · rename_i hzero
    show ((Odict.pop key (Odict.set key (qs.erase q) s.subscribers)).lookup k).getD [] = _
    rw [Odict.lookup_pop, Odict.lookup_set]
    by_cases h : k = key
    · rw [if_pos h, if_pos h]
      have hnil : (qs.erase q).length = 0 := by omega
      exact (List.length_eq_zero_iff.mp hnil).symm
    · rw [if_neg h, if_neg h, if_neg h]
      rfl
  · show ((Odict.set key (qs.erase q) s.subscribers).lookup k).getD [] = _
    rw [Odict.lookup_set]
    by_cases h : k = key
    · rw [if_pos h, if_pos h]
      rfl
    · rw [if_neg h, if_neg h]
      rfl

theorem release_last : (s.release key q).2 = true ↔ s.refcount key ≤ 1 := by
  unfold release
  dsimp only
  split
  · exact iff_of_true rfl (by omega)
  · exact iff_of_false Bool.false_ne_true (by omega)

/-- A release has to do with the counts and the lists of queues only. -/
theorem release_keeps (s : OrderBookService) (key : Key) (q : Nat) :
    (s.release key q).1.cache = s.cache ∧ (s.release key q).1.queues = s.queues ∧
      (s.release key q).1.maxSymbols = s.maxSymbols := by
  unfold release
  dsimp only
  split <;> exact ⟨rfl, rfl, rfl⟩

/-- The loop of `publish` offers the book once to each of the queues. -/
theorem lookup_offerAll {size : Nat} {qs : List Nat} (hnodup : qs.Nodup)
    (queues : List (Nat × List OrderBook)) :
    (offerAll size book qs queues).lookup q =
      if q ∈ qs then some (Mailbox.offer size ((queues.lookup q).getD []) book)
      else queues.lookup q := by
  induction qs generalizing queues with
  | nil => rw [offerAll, if_neg List.not_mem_nil]
  | cons q₀ qs ih =>
    obtain ⟨hq₀, hqs⟩ := List.nodup_cons.mp hnodup
    rw [offerAll, ih hqs]
    by_cases h : q = q₀
    · subst h
      rw [if_neg hq₀, Odict.lookup_set_self, if_pos List.mem_cons_self]
    · rw [Odict.lookup_set_ne h]
      simp only [List.mem_cons, h, false_or]

/-- A queue stays a queue. -/
theorem isSome_offerAll {size : Nat} (qs : List Nat) {queues : List (Nat × List OrderBook)}
    (h : (queues.lookup q).isSome = true) :
    ((offerAll size book qs queues).lookup q).isSome = true := by
  induction qs generalizing queues with
  | nil => exact h
  | cons q₀ qs ih =>
    apply ih
    rw [Odict.lookup_set]
    split
    · rfl
    · exact h

/-- A read touches the key of the book it returns, and nothing else. -/
theorem get_cases (s : OrderBookService) (key : Key) (now : Time) :
    ((s.get key now).1 = none ∧ (s.get key now).2 = s) ∨
      ∃ book, (key, book) ∈ s.cache ∧ (s.get key now).1 = some book ∧
        (s.get key now).2 = { s with cache := Lru.put key book s.cache } := by
  unfold get
  cases h : s.cache.lookup key with
  | none => exact .inl ⟨rfl, rfl⟩
  | some book =>
    dsimp only
    split
    · exact .inl ⟨rfl, rfl⟩
    · exact .inr ⟨book, Odict.mem_of_lookup h, rfl, rfl⟩

end OrderBookService

/-! ## Contexts -/

/-- Where a `subscription` context is: awaiting `router.subscribe`, in its body, or awaiting
    `router.unsubscribe`. -/
inductive Phase where
  | entering | opened | leaving
  deriving DecidableEq, Repr

structure Context where
  key : Key
  phase : Phase
  deriving DecidableEq

/-- The service, its router, and the contexts, each under the number of its queue. -/
structure Desk where
  service : OrderBookService
  router : ProviderRouter
  contexts : List (Nat × Context) := []

/-- A stretch of code between two awaits, and what it returns. -/
inductive Event where
  /-- A context is entered, with a new queue. -/
  | enter (q : Nat) (key : Key)
  /-- `router.subscribe` has returned. -/
  | subscribed (q : Nat)
  /-- It has raised, or the caller was cancelled there. -/
  | failed (q : Nat) (key : Key)
  /-- The body is left. -/
  | leave (q : Nat)
  /-- `router.unsubscribe` has returned, or raised. -/
  | released (q : Nat)
  | publish (book : OrderBook)
  | get (key : Key) (now : Time) (answer : Option OrderBook)
  /-- A consumer takes the book from the front of its queue. -/
  | read (q : Nat) (book : OrderBook)
  /-- A provider has signalled an error. -/
  | error (source : OrderBookSource) (now : Time)
  deriving DecidableEq

namespace Desk

/-- A context is entered: the first one of a key goes through the router. -/
def enter (d : Desk) (q : Nat) (key : Key) : Desk :=
  let acquired := d.service.acquire key q
  if acquired.2 then
    { service := acquired.1, router := (d.router.subscribe key).1,
      contexts := Odict.set q ⟨key, .entering⟩ d.contexts }
  else { d with service := acquired.1, contexts := Odict.set q ⟨key, .opened⟩ d.contexts }

/-- A context is left: the last one of a key goes through the router. -/
def leave (d : Desk) (q : Nat) (key : Key) : Desk :=
  let released := d.service.release key q
  if released.2 then
    { service := released.1, router := (d.router.unsubscribe key).1,
      contexts := if (d.router.unsubscribe key).2.isSome then
          Odict.set q ⟨key, .leaving⟩ d.contexts
        else Odict.pop q d.contexts }
  else { d with service := released.1, contexts := Odict.pop q d.contexts }

/-- One event, if it can happen. -/
def step (d : Desk) : Event → Option Desk
  | .enter q key => if (d.service.queues.lookup q).isSome then none else some (d.enter q key)
  | .subscribed q =>
    match d.contexts.lookup q with
    | some ⟨key, .entering⟩ => some { d with contexts := Odict.set q ⟨key, .opened⟩ d.contexts }
    | _ => none
  | .failed q key =>
    if d.contexts.lookup q = some ⟨key, .entering⟩ then
      some { d with contexts := Odict.pop q d.contexts }
    else none
  | .leave q =>
    match d.contexts.lookup q with
    | some ⟨key, .opened⟩ => some (d.leave q key)
    | _ => none
  | .released q =>
    match d.contexts.lookup q with
    | some ⟨_, .leaving⟩ => some { d with contexts := Odict.pop q d.contexts }
    | _ => none
  | .publish book => some { d with service := d.service.publish book }
  | .get key now answer =>
    if (d.service.get key now).1 = answer then some { d with service := (d.service.get key now).2 }
    else none
  | .read q book =>
    match d.contexts.lookup q, d.service.queue q with
    | some ⟨_, .opened⟩, front :: rest =>
      if front = book then some { d with service := d.service.setQueue q rest } else none
    | _, _ => none
  | .error source now => some { d with router := (d.router.onError source now).1 }

/-- What an event can do. -/
inductive Steps (d : Desk) : Event → Desk → Prop
  | enter {q : Nat} {key : Key} (hnew : d.service.queues.lookup q = none) :
    Steps d (.enter q key) (d.enter q key)
  | subscribed {q : Nat} {key : Key} (hc : d.contexts.lookup q = some ⟨key, .entering⟩) :
    Steps d (.subscribed q) { d with contexts := Odict.set q ⟨key, .opened⟩ d.contexts }
  | failed {q : Nat} {key : Key} (hc : d.contexts.lookup q = some ⟨key, .entering⟩) :
    Steps d (.failed q key) { d with contexts := Odict.pop q d.contexts }
  | leave {q : Nat} {key : Key} (hc : d.contexts.lookup q = some ⟨key, .opened⟩) :
    Steps d (.leave q) (d.leave q key)
  | released {q : Nat} {key : Key} (hc : d.contexts.lookup q = some ⟨key, .leaving⟩) :
    Steps d (.released q) { d with contexts := Odict.pop q d.contexts }
  | publish {book : OrderBook} :
    Steps d (.publish book) { d with service := d.service.publish book }
  | get {key : Key} {now : Time} {answer : Option OrderBook}
      (hanswer : (d.service.get key now).1 = answer) :
    Steps d (.get key now answer) { d with service := (d.service.get key now).2 }
  | read {q : Nat} {key : Key} {book : OrderBook} {rest : List OrderBook}
      (hc : d.contexts.lookup q = some ⟨key, .opened⟩) (hqueue : d.service.queue q = book :: rest) :
    Steps d (.read q book) { d with service := d.service.setQueue q rest }
  | error {source : OrderBookSource} {now : Time} :
    Steps d (.error source now) { d with router := (d.router.onError source now).1 }

theorem step_cases {d d' : Desk} {e : Event} (h : d.step e = some d') : d.Steps e d' := by
  unfold step at h
  split at h
  case h_1 q key =>
    split at h
    · cases h
    · rename_i hnew
      obtain rfl := Option.some.inj h
      exact .enter (Option.not_isSome_iff_eq_none.mp hnew)
  case h_2 q =>
    split at h
    · rename_i key hc
      obtain rfl := Option.some.inj h
      exact .subscribed hc
    · cases h
  case h_3 q key =>
    split at h
    · rename_i hc
      obtain rfl := Option.some.inj h
      exact .failed hc
    · cases h
  case h_4 q =>
    split at h
    · rename_i key hc
      obtain rfl := Option.some.inj h
      exact .leave hc
    · cases h
  case h_5 q =>
    split at h
    · rename_i key hc
      obtain rfl := Option.some.inj h
      exact .released hc
    · cases h
  case h_6 book =>
    obtain rfl := Option.some.inj h
    exact .publish
  case h_7 key now answer =>
    split at h
    · rename_i hanswer
      obtain rfl := Option.some.inj h
      exact .get hanswer
    · cases h
  case h_8 q book =>
    split at h
    · rename_i key front rest hc hqueue
      split at h
      · rename_i hfront
        obtain rfl := Option.some.inj h
        subst hfront
        exact .read hc hqueue
      · cases h
    · cases h
  case h_9 source now =>
    obtain rfl := Option.some.inj h
    exact .error

theorem service_enter (d : Desk) (q : Nat) (key : Key) :
    (d.enter q key).service = (d.service.acquire key q).1 := by
  unfold enter
  dsimp only
  split <;> rfl

/-- The first context of a key awaits the router. -/
theorem contexts_enter (d : Desk) (q : Nat) (key : Key) : (d.enter q key).contexts =
    Odict.set q ⟨key, if d.service.refcount key = 0 then .entering else .opened⟩ d.contexts := by
  unfold enter
  dsimp only
  split
  · rename_i hfirst
    rw [if_pos (OrderBookService.acquire_first.mp hfirst)]
  · rename_i hmore
    rw [if_neg (mt OrderBookService.acquire_first.mpr hmore)]

theorem service_leave (d : Desk) (q : Nat) (key : Key) :
    (d.leave q key).service = (d.service.release key q).1 := by
  unfold leave
  dsimp only
  split <;> rfl

/-- A context that is left is gone or on its way out. -/
theorem lookup_leave_self (d : Desk) (q : Nat) (key : Key) :
    (d.leave q key).contexts.lookup q = none ∨
      (d.leave q key).contexts.lookup q = some ⟨key, .leaving⟩ := by
  unfold leave
  dsimp only
  split
  · dsimp only
    split
    · exact .inr (Odict.lookup_set_self _ _ _)
    · exact .inl (Odict.lookup_pop_self _ _)
  · exact .inl (Odict.lookup_pop_self _ _)

theorem lookup_leave_ne {d : Desk} {q p : Nat} {key : Key} (h : p ≠ q) :
    (d.leave q key).contexts.lookup p = d.contexts.lookup p := by
  unfold leave
  dsimp only
  split
  · dsimp only
    split
    · exact Odict.lookup_set_ne h _ _
    · exact Odict.lookup_pop_ne h _
  · exact Odict.lookup_pop_ne h _

end Desk

/-- What the service and the router are constructed with. -/
structure Setup where
  maxSymbols : Nat
  maxAgeSeconds : ℚ
  subscriberQueueSize : Nat
  providers : List OrderBookSource
  primary : OrderBookSource
  primary_configured : primary ∈ providers
  overrides : List (String × OrderBookSource) := []
  errorThreshold : Int
  windowSeconds : Time

/-- `create_order_book_runtime`. -/
def Setup.desk (c : Setup) : Desk where
  service := { maxSymbols := c.maxSymbols, maxAgeSeconds := c.maxAgeSeconds,
               subscriberQueueSize := c.subscriberQueueSize }
  router := { providers := c.providers, active := c.primary,
              active_configured := c.primary_configured, overrides := c.overrides,
              errorThreshold := c.errorThreshold, windowSeconds := c.windowSeconds }

/-- A run of the service, with its events in order. -/
inductive Runs (c : Setup) : List Event → Desk → Prop
  | start : Runs c [] c.desk
  | step {tr : List Event} {d d' : Desk} {e : Event} (run : Runs c tr d) (h : d.step e = some d') :
    Runs c (tr ++ [e]) d'

/-- The events one after the other, as far as they can happen. -/
def Desk.runEvents : List Event → Desk → Option Desk
  | [], d => some d
  | e :: es, d => (d.step e).bind (runEvents es)

theorem Runs.append {c : Setup} {tr : List Event} {d d' : Desk} (run : Runs c tr d)
    {es : List Event} (h : d.runEvents es = some d') : Runs c (tr ++ es) d' := by
  induction es generalizing tr d with
  | nil =>
    obtain rfl := Option.some.inj h
    rw [List.append_nil]
    exact run
  | cons e es ih =>
    obtain ⟨d₁, hstep, hrest⟩ := Option.bind_eq_some_iff.mp h
    have hall := ih (.step run hstep) hrest
    rwa [List.append_assoc, List.singleton_append] at hall

/-- What is computed is a run. -/
theorem runs_of_runEvents {c : Setup} {d : Desk} {es : List Event}
    (h : c.desk.runEvents es = some d) : Runs c es d := Runs.append .start h

theorem runs_getD {c : Setup} {es : List Event} (h : (c.desk.runEvents es).isSome = true) :
    Runs c es ((c.desk.runEvents es).getD c.desk) := by
  obtain ⟨d, hd⟩ := Option.isSome_iff_exists.mp h
  rw [hd]
  exact runs_of_runEvents hd

end ExecutionEngine.OrderBooks
