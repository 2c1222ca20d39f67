/-
  `EventHub`: the in-process fan-out of order updates.

  `publish` stamps an event with the next number, appends it to a bounded ring and
  offers it to every subscriber's bounded queue; an offer to a full queue drops the
  oldest item and leaves a gap marker. `replay` serves a reconnecting reader from the
  ring. A fault inside `publish` is not modelled: every publication succeeds.

  `Logged` is what the hub stands for: the log of everything it has published, numbered
  from 1, of which the ring holds the last part. Every operation keeps it
  (`logged_publish`, `Elsewhere.logged`), and `replay` is then a statement about the log
  (`replay_logged`).
-/
import ExecutionEngine.Db.Store
import ExecutionEngine.Feed.Ring

namespace ExecutionEngine

/-- One fill carried on an order update. -/
structure FillEvent where
  brokerFillId : String
  price : Decimal
  quantity : Int
  execTs : Time
  deriving DecidableEq

structure OrderUpdateEvent where
  seq : Nat
  clientOrderId : String
  strategyId : Option String
  engineState : OrderState
  status : PublicOrderStatus
  brokerOrderId : Option String := none
  price : Option Decimal := none
  quantity : Option Int := none
  fill : Option FillEvent := none
  ts : Time
  deriving DecidableEq

/-- `derive_status`: the public status without a fill watermark. -/
def deriveStatus (s : OrderState) : PublicOrderStatus := toPublicStatus s 0

/-- What a subscriber's queue carries. -/
inductive QueueItem where
  | event (e : OrderUpdateEvent)
  | gapMarker
  deriving DecidableEq

/-! ## Subscriptions -/

/-- A bounded queue with its overflow accounting; a `maxsize` of 0 is no bound. -/
structure Subscription where
  maxsize : Nat
  queue : List QueueItem := []
  dropped : Nat := 0
  gapPending : Bool := false
  deriving DecidableEq

namespace Subscription

def isFull (s : Subscription) : Bool := 0 < s.maxsize && s.maxsize ≤ s.queue.length

/-- `put_nowait` under `suppress(QueueFull)`. -/
def put (s : Subscription) (item : QueueItem) : Subscription :=
  if s.isFull then s else { s with queue := s.queue ++ [item] }

/-- `_drop_oldest`: a marker that falls off is re-armed. -/
def dropOldest (s : Subscription) : Subscription :=
  match s.queue with
  | [] => s
  | .gapMarker :: rest => { s with queue := rest, gapPending := false }
  | .event _ :: rest => { s with queue := rest }

/-- `_ensure_gap_marker`. -/
def ensureGapMarker (s : Subscription) : Subscription :=
  if s.gapPending then s else { s with gapPending := true }.put .gapMarker

/-- `offer`. -/
def offer (s : Subscription) (e : OrderUpdateEvent) : Subscription :=
  if s.isFull then
    let s := s.dropOldest
    { s with dropped := s.dropped + 1 }.ensureGapMarker.put (.event e)
  else s.put (.event e)

/-- `take_dropped`. -/
def takeDropped (s : Subscription) : Nat × Subscription :=
  (s.dropped, { s with dropped := 0, gapPending := false })

/-- With room in the queue an offer is an append. -/
theorem offer_room {s : Subscription} (h : s.isFull = false) (e : OrderUpdateEvent) :
    s.offer e = { s with queue := s.queue ++ [.event e] } := by
  simp [offer, put, h]

end Subscription

/-! ## The hub -/

/-- Subscriptions are held under an id that stands for their identity. -/
structure EventHub where
  ringBufferSize : Nat
  subscriberQueueSize : Nat
  ring : List OrderUpdateEvent := []
  nextSeq : Nat := 1
  subscriptions : List (Nat × Subscription) := []
  strategyByCid : List (String × String) := []

/-- What a caller publishes. -/
structure Publication where
  clientOrderId : String
  engineState : OrderState
  strategyId : Option String := none
  brokerOrderId : Option String := none
  price : Option Decimal := none
  quantity : Option Int := none
  fill : Option FillEvent := none
  deriving DecidableEq

namespace EventHub

/-- `_STRATEGY_MAP_CAP`. -/
def strategyMapCap : Nat := 4096

/-- The loop of `register_strategy`: the oldest go until the cap is met. -/
def evictStrategies : List (String × String) → List (String × String)
  | [] => []
  | x :: rest => if strategyMapCap < rest.length + 1 then evictStrategies rest else x :: rest

/-- `register_strategy`: the newest last. -/
def registerStrategy (H : EventHub) (cid strategyId : String) : EventHub :=
  { H with
    strategyByCid :=
      evictStrategies ((H.strategyByCid.filter fun x => x.1 ≠ cid) ++ [(cid, strategyId)]) }

/-- `_resolve_strategy`. -/
def resolveStrategy (H : EventHub) (cid : String) (strategyId : Option String) : Option String :=
  strategyId.or ((H.strategyByCid.find? fun x => x.1 = cid).map Prod.snd)

/-- The event that a publication is stamped as. -/
def stamp (H : EventHub) (p : Publication) (now : Time) : OrderUpdateEvent where
  seq := H.nextSeq
  clientOrderId := p.clientOrderId
  strategyId := H.resolveStrategy p.clientOrderId p.strategyId
  engineState := p.engineState
  status := deriveStatus p.engineState
  brokerOrderId := p.brokerOrderId
  price := p.price
  quantity := p.quantity
  fill := p.fill
  ts := now

/-- `publish`. -/
def publish (H : EventHub) (p : Publication) (now : Time) : EventHub :=
  { H with
    nextSeq := H.nextSeq + 1
    ring := Ring.push H.ringBufferSize H.ring (H.stamp p now)
    subscriptions := H.subscriptions.map fun x => (x.1, x.2.offer (H.stamp p now)) }

/-- `replay`: the ring's events after the cursor, and whether the cursor fell off. -/
def replay (H : EventHub) (afterSeq : Int) : List OrderUpdateEvent × Bool :=
  if afterSeq ≤ 0 then ([], false)
  else
    (H.ring.filter fun e => afterSeq < e.seq,
      H.ring.head?.any fun oldest => afterSeq < (oldest.seq : Int) - 1)

def subscription (H : EventHub) (id : Nat) : Option Subscription :=
  (H.subscriptions.find? fun x => x.1 = id).map Prod.snd

/-- Entering `subscribe`. -/
def subscribe (H : EventHub) (id : Nat) : EventHub :=
  { H with subscriptions := H.subscriptions ++ [(id, { maxsize := H.subscriberQueueSize })] }

/-- Leaving it. -/
def unsubscribe (H : EventHub) (id : Nat) : EventHub :=
  { H with subscriptions := H.subscriptions.filter fun x => x.1 ≠ id }

/-- A subscriber has read from its queue. -/
def setSubscription (H : EventHub) (id : Nat) (s : Subscription) : EventHub :=
  { H with subscriptions := H.subscriptions.map fun x => if x.1 = id then (id, s) else x }

/-- Everything that can happen to a hub besides a publication, seen from subscriber `id`. -/
inductive Elsewhere (id : Nat) : EventHub → EventHub → Prop where
  | register (H : EventHub) (cid strategyId : String) : Elsewhere id H (H.registerStrategy cid strategyId)
  | subscribe (H : EventHub) {other : Nat} (h : other ≠ id) : Elsewhere id H (H.subscribe other)
  | unsubscribe (H : EventHub) {other : Nat} (h : other ≠ id) : Elsewhere id H (H.unsubscribe other)
  | read (H : EventHub) {other : Nat} (h : other ≠ id) (s : Subscription) :
    Elsewhere id H (H.setSubscription other s)

/-! ## One subscriber's view -/

variable {H H' : EventHub} {id : Nat}

theorem subscription_subscribe (hnew : H.subscription id = none) :
    (H.subscribe id).subscription id = some { maxsize := H.subscriberQueueSize } := by
  unfold subscription at hnew
  rw [Option.map_eq_none_iff] at hnew
  simp [subscription, subscribe, List.find?_append, hnew]

theorem subscription_publish (p : Publication) (now : Time) :
    (H.publish p now).subscription id = (H.subscription id).map fun s => s.offer (H.stamp p now) := by
  simp only [subscription, publish, List.find?_map, Option.map_map]
  rfl

theorem subscription_setSubscription {s s' : Subscription} (h : H.subscription id = some s') :
    (H.setSubscription id s).subscription id = some s := by
  obtain ⟨x, hx, -⟩ := Option.map_eq_some_iff.mp h
  have hid : x.1 = id := by simpa using List.find?_some hx
  have hpred : (fun x : Nat × Subscription => decide (x.1 = id)) ∘
      (fun x => if x.1 = id then (id, s) else x) = fun x => decide (x.1 = id) := by
    funext y
    by_cases hy : y.1 = id <;> simp [hy]
  rw [subscription, setSubscription, List.find?_map, hpred, hx]
  simp [hid]

theorem Elsewhere.subscription (h : Elsewhere id H H') : H'.subscription id = H.subscription id := by
  cases h with
  | register => rfl
  | @subscribe other hne =>
    simp [EventHub.subscription, EventHub.subscribe, List.find?_append, hne]
  | @unsubscribe other hne =>
    simp only [EventHub.subscription, EventHub.unsubscribe, List.find?_filter]
    congr 2
    funext x
    by_cases hx : x.1 = id <;> simp [hx, hne.symm]
  | @read other hne s =>
    have hpred : (fun x : Nat × Subscription => decide (x.1 = id)) ∘
        (fun x => if x.1 = other then (other, s) else x) = fun x => decide (x.1 = id) := by
      funext x
      by_cases hx : x.1 = other <;> simp [hx]
    rw [EventHub.subscription, setSubscription, List.find?_map, hpred, EventHub.subscription]
    cases hfind : H.subscriptions.find? fun x => x.1 = id with
    | none => rfl
    | some x =>
      have hid : x.1 = id := by simpa using List.find?_some hfind
      simp [hid, hne.symm]

/-! ## The log behind the hub -/

/-- The hub has published this log. -/
structure Logged (log : List OrderUpdateEvent) (H : EventHub) : Prop where
  ring : H.ring = Ring.window H.ringBufferSize log
  next : H.nextSeq = log.length + 1
  numbered : Ring.Numbered OrderUpdateEvent.seq log

theorem logged_new (ringBufferSize subscriberQueueSize : Nat) :
    Logged [] { ringBufferSize, subscriberQueueSize } :=
  ⟨(Ring.window_nil _).symm, rfl, Ring.numbered_nil⟩

theorem logged_publish {log : List OrderUpdateEvent} (h : Logged log H) (p : Publication)
    (now : Time) : Logged (log ++ [H.stamp p now]) (H.publish p now) where
  ring := by rw [publish, h.ring, Ring.push_window]
  next := by simp [publish, h.next]
  numbered := h.numbered.snoc h.next

theorem Elsewhere.logged {log : List OrderUpdateEvent} (h : Elsewhere id H H') (hl : Logged log H) :
    Logged log H' := by
  cases h <;> exact ⟨hl.ring, hl.next, hl.numbered⟩

/-- What a replay serves, in terms of the log: the suffix above the cursor that the ring still
    has, and whether something above the cursor has fallen off. -/
theorem replay_logged {log : List OrderUpdateEvent} (h : Logged log H)
    (hsize : 1 ≤ H.ringBufferSize) {c : Nat} (hc : 0 < c) :
    (H.replay c).1 = log.drop (max c (log.length - H.ringBufferSize)) ∧
    ((H.replay c).2 = true ↔ ∃ e ∈ Ring.evicted H.ringBufferSize log, c < e.seq) := by
  have hpos : ¬ (c : Int) ≤ 0 := by omega
  simp only [replay, if_neg hpos, h.ring]
  constructor
  · rw [← Ring.replay_window h.numbered]
    exact List.filter_congr fun e _ => by simp
  · rw [Ring.lost_iff h.numbered hsize, Option.any_eq_true]
    refine exists_congr fun e => and_congr_right fun _ => ?_
    rw [decide_eq_true_iff]
    omega

end EventHub

end ExecutionEngine
