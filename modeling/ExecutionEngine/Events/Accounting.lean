/-
  What a slow subscriber loses, and what it is told about it.

  `Tape` is any interleaving of offers with reads of one subscription, beside the books
  of an observer (`Books`): what was offered, what was read, what the gap frames
  reported, and what has been lost since the last of them.

  An overflow ends in one of three ways (`Lands`). With a marker queued behind the oldest
  event that event goes, and is counted. With no marker queued the oldest event gives its
  place to a marker and the new event finds none: two are lost, and one is counted.
  With the marker itself the oldest, it is queued again and the new event is lost, and
  counted. So a gap frame reports one less than was lost (`Kept.total`), and nothing is
  lost without a marker in the queue (`Kept.loud`).
-/
import ExecutionEngine.Events.Delivery

namespace ExecutionEngine

def QueueItem.event? : QueueItem → Option OrderUpdateEvent
  | .event e => some e
  | .gapMarker => none

namespace Subscription

/-- The events that are queued. -/
def events (s : Subscription) : List OrderUpdateEvent := s.queue.filterMap QueueItem.event?

/-- The markers that are queued. -/
def markers (s : Subscription) : Nat := s.queue.count .gapMarker

/-- What an offer loses: of the events that were queued and the new one, those that are not
    queued after it. -/
def lostTo (s : Subscription) (e : OrderUpdateEvent) : List OrderUpdateEvent :=
  (s.events ++ [e]).filter fun x => x ∉ (s.offer e).events

/-- The consumer has taken an item off the queue, and with a marker the count. -/
def consumed (s : Subscription) : QueueItem → Subscription
  | .event _ => s
  | .gapMarker => s.takeDropped.2

end Subscription

/-- What an observer notes down. -/
structure Books where
  offered : List OrderUpdateEvent := []
  delivered : List OrderUpdateEvent := []
  reported : List Nat := []
  lost : List OrderUpdateEvent := []

namespace Books

def offer (b : Books) (s : Subscription) (e : OrderUpdateEvent) : Books :=
  { b with offered := b.offered ++ [e], lost := b.lost ++ s.lostTo e }

/-- An item is read; a gap frame closes the account of what was lost. -/
def read (b : Books) (s : Subscription) : QueueItem → Books
  | .event e => { b with delivered := b.delivered ++ [e] }
  | .gapMarker => { b with reported := b.reported ++ [s.takeDropped.1], lost := [] }

end Books

/-- Offers and reads in any order. -/
inductive Tape (maxsize : Nat) : Books → Subscription → Prop where
  | start : Tape maxsize {} { maxsize }
  | offer {b : Books} {s : Subscription} (run : Tape maxsize b s) (e : OrderUpdateEvent) :
    Tape maxsize (b.offer s e) (s.offer e)
  | read {b : Books} {s : Subscription} {item : QueueItem} {rest : List QueueItem}
    (run : Tape maxsize b s) (h : s.queue = item :: rest) :
    Tape maxsize (b.read s item) (Subscription.consumed { s with queue := rest } item)

/-! ## One offer -/

/-- What an offer of `e` leaves. -/
inductive Lands (s : Subscription) (e : OrderUpdateEvent) : Subscription → Prop where
  | room (h : s.queue.length < s.maxsize) : Lands s e { s with queue := s.queue ++ [.event e] }
  | evicted {old : OrderUpdateEvent} {rest : List QueueItem} (h : s.queue = .event old :: rest)
    (hgap : s.gapPending = true) :
    Lands s e { s with queue := rest ++ [.event e], dropped := s.dropped + 1 }
  | armed {old : OrderUpdateEvent} {rest : List QueueItem} (h : s.queue = .event old :: rest)
    (hgap : s.gapPending = false) :
    Lands s e
      { s with queue := rest ++ [.gapMarker], dropped := s.dropped + 1, gapPending := true }
  | rearmed {rest : List QueueItem} (h : s.queue = .gapMarker :: rest) :
    Lands s e
      { s with queue := rest ++ [.gapMarker], dropped := s.dropped + 1, gapPending := true }

namespace Subscription

variable {s : Subscription}

theorem put_of_room (h : s.queue.length < s.maxsize) (item : QueueItem) :
    s.put item = { s with queue := s.queue ++ [item] } := by
  have hfull : ¬ s.isFull = true := by
    simp only [isFull, Bool.and_eq_true, decide_eq_true_eq]
    omega
  rw [put, if_neg hfull]

theorem put_of_full (hsize : 1 ≤ s.maxsize) (h : s.maxsize ≤ s.queue.length) (item : QueueItem) :
    s.put item = s := by
  have hfull : s.isFull = true := by
    simp only [isFull, Bool.and_eq_true, decide_eq_true_eq]
    omega
  rw [put, if_pos hfull]

theorem offer_full (h : s.isFull = true) (e : OrderUpdateEvent) :
    s.offer e =
      Subscription.put { s.dropOldest with dropped := s.dropOldest.dropped + 1 }.ensureGapMarker
        (.event e) := by
  rw [offer, if_pos h]

/-- A marker takes the room that the oldest item left, and the new event finds none. -/
theorem arm {queue : List QueueItem} {dropped : Nat} {maxsize : Nat} (hsize : 1 ≤ maxsize)
    (hlen : queue.length + 1 = maxsize) (item : QueueItem) :
    (ensureGapMarker { maxsize, queue, dropped, gapPending := false }).put item =
      { maxsize, queue := queue ++ [.gapMarker], dropped, gapPending := true } := by
  have hmarker : ensureGapMarker { maxsize, queue, dropped, gapPending := false } =
      { maxsize, queue := queue ++ [.gapMarker], dropped, gapPending := true } := by
    unfold ensureGapMarker
    rw [if_neg Bool.false_ne_true, put_of_room]
    show queue.length < maxsize
    omega
  rw [hmarker]
  refine put_of_full (s := { maxsize, queue := queue ++ [.gapMarker], dropped, gapPending := true })
    hsize ?_ item
  show maxsize ≤ (queue ++ [QueueItem.gapMarker]).length
  rw [List.length_append, List.length_singleton, hlen]

/-- With a marker queued behind it the oldest event makes room for the new one. -/
theorem rotate {queue : List QueueItem} {dropped : Nat} {maxsize : Nat}
    (hlen : queue.length + 1 = maxsize) (item : QueueItem) :
    (ensureGapMarker { maxsize, queue, dropped, gapPending := true }).put item =
      { maxsize, queue := queue ++ [item], dropped, gapPending := true } := by
  refine put_of_room (s := { maxsize, queue, dropped, gapPending := true }) ?_ item
  show queue.length < maxsize
  omega

end Subscription

theorem offer_lands {s : Subscription} (hsize : 1 ≤ s.maxsize) (hlen : s.queue.length ≤ s.maxsize)
    (e : OrderUpdateEvent) : Lands s e (s.offer e) := by
  obtain ⟨maxsize, queue, dropped, gapPending⟩ := s
  have hsize : 1 ≤ maxsize := hsize
  have hlen : queue.length ≤ maxsize := hlen
  by_cases hroom : queue.length < maxsize
  · rw [Subscription.offer, if_neg, Subscription.put_of_room hroom]
    · exact .room hroom
    · simp only [Subscription.isFull, Bool.and_eq_true, decide_eq_true_eq]
      omega
  have hfull : Subscription.isFull { maxsize, queue, dropped, gapPending } = true := by
    simp only [Subscription.isFull, Bool.and_eq_true, decide_eq_true_eq]
    omega
  rw [Subscription.offer_full hfull]
  cases queue with
  | nil =>
    rw [List.length_nil] at hroom
    omega
  | cons item rest =>
    have hrest : rest.length + 1 = maxsize := by
      rw [List.length_cons] at hroom hlen
      omega
    cases item with
    | gapMarker =>
      rw [Subscription.dropOldest, Subscription.arm hsize hrest]
      exact .rearmed rfl
    | event old =>
      cases gapPending with
      | true =>
        rw [Subscription.dropOldest, Subscription.rotate hrest]
        exact .evicted (s := ⟨maxsize, .event old :: rest, dropped, true⟩) rfl rfl
      | false =>
        rw [Subscription.dropOldest, Subscription.arm hsize hrest]
        exact .armed (s := ⟨maxsize, .event old :: rest, dropped, false⟩) rfl rfl

/-! ## The books -/

variable {b : Books} {s : Subscription} {e : OrderUpdateEvent} {maxsize : Nat}

/-- What the books and the queue always say. -/
structure Kept (maxsize : Nat) (b : Books) (s : Subscription) : Prop where
  size : s.maxsize = maxsize
  bounded : s.queue.length ≤ maxsize
  marker : s.markers = if s.gapPending then 1 else 0
  quiet : s.gapPending = false → s.dropped = 0 ∧ b.lost = []
  loud : s.gapPending = true → 0 < s.dropped
  total : b.offered.length = b.delivered.length + s.events.length +
    (b.reported.sum + b.reported.length) + (s.dropped + if s.gapPending then 1 else 0)
  order : (b.delivered ++ s.events).Sublist b.offered

theorem kept_start : Kept maxsize {} { maxsize } where
  size := rfl
  bounded := Nat.zero_le maxsize
  marker := rfl
  quiet := fun _ => ⟨rfl, rfl⟩
  loud := nofun
  total := rfl
  order := List.Sublist.refl []

/-- An offer loses nothing while there is room. -/
theorem lostTo_of_room (h : s.offer e = { s with queue := s.queue ++ [.event e] }) :
    s.lostTo e = [] := by
  have hevents : (s.offer e).events = s.events ++ [e] := by
    rw [h]
    simp [Subscription.events, QueueItem.event?]
  rw [Subscription.lostTo, hevents, List.filter_eq_nil_iff]
  intro x hx
  rw [decide_eq_true_eq]
  exact fun hlost => hlost hx

/-- Losing the oldest event keeps what is left in order. -/
theorem sublist_of_evicted {old : OrderUpdateEvent} {xs ys zs : List OrderUpdateEvent}
    (h : (xs ++ old :: ys).Sublist zs) : (xs ++ ys).Sublist zs :=
  ((List.sublist_cons_self old ys).append_left xs).trans h

theorem Kept.offer (h : Kept maxsize b s) (hsize : 1 ≤ maxsize) (e : OrderUpdateEvent) :
    Kept maxsize (b.offer s e) (s.offer e) := by
  obtain ⟨size, bounded, marker, quiet, loud, total, order⟩ := h
  have hlands := offer_lands (size.symm ▸ hsize) (size.symm ▸ bounded) e
  generalize hnext : s.offer e = s' at hlands
  cases hlands with
  | room hroom =>
    have hevents : Subscription.events { s with queue := s.queue ++ [.event e] } = s.events ++ [e] := by
      simp [Subscription.events, QueueItem.event?]
    constructor
    · exact size
    · simp only [List.length_append, List.length_singleton]
      omega
    · simpa [Subscription.markers] using marker
    · intro hgap
      refine ⟨(quiet hgap).1, ?_⟩
      simp only [Books.offer, (quiet hgap).2, lostTo_of_room hnext, List.append_nil]
    · exact loud
    · rw [hevents]
      simp only [Books.offer, List.length_append, List.length_singleton]
      omega
    · rw [hevents, ← List.append_assoc]
      exact order.append (List.Sublist.refl [e])
  | @evicted old rest hqueue hgap =>
    have hevents : s.events = old :: rest.filterMap QueueItem.event? := by
      simp [Subscription.events, hqueue, QueueItem.event?]
    have hevents' : Subscription.events
        { s with queue := rest ++ [.event e], dropped := s.dropped + 1 } =
        rest.filterMap QueueItem.event? ++ [e] := by
      simp [Subscription.events, QueueItem.event?]
    constructor
    · exact size
    · rw [hqueue] at bounded
      simpa using bounded
    · simpa [Subscription.markers, hqueue] using marker
    · intro hquiet
      rw [hgap] at hquiet
      cases hquiet
    · exact fun _ => Nat.succ_pos _
    · rw [hevents] at total
      rw [hevents']
      simp only [Books.offer, List.length_append, List.length_cons, List.length_nil] at total ⊢
      omega
    · rw [hevents] at order
      rw [hevents', ← List.append_assoc]
      exact (sublist_of_evicted order).append (List.Sublist.refl [e])
  | @armed old rest hqueue hgap =>
    have hevents : s.events = old :: rest.filterMap QueueItem.event? := by
      simp [Subscription.events, hqueue, QueueItem.event?]
    have hevents' : Subscription.events
        { s with queue := rest ++ [.gapMarker], dropped := s.dropped + 1, gapPending := true } =
        rest.filterMap QueueItem.event? := by
      simp [Subscription.events, QueueItem.event?]
    constructor
    · exact size
    · rw [hqueue] at bounded
      simpa using bounded
    · rw [hgap] at marker
      simpa [Subscription.markers, hqueue] using marker
    · exact nofun
    · exact fun _ => Nat.succ_pos _
    · -- two are lost and one is counted: the marker stands for the other
      rw [hevents, hgap] at total
      rw [hevents']
      simp only [Books.offer, List.length_append, List.length_cons, List.length_nil,
        Bool.false_eq_true, if_false, if_true] at total ⊢
      omega
    · rw [hevents] at order
      rw [hevents']
      exact (sublist_of_evicted order).trans (List.sublist_append_left b.offered [e])
  | @rearmed rest hqueue =>
    have hevents : s.events = rest.filterMap QueueItem.event? := by
      rw [Subscription.events, hqueue]
      rfl
    have hevents' : Subscription.events
        { s with queue := rest ++ [.gapMarker], dropped := s.dropped + 1, gapPending := true } =
        rest.filterMap QueueItem.event? := by
      simp [Subscription.events, QueueItem.event?]
    have hgap : s.gapPending = true := by
      by_contra hno
      rw [if_neg hno, Subscription.markers, hqueue, List.count_cons_self] at marker
      omega
    constructor
    · exact size
    · rw [hqueue] at bounded
      simpa using bounded
    · rw [hgap] at marker
      simpa [Subscription.markers, hqueue] using marker
    · exact nofun
    · exact fun _ => Nat.succ_pos _
    · rw [hevents, hgap] at total
      rw [hevents']
      simp only [Books.offer, List.length_append, List.length_singleton, if_true] at total ⊢
      omega
    · rw [hevents] at order
      rw [hevents']
      exact order.trans (List.sublist_append_left b.offered [e])

/-! ## One read -/

theorem Kept.read {item : QueueItem} {rest : List QueueItem} (h : Kept maxsize b s)
    (hqueue : s.queue = item :: rest) :
    Kept maxsize (b.read s item) (Subscription.consumed { s with queue := rest } item) := by
  obtain ⟨size, bounded, marker, quiet, loud, total, order⟩ := h
  rw [hqueue, List.length_cons] at bounded
  cases item with
  | event e =>
    have hevents : s.events = e :: rest.filterMap QueueItem.event? := by
      simp [Subscription.events, hqueue, QueueItem.event?]
    constructor
    · exact size
    · show rest.length ≤ maxsize
      omega
    · show rest.count QueueItem.gapMarker = if s.gapPending then 1 else 0
      have hne : QueueItem.event e ≠ .gapMarker := nofun
      rw [← marker, Subscription.markers, hqueue, List.count_cons_of_ne hne]
    · exact quiet
    · exact loud
    · rw [hevents, List.length_cons] at total
      show b.offered.length = (b.delivered ++ [e]).length + (rest.filterMap QueueItem.event?).length +
        (b.reported.sum + b.reported.length) + (s.dropped + if s.gapPending then 1 else 0)
      rw [List.length_append, List.length_singleton]
      omega
    · rw [hevents] at order
      simpa [Books.read, Subscription.consumed, Subscription.events] using order
  | gapMarker =>
    have hevents : s.events = rest.filterMap QueueItem.event? := by
      rw [Subscription.events, hqueue]
      rfl
    have hcount : rest.count .gapMarker + 1 = if s.gapPending then 1 else 0 := by
      rw [← marker, Subscription.markers, hqueue, List.count_cons_self]
    have hgap : s.gapPending = true := by
      by_contra hno
      rw [if_neg hno] at hcount
      omega
    rw [if_pos hgap] at hcount total
    constructor
    · exact size
    · show rest.length ≤ maxsize
      omega
    · show rest.count QueueItem.gapMarker = 0
      omega
    · exact fun _ => ⟨rfl, rfl⟩
    · exact nofun
    · rw [hevents] at total
      simp only [Books.read, Subscription.consumed, Subscription.takeDropped, Subscription.events,
        List.sum_append, List.sum_singleton, List.length_append, List.length_singleton,
        Bool.false_eq_true, if_false] at total ⊢
      omega
    · rw [hevents] at order
      exact order

/-! ## Every run -/

theorem Tape.kept (hsize : 1 ≤ maxsize) (run : Tape maxsize b s) : Kept maxsize b s := by
  induction run with
  | start => exact kept_start
  | offer _ e ih => exact ih.offer hsize e
  | read _ hqueue ih => exact ih.read hqueue

/-- Every event that was offered is accounted for, up to the one that each marker displaces: what
    was offered is what was read, what is queued, what the gap frames reported and what is
    counted, and one more for each gap frame and for a marker that is pending. -/
theorem offered_accounted (hsize : 1 ≤ maxsize) (run : Tape maxsize b s) :
    b.offered.length = b.delivered.length + s.events.length + b.reported.sum + s.dropped +
      (b.reported.length + if s.gapPending then 1 else 0) := by
  have := (run.kept hsize).total
  omega

def sampleUpdate (seq : Nat) : OrderUpdateEvent where
  seq := seq
  clientOrderId := "a"
  strategyId := none
  engineState := .new
  status := deriveStatus .new
  ts := 0

/-- With a queue of 1, two offers and no read: the marker has the place, both events are lost, and
    one is counted. -/
theorem displaced_event_uncounted :
    ¬ ∀ (maxsize : Nat) (b : Books) (s : Subscription), 1 ≤ maxsize → Tape maxsize b s →
      b.offered.length = b.delivered.length + s.events.length + b.reported.sum + s.dropped := by
  intro h
  have fresh : Tape 1 {} { maxsize := 1 } := .start
  have run := (fresh.offer (sampleUpdate 1)).offer (sampleUpdate 2)
  exact absurd (h 1 _ _ (by decide) run) (by decide)

theorem offered_accounted_two :
    ∃ b s, Tape 1 b s ∧ b.offered.length = 2 ∧ b.offered.length =
      b.delivered.length + s.events.length + b.reported.sum + s.dropped +
        (b.reported.length + if s.gapPending then 1 else 0) := by
  have fresh : Tape 1 {} { maxsize := 1 } := .start
  have run := (fresh.offer (sampleUpdate 1)).offer (sampleUpdate 2)
  exact ⟨_, _, run, rfl, offered_accounted (by decide) run⟩

/-! ## The stream

  The generator's own run, in which the hub makes the offers and numbers them. -/

namespace Streaming

/-- The counts of the gap frames. -/
def gapsOf (frames : List Frame) : List Nat :=
  frames.filterMap fun f => match f with
    | .gap dropped => some dropped
    | _ => none

/-- What the live loop finds when it runs on: its subscription and the oldest item in it. -/
def next (id : Nat) (w : Streaming) : Option (Subscription × QueueItem) :=
  match w.stage with
  | .live _ => (w.hub.subscription id).bind fun s => s.queue.head?.map fun item => (s, item)
  | _ => none

/-- The books of an observer after the generator has run on. -/
def noted (id : Nat) (b : Books) (w : Streaming) : Books :=
  match w.next id with
  | some (s, item) => b.read s item
  | none => b

/-- A run of the process from `w₀`, and the books of an observer of subscriber `id`. -/
inductive Watched (args : StreamArgs) (id : Nat) (w₀ : Streaming) : Books → Streaming → Prop where
  | refl : Watched args id w₀ {} w₀
  | publish {b : Books} {w : Streaming} {s : Subscription} (run : Watched args id w₀ b w)
    (h : w.hub.subscription id = some s) (p : Publication) (now : Time) :
    Watched args id w₀ (b.offer s (w.hub.stamp p now)) { w with hub := w.hub.publish p now }
  | aside {b : Books} {w : Streaming} {H : EventHub} (run : Watched args id w₀ b w)
    (h : EventHub.Elsewhere id w.hub H) : Watched args id w₀ b { w with hub := H }
  | advance {b : Books} {w w' : Streaming} (run : Watched args id w₀ b w)
    (h : w.advance args id = some w') : Watched args id w₀ (noted id b w) w'
  | idle {b : Books} {w : Streaming} {maxReplayed : Nat} (run : Watched args id w₀ b w)
    (h : w.stage = .live maxReplayed) :
    Watched args id w₀ b { w with frames := w.frames ++ [.keepAlive] }

variable {args : StreamArgs} {id : Nat} {w w' : Streaming}

@[simp] theorem gapsOf_append (xs ys : List Frame) : gapsOf (xs ++ ys) = gapsOf xs ++ gapsOf ys :=
  List.filterMap_append

theorem gapsOf_emit : gapsOf (w.emit args e).frames = gapsOf w.frames := by
  simp only [emit]
  split
  · rw [gapsOf_append]
    exact List.append_nil _
  · rfl

theorem read_reported (item : QueueItem) :
    (b.read s item).reported = b.reported ++ (Books.read {} s item).reported := by
  cases item with
  | event e => exact (List.append_nil _).symm
  | gapMarker => rfl

/-- What the live loop does with an item it has taken off. -/
theorem handle_spec (args : StreamArgs) (id : Nat) (w : Streaming) (s : Subscription) (m : Nat)
    (item : QueueItem) :
    (w.handle args m id s item).hub = w.hub.setSubscription id (s.consumed item) ∧
    gapsOf (w.handle args m id s item).frames =
      gapsOf w.frames ++ (Books.read {} s item).reported := by
  cases item with
  | gapMarker => exact ⟨rfl, gapsOf_append _ _⟩
  | event e =>
    simp only [handle, Subscription.consumed, Books.read, List.append_nil]
    split
    · exact ⟨rfl, rfl⟩
    · exact ⟨rfl, gapsOf_emit⟩

/-- Running on takes one item off the queue, or leaves it alone. -/
theorem advance_noted (hadv : w.advance args id = some w') (b : Books) :
    (noted id b w = b ∧ w'.hub = w.hub ∧ gapsOf w'.frames = gapsOf w.frames) ∨
    ∃ s item rest, w.hub.subscription id = some s ∧ s.queue = item :: rest ∧
      noted id b w = b.read s item ∧
      w'.hub = w.hub.setSubscription id (Subscription.consumed { s with queue := rest } item) ∧
      gapsOf w'.frames = gapsOf w.frames ++ (Books.read {} s item).reported := by
  cases hstage : w.stage with
  | advising replay =>
    simp only [Streaming.advance, hstage, Option.some.injEq] at hadv
    refine .inl ⟨by simp only [noted, next, hstage], ?_⟩
    subst hadv
    exact ⟨rfl, (gapsOf_append _ _).trans (List.append_nil _)⟩
  | replaying rest m =>
    have hnoted : noted id b w = b := by simp only [noted, next, hstage]
    cases rest with
    | nil =>
      simp only [Streaming.advance, hstage, Option.some.injEq] at hadv
      subst hadv
      exact .inl ⟨hnoted, rfl, rfl⟩
    | cons e rest =>
      simp only [Streaming.advance, hstage, Option.some.injEq] at hadv
      subst hadv
      exact .inl ⟨hnoted, rfl, gapsOf_emit⟩
  | live m =>
    simp only [Streaming.advance, hstage] at hadv
    cases hsub : w.hub.subscription id with
    | none => simp [hsub] at hadv
    | some s =>
      cases hqueue : s.queue with
      | nil => simp [hsub, hqueue] at hadv
      | cons item rest =>
        simp only [hsub, hqueue, Option.some.injEq] at hadv
        subst hadv
        have hnoted : noted id b w = b.read s item := by
          simp only [noted, next, hstage, hsub, hqueue, Option.bind_some, List.head?_cons,
            Option.map_some]
        obtain ⟨hhub, hgaps⟩ := handle_spec args id w { s with queue := rest } m item
        refine .inr ⟨s, item, rest, rfl, hqueue, hnoted, hhub, hgaps.trans ?_⟩
        cases item <;> rfl

theorem HubHistory.subscriberQueueSize {ring queue : Nat} {log : List OrderUpdateEvent}
    {H : EventHub} (h : EventHub.HubHistory ring queue id log H) : H.subscriberQueueSize = queue := by
  induction h with
  | new => rfl
  | publish _ p now ih => exact ih
  | aside _ ha ih => cases ha <;> exact ih

/-- The generator's subscription is on a tape, its gap frames are what the tape reports, and what
    it is offered is what the hub publishes. -/
theorem Watched.tape {ring queue : Nat} {seeded : List String} {log : List OrderUpdateEvent}
    {H : EventHub} (hist : EventHub.HubHistory ring queue id log H)
    (run : Watched args id (connect args id seeded H) b w) :
    (∃ s, w.hub.subscription id = some s ∧ Tape queue b s) ∧ gapsOf w.frames = b.reported ∧
    EventHub.Logged (log ++ b.offered) w.hub := by
  induction run with
  | refl =>
    refine ⟨⟨{ maxsize := queue }, ?_, .start⟩, rfl, ?_⟩
    · rw [← HubHistory.subscriberQueueSize hist]
      exact EventHub.subscription_subscribe hist.absent
    · rw [List.append_nil]
      exact ⟨hist.logged.ring, hist.logged.next, hist.logged.numbered⟩
  | @publish b w s run hsub p now ih =>
    obtain ⟨⟨s', hsub', htape⟩, hgaps, hlog⟩ := ih
    obtain rfl := Option.some.inj (hsub.symm.trans hsub')
    refine ⟨⟨_, ?_, htape.offer _⟩, hgaps, ?_⟩
    · show (w.hub.publish p now).subscription id = _
      rw [EventHub.subscription_publish, hsub, Option.map_some]
    · simp only [Books.offer]
      rw [← List.append_assoc]
      exact EventHub.logged_publish hlog p now
  | aside run ha ih =>
    obtain ⟨⟨s, hsub, htape⟩, hgaps, hlog⟩ := ih
    exact ⟨⟨s, ha.subscription.trans hsub, htape⟩, hgaps, ha.logged hlog⟩
  | @advance b w w' run hadv ih =>
    obtain ⟨⟨s, hsub, htape⟩, hgaps, hlog⟩ := ih
    obtain ⟨hnoted, hhub, hframes⟩ | ⟨s', item, rest, hsub', hqueue, hnoted, hhub, hframes⟩ :=
      advance_noted hadv b
    · rw [hnoted, hhub, hframes]
      exact ⟨⟨s, hsub, htape⟩, hgaps, hlog⟩
    · obtain rfl := Option.some.inj (hsub.symm.trans hsub')
      have hoffered : (b.read s item).offered = b.offered := by cases item <;> rfl
      rw [hnoted, hhub, hframes, hgaps, hoffered]
      refine ⟨⟨_, EventHub.subscription_setSubscription hsub, htape.read hqueue⟩,
        (read_reported item).symm, ?_⟩
      exact ⟨hlog.ring, hlog.next, hlog.numbered⟩
  | idle run hstage ih =>
    obtain ⟨hsub, hgaps, hlog⟩ := ih
    exact ⟨hsub, (gapsOf_append _ _).trans ((List.append_nil _).trans hgaps), hlog⟩

/-- No loss is silent: the flag says whether the one marker is queued, what has been lost since the
    last gap frame is announced by it, and what was read and is queued is in order. -/
theorem no_silent_loss {ring queue : Nat} (hqueue : 1 ≤ queue) {log : List OrderUpdateEvent}
    {H : EventHub} (hist : EventHub.HubHistory ring queue id log H) (args : StreamArgs)
    (seeded : List String) {b : Books} {w : Streaming}
    (run : Watched args id (connect args id seeded H) b w) :
    ∃ s, w.hub.subscription id = some s ∧
      (s.gapPending = true ↔ s.markers = 1) ∧ (s.gapPending = false → s.markers = 0) ∧
      (b.lost ≠ [] → .gapMarker ∈ s.queue ∧ 0 < s.dropped) ∧
      (b.delivered ++ s.events).Pairwise fun x y => x.seq < y.seq := by
  obtain ⟨⟨s, hsub, htape⟩, -, hlog⟩ := run.tape hist
  have hkept := htape.kept hqueue
  refine ⟨s, hsub, ?_, ?_, ?_, ?_⟩
  · rw [hkept.marker]
    cases s.gapPending <;> simp
  · intro hgap
    rw [hkept.marker, hgap]
    rfl
  · intro hlost
    have hgap : s.gapPending = true := by
      by_contra hno
      exact hlost (hkept.quiet (Bool.eq_false_iff.mpr hno)).2
    refine ⟨List.count_pos_iff.mp ?_, hkept.loud hgap⟩
    show 0 < s.markers
    rw [hkept.marker, if_pos hgap]
    exact Nat.one_pos
  · have hincreasing := hlog.numbered.increasing
    rw [List.pairwise_append] at hincreasing
    exact hincreasing.2.1.sublist hkept.order

/-- Two updates are published into a queue of 1 that nobody reads. -/
theorem no_silent_loss_two : ∃ (b : Books) (w : Streaming), b.lost.length = 2 ∧
    ∃ s, w.hub.subscription 0 = some s ∧
      (s.gapPending = true ↔ s.markers = 1) ∧ (s.gapPending = false → s.markers = 0) ∧
      (b.lost ≠ [] → .gapMarker ∈ s.queue ∧ 0 < s.dropped) ∧
      (b.delivered ++ s.events).Pairwise fun x y => x.seq < y.seq := by
  have hist : EventHub.HubHistory 2 1 0 [] { ringBufferSize := 2, subscriberQueueSize := 1 } := .new
  have start : Watched { afterSeq := 0 } 0
      (connect { afterSeq := 0 } 0 [] { ringBufferSize := 2, subscriberQueueSize := 1 }) {} _ := .refl
  have first := start.publish rfl { clientOrderId := "a", engineState := .pendingNew } 0
  have second := first.publish rfl { clientOrderId := "a", engineState := .new } 1
  exact ⟨_, _, by decide, no_silent_loss (by decide) hist { afterSeq := 0 } [] second⟩

/-- The books of the stream balance: its gap frames, with one more event for each, and its
    deliveries are all that was published to it, but for what is queued or counted. -/
theorem stream_accounted {ring queue : Nat} (hqueue : 1 ≤ queue) {log : List OrderUpdateEvent}
    {H : EventHub} (hist : EventHub.HubHistory ring queue id log H) {seeded : List String}
    (run : Watched args id (connect args id seeded H) b w)
    (hsub : w.hub.subscription id = some s) :
    b.offered.length = b.delivered.length + s.events.length +
      ((gapsOf w.frames).sum + (gapsOf w.frames).length) +
      (s.dropped + if s.gapPending then 1 else 0) := by
  obtain ⟨⟨s', hsub', htape⟩, hgaps, -⟩ := run.tape hist
  obtain rfl := Option.some.inj (hsub.symm.trans hsub')
  rw [hgaps]
  exact (htape.kept hqueue).total

end Streaming

end ExecutionEngine
