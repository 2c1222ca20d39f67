/-
  `_order_stream_events`: what one subscriber of `GET /orders/stream` is sent.

  The generator is a coroutine. `connect` is its first stretch, up to the first
  suspension: it enters `subscribe` and takes the replay with nothing in between.
  `advance` is what it does each time it runs on, one replayed event or one queue item
  at a time; publications and everything else the hub does fall between two of these
  in any order (`Step`, `Run`). A wait that times out is `idle`.

  `Follows` is the invariant of a run whose queue never overflows: the events dealt
  with, then those still to be replayed, then those in the queue, are the replay taken
  at connect time followed by everything published since.
-/
import ExecutionEngine.Events.Hub

namespace ExecutionEngine

/-- One SSE frame. -/
inductive Frame where
  | resyncRequired (afterSeq : Int)
  | event (e : OrderUpdateEvent)
  | gap (dropped : Nat)
  | keepAlive
  deriving DecidableEq

/-- The event frames of what was sent. -/
def eventsOf (frames : List Frame) : List OrderUpdateEvent :=
  frames.filterMap fun f => match f with
    | .event e => some e
    | _ => none

structure StreamArgs where
  afterSeq : Int
  strategyId : Option String := none
  clientOrderId : Option String := none

namespace StreamArgs

/-- `_matches`: the answer, and the seeded set after it. -/
def eventMatches (args : StreamArgs) (seeded : List String) (e : OrderUpdateEvent) :
    Bool × List String :=
  if args.clientOrderId.any fun cid => e.clientOrderId ≠ cid then (false, seeded)
  else
    match args.strategyId with
    | none => (true, seeded)
    | some sid =>
      if e.strategyId = some sid ∨ e.clientOrderId ∈ seeded then
        (true, e.clientOrderId :: seeded)
      else (false, seeded)

/-- The filter over a stretch of events: those that pass, and the seeded set after them. -/
def pass (args : StreamArgs) (seeded : List String) :
    List OrderUpdateEvent → List OrderUpdateEvent × List String
  | [] => ([], seeded)
  | e :: es =>
    let (hit, seeded) := args.eventMatches seeded e
    let (shown, seeded) := args.pass seeded es
    (if hit then e :: shown else shown, seeded)

/-- The events of a stretch that pass the filter. -/
def wanted (args : StreamArgs) (seeded : List String) (es : List OrderUpdateEvent) :
    List OrderUpdateEvent := (args.pass seeded es).1

end StreamArgs

/-! ## The generator -/

/-- Where the generator is: about to advise, within the replay, or in the live loop. -/
inductive StreamStage where
  | advising (replay : List OrderUpdateEvent)
  | replaying (rest : List OrderUpdateEvent) (maxReplayed : Nat)
  | live (maxReplayed : Nat)
  deriving DecidableEq

namespace StreamStage

/-- What is left of the replay. -/
def rest : StreamStage → List OrderUpdateEvent
  | .advising replay => replay
  | .replaying rest _ => rest
  | .live _ => []

def maxReplayed : StreamStage → Nat
  | .advising _ => 0
  | .replaying _ m => m
  | .live m => m

def isAdvising : StreamStage → Bool
  | .advising _ => true
  | _ => false

end StreamStage

/-- The hub and one subscriber's generator. -/
structure Streaming where
  hub : EventHub
  seeded : List String
  stage : StreamStage
  frames : List Frame := []

namespace Streaming

/-- Subscribe, then replay. -/
def connect (args : StreamArgs) (id : Nat) (seeded : List String) (H : EventHub) : Streaming where
  hub := H.subscribe id
  seeded := seeded
  stage :=
    let (replay, gap) := H.replay args.afterSeq
    if gap then .advising replay else .replaying replay 0

/-- An event that is not a duplicate: filtered, then sent. -/
def emit (args : StreamArgs) (w : Streaming) (e : OrderUpdateEvent) : Streaming :=
  let (hit, seeded) := args.eventMatches w.seeded e
  { w with seeded := seeded, frames := if hit then w.frames ++ [.event e] else w.frames }

/-- What the live loop does with a queue item. -/
def handle (args : StreamArgs) (maxReplayed : Nat) (id : Nat) (w : Streaming) (s : Subscription) :
    QueueItem → Streaming
  | .gapMarker =>
    let (dropped, s) := s.takeDropped
    { w with hub := w.hub.setSubscription id s, frames := w.frames ++ [.gap dropped] }
  | .event e =>
    let w := { w with hub := w.hub.setSubscription id s }
    if e.seq ≤ maxReplayed then w else w.emit args e

/-- The generator runs on to its next suspension; with an empty queue it stays in its wait. -/
def advance (args : StreamArgs) (id : Nat) (w : Streaming) : Option Streaming :=
  match w.stage with
  | .advising replay =>
    some { w with
      frames := w.frames ++ [.resyncRequired args.afterSeq]
      stage := .replaying replay 0 }
  | .replaying [] maxReplayed => some { w with stage := .live maxReplayed }
  | .replaying (e :: rest) maxReplayed =>
    some { w.emit args e with stage := .replaying rest (max maxReplayed e.seq) }
  | .live maxReplayed =>
    match w.hub.subscription id with
    | none => none
    | some s =>
      match s.queue with
      | [] => none
      | item :: queue => some (w.handle args maxReplayed id { s with queue := queue } item)

/-- The subscriber's queue has room for one more item. -/
def Room (id : Nat) (w : Streaming) : Prop :=
  ∀ s, w.hub.subscription id = some s → s.isFull = false

/-- One step of the process, with the events it publishes. -/
inductive Step (args : StreamArgs) (id : Nat) : Streaming → List OrderUpdateEvent → Streaming → Prop where
  | publish (w : Streaming) (p : Publication) (now : Time) :
    Step args id w [w.hub.stamp p now] { w with hub := w.hub.publish p now }
  | aside {w : Streaming} {H : EventHub} (h : EventHub.Elsewhere id w.hub H) :
    Step args id w [] { w with hub := H }
  | advance {w w' : Streaming} (h : w.advance args id = some w') : Step args id w [] w'
  | idle {w : Streaming} {maxReplayed : Nat} (h : w.stage = .live maxReplayed) :
    Step args id w [] { w with frames := w.frames ++ [.keepAlive] }

/-- A run on which no event is published into a full queue, with all it publishes. -/
inductive CalmRun (args : StreamArgs) (id : Nat) (w₀ : Streaming) :
    List OrderUpdateEvent → Streaming → Prop where
  | refl : CalmRun args id w₀ [] w₀
  | step {later es : List OrderUpdateEvent} {w w' : Streaming} (run : CalmRun args id w₀ later w)
    (hroom : es ≠ [] → w.Room id) (h : Step args id w es w') : CalmRun args id w₀ (later ++ es) w'

/-- The replay is done and the queue is empty. -/
def CaughtUp (id : Nat) (w : Streaming) : Prop :=
  (∃ m, w.stage = .live m) ∧ ∀ s, w.hub.subscription id = some s → s.queue = []

end Streaming

/-! ## The filter -/

namespace StreamArgs

theorem pass_append (args : StreamArgs) (seeded : List String) (xs ys : List OrderUpdateEvent) :
    args.pass seeded (xs ++ ys) =
      ((args.pass seeded xs).1 ++ (args.pass (args.pass seeded xs).2 ys).1,
        (args.pass (args.pass seeded xs).2 ys).2) := by
  induction xs generalizing seeded with
  | nil => rfl
  | cons x xs ih =>
    simp only [List.cons_append, pass, ih]
    split <;> rfl

/-- Without a strategy the filter is the one on `client_order_id`. -/
theorem pass_cid {args : StreamArgs} (h : args.strategyId = none) (seeded : List String)
    (es : List OrderUpdateEvent) :
    args.pass seeded es =
      (es.filter fun e => args.clientOrderId.all fun cid => e.clientOrderId = cid, seeded) := by
  induction es with
  | nil => rfl
  | cons e es ih =>
    cases hcid : args.clientOrderId with
    | none => simp [pass, eventMatches, hcid, h, ih]
    | some cid =>
      by_cases heq : e.clientOrderId = cid
      · simp [pass, eventMatches, hcid, h, ih, heq]
      · simp [pass, eventMatches, hcid, ih, heq]

end StreamArgs

/-! ## The frames -/

@[simp] theorem eventsOf_append (xs ys : List Frame) :
    eventsOf (xs ++ ys) = eventsOf xs ++ eventsOf ys := List.filterMap_append

/-- What the first frames say about the cursor: nothing was sent before the advisory, and there
    is one exactly if the cursor has fallen off. -/
def Advised (afterSeq : Int) (gap : Bool) (stage : StreamStage) (frames : List Frame) : Prop :=
  if stage.isAdvising then gap = true ∧ frames = []
  else if gap then frames.head? = some (.resyncRequired afterSeq)
  else ∀ n, .resyncRequired n ∉ frames

/-- A frame other than the advisory changes nothing about it. -/
theorem Advised.snoc {afterSeq : Int} {gap : Bool} {stage stage' : StreamStage}
    {frames : List Frame} {f : Frame} (h : Advised afterSeq gap stage frames)
    (hstage : stage.isAdvising = false) (hstage' : stage'.isAdvising = false)
    (hf : ∀ n, f ≠ .resyncRequired n) : Advised afterSeq gap stage' (frames ++ [f]) := by
  unfold Advised at h ⊢
  rw [hstage] at h
  rw [hstage']
  cases gap with
  | true =>
    simp only [if_true, Bool.false_eq_true, if_false] at h ⊢
    rw [List.head?_append, h]
    rfl
  | false =>
    simp only [Bool.false_eq_true, if_false] at h ⊢
    intro n hn
    rcases List.mem_append.mp hn with hn | hn
    · exact h n hn
    · exact hf n (List.mem_singleton.mp hn).symm

end ExecutionEngine
