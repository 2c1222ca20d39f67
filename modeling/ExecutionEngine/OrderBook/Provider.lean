/-
  The Liberator provider: what it tracks, its calls, and its reader task.

  The provider is one state that its calls and its reader share. A step is a stretch of
  code between two awaits: a call begins, an await of a call or of a reader is answered,
  a caller is cancelled, a call finds the reader it waits for finished. What an await
  gives is the environment's choice, exceptions of every class among it, and so is the
  order of the steps.

  A reader that is cancelled goes on until its next step, and then the await it stands
  at raises. An await of the http client or of the socket may also end otherwise: only
  `sleep` and a task that has not begun are sure to raise. A reader is asked for by its
  number, so the readers that nobody asks for any more are there as well.

  `_Subscription` objects are known by their place in `objects`; rooms, calls and readers
  hold on to them after they are no longer tracked. What http and the socket carry is
  left out, and so are the frames of the other namespaces.
-/
import ExecutionEngine.Containers.Odict
import ExecutionEngine.Feed.BidOffer

namespace ExecutionEngine.OrderBooks

open BidOffer (OrderBook)

/-- `_Subscription`. -/
structure Subscription where
  symbol : String
  market : Market
  orderBookId : Option Int := none
  deriving DecidableEq

/-- The classes of exceptions that the provider tells apart. -/
inductive Fault where
  | ticketAcquisition | symbolResolution | webSocket | os | cancelled | other
  deriving DecidableEq, Repr

/-- The classes that `_run` reports, to connect again. -/
def Fault.retried : Fault → Bool
  | .ticketAcquisition | .symbolResolution | .webSocket | .os => true
  | .cancelled | .other => false

/-- The classes that a live join reports. -/
def Fault.reported : Fault → Bool
  | .symbolResolution | .webSocket | .os => true
  | .ticketAcquisition | .cancelled | .other => false

/-- The classes that leaving a room suppresses. -/
def Fault.suppressed : Fault → Bool
  | .webSocket | .os => true
  | .ticketAcquisition | .symbolResolution | .cancelled | .other => false

/-- A frame of the socket. -/
inductive Frame where
  | ping
  | update (receivedAt : Time) (payload : Dict)
  | other

/-- What an await gives. -/
inductive Answer where
  | done
  | room (id : Int)
  | frame (f : Frame)
  /-- The socket has been closed. -/
  | ended
  | raised (f : Fault)

/-- A round of the loop of `_run`. -/
structure Session where
  attempt : Nat
  connectedAt : Time
  deriving DecidableEq, Repr

/-- `_HEALTHY_RESET_SECONDS`. -/
def healthyReset : Time := 30000000

/-- The count of attempts after a session: a healthy one resets it. -/
def Session.attempts (s : Session) (now : Time) : Nat :=
  if healthyReset ≤ now - s.connectedAt then 0 else s.attempt

/-- The last attempt with a `_backoff_delay`: from `2 ** 1024` on a power of two is too large for a
    float, and the product with `_BACKOFF_BASE` raises. -/
def lastAttempt : Nat := 1024

/-- After this session there is no attempt any more. -/
def Session.exhausted (s : Session) (now : Time) : Bool := lastAttempt ≤ s.attempts now

/-- Where a reader stands. -/
inductive ReaderState where
  | created
  | sleeping (attempt : Nat)
  | ticket (s : Session)
  | connecting (s : Session)
  /-- With so many awaits of the handshake still to come. -/
  | handshake (s : Session) (more : Nat)
  /-- In `_join_all_rooms`, with the subscriptions still to come and the rooms so far. -/
  | resolving (s : Session) (i : Nat) (rest : List Nat) (ids : List Int)
  | joining (s : Session)
  | receiving (s : Session)
  | ponging (s : Session)
  /-- The connection is being closed; then the session ends so. -/
  | closing (s : Session) (outcome : Option Fault)
  | finished (outcome : Option Fault)
  deriving DecidableEq, Repr

/-- How a reader has ended, if it has. -/
def ReaderState.outcome : ReaderState → Option (Option Fault)
  | .finished outcome => some outcome
  | _ => none

/-- Where this answer ends a reader by an exception, as long as the loop of `_run` would go on. -/
def ReaderState.fatal (now : Time) : ReaderState → Answer → Bool
  | .created, .raised _ | .sleeping _, .raised _ => true
  | .ticket s, .raised f | .connecting s, .raised f | .closing s _, .raised f =>
    !f.retried || s.exhausted now
  | .closing s outcome, .done => (outcome.any fun f => !f.retried) || s.exhausted now
  | _, _ => false

/-- The subscriptions that a reader is yet to join. -/
def ReaderState.held : ReaderState → List Nat
  | .resolving _ i rest _ => i :: rest
  | _ => []

/-- A reader task. `cancelling` is that it has been cancelled, `pending` that the exception for it
    is still to be raised. -/
structure ReaderTask where
  state : ReaderState := .created
  cancelling : Bool := false
  pending : Bool := false
  deriving DecidableEq, Repr

/-- What a call awaits. -/
inductive CallState where
  | resolving (i : Nat)
  | joining
  | leavingRoom
  | awaitingReader (r : Nat)
  deriving DecidableEq, Repr

/-- A task that has not begun. -/
def ReaderTask.fresh : ReaderTask := {}

/-- What an await can give: a cancellation only if there is one, and `sleep` and a task that has
    not begun do raise it. -/
def ReaderTask.admits (t : ReaderTask) : Answer → Bool
  | .raised .cancelled => t.pending
  | _ => match t.state with
    | .created | .sleeping _ => !t.pending
    | _ => true

/-- A call of the provider; `pending` is that its caller has been cancelled. -/
structure Call where
  state : CallState
  pending : Bool := false
  deriving DecidableEq, Repr

def Call.admits (call : Call) : Answer → Bool
  | .raised .cancelled => call.pending
  | _ => true

/-- How a call ends. -/
inductive Result where
  | returned | raised
  deriving DecidableEq, Repr

/-- `_on_book` and `_on_error`. -/
inductive Signal where
  | book (book : OrderBook)
  | error
  deriving DecidableEq

structure Provider where
  objects : List Subscription := []
  subs : List (String × Nat) := []
  byRoom : List (Int × Nat) := []
  tasks : List ReaderTask := []
  reader : Option Nat := none
  /-- The reader whose connection it is. -/
  ws : Option Nat := none
  stopping : Bool := false
  calls : List (Nat × Call) := []
  deriving DecidableEq

/-- After a step: the provider, what it has signalled, and how the call has ended if it has. -/
structure Moved where
  provider : Provider
  signal : Option Signal := none
  result : Option Result := none
  deriving DecidableEq

namespace Provider

/-- The room of a subscription. -/
def roomOf (p : Provider) (i : Nat) : Option Int := p.objects[i]?.bind Subscription.orderBookId

/-- `sub.order_book_id = id`. -/
def setRoom (p : Provider) (i : Nat) (id : Int) : Provider :=
  { p with objects := p.objects.modify i fun sub => { sub with orderBookId := some id } }

/-- `self._by_room[id] = sub`. -/
def enterRoom (p : Provider) (i : Nat) (id : Int) : Provider :=
  { p with byRoom := Odict.set id i p.byRoom }

/-- How a reader has ended, if it has. -/
def outcomeOf (p : Provider) (r : Nat) : Option (Option Fault) :=
  p.tasks[r]?.bind fun t => t.state.outcome

/-- `self._reader is None or self._reader.done()`. -/
def readerDone (p : Provider) : Bool :=
  match p.reader with
  | none => true
  | some r => (p.outcomeOf r).isSome

/-- `asyncio.create_task(self._run())`. -/
def startReader (p : Provider) : Provider :=
  { p with tasks := p.tasks ++ [.fresh], reader := some p.tasks.length }

/-- `cancel` of a reader. -/
def cancelReader (p : Provider) (r : Nat) : Provider :=
  if (p.outcomeOf r).isSome then p
  else { p with tasks := p.tasks.modify r fun t => { t with cancelling := true, pending := true } }

/-- A call goes on to await. -/
def hold (p : Provider) (c : Nat) (state : CallState) : Provider :=
  { p with calls := Odict.set c { state } p.calls }

/-! ## Calls -/

/-- The subscription of a symbol, a new one if it has none. -/
def track (p : Provider) (symbol : String) (market : Market) : Provider × Nat :=
  match p.subs.lookup symbol with
  | some i => (p, i)
  | none => ({ p with objects := p.objects ++ [{ symbol, market }]
                      subs := Odict.set symbol p.objects.length p.subs }, p.objects.length)

/-- `subscribe`, until it awaits or returns. -/
def subscribe (p : Provider) (c : Nat) (symbol : String) (market : Market) : Moved :=
  let tracked := p.track symbol market
  let p := tracked.1
  if p.readerDone then { provider := p.startReader, result := some .returned }
  else match p.ws with
    | none => { provider := p, result := some .returned }
    | some _ =>
      match p.roomOf tracked.2 with
      | none => { provider := p.hold c (.resolving tracked.2) }
      | some id => { provider := (p.enterRoom tracked.2 id).hold c .joining }

/-- The reader that was awaited has ended: only its cancellation is suppressed. -/
def afterReader (p : Provider) : Option Fault → Moved
  | none | some .cancelled => { provider := { p with reader := none }, result := some .returned }
  | some _ => { provider := p, result := some .raised }

/-- A reader is cancelled and awaited; one that is done is not awaited. -/
def awaitReader (p : Provider) (c : Nat) (r : Nat) : Moved :=
  match p.outcomeOf r with
  | some outcome => p.afterReader outcome
  | none => { provider := (p.cancelReader r).hold c (.awaitingReader r) }

/-- The end of `unsubscribe`: without a symbol there is no reader. -/
def dropReader (p : Provider) (c : Nat) : Moved :=
  match p.reader with
  | some r => if p.subs = [] then p.awaitReader c r
      else { provider := p, result := some .returned }
  | none => { provider := p, result := some .returned }

/-- `unsubscribe`, until it awaits or returns. -/
def unsubscribe (p : Provider) (c : Nat) (symbol : String) : Moved :=
  match p.subs.lookup symbol with
  | none => p.dropReader c
  | some i =>
    let p := { p with subs := Odict.pop symbol p.subs }
    match p.roomOf i with
    | none => p.dropReader c
    | some id =>
      let p := { p with byRoom := Odict.pop id p.byRoom }
      match p.ws with
      | none => p.dropReader c
      | some _ => { provider := p.hold c .leavingRoom }

/-- `stop`, until it awaits or returns; the http client is left out. -/
def stop (p : Provider) (c : Nat) : Moved :=
  let p := { p with stopping := true }
  match p.reader with
  | some r => p.awaitReader c r
  | none => { provider := p, result := some .returned }

/-- The await of a live join has raised. -/
def joinFailed (p : Provider) (f : Fault) : Moved :=
  if f.reported then { provider := p, signal := some .error, result := some .returned }
  else { provider := p, result := some .raised }

/-- An await of a call is answered; the call is no longer held. -/
def resumeCall (p : Provider) (c : Nat) : CallState → Answer → Option Moved
  | .resolving i, .room id =>
    some { provider := ((p.setRoom i id).enterRoom i id).hold c .joining }
  | .resolving _, .raised f => some (p.joinFailed f)
  | .joining, .done => some { provider := p, result := some .returned }
  | .joining, .raised f => some (p.joinFailed f)
  | .leavingRoom, .done => some (p.dropReader c)
  | .leavingRoom, .raised f =>
    some (if f.suppressed then p.dropReader c else { provider := p, result := some .raised })
  | _, _ => none

/-- The caller of a call is cancelled. One that awaits a reader hands this on to the reader. -/
def cancelCall (p : Provider) (c : Nat) (call : Call) : Provider :=
  match call.state with
  | .awaitingReader r => if (p.outcomeOf r).isSome then
      { p with calls := Odict.set c { call with pending := true } p.calls }
    else p.cancelReader r
  | _ => { p with calls := Odict.set c { call with pending := true } p.calls }

/-! ## The reader -/

/-- The awaits of the handshake after the first: the default namespace, those of
    `DEFAULT_NAMESPACES`, and the one of the feed. -/
def handshakeMore : Nat := 7

/-- The head of the loop of `_run`. -/
def loopHead (p : Provider) (attempt : Nat) (now : Time) : ReaderState :=
  if p.stopping ∨ p.subs = [] then .finished none
  else if lastAttempt ≤ attempt then .finished (some .other)
  else if 0 < attempt then .sleeping (attempt + 1)
  else .ticket ⟨1, now⟩

/-- The end of a session. -/
def endSession (p : Provider) (s : Session) (outcome : Option Fault) (now : Time) :
    ReaderState × Option Signal :=
  match outcome with
  | none => (p.loopHead (s.attempts now) now, none)
  | some f => if f.retried then (p.loopHead (s.attempts now) now, some .error)
      else (.finished (some f), none)

/-- The loop of `_join_all_rooms`, until it awaits. -/
def joinRooms (s : Session) : List Nat → List Int → Provider → Provider × ReaderState
  | [], ids, p => (p, if ids = [] then .receiving s else .joining s)
  | i :: rest, ids, p =>
    match p.roomOf i with
    | some id => joinRooms s rest (ids ++ [id]) (p.enterRoom i id)
    | none => (p, .resolving s i rest ids)

/-- The session's `finally`, on the way out of its connection. -/
def leaveSession (p : Provider) (s : Session) (outcome : Option Fault) : Provider × ReaderState :=
  ({ p with ws := none }, .closing s outcome)

/-- What a room's updates are labelled with. -/
def label (p : Provider) (room : Int) : Option (String × Market) :=
  (p.byRoom.lookup room).bind fun i => p.objects[i]?.map fun sub => (sub.symbol, sub.market)

/-- `_handle_frame`, until it awaits. -/
def takeFrame (p : Provider) (s : Session) : Frame → (Provider × ReaderState) × Option Signal
  | .ping => ((p, .ponging s), none)
  | .other => ((p, .receiving s), none)
  | .update receivedAt payload =>
    match BidOffer.handleFrame p.label receivedAt payload with
    | .ok book => ((p, .receiving s), book.map .book)
    | .error _ => (p.leaveSession s (some .other), none)

/-- The await at which a reader stands is answered. -/
def resume (p : Provider) (r : Nat) (now : Time) :
    ReaderState → Answer → Option ((Provider × ReaderState) × Option Signal)
  | .created, .done => some ((p, p.loopHead 0 now), none)
  | .created, .raised .cancelled => some ((p, .finished (some .cancelled)), none)
  | .sleeping attempt, .done => some ((p, .ticket ⟨attempt, now⟩), none)
  | .sleeping _, .raised .cancelled => some ((p, .finished (some .cancelled)), none)
  | .ticket s, .done => some ((p, .connecting s), none)
  | .ticket s, .raised f =>
    some ((p, (p.endSession s (some f) now).1), (p.endSession s (some f) now).2)
  | .connecting s, .done => some ((p, .handshake s handshakeMore), none)
  | .connecting s, .raised f =>
    some ((p, (p.endSession s (some f) now).1), (p.endSession s (some f) now).2)
  | .handshake s (more + 1), .done => some ((p, .handshake s more), none)
  | .handshake s 0, .done =>
    some (joinRooms s (p.subs.map Prod.snd) [] { p with ws := some r, byRoom := [] }, none)
  | .handshake s _, .raised f => some ((p, .closing s (some f)), none)
  | .resolving s i rest ids, .room id =>
    some (joinRooms s rest (ids ++ [id]) ((p.setRoom i id).enterRoom i id), none)
  | .resolving s _ rest ids, .raised f =>
    if f = .symbolResolution then some (joinRooms s rest ids p, some .error)
    else some (p.leaveSession s (some f), none)
  | .joining s, .done => some ((p, .receiving s), none)
  | .joining s, .raised f => some (p.leaveSession s (some f), none)
  | .receiving s, .frame f =>
    if p.stopping then some (p.leaveSession s none, none) else some (p.takeFrame s f)
  | .receiving s, .ended => some (p.leaveSession s none, none)
  | .receiving s, .raised f => some (p.leaveSession s (some f), none)
  | .ponging s, .done => some ((p, .receiving s), none)
  | .ponging s, .raised f => some (p.leaveSession s (some f), none)
  | .closing s outcome, .done =>
    some ((p, (p.endSession s outcome now).1), (p.endSession s outcome now).2)
  | .closing s _, .raised f =>
    some ((p, (p.endSession s (some f) now).1), (p.endSession s (some f) now).2)
  | _, _ => none

/-! ## Steps -/

/-- A stretch of code between two awaits. -/
inductive Act where
  | subscribe (c : Nat) (symbol : String) (market : Market)
  | unsubscribe (c : Nat) (symbol : String)
  | stop (c : Nat)
  /-- The await of a call is answered. -/
  | answer (c : Nat) (a : Answer)
  /-- A call finds the reader done for which it waits. -/
  | wake (c : Nat)
  /-- The caller of a call is cancelled. -/
  | cancel (c : Nat)
  | reader (r : Nat) (now : Time) (a : Answer)

/-- The steps that are not the beginning of a call. -/
def Act.isResumption : Act → Bool
  | .answer _ _ | .wake _ | .cancel _ | .reader _ _ _ => true
  | .subscribe _ _ _ | .unsubscribe _ _ | .stop _ => false

/-- A reader is at its next await. -/
def settle (p : Provider) (r : Nat) (t : ReaderTask) (state : ReaderState) : Provider :=
  { p with tasks := p.tasks.set r { t with state, pending := false } }

/-- The await of a call is answered. -/
def answerCall (p : Provider) (c : Nat) (call : Call) (a : Answer) : Option Moved :=
  if call.admits a then
    { p with calls := Odict.pop c p.calls }.resumeCall c call.state a
  else none

/-- A call finds the reader done for which it waits; a caller that has been cancelled since has its
    cancellation suppressed. -/
def wakeCall (p : Provider) (c : Nat) (call : Call) : Option Moved :=
  match call.state with
  | .awaitingReader r => (p.outcomeOf r).map fun outcome =>
      { p with calls := Odict.pop c p.calls }.afterReader
        (if call.pending then some .cancelled else outcome)
  | _ => none

/-- The await of a reader is answered. -/
def readerStep (p : Provider) (r : Nat) (now : Time) (t : ReaderTask) (a : Answer) :
    Option Moved :=
  if t.admits a then
    (p.resume r now t.state a).map fun x =>
      { provider := x.1.1.settle r t x.1.2, signal := x.2 }
  else none

/-- One step, if it can happen. -/
def step (p : Provider) : Act → Option Moved
  | .subscribe c symbol market =>
    if (p.calls.lookup c).isSome then none else some (p.subscribe c symbol market)
  | .unsubscribe c symbol =>
    if (p.calls.lookup c).isSome then none else some (p.unsubscribe c symbol)
  | .stop c => if (p.calls.lookup c).isSome then none else some (p.stop c)
  | .answer c a => (p.calls.lookup c).bind fun call => p.answerCall c call a
  | .wake c => (p.calls.lookup c).bind fun call => p.wakeCall c call
  | .cancel c => (p.calls.lookup c).map fun call => { provider := p.cancelCall c call }
  | .reader r now a => p.tasks[r]?.bind fun t => p.readerStep r now t a

/-- The runs from a new provider whose steps all are as `ok` says. -/
inductive Runs (ok : Provider → Act → Prop) : Provider → Prop
  | start : Runs ok {}
  | step {p : Provider} {a : Act} {m : Moved} (run : Runs ok p) (hok : ok p a)
    (h : p.step a = some m) : Runs ok m.provider

/-- The steps one after the other, as far as they can happen. -/
def runActs : List Act → Provider → Option Provider
  | [], p => some p
  | a :: as, p => (p.step a).bind fun m => runActs as m.provider

/-- What is computed is a run. -/
theorem Runs.acts {p p' : Provider} (run : Runs (fun _ _ => True) p) {acts : List Act}
    (h : p.runActs acts = some p') : Runs (fun _ _ => True) p' := by
  induction acts generalizing p with
  | nil =>
    obtain rfl := Option.some.inj h
    exact run
  | cons a acts ih =>
    obtain ⟨m, hm, hrest⟩ := Option.bind_eq_some_iff.mp h
    exact ih (run.step trivial hm) hrest

/-! ## What a reader leaves alone -/

/-- Rooms and connections apart, nothing has changed. -/
structure Aside (p p' : Provider) : Prop where
  subs : p'.subs = p.subs
  tasks : p'.tasks = p.tasks
  reader : p'.reader = p.reader
  stopping : p'.stopping = p.stopping
  calls : p'.calls = p.calls

section Aside

variable {p p' p'' : Provider} {r : Nat} {s : Session} {now : Time} {state : ReaderState}
  {a : Answer} {x : (Provider × ReaderState) × Option Signal}

theorem Aside.refl (p : Provider) : Aside p p := ⟨rfl, rfl, rfl, rfl, rfl⟩

theorem Aside.trans (h : Aside p p') (h' : Aside p' p'') : Aside p p'' :=
  ⟨h'.subs.trans h.subs, h'.tasks.trans h.tasks, h'.reader.trans h.reader,
    h'.stopping.trans h.stopping, h'.calls.trans h.calls⟩

theorem joinRooms_aside (s : Session) (rest : List Nat) (ids : List Int) (p : Provider) :
    Aside p (joinRooms s rest ids p).1 := by
  induction rest generalizing ids p with
  | nil => exact Aside.refl p
  | cons i rest ih =>
    unfold joinRooms
    split
    · refine Aside.trans ?_ (ih _ _)
      exact ⟨rfl, rfl, rfl, rfl, rfl⟩
    · exact Aside.refl p

/-- Joining rooms ends no reader. -/
theorem joinRooms_goes_on (s : Session) (rest : List Nat) (ids : List Int) (p : Provider) :
    (joinRooms s rest ids p).2.outcome = none := by
  induction rest generalizing ids p with
  | nil =>
    show (if ids = [] then ReaderState.receiving s else .joining s).outcome = none
    split <;> rfl
  | cons i rest ih =>
    unfold joinRooms
    split
    · exact ih _ _
    · rfl

theorem takeFrame_aside (p : Provider) (s : Session) (f : Frame) :
    Aside p (p.takeFrame s f).1.1 ∧ (p.takeFrame s f).1.2.outcome = none := by
  unfold takeFrame
  split
  · exact ⟨Aside.refl p, rfl⟩
  · exact ⟨Aside.refl p, rfl⟩
  · split
    · exact ⟨Aside.refl p, rfl⟩
    · exact ⟨⟨rfl, rfl, rfl, rfl, rfl⟩, rfl⟩

/-- What a stretch of a reader comes to: it is at its next await, begins the loop, is cancelled
    where nothing can stop that, ends a session or leaves its connection, joins rooms, or has taken a
    frame. -/
inductive Resumes (p : Provider) (r : Nat) (now : Time) :
    ReaderState → Answer → (Provider × ReaderState) × Option Signal → Prop
  | next {state state' : ReaderState} {a : Answer} (hfatal : state.fatal now a = false)
    (hgoes : state'.outcome = none) (hheld : state'.held = []) :
    Resumes p r now state a ((p, state'), none)
  | begins : Resumes p r now .created .done ((p, p.loopHead 0 now), none)
  | dies {state : ReaderState} (hfatal : state.fatal now (.raised .cancelled) = true) :
    Resumes p r now state (.raised .cancelled) ((p, .finished (some .cancelled)), none)
  | ends {state : ReaderState} {a : Answer} (s : Session) (outcome : Option Fault)
    (hfatal : state.fatal now a = ((outcome.any fun f => !f.retried) || s.exhausted now)) :
    Resumes p r now state a ((p, (p.endSession s outcome now).1), (p.endSession s outcome now).2)
  | leaves {state : ReaderState} {a : Answer} (s : Session) (outcome : Option Fault)
    (hfatal : state.fatal now a = false) : Resumes p r now state a (p.leaveSession s outcome, none)
  | joins (s : Session) : Resumes p r now (.handshake s 0) .done
      (joinRooms s (p.subs.map Prod.snd) [] { p with ws := some r, byRoom := [] }, none)
  | joinsNext (s : Session) (i : Nat) (rest : List Nat) (ids : List Int) (id : Int) :
    Resumes p r now (.resolving s i rest ids) (.room id)
      (joinRooms s rest (ids ++ [id]) ((p.setRoom i id).enterRoom i id), none)
  | skips (s : Session) (i : Nat) (rest : List Nat) (ids : List Int) (f : Fault) :
    Resumes p r now (.resolving s i rest ids) (.raised f) (joinRooms s rest ids p, some .error)
  | frames (s : Session) (f : Frame) :
    Resumes p r now (.receiving s) (.frame f) (p.takeFrame s f)

theorem resume_cases (h : p.resume r now state a = some x) : Resumes p r now state a x := by
  unfold resume at h
  split at h
  all_goals try split at h
  all_goals first
    | cases h
      done
    | obtain rfl := Option.some.inj h
  all_goals first
    | exact .next rfl rfl rfl
    | exact .leaves _ _ rfl
    | exact .ends _ _ rfl
    | exact .dies rfl
    | exact .begins
    | exact .joins _
    | exact .joinsNext _ _ _ _ _
    | exact .skips _ _ _ _ _
    | exact .frames _ _

theorem resume_aside (h : p.resume r now state a = some x) : Aside p x.1.1 := by
  cases resume_cases h with
  | joins s =>
    refine Aside.trans ?_ (joinRooms_aside _ _ _ _)
    exact ⟨rfl, rfl, rfl, rfl, rfl⟩
  | joinsNext s i rest ids id =>
    refine Aside.trans ?_ (joinRooms_aside _ _ _ _)
    exact ⟨rfl, rfl, rfl, rfl, rfl⟩
  | skips s i rest ids f => exact joinRooms_aside _ _ _ _
  | frames s f => exact (takeFrame_aside p s f).1
  | _ => exact ⟨rfl, rfl, rfl, rfl, rfl⟩

end Aside

end Provider

end ExecutionEngine.OrderBooks
