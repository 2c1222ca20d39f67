/-
  What a subscriber of the order stream receives.

  `Follows` is the invariant of a run whose queue never overflows: the events dealt with,
  what is left of the replay and the queue make up the events that are due. It holds
  where `connect` leaves off (`follows_connect`), every step keeps it (`Follows.step`)
  and so does a run (`CalmRun.follows`). A subscriber can always catch up
  (`CalmRun.drain`), and one that has was sent exactly what is due and passes its filter.
-/
import ExecutionEngine.Events.Stream

namespace ExecutionEngine

namespace EventHub

variable {H H' : EventHub} {id : Nat}

theorem Elsewhere.nextSeq (h : Elsewhere id H H') : H'.nextSeq = H.nextSeq := by
  cases h <;> rfl

theorem Elsewhere.ringBufferSize (h : Elsewhere id H H') : H'.ringBufferSize = H.ringBufferSize := by
  cases h <;> rfl

/-- Everything that can have happened to the hub of one process before `id` subscribes, with the
    log of what it has published. -/
inductive HubHistory (ringBufferSize subscriberQueueSize id : Nat) :
    List OrderUpdateEvent → EventHub → Prop where
  | new : HubHistory ringBufferSize subscriberQueueSize id [] { ringBufferSize, subscriberQueueSize }
  | publish {log : List OrderUpdateEvent} {H : EventHub}
    (h : HubHistory ringBufferSize subscriberQueueSize id log H) (p : Publication) (now : Time) :
    HubHistory ringBufferSize subscriberQueueSize id (log ++ [H.stamp p now]) (H.publish p now)
  | aside {log : List OrderUpdateEvent} {H H' : EventHub}
    (h : HubHistory ringBufferSize subscriberQueueSize id log H) (ha : Elsewhere id H H') :
    HubHistory ringBufferSize subscriberQueueSize id log H'

theorem HubHistory.logged {ring queue : Nat} {log : List OrderUpdateEvent}
    (h : HubHistory ring queue id log H) : Logged log H := by
  induction h with
  | new => exact logged_new ring queue
  | publish _ p now ih => exact logged_publish ih p now
  | aside _ ha ih => exact ha.logged ih

theorem HubHistory.ringBufferSize {ring queue : Nat} {log : List OrderUpdateEvent}
    (h : HubHistory ring queue id log H) : H.ringBufferSize = ring := by
  induction h with
  | new => rfl
  | publish _ p now ih => exact ih
  | aside _ ha ih => exact ha.ringBufferSize.trans ih

theorem HubHistory.absent {ring queue : Nat} {log : List OrderUpdateEvent}
    (h : HubHistory ring queue id log H) : H.subscription id = none := by
  induction h with
  | new => rfl
  | publish _ p now ih => rw [subscription_publish, ih, Option.map_none]
  | aside _ ha ih => exact ha.subscription.trans ih

end EventHub

namespace Streaming

open EventHub

variable {args : StreamArgs} {id : Nat} {seeded : List String} {base : Nat} {gap : Bool}
  {due : List OrderUpdateEvent} {w w' : Streaming}

/-! ## The invariant -/

/-- The events that are due, `base` being the last number published before the subscription. -/
structure Follows (args : StreamArgs) (id : Nat) (seeded : List String) (base : Nat) (gap : Bool)
    (due : List OrderUpdateEvent) (w : Streaming) : Prop where
  parts : ∃ maxsize dealt queue,
    w.hub.subscription id = some { maxsize, queue := queue.map .event } ∧
    args.pass seeded dealt = (eventsOf w.frames, w.seeded) ∧
    dealt ++ (w.stage.rest ++ queue) = due ∧ ∀ e ∈ queue, base < e.seq
  top : w.stage.maxReplayed ≤ base
  replayed : ∀ e ∈ w.stage.rest, e.seq ≤ base
  next : base < w.hub.nextSeq
  advised : Advised args.afterSeq gap w.stage w.frames

/-- An event run through the filter is one more event dealt with. -/
theorem pass_emit {dealt : List OrderUpdateEvent} (e : OrderUpdateEvent)
    (h : args.pass seeded dealt = (eventsOf w.frames, w.seeded)) :
    args.pass seeded (dealt ++ [e]) =
      (eventsOf (w.emit args e).frames, (w.emit args e).seeded) := by
  rw [args.pass_append, h]
  cases hm : args.eventMatches w.seeded e with
  | mk hit seeded' =>
    cases hit <;> simp [StreamArgs.pass, emit, hm, eventsOf]

theorem advised_emit {stage : StreamStage} (e : OrderUpdateEvent)
    (h : Advised args.afterSeq gap w.stage w.frames) (hstage : w.stage.isAdvising = false)
    (hstage' : stage.isAdvising = false) :
    Advised args.afterSeq gap stage (w.emit args e).frames := by
  have hsnoc := h.snoc hstage hstage' (f := .event e) fun n hn => by cases hn
  simp only [emit]
  split
  · exact hsnoc
  · unfold Advised at h ⊢
    rw [hstage] at h
    rw [hstage']
    exact h

/-- Where `connect` leaves off: all of the replay is due. -/
theorem follows_connect {H : EventHub} {log : List OrderUpdateEvent} (hl : Logged log H)
    (hnew : H.subscription id = none) :
    Follows args id seeded log.length (H.replay args.afterSeq).2 (H.replay args.afterSeq).1
      (connect args id seeded H) := by
  have hreplay : ∀ e ∈ (H.replay args.afterSeq).1, e.seq ≤ log.length := by
    intro e he
    have hring : e ∈ H.ring := by
      unfold replay at he
      split at he
      · cases he
      · exact (List.mem_filter.mp he).1
    rw [hl.ring] at hring
    exact (hl.numbered.place (List.mem_of_mem_drop hring)).2.1
  have hrest : (connect args id seeded H).stage.rest = (H.replay args.afterSeq).1 := by
    unfold connect
    cases hg : (H.replay args.afterSeq).2 <;> simp [hg, StreamStage.rest]
  refine ⟨⟨H.subscriberQueueSize, [], [], subscription_subscribe hnew, rfl, ?_, by simp⟩, ?_,
    by rwa [hrest], ?_, ?_⟩
  · rw [hrest, List.nil_append, List.append_nil]
  · unfold connect
    cases hg : (H.replay args.afterSeq).2 <;> simp [hg, StreamStage.maxReplayed]
  · show log.length < H.nextSeq
    rw [hl.next]
    omega
  · unfold connect
    cases hg : (H.replay args.afterSeq).2 <;> simp [hg, Advised, StreamStage.isAdvising]

/-! ## One step -/

/-- A publication into a queue with room is one more event due. -/
theorem Follows.publish (h : Follows args id seeded base gap due w) (hroom : w.Room id)
    (p : Publication) (now : Time) :
    Follows args id seeded base gap (due ++ [w.hub.stamp p now])
      { w with hub := w.hub.publish p now } := by
  obtain ⟨maxsize, dealt, queue, hsub, hpass, hdue, hqueue⟩ := h.parts
  refine ⟨⟨maxsize, dealt, queue ++ [w.hub.stamp p now], ?_, hpass, ?_, ?_⟩, h.top, h.replayed,
    ?_, h.advised⟩
  · rw [subscription_publish, hsub, Option.map_some, Subscription.offer_room (hroom _ hsub)]
    simp
  · rw [← hdue]
    simp
  · intro e he
    rcases List.mem_append.mp he with he | he
    · exact hqueue e he
    · rw [List.mem_singleton.mp he]
      exact h.next
  · exact Nat.lt_succ_of_lt h.next

theorem Follows.aside {H : EventHub} (h : Follows args id seeded base gap due w)
    (ha : Elsewhere id w.hub H) : Follows args id seeded base gap due { w with hub := H } := by
  obtain ⟨maxsize, dealt, queue, hsub, hrest⟩ := h.parts
  have hsub' : H.subscription id = some { maxsize, queue := queue.map .event } :=
    ha.subscription.trans hsub
  have hnext : base < H.nextSeq := by
    rw [ha.nextSeq]
    exact h.next
  exact ⟨⟨maxsize, dealt, queue, hsub', hrest⟩, h.top, h.replayed, hnext, h.advised⟩

/-- The wait of the live loop timed out. -/
theorem Follows.idle {m : Nat} (h : Follows args id seeded base gap due w)
    (hstage : w.stage = .live m) :
    Follows args id seeded base gap due { w with frames := w.frames ++ [.keepAlive] } := by
  have hlive : w.stage.isAdvising = false := by rw [hstage]; rfl
  have hevents : eventsOf (w.frames ++ [.keepAlive]) = eventsOf w.frames := by simp [eventsOf]
  obtain ⟨maxsize, dealt, queue, hsub, hpass, hrest⟩ := h.parts
  refine ⟨⟨maxsize, dealt, queue, hsub, ?_, hrest⟩, h.top, h.replayed, h.next,
    h.advised.snoc hlive hlive fun n hn => by cases hn⟩
  rw [hpass, hevents]

/-- The generator runs on: what is due stays what it was. -/
theorem Follows.advance (h : Follows args id seeded base gap due w)
    (hadv : w.advance args id = some w') : Follows args id seeded base gap due w' := by
  obtain ⟨maxsize, dealt, queue, hsub, hpass, hdue, hqueue⟩ := h.parts
  have htop := h.top
  have hreplayed := h.replayed
  have hadvised := h.advised
  cases hstage : w.stage with
  | advising replay =>
    rw [hstage] at hdue hreplayed hadvised
    simp only [Streaming.advance, hstage, Option.some.injEq] at hadv
    subst hadv
    have hfirst : gap = true ∧ w.frames = [] := by simpa [Advised, StreamStage.isAdvising] using hadvised
    refine ⟨⟨maxsize, dealt, queue, hsub, ?_, hdue, hqueue⟩, Nat.zero_le _, hreplayed, h.next, ?_⟩
    · rw [hpass, hfirst.2]
      rfl
    · simp [Advised, StreamStage.isAdvising, hfirst.1, hfirst.2]
  | replaying rest m =>
    rw [hstage] at hdue hreplayed htop
    have hnot : w.stage.isAdvising = false := by rw [hstage]; rfl
    cases rest with
    | nil =>
      simp only [Streaming.advance, hstage, Option.some.injEq] at hadv
      subst hadv
      have hadvised' : Advised args.afterSeq gap (.live m) w.frames := by
        rw [hstage] at hadvised
        exact hadvised
      exact ⟨⟨maxsize, dealt, queue, hsub, hpass, hdue, hqueue⟩, htop, fun e he => (by cases he),
        h.next, hadvised'⟩
    | cons e rest =>
      simp only [Streaming.advance, hstage, Option.some.injEq] at hadv
      subst hadv
      refine ⟨⟨maxsize, dealt ++ [e], queue, hsub, pass_emit e hpass, ?_, hqueue⟩, ?_, ?_, h.next,
        advised_emit e hadvised hnot rfl⟩
      · rw [← hdue]
        simp [StreamStage.rest]
      · exact Nat.max_le.mpr ⟨htop, hreplayed e List.mem_cons_self⟩
      · exact fun x hx => hreplayed x (List.mem_cons_of_mem e hx)
  | live m =>
    rw [hstage] at hdue htop hreplayed hadvised
    cases queue with
    | nil => simp [Streaming.advance, hstage, hsub] at hadv
    | cons e queue =>
      -- The dedupe branch is not taken: what is in the queue was published after the replay.
      have hnew : ¬ e.seq ≤ m := by
        have hlow := hqueue e List.mem_cons_self
        simp only [StreamStage.maxReplayed] at htop
        omega
      simp only [Streaming.advance, hstage, hsub, List.map_cons, handle, if_neg hnew,
        Option.some.injEq] at hadv
      subst hadv
      refine ⟨⟨maxsize, dealt ++ [e], queue, ?_, pass_emit e hpass, ?_, ?_⟩, ?_, ?_, h.next,
        advised_emit e hadvised rfl rfl⟩
      · exact subscription_setSubscription hsub
      · rw [← hdue]
        simp [emit, StreamStage.rest]
      · exact fun x hx => hqueue x (List.mem_cons_of_mem e hx)
      · exact htop
      · exact hreplayed

theorem Follows.step {es : List OrderUpdateEvent} (h : Follows args id seeded base gap due w)
    (hroom : es ≠ [] → w.Room id) (hs : Step args id w es w') :
    Follows args id seeded base gap (due ++ es) w' := by
  cases hs with
  | publish p now => exact h.publish (hroom (List.cons_ne_nil _ _)) p now
  | aside ha =>
    rw [List.append_nil]
    exact h.aside ha
  | advance hadv =>
    rw [List.append_nil]
    exact h.advance hadv
  | idle hstage =>
    rw [List.append_nil]
    exact h.idle hstage

/-! ## A run -/

theorem CalmRun.follows {w₀ : Streaming} {later : List OrderUpdateEvent}
    (run : CalmRun args id w₀ later w) (h : Follows args id seeded base gap due w₀) :
    Follows args id seeded base gap (due ++ later) w := by
  induction run with
  | refl => rwa [List.append_nil]
  | step _ hroom hs ih =>
    rw [← List.append_assoc]
    exact ih.step hroom hs

theorem CalmRun.trans {w₀ : Streaming} {es es' : List OrderUpdateEvent}
    (h : CalmRun args id w₀ es w) (h' : CalmRun args id w es' w') :
    CalmRun args id w₀ (es ++ es') w' := by
  induction h' with
  | refl => rwa [List.append_nil]
  | step _ hroom hs ih =>
    rw [← List.append_assoc]
    exact ih.step hroom hs

/-! ## Catching up -/

/-- How often the generator can run on before it waits. -/
def remaining (id : Nat) (w : Streaming) : Nat :=
  (match w.stage with
    | .advising replay => replay.length + 2
    | .replaying rest _ => rest.length + 1
    | .live _ => 0) + ((w.hub.subscription id).elim 0 fun s => s.queue.length)

/-- A subscriber that has not caught up can run on, with less left to do. -/
theorem Follows.progress (h : Follows args id seeded base gap due w) :
    CaughtUp id w ∨ ∃ w', w.advance args id = some w' ∧ remaining id w' < remaining id w := by
  obtain ⟨maxsize, dealt, queue, hsub, -⟩ := h.parts
  cases hstage : w.stage with
  | advising replay =>
    exact .inr ⟨_, by simp only [Streaming.advance, hstage]; rfl, by simp [remaining, hstage]⟩
  | replaying rest m =>
    cases rest with
    | nil => exact .inr ⟨_, by simp only [Streaming.advance, hstage]; rfl, by simp [remaining, hstage]⟩
    | cons e rest =>
      refine .inr ⟨_, by simp only [Streaming.advance, hstage]; rfl, ?_⟩
      simp [remaining, hstage, emit]
  | live m =>
    cases queue with
    | nil =>
      refine .inl ⟨⟨m, hstage⟩, fun s hs => ?_⟩
      rw [hsub] at hs
      rw [← Option.some.inj hs, List.map_nil]
    | cons e queue =>
      refine .inr ⟨_, by simp only [Streaming.advance, hstage, hsub, List.map_cons]; rfl, ?_⟩
      simp only [handle]
      split <;> simp [remaining, emit, hstage, hsub, subscription_setSubscription hsub]

/-- Without further publications the subscriber catches up. -/
theorem Follows.drain (h : Follows args id seeded base gap due w) :
    ∃ w', CalmRun args id w [] w' ∧ CaughtUp id w' := by
  induction hn : remaining id w using Nat.strong_induction_on generalizing w with
  | _ n ih =>
    rcases h.progress with hdone | ⟨w', hadv, hless⟩
    · exact ⟨w, .refl, hdone⟩
    · obtain ⟨w'', hrun, hdone⟩ := ih _ (hn ▸ hless) (h.advance hadv) rfl
      have hfirst : CalmRun args id w ([] ++ []) w' := CalmRun.refl.step (fun h => absurd rfl h) (.advance hadv)
      exact ⟨w'', hfirst.trans hrun, hdone⟩

/-! ## What was sent -/

/-- What was sent so far is the beginning of what is due and passes the filter. -/
theorem Follows.sent (h : Follows args id seeded base gap due w) :
    eventsOf w.frames <+: args.wanted seeded due := by
  obtain ⟨maxsize, dealt, queue, -, hpass, hdue, -⟩ := h.parts
  rw [← hdue, StreamArgs.wanted, args.pass_append, hpass]
  exact List.prefix_append _ _

/-- Once the subscriber has caught up it is all of it. -/
theorem Follows.sent_all (h : Follows args id seeded base gap due w) (hdone : CaughtUp id w) :
    eventsOf w.frames = args.wanted seeded due := by
  obtain ⟨maxsize, dealt, queue, hsub, hpass, hdue, -⟩ := h.parts
  obtain ⟨⟨m, hstage⟩, hempty⟩ := hdone
  have hqueue : queue = [] := by simpa using hempty _ hsub
  rw [hstage, hqueue] at hdue
  have hdealt : dealt = due := by simpa [StreamStage.rest] using hdue
  rw [StreamArgs.wanted, ← hdealt, hpass]

/-! ## Delivery within one process -/

/-- Running on changes the hub in the subscriber's own queue at most. -/
theorem advance_hub (hadv : w.advance args id = some w') :
    w'.hub = w.hub ∨ ∃ s, w'.hub = w.hub.setSubscription id s := by
  cases hstage : w.stage with
  | advising replay =>
    simp only [Streaming.advance, hstage, Option.some.injEq] at hadv
    exact .inl (by rw [← hadv])
  | replaying rest m =>
    cases rest with
    | nil =>
      simp only [Streaming.advance, hstage, Option.some.injEq] at hadv
      exact .inl (by rw [← hadv])
    | cons e rest =>
      simp only [Streaming.advance, hstage, Option.some.injEq] at hadv
      exact .inl (by rw [← hadv]; rfl)
  | live m =>
    simp only [Streaming.advance, hstage] at hadv
    cases hsub : w.hub.subscription id with
    | none => simp [hsub] at hadv
    | some s =>
      cases hqueue : s.queue with
      | nil => simp [hsub, hqueue] at hadv
      | cons item queue =>
        simp only [hsub, hqueue, Option.some.injEq] at hadv
        subst hadv
        refine .inr ?_
        cases item with
        | gapMarker => exact ⟨_, rfl⟩
        | event e =>
          refine ⟨{ s with queue := queue }, ?_⟩
          simp only [handle]
          split <;> rfl

theorem Step.logged {log es : List OrderUpdateEvent} (hs : Step args id w es w')
    (hl : Logged log w.hub) : Logged (log ++ es) w'.hub := by
  cases hs with
  | publish p now => exact logged_publish hl p now
  | aside ha =>
    rw [List.append_nil]
    exact ha.logged hl
  | advance hadv =>
    rw [List.append_nil]
    rcases advance_hub hadv with hub | ⟨s, hub⟩
    · rwa [hub]
    · rw [hub]
      exact ⟨hl.ring, hl.next, hl.numbered⟩
  | idle => rwa [List.append_nil]

theorem CalmRun.logged {w₀ : Streaming} {log later : List OrderUpdateEvent}
    (run : CalmRun args id w₀ later w) (hl : Logged log w₀.hub) :
    Logged (log ++ later) w.hub := by
  induction run with
  | refl => rwa [List.append_nil]
  | step _ _ hs ih =>
    rw [← List.append_assoc]
    exact hs.logged ih

/-- What a subscriber with cursor `c` is owed: the matching events above the cursor, all of them
    unless some had fallen off the ring when it connected. -/
def owed (ring c : Nat) (cid : Option String) (log later : List OrderUpdateEvent) :
    List OrderUpdateEvent :=
  let available := if ∃ e ∈ Ring.evicted ring log, c < e.seq then Ring.window ring log else log
  (available ++ later).filter fun e => c < e.seq ∧ ∀ x ∈ cid, e.clientOrderId = x

/-- The replay followed by what came later is everything above the cursor that is available. -/
theorem replay_later {H : EventHub} {log later : List OrderUpdateEvent} (hl : Logged log H)
    (hall : Ring.Numbered OrderUpdateEvent.seq (log ++ later)) (hring : 1 ≤ H.ringBufferSize)
    {c : Nat} (hc : 0 < c) (hlast : c ≤ log.length) :
    (H.replay c).1 ++ later =
      ((if ∃ e ∈ Ring.evicted H.ringBufferSize log, c < e.seq
        then Ring.window H.ringBufferSize log else log) ++ later).filter fun e => c < e.seq := by
  have hafter (k : Nat) (hk : k ≤ log.length) :
      (log.drop k ++ later).filter (fun e => c < e.seq) = log.drop (max c k) ++ later := by
    rw [← List.drop_append_of_le_length hk, hall.above c k,
      List.drop_append_of_le_length (Nat.max_le.mpr ⟨hlast, hk⟩)]
  rw [(replay_logged hl hring hc).1]
  split
  · exact (hafter _ (Nat.sub_le ..)).symm
  · rename_i hkept
    have hreach := Ring.reaches_of_kept hl.numbered hkept
    have hzero := hafter 0 (Nat.zero_le _)
    rw [List.drop_zero, Nat.max_eq_left (Nat.zero_le c)] at hzero
    rw [hzero, Nat.max_eq_left hreach]

/-- Within one process, for a cursor the process has reached: the event frames come in the order
    of their numbers and are what is owed, the advisory is sent exactly if something owed has
    fallen off the ring, and the subscriber can always catch up. -/
theorem order_stream_exact {ring queue id : Nat} (hring : 1 ≤ ring)
    {log later : List OrderUpdateEvent} {H : EventHub} (hist : HubHistory ring queue id log H)
    {c : Nat} (hc : 0 < c) (hlast : ∃ e ∈ log, c ≤ e.seq) (cid : Option String)
    (seeded : List String) {w : Streaming}
    (run : CalmRun { afterSeq := c, clientOrderId := cid } id
      (connect { afterSeq := c, clientOrderId := cid } id seeded H) later w) :
    (eventsOf w.frames).Pairwise (fun a b => a.seq < b.seq) ∧
    eventsOf w.frames <+: owed ring c cid log later ∧
    (CaughtUp id w → eventsOf w.frames = owed ring c cid log later) ∧
    (w.stage.isAdvising = false →
      (.resyncRequired c ∈ w.frames ↔ ∃ e ∈ Ring.evicted ring log, c < e.seq)) ∧
    ∃ w', CalmRun { afterSeq := c, clientOrderId := cid } id w [] w' ∧ CaughtUp id w' := by
  have hl := hist.logged
  have hsize := hist.ringBufferSize
  have hreach : c ≤ log.length := by
    obtain ⟨e, he, hle⟩ := hlast
    exact hle.trans (hl.numbered.place he).2.1
  have hall : Ring.Numbered OrderUpdateEvent.seq (log ++ later) := by
    have hsub : Logged log (connect { afterSeq := c, clientOrderId := cid } id seeded H).hub :=
      ⟨hl.ring, hl.next, hl.numbered⟩
    exact (run.logged hsub).numbered
  have hfollows := run.follows (follows_connect hl hist.absent)
  have howed : StreamArgs.wanted { afterSeq := c, clientOrderId := cid } seeded
      ((H.replay c).1 ++ later) = owed ring c cid log later := by
    rw [StreamArgs.wanted, StreamArgs.pass_cid rfl,
      replay_later hl hall (by rwa [hsize]) hc hreach, List.filter_filter, owed, hsize]
    refine List.filter_congr fun e _ => ?_
    cases cid <;> simp [and_comm]
  have hgap := (replay_logged hl (by rwa [hsize]) hc).2
  rw [hsize] at hgap
  refine ⟨?_, howed ▸ hfollows.sent, fun hdone => (hfollows.sent_all hdone).trans howed, ?_,
    hfollows.drain⟩
  · have hsub : (eventsOf w.frames).Sublist (log ++ later) := by
      refine ((howed ▸ hfollows.sent).sublist).trans ?_
      refine List.filter_sublist.trans (List.Sublist.append ?_ (List.Sublist.refl later))
      split
      · exact List.drop_sublist _ _
      · exact List.Sublist.refl log
    exact hall.increasing.sublist hsub
  · intro hstage
    have hadvised := hfollows.advised
    rw [Advised, hstage] at hadvised
    rw [← hgap]
    cases hg : (H.replay c).2 with
    | true =>
      simp only [hg, Bool.false_eq_true, if_false, if_true] at hadvised
      exact iff_of_true (List.mem_of_mem_head? hadvised) rfl
    | false =>
      simp only [hg, Bool.false_eq_true, if_false] at hadvised
      exact iff_of_false (hadvised c) (by simp)

/-- A hub with a ring of 2 that has published twice. -/
def sampleHub : EventHub :=
  ({ ringBufferSize := 2, subscriberQueueSize := 8 : EventHub}.publish
    { clientOrderId := "a", engineState := .pendingNew } 0).publish
    { clientOrderId := "b", engineState := .pendingNew } 1

/-- The subscriber has seen the first event; a third is published while the second is replayed. -/
theorem sample_stream_exact : ∃ log later w, CaughtUp 0 w ∧
    (eventsOf w.frames).map OrderUpdateEvent.seq = [2, 3] ∧
    eventsOf w.frames = owed 2 1 none log later := by
  have hist : HubHistory 2 8 0 _ sampleHub :=
    (HubHistory.new.publish { clientOrderId := "a", engineState := .pendingNew } 0).publish
      { clientOrderId := "b", engineState := .pendingNew } 1
  have start : CalmRun { afterSeq := ((1 : Nat) : Int) } 0
      (connect { afterSeq := ((1 : Nat) : Int) } 0 [] sampleHub) [] _ := .refl
  have replayed := start.step (fun h => absurd rfl h) (.advance rfl)
  have published := replayed.step (fun _ s hs => by cases hs; decide)
    (.publish _ { clientOrderId := "a", engineState := .new } 2)
  have waiting := published.step (fun h => absurd rfl h) (.advance rfl)
  have received := waiting.step (fun h => absurd rfl h) (.advance rfl)
  have hexact := order_stream_exact (by decide) hist (by decide) ⟨_, List.mem_cons_self, by decide⟩
    none [] received
  refine ⟨_, _, _, ?done, ?_, hexact.2.2.1 ?done⟩
  · exact ⟨⟨2, rfl⟩, fun s hs => by cases hs; rfl⟩
  · decide

end Streaming

end ExecutionEngine
