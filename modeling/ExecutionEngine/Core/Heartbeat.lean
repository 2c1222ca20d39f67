/-
  The heartbeats of the broker sessions, beside everything that asks their breakers.

  One loop for each started adapter probes its session and feeds its breaker; whatever else the
  process runs only looks at breakers. `heartbeat_trips`: at every moment of every
  interleaving a breaker holds the streak of its loop's outcomes, whoever asks is told so, and the
  hook is awaited once for each outage, when the streak reaches the limit. A probe that raises is
  no outcome, though the adapters say that none does: the Liberator probe raises on a body that is
  no object, and the breaker stays as it was (`probed_raises_iff`).
-/
import ExecutionEngine.Adapters.Envelopes
import ExecutionEngine.Adapters.Session
import ExecutionEngine.Async.Rely
import ExecutionEngine.Async.Translate
import ExecutionEngine.Core.Gates

namespace ExecutionEngine.Heartbeat

open Async Prog
open Streak (streak outages)
open SessionCircuitBreaker (fed limit)

/-! ## What a loop awaits -/

/-- The steps of a loop, a look at a breaker, and whatever else is awaited. -/
inductive SessionOp where
  /-- `self._transport.get_json(_HEARTBEAT_PATH)`. -/
  | getJson (a : AdapterId)
  /-- `self.last_heartbeat_ok = ok`. -/
  | noteHeartbeat (a : AdapterId) (ok : Bool)
  /-- `record_success` and `record_failure`. -/
  | record (a : AdapterId) (ok : Bool)
  | onTrip (a : AdapterId)
  | sleep (a : AdapterId)
  | elsewhere (op : EngineOp)

@[reducible] def SessionOp.Res : SessionOp → Type
  | .getJson _ => Json
  | .elsewhere op => op.Res
  | _ => Unit

@[reducible] def sessionSig : Sig where
  Op := SessionOp
  Res := SessionOp.Res
  Exn := Exn

/-- What an adapter keeps of its session. -/
structure Session where
  breaker : SessionCircuitBreaker
  lastHeartbeatOk : Option Bool := none

/-- Whoever asks a breaker is told what it holds. -/
def Sees (s : AdapterId → Session) : (op : EngineOp) → engineSig.Answer op → Prop
  | .ext (.breakerOpen a), r => r = .ok (s a).breaker.isOpen
  | _, _ => True

/-- The loops' own steps happen; the rest is answered as it likes. -/
def sessions : Sem sessionSig (AdapterId → Session) where
  step s op := match op with
    | .getJson _ => fun _ s' => s' = s
    | .noteHeartbeat a ok => fun r s' =>
      r = .ok () ∧ s' = Function.update s a { s a with lastHeartbeatOk := some ok }
    | .record a ok => fun r s' =>
      r = .ok () ∧ s' = Function.update s a { s a with breaker := (s a).breaker.record ok }
    | .onTrip _ => fun _ s' => s' = s
    | .sleep _ => fun r s' => r = .ok () ∧ s' = s
    | .elsewhere op => fun r s' => Sees s op r ∧ s' = s

/-! ## The probe -/

/-- What the probe makes of a body: `body.get` wants an object, and Streaming Pro asks first. -/
def healthy : AdapterId → Json → Except Exn Bool
  | .liberator, .obj body =>
    .ok (Json.lookup body "status" matches .str "healthy" &&
      StreamingPro.truthy (Json.lookup body "auth_token_available"))
  | .liberator, _ => .error (.other "AttributeError")
  | .streamingPro, .obj body =>
    .ok (StreamingPro.truthy (Json.lookup body "alive") ||
      Json.lookup body "status" matches .str "alive")
  | .streamingPro, _ => .ok false
  | .sim, _ => .ok true

/-- `heartbeat`. -/
def heartbeat (a : AdapterId) : Prog sessionSig Bool := do
  let answer ← tryExcept ((perform (S := sessionSig) (.getJson a)).bind fun body => .ret (some body))
    fun e => if e.isTransport then .ret none else .raise e
  match answer with
  | none =>
    perform (S := sessionSig) (.noteHeartbeat a false)
    return false
  | some body =>
    match healthy a body with
    | .error e => .raise e
    | .ok ok =>
      perform (S := sessionSig) (.noteHeartbeat a ok)
      return ok

/-- `adapter.breaker.state is BreakerState.OPEN`. -/
def isOpen (a : AdapterId) : Prog sessionSig Bool :=
  perform (S := sessionSig) (.elsewhere (.ext (.breakerOpen a)))

/-- `heartbeat_pass`. -/
def heartbeatPass (a : AdapterId) : Prog sessionSig Bool := do
  let wasOpen ← isOpen a
  let ok ← heartbeat a
  if ok then
    perform (S := sessionSig) (.record a true)
    return true
  perform (S := sessionSig) (.record a false)
  if (← isOpen a) && !wasOpen then
    tryExcept (perform (S := sessionSig) (.onTrip a)) fun _ => .ret ()
  return false

/-- `heartbeat_loop`. -/
def heartbeatLoop (a : AdapterId) : Nat → Prog sessionSig Unit
  | 0 => .stuck
  | fuel + 1 => do
    tryExcept ((heartbeatPass a).bind fun _ => .ret ()) fun _ => .ret ()
    perform (S := sessionSig) (.sleep a)
    heartbeatLoop a fuel

/-- What the engine awaits. -/
def outside : Renaming engineSig sessionSig where
  op := .elsewhere
  answer := fun _ => id
  exn := id

/-! ## What a history says -/

abbrev Beats := List (Event sessionSig)

/-- What the probe comes to. -/
def probed (a : AdapterId) : Except Exn Json → Except Exn Bool
  | .ok body => healthy a body
  | .error e => if e.isTransport then .ok false else .error e

/-- The probes are said never to raise; a body that is no object makes the Liberator one do so. -/
theorem probed_raises_iff {a : AdapterId} {r : Except Exn Json} :
    (probed a r).toOption = none ↔
      (a = .liberator ∧ ∃ body, r = .ok body ∧ body.asDict = none) ∨
        ∃ e, r = .error e ∧ e.isTransport = false := by
  cases r with
  | error e => cases he : e.isTransport <;> simp [probed, he, Except.toOption]
  | ok body => cases a <;> cases body <;> simp [probed, healthy, Json.asDict, Except.toOption]

def outcomeOf (a : AdapterId) : Event sessionSig → Option Bool
  | ⟨.getJson b, r⟩ => if b = a then (probed a r).toOption else none
  | _ => none

def notedBy (a : AdapterId) : SessionOp → Option Bool
  | .noteHeartbeat b ok => if b = a then some ok else none
  | _ => none

def recordedBy (a : AdapterId) : SessionOp → Option Bool
  | .record b ok => if b = a then some ok else none
  | _ => none

def trippedBy (a : AdapterId) : SessionOp → Bool
  | .onTrip b => b = a
  | _ => false

/-- The outcomes of the probes of a session, oldest first. -/
def outcomes (a : AdapterId) (h : Beats) : List Bool := h.filterMap (outcomeOf a)

/-- What `last_heartbeat_ok` has been set to. -/
def noted (a : AdapterId) (h : Beats) : List Bool := h.filterMap fun e => notedBy a e.op

/-- What the breaker has been fed. -/
def recorded (a : AdapterId) (h : Beats) : List Bool := h.filterMap fun e => recordedBy a e.op

/-- How often the hook has been awaited. -/
def trips (a : AdapterId) (h : Beats) : Nat := h.countP fun e => trippedBy a e.op

section History

variable (a : AdapterId) (h h' : Beats)

theorem outcomes_append : outcomes a (h ++ h') = outcomes a h ++ outcomes a h' :=
  List.filterMap_append

theorem noted_append : noted a (h ++ h') = noted a h ++ noted a h' := List.filterMap_append

theorem recorded_append : recorded a (h ++ h') = recorded a h ++ recorded a h' :=
  List.filterMap_append

theorem trips_append : trips a (h ++ h') = trips a h + trips a h' := List.countP_append

end History

/-- The loop's own steps are answered, and so is the look at the breaker, by what it was fed. -/
def Truthful (a : AdapterId) (threshold : Int) (h : Beats) :
    (op : SessionOp) → sessionSig.Answer op → Prop
  | .noteHeartbeat _ _, r => r = .ok ()
  | .record _ _, r => r = .ok ()
  | .sleep _, r => r = .ok ()
  | .elsewhere (.ext (.breakerOpen b)), r =>
    b = a → r = .ok (decide (limit threshold ≤ streak (recorded a h)))
  | _, _ => True

/-- Nothing is left to do for the outcomes so far. -/
structure Level (a : AdapterId) (threshold : Int) (h : Beats) : Prop where
  allNoted : noted a h = outcomes a h
  allRecorded : recorded a h = outcomes a h
  allTripped : trips a h = outages (limit threshold) (outcomes a h)

/-- Each step has its turn: an outcome is noted, recorded and, where it makes an outage, answered
    by the hook before the next probe. -/
def InTurn (a : AdapterId) (threshold : Int) (h : Beats) : SessionOp → Prop
  | .getJson b => b = a ∧ Level a threshold h
  | .noteHeartbeat b ok => b = a ∧ outcomes a h = noted a h ++ [ok]
  | .record b ok => b = a ∧ outcomes a h = recorded a h ++ [ok] ∧ noted a h = outcomes a h
  | .onTrip b => b = a ∧ recorded a h = outcomes a h ∧
      streak (outcomes a h) = limit threshold ∧
      outages (limit threshold) (outcomes a h) = trips a h + 1
  | .sleep b => b = a ∧ Level a threshold h
  | .elsewhere op => op = .ext (.breakerOpen a)

section Loop

variable {a : AdapterId} {threshold : Int} {h : Beats}

theorem limit_pos : 0 < limit threshold := by
  unfold limit
  omega

theorem level_nil : Level a threshold [] where
  allNoted := rfl
  allRecorded := rfl
  allTripped := (Streak.outages_nil limit_pos).symm

/-- A step that says nothing. -/
theorem Level.silent (hl : Level a threshold h) {e : Event sessionSig}
    (houtcome : outcomeOf a e = none) (hnoted : notedBy a e.op = none)
    (hrecorded : recordedBy a e.op = none) (htripped : trippedBy a e.op = false) :
    Level a threshold (h ++ [e]) := by
  have h₁ : outcomes a [e] = [] := by simp [outcomes, houtcome]
  have h₂ : noted a [e] = [] := by simp [noted, hnoted]
  have h₃ : recorded a [e] = [] := by simp [recorded, hrecorded]
  have h₄ : trips a [e] = 0 := by simp [trips, htripped]
  constructor
  · rw [noted_append, outcomes_append, h₁, h₂, hl.allNoted]
  · rw [recorded_append, outcomes_append, h₁, h₃, hl.allRecorded]
  · rw [trips_append, outcomes_append, h₁, h₄, hl.allTripped, List.append_nil, Nat.add_zero]

/-- The answer to a probe. -/
theorem outcomes_probe (r : Except Exn Json) :
    outcomes a (h ++ [⟨.getJson a, r⟩]) = outcomes a h ++ (probed a r).toOption.toList := by
  rw [outcomes_append]
  congr 1
  cases hr : (probed a r).toOption <;> simp [outcomes, outcomeOf, hr]

/-- A probe: an exception is no outcome, and anything else is noted. -/
theorem wp_heartbeat (hl : Level a threshold h) :
    wp (Sem.knowing (Truthful a threshold)) (InTurn a threshold) (heartbeat a)
      (outcome (fun ok h' => noted a h' = outcomes a h' ∧ outcomes a h' = outcomes a h ++ [ok] ∧
          recorded a h' = outcomes a h ∧ trips a h' = trips a h)
        fun _ h' => Level a threshold h') h := by
  have hprobe : ∀ r : Except Exn Json,
      noted a (h ++ [⟨.getJson a, r⟩]) = outcomes a h ∧
      recorded a (h ++ [⟨.getJson a, r⟩]) = outcomes a h ∧
      trips a (h ++ [⟨.getJson a, r⟩]) = trips a h := by
    intro r
    refine ⟨?_, ?_, ?_⟩
    · rw [noted_append, hl.allNoted]
      exact List.append_nil _
    · rw [recorded_append, hl.allRecorded]
      exact List.append_nil _
    · rw [trips_append]
      rfl
  -- what is noted is the outcome that the answer has just made
  have hnote : ∀ (r : Except Exn Json) (ok : Bool), probed a r = .ok ok →
      wp (Sem.knowing (Truthful a threshold)) (InTurn a threshold)
        ((perform (S := sessionSig) (.noteHeartbeat a ok)).bind fun _ => .ret ok)
        (outcome (fun ok h' => noted a h' = outcomes a h' ∧ outcomes a h' = outcomes a h ++ [ok] ∧
            recorded a h' = outcomes a h ∧ trips a h' = trips a h)
          fun _ h' => Level a threshold h') (h ++ [⟨.getJson a, r⟩]) := by
    intro r ok hr
    obtain ⟨hnoted, hrecorded, htrips⟩ := hprobe r
    have houtcomes : outcomes a (h ++ [⟨.getJson a, r⟩]) = outcomes a h ++ [ok] := by
      rw [outcomes_probe, hr]
      rfl
    rw [wp_bind, wp_perform]
    refine ⟨⟨rfl, by rw [houtcomes, hnoted]⟩, fun r' h' hh => ?_⟩
    obtain ⟨rfl, rfl⟩ : r' = .ok () ∧ h' = _ := hh
    have hsaid : noted a [⟨.noteHeartbeat a ok, .ok ()⟩] = [ok] := by simp [noted, notedBy]
    refine ⟨?_, ?_, ?_, ?_⟩
    · rw [noted_append, outcomes_append, hnoted, houtcomes, hsaid]
      exact (List.append_nil _).symm
    · rw [outcomes_append, houtcomes]
      exact List.append_nil _
    · rw [recorded_append, hrecorded]
      exact List.append_nil _
    · rw [trips_append, htrips]
      rfl
  have hraised : ∀ r : Except Exn Json, (probed a r).toOption = none →
      Level a threshold (h ++ [⟨.getJson a, r⟩]) := fun r hr =>
    hl.silent (by simp [outcomeOf, hr]) rfl rfl rfl
  refine wp_bind.mpr (wp_tryExcept.mpr (wp_bind.mpr (wp_perform.mpr ⟨⟨rfl, hl⟩, ?_⟩)))
  rintro (e | body) h' ⟨-, rfl⟩
  · rw [outcome_error, outcome_error]
    by_cases he : e.isTransport = true
    · rw [if_pos he]
      exact hnote (.error e) false (by rw [probed, if_pos he])
    · rw [if_neg he]
      exact hraised (.error e) (by rw [probed, if_neg he]; rfl)
  · rw [outcome_ok, wp_ret, outcome_ok, outcome_ok]
    dsimp only
    cases hbody : healthy a body with
    | error e => exact hraised (.ok body) (by rw [probed, hbody]; rfl)
    | ok ok => exact hnote (.ok body) ok hbody

theorem wp_isOpen {Q : Except Exn Bool → Beats → Prop}
    (hQ : Q (.ok (decide (limit threshold ≤ streak (recorded a h))))
      (h ++ [⟨.elsewhere (.ext (.breakerOpen a)),
        .ok (decide (limit threshold ≤ streak (recorded a h)))⟩])) :
    wp (Sem.knowing (Truthful a threshold)) (InTurn a threshold) (isOpen a) Q h := by
  refine wp_perform.mpr ⟨rfl, ?_⟩
  rintro r h' ⟨hr, rfl⟩
  obtain rfl := hr rfl
  exact hQ

/-- Behind the record of an outcome that has been noted. -/
theorem level_recorded {h₀ : Beats} {ok : Bool} (hl : Level a threshold h₀)
    (hnoted : noted a h = outcomes a h) (houtcomes : outcomes a h = outcomes a h₀ ++ [ok])
    (htrips : trips a h = trips a h₀)
    (hcalm : ok = false → streak (outcomes a h₀) + 1 ≠ limit threshold)
    (hrecorded : recorded a h = outcomes a h) : Level a threshold h where
  allNoted := hnoted
  allRecorded := hrecorded
  allTripped := by
    rw [htrips, hl.allTripped, houtcomes]
    cases ok with
    | true => rw [Streak.outages_ok limit_pos]
    | false => rw [Streak.outages_fail, if_neg (hcalm rfl), Nat.add_zero]

/-- The hook is awaited for a new outage, and whatever it does it has been. -/
theorem wp_trip {h₀ : Beats} (hl : Level a threshold h₀)
    (htrip : streak (outcomes a h₀) + 1 = limit threshold) (hnoted : noted a h = outcomes a h)
    (houtcomes : outcomes a h = outcomes a h₀ ++ [false]) (hrecorded : recorded a h = outcomes a h)
    (htrips : trips a h = trips a h₀) :
    wp (Sem.knowing (Truthful a threshold)) (InTurn a threshold)
      ((tryExcept (perform (S := sessionSig) (.onTrip a)) fun _ => .ret ()).bind fun _ => .ret false)
      (fun _ h' => Level a threshold h') h := by
  have hcount : outages (limit threshold) (outcomes a h) = trips a h + 1 := by
    rw [houtcomes, Streak.outages_fail, if_pos htrip, htrips, hl.allTripped]
  refine wp_bind.mpr (wp_tryExcept.mpr (wp_perform.mpr ⟨⟨rfl, hrecorded, ?_, hcount⟩, ?_⟩))
  · rw [houtcomes, Streak.streak_fail, htrip]
  · rintro r h' ⟨-, rfl⟩
    have hdone : Level a threshold (h ++ [⟨.onTrip a, r⟩]) := by
      have hsaid : trips a [⟨.onTrip a, r⟩] = 1 := by simp [trips, trippedBy]
      constructor
      · rw [noted_append, outcomes_append, hnoted]
        rfl
      · rw [recorded_append, outcomes_append, hrecorded]
        rfl
      · rw [trips_append, outcomes_append, hsaid, ← hcount]
        exact congrArg _ (List.append_nil _).symm
    cases r with
    | ok _ => exact hdone
    | error e => exact hdone

theorem wp_heartbeatPass (hl : Level a threshold h) :
    wp (Sem.knowing (Truthful a threshold)) (InTurn a threshold) (heartbeatPass a)
      (fun _ h' => Level a threshold h') h := by
  refine wp_bind.mpr (wp_isOpen ?_)
  rw [outcome_ok, hl.allRecorded]
  generalize hwas : decide (limit threshold ≤ streak (outcomes a h)) = wasOpen
  have hlooked : Level a threshold (h ++ [⟨.elsewhere (.ext (.breakerOpen a)), .ok wasOpen⟩]) :=
    hl.silent rfl rfl rfl rfl
  have hsame : outcomes a (h ++ [⟨.elsewhere (.ext (.breakerOpen a)), .ok wasOpen⟩]) =
      outcomes a h := (outcomes_append ..).trans (List.append_nil _)
  generalize h ++ [⟨.elsewhere (.ext (.breakerOpen a)), .ok wasOpen⟩] = h₁ at hlooked hsame
  rw [← hsame] at hwas
  refine wp_bind.mpr (wp_mono (wp_heartbeat hlooked) fun o h₂ hbeat => ?_)
  cases o with
  | error e => exact hbeat
  | ok ok =>
    obtain ⟨hnoted, houtcomes, hrecorded, htrips⟩ := hbeat
    have hturn : InTurn a threshold h₂ (.record a ok) :=
      ⟨rfl, by rw [houtcomes, hrecorded], hnoted⟩
    -- the outcome is recorded
    have hnext : noted a (h₂ ++ [⟨.record a ok, .ok ()⟩]) = outcomes a (h₂ ++ [⟨.record a ok, .ok ()⟩]) ∧
        outcomes a (h₂ ++ [⟨.record a ok, .ok ()⟩]) = outcomes a h₁ ++ [ok] ∧
        recorded a (h₂ ++ [⟨.record a ok, .ok ()⟩]) = outcomes a h₁ ++ [ok] ∧
        trips a (h₂ ++ [⟨.record a ok, .ok ()⟩]) = trips a h₁ := by
      have hsaid : recorded a [⟨.record a ok, .ok ()⟩] = [ok] := by simp [recorded, recordedBy]
      refine ⟨?_, ?_, ?_, ?_⟩
      · rw [noted_append, outcomes_append, hnoted]
        rfl
      · rw [outcomes_append, houtcomes]
        exact List.append_nil _
      · rw [recorded_append, hrecorded, hsaid]
      · rw [trips_append, htrips]
        rfl
    generalize hh₃ : h₂ ++ [⟨.record a ok, .ok ()⟩] = h₃ at hnext
    obtain ⟨hnoted₃, houtcomes₃, hrecorded₃, htrips₃⟩ := hnext
    have hdone := hrecorded₃.trans houtcomes₃.symm
    cases ok with
    | true =>
      refine wp_bind.mpr (wp_perform.mpr ⟨hturn, ?_⟩)
      rintro r h' ⟨rfl, rfl⟩
      rw [hh₃]
      exact level_recorded hlooked hnoted₃ houtcomes₃ htrips₃ (fun h => nomatch h) hdone
    | false =>
      refine wp_bind.mpr (wp_perform.mpr ⟨hturn, ?_⟩)
      rintro r h' ⟨rfl, rfl⟩
      rw [hh₃]
      refine wp_bind.mpr (wp_isOpen ?_)
      rw [outcome_ok, hrecorded₃, Streak.streak_fail]
      have hquiet := fun hcalm => (level_recorded hlooked hnoted₃ houtcomes₃ htrips₃ hcalm hdone).silent
        (e := ⟨.elsewhere (.ext (.breakerOpen a)),
          .ok (decide (limit threshold ≤ streak (outcomes a h₁) + 1))⟩) rfl rfl rfl rfl
      by_cases htrip : streak (outcomes a h₁) + 1 = limit threshold
      · have hcond : (decide (limit threshold ≤ streak (outcomes a h₁) + 1) && !wasOpen) = true := by
          rw [← hwas, Bool.and_eq_true, Bool.not_eq_true', decide_eq_false_iff_not, decide_eq_true_eq]
          omega
        rw [hcond]
        exact wp_trip hlooked htrip (by rw [noted_append, outcomes_append, hnoted₃]; rfl)
          (by rw [outcomes_append, houtcomes₃]; exact List.append_nil _)
          (by rw [recorded_append, outcomes_append, hdone]; rfl) (by rw [trips_append, htrips₃]; rfl)
      · have hcond : (decide (limit threshold ≤ streak (outcomes a h₁) + 1) && !wasOpen) = false := by
          rw [← hwas, Bool.and_eq_false_iff, Bool.not_eq_false', decide_eq_false_iff_not,
            decide_eq_true_eq]
          omega
        rw [hcond]
        exact hquiet fun _ => htrip

/-- The loop goes on as long as it is let. -/
theorem wp_heartbeatLoop (fuel : Nat) (hl : Level a threshold h) :
    wp (Sem.knowing (Truthful a threshold)) (InTurn a threshold) (heartbeatLoop a fuel)
      (fun _ _ => False) h := by
  induction fuel generalizing h with
  | zero => trivial
  | succ fuel ih =>
    have hpass : wp (Sem.knowing (Truthful a threshold)) (InTurn a threshold)
        (tryExcept ((heartbeatPass a).bind fun _ => .ret ()) fun _ => .ret ())
        (outcome (fun _ h' => Level a threshold h') fun _ _ => False) h := by
      refine wp_tryExcept.mpr (wp_bind.mpr (wp_mono (wp_heartbeatPass hl) fun o h' hl' => ?_))
      cases o with
      | ok _ => exact hl'
      | error e => exact hl'
    refine wp_seq_ok hpass fun _ h' hl' => wp_bind.mpr (wp_perform.mpr ⟨⟨rfl, hl'⟩, ?_⟩)
    rintro r h'' ⟨rfl, rfl⟩
    exact ih (hl'.silent rfl rfl rfl rfl)

end Loop

/-! ## The process -/

/-- Whose loop a step is of. -/
def SessionOp.session : SessionOp → Option AdapterId
  | .getJson a => some a
  | .noteHeartbeat a _ => some a
  | .record a _ => some a
  | .onTrip a => some a
  | .sleep a => some a
  | .elsewhere _ => none

variable {ι : Type}

/-- The steps of a loop are its own. -/
def Belongs (i : AdapterId ⊕ ι) (op : SessionOp) : Prop := ∀ a, op.session = some a → i = .inl a

/-- A loop for each adapter that has been started, and the engine's coroutines. -/
def process (threshold : AdapterId → Int) (started : AdapterId → Bool) (fuel : Nat)
    (body : ι → Eff Unit) : Pool sessionSig (AdapterId → Session) (AdapterId ⊕ ι) where
  threads
    | .inl a => if started a then heartbeatLoop a fuel else .ret ()
    | .inr j => (body j).translate outside
  state a := { breaker := { failureThreshold := threshold a } }
  trace := []

theorem uses_own {a : AdapterId} {op : SessionOp} (h : op.session = some a ∨ op.session = none) :
    Uses (S := sessionSig) (Belongs (.inl a : AdapterId ⊕ ι)) (perform (S := sessionSig) op) := by
  refine uses_perform fun b hb => ?_
  rcases h with h | h
  · exact congrArg Sum.inl (Option.some.inj (h.symm.trans hb))
  · cases h.symm.trans hb

theorem uses_heartbeat (a : AdapterId) :
    Uses (Belongs (.inl a : AdapterId ⊕ ι)) (heartbeat a) := by
  refine Uses.bind (Uses.tryExcept (Uses.bind (uses_own (.inl rfl)) fun _ => trivial) fun e => ?_) ?_
  · by_cases he : e.isTransport = true
    · rw [if_pos he]
      trivial
    · rw [if_neg he]
      trivial
  · rintro (_ | body)
    · exact Uses.bind (uses_own (.inl rfl)) fun _ => trivial
    · dsimp only
      cases healthy a body with
      | error e => trivial
      | ok ok => exact Uses.bind (uses_own (.inl rfl)) fun _ => trivial

theorem uses_heartbeatPass (a : AdapterId) :
    Uses (Belongs (.inl a : AdapterId ⊕ ι)) (heartbeatPass a) := by
  refine Uses.bind (uses_own (.inr rfl)) fun wasOpen => Uses.bind (uses_heartbeat a) ?_
  rintro (_ | _)
  · refine Uses.bind (uses_own (.inl rfl)) fun _ => Uses.bind (uses_own (.inr rfl)) fun isOpen => ?_
    dsimp only
    split
    · exact Uses.bind (Uses.tryExcept (uses_own (.inl rfl)) fun _ => trivial) fun _ => trivial
    · trivial
  · exact Uses.bind (uses_own (.inl rfl)) fun _ => trivial

theorem uses_heartbeatLoop (a : AdapterId) (fuel : Nat) :
    Uses (Belongs (.inl a : AdapterId ⊕ ι)) (heartbeatLoop a fuel) := by
  induction fuel with
  | zero => trivial
  | succ fuel ih =>
    refine Uses.bind (Uses.tryExcept (Uses.bind (uses_heartbeatPass a) fun _ => trivial)
      fun _ => trivial) fun _ => ?_
    exact Uses.bind (uses_own (.inl rfl)) fun _ => ih

/-- What a session is after what has been done. -/
def kept (a : AdapterId) (threshold : Int) (h : Beats) : Session where
  breaker := fed threshold (recorded a h)
  lastHeartbeatOk := (noted a h).getLast?

theorem kept_silent {a : AdapterId} {threshold : Int} {h : Beats} {e : Event sessionSig}
    (hrecorded : recordedBy a e.op = none) (hnoted : notedBy a e.op = none) :
    kept a threshold (h ++ [e]) = kept a threshold h := by
  have h₁ : recorded a [e] = [] := by simp [recorded, hrecorded]
  have h₂ : noted a [e] = [] := by simp [noted, hnoted]
  rw [kept, kept, recorded_append, noted_append, h₁, h₂, List.append_nil, List.append_nil]

/-- One step of anybody's. -/
theorem kept_step {threshold : AdapterId → Int} {s s' : AdapterId → Session} {h : Beats}
    {op : SessionOp} {r : sessionSig.Answer op} (hs : ∀ a, s a = kept a (threshold a) h)
    (hstep : sessions.step s op r s') (a : AdapterId) :
    s' a = kept a (threshold a) (h ++ [⟨op, r⟩]) ∧ Truthful a (threshold a) h op r := by
  cases op with
  | getJson b | onTrip b =>
    obtain rfl := hstep
    exact ⟨(hs a).trans (kept_silent rfl rfl).symm, trivial⟩
  | sleep b =>
    obtain ⟨rfl, rfl⟩ := hstep
    exact ⟨(hs a).trans (kept_silent rfl rfl).symm, rfl⟩
  | noteHeartbeat b ok =>
    obtain ⟨rfl, rfl⟩ := hstep
    refine ⟨?_, rfl⟩
    by_cases hb : b = a
    · subst hb
      have hsaid : noted b [⟨.noteHeartbeat b ok, .ok ()⟩] = [ok] := by simp [noted, notedBy]
      rw [Function.update_self, hs b, kept, kept, noted_append, recorded_append, hsaid,
        List.getLast?_concat]
      exact congrArg (Session.mk · _) (congrArg _ (List.append_nil _).symm)
    · rw [Function.update_of_ne (Ne.symm hb), hs a]
      exact (kept_silent (e := ⟨.noteHeartbeat b ok, .ok ()⟩) rfl (if_neg hb)).symm
  | record b ok =>
    obtain ⟨rfl, rfl⟩ := hstep
    refine ⟨?_, rfl⟩
    by_cases hb : b = a
    · subst hb
      have hsaid : recorded b [⟨.record b ok, .ok ()⟩] = [ok] := by simp [recorded, recordedBy]
      rw [Function.update_self, hs b, kept, kept, noted_append, recorded_append, hsaid,
        SessionCircuitBreaker.fed_snoc]
      exact congrArg (Session.mk _ ·.getLast?) (List.append_nil _).symm
    · rw [Function.update_of_ne (Ne.symm hb), hs a]
      exact (kept_silent (e := ⟨.record b ok, .ok ()⟩) (if_neg hb) rfl).symm
  | elsewhere o =>
    obtain ⟨hsees, hsame⟩ := hstep
    refine ⟨(hsame ▸ hs a).trans (kept_silent rfl rfl).symm, ?_⟩
    cases o with
    | store o => trivial
    | ext o =>
      cases o with
      | breakerOpen b =>
        rintro rfl
        have hlook : r = .ok (s b).breaker.isOpen := hsees
        rw [hlook, hs b]
        exact congrArg Except.ok SessionCircuitBreaker.isOpen_fed
      | _ => trivial

variable [DecidableEq ι] {threshold : AdapterId → Int} {started : AdapterId → Bool} {fuel : Nat}
  {body : ι → Eff Unit} {P : Pool sessionSig (AdapterId → Session) (AdapterId ⊕ ι)}

/-- Every session is what has been done to it, and every answer agreed with that. -/
theorem kept_reach
    (hP : PoolReach sessions (fun _ _ => False) (process threshold started fuel body) P) :
    (∀ a, P.state a = kept a (threshold a) (P.trace.map Prod.snd)) ∧
    ∀ pre x post, P.trace = pre ++ x :: post →
      ∀ a, Truthful a (threshold a) (pre.map Prod.snd) x.2.op x.2.res := by
  refine pool_invariant (I := fun s tr => (∀ a, s a = kept a (threshold a) (tr.map Prod.snd)) ∧
    ∀ pre x post, tr = pre ++ x :: post →
      ∀ a, Truthful a (threshold a) (pre.map Prod.snd) x.2.op x.2.res) ?_ ?_ ?_ hP
  · exact ⟨fun a => rfl, fun pre x post h => by cases pre <;> cases h⟩
  · intro s tr i op r s' ⟨hs, htruth⟩ hstep
    refine ⟨fun a => ?_, forall_split_snoc.mpr ⟨htruth, fun a => (kept_step hs hstep a).2⟩⟩
    rw [List.map_append]
    exact (kept_step hs hstep a).1
  · exact fun s tr s' _ h => h.elim

/-- What has been done to a session is in the history of its loop. -/
theorem own_history {a : AdapterId} {tr : List ((AdapterId ⊕ ι) × Event sessionSig)}
    (hown : ∀ x ∈ tr, Belongs x.1 x.2.op) :
    recorded a (tr.map Prod.snd) = recorded a (localHistory (.inl a) tr) ∧
    noted a (tr.map Prod.snd) = noted a (localHistory (.inl a) tr) := by
  constructor
  · refine filterMap_local fun x hx hne => hown x hx a ?_
    obtain ⟨i, op, r⟩ := x
    cases op with
    | record b ok =>
      by_contra hb
      exact hne (if_neg fun h => hb (congrArg some h))
    | _ => exact (hne rfl).elim
  · refine filterMap_local fun x hx hne => hown x hx a ?_
    obtain ⟨i, op, r⟩ := x
    cases op with
    | noteHeartbeat b ok =>
      by_contra hb
      exact hne (if_neg fun h => hb (congrArg some h))
    | _ => exact (hne rfl).elim

theorem process_own (hP : PoolReach sessions (fun _ _ => False)
    (process threshold started fuel body) P) : ∀ x ∈ P.trace, Belongs x.1 x.2.op := by
  refine pool_footprint (F := Belongs) rfl (fun i => ?_) hP
  cases i with
  | inl a =>
    show Uses _ (if started a then _ else _)
    split
    · exact uses_heartbeatLoop a fuel
    · trivial
  | inr j =>
    exact (uses_univ (body j)).translate fun o _ a h => nomatch h

/-- What is said of a look is about the history of the loop. -/
theorem truthful_own {a : AdapterId} {T : Int} {h h' : Beats} {op : SessionOp}
    {r : sessionSig.Answer op} (hsame : recorded a h = recorded a h') (ht : Truthful a T h op r) :
    Truthful a T h' op r := by
  unfold Truthful at *
  rwa [hsame] at ht

/-- At every moment of every interleaving: a breaker holds the streak of what its loop has recorded
    and is open from the limit on, as whoever looks is told; a loop that was started goes on, and
    takes each step in its turn. -/
theorem heartbeat_trips (hP : PoolReach sessions (fun _ _ => False)
    (process threshold started fuel body) P) (a : AdapterId) :
    P.state a =
      { breaker :=
          { failureThreshold := threshold a
            consecutiveFailures := streak (recorded a (localHistory (.inl a) P.trace))
            state := if limit (threshold a) ≤ streak (recorded a (localHistory (.inl a) P.trace)) then
              .openCircuit else .closed }
        lastHeartbeatOk := (noted a (localHistory (.inl a) P.trace)).getLast? } ∧
    (∀ pre j r post,
      P.trace = pre ++ (j, ⟨.elsewhere (.ext (.breakerOpen a)), r⟩) :: post →
        r = .ok (decide
          (limit (threshold a) ≤ streak (recorded a (localHistory (.inl a) pre))))) ∧
    (started a = true →
      (∀ pre e post, localHistory (.inl a) P.trace = pre ++ e :: post →
        InTurn a (threshold a) pre e.op) ∧
      P.threads (.inl a) ≠ .ret () ∧ ∀ e, P.threads (.inl a) ≠ .raise e) := by
  obtain ⟨hstate, htruth⟩ := kept_reach hP
  have hown := process_own hP
  obtain ⟨hrecorded, hnoted⟩ := own_history (a := a) hown
  have hlocal : ∀ pre x post, P.trace = pre ++ x :: post →
      Truthful a (threshold a) (localHistory (.inl a) pre) x.2.op x.2.res := by
    intro pre x post htrace
    have hpre : ∀ y ∈ pre, Belongs y.1 y.2.op := fun y hy =>
      hown y (htrace ▸ List.mem_append_left _ hy)
    exact truthful_own (own_history hpre).1 (htruth pre x post htrace a)
  refine ⟨?_, fun pre j r post htrace => hlocal pre _ post htrace rfl, fun hstarted => ?_⟩
  · rw [hstate a, kept, hrecorded, hnoted, SessionCircuitBreaker.fed_eq]
  · have hthread : (process threshold started fuel body).threads (.inl a) = heartbeatLoop a fuel :=
      if_pos hstarted
    obtain ⟨hturns, hw⟩ := local_discipline_at (Q := fun _ _ => False) rfl
      (hthread ▸ wp_heartbeatLoop fuel level_nil) hP fun pre e post htrace => hlocal pre _ post htrace
    refine ⟨hturns, fun hend => ?_, fun e hend => ?_⟩
    · rwa [hend] at hw
    · rwa [hend] at hw

/-- Every probe fails, and the hook does as well. -/
def failingHandler (s : AdapterId → Session) (op : SessionOp) :
    sessionSig.Answer op × (AdapterId → Session) :=
  match op with
  | .getJson _ => (.error (.transportError "no answer"), s)
  | .noteHeartbeat a ok => (.ok (), Function.update s a { s a with lastHeartbeatOk := some ok })
  | .record a ok =>
    (.ok (), Function.update s a { s a with breaker := (s a).breaker.record ok })
  | .onTrip _ => (.error (.adapterError "nothing cancelled"), s)
  | .sleep _ => (.ok (), s)
  | .elsewhere (.ext (.breakerOpen a)) => (.ok (s a).breaker.isOpen, s)
  | .elsewhere _ => (.error (.storeError "not modelled"), s)

theorem failingHandler_follows : Follows sessions failingHandler := by
  intro s op
  cases op with
  | getJson a | onTrip a => rfl
  | noteHeartbeat a ok | record a ok | sleep a => exact ⟨rfl, rfl⟩
  | elsewhere o =>
    cases o with
    | store o => exact ⟨trivial, rfl⟩
    | ext o =>
      cases o with
      | breakerOpen a => exact ⟨rfl, rfl⟩
      | _ => exact ⟨trivial, rfl⟩

/-- The Liberator session at a threshold of two, and an order that asks its breaker. -/
def sampleStart : Pool sessionSig (AdapterId → Session) (AdapterId ⊕ Unit) :=
  process (fun _ => 2) (fun a => a = .liberator) 2 fun _ => Router.breakerGuard .liberator

/-- It fails twice, and then the order asks. -/
def sampleProcess : Pool sessionSig (AdapterId → Session) (AdapterId ⊕ Unit) :=
  runPool failingHandler (List.replicate 12 (.inl .liberator) ++ [.inr ()]) sampleStart

theorem sample_trips :
    (sampleProcess.state .liberator).breaker.state = .openCircuit ∧
      trips .liberator (localHistory (.inl .liberator) sampleProcess.trace) = 1 := by
  have hreach : PoolReach sessions (fun _ _ => False) sampleStart sampleProcess :=
    runPool_reach failingHandler_follows _ sampleStart
  have hrecorded : recorded .liberator (localHistory (.inl .liberator) sampleProcess.trace) =
      [false, false] := by decide +kernel
  obtain ⟨hstate, -⟩ := heartbeat_trips hreach .liberator
  rw [hstate, hrecorded]
  exact ⟨rfl, by decide +kernel⟩

end ExecutionEngine.Heartbeat
