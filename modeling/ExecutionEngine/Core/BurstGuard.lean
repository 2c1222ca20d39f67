/-
  The duplicate-burst guard and resends of one order.

  The guard counts orders by their economic fingerprint and leaves the id out of
  it; a resend is kept away from the counter by the dedupe read in front of it,
  and by nothing else. Between that read and the insert there are several awaits,
  so two submits of one id can both come to the counter, and so can a resend of an
  order that a later gate refused (`racing_resend_rejected`).

  `resends_unrejected` says when this does not happen: a submit that has armed the
  counter has inserted its row before a later one of the id makes its dedupe read,
  or the deadline of its window has passed when that one comes to the counter
  (`Spaced`). Redis is a clock and a rule for INCR and EXPIRE over the trace
  (`Counter`).
-/
import Mathlib.Data.List.Induction
import ExecutionEngine.Core.Placement
import ExecutionEngine.Core.Specs

namespace ExecutionEngine

open Async Async.Prog

/-! ## Counters in Redis -/

/-- A counter key: who armed it, how far it has counted, when it goes away. -/
structure Counter (ι : Type) where
  armedBy : ι
  value : Int
  expires : Option Time := none

namespace Counter

variable {ι : Type}

/-- What is left of a key at `t`. -/
def live (t : Time) (k : Option (Counter ι)) : Option (Counter ι) :=
  k.filter fun c => c.expires.all fun d => t < d

/-- One event at `t`: INCR starts or advances the key, EXPIRE gives it a deadline. -/
def step (key : String) (t : Time) (k : Option (Counter ι)) (x : ι × Event engineSig) :
    Option (Counter ι) :=
  match x.2 with
  | ⟨.ext (.redisIncr key'), .ok _⟩ =>
    if key' = key then
      match live t k with
      | none => some { armedBy := x.1, value := 1 }
      | some c => some { c with value := c.value + 1 }
    else k
  | ⟨.ext (.redisExpire key' ttlSeconds), .ok _⟩ =>
    if key' = key then
      (live t k).map fun c => { c with expires := some (t + ttlSeconds * 1000000) }
    else k
  | _ => k

/-- The key after `tr`, whose `n`-th event happened at `clock n`. -/
def after (clock : Nat → Time) (key : String) (tr : Trace ι) : Option (Counter ι) :=
  tr.zipIdx.foldl (fun k x => step key (clock x.2) k x.1) none

/-- The counter that the next event finds. -/
def running (clock : Nat → Time) (key : String) (tr : Trace ι) : Option (Counter ι) :=
  live (clock tr.length) (after clock key tr)

/-- The value a key shows; a missing one counts as 0. -/
def shown : Option (Counter ι) → Int
  | none => 0
  | some c => c.value

/-- The answer to an INCR is the next value of its key. -/
def answered (clock : Nat → Time) (pre : Trace ι) (x : ι × Event engineSig) : Bool :=
  match x.2 with
  | ⟨.ext (.redisIncr key), .ok n⟩ => n = shown (running clock key pre) + 1
  | ⟨.ext (.redisIncr _), .error _⟩ => false
  | _ => true

/-- Redis is up and counts. -/
def Served (clock : Nat → Time) (tr : Trace ι) : Prop :=
  ∀ pre x post, tr = pre ++ x :: post → answered clock pre x = true

/-- The deadline that an event at `t` gives a key. -/
def deadlineOf (key : String) (t : Time) : Event engineSig → Option Time
  | ⟨.ext (.redisExpire key' ttlSeconds), .ok _⟩ =>
    if key' = key then some (t + ttlSeconds * 1000000) else none
  | _ => none

/-- The deadlines that events give a key, the first of them being the `n`-th of the trace. -/
def deadlines (clock : Nat → Time) (key : String) (n : Nat) (tr : Trace ι) : List Time :=
  (tr.zipIdx n).filterMap fun x => deadlineOf key (clock x.2) x.1.2

/-- The key was given a deadline, and the last one has passed at `t`. -/
def Over (clock : Nat → Time) (key : String) (n : Nat) (tr : Trace ι) (t : Time) : Prop :=
  ∃ d ∈ (deadlines clock key n tr).getLast?, d ≤ t

theorem after_snoc {clock : Nat → Time} {key : String} (tr : Trace ι) (x : ι × Event engineSig) :
    after clock key (tr ++ [x]) = step key (clock tr.length) (after clock key tr) x := by
  simp [after, List.zipIdx_append]

theorem deadlines_snoc {clock : Nat → Time} {key : String} (n : Nat) (tr : Trace ι)
    (x : ι × Event engineSig) : deadlines clock key n (tr ++ [x]) =
      deadlines clock key n tr ++ (deadlineOf key (clock (n + tr.length)) x.2).toList := by
  unfold deadlines
  rw [List.zipIdx_append, List.filterMap_append]
  cases h : deadlineOf key (clock (n + tr.length)) x.2 <;> simp [h]

/-- A counter that is there was created by an INCR that found none, and has the last deadline that
    was given since. -/
theorem armed_of_after {clock : Nat → Time} {key : String} {tr : Trace ι} {c : Counter ι}
    (h : after clock key tr = some c) :
    ∃ pre n post, tr = pre ++ (c.armedBy, ⟨.ext (.redisIncr key), .ok n⟩) :: post ∧
      running clock key pre = none ∧
      c.expires = (deadlines clock key (pre.length + 1) post).getLast? := by
  induction tr using List.reverseRecOn generalizing c with
  | nil => cases h
  | append_singleton tr x ih =>
    -- an event that leaves creator and deadline alone
    have keep {c₀ : Counter ι} (h₀ : after clock key tr = some c₀)
        (harmed : c.armedBy = c₀.armedBy) (hexp : c.expires = c₀.expires)
        (hx : ∀ t, deadlineOf key t x.2 = none) :
        ∃ pre n post, tr ++ [x] = pre ++ (c.armedBy, ⟨.ext (.redisIncr key), .ok n⟩) :: post ∧
          running clock key pre = none ∧
          c.expires = (deadlines clock key (pre.length + 1) post).getLast? := by
      obtain ⟨pre, n, post, htr, hrun, hlast⟩ := ih h₀
      refine ⟨pre, n, post ++ [x], by rw [htr, harmed]; simp, hrun, ?_⟩
      rw [deadlines_snoc, hx, Option.toList_none, List.append_nil, hexp, hlast]
    rw [after_snoc] at h
    obtain ⟨i, op, r⟩ := x
    unfold step at h
    split at h
    · rename_i key' n heq
      cases heq
      split at h
      · rename_i hkey
        subst hkey
        split at h
        · rename_i hnone
          obtain rfl := Option.some.inj h
          exact ⟨tr, n, [], rfl, hnone, rfl⟩
        · rename_i c₀ hlive
          obtain rfl := Option.some.inj h
          exact keep (Option.filter_eq_some_iff.mp hlive).1 rfl rfl fun _ => rfl
      · exact keep h rfl rfl fun _ => rfl
    · rename_i key' ttl u heq
      cases heq
      split at h
      · rename_i hkey
        subst hkey
        obtain ⟨c₀, hlive, rfl⟩ := Option.map_eq_some_iff.mp h
        obtain ⟨pre, n, post, htr, hrun, -⟩ := ih (Option.filter_eq_some_iff.mp hlive).1
        refine ⟨pre, n, post ++ [(i, ⟨.ext (.redisExpire key' ttl), .ok u⟩)], by rw [htr]; simp,
          hrun, ?_⟩
        have hlen : pre.length + 1 + post.length = tr.length := by
          rw [htr, List.length_append, List.length_cons]
          omega
        simp [deadlines_snoc, deadlineOf, hlen]
      · rename_i hkey
        exact keep h rfl rfl fun _ => if_neg hkey
    · rename_i hincr hexpire
      refine keep h rfl rfl fun t => ?_
      unfold deadlineOf
      split
      · rename_i heq
        exact absurd heq (hexpire _ _ _)
      · rfl

/-- A counter that runs was created by an INCR that found none, and is not over. -/
theorem armed_of_running {clock : Nat → Time} {key : String} {tr : Trace ι} {c : Counter ι}
    (h : running clock key tr = some c) :
    ∃ pre n post, tr = pre ++ (c.armedBy, ⟨.ext (.redisIncr key), .ok n⟩) :: post ∧
      running clock key pre = none ∧
      ¬ Over clock key (pre.length + 1) post (clock tr.length) := by
  obtain ⟨hafter, hlive⟩ := Option.filter_eq_some_iff.mp h
  obtain ⟨pre, n, post, htr, hrun, hexp⟩ := armed_of_after hafter
  refine ⟨pre, n, post, htr, hrun, fun ⟨d, hd, hle⟩ => ?_⟩
  rw [hexp, Option.mem_def.mp hd, Option.all_some, decide_eq_true_eq] at hlive
  exact absurd hle (Int.not_le.mpr hlive)

/-- Only a running counter answers with more than 1. -/
theorem running_of_answered {clock : Nat → Time} {pre : Trace ι} {i : ι} {key : String} {n : Int}
    (h : answered clock pre (i, ⟨.ext (.redisIncr key), .ok n⟩) = true) (hn : 1 < n) :
    ∃ c, running clock key pre = some c := by
  have hval : n = shown (running clock key pre) + 1 := of_decide_eq_true h
  cases hc : running clock key pre with
  | some c => exact ⟨c, rfl⟩
  | none =>
    rw [hc, shown] at hval
    omega

end Counter

/-! ## Who raises the guard's rejection -/

/-- Not the rejection of the burst guard. -/
def Foreign (e : Exn) : Prop := e.hasCode .duplicateBurstDetected = false

theorem raises_lift {α : Type} {X : Exn → Prop} {x : Except Exn α}
    (h : ∀ e, x = .error e → X e) : Raises X (Eff.lift x) := by
  cases x with
  | ok a => trivial
  | error e => exact h e rfl

theorem foreign_updateStatus (cid : String) (s : OrderState) :
    Raises Foreign (updateStatus cid s) := by
  unfold updateStatus
  refine (raises_perform _).bind fun row => ?_
  split
  · rfl
  · split
    · trivial
    · split
      · exact raises_perform _
      · rfl

theorem foreign_recoverHandle (resolve : Eff Bool) (submittedAt cadence deadline : Time)
    (minPolls : Int) (fuel : Nat) (attempts : Int) (readOk : Bool) :
    Raises Foreign (HandleRecovery.recoverHandle resolve submittedAt cadence deadline minPolls fuel
      attempts readOk) := by
  induction fuel generalizing attempts readOk with
  | zero => trivial
  | succ fuel ih =>
    unfold HandleRecovery.recoverHandle HandleRecovery.poll
    refine Raises.bind (raises_catch _ fun _ => trivial) fun answer => ?_
    split
    · trivial
    · refine (raises_perform _).bind fun now => ?_
      split
      · trivial
      · exact (raises_perform _).bind fun _ => ih _ _

namespace Router

variable (R : Router)

theorem foreign_assertDisengaged : Raises Foreign R.assertDisengaged := by
  unfold assertDisengaged killSwitchStatus
  refine Raises.bind ?_ fun source => ?_
  · split
    · trivial
    · split
      · exact Raises.bind (raises_catch _ fun _ => trivial) fun _ => trivial
      · trivial
  · cases source with
    | none => trivial
    | some source => rfl

theorem foreign_lookup {b : Broker} {m : Market} {e : Exn}
    (h : Capabilities.lookup b m = .error e) : Foreign e := by
  obtain ⟨c, hc, -⟩ := Capabilities.lookup_ok b m
  rw [hc] at h
  cases h

theorem foreign_assertSupports {c : CapabilitySet} {t : OrderType} {tif : Tif}
    {pe : Option PositionEffect} {e : Exn}
    (h : Capabilities.assertSupports c t tif pe = .error e) : Foreign e := by
  unfold Capabilities.assertSupports at h
  dsimp only at h
  split at h
  · exact Except.error.inj h ▸ rfl
  · split at h
    · exact Except.error.inj h ▸ rfl
    · split at h
      · split at h
        · exact Except.error.inj h ▸ rfl
        · cases h
      · cases h

theorem foreign_checkQuantity {o : NormalizedOrder} {e : Exn}
    (h : R.checkQuantity o = .error e) : Foreign e := by
  unfold checkQuantity at h
  dsimp only at h
  split at h
  · exact Except.error.inj h ▸ rfl
  · cases h

theorem foreign_checkNotional {o : NormalizedOrder} {e : Exn}
    (h : R.checkNotional o = .error e) : Foreign e := by
  unfold checkNotional at h
  split at h
  · cases h
  · dsimp only at h
    split at h
    · exact Except.error.inj h ▸ rfl
    · cases h

theorem foreign_riskBackendDown {o : NormalizedOrder} {e : Exn}
    (h : R.riskBackendDown o = .error e) : Foreign e := by
  unfold riskBackendDown at h
  split at h
  · exact Except.error.inj h ▸ rfl
  · cases h

theorem foreign_priceBandCheck (o : NormalizedOrder) : Raises Foreign (R.priceBandCheck o) := by
  unfold priceBandCheck
  split
  · split
    · trivial
    · refine (raises_perform _).bind fun close => ?_
      split
      · trivial
      · split
        · trivial
        · split
          · rfl
          · trivial
  · trivial

theorem foreign_resolveAdapter {b : Broker} {account : String} {intent : AdapterIntent} {e : Exn}
    (h : R.resolveAdapter b account intent = .error e) : Foreign e := by
  unfold resolveAdapter at h
  cases hl : R.ladder b intent with
  | error e' =>
    rw [hl] at h
    obtain rfl := Except.error.inj h
    unfold ladder at hl
    dsimp only at hl
    split at hl
    · cases hl
    · split at hl
      · split at hl
        · exact Except.error.inj hl ▸ rfl
        · cases hl
      · cases hl
    · split at hl
      · split at hl
        · exact Except.error.inj hl ▸ rfl
        · cases hl
      · exact Except.error.inj hl ▸ rfl
    · exact Except.error.inj hl ▸ rfl
  | ok a =>
    rw [hl] at h
    change (R.assertMayRouteReal account b a >>= fun _ => pure a) = .error e at h
    cases hm : R.assertMayRouteReal account b a with
    | ok u =>
      rw [hm] at h
      cases h
    | error e' =>
      rw [hm] at h
      obtain rfl := Except.error.inj h
      unfold assertMayRouteReal at hm
      split at hm
      · cases hm
      · split at hm
        · exact Except.error.inj hm ▸ rfl
        · split at hm
          · exact Except.error.inj hm ▸ rfl
          · cases hm

theorem foreign_breakerGuard (a : AdapterId) : Raises Foreign (breakerGuard a) := by
  unfold breakerGuard
  refine (raises_perform _).bind fun isOpen => ?_
  split
  · rfl
  · trivial

theorem foreign_settle (a : AdapterId) (o : NormalizedOrder) (no : String) (ack : PlaceAck) :
    Raises Foreign (settle a o no ack) := by
  unfold settle
  refine (raises_perform _).bind fun _ => (raises_forEach fun f => ?_).bind fun _ => ?_
  · exact (raises_perform _).bind fun _ => trivial
  · split
    · exact (foreign_updateStatus _ _).bind fun _ => (raises_perform _).bind fun _ =>
        (foreign_updateStatus _ _).bind fun _ => trivial
    · trivial

theorem foreign_placeAndSettle (fuel : Nat) (a : AdapterId) (o : NormalizedOrder) :
    Raises Foreign (R.placeAndSettle fuel a o) := by
  unfold placeAndSettle
  refine (raises_perform _).bind fun ack => ?_
  split
  · exact (foreign_updateStatus _ _).bind fun _ => (raises_perform _).bind fun _ => trivial
  · split
    · unfold recoverHandle
      split
      · refine (raises_perform _).bind fun row => Raises.bind ?_ fun _ =>
          foreign_recoverHandle _ _ _ _ _ _ _ _
        cases row with
        | none => exact raises_perform _
        | some row => trivial
      · trivial
    · exact foreign_settle a o _ ack

theorem foreign_awaitConcurrent (cid : String) (n : Nat) :
    Raises Foreign (awaitConcurrent cid n) := by
  induction n with
  | zero =>
    refine (raises_perform _).bind fun row => ?_
    split
    · trivial
    · rfl
  | succ n ih =>
    refine (raises_perform _).bind fun row => ?_
    split
    · trivial
    · exact (raises_perform _).bind fun _ => ih

theorem foreign_submitLocked (fuel : Nat) (a : AdapterId) (o : NormalizedOrder)
    (sid : Option String) (acquired : Bool) :
    Raises Foreign (R.submitLocked fuel a o sid acquired) := by
  unfold submitLocked insertFresh
  split
  · refine Raises.bind (Raises.tryExcept ((raises_perform _).bind fun _ => trivial)
      fun e he => ?_) fun fresh => ?_
    · split
      · trivial
      · exact he
    · split
      · exact (R.foreign_placeAndSettle fuel a o).bind fun _ => trivial
      · refine (raises_perform _).bind fun row => ?_
        split
        · rfl
        · trivial
  · exact (foreign_awaitConcurrent _ _).bind fun _ => trivial

theorem foreign_singleFlight {α : Type} (key : String) {body : Bool → Eff α}
    (h : ∀ b, Raises Foreign (body b)) : Raises Foreign (R.singleFlight key body) := by
  unfold singleFlight acquireLock releaseLock
  refine Raises.bind ?_ fun acquired => (h acquired).tryFinally ?_
  · split
    · exact raises_catch _ fun _ => trivial
    · trivial
  · split
    · exact raises_catch _ fun _ => trivial
    · trivial

theorem foreign_readBack (cid : String) (done : SubmitOutcome ⊕ HandleResolution) :
    Raises Foreign (readBack cid done) := by
  cases done with
  | inl outcome => trivial
  | inr resolution =>
    refine (raises_perform _).bind fun row => ?_
    split
    · rfl
    · trivial

end Router

/-! ## What a rejected submit has seen -/

/-- The dedupe read found no row. -/
def isMiss (cid : String) : Event engineSig → Bool
  | ⟨.store (.fetchOrderResult c), .ok none⟩ => c = cid
  | _ => false

/-- Beyond `h`, the counter of the order answered with more than 1. -/
def Tripped (R : Router) (o : NormalizedOrder) (h h' : History) : Prop :=
  R.settings.duplicateBurstGuardEnabled = true ∧
    ∃ a n b, h' = a ++ ⟨.ext (.redisIncr (R.burstKey o)), .ok n⟩ :: b ∧ h ⊆ a ∧ 1 < n

/-- From `h` on: the guard's rejection comes from a tripped counter only. -/
def Explained {α : Type} (R : Router) (o : NormalizedOrder) (h : History) (r : Except Exn α)
    (h' : History) : Prop :=
  h ⊆ h' ∧ ∀ e, r = .error e → e.hasCode .duplicateBurstDetected = true → Tripped R o h h'

/-- No answer brings the guard's rejection with it. -/
def Outside (ev : Event engineSig) : Prop := ∀ e, ev.res = .error e → Foreign e

section Explained

variable {α β : Type} {R : Router} {o : NormalizedOrder} {h : History}
  {K : Event engineSig → Prop}

theorem Tripped.mono {h' h'' : History} (ht : Tripped R o h' h'') (hsub : h ⊆ h') :
    Tripped R o h h'' := by
  obtain ⟨hon, a, n, b, heq, ha, hn⟩ := ht
  exact ⟨hon, a, n, b, heq, fun _ hx => ha (hsub hx), hn⟩

theorem Foreign.not_burst {e : Exn} (h : Foreign e) :
    ¬e.hasCode .duplicateBurstDetected = true := by
  unfold Foreign at h
  rw [h]
  exact Bool.false_ne_true

theorem wp_foreign {p : Eff α} (hp : Raises Foreign p) :
    wp (Sem.answering Outside) (fun _ _ => True) p
      (fun r h' => h ⊆ h' ∧ ∀ e, r = .error e → Foreign e) h := by
  refine hp.wp (fun _ hx => hx) (fun _ _ _ => trivial) ?_
  rintro h₁ op r h₂ hsub ⟨hout, rfl⟩
  exact ⟨fun _ hx => List.mem_append_left _ (hsub hx), hout⟩

theorem explained_of_foreign {p : Eff α} (hp : Raises Foreign p) :
    wp (Sem.answering Outside) (fun _ _ => True) p (Explained R o h) h :=
  wp_mono (wp_foreign hp) fun _ _ hr =>
    ⟨hr.1, fun e he hcode => ((hr.2 e he).not_burst hcode).elim⟩

theorem explained_bind {p : Eff α} {f : α → Eff β}
    (hp : wp (Sem.answering K) (fun _ _ => True) p (Explained R o h) h)
    (hf : ∀ a h', h ⊆ h' →
      wp (Sem.answering K) (fun _ _ => True) (f a) (Explained R o h') h') :
    wp (Sem.answering K) (fun _ _ => True) (p.bind f) (Explained R o h) h := by
  refine wp_bind.mpr (wp_mono hp fun r h' hr => ?_)
  cases r with
  | error e => exact ⟨hr.1, fun e' he' hcode => hr.2 e (by rfl) (Except.error.inj he' ▸ hcode)⟩
  | ok a =>
    refine wp_mono (hf a h' hr.1) fun r h'' hr' => ?_
    exact ⟨fun _ hx => hr'.1 (hr.1 hx), fun e he hcode => (hr'.2 e he hcode).mono hr.1⟩

theorem explained_lift {x : Except Exn α} (hx : ∀ e, x = .error e → Foreign e) :
    wp (Sem.answering K) (fun _ _ => True) (Eff.lift x) (Explained R o h) h := by
  cases x with
  | ok a => exact ⟨fun _ hm => hm, fun _ he => nomatch he⟩
  | error e =>
    refine ⟨fun _ hm => hm, fun e' he hcode => ?_⟩
    obtain rfl := Except.error.inj he
    exact ((hx e rfl).not_burst hcode).elim

/-- A counter's answer is on record, behind what was there before. -/
theorem incrWithTtl_records (key : String) (ttl : Int) (h : History) :
    wp (Sem.answering K) (fun _ _ => True) (Router.incrWithTtl key ttl)
      (outcome (fun n h' => ∃ a b, h' = a ++ ⟨.ext (.redisIncr key), .ok n⟩ :: b ∧ h ⊆ a)
        fun _ _ => True) h := by
  unfold Router.incrWithTtl
  rw [Prog.bind_eq, wp_bind]
  refine wp_perform.mpr ⟨trivial, fun r h₁ hs => ?_⟩
  obtain ⟨-, rfl⟩ := hs
  cases r with
  | error e => trivial
  | ok n =>
    rw [outcome_ok]
    split
    · rw [Prog.bind_eq, wp_bind]
      refine wp_perform.mpr ⟨trivial, fun r h₂ hs => ?_⟩
      obtain ⟨-, rfl⟩ := hs
      cases r with
      | error e => trivial
      | ok u => exact ⟨h, [⟨.ext (.redisExpire key ttl), .ok u⟩], by simp, fun _ hx => hx⟩
    · exact ⟨h, [], rfl, fun _ hx => hx⟩

/-- What `_windowed_checks` compares with 1 is the answer of the order's own counter. -/
theorem windowedCounts_records (h : History) :
    wp (Sem.answering K) (fun _ _ => True) (R.windowedCounts o)
      (outcome (fun counts h' => ∀ rate burst, counts = some (rate, burst) →
          R.settings.duplicateBurstGuardEnabled = true → ∃ a b,
            h' = a ++ ⟨.ext (.redisIncr (R.burstKey o)), .ok burst⟩ :: b ∧ h ⊆ a)
        fun _ _ => False) h := by
  unfold Router.windowedCounts
  rw [wp_tryExcept, Prog.bind_eq, wp_bind]
  refine wp_perform.mpr ⟨trivial, fun r h₁ hs => ?_⟩
  obtain ⟨-, rfl⟩ := hs
  cases r with
  | error e => exact fun _ _ hc => nomatch hc
  | ok second =>
    rw [outcome_ok, Prog.bind_eq, wp_bind]
    refine wp_mono (incrWithTtl_records _ 2 _) fun r h₂ hr => ?_
    cases r with
    | error e => exact fun _ _ hc => nomatch hc
    | ok rate =>
      obtain ⟨a, b, rfl, hsub⟩ := hr
      rw [outcome_ok, Prog.bind_eq, wp_bind]
      unfold Router.burstCount
      split
      · refine wp_mono (incrWithTtl_records _ _ _) fun r h₃ hr => ?_
        cases r with
        | error e => exact fun _ _ hc => nomatch hc
        | ok burst =>
          obtain ⟨a', b', rfl, hsub'⟩ := hr
          intro rate' burst' hc _
          obtain ⟨rfl, rfl⟩ := Prod.mk.inj (Option.some.inj hc)
          refine ⟨a', b', rfl, fun x hx => hsub' (List.mem_append_left _ (hsub ?_))⟩
          exact List.mem_append_left _ hx
      · rename_i hoff
        exact fun _ _ _ hon => absurd hon hoff

theorem explained_windowedChecks :
    wp (Sem.answering K) (fun _ _ => True) (R.windowedChecks o) (Explained R o h) h := by
  have hgrow : wp (Sem.answering K) (fun _ _ => True) (R.windowedCounts o)
      (fun _ h' => h ⊆ h') h := by
    refine ((uses_univ _).keeps (fun _ hx => hx) (fun _ _ _ _ => trivial) ?_)
    rintro h₁ op r h₂ - hsub ⟨-, rfl⟩
    exact fun _ hx => List.mem_append_left _ (hsub hx)
  unfold Router.windowedChecks
  split
  · rw [Prog.bind_eq, wp_bind]
    refine wp_mono (wp_and hgrow (windowedCounts_records h)) fun r h₁ hr => ?_
    obtain ⟨hsub, hr⟩ := hr
    cases r with
    | error e => exact hr.elim
    | ok counts =>
      have hweaken {r : Except Exn Unit} {h₂ : History} (hx : Explained R o h₁ r h₂) :
          Explained R o h r h₂ :=
        ⟨fun _ hm => hx.1 (hsub hm), fun e he hcode => (hx.2 e he hcode).mono hsub⟩
      rw [outcome_ok]
      cases counts with
      | none => exact wp_mono (explained_lift fun _ => R.foreign_riskBackendDown) fun _ _ => hweaken
      | some counts =>
        obtain ⟨rate, burst⟩ := counts
        dsimp only
        split
        · refine wp_mono (explained_lift (x := .error _) fun e he => ?_) fun _ _ => hweaken
          exact Except.error.inj he ▸ rfl
        · split
          · rename_i hburst
            obtain ⟨hon, hone⟩ := Bool.and_eq_true_iff.mp hburst
            obtain ⟨a, b, hh, ha⟩ := hr rate burst rfl hon
            exact ⟨hsub, fun _ _ _ => ⟨hon, a, burst, b, hh, ha, of_decide_eq_true hone⟩⟩
          · exact ⟨hsub, fun _ he => nomatch he⟩
  · exact explained_lift fun _ => R.foreign_riskBackendDown

theorem explained_riskCheck :
    wp (Sem.answering K) (fun _ _ => True) (R.riskCheck o) (Explained R o h) h := by
  unfold Router.riskCheck
  refine explained_bind (explained_lift fun _ => R.foreign_checkQuantity) fun _ h₁ _ => ?_
  exact explained_bind (explained_lift fun _ => R.foreign_checkNotional) fun _ h₂ _ =>
    explained_windowedChecks

theorem explained_gates :
    wp (Sem.answering Outside) (fun _ _ => True) (R.gates o) (Explained R o h) h := by
  unfold Router.gates
  refine explained_bind (explained_lift fun _ => Router.foreign_lookup) fun caps h₁ _ => ?_
  refine explained_bind (explained_lift fun _ => Router.foreign_assertSupports) fun _ h₂ _ =>
    explained_bind explained_riskCheck fun _ h₃ _ => ?_
  refine explained_of_foreign ((R.foreign_priceBandCheck o).bind fun _ => ?_)
  refine (raises_lift fun _ => R.foreign_resolveAdapter).bind fun a => ?_
  exact (Router.foreign_breakerGuard a).bind fun _ => trivial

/-- A submit that ends with the guard's rejection has found no row, and then its counter running. -/
theorem submit_explained (fuel : Nat) (sid : Option String) :
    wp (Sem.answering Outside) (fun _ _ => True) (R.submit fuel o sid)
      (fun r h' => ∀ e, r = .error e → e.hasCode .duplicateBurstDetected = true →
        ∃ h₁, (∃ ev ∈ h₁, isMiss o.clientOrderId ev = true) ∧ Tripped R o h₁ h') [] := by
  unfold Router.submit
  rw [Prog.bind_eq, wp_bind]
  refine wp_mono (wp_foreign R.foreign_assertDisengaged) fun r h₁ hr => ?_
  cases r with
  | error e =>
    intro e' he' hcode
    obtain rfl := Except.error.inj he'
    exact ((hr.2 e rfl).not_burst hcode).elim
  | ok u =>
    rw [outcome_ok, Prog.bind_eq, wp_bind]
    refine wp_perform.mpr ⟨trivial, fun r h₂ hs => ?_⟩
    obtain ⟨hout, rfl⟩ := hs
    cases r with
    | error e =>
      intro e' he' hcode
      obtain rfl := Except.error.inj he'
      exact ((hout e rfl).not_burst hcode).elim
    | ok existing =>
      rw [outcome_ok]
      cases existing with
      | some row => exact fun e he => nomatch he
      | none =>
        have hrest (a : AdapterId) : Raises Foreign
            ((R.singleFlight ("exe:submit:" ++ o.clientOrderId) (R.submitLocked fuel a o sid)).bind
              (Router.readBack o.clientOrderId)) :=
          (R.foreign_singleFlight _ fun b => R.foreign_submitLocked fuel a o sid b).bind
            fun done => Router.foreign_readBack _ done
        refine wp_mono (explained_bind (R := R) (o := o) explained_gates fun a h₃ _ =>
          explained_of_foreign (hrest a)) fun r h₃ hr e he hcode => ?_
        exact ⟨_, ⟨_, List.mem_append_right _ (List.mem_singleton_self _), by simp [isMiss]⟩,
          hr.2 e he hcode⟩

end Explained

/-! ## Resends -/

section Run

variable {ι : Type} [DecidableEq ι]

/-- The submits of the given orders, each with its own fuel and strategy. -/
def submits (R : Router) (order : ι → NormalizedOrder) (fuel : ι → Nat) (sid : ι → Option String)
    (i : ι) : Request :=
  .submit R (fuel i) (order i) (sid i)

/-- The submit has ended with the guard's rejection. -/
def BurstRejected (P : Pool engineSig Db ι) (i : ι) : Prop :=
  ∃ e, P.threads i = .raise e ∧ e.hasCode .duplicateBurstDetected = true

/-- A submit that has found no row comes to its counter and finds `c` running. -/
def MeetsWindow (R : Router) (order : ι → NormalizedOrder) (clock : Nat → Time) (tr : Trace ι)
    (i : ι) (c : Counter ι) : Prop :=
  ∃ pre n post, tr = pre ++ (i, ⟨.ext (.redisIncr (R.burstKey (order i))), .ok n⟩) :: post ∧
    (∃ ev ∈ localHistory i pre, isMiss (order i).clientOrderId ev = true) ∧
    Counter.running clock (R.burstKey (order i)) pre = some c

variable {E : Env} {env : Db → Db → Prop} {R : Router} {order : ι → NormalizedOrder}
  {fuel : ι → Nat} {sid : ι → Option String} {db : Db} {P : Pool engineSig Db ι}
  {clock : Nat → Time}

/-- The submits of one id are spaced: one that has armed the counter has inserted its row before a
    later one reads, or its window is over when that one comes to the counter. -/
def Spaced (R : Router) (order : ι → NormalizedOrder) (clock : Nat → Time) (tr : Trace ι) : Prop :=
  ∀ i j, (order j).clientOrderId = (order i).clientOrderId →
    ∀ a r b, tr = a ++ (i, ⟨.store (.fetchOrderResult (order i).clientOrderId), r⟩) :: b →
      (∃ ev, (j, ev) ∈ a ∧ isInsertOf (order j).clientOrderId ev = true) ∨
      ∀ pre n post, tr = pre ++ (i, ⟨.ext (.redisIncr (R.burstKey (order i))), .ok n⟩) :: post →
        ∀ pre₁ post₁, pre = pre₁ ++ (j, ⟨.ext (.redisIncr (R.burstKey (order i))), .ok 1⟩) :: post₁ →
          Counter.Over clock (R.burstKey (order i)) (pre₁.length + 1) post₁ (clock pre.length)

/-- What has been inserted is there, and no later read has missed it. -/
def Inserted (db : Db) (tr : Trace ι) : Prop :=
  (∀ x ∈ tr, ∀ cid, isInsertOf cid x.2 = true → (db.find cid).isSome = true) ∧
    ∀ pre x post, tr = pre ++ x :: post → ∀ cid, isMiss cid x.2 = true →
      ∀ y ∈ pre, isInsertOf cid y.2 = false

/-- Behind every rejection of the guard there is a running window. -/
theorem rejected_meets_window
    (hP : PoolReach (sem E) env (engine (submits R order fuel sid) db) P)
    (hout : ∀ x ∈ P.trace, Outside x.2) (hredis : Counter.Served clock P.trace) {i : ι}
    (hi : BurstRejected P i) :
    R.settings.duplicateBurstGuardEnabled = true ∧
      ∃ c, MeetsWindow R order clock P.trace i c := by
  have hprog : ∀ j, wp (Sem.answering Outside) (fun _ _ => True)
      ((engine (submits R order fuel sid) db).threads j)
      (fun r h' => ∀ e, r = .error e → e.hasCode .duplicateBurstDetected = true →
        ∃ h₁, (∃ ev ∈ h₁, isMiss (order j).clientOrderId ev = true) ∧
          Tripped R (order j) h₁ h') [] := by
    intro j
    refine wp_bind.mpr (wp_mono (submit_explained (fuel j) (sid j)) fun r h' hr => ?_)
    cases r with
    | ok out => exact fun e he => nomatch he
    | error er => exact fun e he hcode => hr e (by rw [Except.error.inj he]) hcode
  obtain ⟨e, hthread, hcode⟩ := hi
  have hend := (local_discipline_of rfl hprog hP hout).2 i
  rw [hthread] at hend
  obtain ⟨h₁, ⟨ev, hev, hmiss⟩, hon, a, n, b, hhist, hsub, hn⟩ := hend e rfl hcode
  obtain ⟨pre, post, htr, hpre, -⟩ := localHistory_split hhist
  obtain ⟨c, hc⟩ := Counter.running_of_answered (hredis pre _ post htr) hn
  refine ⟨hon, c, pre, n, post, htr, ⟨ev, ?_, hmiss⟩, hc⟩
  rw [hpre]
  exact hsub hev

/-- Rows that are inserted are found from then on. -/
theorem inserted_run (henv : ∀ s s', env s s' →
      ∀ cid, (s.find cid).isSome = true → (s'.find cid).isSome = true)
    (hP : PoolReach (sem E) env (engine (submits R order fuel sid) db) P) :
    Inserted P.state P.trace := by
  refine pool_invariant ⟨fun x hx => (by cases hx), fun pre x post h => ?_⟩ ?_ ?_ hP
  · exact absurd h (by cases pre <;> simp [engine])
  · rintro s tr i op r s' ⟨hrows, hreads⟩ hstep
    refine ⟨fun x hx cid hins => ?_, forall_split_snoc.mpr ⟨hreads, fun cid hmiss y hy => ?_⟩⟩
    · rcases List.mem_append.mp hx with hx | hx
      · exact step_find_isSome hstep (hrows x hx cid hins)
      · obtain rfl := List.mem_singleton.mp hx
        obtain ⟨o, sid, rfl, heq⟩ := isInsertOf_iff.mp hins
        cases heq
        obtain ⟨-, t, e, he, -⟩ := step_insert_ok hstep
        rw [he]
        rfl
    · by_contra hins
      have hfound := hrows y hy cid (by simpa using hins)
      unfold isMiss at hmiss
      split at hmiss
      · rename_i c heq
        cases heq
        obtain rfl := of_decide_eq_true hmiss
        have hnone := (step_fetchOrderResult hstep).2 none rfl
        obtain ⟨e, he⟩ := Option.isSome_iff_exists.mp hfound
        rw [fetchOrderResult_of_find he] at hnone
        cases hnone
      · cases hmiss
  · rintro s tr s' ⟨hrows, hreads⟩ hs
    exact ⟨fun x hx cid hins => henv s s' hs cid (hrows x hx cid hins), hreads⟩

theorem isMiss_iff {cid : String} {ev : Event engineSig} : isMiss cid ev = true ↔
    ev = ⟨.store (.fetchOrderResult cid), .ok none⟩ := by
  unfold isMiss
  split
  · rename_i c
    rw [decide_eq_true_eq]
    constructor
    · rintro rfl
      rfl
    · intro h
      cases h
      rfl
  · rename_i hother
    refine iff_of_false (by decide) fun h => hother cid h

/-- However any number of submits interleave, beside processes that leave the rows there: if the
    submits of each id are spaced, the guard rejects an order only in a window that another id has
    armed; submits of one id are not rejected at all. -/
theorem resends_unrejected
    (henv : ∀ s s', env s s' →
      ∀ cid, (s.find cid).isSome = true → (s'.find cid).isSome = true)
    (hP : PoolReach (sem E) env (engine (submits R order fuel sid) db) P)
    (hout : ∀ x ∈ P.trace, Outside x.2) (hredis : Counter.Served clock P.trace)
    (hspaced : R.settings.duplicateBurstGuardEnabled = true → Spaced R order clock P.trace) :
    (∀ i, BurstRejected P i → ∃ c, MeetsWindow R order clock P.trace i c ∧
      (order c.armedBy).clientOrderId ≠ (order i).clientOrderId) ∧
    ((∀ i j, (order i).clientOrderId = (order j).clientOrderId) → ∀ i, ¬BurstRejected P i) := by
  have hother : ∀ i, BurstRejected P i → ∃ c, MeetsWindow R order clock P.trace i c ∧
      (order c.armedBy).clientOrderId ≠ (order i).clientOrderId := by
    intro i hi
    obtain ⟨hon, c, hmeets⟩ := rejected_meets_window hP hout hredis hi
    refine ⟨c, hmeets, fun hsame => ?_⟩
    obtain ⟨pre, n, post, htr, ⟨ev, hev, hmiss⟩, hrun⟩ := hmeets
    obtain ⟨pre₁, m, post₁, hpre, hnone, hover⟩ := Counter.armed_of_running hrun
    -- the counter was armed with the answer 1
    have hm : m = 1 := by
      have hcount := hredis pre₁ (c.armedBy, ⟨_, .ok m⟩) (post₁ ++ (i, ⟨_, .ok n⟩) :: post)
        (by rw [htr, hpre, List.append_assoc, List.cons_append])
      simpa [Counter.answered, hnone, Counter.shown] using hcount
    subst hm
    obtain ⟨a, b, hab⟩ := List.append_of_mem (mem_localHistory.mp hev)
    have hread : P.trace = a ++ (i, ev) :: (b ++ (i, ⟨_, .ok n⟩) :: post) := by
      rw [htr, hab, List.append_assoc, List.cons_append]
    rcases hspaced hon i c.armedBy hsame a (.ok none) _ (isMiss_iff.mp hmiss ▸ hread) with
      ⟨ev', hmem, hins⟩ | hspaced
    · have hunseen := (inserted_run henv hP).2 a (i, ev) _ hread _ hmiss _ hmem
      rw [← hsame, hins] at hunseen
      cases hunseen
    · exact hover (hspaced pre n post htr pre₁ post₁ hpre)
  refine ⟨hother, fun hsame i hi => ?_⟩
  obtain ⟨c, -, hne⟩ := hother i hi
  exact hne (hsame _ _)

omit [DecidableEq ι] in
theorem outside_of_ok {tr : Trace ι} (h : (tr.all fun x => x.2.res.isOk) = true) :
    ∀ x ∈ tr, Outside x.2 := by
  intro x hx e he
  have hok := List.all_eq_true.mp h x hx
  rw [he] at hok
  cases hok

end Run

/-- An INCR comes when every window that its key was given before is over. -/
def Counter.afresh {ι : Type} (clock : Nat → Time) (pre : Trace ι) (x : ι × Event engineSig) : Bool :=
  match x.2.op with
  | .ext (.redisIncr key) => (List.range pre.length).all fun n =>
    ((pre[n]?).all fun y => match y.2.op with
      | .ext (.redisIncr key') => key' ≠ key
      | _ => true) ||
    (Counter.deadlines clock key (n + 1) (pre.drop (n + 1))).getLast?.any fun d =>
      d ≤ clock pre.length
  | _ => true

theorem spaced_of_afresh {ι : Type} {R : Router} {order : ι → NormalizedOrder}
    {clock : Nat → Time} {tr : Trace ι}
    (h : ∀ pre x post, tr = pre ++ x :: post → Counter.afresh clock pre x = true) :
    Spaced R order clock tr := by
  refine fun i j _ a r b _ => .inr fun pre n post htr pre₁ post₁ hpre => ?_
  have hfresh := h pre _ post htr
  simp only [Counter.afresh, List.all_eq_true, List.mem_range] at hfresh
  have hat := hfresh pre₁.length (by rw [hpre]; simp)
  have hget : pre[pre₁.length]? =
      some (j, ⟨.ext (.redisIncr (R.burstKey (order i))), .ok 1⟩) := by rw [hpre]; simp
  have hdrop : pre.drop (pre₁.length + 1) = post₁ := by rw [hpre]; simp
  rw [hget, hdrop] at hat
  simpa [Counter.Over, Option.any_eq_true] using hat

/-- The breaker of the venue is open or closed, at a time. -/
def breakerHandler (isOpen : Bool) (t : Time) : Handler where
  time := t
  ext _ o := match o with
    | .breakerOpen _ => .ok isOpen
    | o => plainExt t (fun _ => {}) [] o

/-- Three submits of one order: the breaker refuses the first; ten seconds later the second is
    inserted between the third's kill-switch read and its dedupe read. -/
def refusedRun : Pool engineSig Db (Fin 3) :=
  runPool (breakerHandler false 10000000).step ([2] ++ List.replicate 10 1 ++ [2])
    (runPool (breakerHandler true 0).step (List.replicate 8 0)
      (engine (submits simRouter (fun _ => sampleOrderA .sim) (fun _ => 0) fun _ => none) Db.empty))

/-- The first eight events are the first submit's. -/
def refusedClock (n : Nat) : Time := if n < 8 then 0 else 10000000

theorem later_resends_unrejected :
    (∃ e, refusedRun.threads 0 = .raise e ∧ e.hasCode .brokerCircuitOpen = true) ∧
      refusedRun.threads 2 = .ret () ∧
      ∀ i, ¬BurstRejected refusedRun i := by
  have hreach : PoolReach (sem plainEnv) closed
      (engine (submits simRouter (fun _ => sampleOrderA .sim) (fun _ => 0) fun _ => none) Db.empty)
      refusedRun :=
    (runPool_reach (plain_follows (breakerHandler true 0)) _ _).trans
      (runPool_reach (plain_follows (breakerHandler false 10000000)) _ _)
  have hredis : Counter.Served refusedClock refusedRun.trace :=
    forall_split_iff.mpr (by decide +kernel)
  have hspaced : Spaced simRouter (fun _ => sampleOrderA .sim) refusedClock refusedRun.trace :=
    spaced_of_afresh (forall_split_iff.mpr (by decide +kernel))
  exact ⟨⟨_, rfl, rfl⟩, rfl, (resends_unrejected (fun _ _ h => h.elim) hreach
    (outside_of_ok (by decide +kernel)) hredis fun _ => hspaced).2 fun _ _ => rfl⟩

/-- Redis within one window: the keys are at 1 once the first sample order is in. -/
def armedHandler : Handler where
  time := 0
  ext db o := match o with
    | .redisIncr _ => .ok (if (db.find cidA).isSome then 2 else 1)
    | o => plainExt 0 (fun _ => {}) [] o

/-- Two submits of the first sample order under a schedule. -/
def resendRun (schedule : List Bool) : Pool engineSig Db Bool :=
  runPool armedHandler.step schedule
    (engine (submits simRouter (fun _ => sampleOrderA .sim) (fun _ => 0) fun _ => none) Db.empty)

theorem resendRun_reach (schedule : List Bool) :
    PoolReach (sem plainEnv) closed
      (engine (submits simRouter (fun _ => sampleOrderA .sim) (fun _ => 0) fun _ => none) Db.empty)
      (resendRun schedule) :=
  runPool_reach (plain_follows armedHandler) _ _

/-- The kill-switch key is unset and the rate counters stay within the cap. -/
def unhindered {ι : Type} (R : Router) (tr : Trace ι) : Bool :=
  tr.all fun x => match x.2 with
    | ⟨.ext (.redisGet _), .ok v⟩ => v.isNone
    | ⟨.ext (.redisIncr _), .ok n⟩ => n ≤ R.settings.riskMaxOrdersPerSecond
    | _ => true

/-- Both submits of the one order read before either inserts: the second is rejected as a
    duplicate of itself. -/
theorem racing_resend_rejected :
    ∃ P, PoolReach (sem plainEnv) closed
        (engine (submits simRouter (fun _ : Bool => sampleOrderA .sim) (fun _ => 0) fun _ => none)
          Db.empty) P ∧
      (P.trace.all fun x => x.2.res.isOk) = true ∧ unhindered simRouter P.trace = true ∧
      Counter.Served (fun _ => 0) P.trace ∧ BurstRejected P true := by
  refine ⟨resendRun ([false, false, true, true] ++ List.replicate 8 false ++
    [true, true, true]), resendRun_reach _,
    by decide +kernel, by decide +kernel, forall_split_iff.mpr (by decide +kernel), ?_⟩
  exact ⟨_, rfl, rfl⟩

end ExecutionEngine
