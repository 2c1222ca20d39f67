/-
  The deadlines of windowed counters.

  `incr_with_ttl` is two commands: INCR, and EXPIRE if the answer was 1. Whoever is
  answered with 1 and has not come to its EXPIRE stands at the arming of the key
  (`standing`), and nobody else will arm it. A caller that crashes there stands
  there for ever.

  Redis may fail a command before or after carrying it out; `lost n` says that of
  the `n`-th command only the answer was lost, and `seen` is the trace as Redis saw
  it. A key is at any time in one of three stages (`Stage`): absent or with a
  deadline, waiting for its one caller, or left without a deadline by a step that
  `drops` it, and then for good.
-/
import Mathlib.Data.List.Induction
import ExecutionEngine.Core.BurstGuard

namespace ExecutionEngine

open Async Async.Prog

namespace Windows

/-! ## Who stands at the arming of a key -/

/-- The key that an INCR has found absent, as its caller was told. -/
def created : Event engineSig → Option String
  | ⟨.ext (.redisIncr key), .ok n⟩ => if n = 1 then some key else none
  | _ => none

/-- The key that an operation gives its deadline. -/
def arming : EngineOp → Option String
  | .ext (.redisExpire key _) => some key
  | _ => none

/-- The key a caller has created with its last operation. -/
def standing (h : History) : Option String := h.getLast?.bind created

/-- EXPIRE comes next after an INCR answered with 1, and nowhere else; a burst key is armed for
    one window. -/
def Orderly (R : Router) (h : History) (op : EngineOp) : Prop :=
  arming op = standing h ∧ ∀ o ttlSeconds, op = .ext (.redisExpire (R.burstKey o) ttlSeconds) →
    ttlSeconds = R.settings.duplicateBurstWindowSeconds

@[simp] theorem standing_nil : standing [] = none := rfl

@[simp] theorem standing_snoc (h : History) (ev : Event engineSig) :
    standing (h ++ [ev]) = created ev := by
  simp [standing]

/-- A program that leaves no key unarmed behind, unless it is stopped. -/
def Arms {α : Type} (R : Router) (p : Eff α) : Prop :=
  ∀ h, standing h = none → wp Sem.free (Orderly R) p (fun _ h' => standing h' = none) h

section Check

variable {α β : Type} {R : Router} {o : NormalizedOrder}

theorem Arms.bind {p : Eff α} {f : α → Eff β} (hp : Arms R p) (hf : ∀ a, Arms R (f a)) :
    Arms R (p.bind f) :=
  fun h hh => wp_seq (wp_outcome (hp h hh) fun _ _ hh' => hh') fun a h' => hf a h'

theorem Arms.tryExcept {p : Eff α} {f : Exn → Eff α} (hp : Arms R p) (hf : ∀ e, Arms R (f e)) :
    Arms R (p.tryExcept f) :=
  fun h hh => wp_tryExcept.mpr (wp_outcome (hp h hh) fun e h' => hf e h')

theorem arms_ret (a : α) : Arms R (.ret a) := fun _ hh => hh

theorem arms_lift (x : Except Exn α) : Arms R (Eff.lift x) := by
  intro h hh
  cases x <;> exact hh

theorem arms_unixTime : Arms R (Eff.ext .unixTime) := by
  intro h hh
  refine wp_perform.mpr ⟨⟨hh.symm, fun _ _ he => nomatch he⟩, fun r h' hs => ?_⟩
  rw [show h' = h ++ [⟨.ext .unixTime, r⟩] from hs]
  exact standing_snoc h _

/-- `incr_with_ttl` ends behind its EXPIRE, or needs none. -/
theorem arms_incrWithTtl {key : String} {ttlSeconds : Int}
    (hkey : ∀ o, key = R.burstKey o → ttlSeconds = R.settings.duplicateBurstWindowSeconds) :
    Arms R (Router.incrWithTtl key ttlSeconds) := by
  intro h hh
  unfold Router.incrWithTtl
  rw [Prog.bind_eq, wp_bind]
  refine wp_perform.mpr ⟨⟨hh.symm, fun _ _ he => nomatch he⟩, fun r h₁ hs => ?_⟩
  rw [show h₁ = h ++ [⟨.ext (.redisIncr key), r⟩] from hs]
  cases r with
  | error e => exact standing_snoc h _
  | ok n =>
    have hstand : standing (h ++ [⟨.ext (.redisIncr key), .ok n⟩]) =
        if n = 1 then some key else none := standing_snoc h _
    rw [outcome_ok]
    by_cases hn : n = 1
    · rw [if_pos hn] at hstand
      rw [if_pos hn, Prog.bind_eq, wp_bind]
      refine wp_perform.mpr ⟨⟨hstand.symm, fun o ttl he => ?_⟩, fun r h₂ hs => ?_⟩
      · cases he
        exact hkey o rfl
      · rw [show h₂ = _ ++ [⟨.ext (.redisExpire key ttlSeconds), r⟩] from hs]
        cases r <;> exact standing_snoc _ _
    · rw [if_neg hn] at hstand
      rw [if_neg hn]
      exact hstand

/-- A rate key is no burst key. -/
theorem rateKey_ne (second : String) : "exe:rate:" ++ second ≠ R.burstKey o := by
  intro heq
  have hchar := congrArg (fun s : String => s.toList[4]?) heq
  unfold Router.burstKey at hchar
  simp [String.toList_append] at hchar

theorem arms_windowedCounts : Arms R (R.windowedCounts o) := by
  refine Arms.tryExcept (arms_unixTime.bind fun second => ?_) fun _ => arms_ret none
  refine (arms_incrWithTtl fun o heq => (rateKey_ne _ heq).elim).bind fun rate => ?_
  refine Arms.bind ?_ fun burst => arms_ret _
  unfold Router.burstCount
  split
  · exact arms_incrWithTtl fun _ _ => rfl
  · exact arms_ret 0

theorem arms_riskCheck : Arms R (R.riskCheck o) := by
  refine (arms_lift _).bind fun _ => (arms_lift _).bind fun _ => ?_
  unfold Router.windowedChecks
  split
  · refine arms_windowedCounts.bind fun counts => ?_
    cases counts with
    | none => exact arms_lift _
    | some counts =>
      dsimp only
      split
      · exact arms_lift (.error _)
      · split
        · exact arms_lift (.error _)
        · exact arms_ret ()
  · exact arms_lift _

end Check

/-! ## The keys as Redis has them -/

/-- Redis has carried the command out, whatever its caller was told. -/
def carriedOut : Event engineSig → Event engineSig
  | ⟨.ext (.redisIncr key), .error _⟩ => ⟨.ext (.redisIncr key), .ok 0⟩
  | ⟨.ext (.redisExpire key ttlSeconds), .error _⟩ => ⟨.ext (.redisExpire key ttlSeconds), .ok ()⟩
  | ev => ev

section Keys

variable {ι : Type} (clock : Nat → Time) (lost : Nat → Bool) (key : String)

/-- The `n`-th event as Redis saw it. -/
def seenAt (n : Nat) (x : ι × Event engineSig) : ι × Event engineSig :=
  if lost n then (x.1, carriedOut x.2) else x

def seen (tr : Trace ι) : Trace ι := tr.mapIdx (seenAt lost)

/-- The key after `tr`, gone or not. -/
def stored (tr : Trace ι) : Option (Counter ι) := Counter.after clock key (seen lost tr)

/-- The key that the next event finds in Redis. -/
def present (tr : Trace ι) : Option (Counter ι) :=
  Counter.live (clock tr.length) (stored clock lost key tr)

/-- Whoever is answered by an INCR is told the value of the key. -/
def counted (pre : Trace ι) (x : ι × Event engineSig) : Bool :=
  match x.2 with
  | ⟨.ext (.redisIncr key), .ok n⟩ => n = Counter.shown (present clock lost key pre) + 1
  | _ => true

/-- The event leaves the key in Redis with nobody to arm it: EXPIRE has failed, or the answer to
    the INCR that creates the key is lost. -/
def drops (pre : Trace ι) (x : ι × Event engineSig) : Bool :=
  match x.2 with
  | ⟨.ext (.redisExpire key' _), .error _⟩ => key' = key && !lost pre.length
  | ⟨.ext (.redisIncr key'), .error _⟩ =>
    key' = key && lost pre.length && (present clock lost key pre).isNone
  | _ => false

/-- The INCR or the EXPIRE of a key. -/
def touches : EngineOp → Bool
  | .ext (.redisIncr key') => key' = key
  | .ext (.redisExpire key' _) => key' = key
  | _ => false

variable {clock lost key} {tr : Trace ι} {i : ι}

theorem seenAt_op (n : Nat) (x : ι × Event engineSig) : (seenAt lost n x).2.op = x.2.op := by
  obtain ⟨i, op, r⟩ := x
  unfold seenAt carriedOut
  split
  · dsimp only
    split
    · rename_i heq
      exact congrArg Event.op heq.symm
    · rename_i heq
      exact congrArg Event.op heq.symm
    · rfl
  · rfl

theorem stored_snoc (x : ι × Event engineSig) :
    stored clock lost key (tr ++ [x]) =
      Counter.step key (clock tr.length) (stored clock lost key tr) (seenAt lost tr.length x) := by
  simp [stored, seen, Counter.after, List.mapIdx_append, List.zipIdx_append]

theorem step_aside {t : Time} {k : Option (Counter ι)} {x : ι × Event engineSig}
    (h : touches key x.2.op = false) : Counter.step key t k x = k := by
  unfold Counter.step
  split
  · rename_i heq
    rw [heq] at h
    exact if_neg (of_decide_eq_false h)
  · rename_i heq
    rw [heq] at h
    exact if_neg (of_decide_eq_false h)
  · rfl

theorem touches_cases {op : EngineOp} (h : touches key op = true) :
    op = .ext (.redisIncr key) ∨ ∃ ttl, op = .ext (.redisExpire key ttl) := by
  unfold touches at h
  split at h
  · exact .inl (by rw [of_decide_eq_true h])
  · rename_i ttl
    exact .inr ⟨ttl, by rw [of_decide_eq_true h]⟩
  · cases h

/-- What one event does to a key. -/
inductive KeyEvent (clock : Nat → Time) (lost : Nat → Bool) (key : String) (tr : Trace ι) (i : ι) :
    Event engineSig → Option (Counter ι) → Prop where
  | aside {ev : Event engineSig} (hc : created ev ≠ some key) (ha : arming ev.op ≠ some key)
      (hd : drops clock lost key tr (i, ev) = false) :
      KeyEvent clock lost key tr i ev (stored clock lost key tr)
  | create {n : Int} (hp : present clock lost key tr = none)
      (hc : created ⟨.ext (.redisIncr key), .ok n⟩ = some key) :
      KeyEvent clock lost key tr i ⟨.ext (.redisIncr key), .ok n⟩
        (some { armedBy := i, value := 1 })
  | createLost {e : Exn} (hp : present clock lost key tr = none)
      (hd : drops clock lost key tr (i, ⟨.ext (.redisIncr key), .error e⟩) = true) :
      KeyEvent clock lost key tr i ⟨.ext (.redisIncr key), .error e⟩
        (some { armedBy := i, value := 1 })
  | advance {c : Counter ι} {r : Except Exn Int} (hp : present clock lost key tr = some c)
      (hc : created ⟨.ext (.redisIncr key), r⟩ = none)
      (hd : drops clock lost key tr (i, ⟨.ext (.redisIncr key), r⟩) = false) :
      KeyEvent clock lost key tr i ⟨.ext (.redisIncr key), r⟩
        (some { c with value := c.value + 1 })
  | arm {ttl : Int} {r : Except Exn Unit}
      (hd : drops clock lost key tr (i, ⟨.ext (.redisExpire key ttl), r⟩) = false) :
      KeyEvent clock lost key tr i ⟨.ext (.redisExpire key ttl), r⟩
        ((present clock lost key tr).map fun c =>
          { c with expires := some (clock tr.length + ttl * 1000000) })
  | fail {ttl : Int} {e : Exn}
      (hd : drops clock lost key tr (i, ⟨.ext (.redisExpire key ttl), .error e⟩) = true) :
      KeyEvent clock lost key tr i ⟨.ext (.redisExpire key ttl), .error e⟩
        (stored clock lost key tr)

theorem created_touches {ev : Event engineSig} (h : created ev = some key) :
    touches key ev.op = true := by
  unfold created at h
  split at h
  · split at h
    · exact decide_eq_true (Option.some.inj h)
    · cases h
  · cases h

theorem arming_touches {op : EngineOp} (h : arming op = some key) : touches key op = true := by
  unfold arming at h
  split at h
  · exact decide_eq_true (Option.some.inj h)
  · cases h

theorem drops_touches {x : ι × Event engineSig} (h : drops clock lost key tr x = true) :
    touches key x.2.op = true := by
  unfold drops at h
  split at h
  · rename_i heq
    rw [heq]
    exact (Bool.and_eq_true_iff.mp h).1
  · rename_i heq
    rw [heq]
    exact (Bool.and_eq_true_iff.mp (Bool.and_eq_true_iff.mp h).1).1
  · cases h

theorem live_some {t : Time} {k : Option (Counter ι)} {c : Counter ι}
    (h : Counter.live t k = some c) : k = some c ∧ c.expires.all (fun d => t < d) = true :=
  Option.filter_eq_some_iff.mp h

theorem step_fresh {t : Time} {k : Option (Counter ι)} {n : Int}
    (h : Counter.live t k = none) :
    Counter.step key t k (i, ⟨.ext (.redisIncr key), .ok n⟩) =
      some { armedBy := i, value := 1 } := by
  simp [Counter.step, h]

theorem step_next {t : Time} {k : Option (Counter ι)} {c : Counter ι} {n : Int}
    (h : Counter.live t k = some c) :
    Counter.step key t k (i, ⟨.ext (.redisIncr key), .ok n⟩) =
      some { c with value := c.value + 1 } := by
  simp [Counter.step, h]

theorem seenAt_kept {n : Nat} (h : lost n = false) (x : ι × Event engineSig) :
    seenAt lost n x = x := by
  simp [seenAt, h]

theorem seenAt_lost {n : Nat} (h : lost n = true) (x : ι × Event engineSig) :
    seenAt lost n x = (x.1, carriedOut x.2) := by
  simp [seenAt, h]

theorem seenAt_incr_ok {n : Nat} {k : Int} :
    seenAt lost n (i, ⟨.ext (.redisIncr key), .ok k⟩) = (i, ⟨.ext (.redisIncr key), .ok k⟩) := by
  simp [seenAt, carriedOut]

theorem seenAt_expire_ok {n : Nat} {ttl : Int} {u : Unit} :
    seenAt lost n (i, ⟨.ext (.redisExpire key ttl), .ok u⟩) =
      (i, ⟨.ext (.redisExpire key ttl), .ok u⟩) := by
  simp [seenAt, carriedOut]

theorem drops_incr {e : Exn} :
    drops clock lost key tr (i, ⟨.ext (.redisIncr key), .error e⟩) =
      (lost tr.length && (present clock lost key tr).isNone) := by
  simp [drops]

theorem drops_expire {ttl : Int} {e : Exn} :
    drops clock lost key tr (i, ⟨.ext (.redisExpire key ttl), .error e⟩) = !lost tr.length := by
  simp [drops]

theorem keyEvent_incr {r : Except Exn Int}
    (hpos : ∀ c, stored clock lost key tr = some c → 1 ≤ c.value)
    (hc : counted clock lost tr (i, ⟨.ext (.redisIncr key), r⟩) = true) :
    KeyEvent clock lost key tr i ⟨.ext (.redisIncr key), r⟩
      (stored clock lost key (tr ++ [(i, ⟨.ext (.redisIncr key), r⟩)])) := by
  cases r with
  | ok n =>
    have hn : n = Counter.shown (present clock lost key tr) + 1 := of_decide_eq_true hc
    rw [stored_snoc, seenAt_incr_ok]
    cases hp : present clock lost key tr with
    | none =>
      rw [hp, Counter.shown] at hn
      rw [step_fresh hp]
      have hone : n = 1 := by omega
      exact .create hp (if_pos hone)
    | some c =>
      rw [hp, Counter.shown] at hn
      rw [step_next hp]
      have := hpos c (live_some hp).1
      have hne : n ≠ 1 := by omega
      exact .advance hp (if_neg hne) rfl
  | error e =>
    cases hl : lost tr.length with
    | false =>
      rw [stored_snoc, seenAt_kept hl]
      refine .aside (fun h => ?_) (fun h => ?_) (by rw [drops_incr, hl, Bool.false_and])
      · cases h
      · cases h
    | true =>
      rw [stored_snoc, seenAt_lost hl]
      cases hp : present clock lost key tr with
      | none =>
        show KeyEvent clock lost key tr i _ (Counter.step key _ _ (i, ⟨.ext (.redisIncr key), .ok 0⟩))
        rw [step_fresh hp]
        exact .createLost hp (by rw [drops_incr, hl, hp]; rfl)
      | some c =>
        show KeyEvent clock lost key tr i _ (Counter.step key _ _ (i, ⟨.ext (.redisIncr key), .ok 0⟩))
        rw [step_next hp]
        exact .advance hp rfl (by rw [drops_incr, hp, Option.isNone_some, Bool.and_false])

theorem step_expire {t : Time} {k : Option (Counter ι)} {ttl : Int} {u : Unit} :
    Counter.step key t k (i, ⟨.ext (.redisExpire key ttl), .ok u⟩) =
      (Counter.live t k).map fun c => { c with expires := some (t + ttl * 1000000) } := by
  simp [Counter.step]

theorem keyEvent_expire {ttl : Int} {r : Except Exn Unit} :
    KeyEvent clock lost key tr i ⟨.ext (.redisExpire key ttl), r⟩
      (stored clock lost key (tr ++ [(i, ⟨.ext (.redisExpire key ttl), r⟩)])) := by
  cases r with
  | ok u =>
    rw [stored_snoc, seenAt_expire_ok, step_expire]
    exact .arm rfl
  | error e =>
    cases hl : lost tr.length with
    | false =>
      rw [stored_snoc, seenAt_kept hl]
      exact .fail (by rw [drops_expire, hl]; rfl)
    | true =>
      rw [stored_snoc, seenAt_lost hl]
      show KeyEvent clock lost key tr i _
        (Counter.step key _ _ (i, ⟨.ext (.redisExpire key ttl), .ok ()⟩))
      rw [step_expire]
      exact .arm (by rw [drops_expire, hl]; rfl)

theorem keyEvent_of {ev : Event engineSig}
    (hpos : ∀ c, stored clock lost key tr = some c → 1 ≤ c.value)
    (hc : counted clock lost tr (i, ev) = true) :
    KeyEvent clock lost key tr i ev (stored clock lost key (tr ++ [(i, ev)])) := by
  cases ht : touches key ev.op with
  | false =>
    have hseen : touches key (seenAt lost tr.length (i, ev)).2.op = false := by
      rw [seenAt_op]
      exact ht
    rw [stored_snoc, step_aside hseen]
    refine .aside (fun h => ?_) (fun h => ?_) (Bool.eq_false_iff.mpr fun h => ?_)
    · exact absurd (created_touches h) (by rw [ht]; exact Bool.false_ne_true)
    · exact absurd (arming_touches h) (by rw [ht]; exact Bool.false_ne_true)
    · exact absurd (drops_touches h) (by rw [ht]; exact Bool.false_ne_true)
  | true =>
    obtain ⟨op, r⟩ := ev
    obtain rfl | ⟨ttl, rfl⟩ := touches_cases ht
    · exact keyEvent_incr hpos hc
    · exact keyEvent_expire

end Keys

/-! ## The stages of a key -/

/-- Redis counts: every answer to an INCR is the value of its key. -/
def Counts {ι : Type} (clock : Nat → Time) (lost : Nat → Bool) (tr : Trace ι) : Prop :=
  ∀ pre x post, tr = pre ++ x :: post → counted clock lost pre x = true

/-- No event of the trace has dropped the key. -/
def Kept {ι : Type} (clock : Nat → Time) (lost : Nat → Bool) (key : String) (tr : Trace ι) : Prop :=
  ∀ pre x post, tr = pre ++ x :: post → drops clock lost key pre x = false

/-- Who created a counter, and its deadline. -/
def marks {ι : Type} : Option (Counter ι) → Option (ι × Option Time) :=
  Option.map fun c => (c.armedBy, c.expires)

/-- The stages of a key, by its marks, by who stands at its arming and by whether it was kept. -/
inductive KeyStage {ι : Type} (m : Option (ι × Option Time)) (stands : ι → Prop) (kept : Prop) :
    Prop where
  | settled (hm : ∀ i, m ≠ some (i, none)) (hs : ∀ j, ¬stands j) (hk : kept)
  | waiting {i : ι} (hm : m = some (i, none)) (hs : ∀ j, stands j ↔ j = i) (hk : kept)
  | orphaned {i : ι} (hm : m = some (i, none)) (hs : ∀ j, ¬stands j) (hk : ¬kept)

section Stages

variable {ι : Type} [DecidableEq ι] {clock : Nat → Time} {lost : Nat → Bool} {key : String}
  {tr : Trace ι} {i : ι} {c : Counter ι} {ev : Event engineSig} {R : Router}

/-- The stage of a key after `tr`. -/
def Staged (clock : Nat → Time) (lost : Nat → Bool) (key : String) (tr : Trace ι) : Prop :=
  KeyStage (marks (stored clock lost key tr))
    (fun i => standing (localHistory i tr) = some key) (Kept clock lost key tr)

/-- The INCR that created the counter, with nobody told 1 since; and where it was armed, if it
    has a deadline. -/
def Since (clock : Nat → Time) (lost : Nat → Bool) (key : String) (tr : Trace ι) (c : Counter ι) :
    Prop :=
  ∃ a r b, tr = a ++ (c.armedBy, ⟨.ext (.redisIncr key), r⟩) :: b ∧
    present clock lost key a = none ∧ (∀ x ∈ b, created x.2 ≠ some key) ∧
    ∀ d, c.expires = some d → ∃ b₁ ttl r' b₂,
      b = b₁ ++ (c.armedBy, ⟨.ext (.redisExpire key ttl), r'⟩) :: b₂ ∧
        d = clock (a.length + 1 + b₁.length) + ttl * 1000000

omit [DecidableEq ι] in
theorem kept_snoc {x : ι × Event engineSig} : Kept clock lost key (tr ++ [x]) ↔
    Kept clock lost key tr ∧ drops clock lost key tr x = false := forall_split_snoc

theorem standing_self (ev : Event engineSig) :
    standing (localHistory i (tr ++ [(i, ev)])) = created ev := by
  rw [localHistory_append, localHistory_self, standing_snoc]

theorem standing_ne {j : ι} (h : j ≠ i) (ev : Event engineSig) :
    standing (localHistory j (tr ++ [(i, ev)])) = standing (localHistory j tr) := by
  rw [localHistory_append, localHistory_ne h.symm, List.append_nil]

/-- Who has not come to stand at the arming of a key, nor left it. -/
theorem standing_iff (h : standing (localHistory i tr) ≠ some key) (hc : created ev ≠ some key)
    (j : ι) : standing (localHistory j (tr ++ [(i, ev)])) = some key ↔
      standing (localHistory j tr) = some key := by
  by_cases hj : j = i
  · subst hj
    rw [standing_self]
    exact ⟨fun h' => absurd h' hc, fun h' => absurd h' h⟩
  · rw [standing_ne hj]

omit [DecidableEq ι] in
theorem present_of_marks (h : marks (stored clock lost key tr) = some (i, none)) :
    ∃ c, present clock lost key tr = some c ∧ stored clock lost key tr = some c ∧
      c.armedBy = i ∧ c.expires = none := by
  obtain ⟨c, hc, hmarks⟩ := Option.map_eq_some_iff.mp h
  obtain ⟨harmed, hexp⟩ := Prod.mk.inj hmarks
  refine ⟨c, ?_, hc, harmed, hexp⟩
  exact Option.filter_eq_some_iff.mpr ⟨hc, by rw [hexp]; rfl⟩

/-- An event that leaves the marks, the callers and the fate of a key alone leaves its stage. -/
theorem Staged.same (h : Staged clock lost key tr)
    (hm : marks (stored clock lost key (tr ++ [(i, ev)])) = marks (stored clock lost key tr))
    (hs : standing (localHistory i tr) ≠ some key) (hc : created ev ≠ some key)
    (hd : drops clock lost key tr (i, ev) = false) :
    Staged clock lost key (tr ++ [(i, ev)]) := by
  have hkept : Kept clock lost key (tr ++ [(i, ev)]) ↔ Kept clock lost key tr :=
    kept_snoc.trans (and_iff_left hd)
  have hstand (j : ι) : standing (localHistory j (tr ++ [(i, ev)])) = some key ↔
      standing (localHistory j tr) = some key := standing_iff hs hc j
  unfold Staged
  rw [hm]
  cases h with
  | settled hm hs hk => exact .settled hm (fun j hj => hs j ((hstand j).mp hj)) (hkept.mpr hk)
  | waiting hm hs hk => exact .waiting hm (fun j => (hstand j).trans (hs j)) (hkept.mpr hk)
  | orphaned hm hs hk =>
    exact .orphaned hm (fun j hj => hs j ((hstand j).mp hj)) fun hk' => hk (hkept.mp hk')

/-- A key that is not in Redis is settled. -/
theorem Staged.absent (h : Staged clock lost key tr) (hp : present clock lost key tr = none) :
    (∀ j, standing (localHistory j tr) ≠ some key) ∧ Kept clock lost key tr := by
  cases h with
  | settled hm hs hk => exact ⟨hs, hk⟩
  | waiting hm hs hk =>
    obtain ⟨c, hc, -⟩ := present_of_marks hm
    rw [hp] at hc
    cases hc
  | orphaned hm hs hk =>
    obtain ⟨c, hc, -⟩ := present_of_marks hm
    rw [hp] at hc
    cases hc

/-- Whoever stands at the arming of a key has created it, and stands there alone. -/
theorem Staged.alone (h : Staged clock lost key tr) (hi : standing (localHistory i tr) = some key) :
    (∃ c, present clock lost key tr = some c ∧ stored clock lost key tr = some c ∧
      c.armedBy = i ∧ c.expires = none) ∧
      (∀ j, standing (localHistory j tr) = some key → j = i) ∧ Kept clock lost key tr := by
  cases h with
  | settled hm hs hk => exact (hs i hi).elim
  | waiting hm hs hk =>
    obtain rfl := (hs i).mp hi
    exact ⟨present_of_marks hm, fun j hj => (hs j).mp hj, hk⟩
  | orphaned hm hs hk => exact (hs i hi).elim

/-- One event takes a key from stage to stage. -/
theorem Staged.step (h : Staged clock lost key tr)
    (hev : KeyEvent clock lost key tr i ev (stored clock lost key (tr ++ [(i, ev)])))
    (hord : arming ev.op = standing (localHistory i tr)) :
    Staged clock lost key (tr ++ [(i, ev)]) := by
  generalize hcell : stored clock lost key (tr ++ [(i, ev)]) = cell at hev
  cases hev with
  | aside hc ha hd => exact h.same (by rw [hcell]) (hord ▸ ha) hc hd
  | advance hp hc hd =>
    refine h.same ?_ (hord ▸ nofun) (by rw [hc]; nofun) hd
    rw [hcell, (live_some hp).1]
    rfl
  | create hp hc =>
    obtain ⟨hs, hk⟩ := h.absent hp
    refine .waiting (i := i) (by rw [hcell]; rfl) (fun j => ?_) (kept_snoc.mpr ⟨hk, rfl⟩)
    by_cases hj : j = i
    · subst hj
      rw [standing_self]
      exact iff_of_true hc rfl
    · rw [standing_ne hj]
      exact iff_of_false (hs j) hj
  | @createLost e hp hd =>
    obtain ⟨hs, hk⟩ := h.absent hp
    have hc : created ⟨.ext (.redisIncr key), .error e⟩ ≠ some key := nofun
    refine .orphaned (i := i) (by rw [hcell]; rfl) (fun j hj => hs j ?_) fun hk' => ?_
    · exact (standing_iff (hs i) hc j).mp hj
    · exact absurd (kept_snoc.mp hk').2 (by rw [hd]; nofun)
  | arm hd =>
    obtain ⟨⟨c, hp, -⟩, halone, hk⟩ := h.alone hord.symm
    refine .settled (fun k hk => ?_) (fun j hj => ?_) (kept_snoc.mpr ⟨hk, hd⟩)
    · rw [hcell, hp] at hk
      cases hk
    · by_cases hji : j = i
      · subst hji
        rw [standing_self] at hj
        cases hj
      · rw [standing_ne hji] at hj
        exact hji (halone j hj)
  | fail hd =>
    obtain ⟨⟨c, -, hc, rfl, hexp⟩, halone, hk⟩ := h.alone hord.symm
    refine .orphaned (i := c.armedBy) ?_ (fun j hj => ?_) fun hk' => ?_
    · rw [hcell, hc, ← hexp]
      rfl
    · by_cases hji : j = c.armedBy
      · subst hji
        rw [standing_self] at hj
        cases hj
      · rw [standing_ne hji] at hj
        exact hji (halone j hj)
    · exact absurd (kept_snoc.mp hk').2 (by rw [hd]; nofun)

/-- Every key in Redis has a deadline when no event has dropped one and nobody stands at an
    arming, and only then. -/
theorem Staged.deadline_iff (h : Staged clock lost key tr) :
    (∀ c, present clock lost key tr = some c → c.expires ≠ none) ↔
      Kept clock lost key tr ∧ ∀ i, standing (localHistory i tr) ≠ some key := by
  have hbare {i : ι} (hm : marks (stored clock lost key tr) = some (i, none)) :
      ¬∀ c, present clock lost key tr = some c → c.expires ≠ none := by
    obtain ⟨c, hc, -, -, hexp⟩ := present_of_marks hm
    exact fun hall => hall c hc hexp
  cases h with
  | settled hm hs hk =>
    refine iff_of_true (fun c hc hexp => hm c.armedBy ?_) ⟨hk, hs⟩
    rw [(live_some hc).1, ← hexp]
    rfl
  | @waiting i hm hs hk => exact iff_of_false (hbare hm) fun hall => hall.2 i ((hs i).mpr rfl)
  | orphaned hm hs hk => exact iff_of_false (hbare hm) fun hall => hk hall.1

omit [DecidableEq ι] in
theorem Since.fresh {r : Except Exn Int} (hp : present clock lost key tr = none) :
    Since clock lost key (tr ++ [(i, ⟨.ext (.redisIncr key), r⟩)])
      { armedBy := i, value := 1 } := by
  refine ⟨tr, r, [], rfl, hp, fun x hx => absurd hx List.not_mem_nil, fun d hexp => ?_⟩
  cases hexp

omit [DecidableEq ι] in
theorem Since.extend (h : Since clock lost key tr c) (hc : created ev ≠ some key) :
    Since clock lost key (tr ++ [(i, ev)]) c := by
  obtain ⟨a, r, b, rfl, hp, hb, hd⟩ := h
  refine ⟨a, r, b ++ [(i, ev)], by simp, hp, fun x hx => ?_, fun d hexp => ?_⟩
  · rcases List.mem_append.mp hx with hx | hx
    · exact hb x hx
    · rw [List.mem_singleton.mp hx]
      exact hc
  · obtain ⟨b₁, ttl, r', b₂, rfl, rfl⟩ := hd d hexp
    exact ⟨b₁, ttl, r', b₂ ++ [(i, ev)], by simp, rfl⟩

theorem Since.step (h : ∀ c, stored clock lost key tr = some c → Since clock lost key tr c)
    (hs : Staged clock lost key tr)
    (hev : KeyEvent clock lost key tr i ev (stored clock lost key (tr ++ [(i, ev)])))
    (hord : arming ev.op = standing (localHistory i tr)) (c : Counter ι)
    (hc : stored clock lost key (tr ++ [(i, ev)]) = some c) :
    Since clock lost key (tr ++ [(i, ev)]) c := by
  rw [hc] at hev
  generalize hcell : some c = cell at hev
  cases hev with
  | aside hc ha hd => exact (h c hcell.symm).extend hc
  | create hp hc =>
    obtain rfl := Option.some.inj hcell
    exact Since.fresh hp
  | createLost hp hd =>
    obtain rfl := Option.some.inj hcell
    exact Since.fresh hp
  | @advance c₀ r hp hcr hd =>
    obtain rfl := Option.some.inj hcell
    have hold : Since clock lost key tr { c₀ with value := c₀.value + 1 } := h c₀ (live_some hp).1
    exact hold.extend (by rw [hcr]; nofun)
  | @arm ttl r hd =>
    obtain ⟨⟨c₀, hp, hstored, rfl, -⟩, -⟩ := hs.alone hord.symm
    rw [hp] at hcell
    obtain rfl := Option.some.inj hcell
    obtain ⟨a, r₀, b, rfl, hpa, hb, -⟩ := h c₀ hstored
    refine ⟨a, r₀, b ++ [(c₀.armedBy, ⟨.ext (.redisExpire key ttl), r⟩)], by simp, hpa,
      fun x hx => ?_, fun d hexp => ⟨b, ttl, r, [], rfl, ?_⟩⟩
    · rcases List.mem_append.mp hx with hx | hx
      · exact hb x hx
      · rw [List.mem_singleton.mp hx]
        nofun
    · rw [← Option.some.inj hexp, List.length_append, List.length_cons]
      congr 2
      omega
  | fail hd => exact (h c hcell.symm).extend nofun

/-- What a run keeps of a key. -/
structure Ledger (clock : Nat → Time) (lost : Nat → Bool) (key : String) (tr : Trace ι) : Prop where
  positive : ∀ c, stored clock lost key tr = some c → 1 ≤ c.value
  staged : Staged clock lost key tr
  since : ∀ c, stored clock lost key tr = some c → Since clock lost key tr c

theorem Ledger.nil : Ledger clock lost key ([] : Trace ι) where
  positive _ hc := nomatch hc
  staged := by
    refine .settled (fun i hm => nomatch hm) (fun j hj => nomatch hj) fun pre x post hsplit => ?_
    cases pre <;> cases hsplit
  since _ hc := nomatch hc

theorem Ledger.step (h : Ledger clock lost key tr)
    (hev : KeyEvent clock lost key tr i ev (stored clock lost key (tr ++ [(i, ev)])))
    (hord : arming ev.op = standing (localHistory i tr)) :
    Ledger clock lost key (tr ++ [(i, ev)]) where
  positive := by
    intro c hc
    rw [hc] at hev
    generalize hcell : some c = cell at hev
    cases hev with
    | aside | fail => exact h.positive c hcell.symm
    | create | createLost =>
      obtain rfl := Option.some.inj hcell
      exact le_refl 1
    | advance hp =>
      obtain rfl := Option.some.inj hcell
      have := h.positive _ (live_some hp).1
      dsimp only
      omega
    | arm =>
      obtain ⟨c₀, hp, rfl⟩ := Option.map_eq_some_iff.mp hcell.symm
      exact h.positive c₀ (live_some hp).1
  staged := h.staged.step hev hord
  since := Since.step h.since h.staged hev hord

/-- The invariant along every trace of orderly callers over a Redis that counts. -/
theorem ledger_of (hord : TraceOk (Orderly R) tr) (hcount : Counts clock lost tr) :
    Ledger clock lost key tr := by
  induction tr using List.reverseRecOn with
  | nil => exact .nil
  | append_singleton tr x ih =>
    obtain ⟨i, ev⟩ := x
    obtain ⟨hcount, hlast⟩ := forall_split_snoc.mp hcount
    have hold := ih hord.left hcount
    exact hold.step (keyEvent_of hold.positive hlast) hord.last.1

/-- A dropped key is there for good: whoever asks later is told more than 1. -/
theorem dropped_refuses {tr' pre post : Trace ι} {n : Int}
    (hord : TraceOk (Orderly R) (tr ++ tr')) (hcount : Counts clock lost (tr ++ tr'))
    (hdropped : ¬Kept clock lost key tr)
    (htr : tr' = pre ++ (i, ⟨.ext (.redisIncr key), .ok n⟩) :: post) : 1 < n := by
  rw [htr, ← List.append_assoc] at hord hcount
  have hled : Ledger clock lost key (tr ++ pre) := ledger_of hord.left (forall_split_left hcount)
  have hval : n = Counter.shown (present clock lost key (tr ++ pre)) + 1 :=
    of_decide_eq_true (hcount _ _ _ rfl)
  cases hled.staged with
  | settled hm hs hk => exact (hdropped (forall_split_left hk)).elim
  | waiting hm hs hk => exact (hdropped (forall_split_left hk)).elim
  | orphaned hm hs hk =>
    obtain ⟨c, hp, hc, -⟩ := present_of_marks hm
    have := hled.positive c hc
    rw [hp, Counter.shown] at hval
    omega

end Stages

/-! ## Risk checks -/

section Checks

variable {ι : Type} [DecidableEq ι]

/-- The risk checks of any number of orders, started together. -/
def checks (R : Router) (order : ι → NormalizedOrder) (db : Db) : Pool engineSig Db ι :=
  ⟨fun i => R.riskCheck (order i), db, []⟩

/-- `c` has been created and then armed by one risk check, nobody has been told 1 since, and it is
    less than one window since its EXPIRE. -/
def InWindow (R : Router) (clock : Nat → Time) (lost : Nat → Bool) (key : String) (pre : Trace ι)
    (c : Counter ι) : Prop :=
  ∃ a r b₁ r' b₂,
    pre = a ++ (c.armedBy, ⟨.ext (.redisIncr key), r⟩) :: (b₁ ++
      (c.armedBy, ⟨.ext (.redisExpire key R.settings.duplicateBurstWindowSeconds), r'⟩) :: b₂) ∧
    present clock lost key a = none ∧ (∀ x ∈ b₁ ++ b₂, created x.2 ≠ some key) ∧
    c.expires = some (clock (a.length + 1 + b₁.length) +
      R.settings.duplicateBurstWindowSeconds * 1000000) ∧
    clock pre.length < clock (a.length + 1 + b₁.length) +
      R.settings.duplicateBurstWindowSeconds * 1000000

variable {E : Env} {env : Db → Db → Prop} {R : Router} {order : ι → NormalizedOrder} {db : Db}
  {P : Pool engineSig Db ι} {clock : Nat → Time} {lost : Nat → Bool} {tr : Trace ι} {i : ι}

theorem checks_orderly (hP : PoolReach (sem E) env (checks R order db) P) :
    TraceOk (Orderly R) P.trace :=
  local_discipline rfl (fun _ => wp_mono (arms_riskCheck [] rfl) fun _ _ _ => trivial) hP

/-- A refusing counter has a deadline when no event has dropped it and nobody stands at its
    arming, and only then; and a deadline is one window from the arming. -/
theorem inWindow_iff {o : NormalizedOrder} {c : Counter ι} (hord : TraceOk (Orderly R) tr)
    (hcount : Counts clock lost tr) (hc : present clock lost (R.burstKey o) tr = some c) :
    InWindow R clock lost (R.burstKey o) tr c ↔
      Kept clock lost (R.burstKey o) tr ∧
        ∀ j, standing (localHistory j tr) ≠ some (R.burstKey o) := by
  have hled : Ledger clock lost (R.burstKey o) tr := ledger_of hord hcount
  rw [← hled.staged.deadline_iff]
  constructor
  · rintro ⟨a, r, b₁, r', b₂, -, -, -, hexp, -⟩ c' hc'
    obtain rfl := Option.some.inj (hc'.symm.trans hc)
    rw [hexp]
    exact Option.some_ne_none _
  · intro hall
    obtain ⟨d, hd⟩ := Option.ne_none_iff_exists'.mp (hall c hc)
    obtain ⟨a, r, b, htr, hp, hb, harm⟩ := hled.since c (live_some hc).1
    obtain ⟨b₁, ttl, r', b₂, rfl, rfl⟩ := harm d hd
    have hsplit : tr = (a ++ (c.armedBy, ⟨.ext (.redisIncr (R.burstKey o)), r⟩) :: b₁) ++
        (c.armedBy, ⟨.ext (.redisExpire (R.burstKey o) ttl), r'⟩) :: b₂ := by
      rw [htr, List.append_assoc, List.cons_append]
    have httl : ttl = R.settings.duplicateBurstWindowSeconds :=
      (hord _ _ _ _ hsplit).2 o ttl rfl
    subst httl
    refine ⟨a, r, b₁, r', b₂, htr, hp, fun x hx => hb x ?_, hd, ?_⟩
    · rcases List.mem_append.mp hx with hx | hx
      · exact List.mem_append_left _ hx
      · exact List.mem_append_right _ (List.mem_cons_of_mem _ hx)
    · have hlive := (live_some hc).2
      rw [hd] at hlive
      exact of_decide_eq_true hlive

omit [DecidableEq ι] in
theorem counter_of_counted {key : String} {n : Int}
    (h : counted clock lost tr (i, ⟨.ext (.redisIncr key), .ok n⟩) = true) (hn : 1 < n) :
    ∃ c, present clock lost key tr = some c := by
  have hval : n = Counter.shown (present clock lost key tr) + 1 := of_decide_eq_true h
  cases hc : present clock lost key tr with
  | some c => exact ⟨c, rfl⟩
  | none =>
    rw [hc, Counter.shown] at hval
    omega

/-- Behind a rejection there is a counter that was running. -/
theorem rejected_counter (hP : PoolReach (sem E) env (checks R order db) P)
    (hcount : Counts clock lost P.trace) (hi : BurstRejected P i) :
    ∃ pre n post c,
      P.trace = pre ++ (i, ⟨.ext (.redisIncr (R.burstKey (order i))), .ok n⟩) :: post ∧
        present clock lost (R.burstKey (order i)) pre = some c := by
  obtain ⟨e, hthread, hcode⟩ := hi
  have hend := (local_discipline_of (φ := fun _ _ => True) (K := fun _ => True)
    (Q := fun i r h' => Explained R (order i) [] r h') rfl (fun _ => explained_riskCheck) hP
    fun _ _ => trivial).2 i
  rw [hthread] at hend
  obtain ⟨-, a, n, b, hhist, -, hn⟩ := hend.2 e rfl hcode
  obtain ⟨pre, post, htr, -⟩ := localHistory_split hhist
  obtain ⟨c, hc⟩ := counter_of_counted (hcount pre _ post htr) hn
  exact ⟨pre, n, post, c, htr, hc⟩

/-- Whatever commands fail and whoever stops where: every rate and burst key in Redis has a
    deadline exactly when no event has dropped a key and nobody stands at an arming. And the guard
    rejects an order within one window of the arming exactly when that was so of its key. -/
theorem windows_expire (hP : PoolReach (sem E) env (checks R order db) P)
    (hcount : Counts clock lost P.trace) :
    ((∀ key c, present clock lost key P.trace = some c → c.expires ≠ none) ↔
      (∀ key, Kept clock lost key P.trace) ∧
        ∀ i, standing (localHistory i P.trace) = none) ∧
    ∀ i, BurstRejected P i → ∃ pre n post c,
      P.trace = pre ++ (i, ⟨.ext (.redisIncr (R.burstKey (order i))), .ok n⟩) :: post ∧
        present clock lost (R.burstKey (order i)) pre = some c ∧
        (InWindow R clock lost (R.burstKey (order i)) pre c ↔
          Kept clock lost (R.burstKey (order i)) pre ∧
            ∀ j, standing (localHistory j pre) ≠ some (R.burstKey (order i))) := by
  have hord := checks_orderly hP
  refine ⟨?_, fun i hi => ?_⟩
  · have hled (key : String) : Ledger clock lost key P.trace := ledger_of hord hcount
    have hkey (key : String) := (hled key).staged.deadline_iff
    constructor
    · refine fun hall => ⟨fun key => ((hkey key).mp (hall key)).1, fun i => ?_⟩
      refine Option.eq_none_iff_forall_ne_some.mpr fun key => ?_
      exact ((hkey key).mp (hall key)).2 i
    · rintro ⟨hk, hs⟩ key
      refine (hkey key).mpr ⟨hk key, fun i => ?_⟩
      rw [hs i]
      exact (Option.some_ne_none key).symm
  · obtain ⟨pre, n, post, c, htr, hc⟩ := rejected_counter hP hcount hi
    rw [htr] at hord
    rw [htr] at hcount
    exact ⟨pre, n, post, c, htr, hc, inWindow_iff hord.left (forall_split_left hcount) hc⟩

end Checks

/-! ## Two checks of one economic order -/

/-- The two sample orders, which differ in the id only. -/
def twinOrders (later : Bool) : NormalizedOrder :=
  if later then sampleOrderB .sim else sampleOrderA .sim

/-- Redis at `second` with the burst key at `burst`, failing EXPIREs of more than `longest`. -/
def windowHandler (second burst longest : Int) : Handler where
  time := second * 1000000
  ext _ o := match o with
    | .unixTime => .ok second
    | .redisIncr key =>
      .ok (if key = simRouter.burstKey (sampleOrderA .sim) then burst else 1)
    | .redisExpire _ ttlSeconds =>
      if longest < ttlSeconds then .error (.cacheError "timeout") else .ok ()
    | o => plainExt (second * 1000000) (fun _ => {}) [] o

/-- The first check alone, and the second at `later` seconds. -/
def twinRun (later longest : Int) : Pool engineSig Db Bool :=
  runPool (windowHandler later 2 longest).step (List.replicate 4 true)
    (runPool (windowHandler 0 1 longest).step (List.replicate 5 false)
      (checks simRouter twinOrders Db.empty))

/-- The clock of that run. -/
def twinClock (later : Int) (n : Nat) : Time := if n < 5 then 0 else later * 1000000

theorem twinRun_reach (later longest : Int) :
    PoolReach (sem plainEnv) closed (checks simRouter twinOrders Db.empty)
      (twinRun later longest) :=
  Relation.ReflTransGen.trans (runPool_reach (plain_follows _) _ _)
    (runPool_reach (plain_follows _) _ _)

theorem kept_of_ok {ι : Type} {clock : Nat → Time} {lost : Nat → Bool} {key : String}
    {tr : Trace ι} (h : (tr.all fun x => x.2.res.isOk) = true) : Kept clock lost key tr := by
  rintro pre x post rfl
  have hok := List.all_eq_true.mp h x (by simp)
  refine Bool.eq_false_iff.mpr fun hd => ?_
  unfold drops at hd
  split at hd
  · rename_i heq
    rw [heq] at hok
    cases hok
  · rename_i heq
    rw [heq] at hok
    cases hok
  · cases hd

/-- Nothing fails and the second check comes a second later: it is rejected, and in the window. -/
theorem sample_window :
    (∀ key c, present (twinClock 1) (fun _ => false) key (twinRun 1 5).trace = some c →
      c.expires ≠ none) ∧
    ∃ pre n post c, (twinRun 1 5).trace = pre ++
        (true, ⟨.ext (.redisIncr (simRouter.burstKey (sampleOrderB .sim))), .ok n⟩) :: post ∧
      InWindow simRouter (twinClock 1) (fun _ => false)
        (simRouter.burstKey (sampleOrderB .sim)) pre c := by
  have hcount : Counts (twinClock 1) (fun _ => false) (twinRun 1 5).trace :=
    forall_split_iff.mpr (by decide +kernel)
  have hok : ((twinRun 1 5).trace.all fun x => x.2.res.isOk) = true := by decide +kernel
  have hcalm : ∀ pre x post, (twinRun 1 5).trace = pre ++ x :: post → x.1 = true →
      ∀ j, standing (localHistory j pre) ≠ some (simRouter.burstKey (sampleOrderB .sim)) :=
    forall_split_iff.mpr (by decide +kernel)
  obtain ⟨hkeys, hrejected⟩ := windows_expire (twinRun_reach 1 5) hcount
  refine ⟨hkeys.mpr ⟨fun key => kept_of_ok hok, by decide +kernel⟩, ?_⟩
  obtain ⟨pre, n, post, c, htr, -, hwindow⟩ := hrejected true ⟨_, rfl, rfl⟩
  refine ⟨pre, n, post, c, htr, hwindow.mpr ⟨?_, hcalm pre _ post htr rfl⟩⟩
  rw [htr] at hok
  exact forall_split_left (kept_of_ok hok)

/-- The EXPIRE of the burst key fails and the first check passes all the same. The key stays
    without a deadline, with nobody at its arming, and a day later the second check is rejected. -/
theorem late_rejection :
    ∃ P, PoolReach (sem plainEnv) closed (checks simRouter twinOrders Db.empty) P ∧
      Counts (twinClock 86400) (fun _ => false) P.trace ∧
      (∀ i, standing (localHistory i P.trace) = none) ∧
      (∃ c, present (twinClock 86400) (fun _ => false) (simRouter.burstKey (sampleOrderB .sim))
        P.trace = some c ∧ c.expires = none) ∧
      (P.threads false = .ret () ∧ ((P.trace.take 5).all fun x => x.1 = false) = true) ∧
      (BurstRejected P true ∧ ((P.trace.drop 5).all fun x => x.1 = true) = true) ∧
      twinClock 86400 4 + simRouter.settings.duplicateBurstWindowSeconds * 1000000 <
        twinClock 86400 5 := by
  refine ⟨twinRun 86400 2, twinRun_reach _ _, forall_split_iff.mpr (by decide +kernel),
    by decide +kernel, ⟨_, rfl, rfl⟩, ⟨rfl, by decide +kernel⟩, ⟨⟨_, rfl, rfl⟩, by decide +kernel⟩,
    by decide⟩

end Windows

end ExecutionEngine
