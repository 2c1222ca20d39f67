/-
  The circuit breaker of a broker session.

  It counts consecutive failures and is OPEN from the one that reaches the threshold until the
  next success. `fed_eq` is what it holds after any record of outcomes: the streak, and OPEN
  where the streak is at `limit` or past it. HALF_OPEN is never entered.
-/
import ExecutionEngine.Containers.Streak
import ExecutionEngine.Contracts.Errors

namespace ExecutionEngine

open Streak (streak)

inductive BreakerState where
  | closed | openCircuit | halfOpen
  deriving DecidableEq, Repr

structure SessionCircuitBreaker where
  failureThreshold : Int := 3
  consecutiveFailures : Int := 0
  state : BreakerState := .closed
  deriving DecidableEq, Repr

namespace SessionCircuitBreaker

/-- `record_success`. -/
def recordSuccess (b : SessionCircuitBreaker) : SessionCircuitBreaker :=
  { b with consecutiveFailures := 0, state := .closed }

/-- `record_failure`. -/
def recordFailure (b : SessionCircuitBreaker) : SessionCircuitBreaker :=
  let consecutiveFailures := b.consecutiveFailures + 1
  { b with
    consecutiveFailures
    state := if b.failureThreshold ≤ consecutiveFailures then .openCircuit else b.state }

/-- `state is BreakerState.OPEN`. -/
def isOpen (b : SessionCircuitBreaker) : Bool := b.state = .openCircuit

/-- `guard`. -/
def guard (b : SessionCircuitBreaker) : Except Exn Unit :=
  if b.isOpen then
    .error (.rejected .brokerCircuitOpen "broker session circuit breaker is open" none)
  else .ok ()

def record (b : SessionCircuitBreaker) (ok : Bool) : SessionCircuitBreaker :=
  if ok then b.recordSuccess else b.recordFailure

/-- A new breaker after a record of outcomes. -/
def fed (failureThreshold : Int) (outcomes : List Bool) : SessionCircuitBreaker :=
  outcomes.foldl record { failureThreshold }

/-- The streak that trips: the first failure does already where the threshold is not positive. -/
def limit (failureThreshold : Int) : Nat := max 1 failureThreshold.toNat

variable {failureThreshold : Int} {outcomes : List Bool}

theorem fed_snoc (ok : Bool) :
    fed failureThreshold (outcomes ++ [ok]) = (fed failureThreshold outcomes).record ok := by
  rw [fed, List.foldl_append]
  rfl

theorem limit_le {k : Nat} : limit failureThreshold ≤ k + 1 ↔ failureThreshold ≤ (k : Int) + 1 := by
  unfold limit
  omega

/-- What a breaker holds is its streak. -/
theorem fed_eq (failureThreshold : Int) (outcomes : List Bool) :
    fed failureThreshold outcomes =
      { failureThreshold
        consecutiveFailures := streak outcomes
        state := if limit failureThreshold ≤ streak outcomes then .openCircuit else .closed } := by
  induction outcomes using List.reverseRecOn with
  | nil =>
    have hlow : ¬limit failureThreshold ≤ streak [] := by
      unfold limit
      rw [Streak.streak_nil]
      omega
    rw [if_neg hlow]
    rfl
  | append_singleton outcomes ok ih =>
    rw [fed_snoc, ih]
    cases ok with
    | true =>
      have hlow : ¬limit failureThreshold ≤ streak (outcomes ++ [true]) := by
        unfold limit
        rw [Streak.streak_ok]
        omega
      rw [if_neg hlow, Streak.streak_ok]
      rfl
    | false =>
      rw [Streak.streak_fail]
      simp only [record, recordFailure, Bool.false_eq_true, if_false, limit_le, Int.natCast_add,
        Int.cast_ofNat_Int]
      split
      · rfl
      · have hlow : ¬limit failureThreshold ≤ streak outcomes := by
          intro h
          have hnext := limit_le.mp (Nat.le_succ_of_le h)
          omega
        rw [if_neg hlow]

theorem isOpen_fed :
    (fed failureThreshold outcomes).isOpen = decide (limit failureThreshold ≤ streak outcomes) := by
  rw [fed_eq, isOpen]
  split
  · rename_i hopen
    simp [hopen]
  · rename_i hopen
    simp [hopen]

/-- `guard` refuses exactly while the streak is at the limit. -/
theorem guard_fed : (fed failureThreshold outcomes).guard =
    if limit failureThreshold ≤ streak outcomes then
      .error (.rejected .brokerCircuitOpen "broker session circuit breaker is open" none)
    else .ok () := by
  rw [guard, isOpen_fed]
  simp only [decide_eq_true_eq]

end SessionCircuitBreaker

end ExecutionEngine
