/-
  The burst that recovers a venue handle: it ends, and with the right verdict.

  `burst` is the loop of `recover_handle` over any resolver and any clock; the
  engine's own `recoverHandle`, in microseconds, is one instance
  (`recoverHandle_eq_burst`) and `recoverAt`, in seconds, another. `Course` lists
  what the attempts of a burst can look like, and the verdict, the floor and the
  ceiling are read off it. A clock that every sleep advances by the cadence passes
  the deadline after finitely many of them, so enough fuel gives the result
  (`recover_handle_verdict`).
-/
import Mathlib.Algebra.Order.Archimedean.Basic
import Mathlib.Data.Rat.Floor
import ExecutionEngine.Adapters.Reconciler
import ExecutionEngine.Async.Total
import ExecutionEngine.Contracts.Value

namespace ExecutionEngine

open Async Async.Prog

namespace HandleRecovery

/-! ## The loop -/

section Burst

variable {S : Sig} {τ : Type}

/-- One attempt: resolved, not yet, or the venue could not be read. -/
def attempt (resolve : Prog S Bool) : Prog S (Option Bool) :=
  tryExcept (resolve.bind fun b => .ret (some b)) fun _ => .ret none

/-- The loop of `recover_handle`; `spent` is the test of the ceiling. -/
def burst (resolve : Prog S Bool) (now : Prog S τ) (pause : Prog S Unit) (spent : τ → Bool)
    (minPolls : Int) : Nat → Int → Bool → Prog S HandleResolution
  | 0, _, _ => .stuck
  | fuel + 1, attempts, readOk => do
    let answer ← attempt resolve
    if answer = some true then .ret .confirmed
    else do
      let readOk := readOk || answer.isSome
      let t ← now
      if minPolls ≤ attempts + 1 && spent t then .ret (if readOk then .pending else .unknown)
      else do
        pause
        burst resolve now pause spent minPolls fuel (attempts + 1) readOk

end Burst

/-- The engine's recovery is this loop in microseconds. -/
theorem recoverHandle_eq_burst (resolve : Eff Bool) (submittedAt cadence deadline : Time)
    (minPolls : Int) (fuel : Nat) (attempts : Int) (readOk : Bool) :
    recoverHandle resolve submittedAt cadence deadline minPolls fuel attempts readOk =
      burst resolve (Eff.ext .now) (Eff.ext (.sleep cadence))
        (fun now => deadline < elapsed now submittedAt + cadence) minPolls fuel attempts readOk := by
  induction fuel generalizing attempts readOk with
  | zero => rfl
  | succ fuel ih =>
    unfold recoverHandle burst
    simp only [ih]
    rfl

/-! ## In seconds -/

/-- `_elapsed_ms`. -/
def elapsedMs (now submittedAt : ℚ) : ℚ := max 0 ((now - submittedAt) * 1000)

/-- The test of the ceiling. -/
def spentAt (submittedAt cadence deadline now : ℚ) : Bool :=
  deadline < elapsedMs now submittedAt / 1000 + cadence

theorem spentAt_iff {submittedAt cadence deadline now : ℚ} :
    spentAt submittedAt cadence deadline now = true ↔
      deadline < max 0 (now - submittedAt) + cadence := by
  have hscale : elapsedMs now submittedAt / 1000 = max 0 (now - submittedAt) := by
    unfold elapsedMs
    rw [← max_div_div_right (by norm_num : (0 : ℚ) ≤ 1000), zero_div,
      mul_div_assoc, div_self (by norm_num), mul_one]
  unfold spentAt
  rw [decide_eq_true_eq, hscale]

/-- Whole microseconds are read alike by both instances. -/
theorem spentAt_micros (submittedAt cadence deadline now : Time) :
    spentAt (submittedAt / 10 ^ 6) (cadence / 10 ^ 6) (deadline / 10 ^ 6) (now / 10 ^ 6) =
      decide (deadline < elapsed now submittedAt + cadence) := by
  rw [Bool.eq_iff_iff, spentAt_iff, decide_eq_true_eq]
  have hmax : max 0 ((now : ℚ) / 10 ^ 6 - submittedAt / 10 ^ 6) + cadence / 10 ^ 6 =
      ((elapsed now submittedAt + cadence : Int) : ℚ) / 10 ^ 6 := by
    unfold elapsed
    push_cast
    rw [← sub_div, add_div, ← max_div_div_right (by norm_num : (0 : ℚ) ≤ 10 ^ 6), zero_div]
  rw [hmax, div_lt_div_iff_of_pos_right (by norm_num)]
  exact Int.cast_lt

/-- The resolver, the clock and the sleep. -/
inductive RecoveryOp where
  | resolve
  | now
  | sleep (seconds : ℚ)

@[reducible] def RecoveryOp.Res : RecoveryOp → Type
  | .resolve => Bool
  | .now => ℚ
  | .sleep _ => Unit

@[reducible] def recoverySig : Sig where
  Op := RecoveryOp
  Res := RecoveryOp.Res
  Exn := Exn

/-- `recover_handle` in seconds. -/
def recoverAt (submittedAt cadence deadline : ℚ) (minPolls : Int) (fuel : Nat) :
    Prog recoverySig HandleResolution :=
  burst (perform (S := recoverySig) .resolve) (perform (S := recoverySig) .now)
    (perform (S := recoverySig) (.sleep cadence)) (spentAt submittedAt cadence deadline) minPolls
    fuel 0 false

/-- When an attempt was started, and its answer: `none` if it raised. -/
structure Attempt where
  start : ℚ
  answer : Option Bool
  deriving DecidableEq

/-- The clock, and the attempts so far. -/
structure Watch where
  time : ℚ
  attempts : List Attempt

/-- A clock that never runs back and that each sleep advances by at least what was asked; with
    `exact`, by exactly that, and attempts take no time. -/
def clockSem (exact : Prop) : Sem recoverySig Watch where
  step w op := match op with
    | .resolve => fun r w' => ∃ t, w.time ≤ t ∧ (exact → t = w.time) ∧
      w' = ⟨t, w.attempts ++ [⟨w.time, r.toOption⟩]⟩
    | .now => fun r w' => r = .ok w.time ∧ w' = w
    | .sleep d => fun r w' => r = .ok () ∧ ∃ t, w.time + d ≤ t ∧ (exact → t = w.time + d) ∧
      w' = { w with time := t }

/-! ## The course of a burst -/

/-- The attempts of a burst that has made `n` before and goes on to `res`. With `exact`, one that
    the floor does not ask for starts at `last` or before. -/
inductive Course (exact : Prop) (minPolls : Int) (last : ℚ) :
    Int → Bool → List Attempt → HandleResolution → Prop where
  | confirmed {n : Int} {readOk : Bool} (start : ℚ) :
      Course exact minPolls last n readOk [⟨start, some true⟩] .confirmed
  | spent {n : Int} {readOk : Bool} {a : Attempt} (ha : a.answer ≠ some true)
      (hn : minPolls ≤ n + 1) :
      Course exact minPolls last n readOk [a]
        (if readOk || a.answer.isSome then .pending else .unknown)
  | again {n : Int} {readOk : Bool} {a b : Attempt} {as : List Attempt} {res : HandleResolution}
      (ha : a.answer ≠ some true) (hb : exact → minPolls ≤ n + 1 → b.start ≤ last)
      (h : Course exact minPolls last (n + 1) (readOk || a.answer.isSome) (b :: as) res) :
      Course exact minPolls last n readOk (a :: b :: as) res

section Total

variable {exact : Prop} {submittedAt cadence deadline : ℚ} {minPolls : Int}

theorem attempt_total (w : Watch) :
    twp (clockSem exact) (attempt (perform (S := recoverySig) .resolve))
      (outcome (fun answer w' => ∃ t, w.time ≤ t ∧ (exact → t = w.time) ∧
        w' = ⟨t, w.attempts ++ [⟨w.time, answer⟩]⟩) fun _ _ => False) w := by
  unfold attempt
  rw [twp_tryExcept, twp_bind, twp_perform]
  intro r w' hs
  cases r with
  | ok b => exact hs
  | error e => exact hs

/-- One round: confirmed, or spent, or another round from a later clock. -/
theorem burst_round {Q : Except Exn HandleResolution → Watch → Prop} (fuel : Nat) (n : Int)
    (readOk : Bool) (w : Watch)
    (hconfirmed : ∀ t, Q (.ok .confirmed) ⟨t, w.attempts ++ [⟨w.time, some true⟩]⟩)
    (hspent : ∀ t answer, answer ≠ some true → minPolls ≤ n + 1 →
      Q (.ok (if readOk || answer.isSome then .pending else .unknown))
        ⟨t, w.attempts ++ [⟨w.time, answer⟩]⟩)
    (hagain : ∀ t t' answer, answer ≠ some true → w.time ≤ t →
      (minPolls ≤ n + 1 → max 0 (t - submittedAt) + cadence ≤ deadline) →
      t + cadence ≤ t' → (exact → t' = t + cadence) →
      twp (clockSem exact) (burst (perform (S := recoverySig) .resolve)
        (perform (S := recoverySig) .now) (perform (S := recoverySig) (.sleep cadence))
        (spentAt submittedAt cadence deadline) minPolls fuel (n + 1) (readOk || answer.isSome)) Q
        ⟨t', w.attempts ++ [⟨w.time, answer⟩]⟩) :
    twp (clockSem exact) (burst (perform (S := recoverySig) .resolve)
      (perform (S := recoverySig) .now) (perform (S := recoverySig) (.sleep cadence))
      (spentAt submittedAt cadence deadline) minPolls (fuel + 1) n readOk) Q w := by
  unfold burst
  rw [Prog.bind_eq, twp_bind]
  refine twp_mono (attempt_total w) fun r w₁ h₁ => ?_
  cases r with
  | error e => exact h₁.elim
  | ok answer =>
    obtain ⟨t, ht, -, rfl⟩ := h₁
    rw [outcome_ok]
    split
    · rename_i hyes
      rw [hyes]
      exact hconfirmed t
    · rename_i hno
      rw [Prog.bind_eq, twp_bind, twp_perform]
      rintro r w₂ ⟨rfl, rfl⟩
      rw [outcome_ok]
      split
      · rename_i hexit
        simp only [Bool.and_eq_true, decide_eq_true_eq] at hexit
        exact hspent t answer hno hexit.1
      · rename_i hgo
        simp only [Bool.and_eq_true, decide_eq_true_eq, not_and, spentAt_iff, not_lt] at hgo
        rw [Prog.bind_eq, twp_bind, twp_perform]
        rintro r w₃ ⟨rfl, t', ht', hexact, rfl⟩
        exact hagain t t' answer hno ht hgo ht' hexact

/-- With fuel for the floor and for the time up to the deadline, a burst ends, after attempts of
    which the first starts now. -/
theorem burst_total (fuel : Nat) (n : Int) (readOk : Bool) (w : Watch)
    (hfloor : minPolls ≤ n + (fuel + 1))
    (hceiling : deadline < w.time - submittedAt + (fuel + 1) * cadence) :
    twp (clockSem exact) (burst (perform (S := recoverySig) .resolve)
      (perform (S := recoverySig) .now) (perform (S := recoverySig) (.sleep cadence))
      (spentAt submittedAt cadence deadline) minPolls (fuel + 1) n readOk)
      (fun r w' => ∃ res answer as, r = .ok res ∧
        w'.attempts = w.attempts ++ ⟨w.time, answer⟩ :: as ∧
        Course exact minPolls (submittedAt + deadline) n readOk (⟨w.time, answer⟩ :: as) res) w := by
  induction fuel generalizing n readOk w with
  | zero =>
    refine burst_round 0 n readOk w (fun t => ?_) (fun t answer hno hn => ?_) ?_
    · exact ⟨_, _, [], rfl, rfl, .confirmed w.time⟩
    · exact ⟨_, _, [], rfl, rfl, .spent hno hn⟩
    · -- the floor is met and the deadline has passed
      intro t t' answer hno ht hgo ht' hexact
      have hover := hgo (by simpa using hfloor)
      have hmax := le_max_right 0 (t - submittedAt)
      push_cast at hceiling
      linarith
  | succ fuel ih =>
    refine burst_round (fuel + 1) n readOk w (fun t => ?_) (fun t answer hno hn => ?_) ?_
    · exact ⟨_, _, [], rfl, rfl, .confirmed w.time⟩
    · exact ⟨_, _, [], rfl, rfl, .spent hno hn⟩
    · intro t t' answer hno ht hgo ht' hexact
      have hfloor' : minPolls ≤ n + 1 + (fuel + 1) := by
        push_cast at hfloor
        omega
      have hceiling' : deadline < t' - submittedAt + (fuel + 1) * cadence := by
        push_cast at hceiling
        linarith
      refine twp_mono (ih (n + 1) (readOk || answer.isSome) ⟨t', _⟩ hfloor' hceiling') ?_
      rintro r w' ⟨res, answer', as, rfl, hattempts, hcourse⟩
      refine ⟨res, answer, ⟨t', answer'⟩ :: as, rfl, ?_, .again hno (fun he hn => ?_) hcourse⟩
      · rw [hattempts, List.append_assoc]
        rfl
      · have hle := hgo hn
        have hmax := le_max_right 0 (t - submittedAt)
        rw [hexact he]
        linarith

end Total

/-! ## What it comes to -/

section Verdict

variable {exact : Prop} {minPolls n : Int} {last : ℚ} {readOk : Bool} {as : List Attempt}
  {res : HandleResolution}

theorem Course.confirmed_iff (h : Course exact minPolls last n readOk as res) :
    res = .confirmed ↔ ∃ a ∈ as, a.answer = some true := by
  induction h with
  | confirmed start => simp
  | spent ha hn =>
    constructor
    · intro hres
      split at hres <;> cases hres
    · rintro ⟨b, hb, hyes⟩
      rw [List.mem_singleton.mp hb] at hyes
      exact absurd hyes ha
  | again ha hb h ih => simp [ih, ha]

/-- The attempt that resolves the order is the last. -/
theorem Course.stops (h : Course exact minPolls last n readOk as res) (i : Nat)
    (hi : i < as.length) (hyes : as[i].answer = some true) : i + 1 = as.length := by
  induction h generalizing i with
  | confirmed start =>
    simp only [List.length_singleton] at hi ⊢
    omega
  | spent ha hn =>
    simp only [List.length_singleton] at hi ⊢
    omega
  | again ha hb h ih =>
    cases i with
    | zero => exact absurd hyes ha
    | succ i =>
      have := ih i (by simpa using hi) (by simpa using hyes)
      simpa using this

theorem Course.pending_iff (h : Course exact minPolls last n readOk as res) :
    res = .pending ↔ (∀ a ∈ as, a.answer ≠ some true) ∧
      (readOk = true ∨ ∃ a ∈ as, a.answer = some false) := by
  induction h with
  | confirmed start => simp
  | @spent n readOk a ha hn =>
    cases hanswer : a.answer with
    | none => cases readOk <;> simp [hanswer]
    | some b =>
      have hb : b = false := by
        rw [hanswer] at ha
        simpa using ha
      simp [hanswer, hb]
  | @again n readOk a b as res ha hb h ih =>
    rw [ih]
    cases hanswer : a.answer with
    | none => simp [hanswer]
    | some c =>
      have hc : c = false := by
        rw [hanswer] at ha
        simpa using ha
      simp [hanswer, hc]

theorem Course.unknown_iff (h : Course exact minPolls last n readOk as res) :
    res = .unknown ↔ readOk = false ∧ ∀ a ∈ as, a.answer = none := by
  induction h with
  | confirmed start => simp
  | @spent n readOk a ha hn => cases hanswer : a.answer <;> cases readOk <;> simp [hanswer]
  | @again n readOk a b as res ha hb h ih =>
    rw [ih]
    cases hanswer : a.answer <;> simp [hanswer]

theorem Course.floor (h : Course exact minPolls last n readOk as res) (hres : res ≠ .confirmed) :
    1 ≤ as.length ∧ minPolls ≤ n + as.length := by
  induction h with
  | confirmed start => exact absurd rfl hres
  | spent ha hn => exact ⟨le_refl 1, hn⟩
  | again ha hb h ih =>
    obtain ⟨-, hle⟩ := ih hres
    refine ⟨by simp, ?_⟩
    rw [List.length_cons]
    push_cast
    omega

theorem Course.ceiling (h : Course exact minPolls last n readOk as res) (he : exact) (i : Nat)
    (hi : i < as.length) (hpos : 0 < i) (hn : minPolls ≤ n + i) : as[i].start ≤ last := by
  induction h generalizing i with
  | confirmed start =>
    simp only [List.length_singleton] at hi
    omega
  | spent ha hn =>
    simp only [List.length_singleton] at hi
    omega
  | again ha hb h ih =>
    cases i with
    | zero => omega
    | succ i =>
      cases i with
      | zero => exact hb he (by simpa using hn)
      | succ i =>
        refine ih (i + 1) (by simpa using hi) (by omega) ?_
        push_cast at hn ⊢
        omega

end Verdict

/-- The verdict on the attempts of a burst. -/
structure Verdict (minPolls : Int) (attempts : List Attempt) (res : HandleResolution) : Prop where
  confirmed : res = .confirmed ↔ ∃ a ∈ attempts, a.answer = some true
  stops : ∀ i (hi : i < attempts.length), attempts[i].answer = some true → i + 1 = attempts.length
  pending : res = .pending ↔ (∀ a ∈ attempts, a.answer ≠ some true) ∧
    ∃ a ∈ attempts, a.answer = some false
  unknown : res = .unknown ↔ ∀ a ∈ attempts, a.answer = none
  floor : res ≠ .confirmed → max 1 minPolls ≤ attempts.length

/-- From attempt number `beyond` on, counted from 0, no attempt starts after `last`. -/
def StartsBy (last : ℚ) (beyond : Int) (attempts : List Attempt) : Prop :=
  ∀ i (hi : i < attempts.length), beyond ≤ i → attempts[i].start ≤ last

theorem Course.verdict {exact : Prop} {minPolls : Int} {last : ℚ} {as : List Attempt}
    {res : HandleResolution} (h : Course exact minPolls last 0 false as res) :
    Verdict minPolls as res where
  confirmed := h.confirmed_iff
  stops := h.stops
  pending := by simpa using h.pending_iff
  unknown := by simpa using h.unknown_iff
  floor := fun hres => by
    obtain ⟨hone, hfloor⟩ := h.floor hres
    omega

/-- From some fuel on the recovery ends, whatever the resolver answers, with the right verdict; and
    where sleeps are exact and attempts take no time, no attempt beyond the first and the floor
    starts later than the deadline after the submit. -/
theorem recover_handle_verdict {cadence : ℚ} (hc : 0 < cadence) (submittedAt deadline : ℚ)
    (minPolls : Int) (start : ℚ) :
    ∃ N, ∀ fuel, N ≤ fuel →
      twp (clockSem False) (recoverAt submittedAt cadence deadline minPolls fuel)
        (fun r w => ∃ res, r = .ok res ∧ Verdict minPolls w.attempts res) ⟨start, []⟩ ∧
      twp (clockSem True) (recoverAt submittedAt cadence deadline minPolls fuel)
        (fun _ w => StartsBy (submittedAt + deadline) (max 1 minPolls) w.attempts) ⟨start, []⟩ := by
  obtain ⟨N, hN⟩ := exists_nat_gt ((deadline - (start - submittedAt)) / cadence)
  refine ⟨max N minPolls.toNat + 1, fun fuel hfuel => ?_⟩
  obtain ⟨fuel, rfl⟩ : ∃ m, fuel = m + 1 := ⟨fuel - 1, by omega⟩
  have hfloor : minPolls ≤ 0 + ((fuel : Int) + 1) := by omega
  have hceiling : deadline < start - submittedAt + ((fuel : ℚ) + 1) * cadence := by
    rw [div_lt_iff₀ hc] at hN
    have hle : (N : ℚ) ≤ fuel + 1 := by
      exact_mod_cast (by omega : N ≤ fuel + 1)
    have hmul := mul_le_mul_of_nonneg_right hle hc.le
    linarith
  constructor
  · refine twp_mono (burst_total fuel 0 false ⟨start, []⟩ hfloor hceiling) ?_
    rintro r w ⟨res, answer, as, rfl, hattempts, hcourse⟩
    rw [List.nil_append] at hattempts
    exact ⟨res, rfl, hattempts ▸ hcourse.verdict⟩
  · refine twp_mono (burst_total fuel 0 false ⟨start, []⟩ hfloor hceiling) ?_
    rintro r w ⟨res, answer, as, rfl, hattempts, hcourse⟩
    rw [List.nil_append] at hattempts
    intro i hi hbeyond
    simp only [hattempts] at hi ⊢
    exact hcourse.ceiling trivial i hi (by omega) (by omega)

/-! ## Two bursts -/

/-- Sleeps are exact, attempts take no time, and the venue never has the order. -/
def patientHandler (w : Watch) : (op : RecoveryOp) → Except Exn op.Res × Watch
  | .resolve => (.ok false, ⟨w.time, w.attempts ++ [⟨w.time, some false⟩]⟩)
  | .now => (.ok w.time, w)
  | .sleep d => (.ok (), { w with time := w.time + d })

theorem patient_follows {exact : Prop} : Follows (clockSem exact) patientHandler := by
  intro w op
  cases op with
  | resolve => exact ⟨w.time, le_refl _, fun _ => rfl, rfl⟩
  | now => exact ⟨rfl, rfl⟩
  | sleep d => exact ⟨rfl, w.time + d, le_refl _, fun _ => rfl, rfl⟩

/-- A fast placement: recovery starts 0.3 s after the submit, and the ceiling ends it. -/
theorem sample_recovery :
    ∃ fuel o w res, run patientHandler (recoverAt 0 (1 / 4) (3 / 2) 2 fuel) ⟨3 / 10, []⟩ = (some o, w) ∧
      o = .ok res ∧ Verdict 2 w.attempts res ∧ StartsBy (0 + 3 / 2) (max 1 2) w.attempts := by
  obtain ⟨N, hN⟩ := recover_handle_verdict (by norm_num : (0 : ℚ) < 1 / 4) 0 (3 / 2) 2 (3 / 10)
  obtain ⟨hverdict, hstarts⟩ := hN N (le_refl N)
  obtain ⟨o, ho, res, hres, hverdict⟩ := hverdict.run patient_follows
  obtain ⟨-, -, hstarts⟩ := hstarts.run patient_follows
  exact ⟨N, o, _, res, Prod.ext ho rfl, hres, hverdict, hstarts⟩

/-- With `min_polls` 0 the first attempt is beyond it, and it is made however late recovery starts:
    here 9 s after a submit with a deadline of 1.5 s. -/
theorem first_attempt_late :
    ∃ w, Exec (clockSem True) (recoverAt 0 (1 / 4) (3 / 2) 0 1) ⟨9, []⟩ (.ok .pending) w ∧
      ¬ StartsBy (0 + 3 / 2) 0 w.attempts := by
  have hrun : (run patientHandler (recoverAt 0 (1 / 4) (3 / 2) 0 1) ⟨9, []⟩).1 =
      some (.ok .pending) := by decide +kernel
  have hattempts : (run patientHandler (recoverAt 0 (1 / 4) (3 / 2) 0 1) ⟨9, []⟩).2.attempts =
      [⟨9, some false⟩] := by decide +kernel
  refine ⟨_, run_exec patient_follows _ _ hrun, fun h => ?_⟩
  rw [hattempts] at h
  have hlate := h 0 (by decide) (le_refl 0)
  norm_num at hlate

end HandleRecovery

end ExecutionEngine
