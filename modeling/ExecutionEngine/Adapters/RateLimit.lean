/-
  `TokenBucket`: the rate limiter in front of the venues.

  Arithmetic is exact here. Time shows only where `_refill_locked` reads the clock,
  so a reading may be any amount later than the one before, and a sleep puts the next
  one at least as far off as was asked. The lock lets one `acquire` in at a time
  (`Served`); a caller that is cancelled in its sleep leaves without having
  completed.

  `Paced` is the invariant: what has completed from a time `a` on, together with the
  tokens that are left, is at most one full bucket and what `rate` has added since
  `a`. A bucket of less than one token has a debt of the missing part, which the
  sleep pays.
-/
import Mathlib.Algebra.Order.Field.Rat
import Mathlib.Tactic.FieldSimp
import Mathlib.Tactic.Linarith
import ExecutionEngine.Async.Pool
import ExecutionEngine.Async.Total
import ExecutionEngine.Contracts.Errors

namespace ExecutionEngine

open Async Async.Prog

/-- The attributes of a bucket. -/
structure TokenBucket where
  rate : ℚ
  capacity : ℚ
  tokens : ℚ
  updated : ℚ
  deriving DecidableEq

namespace TokenBucket

/-- `__init__`: a full bucket. -/
def new (ratePerSecond now : ℚ) : TokenBucket where
  rate := ratePerSecond
  capacity := ratePerSecond
  tokens := ratePerSecond
  updated := now

def enabled (b : TokenBucket) : Bool := 0 < b.rate

/-- `_refill_locked` at a reading of the clock. -/
def refillLocked (b : TokenBucket) (timestamp : ℚ) : TokenBucket :=
  let elapsed := timestamp - b.updated
  { b with
    updated := timestamp
    tokens := if 0 < elapsed then min b.capacity (b.tokens + elapsed * b.rate) else b.tokens }

/-! ## `acquire` -/

inductive Op where
  | attributes
  | refill
  | setTokens (tokens : ℚ)
  | sleep (seconds : ℚ)

@[reducible] def Op.Res : Op → Type
  | .attributes => TokenBucket
  | .refill => Unit
  | .setTokens _ => Unit
  | .sleep _ => Unit

@[reducible] def bucketSig : Sig where
  Op := Op
  Res := Op.Res
  Exn := Exn

/-- `acquire`, within the lock. -/
def acquire : Prog bucketSig Unit := do
  let self ← perform (S := bucketSig) .attributes
  if !self.enabled then .ret ()
  else do
    perform (S := bucketSig) .refill
    let self ← perform (S := bucketSig) .attributes
    if 1 ≤ self.tokens then perform (S := bucketSig) (.setTokens (self.tokens - 1))
    else do
      let wait := (1 - self.tokens) / self.rate
      perform (S := bucketSig) (.sleep wait)
      perform (S := bucketSig) .refill
      let self ← perform (S := bucketSig) .attributes
      perform (S := bucketSig) (.setTokens (max 0 (self.tokens - 1)))

/-- The bucket, and a time that has passed. -/
structure Limiter where
  bucket : TokenBucket
  clock : ℚ
  deriving DecidableEq

/-- A clock that never runs back and that a sleep advances by at least what was asked. With
    `cancels`, a sleep may also be cut short by an exception. -/
def bucketSem (cancels : Prop) : Sem bucketSig Limiter where
  step w op := match op with
    | .attributes => fun r w' => r = .ok w.bucket ∧ w' = w
    | .refill => fun r w' => r = .ok () ∧ ∃ t, w.clock ≤ t ∧ w' = ⟨w.bucket.refillLocked t, t⟩
    | .setTokens x => fun r w' => r = .ok () ∧ w' = { w with bucket := { w.bucket with tokens := x } }
    | .sleep d => fun r w' => ∃ t, w' = { w with clock := t } ∧
      (r = .ok () ∧ w.clock + d ≤ t ∨ cancels ∧ (∃ e, r = .error e) ∧ w.clock ≤ t)

/-- The calls of `acquire` that the lock has let in so far, one after the other, by the times at
    which they completed. -/
inductive Served (rate start : ℚ) : List ℚ → Limiter → Prop where
  | none : Served rate start [] ⟨new rate start, start⟩
  | completed {done : List ℚ} {w w' : Limiter} (h : Served rate start done w)
      (run : Exec (bucketSem True) acquire w (.ok ()) w') :
      Served rate start (done ++ [w'.clock]) w'
  | cancelled {done : List ℚ} {w w' : Limiter} {e : Exn} (h : Served rate start done w)
      (run : Exec (bucketSem True) acquire w (.error e) w') : Served rate start done w'

/-! ## Refilling -/

variable {b : TokenBucket} {t : ℚ}

@[simp] theorem refillLocked_rate : (b.refillLocked t).rate = b.rate := rfl

@[simp] theorem refillLocked_capacity : (b.refillLocked t).capacity = b.capacity := rfl

@[simp] theorem refillLocked_updated : (b.refillLocked t).updated = t := rfl

/-- The tokens stay within the bucket. -/
structure InRange (b : TokenBucket) : Prop where
  nonneg : 0 ≤ b.tokens
  le_capacity : b.tokens ≤ b.capacity

theorem refillLocked_tokens (h : b.tokens ≤ b.capacity) (ht : b.updated ≤ t) :
    (b.refillLocked t).tokens = min b.capacity (b.tokens + (t - b.updated) * b.rate) := by
  unfold refillLocked
  dsimp only
  split
  · rfl
  · rename_i hzero
    have : t - b.updated = 0 := by linarith
    rw [this, zero_mul, add_zero, min_eq_right h]

theorem InRange.refill (h : b.InRange) (hrate : 0 < b.rate) (ht : b.updated ≤ t) :
    (b.refillLocked t).InRange := by
  have hadd : 0 ≤ (t - b.updated) * b.rate := mul_nonneg (by linarith) hrate.le
  constructor
  · rw [refillLocked_tokens h.le_capacity ht]
    exact le_min (h.nonneg.trans h.le_capacity) (by linarith [h.nonneg])
  · rw [refillLocked_tokens h.le_capacity ht]
    exact min_le_left _ _

/-! ## What has completed -/

/-- The completions from `a` on. -/
def since (done : List ℚ) (a : ℚ) : ℕ := done.countP fun t => a ≤ t

/-- The completions in the closed window of length `T` that starts at `a`. -/
def within (done : List ℚ) (a T : ℚ) : ℕ := done.countP fun t => a ≤ t ∧ t ≤ a + T

variable {done : List ℚ} {a T : ℚ}

theorem since_snoc (h : a ≤ t) : since (done ++ [t]) a = since done a + 1 := by
  simp [since, h]

theorem since_eq_zero (h : ∀ t ∈ done, t < a) : since done a = 0 := by
  refine List.countP_eq_zero.mpr fun t ht => ?_
  have := h t ht
  simpa using this

theorem within_le_since : within done a T ≤ since done a :=
  List.countP_mono_left fun t _ h => by simp_all

theorem within_snoc_of_not (h : ¬ (a ≤ t ∧ t ≤ a + T)) :
    within (done ++ [t]) a T = within done a T := by
  simp [within, h]

/-- What has completed is paid for, by the bucket as it was and by what came in since. -/
structure Paced (rate : ℚ) (done : List ℚ) (w : Limiter) : Prop where
  rate_eq : w.bucket.rate = rate
  capacity_eq : w.bucket.capacity = rate
  inRange : w.bucket.InRange
  updated_le : w.bucket.updated ≤ w.clock
  done_le : ∀ t ∈ done, t ≤ w.bucket.updated
  pace : ∀ a ≤ w.bucket.updated,
    since done a + w.bucket.tokens ≤ max 1 rate + rate * (w.bucket.updated - a)
  window : ∀ a T, 0 ≤ T → within done a T ≤ max 1 rate + rate * T

variable {rate start : ℚ} {w w' : Limiter} {cancels : Prop}

theorem paced_new (hrate : 0 < rate) : Paced rate [] ⟨new rate start, start⟩ where
  rate_eq := rfl
  capacity_eq := rfl
  inRange := ⟨hrate.le, le_refl rate⟩
  updated_le := le_refl start
  done_le := fun _ ht => (List.not_mem_nil ht).elim
  pace := by
    intro a ha
    have ha : a ≤ start := ha
    have hadd : 0 ≤ rate * (start - a) := mul_nonneg hrate.le (by linarith)
    have := le_max_right 1 rate
    simp only [since, List.countP_nil, new, Nat.cast_zero]
    linarith
  window := by
    intro a T hT
    have hadd : 0 ≤ rate * T := mul_nonneg hrate.le hT
    have := le_max_left 1 rate
    simp only [within, List.countP_nil, Nat.cast_zero]
    linarith

/-- Time that passes leaves everything as it is. -/
theorem Paced.later (h : Paced rate done w) (ht : w.clock ≤ t) :
    Paced rate done { w with clock := t } :=
  { h with updated_le := h.updated_le.trans ht }

theorem Paced.refill (h : Paced rate done w) (hrate : 0 < rate) (ht : w.clock ≤ t) :
    Paced rate done ⟨w.bucket.refillLocked t, t⟩ := by
  have hu : w.bucket.updated ≤ t := h.updated_le.trans ht
  have htokens := refillLocked_tokens h.inRange.le_capacity hu
  rw [h.capacity_eq, h.rate_eq] at htokens
  constructor
  · exact h.rate_eq
  · exact h.capacity_eq
  · exact h.inRange.refill (h.rate_eq.symm ▸ hrate) hu
  · exact le_refl t
  · exact fun c hc => (h.done_le c hc).trans hu
  · intro a ha
    dsimp only [refillLocked_updated] at ha ⊢
    rw [htokens]
    by_cases hold : a ≤ w.bucket.updated
    · -- what was there plus what came in
      have hpace := h.pace a hold
      have := min_le_right rate (w.bucket.tokens + (t - w.bucket.updated) * rate)
      linarith
    · -- nothing has completed since
      have hzero := since_eq_zero fun c hc => (h.done_le c hc).trans_lt (not_le.mp hold)
      have := min_le_left rate (w.bucket.tokens + (t - w.bucket.updated) * rate)
      have hadd : 0 ≤ rate * (t - a) := mul_nonneg hrate.le (by linarith)
      have := le_max_right 1 rate
      rw [hzero, Nat.cast_zero]
      linarith
  · exact h.window

/-- A completion that is paid for. -/
theorem Paced.complete (h : Paced rate done w) (hrate : 0 < rate) {x : ℚ} (hx : 0 ≤ x)
    (hcap : x ≤ rate) (hnow : w.clock = w.bucket.updated)
    (hpay : ∀ a ≤ w.bucket.updated,
      since done a + 1 + x ≤ max 1 rate + rate * (w.bucket.updated - a)) :
    Paced rate (done ++ [w.clock]) { w with bucket := { w.bucket with tokens := x } } := by
  rw [hnow]
  constructor
  · exact h.rate_eq
  · exact h.capacity_eq
  · exact ⟨hx, h.capacity_eq.symm ▸ hcap⟩
  · exact le_refl w.bucket.updated
  · intro c hc
    rcases List.mem_append.mp hc with hc | hc
    · exact h.done_le c hc
    · exact (List.mem_singleton.mp hc).le
  · intro a ha
    rw [since_snoc ha]
    push_cast
    exact hpay a ha
  · intro a T hT
    by_cases hin : a ≤ w.bucket.updated ∧ w.bucket.updated ≤ a + T
    · have hle : within (done ++ [w.bucket.updated]) a T ≤ since done a + 1 :=
        within_le_since.trans (since_snoc hin.1).le
      have hle' : (within (done ++ [w.bucket.updated]) a T : ℚ) ≤ since done a + 1 := by
        exact_mod_cast hle
      have hadd : rate * (w.bucket.updated - a) ≤ rate * T :=
        mul_le_mul_of_nonneg_left (by linarith) hrate.le
      have := hpay a hin.1
      linarith
    · rw [within_snoc_of_not hin]
      exact h.window a T hT

/-- A whole token pays for a completion. -/
theorem Paced.spend (h : Paced rate done w) (hrate : 0 < rate) (hnow : w.clock = w.bucket.updated)
    (htoken : 1 ≤ w.bucket.tokens) :
    Paced rate (done ++ [w.clock])
      { w with bucket := { w.bucket with tokens := w.bucket.tokens - 1 } } := by
  have hle : w.bucket.tokens ≤ rate := h.capacity_eq ▸ h.inRange.le_capacity
  refine h.complete hrate (by linarith) (by linarith) hnow fun a ha => ?_
  have := h.pace a ha
  linarith

/-- The sleep pays the missing part of a token, also where the bucket holds less than one. -/
theorem Paced.spend_slept (h : Paced rate done w) (hrate : 0 < rate)
    (hslept : w.bucket.updated + (1 - w.bucket.tokens) / rate ≤ t) (ht : w.clock ≤ t) :
    Paced rate (done ++ [t])
      ⟨{ w.bucket.refillLocked t with tokens := max 0 ((w.bucket.refillLocked t).tokens - 1) }, t⟩ := by
  have hpaid : 1 - w.bucket.tokens ≤ (t - w.bucket.updated) * rate := by
    rw [← div_le_iff₀ hrate]
    linarith
  have hrefill := h.refill hrate ht
  have htokens := refillLocked_tokens h.inRange.le_capacity (h.updated_le.trans ht)
  rw [h.capacity_eq, h.rate_eq] at htokens
  by_cases hone : 1 ≤ rate
  · have htoken : 1 ≤ (w.bucket.refillLocked t).tokens := by
      rw [htokens]
      exact le_min hone (by linarith)
    rw [max_eq_right (by linarith)]
    exact hrefill.spend hrate rfl htoken
  · have hless : (w.bucket.refillLocked t).tokens ≤ rate := htokens ▸ min_le_left _ _
    rw [max_eq_left (by linarith)]
    refine hrefill.complete hrate (le_refl 0) hrate.le rfl fun a ha => ?_
    dsimp only [refillLocked_updated] at ha ⊢
    rw [max_eq_left (by linarith)]
    by_cases hold : a ≤ w.bucket.updated
    · have hpace := h.pace a hold
      rw [max_eq_left (by linarith)] at hpace
      linarith
    · have hzero := since_eq_zero fun c hc => (h.done_le c hc).trans_lt (not_le.mp hold)
      have hadd : 0 ≤ rate * (t - a) := mul_nonneg hrate.le (by linarith)
      rw [hzero, Nat.cast_zero]
      linarith

/-! ## Every call -/

theorem enabled_iff : b.enabled = true ↔ 0 < b.rate := by simp [enabled]

section Calls

variable {pre : Limiter → Op → Prop}

theorem wp_attributes {Q : Except Exn TokenBucket → Limiter → Prop} :
    wp (bucketSem cancels) pre (perform (S := bucketSig) .attributes) Q w ↔
      pre w .attributes ∧ Q (.ok w.bucket) w := by
  rw [wp_perform]
  refine and_congr_right fun _ => ⟨fun h => h _ _ ⟨rfl, rfl⟩, ?_⟩
  rintro h _ _ ⟨rfl, rfl⟩
  exact h

theorem wp_refill {Q : Except Exn Unit → Limiter → Prop} :
    wp (bucketSem cancels) pre (perform (S := bucketSig) .refill) Q w ↔
      pre w .refill ∧ ∀ t, w.clock ≤ t → Q (.ok ()) ⟨w.bucket.refillLocked t, t⟩ := by
  rw [wp_perform]
  refine and_congr_right fun _ => ⟨fun h t ht => h _ _ ⟨rfl, t, ht, rfl⟩, ?_⟩
  rintro h _ _ ⟨rfl, t, ht, rfl⟩
  exact h t ht

theorem wp_setTokens {x : ℚ} {Q : Except Exn Unit → Limiter → Prop} :
    wp (bucketSem cancels) pre (perform (S := bucketSig) (.setTokens x)) Q w ↔
      pre w (.setTokens x) ∧ Q (.ok ()) { w with bucket := { w.bucket with tokens := x } } := by
  rw [wp_perform]
  refine and_congr_right fun _ => ⟨fun h => h _ _ ⟨rfl, rfl⟩, ?_⟩
  rintro h _ _ ⟨rfl, rfl⟩
  exact h

end Calls

/-- One call keeps the books: the tokens are in range wherever it stands, and it completes paid
    for. -/
theorem acquire_paced (hrate : 0 < rate) (h : Paced rate done w) :
    wp (bucketSem cancels) (fun w _ => w.bucket.InRange) acquire
      (outcome (fun _ w' => Paced rate (done ++ [w'.clock]) w') fun _ w' => Paced rate done w') w := by
  have henabled : w.bucket.enabled = true := enabled_iff.mpr (h.rate_eq ▸ hrate)
  refine wp_bind.mpr (wp_attributes.mpr ⟨h.inRange, ?_⟩)
  simp only [outcome_ok, henabled, Bool.not_true, Bool.false_eq_true, if_false]
  refine wp_bind.mpr (wp_refill.mpr ⟨h.inRange, fun t ht => ?_⟩)
  have h₁ := h.refill hrate ht
  refine wp_bind.mpr (wp_attributes.mpr ⟨h₁.inRange, ?_⟩)
  rw [outcome_ok]
  split
  · rename_i htoken
    exact wp_setTokens.mpr ⟨h₁.inRange, h₁.spend hrate rfl htoken⟩
  · refine wp_bind.mpr (wp_perform.mpr ⟨h₁.inRange, ?_⟩)
    rintro _ _ ⟨t₁, rfl, ⟨rfl, hslept⟩ | ⟨-, ⟨e, rfl⟩, ht₁⟩⟩
    · -- the deficit is slept off
      have hwait : 0 ≤ (1 - (w.bucket.refillLocked t).tokens) / w.bucket.rate := by
        refine div_nonneg ?_ (h.rate_eq.symm ▸ hrate.le)
        linarith
      have ht₁ : t ≤ t₁ := by
        dsimp only [refillLocked_rate] at hslept
        linarith
      have h₂ := h₁.later (t := t₁) ht₁
      refine wp_bind.mpr (wp_refill.mpr ⟨h₂.inRange, fun t₂ ht₂ => ?_⟩)
      have h₃ := h₂.refill hrate ht₂
      refine wp_bind.mpr (wp_attributes.mpr ⟨h₃.inRange, ?_⟩)
      rw [outcome_ok]
      refine wp_setTokens.mpr ⟨h₃.inRange, ?_⟩
      refine h₁.spend_slept hrate ?_ (ht₁.trans ht₂)
      dsimp only [refillLocked_rate, refillLocked_updated] at hslept ⊢
      rw [← h.rate_eq]
      exact hslept.trans ht₂
    · exact h₁.later ht₁

def Op.isSleep : Op → Bool
  | .sleep _ => true
  | _ => false

/-- How often a call has slept. -/
def sleeps (hist : List (Event bucketSig)) : ℕ := hist.countP fun e => e.op.isSleep

/-- A call that nothing cancels completes, after one sleep at most. -/
theorem acquire_completes (w : Limiter) :
    twp (bucketSem False).traced acquire (fun o x => o = .ok () ∧ sleeps x.2 ≤ 1) (w, []) := by
  refine twp_bind.mpr (twp_traced_perform.mpr ?_)
  rintro _ w₁ ⟨rfl, -⟩
  rw [outcome_ok]
  split
  · exact ⟨rfl, Nat.zero_le 1⟩
  refine twp_bind.mpr (twp_traced_perform.mpr ?_)
  rintro _ w₂ ⟨rfl, -⟩
  refine twp_bind.mpr (twp_traced_perform.mpr ?_)
  rintro _ w₃ ⟨rfl, -⟩
  rw [outcome_ok]
  split
  · refine twp_traced_perform.mpr ?_
    rintro _ w₄ ⟨rfl, -⟩
    exact ⟨rfl, Nat.zero_le 1⟩
  · refine twp_bind.mpr (twp_traced_perform.mpr ?_)
    rintro _ w₄ ⟨t, -, ⟨rfl, -⟩ | ⟨hno, -⟩⟩
    · refine twp_bind.mpr (twp_traced_perform.mpr ?_)
      rintro _ w₅ ⟨rfl, -⟩
      refine twp_bind.mpr (twp_traced_perform.mpr ?_)
      rintro _ w₆ ⟨rfl, -⟩
      refine twp_traced_perform.mpr ?_
      rintro _ w₇ ⟨rfl, -⟩
      exact ⟨rfl, le_refl 1⟩
    · exact hno.elim

/-! ## Every run -/

theorem Served.paced (hrate : 0 < rate) (h : Served rate start done w) : Paced rate done w := by
  induction h with
  | none => exact paced_new hrate
  | completed _ run ih => exact (acquire_paced hrate ih).exec run
  | cancelled _ run ih => exact (acquire_paced hrate ih).exec run

/-- The bucket enforces its rate: whatever has been served, the tokens are within the capacity,
    also at every point of the next call; that call completes after one sleep at most, unless it
    is cancelled; and no window of length `T` has seen more completions than one full bucket and
    what `rate` adds in `T`. -/
theorem rate_enforced (hrate : 0 < rate) (h : Served rate start done w) :
    w.bucket.InRange ∧
    (∀ op w', Reaches (bucketSem True) acquire w op w' → w'.bucket.InRange) ∧
    twp (bucketSem False).traced acquire (fun o x => o = .ok () ∧ sleeps x.2 ≤ 1) (w, []) ∧
    ∀ a T, 0 ≤ T → within done a T ≤ max 1 rate + rate * T :=
  have hpaced := h.paced hrate
  ⟨hpaced.inRange, fun _ _ hr => (acquire_paced hrate hpaced).reaches hr, acquire_completes w,
    hpaced.window⟩

/-- A clock that moves only in sleeps, and by no more than was asked. -/
def punctual (w : Limiter) (op : Op) : bucketSig.Answer op × Limiter :=
  match op with
  | .attributes => (.ok w.bucket, w)
  | .refill => (.ok (), ⟨w.bucket.refillLocked w.clock, w.clock⟩)
  | .setTokens x => (.ok (), { w with bucket := { w.bucket with tokens := x } })
  | .sleep d => (.ok (), { w with clock := w.clock + d })

theorem punctual_follows : Follows (bucketSem cancels) punctual := by
  intro w op
  cases op with
  | attributes => exact ⟨rfl, rfl⟩
  | refill => exact ⟨rfl, w.clock, le_refl w.clock, rfl⟩
  | setTokens x => exact ⟨rfl, rfl⟩
  | sleep d => exact ⟨w.clock + d, rfl, .inl ⟨rfl, le_refl _⟩⟩

/-- Half a token a second: the first call sleeps for a second. -/
def halfLimiter : Limiter := ⟨⟨1 / 2, 1 / 2, 0, 1⟩, 1⟩

theorem half_served : Served (1 / 2) 0 ([] ++ [halfLimiter.clock]) halfLimiter := by
  have hrun : run punctual acquire ⟨new (1 / 2) 0, 0⟩ = (some (.ok ()), halfLimiter) := by
    decide +kernel
  have hfollows : Follows (bucketSem True) punctual := punctual_follows
  have hexec := run_exec hfollows acquire ⟨new (1 / 2) 0, 0⟩
    (o := .ok ()) (by rw [hrun])
  rw [hrun] at hexec
  exact .completed .none hexec

theorem rate_enforced_half :
    halfLimiter.bucket.InRange ∧
    (∀ op w', Reaches (bucketSem True) acquire halfLimiter op w' → w'.bucket.InRange) ∧
    twp (bucketSem False).traced acquire (fun o x => o = .ok () ∧ sleeps x.2 ≤ 1)
      (halfLimiter, []) ∧
    ∀ a T, 0 ≤ T → within ([] ++ [halfLimiter.clock]) a T ≤ max 1 (1 / 2 : ℚ) + 1 / 2 * T :=
  rate_enforced (by norm_num) half_served

end TokenBucket

end ExecutionEngine
