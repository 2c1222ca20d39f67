/-
  Streaks of failures in a record of outcomes, oldest first. Nothing here names an engine.

  `streak` is how many failures the record ends with, and `outages n` how many runs of failures
  reach the length `n`. Both go along one outcome at a time: a failure adds an outage exactly
  where it brings the streak to `n` (`outages_fail`), a success adds none (`outages_ok`).
-/
import Mathlib.Data.List.Induction

namespace Streak

/-- The failures at the end. -/
def streak (outcomes : List Bool) : Nat := (outcomes.reverse.takeWhile fun ok => !ok).length

/-- The runs of failures that are at least `n` long. -/
def outages (n : Nat) (outcomes : List Bool) : Nat :=
  (outcomes.splitOn true).countP fun run => n ≤ run.length

variable {outcomes : List Bool} {n : Nat}

@[simp] theorem streak_nil : streak [] = 0 := rfl

@[simp] theorem streak_ok : streak (outcomes ++ [true]) = 0 := by simp [streak]

@[simp] theorem streak_fail : streak (outcomes ++ [false]) = streak outcomes + 1 := by
  simp [streak]

/-- A record is its streak, alone or behind a success. -/
theorem streak_split (outcomes : List Bool) :
    outcomes = List.replicate (streak outcomes) false ∨
      ∃ before, outcomes = before ++ true :: List.replicate (streak outcomes) false := by
  induction outcomes using List.reverseRecOn with
  | nil => exact .inl rfl
  | append_singleton outcomes ok ih =>
    cases ok with
    | true => exact .inr ⟨outcomes, by rw [streak_ok]; rfl⟩
    | false =>
      rw [streak_fail, List.replicate_succ']
      rcases ih with h | ⟨before, h⟩
      · exact .inl (congrArg (· ++ [false]) h)
      · refine .inr ⟨before, ?_⟩
        rw [← List.cons_append, ← List.append_assoc, ← h]

theorem outages_behind (before after : List Bool) :
    outages n (before ++ true :: after) = outages n before + outages n after := by
  rw [outages, List.splitOn_append_cons_self, List.countP_append]
  rfl

theorem outages_run (k : Nat) : outages n (List.replicate k false) = if n ≤ k then 1 else 0 := by
  have hwhole : (List.replicate k false).splitOn true = [List.replicate k false] :=
    List.splitOn_eq_singleton fun h => Bool.noConfusion (List.eq_of_mem_replicate h)
  rw [outages, hwhole, List.countP_singleton, List.length_replicate]
  simp only [decide_eq_true_eq]

theorem outages_nil (hn : 0 < n) : outages n [] = 0 := by
  have h := outages_run (n := n) 0
  rwa [if_neg (by omega)] at h

@[simp] theorem outages_ok (hn : 0 < n) : outages n (outcomes ++ [true]) = outages n outcomes := by
  rw [outages_behind, outages_nil hn, Nat.add_zero]

/-- One more failure in a run that is already there. -/
theorem outages_run_succ (k : Nat) :
    outages n (List.replicate (k + 1) false) =
      outages n (List.replicate k false) + if k + 1 = n then 1 else 0 := by
  rw [outages_run, outages_run]
  split <;> split <;> split <;> omega

theorem outages_fail : outages n (outcomes ++ [false]) =
    outages n outcomes + if streak outcomes + 1 = n then 1 else 0 := by
  generalize hk : streak outcomes = k
  have hsplit := streak_split outcomes
  rw [hk] at hsplit
  rcases hsplit with h | ⟨before, h⟩
  · rw [h, ← List.replicate_succ', outages_run_succ]
  · rw [h, List.append_assoc, List.cons_append, ← List.replicate_succ', outages_behind,
      outages_behind, outages_run_succ, Nat.add_assoc]

end Streak
