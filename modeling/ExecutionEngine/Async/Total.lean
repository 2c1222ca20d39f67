/-
  Total correctness of a program run alone.

  `wp` says nothing about a run that gets stuck; `twp` rules it out: every run
  comes to an end, and every end is as asked. A loop that is modelled with fuel is
  total from some fuel on, so the usual proof is an induction on the fuel that is
  left, against a bound on the rounds still to come.
-/
import ExecutionEngine.Async.Pool

namespace Async

variable {S : Sig} {σ α β : Type}

/-- Every run of `p` from `s` ends, as `Q` says. -/
def twp (M : Sem S σ) : Prog S α → (Except S.Exn α → σ → Prop) → σ → Prop
  | .ret a, Q, s => Q (.ok a) s
  | .raise e, Q, s => Q (.error e) s
  | .stuck, _, _ => False
  | .call op k, Q, s => ∀ r s', M.step s op r s' → twp M (k r) Q s'

variable {M : Sem S σ}

theorem twp_mono {p : Prog S α} {Q Q' : Except S.Exn α → σ → Prop} {s : σ} (h : twp M p Q s)
    (hQ : ∀ o s', Q o s' → Q' o s') : twp M p Q' s := by
  induction p generalizing s with
  | ret a => exact hQ _ _ h
  | raise e => exact hQ _ _ h
  | stuck => exact h
  | call op k ih => exact fun r s' hs => ih r (h r s' hs)

theorem twp_bind {p : Prog S α} {f : α → Prog S β} {Q : Except S.Exn β → σ → Prop} {s : σ} :
    twp M (p.bind f) Q s ↔
      twp M p (outcome (fun a => twp M (f a) Q) fun e => Q (.error e)) s := by
  induction p generalizing s with
  | ret a => rfl
  | raise e => rfl
  | stuck => rfl
  | call op k ih => exact forall_congr' fun r => forall_congr' fun s' => imp_congr_right fun _ => ih r

theorem twp_tryExcept {p : Prog S α} {f : S.Exn → Prog S α} {Q : Except S.Exn α → σ → Prop}
    {s : σ} :
    twp M (p.tryExcept f) Q s ↔
      twp M p (outcome (fun a => Q (.ok a)) fun e => twp M (f e) Q) s := by
  induction p generalizing s with
  | ret a => rfl
  | raise e => rfl
  | stuck => rfl
  | call op k ih => exact forall_congr' fun r => forall_congr' fun s' => imp_congr_right fun _ => ih r

theorem twp_perform {op : S.Op} {Q : Except S.Exn (S.Res op) → σ → Prop} {s : σ} :
    twp M (Prog.perform op) Q s ↔ ∀ r s', M.step s op r s' → Q r s' := by
  unfold Prog.perform
  refine forall_congr' fun r => forall_congr' fun s' => imp_congr_right fun _ => ?_
  cases r <;> rfl

theorem twp_traced_perform {op : S.Op} {s : σ} {hist : List (Event S)}
    {Q : Except S.Exn (S.Res op) → σ × List (Event S) → Prop} :
    twp M.traced (Prog.perform op) Q (s, hist) ↔
      ∀ r s', M.step s op r s' → Q r (s', hist ++ [⟨op, r⟩]) := by
  rw [twp_perform]
  constructor
  · exact fun h r s' hs => h r (s', hist ++ [⟨op, r⟩]) ⟨hs, rfl⟩
  · rintro h r ⟨s', hist'⟩ ⟨hs, hhist⟩
    have hhist : hist' = hist ++ [⟨op, r⟩] := hhist
    rw [hhist]
    exact h r s' hs

/-- Whatever the answers are, there is an end, and it is as asked. -/
theorem twp.run {p : Prog S α} {Q : Except S.Exn α → σ → Prop} {s : σ} (h : twp M p Q s)
    {handler : σ → (op : S.Op) → S.Answer op × σ} (hM : Follows M handler) :
    ∃ o, (Async.run handler p s).1 = some o ∧ Q o (Async.run handler p s).2 := by
  induction p generalizing s with
  | ret a => exact ⟨_, rfl, h⟩
  | raise e => exact ⟨_, rfl, h⟩
  | stuck => exact h.elim
  | call op k ih => exact ih _ (h _ _ (hM s op))

end Async
