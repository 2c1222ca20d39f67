/-
  Resumption programs: straight-line asynchronous code that suspends at every
  effect, with exceptions. Nothing here names an engine.

  A program over a signature `S` either returns, raises, is stuck, or performs
  one operation and continues with whatever answer comes back. An answer is a
  value or an exception, so every suspension point is also a failure point.
  `stuck` is where the fuel of a modelled loop runs out: such a program takes
  no further step, so a statement over every fuel covers every finite prefix of
  an unbounded loop.

  Two readings of one program:
  * `Exec` / `Reaches` run it alone against a semantics `Sem` of the operations
    (a relation, so answers may be nondeterministic);
  * `Async.Pool` interleaves many of them, one operation at a time.

  `run` / `calls` evaluate a program against a deterministic handler. They are
  how a concrete execution is exhibited (`run_exec`, `mem_calls_reaches`).
-/
import Mathlib.Data.List.Basic
import Mathlib.Order.Defs.Unbundled

namespace Async

/-- An effect signature: operations, their answers, and the exceptions. -/
structure Sig where
  Op : Type
  Res : Op → Type
  Exn : Type

/-- What comes back from one operation. -/
abbrev Sig.Answer (S : Sig) (op : S.Op) : Type := Except S.Exn (S.Res op)

/-- A program that suspends at each operation. -/
inductive Prog (S : Sig) (α : Type) where
  | ret (a : α)
  | raise (e : S.Exn)
  | stuck
  | call (op : S.Op) (k : S.Answer op → Prog S α)

namespace Prog

variable {S : Sig} {α β : Type}

def bind : Prog S α → (α → Prog S β) → Prog S β
  | ret a, f => f a
  | raise e, _ => raise e
  | stuck, _ => stuck
  | call op k, f => call op (fun r => (k r).bind f)

instance : Monad (Prog S) where
  pure := ret
  bind := bind

/-- Perform one operation, propagating its exception. -/
def perform (op : S.Op) : Prog S (S.Res op) :=
  call op fun
    | .ok a => ret a
    | .error e => raise e

/-- `try p except e: h e`. -/
def tryExcept : Prog S α → (S.Exn → Prog S α) → Prog S α
  | ret a, _ => ret a
  | raise e, h => h e
  | stuck, _ => stuck
  | call op k, h => call op (fun r => (k r).tryExcept h)

/-- `try p finally f`: `f` runs on both exits, and an exception of `f` wins. -/
def tryFinally : Prog S α → Prog S Unit → Prog S α
  | ret a, f => f.bind fun _ => ret a
  | raise e, f => f.bind fun _ => raise e
  | stuck, _ => stuck
  | call op k, f => call op (fun r => (k r).tryFinally f)

/-- Run `f` on each element in order, adding up what it returns. -/
def sumOver (f : β → Prog S Nat) : List β → Prog S Nat
  | [] => ret 0
  | b :: bs => (f b).bind fun n => (sumOver f bs).bind fun m => ret (n + m)

/-- Run `f` on each element in order, for its effect. -/
def forEach (f : β → Prog S Unit) : List β → Prog S Unit
  | [] => ret ()
  | b :: bs => (f b).bind fun _ => forEach f bs

@[simp] theorem pure_eq (a : α) : (pure a : Prog S α) = ret a := rfl

@[simp] theorem bind_eq (p : Prog S α) (f : α → Prog S β) : p >>= f = p.bind f := rfl

/-- Returning what came back changes nothing. -/
theorem bind_ret (p : Prog S α) : (p.bind fun a => ret a) = p := by
  induction p with
  | ret a => rfl
  | raise e => rfl
  | stuck => rfl
  | call op k ih => exact congrArg (call op) (funext ih)

theorem bind_assoc {γ : Type} (p : Prog S α) (f : α → Prog S β) (g : β → Prog S γ) :
    (p.bind f).bind g = p.bind fun a => (f a).bind g := by
  induction p with
  | ret a => rfl
  | raise e => rfl
  | stuck => rfl
  | call op k ih => exact congrArg (call op) (funext fun r => ih r)

end Prog

/-! ## Running one program -/

/-- What the operations do to a state: an answer and a next state. -/
structure Sem (S : Sig) (σ : Type) where
  step : σ → (op : S.Op) → S.Answer op → σ → Prop

variable {S : Sig} {σ α β : Type}

/-- `p`, run alone from `s`, ends with outcome `o` in state `s'`. -/
inductive Exec (M : Sem S σ) : Prog S α → σ → Except S.Exn α → σ → Prop where
  | ret (a : α) (s : σ) : Exec M (.ret a) s (.ok a) s
  | raise (e : S.Exn) (s : σ) : Exec M (.raise e) s (.error e) s
  | call {op : S.Op} {k : S.Answer op → Prog S α} {s s' s'' : σ} {r : S.Answer op}
      {o : Except S.Exn α} (h : M.step s op r s') (t : Exec M (k r) s' o s'') :
      Exec M (.call op k) s o s''

/-- `p`, run alone from `s`, gets to the point where it performs `op` in state `s'`. -/
inductive Reaches (M : Sem S σ) : Prog S α → σ → S.Op → σ → Prop where
  | here {op : S.Op} {k : S.Answer op → Prog S α} {s : σ} : Reaches M (.call op k) s op s
  | later {op op' : S.Op} {k : S.Answer op → Prog S α} {s s' s'' : σ} {r : S.Answer op}
      (h : M.step s op r s') (t : Reaches M (k r) s' op' s'') :
      Reaches M (.call op k) s op' s''

/-- Evaluation against a deterministic handler; `none` when the program is stuck. -/
def run (h : σ → (op : S.Op) → S.Answer op × σ) : Prog S α → σ → Option (Except S.Exn α) × σ
  | .ret a, s => (some (.ok a), s)
  | .raise e, s => (some (.error e), s)
  | .stuck, s => (none, s)
  | .call op k, s => run h (k (h s op).1) (h s op).2

/-- The operations performed by that evaluation, each with the state it met. -/
def calls (h : σ → (op : S.Op) → S.Answer op × σ) : Prog S α → σ → List (S.Op × σ)
  | .ret _, _ => []
  | .raise _, _ => []
  | .stuck, _ => []
  | .call op k, s => (op, s) :: calls h (k (h s op).1) (h s op).2

/-- The handler `h` is one of the behaviours of `M`. -/
def Follows (M : Sem S σ) (h : σ → (op : S.Op) → S.Answer op × σ) : Prop :=
  ∀ s op, M.step s op (h s op).1 (h s op).2

theorem run_exec {M : Sem S σ} {h : σ → (op : S.Op) → S.Answer op × σ} (hM : Follows M h)
    (p : Prog S α) (s : σ) {o : Except S.Exn α} (hr : (run h p s).1 = some o) :
    Exec M p s o (run h p s).2 := by
  induction p generalizing s with
  | ret a =>
    simp only [run, Option.some.injEq] at hr ⊢
    exact hr ▸ Exec.ret a s
  | raise e =>
    simp only [run, Option.some.injEq] at hr ⊢
    exact hr ▸ Exec.raise e s
  | stuck => simp [run] at hr
  | call op k ih => exact Exec.call (hM s op) (ih _ _ hr)

theorem mem_calls_reaches {M : Sem S σ} {h : σ → (op : S.Op) → S.Answer op × σ}
    (hM : Follows M h) (p : Prog S α) (s s' : σ) {op : S.Op} (hc : (op, s') ∈ calls h p s) :
    Reaches M p s op s' := by
  induction p generalizing s with
  | ret a => simp [calls] at hc
  | raise e => simp [calls] at hc
  | stuck => simp [calls] at hc
  | call op' k ih =>
    rcases List.mem_cons.mp hc with hc | hc
    · obtain ⟨rfl, rfl⟩ := Prod.mk.inj hc
      exact Reaches.here
    · exact Reaches.later (hM s op') (ih _ _ hc)

/-! ## Weakest preconditions

  `wp M pre p Q s`: run from `s`, every operation `p` performs meets `pre` in the
  state where it is performed, and every end of `p` meets `Q`. -/

def wp (M : Sem S σ) (pre : σ → S.Op → Prop) :
    Prog S α → (Except S.Exn α → σ → Prop) → σ → Prop
  | .ret a, Q, s => Q (.ok a) s
  | .raise e, Q, s => Q (.error e) s
  | .stuck, _, _ => True
  | .call op k, Q, s => pre s op ∧ ∀ r s', M.step s op r s' → wp M pre (k r) Q s'

/-- A postcondition given by its two exits. -/
def outcome {ε : Type} (ok : α → σ → Prop) (err : ε → σ → Prop) : Except ε α → σ → Prop
  | .ok a => ok a
  | .error e => err e

@[simp] theorem outcome_ok {ε : Type} (ok : α → σ → Prop) (err : ε → σ → Prop) (a : α) (s : σ) :
    outcome ok err (.ok a) s ↔ ok a s := Iff.rfl

@[simp] theorem outcome_error {ε : Type} (ok : α → σ → Prop) (err : ε → σ → Prop) (e : ε)
    (s : σ) : outcome ok err (.error e) s ↔ err e s := Iff.rfl

variable {M : Sem S σ} {pre : σ → S.Op → Prop}

@[simp] theorem wp_ret (a : α) (Q : Except S.Exn α → σ → Prop) (s : σ) :
    wp M pre (.ret a) Q s ↔ Q (.ok a) s := Iff.rfl

@[simp] theorem wp_raise (e : S.Exn) (Q : Except S.Exn α → σ → Prop) (s : σ) :
    wp M pre (.raise e) Q s ↔ Q (.error e) s := Iff.rfl

@[simp] theorem wp_stuck (Q : Except S.Exn α → σ → Prop) (s : σ) :
    wp M pre .stuck Q s ↔ True := Iff.rfl

theorem wp_call (op : S.Op) (k : S.Answer op → Prog S α) (Q : Except S.Exn α → σ → Prop) (s : σ) :
    wp M pre (.call op k) Q s ↔
      pre s op ∧ ∀ r s', M.step s op r s' → wp M pre (k r) Q s' := Iff.rfl

theorem wp_mono {p : Prog S α} {Q Q' : Except S.Exn α → σ → Prop} {s : σ}
    (h : wp M pre p Q s) (hQ : ∀ o s', Q o s' → Q' o s') : wp M pre p Q' s := by
  induction p generalizing s with
  | ret a => exact hQ _ _ h
  | raise e => exact hQ _ _ h
  | stuck => trivial
  | call op k ih => exact ⟨h.1, fun r s' hs => ih r (h.2 r s' hs)⟩

/-- Two facts about the same runs. -/
theorem wp_and {p : Prog S α} {Q Q' : Except S.Exn α → σ → Prop} {s : σ}
    (h : wp M pre p Q s) (h' : wp M (fun _ _ => True) p Q' s) :
    wp M pre p (fun o s' => Q o s' ∧ Q' o s') s := by
  induction p generalizing s with
  | ret a => exact ⟨h, h'⟩
  | raise e => exact ⟨h, h'⟩
  | stuck => trivial
  | call op k ih => exact ⟨h.1, fun r s' hs => ih r (h.2 r s' hs) (h'.2 r s' hs)⟩

/-- A family of facts about the end of a coroutine is a fact about the family. -/
theorem wp_forall {κ : Type} [Nonempty κ] {p : Prog S α} {Q : κ → Except S.Exn α → σ → Prop} {s : σ}
    (h : ∀ i, wp M pre p (Q i) s) : wp M pre p (fun o s' => ∀ i, Q i o s') s := by
  induction p generalizing s with
  | ret a => exact h
  | raise e => exact h
  | stuck => trivial
  | call op k ih =>
    exact ⟨(h (Classical.arbitrary κ)).1, fun r s' hr => ih r fun i => (h i).2 r s' hr⟩

theorem wp_pre_mono {p : Prog S α} {pre' : σ → S.Op → Prop} {Q : Except S.Exn α → σ → Prop}
    {s : σ} (h : wp M pre p Q s) (hpre : ∀ s op, pre s op → pre' s op) : wp M pre' p Q s := by
  induction p generalizing s with
  | ret a => exact h
  | raise e => exact h
  | stuck => trivial
  | call op k ih => exact ⟨hpre s op h.1, fun r s' hs => ih r (h.2 r s' hs)⟩

/-- Fewer steps to answer for. -/
theorem wp_sem_mono {M' : Sem S σ} {p : Prog S α} {Q : Except S.Exn α → σ → Prop} {s : σ}
    (hM : ∀ s op r s', M'.step s op r s' → M.step s op r s') (h : wp M pre p Q s) :
    wp M' pre p Q s := by
  induction p generalizing s with
  | ret a => exact h
  | raise e => exact h
  | stuck => trivial
  | call op k ih => exact ⟨h.1, fun r s' hs => ih r (h.2 r s' (hM s op r s' hs))⟩

/-- Sequencing: the rest runs from every normal end, and an exception passes through. -/
theorem wp_bind {p : Prog S α} {f : α → Prog S β} {Q : Except S.Exn β → σ → Prop} {s : σ} :
    wp M pre (p.bind f) Q s ↔
      wp M pre p (outcome (fun a => wp M pre (f a) Q) fun e => Q (.error e)) s := by
  induction p generalizing s with
  | ret a => rfl
  | raise e => rfl
  | stuck => rfl
  | call op k ih =>
    simp only [Prog.bind, wp_call]
    exact and_congr_right fun _ => forall_congr' fun r => forall_congr' fun s' =>
      imp_congr_right fun _ => ih r

/-- The same with an intermediate fact about the normal ends. -/
theorem wp_seq {p : Prog S α} {f : α → Prog S β} {Q : Except S.Exn β → σ → Prop}
    {I : α → σ → Prop} {s : σ} (hp : wp M pre p (outcome I fun e => Q (.error e)) s)
    (hf : ∀ a s', I a s' → wp M pre (f a) Q s') : wp M pre (p.bind f) Q s := by
  refine wp_bind.mpr (wp_mono hp fun o s' h => ?_)
  cases o with
  | ok a => exact hf a s' h
  | error e => exact h

/-- After something that does not raise. -/
theorem wp_seq_ok {p : Prog S α} {f : α → Prog S β} {Q : Except S.Exn β → σ → Prop}
    {I : α → σ → Prop} {s : σ} (hp : wp M pre p (outcome I fun _ _ => False) s)
    (hf : ∀ a s', I a s' → wp M pre (f a) Q s') : wp M pre (p.bind f) Q s := by
  refine wp_seq (wp_mono hp fun o s' h => ?_) hf
  cases o with
  | ok a => exact h
  | error e => exact h.elim

/-- What holds at every end holds at the normal ones, and gives what is asked of the others. -/
theorem wp_outcome {p : Prog S α} {I : σ → Prop} {J : S.Exn → σ → Prop} {s : σ}
    (hp : wp M pre p (fun _ s' => I s') s) (hJ : ∀ e s', I s' → J e s') :
    wp M pre p (outcome (fun _ => I) J) s := by
  refine wp_mono hp fun o s' h => ?_
  cases o with
  | ok a => exact h
  | error e => exact hJ e s' h

theorem wp_perform {op : S.Op} {Q : Except S.Exn (S.Res op) → σ → Prop} {s : σ} :
    wp M pre (Prog.perform op) Q s ↔ pre s op ∧ ∀ r s', M.step s op r s' → Q r s' := by
  unfold Prog.perform
  rw [wp_call]
  refine and_congr_right fun _ => forall_congr' fun r => forall_congr' fun s' =>
    imp_congr_right fun _ => ?_
  cases r <;> rfl

theorem wp_tryExcept {p : Prog S α} {h : S.Exn → Prog S α} {Q : Except S.Exn α → σ → Prop}
    {s : σ} :
    wp M pre (p.tryExcept h) Q s ↔
      wp M pre p (outcome (fun a => Q (.ok a)) fun e => wp M pre (h e) Q) s := by
  induction p generalizing s with
  | ret a => rfl
  | raise e => rfl
  | stuck => rfl
  | call op k ih =>
    simp only [Prog.tryExcept, wp_call]
    exact and_congr_right fun _ => forall_congr' fun r => forall_congr' fun s' =>
      imp_congr_right fun _ => ih r

theorem wp_tryFinally {p : Prog S α} {f : Prog S Unit} {Q : Except S.Exn α → σ → Prop} {s : σ} :
    wp M pre (p.tryFinally f) Q s ↔
      wp M pre p (fun o => wp M pre f (outcome (fun _ => Q o) fun e => Q (.error e))) s := by
  induction p generalizing s with
  | ret a => exact wp_bind
  | raise e => exact wp_bind
  | stuck => rfl
  | call op k ih =>
    simp only [Prog.tryFinally, wp_call]
    exact and_congr_right fun _ => forall_congr' fun r => forall_congr' fun s' =>
      imp_congr_right fun _ => ih r

/-- A loop keeps an invariant that each round keeps, whatever way the round ends. -/
theorem wp_forEach {f : β → Prog S Unit} {bs : List β} {I : σ → Prop} {s : σ} (hs : I s)
    (hf : ∀ b ∈ bs, ∀ s, I s → wp M pre (f b) (fun _ s' => I s') s) :
    wp M pre (Prog.forEach f bs) (fun _ s' => I s') s := by
  induction bs generalizing s with
  | nil => exact hs
  | cons b bs ih =>
    rw [Prog.forEach, wp_bind]
    refine wp_mono (hf b (List.mem_cons_self ..) s hs) fun o s' hI => ?_
    cases o with
    | ok a => exact ih hI fun c hc => hf c (List.mem_cons_of_mem b hc)
    | error e => exact hI

theorem wp_sumOver {f : β → Prog S Nat} {bs : List β} {I : σ → Prop} {s : σ} (hs : I s)
    (hf : ∀ b ∈ bs, ∀ s, I s → wp M pre (f b) (fun _ s' => I s') s) :
    wp M pre (Prog.sumOver f bs) (fun _ s' => I s') s := by
  induction bs generalizing s with
  | nil => exact hs
  | cons b bs ih =>
    rw [Prog.sumOver, wp_bind]
    refine wp_mono (hf b (List.mem_cons_self ..) s hs) fun o s' hI => ?_
    cases o with
    | error e => exact hI
    | ok n =>
      rw [outcome_ok, wp_bind]
      refine wp_mono (ih hI fun c hc => hf c (List.mem_cons_of_mem b hc)) fun o s' hI => ?_
      cases o <;> exact hI

/-- A loop over two lists, the first of which gets to where the second starts. -/
theorem wp_sumOver_append {f : β → Prog S Nat} {as bs : List β} {I J : σ → Prop} {s : σ}
    (has : wp M pre (Prog.sumOver f as) (fun o s' => (∃ n, o = .ok n) ∧ I s') s)
    (hbs : ∀ s', I s' → wp M pre (Prog.sumOver f bs) (fun o s'' => (∃ n, o = .ok n) ∧ J s'') s') :
    wp M pre (Prog.sumOver f (as ++ bs)) (fun o s' => (∃ n, o = .ok n) ∧ J s') s := by
  induction as generalizing s with
  | nil => exact hbs s has.2
  | cons a as ih =>
    rw [Prog.sumOver, wp_bind] at has
    rw [List.cons_append, Prog.sumOver, wp_bind]
    refine wp_mono has fun o s' h => ?_
    cases o with
    | error e =>
      obtain ⟨⟨n, hn⟩, -⟩ := h
      cases hn
    | ok n =>
      rw [outcome_ok, wp_bind] at h
      rw [outcome_ok, wp_bind]
      have hrest : wp M pre (Prog.sumOver f as) (fun o s' => (∃ n, o = .ok n) ∧ I s') s' := by
        refine wp_mono h fun o s'' h => ?_
        cases o with
        | error e =>
          obtain ⟨⟨n, hn⟩, -⟩ := h
          cases hn
        | ok m => exact ⟨⟨m, rfl⟩, h.2⟩
      refine wp_mono (ih hrest) fun o s'' h => ?_
      obtain ⟨⟨m, rfl⟩, hJ⟩ := h
      exact ⟨⟨n + m, rfl⟩, hJ⟩

/-- `wp` says exactly what `Reaches` and `Exec` say. -/
theorem wp_iff {p : Prog S α} {Q : Except S.Exn α → σ → Prop} {s : σ} :
    wp M pre p Q s ↔
      (∀ op s', Reaches M p s op s' → pre s' op) ∧ (∀ o s', Exec M p s o s' → Q o s') := by
  constructor
  · intro h
    constructor
    · intro op s' hr
      induction hr with
      | here => exact h.1
      | later hs _ ih => exact ih (h.2 _ _ hs)
    · intro o s' he
      induction he with
      | ret a s => exact h
      | raise e s => exact h
      | call hs _ ih => exact ih (h.2 _ _ hs)
  · rintro ⟨hr, he⟩
    induction p generalizing s with
    | ret a => exact he _ _ (.ret a s)
    | raise e => exact he _ _ (.raise e s)
    | stuck => trivial
    | call op k ih =>
      refine ⟨hr _ _ .here, fun r s' hs => ih r ?_ ?_⟩
      · intro op' s'' ht
        exact hr _ _ (.later hs ht)
      · intro o s'' ht
        exact he _ _ (.call hs ht)

theorem wp.reaches {p : Prog S α} {Q : Except S.Exn α → σ → Prop} {s s' : σ} {op : S.Op}
    (h : wp M pre p Q s) (hr : Reaches M p s op s') : pre s' op :=
  (wp_iff.mp h).1 op s' hr

/-- Every end of a coroutine is one it can come to. -/
theorem wp_strongest (p : Prog S α) (s : σ) :
    wp M (fun _ _ => True) p (fun o s' => Exec M p s o s') s :=
  wp_iff.mpr ⟨fun _ _ _ => trivial, fun _ _ h => h⟩

theorem wp.exec {p : Prog S α} {Q : Except S.Exn α → σ → Prop} {s s' : σ}
    {o : Except S.Exn α} (h : wp M pre p Q s) (he : Exec M p s o s') : Q o s' :=
  (wp_iff.mp h).2 o s' he

/-! ## Footprints

  `Uses P p`: whatever the answers, every operation `p` can get to is in `P`. A
  footprint carries an invariant that the operations of `P` keep (`Uses.keeps`). -/

def Uses (P : S.Op → Prop) : Prog S α → Prop
  | .call op k => P op ∧ ∀ r, Uses P (k r)
  | _ => True

section Uses

variable {P P' : S.Op → Prop}

@[simp] theorem uses_ret (a : α) : Uses P (.ret a : Prog S α) := trivial

@[simp] theorem uses_raise (e : S.Exn) : Uses P (.raise e : Prog S α) := trivial

@[simp] theorem uses_stuck : Uses P (.stuck : Prog S α) := trivial

/-- Every coroutine has the whole signature as a footprint. -/
theorem uses_univ (p : Prog S α) : Uses (fun _ => True) p := by
  induction p with
  | ret a => trivial
  | raise e => trivial
  | stuck => trivial
  | call op k ih => exact ⟨trivial, ih⟩

theorem Uses.mono {p : Prog S α} (h : Uses P p) (hP : ∀ op, P op → P' op) : Uses P' p := by
  induction p with
  | ret a => trivial
  | raise e => trivial
  | stuck => trivial
  | call op k ih => exact ⟨hP op h.1, fun r => ih r (h.2 r)⟩

theorem Uses.bind {p : Prog S α} {f : α → Prog S β} (h : Uses P p) (hf : ∀ a, Uses P (f a)) :
    Uses P (p.bind f) := by
  induction p with
  | ret a => exact hf a
  | raise e => trivial
  | stuck => trivial
  | call op k ih => exact ⟨h.1, fun r => ih r (h.2 r)⟩

theorem uses_perform {op : S.Op} (h : P op) : Uses P (Prog.perform op) := by
  refine ⟨h, fun r => ?_⟩
  cases r <;> trivial

theorem Uses.tryExcept {p : Prog S α} {f : S.Exn → Prog S α} (h : Uses P p)
    (hf : ∀ e, Uses P (f e)) : Uses P (p.tryExcept f) := by
  induction p with
  | ret a => trivial
  | raise e => exact hf e
  | stuck => trivial
  | call op k ih => exact ⟨h.1, fun r => ih r (h.2 r)⟩

theorem Uses.tryFinally {p : Prog S α} {f : Prog S Unit} (h : Uses P p) (hf : Uses P f) :
    Uses P (p.tryFinally f) := by
  induction p with
  | ret a => exact hf.bind fun _ => trivial
  | raise e => exact hf.bind fun _ => trivial
  | stuck => trivial
  | call op k ih => exact ⟨h.1, fun r => ih r (h.2 r)⟩

theorem uses_forEach {f : β → Prog S Unit} {bs : List β} (h : ∀ b, Uses P (f b)) :
    Uses P (Prog.forEach f bs) := by
  induction bs with
  | nil => trivial
  | cons b bs ih => exact (h b).bind fun _ => ih

theorem uses_sumOver {f : β → Prog S Nat} {bs : List β} (h : ∀ b ∈ bs, Uses P (f b)) :
    Uses P (Prog.sumOver f bs) := by
  induction bs with
  | nil => trivial
  | cons b bs ih =>
    refine (h b (List.mem_cons_self ..)).bind fun _ => ?_
    exact (ih fun c hc => h c (List.mem_cons_of_mem _ hc)).bind fun _ => trivial

/-- An invariant kept by every operation of the footprint holds at each operation and at the
    end. -/
theorem Uses.keeps {p : Prog S α} {I : σ → Prop} {s : σ} (h : Uses P p) (hs : I s)
    (hpre : ∀ s op, P op → I s → pre s op)
    (hstep : ∀ s op r s', P op → I s → M.step s op r s' → I s') :
    wp M pre p (fun _ s' => I s') s := by
  induction p generalizing s with
  | ret a => exact hs
  | raise e => exact hs
  | stuck => trivial
  | call op k ih =>
    exact ⟨hpre s op h.1 hs, fun r s' hr => ih r (h.2 r) (hstep s op r s' h.1 hs hr)⟩

end Uses

/-! ## Exceptions

  `Raises X p`: as long as the operations raise only exceptions in `X`, `p` raises
  only exceptions in `X`. -/

def Raises (X : S.Exn → Prop) : Prog S α → Prop
  | .ret _ => True
  | .raise e => X e
  | .stuck => True
  | .call _ k => ∀ r, (∀ e, r = .error e → X e) → Raises X (k r)

section Raises

variable {X : S.Exn → Prop}

theorem raises_perform (op : S.Op) : Raises X (Prog.perform op) := by
  intro r hr
  cases r with
  | ok a => trivial
  | error e => exact hr e rfl

theorem Raises.bind {p : Prog S α} {f : α → Prog S β} (h : Raises X p)
    (hf : ∀ a, Raises X (f a)) : Raises X (p.bind f) := by
  induction p with
  | ret a => exact hf a
  | raise e => exact h
  | stuck => trivial
  | call op k ih => exact fun r hr => ih r (h r hr)

theorem Raises.tryExcept {p : Prog S α} {f : S.Exn → Prog S α} (h : Raises X p)
    (hf : ∀ e, X e → Raises X (f e)) : Raises X (p.tryExcept f) := by
  induction p with
  | ret a => trivial
  | raise e => exact hf e h
  | stuck => trivial
  | call op k ih => exact fun r hr => ih r (h r hr)

/-- A handler for every exception leaves nothing of the body's. -/
theorem raises_catch (p : Prog S α) {f : S.Exn → Prog S α} (hf : ∀ e, Raises X (f e)) :
    Raises X (p.tryExcept f) := by
  induction p with
  | ret a => trivial
  | raise e => exact hf e
  | stuck => trivial
  | call op k ih => exact fun r _ => ih r

theorem Raises.tryFinally {p : Prog S α} {f : Prog S Unit} (h : Raises X p) (hf : Raises X f) :
    Raises X (p.tryFinally f) := by
  induction p with
  | ret a => exact hf.bind fun _ => trivial
  | raise e => exact hf.bind fun _ => h
  | stuck => trivial
  | call op k ih => exact fun r hr => ih r (h r hr)

theorem raises_forEach {f : β → Prog S Unit} {bs : List β} (h : ∀ b, Raises X (f b)) :
    Raises X (Prog.forEach f bs) := by
  induction bs with
  | nil => trivial
  | cons b bs ih => exact (h b).bind fun _ => ih

/-- Against operations that keep to `X` the program keeps to it. -/
theorem Raises.wp {p : Prog S α} (h : Raises X p) {pre : σ → S.Op → Prop} {I : σ → Prop} {s : σ}
    (hs : I s) (hpre : ∀ s op, I s → pre s op)
    (hstep : ∀ s op r s', I s → M.step s op r s' → I s' ∧ ∀ e, r = .error e → X e) :
    wp M pre p (fun o s' => I s' ∧ ∀ e, o = .error e → X e) s := by
  induction p generalizing s with
  | ret a => exact ⟨hs, fun e he => nomatch he⟩
  | raise e => exact ⟨hs, fun e' he => Except.error.inj he ▸ h⟩
  | stuck => trivial
  | call op k ih =>
    refine ⟨hpre s op hs, fun r s' hr => ?_⟩
    obtain ⟨hs', hX⟩ := hstep s op r s' hs hr
    exact ih r (h r hX) hs'

end Raises

/-! ## Moving along a preorder

  `Moves M Rel p`: from any state, however `p` ends, its end is `Rel`-after its
  start. Frame conditions and monotone facts are of this kind. -/

def Moves (M : Sem S σ) (Rel : σ → σ → Prop) (p : Prog S α) : Prop :=
  ∀ s, wp M (fun _ _ => True) p (fun _ s' => Rel s s') s

section Moves

variable {Rel : σ → σ → Prop} [IsPreorder σ Rel]

theorem moves_ret (a : α) : Moves M Rel (.ret a : Prog S α) := fun s => refl_of Rel s

theorem moves_raise (e : S.Exn) : Moves M Rel (.raise e : Prog S α) := fun s => refl_of Rel s

omit [IsPreorder σ Rel] in
theorem moves_perform {op : S.Op} (h : ∀ s r s', M.step s op r s' → Rel s s') :
    Moves M Rel (Prog.perform op) :=
  fun s => wp_perform.mpr ⟨trivial, fun r s' hs => h s r s' hs⟩

/-- From a state reached along `Rel`, moving on stays along `Rel`. -/
theorem Moves.after {p : Prog S α} (h : Moves M Rel p) {s s' : σ} (hs : Rel s s') :
    wp M (fun _ _ => True) p (fun _ t => Rel s t) s' :=
  wp_mono (h s') fun _ _ ht => trans_of Rel hs ht

theorem Moves.bind {p : Prog S α} {f : α → Prog S β} (h : Moves M Rel p)
    (hf : ∀ a, Moves M Rel (f a)) : Moves M Rel (p.bind f) := by
  intro s
  refine wp_bind.mpr (wp_mono (h s) fun o s' hs => ?_)
  cases o with
  | ok a => exact (hf a).after hs
  | error e => exact hs

theorem Moves.tryExcept {p : Prog S α} {f : S.Exn → Prog S α} (h : Moves M Rel p)
    (hf : ∀ e, Moves M Rel (f e)) : Moves M Rel (p.tryExcept f) := by
  intro s
  refine wp_tryExcept.mpr (wp_mono (h s) fun o s' hs => ?_)
  cases o with
  | ok a => exact hs
  | error e => exact (hf e).after hs

theorem Moves.tryFinally {p : Prog S α} {f : Prog S Unit} (h : Moves M Rel p)
    (hf : Moves M Rel f) : Moves M Rel (p.tryFinally f) := by
  intro s
  refine wp_tryFinally.mpr (wp_mono (h s) fun o s' hs => ?_)
  refine wp_mono (hf.after hs) fun x t ht => ?_
  cases x <;> exact ht

theorem moves_forEach {f : β → Prog S Unit} {bs : List β} (h : ∀ b ∈ bs, Moves M Rel (f b)) :
    Moves M Rel (Prog.forEach f bs) :=
  fun s => wp_forEach (refl_of Rel s) fun b hb _ hs => (h b hb).after hs

theorem moves_sumOver {f : β → Prog S Nat} {bs : List β} (h : ∀ b ∈ bs, Moves M Rel (f b)) :
    Moves M Rel (Prog.sumOver f bs) :=
  fun s => wp_sumOver (refl_of Rel s) fun b hb _ hs => (h b hb).after hs

/-- A footprint whose operations move along `Rel`. -/
theorem Uses.moves {P : S.Op → Prop} {p : Prog S α} (h : Uses P p)
    (hstep : ∀ s op r s', P op → M.step s op r s' → Rel s s') : Moves M Rel p := by
  intro s
  exact h.keeps (refl_of Rel s) (fun _ _ _ _ => trivial)
    fun _ op r _ hop hs hr => trans_of Rel hs (hstep _ op r _ hop hr)

end Moves

end Async
