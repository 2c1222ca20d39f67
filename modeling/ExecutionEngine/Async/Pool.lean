/-
  Interleavings of resumption programs, and histories.

  `Pool` holds a family of threads over one shared state. A step lets one thread
  perform its next operation, or lets the environment change the state. The
  trace keeps, for every operation performed, the thread and the answer.

  A thread sees only its own answers, so what its code guarantees whatever the
  others do is a statement about its local history: `wp Sem.free φ p _ []`, where
  `Sem.free` gives every operation every answer. `local_discipline` carries such
  a statement to every interleaving: each event of the trace met `φ` at the local
  history its thread had at that moment.
-/
import Mathlib.Logic.Function.Basic
import Mathlib.Logic.Relation
import ExecutionEngine.Async.Prog

namespace Async

variable {S : Sig} {σ ι α : Type}

/-- One performed operation and its answer. -/
structure Event (S : Sig) where
  op : S.Op
  res : S.Answer op

/-- Every operation may get every answer; the state is the history so far. -/
def Sem.free : Sem S (List (Event S)) where
  step h op r h' := h' = h ++ [⟨op, r⟩]

/-- Every operation may get every answer of a kind. -/
def Sem.answering (K : Event S → Prop) : Sem S (List (Event S)) where
  step h op r h' := K ⟨op, r⟩ ∧ h' = h ++ [⟨op, r⟩]

/-- A semantics that also keeps the history of the run. -/
def Sem.traced (M : Sem S σ) : Sem S (σ × List (Event S)) where
  step s op r s' := M.step s.1 op r s'.1 ∧ s'.2 = s.2 ++ [⟨op, r⟩]

/-- What holds of the state holds of it with the history beside it. -/
theorem wp_traced {M : Sem S σ} {pre : σ → S.Op → Prop} {p : Prog S α}
    {Q : Except S.Exn α → σ → Prop} {s : σ} (h : wp M pre p Q s) (hist : List (Event S)) :
    wp M.traced (fun x op => pre x.1 op) p (fun o x => Q o x.1) (s, hist) := by
  induction p generalizing s hist with
  | ret a => exact h
  | raise e => exact h
  | stuck => trivial
  | call op k ih =>
    refine ⟨h.1, fun r x hx => ?_⟩
    obtain ⟨s', hist'⟩ := x
    exact ih r (h.2 r s' hx.1) hist'

/-- A deterministic handler that keeps the history. -/
def traceHandler (h : σ → (op : S.Op) → S.Answer op × σ) (x : σ × List (Event S)) (op : S.Op) :
    S.Answer op × (σ × List (Event S)) :=
  ((h x.1 op).1, (h x.1 op).2, x.2 ++ [⟨op, (h x.1 op).1⟩])

theorem Follows.traced {M : Sem S σ} {h : σ → (op : S.Op) → S.Answer op × σ} (hM : Follows M h) :
    Follows M.traced (traceHandler h) :=
  fun x op => ⟨hM x.1 op, rfl⟩

/-- The history only grows, by events of the footprint. -/
theorem Uses.history {M : Sem S σ} {P : S.Op → Prop} {p : Prog S α} (h : Uses P p)
    (x : σ × List (Event S)) :
    wp M.traced (fun _ _ => True) p
      (fun _ y => ∃ t, y.2 = x.2 ++ t ∧ ∀ e ∈ t, P e.op) x := by
  refine h.keeps ⟨[], by simp⟩ (fun _ _ _ _ => trivial) fun y op r z hop hy hz => ?_
  obtain ⟨t, ht, hP⟩ := hy
  refine ⟨t ++ [⟨op, r⟩], by rw [hz.2, ht, List.append_assoc], fun e he => ?_⟩
  rcases List.mem_append.mp he with he | he
  · exact hP e he
  · rw [List.mem_singleton.mp he]
    exact hop

/-! ## Pools -/

/-- Threads over a shared state, with the trace of what they have done. -/
structure Pool (S : Sig) (σ ι : Type) where
  threads : ι → Prog S Unit
  state : σ
  trace : List (ι × Event S)

/-- The part of a trace that thread `i` performed. -/
def localHistory [DecidableEq ι] (i : ι) (tr : List (ι × Event S)) : List (Event S) :=
  (tr.filter fun x => x.1 = i).map Prod.snd

/-- One step of a pool: thread `i` performs its next operation, or the environment moves. -/
inductive PoolStep [DecidableEq ι] (M : Sem S σ) (env : σ → σ → Prop) :
    Pool S σ ι → Pool S σ ι → Prop where
  | thread {P : Pool S σ ι} (i : ι) {op : S.Op} {k : S.Answer op → Prog S Unit}
      {r : S.Answer op} {s' : σ} (hi : P.threads i = .call op k) (hs : M.step P.state op r s') :
      PoolStep M env P ⟨Function.update P.threads i (k r), s', P.trace ++ [(i, ⟨op, r⟩)]⟩
  | env {P : Pool S σ ι} {s' : σ} (he : env P.state s') : PoolStep M env P { P with state := s' }

/-- Pools reachable from `P₀`. -/
def PoolReach [DecidableEq ι] (M : Sem S σ) (env : σ → σ → Prop) (P₀ P : Pool S σ ι) : Prop :=
  Relation.ReflTransGen (PoolStep M env) P₀ P

/-- Let the threads of a schedule move one operation each, against a deterministic handler. -/
def runPool [DecidableEq ι] (h : σ → (op : S.Op) → S.Answer op × σ) :
    List ι → Pool S σ ι → Pool S σ ι
  | [], P => P
  | i :: is, P =>
    match P.threads i with
    | .call op k => runPool h is ⟨Function.update P.threads i (k (h P.state op).1),
        (h P.state op).2, P.trace ++ [(i, ⟨op, (h P.state op).1⟩)]⟩
    | _ => runPool h is P

theorem runPool_reach [DecidableEq ι] {M : Sem S σ} {env : σ → σ → Prop}
    {h : σ → (op : S.Op) → S.Answer op × σ} (hM : Follows M h) (is : List ι) (P : Pool S σ ι) :
    PoolReach M env P (runPool h is P) := by
  induction is generalizing P with
  | nil => exact .refl
  | cons i is ih =>
    unfold runPool
    split
    · rename_i op k hi
      exact Relation.ReflTransGen.head (.thread i hi (hM P.state op)) (ih _)
    · exact ih P

section Local

variable [DecidableEq ι]

@[simp] theorem localHistory_nil (i : ι) : localHistory i ([] : List (ι × Event S)) = [] := rfl

theorem localHistory_append (i : ι) (tr tr' : List (ι × Event S)) :
    localHistory i (tr ++ tr') = localHistory i tr ++ localHistory i tr' := by
  simp [localHistory]

@[simp] theorem localHistory_self (i : ι) (e : Event S) : localHistory i [(i, e)] = [e] := by
  simp [localHistory]

theorem localHistory_ne {i j : ι} (h : j ≠ i) (e : Event S) : localHistory i [(j, e)] = [] := by
  simp [localHistory, h]

theorem mem_localHistory {i : ι} {e : Event S} {tr : List (ι × Event S)} :
    e ∈ localHistory i tr ↔ (i, e) ∈ tr := by
  constructor
  · intro h
    obtain ⟨⟨j, e'⟩, hm, rfl⟩ := List.mem_map.mp h
    obtain ⟨hm, hj⟩ := List.mem_filter.mp hm
    have : j = i := by simpa using hj
    exact this ▸ hm
  · intro h
    exact List.mem_map.mpr ⟨(i, e), List.mem_filter.mpr ⟨h, by simp⟩, rfl⟩

theorem localHistory_subset (i : ι) (tr tr' : List (ι × Event S)) :
    localHistory i tr ⊆ localHistory i (tr ++ tr') := by
  rw [localHistory_append]
  exact List.subset_append_left ..

/-- A place in the history of a thread is a place in the trace. -/
theorem localHistory_split {i : ι} {tr : List (ι × Event S)} {before after : List (Event S)}
    {ev : Event S} (h : localHistory i tr = before ++ ev :: after) :
    ∃ a b, tr = a ++ (i, ev) :: b ∧ localHistory i a = before ∧ localHistory i b = after := by
  induction tr generalizing before with
  | nil => simp at h
  | cons x tr ih =>
    obtain ⟨j, ev'⟩ := x
    have hcons : localHistory i ((j, ev') :: tr) =
        localHistory i [(j, ev')] ++ localHistory i tr := localHistory_append i [(j, ev')] tr
    rw [hcons] at h
    by_cases hj : j = i
    · subst hj
      rw [localHistory_self, List.singleton_append] at h
      cases before with
      | nil =>
        obtain ⟨rfl, hafter⟩ := List.cons.inj h
        exact ⟨[], tr, rfl, rfl, hafter⟩
      | cons ev₀ before =>
        obtain ⟨rfl, htail⟩ := List.cons.inj h
        obtain ⟨a, b, rfl, ha, hb⟩ := ih htail
        refine ⟨(j, ev') :: a, b, rfl, ?_, hb⟩
        rw [← ha]
        exact (localHistory_append j [(j, ev')] a).trans (by rw [localHistory_self]; rfl)
    · rw [localHistory_ne hj, List.nil_append] at h
      obtain ⟨a, b, rfl, ha, hb⟩ := ih h
      refine ⟨(j, ev') :: a, b, rfl, ?_, hb⟩
      rw [← ha]
      exact (localHistory_append i [(j, ev')] a).trans (by rw [localHistory_ne hj]; rfl)

/-- A trace only grows. -/
theorem reach_trace {M : Sem S σ} {env : σ → σ → Prop} {Q P : Pool S σ ι}
    (hP : PoolReach M env Q P) : ∃ t, P.trace = Q.trace ++ t := by
  induction hP with
  | refl => exact ⟨[], by simp⟩
  | tail _ hstep ih =>
    obtain ⟨t, ht⟩ := ih
    cases hstep with
    | env => exact ⟨t, ht⟩
    | @thread i op k r s' =>
      refine ⟨t ++ [(i, ⟨op, r⟩)], ?_⟩
      rw [ht, List.append_assoc]

/-- Every event of the trace met `φ` at the local history of its thread. -/
def TraceOk (φ : List (Event S) → S.Op → Prop) (tr : List (ι × Event S)) : Prop :=
  ∀ pre i e post, tr = pre ++ (i, e) :: post → φ (localHistory i pre) e.op

theorem traceOk_nil (φ : List (Event S) → S.Op → Prop) : TraceOk φ ([] : List (ι × Event S)) := by
  intro pre i e post h
  cases pre <;> simp at h

/-- Extending a trace by one event: the new event is the only new obligation. -/
theorem TraceOk.snoc {φ : List (Event S) → S.Op → Prop} {tr : List (ι × Event S)}
    (h : TraceOk φ tr) {i : ι} {e : Event S} (he : φ (localHistory i tr) e.op) :
    TraceOk φ (tr ++ [(i, e)]) := by
  intro pre j e' post heq
  rcases List.eq_nil_or_concat post with rfl | ⟨post', x, rfl⟩
  · obtain ⟨rfl, hlast⟩ := List.append_inj' heq rfl
    obtain ⟨rfl, rfl⟩ := Prod.mk.inj (List.cons.inj hlast).1
    exact he
  · have heq' : tr ++ [(i, e)] = (pre ++ (j, e') :: post') ++ [x] := by
      rw [heq]; simp
    obtain ⟨htr, -⟩ := List.append_inj' heq' rfl
    exact h pre j e' post' htr

theorem TraceOk.left {φ : List (Event S) → S.Op → Prop} {tr tr' : List (ι × Event S)}
    (h : TraceOk φ (tr ++ tr')) : TraceOk φ tr := by
  intro pre i e post htr
  refine h pre i e (post ++ tr') ?_
  rw [htr, List.append_assoc, List.cons_append]

/-- The last event of a trace met `φ` too. -/
theorem TraceOk.last {φ : List (Event S) → S.Op → Prop} {tr : List (ι × Event S)} {i : ι}
    {e : Event S} (h : TraceOk φ (tr ++ [(i, e)])) : φ (localHistory i tr) e.op :=
  h tr i e [] rfl

/-- What each thread's code guarantees on its own history, whatever answers of a kind it gets,
    holds of every event of every interleaving with answers of that kind, and of every end. -/
theorem local_discipline_of {M : Sem S σ} {env : σ → σ → Prop} {φ : List (Event S) → S.Op → Prop}
    {Q : ι → Except S.Exn Unit → List (Event S) → Prop} {K : Event S → Prop} {P₀ P : Pool S σ ι}
    (htr : P₀.trace = []) (h₀ : ∀ i, wp (Sem.answering K) φ (P₀.threads i) (Q i) [])
    (hP : PoolReach M env P₀ P) (hans : ∀ x ∈ P.trace, K x.2) :
    TraceOk φ P.trace ∧
      ∀ i, wp (Sem.answering K) φ (P.threads i) (Q i) (localHistory i P.trace) := by
  induction hP with
  | refl =>
    rw [htr]
    exact ⟨traceOk_nil φ, fun i => by simpa using h₀ i⟩
  | tail _ hstep ih =>
    cases hstep with
    | env he => exact ih hans
    | @thread i op k r s' hi hs =>
      obtain ⟨hok, hth⟩ := ih fun x hx => hans x (List.mem_append_left _ hx)
      have hw := hth i
      rw [hi] at hw
      refine ⟨hok.snoc hw.1, fun j => ?_⟩
      rw [localHistory_append]
      by_cases hj : j = i
      · subst hj
        simp only [Function.update_self, localHistory_self]
        exact hw.2 _ _ ⟨hans _ (List.mem_append_right _ (List.mem_singleton_self _)), rfl⟩
      · dsimp only
        rw [Function.update_of_ne hj, localHistory_ne (Ne.symm hj), List.append_nil]
        exact hth j

/-- What holds whatever the answers. -/
theorem local_discipline {M : Sem S σ} {env : σ → σ → Prop} {φ : List (Event S) → S.Op → Prop}
    {P₀ P : Pool S σ ι} (htr : P₀.trace = [])
    (h₀ : ∀ i, wp Sem.free φ (P₀.threads i) (fun _ _ => True) [])
    (hP : PoolReach M env P₀ P) : TraceOk φ P.trace := by
  refine (local_discipline_of (K := fun _ => True) (Q := fun _ _ _ => True) htr (fun i => ?_) hP
    fun _ _ => trivial).1
  exact wp_sem_mono (fun _ _ _ _ h => h.2) (h₀ i)

/-- Something about every event of a list, with what stood before it, position by position. -/
theorem forall_split_iff {β : Type} {Φ : List β → β → Prop} {l : List β} :
    (∀ pre x post, l = pre ++ x :: post → Φ pre x) ↔
      ∀ n, (h : n < l.length) → Φ (l.take n) l[n] := by
  constructor
  · intro h n hn
    refine h (l.take n) l[n] (l.drop (n + 1)) ?_
    rw [List.getElem_cons_drop, List.take_append_drop]
  · rintro h pre x post rfl
    simpa using h pre.length (by simp)

/-- What holds of a list position by position holds of every list it goes on from. -/
theorem forall_split_left {β : Type} {Φ : List β → β → Prop} {l l' : List β}
    (h : ∀ pre x post, l ++ l' = pre ++ x :: post → Φ pre x) :
    ∀ pre x post, l = pre ++ x :: post → Φ pre x := by
  intro pre x post hl
  refine h pre x (post ++ l') ?_
  rw [hl, List.append_assoc, List.cons_append]

/-- The same of a list with one more element. -/
theorem forall_split_snoc {β : Type} {Φ : List β → β → Prop} {l : List β} {y : β} :
    (∀ pre x post, l ++ [y] = pre ++ x :: post → Φ pre x) ↔
      (∀ pre x post, l = pre ++ x :: post → Φ pre x) ∧ Φ l y := by
  constructor
  · intro h
    exact ⟨forall_split_left h, h l y [] rfl⟩
  · rintro ⟨hall, hlast⟩ pre x post heq
    rcases List.eq_nil_or_concat post with rfl | ⟨post', z, rfl⟩
    · obtain ⟨rfl, hx⟩ := List.append_inj' heq rfl
      exact (List.cons.inj hx).1 ▸ hlast
    · have hsplit : l ++ [y] = (pre ++ x :: post') ++ [z] := by
        rw [heq, List.concat_eq_append, List.append_assoc, List.cons_append]
      exact hall pre x post' (List.append_inj' hsplit rfl).1

/-- An invariant of state and trace that every operation and the environment keep. -/
theorem pool_invariant {M : Sem S σ} {env : σ → σ → Prop} {P₀ P : Pool S σ ι}
    {I : σ → List (ι × Event S) → Prop} (h₀ : I P₀.state P₀.trace)
    (hstep : ∀ s tr i op r s', I s tr → M.step s op r s' → I s' (tr ++ [(i, ⟨op, r⟩)]))
    (henv : ∀ s tr s', I s tr → env s s' → I s' tr)
    (hP : PoolReach M env P₀ P) : I P.state P.trace := by
  induction hP with
  | refl => exact h₀
  | tail _ hs ih =>
    cases hs with
    | env he => exact henv _ _ _ ih he
    | thread i hi hs => exact hstep _ _ _ _ _ _ ih hs

/-- Every event of a trace came from a step of the run. -/
theorem event_source {M : Sem S σ} {env : σ → σ → Prop} {P₀ P : Pool S σ ι}
    (htr : P₀.trace = []) (hP : PoolReach M env P₀ P) {pre post : List (ι × Event S)} {i : ι}
    {e : Event S} (h : P.trace = pre ++ (i, e) :: post) :
    ∃ Q Q' : Pool S σ ι, PoolReach M env P₀ Q ∧ PoolReach M env Q' P ∧
      M.step Q.state e.op e.res Q'.state ∧ Q.trace = pre ∧ Q'.trace = pre ++ [(i, e)] := by
  induction hP generalizing post with
  | refl =>
    rw [htr] at h
    cases pre <;> simp at h
  | @tail Q R hQ hs ih =>
    have hstep := hs
    cases hs with
    | env he =>
      obtain ⟨A, B, hA, hB, hst, hpre, hpost⟩ := ih h
      exact ⟨A, B, hA, hB.tail hstep, hst, hpre, hpost⟩
    | @thread j op k r s' hj hop =>
      dsimp only at h
      rcases List.eq_nil_or_concat post with rfl | ⟨post', x, rfl⟩
      · obtain ⟨hQtr, hlast⟩ := List.append_inj' h rfl
        obtain ⟨rfl, rfl⟩ := Prod.mk.inj (List.cons.inj hlast).1
        exact ⟨Q, _, hQ, .refl, hop, hQtr, by rw [hQtr]⟩
      · have heq : Q.trace ++ [(j, ⟨op, r⟩)] = (pre ++ (i, e) :: post') ++ [x] := by
          rw [h]; simp
        obtain ⟨hQtr, -⟩ := List.append_inj' heq rfl
        obtain ⟨A, B, hA, hB, hst, hpre, hpost⟩ := ih hQtr
        exact ⟨A, B, hA, hB.tail hstep, hst, hpre, hpost⟩

end Local

end Async
