/-
  One thread among others.

  `Sem.among M rely` is `M` with moves of the others before each operation, so a
  `wp` over it is what one program guarantees while the rest keeps to `rely`.
  `rely_guarantee` carries it to a pool: where the other threads perform only
  operations that keep to `rely`, thread `i` has at every moment the demand it
  still has to meet, and `Played` says how far it has come.

  Some runs assume more. `StepWith` runs are those whose every step is as a
  condition on trace, state and event allows, whoever moves;
  `rely_guarantee_with` is the rule for them, and what it relies on may depend on
  how far thread `i` has come. `StepWhere` is the case of a condition on the
  thread's own steps, `StepAll` that of one for every thread alike.
-/
import ExecutionEngine.Async.Pool

namespace Async

variable {S : Sig} {σ ι α β : Type}

/-- `M` with moves of others before each operation. -/
def Sem.among (M : Sem S σ) (rely : σ → σ → Prop) : Sem S σ where
  step s op r s' := ∃ s₁, rely s s₁ ∧ M.step s₁ op r s'

/-- The same where `ok` allows, with the own history kept; what the others do may depend on it. -/
def Sem.amongWhere (M : Sem S σ) (rely : List (Event S) → σ → σ → Prop)
    (ok : List (Event S) → σ → (op : S.Op) → S.Answer op → Prop) :
    Sem S (σ × List (Event S)) where
  step x op r y :=
    ∃ s₁, rely x.2 x.1 s₁ ∧ ok x.2 s₁ op r ∧ M.step s₁ op r y.1 ∧ y.2 = x.2 ++ [⟨op, r⟩]

/-- The demand is met wherever the others leave the state. -/
def within (rely : σ → σ → Prop) (pre : σ → S.Op → Prop) (s : σ) (op : S.Op) : Prop :=
  ∀ s₁, rely s s₁ → pre s₁ op

variable {M : Sem S σ} {rely : σ → σ → Prop} {pre : σ → S.Op → Prop}

theorem wp_among_perform {op : S.Op} {Q : Except S.Exn (S.Res op) → σ → Prop} {s : σ}
    (h : ∀ s₁, rely s s₁ → pre s₁ op ∧ ∀ r s', M.step s₁ op r s' → Q r s') :
    wp (M.among rely) (within rely pre) (Prog.perform op) Q s :=
  wp_perform.mpr ⟨fun s₁ hs => (h s₁ hs).1, fun r s' ⟨s₁, hs, hstep⟩ => (h s₁ hs).2 r s' hstep⟩

/-- A program that nothing is assumed of does not need its history. -/
theorem wp_amongWhere_iff {p : Prog S α} {Q : Except S.Exn α → σ → Prop} {s : σ}
    {h : List (Event S)} :
    wp (M.amongWhere (fun _ => rely) fun _ _ _ _ => True) (fun x op => pre x.1 op) p
      (fun o x => Q o x.1) (s, h) ↔ wp (M.among rely) pre p Q s := by
  induction p generalizing s h with
  | ret a => exact Iff.rfl
  | raise e => exact Iff.rfl
  | stuck => exact Iff.rfl
  | call op k ih =>
    refine and_congr_right fun _ => ⟨fun hk r s' hs => ?_, fun hk r x hx => ?_⟩
    · obtain ⟨s₁, hrely, hstep⟩ := hs
      exact (ih r).mp (hk r (s', h ++ [⟨op, r⟩]) ⟨s₁, hrely, trivial, hstep, rfl⟩)
    · obtain ⟨s', h'⟩ := x
      obtain ⟨s₁, hrely, -, hstep, -⟩ := hx
      exact (ih r).mpr (hk r s' ⟨s₁, hrely, hstep⟩)

/-- A stable invariant, kept by every operation of the footprint. -/
theorem Uses.among {P : S.Op → Prop} {p : Prog S α} {I : σ → Prop} {s : σ} (h : Uses P p)
    (hs : I s) (hrely : ∀ s s', rely s s' → I s → I s') (hpre : ∀ s op, P op → I s → pre s op)
    (hstep : ∀ s op r s', P op → I s → M.step s op r s' → I s') :
    wp (M.among rely) (within rely pre) p (fun _ s' => I s') s :=
  h.keeps hs (fun s op hop hI s₁ hr => hpre s₁ op hop (hrely s s₁ hr hI))
    fun s op r s' hop hI ⟨s₁, hr, hst⟩ => hstep s₁ op r s' hop (hrely s s₁ hr hI) hst

theorem wp_amongWhere_perform {rely : List (Event S) → σ → σ → Prop}
    {ok : List (Event S) → σ → (op : S.Op) → S.Answer op → Prop} {op : S.Op}
    {Q : Except S.Exn (S.Res op) → σ × List (Event S) → Prop} {s : σ} {h : List (Event S)}
    (hQ : ∀ s₁ r s', rely h s s₁ → ok h s₁ op r → M.step s₁ op r s' → Q r (s', h ++ [⟨op, r⟩])) :
    wp (M.amongWhere rely ok) (fun _ _ => True) (Prog.perform op) Q (s, h) := by
  refine wp_perform.mpr ⟨trivial, fun r y hy => ?_⟩
  obtain ⟨s', h'⟩ := y
  obtain ⟨s₁, hrely, hok, hstep, hh⟩ := hy
  rw [show h' = h ++ [⟨op, r⟩] from hh]
  exact hQ s₁ r s' hrely hok hstep

/-- A stable invariant of state and own history, kept by every operation of the footprint. -/
theorem Uses.amongWhere {rely : List (Event S) → σ → σ → Prop}
    {ok : List (Event S) → σ → (op : S.Op) → S.Answer op → Prop} {P : S.Op → Prop} {p : Prog S α}
    {I : σ × List (Event S) → Prop} {x : σ × List (Event S)} (hp : Uses P p) (hx : I x)
    (hrely : ∀ s s' h, rely h s s' → I (s, h) → I (s', h))
    (hstep : ∀ s op r s' h, P op → I (s, h) → M.step s op r s' → I (s', h ++ [⟨op, r⟩])) :
    wp (M.amongWhere rely ok) (fun _ _ => True) p (fun _ y => I y) x := by
  refine hp.keeps hx (fun _ _ _ _ => trivial) fun y op r z hop hy hz => ?_
  obtain ⟨s, h⟩ := y
  obtain ⟨s', h'⟩ := z
  obtain ⟨s₁, hr, -, hst, hh⟩ := hz
  rw [show h' = h ++ [⟨op, r⟩] from hh]
  exact hstep s₁ op r s' h hop (hrely s s₁ h hr hy) hst

/-! ## How far a program has come -/

/-- After performing this history, `p` has come to `q`. -/
inductive Played : Prog S α → List (Event S) → Prog S α → Prop where
  | nil (p : Prog S α) : Played p [] p
  | snoc {p : Prog S α} {h : List (Event S)} {op : S.Op} {k : S.Answer op → Prog S α}
      (t : Played p h (.call op k)) (r : S.Answer op) : Played p (h ++ [⟨op, r⟩]) (k r)

theorem Played.inj {p q q' : Prog S α} {h : List (Event S)} (t : Played p h q)
    (t' : Played p h q') : q = q' := by
  induction t generalizing q' with
  | nil =>
    generalize hh : ([] : List (Event S)) = h at t'
    cases t' with
    | nil => rfl
    | snoc => simp at hh
  | snoc t r ih =>
    generalize hh : _ ++ [_] = h at t'
    cases t' with
    | nil => simp at hh
    | snoc t' r' =>
      obtain ⟨rfl, hev⟩ := List.append_inj' hh rfl
      obtain ⟨rfl, hr⟩ := Event.mk.inj (List.cons.inj hev).1
      obtain rfl := eq_of_heq hr
      obtain ⟨-, hk⟩ := Prog.call.inj (ih t')
      rw [eq_of_heq hk]

/-- What holds of a history whatever the answers holds of the one that has been played. -/
theorem Played.locally {p q : Prog S α} {h : List (Event S)} {φ : List (Event S) → S.Op → Prop}
    {Q : Except S.Exn α → List (Event S) → Prop} (t : Played p h q) (hw : wp Sem.free φ p Q []) :
    wp Sem.free φ q Q h := by
  induction t with
  | nil => exact hw
  | snoc t r ih => exact ih.2 r _ rfl

/-- `p` gets stuck only after a history with `φ`. -/
def Stalls (φ : List (Event S) → Prop) : Prog S α → List (Event S) → Prop
  | .stuck, h => φ h
  | .call op k, h => ∀ r, Stalls φ (k r) (h ++ [⟨op, r⟩])
  | .ret _, _ => True
  | .raise _, _ => True

section Stalls

variable {φ : List (Event S) → Prop} {h : List (Event S)}

theorem stalls_perform (op : S.Op) : Stalls φ (Prog.perform op) h := by
  intro r
  cases r <;> trivial

theorem Stalls.bind {p : Prog S α} {f : α → Prog S β} (hp : Stalls φ p h)
    (hf : ∀ a t, Stalls φ (f a) (h ++ t)) : Stalls φ (p.bind f) h := by
  induction p generalizing h with
  | ret a => exact List.append_nil h ▸ hf a []
  | raise e => trivial
  | stuck => exact hp
  | call op k ih =>
    refine fun r => ih r (hp r) fun a t => ?_
    rw [List.append_assoc]
    exact hf a _

theorem Stalls.tryExcept {p : Prog S α} {f : S.Exn → Prog S α} (hp : Stalls φ p h)
    (hf : ∀ e t, Stalls φ (f e) (h ++ t)) : Stalls φ (p.tryExcept f) h := by
  induction p generalizing h with
  | ret a => trivial
  | raise e => exact List.append_nil h ▸ hf e []
  | stuck => exact hp
  | call op k ih =>
    refine fun r => ih r (hp r) fun e t => ?_
    rw [List.append_assoc]
    exact hf e _

theorem Stalls.tryFinally {p : Prog S α} {f : Prog S Unit} (hp : Stalls φ p h)
    (hf : ∀ t, Stalls φ f (h ++ t)) : Stalls φ (p.tryFinally f) h := by
  induction p generalizing h with
  | ret a =>
    have hnow : Stalls φ f h := List.append_nil h ▸ hf []
    exact hnow.bind fun _ _ => trivial
  | raise e =>
    have hnow : Stalls φ f h := List.append_nil h ▸ hf []
    exact hnow.bind fun _ _ => trivial
  | stuck => exact hp
  | call op k ih =>
    refine fun r => ih r (hp r) fun t => ?_
    rw [List.append_assoc]
    exact hf _

theorem stalls_forEach {f : β → Prog S Unit} {bs : List β} (hf : ∀ b h, Stalls φ (f b) h) :
    Stalls φ (Prog.forEach f bs) h := by
  induction bs generalizing h with
  | nil => trivial
  | cons b bs ih => exact (hf b h).bind fun _ _ => ih

theorem stalls_sumOver {f : β → Prog S Nat} {bs : List β} (hf : ∀ b h, Stalls φ (f b) h) :
    Stalls φ (Prog.sumOver f bs) h := by
  induction bs generalizing h with
  | nil => trivial
  | cons b bs ih => exact (hf b h).bind fun _ _ => ih.bind fun _ _ => trivial

/-- What has been played of a program gets stuck where the program does. -/
theorem Played.stalls {p q : Prog S α} (t : Played p h q) (hp : Stalls φ p []) :
    Stalls φ q h := by
  induction t with
  | nil => exact hp
  | snoc t r ih => exact ih r

/-- A program that never gets stuck comes to an end, whatever it is answered. -/
theorem Stalls.ends {p : Prog S α} (hp : Stalls (fun _ => False) p h)
    (handler : σ → (op : S.Op) → S.Answer op × σ) (s : σ) :
    ∃ o, (run handler p s).1 = some o := by
  induction p generalizing h s with
  | ret a => exact ⟨.ok a, rfl⟩
  | raise e => exact ⟨.error e, rfl⟩
  | stuck => exact hp.elim
  | call op k ih => exact ih _ (hp _) _

end Stalls

/-! ## Pools -/

section Pools

variable [DecidableEq ι] {env : σ → σ → Prop} {P₀ P : Pool S σ ι}

/-- A footprint lasts. -/
theorem pool_uses {F : S.Op → Prop} {j : ι} (h : Uses F (P₀.threads j))
    (hP : PoolReach M env P₀ P) : Uses F (P.threads j) := by
  induction hP with
  | refl => exact h
  | tail _ hstep ih =>
    cases hstep with
    | env he => exact ih
    | @thread i op k r s' hi hs =>
      by_cases hj : j = i
      · subst hj
        rw [hi] at ih
        simpa using ih.2 r
      · simpa [Function.update_of_ne hj] using ih

/-- What a thread has done is of its footprint. -/
theorem pool_footprint {F : ι → S.Op → Prop} (htr : P₀.trace = [])
    (h : ∀ i, Uses (F i) (P₀.threads i)) (hP : PoolReach M env P₀ P) :
    ∀ x ∈ P.trace, F x.1 x.2.op := by
  induction hP with
  | refl =>
    rw [htr]
    exact fun x hx => absurd hx List.not_mem_nil
  | @tail Q _ hQ hstep ih =>
    cases hstep with
    | env he => exact ih
    | @thread i op k r s' hi hs =>
      intro x hx
      rcases List.mem_append.mp hx with hold | hnew
      · exact ih x hold
      · have huses := pool_uses (h i) hQ
        rw [hi] at huses
        rw [List.mem_singleton.mp hnew]
        exact huses.1

/-- What only one thread's events say is in its own history. -/
theorem filterMap_local {γ : Type} {f : Event S → Option γ} {i : ι} {tr : List (ι × Event S)}
    (h : ∀ x ∈ tr, f x.2 ≠ none → x.1 = i) :
    (tr.map Prod.snd).filterMap f = (localHistory i tr).filterMap f := by
  induction tr with
  | nil => rfl
  | cons x tr ih =>
    obtain ⟨j, e⟩ := x
    have hrest := ih fun x hx => h x (List.mem_cons_of_mem _ hx)
    rw [List.map_cons, ← List.singleton_append, List.filterMap_append, hrest,
      ← List.singleton_append (l := tr), localHistory_append, List.filterMap_append]
    congr 1
    by_cases hj : j = i
    · subst hj
      rw [localHistory_self]
    · have hnone : f e = none := by
        by_contra hf
        exact hj (h _ List.mem_cons_self hf)
      rw [localHistory_ne hj]
      simp [hnone]

/-- The answers are as `C` allows after the own history. -/
def Sem.knowing (C : List (Event S) → (op : S.Op) → S.Answer op → Prop) : Sem S (List (Event S)) where
  step h op r h' := C h op r ∧ h' = h ++ [⟨op, r⟩]

/-- What the code of a thread guarantees on its own history, given what its answers say about that
    history, holds of it in every interleaving in which they do. -/
theorem local_discipline_at {C : List (Event S) → (op : S.Op) → S.Answer op → Prop}
    {φ : List (Event S) → S.Op → Prop} {Q : Except S.Exn Unit → List (Event S) → Prop} {i : ι}
    (htr : P₀.trace = []) (h₀ : wp (Sem.knowing C) φ (P₀.threads i) Q [])
    (hP : PoolReach M env P₀ P)
    (hans : ∀ pre e post, P.trace = pre ++ (i, e) :: post → C (localHistory i pre) e.op e.res) :
    (∀ pre e post, localHistory i P.trace = pre ++ e :: post → φ pre e.op) ∧
      wp (Sem.knowing C) φ (P.threads i) Q (localHistory i P.trace) := by
  induction hP with
  | refl =>
    rw [htr]
    exact ⟨fun pre e post h => by simp at h, h₀⟩
  | @tail R _ hR hstep ih =>
    cases hstep with
    | env he => exact ih hans
    | @thread j op k r s' hj hs =>
      dsimp only at hans ⊢
      have hbefore : ∀ pre e post, R.trace = pre ++ (i, e) :: post →
          C (localHistory i pre) e.op e.res := fun pre e post htrace =>
        hans pre e (post ++ [(j, ⟨op, r⟩)]) (by rw [htrace, List.append_assoc, List.cons_append])
      obtain ⟨hφ, hw⟩ := ih hbefore
      rw [localHistory_append]
      by_cases hij : j = i
      · subst hij
        rw [hj] at hw
        rw [localHistory_self, Function.update_self]
        exact ⟨forall_split_snoc.mpr ⟨hφ, hw.1⟩, hw.2 r _ ⟨hans R.trace ⟨op, r⟩ [] rfl, rfl⟩⟩
      · rw [localHistory_ne hij, List.append_nil, Function.update_of_ne (Ne.symm hij)]
        exact ⟨hφ, hw⟩

/-- A step of the pool that is as `cond` allows: of the trace so far, the state, who moves, the
    event, and the state after it. -/
def StepWith (M : Sem S σ) (env : σ → σ → Prop)
    (cond : List (ι × Event S) → σ → ι → Event S → σ → Prop) (P Q : Pool S σ ι) : Prop :=
  PoolStep M env P Q ∧ ∀ j ev, Q.trace = P.trace ++ [(j, ev)] →
    cond P.trace P.state j ev Q.state

/-- A step of the pool in which thread `i`, if it is the one to move, moves as `ok` allows. -/
def StepWhere (M : Sem S σ) (env : σ → σ → Prop) (i : ι)
    (ok : List (Event S) → σ → (op : S.Op) → S.Answer op → Prop) (P Q : Pool S σ ι) : Prop :=
  PoolStep M env P Q ∧
    ∀ op r, Q.trace = P.trace ++ [(i, ⟨op, r⟩)] → ok (localHistory i P.trace) P.state op r

/-- A step of the pool that, whoever moves, is as `ok` allows. -/
def StepAll (M : Sem S σ) (env : σ → σ → Prop) (ok : List (Event S) → σ → S.Op → Prop)
    (P Q : Pool S σ ι) : Prop :=
  PoolStep M env P Q ∧ ∀ j op r, Q.trace = P.trace ++ [(j, ⟨op, r⟩)] →
    ok (localHistory j P.trace) P.state op

variable {i : ι} {ok : List (Event S) → σ → (op : S.Op) → S.Answer op → Prop}
  {cond : List (ι × Event S) → σ → ι → Event S → σ → Prop}

theorem with_reach (hP : Relation.ReflTransGen (StepWith M env cond) P₀ P) :
    PoolReach M env P₀ P :=
  Relation.ReflTransGen.mono (fun _ _ h => h.1) _ _ hP

theorem all_reach {ok : List (Event S) → σ → S.Op → Prop}
    (hP : Relation.ReflTransGen (StepAll M env ok) P₀ P) : PoolReach M env P₀ P :=
  Relation.ReflTransGen.mono (fun _ _ h => h.1) _ _ hP

theorem reach_where (hP : PoolReach M env P₀ P) :
    Relation.ReflTransGen (StepWhere M env i fun _ _ _ _ => True) P₀ P :=
  Relation.ReflTransGen.mono (fun _ _ h => ⟨h, fun _ _ _ => trivial⟩) _ _ hP

/-- Is every step of the computed run of a schedule as `test` allows? -/
def runsWith (handler : σ → (op : S.Op) → S.Answer op × σ)
    (test : List (ι × Event S) → σ → ι → Event S → σ → Bool) : List ι → Pool S σ ι → Bool
  | [], _ => true
  | j :: js, P =>
    match P.threads j with
    | .call op k =>
      test P.trace P.state j ⟨op, (handler P.state op).1⟩ (handler P.state op).2 &&
        runsWith handler test js ⟨Function.update P.threads j (k (handler P.state op).1),
          (handler P.state op).2, P.trace ++ [(j, ⟨op, (handler P.state op).1⟩)]⟩
    | _ => runsWith handler test js P

theorem runPool_with {handler : σ → (op : S.Op) → S.Answer op × σ} (hM : Follows M handler)
    {test : List (ι × Event S) → σ → ι → Event S → σ → Bool}
    (htest : ∀ tr s j ev s', test tr s j ev s' = true → cond tr s j ev s') (js : List ι)
    (P : Pool S σ ι) (hrun : runsWith handler test js P = true) :
    Relation.ReflTransGen (StepWith M env cond) P (runPool handler js P) := by
  induction js generalizing P with
  | nil => exact .refl
  | cons j js ih =>
    cases hj : P.threads j with
    | call op k =>
      simp only [runsWith, hj, Bool.and_eq_true] at hrun
      simp only [runPool, hj]
      refine Relation.ReflTransGen.head ⟨.thread j hj (hM P.state op), fun j' ev htr => ?_⟩
        (ih _ hrun.2)
      obtain ⟨-, hlast⟩ := List.append_inj' htr rfl
      obtain ⟨rfl, rfl⟩ := Prod.mk.inj (List.cons.inj hlast).1
      exact htest _ _ _ _ _ hrun.1
    | ret a =>
      simp only [runsWith, hj] at hrun
      simpa only [runPool, hj] using ih P hrun
    | raise e =>
      simp only [runsWith, hj] at hrun
      simpa only [runPool, hj] using ih P hrun
    | stuck =>
      simp only [runsWith, hj] at hrun
      simpa only [runPool, hj] using ih P hrun

/-- Does thread `i` move only as `test` allows, in the computed run of a schedule? -/
def runsWhere (handler : σ → (op : S.Op) → S.Answer op × σ) (i : ι)
    (test : List (Event S) → σ → (op : S.Op) → S.Answer op → Bool) :
    List ι → Pool S σ ι → Bool :=
  runsWith handler fun tr s j ev _ => j ≠ i || test (localHistory i tr) s ev.op ev.res

theorem runPool_where {handler : σ → (op : S.Op) → S.Answer op × σ} (hM : Follows M handler)
    {test : List (Event S) → σ → (op : S.Op) → S.Answer op → Bool}
    (htest : ∀ h s op r, test h s op r = true → ok h s op r) (js : List ι) (P : Pool S σ ι)
    (hrun : runsWhere handler i test js P = true) :
    Relation.ReflTransGen (StepWhere M env i ok) P (runPool handler js P) := by
  have hsteps : Relation.ReflTransGen (StepWith M env fun tr s j ev _ =>
      j = i → ok (localHistory i tr) s ev.op ev.res) P (runPool handler js P) :=
    runPool_with hM (fun tr s j ev s' ht hj => htest _ _ _ _ (by simpa [hj] using ht)) js P hrun
  exact Relation.ReflTransGen.mono (fun _ _ h => ⟨h.1, fun op r htr => h.2 i ⟨op, r⟩ htr rfl⟩) _ _
    hsteps

/-- Do all threads move only as `test` allows, in the computed run of a schedule? -/
def runsAll (handler : σ → (op : S.Op) → S.Answer op × σ)
    (test : List (Event S) → σ → S.Op → Bool) : List ι → Pool S σ ι → Bool :=
  runsWith handler fun tr s j ev _ => test (localHistory j tr) s ev.op

theorem runPool_all {handler : σ → (op : S.Op) → S.Answer op × σ} (hM : Follows M handler)
    {ok : List (Event S) → σ → S.Op → Prop} {test : List (Event S) → σ → S.Op → Bool}
    (htest : ∀ h s op, test h s op = true → ok h s op) (js : List ι) (P : Pool S σ ι)
    (hrun : runsAll handler test js P = true) :
    Relation.ReflTransGen (StepAll M env ok) P (runPool handler js P) :=
  have hsteps : Relation.ReflTransGen (StepWith M env fun tr s j ev _ =>
      ok (localHistory j tr) s ev.op) P (runPool handler js P) :=
    runPool_with hM (fun _ _ _ _ _ ht => htest _ _ _ ht) js P hrun
  Relation.ReflTransGen.mono (fun _ _ h => ⟨h.1, fun j op r htr => h.2 j ⟨op, r⟩ htr⟩) _ _ hsteps

/-- Where every step of the others, and of the environment, keeps to what is relied on at that
    point of thread `i`'s own history, what the thread guarantees among them under an assumption
    on its own steps holds of it at every moment of every run that meets the condition. -/
theorem rely_guarantee_with {rely : List (Event S) → σ → σ → Prop} [∀ h, IsPreorder σ (rely h)]
    {p : Prog S α} {f : α → Unit} {pre : σ × List (Event S) → S.Op → Prop}
    {Q : Except S.Exn α → σ × List (Event S) → Prop}
    (htr : P₀.trace = []) (henv : ∀ h s s', env s s' → rely h s s')
    (hothers : ∀ R, PoolReach M env P₀ R → ∀ j op k r s', j ≠ i → R.threads j = .call op k →
      M.step R.state op r s' → cond R.trace R.state j ⟨op, r⟩ s' →
      rely (localHistory i R.trace) R.state s')
    (hown : ∀ R, PoolReach M env P₀ R → ∀ op r s', cond R.trace R.state i ⟨op, r⟩ s' →
      ok (localHistory i R.trace) R.state op r)
    (hi : P₀.threads i = p.bind fun a => .ret (f a))
    (hp : wp (M.amongWhere rely ok) pre p Q (P₀.state, []))
    (hP : Relation.ReflTransGen (StepWith M env cond) P₀ P) :
    ∃ q s, Played p (localHistory i P.trace) q ∧ P.threads i = (q.bind fun a => .ret (f a)) ∧
      rely (localHistory i P.trace) s P.state ∧
      wp (M.amongWhere rely ok) pre q Q (s, localHistory i P.trace) := by
  induction hP with
  | refl =>
    rw [htr]
    exact ⟨p, P₀.state, .nil p, hi, refl_of (rely _) _, hp⟩
  | @tail R _ hR hstep ih =>
    obtain ⟨q, s, hplayed, hq, hrely, hw⟩ := ih
    obtain ⟨hstep, hcond⟩ := hstep
    cases hstep with
    | env he => exact ⟨q, s, hplayed, hq, trans_of (rely _) hrely (henv _ _ _ he), hw⟩
    | @thread j op k r s' hj hs =>
      have hmet := hcond j ⟨op, r⟩ rfl
      dsimp only at hmet ⊢
      rw [localHistory_append]
      by_cases hij : j = i
      · subst hij
        have hok := hown R (with_reach hR) op r s' hmet
        rw [hq] at hj
        -- `q` itself is at this operation
        cases q with
        | call op' k' =>
          obtain ⟨rfl, hk⟩ := Prog.call.inj hj
          obtain rfl := eq_of_heq hk
          rw [localHistory_self]
          exact ⟨k' r, s', hplayed.snoc r, by simp, refl_of (rely _) _,
            hw.2 r _ ⟨_, hrely, hok, hs, rfl⟩⟩
        | ret a => cases hj
        | raise e => cases hj
        | stuck => cases hj
      · have hmove := hothers R (with_reach hR) j op k r s' hij hj hs hmet
        rw [localHistory_ne hij, List.append_nil, Function.update_of_ne (Ne.symm hij)]
        exact ⟨q, s, hplayed, hq, trans_of (rely _) hrely hmove, hw⟩

/-- The rule where the others keep to one `rely` by what they can do at all. -/
theorem rely_guarantee_where [IsPreorder σ rely] {F : S.Op → Prop} {p : Prog S α} {f : α → Unit}
    {pre : σ × List (Event S) → S.Op → Prop} {Q : Except S.Exn α → σ × List (Event S) → Prop}
    (htr : P₀.trace = []) (henv : ∀ s s', env s s' → rely s s')
    (hothers : ∀ j, j ≠ i → Uses F (P₀.threads j))
    (hF : ∀ s op r s', F op → M.step s op r s' → rely s s')
    (hi : P₀.threads i = p.bind fun a => .ret (f a))
    (hp : wp (M.amongWhere (fun _ => rely) ok) pre p Q (P₀.state, []))
    (hP : Relation.ReflTransGen (StepWhere M env i ok) P₀ P) :
    ∃ q s, Played p (localHistory i P.trace) q ∧ P.threads i = (q.bind fun a => .ret (f a)) ∧
      rely s P.state ∧
        wp (M.amongWhere (fun _ => rely) ok) pre q Q (s, localHistory i P.trace) := by
  have hsteps : Relation.ReflTransGen (StepWith M env fun tr s j ev _ =>
      j = i → ok (localHistory i tr) s ev.op ev.res) P₀ P :=
    Relation.ReflTransGen.mono (fun _ _ h => ⟨h.1, fun j ev htr hj =>
      h.2 ev.op ev.res (hj ▸ htr)⟩) _ _ hP
  refine rely_guarantee_with htr (fun _ => henv) (fun R hR j op k r s' hij hj hs _ => ?_)
    (fun _ _ _ _ _ h => h rfl) hi hp hsteps
  have hmoves := pool_uses (hothers j hij) hR
  rw [hj] at hmoves
  exact hF _ _ _ _ hmoves.1 hs

/-- The rule without an assumption. -/
theorem rely_guarantee [IsPreorder σ rely] {F : S.Op → Prop} {p : Prog S α} {f : α → Unit}
    {Q : Except S.Exn α → σ → Prop} (htr : P₀.trace = []) (henv : ∀ s s', env s s' → rely s s')
    (hothers : ∀ j, j ≠ i → Uses F (P₀.threads j))
    (hF : ∀ s op r s', F op → M.step s op r s' → rely s s')
    (hi : P₀.threads i = p.bind fun a => .ret (f a))
    (hp : wp (M.among rely) (within rely pre) p Q P₀.state) (hP : PoolReach M env P₀ P) :
    ∃ q s, Played p (localHistory i P.trace) q ∧ P.threads i = (q.bind fun a => .ret (f a)) ∧
      rely s P.state ∧ wp (M.among rely) (within rely pre) q Q s := by
  obtain ⟨q, s, hplayed, hq, hrely, hw⟩ := rely_guarantee_where htr henv hothers hF hi
    (wp_amongWhere_iff.mpr hp) (reach_where hP)
  exact ⟨q, s, hplayed, hq, hrely, wp_amongWhere_iff.mp hw⟩

/-- A thread that has ended has played its program to the end. -/
theorem exists_played {p : Prog S α} {f : α → Unit} (htr : P₀.trace = [])
    (hi : P₀.threads i = p.bind fun a => .ret (f a)) (hP : PoolReach M env P₀ P)
    (hend : P.threads i = .ret ()) : ∃ a, Played p (localHistory i P.trace) (.ret a) := by
  have : IsPreorder σ fun _ _ => True := { refl := fun _ => trivial, trans := fun _ _ _ _ _ => trivial }
  have hp : wp (M.among fun _ _ => True) (within (fun _ _ => True) fun _ _ => True) p
      (fun _ _ => True) P₀.state :=
    (uses_univ p).keeps (I := fun _ => True) trivial (fun _ _ _ _ _ _ => trivial)
      fun _ _ _ _ _ _ _ => trivial
  obtain ⟨q, -, hplayed, hq, -⟩ := rely_guarantee htr (fun _ _ _ => trivial)
    (fun j _ => uses_univ (P₀.threads j)) (fun _ _ _ _ _ _ => trivial) hi hp hP
  rw [hend] at hq
  cases q with
  | ret a => exact ⟨a, hplayed⟩
  | raise e => cases hq
  | stuck => cases hq
  | call op k => cases hq

/-- In particular the operation it is about to perform meets its demand. -/
theorem rely_demand [IsPreorder σ rely] {F : S.Op → Prop}
    {Q : Except S.Exn Unit → σ → Prop} (htr : P₀.trace = [])
    (henv : ∀ s s', env s s' → rely s s')
    (hothers : ∀ j, j ≠ i → Uses F (P₀.threads j))
    (hF : ∀ s op r s', F op → M.step s op r s' → rely s s')
    (hp : wp (M.among rely) (within rely pre) (P₀.threads i) Q P₀.state)
    (hP : PoolReach M env P₀ P) {op : S.Op} {k : S.Answer op → Prog S Unit}
    (hk : P.threads i = .call op k) : pre P.state op := by
  obtain ⟨q, s, -, hq, hrely, hw⟩ :=
    rely_guarantee htr henv hothers hF (Prog.bind_ret (P₀.threads i)).symm hp hP
  rw [hk, Prog.bind_ret] at hq
  subst hq
  exact hw.1 _ hrely

/-- And what it has returned meets its postcondition, at a moment since which only others have
    moved. -/
theorem rely_returned [IsPreorder σ rely] {F : S.Op → Prop} {p : Prog S α}
    {f : α → Unit} {Q : Except S.Exn α → σ → Prop} (htr : P₀.trace = [])
    (henv : ∀ s s', env s s' → rely s s')
    (hothers : ∀ j, j ≠ i → Uses F (P₀.threads j))
    (hF : ∀ s op r s', F op → M.step s op r s' → rely s s')
    (hi : P₀.threads i = p.bind fun a => .ret (f a))
    (hp : wp (M.among rely) (within rely pre) p Q P₀.state) (hP : PoolReach M env P₀ P)
    {a : α} (ha : Played p (localHistory i P.trace) (.ret a)) :
    ∃ s, rely s P.state ∧ Q (.ok a) s := by
  obtain ⟨q, s, hplayed, -, hrely, hw⟩ := rely_guarantee htr henv hothers hF hi hp hP
  obtain rfl := ha.inj hplayed
  exact ⟨s, hrely, hw⟩

end Pools

end Async
