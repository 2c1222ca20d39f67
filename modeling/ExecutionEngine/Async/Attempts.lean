/-
  A list of bodies, each run to its end and none stopping the next.

  `Each M f s l s'`: the bodies `f b` for the elements `b` of `l` run one after the
  other from `s` to `s'`; `l` carries what each came to. It is the reading of a
  loop that catches everything a body raises (`exec_sumOver_counted`). `wpEach` is
  its weakest precondition, by recursion on the list, so a list put together from
  parts is proved part by part (`wpEach_append`).
-/
import ExecutionEngine.Async.Relational

namespace Async

variable {S : Sig} {σ α β : Type} {M : Sem S σ}

/-! ## Building runs -/

theorem Exec.bind {p : Prog S α} {f : α → Prog S β} {s s₁ s' : σ} {a : α} {o : Except S.Exn β}
    (hp : Exec M p s (.ok a) s₁) (hf : Exec M (f a) s₁ o s') : Exec M (p.bind f) s o s' := by
  induction p generalizing s with
  | ret b =>
    cases hp
    exact hf
  | raise e => cases hp
  | stuck => cases hp
  | call op k ih =>
    cases hp with
    | call hs ht => exact .call hs (ih _ ht)

theorem Exec.bind_error {p : Prog S α} {f : α → Prog S β} {s s' : σ} {e : S.Exn}
    (hp : Exec M p s (.error e) s') : Exec M (p.bind f) s (.error e) s' := by
  induction p generalizing s with
  | ret b => cases hp
  | raise e' =>
    cases hp
    exact .raise _ _
  | stuck => cases hp
  | call op k ih =>
    cases hp with
    | call hs ht => exact .call hs (ih _ ht)

theorem Exec.catch_ok {p : Prog S α} {f : S.Exn → Prog S α} {s s' : σ} {a : α}
    (hp : Exec M p s (.ok a) s') : Exec M (p.tryExcept f) s (.ok a) s' := by
  induction p generalizing s with
  | ret b =>
    cases hp
    exact .ret _ _
  | raise e => cases hp
  | stuck => cases hp
  | call op k ih =>
    cases hp with
    | call hs ht => exact .call hs (ih _ ht)

theorem Exec.catch_error {p : Prog S α} {f : S.Exn → Prog S α} {s s₁ s' : σ} {e : S.Exn}
    {o : Except S.Exn α} (hp : Exec M p s (.error e) s₁) (hf : Exec M (f e) s₁ o s') :
    Exec M (p.tryExcept f) s o s' := by
  induction p generalizing s with
  | ret b => cases hp
  | raise e' =>
    cases hp
    exact hf
  | stuck => cases hp
  | call op k ih =>
    cases hp with
    | call hs ht => exact .call hs (ih _ ht)

theorem Exec.mono {M' : Sem S σ} {p : Prog S α} {s s' : σ} {o : Except S.Exn α}
    (h : Exec M p s o s') (hM : ∀ s op r s', M.step s op r s' → M'.step s op r s') :
    Exec M' p s o s' := by
  induction h with
  | ret a s => exact .ret a s
  | raise e s => exact .raise e s
  | call hs _ ih => exact .call (hM _ _ _ _ hs) ih

theorem Exec.perform {op : S.Op} {s s' : σ} {r : S.Answer op} (h : M.step s op r s') :
    Exec M (Prog.perform op) s r s' := by
  refine .call h ?_
  cases r with
  | ok a => exact .ret a s'
  | error e => exact .raise e s'

/-! ## Each body in turn -/

/-- The bodies of a list one after the other, each with what it came to. -/
inductive Each (M : Sem S σ) (f : β → Prog S α) :
    σ → List (β × Except S.Exn α) → σ → Prop where
  | nil (s : σ) : Each M f s [] s
  | cons {b : β} {o : Except S.Exn α} {l : List (β × Except S.Exn α)} {s s₁ s' : σ}
      (h : Exec M (f b) s o s₁) (t : Each M f s₁ l s') : Each M f s ((b, o) :: l) s'

variable {f : β → Prog S α}

theorem Each.append {l l' : List (β × Except S.Exn α)} {s s₁ s' : σ} (h : Each M f s l s₁)
    (h' : Each M f s₁ l' s') : Each M f s (l ++ l') s' := by
  induction h with
  | nil s => exact h'
  | cons hb _ ih => exact .cons hb (ih h')

theorem each_nil {s s' : σ} (h : Each M f s [] s') : s' = s := by
  cases h
  rfl

theorem each_single {b : β} {o : Except S.Exn α} {s s' : σ} (h : Exec M (f b) s o s') :
    Each M f s [(b, o)] s' :=
  .cons h (.nil s')

/-- `try: f b; count += 1`, anything it raises swallowed. -/
def Prog.counted (f : β → Prog S α) (b : β) : Prog S Nat :=
  Prog.tryExcept ((f b).bind fun _ => .ret 1) fun _ => .ret 0

/-- How many bodies returned. -/
def completed (l : List (β × Except S.Exn α)) : Nat := (l.filter fun p => p.2.toBool).length

theorem exec_counted {b : β} {s s' : σ} {r : Except S.Exn Nat}
    (h : Exec M (Prog.counted f b) s r s') :
    ∃ o, Exec M (f b) s o s' ∧ r = .ok (completed [(b, o)]) := by
  rcases exec_tryExcept_cases h with ⟨n, hn, rfl⟩ | ⟨e, s₁, he, hret⟩
  · rcases exec_bind_cases hn with ⟨a, s₁, ha, hret⟩ | ⟨e, -, he⟩
    · cases hret
      exact ⟨.ok a, ha, rfl⟩
    · cases he
  · cases hret
    rcases exec_bind_cases he with ⟨a, s₁, -, hret⟩ | ⟨e', he', -⟩
    · cases hret
    · exact ⟨.error e', he', rfl⟩

theorem counted_exec {b : β} {s s' : σ} {o : Except S.Exn α} (h : Exec M (f b) s o s') :
    Exec M (Prog.counted f b) s (.ok (completed [(b, o)])) s' := by
  cases o with
  | ok a => exact .catch_ok (.bind h (.ret 1 s'))
  | error e => exact .catch_error (.bind_error h) (.ret 0 s')

theorem returned_cons (p : β × Except S.Exn α) (l : List (β × Except S.Exn α)) :
    completed (p :: l) = completed [p] + completed l := by
  unfold completed
  rw [← List.singleton_append, List.filter_append, List.length_append]

/-- A loop of counted bodies is each body in turn, and returns how many returned. -/
theorem exec_sumOver_counted {bs : List β} {s s' : σ} {r : Except S.Exn Nat} :
    Exec M (Prog.sumOver (Prog.counted f) bs) s r s' ↔
      ∃ l, l.map Prod.fst = bs ∧ Each M f s l s' ∧ r = .ok (completed l) := by
  constructor
  · intro h
    induction bs generalizing s r with
    | nil =>
      cases h
      exact ⟨[], rfl, .nil _, rfl⟩
    | cons b bs ih =>
      rcases exec_bind_cases h with ⟨n, s₁, hb, hrest⟩ | ⟨e, hb, -⟩
      · obtain ⟨o, ho, hn⟩ := exec_counted hb
        obtain rfl := Except.ok.inj hn
        rcases exec_bind_cases hrest with ⟨m, s₂, hbs, hret⟩ | ⟨e, hbs, -⟩
        · cases hret
          obtain ⟨l, hl, heach, hm⟩ := ih hbs
          obtain rfl := Except.ok.inj hm
          exact ⟨(b, o) :: l, by rw [List.map_cons, hl], .cons ho heach,
            congrArg Except.ok (returned_cons (b, o) l).symm⟩
        · obtain ⟨_, _, _, hm⟩ := ih hbs
          cases hm
      · obtain ⟨_, _, hn⟩ := exec_counted hb
        cases hn
  · rintro ⟨l, rfl, heach, rfl⟩
    induction heach with
    | nil s => exact .ret 0 s
    | @cons b o l s s₁ s' hb _ ih =>
      rw [returned_cons]
      exact .bind (counted_exec hb) (.bind ih (.ret _ s'))

/-! ## Weakest preconditions -/

variable {pre : σ → S.Op → Prop} {P : β → Except S.Exn α → Prop}

/-- Each body in turn, whatever it comes to: every operation meets `pre`, every outcome `P`, and
    the end `Q`. -/
def wpEach (M : Sem S σ) (pre : σ → S.Op → Prop) (f : β → Prog S α)
    (P : β → Except S.Exn α → Prop) (Q : σ → Prop) : List β → σ → Prop
  | [], s => Q s
  | b :: bs, s => wp M pre (f b) (fun o s' => P b o ∧ wpEach M pre f P Q bs s') s

theorem wpEach_mono {Q Q' : σ → Prop} {bs : List β} {s : σ} (h : wpEach M pre f P Q bs s)
    (hQ : ∀ s', Q s' → Q' s') : wpEach M pre f P Q' bs s := by
  induction bs generalizing s with
  | nil => exact hQ s h
  | cons b bs ih => exact wp_mono h fun o s' ho => ⟨ho.1, ih ho.2⟩

theorem wpEach_append {Q : σ → Prop} {as bs : List β} {s : σ} :
    wpEach M pre f P Q (as ++ bs) s ↔
      wpEach M pre f P (fun s' => wpEach M pre f P Q bs s') as s := by
  induction as generalizing s with
  | nil => rfl
  | cons a as ih =>
    constructor
    · intro h
      exact wp_mono h fun o s' ho => ⟨ho.1, ih.mp ho.2⟩
    · intro h
      exact wp_mono h fun o s' ho => ⟨ho.1, ih.mpr ho.2⟩

theorem wpEach.each {Q : σ → Prop} {l : List (β × Except S.Exn α)} {s s' : σ}
    (h : wpEach M pre f P Q (l.map Prod.fst) s) (he : Each M f s l s') :
    (∀ p ∈ l, P p.1 p.2) ∧ Q s' := by
  induction he with
  | nil s => exact ⟨fun p hp => absurd hp List.not_mem_nil, h⟩
  | cons hb _ ih =>
    obtain ⟨hP, hrest⟩ := wp.exec h hb
    obtain ⟨hall, hQ⟩ := ih hrest
    refine ⟨fun p hp => ?_, hQ⟩
    rcases List.mem_cons.mp hp with rfl | hp
    · exact hP
    · exact hall p hp

/-- What the operations of the loop meet. -/
theorem wpEach.sumOver {Q : σ → Prop} {bs : List β} {s : σ} (h : wpEach M pre f P Q bs s) :
    wp M pre (Prog.sumOver (Prog.counted f) bs) (fun r s' => (∃ n, r = .ok n) ∧ Q s') s := by
  induction bs generalizing s with
  | nil => exact ⟨⟨0, rfl⟩, h⟩
  | cons b bs ih =>
    rw [Prog.sumOver, wp_bind, Prog.counted, wp_tryExcept, wp_bind]
    refine wp_mono h fun o s' ho => ?_
    have hrest (n : Nat) : wp M pre ((Prog.sumOver (Prog.counted f) bs).bind fun m => .ret (n + m))
        (fun r s' => (∃ n, r = .ok n) ∧ Q s') s' := by
      refine wp_bind.mpr (wp_mono (ih ho.2) fun r s'' hr => ?_)
      obtain ⟨⟨m, rfl⟩, hQ⟩ := hr
      exact ⟨⟨n + m, rfl⟩, hQ⟩
    cases o with
    | ok a => exact hrest 1
    | error e => exact hrest 0

end Async
