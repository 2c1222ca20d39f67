/-
  Two runs side by side.

  `InStep M N Rel p q`: whenever `p` runs against `M` and `q` against `N` from
  states related by `Rel`, both ends have the same outcome and related states. It
  is what a two-run law (this part of the input cannot matter) comes down to: the
  rules follow the program, and `inStep_perform` and `inStep_perform_bind` leave
  the operations as the only obligations.
-/
import ExecutionEngine.Async.Prog

namespace Async

variable {S : Sig} {σ α β : Type} {M N : Sem S σ} {Rel : σ → σ → Prop}

/-- How a sequence can end: in its second half, or with an exception of its first. -/
theorem exec_bind_cases {p : Prog S α} {f : α → Prog S β} {s s' : σ} {o : Except S.Exn β}
    (h : Exec M (p.bind f) s o s') :
    (∃ a s₁, Exec M p s (.ok a) s₁ ∧ Exec M (f a) s₁ o s') ∨
      ∃ e, Exec M p s (.error e) s' ∧ o = .error e := by
  have hwp : wp M (fun _ _ => True) (p.bind f) (fun o s' =>
      (∃ a s₁, Exec M p s (.ok a) s₁ ∧ Exec M (f a) s₁ o s') ∨
        ∃ e, Exec M p s (.error e) s' ∧ o = .error e) s := by
    refine wp_bind.mpr (wp_mono (wp_strongest p s) fun r s₁ hr => ?_)
    cases r with
    | ok a => exact wp_mono (wp_strongest (f a) s₁) fun o s₂ ho => .inl ⟨a, s₁, hr, ho⟩
    | error e => exact .inr ⟨e, hr, rfl⟩
  exact hwp.exec h

/-- How a guarded body can end: by itself, or through the handler. -/
theorem exec_tryExcept_cases {p : Prog S α} {f : S.Exn → Prog S α} {s s' : σ}
    {o : Except S.Exn α} (h : Exec M (p.tryExcept f) s o s') :
    (∃ a, Exec M p s (.ok a) s' ∧ o = .ok a) ∨
      ∃ e s₁, Exec M p s (.error e) s₁ ∧ Exec M (f e) s₁ o s' := by
  have hwp : wp M (fun _ _ => True) (p.tryExcept f) (fun o s' =>
      (∃ a, Exec M p s (.ok a) s' ∧ o = .ok a) ∨
        ∃ e s₁, Exec M p s (.error e) s₁ ∧ Exec M (f e) s₁ o s') s := by
    refine wp_tryExcept.mpr (wp_mono (wp_strongest p s) fun r s₁ hr => ?_)
    cases r with
    | ok a => exact .inl ⟨a, hr, rfl⟩
    | error e => exact wp_mono (wp_strongest (f e) s₁) fun o s₂ ho => .inr ⟨e, s₁, hr, ho⟩
  exact hwp.exec h

theorem exec_perform {op : S.Op} {s s' : σ} {o : Except S.Exn (S.Res op)}
    (h : Exec M (Prog.perform op) s o s') : M.step s op o s' := by
  have hwp : wp M (fun _ _ => True) (Prog.perform op) (fun o s' => M.step s op o s') s :=
    wp_perform.mpr ⟨trivial, fun _ _ hs => hs⟩
  exact hwp.exec h

/-- Same outcome, related ends. -/
def InStep (M N : Sem S σ) (Rel : σ → σ → Prop) (p q : Prog S α) : Prop :=
  ∀ s t o s' o' t', Rel s t → Exec M p s o s' → Exec N q t o' t' → o = o' ∧ Rel s' t'

theorem inStep_ret (a : α) : InStep M N Rel (.ret a) (.ret a) := by
  intro s t o s' o' t' hrel hp hq
  cases hp
  cases hq
  exact ⟨rfl, hrel⟩

theorem inStep_raise (e : S.Exn) : InStep M N Rel (.raise e : Prog S α) (.raise e) := by
  intro s t o s' o' t' hrel hp hq
  cases hp
  cases hq
  exact ⟨rfl, hrel⟩

theorem InStep.bind {p q : Prog S α} {f g : α → Prog S β} (h : InStep M N Rel p q)
    (hfg : ∀ a, InStep M N Rel (f a) (g a)) : InStep M N Rel (p.bind f) (q.bind g) := by
  intro s t o s' o' t' hrel hpf hqg
  rcases exec_bind_cases hpf with ⟨a, s₁, hp, hf⟩ | ⟨e, hp, rfl⟩
  · rcases exec_bind_cases hqg with ⟨b, t₁, hq, hg⟩ | ⟨e', hq, rfl⟩
    · obtain ⟨hab, hrel₁⟩ := h _ _ _ _ _ _ hrel hp hq
      obtain rfl := Except.ok.inj hab
      exact hfg a _ _ _ _ _ _ hrel₁ hf hg
    · cases (h _ _ _ _ _ _ hrel hp hq).1
  · rcases exec_bind_cases hqg with ⟨b, t₁, hq, hg⟩ | ⟨e', hq, rfl⟩
    · cases (h _ _ _ _ _ _ hrel hp hq).1
    · obtain ⟨hee, hrel₁⟩ := h _ _ _ _ _ _ hrel hp hq
      exact ⟨by rw [Except.error.inj hee], hrel₁⟩

theorem InStep.tryExcept {p q : Prog S α} {f g : S.Exn → Prog S α} (h : InStep M N Rel p q)
    (hfg : ∀ e, InStep M N Rel (f e) (g e)) : InStep M N Rel (p.tryExcept f) (q.tryExcept g) := by
  intro s t o s' o' t' hrel hpf hqg
  rcases exec_tryExcept_cases hpf with ⟨a, hp, rfl⟩ | ⟨e, s₁, hp, hf⟩
  · rcases exec_tryExcept_cases hqg with ⟨b, hq, rfl⟩ | ⟨e', t₁, hq, hg⟩
    · exact h _ _ _ _ _ _ hrel hp hq
    · cases (h _ _ _ _ _ _ hrel hp hq).1
  · rcases exec_tryExcept_cases hqg with ⟨b, hq, rfl⟩ | ⟨e', t₁, hq, hg⟩
    · cases (h _ _ _ _ _ _ hrel hp hq).1
    · obtain ⟨hee, hrel₁⟩ := h _ _ _ _ _ _ hrel hp hq
      obtain rfl := Except.error.inj hee
      exact hfg e _ _ _ _ _ _ hrel₁ hf hg

theorem inStep_sumOver {f g : β → Prog S Nat} {bs : List β}
    (h : ∀ b ∈ bs, InStep M N Rel (f b) (g b)) :
    InStep M N Rel (Prog.sumOver f bs) (Prog.sumOver g bs) := by
  induction bs with
  | nil => exact inStep_ret 0
  | cons b bs ih =>
    refine (h b (List.mem_cons_self ..)).bind fun n => ?_
    exact (ih fun c hc => h c (List.mem_cons_of_mem _ hc)).bind fun m => inStep_ret (n + m)

/-- An operation that answers alike from related states. -/
theorem inStep_perform {op : S.Op} (h : ∀ s t r s' r' t', Rel s t → M.step s op r s' →
    N.step t op r' t' → r = r' ∧ Rel s' t') : InStep M N Rel (Prog.perform op) (Prog.perform op) :=
  fun s t o s' o' t' hrel hp hq =>
    h s t o s' o' t' hrel (exec_perform hp) (exec_perform hq)

/-- An operation whose answers may differ, before programs that agree whatever they are. -/
theorem inStep_perform_bind {op : S.Op} {f g : S.Res op → Prog S α}
    (h : ∀ s t r s' r' t', Rel s t → M.step s op r s' → N.step t op r' t' →
      (∃ a, r = .ok a) ∧ (∃ b, r' = .ok b) ∧ Rel s' t')
    (hfg : ∀ a b, InStep M N Rel (f a) (g b)) :
    InStep M N Rel ((Prog.perform op).bind f) ((Prog.perform op).bind g) := by
  intro s t o s' o' t' hrel hpf hqg
  rcases exec_bind_cases hpf with ⟨a, s₁, hp, hf⟩ | ⟨e, hp, rfl⟩
  · rcases exec_bind_cases hqg with ⟨b, t₁, hq, hg⟩ | ⟨e', hq, rfl⟩
    · obtain ⟨-, -, hrel₁⟩ := h _ _ _ _ _ _ hrel (exec_perform hp) (exec_perform hq)
      exact hfg a b _ _ _ _ _ _ hrel₁ hf hg
    · obtain ⟨-, ⟨b, hb⟩, -⟩ := h _ _ _ _ _ _ hrel (exec_perform hp) (exec_perform hq)
      cases hb
  · rcases exec_bind_cases hqg with ⟨b, t₁, hq, hg⟩ | ⟨e', hq, rfl⟩
    · obtain ⟨⟨a, ha⟩, -, -⟩ := h _ _ _ _ _ _ hrel (exec_perform hp) (exec_perform hq)
      cases ha
    · obtain ⟨⟨a, ha⟩, -, -⟩ := h _ _ _ _ _ _ hrel (exec_perform hp) (exec_perform hq)
      cases ha

end Async
