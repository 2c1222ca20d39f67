/-
  Dictionaries that remember the order of insertion, as lists of pairs. Nothing here
  names an engine.

  `List.lookup` is the reading. `set` keeps the place of a key that is there and appends
  one that is not; `pop` drops the key. What is read after either is in `lookup_set` and
  `lookup_pop`. `entries_set` is about a dictionary that is built from another one, value
  by value, by a function that may fail: to change a value before is to change it after.
-/
import Mathlib.Data.List.Basic

namespace Odict

variable {κ β γ ε : Type} [DecidableEq κ]

/-- `d[k] = v`. -/
def set (k : κ) (v : β) : List (κ × β) → List (κ × β)
  | [] => [(k, v)]
  | x :: d => if x.1 = k then (k, v) :: d else x :: set k v d

/-- `d.pop(k, None)`. -/
def pop (k : κ) (d : List (κ × β)) : List (κ × β) := d.filter fun x => x.1 ≠ k

theorem lookup_cons_self (k : κ) (v : β) (d : List (κ × β)) : ((k, v) :: d).lookup k = some v :=
  List.lookup_cons_self

theorem lookup_cons_ne {k k' : κ} (h : k' ≠ k) (v : β) (d : List (κ × β)) :
    ((k', v) :: d).lookup k = d.lookup k := by
  rw [List.lookup_cons, beq_eq_false_iff_ne.mpr h.symm]

theorem lookup_set (k k' : κ) (v : β) (d : List (κ × β)) :
    (set k v d).lookup k' = if k' = k then some v else d.lookup k' := by
  induction d with
  | nil =>
    by_cases h : k' = k
    · rw [set, if_pos h, h, lookup_cons_self]
    · rw [set, if_neg h, lookup_cons_ne (Ne.symm h)]
  | cons x d ih =>
    obtain ⟨j, w⟩ := x
    by_cases hj : j = k
    · rw [set, if_pos hj, hj]
      by_cases h : k' = k
      · rw [if_pos h, h, lookup_cons_self]
      · rw [if_neg h, lookup_cons_ne (Ne.symm h), lookup_cons_ne (Ne.symm h)]
    · rw [set, if_neg hj]
      by_cases h : k' = j
      · rw [h, lookup_cons_self, if_neg hj, lookup_cons_self]
      · rw [lookup_cons_ne (Ne.symm h), ih, lookup_cons_ne (Ne.symm h)]

@[simp] theorem lookup_set_self (k : κ) (v : β) (d : List (κ × β)) :
    (set k v d).lookup k = some v := by rw [lookup_set, if_pos rfl]

theorem lookup_set_ne {k k' : κ} (h : k' ≠ k) (v : β) (d : List (κ × β)) :
    (set k v d).lookup k' = d.lookup k' := by rw [lookup_set, if_neg h]

theorem lookup_pop (k k' : κ) (d : List (κ × β)) :
    (pop k d).lookup k' = if k' = k then none else d.lookup k' := by
  induction d with
  | nil => simp [pop]
  | cons x d ih =>
    obtain ⟨j, w⟩ := x
    by_cases hj : j = k
    · have hdrop : pop k ((j, w) :: d) = pop k d := List.filter_cons_of_neg (by simp [hj])
      rw [hdrop, ih]
      by_cases h : k' = k
      · rw [if_pos h, if_pos h]
      · rw [if_neg h, if_neg h, lookup_cons_ne (hj ▸ Ne.symm h)]
    · have hkeep : pop k ((j, w) :: d) = (j, w) :: pop k d := List.filter_cons_of_pos (by simp [hj])
      rw [hkeep]
      by_cases h : k' = j
      · rw [h, lookup_cons_self, if_neg hj, lookup_cons_self]
      · rw [lookup_cons_ne (Ne.symm h), ih, lookup_cons_ne (Ne.symm h)]

@[simp] theorem lookup_pop_self (k : κ) (d : List (κ × β)) : (pop k d).lookup k = none := by
  rw [lookup_pop, if_pos rfl]

theorem lookup_pop_ne {k k' : κ} (h : k' ≠ k) (d : List (κ × β)) :
    (pop k d).lookup k' = d.lookup k' := by rw [lookup_pop, if_neg h]

theorem mem_of_lookup {k : κ} {v : β} {d : List (κ × β)} (h : d.lookup k = some v) :
    (k, v) ∈ d := by
  obtain ⟨front, back, rfl, -⟩ := List.lookup_eq_some_iff.mp h
  exact List.mem_append_right _ List.mem_cons_self

theorem mem_set {k : κ} {v : β} {x : κ × β} {d : List (κ × β)} (h : x ∈ set k v d) :
    x = (k, v) ∨ x ∈ d := by
  induction d with
  | nil => exact .inl (List.mem_singleton.mp h)
  | cons y d ih =>
    rw [set] at h
    split at h
    · rcases List.mem_cons.mp h with hx | hx
      · exact .inl hx
      · exact .inr (List.mem_cons_of_mem y hx)
    · rcases List.mem_cons.mp h with hx | hx
      · exact .inr (List.mem_cons.mpr (.inl hx))
      · exact (ih hx).imp id (List.mem_cons_of_mem y)

theorem mem_values_pop {k : κ} {w : β} {d : List (κ × β)} (h : w ∈ (pop k d).map Prod.snd) :
    w ∈ d.map Prod.snd := by
  obtain ⟨x, hx, rfl⟩ := List.mem_map.mp h
  exact List.mem_map_of_mem (List.mem_of_mem_filter hx)

theorem mem_values_set {k : κ} {v w : β} {d : List (κ × β)}
    (h : w ∈ (set k v d).map Prod.snd) : w = v ∨ w ∈ d.map Prod.snd := by
  obtain ⟨x, hx, rfl⟩ := List.mem_map.mp h
  rcases mem_set hx with rfl | hold
  · exact .inl rfl
  · exact .inr (List.mem_map_of_mem hold)

theorem set_ne_nil (k : κ) (v : β) (d : List (κ × β)) : set k v d ≠ [] := by
  intro h
  have hread := lookup_set_self k v d
  rw [h] at hread
  cases hread

/-! ## Counting -/

/-- No key stands twice. -/
def Unique (d : List (κ × β)) : Prop := (d.map Prod.fst).Nodup

omit [DecidableEq κ] in
theorem unique_nil : Unique ([] : List (κ × β)) := List.nodup_nil

omit [DecidableEq κ] in
theorem unique_cons {x : κ × β} {d : List (κ × β)} :
    Unique (x :: d) ↔ x.1 ∉ d.map Prod.fst ∧ Unique d := List.nodup_cons

theorem lookup_eq_none {k : κ} {d : List (κ × β)} : d.lookup k = none ↔ k ∉ d.map Prod.fst := by
  rw [List.lookup_eq_none_iff]
  constructor
  · intro h hmem
    obtain ⟨x, hx, rfl⟩ := List.mem_map.mp hmem
    simpa using h x hx
  · intro h x hx
    apply bne_iff_ne.mpr
    rintro rfl
    exact h (List.mem_map_of_mem hx)

theorem Unique.lookup {k : κ} {v : β} {d : List (κ × β)} (h : Unique d) (hmem : (k, v) ∈ d) :
    d.lookup k = some v := by
  induction d with
  | nil => cases hmem
  | cons x d ih =>
    obtain ⟨hx, hd⟩ := unique_cons.mp h
    rcases List.mem_cons.mp hmem with rfl | hmem
    · exact lookup_cons_self k v d
    · have hne : x.1 ≠ k := fun heq => hx (List.mem_map.mpr ⟨(k, v), hmem, heq.symm⟩)
      rw [lookup_cons_ne hne]
      exact ih hd hmem

theorem set_new {k : κ} {d : List (κ × β)} (h : d.lookup k = none) (v : β) :
    set k v d = d ++ [(k, v)] := by
  induction d with
  | nil => rfl
  | cons x d ih =>
    have hne : x.1 ≠ k := by
      rintro rfl
      rw [lookup_cons_self] at h
      cases h
    rw [lookup_cons_ne hne] at h
    rw [set, if_neg hne, ih h, List.cons_append]

theorem unique_set {k : κ} {d : List (κ × β)} (h : Unique d) (v : β) : Unique (set k v d) := by
  cases hk : d.lookup k with
  | none =>
    rw [set_new hk, Unique, List.map_append, List.nodup_append]
    refine ⟨h, List.pairwise_singleton _ _, fun a ha b hb heq => ?_⟩
    rw [heq, List.mem_singleton.mp hb] at ha
    exact lookup_eq_none.mp hk ha
  | some w =>
    have hkeys : (set k v d).map Prod.fst = d.map Prod.fst := by
      clear h
      induction d with
      | nil => cases hk
      | cons x d ih =>
        by_cases hx : x.1 = k
        · rw [set, if_pos hx, List.map_cons, List.map_cons, hx]
        · rw [lookup_cons_ne hx] at hk
          rw [set, if_neg hx, List.map_cons, List.map_cons, ih hk]
    rw [Unique, hkeys]
    exact h

theorem unique_pop {k : κ} {d : List (κ × β)} (h : Unique d) : Unique (pop k d) :=
  h.sublist (List.filter_sublist.map Prod.fst)

/-- The values of a key under a property, before and after it gets another one. -/
theorem countP_set {k : κ} {w : β} {d : List (κ × β)} (h : d.lookup k = some w) (v : β)
    (p : κ × β → Bool) :
    (set k v d).countP p + (if p (k, w) then 1 else 0) =
      d.countP p + if p (k, v) then 1 else 0 := by
  induction d with
  | nil => cases h
  | cons x d ih =>
    by_cases hx : x.1 = k
    · obtain ⟨j, u⟩ := x
      obtain rfl : j = k := hx
      rw [lookup_cons_self] at h
      obtain rfl := Option.some.inj h
      rw [set, if_pos rfl, List.countP_cons, List.countP_cons]
      omega
    · rw [lookup_cons_ne hx] at h
      have := ih h
      rw [set, if_neg hx, List.countP_cons, List.countP_cons]
      omega

theorem countP_pop {k : κ} {w : β} {d : List (κ × β)} (hd : Unique d) (h : d.lookup k = some w)
    (p : κ × β → Bool) : (pop k d).countP p + (if p (k, w) then 1 else 0) = d.countP p := by
  induction d with
  | nil => cases h
  | cons x d ih =>
    obtain ⟨hx, hd⟩ := unique_cons.mp hd
    by_cases hk : x.1 = k
    · obtain ⟨j, u⟩ := x
      obtain rfl : j = k := hk
      rw [lookup_cons_self] at h
      obtain rfl := Option.some.inj h
      have hrest : pop j d = d := List.filter_eq_self.mpr fun y hy => by
        have hne : y.1 ≠ j := fun heq => hx (List.mem_map.mpr ⟨y, hy, heq⟩)
        simpa using hne
      have hdrop : pop j ((j, u) :: d) = pop j d := List.filter_cons_of_neg (by simp)
      rw [hdrop, hrest, List.countP_cons]
    · rw [lookup_cons_ne hk] at h
      have hkeep : pop k (x :: d) = x :: pop k d := List.filter_cons_of_pos (by simpa using hk)
      have := ih hd h
      rw [hkeep, List.countP_cons, List.countP_cons]
      omega

/-! ## Built value by value -/

/-- Every value goes through `f`, which may fail. -/
def entries (f : κ → β → Except ε γ) : List (κ × β) → Except ε (List (κ × γ))
  | [] => .ok []
  | x :: d =>
    match f x.1 x.2 with
    | .error e => .error e
    | .ok w => (entries f d).map fun built => (x.1, w) :: built

section Entries

variable {f : κ → β → Except ε γ} {d : List (κ × β)} {built : List (κ × γ)}

omit [DecidableEq κ] in
theorem entries_cons_ok {x : κ × β} (h : entries f (x :: d) = .ok built) :
    ∃ w rest, f x.1 x.2 = .ok w ∧ entries f d = .ok rest ∧ built = (x.1, w) :: rest := by
  rw [entries] at h
  cases hx : f x.1 x.2 with
  | error e =>
    rw [hx] at h
    cases h
  | ok w =>
    rw [hx] at h
    cases hd : entries f d with
    | error e =>
      rw [hd] at h
      cases h
    | ok rest =>
      rw [hd] at h
      exact ⟨w, rest, rfl, rfl, (Except.ok.inj h).symm⟩

/-- What stands under a key was made of what stood there. -/
theorem lookup_entries (h : entries f d = .ok built) (k : κ) :
    (d.lookup k = none ∧ built.lookup k = none) ∨
      ∃ v w, d.lookup k = some v ∧ f k v = .ok w ∧ built.lookup k = some w := by
  induction d generalizing built with
  | nil =>
    obtain rfl := Except.ok.inj h
    exact .inl ⟨rfl, rfl⟩
  | cons x d ih =>
    obtain ⟨w, rest, hx, hd, rfl⟩ := entries_cons_ok h
    obtain ⟨j, v⟩ := x
    by_cases hk : j = k
    · subst hk
      exact .inr ⟨v, w, lookup_cons_self j v d, hx, lookup_cons_self j w rest⟩
    · rw [lookup_cons_ne hk, lookup_cons_ne hk]
      exact ih hd

/-- To change a value before is to change it after. -/
theorem entries_set (h : entries f d = .ok built) {k : κ} {v : β} {w : γ} (hw : f k v = .ok w) :
    entries f (set k v d) = .ok (set k w built) := by
  induction d generalizing built with
  | nil =>
    obtain rfl := Except.ok.inj h
    simp only [set, entries, hw]
    rfl
  | cons x d ih =>
    obtain ⟨u, rest, hx, hd, rfl⟩ := entries_cons_ok h
    by_cases hk : x.1 = k
    · simp only [set, if_pos hk, entries, hw, hd]
      rfl
    · simp only [set, if_neg hk, entries, hx, ih hd]
      rfl

end Entries

end Odict
