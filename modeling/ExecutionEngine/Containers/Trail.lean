/-
  Trails: logs of the moves of a state machine. Nothing here names an engine.

  A trail from `s` to `t` is a list of moves, each from where the one before it arrived. A state
  that no move leaves can only be the end (`Leads.ends_at`), a state that no move enters can only
  be left first (`Leads.starts_at`), and one that is entered from such a state only is left second
  at the latest (`Leads.second_at`).
-/
import Mathlib.Data.List.Basic

namespace Trail

variable {S : Type} {R : S → S → Prop} {s t u : S} {es : List (S × S)}

/-- The moves lead from one state to another. -/
def Leads (R : S → S → Prop) (s : S) : List (S × S) → S → Prop
  | [], t => s = t
  | (a, b) :: es, t => a = s ∧ R a b ∧ Leads R b es t

theorem leads_nil (s : S) : Leads R s [] s := rfl

theorem leads_append (es fs : List (S × S)) :
    Leads R s (es ++ fs) t ↔ ∃ u, Leads R s es u ∧ Leads R u fs t := by
  induction es generalizing s with
  | nil =>
    constructor
    · intro h
      exact ⟨s, rfl, h⟩
    · rintro ⟨u, rfl, h⟩
      exact h
  | cons e es ih =>
    obtain ⟨a, b⟩ := e
    simp only [List.cons_append, Leads, ih]
    constructor
    · rintro ⟨ha, hab, u, hes, hfs⟩
      exact ⟨u, ⟨ha, hab, hes⟩, hfs⟩
    · rintro ⟨u, ⟨ha, hab, hes⟩, hfs⟩
      exact ⟨ha, hab, u, hes, hfs⟩

/-- One more move. -/
theorem Leads.snoc (h : Leads R s es t) (hmove : R t u) : Leads R s (es ++ [(t, u)]) u :=
  (leads_append es _).mpr ⟨t, h, rfl, hmove, rfl⟩

/-- A place in a trail: the moves before it, the move and the moves after it. -/
theorem Leads.at {xs ys : List (S × S)} {a b : S} (h : Leads R s (xs ++ (a, b) :: ys) t) :
    Leads R s xs a ∧ R a b ∧ Leads R b ys t := by
  obtain ⟨u, hxs, rfl, hab, hys⟩ := (leads_append xs _).mp h
  exact ⟨hxs, hab, hys⟩

/-- A trail that goes somewhere ends with a move there. -/
theorem Leads.arrives (h : Leads R s es t) (hst : s ≠ t) :
    ∃ xs a, es = xs ++ [(a, t)] ∧ Leads R s xs a ∧ R a t := by
  rcases List.eq_nil_or_concat es with rfl | ⟨xs, ⟨a, b⟩, rfl⟩
  · exact absurd h hst
  · rw [List.concat_eq_append] at h
    obtain ⟨hxs, hab, rfl⟩ := h.at
    exact ⟨xs, a, List.concat_eq_append, hxs, hab⟩

/-- Each move goes on from where the one before it arrived. -/
theorem Leads.joins {xs ys : List (S × S)} {a b c d : S}
    (h : Leads R s (xs ++ (a, b) :: (c, d) :: ys) t) : b = c := by
  obtain ⟨-, -, hrest⟩ := h.at
  exact hrest.1.symm

/-- No move leaves `b`: it is the end. -/
theorem Leads.ends_at {xs ys : List (S × S)} {a b : S} (h : Leads R s (xs ++ (a, b) :: ys) t)
    (hfinal : ∀ c, ¬ R b c) : ys = [] := by
  obtain ⟨-, -, hys⟩ := h.at
  cases ys with
  | nil => rfl
  | cons e ys =>
    obtain ⟨c, d⟩ := e
    obtain ⟨rfl, hmove, -⟩ := hys
    exact absurd hmove (hfinal d)

/-- No move enters `a`: it is the start. -/
theorem Leads.starts_at {xs ys : List (S × S)} {a b : S} (h : Leads R s (xs ++ (a, b) :: ys) t)
    (hfresh : ∀ c, ¬ R c a) : xs = [] := by
  obtain ⟨hxs, -, -⟩ := h.at
  by_contra hne
  obtain ⟨zs, ⟨c, d⟩, rfl⟩ := (List.eq_nil_or_concat xs).resolve_left hne
  rw [List.concat_eq_append] at hxs
  obtain ⟨-, hmove, rfl⟩ := hxs.at
  exact hfresh c hmove

/-- Only a start leads into `a`, so `a` is left by the second move at the latest. -/
theorem Leads.second_at {xs ys : List (S × S)} {a b : S} (h : Leads R s (xs ++ (a, b) :: ys) t)
    (hs : s ≠ a) (honly : ∀ c, R c a → ∀ d, ¬ R d c) : xs.length = 1 := by
  obtain ⟨hxs, -, -⟩ := h.at
  obtain ⟨zs, c, rfl, hzs, hmove⟩ := hxs.arrives hs
  have hfirst : zs = [] := hxs.starts_at (honly c hmove)
  rw [hfirst]
  rfl

end Trail
