/-
  Leases on the keys of a server with a clock. Nothing here names an engine.

  A key is granted to a token for some time, if no lease on it is running; it is given up by the
  token that holds it, or runs out. `Honest` is the invariant: of what has been granted and not
  given up, what has not run out is still there. So there is one holder at a time (`Honest.one`),
  and giving up a lease that has run out takes nothing from the next holder.
-/
import Mathlib.Logic.Function.Basic
import Mathlib.Data.List.Basic

namespace Lease

variable {κ τ : Type}

/-- The keys with their holders and when they run out; `grants` and `givenUp` record what has been
    asked of the server. -/
structure Server (κ τ : Type) where
  now : Int
  slots : κ → Option (τ × Int) := fun _ => none
  grants : List (κ × τ × Int) := []
  givenUp : List (κ × τ) := []

namespace Server

/-- Who holds a key. -/
def holder (s : Server κ τ) (k : κ) : Option τ :=
  (s.slots k).bind fun x => if s.now < x.2 then some x.1 else none

def grant [DecidableEq κ] (s : Server κ τ) (k : κ) (t : τ) (d : Int) : Server κ τ :=
  { s with
    slots := Function.update s.slots k (some (t, s.now + d))
    grants := (k, t, s.now + d) :: s.grants }

/-- Compare and delete. -/
def giveUp [DecidableEq κ] [DecidableEq τ] (s : Server κ τ) (k : κ) (t : τ) : Server κ τ :=
  { s with
    slots := if s.holder k = some t then Function.update s.slots k none else s.slots
    givenUp := (k, t) :: s.givenUp }

def wait (s : Server κ τ) (d : Int) : Server κ τ := { s with now := s.now + d }

theorem holder_eq {s : Server κ τ} {k : κ} {t : τ} {u : Int} (h : s.slots k = some (t, u))
    (hu : s.now < u) : s.holder k = some t := by
  rw [holder, h, Option.bind_some, if_pos hu]

/-- What has been granted and neither given up nor run out is there. -/
def Honest (s : Server κ τ) : Prop :=
  ∀ k t u, (k, t, u) ∈ s.grants → (k, t) ∉ s.givenUp → s.now < u → s.slots k = some (t, u)

theorem honest_new (now : Int) : Honest ({ now } : Server κ τ) := fun _ _ _ h => by cases h

namespace Honest

variable {s : Server κ τ} {k : κ} {t : τ}

theorem grant [DecidableEq κ] (h : s.Honest) (hfree : s.holder k = none) (d : Int) : (s.grant k t d).Honest := by
  intro k' t' u' hg hkept hu
  rcases List.mem_cons.mp hg with hnew | hold
  · obtain ⟨rfl, hrest⟩ := Prod.mk.inj hnew
    obtain ⟨rfl, rfl⟩ := Prod.mk.inj hrest
    exact Function.update_self ..
  · have hslot := h k' t' u' hold hkept hu
    have hne : k' ≠ k := by
      rintro rfl
      rw [holder_eq hslot hu] at hfree
      cases hfree
    exact (Function.update_of_ne hne ..).trans hslot

theorem giveUp [DecidableEq κ] [DecidableEq τ] (h : s.Honest) (k : κ) (t : τ) :
    (s.giveUp k t).Honest := by
  intro k' t' u' hg hkept hu
  obtain ⟨hother, hkept⟩ := not_or.mp (List.mem_cons.not.mp hkept)
  have hslot := h k' t' u' hg hkept hu
  show (if s.holder k = some t then _ else _ : κ → Option (τ × Int)) k' = _
  split
  · rename_i hheld
    have hne : k' ≠ k := by
      rintro rfl
      rw [holder_eq hslot hu] at hheld
      exact hother (by rw [Option.some.inj hheld])
    exact (Function.update_of_ne hne ..).trans hslot
  · exact hslot

theorem wait (h : s.Honest) {d : Int} (hd : 0 ≤ d) : (s.wait d).Honest := by
  intro k t u hg hkept hu
  have hearlier : s.now < u := by
    have hlater : s.now + d < u := hu
    omega
  exact h k t u hg hkept hearlier

/-- One holder at a time. -/
theorem one (h : s.Honest) {t' : τ} {u u' : Int} (hg : (k, t, u) ∈ s.grants)
    (hkept : (k, t) ∉ s.givenUp) (hu : s.now < u) (hg' : (k, t', u') ∈ s.grants)
    (hkept' : (k, t') ∉ s.givenUp) (hu' : s.now < u') : t = t' := by
  have hslot := (h k t u hg hkept hu).symm.trans (h k t' u' hg' hkept' hu')
  exact (Prod.mk.inj (Option.some.inj hslot)).1

end Honest

end Server

end Lease
