/-
  A series of dated entries, appended in any order and read as of a date. Nothing here
  names an engine.

  The entry in force at `t` is, of those not after `t`, the one with the greatest date,
  and of several with that date the one appended last (`InForce`). A reader that sorts
  the series by date and takes the last applicable entry finds exactly this one
  (`lastApplicable_oldestFirst`): the sort is stable, so entries of one date keep the
  order in which they were appended (`filter_oldestFirst`). An entry that is appended
  changes nothing before its date (`inForce_append`).
-/
import Mathlib.Data.List.Sort

namespace Dated

variable {α κ : Type} [LinearOrder κ] {key : α → κ} {t : κ} {l : List α} {a : α}

/-- The series by date, oldest first. -/
def oldestFirst (key : α → κ) (l : List α) : List α :=
  l.insertionSort fun a b => key a ≤ key b

/-- The last entry that is not after `t`. -/
def lastApplicable (key : α → κ) (t : κ) (l : List α) : Option α :=
  (l.filter fun a => key a ≤ t).getLast?

/-- The entry in force at `t`, of a series in the order it was appended. -/
def InForce (key : α → κ) (t : κ) (l : List α) (a : α) : Prop :=
  ∃ before after, l = before ++ a :: after ∧ key a ≤ t ∧
    (∀ b ∈ before, key b ≤ t → key b ≤ key a) ∧ ∀ b ∈ after, key b ≤ t → key b < key a

/-- The last element with a property has none behind it. -/
theorem getLast?_filter_iff {p : α → Bool} :
    (l.filter p).getLast? = some a ↔
      ∃ before after, l = before ++ a :: after ∧ p a = true ∧ ∀ b ∈ after, p b = false := by
  rw [List.getLast?_eq_some_iff]
  constructor
  · rintro ⟨front, hfront⟩
    obtain ⟨before, rest, rfl, -, hrest⟩ := List.filter_eq_append_iff.mp hfront
    obtain ⟨skipped, after, rfl, -, ha, hafter⟩ := List.filter_eq_cons_iff.mp hrest
    refine ⟨before ++ skipped, after, by rw [List.append_assoc], ha, fun b hb => ?_⟩
    simpa using List.filter_eq_nil_iff.mp hafter b hb
  · rintro ⟨before, after, rfl, ha, hafter⟩
    refine ⟨before.filter p, ?_⟩
    have hnone : after.filter p = [] :=
      List.filter_eq_nil_iff.mpr fun b hb => by simp [hafter b hb]
    rw [List.filter_append, List.filter_cons, if_pos ha, hnone]

/-! ## What is in force -/

/-- It has the greatest applicable date, and is the last one of its date. -/
theorem inForce_iff :
    InForce key t l a ↔ key a ≤ t ∧ (∀ b ∈ l, key b ≤ t → key b ≤ key a) ∧
      (l.filter fun b => key b = key a).getLast? = some a := by
  rw [getLast?_filter_iff]
  constructor
  · rintro ⟨before, after, rfl, hat, hbefore, hafter⟩
    refine ⟨hat, fun b hb hbt => ?_, before, after, rfl, decide_eq_true rfl, fun b hb => ?_⟩
    · rcases List.mem_append.mp hb with hb | hb
      · exact hbefore b hb hbt
      rcases List.mem_cons.mp hb with rfl | hb
      · exact le_refl _
      · exact (hafter b hb hbt).le
    · apply decide_eq_false
      intro heq
      exact absurd heq (hafter b hb (heq ▸ hat)).ne
  · rintro ⟨hat, hmax, before, after, rfl, -, hafter⟩
    refine ⟨before, after, rfl, hat, fun b hb => hmax b (List.mem_append_left _ hb), ?_⟩
    intro b hb hbt
    have hle := hmax b (List.mem_append_right _ (List.mem_cons_of_mem _ hb)) hbt
    exact lt_of_le_of_ne hle (of_decide_eq_false (hafter b hb))

theorem InForce.mem (h : InForce key t l a) : a ∈ l := by
  obtain ⟨before, after, rfl, -⟩ := h
  exact List.mem_append_right _ List.mem_cons_self

theorem InForce.unique {b : α} (ha : InForce key t l a) (hb : InForce key t l b) : a = b := by
  obtain ⟨hat, hamax, halast⟩ := inForce_iff.mp ha
  obtain ⟨hbt, hbmax, hblast⟩ := inForce_iff.mp hb
  have hkey : key a = key b := le_antisymm (hbmax a ha.mem hat) (hamax b hb.mem hbt)
  rw [hkey] at halast
  exact Option.some.inj (halast.symm.trans hblast)

/-- What is appended changes nothing before its date. -/
theorem inForce_append {e : α} (h : t < key e) : InForce key t (l ++ [e]) a ↔ InForce key t l a := by
  have hother (hat : key a ≤ t) : key e ≠ key a := fun heq => absurd (heq ▸ hat) (not_le.mpr h)
  rw [inForce_iff, inForce_iff]
  refine and_congr_right fun hat => and_congr ?_ ?_
  · constructor
    · exact fun hall b hb => hall b (List.mem_append_left _ hb)
    · intro hall b hb hbt
      rcases List.mem_append.mp hb with hb | hb
      · exact hall b hb hbt
      · rw [List.mem_singleton.mp hb] at hbt
        exact absurd hbt (not_le.mpr h)
  · rw [List.filter_append, List.filter_singleton, decide_eq_false (hother hat), cond_false,
      List.append_nil]

/-! ## Reading a sorted series -/

/-- Entries of one date keep their order. -/
theorem filter_oldestFirst (k : κ) :
    (oldestFirst key l).filter (fun a => key a = k) = l.filter fun a => key a = k := by
  have hperm : (oldestFirst key l).Perm l := List.perm_insertionSort _ l
  have hties : (l.filter fun a => key a = k).Pairwise fun a b => key a ≤ key b := by
    apply List.pairwise_of_forall_mem_list
    intro a ha b hb
    have hka : key a = k := of_decide_eq_true (List.mem_filter.mp ha).2
    have hkb : key b = k := of_decide_eq_true (List.mem_filter.mp hb).2
    rw [hka, hkb]
  have hsub := (List.sublist_insertionSort hties List.filter_sublist).filter fun a => key a = k
  rw [List.filter_filter, List.filter_congr fun a _ => Bool.and_self _] at hsub
  exact (hsub.eq_of_length (hperm.filter _).length_eq.symm).symm

theorem inForce_oldestFirst : InForce key t (oldestFirst key l) a ↔ InForce key t l a := by
  have hperm : (oldestFirst key l).Perm l := List.perm_insertionSort _ l
  rw [inForce_iff, inForce_iff, filter_oldestFirst]
  simp only [hperm.mem_iff]

theorem pairwise_oldestFirst (key : α → κ) (l : List α) :
    (oldestFirst key l).Pairwise fun a b => key a ≤ key b :=
  List.pairwise_insertionSort _ l

/-- In a sorted series the last applicable entry is the one in force. -/
theorem lastApplicable_sorted (hsorted : l.Pairwise fun a b => key a ≤ key b) :
    lastApplicable key t l = some a ↔ InForce key t l a := by
  rw [lastApplicable, getLast?_filter_iff]
  constructor
  · rintro ⟨before, after, rfl, hat, hafter⟩
    refine ⟨before, after, rfl, of_decide_eq_true hat, fun b hb _ => ?_, fun b hb hbt => ?_⟩
    · exact (List.pairwise_append.mp hsorted).2.2 b hb a List.mem_cons_self
    · exact absurd hbt (of_decide_eq_false (hafter b hb))
  · rintro ⟨before, after, rfl, hat, -, hafter⟩
    refine ⟨before, after, rfl, decide_eq_true hat, fun b hb => ?_⟩
    apply decide_eq_false
    intro hbt
    have hle := (List.pairwise_cons.mp (List.pairwise_append.mp hsorted).2.1).1 b hb
    exact absurd (hafter b hb hbt) (not_lt.mpr hle)

/-- Sorting and taking the last applicable entry finds the one in force. -/
theorem lastApplicable_oldestFirst :
    lastApplicable key t (oldestFirst key l) = some a ↔ InForce key t l a :=
  (lastApplicable_sorted (pairwise_oldestFirst key l)).trans inForce_oldestFirst

/-- There is one in force as soon as there is one that is applicable. -/
theorem exists_inForce_iff : (∃ a, InForce key t l a) ↔ ∃ a ∈ l, key a ≤ t := by
  constructor
  · rintro ⟨a, ha⟩
    exact ⟨a, ha.mem, (inForce_iff.mp ha).1⟩
  · rintro ⟨b, hb, hbt⟩
    have hmem : b ∈ (oldestFirst key l).filter fun a => key a ≤ t :=
      List.mem_filter.mpr ⟨(List.perm_insertionSort _ l).mem_iff.mpr hb, decide_eq_true hbt⟩
    have hne := List.ne_nil_of_mem hmem
    exact ⟨_, lastApplicable_oldestFirst.mp (List.getLast?_eq_some_getLast hne)⟩

end Dated
