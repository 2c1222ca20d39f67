/-
  Keyset pagination: pages of a changing table, newest first, each continued below
  the key of the last row of the one before. Nothing here names an engine.

  A page is made from one row more than it holds, and that row's presence says
  whether there is a next page. `Walk` reads page after page, the n-th one from the
  table as it is then, until a page has no continuation. The cursor a reader gets
  back may be any encoding of the row it continues from.

  `walk_complete`: where the rows of the start stay and the others are above all of
  them, the walk ends, and what it has read are the keys of the start in strictly
  decreasing order. The induction is on what is still to be read; its invariant is
  that this is the part of the start below the cursor (`found_keys`).
-/
import Mathlib.Data.List.Sort

namespace Keyset

variable {α γ κ : Type} [LinearOrder κ]

/-- `ORDER BY key DESC`. -/
def descending (key : α → κ) (rows : List α) : List α :=
  rows.insertionSort fun a b => key b ≤ key a

/-- What comes behind the cursor. -/
def below (key : α → κ) (cursor : Option κ) (rows : List α) : List α :=
  rows.filter fun a => cursor.all fun c => key a < c

/-- The first `n` rows behind the cursor. -/
def select (key : α → κ) (rows : List α) (cursor : Option κ) (n : Nat) : List α :=
  (descending key (below key cursor rows)).take n

/-- One page, and where the next one continues. -/
structure Page (α γ : Type) where
  items : List α
  next : Option γ

/-- The page that is cut from these rows. -/
def cut (limit : Nat) (found : List α) : Page α α :=
  ⟨found.take limit, if limit < found.length then (found.take limit).getLast? else none⟩

/-- Pages read one after the other, the first of them the `n`-th reading of the table. -/
inductive Walk (read : Nat → Option γ → Page α γ → Prop) : Nat → Option γ → List (List α) → Prop
  | last {n : Nat} {c : Option γ} {items : List α} (h : read n c ⟨items, none⟩) :
    Walk read n c [items]
  | more {n : Nat} {c : Option γ} {items : List α} {c' : γ} {pages : List (List α)}
    (h : read n c ⟨items, some c'⟩) (t : Walk read (n + 1) (some c') pages) :
    Walk read n c (items :: pages)

/-- Readings that are determined make one walk. -/
theorem Walk.unique {read : Nat → Option γ → Page α γ → Prop}
    (hread : ∀ n c p q, read n c p → read n c q → p = q) {n : Nat} {c : Option γ}
    {pages pages' : List (List α)} (h : Walk read n c pages) (h' : Walk read n c pages') :
    pages = pages' := by
  induction h generalizing pages' with
  | last h =>
    cases h' with
    | last h₂ => rw [(Page.mk.inj (hread _ _ _ _ h h₂)).1]
    | more h₂ t₂ => cases (Page.mk.inj (hread _ _ _ _ h h₂)).2
  | more h t ih =>
    cases h' with
    | last h₂ => cases (Page.mk.inj (hread _ _ _ _ h h₂)).2
    | more h₂ t₂ =>
      obtain ⟨rfl, hc⟩ := Page.mk.inj (hread _ _ _ _ h h₂)
      obtain rfl := Option.some.inj hc
      rw [ih t₂]

/-! ## Keys -/

/-- The start stays, without repetition, and what is added is above all of it. -/
structure Grown (start keys : List κ) : Prop where
  nodup : keys.Nodup
  kept : start ⊆ keys
  above : ∀ x ∈ keys, x ∉ start → ∀ s ∈ start, s < x

theorem Grown.refl {start : List κ} (h : start.Nodup) : Grown start start :=
  ⟨h, fun _ hx => hx, fun _ hx hn => absurd hx hn⟩

theorem descending_perm (key : α → κ) (rows : List α) : (descending key rows).Perm rows :=
  List.perm_insertionSort _ rows

theorem descending_keys (key : α → κ) (rows : List α) :
    (descending key rows).map key = (rows.map key).insertionSort (· ≥ ·) :=
  List.map_insertionSort _ _ key rows fun _ _ _ _ => Iff.rfl

theorem below_keys (key : α → κ) (cursor : Option κ) (rows : List α) :
    (below key cursor rows).map key = (rows.map key).filter fun x => cursor.all fun c => x < c := by
  rw [List.filter_map]
  rfl

/-- Sorted and without repetition, a list of keys is determined by its members. -/
theorem sort_eq {keys sorted : List κ} (hnodup : keys.Nodup) (hsorted : sorted.Pairwise (· > ·))
    (hmem : ∀ x, x ∈ keys ↔ x ∈ sorted) : keys.insertionSort (· ≥ ·) = sorted := by
  have hperm : keys.Perm sorted :=
    (List.perm_ext_iff_of_nodup hnodup (hsorted.imp fun h => ne_of_gt h)).mpr hmem
  exact ((List.perm_insertionSort _ keys).trans hperm).eq_of_pairwise'
    (List.pairwise_insertionSort _ keys) (hsorted.imp fun h => le_of_lt h)

theorem sort_pairwise {keys : List κ} (hnodup : keys.Nodup) :
    (keys.insertionSort (· ≥ ·)).Pairwise (· > ·) := by
  have hstrict : (keys.insertionSort (· ≥ ·)).Nodup :=
    (List.perm_insertionSort _ keys).nodup_iff.mpr hnodup
  exact (List.pairwise_insertionSort _ keys).imp₂ (fun _ _ hge hne => lt_of_le_of_ne hge hne.symm)
    hstrict

/-! ## The walk -/

variable {key : α → κ} {limit : Nat} {start rest : List κ} {table : List α} {cursor : Option κ}

/-- What is found behind a cursor below which nothing was added: the start below it, in order. -/
theorem found_keys (hgrown : Grown start (table.map key))
    (hold : ∀ x ∈ table.map key, (cursor.all fun c => x < c) = true → x ∈ start)
    (hrest : rest.Pairwise (· > ·))
    (hmem : ∀ x, x ∈ rest ↔ x ∈ start ∧ (cursor.all fun c => x < c) = true) :
    (descending key (below key cursor table)).map key = rest := by
  rw [descending_keys, below_keys]
  refine sort_eq (hgrown.nodup.filter _) hrest fun x => ?_
  rw [List.mem_filter, hmem]
  constructor
  · rintro ⟨hx, hlt⟩
    exact ⟨hold x hx hlt, hlt⟩
  · rintro ⟨hx, hlt⟩
    exact ⟨hgrown.kept hx, hlt⟩

/-- A cursor at a key of the start is below everything that was added. -/
theorem Grown.old_below {keys : List κ} (h : Grown start keys) {c : κ} (hc : c ∈ start) {x : κ}
    (hx : x ∈ keys) (hlt : x < c) : x ∈ start := by
  by_contra hn
  exact absurd (h.above x hx hn c hc) (not_lt_of_gt hlt)

/-- The last key of a page parts what has been read from what has not. -/
theorem parted {front back : List κ} {k : κ} (hrest : (front ++ k :: back).Pairwise (· > ·))
    (hmem : ∀ x, x ∈ front ++ k :: back ↔ x ∈ start ∧ (cursor.all fun c => x < c) = true) :
    ∀ x, x ∈ back ↔ x ∈ start ∧ x < k := by
  obtain ⟨-, hk, hfront⟩ := List.pairwise_append.mp hrest
  intro x
  constructor
  · intro hx
    have hin := (hmem x).mp (List.mem_append_right _ (List.mem_cons_of_mem k hx))
    exact ⟨hin.1, (List.pairwise_cons.mp hk).1 x hx⟩
  · rintro ⟨hx, hlt⟩
    have hbelow : (cursor.all fun c => x < c) = true := by
      have hkc := ((hmem k).mp (List.mem_append_right _ (List.mem_cons_self ..))).2
      cases cursor with
      | none => rfl
      | some c => exact decide_eq_true (hlt.trans (of_decide_eq_true hkc))
    rcases List.mem_append.mp ((hmem x).mpr ⟨hx, hbelow⟩) with hf | hb
    · exact absurd (hfront x hf k (List.mem_cons_self ..)) (not_lt_of_gt hlt)
    · rcases List.mem_cons.mp hb with rfl | hb
      · exact absurd hlt (lt_irrefl x)
      · exact hb

/-- Readings of the table through an encoding of the cursor that is right for rows of the start. -/
def Reads (key : α → κ) (limit : Nat) (start : List κ) (rows : Nat → List α) (enc : α → γ)
    (read : Nat → Option γ → Page α γ → Prop) : Prop :=
  ∀ n (c : Option α), (∀ a ∈ c, key a ∈ start ∧ ∃ m, a ∈ rows m) →
    let p := cut limit (select key (rows n) (c.map key) (limit + 1))
    read n (c.map enc) ⟨p.items, p.next.map enc⟩

variable {rows : Nat → List α} {enc : α → γ} {read : Nat → Option γ → Page α γ → Prop}

omit [LinearOrder κ] in
/-- A page with more behind it continues from its last row. -/
theorem cut_more {found : List α} (h : limit < found.length) :
    cut limit (found.take (limit + 1)) = ⟨found.take limit, (found.take limit).getLast?⟩ := by
  have hprobe : limit < (found.take (limit + 1)).length := by
    rw [List.length_take]
    omega
  rw [cut, if_pos hprobe, List.take_take, min_eq_left (Nat.le_succ limit)]

omit [LinearOrder κ] in
/-- The last page is what is left. -/
theorem cut_last {found : List α} (h : found.length ≤ limit) :
    cut limit (found.take (limit + 1)) = ⟨found, none⟩ := by
  have hprobe : ¬ limit < (found.take (limit + 1)).length := by
    rw [List.length_take]
    omega
  rw [cut, if_neg hprobe, List.take_take, List.take_of_length_le (by omega)]

/-- From a cursor with `rest` behind it the walk reads `rest`. -/
theorem walk_from (hlimit : 1 ≤ limit) (hgrown : ∀ n, Grown start ((rows n).map key))
    (hread : Reads key limit start rows enc read) {n : Nat} {c : Option α}
    (hrest : rest.Pairwise (· > ·))
    (hmem : ∀ x, x ∈ rest ↔ x ∈ start ∧ ((c.map key).all fun k => x < k) = true)
    (hold : ∀ x ∈ (rows n).map key, ((c.map key).all fun k => x < k) = true → x ∈ start)
    (hstored : ∀ a ∈ c, key a ∈ start ∧ ∃ m, a ∈ rows m) :
    ∃ pages, Walk read n (c.map enc) pages ∧ pages.flatten.map key = rest := by
  induction hlen : rest.length using Nat.strong_induction_on generalizing rest n c with
  | _ len ih =>
    have hpage := hread n c hstored
    have hkeys := found_keys (hgrown n) hold hrest hmem
    generalize hfound : descending key (below key (c.map key) (rows n)) = found at hkeys
    rw [select, hfound] at hpage
    have hstore (a : α) (ha : a ∈ found) : a ∈ rows n := by
      rw [← hfound] at ha
      exact (List.mem_filter.mp ((descending_perm key _).mem_iff.mp ha)).1
    by_cases hmore : limit < found.length
    · rw [cut_more hmore] at hpage
      obtain ⟨front, a, hlast⟩ : ∃ front a, found.take limit = front ++ [a] := by
        rcases List.eq_nil_or_concat (found.take limit) with hnil | ⟨front, a, h⟩
        · have hzero := congrArg List.length hnil
          rw [List.length_take, List.length_nil] at hzero
          omega
        · exact ⟨front, a, h.trans List.concat_eq_append⟩
      have hsplit : found = front ++ a :: found.drop limit := by
        rw [← List.singleton_append, ← List.append_assoc, ← hlast, List.take_append_drop]
      have ha : a ∈ found := by rw [hsplit]; simp
      have hrest' : rest = front.map key ++ key a :: (found.drop limit).map key := by
        rw [← hkeys]
        conv_lhs => rw [hsplit]
        rw [List.map_append, List.map_cons]
      have hka : key a ∈ start := ((hmem _).mp (by rw [hrest']; simp)).1
      have hback : ∀ x, x ∈ (found.drop limit).map key ↔
          x ∈ start ∧ (((some a).map key).all fun k => x < k) = true := by
        intro x
        rw [parted (hrest' ▸ hrest) fun x => by rw [← hrest']; exact hmem x]
        simp
      have hold' : ∀ x ∈ (rows (n + 1)).map key,
          (((some a).map key).all fun k => x < k) = true → x ∈ start :=
        fun x hx hlt => (hgrown _).old_below hka hx (by simpa using hlt)
      have hstored' : ∀ b ∈ some a, key b ∈ start ∧ ∃ m, b ∈ rows m := by
        intro b hb
        obtain rfl := Option.mem_some_iff.mp hb
        exact ⟨hka, n, hstore _ ha⟩
      have hless : ((found.drop limit).map key).length < len := by
        rw [← hlen, hrest', List.length_append, List.length_cons]
        omega
      obtain ⟨pages, hwalk, hpages⟩ := ih _ hless
        (List.pairwise_append.mp (hrest' ▸ hrest)).2.1.of_cons hback hold' hstored' rfl
      rw [hlast] at hpage
      refine ⟨(front ++ [a]) :: pages, .more (by simpa using hpage) hwalk, ?_⟩
      rw [List.flatten_cons, List.map_append, hpages, hrest']
      simp
    · rw [cut_last (Nat.le_of_not_lt hmore)] at hpage
      exact ⟨[found], .last hpage, by simpa using hkeys⟩

/-- Where the start stays and what is added is above all of it, the walk from the top ends, and
    has read the keys of the start, each once and in decreasing order. -/
theorem walk_complete (hlimit : 1 ≤ limit)
    (hgrown : ∀ n, Grown ((rows 0).map key) ((rows n).map key))
    (hread : Reads key limit ((rows 0).map key) rows enc read) :
    ∃ pages, Walk read 0 none pages ∧ (pages.flatten.map key).Pairwise (· > ·) ∧
      (pages.flatten.map key).Perm ((rows 0).map key) := by
  have hnodup := (hgrown 0).nodup
  have hperm := List.perm_insertionSort (· ≥ ·) ((rows 0).map key)
  obtain ⟨pages, hwalk, hkeys⟩ := walk_from hlimit hgrown hread (c := none) (sort_pairwise hnodup)
    (fun x => by rw [hperm.mem_iff]; simp) (fun x hx _ => hx) (fun a ha => by cases ha)
  refine ⟨pages, hwalk, ?_, ?_⟩
  · rw [hkeys]
    exact sort_pairwise hnodup
  · rw [hkeys]
    exact hperm

end Keyset
