import Mathlib.Data.List.Sublists
import Mathlib.Data.List.TakeWhile
import Mathlib.Tactic

set_option autoImplicit false

/-! # Skip lists

Rows of elements, each a sub-sequence of the row below. A search goes along a row up to the last
element before one where it stops, and continues from the same element in the row below. When the
elements where it stops come last in the lowest row, every row is cut at the same place, and the new
element can be inserted there in as many of the lowest rows as one likes.
-/

namespace SkipList

variable {α : Type*} [DecidableEq α]

/-! ## Along one row -/

/-- The elements behind a place: the front of the row, or one of its elements. -/
def after : Option α → List α → Option (List α)
  | none, l => some l
  | some x, l => if x ∈ l then some (l.dropWhile (fun y => y ≠ x)).tail else none

/-- The last place before an element where the search stops. -/
def walk (stop : α → Bool) : Option α → List α → Option α
  | p, [] => p
  | p, y :: l => if stop y then p else walk stop (some y) l

/-- A new element behind a place. -/
def insertAfter : Option α → α → List α → List α
  | none, x, l => x :: l
  | some _, _, [] => []
  | some y, x, z :: l => if z = y then z :: x :: l else z :: insertAfter (some y) x l

/-- The place of the search in each row, from the top. -/
def descend (stop : α → Bool) (rows : Nat → List α) : Nat → Option (Option α)
  | 0 => some (walk stop none (rows 0))
  | lvl + 1 => (descend stop rows lvl).bind fun p =>
      (after p (rows (lvl + 1))).map (walk stop p)

variable {stop : α → Bool} {l A B : List α} {x y : α} {p : Option α}

omit [DecidableEq α] in
theorem walk_stop (hB : ∀ b ∈ B, stop b = true) : walk stop p B = p := by
  cases B with
  | nil => rfl
  | cons b B =>
      rw [walk, if_pos]
      exact hB b List.mem_cons_self

omit [DecidableEq α] in
/-- The search passes the elements where it does not stop. -/
theorem walk_append (hA : ∀ a ∈ A, stop a = false) (hB : ∀ b ∈ B, stop b = true) :
    walk stop p (A ++ B) = A.getLast?.or p := by
  induction A generalizing p with
  | nil => simpa using walk_stop hB
  | cons a A ih =>
      have ha := hA a List.mem_cons_self
      rw [List.cons_append, walk, if_neg (by simp [ha]),
        ih fun b hb => hA b (List.mem_cons_of_mem a hb)]
      cases A with
      | nil => rfl
      | cons b A =>
          rw [List.getLast?_cons_cons]
          cases h : (b :: A).getLast? with
          | none => simp at h
          | some c => rfl

theorem after_append (hx : x ∉ A) : after (some x) (A ++ x :: B) = some B := by
  have hmem : x ∈ A ++ x :: B := by simp
  rw [after, if_pos hmem]
  congr 1
  induction A with
  | nil => simp
  | cons a A ih =>
      have hax : a ≠ x := fun h => hx (h ▸ List.mem_cons_self)
      rw [List.cons_append, List.dropWhile_cons_of_pos (by simpa using hax)]
      exact ih (fun h => hx (List.mem_cons_of_mem a h)) (by simp)

theorem insertAfter_append (hy : y ∉ A) :
    insertAfter (some y) x (A ++ y :: B) = A ++ y :: x :: B := by
  induction A with
  | nil => simp [insertAfter]
  | cons a A ih =>
      have hay : a ≠ y := fun h => hy (h ▸ List.mem_cons_self)
      rw [List.cons_append, insertAfter, if_neg hay, ih fun h => hy (List.mem_cons_of_mem a h)]
      rfl

/-- A new element behind the last element of the first part. -/
theorem insertAfter_getLast (hnd : (A ++ B).Nodup) :
    insertAfter A.getLast? x (A ++ B) = A ++ x :: B := by
  induction A using List.reverseRecOn with
  | nil => cases B <;> rfl
  | append_singleton A y ih =>
      rw [List.getLast?_append, List.getLast?_singleton, Option.some_or, List.append_assoc,
        List.singleton_append, insertAfter_append]
      · simp
      · intro hy
        rw [List.append_assoc, List.singleton_append] at hnd
        have hdis := (List.nodup_append.mp hnd).2.2 y hy y List.mem_cons_self
        exact hdis rfl

/-- A new element is inserted, or there is no such place. -/
theorem insertAfter_perm : List.Perm (insertAfter p x l) (x :: l) ∨ insertAfter p x l = l := by
  cases p with
  | none => exact Or.inl (List.Perm.of_eq (by cases l <;> rfl))
  | some y =>
      induction l with
      | nil => exact Or.inr rfl
      | cons z l ih =>
          rw [insertAfter]
          split_ifs with h
          · exact Or.inl (List.Perm.swap x z l)
          · rcases ih with hp | hp
            · exact Or.inl ((hp.cons z).trans (List.Perm.swap x z l))
            · exact Or.inr (by rw [hp])

/-- What comes behind an element: its node points to itself when it is not in the row. -/
def next (l : List α) (x : α) : Option α :=
  match after (some x) l with
  | some m => m.head?
  | none => some x

theorem next_ne (hnd : l.Nodup) (hx : x ∈ l) : next l x ≠ some x := by
  obtain ⟨A, B, rfl⟩ := List.append_of_mem hx
  have hA : x ∉ A := fun h => (List.nodup_append.mp hnd).2.2 x h x List.mem_cons_self rfl
  have hB : x ∉ B := (List.nodup_cons.mp (List.nodup_append.mp hnd).2.1).1
  rw [next, after_append hA]
  exact fun h => hB (List.mem_of_mem_head? h)

/-! ## All rows -/

/-- Each row is a sub-sequence of the row below, in the lowest `L` rows. -/
def Nested (L : Nat) (rows : Nat → List α) : Prop :=
  ∀ i, i + 1 < L → (rows i).Sublist (rows (i + 1))

omit [DecidableEq α] in
theorem Nested.sublist {L : Nat} {rows : Nat → List α} (h : Nested L rows) {i j : Nat} (hij : i ≤ j)
    (hj : j < L) : (rows i).Sublist (rows j) := by
  induction j, hij using Nat.le_induction with
  | base => exact List.Sublist.refl _
  | succ j hij ih => exact (ih (by omega)).trans (h j hj)

/-- The rows are cut where the search stops. -/
structure Cut (stop : α → Bool) (L : Nat) (rows A B : Nat → List α) : Prop where
  eq : ∀ i, i < L → rows i = A i ++ B i
  left : ∀ i, i < L → ∀ a ∈ A i, stop a = false
  right : ∀ i, i < L → ∀ b ∈ B i, stop b = true

omit [DecidableEq α] in
/-- Where the search stops at every element behind one where it stops, the rows have a cut. -/
theorem exists_cut {L : Nat} {rows : Nat → List α} (hn : Nested L rows)
    (hs : (rows (L - 1)).Pairwise fun a b => stop a = true → stop b = true) :
    Cut stop L rows (fun i => (rows i).takeWhile fun a => !stop a)
      fun i => (rows i).dropWhile fun a => !stop a := by
  have hrow : ∀ i, i < L → (rows i).Pairwise fun a b => stop a = true → stop b = true := fun i hi =>
    hs.sublist (hn.sublist (by omega) (by omega))
  refine ⟨fun i _ => (List.takeWhile_append_dropWhile).symm, fun i _ a ha => ?_, fun i hi b hb => ?_⟩
  · simpa using List.mem_takeWhile_imp ha
  · have hp := (hrow i hi).sublist (List.dropWhile_sublist (fun a => !stop a))
    cases hd : (rows i).dropWhile fun a => !stop a with
    | nil =>
        rw [hd] at hb
        cases hb
    | cons c C =>
        have hc : stop c = true := by
          have h1 := List.head_dropWhile_not (fun a => !stop a) (l := rows i) (by simp [hd])
          simpa [hd] using h1
        rw [hd] at hb hp
        rcases List.mem_cons.mp hb with rfl | hb
        · exact hc
        · exact (List.pairwise_cons.mp hp).1 b hb hc

omit [DecidableEq α] in
/-- A sub-sequence is cut in sub-sequences. -/
theorem Cut.sublist {L : Nat} {rows A B : Nat → List α} (c : Cut stop L rows A B)
    (hn : Nested L rows) {i : Nat} (hi : i + 1 < L) :
    (A i).Sublist (A (i + 1)) ∧ (B i).Sublist (B (i + 1)) := by
  have h := hn i hi
  have hA : ∀ j, j < L → (rows j).filter (fun a => !stop a) = A j := fun j hj => by
    rw [c.eq j hj, List.filter_append, List.filter_eq_self.mpr, List.filter_eq_nil_iff.mpr,
      List.append_nil]
    · intro b hb
      simp [c.right j hj b hb]
    · intro a ha
      simp [c.left j hj a ha]
  have hB : ∀ j, j < L → (rows j).filter (fun a => stop a) = B j := fun j hj => by
    rw [c.eq j hj, List.filter_append, List.filter_eq_nil_iff.mpr, List.filter_eq_self.mpr,
      List.nil_append]
    · intro b hb
      exact c.right j hj b hb
    · intro a ha
      simp [c.left j hj a ha]
  rw [← hA i (by omega), ← hA (i + 1) hi, ← hB i (by omega), ← hB (i + 1) hi]
  exact ⟨h.filter _, h.filter _⟩

/-- **The search ends at the cut in every row.** -/
theorem descend_eq {L : Nat} {rows A B : Nat → List α} (c : Cut stop L rows A B)
    (hn : Nested L rows) (hnd : (rows (L - 1)).Nodup) {i : Nat} (hi : i < L) :
    descend stop rows i = some (A i).getLast? := by
  induction i with
  | zero =>
      rw [descend, c.eq 0 hi, walk_append (c.left 0 hi) (c.right 0 hi), Option.or_none]
  | succ i ih =>
      rw [descend, ih (by omega), Option.bind_some]
      have hAB := c.eq (i + 1) hi
      cases hl : (A i).getLast? with
      | none =>
          rw [after, Option.map_some, hAB, walk_append (c.left _ hi) (c.right _ hi), Option.or_none]
      | some y =>
          -- the search goes on from `y`, which is in the row below too
          have hy : y ∈ A (i + 1) := by
            have hyi : y ∈ A i := List.mem_of_getLast? hl
            exact (c.sublist hn hi).1.subset hyi
          obtain ⟨C, D, hCD⟩ := List.append_of_mem hy
          have hnd' : (rows (i + 1)).Nodup := hnd.sublist (hn.sublist (by omega) (by omega))
          rw [hAB, hCD, List.append_assoc, List.cons_append] at hnd'
          have hyC : y ∉ C := fun h =>
            (List.nodup_append.mp hnd').2.2 y h y List.mem_cons_self rfl
          have hD : ∀ a ∈ D, stop a = false := fun a ha =>
            c.left _ hi a (by rw [hCD]; simp [ha])
          rw [hAB, hCD, List.append_assoc, List.cons_append, after_append hyC, Option.map_some,
            walk_append hD (c.right _ hi), List.getLast?_append, List.getLast?_cons]
          cases D.getLast? <;> rfl

omit [DecidableEq α] in
/-- The rows stay nested when a new element is inserted at the cut of the lowest rows. -/
theorem Cut.nested {L m : Nat} {rows rows' A B : Nat → List α} (c : Cut stop L rows A B)
    (hn : Nested L rows) (hlow : ∀ i, i < L → m ≤ i → rows' i = A i ++ x :: B i)
    (hup : ∀ i, i < L → i < m → rows' i = rows i) : Nested L rows' := by
  intro i hi
  obtain ⟨h1, h2⟩ := c.sublist hn hi
  by_cases him : m ≤ i
  · rw [hlow i (by omega) him, hlow (i + 1) hi (by omega)]
    exact h1.append (h2.cons_cons x)
  · rw [hup i (by omega) (by omega)]
    by_cases him' : m ≤ i + 1
    · rw [hlow (i + 1) hi him', c.eq i (by omega)]
      exact h1.append (h2.cons x)
    · rw [hup (i + 1) hi (by omega)]
      exact hn i hi

end SkipList
