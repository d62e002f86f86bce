import Mathlib.Tactic

set_option autoImplicit false

/-! # Queues in levels

A queue for each level; an element is put behind those of its level, and taken from the first level that has
one. `all n q` are the elements of the first `n` levels, in the order in which they are taken.
-/

namespace Levels

variable {α β : Type*} {n p : Nat} {q q' : Nat → List α} {a : α}

/-- Put an element behind those of its level. -/
def push (q : Nat → List α) (p : Nat) (a : α) : Nat → List α := Function.update q p (q p ++ [a])

/-- The first of `n` levels that has an element. -/
def first (n : Nat) (q : Nat → List α) : Option Nat := (List.range n).find? fun p => !(q p).isEmpty

/-- Take the oldest element of the first level that has one. -/
def take (n : Nat) (q : Nat → List α) : Option (α × (Nat → List α)) :=
  (first n q).bind fun p => (q p).head?.map fun a => (a, Function.update q p (q p).tail)

def all (n : Nat) (q : Nat → List α) : List α := (List.range n).flatMap q

theorem first_eq_some : first n q = some p ↔ p < n ∧ q p ≠ [] ∧ ∀ j < p, q j = [] := by
  unfold first
  rw [List.find?_range_eq_some]
  simp only [Bool.not_eq_true', List.isEmpty_eq_false_iff, List.mem_range, Bool.not_not, List.isEmpty_iff]
  tauto

theorem first_eq_none : first n q = none ↔ ∀ p < n, q p = [] := by
  unfold first
  rw [List.find?_range_eq_none]
  simp

theorem take_eq_some {q' : Nat → List α} : take n q = some (a, q') ↔
    ∃ p l, first n q = some p ∧ q p = a :: l ∧ q' = Function.update q p l := by
  unfold take
  constructor
  · intro h
    obtain ⟨p, hp, h⟩ := Option.bind_eq_some_iff.mp h
    obtain ⟨b, hb, h⟩ := Option.map_eq_some_iff.mp h
    obtain ⟨rfl, rfl⟩ := Prod.mk.inj h
    obtain ⟨l, hl⟩ := List.head?_eq_some_iff.mp hb
    exact ⟨p, l, hp, hl, by rw [hl, List.tail_cons]⟩
  · rintro ⟨p, l, hp, hl, rfl⟩
    rw [hp, Option.bind_some, hl]
    rfl

theorem take_eq_none : take n q = none ↔ ∀ p < n, q p = [] := by
  rw [← first_eq_none]
  unfold take
  cases hp : first n q with
  | none => simp
  | some p =>
      obtain ⟨-, hne, -⟩ := first_eq_some.mp hp
      obtain ⟨a, l, hl⟩ := List.exists_cons_of_ne_nil hne
      simp [hl]

/-! ## All elements -/

theorem mem_all : a ∈ all n q ↔ ∃ p < n, a ∈ q p := by simp [all]

theorem mem_all_of_level (hp : p < n) (ha : a ∈ q p) : a ∈ all n q := mem_all.mpr ⟨p, hp, ha⟩

theorem level_nodup (h : (all n q).Nodup) (hp : p < n) : (q p).Nodup :=
  h.sublist (List.sublist_flatten_of_mem (List.mem_map.mpr ⟨p, List.mem_range.mpr hp, rfl⟩))

/-- Where no element is twice there, an element is on one level. -/
theorem notMem_level {j : Nat} (h : (all n q).Nodup) (hp : p < n) (hj : j < n) (hjp : j ≠ p) (ha : a ∈ q p) :
    a ∉ q j := by
  intro haj
  have hpair := List.pairwise_iff_getElem.mp (List.nodup_flatMap.mp h).2
  rcases Nat.lt_or_gt_of_ne hjp with hlt | hlt
  · have hd := hpair j p (by simpa using hj) (by simpa using hp) hlt
    simp only [List.getElem_range] at hd
    exact hd haj ha
  · have hd := hpair p j (by simpa using hp) (by simpa using hj) hlt
    simp only [List.getElem_range] at hd
    exact hd ha haj

theorem all_eq_nil : all n q = [] ↔ ∀ p < n, q p = [] := by simp [all]

theorem all_update_ge (l : List α) (hp : n ≤ p) : all n (Function.update q p l) = all n q := by
  unfold all
  apply List.flatMap_congr
  intro j hj
  rw [Function.update_of_ne (by have := List.mem_range.mp hj; omega)]

open scoped List in
/-- A change of one level. -/
theorem all_update {l r : List α} (hp : p < n) (h : l.Perm (r ++ q p)) :
    (all n (Function.update q p l)).Perm (r ++ all n q) := by
  induction n with
  | zero => exact absurd hp (Nat.not_lt_zero p)
  | succ n ih =>
      have hsucc : ∀ q' : Nat → List α, all (n + 1) q' = all n q' ++ q' n := by
        intro q'
        simp [all, List.range_succ]
      rw [hsucc, hsucc]
      by_cases hpn : p = n
      · subst hpn
        rw [all_update_ge l le_rfl, Function.update_self]
        calc all p q ++ l
          _ ~ all p q ++ (r ++ q p) := h.append_left _
          _ = (all p q ++ r) ++ q p := (List.append_assoc _ _ _).symm
          _ ~ (r ++ all p q) ++ q p := List.perm_append_comm.append_right _
          _ = r ++ (all p q ++ q p) := List.append_assoc _ _ _
      · rw [Function.update_of_ne (Ne.symm hpn), ← List.append_assoc]
        exact (ih (by omega)).append_right _

theorem all_push (hp : p < n) : (all n (push q p a)).Perm (a :: all n q) :=
  all_update (r := [a]) hp List.perm_append_comm

/-- The element that is taken, and the others. -/
theorem all_take (h : take n q = some (a, q')) : (all n q).Perm (a :: all n q') := by
  obtain ⟨p, l, hp, hl, rfl⟩ := take_eq_some.mp h
  obtain ⟨hlt, -, -⟩ := first_eq_some.mp hp
  have hback : Function.update (Function.update q p l) p (a :: l) = q := by
    rw [Function.update_idem, ← hl, Function.update_eq_self]
  have hperm : (all n (Function.update (Function.update q p l) p (a :: l))).Perm
      ([a] ++ all n (Function.update q p l)) := all_update hlt (by rw [Function.update_self]; rfl)
  rwa [hback] at hperm

/-! ## Images -/

theorem push_map (f : α → β) (q : Nat → List α) (p : Nat) (a : α) :
    push (fun p => (q p).map f) p (f a) = fun j => (push q p a j).map f := by
  funext j
  unfold push
  by_cases hj : j = p
  · subst hj
    simp
  · rw [Function.update_of_ne hj, Function.update_of_ne hj]

theorem first_map (f : α → β) (n : Nat) (q : Nat → List α) : first n (fun p => (q p).map f) = first n q := by
  simp [first]

theorem take_map (f : α → β) (h : take n q = some (a, q')) :
    take n (fun p => (q p).map f) = some (f a, fun p => (q' p).map f) := by
  obtain ⟨p, l, hp, hl, rfl⟩ := take_eq_some.mp h
  refine take_eq_some.mpr ⟨p, l.map f, (first_map f n q).trans hp, by simp [hl], ?_⟩
  funext j
  by_cases hj : j = p
  · subst hj
    simp
  · rw [Function.update_of_ne hj, Function.update_of_ne hj]

end Levels
