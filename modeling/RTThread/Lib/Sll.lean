import Mathlib.Data.List.Nodup
import Mathlib.Tactic

set_option autoImplicit false

/-! # Singly linked lists

`Sll next a l` says that following `next` from the pointer `a` visits the nodes of `l` in order and
ends at the null pointer `none`. A node is pushed in front with one write, appended with one write to
the last node, and popped with none.

`Linked` is the same for pointers that are numbers, `0` being the null pointer.
-/

namespace Sll

variable {α : Type*}

/-- The nodes of `l`, in order, up to `none`. -/
def Chain (next : α → Option α) : Option α → List α → Prop
  | a, [] => a = none
  | a, x :: l => a = some x ∧ Chain next (next x) l

variable {next next' : α → Option α} {a : Option α} {x y : α} {l l' : List α}

@[simp] theorem chain_nil : Chain next a [] ↔ a = none := Iff.rfl

/-- A chain reads `next` only at its nodes. -/
theorem Chain.congr (h : Chain next a l) (hn : ∀ x ∈ l, next' x = next x) : Chain next' a l := by
  induction l generalizing a with
  | nil => exact h
  | cons x l ih =>
      refine ⟨h.1, ?_⟩
      rw [hn x List.mem_cons_self]
      exact ih h.2 fun y hy => hn y (List.mem_cons_of_mem _ hy)

/-- The first node. -/
theorem Chain.head (h : Chain next a l) : l.head? = a := by
  cases l with
  | nil => exact h.symm
  | cons x l => exact h.1.symm

theorem Chain.of_none (h : Chain next none l) : l = [] :=
  List.head?_eq_none_iff.mp h.head

/-- A list that starts at a node. -/
theorem Chain.of_some (h : Chain next (some x) l) :
    ∃ l', l = x :: l' ∧ Chain next (next x) l' := by
  cases l with
  | nil => cases h
  | cons y l' =>
      obtain rfl : x = y := Option.some.inj h.1
      exact ⟨l', rfl, h.2⟩

/-- The number of nodes that follow the pointer, counted up to `n`. -/
def count (next : α → Option α) : Nat → Option α → Nat
  | 0, _ => 0
  | _ + 1, none => 0
  | n + 1, some x => count next n (next x) + 1

/-- Counting far enough gives the length. -/
theorem Chain.count_eq {n : Nat} (h : Chain next a l) (hn : l.length ≤ n) :
    count next n a = l.length := by
  induction n generalizing a l with
  | zero => exact (Nat.le_zero.mp hn).symm
  | succ n ih =>
      cases l with
      | nil =>
          obtain rfl := chain_nil.mp h
          rfl
      | cons x l =>
          obtain ⟨rfl, h⟩ := h
          show count next n (next x) + 1 = l.length + 1
          rw [ih h (Nat.le_of_succ_le_succ hn)]

section Update

variable [DecidableEq α] {v : Option α}

/-- A write to a node that is not in the list. -/
theorem Chain.update (h : Chain next a l) (hx : x ∉ l) :
    Chain (Function.update next x v) a l := by
  apply h.congr
  intro y hy
  refine Function.update_of_ne ?_ ..
  rintro rfl
  exact hx hy

/-- Push a node in front. -/
theorem Chain.push (h : Chain next a l) (hx : x ∉ l) :
    Chain (Function.update next x a) (some x) (x :: l) := by
  refine ⟨rfl, ?_⟩
  rw [Function.update_self]
  exact h.update hx

/-- Append a node, whose own pointer is null, behind the last one. -/
theorem Chain.append (h : Chain next a (l ++ [x])) (hnd : (l ++ [x]).Nodup) (hy : y ∉ l ++ [x])
    (hnull : next y = none) : Chain (Function.update next x (some y)) a (l ++ [x] ++ [y]) := by
  induction l generalizing a with
  | nil =>
      obtain ⟨rfl, -⟩ := h
      have hyx : y ≠ x := by simpa using hy
      refine ⟨rfl, ?_⟩
      rw [Function.update_self]
      refine ⟨rfl, ?_⟩
      rw [Function.update_of_ne hyx]
      exact hnull
  | cons z l ih =>
      obtain ⟨rfl, h⟩ := h
      obtain ⟨hz, hnd⟩ := List.nodup_cons.mp hnd
      have hzx : z ≠ x := by
        rintro rfl
        exact hz (by simp)
      refine ⟨rfl, ?_⟩
      rw [Function.update_of_ne hzx]
      exact ih h hnd fun hm => hy (List.mem_cons_of_mem _ hm)

end Update

/-! ## Pointers that are numbers -/

/-- A pointer read as a link. -/
def link (v : Nat) : Option Nat := if v = 0 then none else some v

theorem link_of_ne {v : Nat} (h : v ≠ 0) : link v = some v := if_neg h

/-- The nodes of `l` are linked from the pointer `a` on. -/
def Linked (next : Nat → Nat) (a : Nat) (l : List Nat) : Prop :=
  Chain (fun p => link (next p)) (link a) l

namespace Linked

variable {next next' : Nat → Nat} {a p v : Nat} {l : List Nat}

theorem congr (h : Linked next a l) (hn : ∀ q ∈ l, next' q = next q) : Linked next' a l :=
  Chain.congr h fun q hq => by rw [hn q hq]

/-- A write that is at no node of the list. -/
theorem update (h : Linked next a l) (hp : p ∉ l) : Linked (Function.update next p v) a l := by
  refine h.congr fun q hq => ?_
  rw [Function.update_of_ne (fun he : q = p => hp (he ▸ hq))]

/-- A node that points to the list. -/
theorem cons (h : Linked next (next p) l) (h0 : p ≠ 0) : Linked next p (p :: l) :=
  ⟨link_of_ne h0, h⟩

theorem push (h : Linked next a l) (hp : p ∉ l) (h0 : p ≠ 0) :
    Linked (Function.update next p a) p (p :: l) := by
  apply cons _ h0
  rw [Function.update_self]
  exact h.update hp

/-- Append a node, whose own pointer is null, behind the last one. -/
theorem append {x y : Nat} (h : Linked next a (l ++ [x])) (hnd : (l ++ [x]).Nodup) (hy : y ∉ l ++ [x])
    (h0 : y ≠ 0) (hnull : next y = 0) : Linked (Function.update next x y) a (l ++ [x] ++ [y]) := by
  have hlink : (fun p => link (Function.update next x y p)) =
      Function.update (fun p => link (next p)) x (some y) := by
    funext p
    by_cases hp : p = x
    · subst hp
      rw [Function.update_self, Function.update_self, link_of_ne h0]
    · rw [Function.update_of_ne hp, Function.update_of_ne hp]
  unfold Linked
  rw [hlink]
  apply Chain.append h hnd hy
  rw [hnull]
  rfl

theorem head_ne (h : Linked next a l) (hl : l ≠ []) : a ≠ 0 := by
  rintro rfl
  exact hl (Chain.of_none h)

theorem pop (h : Linked next a l) (h0 : a ≠ 0) : ∃ l', l = a :: l' ∧ Linked next (next a) l' := by
  unfold Linked at h
  rw [link_of_ne h0] at h
  exact h.of_some

theorem eq_nil (h : Linked next 0 l) : l = [] := Chain.of_none h

theorem of_nil : Linked next 0 [] := rfl

theorem zero_notMem (h : Linked next a l) : 0 ∉ l := by
  induction l generalizing a with
  | nil => exact List.not_mem_nil
  | cons x l ih =>
      have hx : x ≠ 0 := by
        rintro rfl
        have h₁ : link a = some 0 := h.1
        unfold link at h₁
        split_ifs at h₁ with ha
        exact ha (Option.some.inj h₁)
      intro hm
      rcases List.mem_cons.mp hm with h₁ | h₁
      · exact hx h₁.symm
      · exact ih h.2 h₁

/-- What follows a node. -/
theorem behind {r : List Nat} (h : Linked next a (l ++ p :: r)) : Linked next (next p) r := by
  induction l generalizing a with
  | nil => exact h.2
  | cons x l ih => exact ih h.2

theorem ne_zero (h : Linked next a l) (hp : p ∈ l) : p ≠ 0 := fun he => h.zero_notMem (he ▸ hp)

/-- The pointer to a list. -/
theorem ptr_cons {x : Nat} (h : Linked next a (x :: l)) : a = x := by
  have hx := h.ne_zero List.mem_cons_self
  have h₁ : link a = some x := h.1
  unfold link at h₁
  split_ifs at h₁
  exact Option.some.inj h₁

theorem ptr_nil (h : Linked next a []) : a = 0 := by
  have h₁ : link a = none := h
  unfold link at h₁
  split_ifs at h₁ with h0
  exact h0

/-- The list from a node on. -/
theorem suffix {r : List Nat} (h : Linked next a (l ++ p :: r)) : Linked next p (p :: r) :=
  cons h.behind (h.ne_zero (by simp))

/-- The list stands at the end of a list that is linked in another way. -/
theorem of_append {k : List Nat} (h : Linked next a l) (h' : Linked next' p (k ++ l)) :
    Linked next' a l := by
  cases l with
  | nil =>
      rw [h.ptr_nil]
      exact of_nil
  | cons x l =>
      rw [h.ptr_cons]
      exact h'.suffix

/-- There is one list that a pointer leads to. -/
theorem unique {l' : List Nat} (h : Linked next a l) (h' : Linked next a l') : l = l' := by
  induction l generalizing a l' with
  | nil =>
      rw [h.ptr_nil] at h'
      exact h'.eq_nil.symm
  | cons x l ih =>
      obtain rfl := h.ptr_cons
      obtain ⟨l'', rfl, h''⟩ := h'.pop (h.ne_zero List.mem_cons_self)
      rw [ih h.2 h'']

/-- What a node in front of `p` points to. -/
theorem next_mem {q : Nat} {r : List Nat} (h : Linked next a (l ++ p :: r)) (hq : q ∈ l) :
    next q ∈ l ++ [p] := by
  obtain ⟨l₁, l₂, rfl⟩ := List.append_of_mem hq
  rw [List.append_assoc, List.cons_append] at h
  have hb := h.behind
  cases l₂ with
  | nil =>
      rw [List.nil_append] at hb
      rw [hb.ptr_cons]
      simp
  | cons y l₂ =>
      rw [hb.ptr_cons]
      simp

/-- **Splicing**: what follows the node `p` is replaced. -/
theorem splice {r r' : List Nat} (h : Linked next a (l ++ p :: r)) (hl : ∀ q ∈ l, next' q = next q)
    (hr : Linked next' (next' p) r') : Linked next' a (l ++ p :: r') := by
  induction l generalizing a with
  | nil => exact ⟨h.1, hr⟩
  | cons x l ih =>
      refine ⟨h.1, ?_⟩
      dsimp only
      rw [hl x List.mem_cons_self]
      exact ih h.2 fun q hq => hl q (List.mem_cons_of_mem _ hq)

/-- **Unlinking a node that has one in front**, with one write. -/
theorem unlink {x : Nat} {r : List Nat} (h : Linked next a (l ++ p :: x :: r)) (hp : p ∉ l)
    (hpr : p ∉ r) : Linked (Function.update next p (next x)) a (l ++ p :: r) := by
  have hx : Linked next (next p) (x :: r) := h.behind
  have hr : Linked next (next x) r := behind (l := []) hx
  refine h.splice (fun q hq => ?_) ?_
  · exact Function.update_of_ne (fun he : q = p => hp (he ▸ hq)) ..
  · rw [Function.update_self]
    exact hr.update hpr

end Linked

/-- The loop that follows the list to the first node with a property, or to its end, in at most so many
steps. -/
def search (next : Nat → Nat) (p : Nat → Bool) : Nat → Nat → Option Nat
  | 0, _ => none
  | n + 1, a => if a = 0 then some 0 else if p a then some a else search next p n (next a)

variable {next : Nat → Nat} {p : Nat → Bool} {n a x : Nat} {l r : List Nat}

/-- **The first node with the property.** -/
theorem search_eq (h : Linked next a (l ++ x :: r)) (hl : ∀ y ∈ l, p y = false) (hx : p x = true)
    (hn : l.length < n) : search next p n a = some x := by
  induction l generalizing a n with
  | nil =>
      obtain ⟨n, rfl⟩ : ∃ k, n = k + 1 := ⟨n - 1, by omega⟩
      obtain rfl := h.ptr_cons
      rw [search, if_neg (h.ne_zero List.mem_cons_self), if_pos hx]
  | cons y l ih =>
      obtain ⟨n, rfl⟩ : ∃ k, n = k + 1 := ⟨n - 1, by omega⟩
      obtain rfl : a = y := h.ptr_cons
      rw [search, if_neg (h.ne_zero List.mem_cons_self), hl a List.mem_cons_self]
      exact ih h.2 (fun z hz => hl z (List.mem_cons_of_mem _ hz)) (Nat.lt_of_succ_lt_succ hn)

/-- No node has the property. -/
theorem search_eq_zero (h : Linked next a l) (hl : ∀ y ∈ l, p y = false) (hn : l.length < n) :
    search next p n a = some 0 := by
  induction l generalizing a n with
  | nil =>
      obtain ⟨n, rfl⟩ : ∃ k, n = k + 1 := ⟨n - 1, by omega⟩
      rw [search, if_pos h.ptr_nil]
  | cons y l ih =>
      obtain ⟨n, rfl⟩ : ∃ k, n = k + 1 := ⟨n - 1, by omega⟩
      obtain rfl : a = y := h.ptr_cons
      rw [search, if_neg (h.ne_zero List.mem_cons_self), hl a List.mem_cons_self]
      exact ih h.2 (fun z hz => hl z (List.mem_cons_of_mem _ hz)) (Nat.lt_of_succ_lt_succ hn)

/-- The loop ends at a node with the property, or finds none. -/
theorem search_cases (h : Linked next a l) (hn : l.length < n) :
    (search next p n a = some 0 ∧ ∀ y ∈ l, p y = false) ∨
    ∃ l₁ x l₂, l = l₁ ++ x :: l₂ ∧ p x = true ∧ search next p n a = some x := by
  by_cases hex : ∃ y ∈ l, p y = true
  · obtain ⟨y, hy, hpy⟩ := hex
    obtain ⟨x, l₁, l₂, hfirst, hx, rfl, -⟩ := List.exists_of_eraseP hy hpy
    rw [List.length_append] at hn
    exact .inr ⟨l₁, x, l₂, rfl, hx,
      search_eq h (fun z hz => by simpa using hfirst z hz) hx (by omega)⟩
  · have hall : ∀ y ∈ l, p y = false := fun y hy => by
      by_contra hne
      exact hex ⟨y, hy, by simpa using hne⟩
    exact .inl ⟨search_eq_zero h hall hn, hall⟩

/-- The same loop, which also keeps the node in front of the one it is at, `0` at the first. -/
def searchPrev (next : Nat → Nat) (p : Nat → Bool) : Nat → Nat → Nat → Option (Nat × Nat)
  | 0, _, _ => none
  | n + 1, b, a =>
      if a = 0 then some (b, 0)
      else if p a then some (b, a)
      else searchPrev next p n a (next a)

/-- **The first node with the property and the one in front of it.** -/
theorem searchPrev_eq {b : Nat} (h : Linked next a (l ++ x :: r)) (hl : ∀ y ∈ l, p y = false)
    (hx : p x = true) (hn : l.length < n) :
    searchPrev next p n b a = some (l.getLast?.getD b, x) := by
  induction l generalizing a b n with
  | nil =>
      obtain ⟨n, rfl⟩ : ∃ k, n = k + 1 := ⟨n - 1, by omega⟩
      obtain rfl := h.ptr_cons
      rw [searchPrev, if_neg (h.ne_zero List.mem_cons_self), if_pos hx]
      rfl
  | cons y l ih =>
      obtain ⟨n, rfl⟩ : ∃ k, n = k + 1 := ⟨n - 1, by omega⟩
      obtain rfl : a = y := h.ptr_cons
      rw [searchPrev, if_neg (h.ne_zero List.mem_cons_self), hl a List.mem_cons_self,
        List.getLast?_cons]
      exact ih h.2 (fun z hz => hl z (List.mem_cons_of_mem _ hz)) (Nat.lt_of_succ_lt_succ hn)

/-- No node has the property. -/
theorem searchPrev_eq_zero {b : Nat} (h : Linked next a l) (hl : ∀ y ∈ l, p y = false)
    (hn : l.length < n) : searchPrev next p n b a = some (l.getLast?.getD b, 0) := by
  induction l generalizing a b n with
  | nil =>
      obtain ⟨n, rfl⟩ : ∃ k, n = k + 1 := ⟨n - 1, by omega⟩
      rw [searchPrev, if_pos h.ptr_nil]
      rfl
  | cons y l ih =>
      obtain ⟨n, rfl⟩ : ∃ k, n = k + 1 := ⟨n - 1, by omega⟩
      obtain rfl : a = y := h.ptr_cons
      rw [searchPrev, if_neg (h.ne_zero List.mem_cons_self), hl a List.mem_cons_self,
        List.getLast?_cons]
      exact ih h.2 (fun z hz => hl z (List.mem_cons_of_mem _ hz)) (Nat.lt_of_succ_lt_succ hn)

end Sll
