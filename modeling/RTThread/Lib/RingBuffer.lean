import Mathlib.Tactic

set_option autoImplicit false

/-! # Ring buffers

A queue of at most `n` elements in the slots `0, …, n - 1` of an array, from slot `head` on, going
round at the end. A `RingBuffer` has its bounds as fields; `toList` is the queue, first element first.
-/

/-- A queue in an array of `n` slots. -/
structure RingBuffer (α : Type*) (n : Nat) where
  pool : Nat → α
  head : Nat
  count : Nat
  head_lt : head < n
  count_le : count ≤ n

namespace RingBuffer

variable {α : Type*} {n : Nat}

/-- The slot the next element goes to. -/
def tail (r : RingBuffer α n) : Nat := (r.head + r.count) % n

def toList (r : RingBuffer α n) : List α :=
  (List.range r.count).map fun j => r.pool ((r.head + j) % n)

/-- An empty queue, at the first slot. -/
def empty (pool : Nat → α) (hn : 0 < n) : RingBuffer α n := ⟨pool, 0, 0, hn, Nat.zero_le n⟩

def push (r : RingBuffer α n) (x : α) (h : r.count ≠ n) : RingBuffer α n where
  pool := Function.update r.pool r.tail x
  head := r.head
  count := r.count + 1
  head_lt := r.head_lt
  count_le := Nat.lt_of_le_of_ne r.count_le h

def pop (r : RingBuffer α n) : RingBuffer α n where
  pool := r.pool
  head := (r.head + 1) % n
  count := r.count - 1
  head_lt := Nat.mod_lt _ (Nat.zero_lt_of_lt r.head_lt)
  count_le := Nat.le_trans (Nat.sub_le _ _) r.count_le

@[simp] theorem length_toList (r : RingBuffer α n) : r.toList.length = r.count := by
  simp [toList]

@[simp] theorem toList_empty (pool : Nat → α) (hn : 0 < n) : (empty pool hn).toList = [] := rfl

@[simp] theorem tail_empty (pool : Nat → α) (hn : 0 < n) : (empty pool hn).tail = 0 :=
  Nat.zero_mod n

/-- Different elements are in different slots. -/
theorem slot_inj {head j k : Nat} (hj : j < n) (hk : k < n)
    (h : (head + j) % n = (head + k) % n) : j = k := by
  have hmod : j ≡ k [MOD n] := Nat.ModEq.add_left_cancel' head h
  exact hmod.eq_of_lt_of_lt hj hk

theorem toList_push (r : RingBuffer α n) (x : α) (h : r.count ≠ n) :
    (r.push x h).toList = r.toList ++ [x] := by
  have hlt : r.count < n := Nat.lt_of_le_of_ne r.count_le h
  have hold : ∀ j ∈ List.range r.count,
      Function.update r.pool r.tail x ((r.head + j) % n) = r.pool ((r.head + j) % n) := by
    intro j hj
    have hjc : j < r.count := List.mem_range.mp hj
    refine Function.update_of_ne (fun he => ?_) ..
    have heq : j = r.count := slot_inj (by omega) hlt he
    omega
  calc (r.push x h).toList
      = (List.range (r.count + 1)).map
          fun j => Function.update r.pool r.tail x ((r.head + j) % n) := rfl
    _ = ((List.range r.count).map
          fun j => Function.update r.pool r.tail x ((r.head + j) % n)) ++
          [Function.update r.pool r.tail x r.tail] := by
        rw [List.range_succ, List.map_append]
        rfl
    _ = r.toList ++ [x] := by
        rw [List.map_congr_left hold, Function.update_self]
        rfl

theorem tail_push (r : RingBuffer α n) (x : α) (h : r.count ≠ n) :
    (r.push x h).tail = (r.tail + 1) % n := by
  show (r.head + (r.count + 1)) % n = ((r.head + r.count) % n + 1) % n
  rw [Nat.mod_add_mod, Nat.add_assoc]

theorem toList_pop (r : RingBuffer α n) (h : r.count ≠ 0) :
    r.toList = r.pool r.head :: r.pop.toList := by
  obtain ⟨c, hc⟩ : ∃ c, r.count = c + 1 := Nat.exists_eq_succ_of_ne_zero h
  have hpop : r.pop.count = c := by
    show r.count - 1 = c
    omega
  unfold toList
  rw [hc, hpop, List.range_succ_eq_map, List.map_cons, List.map_map]
  congr 1
  · rw [Nat.add_zero, Nat.mod_eq_of_lt r.head_lt]
  · apply List.map_congr_left
    intro j _
    show r.pool ((r.head + (j + 1)) % n) = r.pool (((r.head + 1) % n + j) % n)
    rw [Nat.mod_add_mod]
    congr 2
    omega

theorem tail_pop (r : RingBuffer α n) (h : r.count ≠ 0) : r.pop.tail = r.tail := by
  show ((r.head + 1) % n + (r.count - 1)) % n = (r.head + r.count) % n
  rw [Nat.mod_add_mod]
  congr 1
  omega

/-! ## Several elements -/

/-- The queue without its first `k` elements. -/
def drop (r : RingBuffer α n) (k : Nat) : RingBuffer α n where
  pool := r.pool
  head := (r.head + k) % n
  count := r.count - k
  head_lt := Nat.mod_lt _ (Nat.zero_lt_of_lt r.head_lt)
  count_le := Nat.le_trans (Nat.sub_le _ _) r.count_le

theorem toList_drop (r : RingBuffer α n) (k : Nat) : (r.drop k).toList = r.toList.drop k := by
  refine List.ext_getElem (by simp [drop]) fun i hi _ => ?_
  simp only [toList, List.getElem_drop, List.getElem_map, List.getElem_range, drop]
  rw [Nat.mod_add_mod, Nat.add_assoc]

theorem tail_drop (r : RingBuffer α n) {k : Nat} (hk : k ≤ r.count) : (r.drop k).tail = r.tail := by
  show ((r.head + k) % n + (r.count - k)) % n = (r.head + r.count) % n
  rw [Nat.mod_add_mod]
  congr 1
  omega

/-- The first `k` elements, when none of them is behind the end of the array. -/
theorem take_toList (r : RingBuffer α n) {k : Nat} (hk : k ≤ r.count) (hend : r.head + k ≤ n) :
    r.toList.take k = (List.range k).map fun j => r.pool (r.head + j) := by
  refine List.ext_getElem (by simpa using hk) fun i hi _ => ?_
  have hik : i < k := by
    rw [List.length_take] at hi
    omega
  simp only [toList, List.getElem_take, List.getElem_map, List.getElem_range]
  rw [Nat.mod_eq_of_lt (by omega)]

/-- The new element takes the place of the first one when the array is full. -/
def force (r : RingBuffer α n) (x : α) : RingBuffer α n where
  pool := Function.update r.pool r.tail x
  head := if r.count = n then (r.head + 1) % n else r.head
  count := min (r.count + 1) n
  head_lt := by
    split_ifs
    · exact Nat.mod_lt _ (Nat.zero_lt_of_lt r.head_lt)
    · exact r.head_lt
  count_le := Nat.min_le_right _ _

theorem toList_force (r : RingBuffer α n) (x : α) :
    (r.force x).toList = (r.toList ++ [x]).drop (r.count + 1 - n) := by
  by_cases hfull : r.count = n
  · have hn := Nat.zero_lt_of_lt r.head_lt
    have hpos : r.count ≠ 0 := by omega
    have hpop : r.pop.count ≠ n := by
      show r.count - 1 ≠ n
      omega
    have heq : (r.force x).toList = (r.pop.push x hpop).toList := by
      have hcount : min (r.count + 1) n = r.count - 1 + 1 := by omega
      have hpool : Function.update r.pool r.tail x = Function.update r.pop.pool r.pop.tail x := by
        rw [tail_pop r hpos]
        rfl
      unfold toList
      show (List.range (min (r.count + 1) n)).map (fun j => Function.update r.pool r.tail x
        (((if r.count = n then (r.head + 1) % n else r.head) + j) % n)) = _
      rw [if_pos hfull, hcount, hpool]
      rfl
    have hdrop : r.count + 1 - n = 1 := by omega
    rw [heq, toList_push, hdrop, toList_pop r hpos]
    rfl
  · have heq : (r.force x).toList = (r.push x hfull).toList := by
      have hcount : min (r.count + 1) n = r.count + 1 := Nat.min_eq_left (by have := r.count_le; omega)
      unfold toList
      show (List.range (min (r.count + 1) n)).map (fun j => Function.update r.pool r.tail x
        (((if r.count = n then (r.head + 1) % n else r.head) + j) % n)) = _
      rw [if_neg hfull, hcount]
      rfl
    have hle := r.count_le
    rw [heq, toList_push, Nat.sub_eq_zero_of_le (by omega), List.drop_zero]

theorem tail_force (r : RingBuffer α n) (x : α) : (r.force x).tail = (r.tail + 1) % n := by
  have hle := r.count_le
  show ((if r.count = n then (r.head + 1) % n else r.head) + min (r.count + 1) n) % n =
    ((r.head + r.count) % n + 1) % n
  rw [Nat.mod_add_mod]
  split_ifs with hfull
  · rw [Nat.mod_add_mod]
    congr 1
    omega
  · rw [Nat.min_eq_left (by omega), Nat.add_assoc]

def forceAll (r : RingBuffer α n) (xs : List α) : RingBuffer α n := xs.foldl force r

theorem count_forceAll (r : RingBuffer α n) (xs : List α) :
    (r.forceAll xs).count = min (r.count + xs.length) n := by
  induction xs generalizing r with
  | nil => exact (Nat.min_eq_left r.count_le).symm
  | cons x xs ih =>
      show ((r.force x).forceAll xs).count = _
      rw [ih]
      show min (min (r.count + 1) n + xs.length) n = min (r.count + (xs.length + 1)) n
      omega

theorem tail_forceAll (r : RingBuffer α n) (xs : List α) :
    (r.forceAll xs).tail = (r.tail + xs.length) % n := by
  induction xs generalizing r with
  | nil => exact (Nat.mod_mod _ _).symm
  | cons x xs ih =>
      show ((r.force x).forceAll xs).tail = _
      rw [ih, tail_force, Nat.mod_add_mod, List.length_cons]
      congr 1
      omega

/-- The first element stays in its place as long as the array is not overrun. -/
theorem head_forceAll (r : RingBuffer α n) (xs : List α) (h : r.count + xs.length ≤ n) :
    (r.forceAll xs).head = r.head := by
  induction xs generalizing r with
  | nil => rfl
  | cons x xs ih =>
      rw [List.length_cons] at h
      have hhead : (r.force x).head = r.head := if_neg (by omega)
      have hcount : (r.force x).count = r.count + 1 := Nat.min_eq_left (by omega)
      show ((r.force x).forceAll xs).head = _
      rw [ih _ (by rw [hcount]; omega), hhead]

/-- The newest elements are kept. -/
theorem toList_forceAll (r : RingBuffer α n) (xs : List α) :
    (r.forceAll xs).toList = (r.toList ++ xs).drop (r.count + xs.length - n) := by
  induction xs generalizing r with
  | nil =>
      have hle := r.count_le
      rw [List.length_nil, Nat.add_zero, Nat.sub_eq_zero_of_le hle, List.append_nil, List.drop_zero]
      rfl
  | cons x xs ih =>
      have hlen : (r.toList ++ [x]).length = r.count + 1 := by simp
      have hle := r.count_le
      show ((r.force x).forceAll xs).toList = _
      rw [ih, toList_force, List.append_cons r.toList x xs]
      show ((r.toList ++ [x]).drop (r.count + 1 - n) ++ xs).drop
        (min (r.count + 1) n + xs.length - n) = _
      rw [← List.drop_append_of_le_length (by omega), List.drop_drop, List.length_cons]
      congr 1
      omega

end RingBuffer
