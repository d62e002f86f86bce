import RTThread.Finsh.HeapLayout

set_option autoImplicit false

/-! # The two lists of the shell's heap

A block is inserted into a list between the blocks below and above it, removed from it, split, and
merged with its neighbours. Each of these is told once, as what becomes of the lists and of the layout.
-/

namespace RTThread.FinshHeap

open Sll (Linked search search_eq search_eq_zero search_cases)

variable {m m' : Mem} {a e x p n : Nat} {bs l r : List Blk} {b c : Blk} {f g : Field}
  {S T : List Nat} {u v : List Nat}

/-! ## Insert and remove -/

/-- The search for the last node in front of `x` that `q` decides. -/
theorem search_last {q : Nat → Bool} {y : Nat}
    (h : Linked (m.get .next) p (u ++ y :: v)) (hu : ∀ z ∈ u, m.get .next z ∈ u ++ [y] → q z = false)
    (hy : q y = true) (hn : u.length < steps) : search (m.get .next) q steps p = some y :=
  search_eq h (fun z hz => hu z hz (h.next_mem hz)) hy hn

/-- **A block is inserted** between `u` and `v`. If it becomes the last one, its link must be null. -/
theorem finshBlockInsert_eq (hS : Headers S) (h : Linked (m.get .next) p (u ++ v))
    (hu : ∀ y ∈ u, y ∈ S ∧ y < x) (hv : ∀ y ∈ v, y ∈ S ∧ x < y) (hx : x ∈ S) (hx0 : 0 < x)
    (hsort : u.Pairwise (· < ·)) (hend : v = [] → m.get .next x = 0) (hn : u.length < steps) :
    ∃ m' p', finshBlockInsert m p x = some (m', p') ∧ Linked (m'.get .next) p' (u ++ x :: v) ∧
      Frame S (x :: u) m m' := by
  have hxv : x ∉ v := fun hm => Nat.lt_irrefl x (hv x hm).2
  rcases List.eq_nil_or_concat u with rfl | ⟨u₀, q, rfl⟩
  · rw [List.nil_append] at h
    unfold finshBlockInsert
    cases v with
    | nil =>
        rw [if_pos h.ptr_nil]
        refine ⟨m, x, rfl, ?_, .refl⟩
        apply Linked.cons _ (by omega)
        rw [hend rfl]
        exact Linked.of_nil
    | cons y v =>
        obtain rfl := h.ptr_cons
        have hy := hv p List.mem_cons_self
        rw [if_neg (by omega), if_pos hy.2]
        refine ⟨_, x, rfl, ?_, .setNext hS hx List.mem_cons_self⟩
        apply Linked.cons _ (by omega)
        rw [Mem.get_set_self]
        refine h.congr fun z hz => ?_
        exact Mem.get_set_of_ne hS hx (hv z hz).1 fun he => hxv (he ▸ hz)
  · rw [List.concat_eq_append] at *
    have hq := hu q (by simp)
    have hh : Linked (m.get .next) p (u₀ ++ q :: v) := by simpa using h
    have hp : p ∈ u₀ ++ q :: v ∧ p < x := by
      cases u₀ with
      | nil =>
          rw [List.nil_append] at hh
          rw [hh.ptr_cons]
          exact ⟨by simp, hq.2⟩
      | cons z u₀ =>
          have hpz := hh.ptr_cons
          rw [hpz]
          exact ⟨by simp, (hu z (by simp)).2⟩
    have hp0 := hh.ne_zero hp.1
    have hqu : q ∉ u₀ := fun hm =>
      Nat.lt_irrefl q ((List.pairwise_append.mp hsort).2.2 q hm q (by simp))
    have hxu : x ∉ u₀ := fun hm => Nat.lt_irrefl x (hu x (by simp [hm])).2
    have hnext : v = [] ∧ m.get .next q = 0 ∨ ∃ y v', v = y :: v' ∧ m.get .next q = y := by
      cases v with
      | nil => exact .inl ⟨rfl, hh.behind.ptr_nil⟩
      | cons y v' => exact .inr ⟨y, v', rfl, hh.behind.ptr_cons⟩
    have hfind : search (m.get .next)
        (fun node => decide (x < m.get .next node) || decide (m.get .next node = 0)) steps p =
        some q := by
      refine search_last hh (fun z hz hmem => ?_) ?_ (by simp at hn; omega)
      · have hlt := (hu _ hmem).2
        have hne := hh.ne_zero (p := m.get .next z) (by
          rcases List.mem_append.mp hmem with h₁ | h₁
          · exact List.mem_append_left _ h₁
          · rw [List.mem_singleton.mp h₁]
            simp)
        simp [hne]
        omega
      · rcases hnext with ⟨-, h0⟩ | ⟨y, v', rfl, hy⟩
        · simp [h0]
        · simp [hy, (hv y List.mem_cons_self).2]
    unfold finshBlockInsert
    rw [if_neg hp0, if_neg (by omega), hfind]
    refine ⟨_, p, rfl, ?_, ?_⟩
    · -- the links of `q` and of `x`
      rw [List.append_assoc, List.singleton_append]
      refine hh.splice (fun z hz => ?_) ?_
      · have hzS := (hu z (by simp [hz])).1
        have hzx : z ≠ x := fun he => hxu (he ▸ hz)
        have hzq : z ≠ q := fun he => hqu (he ▸ hz)
        rw [Mem.get_set_of_ne hS hq.1 hzS hzq]
        split_ifs
        · exact Mem.get_set_of_ne hS hx hzS hzx
        · rfl
      · rw [Mem.get_set_self]
        apply Linked.cons _ (by omega)
        rw [Mem.get_set_of_ne hS hq.1 hx (by omega)]
        rcases hnext with ⟨rfl, h0⟩ | ⟨y, v', rfl, hy⟩
        · rw [if_neg (not_not.mpr h0), hend rfl]
          exact Linked.of_nil
        · have hyx := (hv y List.mem_cons_self).2
          rw [hy, if_pos (by omega), Mem.get_set_self]
          refine Linked.congr (hy ▸ hh.behind) fun z hz => ?_
          have hz := hv z hz
          rw [Mem.get_set_of_ne hS hq.1 hz.1 (by omega), Mem.get_set_of_ne hS hx hz.1 (by omega)]
    · have hfirst : Frame S (x :: (u₀ ++ [q])) m
          (if m.get .next q ≠ 0 then m.set .next x (m.get .next q) else m) := by
        split_ifs
        · exact .setNext hS hx List.mem_cons_self
        · exact .refl
      exact hfirst.trans (.setNext hS hq.1 (by simp))

/-- **A block is removed** from between `u` and `v`. -/
theorem finshBlockRemove_eq (hS : Headers S) (h : Linked (m.get .next) p (u ++ x :: v))
    (hmem : ∀ y ∈ u ++ x :: v, y ∈ S) (hsort : (u ++ x :: v).Pairwise (· < ·))
    (hn : u.length < steps) :
    ∃ m' p', finshBlockRemove m p x = some (m', p') ∧ Linked (m'.get .next) p' (u ++ v) ∧
      Frame S (x :: u) m m' := by
  have hx := hmem x (by simp)
  obtain ⟨hsu, hsv, huv⟩ := List.pairwise_append.mp hsort
  have hxv : x ∉ v := fun hm => Nat.lt_irrefl x ((List.pairwise_cons.mp hsv).1 x hm)
  unfold finshBlockRemove
  rcases List.eq_nil_or_concat u with rfl | ⟨u₀, q, rfl⟩
  · rw [List.nil_append] at h
    obtain rfl := h.ptr_cons
    rw [if_pos rfl]
    refine ⟨_, _, rfl, ?_, .setNext hS hx List.mem_cons_self⟩
    rw [List.nil_append]
    refine Linked.congr (h.behind (l := [])) fun z hz => ?_
    exact Mem.get_set_of_ne hS hx (hmem z (by simp [hz])) fun he => hxv (he ▸ hz)
  · rw [List.concat_eq_append] at *
    have hh : Linked (m.get .next) p (u₀ ++ q :: x :: v) := by simpa using h
    have hqS := hmem q (by simp)
    have hqx : q < x := huv q (by simp) x List.mem_cons_self
    have hqu : ∀ z ∈ u₀, z < q := fun z hz => (List.pairwise_append.mp hsu).2.2 z hz q (by simp)
    have hqv : ∀ z ∈ v, q < z := fun z hz => huv q (by simp) z (List.mem_cons_of_mem _ hz)
    have hp : p ≠ x := by
      cases u₀ with
      | nil =>
          rw [List.nil_append] at hh
          rw [hh.ptr_cons]
          omega
      | cons z u₀ =>
          have hz := huv z (by simp) x List.mem_cons_self
          have hpz := hh.ptr_cons
          omega
    have hq : m.get .next q = x := hh.behind.ptr_cons
    have hfind : search (m.get .next) (fun node => decide (m.get .next node = x)) steps p = some q := by
      refine search_last hh (fun z hz hm => ?_) (by simp [hq]) (by simp at hn; omega)
      have hlt := huv _ hm x List.mem_cons_self
      simp
      omega
    have hq0 : q ≠ 0 := hh.ne_zero (by simp)
    rw [if_neg hp, hfind]
    refine ⟨_, p, rfl, ?_, ?_⟩
    · rw [if_pos hq0, List.append_assoc, List.singleton_append]
      refine hh.splice (fun z hz => ?_) ?_
      · have hzq := hqu z hz
        exact Mem.get_set_of_ne hS hqS (hmem z (by simp [hz])) (by omega)
      · rw [Mem.get_set_self]
        have hb : Linked (m.get .next) (m.get .next x) v := by
          have h₁ : Linked (m.get .next) p ((u₀ ++ [q]) ++ x :: v) := by simpa using hh
          exact h₁.behind
        refine hb.congr fun z hz => ?_
        have hzq := hqv z hz
        exact Mem.get_set_of_ne hS hqS (hmem z (by simp [hz])) (by omega)
    · rw [if_pos hq0]
      exact .setNext hS hqS (by simp)

/-- **A block is moved** from one list to the other. In between, its link may be set. -/
theorem move_eq {q : Nat} {u' v' : List Nat} (hS : Headers S)
    (h : Linked (m.get .next) p (u ++ x :: v)) (h' : Linked (m.get .next) q (u' ++ v'))
    (hmem : ∀ y ∈ u ++ x :: v, y ∈ S) (hmem' : ∀ y ∈ u' ++ v', y ∈ S)
    (hsort : (u ++ x :: v).Pairwise (· < ·)) (hsort' : (u' ++ x :: v').Pairwise (· < ·))
    (hdis : ∀ y ∈ u ++ v, y ∉ u' ++ v') (hn : u.length < steps) (hn' : u'.length < steps) :
    ∃ m₁ p', finshBlockRemove m p x = some (m₁, p') ∧
      ∀ m₂, Frame S [x] m₁ m₂ → (v' = [] → m₂.get .next x = 0) →
        ∃ m₃ q', finshBlockInsert m₂ q x = some (m₃, q') ∧
          Linked (m₃.get .next) p' (u ++ v) ∧ Linked (m₃.get .next) q' (u' ++ x :: v') ∧
          ∀ y ∈ S, m₃.get .length y = m.get .length y := by
  have hx := hmem x (by simp)
  have hxl : ∀ y ∈ u ++ v, y ≠ x := by
    obtain ⟨-, hsv, huv⟩ := List.pairwise_append.mp hsort
    intro y hy
    rcases List.mem_append.mp hy with hy | hy
    · exact Nat.ne_of_lt (huv y hy x List.mem_cons_self)
    · exact Nat.ne_of_gt ((List.pairwise_cons.mp hsv).1 y hy)
  obtain ⟨hsu', hsv', huv'⟩ := List.pairwise_append.mp hsort'
  have hlt : ∀ y ∈ u', y < x := fun y hy => huv' y hy x List.mem_cons_self
  have hgt : ∀ y ∈ v', x < y := (List.pairwise_cons.mp hsv').1
  have hxl' : ∀ y ∈ u' ++ v', y ≠ x := by
    intro y hy
    rcases List.mem_append.mp hy with hy | hy
    · exact Nat.ne_of_lt (hlt y hy)
    · exact Nat.ne_of_gt (hgt y hy)
  obtain ⟨m₁, p', hrem, hl₁, fr₁⟩ := finshBlockRemove_eq hS h hmem hsort hn
  refine ⟨m₁, p', hrem, fun m₂ fr₂ hend => ?_⟩
  have hl' : Linked (m₂.get .next) q (u' ++ v') := by
    refine h'.congr fun y hy => ?_
    have hyu : y ∉ u := fun hu => hdis y (List.mem_append_left _ hu) hy
    rw [fr₂.next y (hmem' y hy) (by simp [hxl' y hy]),
      fr₁.next y (hmem' y hy) (by simp [hxl' y hy, hyu])]
  obtain ⟨m₃, q', hins, hl₃, fr₃⟩ := finshBlockInsert_eq hS hl'
    (fun y hy => ⟨hmem' y (List.mem_append_left _ hy), hlt y hy⟩)
    (fun y hy => ⟨hmem' y (List.mem_append_right _ hy), hgt y hy⟩) hx
    (Nat.pos_of_ne_zero (h.ne_zero (by simp))) hsu' hend hn'
  refine ⟨m₃, q', hins, hl₁.congr fun y hy => ?_, hl₃, fun y hy => ?_⟩
  · have hyS : y ∈ S := hmem y (by
      rcases List.mem_append.mp hy with hy | hy
      · exact List.mem_append_left _ hy
      · exact List.mem_append_right _ (List.mem_cons_of_mem _ hy))
    have hyu : y ∉ u' := fun hu => hdis y hy (List.mem_append_left _ hu)
    rw [fr₃.next y hyS (by simp [hxl y hy, hyu]), fr₂.next y hyS (by simp [hxl y hy])]
  · rw [fr₃.length y hy, fr₂.length y hy, fr₁.length y hy]

end RTThread.FinshHeap
