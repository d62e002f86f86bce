import RTThread.Lib.Runs

set_option autoImplicit false

/-! # Blocks allocated round a buffer

Blocks are runs of addresses, in the order they were allocated. `Ringed lo hi l` says that they lie
between `lo` and `hi`, do not overlap, and go round the end at most once: first come blocks of
increasing addresses, then again blocks of increasing addresses, all below the first ones.

What is left of such blocks when some are given back lies so too (`Wound.sublist`), whichever
these are. So the first block and the last one tell where there is room: whether the blocks go round
is known from the order of their addresses.
-/

namespace Runs

/-- The blocks do not overlap, and their addresses increase. -/
def Ascending (l : List Run) : Prop := l.Pairwise fun r s => r.stop ≤ s.start

/-- The blocks do not overlap. -/
def Run.Apart (r s : Run) : Prop := r.stop ≤ s.start ∨ s.stop ≤ r.start

instance (r s : Run) : Decidable (r.Apart s) := inferInstanceAs (Decidable (_ ∨ _))

theorem Run.Apart.symm {r s : Run} (h : r.Apart s) : s.Apart r := Or.symm h

structure Ringed (lo hi : Nat) (l : List Run) : Prop where
  exists_wrap : ∃ A B, l = A ++ B ∧ Ascending A ∧ Ascending B ∧
    ∀ a ∈ A, ∀ b ∈ B, b.stop ≤ a.start
  range : ∀ r ∈ l, lo ≤ r.start ∧ r.stop ≤ hi
  pos : ∀ r ∈ l, 0 < r.len

/-- The same of blocks that may be empty. A block past the end starts below the first ones. -/
structure Wound (lo hi : Nat) (l : List Run) : Prop where
  exists_wrap : ∃ A B, l = A ++ B ∧ Ascending A ∧ Ascending B ∧
    ∀ a ∈ A, ∀ b ∈ B, b.stop ≤ a.start ∧ b.start < a.start
  range : ∀ r ∈ l, lo ≤ r.start ∧ r.stop ≤ hi

variable {lo hi : Nat} {l l' : List Run} {r a z : Run}

theorem Run.start_le_stop (r : Run) : r.start ≤ r.stop := Nat.le_add_right _ _

theorem Run.start_lt_stop (h : 0 < r.len) : r.start < r.stop := Nat.lt_add_of_pos_right h

theorem Ringed.wound (h : Ringed lo hi l) : Wound lo hi l := by
  obtain ⟨A, B, rfl, hA, hB, hAB⟩ := h.exists_wrap
  refine ⟨⟨A, B, rfl, hA, hB, fun a ha b hb => ⟨hAB a ha b hb, ?_⟩⟩, h.range⟩
  exact (Run.start_lt_stop (h.pos b (List.mem_append_right _ hb))).trans_le (hAB a ha b hb)

theorem Wound.ringed (h : Wound lo hi l) (hpos : ∀ r ∈ l, 0 < r.len) : Ringed lo hi l := by
  obtain ⟨A, B, hl, hA, hB, hAB⟩ := h.exists_wrap
  exact ⟨⟨A, B, hl, hA, hB, fun a ha b hb => (hAB a ha b hb).1⟩, h.range, hpos⟩

namespace Wound

theorem nil : Wound lo hi [] :=
  ⟨⟨[], [], rfl, List.Pairwise.nil, List.Pairwise.nil, by simp⟩, by simp⟩

/-- **Giving blocks back**, in any order. -/
theorem sublist (h : Wound lo hi l) (hs : l'.Sublist l) : Wound lo hi l' := by
  obtain ⟨A, B, rfl, hA, hB, hAB⟩ := h.exists_wrap
  obtain ⟨A', B', rfl, hA', hB'⟩ := List.sublist_append_iff.mp hs
  refine ⟨⟨A', B', rfl, hA.sublist hA', hB.sublist hB', fun a ha b hb => ?_⟩, fun r hr => ?_⟩
  · exact hAB a (hA'.subset ha) b (hB'.subset hb)
  · exact h.range r (hs.subset hr)

/-- The blocks do not overlap. -/
theorem apart (h : Wound lo hi l) : l.Pairwise Run.Apart := by
  obtain ⟨A, B, rfl, hA, hB, hAB⟩ := h.exists_wrap
  refine List.pairwise_append.mpr ⟨hA.imp Or.inl, hB.imp Or.inl, fun a ha b hb => ?_⟩
  exact Or.inr (hAB a ha b hb).1

end Wound

/-! ## Going on behind the last block -/

namespace Ascending

theorem stop_le (h : Ascending l) (hz : l.getLast? = some z) (hr : r ∈ l) : r.stop ≤ z.stop := by
  obtain ⟨l', rfl⟩ := List.getLast?_eq_some_iff.mp hz
  rcases List.mem_append.mp hr with hr | hr
  · have h₁ : r.stop ≤ z.start := (List.pairwise_append.mp h).2.2 r hr z List.mem_cons_self
    exact h₁.trans z.start_le_stop
  · rw [List.mem_singleton.mp hr]

theorem start_le (h : Ascending l) (ha : l.head? = some a) (hr : r ∈ l) : a.start ≤ r.start := by
  obtain ⟨l', rfl⟩ := List.head?_eq_some_iff.mp ha
  rcases List.mem_cons.mp hr with rfl | hr
  · exact le_rfl
  · exact a.start_le_stop.trans ((List.pairwise_cons.mp h).1 r hr)

theorem concat (h : Ascending l) (hz : ∀ z, l.getLast? = some z → z.stop ≤ r.start) :
    Ascending (l ++ [r]) := by
  refine List.pairwise_append.mpr ⟨h, List.pairwise_singleton _ _, fun b hb c hc => ?_⟩
  obtain rfl := List.mem_singleton.mp hc
  cases hl : l.getLast? with
  | none => simp [List.getLast?_eq_none_iff.mp hl] at hb
  | some z => exact (h.stop_le hl hb).trans (hz z hl)

end Ascending

namespace Wound

/-- The blocks do not go round the end when the last one is not below the first one. -/
theorem ascending (h : Wound lo hi l) (ha : l.head? = some a) (hz : l.getLast? = some z)
    (hle : a.start ≤ z.start) : Ascending l := by
  obtain ⟨A, B, rfl, hA, hB, hAB⟩ := h.exists_wrap
  cases A with
  | nil => exact hB
  | cons a' A =>
      obtain rfl : a' = a := by simpa using ha
      cases hBz : B.getLast? with
      | none =>
          rw [List.getLast?_eq_none_iff.mp hBz, List.append_nil]
          exact hA
      | some b =>
          -- the last block is below the first one
          have hbz : b = z := by
            rw [List.getLast?_append, hBz] at hz
            exact Option.some.inj hz
          have h₁ := (hAB a' List.mem_cons_self b (List.mem_of_getLast? hBz)).2
          rw [← hbz] at hle
          omega

/-- The blocks go round the end when the last one is below the first one. -/
theorem wrapped (h : Wound lo hi l) (ha : l.head? = some a) (hz : l.getLast? = some z)
    (hlt : z.start < a.start) : ∃ A B, l = A ++ B ∧ Ascending A ∧ Ascending B ∧
      (∀ x ∈ A, ∀ b ∈ B, b.stop ≤ x.start ∧ b.start < x.start) ∧ A.head? = some a ∧
      B.getLast? = some z := by
  obtain ⟨A, B, rfl, hA, hB, hAB⟩ := h.exists_wrap
  have hmono : ∀ l', Ascending l' → l'.head? = some a → l'.getLast? = some z → a.start ≤ z.start :=
    fun l' hl' ha' hz' => hl'.start_le ha' (List.mem_of_getLast? hz')
  cases A with
  | nil =>
      have h₁ := hmono _ hB ha hz
      omega
  | cons a' A =>
      have ha' : (a' :: A).head? = some a := ha
      cases hBz : B.getLast? with
      | none =>
          rw [List.getLast?_eq_none_iff.mp hBz, List.append_nil] at hz
          have h₁ := hmono _ hA ha' hz
          omega
      | some b =>
          have hbz : B.getLast? = some z := by
            rw [List.getLast?_append, hBz] at hz
            exact hBz.trans hz
          exact ⟨a' :: A, B, rfl, hA, hB, hAB, ha', hbz⟩

/-- In blocks that go round the end there is room between the last and the first one. -/
theorem stop_le_of_wrapped (h : Wound lo hi l) (ha : l.head? = some a) (hz : l.getLast? = some z)
    (hlt : z.start < a.start) : z.stop ≤ a.start := by
  obtain ⟨A, B, -, -, -, hAB, hA, hB⟩ := h.wrapped ha hz hlt
  exact (hAB a (List.mem_of_head? hA) z (List.mem_of_getLast? hB)).1

theorem concat_of (h : Wound lo hi l) (hlo : lo ≤ r.start) (hhi : r.stop ≤ hi)
    {A B : List Run} (hl : l ++ [r] = A ++ B) (hA : Ascending A) (hB : Ascending B)
    (hAB : ∀ a ∈ A, ∀ b ∈ B, b.stop ≤ a.start ∧ b.start < a.start) : Wound lo hi (l ++ [r]) := by
  refine ⟨⟨A, B, hl, hA, hB, hAB⟩, fun s hs => ?_⟩
  rcases List.mem_append.mp hs with hs | hs
  · exact h.range s hs
  · rw [List.mem_singleton.mp hs]
    exact ⟨hlo, hhi⟩

/-- The first block. -/
theorem singleton (hlo : lo ≤ r.start) (hhi : r.stop ≤ hi) : Wound lo hi [r] :=
  nil.concat_of hlo hhi (A := [r]) (B := []) rfl (List.pairwise_singleton _ _)
    List.Pairwise.nil (by simp)

/-- **A block behind the last one**, up to the end of the buffer. -/
theorem concat_behind (h : Wound lo hi l) (ha : l.head? = some a) (hz : l.getLast? = some z)
    (hle : a.start ≤ z.start) (hr : z.stop ≤ r.start) (hhi : r.stop ≤ hi) :
    Wound lo hi (l ++ [r]) := by
  have hasc := h.ascending ha hz hle
  have hlo := (h.range z (List.mem_of_getLast? hz)).1
  have hzr := z.start_le_stop
  refine h.concat_of (by omega) hhi (A := l ++ [r]) (B := []) (by simp) ?_ List.Pairwise.nil
    (by simp)
  refine hasc.concat fun z' hz' => ?_
  obtain rfl : z = z' := by simpa [hz] using hz'
  exact hr

/-- **A block in front of the first one**: from now on the blocks go round the end. -/
theorem concat_front (h : Wound lo hi l) (ha : l.head? = some a) (hz : l.getLast? = some z)
    (hle : a.start ≤ z.start) (hlo : lo ≤ r.start) (hr : r.stop ≤ a.start)
    (hra : r.start < a.start) : Wound lo hi (l ++ [r]) := by
  have hasc := h.ascending ha hz hle
  have hhi := (h.range a (List.mem_of_head? ha)).2
  have har := a.start_le_stop
  refine h.concat_of hlo (by omega) rfl hasc (List.pairwise_singleton _ _) fun x hx b hb => ?_
  have h₁ := hasc.start_le ha hx
  rw [List.mem_singleton.mp hb]
  exact ⟨hr.trans h₁, hra.trans_le h₁⟩

/-- **A block between the last one and the first one** of blocks that go round the end. -/
theorem concat_between (h : Wound lo hi l) (ha : l.head? = some a) (hz : l.getLast? = some z)
    (hlt : z.start < a.start) (hr : z.stop ≤ r.start) (hra : r.stop ≤ a.start)
    (hlt' : r.start < a.start) : Wound lo hi (l ++ [r]) := by
  obtain ⟨A, B, rfl, hA, hB, hAB, hAa, hBz⟩ := h.wrapped ha hz hlt
  have hlo := (h.range z (List.mem_of_getLast? hz)).1
  have hhi := (h.range a (List.mem_of_head? ha)).2
  have hzr := z.start_le_stop
  have har := a.start_le_stop
  refine h.concat_of (by omega) (by omega) (List.append_assoc A B [r]) hA ?_ fun x hx b hb => ?_
  · refine hB.concat fun z' hz' => ?_
    obtain rfl : z = z' := by simpa [hBz] using hz'
    exact hr
  · rcases List.mem_append.mp hb with hb | hb
    · exact hAB x hx b hb
    · have h₁ := hA.start_le hAa hx
      rw [List.mem_singleton.mp hb]
      exact ⟨hra.trans h₁, hlt'.trans_le h₁⟩

end Wound

/-! ## Descents -/

/-- How often an address is below the one in front of it. -/
def descents : List Nat → Nat
  | a :: b :: l => (if b < a then 1 else 0) + descents (b :: l)
  | _ => 0

theorem descents_append_le (l l' : List Nat) :
    descents (l ++ l') ≤ descents l + descents l' + 1 := by
  induction l with
  | nil =>
      rw [List.nil_append]
      omega
  | cons a l ih =>
      cases l with
      | nil =>
          cases l' with
          | nil => exact Nat.zero_le _
          | cons b l' =>
              show (if b < a then 1 else 0) + descents (b :: l') ≤ 0 + descents (b :: l') + 1
              split_ifs <;> omega
      | cons b l =>
          show (if b < a then 1 else 0) + descents (b :: l ++ l') ≤
            (if b < a then 1 else 0) + descents (b :: l) + descents l' + 1
          omega

theorem Ascending.descents_eq (h : Ascending l) : descents (l.map Run.start) = 0 := by
  induction l with
  | nil => rfl
  | cons a l ih =>
      obtain ⟨ha, hl⟩ := List.pairwise_cons.mp h
      cases l with
      | nil => rfl
      | cons b l =>
          have h₁ : a.stop ≤ b.start := ha b List.mem_cons_self
          have h₂ : a.start ≤ a.stop := Nat.le_add_right _ _
          show (if b.start < a.start then 1 else 0) + descents ((b :: l).map Run.start) = 0
          rw [ih hl, if_neg (by omega)]

/-- The addresses go down at most once. -/
theorem Ringed.descents_le (h : Ringed lo hi l) : descents (l.map Run.start) ≤ 1 := by
  obtain ⟨A, B, rfl, hA, hB, -⟩ := h.exists_wrap
  have h₁ := descents_append_le (A.map Run.start) (B.map Run.start)
  rw [hA.descents_eq, hB.descents_eq] at h₁
  rw [List.map_append]
  exact h₁

end Runs
