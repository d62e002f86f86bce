import RTThread.Lib.Handles
import RTThread.SmallMem.Holes

set_option autoImplicit false

/-! # `rt_malloc`

The search walks the blocks from `lfree` on and finds a free block that is large enough, or reaches
the end of the region. The block found is marked, and split when its end can hold another block.
-/

namespace RTThread.SmallMem

variable {m m' : Mem} {E : Nat} {rest rest' l : List Nat} {a b p x mem size : Nat} {h h' : Heap}

/-! ## The walks along the blocks -/

/-- Where a walk can be: at a block, or at the last header. -/
theorem Wf.next_pos (w : Wf m E rest) (ha : a ∈ E :: 0 :: rest) :
    m.get .next a ∈ E :: 0 :: rest := by
  rcases List.mem_cons.mp ha with rfl | ha
  · rw [w.end_next]
    exact List.mem_cons_self
  · rcases w.next_mem ha with hn | hn
    · exact List.mem_cons_of_mem _ (List.mem_cons_of_mem _ hn)
    · exact hn ▸ List.mem_cons_self

/-- The blocks a walk from `a` visits are those not below `a`. -/
theorem Wf.exists_path (w : Wf m E rest) (ha : a ∈ 0 :: rest) :
    ∃ l, Dll.Path (m.get .next) a l E ∧ (∀ b ∈ a :: l, b ∈ 0 :: rest) ∧
      l.length ≤ rest.length ∧ ∀ b ∈ 0 :: rest, a ≤ b → b ∈ a :: l := by
  obtain ⟨l₁, l₂, rfl, rfl⟩ := Dll.exists_position ha
  refine ⟨l₂, w.path.from_last, fun b hb => ?_, by simp, fun b hb hab => ?_⟩
  · rcases List.mem_cons.mp hb with rfl | hb
    · exact ha
    · exact List.mem_cons_of_mem _ (List.mem_append_right _ hb)
  · rcases List.mem_append.mp (show b ∈ (0 :: l₁) ++ l₂ from hb) with hb₁ | hb₂
    · -- a block of the first part is not behind its last one
      have h₁ : ((0 :: l₁) ++ (l₂ ++ [E])).Pairwise (· < ·) := by
        have h₂ := w.sorted
        rwa [List.append_assoc] at h₂
      have h₃ := (List.pairwise_append.mp h₁).1
      have h₄ : b ≤ Dll.lastOf 0 l₁ := Dll.le_lastOf h₃ hb₁
      exact (le_antisymm hab h₄) ▸ List.mem_cons_self
    · exact List.mem_cons_of_mem _ hb₂

/-- What the search finds is a free block that is large enough. -/
theorem Wf.searchFree_some (w : Wf h.mem h.heapEnd rest) {fuel : Nat}
    (ha : a ∈ h.heapEnd :: 0 :: rest) (hs : searchFree h size fuel a = some (some p)) :
    p ∈ 0 :: rest ∧ h.mem.get .used p = 0 ∧ p + SIZEOF_STRUCT_MEM + size ≤ h.mem.get .next p := by
  induction fuel generalizing a with
  | zero => exact absurd hs (by simp [searchFree])
  | succ fuel ih =>
      rw [searchFree] at hs
      split_ifs at hs with h₁ h₂
      · cases hs
        have hp : p ∈ 0 :: rest := by
          rcases List.mem_cons.mp ha with rfl | ha
          · exact absurd h₂.1 w.end_used
          · exact ha
        refine ⟨hp, h₂.1, ?_⟩
        have h₃ := w.gap p hp
        have h₄ := w.next_le_end hp
        have h₅ := h₂.2
        unfold SIZEOF_STRUCT_MEM Memheap.sub32 Memheap.u32 at *
        omega
      · exact ih (w.next_pos ha) hs
      · cases hs

/-- The search ends when no block is looked at behind the region. -/
theorem searchFree_isSome (hend : ¬ h.heapEnd < Memheap.sub32 h.memSizeAligned size) {fuel : Nat}
    (hp : Dll.Path (h.mem.get .next) a l h.heapEnd) (hfuel : l.length + 2 ≤ fuel) :
    (searchFree h size fuel a).isSome := by
  induction l generalizing a fuel with
  | nil =>
      obtain ⟨fuel, rfl⟩ : ∃ n, fuel = n + 2 := ⟨fuel - 2, by simp at hfuel; omega⟩
      have hn : h.mem.get .next a = h.heapEnd := hp
      rw [searchFree]
      split_ifs
      · rfl
      · rw [hn, searchFree, if_neg hend]
        rfl
      · rfl
  | cons y l ih =>
      obtain ⟨fuel, rfl⟩ : ∃ n, fuel = n + 1 := ⟨fuel - 1, by simp at hfuel; omega⟩
      rw [searchFree]
      split_ifs
      · rfl
      · rw [hp.1]
        exact ih hp.2 (by simpa using hfuel)
      · rfl

/-- Where the walk stops. -/
theorem nextFree_stop (hc : ¬ (h.mem.get .used a ≠ 0 ∧ a ≠ h.heapEnd)) :
    a = h.heapEnd ∨ a ∈ a :: l ∧ h.mem.get .used a = 0 := by
  by_cases ha : a = h.heapEnd
  · exact Or.inl ha
  · exact Or.inr ⟨by simp, by_contra fun hu => hc ⟨hu, ha⟩⟩

/-- The walk to the lowest free block. -/
theorem nextFree_some {fuel : Nat} (hp : Dll.Path (h.mem.get .next) a l h.heapEnd)
    (hlt : ∀ c ∈ a :: l, c < h.mem.get .next c) (hfuel : l.length + 2 ≤ fuel) :
    ∃ b, nextFree h fuel a = some b ∧
      (b = h.heapEnd ∨ b ∈ a :: l ∧ h.mem.get .used b = 0) ∧
      ∀ c ∈ a :: l, h.mem.get .used c = 0 → b ≤ c := by
  induction l generalizing a fuel with
  | nil =>
      obtain ⟨fuel, rfl⟩ : ∃ n, fuel = n + 2 := ⟨fuel - 2, by simp at hfuel; omega⟩
      have hn : h.mem.get .next a = h.heapEnd := hp
      rw [nextFree]
      split_ifs with hc
      · rw [hn, nextFree, if_neg fun hc => hc.2 rfl]
        refine ⟨_, rfl, Or.inl rfl, fun c hca hcu => ?_⟩
        exact absurd ((List.mem_singleton.mp hca) ▸ hcu) hc.1
      · exact ⟨a, rfl, nextFree_stop hc, fun c hca _ => (List.mem_singleton.mp hca).ge⟩
  | cons y l ih =>
      obtain ⟨fuel, rfl⟩ : ∃ n, fuel = n + 1 := ⟨fuel - 1, by simp at hfuel; omega⟩
      have hlt' : ∀ c ∈ y :: l, c < h.mem.get .next c := fun c hc =>
        hlt c (List.mem_cons_of_mem _ hc)
      rw [nextFree]
      split_ifs with hc
      · rw [hp.1]
        obtain ⟨b, hb, hor, hlow⟩ := ih hp.2 hlt' (by simpa using hfuel)
        refine ⟨b, hb, hor.imp_right fun h => ⟨List.mem_cons_of_mem _ h.1, h.2⟩, fun c hca hcu => ?_⟩
        rcases List.mem_cons.mp hca with rfl | hca
        · exact absurd hcu hc.1
        · exact hlow c hca hcu
      · refine ⟨a, rfl, nextFree_stop hc, fun c hca _ => ?_⟩
        rcases List.mem_cons.mp hca with rfl | hca
        · exact le_rfl
        · have h₁ := hp.2.pairwise_lt hlt'
          have h₂ : y ≤ c := by
            rcases List.mem_cons.mp hca with rfl | hca
            · exact le_rfl
            · exact ((List.pairwise_cons.mp h₁).1 c (List.mem_append_left _ hca)).le
          have h₃ := hlt a List.mem_cons_self
          rw [hp.1] at h₃
          omega

/-! ## Marking a block -/

section Mark

variable {v : Nat}

theorem Wf.get_setUsed (w : Wf m E rest) {f : Field} (hm : mem ∈ 0 :: rest)
    (hb : b ∈ E :: 0 :: rest) :
    (m.set .used mem v).get f b = if f = .used ∧ b = mem then v else m.get f b :=
  Mem.get_set (w.apart (List.mem_cons_of_mem _ hm) hb)

/-- Marking a block moves no link. -/
theorem Wf.setUsed (w : Wf m E rest) (hm : mem ∈ 0 :: rest) : Wf (m.set .used mem v) E rest := by
  have hget : ∀ f, f ≠ .used → ∀ b ∈ E :: 0 :: rest,
      (m.set .used mem v).get f b = m.get f b := fun f hf b hb => by
    rw [w.get_setUsed hm hb, if_neg fun hc => hf hc.1]
  have hblock : ∀ f, f ≠ .used → ∀ b ∈ 0 :: rest, (m.set .used mem v).get f b = m.get f b :=
    fun f hf b hb => hget f hf b (List.mem_cons_of_mem _ hb)
  have hnext := hblock .next (by simp)
  refine ⟨w.path.congr hnext, fun b hb => ?_, fun b hb hbE => ?_, ?_, w.aligned, fun b hb => ?_,
    w.end_aligned, ?_, ?_⟩
  · rw [hnext b hb]
    exact w.gap b hb
  · rw [hnext b hb] at hbE ⊢
    have hn := (w.next_mem hb).resolve_right hbE
    rw [hblock .prev (by simp) _ (List.mem_cons_of_mem _ hn)]
    exact w.prev b hb hbE
  · rw [hblock .prev (by simp) 0 (by simp)]
    exact w.prev_zero
  · rw [hblock .magic (by simp) b hb]
    exact w.magic b hb
  · rw [w.get_setUsed hm List.mem_cons_self, if_neg fun hc => (w.lt_end hm).ne hc.2.symm]
    exact w.end_used
  · rw [hget .next (by simp) E List.mem_cons_self]
    exact w.end_next

/-- Marking a block changes the space in use by the space of the block. -/
theorem Wf.usedBytes_setUsed (w : Wf m E rest) (hm : mem ∈ 0 :: rest) :
    usedBytes (m.set .used mem v) (0 :: rest) + usedSize m mem =
      usedBytes m (0 :: rest) + usedSize (m.set .used mem v) mem := by
  refine sum_map_update w.nodup hm fun b hb hbm => ?_
  have hb' : b ∈ E :: 0 :: rest := List.mem_cons_of_mem _ hb
  have hu : (m.set .used mem v).get .used b = m.get .used b := by
    rw [w.get_setUsed hm hb', if_neg fun hc => hbm hc.2]
  have hn : (m.set .used mem v).get .next b = m.get .next b := by
    rw [w.get_setUsed hm hb', if_neg (by simp)]
  unfold usedSize
  rw [hu, hn]

end Mark

/-! ## Splitting a block -/

namespace Carved

variable (c : Carved m E rest m' rest' mem x)

include c

theorem sub (hb : b ∈ 0 :: rest) : b ∈ 0 :: rest' :=
  c.perm.mem_iff.mpr (List.mem_cons_of_mem _ hb)

theorem mem_or (hb : b ∈ 0 :: rest') : b = x ∨ b ∈ 0 :: rest :=
  List.mem_cons.mp (c.perm.mem_iff.mp hb)

/-- The new block is free; the space in use changes with the block it is carved off. -/
theorem usedBytes_add (w : Wf m E rest) (hm : mem ∈ 0 :: rest) :
    usedBytes m' (0 :: rest') + usedSize m mem =
      usedBytes m (0 :: rest) + usedSize m' mem := by
  have hnew : usedSize m' x = 0 := if_pos c.free
  have hsum : usedBytes m' (0 :: rest') = usedBytes m' (0 :: rest) := by
    rw [usedBytes_perm c.perm, usedBytes_cons (a := x), hnew, Nat.zero_add]
  rw [hsum]
  refine sum_map_update w.nodup hm fun b hb hbm => ?_
  unfold usedSize
  rw [c.used b (List.mem_cons_of_mem _ hb) hbm, c.next b hb, if_neg hbm]

/-- No block but the new one can be free in front of a free block. -/
theorem noFreeBehind (w : Wf m E rest) (hadj : ∀ a ∈ 0 :: rest, NoFreeBehind m a)
    (hu : m'.get .used mem ≠ 0) (ha : a ∈ 0 :: rest') (hax : a ≠ x) : NoFreeBehind m' a := by
  intro hau
  have hab := (c.mem_or ha).resolve_left hax
  have ham : a ≠ mem := fun e => hu (e ▸ hau)
  rw [c.used a (List.mem_cons_of_mem _ hab) ham] at hau
  rw [c.next a hab, if_neg ham]
  by_cases hn : m.get .next a = mem
  · rw [hn]
    exact hu
  · rw [c.used _ (w.next_pos (List.mem_cons_of_mem _ hab)) hn]
    exact hadj a hab hau

end Carved

/-! ## Taking a block -/

theorem updateMax_setUsed (h : Heap) (v : Nat) : (h.setUsed v).updateMax =
    { h with usedMem := v, maxMem := max h.maxMem v, usedLog := v :: h.usedLog } := by
  unfold Heap.updateMax Heap.setUsed
  dsimp only
  split_ifs with hlt
  · rw [max_eq_right hlt.le]
  · rw [max_eq_left (not_lt.mp hlt)]

theorem linkBack_eq (hE : h.heapEnd = Memheap.u32 (h.memSizeAligned + SIZEOF_STRUCT_MEM)) :
    linkBack h x = { h with mem := linkBackMem h.mem h.heapEnd x } := by
  unfold linkBack linkBackMem
  rw [← hE]
  split_ifs <;> rfl

/-- The last header, as the code computes it. -/
theorem Base.u32_heapEnd (i : Base h rest) :
    h.heapEnd = Memheap.u32 (h.memSizeAligned + SIZEOF_STRUCT_MEM) := by
  have h₁ := i.lt
  rw [i.heapEnd, Memheap.u32, Nat.mod_eq_of_lt]
  have h₂ := i.heapEnd
  omega

/-- The variables that no call changes. -/
structure SameHeap (h h' : Heap) : Prop where
  heapPtr : h'.heapPtr = h.heapPtr
  heapEnd : h'.heapEnd = h.heapEnd
  memSizeAligned : h'.memSizeAligned = h.memSizeAligned

/-- The free block `mem` is marked; `lfree` is not updated yet. -/
structure Marked (h : Heap) (rest : List Nat) (h' : Heap) (rest' : List Nat) (mem size : Nat) :
    Prop where
  wf : Wf h'.mem h'.heapEnd rest'
  adj : ∀ a ∈ 0 :: rest', NoFreeBehind h'.mem a
  usedMem : h'.usedMem = usedBytes h'.mem (0 :: rest')
  maxMem : h'.maxMem = h'.usedLog.foldr max 0
  used_le : h'.usedMem ≤ h'.maxMem
  same : SameHeap h h'
  lfree : h'.lfree = h.lfree
  heapSem : h'.heapSem = h.heapSem
  used_iff : ∀ b, Used h'.mem rest' b ↔ Used h.mem rest b ∨ b = mem
  next : ∀ b, Used h.mem rest b → h'.mem.get .next b = h.mem.get .next b
  room : mem + SIZEOF_STRUCT_MEM + size ≤ h'.mem.get .next mem
  free : ∀ b ∈ 0 :: rest, h.mem.get .used b = 0 → b ≠ mem →
    b ∈ 0 :: rest' ∧ h'.mem.get .used b = 0
  free_or : ∀ b ∈ 0 :: rest', h'.mem.get .used b = 0 →
    b ∈ 0 :: rest ∧ h.mem.get .used b = 0 ∨ mem < b

theorem Base.mallocSplit (i : Base h rest) (hadj : ∀ a ∈ 0 :: rest, NoFreeBehind h.mem a)
    (hm : mem ∈ 0 :: rest) (hu : h.mem.get .used mem = 0) (hal : size % 4 = 0)
    (hfit : mem + SIZEOF_STRUCT_MEM + size + SIZEOF_STRUCT_MEM ≤ h.mem.get .next mem) :
    ∃ rest', Marked h rest (SmallMem.mallocSplit h mem size) rest' mem size := by
  have hle := i.wf.next_le_end hm
  have hlt := i.lt
  have hu32 : Memheap.u32 (mem + SIZEOF_STRUCT_MEM + size) = mem + SIZEOF_STRUCT_MEM + size := by
    unfold Memheap.u32 SIZEOF_STRUCT_MEM at *
    omega
  set x := mem + SIZEOF_STRUCT_MEM + size with hx
  have h₁ : mem + SIZEOF_STRUCT_MEM ≤ x := Nat.le_add_right ..
  have hxal : x % 4 = 0 := by
    have h₂ := i.wf.aligned mem hm
    unfold SIZEOF_STRUCT_MEM at hx
    omega
  have hxm : x ≠ mem := by
    unfold SIZEOF_STRUCT_MEM at h₁
    omega
  have hsep := i.wf.apart_cons hm h₁ hfit
  have hbuilt : Built (x :: h.heapEnd :: 0 :: rest) h.mem ((carve h.mem mem x).set .used mem 1)
      mem x 1 :=
    built_carve_used hsep List.mem_cons_self
      (List.mem_cons_of_mem _ (List.mem_cons_of_mem _ hm)) hxm
  obtain ⟨rest', c, hmu⟩ := i.wf.carve hm h₁ hfit hxal hbuilt
  set m' := linkBackMem ((carve h.mem mem x).set .used mem 1) h.heapEnd x with hm'
  -- the counter
  have hbytes := c.usedBytes_add i.wf hm
  have hsize₀ : usedSize h.mem mem = 0 := if_pos hu
  have hnm : m'.get .next mem = x := by
    rw [c.next mem hm, if_pos rfl]
  have hsize₁ : usedSize m' mem = size + SIZEOF_STRUCT_MEM := by
    unfold usedSize
    rw [if_neg (by rw [hmu]; decide), hnm]
    omega
  have hused := i.usedMem
  have hbound := c.wf.usedBytes_le
  have hsum : Memheap.u32 (h.usedMem + (size + SIZEOF_STRUCT_MEM)) = usedBytes m' (0 :: rest') := by
    unfold Memheap.u32
    omega
  have heq : SmallMem.mallocSplit h mem size = { h with
      mem := m', usedMem := usedBytes m' (0 :: rest')
      maxMem := max h.maxMem (usedBytes m' (0 :: rest'))
      usedLog := usedBytes m' (0 :: rest') :: h.usedLog } := by
    simp only [SmallMem.mallocSplit, ← hx, hu32]
    rw [linkBack_eq (by exact i.u32_heapEnd), updateMax_setUsed]
    simp only [hsum, ← hm']
  rw [heq]
  refine ⟨rest', c.wf, fun a ha => ?_, rfl, ?_, le_max_right _ _, ⟨rfl, rfl, rfl⟩, rfl, rfl,
    fun b => ?_, fun b hb => ?_, hnm.ge, fun b hb hbu hbm => ?_, fun b hb hbu => ?_⟩
  · by_cases hax : a = x
    · -- the block behind the new one is the one that was behind `mem`
      intro _
      have hnn : h.mem.get .next mem ≠ mem := (i.wf.lt_next hm).ne'
      change m'.get .used (m'.get .next a) ≠ 0
      rw [hax, c.next_new, c.used _ (i.wf.next_pos (List.mem_cons_of_mem _ hm)) hnn]
      exact hadj mem hm hu
    · exact c.noFreeBehind i.wf hadj (by rw [hmu]; decide) ha hax
  · rw [List.foldr_cons, ← i.maxMem, max_comm]
  · constructor
    · rintro ⟨hb, hbu⟩
      by_cases hbm : b = mem
      · exact Or.inr hbm
      · have hbx : b ≠ x := fun e => hbu (e ▸ c.free)
        have hb' := (c.mem_or hb).resolve_left hbx
        change m'.get .used b ≠ 0 at hbu
        rw [c.used b (List.mem_cons_of_mem _ hb') hbm] at hbu
        exact Or.inl ⟨hb', hbu⟩
    · rintro (⟨hb, hbu⟩ | rfl)
      · have hbm : b ≠ mem := fun e => hbu (e ▸ hu)
        refine ⟨c.sub hb, ?_⟩
        change m'.get .used b ≠ 0
        rw [c.used b (List.mem_cons_of_mem _ hb) hbm]
        exact hbu
      · refine ⟨c.sub hm, ?_⟩
        change m'.get .used b ≠ 0
        rw [hmu]
        decide
  · have hbm : b ≠ mem := fun e => hb.2 (e ▸ hu)
    change m'.get .next b = _
    rw [c.next b hb.1, if_neg hbm]
  · exact ⟨c.sub hb, (c.used b (List.mem_cons_of_mem _ hb) hbm).trans hbu⟩
  · rcases c.mem_or hb with hbx | hb'
    · exact Or.inr (by omega)
    · have hbm : b ≠ mem := fun e => by
        change m'.get .used b = 0 at hbu
        rw [e, hmu] at hbu
        exact absurd hbu (by decide)
      exact Or.inl ⟨hb', (c.used b (List.mem_cons_of_mem _ hb') hbm) ▸ hbu⟩

theorem Base.mallocWhole (i : Base h rest) (hadj : ∀ a ∈ 0 :: rest, NoFreeBehind h.mem a)
    (hm : mem ∈ 0 :: rest) (hu : h.mem.get .used mem = 0)
    (hfit : mem + SIZEOF_STRUCT_MEM + size ≤ h.mem.get .next mem) :
    Marked h rest (SmallMem.mallocWhole h mem) rest mem size := by
  have hle := i.wf.next_le_end hm
  have hlt := i.lt
  have hlt' := i.wf.lt_next hm
  have w := i.wf.setUsed (v := 1) hm
  set m' := h.mem.set .used mem 1 with hm'
  have hget : ∀ f, ∀ b ∈ h.heapEnd :: 0 :: rest, m'.get f b =
      if f = .used ∧ b = mem then 1 else h.mem.get f b := fun f b hb =>
    i.wf.get_setUsed hm hb
  have hnext : ∀ b ∈ 0 :: rest, m'.get .next b = h.mem.get .next b := fun b hb => by
    rw [hget _ b (List.mem_cons_of_mem _ hb), if_neg (by simp)]
  have hmu : m'.get .used mem = 1 := by
    rw [hget _ mem (List.mem_cons_of_mem _ hm), if_pos ⟨rfl, rfl⟩]
  have hother : ∀ b ∈ h.heapEnd :: 0 :: rest, b ≠ mem → m'.get .used b = h.mem.get .used b :=
    fun b hb hbm => by rw [hget _ b hb, if_neg fun hc => hbm hc.2]
  have hbytes := i.wf.usedBytes_setUsed (v := 1) hm
  rw [← hm'] at hbytes
  have hsize₀ : usedSize h.mem mem = 0 := if_pos hu
  have hsize₁ : usedSize m' mem = h.mem.get .next mem - mem := by
    unfold usedSize
    rw [if_neg (by rw [hmu]; decide), hnext mem hm]
  have hused := i.usedMem
  have hbound := w.usedBytes_le
  have hsum : Memheap.u32 (h.usedMem + Memheap.sub32 (m'.get .next mem) mem) =
      usedBytes m' (0 :: rest) := by
    rw [hnext mem hm]
    unfold Memheap.sub32 Memheap.u32
    omega
  have heq : SmallMem.mallocWhole h mem = { h with
      mem := m', usedMem := usedBytes m' (0 :: rest)
      maxMem := max h.maxMem (usedBytes m' (0 :: rest))
      usedLog := usedBytes m' (0 :: rest) :: h.usedLog } := by
    unfold SmallMem.mallocWhole
    simp only [← hm', updateMax_setUsed, hsum]
  rw [heq]
  refine ⟨w, fun a ha hau => ?_, rfl, ?_, le_max_right _ _, ⟨rfl, rfl, rfl⟩, rfl, rfl,
    fun b => ?_, fun b hb => hnext b hb.1, (hnext mem hm).symm ▸ hfit, fun b hb hbu hbm => ?_,
    fun b hb hbu => Or.inl ⟨hb, ?_⟩⟩
  · change m'.get .used a = 0 at hau
    change m'.get .used (m'.get .next a) ≠ 0
    have ham : a ≠ mem := fun e => by
      rw [e, hmu] at hau
      exact absurd hau (by decide)
    rw [hnext a ha]
    by_cases hn : h.mem.get .next a = mem
    · rw [hn, hmu]
      decide
    · rw [hother _ (i.wf.next_pos (List.mem_cons_of_mem _ ha)) hn]
      exact hadj a ha ((hother a (List.mem_cons_of_mem _ ha) ham) ▸ hau)
  · rw [List.foldr_cons, ← i.maxMem, max_comm]
  · constructor
    · rintro ⟨hb, hbu⟩
      by_cases hbm : b = mem
      · exact Or.inr hbm
      · change m'.get .used b ≠ 0 at hbu
        rw [hother b (List.mem_cons_of_mem _ hb) hbm] at hbu
        exact Or.inl ⟨hb, hbu⟩
    · rintro (⟨hb, hbu⟩ | rfl)
      · have hbm : b ≠ mem := fun e => hbu (e ▸ hu)
        refine ⟨hb, ?_⟩
        change m'.get .used b ≠ 0
        rw [hother b (List.mem_cons_of_mem _ hb) hbm]
        exact hbu
      · refine ⟨hm, ?_⟩
        change m'.get .used b ≠ 0
        rw [hmu]
        decide
  · exact ⟨hb, (hother b (List.mem_cons_of_mem _ hb) hbm).trans hbu⟩
  · by_cases hbm : b = mem
    · exact hbm ▸ hu
    · exact (hother b (List.mem_cons_of_mem _ hb) hbm) ▸ hbu

end RTThread.SmallMem
