import RTThread.Memheap.Free

set_option autoImplicit false

/-! # `rt_memheap_alloc`

The search walks the free list and stops at the first block that is big enough. A block that is
much too big is split and its end goes to the front of the free list; any other is taken whole.
-/

namespace RTThread.Memheap

variable {L : Layout} {m m' : Mem} {rest rest' fl fl' l : List Nat} {c h b x a fh size : Nat}

/-! ## The search -/

/-- `h` is the first block of the free list with room for `n` bytes. -/
def FirstFit (m : Mem) (fl : List Nat) (n h : Nat) : Prop :=
  ∃ l₁ l₂, fl = l₁ ++ h :: l₂ ∧ (∀ c ∈ l₁, blockSize m c < n) ∧ n ≤ blockSize m h

theorem FirstFit.mem (hf : FirstFit m fl size h) : h ∈ fl := by
  obtain ⟨l₁, l₂, rfl, -⟩ := hf
  simp

/-- The search returns the first item of the list that is big enough, or the head of the list
when there is none. The induction is on the items still to be looked at. -/
theorem searchFree_spec (hp : Dll.Path (m.get .nextFree) a l fh) (hfh : fh ∉ l) {fuel fs : Nat}
    (hfuel : l.length + 2 ≤ fuel) (hfs : fs < size) :
    ∃ x fs', searchFree m fh size fuel (m.get .nextFree a) fs = some (x, fs') ∧
      ((fs' < size ∧ ∀ c ∈ l, memitemSize m c < size) ∨
        ∃ l₁ l₂, l = l₁ ++ x :: l₂ ∧ (∀ c ∈ l₁, memitemSize m c < size) ∧
          fs' = memitemSize m x ∧ size ≤ fs') := by
  induction l generalizing a fuel fs with
  | nil =>
      obtain ⟨n, rfl⟩ : ∃ n, fuel = n + 1 := ⟨fuel - 1, by simp only [List.length_nil] at hfuel; omega⟩
      have hx : m.get .nextFree a = fh := hp
      refine ⟨fh, fs, ?_, Or.inl ⟨hfs, by simp⟩⟩
      rw [hx, searchFree, if_neg (fun hc => hc.1 rfl)]
  | cons y l ih =>
      simp only [List.length_cons] at hfuel
      obtain ⟨n, rfl⟩ : ∃ n, fuel = n + 1 := ⟨fuel - 1, by omega⟩
      have hy : m.get .nextFree a = y := hp.1
      have hne : y ≠ fh := fun e => hfh (by simp [e])
      rw [hy, searchFree, if_pos ⟨hne, hfs⟩]
      by_cases hlt : memitemSize m y < size
      · simp only [if_pos hlt]
        have hn : l.length + 2 ≤ n := by omega
        obtain ⟨x, fs', hs, hor⟩ := ih hp.2 (fun hc => hfh (by simp [hc])) hn hlt
        refine ⟨x, fs', hs, ?_⟩
        rcases hor with ⟨hsmall, hall⟩ | ⟨l₁, l₂, rfl, hall, hfit⟩
        · exact Or.inl ⟨hsmall, List.forall_mem_cons.mpr ⟨hlt, hall⟩⟩
        · exact Or.inr ⟨y :: l₁, l₂, rfl, List.forall_mem_cons.mpr ⟨hlt, hall⟩, hfit⟩
      · -- the block found ends the loop at the next test
        obtain ⟨n', rfl⟩ : ∃ n', n = n' + 1 := ⟨n - 1, by omega⟩
        simp only [if_neg hlt]
        refine ⟨y, memitemSize m y, ?_, Or.inr ⟨[], l, rfl, by simp, rfl, by omega⟩⟩
        rw [searchFree, if_neg (fun hc => hlt hc.2)]

/-- The fuel is enough: the free list is no longer than the pool. -/
theorem Inv.searchFree {p : Pool} (i : Inv L p rest fl) (hsize : 0 < size) :
    ∃ x fs, searchFree p.mem p.heap.freeList size (2 * p.heap.poolSize + 2)
        (p.mem.get .nextFree p.heap.freeList) 0 = some (x, fs) ∧
      ((fs < size ∧ ∀ c ∈ fl, blockSize p.mem c < size) ∨
        FirstFit p.mem fl size x ∧ fs = blockSize p.mem x ∧ size ≤ fs) := by
  have hnd := List.nodup_cons.mp i.wf.links.frees.nodup
  have hlen := (i.wf.total_le hnd.2 fun b hb => i.block hb).2
  have hfuel : fl.length + 2 ≤ 2 * p.heap.poolSize + 2 := by
    rw [i.heap.poolSize]
    unfold RT_MEMHEAP_SIZE at *
    omega
  rw [i.heap.freeList] at *
  have hsz : ∀ c ∈ fl, memitemSize p.mem c = blockSize p.mem c := fun c hc =>
    i.wf.memitemSize_eq (i.block hc).1 (i.block hc).2
  obtain ⟨x, fs, hs, hor⟩ := searchFree_spec i.wf.links.frees.next hnd.1 hfuel hsize
  refine ⟨x, fs, hs, ?_⟩
  rcases hor with ⟨hsmall, hall⟩ | ⟨l₁, l₂, hl, hall, hfs, hfit⟩
  · exact Or.inl ⟨hsmall, fun c hc => hsz c hc ▸ hall c hc⟩
  · have hx := hsz x (by simp [hl])
    refine Or.inr ⟨⟨l₁, l₂, hl, fun c hc => ?_, ?_⟩, hfs.trans hx, hfit⟩
    · rw [← hsz c (by simp [hl, hc])]
      exact hall c hc
    · rw [← hx, ← hfs]
      exact hfit

/-! ## Marking a block -/

theorem tag_or {v : Nat} (hv : v = RT_MEMHEAP_MAGIC ∨ v = RT_MEMHEAP_MAGIC ||| RT_MEMHEAP_USED) :
    v ||| RT_MEMHEAP_USED = RT_MEMHEAP_MAGIC ||| RT_MEMHEAP_USED := by
  rcases hv with rfl | rfl <;> decide

/-- `header->magic |= RT_MEMHEAP_USED`. -/
def markUsed (m : Mem) (h : Nat) : Mem := m.set .magic h (m.get .magic h ||| RT_MEMHEAP_USED)

theorem Wf.markUsed (w : Wf L m rest fl) (hh : h ∈ L.start :: rest) :
    Wf L (markUsed m h) rest fl := by
  refine w.setMagic hh (Or.inr ?_)
  exact tag_or (w.tag h hh)

theorem Wf.next_markUsed (w : Wf L m rest fl) (hh : h ∈ L.start :: rest) (hb : b ∈ L.start :: rest) :
    (Memheap.markUsed m h).get .next b = m.get .next b := by
  unfold Memheap.markUsed
  rw [Mem.get_set (w.links.sep _ (Links.mem_of_block hh) _ (Links.mem_of_block hb))]
  simp

theorem Wf.isUsed_markUsed (w : Wf L m rest fl) (hh : h ∈ L.start :: rest)
    (hb : b ∈ L.start :: rest) : isUsed (Memheap.markUsed m h) b ↔ isUsed m b ∨ b = h := by
  have hget := Mem.get_set (m := m) (f := .magic) (g := .magic)
    (v := m.get .magic h ||| RT_MEMHEAP_USED)
    (w.links.sep _ (Links.mem_of_block hh) _ (Links.mem_of_block hb))
  by_cases hbh : b = h
  · subst hbh
    refine iff_of_true ?_ (Or.inr rfl)
    unfold isUsed Memheap.markUsed
    rw [hget, tag_or (w.tag b hb)]
    simp only [true_and, if_true]
    decide
  · have hsame : isUsed (Memheap.markUsed m h) b ↔ isUsed m b := by
      refine isUsed_congr ?_
      unfold Memheap.markUsed
      rw [hget]
      simp [hbh]
    simp [hsame, hbh]

/-! ## The two ways to take a block -/

/-- A header that is built inside a free block. -/
def FreeAt (L : Layout) (m : Mem) (rest : List Nat) (x : Nat) : Prop :=
  ∃ g ∈ L.start :: rest, ¬ isUsed m g ∧ g ≤ x ∧ x + RT_MEMHEAP_SIZE ≤ m.get .next g

/-- The free block `h` is taken: the blocks in use are the old ones and `h`. -/
structure Taken (L : Layout) (m : Mem) (rest : List Nat) (m' : Mem) (rest' : List Nat) (h : Nat) :
    Prop where
  ne_tail : h ≠ L.tail
  fresh : ¬ Used L m rest h
  used : ∀ b, Used L m' rest' b ↔ Used L m rest b ∨ b = h
  next : ∀ b, Used L m rest b → m'.get .next b = m.get .next b

namespace Tiled

/-- Taking a free block whole. -/
theorem takeWhole (t : Tiled L m rest fl) (hh : h ∈ fl) :
    ∃ fl', Tiled L (markUsed (clearFree (unlinkFree m h) h) h) rest fl' ∧
      Taken L m rest (markUsed (clearFree (unlinkFree m h) h) h) rest h ∧
      (∀ b ∈ L.start :: rest,
        (markUsed (clearFree (unlinkFree m h) h) h).get .next b = m.get .next b) ∧
      total (markUsed (clearFree (unlinkFree m h) h) h) fl' + blockSize m h = total m fl ∧
      Edits L [] m rest (markUsed (clearFree (unlinkFree m h) h) h) rest := by
  have hb := t.block hh
  have hfree := ((t.free_iff h).mp hh).2
  obtain ⟨fl', hperm, w₁⟩ := t.wf.removeFree hh
  have hnd : (h :: fl').Nodup := hperm.nodup_iff.mp t.nodup
  have hhfl' : h ∉ fl' := (List.nodup_cons.mp hnd).1
  have hs : SameBlocks (L.start :: rest) m (clearFree (unlinkFree m h) h) :=
    (t.wf.sameBlocks_unlinkFree hh).trans (w₁.sameBlocks_clearFree hb.1)
  have w₂ := w₁.clearFree hb.1 hhfl'
  have w₃ := w₂.markUsed hb.1
  set m' := markUsed (clearFree (unlinkFree m h) h) h with hm'
  have hnext : ∀ b ∈ L.start :: rest, m'.get .next b = m.get .next b := fun b hb' => by
    rw [hm', w₂.next_markUsed hb.1 hb', (hs b hb').2.2.1]
  have hused : ∀ b ∈ L.start :: rest, (isUsed m' b ↔ isUsed m b ∨ b = h) := fun b hb' => by
    rw [hm', w₂.isUsed_markUsed hb.1 hb', isUsed_congr (hs b hb').1]
  have hmem : ∀ a, a ∈ fl ↔ a = h ∨ a ∈ fl' := fun a => by rw [hperm.mem_iff, List.mem_cons]
  refine ⟨fl', ⟨w₃, (hused _ t.wf.tail_mem).mpr (Or.inl t.tail_used), ?_, ?_⟩,
    ⟨hb.2, fun hu => hfree hu.2, ?_, fun b hu => hnext b hu.1⟩, hnext, ?_, ?_⟩
  · intro a
    constructor
    · intro ha
      have h1 := (t.free_iff a).mp ((hmem a).mpr (Or.inr ha))
      refine ⟨h1.1, fun hu => ?_⟩
      rcases (hused a h1.1).mp hu with h2 | rfl
      · exact h1.2 h2
      · exact hhfl' ha
    · rintro ⟨h1, h2⟩
      rw [hused a h1, not_or] at h2
      exact ((hmem a).mp ((t.free_iff a).mpr ⟨h1, h2.1⟩)).resolve_left h2.2
  · intro a ha
    have hafl := (hmem a).mpr (Or.inr ha)
    have h1 := (t.block hafl).1
    rw [hnext a h1, hused _ (t.wf.next_mem h1)]
    exact Or.inl (t.no_adjacent a hafl)
  · intro b
    constructor
    · rintro ⟨h1, h2⟩
      exact ((hused b h1).mp h2).imp_left fun h3 => ⟨h1, h3⟩
    · rintro (hu | rfl)
      · exact ⟨hu.1, (hused b hu.1).mpr (Or.inl hu.2)⟩
      · exact ⟨hb.1, (hused _ hb.1).mpr (Or.inr rfl)⟩
  · have h1 : total m' fl' = total m fl' := by
      unfold total blockSize
      rw [List.map_congr_left fun b hb' => by
        rw [hnext b (t.block ((hmem b).mpr (Or.inr hb'))).1]]
    have h2 : total m fl = blockSize m h + total m fl' := by
      simpa [total] using (hperm.map (blockSize m)).sum_eq
    omega
  · exact .of_touches (fun b hb' => (t.block hb').1) (((t.wf.links.touches_unlinkFree hh).trans
      (touches_clearFree (Links.mem_of_block hb.1))).trans (touches_set (Links.mem_of_block hb.1)))

/-- Taking the front of a free block and giving the rest back, where `x` is the header of the
rest. -/
theorem takeSplit (t : Tiled L m rest fl) (hh : h ∈ fl) (h₁ : h + RT_MEMHEAP_SIZE ≤ x)
    (h₂ : x + RT_MEMHEAP_SIZE ≤ m.get .next h) (hal : x % 4 = 0) {m' : Mem}
    (hm' : m' = markUsed (pushFree (clearFree (unlinkFree (splitBlock m L.heap h x) h) h)
      L.freeHeader x) h) :
    ∃ rest' fl', Tiled L m' rest' (x :: fl') ∧ Taken L m rest m' rest' h ∧ m'.get .next h = x ∧
      total m' (x :: fl') + (x - h) = total m fl ∧ Edits L [x] m rest m' rest' := by
  have hb := t.block hh
  have hfree := ((t.free_iff h).mp hh).2
  obtain ⟨rest', w₁, u⟩ := t.wf.split (fun b hb => (t.block hb).1) hb.1 hb.2 h₁ h₂ hal
  obtain ⟨fl', hperm, w₂⟩ := w₁.removeFree hh
  have hnd : (h :: fl').Nodup := hperm.nodup_iff.mp t.nodup
  have hhfl' : h ∉ fl' := (List.nodup_cons.mp hnd).1
  have hmem : ∀ a, a ∈ fl ↔ a = h ∨ a ∈ fl' := fun a => by rw [hperm.mem_iff, List.mem_cons]
  have hh' : h ∈ L.start :: rest' := (u.mem_iff h).mpr (Or.inr hb.1)
  have hx' : x ∈ L.start :: rest' := (u.mem_iff x).mpr (Or.inl rfl)
  have hxh : x ≠ h := fun e => u.notMem (e ▸ hb.1)
  have w₃ := w₂.clearFree hh' hhfl'
  have hxfl' : x ∉ L.freeHeader :: fl' := by
    rw [List.mem_cons, not_or]
    exact ⟨w₃.ne_freeHeader hx', fun hc => u.notMem (t.block ((hmem x).mpr (Or.inr hc))).1⟩
  have w₄ := w₃.pushFree hx' hxfl'
  have hs : SameBlocks (L.start :: rest') (splitBlock m L.heap h x)
      (pushFree (clearFree (unlinkFree (splitBlock m L.heap h x) h) h) L.freeHeader x) :=
    ((w₁.sameBlocks_unlinkFree hh).trans (w₂.sameBlocks_clearFree hh')).trans
      (w₃.sameBlocks_pushFree hx' hxfl')
  have w₅ := w₄.markUsed hh'
  rw [← hm'] at w₅
  have hnext : ∀ b ∈ L.start :: rest', m'.get .next b =
      if b = h then x else if b = x then m.get .next h else m.get .next b := fun b hb' => by
    rw [hm', w₄.next_markUsed hh' hb', (hs b hb').2.2.1, u.next b hb']
  have hused : ∀ b ∈ L.start :: rest, (isUsed m' b ↔ isUsed m b ∨ b = h) := fun b hb' => by
    have hb'' := (u.mem_iff b).mpr (Or.inr hb')
    rw [hm', w₄.isUsed_markUsed hh' hb'', isUsed_congr (hs b hb'').1, u.isUsed_iff hb']
  have hxfree : ¬ isUsed m' x := by
    rw [hm', w₄.isUsed_markUsed hh' hx', isUsed_congr (hs x hx').1, not_or]
    exact ⟨u.free, hxh⟩
  have hnext' : ∀ b ∈ L.start :: rest, b ≠ h → m'.get .next b = m.get .next b := fun b hb' hne => by
    have hbx : b ≠ x := fun e => u.notMem (e ▸ hb')
    rw [hnext b ((u.mem_iff b).mpr (Or.inr hb')), if_neg hne, if_neg hbx]
  refine ⟨rest', fl', ⟨w₅, (hused _ t.wf.tail_mem).mpr (Or.inl t.tail_used), ?_, ?_⟩,
    ⟨hb.2, fun hu => hfree hu.2, ?_, ?_⟩, ?_, ?_, ?_⟩
  · intro a
    rw [List.mem_cons, u.mem_iff]
    constructor
    · rintro (rfl | ha)
      · exact ⟨Or.inl rfl, hxfree⟩
      · have h3 := (t.free_iff a).mp ((hmem a).mpr (Or.inr ha))
        refine ⟨Or.inr h3.1, fun hu => ?_⟩
        rcases (hused a h3.1).mp hu with h4 | rfl
        · exact h3.2 h4
        · exact hhfl' ha
    · rintro ⟨rfl | h3, h4⟩
      · exact Or.inl rfl
      · rw [hused a h3, not_or] at h4
        exact Or.inr (((hmem a).mp ((t.free_iff a).mpr ⟨h3, h4.1⟩)).resolve_left h4.2)
  · intro a ha
    rcases List.mem_cons.mp ha with rfl | ha
    · rw [hnext a hx', if_neg hxh, if_pos rfl, hused _ (t.wf.next_mem hb.1)]
      exact Or.inl (t.no_adjacent h hh)
    · have hafl := (hmem a).mpr (Or.inr ha)
      have h3 := (t.block hafl).1
      rw [hnext' a h3 fun e => hhfl' (e ▸ ha), hused _ (t.wf.next_mem h3)]
      exact Or.inl (t.no_adjacent a hafl)
  · intro b
    constructor
    · rintro ⟨h3, h4⟩
      rcases (u.mem_iff b).mp h3 with rfl | h3
      · exact absurd h4 hxfree
      · exact ((hused b h3).mp h4).imp_left fun h5 => ⟨h3, h5⟩
    · rintro (hu | rfl)
      · exact ⟨(u.mem_iff b).mpr (Or.inr hu.1), (hused b hu.1).mpr (Or.inl hu.2)⟩
      · exact ⟨hh', (hused _ hb.1).mpr (Or.inr rfl)⟩
  · rintro b ⟨h3, h4⟩
    refine hnext' b h3 ?_
    rintro rfl
    exact hfree h4
  · rw [hnext h hh', if_pos rfl]
  · have h3 : total m' fl' = total m fl' := by
      unfold total blockSize
      rw [List.map_congr_left fun b hb' => by
        rw [hnext' b (t.block ((hmem b).mpr (Or.inr hb'))).1 fun e => hhfl' (e ▸ hb')]]
    have h5 : total m fl = blockSize m h + total m fl' := by
      simpa [total] using (hperm.map (blockSize m)).sum_eq
    have h6 : total m' (x :: fl') = blockSize m' x + total m' fl' := by simp [total]
    have h7 : blockSize m' x + (x - h) = blockSize m h := by
      unfold blockSize
      rw [hnext x hx', if_neg hxh, if_pos rfl]
      omega
    omega
  · have hfl : ∀ b ∈ fl, b ∈ L.start :: rest' := fun b hb' =>
      (u.mem_iff b).mpr (Or.inr (t.block hb').1)
    have he₁ := u.edits (fun b hb' => (t.block hb').1) (t.wf.links.touches_splitBlock L.heap hb.1
      (t.wf.apart_of_inside (fun b hb' => (t.block hb').1) hb.1 hb.2 h₁ h₂))
    have he₂ : Edits L [] (splitBlock m L.heap h x) rest'
        (clearFree (unlinkFree (splitBlock m L.heap h x) h) h) rest' :=
      .of_touches hfl ((w₁.links.touches_unlinkFree hh).trans
        (touches_clearFree (Links.mem_of_block hh')))
    have he₃ : Edits L [] (clearFree (unlinkFree (splitBlock m L.heap h x) h) h) rest' m' rest' := by
      rw [hm']
      exact .of_touches (fun b hb' => hfl b ((hmem b).mpr (Or.inr hb')))
        ((w₃.links.touches_pushFree (Links.mem_of_block hx') hxfl').trans
          (touches_set (Links.mem_of_block hh')))
    exact (he₁.trans he₂ (by simp)).trans he₃ (by simp)

end Tiled

/-! ## Sizes and counters -/

/-- Rounding up and adding the header and the minimum does not wrap. -/
def NoWrap (size : Nat) : Prop :=
  size + (RT_ALIGN_SIZE - 1) < 4294967296 ∧
    roundSize size + RT_MEMHEAP_SIZE + RT_MEMHEAP_MINIALLOC < 4294967296

instance (size : Nat) : Decidable (NoWrap size) := instDecidableAnd

theorem roundSize_aligned (size : Nat) : roundSize size % 4 = 0 := by
  unfold roundSize rtAlign RT_ALIGN_SIZE RT_MEMHEAP_MINIALLOC
  split <;> omega

theorem le_roundSize (size : Nat) : RT_MEMHEAP_MINIALLOC ≤ roundSize size := by
  unfold roundSize
  split <;> omega

/-- `RT_ALIGN(size, RT_ALIGN_SIZE)` does not wrap. -/
def Rounds (size : Nat) : Prop := size + (RT_ALIGN_SIZE - 1) < 4294967296

instance (size : Nat) : Decidable (Rounds size) := Nat.decLt _ _

theorem NoWrap.rounds (h : NoWrap size) : Rounds size := h.1

theorem self_le_roundSize (h : Rounds size) : size ≤ roundSize size := by
  unfold Rounds roundSize rtAlign u32 RT_ALIGN_SIZE at *
  split <;> omega

theorem roundSize_lt (size : Nat) : roundSize size + (RT_ALIGN_SIZE - 1) < 4294967296 := by
  unfold roundSize rtAlign u32 RT_ALIGN_SIZE RT_MEMHEAP_MINIALLOC
  split <;> omega

/-- A size that is rounded already stays as it is. -/
theorem roundSize_roundSize (size : Nat) : roundSize (roundSize size) = roundSize size := by
  have h1 := roundSize_aligned size
  have h2 := le_roundSize size
  have h3 := roundSize_lt size
  generalize roundSize size = n at *
  unfold RT_ALIGN_SIZE at h3
  have h4 : (n + (4 - 1)) % 4294967296 = n + 3 := Nat.mod_eq_of_lt h3
  have h5 : (n + 3) / 4 * 4 = n := by omega
  unfold roundSize rtAlign u32 RT_ALIGN_SIZE
  rw [h4, h5, if_neg (by omega)]

theorem sub32_eq {y z : Nat} (h : z ≤ y) (hy : y < 4294967296) : sub32 y z = y - z := by
  unfold sub32 u32
  omega

/-- `updateMaxUsed` changes `max_used_size` only, to a value that covers what is in use. -/
theorem Pool.updateMaxUsed_spec (p : Pool) (hle : p.heap.availableSize ≤ p.heap.poolSize)
    (hlt : p.heap.poolSize < 4294967296) :
    ∃ v, p.updateMaxUsed = { p with heap := { p.heap with maxUsedSize := v } } ∧
      p.heap.poolSize - p.heap.availableSize ≤ v := by
  have h1 := sub32_eq hle hlt
  unfold Pool.updateMaxUsed
  by_cases h : p.heap.maxUsedSize < sub32 p.heap.poolSize p.heap.availableSize
  · rw [if_pos h]
    exact ⟨_, rfl, by omega⟩
  · rw [if_neg h]
    exact ⟨p.heap.maxUsedSize, rfl, by omega⟩

/-- The free blocks are smaller than the pool. -/
theorem Tiled.total_lt (t : Tiled L m rest fl) : total m fl ≤ L.tail - L.start := by
  have h := (t.wf.total_le t.nodup fun b hb => t.block hb).1
  omega

theorem HeapOk.poolSize_lt {hp : RtMemheap} (h : HeapOk L hp) :
    hp.poolSize < 4294967296 ∧ L.tail - L.start ≤ hp.poolSize := by
  have h1 := L.pool_lt
  have h2 := L.start_lt
  rw [h.poolSize]
  unfold RT_MEMHEAP_SIZE at *
  omega

/-! ## `rt_memheap_alloc` -/

/-- What the caller of an allocation gets: `NULL` and nothing changed, or the payload of a block
that was free. -/
def Allocated (L : Layout) (m : Mem) (rest : List Nat) (m' : Mem) (rest' : List Nat)
    (size r : Nat) : Prop :=
  (r = 0 ∧ SameUsed L m rest m' rest') ∨
    ∃ h, r = h + RT_MEMHEAP_SIZE ∧ Taken L m rest m' rest' h ∧ r + size ≤ m'.get .next h

/-- The end of an allocation that splits the block found. -/
theorem Inv.allocSplit {p : Pool} (i : Inv L p rest fl) (hh : h ∈ fl)
    (hfit : size + RT_MEMHEAP_SIZE ≤ blockSize p.mem h) (hal : size % 4 = 0) {p' : Pool}
    (hp' : p' = (Memheap.allocSplit p L.heap h size).store .magic h
      ((Memheap.allocSplit p L.heap h size).mem.get .magic h ||| RT_MEMHEAP_USED)) :
    ∃ rest' fl', Inv L p' rest' fl' ∧ p'.heap.lock = p.heap.lock ∧
      Taken L p.mem rest p'.mem rest' h ∧ p'.mem.get .next h = h + RT_MEMHEAP_SIZE + size ∧
      Edits L [h + RT_MEMHEAP_SIZE + size] p.mem rest p'.mem rest' := by
  have hb := i.block hh
  have hnext := i.wf.next_eq hb.1 hb.2
  have hle := i.wf.next_le_tail hb.1
  have htail := L.tail_le
  have hpool := i.heap.poolSize_lt
  have htot := i.total_lt
  have hav := i.available
  have hptr : u32 (h + size + RT_MEMHEAP_SIZE) = h + RT_MEMHEAP_SIZE + size := by
    unfold u32 RT_MEMHEAP_SIZE at *
    omega
  have halign : (h + RT_MEMHEAP_SIZE + size) % 4 = 0 := by
    have := (i.wf.range h hb.1).2.2
    unfold RT_MEMHEAP_SIZE
    omega
  obtain ⟨rest', fl', t, htaken, hx, hsum, hedits⟩ := i.takeSplit (x := h + RT_MEMHEAP_SIZE + size) hh
    (by omega) (by omega) halign rfl
  -- the counter
  have hsub : sub32 (sub32 p.heap.availableSize size) RT_MEMHEAP_SIZE =
      p.heap.availableSize - (size + RT_MEMHEAP_SIZE) := by
    have h1 : size + RT_MEMHEAP_SIZE ≤ p.heap.availableSize := by omega
    have h2 : sub32 p.heap.availableSize size = p.heap.availableSize - size :=
      sub32_eq (by omega) (by omega)
    rw [h2, sub32_eq (by omega) (by omega)]
    omega
  obtain ⟨v, hv, hmax⟩ := Pool.updateMaxUsed_spec
    { p with
      mem := pushFree (clearFree (unlinkFree
        (splitBlock p.mem L.heap h (h + RT_MEMHEAP_SIZE + size)) h) h) p.heap.freeList
        (h + RT_MEMHEAP_SIZE + size)
      heap := { p.heap with availableSize := p.heap.availableSize - (size + RT_MEMHEAP_SIZE) } }
    (by simp only; omega) hpool.1
  simp only [Memheap.allocSplit, hptr, hsub, Pool.setAvailable, hv] at hp'
  rw [← i.heap.freeList] at t htaken hx hsum hedits
  subst hp'
  refine ⟨rest', _, ⟨t, ?_, hmax, ?_⟩, rfl, htaken, hx, hedits⟩
  · refine Eq.trans ?_ (Nat.eq_sub_of_add_eq hsum).symm
    show p.heap.availableSize - _ = total p.mem fl - _
    omega
  · exact ⟨i.heap.startAddr, i.heap.poolSize, i.heap.blockList, i.heap.freeList⟩

/-- The end of an allocation that takes the block found whole. -/
theorem Inv.allocWhole {p : Pool} (i : Inv L p rest fl) (hh : h ∈ fl) {p' : Pool}
    (hp' : p' = (Memheap.allocWhole p h (blockSize p.mem h)).store .magic h
      ((Memheap.allocWhole p h (blockSize p.mem h)).mem.get .magic h ||| RT_MEMHEAP_USED)) :
    ∃ rest' fl', Inv L p' rest' fl' ∧ p'.heap.lock = p.heap.lock ∧
      Taken L p.mem rest p'.mem rest' h ∧
      p'.mem.get .next h = h + RT_MEMHEAP_SIZE + blockSize p.mem h ∧
      Edits L [] p.mem rest p'.mem rest' := by
  have hb := i.block hh
  have hpool := i.heap.poolSize_lt
  have htot := i.total_lt
  have hav := i.available
  obtain ⟨fl', t, htaken, hnext, hsum, hedits⟩ := i.takeWhole hh
  have hsub : sub32 p.heap.availableSize (blockSize p.mem h) =
      p.heap.availableSize - blockSize p.mem h := sub32_eq (by omega) (by omega)
  obtain ⟨v, hv, hmax⟩ := Pool.updateMaxUsed_spec
    { p with heap := { p.heap with availableSize := p.heap.availableSize - blockSize p.mem h } }
    (by simp only; omega) hpool.1
  simp only [Memheap.allocWhole, hsub, Pool.setAvailable, hv] at hp'
  subst hp'
  refine ⟨rest, fl', ⟨t, ?_, hmax, ?_⟩, rfl, htaken, ?_, hedits⟩
  · refine Eq.trans ?_ (Nat.eq_sub_of_add_eq hsum).symm
    show p.heap.availableSize - _ = total p.mem fl - _
    omega
  · exact ⟨i.heap.startAddr, i.heap.poolSize, i.heap.blockList, i.heap.freeList⟩
  · rw [← i.wf.next_eq hb.1 hb.2]
    exact hnext h hb.1

/-- The free blocks leave room for two headers in the pool. -/
theorem Inv.available_le {p : Pool} (i : Inv L p rest fl) :
    p.heap.availableSize + 2 * RT_MEMHEAP_SIZE ≤ p.heap.poolSize ∧ p.heap.poolSize < 4294967296 := by
  have hfree := (i.wf.total_le i.nodup fun b hb => i.block hb).1
  have hpool := i.heap.poolSize
  have hav := i.available
  have hlt := L.pool_lt
  omega

/-- What `rt_memheap_alloc` does with a request of `n` bytes, rounded: it returns `NULL` and changes
nothing, or it takes the first block of the free list with room for `n` bytes. -/
theorem Inv.rtMemheapAlloc_first {p : Pool} (i : Inv L p rest fl) (hl : p.heap.lock = 1) {n : Nat}
    (hn : roundSize size = n) :
    ∃ r p', Memheap.rtMemheapAlloc L.heap size p = some (r, p') ∧
      ((r = 0 ∧ p' = p ∧ (n < p.heap.availableSize → ∀ c ∈ fl, blockSize p.mem c < n)) ∨
        ∃ h rest' fl' new, r = h + RT_MEMHEAP_SIZE ∧ n < p.heap.availableSize ∧
          FirstFit p.mem fl n h ∧ Inv L p' rest' fl' ∧ p'.heap.lock = 1 ∧
          Taken L p.mem rest p'.mem rest' h ∧ r + n ≤ p'.mem.get .next h ∧
          Edits L new p.mem rest p'.mem rest' ∧ ∀ x ∈ new, FreeAt L p.mem rest x) := by
  have hmin := le_roundSize size
  have hal := roundSize_aligned size
  unfold Memheap.rtMemheapAlloc
  rw [hn] at hmin hal ⊢
  have hpos : 0 < n := by
    unfold RT_MEMHEAP_MINIALLOC at hmin
    omega
  by_cases hav : n < p.heap.availableSize
  swap
  · exact ⟨0, p, by simp only [if_neg hav], Or.inl ⟨rfl, rfl, fun h => absurd h hav⟩⟩
  simp only [if_pos hav]
  obtain ⟨h, fs, hsearch, hfound⟩ := i.searchFree hpos
  simp only [Pool.lockTake_eq hl, Option.bind_eq_bind, Option.bind_some, hsearch]
  rcases hfound with ⟨hsmall, hall⟩ | ⟨hfirst, rfl, hbig⟩
  · rw [if_neg (by omega)]
    refine ⟨0, p, ?_, Or.inl ⟨rfl, rfl, fun _ => hall⟩⟩
    simp only [Pool.lockRelease, Nat.zero_add, ← hl]
  rw [if_pos hbig]
  have hh := hfirst.mem
  have i₀ := i.setLock 0
  set p₀ : Pool := { p with heap := { p.heap with lock := 0 } } with hp₀
  have hb := i.block hh
  have hptr : u32 (h + RT_MEMHEAP_SIZE) = h + RT_MEMHEAP_SIZE := by
    have h1 := i.wf.gap h hb.1 hb.2
    have h2 := i.wf.next_le_tail hb.1
    have h3 := L.tail_le
    unfold u32 RT_MEMHEAP_SIZE at *
    omega
  -- the request is smaller than the pool without two headers, so the sum does not wrap
  have hthr : u32 (n + RT_MEMHEAP_SIZE + RT_MEMHEAP_MINIALLOC) =
      n + RT_MEMHEAP_SIZE + RT_MEMHEAP_MINIALLOC := by
    have h1 := i.available_le
    refine Nat.mod_eq_of_lt ?_
    unfold RT_MEMHEAP_SIZE RT_MEMHEAP_MINIALLOC at *
    omega
  simp only [hthr, hptr]
  by_cases hsplit : blockSize p.mem h ≥ n + RT_MEMHEAP_SIZE + RT_MEMHEAP_MINIALLOC
  · have hfit : n + RT_MEMHEAP_SIZE ≤ blockSize p₀.mem h := by
      have : p₀.mem = p.mem := rfl
      rw [this]
      omega
    obtain ⟨rest', fl', i', hl', htaken, hnext, hedits⟩ := i₀.allocSplit hh hfit hal rfl
    rw [if_pos hsplit]
    refine ⟨_, _, rfl, Or.inr ⟨h, rest', fl', _, rfl, hav, hfirst, i'.setLock _, ?_, htaken,
      hnext.ge, hedits, fun x hx => ⟨h, hb.1, ((i.free_iff h).mp hh).2, ?_⟩⟩⟩
    · show _ + 1 = 1
      rw [hl']
    · have hnexth := i.wf.next_eq hb.1 hb.2
      rw [List.mem_singleton.mp hx]
      omega
  · obtain ⟨rest', fl', i', hl', htaken, hnext, hedits⟩ := i₀.allocWhole hh rfl
    rw [if_neg hsplit]
    refine ⟨_, _, rfl, Or.inr ⟨h, rest', fl', [], rfl, hav, hfirst, i'.setLock _, ?_, htaken, ?_,
      hedits, by simp⟩⟩
    · show _ + 1 = 1
      rw [hl']
    · exact (Nat.add_le_add_left hbig _).trans hnext.ge

/-- **`rt_memheap_alloc` keeps the invariant**. -/
theorem Inv.rtMemheapAlloc {p : Pool} (i : Inv L p rest fl) (hl : p.heap.lock = 1) (size : Nat) :
    ∃ r p' rest' fl', Memheap.rtMemheapAlloc L.heap size p = some (r, p') ∧ Inv L p' rest' fl' ∧
      p'.heap.lock = 1 ∧ Allocated L p.mem rest p'.mem rest' (roundSize size) r ∧
      ∃ new, Edits L new p.mem rest p'.mem rest' ∧ ∀ x ∈ new, FreeAt L p.mem rest x := by
  obtain ⟨r, p', halloc, hor⟩ := i.rtMemheapAlloc_first hl rfl
  rcases hor with ⟨rfl, rfl, -⟩ | ⟨h, rest', fl', new, rfl, -, -, i', hl', htaken, hroom, hedits, hnew⟩
  · exact ⟨0, p', rest, fl, halloc, i, hl, Or.inl ⟨rfl, SameUsed.refl _ _ _⟩, [],
      Edits.refl _ _ _, by simp⟩
  · exact ⟨_, p', rest', fl', halloc, i', hl', Or.inr ⟨h, rfl, htaken, hroom⟩, new, hedits, hnew⟩

end RTThread.Memheap
