import RTThread.Memheap.Blocks

set_option autoImplicit false

/-! # The heap invariant, and `rt_memheap_free`

`Inv` is the invariant of a pool between operations. While `rt_memheap_free` runs, the block being
freed is free but not yet in the free list, and it may have free neighbours: `Freeing` is `Inv`
with that one block `c` excepted. The two merges keep `Freeing` and remove one exception each,
and inserting `c` into the free list gives `Inv` back.
-/

namespace RTThread.Memheap

variable {L : Layout} {m m' : Mem} {rest rest' rest'' fl fl' : List Nat} {c h b : Nat} {ins : Bool}

/-! ## The invariant -/

/-- The fields of the heap object that no operation changes. -/
structure HeapOk (L : Layout) (h : RtMemheap) : Prop where
  startAddr : h.startAddr = L.start
  poolSize : h.poolSize = L.tail + RT_MEMHEAP_SIZE - L.start
  blockList : h.blockList = L.start
  freeList : h.freeList = L.freeHeader

/-- The memory of a pool between operations: the chain tiles the pool up to a used tail header,
the free list holds exactly the free blocks, and no two neighbours are free. -/
structure Tiled (L : Layout) (m : Mem) (rest fl : List Nat) : Prop where
  wf : Wf L m rest fl
  tail_used : isUsed m L.tail
  free_iff : ∀ a, a ∈ fl ↔ a ∈ L.start :: rest ∧ ¬ isUsed m a
  no_adjacent : ∀ a ∈ fl, isUsed m (m.get .next a)

/-- **The invariant of a pool**: the memory is tiled, and the counters agree with the blocks. -/
structure Inv (L : Layout) (p : Pool) (rest fl : List Nat) : Prop
    extends Tiled L p.mem rest fl where
  available : p.heap.availableSize = total p.mem fl
  maxUsed : p.heap.poolSize - p.heap.availableSize ≤ p.heap.maxUsedSize
  heap : HeapOk L p.heap

/-- The invariant does not speak of the lock. -/
theorem Inv.setLock {p : Pool} (i : Inv L p rest fl) (v : Nat) :
    Inv L { p with heap := { p.heap with lock := v } } rest fl :=
  ⟨i.toTiled, i.available, i.maxUsed,
    ⟨i.heap.startAddr, i.heap.poolSize, i.heap.blockList, i.heap.freeList⟩⟩

theorem Pool.lockTake_eq {p : Pool} (hl : p.heap.lock = 1) :
    p.lockTake = some { p with heap := { p.heap with lock := 0 } } := by
  rw [Pool.lockTake, hl, if_neg Nat.one_ne_zero]

theorem Tiled.nodup (t : Tiled L m rest fl) : fl.Nodup :=
  (List.nodup_cons.mp t.wf.links.frees.nodup).2

theorem Tiled.block (t : Tiled L m rest fl) (hb : b ∈ fl) : b ∈ L.start :: rest ∧ b ≠ L.tail :=
  ⟨((t.free_iff b).mp hb).1, fun e => ((t.free_iff b).mp hb).2 (e ▸ t.tail_used)⟩

/-- `Inv` with the block `c` excepted: `c` is free, `ins` says that it is not in the free list
yet, and it may have free neighbours. -/
structure Freeing (L : Layout) (m : Mem) (rest fl : List Nat) (c : Nat) (ins : Bool) : Prop where
  wf : Wf L m rest fl
  tail_used : isUsed m L.tail
  mem : c ∈ L.start :: rest
  free : ¬ isUsed m c
  ins_iff : c ∈ fl ↔ ins = false
  free_iff : ∀ a, a ≠ c → (a ∈ fl ↔ a ∈ L.start :: rest ∧ ¬ isUsed m a)
  no_adjacent : ∀ a ∈ L.start :: rest, ¬ isUsed m a → a ≠ c → m.get .next a ≠ c →
    isUsed m (m.get .next a)

/-- No free block is in front of `c`. -/
def LeftUsed (L : Layout) (m : Mem) (rest : List Nat) (c : Nat) : Prop :=
  ∀ a ∈ L.start :: rest, m.get .next a = c → isUsed m a

/-- The free list once `c` is in it. -/
def withCur (fl : List Nat) (c : Nat) (ins : Bool) : List Nat := if ins then c :: fl else fl

namespace Freeing

theorem ne_tail (f : Freeing L m rest fl c ins) : c ≠ L.tail := fun e => f.free (e ▸ f.tail_used)

theorem mem_withCur (f : Freeing L m rest fl c ins) :
    b ∈ withCur fl c ins ↔ b ∈ L.start :: rest ∧ ¬ isUsed m b := by
  unfold withCur
  by_cases hbc : b = c
  · subst hbc
    cases ins with
    | false => simpa [f.ins_iff, f.free] using f.mem
    | true => simpa [f.free] using f.mem
  · rw [← f.free_iff b hbc]
    cases ins <;> simp [hbc]

theorem nodup_withCur (f : Freeing L m rest fl c ins) : (withCur fl c ins).Nodup := by
  have hnd := (List.nodup_cons.mp f.wf.links.frees.nodup).2
  cases ins with
  | false => exact hnd
  | true =>
      refine List.nodup_cons.mpr ⟨fun hc => ?_, hnd⟩
      have := f.ins_iff.mp hc
      contradiction

/-- The free list holds blocks. -/
theorem block (f : Freeing L m rest fl c ins) : ∀ b ∈ fl, b ∈ L.start :: rest := by
  intro b hb
  by_cases hbc : b = c
  · exact hbc ▸ f.mem
  · exact ((f.free_iff b hbc).mp hb).1

/-- The sizes of the free blocks do not add up to more than the pool. -/
theorem total_lt (f : Freeing L m rest fl c ins) : total m (withCur fl c ins) < 4294967296 := by
  have h := (f.wf.total_le f.nodup_withCur fun b hb => ?_).1
  · have ht := L.tail_le
    unfold RT_MEMHEAP_SIZE at *
    omega
  · have hb' := f.mem_withCur.mp hb
    exact ⟨hb'.1, fun e => hb'.2 (e ▸ f.tail_used)⟩

/-- The block in front of a free block is no tail, so the free block is not the first. -/
theorem mem_rest (f : Freeing L m rest fl c ins) (hp : ¬ isUsed m (m.get .prev c)) : c ∈ rest := by
  rcases List.mem_cons.mp f.mem with e | e
  · have h1 := f.wf.prev_next f.wf.tail_mem
    rw [f.wf.next_tail, ← e] at h1
    exact absurd f.tail_used (h1 ▸ hp)
  · exact e

/-- Merging `x` into its left neighbour, both free, where one of the two is `c`: the merged block
is the new exception. -/
theorem unlinked (f : Freeing L m rest fl c ins) {x : Nat} (w' : Wf L m' rest' fl')
    (u : Unlinked L m rest m' rest' x) (hx : x ∈ rest) (hxt : x ≠ L.tail)
    (hxu : ¬ isUsed m x) (hpu : ¬ isUsed m (m.get .prev x)) (hc : c = x ∨ c = m.get .prev x)
    (hmem : ∀ a, a ≠ x → (a ∈ fl' ↔ a ∈ fl)) (hxfl : x ∉ fl') {ins' : Bool}
    (hins : m.get .prev x ∈ fl' ↔ ins' = false) :
    Freeing L m' rest' fl' (m.get .prev x) ins' := by
  have hx' : x ∈ L.start :: rest := List.mem_cons_of_mem _ hx
  have hpx : m.get .prev x ≠ x := by
    intro e
    have h1 := f.wf.gap x hx' hxt
    rw [← e, f.wf.next_prev hx', e] at h1
    unfold RT_MEMHEAP_SIZE at h1
    omega
  have hpmem : m.get .prev x ∈ L.start :: rest' := (u.mem_iff _).mpr ⟨f.wf.prev_mem hx', hpx⟩
  refine ⟨w', (u.isUsed_iff w'.tail_mem).mpr f.tail_used, hpmem, ?_, hins, ?_, ?_⟩
  · rwa [u.isUsed_iff hpmem]
  · intro a ha
    by_cases hax : a = x
    · subst hax
      simp [hxfl, u.mem_iff]
    · have hac : a ≠ c := by
        rcases hc with rfl | rfl
        · exact hax
        · exact ha
      rw [hmem a hax, f.free_iff a hac]
      constructor
      · rintro ⟨h1, h2⟩
        have h3 := (u.mem_iff a).mpr ⟨h1, hax⟩
        exact ⟨h3, by rwa [u.isUsed_iff h3]⟩
      · rintro ⟨h1, h2⟩
        exact ⟨((u.mem_iff a).mp h1).1, by rwa [u.isUsed_iff h1] at h2⟩
  · intro a ha hfree hap hnp
    have ha' := (u.mem_iff a).mp ha
    rw [u.isUsed_iff ha] at hfree
    rw [u.next a ha, if_neg hap] at hnp ⊢
    -- only the left neighbour of `x` leads to `x`
    have hnx : m.get .next a ≠ x := by
      intro e
      apply hap
      rw [← e, f.wf.prev_next ha'.1]
    rw [u.isUsed_iff ((u.mem_iff _).mpr ⟨f.wf.next_mem ha'.1, hnx⟩)]
    rcases hc with rfl | rfl
    · exact f.no_adjacent a ha'.1 hfree ha'.2 hnx
    · exact f.no_adjacent a ha'.1 hfree hap hnp

/-- A free left neighbour takes the space of `c`. -/
theorem absorbIntoPrev (f : Freeing L m rest fl c true) (hp : ¬ isUsed m (m.get .prev c)) :
    ∃ rest', Freeing L (absorbIntoPrev m c) rest' fl (m.get .prev c) false ∧
      LeftUsed L (Memheap.absorbIntoPrev m c) rest' (m.get .prev c) ∧
      SameUsed L m rest (Memheap.absorbIntoPrev m c) rest' ∧
      total (Memheap.absorbIntoPrev m c) fl = total m (c :: fl) + RT_MEMHEAP_SIZE ∧
      (Memheap.absorbIntoPrev m c).get .prev c = m.get .prev c ∧
      Edits L [] m rest (Memheap.absorbIntoPrev m c) rest' := by
  have hct := f.ne_tail
  have hcrest := f.mem_rest hp
  have hqmem : m.get .prev c ∈ L.start :: rest := f.wf.prev_mem f.mem
  have hu : BlockUnlinked (L.headers rest fl) m (Memheap.absorbIntoPrev m c) c := fun g b hb =>
    get_absorbIntoPrev f.wf.links.sep (Links.mem_of_block f.mem)
      (Links.mem_of_block (f.wf.next_mem f.mem)) (Links.mem_of_block hqmem) hb
  obtain ⟨rest', w', u⟩ := f.wf.unlinkBlock hcrest hct hu
  have hcfl : c ∉ fl := by simp [f.ins_iff]
  have hqc : m.get .prev c ≠ c := by
    intro e
    have h1 := f.wf.next_eq f.mem hct
    rw [← e, f.wf.next_prev f.mem, e] at h1
    unfold RT_MEMHEAP_SIZE at h1
    omega
  have hqfl : m.get .prev c ∈ fl := (f.free_iff _ hqc).mpr ⟨hqmem, hp⟩
  have hins : m.get .prev c ∈ fl ↔ false = false := by simp [hqfl]
  have f' := f.unlinked w' u hcrest hct f.free hp (Or.inl rfl) (fun _ _ => Iff.rfl) hcfl hins
  refine ⟨rest', f', ?_, u.sameUsed f.free hp, ?_, ?_, ?_⟩
  · intro a ha hna
    have ha' := (u.mem_iff a).mp ha
    have haq : a ≠ m.get .prev c := by
      rintro rfl
      have h1 := w'.gap _ ha (f.wf.prev_ne_tail hcrest)
      rw [hna] at h1
      unfold RT_MEMHEAP_SIZE at h1
      omega
    rw [u.next a ha, if_neg haq] at hna
    rw [u.isUsed_iff ha]
    by_contra hfree
    have h1 := f.no_adjacent a ha'.1 hfree ha'.2 (hna ▸ hqc)
    exact hp (hna ▸ h1)
  · have hsize := u.blockSize_prev f.wf hcrest hct f'.mem
    have hrest := total_update m (Memheap.absorbIntoPrev m c) (List.perm_cons_erase hqfl)
      fun b hb => by
        have hnd := (List.nodup_cons.mp f.wf.links.frees.nodup).2
        have hb' := (List.Nodup.mem_erase_iff hnd).mp hb
        have hbc : b ≠ c := fun e => hcfl (e ▸ hb'.2)
        have hbm := ((f.free_iff b hbc).mp hb'.2).1
        exact u.blockSize_of_ne ((u.mem_iff b).mpr ⟨hbm, hbc⟩) hb'.1
    have hcons : total m (c :: fl) = blockSize m c + total m fl := by simp [total]
    omega
  · rw [hu .prev c (Links.mem_of_block f.mem)]
    simp
  · exact u.edits (.of_touches f.block (touches_absorbIntoPrev f.wf.links.sep
      (Links.mem_of_block f.mem) (Links.mem_of_block (f.wf.next_mem f.mem))
      (Links.mem_of_block hqmem)))

/-- A free right neighbour is merged into `c`. -/
theorem absorbNext (f : Freeing L m rest fl c ins) (hl : LeftUsed L m rest c)
    (hn : ¬ isUsed m (m.get .next c)) :
    ∃ rest' fl', Freeing L (absorbNext m c) rest' fl' c ins ∧
      LeftUsed L (Memheap.absorbNext m c) rest' c ∧
      isUsed (Memheap.absorbNext m c) ((Memheap.absorbNext m c).get .next c) ∧
      SameUsed L m rest (Memheap.absorbNext m c) rest' ∧
      total (Memheap.absorbNext m c) (withCur fl' c ins) =
        total m (withCur fl c ins) + RT_MEMHEAP_SIZE ∧
      blockSize (Memheap.absorbNext m c) c =
        blockSize m c + RT_MEMHEAP_SIZE + blockSize m (m.get .next c) ∧
      Edits L [] m rest (Memheap.absorbNext m c) rest' := by
  have hct := f.ne_tail
  have hpx : m.get .prev (m.get .next c) = c := f.wf.prev_next f.mem
  have hx := f.wf.next_mem_rest f.mem hct
  set x := m.get .next c with hxdef
  have hx' : x ∈ L.start :: rest := List.mem_cons_of_mem _ hx
  have hxt : x ≠ L.tail := fun e => hn (e ▸ f.tail_used)
  have hxc : x ≠ c := by
    intro e
    have h1 := f.wf.gap c f.mem hct
    rw [← hxdef, e] at h1
    unfold RT_MEMHEAP_SIZE at h1
    omega
  have hu := blockUnlinked_next f.wf.links.sep (Links.mem_of_block hx')
    (Links.mem_of_block (f.wf.next_mem hx')) (Links.mem_of_block f.mem) hpx
  obtain ⟨rest', w₂, u₂⟩ := f.wf.unlinkBlock hx hxt hu
  have hxfl : x ∈ fl := (f.free_iff x hxc).mpr ⟨hx', hn⟩
  have hs := w₂.sameBlocks_unlinkFree hxfl
  obtain ⟨fl', hperm, w'⟩ := w₂.removeFree hxfl
  have u := u₂.congr hs
  change Wf L (Memheap.absorbNext m c) rest' fl' at w'
  change Unlinked L m rest (Memheap.absorbNext m c) rest' x at u
  have hnd : (x :: fl').Nodup :=
    hperm.nodup_iff.mp (List.nodup_cons.mp f.wf.links.frees.nodup).2
  have hmem : ∀ a, a ≠ x → (a ∈ fl' ↔ a ∈ fl) := fun a ha => by
    rw [hperm.mem_iff, List.mem_cons]
    simp [ha]
  have hins : m.get .prev x ∈ fl' ↔ ins = false := by
    rw [hpx, hmem c hxc.symm]
    exact f.ins_iff
  have f' := f.unlinked w' u hx hxt hn (by rw [hpx]; exact f.free) (Or.inr hpx.symm) hmem
    (List.nodup_cons.mp hnd).1 hins
  rw [hpx] at f'
  have hnext : (Memheap.absorbNext m c).get .next c = m.get .next x := by
    rw [u.next c f'.mem, hpx, if_pos rfl]
  have hsize : blockSize (Memheap.absorbNext m c) c =
      blockSize m c + RT_MEMHEAP_SIZE + blockSize m x := by
    have h1 := u.blockSize_prev f.wf hx hxt (by rw [hpx]; exact f'.mem)
    rwa [hpx] at h1
  have hedits : Edits L [] m rest (Memheap.absorbNext m c) rest' := by
    refine u.edits (.of_touches f.block ((touches_mergeNext (Links.mem_of_block f.mem)
      (Links.mem_of_block (f.wf.next_mem hx'))).trans ((w₂.links.touches_unlinkFree hxfl).mono ?_)))
    intro b hb
    simp only [Layout.headers, List.mem_cons, List.mem_append] at hb ⊢
    rcases hb with h | h | h | h
    · exact Or.inl h
    · exact Or.inr (Or.inl h)
    · have h1 := ((u₂.mem_iff b).mp (List.mem_cons_of_mem _ h)).1
      rw [List.mem_cons] at h1
      tauto
    · exact Or.inr (Or.inr (Or.inr h))
  refine ⟨rest', fl', f', ?_, ?_, u.sameUsed hn (by rw [hpx]; exact f.free), ?_, hsize, hedits⟩
  · intro a ha hna
    have ha' := (u.mem_iff a).mp ha
    have hac : a ≠ c := by
      rintro rfl
      have h1 := w'.gap _ ha hct
      rw [hna] at h1
      unfold RT_MEMHEAP_SIZE at h1
      omega
    rw [u.next a ha, hpx, if_neg hac] at hna
    exact (u.isUsed_iff ha).mpr (hl a ha'.1 hna)
  · have hne : m.get .next x ≠ c := by
      intro e
      exact hn (hl x hx' e)
    have hnx : m.get .next x ≠ x := by
      have h1 := f.wf.gap x hx' hxt
      unfold RT_MEMHEAP_SIZE at h1
      omega
    rw [hnext, u.isUsed_iff ((u.mem_iff _).mpr ⟨f.wf.next_mem hx', hnx⟩)]
    exact f.no_adjacent x hx' hn hxc hne
  · -- the free blocks other than `c` and `x` keep their sizes
    have hothers : ∀ b ∈ fl', b ≠ c → blockSize (Memheap.absorbNext m c) b = blockSize m b := by
      intro b hb hbc
      have hbm := (f'.free_iff b hbc).mp hb
      exact u.blockSize_of_ne hbm.1 (by rwa [hpx])
    have hfl : total m fl = blockSize m x + total m fl' := by
      simpa [total] using (hperm.map (blockSize m)).sum_eq
    cases ins with
    | true =>
        have hcfl : c ∉ fl' := fun h => by simpa using f'.ins_iff.mp h
        have h1 := total_update m (Memheap.absorbNext m c) (List.Perm.refl (c :: fl')) fun b hb =>
          hothers b hb fun e => hcfl (e ▸ hb)
        simp only [withCur, if_true]
        have h2 : total m (c :: fl) = blockSize m c + total m fl := by simp [total]
        have h3 : total m (c :: fl') = blockSize m c + total m fl' := by simp [total]
        omega
    | false =>
        have hcfl : c ∈ fl' := f'.ins_iff.mpr rfl
        have hndfl' := (List.nodup_cons.mp hnd).2
        have h1 := total_update m (Memheap.absorbNext m c) (List.perm_cons_erase hcfl) fun b hb =>
          hothers b (List.mem_of_mem_erase hb) ((List.Nodup.mem_erase_iff hndfl').mp hb).1
        simp only [withCur, Bool.false_eq_true, if_false]
        omega

end Freeing

/-! ## `rt_memheap_free` -/

theorem mergeLeft_spec {p : Pool} (f : Freeing L p.mem rest fl c true)
    (hav : p.heap.availableSize = total p.mem (c :: fl)) :
    ∃ c' ins p' rest', mergeLeft p c = (c', ins, p') ∧ Freeing L p'.mem rest' fl c' ins ∧
      LeftUsed L p'.mem rest' c' ∧ SameUsed L p.mem rest p'.mem rest' ∧
      total p.mem (c :: fl) ≤ total p'.mem (withCur fl c' ins) ∧
      p'.heap = { p.heap with availableSize := total p'.mem (withCur fl c' ins) } ∧
      Edits L [] p.mem rest p'.mem rest' := by
  by_cases hp : isUsed p.mem (p.mem.get .prev c)
  · rw [mergeLeft, if_neg (not_not.mpr hp)]
    refine ⟨c, true, p, rest, rfl, f, ?_, SameUsed.refl _ _ _, ?_, ?_, Edits.refl _ _ _⟩
    · rintro a ha rfl
      rwa [f.wf.prev_next ha] at hp
    · simp only [withCur, if_true]
      exact Nat.le_refl _
    · simp only [withCur, if_true]
      rw [← hav]
  · rw [mergeLeft, if_pos hp]
    obtain ⟨rest', f', hl, hsame, htot, hprev, hedits⟩ := f.absorbIntoPrev hp
    refine ⟨_, _, _, rest', rfl, ?_, ?_, hsame, ?_, ?_, hedits⟩
    · simpa only [Pool.setAvailable, hprev] using f'
    · simpa only [Pool.setAvailable, hprev] using hl
    · simp only [Pool.setAvailable, withCur, Bool.false_eq_true, if_false]
      omega
    · have hlt := f'.total_lt
      simp only [withCur, Bool.false_eq_true, if_false] at hlt
      simp only [Pool.setAvailable, withCur, Bool.false_eq_true, if_false]
      rw [hav, ← htot, u32, Nat.mod_eq_of_lt hlt]

theorem mergeRight_spec {p : Pool} (f : Freeing L p.mem rest fl c ins)
    (hl : LeftUsed L p.mem rest c)
    (hav : p.heap.availableSize = total p.mem (withCur fl c ins)) :
    ∃ rest' fl', Freeing L (mergeRight p c).mem rest' fl' c ins ∧
      LeftUsed L (mergeRight p c).mem rest' c ∧
      isUsed (mergeRight p c).mem ((mergeRight p c).mem.get .next c) ∧
      SameUsed L p.mem rest (mergeRight p c).mem rest' ∧
      total p.mem (withCur fl c ins) ≤ total (mergeRight p c).mem (withCur fl' c ins) ∧
      (mergeRight p c).heap =
        { p.heap with availableSize := total (mergeRight p c).mem (withCur fl' c ins) } ∧
      Edits L [] p.mem rest (mergeRight p c).mem rest' := by
  by_cases hn : isUsed p.mem (p.mem.get .next c)
  · rw [mergeRight, if_neg (not_not.mpr hn)]
    exact ⟨rest, fl, f, hl, hn, SameUsed.refl _ _ _, Nat.le_refl _, by rw [← hav],
      Edits.refl _ _ _⟩
  · rw [mergeRight, if_pos hn]
    obtain ⟨rest', fl', f', hl', hu, hsame, htot, -, hedits⟩ := f.absorbNext hl hn
    refine ⟨rest', fl', f', hl', hu, hsame, ?_, ?_, hedits⟩
    · simp only [Pool.setAvailable]
      omega
    · simp only [Pool.setAvailable]
      rw [hav, ← htot, u32, Nat.mod_eq_of_lt f'.total_lt]

/-- Once both neighbours are used and `c` is in the free list, the invariant holds again. -/
theorem Freeing.inv {p : Pool} (f : Freeing L p.mem rest fl c ins) (hl : LeftUsed L p.mem rest c)
    (hr : isUsed p.mem (p.mem.get .next c)) (hh : HeapOk L p.heap)
    (hav : p.heap.availableSize = total p.mem (withCur fl c ins))
    (hmax : p.heap.poolSize - p.heap.availableSize ≤ p.heap.maxUsedSize) :
    Inv L (if ins then { p with mem := pushFree p.mem p.heap.freeList c } else p) rest
        (withCur fl c ins) ∧
      SameUsed L p.mem rest
        (if ins then { p with mem := pushFree p.mem p.heap.freeList c } else p).mem rest ∧
      Edits L [] p.mem rest
        (if ins then { p with mem := pushFree p.mem p.heap.freeList c } else p).mem rest := by
  have hadj : ∀ a ∈ withCur fl c ins, isUsed p.mem (p.mem.get .next a) := by
    intro a ha
    have ha' := f.mem_withCur.mp ha
    by_cases hac : a = c
    · exact hac ▸ hr
    · by_cases hnc : p.mem.get .next a = c
      · exact absurd (hl a ha'.1 hnc) ha'.2
      · exact f.no_adjacent a ha'.1 ha'.2 hac hnc
  cases ins with
  | false =>
      refine ⟨⟨⟨f.wf, f.tail_used, fun a => f.mem_withCur, hadj⟩, hav, hmax, hh⟩, ?_,
        Edits.refl _ _ _⟩
      exact SameUsed.refl _ _ _
  | true =>
      simp only [if_true, withCur, hh.freeList] at hadj hav ⊢
      have hcfl : c ∉ L.freeHeader :: fl := by
        rw [List.mem_cons, f.ins_iff]
        simpa using f.wf.ne_freeHeader f.mem
      have hs := f.wf.sameBlocks_pushFree f.mem hcfl
      have hmem : ∀ a, a ∈ c :: fl ↔ a ∈ L.start :: rest ∧ ¬ isUsed p.mem a := fun a => f.mem_withCur
      have hbs : ∀ a ∈ c :: fl, a ∈ L.start :: rest := fun a ha => ((hmem a).mp ha).1
      refine ⟨⟨⟨f.wf.pushFree f.mem hcfl, ?_, ?_, ?_⟩, ?_, hmax, hh⟩, hs.sameUsed,
        .of_touches f.block (f.wf.links.touches_pushFree (Links.mem_of_block f.mem) hcfl)⟩
      · exact (isUsed_congr (hs _ f.wf.tail_mem).1).mpr f.tail_used
      · intro a
        rw [hmem a]
        refine and_congr_right fun ha => not_congr (isUsed_congr (hs a ha).1).symm
      · intro a ha
        have ha' := hbs a ha
        rw [(hs a ha').2.2.1, isUsed_congr (hs _ (f.wf.next_mem ha')).1]
        exact hadj a ha
      · rw [hs.total_eq hbs]
        exact hav

/-- Clearing the USED bit. -/
theorem tag_mask {v : Nat} (hv : v = RT_MEMHEAP_MAGIC ∨ v = RT_MEMHEAP_MAGIC ||| RT_MEMHEAP_USED) :
    v &&& RT_MEMHEAP_MASK = RT_MEMHEAP_MAGIC := by
  rcases hv with rfl | rfl <;> decide

/-- The block to free becomes the exception of `Freeing`. -/
theorem Inv.freeing {p : Pool} (i : Inv L p rest fl) (hu : Used L p.mem rest h)
    (hne : h ≠ L.tail) :
    Freeing L (p.mem.set .magic h (p.mem.get .magic h &&& RT_MEMHEAP_MASK)) rest fl h true ∧
      (∀ b ∈ L.start :: rest, (p.mem.set .magic h (p.mem.get .magic h &&& RT_MEMHEAP_MASK)).get
        .next b = p.mem.get .next b) ∧
      (∀ b ∈ L.start :: rest,
        (isUsed (p.mem.set .magic h (p.mem.get .magic h &&& RT_MEMHEAP_MASK)) b ↔
          isUsed p.mem b ∧ b ≠ h)) := by
  have hv := tag_mask (i.wf.tag h hu.1)
  rw [hv]
  set m' := p.mem.set .magic h RT_MEMHEAP_MAGIC with hm'
  have hget : ∀ g, ∀ b ∈ L.start :: rest, m'.get g b =
      if g = .magic ∧ b = h then RT_MEMHEAP_MAGIC else p.mem.get g b := fun g b hb =>
    Mem.get_set (i.wf.links.sep _ (Links.mem_of_block hu.1) _ (Links.mem_of_block hb))
  have hnext : ∀ b ∈ L.start :: rest, m'.get .next b = p.mem.get .next b := by
    intro b hb
    rw [hget .next b hb]
    simp
  have hused : ∀ b ∈ L.start :: rest, (isUsed m' b ↔ isUsed p.mem b ∧ b ≠ h) := by
    intro b hb
    by_cases hbh : b = h
    · subst hbh
      have hfree : ¬ isUsed m' b := by
        unfold isUsed
        rw [hget .magic b hb]
        simp only [true_and, if_true]
        decide
      simp [hfree]
    · have hsame : isUsed m' b ↔ isUsed p.mem b := by
        refine isUsed_congr ?_
        rw [hget .magic b hb]
        simp [hbh]
      simp [hsame, hbh]
  have hhfl : h ∉ fl := fun hc => ((i.free_iff h).mp hc).2 hu.2
  refine ⟨⟨i.wf.setMagic hu.1 (Or.inl rfl), ?_, hu.1, ?_, by simp [hhfl], ?_, ?_⟩, hnext, hused⟩
  · exact (hused _ i.wf.tail_mem).mpr ⟨i.tail_used, hne.symm⟩
  · exact fun hc => ((hused h hu.1).mp hc).2 rfl
  · intro a ha
    rw [i.free_iff]
    refine and_congr_right fun hm => ?_
    rw [hused a hm]
    simp [ha]
  · intro a ha hfree hah hnh
    rw [hnext a ha] at hnh ⊢
    have hafl : a ∈ fl := by
      rw [i.free_iff]
      exact ⟨ha, fun hc => hfree ((hused a ha).mpr ⟨hc, hah⟩)⟩
    exact (hused _ (i.wf.next_mem ha)).mpr ⟨i.no_adjacent a hafl, hnh⟩

/-- **Freeing a block in use** keeps the invariant; the other blocks in use stay as they are. -/
theorem Inv.freeBlock {p : Pool} (i : Inv L p rest fl) (hl : p.heap.lock = 1)
    (hu : Used L p.mem rest h) (hne : h ≠ L.tail) :
    ∃ p' rest' fl', Memheap.freeBlock h p = some ((), p') ∧ Inv L p' rest' fl' ∧
      p'.heap.lock = 1 ∧
      (∀ b, (Used L p'.mem rest' b ↔ Used L p.mem rest b ∧ b ≠ h) ∧
        (Used L p'.mem rest' b → p'.mem.get .next b = p.mem.get .next b)) ∧
      Edits L [] p.mem rest p'.mem rest' := by
  obtain ⟨f, hnext, hused⟩ := i.freeing hu hne
  -- the pool once the USED bit is cleared and the size added
  set m₁ := p.mem.set .magic h (p.mem.get .magic h &&& RT_MEMHEAP_MASK) with hm₁
  have hsize : memitemSize m₁ h = blockSize m₁ h := f.wf.memitemSize_eq hu.1 hne
  have hcons : total m₁ (h :: fl) = blockSize m₁ h + p.heap.availableSize := by
    have hfl : total m₁ fl = total p.mem fl := by
      unfold total blockSize
      rw [List.map_congr_left fun b hb => by rw [hnext b ((i.free_iff b).mp hb).1]]
    rw [i.available, ← hfl]
    simp [total]
  have hav : u32 (p.heap.availableSize + memitemSize m₁ h) = total m₁ (h :: fl) := by
    have hlt := f.total_lt
    simp only [withCur, if_true] at hlt
    rw [hsize, Nat.add_comm, ← hcons, u32, Nat.mod_eq_of_lt hlt]
  set p₁ : Pool := ⟨m₁, { p.heap with
    lock := 0, availableSize := total m₁ (h :: fl) }⟩ with hp₁
  obtain ⟨c, ins, p₂, rest₂, hml, f₂, hl₂, hs₂, hle₂, hh₂, he₂⟩ := mergeLeft_spec (p := p₁) f rfl
  obtain ⟨rest₃, fl₃, f₃, hl₃, hr₃, hs₃, hle₃, hh₃, he₃⟩ := mergeRight_spec f₂ hl₂ (by rw [hh₂])
  -- the lock is released last; the list edits do not see it
  set p₃ : Pool := { mergeRight p₂ c with heap := { (mergeRight p₂ c).heap with lock := 1 } } with hp₃
  have hheap : p₃.heap = { p.heap with
      lock := 1, availableSize := total p₃.mem (withCur fl₃ c ins) } := by
    rw [hp₃, hh₃, hh₂]
  have hok : HeapOk L p₃.heap := by
    rw [hheap]
    exact ⟨i.heap.startAddr, i.heap.poolSize, i.heap.blockList, i.heap.freeList⟩
  have hmax : p₃.heap.poolSize - p₃.heap.availableSize ≤ p₃.heap.maxUsedSize := by
    have h1 := i.maxUsed
    have h2 : total m₁ (h :: fl) ≤ total p₃.mem (withCur fl₃ c ins) := hle₂.trans hle₃
    rw [hheap]
    show p.heap.poolSize - total p₃.mem (withCur fl₃ c ins) ≤ p.heap.maxUsedSize
    omega
  obtain ⟨i', hs', he'⟩ := f₃.inv (p := p₃) hl₃ hr₃ hok (by rw [hheap]) hmax
  have he₁ : Edits L [] p.mem rest m₁ rest :=
    .of_touches (fun b hb => (i.block hb).1) (touches_set (Links.mem_of_block hu.1))
  have hnil : ∀ b ∈ ([] : List Nat), b ∈ ([] : List Nat) := fun _ hb => hb
  refine ⟨_, rest₃, withCur fl₃ c ins, ?_, i', ?_, ?_,
    ((he₁.trans he₂ hnil).trans he₃ hnil).trans he' hnil⟩
  · simp only [Memheap.freeBlock, Pool.lockTake_eq hl, Pool.store, Pool.setAvailable, Option.bind_eq_bind,
      Option.bind_some, ← hm₁, hav]
    rw [← hp₁, hml]
    have hlk : (mergeRight p₂ c).heap.lock = 0 := by rw [hh₃, hh₂]
    cases ins <;> simp only [hp₃, Pool.lockRelease, hlk, Bool.false_eq_true, if_true, if_false,
      Nat.zero_add]
  · cases ins <;> rfl
  · intro b
    have hsame := ((hs₂.trans hs₃).trans hs') b
    have h1 : Used L m₁ rest b ↔ Used L p.mem rest b ∧ b ≠ h := by
      unfold Used
      rw [and_assoc]
      exact and_congr_right fun hb => hused b hb
    refine ⟨hsame.1.trans h1, fun hb => ?_⟩
    have h2 := hsame.1.mp hb
    exact (hsame.2 h2).trans (hnext b h2.1)

/-- The pool of a heap object. -/
def State.pool (s : State) (heap : Nat) : Pool := ⟨s.mem, s.heap heap⟩

theorem State.withHeap_eq {α : Type} {s : State} {heap : Nat} {f : Pool → Option (α × Pool)} {r : α}
    {p' : Pool} (h : f (s.pool heap) = some (r, p')) :
    ∃ s', s.withHeap heap f = some (r, s') ∧ s'.pool heap = p' ∧
      ∀ g, g ≠ heap → s'.heap g = s.heap g := by
  refine ⟨⟨p'.mem, Function.update s.heap heap p'.heap⟩, ?_, ?_, fun g hg => ?_⟩
  · unfold State.pool at h
    rw [State.withHeap, h, Option.map_some]
  · simp only [State.pool, Function.update_self]
  · exact Function.update_of_ne hg ..

/-- The header of a payload address. -/
theorem Wf.sub32_header (w : Wf L m rest fl) (hb : b ∈ L.start :: rest) (hne : b ≠ L.tail) :
    sub32 (b + RT_MEMHEAP_SIZE) RT_MEMHEAP_SIZE = b := by
  have h1 := w.gap b hb hne
  have h2 := w.next_le_tail hb
  have h3 := L.tail_le
  unfold sub32 u32 RT_MEMHEAP_SIZE at *
  omega

/-- `rt_memheap_free` on the payload of a block in use: the assertions hold. -/
theorem Inv.rtMemheapFree {s : State} (i : Inv L (s.pool L.heap) rest fl)
    (hl : (s.heap L.heap).lock = 1) (hu : Used L s.mem rest h) (hne : h ≠ L.tail) :
    ∃ s' rest' fl', Memheap.rtMemheapFree (h + RT_MEMHEAP_SIZE) s = some s' ∧
      Inv L (s'.pool L.heap) rest' fl' ∧ (s'.heap L.heap).lock = 1 ∧
      (∀ b, (Used L s'.mem rest' b ↔ Used L s.mem rest b ∧ b ≠ h) ∧
        (Used L s'.mem rest' b → s'.mem.get .next b = s.mem.get .next b)) ∧
      Edits L [] s.mem rest s'.mem rest' ∧ ∀ g, g ≠ L.heap → s'.heap g = s.heap g := by
  obtain ⟨p', rest', fl', hfree, i', hl', hused, hedits⟩ := i.freeBlock hl hu hne
  obtain ⟨s', hs', rfl, hother⟩ := State.withHeap_eq hfree
  refine ⟨s', rest', fl', ?_, i', hl', hused, hedits, hother⟩
  have hptr : h + RT_MEMHEAP_SIZE ≠ 0 := by
    unfold RT_MEMHEAP_SIZE
    omega
  have hpool : s.mem.get .poolPtr h = L.heap := i.wf.pool h hu.1
  rw [Memheap.rtMemheapFree, if_neg hptr]
  simp only [i.wf.sub32_header hu.1 hne, hpool]
  rw [if_pos ⟨tag_mask (i.wf.tag h hu.1), hu.2, tag_mask (i.wf.tag _ (i.wf.next_mem hu.1)),
    L.heap_ne⟩, hs', Option.map_some]

end RTThread.Memheap
