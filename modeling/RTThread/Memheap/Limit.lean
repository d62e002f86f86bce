import RTThread.Memheap.Isolation

set_option autoImplicit false

/-! # Sizes near the 32-bit limit

The functions add to the sizes they are given modulo 2³². Rounding up wraps for the last three sizes,
the test of a growth wraps for rounded sizes that leave no room for the smallest payload, and
`count * size` wraps as it likes. Where the sum in question does not wrap, a call returns `NULL` and
leaves the heaps as they were, or a payload at least as large as it was asked for; a size of zero
makes a reallocation release its block.
-/

namespace RTThread.Memheap

section OneHeap

variable {L : Layout} {rest fl : List Nat} {h size : Nat} {s s' : State}

/-- An allocation that returns `NULL` changes nothing. -/
theorem Inv.alloc_null (i : Inv L (s.pool L.heap) rest fl) (hl : (s.heap L.heap).lock = 1)
    (hnull : s.withHeap L.heap (Memheap.rtMemheapAlloc L.heap size) = some (0, s')) : s' = s := by
  obtain ⟨r, p', halloc, hor⟩ := i.rtMemheapAlloc_first hl (rfl : roundSize size = _)
  have hcall : s.withHeap L.heap (Memheap.rtMemheapAlloc L.heap size) =
      some (r, ⟨p'.mem, Function.update s.heap L.heap p'.heap⟩) := by
    unfold State.pool at halloc
    rw [State.withHeap, halloc, Option.map_some]
  obtain ⟨rfl, rfl⟩ := Prod.mk.inj (Option.some.inj (hcall.symm.trans hnull))
  rcases hor with ⟨-, rfl, -⟩ | ⟨b, -, -, -, hr, -⟩
  · show (⟨s.mem, Function.update s.heap L.heap (s.heap L.heap)⟩ : State) = s
    rw [Function.update_eq_self]
  · exact absurd hr.symm (Nat.succ_ne_zero _)

/-- A reallocation that fails changes nothing. -/
theorem Inv.realloc_null (i : Inv L (s.pool L.heap) rest fl) (hl : (s.heap L.heap).lock = 1)
    (hpos : size ≠ 0)
    (hnull : Memheap.rtMemheapRealloc L.heap (h + RT_MEMHEAP_SIZE) size s = some (0, s')) :
    s' = s := by
  have hptr : h + RT_MEMHEAP_SIZE ≠ 0 := Nat.succ_ne_zero _
  -- every way out but the failed move returns the pointer it was given, or another block
  have hother : ∀ {t : State}, (h + RT_MEMHEAP_SIZE, t) ≠ (0, s') := fun h => hptr (Prod.mk.inj h).1
  simp only [Memheap.rtMemheapRealloc, if_neg hpos, if_neg hptr] at hnull
  split_ifs at hnull with hgrow hlock hnext hcan hkeep
  · obtain ⟨⟨r, p⟩, hg, he⟩ := Option.map_eq_some_iff.mp hnull
    obtain ⟨p₁, -, hp₁⟩ := Option.bind_eq_some_iff.mp hg
    obtain ⟨rfl, -⟩ := Prod.mk.inj (Option.some.inj hp₁)
    exact absurd he hother
  · obtain ⟨⟨r, s₁⟩, halloc, hrest⟩ := Option.bind_eq_some_iff.mp hnull
    by_cases hr : r = 0
    · subst hr
      obtain rfl := i.alloc_null hl halloc
      simpa using hrest.symm
    · simp only [ne_eq, hr, not_false_eq_true, if_true] at hrest
      obtain ⟨s₂, -, hs₂⟩ := Option.bind_eq_some_iff.mp hrest
      exact absurd (Prod.mk.inj (Option.some.inj hs₂)).1 hr
  · exact absurd (Option.some.inj hnull) hother
  · obtain ⟨r, -, he⟩ := Option.map_eq_some_iff.mp hnull
    exact absurd he hother

/-- The functions use a size only through `roundSize`. -/
theorem rtMemheapAlloc_congr {size' : Nat} (h : roundSize size = roundSize size') (heap : Nat) :
    rtMemheapAlloc heap size = rtMemheapAlloc heap size' := by
  funext p
  unfold rtMemheapAlloc
  rw [h]

theorem rtMemheapRealloc_congr {size' : Nat} (h : roundSize size = roundSize size')
    (hpos : size ≠ 0) (hpos' : size' ≠ 0) (heap ptr : Nat) (s : State) :
    rtMemheapRealloc heap ptr size s = rtMemheapRealloc heap ptr size' s := by
  unfold rtMemheapRealloc
  rw [h, if_neg hpos, if_neg hpos']

/-- A size that wraps is rounded to the smallest payload. -/
theorem roundSize_of_wraps (hlt : size < 4294967296) (hwrap : ¬ Rounds size) :
    roundSize size = roundSize RT_MEMHEAP_MINIALLOC := by
  have h : rtAlign size = 0 := by
    unfold Rounds rtAlign u32 RT_ALIGN_SIZE at *
    omega
  unfold roundSize
  rw [h]
  decide

end OneHeap

section Set

variable {H : HeapSet} {s s' : State} {R F : Nat → List Nat} {A : InitArgs} {p n size : Nat}

/-- The call returns and keeps the invariant of all heaps: with `NULL` and nothing changed, or with
a payload in use, of `n` bytes at least where nothing wrapped. -/
def Answers (H : HeapSet) (s : State) (fits : Prop) (n : Nat) (out : Option (Nat × State)) : Prop :=
  ∃ r s' R' F', out = some (r, s') ∧ SetInv H s' R' F' ∧
    (r = 0 ∧ s' = s ∨ H.Live s' R' r ∧ (fits → n ≤ payload s'.mem r))

theorem Answers.mono {fits fits' : Prop} {n' : Nat} {out : Option (Nat × State)}
    (h : Answers H s fits n out) (hle : fits' → fits ∧ n' ≤ n) : Answers H s fits' n' out := by
  obtain ⟨r, s', R', F', hout, hs', hor⟩ := h
  refine ⟨r, s', R', F', hout, hs', hor.imp_right fun hr => ⟨hr.1, fun hf => ?_⟩⟩
  exact (hle hf).2.trans (hr.2 (hle hf).1)

/-- What a call that fails without a trace answers. -/
theorem Effect.answers {R' F' : Nat → List Nat} {x r : Nat} {out : Option (Nat × State)}
    (he : Effect H s R s' R' x r n) (hout : out = some (r, s')) (hs' : SetInv H s' R' F')
    (hnull : r = 0 → s' = s) : Answers H s True n out := by
  refine ⟨r, s', R', F', hout, hs', ?_⟩
  by_cases hr : r = 0
  · exact Or.inl ⟨hr, hnull hr⟩
  · exact Or.inr ⟨(he.live r).mpr (Or.inr ⟨hr, rfl⟩), fun _ => he.room hr⟩

namespace SetInv

/-- `rt_memheap_alloc`, for every size. -/
theorem alloc_answers (hs : SetInv H s R F) (hA : A ∈ H.all) (hlt : size < 4294967296) :
    Answers H s (Rounds size) size (s.withHeap A.heap (rtMemheapAlloc A.heap size)) := by
  have hfits : ∀ {n}, Rounds n → Answers H s True n (s.withHeap A.heap (rtMemheapAlloc A.heap n)) := by
    intro n hn
    obtain ⟨r, s', R', F', hcall, hs', he⟩ := hs.alloc hA hn
    refine he.answers hcall hs' fun hr => ?_
    subst hr
    exact (hs.inv A hA).alloc_null (hs.lock A hA) hcall
  by_cases hr : Rounds size
  · exact (hfits hr).mono fun _ => ⟨trivial, Nat.le_refl _⟩
  · rw [rtMemheapAlloc_congr (roundSize_of_wraps hlt hr)]
    have hmin : Rounds RT_MEMHEAP_MINIALLOC := by decide
    exact (hfits hmin).mono fun h => absurd h hr

/-- `rt_memheap_realloc` to a size that is not zero, of `NULL` or of a pointer in use. -/
theorem realloc_answers (hs : SetInv H s R F) (hA : A ∈ H.all)
    (hp : p = 0 ∨ A.LiveIn s.mem (R A.heap) p ∧ Regrows s.mem p size) (hpos : size ≠ 0)
    (hlt : size < 4294967296) :
    Answers H s (Rounds size) size (rtMemheapRealloc A.heap p size s) := by
  rcases hp with rfl | ⟨hp, hgrow⟩
  · -- `NULL` is reallocated by an allocation of the rounded size
    have hround := roundSize_lt size
    simp only [rtMemheapRealloc, if_neg hpos, if_true]
    have hlt' : roundSize size < 4294967296 := by omega
    exact (hs.alloc_answers hA hlt').mono fun hr => ⟨hround, self_le_roundSize hr⟩
  have hfits : ∀ {n}, Rounds n → n ≠ 0 → Regrows s.mem p n →
      Answers H s True n (rtMemheapRealloc A.heap p n s) := by
    intro n hn hn0 hgrow
    obtain ⟨r, s', R', F', hcall, hs', hor⟩ := hs.memheapRealloc ⟨A, hA, hp⟩ hn hgrow hn0
    rw [hs.poolPtr hA hp] at hcall
    rcases hor with ⟨rfl, -⟩ | ⟨hr, he, -⟩
    · obtain ⟨b, rfl, -, -⟩ := hp
      exact ⟨0, s', R', F', hcall, hs',
        Or.inl ⟨rfl, (hs.inv A hA).realloc_null (hs.lock A hA) hn0 hcall⟩⟩
    · exact he.answers hcall hs' fun h => absurd h hr
  by_cases hr : Rounds size
  · exact (hfits hr hpos hgrow).mono fun _ => ⟨trivial, Nat.le_refl _⟩
  · have hround := roundSize_of_wraps hlt hr
    rw [rtMemheapRealloc_congr hround hpos (by decide)]
    refine (hfits (by decide) (by decide) ?_).mono fun h => absurd h hr
    unfold Regrows
    rw [← hround]
    exact hgrow

/-- The loop over the object list, when no heap has room. -/
theorem mallocOther_null (sysHeap : Nat) {node : List Nat}
    (hnode : ∀ heap ∈ node, ∃ A ∈ H.all, A.heap = heap) (hs : SetInv H s R F)
    (hnull : Memheap.mallocOther sysHeap size node s = some (0, s')) : s' = s := by
  induction node with
  | nil => exact (Prod.mk.inj (Option.some.inj hnull)).2.symm
  | cons heap node ih =>
      have hnode' : ∀ g ∈ node, ∃ A ∈ H.all, A.heap = g := fun g hg =>
        hnode g (List.mem_cons_of_mem _ hg)
      by_cases hsys : heap = sysHeap
      · simp only [Memheap.mallocOther, if_pos hsys] at hnull
        exact ih hnode' hnull
      · obtain ⟨A, hA, rfl⟩ := hnode heap List.mem_cons_self
        simp only [Memheap.mallocOther, if_neg hsys] at hnull
        obtain ⟨⟨r, s₁⟩, halloc, hrest⟩ := Option.bind_eq_some_iff.mp hnull
        by_cases hr : r = 0
        · subst hr
          obtain rfl := (hs.inv A hA).alloc_null (hs.lock A hA) halloc
          exact ih hnode' (by simpa using hrest)
        · simp only [ne_eq, hr, not_false_eq_true, if_true] at hrest
          exact absurd (Prod.mk.inj (Option.some.inj hrest)).1 hr

theorem rtMalloc_null (hs : SetInv H s R F)
    (hnull : Memheap.rtMalloc H.sys.heap H.objectList size s = some (0, s')) : s' = s := by
  obtain ⟨⟨r, s₁⟩, halloc, hrest⟩ := Option.bind_eq_some_iff.mp hnull
  by_cases hr : r = 0
  · subst hr
    obtain rfl := (hs.inv H.sys H.sys_mem).alloc_null (hs.lock _ H.sys_mem) halloc
    exact hs.mallocOther_null H.sys.heap (fun heap hg => HeapSet.mem_objectList hg)
      (by simpa using hrest)
  · simp only [hr, if_false] at hrest
    exact absurd (Prod.mk.inj (Option.some.inj hrest)).1 hr

/-- `rt_calloc`, when the product modulo 2³² can be rounded. -/
theorem calloc_answers (hs : SetInv H s R F) {count : Nat} (hr : Rounds (u32 (count * size))) :
    Answers H s (count * size < 4294967296) (count * size)
      (Memheap.rtCalloc H.sys.heap H.objectList count size s) := by
  have htotal : u32 (count * size) < 4294967296 := Nat.mod_lt _ (by decide)
  have hone : u32 (1 * u32 (count * size)) = u32 (count * size) := by
    rw [Nat.one_mul]
    exact Nat.mod_eq_of_lt htotal
  -- the total is all that counts
  have hcall₁ : Memheap.rtCalloc H.sys.heap H.objectList count size s =
      Memheap.rtCalloc H.sys.heap H.objectList 1 (u32 (count * size)) s := by
    unfold Memheap.rtCalloc
    rw [hone]
  have hlt' : 1 * u32 (count * size) < 4294967296 := by rwa [Nat.one_mul]
  have hr' : Rounds (1 * u32 (count * size)) := by rwa [Nat.one_mul]
  obtain ⟨r, s', R', F', hcall, hs', he, -⟩ := hs.rtCalloc hlt' hr'
  rw [hcall₁]
  refine (he.answers hcall hs' fun hr0 => ?_).mono fun hlt => ⟨trivial, ?_⟩
  · subst hr0
    obtain ⟨⟨r, s₁⟩, hmalloc, hrest⟩ := Option.bind_eq_some_iff.mp hcall
    by_cases hr : r = 0
    · subst hr
      obtain rfl := hs.rtMalloc_null hmalloc
      simpa using hrest.symm
    · simp only [ne_eq, hr, not_false_eq_true, if_true] at hrest
      exact absurd (Prod.mk.inj (Option.some.inj hrest)).1 hr
  · rw [Nat.one_mul]
    exact (Nat.mod_eq_of_lt hlt).ge

end SetInv

/-- **Sizes near the 32-bit limit.** On heaps that satisfy the invariant, an allocation keeps it for
every size, and returns `NULL` and changes nothing or, when rounding up does not wrap, a payload of
at least the size asked for; so does a reallocation to a size other than zero whose test of the
growth does not wrap, and a clearing allocation in terms of the product. A reallocation to zero
releases its block. -/
theorem sizes_near_limit (H : HeapSet) {s : State} {R F : Nat → List Nat} (hs : SetInv H s R F)
    {A : InitArgs} (hA : A ∈ H.all) :
    (∀ size, size < 4294967296 →
      Answers H s (Rounds size) size (s.withHeap A.heap (rtMemheapAlloc A.heap size))) ∧
    (∀ ptr newsize, ptr = 0 ∨ A.LiveIn s.mem (R A.heap) ptr ∧ Regrows s.mem ptr newsize →
      newsize ≠ 0 → newsize < 4294967296 →
      Answers H s (Rounds newsize) newsize (rtMemheapRealloc A.heap ptr newsize s)) ∧
    (∀ ptr, ptr = 0 ∨ A.LiveIn s.mem (R A.heap) ptr → ∃ s' R' F',
      rtMemheapRealloc A.heap ptr 0 s = some (0, s') ∧ SetInv H s' R' F' ∧
        ∀ p, H.Live s' R' p ↔ H.Live s R p ∧ p ≠ ptr) ∧
    (∀ count size, Rounds (u32 (count * size)) →
      Answers H s (count * size < 4294967296) (count * size)
        (rtCalloc H.sys.heap H.objectList count size s)) := by
  refine ⟨fun size hlt => hs.alloc_answers hA hlt,
    fun ptr newsize hp hpos hlt => hs.realloc_answers hA hp hpos hlt, fun ptr hp => ?_,
    fun count size hr => hs.calloc_answers hr⟩
  rcases hp with rfl | hp
  · refine ⟨s, R, F, ?_, hs, fun p => (and_iff_left_of_imp HeapSet.Live.ne_zero).symm⟩
    simp [rtMemheapRealloc, rtMemheapFree]
  · obtain ⟨s', R', F', hfree, hs', he⟩ := hs.rtFree ⟨A, hA, hp⟩
    refine ⟨s', R', F', ?_, hs', fun p => (he.live p).trans ?_⟩
    · have hfree' : rtMemheapFree ptr s = some s' := hfree
      simp [rtMemheapRealloc, hfree']
    · constructor
      · rintro (h | h)
        · exact h
        · exact absurd rfl h.1
      · exact Or.inl

end Set

/-! ## The two pools of a kilobyte -/

/-- A block of 100 bytes in the first pool. -/
theorem twoPools_block : ∃ (s : State) (R F : Nat → List Nat), SetInv twoPools s R F ∧
    smallPool.LiveIn s.mem (R smallPool.heap) 8216 ∧ isUsed s.mem 8192 ∧
    ((rtMemheapRealloc smallPool.heap 8216 0 s).map fun r =>
      decide (r.1 = 0 ∧ ¬ isUsed r.2.mem 8192)) = some true ∧
    ((s.withHeap smallPool.heap (rtMemheapAlloc smallPool.heap 4294967295)).map fun r =>
      decide (r.1 ≠ 0 ∧ payload r.2.mem r.1 = 12)) = some true ∧
    ((rtCalloc smallPool.heap twoPools.objectList 2 2147483650 s).map fun r =>
      decide (r.1 ≠ 0 ∧ payload r.2.mem r.1 = 12)) = some true := by
  have hrun : (((Call.malloc 100).exec twoPools twoPoolsInit).map fun r =>
      decide ((Call.malloc 100).Allowed twoPoolsInit ∧ (r.2.live 8216).isSome ∧
        isUsed r.2.state.mem 8192 ∧
        ((rtMemheapRealloc smallPool.heap 8216 0 r.2.state).map fun r =>
          decide (r.1 = 0 ∧ ¬ isUsed r.2.mem 8192)) = some true ∧
        ((r.2.state.withHeap smallPool.heap (rtMemheapAlloc smallPool.heap 4294967295)).map fun r =>
          decide (r.1 ≠ 0 ∧ payload r.2.mem r.1 = 12)) = some true ∧
        ((rtCalloc smallPool.heap twoPools.objectList 2 2147483650 r.2.state).map fun r =>
          decide (r.1 ≠ 0 ∧ payload r.2.mem r.1 = 12)) = some true)) = some true := by
    decide +kernel
  obtain ⟨⟨r, t⟩, hexec, hall⟩ := Option.map_eq_some_iff.mp hrun
  obtain ⟨hallowed, hlive, hused, hviews⟩ := of_decide_eq_true hall
  have hinit : twoPools.Init twoPoolsInit := ⟨⟨_, rfl⟩, fun _ => rfl⟩
  obtain ⟨R, F, hs⟩ := twoPools.reachable_inv
    ((Trans.Reachable.init hinit).step ⟨hallowed, r, hexec⟩)
  refine ⟨t.state, R, F, hs.set, ?_, hused, hviews⟩
  -- the block lies in the first pool
  obtain ⟨A, hA, hp⟩ := (hs.live 8216).mpr hlive
  rcases List.mem_pair.mp hA with rfl | rfl
  · exact hp
  · obtain ⟨b, hb, hu, -⟩ := hp
    have hlow : 16384 ≤ b := ((hs.set.wf hA).range b hu.1).1
    unfold RT_MEMHEAP_SIZE at hb
    omega

/-- A request that fails, a reallocation of a block in use, and a clearing allocation. -/
theorem sizes_near_limit_twoPools : ∃ (s : State) (R : Nat → List Nat),
    smallPool.LiveIn s.mem (R smallPool.heap) 8216 ∧
    Answers twoPools s (Rounds 4294967292) 4294967292
      (s.withHeap smallPool.heap (rtMemheapAlloc smallPool.heap 4294967292)) ∧
    Answers twoPools s (Rounds 200) 200 (rtMemheapRealloc smallPool.heap 8216 200 s) ∧
    Answers twoPools s (10 * 12 < 4294967296) (10 * 12)
      (rtCalloc twoPools.sys.heap twoPools.objectList 10 12 s) := by
  obtain ⟨s, R, F, hs, hp, -⟩ := twoPools_block
  have hgrow : Regrows s.mem 8216 200 := fun _ => by decide
  obtain ⟨halloc, hrealloc, -, hcalloc⟩ :=
    sizes_near_limit twoPools hs (A := smallPool) List.mem_cons_self
  exact ⟨s, R, hp, halloc _ (by decide),
    hrealloc 8216 200 (Or.inr ⟨hp, hgrow⟩) (by decide) (by decide), hcalloc 10 12 (by decide)⟩

/-- A reallocation to zero returns `NULL` and changes the heap; an allocation of `2³² - 1` bytes and
a clearing allocation of twice `2³¹ + 2` bytes return a payload of 12 bytes. -/
theorem small_blocks_near_limit : ∃ (s : State) (R F : Nat → List Nat), SetInv twoPools s R F ∧
    smallPool.LiveIn s.mem (R smallPool.heap) 8216 ∧
    ¬ Answers twoPools s True 0 (rtMemheapRealloc smallPool.heap 8216 0 s) ∧
    ¬ Answers twoPools s True 4294967295
      (s.withHeap smallPool.heap (rtMemheapAlloc smallPool.heap 4294967295)) ∧
    ¬ Answers twoPools s True (2 * 2147483650)
      (rtCalloc twoPools.sys.heap twoPools.objectList 2 2147483650 s) := by
  obtain ⟨s, R, F, hs, hp, hused, hfree, halloc, hcalloc⟩ := twoPools_block
  have hsmall : ∀ {n : Nat} {out : Option (Nat × State)}, 12 < n →
      (out.map fun r => decide (r.1 ≠ 0 ∧ payload r.2.mem r.1 = 12)) = some true →
      ¬ Answers twoPools s True n out := by
    rintro n out hn hview ⟨r, s', R', F', rfl, -, hor⟩
    obtain ⟨hr, hpay⟩ := of_decide_eq_true (Option.some.inj hview)
    rcases hor with ⟨h0, -⟩ | ⟨-, hroom⟩
    · exact hr h0
    · have hpay' : payload s'.mem r = 12 := hpay
      have hle := hroom trivial
      omega
  refine ⟨s, R, F, hs, hp, ?_, hsmall (by decide) halloc, hsmall (by decide) hcalloc⟩
  rintro ⟨r, s', R', F', hout, -, hor⟩
  rw [hout] at hfree
  obtain ⟨rfl, hfreed⟩ := of_decide_eq_true (Option.some.inj hfree)
  rcases hor with ⟨-, rfl⟩ | ⟨hlive, -⟩
  · exact hfreed hused
  · exact hlive.ne_zero rfl

end RTThread.Memheap
