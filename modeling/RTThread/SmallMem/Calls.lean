import RTThread.SmallMem.Malloc

set_option autoImplicit false

/-! # The calls of the small-memory allocator

`Inv` is the invariant of the heap between calls. Every function returns, keeps `Inv`, and has a known
effect on the pointers in use; `rt_malloc` does not return when the region is too small for the
smallest payload, since the bound of its search then wraps around.
-/

namespace RTThread.SmallMem

variable {m m' : Mem} {E : Nat} {rest rest' l : List Nat} {a b p r x mem size : Nat} {h h' : Heap}

/-- **The invariant of the heap**. -/
structure Inv (h : Heap) (rest : List Nat) : Prop extends Base h rest where
  adj : ∀ a ∈ 0 :: rest, NoFreeBehind h.mem a
  pos : ∀ b, Used h.mem rest b → b + SIZEOF_STRUCT_MEM < h.mem.get .next b
  sem : h.heapSem = 1

/-- Taking and releasing the semaphore. -/
theorem Base.setSem (i : Base h rest) (v : Nat) : Base { h with heapSem := v } rest :=
  ⟨i.wf, i.lfree, i.usedMem, i.maxMem, i.used_le, i.heapEnd, i.heapPtr, i.lt⟩

theorem semTake_eq (hs : h.heapSem = 1) : h.semTake = some { h with heapSem := 0 } := by
  simp [Heap.semTake, hs]

/-! ## Pointers in use -/

/-- The size of the payload at `p`, as its header has it. -/
def payload (h : Heap) (p : Nat) : Nat :=
  h.mem.get .next (headerOf h p) - headerOf h p - SIZEOF_STRUCT_MEM

/-- `p` is the payload of a block in use. -/
def Live (h : Heap) (rest : List Nat) (p : Nat) : Prop :=
  ∃ b, p = h.heapPtr + b + SIZEOF_STRUCT_MEM ∧ Used h.mem rest b

/-- What the callers see of the heap. -/
def view : Handles.View (Heap × List Nat) where
  live := fun s p => Live s.1 s.2 p
  size := fun s p => payload s.1 p
  same := fun s s' p => payload s'.1 p = payload s.1 p
  ne_zero := by
    rintro s p ⟨b, rfl, -⟩
    unfold SIZEOF_STRUCT_MEM
    omega
  same_trans := fun h h' => h'.trans h
  same_size := fun h => h

/-- What a call does to the blocks in use. -/
abbrev Effect (h : Heap) (rest : List Nat) (h' : Heap) (rest' : List Nat) (x r n : Nat) : Prop :=
  Handles.Effect view (h, rest) (h', rest') x r n

theorem Base.headerOf_eq (i : Base h rest) (hb : b ∈ 0 :: rest) :
    headerOf h (h.heapPtr + b + SIZEOF_STRUCT_MEM) = b := by
  have h₁ := i.lt
  have h₂ := i.wf.lt_end hb
  unfold headerOf Memheap.sub32 Memheap.u32 SIZEOF_STRUCT_MEM at *
  omega

theorem Base.add_payload (i : Base h rest) (hb : b ∈ 0 :: rest) :
    b + SIZEOF_STRUCT_MEM + payload h (h.heapPtr + b + SIZEOF_STRUCT_MEM) = h.mem.get .next b := by
  have h₁ := i.wf.gap b hb
  unfold payload
  rw [i.headerOf_eq hb]
  omega

/-- A block in use that keeps its link keeps its payload. -/
theorem Base.payload_eq (i : Base h rest) (i' : Base h' rest') (hs : SameHeap h h')
    (hb : b ∈ 0 :: rest) (hb' : b ∈ 0 :: rest') (hn : h'.mem.get .next b = h.mem.get .next b) :
    payload h' (h.heapPtr + b + SIZEOF_STRUCT_MEM) =
      payload h (h.heapPtr + b + SIZEOF_STRUCT_MEM) := by
  have h₁ := i.add_payload hb
  have h₂ := i'.add_payload hb'
  rw [hs.heapPtr] at h₂
  omega

theorem SameHeap.trans {h'' : Heap} (hs : SameHeap h h') (hs' : SameHeap h' h'') : SameHeap h h'' :=
  ⟨hs'.heapPtr.trans hs.heapPtr, hs'.heapEnd.trans hs.heapEnd,
    hs'.memSizeAligned.trans hs.memSizeAligned⟩

/-- A pointer is live when its block is in use. -/
theorem live_add (hs : SameHeap h h') :
    Live h' rest' (h.heapPtr + b + SIZEOF_STRUCT_MEM) ↔ Used h'.mem rest' b := by
  constructor
  · rintro ⟨c, hc, hu⟩
    rw [hs.heapPtr] at hc
    have hbc : b = c := by omega
    exact hbc ▸ hu
  · exact fun hu => ⟨b, by rw [hs.heapPtr], hu⟩

/-- Two heaps at one address have the same pointers if they have the same blocks in use. -/
theorem exists_block (hs : SameHeap h h') (hp : Live h' rest' p) :
    ∃ b, p = h.heapPtr + b + SIZEOF_STRUCT_MEM ∧ Used h'.mem rest' b := by
  obtain ⟨b, hb, hu⟩ := hp
  rw [hs.heapPtr] at hb
  exact ⟨b, hb, hu⟩

theorem ptr_ne_zero (h : Heap) (b : Nat) : h.heapPtr + b + SIZEOF_STRUCT_MEM ≠ 0 := by
  unfold SIZEOF_STRUCT_MEM
  omega

/-- A call that changes no block in use. -/
theorem Base.effect_same (i : Base h rest) (i' : Base h' rest') (hs : SameHeap h h')
    (hu : SameUsed h.mem rest h'.mem rest') : Effect h rest h' rest' 0 0 size := by
  refine ⟨fun p => ?_, ?_, fun h => absurd rfl h, fun h => absurd rfl h⟩
  · constructor
    · intro hp
      obtain ⟨b, rfl, hb⟩ := exists_block hs hp
      exact Or.inl ⟨⟨b, rfl, (hu b).1.mp hb⟩, ptr_ne_zero h b⟩
    · rintro (⟨⟨b, rfl, hb⟩, -⟩ | hp)
      · exact (live_add hs).mpr ((hu b).1.mpr hb)
      · exact absurd rfl hp.1
  · rintro p ⟨b, rfl, hb⟩ -
    exact i.payload_eq i' hs hb.1 ((hu b).1.mpr hb).1 ((hu b).2 hb)

/-- A call that takes the block `mem`. -/
theorem Base.effect_take (i : Base h rest) (i' : Base h' rest') (hs : SameHeap h h')
    (hnew : ¬ Used h.mem rest mem)
    (hused : ∀ b, Used h'.mem rest' b ↔ Used h.mem rest b ∨ b = mem)
    (hnext : ∀ b, Used h.mem rest b → h'.mem.get .next b = h.mem.get .next b)
    (hroom : mem + SIZEOF_STRUCT_MEM + size ≤ h'.mem.get .next mem) :
    Effect h rest h' rest' 0 (h.heapPtr + mem + SIZEOF_STRUCT_MEM) size := by
  have hmem : Used h'.mem rest' mem := (hused mem).mpr (Or.inr rfl)
  refine ⟨fun p => ?_, ?_, fun _ _ hp => hnew ?_, fun _ => ?_⟩
  · constructor
    · intro hp
      obtain ⟨b, rfl, hb⟩ := exists_block hs hp
      rcases (hused b).mp hb with hb | rfl
      · exact Or.inl ⟨⟨b, rfl, hb⟩, ptr_ne_zero h b⟩
      · exact Or.inr ⟨ptr_ne_zero h b, rfl⟩
    · rintro (⟨⟨b, rfl, hb⟩, -⟩ | ⟨-, rfl⟩)
      · exact (live_add hs).mpr ((hused b).mpr (Or.inl hb))
      · exact (live_add hs).mpr hmem
  · rintro p ⟨b, rfl, hb⟩ -
    exact i.payload_eq i' hs hb.1 ((hused b).mpr (Or.inl hb)).1 (hnext b hb)
  · exact (live_add ⟨rfl, rfl, rfl⟩).mp hp
  · have h₁ := i'.add_payload hmem.1
    rw [hs.heapPtr] at h₁
    change size ≤ payload h' (h.heapPtr + mem + SIZEOF_STRUCT_MEM)
    omega

/-- A call that gives the block `mem` back. -/
theorem Base.effect_drop (i : Base h rest) (i' : Base h' rest') (hs : SameHeap h h')
    (hused : ∀ b, Used h'.mem rest' b ↔ Used h.mem rest b ∧ b ≠ mem)
    (hnext : ∀ b, Used h'.mem rest' b → h'.mem.get .next b = h.mem.get .next b) :
    Effect h rest h' rest' (h.heapPtr + mem + SIZEOF_STRUCT_MEM) 0 0 := by
  have hne : ∀ b, h.heapPtr + b + SIZEOF_STRUCT_MEM ≠ h.heapPtr + mem + SIZEOF_STRUCT_MEM ↔
      b ≠ mem := fun b => by omega
  refine ⟨fun p => ?_, ?_, fun h => absurd rfl h, fun h => absurd rfl h⟩
  · constructor
    · intro hp
      obtain ⟨b, rfl, hb⟩ := exists_block hs hp
      exact Or.inl ⟨⟨b, rfl, ((hused b).mp hb).1⟩, (hne b).mpr ((hused b).mp hb).2⟩
    · rintro (⟨⟨b, rfl, hb⟩, hbm⟩ | hp)
      · exact (live_add hs).mpr ((hused b).mpr ⟨hb, (hne b).mp hbm⟩)
      · exact absurd rfl hp.1
  · rintro p ⟨b, rfl, hb⟩ hbm
    have hb' := (hused b).mpr ⟨hb, (hne b).mp hbm⟩
    exact i.payload_eq i' hs hb.1 hb'.1 (hnext b hb')

/-- A call that changes the size of the block `mem` in place. -/
theorem Base.effect_resize (i : Base h rest) (i' : Base h' rest') (hs : SameHeap h h')
    (hmem : Used h.mem rest mem) (hused : ∀ b, Used h'.mem rest' b ↔ Used h.mem rest b)
    (hnext : ∀ b, Used h.mem rest b → b ≠ mem → h'.mem.get .next b = h.mem.get .next b)
    (hroom : mem + SIZEOF_STRUCT_MEM + size ≤ h'.mem.get .next mem) :
    Effect h rest h' rest' (h.heapPtr + mem + SIZEOF_STRUCT_MEM)
      (h.heapPtr + mem + SIZEOF_STRUCT_MEM) size := by
  refine ⟨fun p => ?_, ?_, fun _ h => absurd rfl h, fun _ => ?_⟩
  · constructor
    · intro hp
      obtain ⟨b, rfl, hb⟩ := exists_block hs hp
      by_cases hbm : b = mem
      · exact Or.inr ⟨ptr_ne_zero h mem, by rw [hbm]⟩
      · exact Or.inl ⟨⟨b, rfl, (hused b).mp hb⟩, by omega⟩
    · rintro (⟨⟨b, rfl, hb⟩, -⟩ | ⟨-, rfl⟩)
      · exact (live_add hs).mpr ((hused b).mpr hb)
      · exact (live_add hs).mpr ((hused mem).mpr hmem)
  · rintro p ⟨b, rfl, hb⟩ hbm
    have hne : b ≠ mem := fun e => hbm (e ▸ rfl)
    exact i.payload_eq i' hs hb.1 ((hused b).mpr hb).1 (hnext b hb hne)
  · have h₁ := i'.add_payload ((hused mem).mpr hmem).1
    rw [hs.heapPtr] at h₁
    change size ≤ payload h' (h.heapPtr + mem + SIZEOF_STRUCT_MEM)
    omega

/-! ## `rt_malloc` -/

/-- The block that was found, marked; `lfree` and the magic number are not updated yet. -/
def markBlock (h : Heap) (mem size : Nat) : Heap :=
  if Memheap.sub32 (h.mem.get .next mem) (Memheap.u32 (mem + SIZEOF_STRUCT_MEM)) ≥
      Memheap.u32 (size + SIZEOF_STRUCT_MEM + MIN_SIZE_ALIGNED) then
    mallocSplit h mem size
  else mallocWhole h mem

theorem Base.markBlock (i : Base h rest) (hadj : ∀ a ∈ 0 :: rest, NoFreeBehind h.mem a)
    (hm : mem ∈ 0 :: rest) (hu : h.mem.get .used mem = 0) (hal : size % 4 = 0)
    (hfit : mem + SIZEOF_STRUCT_MEM + size ≤ h.mem.get .next mem) :
    ∃ rest', Marked h rest (SmallMem.markBlock h mem size) rest' mem size := by
  have hle := i.wf.next_le_end hm
  have hlt := i.lt
  unfold SmallMem.markBlock
  split_ifs with hc
  · refine i.mallocSplit hadj hm hu hal ?_
    unfold Memheap.sub32 Memheap.u32 SIZEOF_STRUCT_MEM MIN_SIZE_ALIGNED at *
    omega
  · exact ⟨rest, i.mallocWhole hadj hm hu hfit⟩

/-- What is left to do once the block is marked: its magic number is already there. -/
theorem Marked.takeBlock_eq (mk : Marked h rest (SmallMem.markBlock h mem size) rest' mem size)
    {h₁ : Heap} (hh₁ : h₁ = SmallMem.markBlock h mem size) :
    SmallMem.takeBlock h mem size =
      if mem = h₁.lfree then (nextFree h₁ h₁.steps h₁.lfree).bind fun lfree =>
        if lfree = h₁.heapEnd ∨ h₁.mem.get .used lfree = 0 then some { h₁ with lfree := lfree }
        else none
      else some h₁ := by
  have hm' : Used (SmallMem.markBlock h mem size).mem rest' mem := (mk.used_iff mem).mpr (Or.inr rfl)
  rw [← hh₁] at mk hm'
  have hmagic : h₁.mem.set .magic mem HEAP_MAGIC = h₁.mem :=
    Fields.set_eq_self (mk.wf.magic mem hm'.1)
  unfold SmallMem.markBlock at hh₁
  simp only [SmallMem.takeBlock, ← hh₁, hmagic]
  rfl

/-- The block that was found is taken. -/
theorem Base.takeBlock (i : Base h rest) (hadj : ∀ a ∈ 0 :: rest, NoFreeBehind h.mem a)
    (hm : mem ∈ 0 :: rest) (hu : h.mem.get .used mem = 0) (hal : size % 4 = 0)
    (hfit : mem + SIZEOF_STRUCT_MEM + size ≤ h.mem.get .next mem) :
    ∃ h' rest', SmallMem.takeBlock h mem size = some h' ∧ Base h' rest' ∧
      (∀ a ∈ 0 :: rest', NoFreeBehind h'.mem a) ∧ SameHeap h h' ∧ h'.heapSem = h.heapSem ∧
      (∀ b, Used h'.mem rest' b ↔ Used h.mem rest b ∨ b = mem) ∧
      (∀ b, Used h.mem rest b → h'.mem.get .next b = h.mem.get .next b) ∧
      mem + SIZEOF_STRUCT_MEM + size ≤ h'.mem.get .next mem ∧
      (Lowest h.mem rest h.lfree → Lowest h'.mem rest' h'.lfree) := by
  have hlt := i.lt
  obtain ⟨rest', mk⟩ := i.markBlock hadj hm hu hal hfit
  obtain ⟨h₁, hh₁⟩ : ∃ h₁, h₁ = SmallMem.markBlock h mem size := ⟨_, rfl⟩
  have htake := mk.takeBlock_eq hh₁
  rw [← hh₁] at mk
  have hm' : Used h₁.mem rest' mem := (mk.used_iff mem).mpr (Or.inr rfl)
  have hbase : ∀ lfree, (lfree = h₁.heapEnd ∨ lfree ∈ 0 :: rest' ∧ h₁.mem.get .used lfree = 0) →
      Base { h₁ with lfree := lfree } rest' := fun lfree hl => by
    refine ⟨mk.wf, hl, mk.usedMem, mk.maxMem, mk.used_le, ?_, ?_, ?_⟩
    · exact mk.same.heapEnd.trans (i.heapEnd.trans (congrArg (· + _) mk.same.memSizeAligned.symm))
    · exact (congrArg (· % 4) mk.same.heapPtr).trans i.heapPtr
    · change h₁.heapPtr + h₁.heapEnd + SIZEOF_STRUCT_MEM < 4294967296
      rw [mk.same.heapPtr, mk.same.heapEnd]
      exact hlt
  rw [htake, mk.lfree]
  by_cases hl : mem = h.lfree
  · rw [if_pos hl]
    obtain ⟨l, hp, hsub, hlen, hsup⟩ := mk.wf.exists_path hm'.1
    have hcount := mk.wf.length_le
    have hE : h₁.heapEnd = h₁.memSizeAligned + SIZEOF_STRUCT_MEM :=
      (hbase h₁.heapEnd (Or.inl rfl)).heapEnd
    have hfuel : l.length + 2 ≤ h₁.steps := by
      unfold Heap.steps
      unfold SIZEOF_STRUCT_MEM at hcount hE
      rw [List.length_cons] at hcount
      omega
    obtain ⟨lfree, hnext, hor, hfirst⟩ :=
      nextFree_some hp (fun c hc => mk.wf.lt_next (hsub c hc)) hfuel
    have hor' : lfree = h₁.heapEnd ∨ lfree ∈ 0 :: rest' ∧ h₁.mem.get .used lfree = 0 :=
      hor.imp_right fun hc => ⟨hsub _ hc.1, hc.2⟩
    rw [← hl, hnext, Option.bind_some]
    refine ⟨{ h₁ with lfree := lfree }, rest', ?_, hbase lfree hor', mk.adj, ⟨mk.same.heapPtr,
      mk.same.heapEnd, mk.same.memSizeAligned⟩, mk.heapSem, mk.used_iff, mk.next, mk.room,
      fun hlow b hb hbu => hfirst b (hsup b hb ?_) hbu⟩
    · exact if_pos (hor'.imp_right fun hc => hc.2)
    · -- no free block is below the one that was taken
      rcases mk.free_or b hb hbu with ⟨hb₀, hbu₀⟩ | hlt
      · exact hl ▸ hlow b hb₀ hbu₀
      · exact hlt.le
  · rw [if_neg hl]
    refine ⟨h₁, rest', rfl, hbase h₁.lfree ?_, mk.adj, mk.same, mk.heapSem, mk.used_iff, mk.next,
      mk.room, fun hlow b hb hbu => ?_⟩
    · rw [mk.lfree, mk.same.heapEnd]
      rcases i.lfree with hE | ⟨hb, hbu⟩
      · exact Or.inl hE
      · exact Or.inr (mk.free _ hb hbu (Ne.symm hl))
    · rw [mk.lfree]
      rcases mk.free_or b hb hbu with ⟨hb₀, hbu₀⟩ | hlt
      · exact hlow b hb₀ hbu₀
      · exact (hlow mem hm hu).trans hlt.le

theorem mallocSize_spec (hsize : size + 3 < 4294967296) :
    size ≤ mallocSize size ∧ mallocSize size % 4 = 0 ∧ MIN_SIZE_ALIGNED ≤ mallocSize size := by
  unfold mallocSize Memheap.rtAlign Memheap.u32 Memheap.RT_ALIGN_SIZE MIN_SIZE_ALIGNED
  split_ifs <;> omega

theorem SameHeap.refl (h : Heap) : SameHeap h h := ⟨rfl, rfl, rfl⟩

/-- A call that changes nothing. -/
theorem Inv.effect_refl (i : Inv h rest) : Effect h rest h rest 0 0 size :=
  i.effect_same i.toBase (.refl h) (SameUsed.refl _ _)

/-- When the smallest payload fits into the region, the search ends. -/
theorem Base.searchFree_isSome (i : Base h rest) (hmin : MIN_SIZE_ALIGNED ≤ h.memSizeAligned)
    (hal : Memheap.rtAlign size ≤ h.memSizeAligned) :
    (searchFree h (mallocSize size) h.steps h.lfree).isSome := by
  have hE := i.heapEnd
  have hlt := i.lt
  have hend : ¬ h.heapEnd < Memheap.sub32 h.memSizeAligned (mallocSize size) := by
    have hle : mallocSize size ≤ h.memSizeAligned := by
      unfold mallocSize
      split_ifs <;> assumption
    unfold Memheap.sub32 Memheap.u32 SIZEOF_STRUCT_MEM at *
    omega
  rcases i.lfree with hl | ⟨hl, -⟩
  · obtain ⟨fuel, hfuel⟩ : ∃ n, h.steps = n + 1 := ⟨_, rfl⟩
    rw [hfuel, hl, searchFree, if_neg hend]
    rfl
  · obtain ⟨l, hp, -, hlen⟩ := i.wf.exists_path hl
    have hcount := i.wf.length_le
    refine SmallMem.searchFree_isSome hend hp ?_
    unfold Heap.steps
    unfold SIZEOF_STRUCT_MEM at hcount hE
    rw [List.length_cons] at hcount
    omega

/-- The search does not look at the semaphore. -/
theorem searchFree_setSem (h : Heap) (v size fuel a : Nat) :
    searchFree { h with heapSem := v } size fuel a = searchFree h size fuel a := by
  induction fuel generalizing a with
  | zero => rfl
  | succ fuel ih => simp only [searchFree, ih]

/-- `rt_malloc` does what its search says. -/
theorem Inv.rtMalloc_search (i : Inv h rest) (hsize : size + 3 < 4294967296) (hz : size ≠ 0)
    (hbig : Memheap.rtAlign size ≤ h.memSizeAligned) :
    (searchFree h (mallocSize size) h.steps h.lfree = none ∧ SmallMem.rtMalloc size h = none) ∨
    (searchFree h (mallocSize size) h.steps h.lfree = some none ∧
      SmallMem.rtMalloc size h = some (0, h)) ∨
    ∃ mem h' rest', searchFree h (mallocSize size) h.steps h.lfree = some (some mem) ∧
      SmallMem.rtMalloc size h = some (h.heapPtr + mem + SIZEOF_STRUCT_MEM, h') ∧ Inv h' rest' ∧
      SameHeap h h' ∧ Effect h rest h' rest' 0 (h.heapPtr + mem + SIZEOF_STRUCT_MEM) size ∧
      (Lowest h.mem rest h.lfree → Lowest h'.mem rest' h'.lfree) := by
  unfold SmallMem.rtMalloc
  rw [if_neg hz, if_neg (not_lt.mpr hbig), semTake_eq i.sem]
  have i₀ := i.toBase.setSem 0
  have hsearch := searchFree_setSem h 0 (mallocSize size) h.steps h.lfree
  set h₀ : Heap := { h with heapSem := 0 } with hh₀
  obtain ⟨hge, hal, hmin⟩ := mallocSize_spec hsize
  simp only [Option.bind_eq_bind, Option.bind_some]
  rw [← hsearch]
  change (searchFree h₀ (mallocSize size) h₀.steps h₀.lfree = none ∧ _) ∨ (searchFree h₀
    (mallocSize size) h₀.steps h₀.lfree = some none ∧ _) ∨ ∃ mem h' rest', searchFree h₀
    (mallocSize size) h₀.steps h₀.lfree = some (some mem) ∧ _
  cases hs : searchFree h₀ (mallocSize size) h₀.steps h₀.lfree with
  | none => exact Or.inl ⟨rfl, rfl⟩
  | some found =>
      simp only [Option.bind_some]
      cases found with
      | none =>
          have heq : h₀.semRelease = h := by
            simp only [hh₀, Heap.semRelease, Nat.zero_add, ← i.sem]
          exact Or.inr (Or.inl ⟨rfl, by simp only [heq]⟩)
      | some mem =>
          obtain ⟨hm, hu, hfit⟩ := i₀.wf.searchFree_some i₀.lfree_pos hs
          obtain ⟨h₁, rest', htake, i₁, hadj, hsame, hsem, hused, hnext, hroom, hlow⟩ :=
            i₀.takeBlock i.adj hm hu hal hfit
          have hm₁ : Used h₁.mem rest' mem := (hused mem).mpr (Or.inr rfl)
          have hle := i₁.wf.next_le_end hm₁.1
          have hlt := i₁.lt
          have hal₁ := i₁.wf.aligned mem hm₁.1
          have hptr := i₁.heapPtr
          have hsame' : SameHeap h h₁.semRelease :=
            ⟨hsame.heapPtr, hsame.heapEnd, hsame.memSizeAligned⟩
          have hptr' : h₁.heapPtr = h.heapPtr := hsame.heapPtr
          have hu32 : Memheap.u32 (h₁.heapPtr + mem + SIZEOF_STRUCT_MEM) =
              h.heapPtr + mem + SIZEOF_STRUCT_MEM := by
            rw [← hptr']
            refine Nat.mod_eq_of_lt ?_
            omega
          have hassert : h₁.heapPtr + mem + SIZEOF_STRUCT_MEM + mallocSize size ≤
              h₁.heapPtr + h₁.heapEnd ∧
              (h₁.heapPtr + mem + SIZEOF_STRUCT_MEM) % Memheap.RT_ALIGN_SIZE = 0 ∧
              (h₁.heapPtr + mem) % Memheap.RT_ALIGN_SIZE = 0 := by
            unfold SIZEOF_STRUCT_MEM Memheap.RT_ALIGN_SIZE at *
            omega
          refine Or.inr (Or.inr ⟨mem, h₁.semRelease, rest', rfl, ?_,
            ⟨i₁.setSem _, hadj, fun b hb => ?_, congrArg (· + 1) hsem⟩, hsame',
            i.toBase.effect_take (i₁.setSem _) hsame' (fun hc => hc.2 hu) hused hnext ?_, hlow⟩)
          · simp only [htake, Option.bind_some, Heap.semRelease, hu32]
            exact if_pos hassert
          · change b + SIZEOF_STRUCT_MEM < h₁.mem.get .next b
            rcases (hused b).mp hb with hb | rfl
            · rw [hnext b hb]
              exact i.pos b hb
            · unfold MIN_SIZE_ALIGNED at hmin
              omega
          · change mem + SIZEOF_STRUCT_MEM + size ≤ h₁.mem.get .next mem
            omega

/-- **`rt_malloc`** returns when the smallest payload fits into the region. -/
theorem Inv.rtMalloc (i : Inv h rest) (hsize : size + 3 < 4294967296) :
    (SmallMem.rtMalloc size h = none ∧ h.memSizeAligned < MIN_SIZE_ALIGNED) ∨
      ∃ r h' rest', SmallMem.rtMalloc size h = some (r, h') ∧ Inv h' rest' ∧ SameHeap h h' ∧
        Effect h rest h' rest' 0 r size ∧
        (Lowest h.mem rest h.lfree → Lowest h'.mem rest' h'.lfree) := by
  by_cases hz : size = 0
  · refine Or.inr ⟨0, h, rest, ?_, i, .refl h, i.effect_refl, id⟩
    rw [SmallMem.rtMalloc, if_pos hz]
  by_cases hbig : Memheap.rtAlign size > h.memSizeAligned
  · refine Or.inr ⟨0, h, rest, ?_, i, .refl h, i.effect_refl, id⟩
    rw [SmallMem.rtMalloc, if_neg hz, if_pos hbig]
  rcases i.rtMalloc_search hsize hz (not_lt.mp hbig) with
    ⟨hs, hnone⟩ | ⟨-, hnull⟩ | ⟨mem, h', rest', -, heq, hrest⟩
  · -- the bound of the search has wrapped around
    refine Or.inl ⟨hnone, ?_⟩
    by_contra hlt
    have h₁ := i.searchFree_isSome (not_lt.mp hlt) (not_lt.mp hbig)
    rw [hs] at h₁
    exact absurd h₁ (by simp)
  · exact Or.inr ⟨0, h, rest, hnull, i, .refl h, i.effect_refl, id⟩
  · exact Or.inr ⟨_, h', rest', heq, hrest⟩

/-! ## `rt_free` -/

/-- `rt_free` of a pointer in use. -/
theorem Inv.rtFree (i : Inv h rest) (hp : Live h rest p) :
    ∃ h' rest', SmallMem.rtFree p h = some h' ∧ Inv h' rest' ∧ SameHeap h h' ∧
      Effect h rest h' rest' p 0 0 ∧
      (Lowest h.mem rest h.lfree → Lowest h'.mem rest' h'.lfree) := by
  obtain ⟨mem, rfl, hm, hu⟩ := hp
  have hhead := i.headerOf_eq hm
  have hptr := i.heapPtr
  have hal := i.wf.aligned mem hm
  have hpos := i.pos mem ⟨hm, hu⟩
  have hle := i.wf.next_le_end hm
  have hlt := i.lt
  have hassert : (h.heapPtr + mem + SIZEOF_STRUCT_MEM) % Memheap.RT_ALIGN_SIZE = 0 ∧
      h.heapPtr ≤ h.heapPtr + mem + SIZEOF_STRUCT_MEM ∧
      h.heapPtr + mem + SIZEOF_STRUCT_MEM < h.heapPtr + h.heapEnd := by
    unfold SIZEOF_STRUCT_MEM Memheap.RT_ALIGN_SIZE at *
    omega
  -- the block is marked free
  have w := i.wf.setUsed (v := 0) hm
  have hbytes := i.wf.usedBytes_setUsed (v := 0) hm
  set m' := h.mem.set .used mem 0 with hm'
  have hget : ∀ f, ∀ b ∈ h.heapEnd :: 0 :: rest, m'.get f b =
      if f = .used ∧ b = mem then 0 else h.mem.get f b := fun f b hb => i.wf.get_setUsed hm hb
  have hnext : ∀ b ∈ 0 :: rest, m'.get .next b = h.mem.get .next b := fun b hb => by
    rw [hget _ b (List.mem_cons_of_mem _ hb), if_neg (by simp)]
  have hmu : m'.get .used mem = 0 := by
    rw [hget _ mem (List.mem_cons_of_mem _ hm), if_pos ⟨rfl, rfl⟩]
  have hother : ∀ b ∈ h.heapEnd :: 0 :: rest, b ≠ mem → m'.get .used b = h.mem.get .used b :=
    fun b hb hbm => by rw [hget _ b hb, if_neg fun hc => hbm hc.2]
  have hmagic : m'.set .magic mem HEAP_MAGIC = m' := Fields.set_eq_self (w.magic mem hm)
  have hsize₀ : usedSize h.mem mem = h.mem.get .next mem - mem := if_neg hu
  have hsize₁ : usedSize m' mem = 0 := if_pos hmu
  have hused := i.usedMem
  have hbound := i.wf.usedBytes_le
  have hsum : Memheap.sub32 h.usedMem (Memheap.sub32 (m'.get .next mem) mem) =
      usedBytes m' (0 :: rest) := by
    rw [hnext mem hm]
    unfold Memheap.sub32 Memheap.u32
    omega
  obtain ⟨lfree, hlfree⟩ : ∃ l, l = if mem < h.lfree then mem else h.lfree := ⟨_, rfl⟩
  have hcond : h.mem.get .used mem ≠ 0 ∧ h.mem.get .magic mem = HEAP_MAGIC :=
    ⟨hu, i.wf.magic mem hm⟩
  have hif : (if mem < h.lfree then { h with mem := m', heapSem := 0, lfree := mem }
      else { h with mem := m', heapSem := 0 } : Heap) =
        { h with mem := m', heapSem := 0, lfree := lfree } := by
    rw [hlfree]
    split_ifs <;> rfl
  have i₁ : Base { h with mem := m', heapSem := 0, lfree := lfree, usedMem := usedBytes m' (0 :: rest)
                          usedLog := usedBytes m' (0 :: rest) :: h.usedLog } rest := by
    refine ⟨w, ?_, rfl, ?_, ?_, i.heapEnd, i.heapPtr, i.lt⟩
    · change lfree = h.heapEnd ∨ lfree ∈ 0 :: rest ∧ m'.get .used lfree = 0
      rw [hlfree]
      split_ifs with hl
      · exact Or.inr ⟨hm, hmu⟩
      · rcases i.lfree with hE | ⟨hb, hbu⟩
        · exact Or.inl hE
        · have hbm : h.lfree ≠ mem := fun e => hu (e ▸ hbu)
          exact Or.inr ⟨hb, (hother _ (List.mem_cons_of_mem _ hb) hbm).trans hbu⟩
    · have h₁ := i.used_le
      rw [List.foldr_cons, ← i.maxMem, max_eq_right]
      omega
    · have h₁ := i.used_le
      change usedBytes m' (0 :: rest) ≤ h.maxMem
      omega
  have hadj : ∀ a ∈ 0 :: rest, a ≠ mem → m'.get .next a ≠ mem → NoFreeBehind m' a := by
    intro a ha ham hna hau
    rw [hnext a ha] at hna ⊢
    rw [hother a (List.mem_cons_of_mem _ ha) ham] at hau
    rw [hother _ (i.wf.next_pos (List.mem_cons_of_mem _ ha)) hna]
    exact i.adj a ha hau
  obtain ⟨m₂, l₂, rest₂, hplug, i₂, hadj₂, hsame₂, hlow₂⟩ := i₁.plugHoles hm hmu hadj
  have hused₂ : ∀ b, Used m₂ rest₂ b ↔ Used h.mem rest b ∧ b ≠ mem := by
    intro b
    rw [(hsame₂ b).1]
    constructor
    · rintro ⟨hb, hbu⟩
      have hbm : b ≠ mem := fun e => hbu (e ▸ hmu)
      exact ⟨⟨hb, (hother b (List.mem_cons_of_mem _ hb) hbm) ▸ hbu⟩, hbm⟩
    · rintro ⟨⟨hb, hbu⟩, hbm⟩
      exact ⟨hb, (hother b (List.mem_cons_of_mem _ hb) hbm).symm ▸ hbu⟩
  have hnext₂ : ∀ b, Used m₂ rest₂ b → m₂.get .next b = h.mem.get .next b := fun b hb => by
    have h₁ := (hsame₂ b).1.mp hb
    exact ((hsame₂ b).2 h₁).trans (hnext b h₁.1)
  refine ⟨_, rest₂, ?_, ⟨i₂.setSem 1, hadj₂, fun b hb => ?_, rfl⟩, ⟨rfl, rfl, rfl⟩,
    i.toBase.effect_drop (i₂.setSem 1) ⟨rfl, rfl, rfl⟩ hused₂ hnext₂,
    fun hlow => hlow₂ ⟨fun b hb hbm hbu => ?_, Or.inl ?_⟩⟩
  · simp only [SmallMem.rtFree, if_neg (ptr_ne_zero h mem), if_pos hassert, hhead,
      semTake_eq i.sem, Option.bind_eq_bind, Option.bind_some, if_pos hcond, ← hm', hmagic, hif,
      Heap.setUsed, hsum, hplug, Heap.semRelease, Nat.zero_add]
  · change b + SIZEOF_STRUCT_MEM < m₂.get .next b
    rw [hnext₂ b hb]
    exact i.pos b ((hused₂ b).mp hb).1
  · have h₁ := hlow b hb ((hother b (List.mem_cons_of_mem _ hb) hbm) ▸ hbu)
    change lfree ≤ b
    rw [hlfree]
    split_ifs <;> omega
  · change lfree ≤ mem
    rw [hlfree]
    split_ifs <;> omega

/-! ## Stores into a payload -/

/-- The invariant speaks of the headers only. -/
theorem Inv.congr (i : Inv h rest)
    (hm : ∀ f, ∀ b ∈ h.heapEnd :: 0 :: rest, m'.get f b = h.mem.get f b) :
    Inv { h with mem := m' } rest ∧ SameUsed h.mem rest m' rest := by
  have hblock : ∀ f, ∀ b ∈ 0 :: rest, m'.get f b = h.mem.get f b := fun f b hb =>
    hm f b (List.mem_cons_of_mem _ hb)
  have hused : ∀ b, Used m' rest b ↔ Used h.mem rest b := fun b =>
    and_congr_right fun hb => by rw [hblock _ b hb]
  refine ⟨⟨⟨⟨i.wf.path.congr (hblock .next), fun b hb => ?_, fun b hb hbE => ?_, ?_, i.wf.aligned,
    fun b hb => ?_, i.wf.end_aligned, ?_, ?_⟩, ?_, ?_, i.maxMem, i.used_le, i.heapEnd, i.heapPtr,
    i.lt⟩, fun b hb hbu => ?_, fun b hb => ?_, i.sem⟩, fun b => ⟨hused b, fun hb => hblock _ b hb.1⟩⟩
  · rw [hblock _ b hb]
    exact i.wf.gap b hb
  · rw [hblock _ b hb] at hbE ⊢
    have hn := (i.wf.next_mem hb).resolve_right hbE
    rw [hblock _ _ (List.mem_cons_of_mem _ hn)]
    exact i.wf.prev b hb hbE
  · rw [hblock _ 0 (by simp)]
    exact i.wf.prev_zero
  · rw [hblock _ b hb]
    exact i.wf.magic b hb
  · rw [hm _ _ List.mem_cons_self]
    exact i.wf.end_used
  · rw [hm _ _ List.mem_cons_self]
    exact i.wf.end_next
  · exact i.lfree.imp_right fun hl => ⟨hl.1, (hblock _ _ hl.1).trans hl.2⟩
  · refine i.usedMem.trans (usedBytes_congr fun b hb => ?_).symm
    unfold usedSize
    rw [hblock _ b hb, hblock _ b hb]
  · change m'.get .used b = 0 at hbu
    change m'.get .used (m'.get .next b) ≠ 0
    rw [hblock _ b hb] at hbu ⊢
    rw [hm _ _ (i.wf.next_pos (List.mem_cons_of_mem _ hb))]
    exact i.adj b hb hbu
  · change b + SIZEOF_STRUCT_MEM < m'.get .next b
    rw [hblock _ b hb.1]
    exact i.pos b ((hused b).mp hb)

/-- A header field is no part of a payload. -/
theorem Wf.field_notMem_payload (w : Wf m E rest) (ha : a ∈ 0 :: rest) (hb : b ∈ E :: 0 :: rest)
    (f : Field) : ¬ (a + SIZEOF_STRUCT_MEM ≤ b + f.off ∧ b + f.off < m.get .next a) := by
  have hoff := f.off_lt
  have hle := w.next_le_end ha
  rintro ⟨h₁, h₂⟩
  rcases List.mem_cons.mp hb with rfl | hb
  · omega
  · rcases Nat.lt_trichotomy b a with hlt | rfl | hlt
    · have h₃ := w.gap b hb
      have h₄ := w.next_le hb ha hlt
      omega
    · omega
    · have h₃ := w.next_le ha hb hlt
      omega

/-- Stores into the payload of a block in use. -/
theorem Inv.store {n : Nat} (i : Inv h rest) (hu : Used h.mem rest mem)
    (hm : ∀ a, ¬ (mem + SIZEOF_STRUCT_MEM ≤ a ∧ a < h.mem.get .next mem) → m' a = h.mem a)
    (hsize : mem + SIZEOF_STRUCT_MEM + n ≤ h.mem.get .next mem) :
    Inv { h with mem := m' } rest ∧ Effect h rest { h with mem := m' } rest
      (h.heapPtr + mem + SIZEOF_STRUCT_MEM) (h.heapPtr + mem + SIZEOF_STRUCT_MEM) n := by
  obtain ⟨i', hs⟩ := i.congr fun f b hb => hm _ (i.wf.field_notMem_payload hu.1 hb f)
  refine ⟨i', i.effect_resize i'.toBase ⟨rfl, rfl, rfl⟩ hu (fun b => (hs b).1)
    (fun b hb _ => (hs b).2 hb) ?_⟩
  change mem + SIZEOF_STRUCT_MEM + n ≤ m'.get .next mem
  rw [(hs mem).2 hu]
  exact hsize

/-! ## `rt_realloc` -/

/-- Cutting off the end of a block in use. -/
theorem Inv.shrinkBlock (i : Inv h rest) (hu : Used h.mem rest mem) (hpos : 0 < size)
    (hal : size % 4 = 0)
    (hfit : mem + SIZEOF_STRUCT_MEM + size + SIZEOF_STRUCT_MEM ≤ h.mem.get .next mem) :
    ∃ h' rest', SmallMem.shrinkBlock { h with heapSem := 0 } mem
        (h.mem.get .next mem - mem - SIZEOF_STRUCT_MEM) size = some h' ∧
      Inv h'.semRelease rest' ∧ SameHeap h h'.semRelease ∧
      Effect h rest h'.semRelease rest' (h.heapPtr + mem + SIZEOF_STRUCT_MEM)
        (h.heapPtr + mem + SIZEOF_STRUCT_MEM) size ∧
      (Lowest h.mem rest h.lfree → h.lfree ≤ mem ∨ h.mem.get .used (h.mem.get .next mem) = 0 →
        Lowest h'.mem rest' h'.lfree) ∧
      (mem < h.lfree → h.mem.get .used (h.mem.get .next mem) ≠ 0 →
        ¬ Lowest h'.mem rest' h'.lfree) := by
  have hm := hu.1
  have hle := i.wf.next_le_end hm
  have hlt := i.lt
  have hu32 : Memheap.u32 (mem + SIZEOF_STRUCT_MEM + size) = mem + SIZEOF_STRUCT_MEM + size := by
    unfold Memheap.u32 SIZEOF_STRUCT_MEM at *
    omega
  set x := mem + SIZEOF_STRUCT_MEM + size with hx
  have h₁ : mem + SIZEOF_STRUCT_MEM ≤ x := Nat.le_add_right ..
  have hxal : x % 4 = 0 := by
    have h₂ := i.wf.aligned mem hm
    unfold SIZEOF_STRUCT_MEM at hx
    omega
  have hxm : x ≠ mem := by
    unfold SIZEOF_STRUCT_MEM at h₁
    omega
  have hsep := i.wf.apart_cons hm h₁ hfit
  have hbuilt := built_carve (m := h.mem) hsep List.mem_cons_self
    (List.mem_cons_of_mem _ (List.mem_cons_of_mem _ hm)) hxm
  obtain ⟨rest₁, c, hmu⟩ := i.wf.carve hm h₁ hfit hxal hbuilt
  set m₁ := linkBackMem (carve h.mem mem x) h.heapEnd x with hm₁
  have hmu' : m₁.get .used mem ≠ 0 := by
    rw [hmu]
    exact hu.2
  have hnm : m₁.get .next mem = x := by
    rw [c.next mem hm, if_pos rfl]
  have hother : ∀ b ∈ h.heapEnd :: 0 :: rest, m₁.get .used b = h.mem.get .used b := by
    intro b hb
    by_cases hbm : b = mem
    · rw [hbm, hmu]
    · exact c.used b hb hbm
  -- the counter
  have hbytes := c.usedBytes_add i.wf hm
  have hsize₀ : usedSize h.mem mem = h.mem.get .next mem - mem := if_neg hu.2
  have hsize₁ : usedSize m₁ mem = x - mem := by
    unfold usedSize
    rw [if_neg hmu', hnm]
  have hused := i.usedMem
  have hbound := i.wf.usedBytes_le
  have hsum : Memheap.sub32 h.usedMem
      (Memheap.sub32 (h.mem.get .next mem - mem - SIZEOF_STRUCT_MEM) size) =
        usedBytes m₁ (0 :: rest₁) := by
    unfold Memheap.sub32 Memheap.u32
    omega
  have hmono : usedBytes m₁ (0 :: rest₁) ≤ h.usedMem := by omega
  have i₁ : Base { h with mem := m₁, heapSem := 0, usedMem := usedBytes m₁ (0 :: rest₁)
                          usedLog := usedBytes m₁ (0 :: rest₁) :: h.usedLog } rest₁ := by
    refine ⟨c.wf, ?_, rfl, ?_, hmono.trans i.used_le, i.heapEnd, i.heapPtr, i.lt⟩
    · refine i.lfree.imp_right fun hl => ⟨c.sub hl.1, ?_⟩
      exact (hother _ (List.mem_cons_of_mem _ hl.1)).trans hl.2
    · rw [List.foldr_cons, ← i.maxMem, max_eq_right (hmono.trans i.used_le)]
  have hx₁ : x ∈ 0 :: rest₁ := c.perm.mem_iff.mpr List.mem_cons_self
  obtain ⟨m₂, l₂, rest₂, hplug, i₂, hadj₂, hsame₂, hlow₂⟩ := i₁.plugHoles hx₁ c.free
    fun a ha hax _ => c.noFreeBehind i.wf i.adj hmu' ha hax
  have hused₂ : ∀ b, Used m₂ rest₂ b ↔ Used h.mem rest b := by
    intro b
    refine (hsame₂ b).1.trans ⟨?_, ?_⟩
    · rintro ⟨hb, hbu⟩
      have hbx : b ≠ x := fun e => hbu (e ▸ c.free)
      have hb' := (c.mem_or hb).resolve_left hbx
      exact ⟨hb', (hother b (List.mem_cons_of_mem _ hb')) ▸ hbu⟩
    · rintro ⟨hb, hbu⟩
      exact ⟨c.sub hb, (hother b (List.mem_cons_of_mem _ hb)).symm ▸ hbu⟩
  have hnext₂ : ∀ b, Used h.mem rest b → m₂.get .next b =
      if b = mem then x else h.mem.get .next b := fun b hb => by
    rw [(hsame₂ b).2 ((hsame₂ b).1.mp ((hused₂ b).mpr hb)), c.next b hb.1]
  have hroom : m₂.get .next mem = x := by
    rw [hnext₂ mem hu, if_pos rfl]
  refine ⟨_, rest₂, ?_, ⟨i₂.setSem 1, hadj₂, fun b hb => ?_, rfl⟩, ⟨rfl, rfl, rfl⟩,
    i.effect_resize (i₂.setSem 1) ⟨rfl, rfl, rfl⟩ hu hused₂ (fun b hb hbm => ?_) ?_,
    fun hlow hor => hlow₂ ⟨fun b hb hbx hbu => ?_, hor.imp (fun hle => ?_) fun hnu => ?_⟩,
    fun hml hnu hlow => ?_⟩
  · simp only [SmallMem.shrinkBlock, Heap.setUsed, ← hx, hu32, hsum]
    rw [linkBack_eq (by exact i.u32_heapEnd)]
    simp only [← hm₁, hplug]
  · change b + SIZEOF_STRUCT_MEM < m₂.get .next b
    have hb' := (hused₂ b).mp hb
    rw [hnext₂ b hb']
    split_ifs with hbm
    · rw [hbm, hx]
      omega
    · exact i.pos b hb'
  · exact (hnext₂ b hb).trans (if_neg hbm)
  · exact hroom.ge
  · have hb' := (c.mem_or hb).resolve_left hbx
    exact hlow b hb' ((hother b (List.mem_cons_of_mem _ hb')) ▸ hbu)
  · change h.lfree ≤ x
    omega
  · change m₁.get .used (m₁.get .next x) = 0
    rw [c.next_new, hother _ (i.wf.next_pos (List.mem_cons_of_mem _ hm))]
    exact hnu
  · -- there is nothing to plug: the new block is free, and below `lfree`
    have hprev : m₁.get .prev x = mem := by
      have h₂ := c.wf.prev mem (c.sub hm) (by rw [hnm]; exact (c.wf.lt_end hx₁).ne)
      rwa [hnm] at h₂
    have hself := plugHoles_of_used (i₁.wf.lt_end hx₁) c.free (by
      change m₁.get .used (m₁.get .next x) ≠ 0
      rw [c.next_new, hother _ (i.wf.next_pos (List.mem_cons_of_mem _ hm))]
      exact hnu) (by
      change m₁.get .used (m₁.get .prev x) ≠ 0
      rw [hprev]
      exact hmu')
    rw [hself] at hplug
    have hmem : m₁ = m₂ := congrArg (fun o => (o.map Heap.mem).getD m₁) hplug
    have hl : h.lfree = l₂ := congrArg (fun o => (o.map Heap.lfree).getD 0) hplug
    subst hmem
    have hrest : rest₁ = rest₂ := c.wf.unique i₂.wf
    subst hrest
    have h₂ : l₂ ≤ x := hlow x hx₁ c.free
    have h₃ : h.mem.get .next mem ≤ h.lfree := by
      rcases i.lfree with hE | ⟨hb, -⟩
      · exact hE ▸ hle
      · exact i.wf.next_le hm hb hml
    unfold SIZEOF_STRUCT_MEM at hfit hx
    omega

/-- `rt_realloc` cuts off the end of a block that is in front of every free block, and the block
behind it is in use. -/
def CutsBelow (h : Heap) (rmem newsize : Nat) : Prop :=
  rmem ≠ 0 ∧ newsize ≠ 0 ∧
    Memheap.rtAlign newsize + SIZEOF_STRUCT_MEM + MIN_SIZE < payload h rmem ∧
    headerOf h rmem < h.lfree ∧ h.mem.get .used (h.mem.get .next (headerOf h rmem)) ≠ 0

instance (h : Heap) (rmem newsize : Nat) : Decidable (CutsBelow h rmem newsize) := instDecidableAnd

/-- The block that is cut is larger than the new size. -/
theorem CutsBelow.payload_le (hc : CutsBelow h p size) (i : Base h rest) (hp : Live h rest p) :
    Memheap.rtAlign size ≤ h.memSizeAligned := by
  obtain ⟨b, rfl, hb⟩ := hp
  have h₁ := hc.2.2.1
  have h₂ := i.add_payload hb.1
  have h₃ := i.wf.next_le_end hb.1
  have h₄ := i.heapEnd
  omega

/-- What `rt_realloc` of `p` to `size` bytes did when it returned `r`. -/
def Realloced (h : Heap) (rest : List Nat) (h' : Heap) (rest' : List Nat) (p r size : Nat) : Prop :=
  (r = 0 ∧ size ≠ 0 ∧ Effect h rest h' rest' 0 0 0) ∨ (r = 0 ∧ size = 0 ∧ Effect h rest h' rest' p 0 0) ∨
    (r ≠ 0 ∧ size ≠ 0 ∧ Effect h rest h' rest' p r size)

/-- A block in use is also one after a call that took nothing. -/
theorem live_of_effect (he : Effect h rest h' rest' 0 r size) (hp : Live h rest p) :
    Live h' rest' p := (he.live p).mpr (Or.inl ⟨hp, view.ne_zero (s := (h, rest)) hp⟩)

/-- The new block is filled, and the old one is released. -/
theorem Inv.copyFree (i : Inv h rest) (hp : Live h rest p) (hr : Live h rest r) {n : Nat}
    (hn : n ≤ payload h r)
    (hm' : m' = h.mem.copy (Memheap.sub32 r h.heapPtr) (Memheap.sub32 p h.heapPtr) n) :
    ∃ h' rest', SmallMem.rtFree p { h with mem := m' } = some h' ∧
      Inv h' rest' ∧ SameHeap h h' ∧
      (∃ h₁, Effect h rest h₁ rest r r (payload h r) ∧ Effect h₁ rest h' rest' p 0 0) ∧
      (Lowest h.mem rest h.lfree → Lowest h'.mem rest' h'.lfree) := by
  obtain ⟨b, rfl, hb⟩ := hr
  have hadd := i.add_payload hb.1
  have hlt := i.lt
  have hle := i.wf.next_le_end hb.1
  have hdst : Memheap.sub32 (h.heapPtr + b + SIZEOF_STRUCT_MEM) h.heapPtr =
      b + SIZEOF_STRUCT_MEM := by
    unfold Memheap.sub32 Memheap.u32 SIZEOF_STRUCT_MEM at *
    omega
  rw [hdst] at hm'
  have hout : ∀ a, ¬ (b + SIZEOF_STRUCT_MEM ≤ a ∧ a < h.mem.get .next b) → m' a = h.mem a := by
    intro a ha
    rw [hm', Mem.copy, if_neg]
    omega
  obtain ⟨i', he⟩ := i.store hb hout hadd.le
  have hp' : Live { h with mem := m' } rest p := by
    by_cases hpb : p = h.heapPtr + b + SIZEOF_STRUCT_MEM
    · exact (he.live p).mpr (Or.inr ⟨ptr_ne_zero h b, hpb⟩)
    · exact (he.live p).mpr (Or.inl ⟨hp, hpb⟩)
  obtain ⟨h', rest', hfree, i'', hsame, he', hlow⟩ := i'.rtFree hp'
  refine ⟨h', rest', hfree, i'', ⟨hsame.heapPtr, hsame.heapEnd, hsame.memSizeAligned⟩,
    ⟨_, he, he'⟩, fun hl => hlow fun c hc hcu => hl c hc ?_⟩
  change m'.get .used c = 0 at hcu
  rw [Mem.get, Fields.get, hout] at hcu
  · exact hcu
  · exact i.wf.field_notMem_payload hb.1 (List.mem_cons_of_mem _ hc) .used

/-- **`rt_realloc`** of a pointer in use or of `NULL`. -/
theorem Inv.rtRealloc (i : Inv h rest) (hp : p = 0 ∨ Live h rest p) (hsize : size + 3 < 4294967296) :
    (SmallMem.rtRealloc p size h = none ∧ h.memSizeAligned < MIN_SIZE_ALIGNED) ∨
      ∃ r h' rest', SmallMem.rtRealloc p size h = some (r, h') ∧ Inv h' rest' ∧ SameHeap h h' ∧
        Realloced h rest h' rest' p r size ∧
        (Lowest h.mem rest h.lfree → ¬ CutsBelow h p size → Lowest h'.mem rest' h'.lfree) ∧
        (CutsBelow h p size → ¬ Lowest h'.mem rest' h'.lfree) := by
  have halign : size ≤ Memheap.rtAlign size ∧ Memheap.rtAlign size % 4 = 0 ∧
      (Memheap.rtAlign size = 0 ↔ size = 0) ∧ Memheap.rtAlign size + 3 < 4294967296 + 3 := by
    unfold Memheap.rtAlign Memheap.u32 Memheap.RT_ALIGN_SIZE
    omega
  obtain ⟨hge, hal, hzero, hlt32⟩ := halign
  unfold SmallMem.rtRealloc
  dsimp only
  by_cases hbig : Memheap.rtAlign size > h.memSizeAligned
  · rw [if_pos hbig]
    have hne : size ≠ 0 := fun e => by
      have h₁ := hzero.mpr e
      omega
    refine Or.inr ⟨0, h, rest, rfl, i, .refl h, Or.inl ⟨rfl, hne, i.effect_refl⟩, fun hl _ => hl,
      fun hc => ?_⟩
    have h₁ := hc.payload_le i.toBase (hp.resolve_left hc.1)
    omega
  rw [if_neg hbig]
  by_cases hz : Memheap.rtAlign size = 0
  · rw [if_pos hz]
    have hz' := hzero.mp hz
    refine Or.inr ?_
    rcases hp with rfl | hp
    · exact ⟨0, h, rest, rfl, i, .refl h, Or.inr (Or.inl ⟨rfl, hz', i.effect_refl⟩), fun hl _ => hl,
        fun hc => absurd rfl hc.1⟩
    · obtain ⟨h', rest', hfree, i', hsame, he, hlow⟩ := i.rtFree hp
      refine ⟨0, h', rest', ?_, i', hsame, Or.inr (Or.inl ⟨rfl, hz', he⟩), fun hl _ => hlow hl,
        fun hc => absurd hz' hc.2.1⟩
      rw [hfree, Option.map_some]
  rw [if_neg hz]
  have hne : size ≠ 0 := fun e => hz (hzero.mpr e)
  have hlt := i.lt
  have hE := i.heapEnd
  have hsize' : Memheap.rtAlign size + 3 < 4294967296 := by
    unfold SIZEOF_STRUCT_MEM at hlt hE
    omega
  by_cases hp0 : p = 0
  · rw [if_pos hp0]
    rcases i.rtMalloc hsize' with hnone | ⟨r, h', rest', hmalloc, i', hsame, he, hlow⟩
    · exact Or.inl hnone
    · refine Or.inr ⟨r, h', rest', hmalloc, i', hsame, ?_, fun hl _ => hlow hl,
        fun hc => absurd hp0 hc.1⟩
      by_cases hr : r = 0
      · subst hr
        exact Or.inl ⟨rfl, hne, he.mono (Nat.zero_le _)⟩
      · exact Or.inr (Or.inr ⟨hr, hne, hp0 ▸ he.mono hge⟩)
  rw [if_neg hp0, semTake_eq i.sem]
  have hlive := hp.resolve_left hp0
  obtain ⟨mem, rfl, hu⟩ := hlive
  have hm := hu.1
  have hpos := i.pos mem hu
  have hle := i.wf.next_le_end hm
  have hlegal : ¬ (h.heapPtr + mem + SIZEOF_STRUCT_MEM < h.heapPtr ∨
      h.heapPtr + mem + SIZEOF_STRUCT_MEM ≥ h.heapPtr + h.heapEnd) := by omega
  have hhead : headerOf { h with heapSem := 0 } (h.heapPtr + mem + SIZEOF_STRUCT_MEM) = mem :=
    i.headerOf_eq hm
  have hadd := i.add_payload hm
  have hpay : Memheap.sub32 (Memheap.sub32 (h.mem.get .next mem) mem) SIZEOF_STRUCT_MEM =
      payload h (h.heapPtr + mem + SIZEOF_STRUCT_MEM) := by
    unfold Memheap.sub32 Memheap.u32 SIZEOF_STRUCT_MEM at *
    omega
  have hrel : ({ h with heapSem := 0 } : Heap).semRelease = h := by
    simp only [Heap.semRelease, Nat.zero_add, ← i.sem]
  have hsplit : Memheap.u32 (Memheap.rtAlign size + SIZEOF_STRUCT_MEM + MIN_SIZE) =
      Memheap.rtAlign size + SIZEOF_STRUCT_MEM + MIN_SIZE := by
    unfold Memheap.u32 SIZEOF_STRUCT_MEM MIN_SIZE at *
    omega
  simp only [Option.bind_eq_bind, Option.bind_some, if_neg hlegal, hhead, hpay, hrel, hsplit]
  by_cases hsame : payload h (h.heapPtr + mem + SIZEOF_STRUCT_MEM) = Memheap.rtAlign size
  · rw [if_pos hsame]
    -- the block stays as it is
    have he : Effect h rest h rest (h.heapPtr + mem + SIZEOF_STRUCT_MEM)
        (h.heapPtr + mem + SIZEOF_STRUCT_MEM) size :=
      i.effect_resize i.toBase (.refl h) hu (fun _ => Iff.rfl) (fun _ _ _ => rfl) (by omega)
    exact Or.inr ⟨_, h, rest, rfl, i, .refl h, Or.inr (Or.inr ⟨hp0, hne, he⟩), fun hl _ => hl,
      fun hc => absurd hc.2.2.1 (by omega)⟩
  rw [if_neg hsame]
  by_cases hcut : Memheap.rtAlign size + SIZEOF_STRUCT_MEM + MIN_SIZE <
      payload h (h.heapPtr + mem + SIZEOF_STRUCT_MEM)
  · rw [if_pos hcut]
    have hfit : mem + SIZEOF_STRUCT_MEM + Memheap.rtAlign size + SIZEOF_STRUCT_MEM ≤
        h.mem.get .next mem := by
      unfold MIN_SIZE SIZEOF_STRUCT_MEM at *
      omega
    obtain ⟨h', rest', hshrink, i', hs, he, hlow, hbad⟩ :=
      i.shrinkBlock hu (Nat.pos_of_ne_zero hz) hal hfit
    have hpay' : h.mem.get .next mem - mem - SIZEOF_STRUCT_MEM =
        payload h (h.heapPtr + mem + SIZEOF_STRUCT_MEM) := by omega
    rw [hpay'] at hshrink
    refine Or.inr ⟨h.heapPtr + mem + SIZEOF_STRUCT_MEM, h'.semRelease, rest', ?_, i', hs,
      Or.inr (Or.inr ⟨hp0, hne, he.mono hge⟩), fun hl hno => hlow hl ?_, fun hc => ?_⟩
    · rw [hshrink, Option.bind_some]
    · by_contra hor
      rw [not_or] at hor
      have hh := i.headerOf_eq hm
      exact hno ⟨hp0, hne, hcut, by rw [hh]; omega, by rw [hh]; exact hor.2⟩
    · have hc' := hc.2.2.2
      rw [i.headerOf_eq hm] at hc'
      exact hbad hc'.1 hc'.2
  rw [if_neg hcut]
  -- a new block
  rcases i.rtMalloc hsize' with ⟨hnone, hmin⟩ | ⟨r, h₁, rest₁, hmalloc, i₁, hs₁, he₁, hlow₁⟩
  · exact Or.inl ⟨by rw [hnone]; rfl, hmin⟩
  refine Or.inr ?_
  rw [hmalloc, Option.bind_some]
  by_cases hr : r = 0
  · subst hr
    exact ⟨0, h₁, rest₁, by simp, i₁, hs₁, Or.inl ⟨rfl, hne, he₁.mono (Nat.zero_le _)⟩,
      fun hl _ => hlow₁ hl, fun hc => absurd hc.2.2.1 hcut⟩
  · have hrl : Live h₁ rest₁ r := (he₁.live r).mpr (Or.inr ⟨hr, rfl⟩)
    have hpl : Live h₁ rest₁ (h.heapPtr + mem + SIZEOF_STRUCT_MEM) :=
      live_of_effect he₁ ⟨mem, rfl, hu⟩
    have hroom : Memheap.rtAlign size ≤ payload h₁ r := he₁.room hr
    have hn : (if payload h (h.heapPtr + mem + SIZEOF_STRUCT_MEM) < Memheap.rtAlign size then
        payload h (h.heapPtr + mem + SIZEOF_STRUCT_MEM) else Memheap.rtAlign size) ≤
          payload h₁ r := by
      split_ifs <;> omega
    obtain ⟨h', rest', hfree, i', hs', ⟨h₂, hfill, hdrop⟩, hlow'⟩ := i₁.copyFree hpl hrl hn rfl
    have he : Effect h rest h' rest' (h.heapPtr + mem + SIZEOF_STRUCT_MEM) r
        (Memheap.rtAlign size) :=
      (he₁.fill (hfill.mono hroom) hr).release hr ⟨mem, rfl, hu⟩ hdrop
    refine ⟨r, h', rest', ?_, i', hs₁.trans hs', Or.inr (Or.inr ⟨hr, hne, he.mono hge⟩),
      fun hl _ => hlow' (hlow₁ hl), fun hc => absurd hc.2.2.1 hcut⟩
    rw [if_pos hr]
    simp only [hfree, Option.bind_some]

end RTThread.SmallMem
