import RTThread.Memheap.Links

set_option autoImplicit false

/-! # The block chain of a pool

`Wf` adds to the links what makes them a tiling of the pool: every block but the tail ends where
its right neighbour starts, the tail leads back to the first block, and every header carries the
magic number and the address of the heap. It does not say which blocks are free; an operation
passes through states in which the free list and the USED bits disagree, and `Wf` holds in all of
them.

`blockSize` is `MEMITEM_SIZE` without the wrap-around, and `total` the sum of the sizes over a
list of blocks. The sizes of all blocks and their headers add up to the pool (`total_le`), so no
sum of sizes overflows.
-/

namespace RTThread.Memheap

/-- The payload size of a block. -/
def blockSize (m : Mem) (a : Nat) : Nat := m.get .next a - a - RT_MEMHEAP_SIZE

/-- The sum of the payload sizes. -/
def total (m : Mem) (l : List Nat) : Nat := (l.map (blockSize m)).sum

/-- The header fields outside the free list are those of `m`. -/
def SameBlocks (bs : List Nat) (m m' : Mem) : Prop :=
  ∀ b ∈ bs, m'.get .magic b = m.get .magic b ∧ m'.get .poolPtr b = m.get .poolPtr b ∧
    m'.get .next b = m.get .next b ∧ m'.get .prev b = m.get .prev b

theorem SameBlocks.trans {bs : List Nat} {m m' m'' : Mem} (h : SameBlocks bs m m')
    (h' : SameBlocks bs m' m'') : SameBlocks bs m m'' := fun b hb =>
  ⟨(h' b hb).1.trans (h b hb).1, (h' b hb).2.1.trans (h b hb).2.1,
    (h' b hb).2.2.1.trans (h b hb).2.2.1, (h' b hb).2.2.2.trans (h b hb).2.2.2⟩

theorem isUsed_congr {m m' : Mem} {b : Nat} (h : m'.get .magic b = m.get .magic b) :
    isUsed m' b ↔ isUsed m b := by
  unfold isUsed
  rw [h]

/-- The chain `start :: rest` tiles the pool and `fl` is linked as the free list. -/
structure Wf (L : Layout) (m : Mem) (rest fl : List Nat) : Prop where
  links : Links L m rest fl
  tail_mem : L.tail ∈ L.start :: rest
  next_tail : m.get .next L.tail = L.start
  gap : ∀ a ∈ L.start :: rest, a ≠ L.tail → a + RT_MEMHEAP_SIZE ≤ m.get .next a
  order : ∀ a ∈ L.start :: rest, ∀ b ∈ L.start :: rest, a < b → m.get .next a ≤ b
  range : ∀ a ∈ L.start :: rest, L.start ≤ a ∧ a ≤ L.tail ∧ a % 4 = 0
  tag : ∀ a ∈ L.start :: rest, m.get .magic a = RT_MEMHEAP_MAGIC ∨
    m.get .magic a = RT_MEMHEAP_MAGIC ||| RT_MEMHEAP_USED
  pool : ∀ a ∈ L.start :: rest, m.get .poolPtr a = L.heap

/-- `b` is a block in use. -/
def Used (L : Layout) (m : Mem) (rest : List Nat) (b : Nat) : Prop :=
  b ∈ L.start :: rest ∧ isUsed m b

/-- The blocks in use are the same, and so is the space of each. -/
def SameUsed (L : Layout) (m : Mem) (rest : List Nat) (m' : Mem) (rest' : List Nat) : Prop :=
  ∀ b, (Used L m' rest' b ↔ Used L m rest b) ∧
    (Used L m rest b → m'.get .next b = m.get .next b)

/-- The block `x` is cut off the end of the block `h`. -/
structure Split (L : Layout) (m : Mem) (rest : List Nat) (m' : Mem) (rest' : List Nat)
    (h x : Nat) : Prop where
  mem_iff : ∀ b, b ∈ L.start :: rest' ↔ b = x ∨ b ∈ L.start :: rest
  notMem : x ∉ L.start :: rest
  next : ∀ b ∈ L.start :: rest', m'.get .next b =
    if b = h then x else if b = x then m.get .next h else m.get .next b
  magic : ∀ b ∈ L.start :: rest', m'.get .magic b =
    if b = x then RT_MEMHEAP_MAGIC else m.get .magic b

/-- The block `x` is given to its left neighbour. -/
structure Unlinked (L : Layout) (m : Mem) (rest : List Nat) (m' : Mem) (rest' : List Nat)
    (x : Nat) : Prop where
  mem_iff : ∀ b, b ∈ L.start :: rest' ↔ b ∈ L.start :: rest ∧ b ≠ x
  next : ∀ b ∈ L.start :: rest', m'.get .next b =
    if b = m.get .prev x then m.get .next x else m.get .next b
  magic : ∀ b ∈ L.start :: rest', m'.get .magic b = m.get .magic b

/-- The headers of `rest'` are those of `rest` or of `new`, and only header fields of these blocks
and of the head of the free list were stored to. -/
structure Edits (L : Layout) (new : List Nat) (m : Mem) (rest : List Nat) (m' : Mem)
    (rest' : List Nat) : Prop where
  sub : ∀ b ∈ L.start :: rest', b ∈ new ∨ b ∈ L.start :: rest
  frame : Touches (L.freeHeader :: L.start :: (rest ++ new)) m m'

namespace Wf

variable {L : Layout} {m m' : Mem} {rest fl fl' l₁ l₂ : List Nat} {x h a : Nat}

theorem next_mem (w : Wf L m rest fl) (ha : a ∈ L.start :: rest) :
    m.get .next a ∈ L.start :: rest := w.links.blocks.next_mem ha

theorem prev_mem (w : Wf L m rest fl) (ha : a ∈ L.start :: rest) :
    m.get .prev a ∈ L.start :: rest := w.links.blocks.prev_mem ha

theorem prev_next (w : Wf L m rest fl) (ha : a ∈ L.start :: rest) :
    m.get .prev (m.get .next a) = a := w.links.blocks.prev_next ha

theorem next_prev (w : Wf L m rest fl) (ha : a ∈ L.start :: rest) :
    m.get .next (m.get .prev a) = a := w.links.blocks.next_prev ha

/-- A block other than the first is not behind the tail. -/
theorem prev_ne_tail (w : Wf L m rest fl) (ha : a ∈ rest) : m.get .prev a ≠ L.tail := by
  intro he
  have hn := w.next_prev (List.mem_cons_of_mem _ ha)
  rw [he, w.next_tail] at hn
  exact (List.nodup_cons.mp w.links.blocks.nodup).1 (hn ▸ ha)

/-- The right neighbour of a block other than the tail is not the first block. -/
theorem next_mem_rest (w : Wf L m rest fl) (ha : a ∈ L.start :: rest) (hne : a ≠ L.tail) :
    m.get .next a ∈ rest := by
  rcases List.mem_cons.mp (w.next_mem ha) with h | h
  · have hgap := w.gap a ha hne
    have hr := (w.range a ha).1
    unfold RT_MEMHEAP_SIZE at hgap
    omega
  · exact h

theorem next_le_tail (w : Wf L m rest fl) (ha : a ∈ L.start :: rest) :
    m.get .next a ≤ L.tail := (w.range _ (w.next_mem ha)).2.1

/-- `MEMITEM_SIZE` does not wrap. -/
theorem memitemSize_eq (w : Wf L m rest fl) (ha : a ∈ L.start :: rest) (hne : a ≠ L.tail) :
    memitemSize m a = blockSize m a := by
  have hgap := w.gap a ha hne
  have hle := w.next_le_tail ha
  have ht := L.tail_le
  unfold memitemSize blockSize sub32 u32 RT_MEMHEAP_SIZE at *
  omega

theorem next_eq (w : Wf L m rest fl) (ha : a ∈ L.start :: rest) (hne : a ≠ L.tail) :
    m.get .next a = a + RT_MEMHEAP_SIZE + blockSize m a := by
  have hgap := w.gap a ha hne
  unfold blockSize RT_MEMHEAP_SIZE at *
  omega

/-- Stores that leave the chain alone keep `Wf`. -/
theorem congr (w : Wf L m rest fl) (hl : Links L m' rest fl')
    (hs : SameBlocks (L.start :: rest) m m') : Wf L m' rest fl' where
  links := hl
  tail_mem := w.tail_mem
  next_tail := by rw [(hs _ w.tail_mem).2.2.1, w.next_tail]
  gap a ha hne := by rw [(hs a ha).2.2.1]; exact w.gap a ha hne
  order a ha b hb hlt := by rw [(hs a ha).2.2.1]; exact w.order a ha b hb hlt
  range := w.range
  tag a ha := by rw [(hs a ha).1]; exact w.tag a ha
  pool a ha := by rw [(hs a ha).2.1]; exact w.pool a ha

theorem sameBlocks_unlinkFree (w : Wf L m rest fl) (hx : x ∈ fl) :
    SameBlocks (L.start :: rest) m (Memheap.unlinkFree m x) := by
  intro b hb
  refine ⟨?_, ?_, ?_, ?_⟩ <;> rw [w.links.get_unlinkFree hx (Links.mem_of_block hb)] <;> simp

theorem unlinkFree (w : Wf L m rest (l₁ ++ x :: l₂)) :
    Wf L (Memheap.unlinkFree m x) rest (l₁ ++ l₂) :=
  w.congr w.links.unlinkFree (w.sameBlocks_unlinkFree (by simp))

theorem sameBlocks_pushFree (w : Wf L m rest fl) (hx : x ∈ L.start :: rest)
    (hxf : x ∉ L.freeHeader :: fl) :
    SameBlocks (L.start :: rest) m (Memheap.pushFree m L.freeHeader x) := by
  intro b hb
  have hx' : x ∈ L.headers rest fl := Links.mem_of_block hx
  refine ⟨?_, ?_, ?_, ?_⟩ <;> rw [w.links.get_pushFree hx' hxf (Links.mem_of_block hb)] <;> simp

theorem pushFree (w : Wf L m rest fl) (hx : x ∈ L.start :: rest)
    (hxf : x ∉ L.freeHeader :: fl) : Wf L (Memheap.pushFree m L.freeHeader x) rest (x :: fl) :=
  w.congr (w.links.pushFree hx hxf) (w.sameBlocks_pushFree hx hxf)

/-- No block is the head of the free list. -/
theorem ne_freeHeader (w : Wf L m rest fl) (hx : x ∈ L.start :: rest) : x ≠ L.freeHeader := by
  have hr := w.range x hx
  have hs := L.start_lt
  rcases L.apart with h | h <;> unfold RT_MEMHEAP_SIZE at h <;> omega

theorem sameBlocks_clearFree (w : Wf L m rest fl) (hx : x ∈ L.start :: rest) :
    SameBlocks (L.start :: rest) m (clearFree m x) := by
  intro b hb
  have hx' : x ∈ L.headers rest fl := Links.mem_of_block hx
  refine ⟨?_, ?_, ?_, ?_⟩ <;>
    rw [get_clearFree w.links.sep hx' (Links.mem_of_block hb)] <;> simp

theorem clearFree (w : Wf L m rest fl) (hx : x ∈ L.start :: rest) (hxf : x ∉ fl) :
    Wf L (Memheap.clearFree m x) rest fl := by
  have hx' : x ∈ L.headers rest fl := Links.mem_of_block hx
  refine w.congr (w.links.congr ?_ ?_) (w.sameBlocks_clearFree hx)
  · exact fun b hb => ⟨(w.sameBlocks_clearFree hx b hb).2.2.1, (w.sameBlocks_clearFree hx b hb).2.2.2⟩
  · intro b hb
    have hne : b ≠ x := by
      rintro rfl
      exact (List.mem_cons.mp hb).elim (w.ne_freeHeader hx) hxf
    constructor <;> rw [get_clearFree w.links.sep hx' (Links.mem_of_free hb)] <;> simp [hne]

/-- Storing a magic number. -/
theorem setMagic (w : Wf L m rest fl) (hx : x ∈ L.start :: rest) {v : Nat}
    (hv : v = RT_MEMHEAP_MAGIC ∨ v = RT_MEMHEAP_MAGIC ||| RT_MEMHEAP_USED) :
    Wf L (m.set .magic x v) rest fl := by
  have hget : ∀ f, ∀ b ∈ L.headers rest fl, (m.set .magic x v).get f b =
      if f = .magic ∧ b = x then v else m.get f b := fun f b hb =>
    Mem.get_set (w.links.sep _ (Links.mem_of_block hx) _ hb)
  have hget' : ∀ f, f ≠ .magic → ∀ b ∈ L.headers rest fl,
      (m.set .magic x v).get f b = m.get f b := fun f hf b hb => by
    rw [hget f b hb, if_neg (fun hc => hf hc.1)]
  have hb : ∀ f, f ≠ .magic → ∀ b ∈ L.start :: rest, (m.set .magic x v).get f b = m.get f b :=
    fun f hf b hb => hget' f hf b (Links.mem_of_block hb)
  refine ⟨w.links.congr ?_ ?_, w.tail_mem, ?_, ?_, ?_, w.range, ?_, ?_⟩
  · exact fun b h => ⟨hb .next (by decide) b h, hb .prev (by decide) b h⟩
  · exact fun b h => ⟨hget' .nextFree (by decide) b (Links.mem_of_free h),
      hget' .prevFree (by decide) b (Links.mem_of_free h)⟩
  · rw [hb .next (by decide) _ w.tail_mem, w.next_tail]
  · intro a ha hne
    rw [hb .next (by decide) a ha]
    exact w.gap a ha hne
  · intro a ha b hb' hlt
    rw [hb .next (by decide) a ha]
    exact w.order a ha b hb' hlt
  · intro a ha
    rw [hget .magic a (Links.mem_of_block ha)]
    split
    · exact hv
    · exact w.tag a ha
  · intro a ha
    rw [hb .poolPtr (by decide) a ha]
    exact w.pool a ha

/-- A header that fits into the payload of a block overlaps no other header. -/
theorem apart_of_inside (w : Wf L m rest fl) (hfl : ∀ b ∈ fl, b ∈ L.start :: rest)
    (hh : h ∈ L.start :: rest) (hne : h ≠ L.tail) (h₁ : h + RT_MEMHEAP_SIZE ≤ x)
    (h₂ : x + RT_MEMHEAP_SIZE ≤ m.get .next h) : ∀ b ∈ L.headers rest fl, Apart x b := by
  have hblock : ∀ b ∈ L.start :: rest, Apart x b := by
    intro b hb
    rcases Nat.lt_trichotomy b h with hlt | rfl | hlt
    · refine Or.inr ?_
      have hbt : b ≠ L.tail := fun e => by
        have := (w.range h hh).2.1
        omega
      have h3 := w.gap b hb hbt
      have h4 := w.order b hb h hh hlt
      omega
    · exact Or.inr h₁
    · exact Or.inl (h₂.trans (w.order h hh b hb hlt))
  intro b hb
  simp only [Layout.headers, List.mem_cons, List.mem_append] at hb
  rcases hb with rfl | rfl | hb | hb
  · have h3 := (w.range h hh).1
    have h4 := w.next_le_tail hh
    unfold Apart
    rcases L.apart with h5 | h5 <;> omega
  · exact hblock _ (by simp)
  · exact hblock b (List.mem_cons_of_mem _ hb)
  · exact hblock b (hfl b hb)

/-! ### Inserting and removing blocks

The chain is described by its members from here on: its order is fixed by the addresses. -/

/-- Building a header inside a block splits it. -/
theorem split (w : Wf L m rest fl) (hfl : ∀ b ∈ fl, b ∈ L.start :: rest)
    (hh : h ∈ L.start :: rest) (hne : h ≠ L.tail) (h₁ : h + RT_MEMHEAP_SIZE ≤ x)
    (h₂ : x + RT_MEMHEAP_SIZE ≤ m.get .next h) (h4 : x % 4 = 0) :
    ∃ rest', Wf L (splitBlock m L.heap h x) rest' fl ∧
      Split L m rest (splitBlock m L.heap h x) rest' h x := by
  have hap := w.apart_of_inside hfl hh hne h₁ h₂
  have hxne : ∀ b ∈ L.start :: rest, b ≠ x := fun b hb => (hap b (Links.mem_of_block hb)).ne.symm
  have hget : ∀ f, ∀ b, b = x ∨ b ∈ L.start :: rest → _ := fun f b hb =>
    w.links.get_splitBlock L.heap hh hap (f := f) (b := b) (hb.elim (fun e => by simp [e])
      fun hb => List.mem_cons_of_mem _ (Links.mem_of_block hb))
  obtain ⟨l₁, l₂, rfl, hlast⟩ := Dll.exists_position hh
  have hmem : ∀ b, b ∈ L.start :: (l₁ ++ x :: l₂) ↔ b = x ∨ b ∈ L.start :: (l₁ ++ l₂) := by
    intro b
    simp only [List.mem_cons, List.mem_append]
    tauto
  have hnext : ∀ b ∈ L.start :: (l₁ ++ x :: l₂), (splitBlock m L.heap h x).get .next b =
      if b = h then x else if b = x then m.get .next h else m.get .next b := by
    intro b hb
    rw [hget .next b ((hmem b).mp hb)]
    simp
  have hmagic : ∀ b ∈ L.start :: (l₁ ++ x :: l₂), (splitBlock m L.heap h x).get .magic b =
      if b = x then RT_MEMHEAP_MAGIC else m.get .magic b := by
    intro b hb
    rw [hget .magic b ((hmem b).mp hb)]
    simp
  have hxt : x < L.tail := by
    have := w.next_le_tail hh
    unfold RT_MEMHEAP_SIZE at h₂
    omega
  refine ⟨l₁ ++ x :: l₂, ⟨w.links.splitBlock hlast hap L.heap, (hmem _).mpr (Or.inr w.tail_mem),
    ?_, ?_, ?_, ?_, ?_, ?_⟩, hmem, fun hx => hxne x hx rfl, hnext, hmagic⟩
  · rw [hnext _ ((hmem _).mpr (Or.inr w.tail_mem)), if_neg hne.symm, if_neg hxt.ne', w.next_tail]
  · intro a ha hat
    rw [hnext a ha]
    split_ifs with e1 e2
    · rw [e1]; exact h₁
    · rw [e2]; exact h₂
    · exact w.gap a (((hmem a).mp ha).resolve_left e2) hat
  · intro a ha b hb hlt
    rw [hnext a ha]
    rcases (hmem b).mp hb with rfl | hb'
    · -- the new block is behind `h` and in front of the old neighbour of `h`
      split_ifs with e1 e2
      · exact Nat.le_refl _
      · omega
      · have ha' := ((hmem a).mp ha).resolve_left e2
        rcases Nat.lt_or_ge a h with h3 | h3
        · exact (w.order a ha' h hh h3).trans (by omega)
        · have h4 := w.order h hh a ha' (by omega)
          unfold RT_MEMHEAP_SIZE at h₂
          omega
    · split_ifs with e1 e2
      · have h3 := w.order a (e1 ▸ hh) b hb' hlt
        rw [e1] at h3
        omega
      · refine w.order h hh b hb' ?_
        omega
      · exact w.order a (((hmem a).mp ha).resolve_left e2) b hb' hlt
  · intro a ha
    rcases (hmem a).mp ha with rfl | ha'
    · exact ⟨(w.range h hh).1.trans (by omega), hxt.le, h4⟩
    · exact w.range a ha'
  · intro a ha
    rw [hmagic a ha]
    split_ifs with e
    · exact Or.inl rfl
    · exact w.tag a (((hmem a).mp ha).resolve_left e)
  · intro a ha
    rw [hget .poolPtr a ((hmem a).mp ha)]
    rcases (hmem a).mp ha with rfl | ha'
    · simp
    · simp [hxne a ha', w.pool a ha']

/-- Taking a block out of the chain gives its space to its left neighbour. -/
theorem unlinkBlock (w : Wf L m rest fl) (hx : x ∈ rest) (hxt : x ≠ L.tail)
    (hu : BlockUnlinked (L.headers rest fl) m m' x) :
    ∃ rest', Wf L m' rest' fl ∧ Unlinked L m rest m' rest' x := by
  have hx' : x ∈ L.start :: rest := List.mem_cons_of_mem _ hx
  have hpt := w.prev_ne_tail hx
  have hpn := w.next_prev hx'
  obtain ⟨l₁, l₂, rfl⟩ := List.append_of_mem hx
  have hmem : ∀ b, b ∈ L.start :: (l₁ ++ l₂) ↔ b ∈ L.start :: (l₁ ++ x :: l₂) ∧ b ≠ x := by
    intro b
    have hnd : (x :: L.start :: (l₁ ++ l₂)).Nodup :=
      (((List.perm_middle.cons L.start).trans (List.Perm.swap _ _ _)).nodup_iff).mp
        w.links.blocks.nodup
    have hne := (List.nodup_cons.mp hnd).1
    simp only [List.mem_cons, List.mem_append] at hne ⊢
    constructor
    · intro hb
      refine ⟨by tauto, ?_⟩
      rintro rfl
      exact hne hb
    · tauto
  have hget : ∀ f, ∀ b ∈ L.start :: (l₁ ++ l₂), _ := fun f b hb =>
    hu f b (Links.mem_of_block ((hmem b).mp hb).1)
  have hnext : ∀ b ∈ L.start :: (l₁ ++ l₂), m'.get .next b =
      if b = m.get .prev x then m.get .next x else m.get .next b := by
    intro b hb
    rw [hget .next b hb]
    simp
  have hmagic : ∀ b ∈ L.start :: (l₁ ++ l₂), m'.get .magic b = m.get .magic b := by
    intro b hb
    rw [hget .magic b hb]
    simp
  have htail : L.tail ∈ L.start :: (l₁ ++ l₂) := (hmem _).mpr ⟨w.tail_mem, hxt.symm⟩
  refine ⟨l₁ ++ l₂, ⟨w.links.unlinkBlock hu, htail, ?_, ?_, ?_, ?_, ?_, ?_⟩, hmem, hnext, hmagic⟩
  · rw [hnext _ htail, if_neg hpt.symm, w.next_tail]
  · intro a ha hat
    rw [hnext a ha]
    split_ifs with e
    · have h1 := w.gap a ((hmem a).mp ha).1 hat
      have h2 := w.gap x hx' hxt
      rw [e, hpn] at h1
      omega
    · exact w.gap a ((hmem a).mp ha).1 hat
  · intro a ha b hb hlt
    have ha' := ((hmem a).mp ha).1
    have hb' := (hmem b).mp hb
    have h1 := w.order a ha' b hb'.1 hlt
    rw [hnext a ha]
    split_ifs with e
    · rw [e, hpn] at h1
      exact w.order x hx' b hb'.1 (lt_of_le_of_ne h1 hb'.2.symm)
    · exact h1
  · exact fun a ha => w.range a ((hmem a).mp ha).1
  · intro a ha
    rw [hmagic a ha]
    exact w.tag a ((hmem a).mp ha).1
  · intro a ha
    rw [hget .poolPtr a ha]
    simpa using w.pool a ((hmem a).mp ha).1

/-- Taking an item out of the free list. -/
theorem removeFree (w : Wf L m rest fl) (hx : x ∈ fl) :
    ∃ fl', fl.Perm (x :: fl') ∧ Wf L (Memheap.unlinkFree m x) rest fl' := by
  obtain ⟨l₁, l₂, rfl⟩ := List.append_of_mem hx
  exact ⟨l₁ ++ l₂, List.perm_middle, w.unlinkFree⟩

/-! ### Sums of sizes -/

/-- The tail is the last block of the chain. -/
theorem exists_chain (w : Wf L m rest fl) :
    ∃ r, rest = r ++ [L.tail] ∧ Dll.Path (m.get .next) L.start r L.tail := by
  obtain ⟨l₁, l₂, rfl, hlast⟩ := Dll.exists_position w.tail_mem
  have hn : m.get .next L.tail = Dll.firstOf l₂ L.start := by
    rw [← hlast]; exact w.links.blocks.next_split
  rw [w.next_tail] at hn
  have hl₂ : l₂ = [] := by
    cases l₂ with
    | nil => rfl
    | cons y l =>
        have hnd := (List.nodup_cons.mp w.links.blocks.nodup).1
        rw [Dll.firstOf_cons] at hn
        exact absurd (List.mem_append_right _ (hn ▸ List.mem_cons_self)) hnd
  subst hl₂
  rw [List.append_nil] at w ⊢
  have hlt := L.start_lt
  unfold RT_MEMHEAP_SIZE at hlt
  induction l₁ using List.reverseRecOn with
  | nil =>
      rw [Dll.lastOf_nil] at hlast
      omega
  | append_singleton r y _ =>
      rw [Dll.lastOf_append_singleton] at hlast
      subst hlast
      exact ⟨r, rfl, (Dll.path_append.mp w.links.blocks.next).1⟩

/-- Headers and payloads of a stretch of the chain add up to its length. -/
theorem sum_path {l : List Nat} {a b : Nat} (hp : Dll.Path (m.get .next) a l b)
    (hgap : ∀ y ∈ a :: l, y + RT_MEMHEAP_SIZE ≤ m.get .next y) :
    a + total m (a :: l) + RT_MEMHEAP_SIZE * (l.length + 1) = b := by
  induction l generalizing a with
  | nil =>
      have h1 := hgap a (by simp)
      simp only [Dll.path_nil] at hp
      simp only [total, blockSize, List.map_cons, List.map_nil, List.sum_cons, List.sum_nil,
        List.length_nil]
      omega
  | cons y l ih =>
      have h1 := hgap a (by simp)
      have h2 := ih hp.2 fun z hz => hgap z (List.mem_cons_of_mem _ hz)
      simp only [total, blockSize, List.map_cons, List.sum_cons, List.length_cons] at h2 ⊢
      have h3 : m.get .next a = y := hp.1
      rw [h3] at h1 ⊢
      rw [Nat.mul_add RT_MEMHEAP_SIZE (l.length + 1)]
      omega

/-- Distinct blocks in front of the tail fit into the pool together with their headers. -/
theorem total_le (w : Wf L m rest fl) {l : List Nat} (hnd : l.Nodup)
    (hl : ∀ b ∈ l, b ∈ L.start :: rest ∧ b ≠ L.tail) :
    L.start + total m l + RT_MEMHEAP_SIZE ≤ L.tail ∧
      L.start + RT_MEMHEAP_SIZE * l.length ≤ L.tail := by
  obtain ⟨r, rfl, hp⟩ := w.exists_chain
  have hnd' := w.links.blocks.nodup
  have hsub : l.Subperm (L.start :: r) := by
    refine List.subperm_of_subset hnd fun b hb => ?_
    have h1 := hl b hb
    simp only [List.mem_cons, List.mem_append, List.not_mem_nil, or_false] at h1 ⊢
    tauto
  have hgap : ∀ y ∈ L.start :: r, y + RT_MEMHEAP_SIZE ≤ m.get .next y := by
    intro y hy
    refine w.gap y ?_ ?_
    · simp only [List.mem_cons, List.mem_append] at hy ⊢
      tauto
    · rintro rfl
      rw [← List.cons_append, List.nodup_append] at hnd'
      exact hnd'.2.2 _ hy _ (by simp) rfl
  have hsum := sum_path hp hgap
  obtain ⟨l', hperm, hsl⟩ := hsub
  have h1 : total m l' ≤ total m (L.start :: r) := (hsl.map _).sum_le_sum fun _ _ => Nat.zero_le _
  have h2 : total m l' = total m l := (hperm.map _).sum_eq
  have h3 : l.length ≤ r.length + 1 := by
    rw [← hperm.length_eq]
    simpa using hsl.length_le
  have h4 : RT_MEMHEAP_SIZE * l.length ≤ RT_MEMHEAP_SIZE * (r.length + 1) := Nat.mul_le_mul_left _ h3
  rw [Nat.mul_add] at hsum h4
  constructor <;> omega

end Wf

/-! ## What the edits do to the other blocks -/

section Effects

variable {L : Layout} {m m' m'' : Mem} {rest rest' rest'' fl : List Nat} {x h b : Nat}

theorem SameUsed.refl (L : Layout) (m : Mem) (rest : List Nat) : SameUsed L m rest m rest :=
  fun _ => ⟨Iff.rfl, fun _ => rfl⟩

theorem SameUsed.trans (h₁ : SameUsed L m rest m' rest') (h₂ : SameUsed L m' rest' m'' rest'') :
    SameUsed L m rest m'' rest'' := fun b =>
  ⟨(h₂ b).1.trans (h₁ b).1, fun hu => ((h₂ b).2 ((h₁ b).1.mpr hu)).trans ((h₁ b).2 hu)⟩

theorem SameBlocks.sameUsed (hs : SameBlocks (L.start :: rest) m m') :
    SameUsed L m rest m' rest := fun b =>
  ⟨and_congr_right fun hb => isUsed_congr (hs b hb).1, fun hu => (hs b hu.1).2.2.1⟩

theorem SameBlocks.total_eq {bs l : List Nat} (hs : SameBlocks bs m m') (hl : ∀ b ∈ l, b ∈ bs) :
    total m' l = total m l := by
  have h : ∀ b ∈ l, blockSize m' b = blockSize m b := by
    intro b hb
    unfold blockSize
    rw [(hs b (hl b hb)).2.2.1]
  unfold total
  rw [List.map_congr_left h]

theorem Unlinked.congr (u : Unlinked L m rest m' rest' x)
    (hs : SameBlocks (L.start :: rest') m' m'') : Unlinked L m rest m'' rest' x :=
  ⟨u.mem_iff, fun b hb => by rw [(hs b hb).2.2.1, u.next b hb],
    fun b hb => by rw [(hs b hb).1, u.magic b hb]⟩

theorem Unlinked.isUsed_iff (u : Unlinked L m rest m' rest' x) (hb : b ∈ L.start :: rest') :
    isUsed m' b ↔ isUsed m b := isUsed_congr (u.magic b hb)

theorem Edits.refl (L : Layout) (m : Mem) (rest : List Nat) : Edits L [] m rest m rest :=
  ⟨fun _ hb => Or.inr hb, Touches.refl _ _⟩

theorem Edits.trans {new new' : List Nat} (h₁ : Edits L new m rest m' rest')
    (h₂ : Edits L new' m' rest' m'' rest'') (hsub : ∀ b ∈ new', b ∈ new) :
    Edits L new m rest m'' rest'' := by
  refine ⟨fun b hb => ?_, h₁.frame.trans (h₂.frame.mono fun b hb => ?_)⟩
  · rcases h₂.sub b hb with h | h
    · exact Or.inl (hsub b h)
    · exact h₁.sub b h
  · simp only [List.mem_cons, List.mem_append] at hb ⊢
    rcases hb with h | h | h | h
    · exact Or.inl h
    · exact Or.inr (Or.inl h)
    · have h3 := h₁.sub b (List.mem_cons_of_mem _ h)
      rw [List.mem_cons] at h3
      tauto
    · have h3 := hsub b h
      tauto

theorem Edits.mono {new new' : List Nat} (h : Edits L new m rest m' rest')
    (hsub : ∀ b ∈ new, b ∈ new') : Edits L new' m rest m' rest' := by
  refine ⟨fun b hb => (h.sub b hb).imp_left (hsub b), h.frame.mono fun b hb => ?_⟩
  simp only [List.mem_cons, List.mem_append] at hb ⊢
  have h1 := hsub b
  tauto

theorem Edits.of_touches (hfl : ∀ b ∈ fl, b ∈ L.start :: rest)
    (ht : Touches (L.headers rest fl) m m') : Edits L [] m rest m' rest := by
  refine ⟨fun _ hb => Or.inr hb, ht.mono fun b hb => ?_⟩
  simp only [Layout.headers, List.mem_cons, List.mem_append, List.not_mem_nil, or_false] at hb ⊢
  rcases hb with h | h | h | h
  · exact Or.inl h
  · exact Or.inr (Or.inl h)
  · exact Or.inr (Or.inr h)
  · exact Or.inr (List.mem_cons.mp (hfl b h))

theorem Split.edits (u : Split L m rest m' rest' h x) (hfl : ∀ b ∈ fl, b ∈ L.start :: rest)
    (ht : Touches (x :: L.headers rest fl) m m') : Edits L [x] m rest m' rest' := by
  refine ⟨fun b hb => ?_, ht.mono fun b hb => ?_⟩
  · rw [List.mem_singleton]
    exact (u.mem_iff b).mp hb
  · simp only [Layout.headers, List.mem_cons, List.mem_append, List.not_mem_nil, or_false] at hb ⊢
    rcases hb with h | h | h | h | h
    · exact Or.inr (Or.inr (Or.inr h))
    · exact Or.inl h
    · exact Or.inr (Or.inl h)
    · exact Or.inr (Or.inr (Or.inl h))
    · have h3 := List.mem_cons.mp (hfl b h)
      tauto

theorem Unlinked.edits (u : Unlinked L m rest m' rest' x) (he : Edits L [] m rest m' rest) :
    Edits L [] m rest m' rest' :=
  ⟨fun b hb => Or.inr ((u.mem_iff b).mp hb).1, he.frame⟩

/-- Merging two free blocks leaves the blocks in use alone. -/
theorem Unlinked.sameUsed (u : Unlinked L m rest m' rest' x) (hx : ¬ isUsed m x)
    (hp : ¬ isUsed m (m.get .prev x)) : SameUsed L m rest m' rest' := by
  intro b
  have hmem : Used L m rest b → b ∈ L.start :: rest' := by
    rintro ⟨h1, h2⟩
    refine (u.mem_iff b).mpr ⟨h1, ?_⟩
    rintro rfl
    exact hx h2
  constructor
  · constructor
    · rintro ⟨h1, h2⟩
      exact ⟨((u.mem_iff b).mp h1).1, (u.isUsed_iff h1).mp h2⟩
    · intro hu
      exact ⟨hmem hu, (u.isUsed_iff (hmem hu)).mpr hu.2⟩
  · intro hu
    rw [u.next b (hmem hu), if_neg]
    rintro rfl
    exact hp hu.2

/-- The left neighbour grows by the block and its header. -/
theorem Unlinked.blockSize_prev (u : Unlinked L m rest m' rest' x) (w : Wf L m rest fl)
    (hx : x ∈ rest) (hxt : x ≠ L.tail) (hpx : m.get .prev x ∈ L.start :: rest') :
    blockSize m' (m.get .prev x) =
      blockSize m (m.get .prev x) + RT_MEMHEAP_SIZE + blockSize m x := by
  have hx' : x ∈ L.start :: rest := List.mem_cons_of_mem _ hx
  have h1 := w.next_eq (w.prev_mem hx') (w.prev_ne_tail hx)
  have h2 := w.next_eq hx' hxt
  rw [w.next_prev hx'] at h1
  have h3 : m'.get .next (m.get .prev x) = m.get .next x := by
    rw [u.next _ hpx, if_pos rfl]
  unfold blockSize at *
  omega

theorem Unlinked.blockSize_of_ne (u : Unlinked L m rest m' rest' x) (hb : b ∈ L.start :: rest')
    (hne : b ≠ m.get .prev x) : blockSize m' b = blockSize m b := by
  unfold blockSize
  rw [u.next b hb, if_neg hne]

theorem Split.isUsed_iff (u : Split L m rest m' rest' h x) (hb : b ∈ L.start :: rest) :
    isUsed m' b ↔ isUsed m b := by
  have hbx : b ≠ x := fun e => u.notMem (e ▸ hb)
  refine isUsed_congr ?_
  rw [u.magic b ((u.mem_iff b).mpr (Or.inr hb)), if_neg hbx]

theorem Split.free (u : Split L m rest m' rest' h x) : ¬ isUsed m' x := by
  unfold isUsed
  rw [u.magic x ((u.mem_iff x).mpr (Or.inl rfl)), if_pos rfl]
  decide

theorem Split.next_new (u : Split L m rest m' rest' h x) (hh : h ∈ L.start :: rest) :
    m'.get .next x = m.get .next h := by
  have hxh : x ≠ h := fun e => u.notMem (e ▸ hh)
  rw [u.next x ((u.mem_iff x).mpr (Or.inl rfl)), if_neg hxh, if_pos rfl]

theorem Split.next_of_ne (u : Split L m rest m' rest' h x) (hb : b ∈ L.start :: rest)
    (hne : b ≠ h) : m'.get .next b = m.get .next b := by
  have hbx : b ≠ x := fun e => u.notMem (e ▸ hb)
  rw [u.next b ((u.mem_iff b).mpr (Or.inr hb)), if_neg hne, if_neg hbx]

theorem Split.blockSize_of_ne (u : Split L m rest m' rest' h x) (hb : b ∈ L.start :: rest)
    (hne : b ≠ h) : blockSize m' b = blockSize m b := by
  unfold blockSize
  rw [u.next_of_ne hb hne]

end Effects

/-- The sum over a list one of whose blocks changes its size. -/
theorem total_update (m m' : Mem) {l l' : List Nat} {c : Nat} (hp : l.Perm (c :: l'))
    (heq : ∀ b ∈ l', blockSize m' b = blockSize m b) :
    total m' l + blockSize m c = total m l + blockSize m' c := by
  have h1 : total m' l = blockSize m' c + total m' l' := by
    simpa [total] using (hp.map (blockSize m')).sum_eq
  have h2 : total m l = blockSize m c + total m l' := by
    simpa [total] using (hp.map (blockSize m)).sum_eq
  have h3 : total m' l' = total m l' := by
    unfold total
    rw [List.map_congr_left heq]
  omega

end RTThread.Memheap
