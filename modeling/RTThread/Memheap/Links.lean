import RTThread.Memheap.Model

set_option autoImplicit false

/-! # The two linked structures of a pool

`Links` states the circular block chain and the circular free list of a pool over the words of
memory. Headers of a pool never overlap (`Apart`), so a store to a field of one header is seen
only by a load of that field of that header (`Mem.get_set`). Each group of statements the
allocator uses then has one lemma saying what every header field holds afterwards, and one
saying what it does to the two lists.
-/

namespace RTThread.Memheap

/-! ## Loads and stores -/

/-- Two headers do not overlap. -/
def Apart (a b : Nat) : Prop := a + RT_MEMHEAP_SIZE ≤ b ∨ b + RT_MEMHEAP_SIZE ≤ a

theorem Apart.symm {a b : Nat} (h : Apart a b) : Apart b a := Or.symm h

theorem Apart.ne {a b : Nat} (h : Apart a b) : a ≠ b := by
  rintro rfl
  unfold Apart RT_MEMHEAP_SIZE at h
  omega

/-- Any two headers of the list are the same or do not overlap. -/
def Sep (hs : List Nat) : Prop := ∀ a ∈ hs, ∀ b ∈ hs, a = b ∨ Apart a b

theorem Sep.mono {hs hs' : List Nat} (h : Sep hs) (hsub : ∀ a ∈ hs', a ∈ hs) : Sep hs' :=
  fun a ha b hb => h a (hsub a ha) b (hsub b hb)

theorem Sep.cons {hs : List Nat} {x : Nat} (h : Sep hs) (hx : ∀ a ∈ hs, Apart x a) :
    Sep (x :: hs) := by
  intro a ha b hb
  rcases List.mem_cons.mp ha with ha' | ha'
  · rcases List.mem_cons.mp hb with hb' | hb'
    · exact Or.inl (ha'.trans hb'.symm)
    · exact Or.inr (ha' ▸ hx b hb')
  · rcases List.mem_cons.mp hb with hb' | hb'
    · exact Or.inr (hb' ▸ (hx a ha').symm)
    · exact h a ha' b hb'

theorem Mem.get_set {m : Mem} {f g : Field} {a b v : Nat} (h : a = b ∨ Apart a b) :
    (m.set f a v).get g b = if g = f ∧ b = a then v else m.get g b := by
  unfold Mem.get Mem.set
  rcases h with rfl | h
  · cases f <;> cases g <;> simp [Field.off]
  · have hne : b ≠ a := h.symm.ne
    have hoff : b + g.off ≠ a + f.off := by
      unfold Apart RT_MEMHEAP_SIZE at h
      cases f <;> cases g <;> simp only [Field.off] <;> omega
    rw [if_neg hoff, if_neg (fun hc => hne hc.2)]

section Groups

variable {m : Mem} {hs : List Nat} {x h b fh heap : Nat} {f : Field}

/-- The header fields after `unlinkFree`. -/
theorem get_unlinkFree (hsep : Sep hs) (hx : x ∈ hs) (hn : m.get .nextFree x ∈ hs)
    (hp : m.get .prevFree x ∈ hs) (hb : b ∈ hs) :
    (unlinkFree m x).get f b =
      if f = .nextFree ∧ b = m.get .prevFree x then m.get .nextFree x
      else if f = .prevFree ∧ b = m.get .nextFree x then m.get .prevFree x
      else m.get f b := by
  have hself : (m.set .prevFree (m.get .nextFree x) (m.get .prevFree x)).get .prevFree x
      = m.get .prevFree x := by
    rw [Mem.get_set (hsep _ hn _ hx)]
    split <;> rfl
  have hnext : (m.set .prevFree (m.get .nextFree x) (m.get .prevFree x)).get .nextFree x
      = m.get .nextFree x := by
    rw [Mem.get_set (hsep _ hn _ hx)]
    simp
  simp only [unlinkFree, hself, hnext]
  rw [Mem.get_set (hsep _ hp _ hb), Mem.get_set (hsep _ hn _ hb)]

/-- The header fields after `pushFree`. -/
theorem get_pushFree (hsep : Sep hs) (hx : x ∈ hs) (hfh : fh ∈ hs)
    (hn : m.get .nextFree fh ∈ hs) (hxf : x ≠ fh) (hb : b ∈ hs) :
    (pushFree m fh x).get f b =
      if f = .nextFree ∧ b = fh then x
      else if f = .nextFree ∧ b = x then m.get .nextFree fh
      else if f = .prevFree ∧ b = m.get .nextFree fh then x
      else if f = .prevFree ∧ b = x then fh
      else m.get f b := by
  have h2 : ((m.set .nextFree x (m.get .nextFree fh)).set .prevFree x fh).get .nextFree fh
      = m.get .nextFree fh := by
    rw [Mem.get_set (hsep _ hx _ hfh), Mem.get_set (hsep _ hx _ hfh)]
    simp [hxf.symm]
  simp only [pushFree, h2]
  rw [Mem.get_set (hsep _ hfh _ hb), Mem.get_set (hsep _ hn _ hb), Mem.get_set (hsep _ hx _ hb),
    Mem.get_set (hsep _ hx _ hb)]
  cases f <;> simp

/-- The header fields after `splitBlock`. -/
theorem get_splitBlock (hsep : Sep hs) (hx : x ∈ hs) (hh : h ∈ hs) (hn : m.get .next h ∈ hs)
    (hxh : x ≠ h) (hb : b ∈ hs) :
    (splitBlock m heap h x).get f b =
      if f = .magic ∧ b = x then RT_MEMHEAP_MAGIC
      else if f = .poolPtr ∧ b = x then heap
      else if f = .next ∧ b = h then x
      else if f = .next ∧ b = x then m.get .next h
      else if f = .prev ∧ b = m.get .next h then x
      else if f = .prev ∧ b = x then h
      else m.get f b := by
  have h3 : (((m.set .magic x RT_MEMHEAP_MAGIC).set .poolPtr x heap).set .prev x h).get .next h
      = m.get .next h := by
    rw [Mem.get_set (hsep _ hx _ hh), Mem.get_set (hsep _ hx _ hh), Mem.get_set (hsep _ hx _ hh)]
    simp
  have h4 : ((((m.set .magic x RT_MEMHEAP_MAGIC).set .poolPtr x heap).set .prev x h).set
      .next x (m.get .next h)).get .next h = m.get .next h := by
    rw [Mem.get_set (hsep _ hx _ hh), h3]
    simp [hxh.symm]
  simp only [splitBlock, h3, h4]
  rw [Mem.get_set (hsep _ hh _ hb), Mem.get_set (hsep _ hn _ hb), Mem.get_set (hsep _ hx _ hb),
    Mem.get_set (hsep _ hx _ hb), Mem.get_set (hsep _ hx _ hb), Mem.get_set (hsep _ hx _ hb)]
  cases f <;> simp

/-- The header fields after `clearFree`. -/
theorem get_clearFree (hsep : Sep hs) (hx : x ∈ hs) (hb : b ∈ hs) :
    (clearFree m x).get f b =
      if (f = .nextFree ∨ f = .prevFree) ∧ b = x then 0 else m.get f b := by
  unfold clearFree
  rw [Mem.get_set (hsep _ hx _ hb), Mem.get_set (hsep _ hx _ hb)]
  cases f <;> simp

/-- The header fields after `absorbIntoPrev`. -/
theorem get_absorbIntoPrev (hsep : Sep hs) (hx : x ∈ hs) (hn : m.get .next x ∈ hs)
    (hp : m.get .prev x ∈ hs) (hb : b ∈ hs) :
    (absorbIntoPrev m x).get f b =
      if f = .prev ∧ b = m.get .next x then m.get .prev x
      else if f = .next ∧ b = m.get .prev x then m.get .next x
      else m.get f b := by
  have h1 : (m.set .next (m.get .prev x) (m.get .next x)).get .next x = m.get .next x := by
    rw [Mem.get_set (hsep _ hp _ hx)]
    split <;> rfl
  have h2 : (m.set .next (m.get .prev x) (m.get .next x)).get .prev x = m.get .prev x := by
    rw [Mem.get_set (hsep _ hp _ hx)]
    simp
  simp only [absorbIntoPrev, h1, h2]
  rw [Mem.get_set (hsep _ hn _ hb), Mem.get_set (hsep _ hp _ hb)]

/-- The links of the block chain after `x` is taken out of it; nothing else changes. -/
def BlockUnlinked (hs : List Nat) (m m' : Mem) (x : Nat) : Prop :=
  ∀ f, ∀ b ∈ hs, m'.get f b =
    if f = .prev ∧ b = m.get .next x then m.get .prev x
    else if f = .next ∧ b = m.get .prev x then m.get .next x
    else m.get f b

/-- Taking `x` out of the chain by the statements of a merge with the right neighbour. -/
theorem blockUnlinked_next (hsep : Sep hs) (hx : x ∈ hs) (hn : m.get .next x ∈ hs) (hh : h ∈ hs)
    (hp : m.get .prev x = h) :
    BlockUnlinked hs m ((m.set .prev (m.get .next x) h).set .next h
      ((m.set .prev (m.get .next x) h).get .next x)) x := by
  intro f b hb
  have h1 : (m.set .prev (m.get .next x) h).get .next x = m.get .next x := by
    rw [Mem.get_set (hsep _ hn _ hx)]
    simp
  rw [h1, Mem.get_set (hsep _ hh _ hb), Mem.get_set (hsep _ hn _ hb), hp]
  cases f <;> simp

/-- Taking `x` out of the chain by the statements of an in-place growth. -/
theorem blockUnlinked_remove (hsep : Sep hs) (hx : x ∈ hs) (hn : m.get .next x ∈ hs)
    (hp : m.get .prev x ∈ hs) :
    BlockUnlinked hs m ((m.set .prev (m.get .next x) (m.get .prev x)).set .next
      ((m.set .prev (m.get .next x) (m.get .prev x)).get .prev x)
      ((m.set .prev (m.get .next x) (m.get .prev x)).get .next x)) x := by
  intro f b hb
  have h1 : (m.set .prev (m.get .next x) (m.get .prev x)).get .next x = m.get .next x := by
    rw [Mem.get_set (hsep _ hn _ hx)]
    simp
  have h2 : (m.set .prev (m.get .next x) (m.get .prev x)).get .prev x = m.get .prev x := by
    rw [Mem.get_set (hsep _ hn _ hx)]
    split <;> rfl
  rw [h1, h2, Mem.get_set (hsep _ hp _ hb), Mem.get_set (hsep _ hn _ hb)]
  cases f <;> simp

/-! ### The cells that are stored to -/

/-- The memory changes in the header fields of `hs` only. -/
def Touches (hs : List Nat) (m m' : Mem) : Prop :=
  ∀ a, (∀ b ∈ hs, ∀ f : Field, a ≠ b + f.off) → m' a = m a

theorem Touches.refl (hs : List Nat) (m : Mem) : Touches hs m m := fun _ _ => rfl

theorem Touches.trans {m' m'' : Mem} (h : Touches hs m m') (h' : Touches hs m' m'') :
    Touches hs m m'' := fun a ha => (h' a ha).trans (h a ha)

theorem Touches.mono {m' : Mem} {hs' : List Nat} (h : Touches hs m m') (hsub : ∀ b ∈ hs, b ∈ hs') :
    Touches hs' m m' := fun a ha => h a fun b hb => ha b (hsub b hb)

theorem touches_set {v : Nat} (hx : x ∈ hs) : Touches hs m (m.set f x v) := fun _ ha =>
  if_neg (ha x hx f)

/-- A store whose item is read from memory. -/
theorem touches_set_of_eq {v y : Nat} (hy : y = x) (hx : x ∈ hs) : Touches hs m (m.set f y v) :=
  touches_set (hy ▸ hx)

theorem touches_unlinkFree (hsep : Sep hs) (hx : x ∈ hs) (hn : m.get .nextFree x ∈ hs)
    (hp : m.get .prevFree x ∈ hs) : Touches hs m (unlinkFree m x) := by
  refine (touches_set hn).trans (touches_set_of_eq (x := m.get .prevFree x) ?_ hp)
  rw [Mem.get_set (hsep _ hn _ hx)]
  split <;> rfl

theorem touches_pushFree (hsep : Sep hs) (hx : x ∈ hs) (hfh : fh ∈ hs)
    (hn : m.get .nextFree fh ∈ hs) (hxf : x ≠ fh) : Touches hs m (pushFree m fh x) := by
  refine (((touches_set hx).trans (touches_set hx)).trans
    (touches_set_of_eq (x := m.get .nextFree fh) ?_ hn)).trans (touches_set hfh)
  rw [Mem.get_set (hsep _ hx _ hfh), Mem.get_set (hsep _ hx _ hfh)]
  simp [hxf.symm]

theorem touches_splitBlock (hsep : Sep hs) (hx : x ∈ hs) (hh : h ∈ hs) (hn : m.get .next h ∈ hs)
    (hxh : x ≠ h) : Touches hs m (splitBlock m heap h x) := by
  refine (((((touches_set hx).trans (touches_set hx)).trans (touches_set hx)).trans
    (touches_set hx)).trans (touches_set_of_eq (x := m.get .next h) ?_ hn)).trans (touches_set hh)
  rw [Mem.get_set (hsep _ hx _ hh), Mem.get_set (hsep _ hx _ hh), Mem.get_set (hsep _ hx _ hh),
    Mem.get_set (hsep _ hx _ hh)]
  simp [hxh.symm]

theorem touches_clearFree (hx : x ∈ hs) : Touches hs m (clearFree m x) :=
  (touches_set hx).trans (touches_set hx)

theorem touches_absorbIntoPrev (hsep : Sep hs) (hx : x ∈ hs) (hn : m.get .next x ∈ hs)
    (hp : m.get .prev x ∈ hs) : Touches hs m (absorbIntoPrev m x) := by
  refine (touches_set hp).trans (touches_set_of_eq (x := m.get .next x) ?_ hn)
  rw [Mem.get_set (hsep _ hp _ hx)]
  split <;> rfl

/-- The statements of a merge with the right neighbour that take it out of the chain. -/
theorem touches_mergeNext (hh : h ∈ hs) (hn : m.get .next x ∈ hs) :
    Touches hs m ((m.set .prev (m.get .next x) h).set .next h
      ((m.set .prev (m.get .next x) h).get .next x)) :=
  (touches_set hn).trans (touches_set hh)

/-- The statements of an in-place growth that take a block out of the chain. -/
theorem touches_remove (hsep : Sep hs) (hx : x ∈ hs) (hn : m.get .next x ∈ hs)
    (hp : m.get .prev x ∈ hs) :
    Touches hs m ((m.set .prev (m.get .next x) (m.get .prev x)).set .next
      ((m.set .prev (m.get .next x) (m.get .prev x)).get .prev x)
      ((m.set .prev (m.get .next x) (m.get .prev x)).get .next x)) := by
  refine (touches_set hn).trans (touches_set_of_eq (x := m.get .prev x) ?_ hp)
  rw [Mem.get_set (hsep _ hn _ hx)]
  split <;> rfl

end Groups

/-! ## The two lists -/

/-- Where a pool lies: the address of its heap object, of the first block, of the tail header and
of the head of the free list, which is outside the pool. The pool is word-aligned and ends inside
the 32-bit address space; its size is a 32-bit number. -/
structure Layout where
  heap : Nat
  start : Nat
  tail : Nat
  freeHeader : Nat
  heap_ne : heap ≠ 0
  start_lt : start + RT_MEMHEAP_SIZE + RT_MEMHEAP_MINIALLOC ≤ tail
  start_aligned : start % 4 = 0
  tail_aligned : tail % 4 = 0
  tail_le : tail + RT_MEMHEAP_SIZE ≤ 4294967296
  pool_lt : tail + RT_MEMHEAP_SIZE < start + 4294967296
  apart : freeHeader + RT_MEMHEAP_SIZE ≤ start ∨ tail + RT_MEMHEAP_SIZE ≤ freeHeader

/-- The headers in use. -/
def Layout.headers (L : Layout) (rest fl : List Nat) : List Nat :=
  L.freeHeader :: L.start :: (rest ++ fl)

/-- The block chain `start :: rest` and the free list `fl` are linked both ways, and no two of
their headers overlap. -/
structure Links (L : Layout) (m : Mem) (rest fl : List Nat) : Prop where
  blocks : Dll (m.get .next) (m.get .prev) L.start rest
  frees : Dll (m.get .nextFree) (m.get .prevFree) L.freeHeader fl
  sep : Sep (L.headers rest fl)

namespace Links

variable {L : Layout} {m m' : Mem} {rest fl l₁ l₂ : List Nat} {x h a : Nat}

theorem mem_of_block (ha : a ∈ L.start :: rest) : a ∈ L.headers rest fl := by
  simp only [Layout.headers, List.mem_cons, List.mem_append] at *
  tauto

theorem mem_of_free (ha : a ∈ L.freeHeader :: fl) : a ∈ L.headers rest fl := by
  simp only [Layout.headers, List.mem_cons, List.mem_append] at *
  tauto

/-- The fields of the block chain decide `Links` together with those of the free list. -/
theorem congr (hl : Links L m rest fl)
    (hb : ∀ b ∈ L.start :: rest, m'.get .next b = m.get .next b ∧ m'.get .prev b = m.get .prev b)
    (hf : ∀ b ∈ L.freeHeader :: fl,
      m'.get .nextFree b = m.get .nextFree b ∧ m'.get .prevFree b = m.get .prevFree b) :
    Links L m' rest fl :=
  ⟨hl.blocks.congr (fun b h => (hb b h).1) fun b h => (hb b h).2,
    hl.frees.congr (fun b h => (hf b h).1) fun b h => (hf b h).2, hl.sep⟩

theorem get_unlinkFree (hl : Links L m rest fl) (hx : x ∈ fl) {f : Field} {b : Nat}
    (hb : b ∈ L.headers rest fl) :
    (unlinkFree m x).get f b =
      if f = .nextFree ∧ b = m.get .prevFree x then m.get .nextFree x
      else if f = .prevFree ∧ b = m.get .nextFree x then m.get .prevFree x
      else m.get f b := by
  have hx' : x ∈ L.freeHeader :: fl := List.mem_cons_of_mem _ hx
  exact Memheap.get_unlinkFree hl.sep (mem_of_free hx') (mem_of_free (hl.frees.next_mem hx'))
    (mem_of_free (hl.frees.prev_mem hx')) hb

theorem touches_unlinkFree (hl : Links L m rest fl) (hx : x ∈ fl) :
    Touches (L.headers rest fl) m (Memheap.unlinkFree m x) := by
  have hx' : x ∈ L.freeHeader :: fl := List.mem_cons_of_mem _ hx
  exact Memheap.touches_unlinkFree hl.sep (mem_of_free hx') (mem_of_free (hl.frees.next_mem hx'))
    (mem_of_free (hl.frees.prev_mem hx'))

theorem unlinkFree (hl : Links L m rest (l₁ ++ x :: l₂)) :
    Links L (unlinkFree m x) rest (l₁ ++ l₂) := by
  have hx : x ∈ l₁ ++ x :: l₂ := by simp
  have hsub : ∀ b ∈ L.headers rest (l₁ ++ l₂), b ∈ L.headers rest (l₁ ++ x :: l₂) := by
    intro b hb
    simp only [Layout.headers, List.mem_cons, List.mem_append] at *
    tauto
  refine ⟨hl.blocks.congr ?_ ?_, hl.frees.unlink ?_ ?_ ?_ ?_, hl.sep.mono hsub⟩
  · intro y hy
    rw [hl.get_unlinkFree hx (mem_of_block hy)]
    simp
  · intro y hy
    rw [hl.get_unlinkFree hx (mem_of_block hy)]
    simp
  · rw [hl.get_unlinkFree hx (mem_of_free (hl.frees.prev_mem (List.mem_cons_of_mem _ hx)))]
    simp
  · intro y hy hne
    rw [hl.get_unlinkFree hx (hsub y (mem_of_free hy))]
    simp [hne]
  · rw [hl.get_unlinkFree hx (mem_of_free (hl.frees.next_mem (List.mem_cons_of_mem _ hx)))]
    simp
  · intro y hy hne
    rw [hl.get_unlinkFree hx (hsub y (mem_of_free hy))]
    simp [hne]

theorem get_pushFree (hl : Links L m rest fl) (hx : x ∈ L.headers rest fl)
    (hxf : x ∉ L.freeHeader :: fl) {f : Field} {b : Nat} (hb : b ∈ L.headers rest fl) :
    (pushFree m L.freeHeader x).get f b =
      if f = .nextFree ∧ b = L.freeHeader then x
      else if f = .nextFree ∧ b = x then m.get .nextFree L.freeHeader
      else if f = .prevFree ∧ b = m.get .nextFree L.freeHeader then x
      else if f = .prevFree ∧ b = x then L.freeHeader
      else m.get f b := by
  have hfh : L.freeHeader ∈ L.freeHeader :: fl := by simp
  refine Memheap.get_pushFree hl.sep hx (mem_of_free hfh) (mem_of_free (hl.frees.next_mem hfh)) ?_ hb
  rintro rfl
  exact hxf hfh

theorem touches_pushFree (hl : Links L m rest fl) (hx : x ∈ L.headers rest fl)
    (hxf : x ∉ L.freeHeader :: fl) :
    Touches (L.headers rest fl) m (Memheap.pushFree m L.freeHeader x) :=
  Memheap.touches_pushFree hl.sep hx (mem_of_free (by simp))
    (mem_of_free (hl.frees.next_mem (by simp))) fun e => hxf (by simp [e])

theorem pushFree (hl : Links L m rest fl) (hx : x ∈ L.start :: rest)
    (hxf : x ∉ L.freeHeader :: fl) : Links L (pushFree m L.freeHeader x) rest (x :: fl) := by
  have hx' : x ∈ L.headers rest fl := mem_of_block hx
  have hfh : L.freeHeader ∈ L.headers rest fl := mem_of_free (by simp)
  have hne : x ≠ L.freeHeader := fun e => hxf (by simp [e])
  have hfrees : Dll (m.get .nextFree) (m.get .prevFree) L.freeHeader ([] ++ fl) := hl.frees
  have hfirst : m.get .nextFree L.freeHeader = Dll.firstOf fl L.freeHeader := hfrees.next_split
  have hmem : Dll.firstOf fl L.freeHeader ∈ L.freeHeader :: fl := Dll.firstOf_mem _ _
  have hxn : x ≠ Dll.firstOf fl L.freeHeader := fun e => hxf (e ▸ hmem)
  have hsub : ∀ b ∈ L.headers rest (x :: fl), b ∈ L.headers rest fl := by
    intro b hb
    simp only [Layout.headers, List.mem_cons, List.mem_append] at *
    rcases hb with h | h | h | h | h
    · exact Or.inl h
    · exact Or.inr (Or.inl h)
    · exact Or.inr (Or.inr (Or.inl h))
    · rw [h]; exact hx'
    · exact Or.inr (Or.inr (Or.inr h))
  refine ⟨hl.blocks.congr ?_ ?_, hfrees.insert ?_ ?_ ?_ ?_ ?_ ?_ ?_, hl.sep.mono hsub⟩
  · intro y hy
    rw [hl.get_pushFree hx' hxf (mem_of_block hy)]
    simp
  · intro y hy
    rw [hl.get_pushFree hx' hxf (mem_of_block hy)]
    simp
  · exact hxf
  · rw [Dll.lastOf_nil, hl.get_pushFree hx' hxf hfh]
    simp
  · rw [hl.get_pushFree hx' hxf hx', hfirst]
    simp [hne]
  · intro y hy hy'
    rw [hl.get_pushFree hx' hxf (mem_of_free hy)]
    have hyx : y ≠ x := fun e => hxf (e ▸ hy)
    simp only [Dll.lastOf_nil] at hy'
    simp [hy', hyx]
  · rw [hl.get_pushFree hx' hxf (mem_of_free hmem), hfirst]
    simp
  · rw [Dll.lastOf_nil, hl.get_pushFree hx' hxf hx', hfirst]
    simp [hxn]
  · intro y hy hy'
    rw [hl.get_pushFree hx' hxf (mem_of_free hy), hfirst]
    have hyx : y ≠ x := fun e => hxf (e ▸ hy)
    simp [hy', hyx]

/-- The header fields after `splitBlock`; the headers now include the new one. -/
theorem get_splitBlock (hl : Links L m rest fl) (heap : Nat) (hh : h ∈ L.start :: rest)
    (hx : ∀ b ∈ L.headers rest fl, Apart x b) {f : Field} {b : Nat}
    (hb : b ∈ x :: L.headers rest fl) :
    (splitBlock m heap h x).get f b =
      if f = .magic ∧ b = x then RT_MEMHEAP_MAGIC
      else if f = .poolPtr ∧ b = x then heap
      else if f = .next ∧ b = h then x
      else if f = .next ∧ b = x then m.get .next h
      else if f = .prev ∧ b = m.get .next h then x
      else if f = .prev ∧ b = x then h
      else m.get f b := by
  have hsep : Sep (x :: L.headers rest fl) := hl.sep.cons hx
  have hh' : h ∈ L.headers rest fl := mem_of_block hh
  have hn : m.get .next h ∈ L.headers rest fl := mem_of_block (hl.blocks.next_mem hh)
  exact Memheap.get_splitBlock hsep (by simp) (List.mem_cons_of_mem _ hh')
    (List.mem_cons_of_mem _ hn) (hx h hh').ne hb

theorem touches_splitBlock (hl : Links L m rest fl) (heap : Nat) (hh : h ∈ L.start :: rest)
    (hx : ∀ b ∈ L.headers rest fl, Apart x b) :
    Touches (x :: L.headers rest fl) m (Memheap.splitBlock m heap h x) := by
  have hh' : h ∈ L.headers rest fl := mem_of_block hh
  have hn : m.get .next h ∈ L.headers rest fl := mem_of_block (hl.blocks.next_mem hh)
  exact Memheap.touches_splitBlock (hl.sep.cons hx) (by simp) (List.mem_cons_of_mem _ hh')
    (List.mem_cons_of_mem _ hn) (hx h hh').ne

theorem splitBlock (hl : Links L m (l₁ ++ l₂) fl) (hh : Dll.lastOf L.start l₁ = h)
    (hx : ∀ b ∈ L.headers (l₁ ++ l₂) fl, Apart x b) (heap : Nat) :
    Links L (splitBlock m heap h x) (l₁ ++ x :: l₂) fl := by
  have hmem : h ∈ L.start :: (l₁ ++ l₂) := by
    rw [← hh]
    have := Dll.lastOf_mem L.start l₁
    simp only [List.mem_cons, List.mem_append] at *
    tauto
  have hnext : m.get .next h = Dll.firstOf l₂ L.start := by rw [← hh]; exact hl.blocks.next_split
  have hnmem : Dll.firstOf l₂ L.start ∈ L.start :: (l₁ ++ l₂) := hnext ▸ hl.blocks.next_mem hmem
  have hxne : ∀ b ∈ L.start :: (l₁ ++ l₂), b ≠ x := fun b hb => (hx b (mem_of_block hb)).ne.symm
  have hblock : ∀ b ∈ L.start :: (l₁ ++ l₂), b ∈ x :: L.headers (l₁ ++ l₂) fl :=
    fun b hb => List.mem_cons_of_mem _ (mem_of_block hb)
  have hfree : ∀ b ∈ L.freeHeader :: fl, b ∈ x :: L.headers (l₁ ++ l₂) fl :=
    fun b hb => List.mem_cons_of_mem _ (mem_of_free hb)
  have hself : x ∈ x :: L.headers (l₁ ++ l₂) fl := by simp
  refine ⟨hl.blocks.insert ?_ ?_ ?_ ?_ ?_ ?_ ?_, hl.frees.congr ?_ ?_, ?_⟩
  · exact fun hc => hxne x hc rfl
  · rw [hh, hl.get_splitBlock heap hmem hx (hblock h hmem)]
    simp
  · rw [hl.get_splitBlock heap hmem hx hself, ← hnext]
    simp [(hxne h hmem).symm]
  · intro y hy hy'
    rw [hh] at hy'
    rw [hl.get_splitBlock heap hmem hx (hblock y hy)]
    simp [hy', hxne y hy]
  · rw [hl.get_splitBlock heap hmem hx (hblock _ hnmem), ← hnext]
    simp
  · rw [hl.get_splitBlock heap hmem hx hself, hnext, hh]
    simp [(hxne _ hnmem).symm]
  · intro y hy hy'
    rw [← hnext] at hy'
    rw [hl.get_splitBlock heap hmem hx (hblock y hy)]
    simp [hy', hxne y hy]
  · intro y hy
    rw [hl.get_splitBlock heap hmem hx (hfree y hy)]
    simp
  · intro y hy
    rw [hl.get_splitBlock heap hmem hx (hfree y hy)]
    simp
  · refine (hl.sep.cons hx).mono fun b hb => ?_
    simp only [Layout.headers, List.mem_cons, List.mem_append] at hb ⊢
    grind

theorem unlinkBlock (hl : Links L m (l₁ ++ x :: l₂) fl)
    (hu : BlockUnlinked (L.headers (l₁ ++ x :: l₂) fl) m m' x) : Links L m' (l₁ ++ l₂) fl := by
  have hx : x ∈ L.start :: (l₁ ++ x :: l₂) := by simp
  have hsub : ∀ b ∈ L.headers (l₁ ++ l₂) fl, b ∈ L.headers (l₁ ++ x :: l₂) fl := by
    intro b hb
    simp only [Layout.headers, List.mem_cons, List.mem_append] at *
    tauto
  refine ⟨hl.blocks.unlink ?_ ?_ ?_ ?_, hl.frees.congr ?_ ?_, hl.sep.mono hsub⟩
  · rw [hu _ _ (mem_of_block (hl.blocks.prev_mem hx))]
    simp
  · intro y hy hne
    rw [hu _ _ (hsub y (mem_of_block hy))]
    simp [hne]
  · rw [hu _ _ (mem_of_block (hl.blocks.next_mem hx))]
    simp
  · intro y hy hne
    rw [hu _ _ (hsub y (mem_of_block hy))]
    simp [hne]
  · intro y hy
    rw [hu _ _ (mem_of_free hy)]
    simp
  · intro y hy
    rw [hu _ _ (mem_of_free hy)]
    simp

end Links

end RTThread.Memheap
