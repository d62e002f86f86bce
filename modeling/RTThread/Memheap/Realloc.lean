import RTThread.Memheap.Alloc

set_option autoImplicit false

/-! # `rt_memheap_realloc`

A block grows in place when its right neighbour is free and big enough, and otherwise moves; it
shrinks by giving its end back. In all three a header is built inside a block in use, which is
the situation `Freeing` describes: a free block that is not in the free list yet.
-/

namespace RTThread.Memheap

variable {L : Layout} {m m' : Mem} {rest rest' fl fl' : List Nat} {h b x a size : Nat}

/-! ## Stores into a payload -/

/-- Every header field is the same. -/
def SameHeaders (L : Layout) (rest fl : List Nat) (m m' : Mem) : Prop :=
  ∀ f, ∀ b ∈ L.headers rest fl, m'.get f b = m.get f b

theorem SameHeaders.sameBlocks (hs : SameHeaders L rest fl m m') :
    SameBlocks (L.start :: rest) m m' := fun b hb =>
  ⟨hs _ b (Links.mem_of_block hb), hs _ b (Links.mem_of_block hb), hs _ b (Links.mem_of_block hb),
    hs _ b (Links.mem_of_block hb)⟩

/-- The address belongs to the payload of the block `h`. -/
def InPayload (m : Mem) (h a : Nat) : Prop := h + RT_MEMHEAP_SIZE ≤ a ∧ a < m.get .next h

namespace Tiled

theorem congr (t : Tiled L m rest fl) (hs : SameHeaders L rest fl m m') : Tiled L m' rest fl := by
  have hb := hs.sameBlocks
  refine ⟨t.wf.congr (t.wf.links.congr ?_ ?_) hb, ?_, ?_, ?_⟩
  · exact fun b h => ⟨hs _ b (Links.mem_of_block h), hs _ b (Links.mem_of_block h)⟩
  · exact fun b h => ⟨hs _ b (Links.mem_of_free h), hs _ b (Links.mem_of_free h)⟩
  · exact (isUsed_congr (hb _ t.wf.tail_mem).1).mpr t.tail_used
  · intro a
    rw [t.free_iff]
    exact and_congr_right fun ha => not_congr (isUsed_congr (hb a ha).1).symm
  · intro a ha
    have ha' := (t.block ha).1
    rw [(hb a ha').2.2.1, isUsed_congr (hb _ (t.wf.next_mem ha')).1]
    exact t.no_adjacent a ha

/-- A header field is no part of a payload. -/
theorem field_notMem_payload (t : Tiled L m rest fl) (hu : h ∈ L.start :: rest) (hne : h ≠ L.tail)
    (hb : b ∈ L.headers rest fl) (f : Field) : ¬ InPayload m h (b + f.off) := by
  have hoff : f.off < RT_MEMHEAP_SIZE := by
    unfold RT_MEMHEAP_SIZE
    cases f <;> simp [Field.off]
  have hr := t.wf.range h hu
  have hle := t.wf.next_le_tail hu
  have hblock : ∀ b ∈ L.start :: rest, ¬ InPayload m h (b + f.off) := by
    rintro b hb ⟨h1, h2⟩
    rcases Nat.lt_trichotomy b h with hlt | rfl | hlt
    · have hbt : b ≠ L.tail := by omega
      have h3 := t.wf.gap b hb hbt
      have h4 := t.wf.order b hb h hu hlt
      omega
    · omega
    · have h3 := t.wf.order h hu b hb hlt
      omega
  simp only [Layout.headers, List.mem_cons, List.mem_append] at hb
  rcases hb with rfl | rfl | hb | hb
  · rintro ⟨h1, h2⟩
    rcases L.apart with h3 | h3 <;> omega
  · exact hblock _ (by simp)
  · exact hblock b (List.mem_cons_of_mem _ hb)
  · exact hblock b (t.block hb).1

/-- Stores into a payload change no header. -/
theorem sameHeaders (t : Tiled L m rest fl) (hu : h ∈ L.start :: rest) (hne : h ≠ L.tail)
    (hm : ∀ a, ¬ InPayload m h a → m' a = m a) : SameHeaders L rest fl m m' := fun f _ hb =>
  hm _ (t.field_notMem_payload hu hne hb f)

end Tiled

/-! ## Cells that an edit leaves alone -/

/-- The address is neither in the pool nor in the head of its free list. -/
def Outside (L : Layout) (a : Nat) : Prop :=
  (a < L.start ∨ L.tail + RT_MEMHEAP_SIZE ≤ a) ∧
    (a < L.freeHeader ∨ L.freeHeader + RT_MEMHEAP_SIZE ≤ a)

theorem Field.off_lt (f : Field) : f.off < RT_MEMHEAP_SIZE := by
  unfold RT_MEMHEAP_SIZE
  cases f <;> simp [Field.off]

theorem FreeAt.range (t : Tiled L m rest fl) (hx : FreeAt L m rest x) :
    L.start ≤ x ∧ x ≤ L.tail := by
  obtain ⟨g, hg, -, h1, h2⟩ := hx
  have h3 := (t.wf.range g hg).1
  have h4 := t.wf.next_le_tail hg
  omega

theorem Edits.outside {new : List Nat} (e : Edits L new m rest m' rest') (t : Tiled L m rest fl)
    (hnew : ∀ x ∈ new, L.start ≤ x ∧ x ≤ L.tail) (ha : Outside L a) : m' a = m a := by
  refine e.frame a fun b hb f he => ?_
  have hoff := f.off_lt
  have hin : b = L.freeHeader ∨ L.start ≤ b ∧ b ≤ L.tail := by
    rw [List.mem_cons, List.mem_cons, List.mem_append] at hb
    rcases hb with h1 | h1 | h1 | h1
    · exact Or.inl h1
    · have h2 := t.wf.range b (h1 ▸ List.mem_cons_self)
      exact Or.inr ⟨h2.1, h2.2.1⟩
    · have h2 := t.wf.range b (List.mem_cons_of_mem _ h1)
      exact Or.inr ⟨h2.1, h2.2.1⟩
    · exact Or.inr (hnew b h1)
  obtain ⟨h1, h2⟩ := ha
  omega

/-- A free block and what is built in it are apart from the payload of a block in use. -/
theorem FreeAt.apart (t : Tiled L m rest fl) (hx : FreeAt L m rest x) (hb : Used L m rest b)
    (ha : InPayload m b a) : a < x ∨ x + RT_MEMHEAP_SIZE ≤ a := by
  obtain ⟨g, hg, hfree, h1, h2⟩ := hx
  obtain ⟨h3, h4⟩ := ha
  rcases Nat.lt_trichotomy b g with hlt | rfl | hlt
  · have h5 := t.wf.order b hb.1 g hg hlt
    omega
  · exact absurd hb.2 hfree
  · have h5 := t.wf.order g hg b hb.1 hlt
    unfold RT_MEMHEAP_SIZE at *
    omega

theorem Edits.payload {new : List Nat} (e : Edits L new m rest m' rest') (t : Tiled L m rest fl)
    (hb : b ∈ L.start :: rest) (hbt : b ≠ L.tail) (ha : InPayload m b a)
    (hnew : ∀ x ∈ new, a < x ∨ x + RT_MEMHEAP_SIZE ≤ a) : m' a = m a := by
  refine e.frame a fun c hc f he => ?_
  have hoff := f.off_lt
  rw [List.mem_cons, List.mem_cons, List.mem_append] at hc
  have hheader : c ∉ new → c ∈ L.headers rest fl := fun hcn => by
    unfold Layout.headers
    simp only [List.mem_cons, List.mem_append]
    tauto
  by_cases hcn : c ∈ new
  · have h1 := hnew c hcn
    omega
  · exact t.field_notMem_payload hb hbt (hheader hcn) f (he ▸ ha)

/-- What is outside the pool, and the payloads of the blocks in use, are the same. -/
structure Frame (L : Layout) (m : Mem) (rest : List Nat) (m' : Mem) : Prop where
  outside : ∀ a, Outside L a → m' a = m a
  payload : ∀ b, Used L m rest b → b ≠ L.tail → ∀ a, InPayload m b a → m' a = m a

theorem Edits.frame_of_freeAt {new : List Nat} (e : Edits L new m rest m' rest')
    (t : Tiled L m rest fl) (hnew : ∀ x ∈ new, FreeAt L m rest x) : Frame L m rest m' :=
  ⟨fun _ ha => e.outside t (fun x hx => (hnew x hx).range t) ha,
    fun _ hb hbt _ ha => e.payload t hb.1 hbt ha fun x hx => (hnew x hx).apart t hb ha⟩

theorem Inv.congr {p : Pool} (i : Inv L p rest fl) (hs : SameHeaders L rest fl p.mem m') :
    Inv L { p with mem := m' } rest fl := by
  refine ⟨i.toTiled.congr hs, ?_, i.maxUsed, i.heap⟩
  rw [hs.sameBlocks.total_eq fun b hb => (i.block hb).1]
  exact i.available

/-! ## Building a header inside a block in use -/

/-- Splitting a block in use gives a free block that is not in the free list yet. -/
theorem Tiled.splitUsed (t : Tiled L m rest fl) (hu : Used L m rest h) (hne : h ≠ L.tail)
    (h₁ : h + RT_MEMHEAP_SIZE ≤ x) (h₂ : x + RT_MEMHEAP_SIZE ≤ m.get .next h) (hal : x % 4 = 0) :
    ∃ rest', Split L m rest (splitBlock m L.heap h x) rest' h x ∧
      Freeing L (splitBlock m L.heap h x) rest' fl x true ∧
      LeftUsed L (splitBlock m L.heap h x) rest' x ∧
      (∀ b, Used L (splitBlock m L.heap h x) rest' b ↔ Used L m rest b) ∧
      total (splitBlock m L.heap h x) fl = total m fl ∧
      Edits L [x] m rest (splitBlock m L.heap h x) rest' := by
  obtain ⟨rest', w, u⟩ := t.wf.split (fun b hb => (t.block hb).1) hu.1 hne h₁ h₂ hal
  have hxfl : x ∉ fl := fun hc => u.notMem (t.block hc).1
  have hflb : ∀ b ∈ fl, b ∈ L.start :: rest := fun b hb => (t.block hb).1
  refine ⟨rest', u, ⟨w, ?_, ?_, u.free, by simp [hxfl], ?_, ?_⟩, ?_, ?_, ?_,
    u.edits hflb (t.wf.links.touches_splitBlock L.heap hu.1
      (t.wf.apart_of_inside hflb hu.1 hne h₁ h₂))⟩
  · exact (u.isUsed_iff t.wf.tail_mem).mpr t.tail_used
  · exact (u.mem_iff x).mpr (Or.inl rfl)
  · intro a hax
    rw [t.free_iff, u.mem_iff]
    constructor
    · rintro ⟨h3, h4⟩
      exact ⟨Or.inr h3, by rwa [u.isUsed_iff h3]⟩
    · rintro ⟨h3, h4⟩
      have h3' := h3.resolve_left hax
      exact ⟨h3', by rwa [u.isUsed_iff h3'] at h4⟩
  · intro a ha hfree hax _
    have ha' := ((u.mem_iff a).mp ha).resolve_left hax
    rw [u.isUsed_iff ha'] at hfree
    have hah : a ≠ h := fun e => hfree (e ▸ hu.2)
    rw [u.next_of_ne ha' hah, u.isUsed_iff (t.wf.next_mem ha')]
    exact t.no_adjacent a ((t.free_iff a).mpr ⟨ha', hfree⟩)
  · -- only `h` leads to the new header
    intro a ha hna
    by_cases hah : a = h
    · exact hah ▸ (u.isUsed_iff hu.1).mpr hu.2
    · exfalso
      rw [u.next a ha, if_neg hah] at hna
      split_ifs at hna with hax
      · unfold RT_MEMHEAP_SIZE at h₂
        omega
      · exact u.notMem (hna ▸ t.wf.next_mem (((u.mem_iff a).mp ha).resolve_left hax))
  · intro b
    constructor
    · rintro ⟨h3, h4⟩
      rcases (u.mem_iff b).mp h3 with rfl | h3
      · exact absurd h4 u.free
      · exact ⟨h3, (u.isUsed_iff h3).mp h4⟩
    · rintro ⟨h3, h4⟩
      exact ⟨(u.mem_iff b).mpr (Or.inr h3), (u.isUsed_iff h3).mpr h4⟩
  · unfold total
    rw [List.map_congr_left fun b hb => u.blockSize_of_ne (t.block hb).1
      fun e => ((t.free_iff b).mp hb).2 (e ▸ hu.2)]

/-- Removing a free block from both lists gives its space to its left neighbour, which is in
use. -/
theorem Tiled.removeNext (t : Tiled L m rest fl) (hu : Used L m rest h) (hne : h ≠ L.tail)
    (hfree : ¬ isUsed m (m.get .next h)) {m' : Mem} (hm' : m' = removeItem m (m.get .next h)) :
    ∃ rest' fl', Tiled L m' rest' fl' ∧ (∀ b, Used L m' rest' b ↔ Used L m rest b) ∧
      m'.get .next h = m.get .next h + RT_MEMHEAP_SIZE + blockSize m (m.get .next h) ∧
      (∀ b, Used L m rest b → b ≠ h → m'.get .next b = m.get .next b) ∧
      total m' fl' + blockSize m (m.get .next h) = total m fl ∧ Edits L [] m rest m' rest' := by
  have hpx : m.get .prev (m.get .next h) = h := t.wf.prev_next hu.1
  have hx := t.wf.next_mem_rest hu.1 hne
  set x := m.get .next h with hxdef
  have hx' : x ∈ L.start :: rest := List.mem_cons_of_mem _ hx
  have hxt : x ≠ L.tail := fun e => hfree (e ▸ t.tail_used)
  have hxfl : x ∈ fl := (t.free_iff x).mpr ⟨hx', hfree⟩
  obtain ⟨fl', hperm, w₁⟩ := t.wf.removeFree hxfl
  have hs := t.wf.sameBlocks_unlinkFree hxfl
  have hnext₁ : (unlinkFree m x).get .next x = m.get .next x := (hs x hx').2.2.1
  have hprev₁ : (unlinkFree m x).get .prev x = h := by rw [(hs x hx').2.2.2, hpx]
  have hbu := blockUnlinked_remove w₁.links.sep (Links.mem_of_block hx')
    (Links.mem_of_block (w₁.next_mem hx')) (Links.mem_of_block (w₁.prev_mem hx'))
  obtain ⟨rest', w, u⟩ := w₁.unlinkBlock hx hxt hbu
  change Wf L (removeItem m x) rest' fl' at w
  change Unlinked L (unlinkFree m x) rest (removeItem m x) rest' x at u
  rw [← hm'] at w u
  have hnd : (x :: fl').Nodup := hperm.nodup_iff.mp t.nodup
  have hmem : ∀ a, a ∈ fl ↔ a = x ∨ a ∈ fl' := fun a => by rw [hperm.mem_iff, List.mem_cons]
  have hused : ∀ b ∈ L.start :: rest', (isUsed m' b ↔ isUsed m b) := fun b hb => by
    rw [u.isUsed_iff hb, isUsed_congr (hs b ((u.mem_iff b).mp hb).1).1]
  have hnext : ∀ b ∈ L.start :: rest', b ≠ h → m'.get .next b = m.get .next b := fun b hb hbh => by
    rw [u.next b hb, hprev₁, if_neg hbh, (hs b ((u.mem_iff b).mp hb).1).2.2.1]
  have hkeep : ∀ b, Used L m rest b → b ∈ L.start :: rest' := by
    rintro b ⟨h1, h2⟩
    refine (u.mem_iff b).mpr ⟨h1, ?_⟩
    rintro rfl
    exact hfree h2
  have hflh : ∀ a ∈ fl, a ≠ h := fun a ha e => ((t.free_iff a).mp ha).2 (e ▸ hu.2)
  have hfl' : ∀ a ∈ fl', a ∈ fl ∧ a ≠ x ∧ a ∈ L.start :: rest' := by
    intro a ha
    have h1 := (hmem a).mpr (Or.inr ha)
    have h2 : a ≠ x := fun e => (List.nodup_cons.mp hnd).1 (e ▸ ha)
    exact ⟨h1, h2, (u.mem_iff a).mpr ⟨(t.block h1).1, h2⟩⟩
  have hedits : Edits L [] m rest m' rest' := by
    have he₁ : Edits L [] m rest (unlinkFree m x) rest :=
      .of_touches (fun b hb => (t.block hb).1) (t.wf.links.touches_unlinkFree hxfl)
    have he₂ : Edits L [] (unlinkFree m x) rest m' rest := by
      rw [hm']
      exact .of_touches (fun b hb => (t.block ((hmem b).mpr (Or.inr hb))).1)
        (touches_remove w₁.links.sep (Links.mem_of_block hx')
          (Links.mem_of_block (w₁.next_mem hx')) (Links.mem_of_block (w₁.prev_mem hx')))
    exact he₁.trans (u.edits he₂) (by simp)
  refine ⟨rest', fl', ⟨w, ?_, ?_, ?_⟩, ?_, ?_, ?_, ?_, hedits⟩
  · exact (hused _ w.tail_mem).mpr t.tail_used
  · intro a
    constructor
    · intro ha
      have h1 := hfl' a ha
      exact ⟨h1.2.2, fun hc => ((t.free_iff a).mp h1.1).2 ((hused a h1.2.2).mp hc)⟩
    · rintro ⟨h1, h2⟩
      have h3 := (u.mem_iff a).mp h1
      rw [hused a h1] at h2
      exact ((hmem a).mp ((t.free_iff a).mpr ⟨h3.1, h2⟩)).resolve_left h3.2
  · intro a ha
    have h1 := hfl' a ha
    have h2 := t.no_adjacent a h1.1
    have h3 : m.get .next a ∈ L.start :: rest' :=
      hkeep _ ⟨t.wf.next_mem (t.block h1.1).1, h2⟩
    rw [hnext a h1.2.2 (hflh a h1.1), hused _ h3]
    exact h2
  · intro b
    constructor
    · rintro ⟨h1, h2⟩
      exact ⟨((u.mem_iff b).mp h1).1, (hused b h1).mp h2⟩
    · intro hb
      exact ⟨hkeep b hb, (hused b (hkeep b hb)).mpr hb.2⟩
  · rw [u.next h (hkeep h hu), hprev₁, if_pos rfl, hnext₁]
    exact t.wf.next_eq hx' hxt
  · exact fun b hb hbh => hnext b (hkeep b hb) hbh
  · have h1 : total m' fl' = total m fl' := by
      unfold total blockSize
      rw [List.map_congr_left fun b hb => by
        rw [hnext b (hfl' b hb).2.2 (hflh b (hfl' b hb).1)]]
    have h2 : total m fl = blockSize m x + total m fl' := by
      simpa [total] using (hperm.map (blockSize m)).sum_eq
    omega

/-! ## The three ways to resize -/

/-- The block `h` changes its size in place: the blocks in use are the same, and the others keep
their space. -/
structure Resized (L : Layout) (m : Mem) (rest : List Nat) (m' : Mem) (rest' : List Nat)
    (h size : Nat) : Prop where
  used : ∀ b, Used L m' rest' b ↔ Used L m rest b
  next : ∀ b, Used L m rest b → b ≠ h → m'.get .next b = m.get .next b
  size_le : h + RT_MEMHEAP_SIZE + size ≤ m'.get .next h

/-- Growing into the right neighbour. -/
theorem Inv.growInPlace {p : Pool} (i : Inv L p rest fl) (hu : Used L p.mem rest h)
    (hne : h ≠ L.tail) (hfree : ¬ isUsed p.mem (p.mem.get .next h)) (hal : size % 4 = 0)
    (hold : blockSize p.mem h < size)
    (hfit : size ≤ blockSize p.mem h + blockSize p.mem (p.mem.get .next h)) {p' : Pool}
    (hp' : p' = Memheap.growInPlace p L.heap (h + RT_MEMHEAP_SIZE) h size (blockSize p.mem h)) :
    ∃ rest' fl', Inv L p' rest' fl' ∧ p'.heap.lock = p.heap.lock ∧
      Resized L p.mem rest p'.mem rest' h size ∧
      Edits L [h + RT_MEMHEAP_SIZE + size] p.mem rest p'.mem rest' ∧
      FreeAt L p.mem rest (h + RT_MEMHEAP_SIZE + size) := by
  have hnexth := i.wf.next_eq hu.1 hne
  have hpool := i.heap.poolSize_lt
  have hav := i.available
  have htot := i.total_lt
  have hxb := i.wf.next_mem hu.1
  have hxt : p.mem.get .next h ≠ L.tail := fun e => hfree (e ▸ i.tail_used)
  have hnn := i.wf.next_eq hxb hxt
  have hxfl := (i.free_iff _).mpr ⟨hxb, hfree⟩
  have hle := i.wf.next_le_tail hxb
  have htail := L.tail_le
  have hlt : size < 4294967296 := by
    unfold RT_MEMHEAP_SIZE at *
    omega
  have hptr : u32 (h + RT_MEMHEAP_SIZE + size) = h + RT_MEMHEAP_SIZE + size := by
    unfold u32 RT_MEMHEAP_SIZE at *
    omega
  have halign : (h + RT_MEMHEAP_SIZE + size) % 4 = 0 := by
    have := (i.wf.range h hu.1).2.2
    unfold RT_MEMHEAP_SIZE
    omega
  obtain ⟨rest₁, fl₁, t₁, hused₁, hnext₁, hother₁, hsum₁, he₁⟩ := i.removeNext hu hne hfree rfl
  set m₁ := removeItem p.mem (p.mem.get .next h) with hm₁
  obtain ⟨rest₂, u, f, hl, hused₂, hsum₂, he₂⟩ := t₁.splitUsed (x := h + RT_MEMHEAP_SIZE + size)
    ((hused₁ h).mpr hu) hne (by omega) (by omega) halign
  set m₂ := splitBlock m₁ L.heap h (h + RT_MEMHEAP_SIZE + size) with hm₂
  have hnew : m₂.get .next (h + RT_MEMHEAP_SIZE + size) = m₁.get .next h :=
    u.next_new ((hused₁ h).mpr hu).1
  -- the right neighbour of the free block is in use
  have hright : isUsed m₂ (m₂.get .next (h + RT_MEMHEAP_SIZE + size)) := by
    have h1 : Used L p.mem rest (p.mem.get .next (p.mem.get .next h)) :=
      ⟨i.wf.next_mem hxb, i.no_adjacent _ hxfl⟩
    have h2 := (hused₁ _).mpr h1
    rw [hnew, hnext₁, ← hnn, u.isUsed_iff h2.1]
    exact h2.2
  have hsize : blockSize m₂ (h + RT_MEMHEAP_SIZE + size) + (size - blockSize p.mem h) =
      blockSize p.mem (p.mem.get .next h) := by
    unfold blockSize at *
    rw [hnew, hnext₁]
    omega
  have hfl : total m₂ (withCur fl₁ (h + RT_MEMHEAP_SIZE + size) true) +
      (size - blockSize p.mem h) = total p.mem fl := by
    have h1 : total m₂ ((h + RT_MEMHEAP_SIZE + size) :: fl₁) =
      blockSize m₂ (h + RT_MEMHEAP_SIZE + size) + total m₂ fl₁ := by simp [total]
    simp only [withCur, if_true]
    omega
  have hsub : sub32 p.heap.availableSize (sub32 size (blockSize p.mem h)) =
      p.heap.availableSize - (size - blockSize p.mem h) := by
    have h1 : sub32 size (blockSize p.mem h) = size - blockSize p.mem h :=
      sub32_eq hold.le hlt
    rw [h1, sub32_eq (by omega) (by omega)]
  obtain ⟨v, hv, hmax⟩ := Pool.updateMaxUsed_spec
    { p with heap := { p.heap with
        availableSize := p.heap.availableSize - (size - blockSize p.mem h) } }
    (by simp only; omega) hpool.1
  simp only [Memheap.growInPlace, hptr, hsub, Pool.setAvailable, hv, ← hm₁, ← hm₂] at hp'
  obtain ⟨i', hs', he₃⟩ := f.inv (p := { p with
    mem := m₂
    heap := { p.heap with
      availableSize := p.heap.availableSize - (size - blockSize p.mem h), maxUsedSize := v } })
    hl hright ⟨i.heap.startAddr, i.heap.poolSize, i.heap.blockList, i.heap.freeList⟩
    (by simp only; omega) hmax
  subst hp'
  refine ⟨rest₂, _, i', rfl, ⟨?_, ?_, ?_⟩, ((he₁.mono (by simp)).trans he₂ (by simp)).trans he₃
    (by simp), ⟨_, hxb, hfree, by omega, by omega⟩⟩
  · exact fun b => (hs' b).1.trans ((hused₂ b).trans (hused₁ b))
  · intro b hb hbh
    have h1 := (hused₁ b).mpr hb
    exact ((hs' b).2 ((hused₂ b).mpr h1)).trans
      ((u.next_of_ne h1.1 hbh).trans (hother₁ b hb hbh))
  · have h1 := (hused₂ h).mpr ((hused₁ h).mpr hu)
    have h2 : m₂.get .next h = h + RT_MEMHEAP_SIZE + size := by
      rw [u.next h h1.1, if_pos rfl]
    exact (((hs' h).2 h1).trans h2).ge

/-- The new free block `x` goes to the front of the free list, and its size is added to the
counter. -/
theorem Freeing.insertFreed {p : Pool} (f : Freeing L p.mem rest fl x true)
    (hl : LeftUsed L p.mem rest x) (hr : isUsed p.mem (p.mem.get .next x)) (hh : HeapOk L p.heap)
    (hav : p.heap.availableSize + blockSize p.mem x = total p.mem (x :: fl))
    (hmax : p.heap.poolSize - (p.heap.availableSize + blockSize p.mem x) ≤ p.heap.maxUsedSize) :
    Inv L (Memheap.insertFreed p x) rest (x :: fl) ∧
      (Memheap.insertFreed p x).heap.lock = p.heap.lock ∧
      SameUsed L p.mem rest (Memheap.insertFreed p x).mem rest ∧
      Edits L [] p.mem rest (Memheap.insertFreed p x).mem rest := by
  have hxfl : x ∉ L.freeHeader :: fl := by
    rw [List.mem_cons, f.ins_iff]
    simpa using f.wf.ne_freeHeader f.mem
  have hsize : memitemSize (pushFree p.mem p.heap.freeList x) x = blockSize p.mem x := by
    have hs := f.wf.sameBlocks_pushFree f.mem hxfl
    rw [hh.freeList, (f.wf.pushFree f.mem hxfl).memitemSize_eq f.mem f.ne_tail]
    unfold blockSize
    rw [(hs x f.mem).2.2.1]
  have hsum : u32 (p.heap.availableSize + blockSize p.mem x) = total p.mem (x :: fl) := by
    have hlt := f.total_lt
    simp only [withCur, if_true] at hlt
    rw [hav, u32, Nat.mod_eq_of_lt hlt]
  have h1 := f.inv (p := p.setAvailable (total p.mem (x :: fl))) hl hr
    ⟨hh.startAddr, hh.poolSize, hh.blockList, hh.freeList⟩ rfl (by rw [← hav]; exact hmax)
  simp only [Memheap.insertFreed, hsize, hsum]
  exact ⟨h1.1, rfl, h1.2⟩

/-- After the merge the right neighbour of `x` is in use; the counter does not include `x`. -/
theorem Freeing.mergeFreed {p : Pool} (f : Freeing L p.mem rest fl x true)
    (hl : LeftUsed L p.mem rest x) (hh : HeapOk L p.heap)
    (hav : p.heap.availableSize = total p.mem fl)
    (hmax : p.heap.poolSize - p.heap.availableSize ≤ p.heap.maxUsedSize) :
    ∃ rest' fl' q, Memheap.mergeFreed p x = q ∧ Freeing L q.mem rest' fl' x true ∧
      LeftUsed L q.mem rest' x ∧ isUsed q.mem (q.mem.get .next x) ∧ HeapOk L q.heap ∧
      q.heap.availableSize + blockSize q.mem x = total q.mem (x :: fl') ∧
      q.heap.poolSize - (q.heap.availableSize + blockSize q.mem x) ≤ q.heap.maxUsedSize ∧
      q.heap.lock = p.heap.lock ∧ SameUsed L p.mem rest q.mem rest' ∧
      Edits L [] p.mem rest q.mem rest' := by
  have hcons : total p.mem (x :: fl) = blockSize p.mem x + total p.mem fl := by simp [total]
  unfold Memheap.mergeFreed
  by_cases hr : isUsed p.mem (p.mem.get .next x)
  · rw [if_neg (not_not.mpr hr)]
    exact ⟨rest, fl, p, rfl, f, hl, hr, hh, by omega, by omega, rfl, SameUsed.refl _ _ _,
      Edits.refl _ _ _⟩
  · rw [if_pos hr]
    obtain ⟨rest₂, fl₂, f₂, hl₂, hr₂, hs₂, htot₂, hsize₂, he₂⟩ := f.absorbNext hl hr
    simp only [withCur, if_true] at htot₂
    have hnx : p.mem.get .next x ∈ L.start :: rest := f.wf.next_mem f.mem
    have hnt : p.mem.get .next x ≠ L.tail := fun e => hr (e ▸ f.tail_used)
    -- the block merged is one of the free blocks, so its size is part of the counter
    have hnfl : p.mem.get .next x ∈ fl := by
      refine (f.free_iff _ ?_).mpr ⟨hnx, hr⟩
      have := f.wf.gap x f.mem f.ne_tail
      unfold RT_MEMHEAP_SIZE at this
      omega
    have hpart : blockSize p.mem (p.mem.get .next x) ≤ total p.mem fl :=
      List.single_le_sum (fun _ _ => Nat.zero_le _) _ (List.mem_map_of_mem hnfl)
    have hlt := f.total_lt
    simp only [withCur, if_true] at hlt
    have hsub : sub32 p.heap.availableSize (memitemSize p.mem (p.mem.get .next x)) =
        p.heap.availableSize - blockSize p.mem (p.mem.get .next x) := by
      rw [f.wf.memitemSize_eq hnx hnt, sub32_eq (by omega) (by omega)]
    simp only [hsub]
    refine ⟨rest₂, fl₂, _, rfl, f₂, hl₂, hr₂,
      ⟨hh.startAddr, hh.poolSize, hh.blockList, hh.freeList⟩, ?_, ?_, rfl, hs₂, he₂⟩
    · simp only [Pool.setAvailable_mem, Pool.setAvailable_availableSize]
      omega
    · show p.heap.poolSize - (p.heap.availableSize - blockSize p.mem (p.mem.get .next x) +
        blockSize (Memheap.absorbNext p.mem x) x) ≤ p.heap.maxUsedSize
      omega

/-- Giving the end of a block back. -/
theorem Inv.shrinkBlock {p : Pool} (i : Inv L p rest fl) (hl : p.heap.lock = 1)
    (hu : Used L p.mem rest h) (hne : h ≠ L.tail) (hal : size % 4 = 0)
    (hfit : size + RT_MEMHEAP_SIZE ≤ blockSize p.mem h) :
    ∃ p' rest' fl', Memheap.shrinkBlock L.heap h size p = some ((), p') ∧ Inv L p' rest' fl' ∧
      p'.heap.lock = 1 ∧ Resized L p.mem rest p'.mem rest' h size ∧
      Edits L [h + RT_MEMHEAP_SIZE + size] p.mem rest p'.mem rest' := by
  have hnexth := i.wf.next_eq hu.1 hne
  have hle := i.wf.next_le_tail hu.1
  have htail := L.tail_le
  have hptr : u32 (h + size + RT_MEMHEAP_SIZE) = h + RT_MEMHEAP_SIZE + size := by
    unfold u32 RT_MEMHEAP_SIZE at *
    omega
  have halign : (h + RT_MEMHEAP_SIZE + size) % 4 = 0 := by
    have := (i.wf.range h hu.1).2.2
    unfold RT_MEMHEAP_SIZE
    omega
  obtain ⟨rest₁, u, f, hleft, hused₁, hsum₁, he₁⟩ := i.splitUsed (x := h + RT_MEMHEAP_SIZE + size) hu hne
    (by omega) (by omega) halign
  set x := h + RT_MEMHEAP_SIZE + size with hx
  set m₁ := splitBlock p.mem L.heap h x with hm₁
  obtain ⟨rest₂, fl₂, q, hq, f₂, hl₂, hr₂, hh₂, hav₂, hmax₂, hlock₂, hs₂, he₂⟩ :=
    Freeing.mergeFreed (p := ⟨m₁, { p.heap with lock := 0 }⟩) f hleft (i.setLock 0).heap
      (i.available.trans hsum₁.symm) i.maxUsed
  obtain ⟨i', hlock, hs₃, he₃⟩ := f₂.insertFreed hl₂ hr₂ hh₂ hav₂ hmax₂
  have hs := hs₂.trans hs₃
  have hp' : Memheap.shrinkBlock L.heap h size p =
      some ((), (Memheap.insertFreed q x).lockRelease) := by
    simp only [Memheap.shrinkBlock, Pool.lockTake_eq hl, Option.bind_eq_bind, Option.bind_some, hptr,
      ← hm₁, hq]
  refine ⟨_, rest₂, x :: fl₂, hp', i'.setLock _, congrArg (· + 1) (hlock.trans hlock₂), ⟨?_, ?_, ?_⟩,
    (he₁.trans he₂ (by simp)).trans he₃ (by simp)⟩
  · exact fun b => (hs b).1.trans (hused₁ b)
  · intro b hb hbh
    exact ((hs b).2 ((hused₁ b).mpr hb)).trans (u.next_of_ne hb.1 hbh)
  · have h1 := (hused₁ h).mpr hu
    have h2 : m₁.get .next h = x := by rw [u.next h h1.1, if_pos rfl]
    exact (((hs h).2 h1).trans h2).ge

/-! ## `rt_memheap_realloc` -/

/-- What the caller of a reallocation of the block `h` gets: `NULL` or the old pointer, with the
same blocks in use, or the payload of another block, which replaces `h`. -/
def Reallocated (L : Layout) (m : Mem) (rest : List Nat) (m' : Mem) (rest' : List Nat)
    (h r : Nat) : Prop :=
  ((r = 0 ∨ r = h + RT_MEMHEAP_SIZE) ∧ ∀ b, Used L m' rest' b ↔ Used L m rest b) ∨
    ∃ h', r = h' + RT_MEMHEAP_SIZE ∧ h' ≠ L.tail ∧ ¬ Used L m rest h' ∧
      ∀ b, Used L m' rest' b ↔ (Used L m rest b ∧ b ≠ h) ∨ b = h'

/-- What a reallocation of the block `h` to `size` bytes that returns `r` does to the memory outside
the pool and to the payloads. The block of `r` is the old one or a new one. -/
structure ReallocFrame (L : Layout) (m : Mem) (rest : List Nat) (m' : Mem) (h size r : Nat) :
    Prop where
  outside : ∀ a, Outside L a → m' a = m a
  payload : ∀ b, Used L m rest b → b ≠ L.tail → ∀ a, InPayload m b a →
    (b = h → r ≠ 0 → a < h + RT_MEMHEAP_SIZE + size) → m' a = m a
  next : ∀ b, Used L m rest b → (b = h → r = 0) → m'.get .next b = m.get .next b
  room : r ≠ 0 → ∃ h', r = h' + RT_MEMHEAP_SIZE ∧ r + size ≤ m'.get .next h'
  copy : r ≠ 0 → ∀ i, i < blockSize m h → i < size → m' (r + i) = m (h + RT_MEMHEAP_SIZE + i)

/-- A block that is resized in place keeps the payload up to the new size. -/
theorem ReallocFrame.of_resized {new : List Nat} (t : Tiled L m rest fl) (hu : Used L m rest h)
    (hne : h ≠ L.tail) (hres : Resized L m rest m' rest' h size)
    (e : Edits L new m rest m' rest')
    (hnew : ∀ x ∈ new, FreeAt L m rest x ∨
      h + RT_MEMHEAP_SIZE + size ≤ x ∧ x + RT_MEMHEAP_SIZE ≤ m.get .next h) :
    ReallocFrame L m rest m' h size (h + RT_MEMHEAP_SIZE) := by
  have hnz : h + RT_MEMHEAP_SIZE ≠ 0 := by
    unfold RT_MEMHEAP_SIZE
    omega
  have hpay : ∀ b, Used L m rest b → b ≠ L.tail → ∀ a, InPayload m b a →
      (b = h → a < h + RT_MEMHEAP_SIZE + size) → m' a = m a := by
    refine fun b hb hbt a ha hlt => e.payload t hb.1 hbt ha fun x hx => ?_
    rcases hnew x hx with hx | ⟨h1, h2⟩
    · exact hx.apart t hb ha
    · by_cases hbh : b = h
      · have h3 := hlt hbh
        omega
      · -- the payload of another block is in front of `h` or behind it
        obtain ⟨h3, h4⟩ := ha
        rcases Nat.lt_or_ge b h with h5 | h5
        · have h6 := t.wf.order b hb.1 h hu.1 h5
          omega
        · have h6 := t.wf.order h hu.1 b hb.1 (by omega)
          omega
  refine ⟨fun a ha => e.outside t (fun x hx => ?_) ha, fun b hb hbt a ha hlt =>
    hpay b hb hbt a ha fun hbh => hlt hbh hnz, fun b hb hbh => ?_, fun _ => ⟨h, rfl, hres.size_le⟩,
    fun _ i h1 h2 => hpay h hu hne _ ⟨?_, ?_⟩ fun _ => ?_⟩
  · rcases hnew x hx with hx | ⟨h1, h2⟩
    · exact hx.range t
    · have h3 := (t.wf.range h hu.1).1
      have h4 := t.wf.next_le_tail hu.1
      omega
  · refine hres.next b hb fun he => hnz (hbh he)
  · omega
  · have h3 := t.wf.next_eq hu.1 hne
    omega
  · omega

/-- A block that does not fit in place moves: allocate, copy, free. -/
theorem Inv.moveBlock {s : State} (i : Inv L (s.pool L.heap) rest fl)
    (hl : (s.heap L.heap).lock = 1) (hu : Used L s.mem rest h) (hne : h ≠ L.tail)
    (hrounded : roundSize size = size) {oldsize : Nat}
    (hold : oldsize = blockSize s.mem h) :
    ∃ r s', Memheap.moveBlock L.heap (h + RT_MEMHEAP_SIZE) size oldsize s = some (r, s') ∧
      ∃ rest' fl', Inv L (s'.pool L.heap) rest' fl' ∧ (s'.heap L.heap).lock = 1 ∧
        Reallocated L s.mem rest s'.mem rest' h r ∧ ReallocFrame L s.mem rest s'.mem h size r ∧
        ∀ g, g ≠ L.heap → s'.heap g = s.heap g := by
  obtain ⟨r, p', rest₁, fl₁, halloc, i₁, hl₁, hor, new, he₁, hnew⟩ := i.rtMemheapAlloc hl size
  obtain ⟨s₁, hs₁, hp₁, hother₁⟩ := State.withHeap_eq halloc
  subst hp₁
  have hf₁ : Frame L s.mem rest s₁.mem := he₁.frame_of_freeAt i.toTiled hnew
  simp only [Memheap.moveBlock, hs₁, Option.bind_eq_bind, Option.bind_some]
  rcases hor with ⟨rfl, hsame⟩ | ⟨h', rfl, htaken, hroom⟩
  · exact ⟨0, s₁, by simp, rest₁, fl₁, i₁, hl₁, Or.inl ⟨Or.inl rfl, fun b => (hsame b).1⟩,
      ⟨hf₁.outside, fun b hb hbt a ha _ => hf₁.payload b hb hbt a ha, fun b hb _ => (hsame b).2 hb,
        fun hr => absurd rfl hr, fun hr => absurd rfl hr⟩, hother₁⟩
  · have hnz : h' + RT_MEMHEAP_SIZE ≠ 0 := by
      unfold RT_MEMHEAP_SIZE
      omega
    have hu' : Used L s₁.mem rest₁ h' := (htaken.used h').mpr (Or.inr rfl)
    have hkeep : ∀ b, Used L s.mem rest b → Used L s₁.mem rest₁ b := fun b hb =>
      (htaken.used b).mpr (Or.inl hb)
    have hne' : ∀ b, Used L s.mem rest b → b ≠ h' := fun b hb hbh => htaken.fresh (hbh ▸ hb)
    rw [hrounded] at hroom
    -- the copy stays inside the new block
    obtain ⟨n, hn, hn'⟩ : ∃ n, n = (if oldsize < size then oldsize else size) ∧ n ≤ size :=
      ⟨_, rfl, by split <;> omega⟩
    set m₂ := s₁.mem.copy (h' + RT_MEMHEAP_SIZE) (h + RT_MEMHEAP_SIZE) n with hm₂
    have hout : ∀ a, ¬ InPayload s₁.mem h' a → m₂ a = s₁.mem a := fun a ha => by
      refine if_neg fun hc => ha ⟨hc.1, ?_⟩
      exact hc.2.trans_le ((Nat.add_le_add_left hn' _).trans hroom)
    have hcopy : SameHeaders L rest₁ fl₁ s₁.mem m₂ :=
      i₁.sameHeaders hu'.1 htaken.ne_tail hout
    have i₂ := i₁.congr hcopy
    have husame := hcopy.sameBlocks.sameUsed
    have hu₂ := ((husame h).1).mpr (hkeep h hu)
    obtain ⟨s₃, rest₃, fl₃, hfree, i₃, hl₃, hused₃, he₃, hother₃⟩ :=
      Inv.rtMemheapFree (s := ⟨m₂, s₁.heap⟩) i₂ hl₁ hu₂ hne
    have hf₃ : Frame L m₂ rest₁ s₃.mem := he₃.frame_of_freeAt i₂.toTiled (by simp)
    have hh' : h' ≠ h := (hne' h hu).symm
    simp only [if_pos hnz, ← hn, ← hm₂, hfree, Option.bind_some]
    -- a block that was in use is apart from the new one
    have hapart : ∀ b, Used L s.mem rest b → b ≠ L.tail → ∀ a, InPayload s₁.mem b a →
        ¬ InPayload s₁.mem h' a := fun b hb hbt a ha ha' => by
      obtain ⟨h1, h2⟩ := ha
      obtain ⟨h3, h4⟩ := ha'
      rcases Nat.lt_or_ge b h' with h5 | h5
      · have h6 := i₁.wf.order b (hkeep b hb).1 h' hu'.1 h5
        change s₁.mem.get .next b ≤ h' at h6
        omega
      · have h6 := i₁.wf.order h' hu'.1 b (hkeep b hb).1 (lt_of_le_of_ne h5 (hne' b hb).symm)
        change s₁.mem.get .next h' ≤ b at h6
        omega
    have hpay : ∀ b, Used L s.mem rest b → b ≠ L.tail → ∀ a, InPayload s.mem b a →
        s₃.mem a = s.mem a := fun b hb hbt a ha => by
      have hnx : s₁.mem.get .next b = s.mem.get .next b := htaken.next b hb
      have ha₁ : InPayload s₁.mem b a := by
        unfold InPayload
        rw [hnx]
        exact ha
      have ha₂ : InPayload m₂ b a := by
        unfold InPayload
        rw [(husame b).2 (hkeep b hb)]
        exact ha₁
      rw [hf₃.payload b (((husame b).1).mpr (hkeep b hb)) hbt a ha₂,
        hout a (hapart b hb hbt a ha₁), hf₁.payload b hb hbt a ha]
    have hnext : ∀ b, Used L s₁.mem rest₁ b → b ≠ h → s₃.mem.get .next b = s₁.mem.get .next b :=
      fun b hb hbh => ((hused₃ b).2 ((hused₃ b).1.mpr ⟨((husame b).1).mpr hb, hbh⟩)).trans
        ((husame b).2 hb)
    refine ⟨_, _, rfl, rest₃, fl₃, i₃, hl₃,
      Or.inr ⟨h', rfl, htaken.ne_tail, htaken.fresh, fun b => ?_⟩,
      ⟨fun a ha => ?_, fun b hb hbt a ha _ => hpay b hb hbt a ha, fun b hb hbh => ?_, fun _ =>
        ⟨h', rfl, ?_⟩, fun _ j h1 h2 => ?_⟩, fun g hg => (hother₃ g hg).trans (hother₁ g hg)⟩
    · have h1 : Used L s₃.mem rest₃ b ↔ (Used L s.mem rest b ∨ b = h') ∧ b ≠ h := by
        rw [(hused₃ b).1]
        exact and_congr_left fun _ => ((husame b).1).trans (htaken.used b)
      rw [h1]
      constructor
      · rintro ⟨hb | rfl, hbh⟩
        · exact Or.inl ⟨hb, hbh⟩
        · exact Or.inr rfl
      · rintro (⟨hb, hbh⟩ | rfl)
        · exact ⟨Or.inl hb, hbh⟩
        · exact ⟨Or.inr rfl, hh'⟩
    · rw [hf₃.outside a ha, hout a, hf₁.outside a ha]
      rintro ⟨h1, h2⟩
      have h3 := (i₁.wf.range h' hu'.1).1
      have h4 : s₁.mem.get .next h' ≤ L.tail := i₁.wf.next_le_tail hu'.1
      have h5 := ha.1
      unfold RT_MEMHEAP_SIZE at *
      omega
    · exact (hnext b (hkeep b hb) fun he => hnz (hbh he)).trans (htaken.next b hb)
    · rw [hnext h' hu' hh']
      exact hroom
    · -- what is copied is what was there
      have hj : j < n := by
        rw [hn, hold]
        split <;> assumption
      have hin : InPayload m₂ h' (h' + RT_MEMHEAP_SIZE + j) := by
        unfold InPayload
        rw [(husame h').2 hu']
        refine ⟨Nat.le_add_right .., lt_of_lt_of_le ?_ hroom⟩
        omega
      have hsrc : InPayload s.mem h (h + RT_MEMHEAP_SIZE + j) := by
        have h3 : s.mem.get .next h = h + RT_MEMHEAP_SIZE + blockSize s.mem h :=
          i.wf.next_eq hu.1 hne
        unfold InPayload
        omega
      rw [hf₃.payload h' (((husame h').1).mpr hu') htaken.ne_tail _ hin,
        ← hf₁.payload h hu hne _ hsrc, hm₂]
      unfold Mem.copy
      rw [if_pos ⟨Nat.le_add_right .., by omega⟩, Nat.add_sub_cancel_left]

/-- Next to a free block, adding the smallest payload to the new size does not wrap. -/
def Regrows (m : Mem) (ptr newsize : Nat) : Prop :=
  ¬ isUsed m (m.get .next (sub32 ptr RT_MEMHEAP_SIZE)) →
    roundSize newsize + RT_MEMHEAP_MINIALLOC < 4294967296

theorem NoWrap.regrows (hsize : NoWrap size) (m : Mem) (ptr : Nat) : Regrows m ptr size := fun _ => by
  have h1 := hsize.2
  omega

/-- **`rt_memheap_realloc` of a block in use keeps the invariant**. -/
theorem Inv.rtMemheapRealloc {s : State} (i : Inv L (s.pool L.heap) rest fl)
    (hl : (s.heap L.heap).lock = 1) (hu : Used L s.mem rest h) (hne : h ≠ L.tail)
    (hsize : Regrows s.mem (h + RT_MEMHEAP_SIZE) size) (hpos : size ≠ 0) :
    ∃ r s', Memheap.rtMemheapRealloc L.heap (h + RT_MEMHEAP_SIZE) size s = some (r, s') ∧
      ∃ rest' fl', Inv L (s'.pool L.heap) rest' fl' ∧ (s'.heap L.heap).lock = 1 ∧
        Reallocated L s.mem rest s'.mem rest' h r ∧
        ReallocFrame L s.mem rest s'.mem h (roundSize size) r ∧
        ∀ g, g ≠ L.heap → s'.heap g = s.heap g := by
  have hptr : h + RT_MEMHEAP_SIZE ≠ 0 := by
    unfold RT_MEMHEAP_SIZE
    omega
  have hal := roundSize_aligned size
  have hgap := i.wf.gap h hu.1 hne
  have hnexth := i.wf.next_eq hu.1 hne
  have hle := i.wf.next_le_tail hu.1
  have htail := L.tail_le
  have hold : memitemSize s.mem h = blockSize s.mem h := i.wf.memitemSize_eq hu.1 hne
  have hr := roundSize_roundSize size
  have hnw := hsize
  rw [Regrows, i.wf.sub32_header hu.1 hne] at hnw
  simp only [Memheap.rtMemheapRealloc, if_neg hpos, if_neg hptr, i.wf.sub32_header hu.1 hne, hold]
  generalize roundSize size = n at *
  change h + RT_MEMHEAP_SIZE ≤ s.mem.get .next h at hgap
  change s.mem.get .next h = h + RT_MEMHEAP_SIZE + blockSize s.mem h at hnexth
  change s.mem.get .next h ≤ L.tail at hle
  by_cases hgrow : n > blockSize s.mem h
  · have hgt : s.mem.get .next h > h := by
      unfold RT_MEMHEAP_SIZE at hgap
      omega
    rw [if_pos hgrow, if_neg (by omega), if_neg (not_not.mpr hgt)]
    by_cases hcan : canGrow s.mem h n (blockSize s.mem h)
    · -- the right neighbour is free, so it is not the tail and its size does not wrap
      rw [if_pos hcan]
      have hxb := i.wf.next_mem hu.1
      have hxt : s.mem.get .next h ≠ L.tail := fun e => hcan.1 (e ▸ i.tail_used)
      have hxsize : memitemSize s.mem (s.mem.get .next h) = blockSize s.mem (s.mem.get .next h) :=
        i.wf.memitemSize_eq hxb hxt
      have hnn : s.mem.get .next (s.mem.get .next h) =
        s.mem.get .next h + RT_MEMHEAP_SIZE + blockSize s.mem (s.mem.get .next h) :=
          i.wf.next_eq hxb hxt
      have hnle : s.mem.get .next (s.mem.get .next h) ≤ L.tail := i.wf.next_le_tail hxb
      have hfit : n ≤ blockSize s.mem h + blockSize s.mem (s.mem.get .next h) := by
        have h1 := hcan.2
        have h2 := hnw hcan.1
        rw [hxsize] at h1
        unfold u32 RT_MEMHEAP_MINIALLOC RT_MEMHEAP_SIZE at *
        omega
      obtain ⟨rest', fl', i', hl', hres, hedits, hfreeAt⟩ :=
        (i.setLock 0).growInPlace hu hne hcan.1 hal hgrow hfit rfl
      have hp : growBlock L.heap (h + RT_MEMHEAP_SIZE) h n (blockSize s.mem h) (s.pool L.heap) =
          some (h + RT_MEMHEAP_SIZE, (Memheap.growInPlace
            { s.pool L.heap with heap := { (s.pool L.heap).heap with lock := 0 } } L.heap
            (h + RT_MEMHEAP_SIZE) h n (blockSize s.mem h)).lockRelease) := by
        rw [growBlock, Pool.lockTake_eq (p := s.pool L.heap) hl]
        rfl
      obtain ⟨s', hs', hpool, hother⟩ := State.withHeap_eq hp
      refine ⟨_, s', hs', rest', fl', ?_, ?_, Or.inl ⟨Or.inr rfl, ?_⟩, ?_, hother⟩
      · rw [hpool]
        exact i'.setLock _
      · have h1 : (s'.heap L.heap).lock = (s'.pool L.heap).heap.lock := rfl
        rw [h1, hpool]
        exact congrArg (· + 1) hl'
      · have h1 : s'.mem = (s'.pool L.heap).mem := rfl
        rw [h1, hpool]
        exact hres.used
      · have h1 : s'.mem = (s'.pool L.heap).mem := rfl
        rw [h1, hpool]
        exact .of_resized i.toTiled hu hne hres hedits fun x hx =>
          Or.inl (List.mem_singleton.mp hx ▸ hfreeAt)
    · rw [if_neg hcan]
      exact i.moveBlock hl hu hne hr rfl
  · rw [if_neg hgrow]
    have hu32 : u32 (n + RT_MEMHEAP_SIZE + RT_MEMHEAP_MINIALLOC) =
        n + RT_MEMHEAP_SIZE + RT_MEMHEAP_MINIALLOC := by
      -- the block is smaller than the pool
      have hpool := L.pool_lt
      have hlow := (i.wf.range h hu.1).1
      refine Nat.mod_eq_of_lt ?_
      unfold RT_MEMHEAP_SIZE RT_MEMHEAP_MINIALLOC at *
      omega
    rw [hu32]
    by_cases hkeep : n + RT_MEMHEAP_SIZE + RT_MEMHEAP_MINIALLOC ≥ blockSize s.mem h
    · rw [if_pos hkeep]
      refine ⟨_, s, rfl, rest, fl, i, hl, Or.inl ⟨Or.inr rfl, fun _ => Iff.rfl⟩,
        .of_resized i.toTiled hu hne ⟨fun _ => Iff.rfl, fun _ _ _ => rfl, ?_⟩ (Edits.refl _ _ _)
          (by simp), fun _ _ => rfl⟩
      omega
    · rw [if_neg hkeep]
      have hfit : n + RT_MEMHEAP_SIZE ≤ blockSize s.mem h := by omega
      obtain ⟨p', rest', fl', hp', i', hl', hres, hedits⟩ := i.shrinkBlock hl hu hne hal hfit
      obtain ⟨s', hs', rfl, hother⟩ := State.withHeap_eq hp'
      refine ⟨_, s', by rw [hs', Option.map_some], rest', fl', i', hl',
        Or.inl ⟨Or.inr rfl, hres.used⟩, .of_resized i.toTiled hu hne hres hedits fun x hx => ?_,
        hother⟩
      rw [List.mem_singleton.mp hx]
      exact Or.inr ⟨le_refl _, by omega⟩

end RTThread.Memheap
