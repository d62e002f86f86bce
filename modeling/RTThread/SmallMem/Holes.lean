import RTThread.SmallMem.Blocks

set_option autoImplicit false

/-! # The counter and `plug_holes`

`usedBytes` is what `used_mem` counts. `Base` is the invariant of the heap without the statement
that no two neighbours are free: inside a call one block may be free next to free neighbours.
`plug_holes` on that block combines it with both, which changes neither the blocks in use nor the
counter, and leaves no two free neighbours.
-/

namespace RTThread.SmallMem

variable {m m' m'' : Mem} {E : Nat} {rest rest' rest'' : List Nat} {a b p x mem : Nat}

/-! ## Sums over the blocks -/

/-- Sums of functions that differ at one member. -/
theorem sum_map_update {f g : Nat → Nat} {l : List Nat} (hnd : l.Nodup) (ha : a ∈ l)
    (h : ∀ b ∈ l, b ≠ a → f b = g b) : (l.map f).sum + g a = (l.map g).sum + f a := by
  have hrest : (l.erase a).map f = (l.erase a).map g := List.map_congr_left fun b hb =>
    h b (List.mem_of_mem_erase hb) ((List.Nodup.mem_erase_iff hnd).mp hb).1
  have h₁ := List.sum_map_erase f ha
  have h₂ := List.sum_map_erase g ha
  rw [hrest] at h₁
  omega

/-- The space of a block in use, its header included. -/
def usedSize (m : Mem) (a : Nat) : Nat := if m.get .used a = 0 then 0 else m.get .next a - a

/-- The space of the blocks in use. -/
def usedBytes (m : Mem) (bs : List Nat) : Nat := (bs.map (usedSize m)).sum

theorem usedBytes_perm {l l' : List Nat} (h : l.Perm l') : usedBytes m l = usedBytes m l' :=
  (h.map _).sum_eq

theorem usedBytes_cons (l : List Nat) : usedBytes m (a :: l) = usedSize m a + usedBytes m l := by
  simp [usedBytes]

theorem usedBytes_congr {l : List Nat} (h : ∀ b ∈ l, usedSize m' b = usedSize m b) :
    usedBytes m' l = usedBytes m l := congrArg List.sum (List.map_congr_left h)

/-- The blocks from `a` on fill the space up to the end. -/
theorem sum_path {f : Nat → Nat} {l : List Nat} (h : Dll.Path f a l E)
    (hlt : ∀ x ∈ a :: l, x < f x) : ((a :: l).map fun x => f x - x).sum + a = E := by
  induction l generalizing a with
  | nil =>
      have h₁ := hlt a (by simp)
      have h₂ : f a = E := h
      simp only [List.map_cons, List.map_nil, List.sum_cons, List.sum_nil]
      omega
  | cons x l ih =>
      have h₁ := hlt a (by simp)
      have h₂ := ih h.2 fun y hy => hlt y (List.mem_cons_of_mem _ hy)
      have h₃ : f a = x := h.1
      rw [List.map_cons, List.sum_cons]
      omega

theorem Wf.usedBytes_le (w : Wf m E rest) : usedBytes m (0 :: rest) ≤ E := by
  have hsum := sum_path w.path fun _ hx => w.lt_next hx
  have hle : usedBytes m (0 :: rest) ≤ ((0 :: rest).map fun x => m.get .next x - x).sum := by
    refine List.sum_le_sum fun x _ => ?_
    unfold usedSize
    split <;> omega
  omega

/-- The number of blocks is bounded by the space. -/
theorem Wf.length_le (w : Wf m E rest) : SIZEOF_STRUCT_MEM * (0 :: rest).length ≤ E := by
  have hsum := sum_path w.path fun _ hx => w.lt_next hx
  have hle : ((0 :: rest).map fun _ => SIZEOF_STRUCT_MEM).sum ≤
      ((0 :: rest).map fun x => m.get .next x - x).sum := by
    refine List.sum_le_sum fun x hx => ?_
    have h := w.gap x hx
    omega
  rw [List.map_const', List.sum_replicate, smul_eq_mul] at hle
  rw [Nat.mul_comm]
  omega

/-! ## The blocks in use -/

/-- `b` is a block in use. -/
def Used (m : Mem) (rest : List Nat) (b : Nat) : Prop := b ∈ 0 :: rest ∧ m.get .used b ≠ 0

/-- The blocks in use are the same, and so is the space of each. -/
def SameUsed (m : Mem) (rest : List Nat) (m' : Mem) (rest' : List Nat) : Prop :=
  ∀ b, (Used m' rest' b ↔ Used m rest b) ∧ (Used m rest b → m'.get .next b = m.get .next b)

theorem SameUsed.refl (m : Mem) (rest : List Nat) : SameUsed m rest m rest :=
  fun _ => ⟨Iff.rfl, fun _ => rfl⟩

theorem SameUsed.trans (h : SameUsed m rest m' rest') (h' : SameUsed m' rest' m'' rest'') :
    SameUsed m rest m'' rest'' := fun b =>
  ⟨(h' b).1.trans (h b).1, fun hb => ((h' b).2 ((h b).1.mpr hb)).trans ((h b).2 hb)⟩

namespace Combined

variable (c : Combined m E rest m' rest' p x)

include c

theorem sub (hb : b ∈ 0 :: rest') : b ∈ 0 :: rest :=
  c.perm.mem_iff.mpr (List.mem_cons_of_mem _ hb)

theorem mem_of_ne (hb : b ∈ 0 :: rest) (hbx : b ≠ x) : b ∈ 0 :: rest' :=
  (List.mem_cons.mp (c.perm.mem_iff.mp hb)).resolve_left hbx

theorem used_block (hb : b ∈ 0 :: rest) : m'.get .used b = m.get .used b :=
  c.used b (List.mem_cons_of_mem _ hb)

theorem sameUsed (hp : m.get .used p = 0) (hx : m.get .used x = 0) :
    SameUsed m rest m' rest' := by
  intro b
  constructor
  · constructor
    · rintro ⟨hb, hu⟩
      exact ⟨c.sub hb, c.used_block (c.sub hb) ▸ hu⟩
    · rintro ⟨hb, hu⟩
      have hbx : b ≠ x := fun e => hu (e ▸ hx)
      exact ⟨c.mem_of_ne hb hbx, (c.used_block hb).symm ▸ hu⟩
  · rintro ⟨hb, hu⟩
    have hbp : b ≠ p := fun e => hu (e ▸ hp)
    rw [c.next b hb, if_neg hbp]

theorem usedBytes_eq (hp : m.get .used p = 0) (hx : m.get .used x = 0) :
    usedBytes m' (0 :: rest') = usedBytes m (0 :: rest) := by
  have hsize : ∀ b ∈ 0 :: rest', usedSize m' b = usedSize m b := by
    intro b hb
    unfold usedSize
    rw [c.used_block (c.sub hb), c.next b (c.sub hb)]
    by_cases hbp : b = p
    · rw [hbp, if_pos hp, if_pos hp]
    · rw [if_neg hbp]
  have hzero : usedSize m x = 0 := if_pos hx
  calc usedBytes m' (0 :: rest') = usedBytes m (0 :: rest') := usedBytes_congr hsize
    _ = usedBytes m (x :: 0 :: rest') := by
        rw [usedBytes_cons (a := x), hzero, Nat.zero_add]
    _ = usedBytes m (0 :: rest) := usedBytes_perm c.perm.symm

end Combined

/-! ## The invariant inside a call -/

/-- The invariant of the heap, less the statement that no two neighbours are free. -/
structure Base (h : Heap) (rest : List Nat) : Prop where
  wf : Wf h.mem h.heapEnd rest
  lfree : h.lfree = h.heapEnd ∨ h.lfree ∈ 0 :: rest ∧ h.mem.get .used h.lfree = 0
  usedMem : h.usedMem = usedBytes h.mem (0 :: rest)
  maxMem : h.maxMem = h.usedLog.foldr max 0
  used_le : h.usedMem ≤ h.maxMem
  heapEnd : h.heapEnd = h.memSizeAligned + SIZEOF_STRUCT_MEM
  heapPtr : h.heapPtr % 4 = 0
  lt : h.heapPtr + h.heapEnd + SIZEOF_STRUCT_MEM < 4294967296

/-- `lfree` is a block, or the end of the heap. -/
theorem Base.lfree_pos {h : Heap} {rest : List Nat} (i : Base h rest) :
    h.lfree ∈ h.heapEnd :: 0 :: rest := by
  rcases i.lfree with hl | ⟨hl, -⟩
  · exact hl ▸ List.mem_cons_self
  · exact List.mem_cons_of_mem _ hl

/-- `lfree` is not above any free block. -/
def Lowest (m : Mem) (rest : List Nat) (lfree : Nat) : Prop :=
  ∀ b ∈ 0 :: rest, m.get .used b = 0 → lfree ≤ b

instance (m : Mem) (rest : List Nat) (lfree : Nat) : Decidable (Lowest m rest lfree) :=
  inferInstanceAs (Decidable (∀ b ∈ 0 :: rest, m.get .used b = 0 → lfree ≤ b))

/-- The block behind a free block is in use. -/
def NoFreeBehind (m : Mem) (a : Nat) : Prop :=
  m.get .used a = 0 → m.get .used (m.get .next a) ≠ 0

variable {h : Heap}

theorem Base.combine (i : Base h rest) (hp : p ∈ 0 :: rest) (hx : x ∈ rest)
    (hpx : h.mem.get .next p = x) (hpu : h.mem.get .used p = 0) (hxu : h.mem.get .used x = 0) :
    ∃ m' l' rest', SmallMem.combine h p x = { h with mem := m', lfree := l' } ∧
      Base { h with mem := m', lfree := l' } rest' ∧
      Combined h.mem h.heapEnd rest m' rest' p x ∧ l' = if h.lfree = x then p else h.lfree := by
  obtain ⟨rest', c⟩ := i.wf.combine hp hx hpx
  have hxb : x ∈ 0 :: rest := List.mem_cons_of_mem _ hx
  have hpne : p ≠ x := by
    have h₁ := i.wf.lt_next hp
    omega
  have hp' := c.mem_of_ne hp hpne
  refine ⟨combineMem h.mem p x, if h.lfree = x then p else h.lfree, rest', ?_,
    ⟨c.wf, ?_, ?_, i.maxMem, i.used_le, i.heapEnd, i.heapPtr, i.lt⟩, c, rfl⟩
  · unfold SmallMem.combine combineMem
    split_ifs <;> rfl
  · change (if h.lfree = x then p else h.lfree) = h.heapEnd ∨
      (if h.lfree = x then p else h.lfree) ∈ 0 :: rest' ∧
        (combineMem h.mem p x).get .used (if h.lfree = x then p else h.lfree) = 0
    split_ifs with hl
    · -- the lowest free block was the one that is gone
      exact Or.inr ⟨hp', (c.used_block hp).trans hpu⟩
    · rcases i.lfree with hE | ⟨hm, hu⟩
      · exact Or.inl hE
      · exact Or.inr ⟨c.mem_of_ne hm hl, (c.used_block hm).trans hu⟩
  · exact i.usedMem.trans (c.usedBytes_eq hpu hxu).symm

/-- `lfree` is not above any free block but `mem`, and where it is above `mem`, a free block follows
`mem`: the one `plug_holes` combines it with. -/
structure LowestBut (h : Heap) (rest : List Nat) (mem : Nat) : Prop where
  other : ∀ b ∈ 0 :: rest, b ≠ mem → h.mem.get .used b = 0 → h.lfree ≤ b
  self : h.lfree ≤ mem ∨ h.mem.get .used (h.mem.get .next mem) = 0

theorem LowestBut.lowest (hlow : LowestBut h rest mem)
    (hn : h.mem.get .used (h.mem.get .next mem) ≠ 0) : Lowest h.mem rest h.lfree := by
  intro b hb hbu
  by_cases hbm : b = mem
  · exact hbm ▸ hlow.self.resolve_right hn
  · exact hlow.other b hb hbm hbu

/-- Combining two free blocks keeps `lfree` lowest. -/
theorem Lowest.combine {l' : Nat} (hlow : Lowest h.mem rest h.lfree)
    (c : Combined h.mem h.heapEnd rest m' rest' p x) (hl' : l' = if h.lfree = x then p else h.lfree)
    (hpx : p ≤ x) : Lowest m' rest' l' := by
  intro b hb hbu
  have hle : l' ≤ h.lfree := by
    rw [hl']
    split_ifs with hlx
    · exact hlx ▸ hpx
    · exact le_rfl
  exact hle.trans (hlow b (c.sub hb) ((c.used_block (c.sub hb)) ▸ hbu))

/-- The block combined with the one behind it is now not below `lfree`. -/
theorem LowestBut.combine_forward {l' : Nat} (hlow : LowestBut h rest mem) (i : Base h rest)
    (c : Combined h.mem h.heapEnd rest m' rest' mem x)
    (hl' : l' = if h.lfree = x then mem else h.lfree) (hm : mem ∈ 0 :: rest) (hx : x ∈ 0 :: rest)
    (hmx : h.mem.get .next mem = x) (hxu : h.mem.get .used x = 0) : Lowest m' rest' l' := by
  have hlt := i.wf.lt_next hm
  have hxl := hlow.other x hx (by omega) hxu
  -- the lowest free block is `x`, or in front of `mem`
  have hmem : l' ≤ mem := by
    rw [hl']
    split_ifs with hlx
    · exact le_rfl
    · rcases i.lfree with hE | ⟨hl, -⟩
      · have hxE := i.wf.lt_end hx
        omega
      · by_contra hc
        have h₁ := i.wf.next_le hm hl (not_le.mp hc)
        omega
  have hle : l' ≤ h.lfree := by
    rw [hl']
    split_ifs <;> omega
  intro b hb hbu
  by_cases hbm : b = mem
  · exact hbm ▸ hmem
  · exact hle.trans (hlow.other b (c.sub hb) hbm ((c.used_block (c.sub hb)) ▸ hbu))

/-- Plugging the hole in front: then the block behind `mem` is in use. -/
theorem Base.plugForward (i : Base h rest) (hm : mem ∈ 0 :: rest) (hu : h.mem.get .used mem = 0)
    (hadj : ∀ a ∈ 0 :: rest, a ≠ mem → h.mem.get .next a ≠ mem → NoFreeBehind h.mem a) :
    ∃ m' l' rest', SmallMem.plugForward h mem = { h with mem := m', lfree := l' } ∧
      Base { h with mem := m', lfree := l' } rest' ∧ mem ∈ 0 :: rest' ∧ m'.get .used mem = 0 ∧
      (∀ a ∈ 0 :: rest', m'.get .next a ≠ mem → NoFreeBehind m' a) ∧
      SameUsed h.mem rest m' rest' ∧
      (LowestBut h rest mem → Lowest m' rest' l') := by
  have hlt := i.wf.lt_next hm
  unfold SmallMem.plugForward
  by_cases hc : mem ≠ h.mem.get .next mem ∧ h.mem.get .used (h.mem.get .next mem) = 0 ∧
      h.mem.get .next mem ≠ h.heapEnd
  · simp only [if_pos hc]
    obtain ⟨-, hxu, hxE⟩ := hc
    have hx := (i.wf.next_mem hm).resolve_right hxE
    have hxb : h.mem.get .next mem ∈ 0 :: rest := List.mem_cons_of_mem _ hx
    obtain ⟨m', l', rest', heq, i', c, hl'⟩ := i.combine hm hx rfl hu hxu
    have hxlt := i.wf.lt_next hxb
    refine ⟨m', l', rest', heq, i', c.mem_of_ne hm (by omega), (c.used_block hm).trans hu,
      fun a ha hna hau => ?_, c.sameUsed hu hxu,
      fun hlow => hlow.combine_forward i c hl' hm hxb rfl hxu⟩
    have hab := c.sub ha
    have hnext := c.next a hab
    -- the block behind `a` is an old block or the last header
    have hused : m'.get .used (m'.get .next a) = h.mem.get .used (m'.get .next a) := by
      refine c.used _ ?_
      rcases c.wf.next_mem ha with h₁ | h₁
      · exact List.mem_cons_of_mem _ (c.sub (List.mem_cons_of_mem _ h₁))
      · exact h₁ ▸ List.mem_cons_self
    rw [hused]
    rw [c.used_block hab] at hau
    by_cases ham : a = mem
    · -- the block that is gone was free, so the one behind it is not
      rw [hnext, if_pos ham]
      exact hadj _ hxb (by omega) (by omega) hxu
    · rw [hnext, if_neg ham] at hna ⊢
      exact hadj a hab ham hna hau
  · simp only [if_neg hc]
    have hnf : h.mem.get .used (h.mem.get .next mem) ≠ 0 := by
      intro hnu
      by_cases hE : h.mem.get .next mem = h.heapEnd
      · exact i.wf.end_used (hE ▸ hnu)
      · exact hc ⟨by omega, hnu, hE⟩
    refine ⟨h.mem, h.lfree, rest, rfl, i, hm, hu, fun a ha hna => ?_, SameUsed.refl _ _,
      fun hlow => hlow.lowest hnf⟩
    by_cases ham : a = mem
    · exact fun _ => ham ▸ hnf
    · exact hadj a ha ham hna

/-- Plugging the hole behind. -/
theorem Base.plugBackward (i : Base h rest) (hm : mem ∈ 0 :: rest) (hu : h.mem.get .used mem = 0)
    (hadj : ∀ a ∈ 0 :: rest, h.mem.get .next a ≠ mem → NoFreeBehind h.mem a) :
    ∃ m' l' rest', SmallMem.plugBackward h mem = { h with mem := m', lfree := l' } ∧
      Base { h with mem := m', lfree := l' } rest' ∧
      (∀ a ∈ 0 :: rest', NoFreeBehind m' a) ∧ SameUsed h.mem rest m' rest' ∧
      (Lowest h.mem rest h.lfree → Lowest m' rest' l') := by
  unfold SmallMem.plugBackward
  by_cases hc : h.mem.get .prev mem ≠ mem ∧ h.mem.get .used (h.mem.get .prev mem) = 0
  · simp only [if_pos hc]
    obtain ⟨hne, hpu⟩ := hc
    -- the first block points back to itself
    have hmr : mem ∈ rest := by
      rcases List.mem_cons.mp hm with rfl | hmr
      · exact absurd i.wf.prev_zero hne
      · exact hmr
    obtain ⟨hp, hpn⟩ := i.wf.prev_mem hmr
    obtain ⟨m', l', rest', heq, i', c, hl'⟩ := i.combine hp hmr hpn hpu hu
    have hplt := i.wf.lt_next hp
    have hmlt := i.wf.lt_next hm
    refine ⟨m', l', rest', heq, i', fun a ha hau => ?_, c.sameUsed hpu hu,
      fun hlow => hlow.combine c hl' (by omega)⟩
    have hab := c.sub ha
    have hnext := c.next a hab
    have hused : m'.get .used (m'.get .next a) = h.mem.get .used (m'.get .next a) := by
      refine c.used _ ?_
      rcases c.wf.next_mem ha with h₁ | h₁
      · exact List.mem_cons_of_mem _ (c.sub (List.mem_cons_of_mem _ h₁))
      · exact h₁ ▸ List.mem_cons_self
    rw [hused]
    rw [c.used_block hab] at hau
    have hmem : h.mem.get .used (h.mem.get .next mem) ≠ 0 := hadj mem hm (by omega) hu
    by_cases hap : a = h.mem.get .prev mem
    · rw [hnext, if_pos hap]
      exact hmem
    · rw [hnext, if_neg hap]
      refine hadj a hab (fun hna => ?_) hau
      exact hap (i.wf.next_inj hab hp (hna.trans hpn.symm))
  · simp only [if_neg hc]
    refine ⟨h.mem, h.lfree, rest, rfl, i, fun a ha => ?_, SameUsed.refl _ _, id⟩
    by_cases hna : h.mem.get .next a = mem
    · -- the block in front of `mem` is in use
      have hmE : mem ≠ h.heapEnd := (i.wf.lt_end hm).ne
      have hprev : h.mem.get .prev mem = a := by
        rw [← hna]
        exact i.wf.prev a ha (hna ▸ hmE)
      intro hau
      have hlt := i.wf.lt_next ha
      exact absurd ⟨by omega, hprev.symm ▸ hau⟩ hc
    · exact hadj a ha hna

/-- **`plug_holes`** on the one block that may be free next to free blocks. -/
theorem Base.plugHoles (i : Base h rest) (hm : mem ∈ 0 :: rest) (hu : h.mem.get .used mem = 0)
    (hadj : ∀ a ∈ 0 :: rest, a ≠ mem → h.mem.get .next a ≠ mem → NoFreeBehind h.mem a) :
    ∃ m' l' rest', SmallMem.plugHoles h mem = some { h with mem := m', lfree := l' } ∧
      Base { h with mem := m', lfree := l' } rest' ∧
      (∀ a ∈ 0 :: rest', NoFreeBehind m' a) ∧ SameUsed h.mem rest m' rest' ∧
      (LowestBut h rest mem → Lowest m' rest' l') := by
  obtain ⟨m₁, l₁, rest₁, h₁, i₁, hm₁, hu₁, hadj₁, hs₁, hl₁⟩ := i.plugForward hm hu hadj
  obtain ⟨m₂, l₂, rest₂, h₂, i₂, hadj₂, hs₂, hl₂⟩ := i₁.plugBackward hm₁ hu₁ hadj₁
  refine ⟨m₂, l₂, rest₂, ?_, i₂, hadj₂, hs₁.trans hs₂, fun hlow => hl₂ (hl₁ hlow)⟩
  rw [SmallMem.plugHoles, if_pos ⟨i.wf.lt_end hm, hu⟩, h₁, h₂]

/-- Between two blocks in use there is nothing to plug. -/
theorem plugHoles_of_used (hlt : mem < h.heapEnd) (hu : h.mem.get .used mem = 0)
    (hn : h.mem.get .used (h.mem.get .next mem) ≠ 0)
    (hp : h.mem.get .used (h.mem.get .prev mem) ≠ 0) : SmallMem.plugHoles h mem = some h := by
  rw [SmallMem.plugHoles, if_pos ⟨hlt, hu⟩, SmallMem.plugForward, if_neg fun hc => hn hc.2.1,
    SmallMem.plugBackward, if_neg fun hc => hp hc.2]

/-- The blocks are determined by the links. -/
theorem Wf.unique (w : Wf m E rest) (w' : Wf m E rest') : rest = rest' :=
  w.path.unique w'.path (fun _ hx => w.lt_next hx) fun _ hx => w'.lt_next hx

end RTThread.SmallMem
