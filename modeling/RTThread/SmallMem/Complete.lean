import RTThread.SmallMem.Structure

set_option autoImplicit false

/-! # Completeness of `rt_malloc`, and where it looks

The search stops at the first block that does not lie below `mem_size_aligned - size`. A free block
with room lies there only if it is the last one of the region and the request fills it exactly; such
a block is never taken. In a region with less than the smallest payload the bound wraps around, and
the search walks on at the last header for ever.

Whatever happens, the call loads and stores in the region only: with other contents outside the
region it does the same, and it leaves them as they are (`Confined`).
-/

namespace RTThread.SmallMem

variable {m out : Mem} {E : Nat} {rest l : List Nat} {a b x mem size : Nat} {h : Heap}

/-! ## The region -/

/-- The memory of the region up to the last header at `E`, and the contents `out` behind it. -/
def Mem.patch (E : Nat) (m out : Mem) : Mem := Fields.patch (E + SIZEOF_STRUCT_MEM) m out

theorem Mem.get_patch (hb : b ≤ E) (f : Field) : (Mem.patch E m out).get f b = m.get f b :=
  Fields.get_patch Field.off_lt (Nat.add_le_add_right hb _)

theorem Mem.set_patch (hb : b ≤ E) (f : Field) (v : Nat) :
    (Mem.patch E m out).set f b v = Mem.patch E (m.set f b v) out :=
  Fields.set_patch Field.off_lt (Nat.add_le_add_right hb _)

/-- The same heap, with the contents `out` outside the region. -/
def Heap.patch (h : Heap) (out : Mem) : Heap := { h with mem := Mem.patch h.heapEnd h.mem out }

/-- The walks stay at the blocks and the last header. -/
theorem Wf.pos_le (w : Wf m E rest) (ha : a ∈ E :: 0 :: rest) : a ≤ E := by
  rcases List.mem_cons.mp ha with rfl | ha
  · exact le_rfl
  · exact (w.lt_end ha).le

theorem searchFree_patch (w : Wf h.mem h.heapEnd rest) {fuel : Nat}
    (ha : a ∈ h.heapEnd :: 0 :: rest) :
    searchFree (h.patch out) size fuel a = searchFree h size fuel a := by
  induction fuel generalizing a with
  | zero => rfl
  | succ fuel ih =>
      simp only [searchFree, Heap.patch, Mem.get_patch (w.pos_le ha)]
      rw [← ih (w.next_pos ha)]
      rfl

theorem nextFree_patch (w : Wf h.mem h.heapEnd rest) {fuel : Nat}
    (ha : a ∈ h.heapEnd :: 0 :: rest) : nextFree (h.patch out) fuel a = nextFree h fuel a := by
  induction fuel generalizing a with
  | zero => rfl
  | succ fuel ih =>
      simp only [nextFree, Heap.patch, Mem.get_patch (w.pos_le ha)]
      rw [← ih (w.next_pos ha)]
      rfl

/-- The walk ends at a block or at the last header. -/
theorem nextFree_mem (w : Wf h.mem h.heapEnd rest) {fuel : Nat}
    (ha : a ∈ h.heapEnd :: 0 :: rest) (hn : nextFree h fuel a = some b) :
    b ∈ h.heapEnd :: 0 :: rest := by
  induction fuel generalizing a with
  | zero => exact absurd hn (by simp [nextFree])
  | succ fuel ih =>
      rw [nextFree] at hn
      split_ifs at hn
      · exact ih (w.next_pos ha) hn
      · exact Option.some.inj hn ▸ ha

/-- The two ways to mark a block store headers of the region only. -/
theorem mallocSplit_patch (w : Wf h.mem h.heapEnd rest) (hm : mem ∈ 0 :: rest)
    (hx : Memheap.u32 (mem + SIZEOF_STRUCT_MEM + size) = x) (h₁ : mem + SIZEOF_STRUCT_MEM ≤ x)
    (h₂ : x + SIZEOF_STRUCT_MEM ≤ h.mem.get .next mem) :
    mallocSplit (h.patch out) mem size = (mallocSplit h mem size).patch out := by
  have hmE := (w.lt_end hm).le
  have hnE := w.next_le_end hm
  have hxE : x ≤ h.heapEnd := by omega
  have hxm : x ≠ mem := by
    unfold SIZEOF_STRUCT_MEM at h₁
    omega
  have hsep := w.apart_cons hm h₁ h₂
  -- the block behind the new one is the one that was behind `mem`
  have hnext : ((carve h.mem mem x).set .used mem 1).get .next x = h.mem.get .next mem := by
    rw [built_carve_used hsep List.mem_cons_self
      (List.mem_cons_of_mem _ (List.mem_cons_of_mem _ hm)) hxm .next x List.mem_cons_self, if_pos rfl]
  have hcarve : (carve (Mem.patch h.heapEnd h.mem out) mem x).set .used mem 1 =
      Mem.patch h.heapEnd ((carve h.mem mem x).set .used mem 1) out := by
    simp only [carve, Mem.set_patch hxE, Mem.get_patch hmE, Mem.set_patch hmE]
  unfold mallocSplit
  simp only [hx, Heap.patch, hcarve]
  unfold linkBack
  simp only [Mem.get_patch hxE, hnext]
  split_ifs with hlast
  · rw [Mem.set_patch hnE, updateMax_setUsed, updateMax_setUsed]
  · rw [updateMax_setUsed, updateMax_setUsed]

theorem mallocWhole_patch (w : Wf h.mem h.heapEnd rest) (hm : mem ∈ 0 :: rest) :
    mallocWhole (h.patch out) mem = (mallocWhole h mem).patch out := by
  have hmE := (w.lt_end hm).le
  unfold mallocWhole
  simp only [Heap.patch, Mem.set_patch hmE, Mem.get_patch hmE, updateMax_setUsed]

/-- The contents outside the region are no part of the invariant. -/
theorem Inv.patch (i : Inv h rest) (out : Mem) : Inv (h.patch out) rest :=
  (i.congr fun f _ hb => Mem.get_patch (i.wf.pos_le hb) f).1

section Take

variable (i : Base h rest) (i' : Base (h.patch out) rest)
  (hadj : ∀ a ∈ 0 :: rest, NoFreeBehind h.mem a) (hm : mem ∈ 0 :: rest)
  (hu : h.mem.get .used mem = 0) (hal : size % 4 = 0)
  (hfit : mem + SIZEOF_STRUCT_MEM + size ≤ h.mem.get .next mem)

include i hm hfit

theorem Base.markBlock_patch :
    SmallMem.markBlock (h.patch out) mem size = (SmallMem.markBlock h mem size).patch out := by
  have hmE := (i.wf.lt_end hm).le
  have hnE := i.wf.next_le_end hm
  have hlt := i.lt
  have hnext : (h.patch out).mem.get .next mem = h.mem.get .next mem := Mem.get_patch hmE .next
  unfold SmallMem.markBlock
  rw [hnext]
  split_ifs with hc
  · have hroom : mem + SIZEOF_STRUCT_MEM + size + SIZEOF_STRUCT_MEM ≤ h.mem.get .next mem := by
      unfold Memheap.sub32 Memheap.u32 SIZEOF_STRUCT_MEM MIN_SIZE_ALIGNED at *
      omega
    have hu32 : Memheap.u32 (mem + SIZEOF_STRUCT_MEM + size) = mem + SIZEOF_STRUCT_MEM + size := by
      unfold Memheap.u32
      omega
    exact mallocSplit_patch i.wf hm hu32 (Nat.le_add_right ..) hroom
  · exact mallocWhole_patch i.wf hm

include i' hadj hu hal

/-- Taking a block stays in the region. -/
theorem Base.takeBlock_patch : SmallMem.takeBlock (h.patch out) mem size =
    (SmallMem.takeBlock h mem size).map fun h' => h'.patch out := by
  have hmark : SmallMem.markBlock (h.patch out) mem size = (SmallMem.markBlock h mem size).patch out :=
    i.markBlock_patch hm hfit
  obtain ⟨rest', mk⟩ := i.markBlock hadj hm hu hal hfit
  have hget : ∀ f, ∀ b ∈ h.heapEnd :: 0 :: rest, (h.patch out).mem.get f b = h.mem.get f b :=
    fun f b hb => Mem.get_patch (i.wf.pos_le hb) f
  have hblock : ∀ f, ∀ b ∈ 0 :: rest, (h.patch out).mem.get f b = h.mem.get f b := fun f b hb =>
    hget f b (List.mem_cons_of_mem _ hb)
  obtain ⟨rest'', mk'⟩ := i'.markBlock (fun a ha hau => by
    rw [hblock _ a ha] at hau ⊢
    rw [hget _ _ (i.wf.next_pos (List.mem_cons_of_mem _ ha))]
    exact hadj a ha hau) hm ((hblock _ mem hm).trans hu) hal (hfit.trans (hblock _ mem hm).ge)
  rw [mk'.takeBlock_eq hmark.symm, mk.takeBlock_eq rfl]
  have hend : (SmallMem.markBlock h mem size).heapEnd = h.heapEnd := mk.same.heapEnd
  have hl : (SmallMem.markBlock h mem size).lfree ∈
      (SmallMem.markBlock h mem size).heapEnd :: 0 :: rest' := by
    rw [mk.lfree, hend]
    rcases i.lfree with hl | ⟨hl, hlu⟩
    · exact hl ▸ List.mem_cons_self
    · refine List.mem_cons_of_mem _ ?_
      by_cases he : h.lfree = mem
      · exact he ▸ ((mk.used_iff mem).mpr (Or.inr rfl)).1
      · exact (mk.free _ hl hlu he).1
  generalize SmallMem.markBlock h mem size = h₁ at mk hl
  have hnext : nextFree (h₁.patch out) (h₁.patch out).steps (h₁.patch out).lfree =
      nextFree h₁ h₁.steps h₁.lfree := nextFree_patch mk.wf hl
  rw [hnext]
  change (if mem = h₁.lfree then _ else _) = _
  by_cases hml : mem = h₁.lfree
  · rw [if_pos hml, if_pos hml]
    cases hn : nextFree h₁ h₁.steps h₁.lfree with
    | none => rfl
    | some b =>
        have hb := mk.wf.pos_le (nextFree_mem mk.wf hl hn)
        have hget : (h₁.patch out).mem.get .used b = h₁.mem.get .used b := Mem.get_patch hb .used
        simp only [Option.bind_some, hget]
        by_cases hc : b = h₁.heapEnd ∨ h₁.mem.get .used b = 0
        · have hc' : b = (h₁.patch out).heapEnd ∨ h₁.mem.get .used b = 0 := hc
          rw [if_pos hc, if_pos hc']
          rfl
        · have hc' : ¬ (b = (h₁.patch out).heapEnd ∨ h₁.mem.get .used b = 0) := hc
          rw [if_neg hc, if_neg hc']
          rfl
  · rw [if_neg hml, if_neg hml]
    rfl

end Take

/-- The call loads and stores in the region only. -/
def Confined (h : Heap) (size : Nat) : Prop :=
  ∀ out, rtMalloc size (h.patch out) = (rtMalloc size h).map fun r => (r.1, r.2.patch out)

theorem Inv.confined (i : Inv h rest) (hsize : size + 3 < 4294967296) : Confined h size := by
  intro out
  have i' := i.patch out
  have hmsa : (h.patch out).memSizeAligned = h.memSizeAligned := rfl
  unfold SmallMem.rtMalloc
  by_cases hz : size = 0
  · rw [if_pos hz, if_pos hz]
    rfl
  by_cases hbig : Memheap.rtAlign size > h.memSizeAligned
  · rw [if_neg hz, if_neg hz, hmsa, if_pos hbig, if_pos hbig]
    rfl
  rw [if_neg hz, if_neg hz, hmsa, if_neg hbig, if_neg hbig, semTake_eq i.sem, semTake_eq i'.sem]
  have i₀ := i.toBase.setSem 0
  have i₀' := i'.toBase.setSem 0
  have hpatch : ({ h.patch out with heapSem := 0 } : Heap) =
      Heap.patch { h with heapSem := 0 } out := rfl
  rw [hpatch] at i₀' ⊢
  set h₀ : Heap := { h with heapSem := 0 } with hh₀
  have hsearch : searchFree (h₀.patch out) (mallocSize size) (h₀.patch out).steps
      (h₀.patch out).lfree = searchFree h₀ (mallocSize size) h₀.steps h₀.lfree :=
    searchFree_patch i₀.wf i₀.lfree_pos
  simp only [Option.bind_eq_bind, Option.bind_some]
  rw [hsearch]
  cases hs : searchFree h₀ (mallocSize size) h₀.steps h₀.lfree with
  | none => rfl
  | some found =>
      simp only [Option.bind_some]
      cases found with
      | none => rfl
      | some mem =>
          obtain ⟨hm, hu, hfit⟩ := i₀.wf.searchFree_some i₀.lfree_pos hs
          have hal := (mallocSize_spec hsize).2.1
          dsimp only
          rw [i₀.takeBlock_patch i₀' i.adj hm hu hal hfit]
          cases SmallMem.takeBlock h₀ mem (mallocSize size) with
          | none => rfl
          | some h₁ =>
              simp only [Option.map_some, Option.bind_some]
              -- the assertions read no memory
              split_ifs with hc hc'
              · rfl
              · exact absurd hc hc'
              · exact absurd ‹_› hc
              · rfl

/-! ## Which requests are served -/

/-- The free block `b` has room for `n` bytes. -/
def Fits (h : Heap) (rest : List Nat) (n b : Nat) : Prop :=
  b ∈ 0 :: rest ∧ h.mem.get .used b = 0 ∧ b + SIZEOF_STRUCT_MEM + n ≤ h.mem.get .next b

/-- The test of the search, at a block. -/
theorem Base.fits_iff (i : Base h rest) (hb : b ∈ 0 :: rest) :
    (h.mem.get .used b = 0 ∧ Memheap.sub32 (h.mem.get .next b)
      (Memheap.u32 (b + SIZEOF_STRUCT_MEM)) ≥ size) ↔ Fits h rest size b := by
  have hgap := i.wf.gap b hb
  have hle := i.wf.next_le_end hb
  have hlt := i.lt
  have hsub : Memheap.sub32 (h.mem.get .next b) (Memheap.u32 (b + SIZEOF_STRUCT_MEM)) =
      h.mem.get .next b - (b + SIZEOF_STRUCT_MEM) := by
    unfold Memheap.sub32 Memheap.u32
    omega
  rw [hsub]
  constructor
  · rintro ⟨hu, hge⟩
    exact ⟨hb, hu, by omega⟩
  · rintro ⟨-, hu, hge⟩
    exact ⟨hu, by omega⟩

/-- A block that is found lies in front of the bound of the search. -/
theorem searchFree_lt {fuel : Nat} (hs : searchFree h size fuel a = some (some b)) :
    b < Memheap.sub32 h.memSizeAligned size := by
  induction fuel generalizing a with
  | zero => exact absurd hs (by simp [searchFree])
  | succ fuel ih =>
      rw [searchFree] at hs
      split_ifs at hs with hlt
      · cases hs
        exact hlt
      · exact ih hs
      · cases hs

/-- When the search finds nothing, no block from `a` up to its bound has room. -/
theorem Base.searchFree_none (i : Base h rest) {fuel : Nat} (ha : a ∈ 0 :: rest)
    (hp : Dll.Path (h.mem.get .next) a l h.heapEnd) (hsub : ∀ c ∈ a :: l, c ∈ 0 :: rest)
    (hs : searchFree h size fuel a = some none) :
    ∀ b ∈ a :: l, Fits h rest size b → Memheap.sub32 h.memSizeAligned size ≤ b := by
  induction l generalizing a fuel with
  | nil =>
      intro b hb hfit
      rw [List.mem_singleton.mp hb] at hfit ⊢
      cases fuel with
      | zero => exact absurd hs (by simp [searchFree])
      | succ fuel =>
          rw [searchFree] at hs
          split_ifs at hs with hbound hc
          · cases hs
          · exact absurd ((i.fits_iff ha).mpr hfit) hc
          · exact not_lt.mp hbound
  | cons y l ih =>
      intro b hb hfit
      cases fuel with
      | zero => exact absurd hs (by simp [searchFree])
      | succ fuel =>
          rw [searchFree] at hs
          split_ifs at hs with hbound hc
          · cases hs
          · rcases List.mem_cons.mp hb with rfl | hb
            · exact absurd ((i.fits_iff ha).mpr hfit) hc
            · rw [hp.1] at hs
              exact ih (hsub y (by simp)) hp.2 (fun c hc => hsub c (List.mem_cons_of_mem _ hc)) hs
                b hb hfit
          · -- the blocks behind the bound
            have hsorted := (List.pairwise_cons.mp
              (hp.pairwise_lt fun c hc => i.wf.lt_next (hsub c hc))).1
            rcases List.mem_cons.mp hb with rfl | hb
            · exact not_lt.mp hbound
            · have hab : a < b := hsorted b (List.mem_append_left _ hb)
              omega

/-- In a region with less than the smallest payload the search never ends. -/
theorem Base.searchFree_loops (i : Base h rest) (hmin : h.memSizeAligned < MIN_SIZE_ALIGNED)
    {fuel : Nat} (ha : a ∈ h.heapEnd :: 0 :: rest) : searchFree h MIN_SIZE_ALIGNED fuel a = none := by
  induction fuel generalizing a with
  | zero => rfl
  | succ fuel ih =>
      have hE := i.heapEnd
      have hlt := i.lt
      have haE := i.wf.pos_le ha
      have hbound : a < Memheap.sub32 h.memSizeAligned MIN_SIZE_ALIGNED := by
        unfold Memheap.sub32 Memheap.u32 MIN_SIZE_ALIGNED SIZEOF_STRUCT_MEM at *
        omega
      rw [searchFree, if_pos hbound, if_neg]
      · exact ih (i.wf.next_pos ha)
      · rcases List.mem_cons.mp ha with rfl | ha
        · exact fun hc => i.wf.end_used hc.1
        · rw [i.fits_iff ha]
          rintro ⟨-, -, hroom⟩
          have hle := i.wf.next_le_end ha
          omega

/-- The call returns, and returns `NULL` only when no free block has room. -/
def Serves (h : Heap) (rest : List Nat) (size : Nat) : Prop :=
  ∃ r h', rtMalloc size h = some (r, h') ∧ (r = 0 → ∀ b, ¬ Fits h rest (mallocSize size) b)

/-- The request fits into the region, but the smallest payload does not. -/
def TooSmall (h : Heap) (size : Nat) : Prop :=
  h.memSizeAligned < MIN_SIZE_ALIGNED ∧ Memheap.rtAlign size ≤ h.memSizeAligned

/-- The only free block with room is the last one of the region, and the request would fill it
exactly. -/
def FillsLast (h : Heap) (rest : List Nat) (n : Nat) : Prop :=
  ∃ b, Fits h rest n b ∧ h.mem.get .next b = h.heapEnd ∧
    b + SIZEOF_STRUCT_MEM + n = h.heapEnd ∧ ∀ c, Fits h rest n c → c = b

theorem FillsLast.not_forall {n : Nat} (hf : FillsLast h rest n) : ¬ ∀ b, ¬ Fits h rest n b := by
  obtain ⟨b, hb, -⟩ := hf
  exact fun hnone => hnone b hb

/-- A block with room ends in the region. -/
theorem Base.fits_le (i : Base h rest) {n : Nat} (hf : Fits h rest n b) :
    b + n ≤ h.memSizeAligned ∧ (b + n = h.memSizeAligned → h.mem.get .next b = h.heapEnd) := by
  have hle := i.wf.next_le_end hf.1
  have hE := i.heapEnd
  have hroom := hf.2.2
  constructor
  · omega
  · omega

theorem Inv.serves_iff (i : Inv h rest) (hlow : Lowest h.mem rest h.lfree) (hz : size ≠ 0)
    (hsize : size + 3 < 4294967296) :
    Serves h rest size ↔ ¬ TooSmall h size ∧ ¬ FillsLast h rest (mallocSize size) := by
  obtain ⟨n, hn⟩ : ∃ n, n = mallocSize size := ⟨_, rfl⟩
  have hround : Memheap.rtAlign size ≤ n ∧ (MIN_SIZE_ALIGNED ≤ h.memSizeAligned →
      Memheap.rtAlign size ≤ h.memSizeAligned → n ≤ h.memSizeAligned) := by
    rw [hn, mallocSize]
    split_ifs <;> omega
  unfold Serves
  rw [← hn]
  by_cases hbig : Memheap.rtAlign size > h.memSizeAligned
  · -- the request is larger than the region
    have hnone : ∀ b, ¬ Fits h rest n b := fun b hf => by
      have hle := (i.fits_le hf).1
      omega
    refine iff_of_true ⟨0, h, ?_, fun _ => hnone⟩ ⟨fun hc => ?_, fun hf => hf.not_forall hnone⟩
    · rw [SmallMem.rtMalloc, if_neg hz, if_pos hbig]
    · exact absurd hc.2 (not_le.mpr hbig)
  have hfit := not_lt.mp hbig
  by_cases hmin : h.memSizeAligned < MIN_SIZE_ALIGNED
  · -- the search goes on for ever
    refine iff_of_false ?_ fun hc => hc.1 ⟨hmin, hfit⟩
    rintro ⟨r, h', hcall, -⟩
    have hms : mallocSize size = MIN_SIZE_ALIGNED := by
      rw [mallocSize, if_pos (by omega)]
    have hloop : searchFree h (mallocSize size) h.steps h.lfree = none := by
      rw [hms]
      exact i.searchFree_loops hmin i.lfree_pos
    rcases i.rtMalloc_search hsize hz hfit with ⟨-, hnone⟩ | ⟨hs, -⟩ | ⟨mem, -, -, hs, -⟩
    · rw [hnone] at hcall
      cases hcall
    · rw [hloop] at hs
      cases hs
    · rw [hloop] at hs
      cases hs
  -- the bound of the search does not wrap
  have hbound : Memheap.sub32 h.memSizeAligned n = h.memSizeAligned - n := by
    have h₁ := hround.2 (not_lt.mp hmin) hfit
    have h₂ := i.lt
    have h₃ := i.heapEnd
    unfold Memheap.sub32 Memheap.u32
    omega
  rcases i.rtMalloc_search hsize hz hfit with ⟨hs, -⟩ | ⟨hs, hnull⟩ | ⟨mem, h', -, hs, hcall, -⟩
  · have hsome := i.searchFree_isSome (not_lt.mp hmin) hfit
    rw [hs] at hsome
    cases hsome
  · -- nothing was found: a block with room is the last one, and filled exactly
    have hlast : ∀ b, Fits h rest n b → b + n = h.memSizeAligned := by
      intro b hf
      have hle := (i.fits_le hf).1
      have hlb := hlow b hf.1 hf.2.1
      have hge : Memheap.sub32 h.memSizeAligned n ≤ b := by
        rcases i.lfree with hl | ⟨hl, -⟩
        · have hbE := i.wf.lt_end hf.1
          omega
        · obtain ⟨l, hp, hsub, -, hsup⟩ := i.wf.exists_path hl
          rw [← hn] at hs
          exact i.toBase.searchFree_none hl hp hsub hs b (hsup b hf.1 hlb) hf
      omega
    constructor
    · rintro ⟨r, h', hcall, hnone⟩
      rw [hnull] at hcall
      cases hcall
      exact ⟨fun hc => hmin hc.1, fun hf => hf.not_forall (hnone rfl)⟩
    · rintro ⟨-, hfill⟩
      refine ⟨0, h, hnull, fun _ b hf => hfill ⟨b, hf, ?_, ?_, fun c hc => ?_⟩⟩
      · exact (i.fits_le hf).2 (hlast b hf)
      · have h₁ := hlast b hf
        have h₂ := i.heapEnd
        omega
      · have h₁ := hlast b hf
        have h₂ := hlast c hc
        omega
  · rw [← hn] at hs
    have hlt := searchFree_lt hs
    refine iff_of_true ⟨_, h', hcall, fun h0 => ?_⟩ ⟨fun hc => hmin hc.1, ?_⟩
    · exact absurd h0 (Nat.succ_ne_zero _)
    · rintro ⟨b, -, -, hfill, huniq⟩
      have hmb := huniq mem (i.wf.searchFree_some i.lfree_pos hs)
      have hE := i.heapEnd
      omega

/-- **Completeness of `rt_malloc`.** In every state of a run in which `lfree` is the lowest free
block, the call stays in the region; and it returns, with `NULL` only when no free block has room,
except where the region is too small for the smallest payload or the request would exactly fill
the last block, the only one with room. -/
theorem malloc_complete_iff {s : HeapSys} (hr : Trans.Reachable Init Step s) (hl : LowestFree s)
    {size : Nat} (hz : 1 ≤ size) (hsize : size + 3 < 4294967296) :
    ∃ rest, Structured s rest ∧ Confined s.heap size ∧
      (Serves s.heap rest size ↔
        ¬ TooSmall s.heap size ∧ ¬ FillsLast s.heap rest (mallocSize size)) := by
  obtain ⟨rest, hs⟩ := HeapSysInv.of_reachable hr
  exact ⟨rest, hs.structured, hs.inv.confined hsize,
    hs.inv.serves_iff (hs.lowestFree_iff.mp hl) (Nat.one_le_iff_ne_zero.mp hz) hsize⟩

/-- A request that leaves room in the region is served. -/
theorem malloc_complete_smallRegion : ∃ rest, Structured smallRegion rest ∧
    Confined smallRegion.heap 100 ∧ Serves smallRegion.heap rest 100 := by
  have hr : Trans.Reachable Init Step smallRegion := .init smallRegion_init
  have hl : LowestFree smallRegion := by
    have hlow := (HeapSysInv.init smallRegion_init)
    exact hlow.1.lowestFree_iff.mpr hlow.2
  have htiles : Tiles smallRegion.heap [] := by decide +kernel
  obtain ⟨rest, hs, hconf, hiff⟩ := malloc_complete_iff hr hl (by decide) (show 100 + 3 < _ by decide)
  refine ⟨rest, hs, hconf, hiff.mpr ⟨fun hc => ?_, ?_⟩⟩
  · have hsize : ¬ smallRegion.heap.memSizeAligned < MIN_SIZE_ALIGNED := by decide +kernel
    exact hsize hc.1
  · rintro ⟨b, hb, -, hfill, -⟩
    rw [hs.toTiles.unique htiles] at hb
    rw [List.mem_singleton.mp hb.1] at hfill
    have hne : 0 + SIZEOF_STRUCT_MEM + mallocSize 100 ≠ smallRegion.heap.heapEnd := by decide +kernel
    exact hne hfill

/-- The fresh region has one free block of 976 bytes, and refuses a request of 976. -/
theorem whole_region_refused : ∃ s, Trans.Reachable Init Step s ∧ LowestFree s ∧
    ∃ rest, Structured s rest ∧ Fits s.heap rest (mallocSize 976) 0 ∧ ¬ Serves s.heap rest 976 := by
  have hr : Trans.Reachable Init Step smallRegion := .init smallRegion_init
  obtain ⟨hs, hlow⟩ := HeapSysInv.init smallRegion_init
  have hfit : smallRegion.heap.mem.get .used 0 = 0 ∧
      0 + SIZEOF_STRUCT_MEM + mallocSize 976 ≤ smallRegion.heap.mem.get .next 0 := by
    decide +kernel
  have hfits : Fits smallRegion.heap [] (mallocSize 976) 0 := ⟨List.mem_singleton_self 0, hfit⟩
  have hnull : (rtMalloc 976 smallRegion.heap).map Prod.fst = some 0 := by decide +kernel
  refine ⟨smallRegion, hr, hs.lowestFree_iff.mpr hlow, [], hs.structured, hfits, ?_⟩
  rintro ⟨r, h', hcall, hnone⟩
  rw [hcall] at hnull
  exact hnone (Option.some.inj hnull) 0 hfits

end RTThread.SmallMem
