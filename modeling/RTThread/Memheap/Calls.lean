import RTThread.Memheap.HeapSet

set_option autoImplicit false

/-! # The calls over several heaps

One lemma for each function of the allocation interface: on a state that satisfies `SetInv` the call
returns, keeps `SetInv`, and has a known `Effect` on the pointers in use of all heaps. A call in one
heap is `SetInv.effect` applied to what the heap's own functions guarantee; the calls that try
several heaps, or write the payload they return, compose the effects.
-/

namespace RTThread.Memheap

section Calls

variable {H : HeapSet} {s : State} {R F : Nat → List Nat} {A : InitArgs} {m m' : Mem}
  {p q r n size : Nat}

/-! ## Allocation -/

/-- `rt_memheap_alloc` on one of the heaps. -/
theorem SetInv.alloc (hs : SetInv H s R F) (hA : A ∈ H.all) (hsize : Rounds size) :
    ∃ r s' R' F', s.withHeap A.heap (rtMemheapAlloc A.heap size) = some (r, s') ∧
      SetInv H s' R' F' ∧ Effect H s R s' R' 0 r size := by
  have i := hs.inv A hA
  obtain ⟨r, p', rest', fl', halloc, i', hl', hor, new, he, hnew⟩ :=
    i.rtMemheapAlloc (hs.lock A hA) size
  obtain ⟨s', hs', rfl, hother⟩ := State.withHeap_eq halloc
  have hf : Frame A.layout s.mem (R A.heap) s'.mem := he.frame_of_freeAt i.toTiled hnew
  -- a block that stays in use keeps its payload
  have hkeep : (∀ b, Used A.layout s.mem (R A.heap) b → Used A.layout s'.mem rest' b ∧
      s'.mem.get .next b = s.mem.get .next b) → ∀ p, A.LiveIn s.mem (R A.heap) p → p ≠ 0 →
        SameBlock s.mem s'.mem p := by
    rintro h p ⟨b, rfl, hu, hbt⟩ -
    exact i.wf.sameBlock i'.wf hu.1 (h b hu).1.1 hbt (h b hu).2 (hf.payload b hu hbt)
  have hpos : ∀ {p}, A.LiveIn s.mem (R A.heap) p → p ≠ 0 := fun h =>
    HeapSet.Live.ne_zero (s := s) ⟨A, hA, h⟩
  rcases hor with ⟨rfl, hsame⟩ | ⟨h, rfl, htaken, hroom⟩
  · have hlive : ∀ p, A.LiveIn s'.mem rest' p ↔
        (A.LiveIn s.mem (R A.heap) p ∧ p ≠ 0) ∨ ((0 : Nat) ≠ 0 ∧ p = 0) := by
      intro p
      constructor
      · rintro ⟨b, rfl, hu, hbt⟩
        have hlive : A.LiveIn s.mem (R A.heap) (b + RT_MEMHEAP_SIZE) :=
          ⟨b, rfl, (hsame b).1.mp hu, hbt⟩
        exact Or.inl ⟨hlive, hpos hlive⟩
      · rintro (⟨⟨b, rfl, hu, hbt⟩, -⟩ | h)
        · exact ⟨b, rfl, (hsame b).1.mpr hu, hbt⟩
        · exact absurd rfl h.1
    obtain ⟨R', F', hs'', heff⟩ := hs.effect (n := size) hA i' hl' hf.outside hother
      (Or.inl rfl) hlive (hkeep fun b hb => ⟨(hsame b).1.mpr hb, (hsame b).2 hb⟩)
      (fun h => absurd rfl h) (fun h => absurd rfl h)
    exact ⟨0, s', R', F', hs', hs'', heff⟩
  · have hu' : Used A.layout s'.mem rest' h := (htaken.used h).mpr (Or.inr rfl)
    have hnz : h + RT_MEMHEAP_SIZE ≠ 0 := by
      unfold RT_MEMHEAP_SIZE
      omega
    have hlive : ∀ p, A.LiveIn s'.mem rest' p ↔ (A.LiveIn s.mem (R A.heap) p ∧ p ≠ 0) ∨
        (h + RT_MEMHEAP_SIZE ≠ 0 ∧ p = h + RT_MEMHEAP_SIZE) := by
      intro p
      constructor
      · rintro ⟨b, rfl, hu, hbt⟩
        rcases (htaken.used b).mp hu with hu | rfl
        · have hlive : A.LiveIn s.mem (R A.heap) (b + RT_MEMHEAP_SIZE) := ⟨b, rfl, hu, hbt⟩
          exact Or.inl ⟨hlive, hpos hlive⟩
        · exact Or.inr ⟨hnz, rfl⟩
      · rintro (⟨⟨b, rfl, hu, hbt⟩, -⟩ | ⟨-, rfl⟩)
        · exact ⟨b, rfl, (htaken.used b).mpr (Or.inl hu), hbt⟩
        · exact ⟨h, rfl, hu', htaken.ne_tail⟩
    have hpay : size ≤ payload s'.mem (h + RT_MEMHEAP_SIZE) := by
      have h₁ := i'.wf.add_payload hu'.1 htaken.ne_tail
      have h₂ := self_le_roundSize hsize
      change h + RT_MEMHEAP_SIZE + roundSize size ≤ s'.mem.get .next h at hroom
      change h + RT_MEMHEAP_SIZE + payload s'.mem (h + RT_MEMHEAP_SIZE) = s'.mem.get .next h at h₁
      omega
    obtain ⟨R', F', hs'', heff⟩ := hs.effect (n := size) hA i' hl' hf.outside hother
      (Or.inl rfl) hlive
      (hkeep fun b hb => ⟨(htaken.used b).mpr (Or.inl hb), htaken.next b hb⟩)
      (fun _ _ hl => htaken.fresh ((InitArgs.liveIn_add htaken.ne_tail).mp hl)) (fun _ => hpay)
    exact ⟨_, s', R', F', hs', hs'', heff⟩

/-- The loop over the object list. -/
theorem SetInv.mallocOther (sysHeap : Nat) (hsize : Rounds size) {node : List Nat}
    (hnode : ∀ heap ∈ node, ∃ A ∈ H.all, A.heap = heap) (hs : SetInv H s R F) :
    ∃ r s' R' F', Memheap.mallocOther sysHeap size node s = some (r, s') ∧ SetInv H s' R' F' ∧
      Effect H s R s' R' 0 r size := by
  induction node generalizing s R F with
  | nil =>
      refine ⟨0, s, R, F, rfl, hs, ⟨fun p => ?_, fun _ _ _ => SameBlock.refl _ _,
        fun h => absurd rfl h, fun h => absurd rfl h⟩⟩
      constructor
      · exact fun h => Or.inl ⟨h, h.ne_zero⟩
      · rintro (h | h)
        · exact h.1
        · exact absurd rfl h.1
  | cons heap node ih =>
      have hnode' : ∀ g ∈ node, ∃ A ∈ H.all, A.heap = g := fun g hg =>
        hnode g (List.mem_cons_of_mem _ hg)
      by_cases hsys : heap = sysHeap
      · simpa only [Memheap.mallocOther, if_pos hsys] using ih hnode' hs
      · obtain ⟨A, hA, rfl⟩ := hnode heap List.mem_cons_self
        obtain ⟨r, s₁, R₁, F₁, h₁, hs₁, he₁⟩ := hs.alloc hA hsize
        simp only [Memheap.mallocOther, if_neg hsys, h₁, Option.bind_eq_bind, Option.bind_some]
        by_cases hr : r = 0
        · -- the next heap is tried
          subst hr
          obtain ⟨r', s', R', F', h', hs', he'⟩ := ih hnode' hs₁
          exact ⟨r', s', R', F', by simpa using h', hs', he₁.after_fail he'⟩
        · exact ⟨r, s₁, R₁, F₁, by simp [hr], hs₁, he₁⟩

theorem HeapSet.mem_objectList {H : HeapSet} {heap : Nat} (h : heap ∈ H.objectList) :
    ∃ A ∈ H.all, A.heap = heap := by
  unfold HeapSet.objectList at h
  rwa [List.mem_reverse, List.mem_map] at h

/-- `rt_malloc`. -/
theorem SetInv.rtMalloc (hs : SetInv H s R F) (hsize : Rounds size) :
    ∃ r s' R' F', Memheap.rtMalloc H.sys.heap H.objectList size s = some (r, s') ∧
      SetInv H s' R' F' ∧ Effect H s R s' R' 0 r size := by
  obtain ⟨r, s₁, R₁, F₁, h₁, hs₁, he₁⟩ := hs.alloc H.sys_mem hsize
  simp only [Memheap.rtMalloc, h₁, Option.bind_eq_bind, Option.bind_some]
  by_cases hr : r = 0
  · subst hr
    obtain ⟨r', s', R', F', h', hs', he'⟩ :=
      hs₁.mallocOther H.sys.heap hsize fun heap hg => HeapSet.mem_objectList hg
    exact ⟨r', s', R', F', by simpa using h', hs', he₁.after_fail he'⟩
  · exact ⟨r, s₁, R₁, F₁, by simp [hr], hs₁, he₁⟩

/-! ## Release -/

/-- `rt_free` of a pointer in use. -/
theorem SetInv.rtFree (hs : SetInv H s R F) (hp : H.Live s R p) :
    ∃ s' R' F', Memheap.rtFree p s = some s' ∧ SetInv H s' R' F' ∧ Effect H s R s' R' p 0 0 := by
  obtain ⟨A, hA, h, rfl, hu, hne⟩ := hp
  have i := hs.inv A hA
  obtain ⟨s', rest', fl', hfree, i', hl', hused, he, hother⟩ :=
    i.rtMemheapFree (hs.lock A hA) hu hne
  have hf : Frame A.layout s.mem (R A.heap) s'.mem := he.frame_of_freeAt i.toTiled (by simp)
  have hlive : ∀ p, A.LiveIn s'.mem rest' p ↔
      (A.LiveIn s.mem (R A.heap) p ∧ p ≠ h + RT_MEMHEAP_SIZE) ∨ ((0 : Nat) ≠ 0 ∧ p = 0) := by
    intro p
    constructor
    · rintro ⟨b, rfl, hb, hbt⟩
      have h₁ := (hused b).1.mp hb
      exact Or.inl ⟨⟨b, rfl, h₁.1, hbt⟩, fun e => h₁.2 (Nat.add_right_cancel e)⟩
    · rintro (⟨⟨b, rfl, hb, hbt⟩, hbh⟩ | h)
      · exact ⟨b, rfl, (hused b).1.mpr ⟨hb, fun e => hbh (e ▸ rfl)⟩, hbt⟩
      · exact absurd rfl h.1
  have hkeep : ∀ p, A.LiveIn s.mem (R A.heap) p → p ≠ h + RT_MEMHEAP_SIZE →
      SameBlock s.mem s'.mem p := by
    rintro p ⟨b, rfl, hb, hbt⟩ hbh
    have hb' : Used A.layout s'.mem rest' b := (hused b).1.mpr ⟨hb, fun e => hbh (e ▸ rfl)⟩
    exact i.wf.sameBlock i'.wf hb.1 hb'.1 hbt ((hused b).2 hb') (hf.payload b hb hbt)
  obtain ⟨R', F', hs', heff⟩ := hs.effect (n := 0) hA i' hl' hf.outside hother
    (Or.inr ⟨h, rfl, hu, hne⟩) hlive hkeep (fun h => absurd rfl h) (fun h => absurd rfl h)
  exact ⟨s', R', F', hfree, hs', heff⟩

/-! ## Stores into a payload -/

theorem SetInv.aligned (hs : SetInv H s R F) (hp : H.Live s R p) : p % 4 = 0 := by
  obtain ⟨A, hA, b, rfl, hu, -⟩ := hp
  have hr := ((hs.wf hA).range b hu.1).2.2
  unfold RT_MEMHEAP_SIZE
  omega

/-- Bytes are stored into the payload of `p`. -/
theorem SetInv.fill (hs : SetInv H s R F) (hp : H.Live s R p) {i l : Nat} {f : Nat → Nat}
    (hfit : i + n ≤ payload s.mem p) (hsize : l ≤ payload s.mem p) :
    ∃ s', s' = (⟨s.mem.storeBytes (p + i) n f, s.heap⟩ : State) ∧ SetInv H s' R F ∧
      Effect H s R s' R p p l ∧ payload s'.mem p = payload s.mem p := by
  refine ⟨_, rfl, ?_⟩
  have hal := hs.aligned hp
  have hp' := hp
  obtain ⟨A, hA, h, rfl, hu, hne⟩ := hp'
  have i₀ := hs.inv A hA
  have hpay : h + RT_MEMHEAP_SIZE + payload s.mem (h + RT_MEMHEAP_SIZE) = s.mem.get .next h :=
    (hs.wf hA).add_payload hu.1 hne
  set m' := s.mem.storeBytes (h + RT_MEMHEAP_SIZE + i) n f with hm'
  -- the words that are stored to are in the payload
  have hm : ∀ a, ¬ InPayload s.mem h a → m' a = s.mem a := fun a ha =>
    storeBytes_of_notMem fun hc => ha ⟨by omega, by omega⟩
  have hh : SameHeaders A.layout (R A.heap) (F A.heap) s.mem m' := i₀.sameHeaders hu.1 hne hm
  have i' := i₀.congr hh
  have hused := hh.sameBlocks.sameUsed
  have hout : ∀ a, Outside A.layout a → m' a = s.mem a := fun a ha =>
    hm a fun hc => i₀.wf.payload_notOutside hu.1 hc ha
  have hsame : payload m' (h + RT_MEMHEAP_SIZE) = payload s.mem (h + RT_MEMHEAP_SIZE) := by
    have h₁ := i'.wf.add_payload hu.1 hne
    have h₂ : m'.get .next h = s.mem.get .next h := (hused h).2 hu
    change h + RT_MEMHEAP_SIZE + payload m' (h + RT_MEMHEAP_SIZE) = m'.get .next h at h₁
    omega
  have hlive : ∀ q, H.Live ⟨m', s.heap⟩ R q ↔ H.Live s R q := by
    intro q
    refine exists_congr fun B => and_congr_right fun hB => ?_
    refine exists_congr fun b => and_congr_right fun _ => and_congr_left fun _ => ?_
    by_cases hBA : B = A
    · subst hBA
      exact (hused b).1
    · exact (hs.other hA hB hBA hout).2.1 b
  refine ⟨⟨fun B hB => ?_, hs.lock⟩, ⟨fun q => ?_, fun q hq hne' => ?_, fun _ h => absurd rfl h,
    fun _ => hsize.trans hsame.ge⟩, hsame⟩
  · by_cases hBA : B = A
    · subst hBA
      exact i'
    · exact (hs.other hA hB hBA hout).1
  · refine (hlive q).trans ?_
    constructor
    · intro hq
      by_cases he : q = h + RT_MEMHEAP_SIZE
      · exact Or.inr ⟨hp.ne_zero, he⟩
      · exact Or.inl ⟨hq, he⟩
    · rintro (hq | ⟨-, rfl⟩)
      · exact hq.1
      · exact hp
  · obtain ⟨B, hB, hq⟩ := hq
    by_cases hBA : B = A
    · subst hBA
      obtain ⟨b, rfl, hb, hbt⟩ := hq
      refine i₀.wf.sameBlock i'.wf hb.1 hb.1 hbt ((hused b).2 hb) fun a ha => hm a fun hc => ?_
      -- two payloads of one heap do not overlap
      obtain ⟨h₁, h₂⟩ : InPayload s.mem b a := ha
      obtain ⟨h₃, h₄⟩ := hc
      have hbh : b ≠ h := fun e => hne' (e ▸ rfl)
      rcases Nat.lt_or_gt_of_ne hbh with hlt | hlt
      · have h₅ : s.mem.get .next b ≤ h := i₀.wf.order b hb.1 h hu.1 hlt
        omega
      · have h₅ : s.mem.get .next h ≤ b := i₀.wf.order h hu.1 b hb.1 hlt
        omega
    · exact (hs.other hA hB hBA hout).2.2 q hq

/-! ## Reallocation -/

/-- The bytes of the old payload that fit into `n` bytes are the bytes at `r`. -/
def Copied (m m' : Mem) (p r n : Nat) : Prop :=
  ∀ i, i < payload m p → i < n → byte m' (r + i) = byte m (p + i)

/-- A copy of words is a copy of bytes. -/
theorem byte_of_words {n : Nat} (hp : p % 4 = 0) (hr : r % 4 = 0)
    (h : ∀ j, j < n → m' (r + j) = m (p + j)) {i : Nat} (hi : i < n) :
    byte m' (r + i) = byte m (p + i) := by
  have h₁ : (r + i) / 4 * 4 = r + i / 4 * 4 := by omega
  have h₂ : (p + i) / 4 * 4 = p + i / 4 * 4 := by omega
  have h₃ : (r + i) % 4 = (p + i) % 4 := by omega
  unfold byte
  rw [h₁, h₂, h₃, h _ (by omega)]

theorem SameBlock.byte_eq (h : SameBlock m m' p) (hp : p % 4 = 0) {i : Nat} (hi : i < payload m p) :
    byte m' (p + i) = byte m (p + i) :=
  byte_congr hp h.2 (Nat.le_add_right ..) (Nat.add_lt_add_left hi _)

/-- The heap in the header of a pointer in use. -/
theorem SetInv.poolPtr (hs : SetInv H s R F) (hA : A ∈ H.all)
    (hp : A.LiveIn s.mem (R A.heap) p) :
    s.mem.get .poolPtr (sub32 p RT_MEMHEAP_SIZE) = A.heap := by
  obtain ⟨b, rfl, hu, hbt⟩ := hp
  rw [(hs.wf hA).sub32_header hu.1 hbt]
  exact (hs.wf hA).pool b hu.1

/-- `rt_memheap_realloc` of a pointer in use, in its own heap. -/
theorem SetInv.memheapRealloc (hs : SetInv H s R F) (hp : H.Live s R p) (hsize : Rounds size)
    (hgrow : Regrows s.mem p size) (hpos : size ≠ 0) :
    ∃ r s' R' F', rtMemheapRealloc (s.mem.get .poolPtr (sub32 p RT_MEMHEAP_SIZE)) p size s =
        some (r, s') ∧ SetInv H s' R' F' ∧
      ((r = 0 ∧ Effect H s R s' R' 0 0 0) ∨
        (r ≠ 0 ∧ Effect H s R s' R' p r size ∧ Copied s.mem s'.mem p r size)) := by
  have hal := hs.aligned hp
  obtain ⟨A, hA, hpA⟩ := hp
  rw [hs.poolPtr hA hpA]
  obtain ⟨h, rfl, hu, hne⟩ := hpA
  have i := hs.inv A hA
  obtain ⟨r, s', hre, rest', fl', i', hl', hor, hf, hother⟩ :=
    i.rtMemheapRealloc (hs.lock A hA) hu hne hgrow hpos
  have hge := self_le_roundSize hsize
  -- a block that is not given up keeps its payload
  have hkeep : ∀ b, Used A.layout s.mem (R A.heap) b → b ≠ A.tail → (b = h → r = 0) →
      Used A.layout s'.mem rest' b → SameBlock s.mem s'.mem (b + RT_MEMHEAP_SIZE) :=
    fun b hb hbt hbh hb' => i.wf.sameBlock i'.wf hb.1 hb'.1 hbt (hf.next b hb hbh) fun a ha =>
      hf.payload b hb hbt a ha fun he hr => absurd (hbh he) hr
  by_cases hr : r = 0
  · subst hr
    have hused : ∀ b, Used A.layout s'.mem rest' b ↔ Used A.layout s.mem (R A.heap) b := by
      rcases hor with ⟨-, hused⟩ | ⟨h', hr, -⟩
      · exact hused
      · unfold RT_MEMHEAP_SIZE at hr
        omega
    have hlive : ∀ p, A.LiveIn s'.mem rest' p ↔
        (A.LiveIn s.mem (R A.heap) p ∧ p ≠ 0) ∨ ((0 : Nat) ≠ 0 ∧ p = 0) := by
      intro p
      unfold InitArgs.LiveIn
      simp only [hused, ne_eq, not_true_eq_false, false_and, or_false]
      refine (and_iff_left_of_imp ?_).symm
      rintro ⟨b, rfl, -⟩
      unfold RT_MEMHEAP_SIZE
      omega
    obtain ⟨R', F', hs', heff⟩ := hs.effect (n := 0) hA i' hl' hf.outside hother (Or.inl rfl)
      hlive (fun p hp _ => by
        obtain ⟨b, rfl, hb, hbt⟩ := hp
        exact hkeep b hb hbt (fun _ => rfl) ((hused b).mpr hb))
      (fun h => absurd rfl h) (fun h => absurd rfl h)
    exact ⟨0, s', R', F', hre, hs', Or.inl ⟨rfl, heff⟩⟩
  · obtain ⟨h', rfl, hroom⟩ := hf.room hr
    -- the block of the result, and the blocks in use
    obtain ⟨hne', hused, hfresh⟩ : h' ≠ A.tail ∧ (∀ b, Used A.layout s'.mem rest' b ↔
        (Used A.layout s.mem (R A.heap) b ∧ b ≠ h) ∨ b = h') ∧
          (h' ≠ h → ¬ Used A.layout s.mem (R A.heap) h') := by
      rcases hor with ⟨h₁ | h₁, hused⟩ | ⟨g, hg, hgt, hgu, hused⟩
      · exact absurd h₁ hr
      · obtain rfl := Nat.add_right_cancel h₁
        refine ⟨hne, fun b => (hused b).trans ?_, fun h => absurd rfl h⟩
        constructor
        · intro hb
          by_cases he : b = h'
          · exact Or.inr he
          · exact Or.inl ⟨hb, he⟩
        · rintro (hb | rfl)
          · exact hb.1
          · exact hu
      · obtain rfl := Nat.add_right_cancel hg
        exact ⟨hgt, hused, fun _ => hgu⟩
    have hu' : Used A.layout s'.mem rest' h' := (hused h').mpr (Or.inr rfl)
    have hlive : ∀ p, A.LiveIn s'.mem rest' p ↔
        (A.LiveIn s.mem (R A.heap) p ∧ p ≠ h + RT_MEMHEAP_SIZE) ∨
          (h' + RT_MEMHEAP_SIZE ≠ 0 ∧ p = h' + RT_MEMHEAP_SIZE) := by
      intro p
      constructor
      · rintro ⟨b, rfl, hb, hbt⟩
        rcases (hused b).mp hb with hb | rfl
        · exact Or.inl ⟨⟨b, rfl, hb.1, hbt⟩, fun e => hb.2 (Nat.add_right_cancel e)⟩
        · exact Or.inr ⟨hr, rfl⟩
      · rintro (⟨⟨b, rfl, hb, hbt⟩, hbh⟩ | ⟨-, rfl⟩)
        · exact ⟨b, rfl, (hused b).mpr (Or.inl ⟨hb, fun e => hbh (e ▸ rfl)⟩), hbt⟩
        · exact ⟨h', rfl, hu', hne'⟩
    have hpay : size ≤ payload s'.mem (h' + RT_MEMHEAP_SIZE) := by
      have h₁ := i'.wf.add_payload hu'.1 hne'
      change h' + RT_MEMHEAP_SIZE + payload s'.mem (h' + RT_MEMHEAP_SIZE) = s'.mem.get .next h' at h₁
      omega
    obtain ⟨R', F', hs', heff⟩ := hs.effect (n := size) hA i' hl' hf.outside hother
      (Or.inr ⟨h, rfl, hu, hne⟩) hlive
      (fun p hp hpx => by
        obtain ⟨b, rfl, hb, hbt⟩ := hp
        have hbh : b ≠ h := fun e => hpx (e ▸ rfl)
        exact hkeep b hb hbt (fun e => absurd e hbh) ((hused b).mpr (Or.inl ⟨hb, hbh⟩)))
      (fun _ hx hl => hfresh (fun e => hx (e ▸ rfl)) ((InitArgs.liveIn_add hne').mp hl))
      (fun _ => hpay)
    have hal' := hs'.aligned ((heff.live _).mpr (Or.inr ⟨hr, rfl⟩))
    refine ⟨_, s', R', F', hre, hs', Or.inr ⟨hr, heff, fun j h₁ h₂ => ?_⟩⟩
    refine byte_of_words (n := min (payload s.mem (h + RT_MEMHEAP_SIZE)) size) hal hal'
      (fun j hj => hf.copy hr j ?_ ?_) (lt_min h₁ h₂)
    · have h₃ : payload s.mem (h + RT_MEMHEAP_SIZE) = blockSize s.mem h := by
        unfold payload
        rw [(hs.wf hA).sub32_header hu.1 hne, (hs.wf hA).memitemSize_eq hu.1 hne]
      exact h₃ ▸ (lt_min_iff.mp hj).1
    · exact (lt_min_iff.mp hj).2.trans_le hge

/-- `rt_realloc` of a pointer in use to a size that is not zero. -/
theorem SetInv.rtRealloc (hs : SetInv H s R F) (hp : H.Live s R p) (hsize : Rounds size)
    (hgrow : Regrows s.mem p size) (hpos : size ≠ 0) :
    ∃ r s' R' F', Memheap.rtRealloc H.sys.heap H.objectList p size s = some (r, s') ∧
      SetInv H s' R' F' ∧ ((r = 0 ∧ Effect H s R s' R' 0 0 0) ∨
        (r ≠ 0 ∧ Effect H s R s' R' p r size ∧ Copied s.mem s'.mem p r size)) := by
  obtain ⟨r, s₁, R₁, F₁, h₁, hs₁, hor⟩ := hs.memheapRealloc hp hsize hgrow hpos
  simp only [Memheap.rtRealloc, if_neg hp.ne_zero, if_neg hpos, h₁, Option.bind_eq_bind,
    Option.bind_some]
  rcases hor with ⟨rfl, he₁⟩ | ⟨hr, he₁, hc₁⟩
  swap
  · exact ⟨r, s₁, R₁, F₁, by simp [hr], hs₁, Or.inr ⟨hr, he₁, hc₁⟩⟩
  · obtain ⟨r, s₂, R₂, F₂, h₂, hs₂, he₂⟩ := hs₁.rtMalloc hsize
    have he := he₁.after_fail he₂
    simp only [hpos, ne_eq, not_false_eq_true, and_self, if_true, h₂, Option.bind_some,
      hp.ne_zero, and_true]
    by_cases hr : r = 0
    · subst hr
      refine ⟨0, s₂, R₂, F₂, by simp, hs₂, Or.inl ⟨rfl, he.live, he.keep, he.fresh, ?_⟩⟩
      exact fun h => absurd rfl h
    · -- copy into the block of the other heap and release the old one
      have hpr : r ≠ p := fun e => he.fresh hr hr (e ▸ hp)
      have hr₂ : H.Live s₂ R₂ r := (he.live r).mpr (Or.inr ⟨hr, rfl⟩)
      have hroom : size ≤ payload s₂.mem r := he.room hr
      have hpay₂ : payload s₂.mem p = payload s.mem p := (he.keep_all hp).1
      have hold : memitemSize s₂.mem (sub32 p RT_MEMHEAP_SIZE) = payload s.mem p := hpay₂
      simp only [hr, not_false_eq_true, if_true, hold]
      obtain ⟨n, hn⟩ : ∃ n, n = (if size > payload s.mem p then payload s.mem p else size) :=
        ⟨_, rfl⟩
      have hn' : n = min (payload s.mem p) size := by
        rw [hn]
        split <;> omega
      rw [← hn]
      obtain ⟨s₃, hs₃eq, hs₃, he₃, hpay₃⟩ := hs₂.fill (i := 0) (n := n) (l := size)
        (f := fun i => byte s₂.mem (p + i)) hr₂ (by omega) hroom
      have hs₃eq' : (⟨s₂.mem.copyBytes r p n, s₂.heap⟩ : State) = s₃ := hs₃eq.symm
      have hall := he.fill he₃ hr
      have hp₃ : H.Live s₃ R₂ p := (hall.live p).mpr (Or.inl ⟨hp, hp.ne_zero⟩)
      obtain ⟨s₄, R₄, F₄, h₄, hs₄, he₄⟩ := hs₃.rtFree hp₃
      rw [hs₃eq', h₄]
      have hr₃ : H.Live s₃ R₂ r := (hall.live r).mpr (Or.inr ⟨hr, rfl⟩)
      refine ⟨r, s₄, R₄, F₄, rfl, hs₄, Or.inr ⟨hr, hall.release hr hp he₄, fun j hj hj' => ?_⟩⟩
      have hjn : j < n := by omega
      have hkeep₁ : SameBlock s.mem s₂.mem p := he.keep_all hp
      have hkeep₂ : SameBlock s₃.mem s₄.mem r := he₄.keep r hr₃ hpr
      calc byte s₄.mem (r + j) = byte s₃.mem (r + j) :=
            hkeep₂.byte_eq (hs₃.aligned hr₃) (by omega)
        _ = byte s₂.mem (p + j) % 256 := by
            have hsub : r + j - (r + 0) = j := by omega
            have hin : r + 0 ≤ r + j ∧ r + j < r + 0 + n := by omega
            simp only [hs₃eq]
            rw [byte_storeBytes, if_pos hin, hsub]
        _ = byte s₂.mem (p + j) := Nat.mod_eq_of_lt (Nat.mod_lt _ (by decide))
        _ = byte s.mem (p + j) := hkeep₁.byte_eq (hs.aligned hp) hj

/-- `rt_calloc`: the payload is cleared. -/
theorem SetInv.rtCalloc (hs : SetInv H s R F) {count : Nat} (hmul : count * size < 4294967296)
    (hsize : Rounds (count * size)) :
    ∃ r s' R' F', Memheap.rtCalloc H.sys.heap H.objectList count size s = some (r, s') ∧
      SetInv H s' R' F' ∧ Effect H s R s' R' 0 r (count * size) ∧
      (r ≠ 0 → ∀ j, j < count * size → byte s'.mem (r + j) = 0) := by
  have htotal : u32 (count * size) = count * size := Nat.mod_eq_of_lt hmul
  obtain ⟨r, s₁, R₁, F₁, h₁, hs₁, he₁⟩ := hs.rtMalloc hsize
  simp only [Memheap.rtCalloc, htotal, h₁, Option.bind_eq_bind, Option.bind_some]
  by_cases hr : r = 0
  · exact ⟨r, s₁, R₁, F₁, by simp [hr], hs₁, he₁, fun h => absurd hr h⟩
  · have hroom : count * size ≤ payload s₁.mem r := he₁.room hr
    obtain ⟨s₂, rfl, hs₂, he₂, -⟩ := hs₁.fill (i := 0) (n := count * size) (l := count * size)
      (f := fun _ => 0) ((he₁.live r).mpr (Or.inr ⟨hr, rfl⟩)) (by omega) hroom
    refine ⟨r, _, R₁, F₁, by simp only [ne_eq, hr, not_false_eq_true, if_true]; rfl, hs₂,
      he₁.fill he₂ hr, fun _ j hj => ?_⟩
    rw [byte_storeBytes, if_pos (by omega)]

end Calls

end RTThread.Memheap
