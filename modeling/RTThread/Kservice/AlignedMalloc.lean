import RTThread.Lib.Masks

set_option autoImplicit false

/-! # Aligned allocation (`rt_malloc_align`, `rt_free_align`)

The block of `rt_malloc` is larger by the alignment, so that a multiple of the alignment lies in it with
the word in front of it, which keeps the pointer that `rt_free` needs.
-/

namespace RTThread.Ks

/-- A word of the machine, or an address. -/
abbrev Word := BitVec 32

/-- `sizeof(void *)`. -/
def sizeofPtr : Word := 4

/-- `((x + uintptr_size) & ~uintptr_size)`. -/
def alignUintptr (x : Word) : Word :=
  let uintptrSize := sizeofPtr - 1
  (x + uintptrSize) &&& ~~~uintptrSize

/-- `rt_malloc_align`, over the words of the memory; `none` is `RT_NULL`. -/
def rtMallocAlign (rtMalloc : Word → Option Word) (size align : Word) (mem : Word → Word) :
    Option Word × (Word → Word) :=
  -- align the alignment size to uintptr size byte
  let align := alignUintptr align
  -- get total aligned size
  let alignSize := alignUintptr size + align
  match rtMalloc alignSize with
  | none => (none, mem)
  | some ptr =>
      let alignPtr :=
        -- the allocated memory block is aligned
        if ptr &&& (align - 1) = 0 then ptr + align
        else (ptr + (align - 1)) &&& ~~~(align - 1)
      -- set the pointer before alignment pointer to the real pointer
      (some alignPtr, Function.update mem (alignPtr - sizeofPtr) ptr)

/-- `rt_free_align`: the pointer that `rt_free` gets. -/
def rtFreeAlign (ptr : Word) (mem : Word → Word) : Word := mem (ptr - sizeofPtr)

/-- Where the block of the caller lies in the block of the heap. -/
structure Placed (ptr blockSize align size result : Nat) : Prop where
  multiple : align ∣ result
  /-- The word of the pointer is in the block, in front of the result. -/
  hidden : ptr + 4 ≤ result
  payload : result + size ≤ ptr + blockSize

variable {rtMalloc : Word → Option Word} {size align ptr : Word} {k : Nat} {mem : Word → Word}

theorem isMask_three : Masks.IsMask 2 (sizeofPtr - 1) := rfl

theorem toNat_alignUintptr (h : size.toNat + 3 < 4294967296) :
    (alignUintptr size).toNat = (size.toNat + 3) / 4 * 4 := by
  have hadd : (size + (sizeofPtr - 1)).toNat = size.toNat + 3 := by
    rw [BitVec.toNat_add]
    exact Nat.mod_eq_of_lt h
  show ((size + (sizeofPtr - 1)) &&& ~~~(sizeofPtr - 1)).toNat = _
  rw [isMask_three.and_not, hadd]
  rfl

/-- A power of two that is not less than the size of a pointer. -/
theorem four_dvd_pow (hk : 2 ≤ k) : 4 ∣ 2 ^ k := pow_dvd_pow 2 hk

/-- Such an alignment stays as it is. -/
theorem alignUintptr_align (halign : align.toNat = 2 ^ k) (hk : 2 ≤ k) : alignUintptr align = align := by
  obtain ⟨q, hq⟩ := four_dvd_pow hk
  have hlt := align.isLt
  apply BitVec.eq_of_toNat_eq
  rw [toNat_alignUintptr (by omega), halign]
  omega

theorem isMask_align (halign : align.toNat = 2 ^ k) (hk : 2 ≤ k) : Masks.IsMask k (align - 1) := by
  have hpos : 4 ≤ 2 ^ k := Nat.le_of_dvd (Nat.two_pow_pos k) (four_dvd_pow hk)
  show (align - 1).toNat = 2 ^ k - 1
  rw [BitVec.toNat_sub_of_le (by rw [BitVec.le_def, halign]; exact (by decide : 1 ≤ 4).trans hpos),
    halign]
  rfl

/-- The address that the caller gets. -/
theorem placed_alignPtr (halign : align.toNat = 2 ^ k) (hk : 2 ≤ k) (hptr : 4 ∣ ptr.toNat)
    {blockSize : Nat} (hsize : size.toNat + 2 ^ k ≤ blockSize) (hblock : ptr.toNat + blockSize < 4294967296) :
    Placed ptr.toNat blockSize (2 ^ k) size.toNat
      (if ptr &&& (align - 1) = 0 then ptr + align
        else (ptr + (align - 1)) &&& ~~~(align - 1)).toNat := by
  have hmask := isMask_align halign hk
  obtain ⟨q, hq⟩ := four_dvd_pow hk
  have hpos : 0 < 2 ^ k := Nat.two_pow_pos k
  split_ifs with hzero
  · -- the block is aligned: the result is a whole alignment behind it
    have hadd : (ptr + align).toNat = ptr.toNat + 2 ^ k := by
      rw [BitVec.toNat_add, halign]
      exact Nat.mod_eq_of_lt (by omega)
    rw [hadd]
    exact ⟨Nat.dvd_add ((hmask.and_eq_zero ptr).mp hzero) dvd_rfl, by omega, by omega⟩
  · have hmod : ptr.toNat % 2 ^ k ≠ 0 := fun h =>
      hzero ((hmask.and_eq_zero ptr).mpr (Nat.dvd_of_mod_eq_zero h))
    have hadd : (ptr + (align - 1)).toNat = ptr.toNat + (2 ^ k - 1) := by
      rw [BitVec.toNat_add, hmask]
      exact Nat.mod_eq_of_lt (by omega)
    have hle := Nat.div_mul_le_self (ptr.toNat + (2 ^ k - 1)) (2 ^ k)
    have hgt := Nat.lt_div_mul_add hpos (a := ptr.toNat + (2 ^ k - 1))
    have hdvd : 2 ^ k ∣ (ptr.toNat + (2 ^ k - 1)) / 2 ^ k * 2 ^ k := Nat.dvd_mul_left _ _
    rw [hmask.and_not, hadd]
    generalize (ptr.toNat + (2 ^ k - 1)) / 2 ^ k * 2 ^ k = result at hle hgt hdvd ⊢
    have hfour : 4 ∣ result := (four_dvd_pow hk).trans hdvd
    have hne : result ≠ ptr.toNat := fun h => hmod (h ▸ Nat.mod_eq_zero_of_dvd hdvd)
    exact ⟨hdvd, by omega, by omega⟩

theorem rtMallocAlign_none (halign : align.toNat = 2 ^ k) (hk : 2 ≤ k)
    (h : rtMalloc (alignUintptr size + align) = none) (mem : Word → Word) :
    rtMallocAlign rtMalloc size align mem = (none, mem) := by
  unfold rtMallocAlign
  rw [alignUintptr_align halign hk]
  dsimp only
  rw [h]

theorem rtMallocAlign_some (halign : align.toNat = 2 ^ k) (hk : 2 ≤ k)
    (h : rtMalloc (alignUintptr size + align) = some ptr) (hptr : 4 ∣ ptr.toNat) {blockSize : Nat}
    (hsize : size.toNat + 2 ^ k ≤ blockSize) (hblock : ptr.toNat + blockSize < 4294967296)
    (mem : Word → Word) :
    ∃ result, rtMallocAlign rtMalloc size align mem =
        (some result, Function.update mem (result - sizeofPtr) ptr) ∧
      Placed ptr.toNat blockSize (2 ^ k) size.toNat result.toNat := by
  refine ⟨_, ?_, placed_alignPtr halign hk hptr hsize hblock⟩
  unfold rtMallocAlign
  rw [alignUintptr_align halign hk]
  dsimp only
  rw [h]

/-- **Aligned allocation.** The result is a multiple of the alignment and lies in the block with the word
of the pointer in front of it. Freeing it frees the block, whatever the caller has written into its
bytes. -/
theorem malloc_align_free_align (rtMalloc : Word → Option Word) (size align : Word) (k : Nat)
    (mem : Word → Word) (halign : align.toNat = 2 ^ k) (hk : 2 ≤ k)
    (hwrap : (size.toNat + 3) / 4 * 4 + 2 ^ k < 4294967296)
    (hmalloc : ∀ ptr, rtMalloc (alignUintptr size + align) = some ptr →
      4 ∣ ptr.toNat ∧ ptr.toNat + (alignUintptr size + align).toNat < 4294967296) :
    (rtMalloc (alignUintptr size + align) = none →
      rtMallocAlign rtMalloc size align mem = (none, mem)) ∧
    ∀ ptr, rtMalloc (alignUintptr size + align) = some ptr → ∃ result mem',
      rtMallocAlign rtMalloc size align mem = (some result, mem') ∧
      Placed ptr.toNat (alignUintptr size + align).toNat (2 ^ k) size.toNat result.toNat ∧
      (∀ a, a ≠ result - sizeofPtr → mem' a = mem a) ∧
      ∀ mem'', (∀ a, ¬ (result.toNat ≤ a.toNat ∧ a.toNat < result.toNat + size.toNat) →
        mem'' a = mem' a) → rtFreeAlign result mem'' = ptr := by
  have hpos : 4 ≤ 2 ^ k := Nat.le_of_dvd (Nat.two_pow_pos k) (four_dvd_pow hk)
  have hblock : (alignUintptr size + align).toNat = (size.toNat + 3) / 4 * 4 + 2 ^ k := by
    rw [BitVec.toNat_add, toNat_alignUintptr (by omega), halign]
    exact Nat.mod_eq_of_lt hwrap
  refine ⟨fun hnone => rtMallocAlign_none halign hk hnone mem, fun ptr hptr => ?_⟩
  obtain ⟨hfour, hspace⟩ := hmalloc ptr hptr
  obtain ⟨result, hrun, hplaced⟩ := rtMallocAlign_some halign hk hptr hfour
    (by omega : size.toNat + 2 ^ k ≤ (alignUintptr size + align).toNat) hspace mem
  refine ⟨result, _, hrun, hplaced, fun a ha => Function.update_of_ne ha _ _, fun mem'' hmem => ?_⟩
  have hhidden := hplaced.hidden
  have hword : (result - sizeofPtr).toNat = result.toNat - 4 :=
    BitVec.toNat_sub_of_le (by rw [BitVec.le_def]; exact (Nat.le_add_left 4 _).trans hhidden)
  unfold rtFreeAlign
  rw [hmem _ (by rw [hword]; omega), Function.update_self]

/-- A block that is not aligned. -/
theorem malloc_align_free_align_line :
    ∃ result mem', rtMallocAlign (fun _ => some 0x20000014) 100 32 (fun _ => 0) =
        (some result, mem') ∧ 32 ∣ result.toNat ∧ rtFreeAlign result mem' = 0x20000014 := by
  obtain ⟨result, mem', hrun, hplaced, -, hfree⟩ := (malloc_align_free_align
    (fun _ => some 0x20000014) 100 32 5 (fun _ => 0) rfl (by decide) (by decide)
    (fun ptr h => by cases h; decide)).2 0x20000014 rfl
  exact ⟨result, mem', hrun, hplaced.multiple, hfree mem' fun _ _ => rfl⟩

example : (rtMallocAlign (fun _ => some 0x20000040) 100 32 fun _ => 0).1 = some 0x20000060 := by decide

end RTThread.Ks
