import RTThread.Kernel.Model

set_option autoImplicit false

/-! # The bitmaps of the ready queue

`BitsOk k S` says that the bitmaps hold the set of priorities `S`: one word for at most 32
priorities, and otherwise a table of bytes with a word whose bits say which bytes are not zero.
The lemmas are the same for both variants, so nothing after this module distinguishes them.
-/

namespace RTThread.Kernel

open Bitmap

variable [RtConfig]

/-- The number of priorities the bitmaps can hold. -/
def bitmapSize : Nat := if 32 < RtConfig.priorityMax then 256 else 32

theorem priorityMax_le_bitmapSize : RtConfig.priorityMax ≤ bitmapSize := by
  have h := RtConfig.le
  unfold bitmapSize
  split <;> omega

/-- The bitmaps hold the set `S`. -/
def BitsOk (k : Kernel) (S : Nat → Prop) : Prop :=
  if 32 < RtConfig.priorityMax then
    (∀ p < 256, (k.table (p / 8)).getLsbD (p % 8) = true ↔ S p) ∧
      ∀ i < 32, k.group.getLsbD i = true ↔ k.table i ≠ 0#8
  else ∀ p < 32, k.group.getLsbD p = true ↔ S p

/-- The priority attributes of a started thread are those of its priority. -/
def Started (th : Thread) : Prop := setPriority th th.currentPriority = th

/-- The masks of a thread that was never started. -/
def NoMask (th : Thread) : Prop := th.numberMask = 0#32 ∧ th.highMask = 0#8

theorem started_setPriority (th : Thread) (p : Nat) : Started (setPriority th p) := by
  unfold Started setPriority
  split <;> rfl

/-- The priority attributes of a thread. -/
def attrs (th : Thread) : Nat × Nat × Nat × BitVec 32 × BitVec 8 :=
  (th.currentPriority, th.initPriority, th.number, th.numberMask, th.highMask)

theorem started_iff {th : Thread} : Started th ↔
    (32 < RtConfig.priorityMax → th.number = th.currentPriority >>> 3 ∧
      th.numberMask = 1#32 <<< (th.currentPriority >>> 3) ∧
      th.highMask = 1#8 <<< (th.currentPriority &&& 7)) ∧
    (¬ 32 < RtConfig.priorityMax → th.numberMask = 1#32 <<< th.currentPriority) := by
  unfold Started setPriority
  by_cases hN : 32 < RtConfig.priorityMax
  · obtain ⟨⟩ := th
    simp [hN, eq_comm]
  · obtain ⟨⟩ := th
    simp [hN, eq_comm]

theorem Started.of_attrs {th th' : Thread} (h : Started th) (ha : attrs th' = attrs th) :
    Started th' := by
  simp only [attrs, Prod.mk.injEq] at ha
  obtain ⟨h1, -, h2, h3, h4⟩ := ha
  rw [started_iff] at h ⊢
  rwa [h1, h2, h3, h4]

/-- The attributes, as the bitmap functions use them. -/
theorem Started.masks {th : Thread} (h : Started th) :
    (32 < RtConfig.priorityMax → th.number = th.currentPriority / 8 ∧
      th.numberMask = 1#32 <<< (th.currentPriority / 8) ∧
      th.highMask = 1#8 <<< (th.currentPriority % 8)) ∧
    (¬ 32 < RtConfig.priorityMax → th.numberMask = 1#32 <<< th.currentPriority) := by
  have hs : th.currentPriority >>> 3 = th.currentPriority / 8 := Nat.shiftRight_eq_div_pow _ 3
  have ha : th.currentPriority &&& 7 = th.currentPriority % 8 := Nat.and_two_pow_sub_one_eq_mod _ 3
  have h' := started_iff.mp h
  rw [hs, ha] at h'
  exact h'

variable {k : Kernel} {th : Thread} {S S' : Nat → Prop}

theorem BitsOk.congr (h : BitsOk k S) (hS : ∀ p < bitmapSize, (S' p ↔ S p)) : BitsOk k S' := by
  unfold BitsOk at h ⊢
  unfold bitmapSize at hS
  split at h
  · rename_i hN
    rw [if_pos hN] at hS ⊢
    exact ⟨fun p hp => (h.1 p hp).trans (hS p hp).symm, h.2⟩
  · rename_i hN
    rw [if_neg hN] at hS ⊢
    exact fun p hp => (h p hp).trans (hS p hp).symm

/-- The bitmaps depend on nothing else. -/
theorem BitsOk.of_eq {k' : Kernel} (h : BitsOk k S) (hg : k'.group = k.group)
    (ht : k'.table = k.table) : BitsOk k' S := by
  unfold BitsOk at h ⊢
  rwa [hg, ht]

theorem BitsOk.setReadyBit (h : BitsOk k S) (hth : Started th)
    (hp : th.currentPriority < RtConfig.priorityMax) :
    BitsOk (k.setReadyBit th) fun p => p = th.currentPriority ∨ S p := by
  have hle := RtConfig.le
  have hm := hth.masks
  unfold BitsOk at h ⊢
  by_cases hN : 32 < RtConfig.priorityMax
  · obtain ⟨hn, hnm, hhm⟩ := hm.1 hN
    rw [if_pos hN] at h ⊢
    simp only [Kernel.setReadyBit, if_pos hN, hn, hnm, hhm]
    generalize th.currentPriority = c at *
    have hbyte : ∀ i, Function.update k.table (c / 8) (Bitmap.set (k.table (c / 8)) (c % 8)) i =
        if i = c / 8 then Bitmap.set (k.table (c / 8)) (c % 8) else k.table i := fun i => by
      rw [Function.update_apply]
    refine ⟨fun p hp => ?_, fun i hi => ?_⟩
    · change (Function.update k.table (c / 8) (Bitmap.set (k.table (c / 8)) (c % 8)) (p / 8)).getLsbD
        (p % 8) = true ↔ _
      rw [hbyte, ← h.1 p hp]
      split_ifs with he
      · have hsame : p % 8 = c % 8 ↔ p = c := by omega
        rw [getLsbD_set (Nat.mod_lt _ (by omega)), he, ← hsame]
        simp [or_comm]
      · have hne : p ≠ c := fun e => he (by rw [e])
        simp [hne]
    · change (Bitmap.set k.group (c / 8)).getLsbD i = true ↔
        Function.update k.table (c / 8) (Bitmap.set (k.table (c / 8)) (c % 8)) i ≠ 0#8
      rw [hbyte, getLsbD_set (by omega)]
      split_ifs with he
      · have hne : Bitmap.set (k.table (c / 8)) (c % 8) ≠ 0#8 := by
          refine ne_zero_iff.mpr ⟨c % 8, Nat.mod_lt _ (by omega), ?_⟩
          rw [getLsbD_set (Nat.mod_lt _ (by omega))]
          simp
        simp [he, hne]
      · rw [← h.2 i hi]
        simp [he]
  · rw [if_neg hN] at h ⊢
    simp only [Kernel.setReadyBit, if_neg hN, hm.2 hN]
    intro p hp32
    change (Bitmap.set k.group th.currentPriority).getLsbD p = true ↔ _
    rw [getLsbD_set (by omega), ← h p hp32]
    simp [or_comm]

theorem BitsOk.clearReadyBit (h : BitsOk k S) (hth : Started th)
    (hp : th.currentPriority < RtConfig.priorityMax) :
    BitsOk (k.clearReadyBit th) fun p => p ≠ th.currentPriority ∧ S p := by
  have hle := RtConfig.le
  have hm := hth.masks
  unfold BitsOk at h ⊢
  by_cases hN : 32 < RtConfig.priorityMax
  · obtain ⟨hn, hnm, hhm⟩ := hm.1 hN
    rw [if_pos hN] at h ⊢
    simp only [Kernel.clearReadyBit, if_pos hN, hn, hnm, hhm]
    generalize th.currentPriority = c at *
    have hbyte : ∀ i, Function.update k.table (c / 8) (Bitmap.clear (k.table (c / 8)) (c % 8)) i =
        if i = c / 8 then Bitmap.clear (k.table (c / 8)) (c % 8) else k.table i := fun i => by
      rw [Function.update_apply]
    have htable : ∀ p < 256, (Function.update k.table (c / 8)
        (Bitmap.clear (k.table (c / 8)) (c % 8)) (p / 8)).getLsbD (p % 8) = true ↔
        p ≠ c ∧ S p := by
      intro p hp
      rw [hbyte, ← h.1 p hp]
      split_ifs with he
      · have hsame : p % 8 = c % 8 ↔ p = c := by omega
        rw [getLsbD_clear (Nat.mod_lt _ (by omega)), he]
        simp [hsame, and_comm]
      · have hne : p ≠ c := fun e => he (by rw [e])
        simp [hne]
    change (∀ p < 256, _) ∧ (∀ i < 32, _)
    by_cases hz : Function.update k.table (c / 8) (k.table (c / 8) &&& ~~~(1#8 <<< (c % 8)))
        (c / 8) = 0
    · rw [if_pos hz]
      refine ⟨htable, fun i hi => ?_⟩
      change (Bitmap.clear k.group (c / 8)).getLsbD i = true ↔
        Function.update k.table (c / 8) (Bitmap.clear (k.table (c / 8)) (c % 8)) i ≠ 0#8
      rw [Function.update_self] at hz
      rw [hbyte, getLsbD_clear (by omega)]
      split_ifs with he
      · have hz' : Bitmap.clear (k.table (c / 8)) (c % 8) = 0#8 := hz
        simp [he, hz']
      · rw [← h.2 i hi]
        simp [he]
    · rw [if_neg hz]
      refine ⟨htable, fun i hi => ?_⟩
      change k.group.getLsbD i = true ↔
        Function.update k.table (c / 8) (Bitmap.clear (k.table (c / 8)) (c % 8)) i ≠ 0#8
      rw [Function.update_self] at hz
      rw [hbyte]
      split_ifs with he
      · -- a byte that is not zero after the clearing was not zero before
        have hz' : Bitmap.clear (k.table (c / 8)) (c % 8) ≠ 0#8 := hz
        obtain ⟨j, hj, hb⟩ := ne_zero_iff.mp hz'
        rw [getLsbD_clear (Nat.mod_lt _ (by omega)), Bool.and_eq_true] at hb
        have hnz : k.table i ≠ 0#8 := he ▸ ne_zero_iff.mpr ⟨j, hj, hb.1⟩
        exact iff_of_true ((h.2 i hi).mpr hnz) hz'
      · exact h.2 i hi
  · rw [if_neg hN] at h ⊢
    simp only [Kernel.clearReadyBit, if_neg hN, hm.2 hN]
    intro p hp32
    change (Bitmap.clear k.group th.currentPriority).getLsbD p = true ↔ _
    rw [getLsbD_clear (by omega), ← h p hp32]
    simp [and_comm]

/-- Clearing the mask of a thread that was never started changes nothing. -/
theorem clearReadyBit_noMask (h : NoMask th) : k.clearReadyBit th = k := by
  have h32 : ∀ v : BitVec 32, v &&& ~~~0#32 = v := fun v => by
    rw [BitVec.not_zero, BitVec.and_allOnes]
  have h8 : ∀ v : BitVec 8, v &&& ~~~0#8 = v := fun v => by
    rw [BitVec.not_zero, BitVec.and_allOnes]
  unfold Kernel.clearReadyBit
  rw [h.1, h.2]
  simp only [h32, h8, Function.update_eq_self, ite_self]

/-- The group word is zero exactly when the set is empty. -/
theorem BitsOk.group_ne_zero (h : BitsOk k S) : k.group ≠ 0 ↔ ∃ p < bitmapSize, S p := by
  have hz : k.group ≠ 0 ↔ ∃ i < 32, k.group.getLsbD i = true := ne_zero_iff
  rw [hz]
  unfold BitsOk at h
  unfold bitmapSize
  split at h
  · rename_i hN
    rw [if_pos hN]
    constructor
    · rintro ⟨i, hi, hb⟩
      obtain ⟨j, hj, hb'⟩ := ne_zero_iff.mp ((h.2 i hi).mp hb)
      have h1 : (i * 8 + j) / 8 = i := by omega
      have h2 : (i * 8 + j) % 8 = j := by omega
      refine ⟨i * 8 + j, by omega, (h.1 _ (by omega)).mp ?_⟩
      rwa [h1, h2]
    · rintro ⟨p, hp, hS⟩
      refine ⟨p / 8, by omega, (h.2 _ (by omega)).mpr (ne_zero_iff.mpr ⟨p % 8, by omega, ?_⟩)⟩
      exact (h.1 p hp).mpr hS
  · rename_i hN
    rw [if_neg hN]
    exact exists_congr fun p => and_congr_right fun hp => h p hp

/-- The priority computed by `_get_highest_priority_thread`. -/
def highestReadyPriority (k : Kernel) : Nat :=
  if 32 < RtConfig.priorityMax then
    ((ffs k.group - 1) <<< 3) + ffs (k.table (ffs k.group - 1)) - 1
  else ffs k.group - 1

theorem getHighestPriorityThread_eq :
    k.getHighestPriorityThread = (k.lists (.ready k.highestReadyPriority)).head?.map
      (·, k.highestReadyPriority) := by
  unfold getHighestPriorityThread highestReadyPriority
  dsimp only
  split <;> simp_all

/-- It is the least member of the set. -/
theorem BitsOk.highest (h : BitsOk k S) (hne : k.group ≠ 0) :
    k.highestReadyPriority < bitmapSize ∧ S k.highestReadyPriority ∧
      ∀ p < bitmapSize, S p → k.highestReadyPriority ≤ p := by
  obtain ⟨n, hn⟩ := exists_ffs hne
  obtain ⟨hn32, hnb, hnmin⟩ := ffs_eq_iff.mp hn
  unfold BitsOk at h
  unfold highestReadyPriority bitmapSize
  split at h
  · rename_i hN
    obtain ⟨m, hm⟩ := exists_ffs ((h.2 n hn32).mp hnb)
    obtain ⟨hm8, hmb, hmmin⟩ := ffs_eq_iff.mp hm
    have hval : (n <<< 3) + (m + 1) - 1 = n * 8 + m := by
      rw [Nat.shiftLeft_eq]
      omega
    have h1 : (n * 8 + m) / 8 = n := by omega
    have h2 : (n * 8 + m) % 8 = m := by omega
    simp only [if_pos hN, hn, Nat.add_sub_cancel, hm, hval]
    refine ⟨by omega, (h.1 _ (by omega)).mp (by rwa [h1, h2]), fun p hp hS => ?_⟩
    -- a smaller priority lies in an earlier byte, or earlier in the same byte
    by_contra hlt
    have hb := (h.1 p hp).mpr hS
    by_cases he : p / 8 = n
    · have h3 := hmmin (p % 8) (by omega)
      rw [he, h3] at hb
      contradiction
    · have h3 := hnmin (p / 8) (by omega)
      have h4 := (h.2 (p / 8) (by omega)).mpr (ne_zero_iff.mpr ⟨p % 8, by omega, hb⟩)
      rw [h3] at h4
      contradiction
  · rename_i hN
    simp only [if_neg hN, hn, Nat.add_sub_cancel]
    refine ⟨hn32, (h n hn32).mp hnb, fun p hp hS => ?_⟩
    by_contra hlt
    have h3 := hnmin p (by omega)
    rw [(h p hp).mpr hS] at h3
    contradiction

end RTThread.Kernel
