import RTThread.Lib.Sll
import RTThread.Mempool.Model

set_option autoImplicit false

/-! # Blocks of a pool are neither lost nor given twice

Each block of a pool is in the free list or was handed out once. A thread waits only while the threads
that `rt_mp_free` has resumed, and that have not looked again, are as many as the free blocks: a free
block is accounted for by one of these threads, unless another thread takes it first.
-/

namespace RTThread.Mp

open Sll (Linked)
open scoped List
open Memheap (u32 rtAlign rtAlignDown)

/-! ## The free list in the memory -/

/-- The words in front of the blocks of a pool. -/
def Mempool.blocks (mp : Mempool) : List Nat :=
  (List.range mp.blockTotalCount).map fun k => mp.startAddress + k * stride mp.blockSize

variable {mem : Mem} {a p v : Nat} {l : List Nat} {mp : Mempool}

/-- The first blocks of the loop point to their successors. -/
theorem foldl_links (start d n : Nat) (hd : 0 < d) (mem : Mem) {k : Nat} (hk : k < n) :
    (List.range n).foldl (fun mem offset =>
      Function.update mem (start + offset * d) (start + (offset + 1) * d)) mem (start + k * d) =
        start + (k + 1) * d := by
  induction n with
  | zero => exact absurd hk (Nat.not_lt_zero k)
  | succ n ih =>
      rw [List.range_succ, List.foldl_append, List.foldl_cons, List.foldl_nil]
      by_cases he : k = n
      · rw [he, Function.update_self]
      · have hne : start + k * d ≠ start + n * d := by
          intro hc
          exact he (Nat.eq_of_mul_eq_mul_right hd (Nat.add_left_cancel hc))
        rw [Function.update_of_ne hne]
        exact ih (by omega)

/-- Blocks at equal distances, each linked to the next one and the last to none. -/
theorem linked_range (mem : Mem) {start d : Nat} (hstart : start ≠ 0) (n k : Nat)
    (hnext : ∀ i, k ≤ i → i < k + n → mem (start + i * d) = start + (i + 1) * d)
    (hlast : mem (start + (k + n) * d) = 0) :
    Linked mem (start + k * d) ((List.range' k (n + 1)).map fun i => start + i * d) := by
  have hne : start + k * d ≠ 0 := by omega
  induction n generalizing k with
  | zero =>
      refine Linked.cons ?_ hne
      rw [Nat.add_zero] at hlast
      rw [hlast]
      rfl
  | succ n ih =>
      refine Linked.cons ?_ hne
      rw [hnext k le_rfl (by omega)]
      exact ih (k + 1) (fun i h₁ h₂ => hnext i (by omega) (by omega))
        (by rw [show k + 1 + n = k + (n + 1) by omega]; exact hlast) (by omega)

theorem linked_initBlockList {start d total : Nat} (hstart : start ≠ 0) (hd : 0 < d)
    (htotal : 1 ≤ total) (mem : Mem) : Linked (initBlockList start d total mem) start
      ((List.range total).map fun k => start + k * d) := by
  obtain ⟨n, rfl⟩ : ∃ n, total = n + 1 := ⟨total - 1, by omega⟩
  have h₁ := linked_range (d := d) (initBlockList start d (n + 1) mem) hstart n 0 ?_ ?_
  · rw [Nat.zero_mul, Nat.add_zero] at h₁
    rw [List.range_eq_range']
    exact h₁
  · intro i _ hi
    have hne : start + i * d ≠ start + (n + 1 - 1) * d := by
      intro hc
      have h₂ := Nat.eq_of_mul_eq_mul_right hd (Nat.add_left_cancel hc)
      omega
    unfold initBlockList
    rw [Function.update_of_ne hne]
    exact foldl_links start d (n + 1) hd mem (by omega)
  · unfold initBlockList
    rw [Nat.zero_add, Nat.add_sub_cancel]
    exact Function.update_self _ _ _

/-! ## The places of the blocks -/

/-- The blocks lie one behind the other. -/
structure Laid (mp : Mempool) : Prop where
  start_ne : mp.startAddress ≠ 0
  stride_eq : stride mp.blockSize = mp.blockSize + 4

namespace Laid

variable (h : Laid mp)

include h

theorem nodup : mp.blocks.Nodup := by
  refine List.Nodup.map (fun i j hij => ?_) List.nodup_range
  have h₁ : 0 < stride mp.blockSize := by
    rw [h.stride_eq]
    omega
  exact Nat.eq_of_mul_eq_mul_right h₁ (Nat.add_left_cancel hij)

theorem ne_zero (hp : p ∈ mp.blocks) : p ≠ 0 := by
  obtain ⟨k, -, rfl⟩ := List.mem_map.mp hp
  have h₁ := h.start_ne
  omega

/-- The bytes of a block are no link. -/
theorem payload_ne {q i : Nat} (hp : p ∈ mp.blocks) (hq : q ∈ mp.blocks) (hi : i < mp.blockSize) :
    p + 4 + i ≠ q := by
  obtain ⟨j, -, rfl⟩ := List.mem_map.mp hp
  obtain ⟨k, -, rfl⟩ := List.mem_map.mp hq
  have h₁ := h.stride_eq
  rcases Nat.lt_or_ge j k with hjk | hjk
  · have h₂ : (j + 1) * stride mp.blockSize ≤ k * stride mp.blockSize := Nat.mul_le_mul_right _ hjk
    rw [Nat.add_mul, Nat.one_mul] at h₂
    omega
  · have h₂ : k * stride mp.blockSize ≤ j * stride mp.blockSize := Nat.mul_le_mul_right _ hjk
    omega

end Laid

/-! ## The invariant -/

/-- What is to hold of the blocks and of the waiting threads. -/
structure MpSys.Conserved (s : MpSys) : Prop where
  /-- The free list has as many blocks as are counted, and with those handed out it is all blocks. -/
  blocks : ∃ l, Linked s.mem s.mp.blockList l ∧ s.mp.blockFreeCount = l.length ∧
    (l.map (· + 4) ++ s.handed.map Prod.fst).Perm (s.mp.blocks.map (· + 4))
  /-- No block is there twice. -/
  once : (s.mp.blocks.map (· + 4)).Nodup
  resumed_nodup : s.resumed.Nodup
  /-- As long as a thread waits, the free blocks are no more than the threads on their way. -/
  wakes : s.mp.suspendThread ≠ [] → s.mp.blockFreeCount ≤ s.resumed.length

/-- The invariant. -/
structure MpSys.Inv (s : MpSys) : Prop where
  laid : Laid s.mp
  blocks : ∃ l, Linked s.mem s.mp.blockList l ∧ s.mp.blockFreeCount = l.length ∧
    (l.map (· + 4) ++ s.handed.map Prod.fst).Perm (s.mp.blocks.map (· + 4))
  /-- The word in front of an allocated block points to the pool. -/
  owner : ∀ b ∈ s.handed.map Prod.fst, s.mem (b - 4) = s.addr
  suspended : s.mp.suspendThread.Nodup ∧ ∀ t ∈ s.mp.suspendThread, ∃ time, s.pc t = .wait time
  resumed : s.resumed.Nodup ∧ ∀ t ∈ s.resumed,
    (∃ time, s.pc t = .wait time) ∧ t ∉ s.mp.suspendThread ∧ s.error t = .ok
  wakes : s.mp.suspendThread ≠ [] → s.mp.blockFreeCount ≤ s.resumed.length

variable {s s' : MpSys} {t u : ThreadId} {x : MpSection} {time : Int} {block : Nat}

namespace MpSys.Inv

theorem once (h : s.Inv) : (s.mp.blocks.map (· + 4)).Nodup :=
  h.laid.nodup.map fun _ _ hpq => Nat.add_right_cancel hpq

theorem conserved (h : s.Inv) : s.Conserved :=
  ⟨h.blocks, h.once, h.resumed.1, h.wakes⟩

/-- A thread that is at no waiting place was not resumed. -/
theorem not_resumed (h : s.Inv) (ht : ∀ time, s.pc t ≠ .wait time) : t ∉ s.resumed := by
  intro hm
  obtain ⟨⟨time, hpc⟩, -⟩ := h.resumed.2 t hm
  exact ht time hpc

/-- The block that is handed out, and the rest of the free list. -/
theorem take (h : s.Inv) (hfree : s.mp.blockFreeCount ≠ 0) :
    s.mp.blockList ≠ 0 ∧ ∃ l, Linked s.mem (s.mem s.mp.blockList) l ∧
      s.mp.blockFreeCount = l.length + 1 ∧ s.mp.blockList ∉ l ∧
      s.mp.blockList ∈ s.mp.blocks ∧ s.mp.blockList + 4 ∉ s.handed.map Prod.fst ∧
      ((s.mp.blockList + 4) :: (l.map (· + 4) ++ s.handed.map Prod.fst)).Perm
        (s.mp.blocks.map (· + 4)) := by
  obtain ⟨l, hl, hcount, hperm⟩ := h.blocks
  have hne : l ≠ [] := by
    rintro rfl
    exact hfree hcount
  have h0 := hl.head_ne hne
  obtain ⟨l', rfl, hl'⟩ := hl.pop h0
  have hnd := hperm.nodup_iff.mpr h.once
  rw [List.map_cons, List.cons_append] at hperm hnd
  obtain ⟨hnot, -⟩ := List.nodup_cons.mp hnd
  refine ⟨h0, l', hl', hcount, fun hm => hnot ?_, ?_, fun hm => hnot ?_, hperm⟩
  · exact List.mem_append_left _ (List.mem_map_of_mem hm)
  · obtain ⟨p, hp, hpa⟩ := List.mem_map.mp (hperm.subset List.mem_cons_self)
    rwa [← Nat.add_right_cancel hpa]
  · exact List.mem_append_right _ hm

/-- **A section of `rt_mp_alloc`**: its assertion does not fail, and it keeps the invariant. -/
theorem alloc (h : s.Inv) (ht : t ∉ s.mp.suspendThread) (time : Int) :
    ∃ x, rtMpAlloc s.addr s.mem s.mp t time = some x ∧ (s.after t x).Inv := by
  unfold rtMpAlloc
  by_cases hfree : s.mp.blockFreeCount = 0
  · rw [if_pos hfree]
    have hother : ∀ u ∈ s.resumed.erase t, u ∈ s.resumed ∧ u ≠ t := fun u hu =>
      (h.resumed.1.mem_erase_iff.mp hu).symm
    by_cases h0 : time = 0
    · rw [if_pos h0]
      refine ⟨_, rfl, h.laid, h.blocks, h.owner, ⟨h.suspended.1, fun u hu => ?_⟩,
        ⟨h.resumed.1.erase t, fun u hu => ?_⟩, fun _ => hfree.le.trans (Nat.zero_le _)⟩
      · obtain ⟨time, hpc⟩ := h.suspended.2 u hu
        exact ⟨time, (Function.update_of_ne (fun he : u = t => ht (he ▸ hu)) _ _).trans hpc⟩
      · obtain ⟨hu, hut⟩ := hother u hu
        obtain ⟨⟨time, hpc⟩, hsusp, herr⟩ := h.resumed.2 u hu
        exact ⟨⟨time, (Function.update_of_ne hut _ _).trans hpc⟩, hsusp, herr⟩
    · rw [if_neg h0]
      refine ⟨_, rfl, ⟨h.laid.start_ne, h.laid.stride_eq⟩, h.blocks, h.owner,
        ⟨List.nodup_cons.mpr ⟨ht, h.suspended.1⟩, fun u hu => ?_⟩,
        ⟨h.resumed.1.erase t, fun u hu => ?_⟩, fun _ => hfree.le.trans (Nat.zero_le _)⟩
      · by_cases hut : u = t
        · subst hut
          exact ⟨time, Function.update_self _ _ _⟩
        · obtain ⟨time, hpc⟩ := h.suspended.2 u ((List.mem_cons.mp hu).resolve_left hut)
          exact ⟨time, (Function.update_of_ne hut _ _).trans hpc⟩
      · obtain ⟨hu, hut⟩ := hother u hu
        obtain ⟨⟨time, hpc⟩, hsusp, herr⟩ := h.resumed.2 u hu
        refine ⟨⟨time, (Function.update_of_ne hut _ _).trans hpc⟩, fun hm => ?_, ?_⟩
        · exact hsusp ((List.mem_cons.mp hm).resolve_left hut)
        · exact (Function.update_of_ne hut _ _).trans herr
  · rw [if_neg hfree]
    obtain ⟨h0, l, hl, hcount, hnl, hmem, hnh, hperm⟩ := h.take hfree
    rw [if_neg h0]
    refine ⟨_, rfl, ⟨h.laid.start_ne, h.laid.stride_eq⟩, ⟨l, hl.update hnl, ?_, ?_⟩, ?_,
      ⟨h.suspended.1, fun u hu => ?_⟩, ⟨h.resumed.1.erase t, fun u hu => ?_⟩, fun hs => ?_⟩
    · show s.mp.blockFreeCount - 1 = l.length
      omega
    · show (l.map (· + 4) ++ (s.mp.blockList + 4) :: s.handed.map Prod.fst).Perm _
      exact List.perm_middle.trans hperm
    · show ∀ b ∈ (s.mp.blockList + 4) :: s.handed.map Prod.fst,
        Function.update s.mem s.mp.blockList s.addr (b - 4) = s.addr
      intro b hb
      rcases List.mem_cons.mp hb with rfl | hb
      · exact Function.update_self _ _ _
      · by_cases hbp : b - 4 = s.mp.blockList
        · rw [hbp]
          exact Function.update_self _ _ _
        · exact (Function.update_of_ne hbp _ _).trans (h.owner b hb)
    · obtain ⟨time, hpc⟩ := h.suspended.2 u hu
      exact ⟨time, (Function.update_of_ne (fun he : u = t => ht (he ▸ hu)) _ _).trans hpc⟩
    · obtain ⟨hut, hu⟩ := h.resumed.1.mem_erase_iff.mp hu
      obtain ⟨⟨time, hpc⟩, hsusp, herr⟩ := h.resumed.2 u hu
      exact ⟨⟨time, (Function.update_of_ne hut _ _).trans hpc⟩, hsusp, herr⟩
    · -- one thread less is on its way, and one block less is free
      have h₁ := h.wakes hs
      show s.mp.blockFreeCount - 1 ≤ (s.resumed.erase t).length
      by_cases hm : t ∈ s.resumed
      · rw [List.length_erase_of_mem hm]
        omega
      · rw [List.erase_of_not_mem hm]
        omega

/-- A block that was handed out is the word in front of it, and four. -/
theorem exists_block (h : s.Inv) (hb : block ∈ s.handed.map Prod.fst) :
    ∃ p ∈ s.mp.blocks, block = p + 4 := by
  obtain ⟨l, -, -, hperm⟩ := h.blocks
  obtain ⟨p, hp, he⟩ := List.mem_map.mp (hperm.subset (List.mem_append_right _ hb))
  exact ⟨p, hp, he.symm⟩

theorem map_fst_giveBack (handed : List (Nat × ThreadId)) (block : Nat) :
    (giveBack handed block).map Prod.fst = (handed.map Prod.fst).erase block := by
  rw [giveBack, List.erase_eq_eraseP, List.eraseP_map]
  congr 2
  funext h
  exact decide_eq_decide.mpr eq_comm

/-- The blocks after one was given back. -/
theorem give (h : s.Inv) (hb : block ∈ s.handed.map Prod.fst) :
    block - 4 ≠ 0 ∧ s.mem (block - 4) = s.addr ∧
      (∃ l, Linked (Function.update s.mem (block - 4) s.mp.blockList) (block - 4) l ∧
        s.mp.blockFreeCount + 1 = l.length ∧
        (l.map (· + 4) ++ (giveBack s.handed block).map Prod.fst).Perm
          (s.mp.blocks.map (· + 4))) ∧
      ∀ b ∈ (giveBack s.handed block).map Prod.fst,
        Function.update s.mem (block - 4) s.mp.blockList (b - 4) = s.addr := by
  obtain ⟨p, hp, rfl⟩ := h.exists_block hb
  obtain ⟨l, hl, hcount, hperm⟩ := h.blocks
  have hnd := hperm.nodup_iff.mpr h.once
  have hnl : p ∉ l := fun hm =>
    (List.nodup_append.mp hnd).2.2 _ (List.mem_map_of_mem (f := (· + 4)) hm) _ hb rfl
  have hhnd := (List.nodup_append.mp hnd).2.1
  rw [Nat.add_sub_cancel, map_fst_giveBack]
  refine ⟨h.laid.ne_zero hp, h.owner _ hb, ⟨p :: l, hl.push hnl (h.laid.ne_zero hp), ?_, ?_⟩,
    fun b hb' => ?_⟩
  · rw [List.length_cons, hcount]
  · calc (p :: l).map (· + 4) ++ (s.handed.map Prod.fst).erase (p + 4)
      _ = (p + 4) :: (l.map (· + 4) ++ (s.handed.map Prod.fst).erase (p + 4)) := rfl
      _ ~ l.map (· + 4) ++ (p + 4) :: (s.handed.map Prod.fst).erase (p + 4) :=
          List.perm_middle.symm
      _ ~ l.map (· + 4) ++ s.handed.map Prod.fst := (List.perm_cons_erase hb).symm.append_left _
      _ ~ s.mp.blocks.map (· + 4) := hperm
  · obtain ⟨hne, hb'⟩ := hhnd.mem_erase_iff.mp hb'
    obtain ⟨q, -, rfl⟩ := h.exists_block hb'
    rw [Nat.add_sub_cancel, Function.update_of_ne (fun he : q = p => hne (by rw [he]))]
    have h₁ := h.owner _ hb'
    rwa [Nat.add_sub_cancel] at h₁

/-- **`rt_mp_free`** of a block that was handed out finds its pool, and keeps the invariant. -/
theorem free (h : s.Inv) (hb : block ∈ s.handed.map Prod.fst) :
    ∃ r, rtMpFree s.addr s.mem s.mp block = some r ∧ (s.afterFree block r).Inv := by
  obtain ⟨h0, hown, hblocks, howner⟩ := h.give hb
  have hb0 : block ≠ 0 := by omega
  refine ⟨_, by rw [rtMpFree, if_neg hb0, if_neg (not_not.mpr hown)], ?_⟩
  cases hs : s.mp.suspendThread with
  | nil =>
      refine ⟨⟨h.laid.start_ne, h.laid.stride_eq⟩, hblocks, howner,
        ⟨List.nodup_nil, fun t ht => absurd ht List.not_mem_nil⟩,
        ⟨h.resumed.1, fun t ht => ?_⟩, fun hne => absurd rfl hne⟩
      obtain ⟨hpc, -, herr⟩ := h.resumed.2 t ht
      exact ⟨hpc, List.not_mem_nil, herr⟩
  | cons u l =>
      obtain ⟨hnd, hsusp⟩ := h.suspended
      rw [hs] at hnd hsusp
      obtain ⟨hul, hnd'⟩ := List.nodup_cons.mp hnd
      have hu : u ∉ s.resumed := fun hm => (h.resumed.2 u hm).2.1 (by rw [hs]; simp)
      refine ⟨⟨h.laid.start_ne, h.laid.stride_eq⟩, hblocks, howner,
        ⟨hnd', fun t ht => hsusp t (List.mem_cons_of_mem _ ht)⟩,
        ⟨List.nodup_cons.mpr ⟨hu, h.resumed.1⟩, fun t ht => ?_⟩, fun _ => ?_⟩
      · show _ ∧ t ∉ l ∧ Function.update s.error u .ok t = .ok
        by_cases htu : t = u
        · subst htu
          exact ⟨hsusp t List.mem_cons_self, hul, Function.update_self _ _ _⟩
        · obtain ⟨hpc, hns, herr⟩ := h.resumed.2 t ((List.mem_cons.mp ht).resolve_left htu)
          rw [hs] at hns
          refine ⟨hpc, fun hm => hns (List.mem_cons_of_mem _ hm), ?_⟩
          rw [Function.update_of_ne htu]
          exact herr
      · -- the thread that is resumed accounts for the block
        have h₁ := h.wakes (by rw [hs]; simp)
        show s.mp.blockFreeCount + 1 ≤ (u :: s.resumed).length
        rw [List.length_cons]
        omega

/-- A thread that is not at a waiting place moves to another such place. -/
theorem move (h : s.Inv) {p : MpPc} (ht : t ∉ s.mp.suspendThread) (ht' : t ∉ s.resumed) :
    MpSys.Inv { s with pc := Function.update s.pc t p } := by
  refine ⟨h.laid, h.blocks, h.owner, ⟨h.suspended.1, fun u hu => ?_⟩,
    ⟨h.resumed.1, fun u hu => ?_⟩, h.wakes⟩
  · obtain ⟨time, hpc⟩ := h.suspended.2 u hu
    exact ⟨time, (Function.update_of_ne (fun he : u = t => ht (he ▸ hu)) _ _).trans hpc⟩
  · obtain ⟨⟨time, hpc⟩, hrest⟩ := h.resumed.2 u hu
    exact ⟨⟨time, (Function.update_of_ne (fun he : u = t => ht' (he ▸ hu)) _ _).trans hpc⟩, hrest⟩

theorem not_suspended (h : s.Inv) (ht : ∀ time, s.pc t ≠ .wait time) :
    t ∉ s.mp.suspendThread := by
  intro hm
  obtain ⟨time, hpc⟩ := h.suspended.2 t hm
  exact ht time hpc

theorem wake (h : s.Inv) (ht : t ∈ s.mp.suspendThread) (e : Err) :
    MpSys.Inv { s with
      mp := { s.mp with suspendThread := s.mp.suspendThread.erase t }
      error := Function.update s.error t e } := by
  refine ⟨⟨h.laid.start_ne, h.laid.stride_eq⟩, h.blocks, h.owner,
    ⟨h.suspended.1.erase t, fun u hu => h.suspended.2 u (List.mem_of_mem_erase hu)⟩,
    ⟨h.resumed.1, fun u hu => ?_⟩, fun hs => h.wakes fun hnil => hs ?_⟩
  · obtain ⟨hpc, hns, herr⟩ := h.resumed.2 u hu
    refine ⟨hpc, fun hm => hns (List.mem_of_mem_erase hm), ?_⟩
    exact (Function.update_of_ne (fun he : u = t => hns (he ▸ ht)) _ _).trans herr
  · show s.mp.suspendThread.erase t = []
    rw [hnil]
    rfl

/-- A word is stored in a block that was handed out. -/
theorem store (h : s.Inv) (hb : block ∈ s.handed.map Prod.fst) {i : Nat} (hi : i < s.mp.blockSize)
    (v : Nat) : MpSys.Inv { s with mem := Function.update s.mem (block + i) v } := by
  obtain ⟨p, hp, rfl⟩ := h.exists_block hb
  obtain ⟨l, hl, hcount, hperm⟩ := h.blocks
  refine ⟨h.laid, ⟨l, hl.update fun hm => ?_, hcount, hperm⟩, fun b hb' => ?_, h.suspended,
    h.resumed, h.wakes⟩
  · obtain ⟨q, hq, he⟩ := List.mem_map.mp
      (hperm.subset (List.mem_append_left _ (List.mem_map_of_mem (f := (· + 4)) hm)))
    exact h.laid.payload_ne hp hq hi (Nat.add_right_cancel he).symm
  · obtain ⟨q, hq, rfl⟩ := h.exists_block hb'
    have h₁ := h.owner _ hb'
    rw [Nat.add_sub_cancel] at h₁ ⊢
    exact (Function.update_of_ne (h.laid.payload_ne hp hq hi).symm _ _).trans h₁

/-- **Every step keeps the invariant.** -/
theorem step (h : s.Inv) {a : MpAction} (he : s.exec a = some s') : s'.Inv := by
  cases a with
  | alloc t time =>
      simp only [MpSys.exec] at he
      split at he
      · rename_i hpc
        obtain ⟨x, hx, hinv⟩ := h.alloc (h.not_suspended fun time => by rw [hpc]; simp) time
        rw [hx, Option.map_some] at he
        exact Option.some.inj he ▸ hinv
      · cases he
  | again t delta =>
      simp only [MpSys.exec] at he
      split at he
      · split_ifs at he with hs herr
        · cases he
          exact h.move hs fun hm => herr (h.resumed.2 t hm).2.2
        · obtain ⟨x, hx, hinv⟩ := h.alloc hs (Ipc.remaining _ delta)
          rw [hx, Option.map_some] at he
          exact Option.some.inj he ▸ hinv
      · cases he
  | free t block =>
      simp only [MpSys.exec] at he
      split at he
      · split_ifs at he with hb
        by_cases h0 : block = 0
        · -- nothing is freed
          have hnone : giveBack s.handed block = s.handed := by
            refine List.eraseP_of_forall_not fun x hx => ?_
            obtain ⟨p, -, hp⟩ := h.exists_block (List.mem_map_of_mem hx)
            simp only [decide_eq_true_eq]
            omega
          rw [rtMpFree, if_pos h0, Option.map_some, MpSys.afterFree, hnone] at he
          cases he
          exact h
        · obtain ⟨r, hr, hinv⟩ := h.free (hb.resolve_left h0)
          rw [hr, Option.map_some] at he
          exact Option.some.inj he ▸ hinv
      · cases he
  | ret t =>
      simp only [MpSys.exec] at he
      split at he
      · rename_i hpc
        cases he
        exact h.move (h.not_suspended fun time => by rw [hpc]; simp)
          (h.not_resumed fun time => by rw [hpc]; simp)
      · cases he
  | wake t e =>
      simp only [MpSys.exec] at he
      split_ifs at he with ht
      cases he
      exact h.wake ht e
  | store block i v =>
      simp only [MpSys.exec] at he
      split_ifs at he with hb
      cases he
      exact h.store hb.1 hb.2 v

end MpSys.Inv

/-! ## A new pool -/

/-- A stride in which a pool has a block is no smaller than the size of a block. -/
theorem stride_rtAlign (blockSize : Nat) (h : stride (rtAlign blockSize) ≠ 0) :
    stride (rtAlign blockSize) = rtAlign blockSize + 4 := by
  have h₁ : u32 (blockSize + 3) < 4294967296 := Nat.mod_lt _ (by decide)
  unfold stride rtAlign at *
  simp only [u32, Memheap.RT_ALIGN_SIZE] at *
  omega

/-- The invariant holds of a pool whose blocks are linked, before a call. -/
theorem MpSys.inv_of_linked (htotal : 1 ≤ s.mp.blockTotalCount) (hlaid : Laid s.mp)
    (hmem : ∃ mem, s.mem = initBlockList s.mp.startAddress (stride s.mp.blockSize)
      s.mp.blockTotalCount mem)
    (hlist : s.mp.blockList = s.mp.startAddress) (hfree : s.mp.blockFreeCount = s.mp.blockTotalCount)
    (hsusp : s.mp.suspendThread = []) (hhanded : s.handed = []) (hres : s.resumed = []) :
    s.Inv := by
  obtain ⟨mem, hmem⟩ := hmem
  have hd : 0 < stride s.mp.blockSize := by
    rw [hlaid.stride_eq]
    omega
  constructor
  · exact hlaid
  · refine ⟨s.mp.blocks, ?_, ?_, ?_⟩
    · rw [hmem, hlist]
      exact linked_initBlockList hlaid.start_ne hd htotal mem
    · rw [hfree, Mempool.blocks, List.length_map, List.length_range]
    · rw [hhanded, List.map_nil, List.append_nil]
  · rw [hhanded]
    intro b hb
    cases hb
  · rw [hsusp]
    exact ⟨List.nodup_nil, fun t ht => absurd ht List.not_mem_nil⟩
  · rw [hres]
    exact ⟨List.nodup_nil, fun t ht => absurd ht List.not_mem_nil⟩
  · intro h
    exact absurd hsusp h

theorem MpSys.Inv.init (h : s.Init) : s.Inv := by
  obtain ⟨⟨start, blockSize, mem, hstart, hnew⟩, htotal, hpc, hhanded, hres⟩ := h
  rcases hnew with ⟨size, -, heq⟩ | ⟨count, -, hne, heq⟩
  · obtain ⟨hm, hp⟩ := Prod.mk.inj heq
    have hne : stride (rtAlign blockSize) ≠ 0 := by
      intro h0
      rw [hp] at htotal
      change 1 ≤ rtAlignDown size / stride (rtAlign blockSize) at htotal
      rw [h0, Nat.div_zero] at htotal
      omega
    apply inv_of_linked htotal
    · rw [hp]
      exact ⟨hstart, stride_rtAlign blockSize hne⟩
    · rw [hm, hp]
      exact ⟨mem, rfl⟩
    · rw [hp]
    · rw [hp]
    · rw [hp]
    · exact hhanded
    · exact hres
  · obtain ⟨hm, hp⟩ := Prod.mk.inj heq
    apply inv_of_linked htotal
    · rw [hp]
      exact ⟨hstart, stride_rtAlign blockSize hne⟩
    · rw [hm, hp]
      exact ⟨mem, rfl⟩
    · rw [hp]
    · rw [hp]
    · rw [hp]
    · exact hhanded
    · exact hres

/-! ## The runs of a pool -/

/-- **Blocks are neither lost nor given twice, and no wake-up is lost**, in every order of the calls of
all threads. -/
theorem pool_conserved (h : Trans.Reachable MpSys.Init (fun s a s' => MpSys.exec s a = some s') s) :
    s.Conserved :=
  have hinv : s.Inv := h.invariant (fun _ => MpSys.Inv.init) fun _ _ _ _ hi he => hi.step he
  hinv.conserved

/-- A pool of two blocks of eight bytes. -/
def twoBlocks : MpSys where
  addr := 64
  mem := (rtMpInit 100 27 7 fun _ => 0).1
  mp := (rtMpInit 100 27 7 fun _ => 0).2
  error _ := .ok
  pc _ := .idle
  handed := []
  resumed := []

theorem twoBlocks_init : twoBlocks.Init :=
  ⟨⟨100, 7, fun _ => 0, by decide, .inl ⟨27, by decide, rfl⟩⟩, by decide, fun _ => rfl, rfl, rfl⟩

/-- Two threads wait, a block is freed, and another thread takes it before the one that was resumed. -/
theorem pool_conserved_stolen :
    ∃ s : MpSys, s.Conserved ∧ s.handed.map Prod.fst = [104, 116] ∧ s.mp.blockFreeCount = 0 ∧
      s.mp.suspendThread = [3] ∧ s.resumed = [4] := by
  have hrun : (Trans.runList MpSys.exec twoBlocks
      [.alloc 1 0, .alloc 2 0, .ret 1, .ret 2, .alloc 3 (-1), .alloc 4 5, .store 104 3 9, .free 1 104,
        .alloc 2 0]).map (fun s => decide (s.handed.map Prod.fst = [104, 116] ∧
          s.mp.blockFreeCount = 0 ∧ s.mp.suspendThread = [3] ∧ s.resumed = [4])) = some true := by
    decide +kernel
  obtain ⟨s, hs, hdec⟩ := Option.map_eq_some_iff.mp hrun
  exact ⟨s, pool_conserved (Trans.reachable_of_runList (.init twoBlocks_init) hs),
    of_decide_eq_true hdec⟩

end RTThread.Mp
