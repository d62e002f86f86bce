import RTThread.Lib.Run
import RTThread.Finsh.HeapCalls

set_option autoImplicit false

/-! # Runs of the shell's heap

Blocks are allocated and freed in any order, and their data is written. Beside the heap, the system keeps
the blocks that were handed out and were not freed or collected, each with its size. The heap refines this
list: its blocks are disjoint, and none of them is handed out again.
-/

namespace RTThread.FinshHeap

open Sll (Linked)
open Trans (Reachable runList reachable_of_runList)

/-- The heap, and the blocks that were handed out: the data pointers, with the sizes asked for. -/
structure Sys where
  heap : Heap
  handed : List (Nat × Nat)

namespace Sys

/-- The pointers to the blocks that were handed out. -/
def ptrs (s : Sys) : List Nat := s.handed.map Prod.fst

/-- What is left of them when a call of `finsh_heap_allocate` takes a block: a collection keeps those
that the variables point to. -/
def kept (s : Sys) (refs : List Nat) (size : Nat) : List (Nat × Nat) :=
  if Starved s.heap size then s.handed.filter fun e => decide (e.1 ∈ refs) else s.handed

end Sys

inductive Act
  /-- `refs` are the pointers in the variables. -/
  | allocate (refs : List Nat) (size : Nat)
  | free (ptr : Nat)
  /-- The owner of a block writes to it. -/
  | store (c v : Nat)

namespace Sys

def exec (s : Sys) : Act → Option Sys
  | .allocate refs size =>
    if size ≤ FINSH_HEAP_MAX then
      (finshHeapAllocate refs s.heap size).map fun r =>
      { heap := r.2
        handed := if r.1 = 0 then s.kept refs size else (r.1, size) :: s.kept refs size }
    else none
  | .free ptr =>
    if ptr ∈ s.ptrs then
      (finshHeapFree s.heap ptr).map fun h =>
      { heap := h, handed := s.handed.filter fun e => decide (e.1 ≠ ptr) }
    else none
  | .store c v =>
    if ∃ e ∈ s.handed, e.1 ≤ c ∧ c < e.1 + e.2 then
      some { s with heap := { s.heap with mem := Function.update s.heap.mem c v } }
    else none

/-- The start: `finsh_heap_init` has run. -/
def Init (s : Sys) : Prop := ∃ mem base, 0 < base ∧ s = { heap := finshHeapInit mem base, handed := [] }

/-- The invariant: the allocated blocks of a layout are the blocks that were handed out. -/
structure Refines (s : Sys) (bs : List Blk) : Prop where
  inv : Inv s.heap bs
  ptrs : s.ptrs.Perm ((live bs).map fun b => b.addr + 8)
  size : ∀ e ∈ s.handed, ∀ b ∈ live bs, b.addr + 8 = e.1 → e.2 ≤ b.len

/-- **The structure of the heap.** -/
structure Sound (s : Sys) : Prop where
  /-- The lists are strictly increasing and disjoint, and their blocks tile `finsh_heap`. -/
  lists : ∃ free used, Linked (s.heap.mem.get .next) s.heap.freeList free ∧
    Linked (s.heap.mem.get .next) s.heap.allocateList used ∧ free.Pairwise (· < ·) ∧
    used.Pairwise (· < ·) ∧ free.Disjoint used ∧
    (∃ bs, Tiles s.heap.base bs (s.heap.base + FINSH_HEAP_MAX) ∧ (addrs bs).Perm (free ++ used) ∧
      ∀ b ∈ bs, s.heap.mem.get .length b.addr = b.len) ∧
    -- no free block stands next to a free block
    (∀ a ∈ free, a + 8 + s.heap.mem.get .length a ∉ free) ∧
    s.ptrs.Perm (used.map (· + 8))
  size : ∀ e ∈ s.handed, e.2 ≤ s.heap.mem.get .length (e.1 - 8)

/-- **What a call of `finsh_heap_allocate` does**, with the result `p` and the heap `h'` afterwards. -/
structure AllocateSound (s : Sys) (refs : List Nat) (size p : Nat) (h' : Heap) : Prop where
  /-- 0 is returned only after a collection, if no free block has room for the size and a header. -/
  full : p = 0 → finshHeapGc refs s.heap = some h' ∧ ∃ free, Linked (h'.mem.get .next) h'.freeList free ∧
    ∀ a ∈ free, h'.mem.get .length a < heapAlignSize size + 8
  /-- The block is none of those handed out before, and apart from them. -/
  fresh : p ≠ 0 → p ∉ (s.kept refs size).map Prod.fst ∧
    ∀ e ∈ s.kept refs size, e.1 + e.2 ≤ p ∨ p + size ≤ e.1
  /-- It has the size, and its data is zero. -/
  zero : p ≠ 0 → size ≤ h'.mem.get .length (p - 8) ∧
    ∀ c, p ≤ c → c < p + h'.mem.get .length (p - 8) → h'.mem c = 0

variable {s s' : Sys} {h h' : Heap} {bs bs' k k' : List Blk} {b : Blk} {refs : List Nat}
  {a n p size : Nat}

theorem size_le_heapAlignSize (hs : size ≤ FINSH_HEAP_MAX) : size ≤ heapAlignSize size := by
  unfold heapAlignSize FINSH_HEAP_MAX at *
  omega

/-- The other allocated blocks are apart from a block. -/
theorem apart_of_live (t : Tiles a bs n) (hl : live bs = k ++ b :: k') {c : Blk} (hc : c ∈ k ++ k') :
    c.addr + 8 + c.len ≤ b.addr ∨ b.addr + 8 + b.len ≤ c.addr := by
  have hs : (k ++ b :: k').Pairwise fun b c => b.addr + 8 + b.len ≤ c.addr :=
    hl ▸ t.sorted.sublist List.filter_sublist
  obtain ⟨-, hb, hkb⟩ := List.pairwise_append.mp hs
  rcases List.mem_append.mp hc with hc | hc
  · exact .inl (hkb c hc b List.mem_cons_self)
  · exact .inr ((List.pairwise_cons.mp hb).1 c hc)

/-- The blocks that stay allocated are those that were handed out and kept. -/
theorem Refines.kept (i : s.Refines bs) (refs : List Nat) (size : Nat) :
    ((s.kept refs size).map Prod.fst).Perm
      ((if Starved s.heap size then (live bs).filter (fun b => decide (b.addr + 8 ∈ refs))
        else live bs).map fun b => b.addr + 8) := by
  unfold Sys.kept
  split_ifs
  · have hf := i.ptrs.filter fun p => decide (p ∈ refs)
    rw [Sys.ptrs, List.filter_map, List.filter_map] at hf
    exact hf
  · exact i.ptrs

theorem kept_subset {e : Nat × Nat} (he : e ∈ s.kept refs size) : e ∈ s.handed := by
  unfold Sys.kept at he
  split_ifs at he
  · exact List.mem_of_mem_filter he
  · exact he

/-- A block that stays allocated has room for what was asked. -/
theorem Refines.kept_size (i : s.Refines bs) {e : Nat × Nat} (he : e ∈ s.kept refs size) :
    ∃ b ∈ (if Starved s.heap size then (live bs).filter (fun b => decide (b.addr + 8 ∈ refs))
      else live bs), b.addr + 8 = e.1 ∧ e.2 ≤ b.len := by
  have hmem := (i.kept refs size).mem_iff.mp (List.mem_map_of_mem he)
  obtain ⟨b, hb, hbe⟩ := List.mem_map.mp hmem
  refine ⟨b, hb, hbe, i.size e (kept_subset he) b ?_ hbe⟩
  split_ifs at hb
  · exact List.mem_of_mem_filter hb
  · exact hb

/-- **A call of `finsh_heap_allocate`** returns, and keeps the invariant. -/
theorem Refines.allocate (i : s.Refines bs) (refs : List Nat) (hs : size ≤ FINSH_HEAP_MAX) :
    ∃ p h' bs', finshHeapAllocate refs s.heap size = some (p, h') ∧ s.AllocateSound refs size p h' ∧
      Refines { heap := h'
                handed := if p = 0 then s.kept refs size else (p, size) :: s.kept refs size } bs' := by
  have hle := size_le_heapAlignSize hs
  obtain ⟨p, h', bs', hret, ha, hgc, hbase⟩ := finshHeapAllocate_eq refs i.inv size
  have hk := i.kept refs size
  have hsz := fun e (he : e ∈ s.kept refs size) => i.kept_size he
  generalize (if Starved s.heap size then (live bs).filter (fun b => decide (b.addr + 8 ∈ refs))
    else live bs) = kept at ha hk hsz
  refine ⟨p, h', bs', hret, ?_⟩
  by_cases hp : p = 0
  · obtain ⟨hlive, hfull⟩ := ha.full hp
    refine ⟨⟨fun _ => ⟨hgc hp, freeOf bs', ha.inv.lists.free, fun a hm => ?_⟩, fun h0 => absurd hp h0,
      fun h0 => absurd hp h0⟩, ?_⟩
    · obtain ⟨b, hb, hf, rfl⟩ := mem_freeOf.mp hm
      rw [ha.inv.lists.len b hb]
      exact hfull b hb hf
    · rw [if_pos hp]
      refine ⟨ha.inv, hlive ▸ hk, fun e he b hb hbe => ?_⟩
      obtain ⟨c, hc, hce, hlen⟩ := hsz e he
      rw [ha.inv.tiles.inj (List.mem_of_mem_filter hb) (List.mem_of_mem_filter (hlive ▸ hc))
        (Nat.add_right_cancel (hbe.trans hce.symm))]
      exact hlen
  · obtain ⟨a, k, k', rfl, rfl, hlive, hzero⟩ := ha.block hp
    have hapart : ∀ c ∈ k ++ k', _ := fun c hc => apart_of_live ha.inv.tiles hlive hc
    dsimp only at hapart
    have hnew : (⟨a, heapAlignSize size, true⟩ : Blk) ∈ live bs' := hlive ▸ by simp
    have hlen : h'.mem.get .length (a + 8 - 8) = heapAlignSize size :=
      ha.inv.lists.len _ (List.mem_of_mem_filter hnew)
    refine ⟨⟨fun h0 => absurd h0 hp, fun _ => ⟨fun hm => ?_, fun e he => ?_⟩, fun _ => ?_⟩, ?_⟩
    · obtain ⟨c, hc, hca⟩ := List.mem_map.mp (hk.mem_iff.mp hm)
      have h₁ := hapart c hc
      omega
    · obtain ⟨c, hc, hce, hlec⟩ := hsz e he
      have h₁ := hapart c hc
      omega
    · rw [hlen]
      exact ⟨hle, fun c => hzero c⟩
    · rw [if_neg hp]
      refine ⟨ha.inv, ?_, fun e he b hb hbe => ?_⟩
      · dsimp only [Sys.ptrs]
        rw [hlive, List.map_append, List.map_cons, List.map_cons]
        refine (hk.cons _).trans ?_
        rw [List.map_append]
        exact List.perm_middle.symm
      · have hb' : b ∈ bs' := List.mem_of_mem_filter hb
        rcases List.mem_cons.mp he with rfl | he
        · rw [ha.inv.tiles.inj hb' (List.mem_of_mem_filter hnew) (Nat.add_right_cancel hbe)]
          exact hle
        · obtain ⟨c, hc, hce, hlec⟩ := hsz e he
          have hcl : c ∈ live bs' := by
            rw [hlive]
            rcases List.mem_append.mp hc with hc | hc
            · exact List.mem_append_left _ hc
            · exact List.mem_append_right _ (List.mem_cons_of_mem _ hc)
          rw [ha.inv.tiles.inj hb' (List.mem_of_mem_filter hcl)
            (Nat.add_right_cancel (hbe.trans hce.symm))]
          exact hlec

/-- **A call of `finsh_heap_free`** for a block that was handed out returns, and keeps the invariant. -/
theorem Refines.free (i : s.Refines bs) (hp : p ∈ s.ptrs) :
    ∃ h' bs', finshHeapFree s.heap p = some h' ∧
      Refines { heap := h', handed := s.handed.filter fun e => decide (e.1 ≠ p) } bs' := by
  obtain ⟨b, hb, rfl⟩ := List.mem_map.mp (i.ptrs.mem_iff.mp hp)
  obtain ⟨k, k', hlive⟩ := List.append_of_mem hb
  obtain ⟨l, r, rfl, rfl, rfl, hu⟩ := live_split hlive
  have hapart : ∀ c ∈ live l ++ live r, _ := fun c hc => apart_of_live i.inv.tiles hlive hc
  obtain ⟨a, len, used⟩ := b
  obtain rfl : used = true := hu
  obtain ⟨h', bs', hret, i', hlive', hbase⟩ := finshHeapFree_eq i.inv
  refine ⟨h', bs', hret, i', ?_, fun e he b hb hbe => ?_⟩
  · have hf := i.ptrs.filter fun q => decide (q ≠ a + 8)
    rw [Sys.ptrs, List.filter_map, hlive, List.filter_map, List.filter_append,
      List.filter_cons_of_neg (by simp)] at hf
    have hall : ∀ c ∈ live l ++ live r,
        ((fun q => decide (q ≠ a + 8)) ∘ fun b : Blk => b.addr + 8) c = true := fun c hc => by
      have h₁ := hapart c hc
      dsimp only at h₁
      have hne : c.addr + 8 ≠ a + 8 := by omega
      simpa using hne
    rw [← List.filter_append, List.filter_eq_self.mpr hall, ← hlive'] at hf
    exact hf
  · refine i.size e (List.mem_of_mem_filter he) b ?_ hbe
    rw [hlive'] at hb
    rw [hlive]
    rcases List.mem_append.mp hb with hb | hb
    · exact List.mem_append_left _ hb
    · exact List.mem_append_right _ (List.mem_cons_of_mem _ hb)

/-- Writing to a block does not reach the headers. -/
theorem Refines.store {c v : Nat} (i : s.Refines bs) {e : Nat × Nat} (he : e ∈ s.handed)
    (hc : e.1 ≤ c ∧ c < e.1 + e.2) :
    Refines { s with heap := { s.heap with mem := Function.update s.heap.mem c v } } bs := by
  obtain ⟨b, hb, hbe⟩ := List.mem_map.mp (i.ptrs.mem_iff.mp (List.mem_map_of_mem he))
  have hlen := i.size e he b hb hbe
  refine ⟨⟨i.inv.base, i.inv.tiles, i.inv.lists.congr fun y hy f => ?_, i.inv.merged, i.inv.last⟩, i.ptrs,
    i.size⟩
  have hout := i.inv.tiles.outside (List.mem_of_mem_filter hb) hy
  have hoff := f.off_lt
  exact Function.update_of_ne (by omega) ..

/-- The invariant holds in every run. -/
theorem reachable_refines (hr : Reachable Init (fun s a s' => s.exec a = some s') s) :
    ∃ bs, s.Refines bs := by
  refine hr.invariant (I := fun s => ∃ bs, s.Refines bs) (fun s hi => ?_) fun s act s' _ ih hstep => ?_
  · obtain ⟨mem, base, hb, rfl⟩ := hi
    exact ⟨_, finshHeapInit_inv mem hb, .refl _, fun e he => by cases he⟩
  · obtain ⟨bs, i⟩ := ih
    cases act with
    | allocate refs size =>
        obtain ⟨hs, hstep⟩ := Option.ite_none_right_eq_some.mp hstep
        obtain ⟨p, h', bs', hret, -, i'⟩ := i.allocate refs hs
        rw [hret] at hstep
        obtain rfl := Option.some.inj hstep
        exact ⟨bs', i'⟩
    | free ptr =>
        obtain ⟨hp, hstep⟩ := Option.ite_none_right_eq_some.mp hstep
        obtain ⟨h', bs', hret, i'⟩ := i.free hp
        rw [hret] at hstep
        obtain rfl := Option.some.inj hstep
        exact ⟨bs', i'⟩
    | store c v =>
        obtain ⟨⟨e, he, hc⟩, hstep⟩ := Option.ite_none_right_eq_some.mp hstep
        obtain rfl := Option.some.inj hstep
        exact ⟨bs, i.store he hc⟩

/-- Two free blocks are not neighbours. -/
theorem no_neighbours (t : Tiles a bs n) (hm : Merged bs) {b c : Blk} (hb : b ∈ bs) (hc : c ∈ bs)
    (hbf : b.used = false) (hcf : c.used = false) : b.addr + 8 + b.len ≠ c.addr := by
  intro hbc
  obtain ⟨l, r, rfl⟩ := List.append_of_mem hb
  rcases List.mem_append.mp hc with hc | hc
  · have hlt := t.below (mem_addrs.mpr ⟨c, hc, rfl⟩)
    omega
  · rcases List.mem_cons.mp hc with rfl | hc
    · omega
    · -- the block between them is allocated
      cases r with
      | nil => cases hc
      | cons d r =>
          obtain ⟨k, -, hk, hd, ht⟩ := tiles_append.mp t
          have hdu := (merged_mid.mp hm).2.2.2 d rfl
          rcases List.mem_cons.mp hc with rfl | hc
          · rw [hbf, hcf] at hdu
            simp at hdu
          · have hlt := (ht.bounds hc).1
            omega

theorem Refines.sound (i : s.Refines bs) : s.Sound := by
  have t := i.inv.tiles
  refine ⟨⟨freeOf bs, usedOf bs, i.inv.lists.free, i.inv.lists.used, t.freeOf_sorted, t.usedOf_sorted,
    fun x hf hu => t.disjoint hf hu, ⟨bs, t, ?_, i.inv.lists.len⟩, fun a ha hn => ?_, ?_⟩,
    fun e he => ?_⟩
  · have hp := (List.filter_append_perm (fun b : Blk => !b.used) bs).map Blk.addr
    rw [List.map_append] at hp
    refine hp.symm.trans (.of_eq ?_)
    simp only [freeOf, usedOf, addrs, Bool.not_not]
  · obtain ⟨b, hb, hbf, rfl⟩ := mem_freeOf.mp ha
    obtain ⟨c, hc, hcf, hca⟩ := mem_freeOf.mp hn
    rw [i.inv.lists.len b hb] at hca
    exact no_neighbours t i.inv.merged hb hc hbf hcf hca.symm
  · have hp := i.ptrs
    rw [usedOf_eq, addrs, List.map_map]
    exact hp
  · obtain ⟨b, hb, hbe⟩ := List.mem_map.mp (i.ptrs.mem_iff.mp (List.mem_map_of_mem he))
    have hlen := i.inv.lists.len b (List.mem_of_mem_filter hb)
    rw [← hbe, Nat.add_sub_cancel, hlen]
    exact i.size e he b hb hbe

/-- **The heap of the shell is sound**: in every reachable state its structure holds, and every call
returns and does what it should. -/
theorem finsh_heap (hr : Reachable Init (fun s a s' => s.exec a = some s') s) :
    s.Sound ∧
      (∀ refs size, size ≤ FINSH_HEAP_MAX →
        ∃ p h', finshHeapAllocate refs s.heap size = some (p, h') ∧ s.AllocateSound refs size p h') ∧
      ∀ p ∈ s.ptrs, ∃ h', finshHeapFree s.heap p = some h' := by
  obtain ⟨bs, i⟩ := reachable_refines hr
  refine ⟨i.sound, fun refs size hs => ?_, fun p hp => ?_⟩
  · obtain ⟨p, h', -, hret, ha, -⟩ := i.allocate refs hs
    exact ⟨p, h', hret, ha⟩
  · obtain ⟨h', -, hret, -⟩ := i.free hp
    exact ⟨h', hret⟩

/-- Two blocks are allocated; for a third one the second one is collected, and its place is used again. -/
theorem finsh_heap_collects : ∃ s, Reachable Init (fun s a s' => Sys.exec s a = some s') s ∧
    s.handed = [(1056, 40), (1008, 39)] ∧ s.Sound ∧
    (∀ refs size, size ≤ FINSH_HEAP_MAX →
      ∃ p h', finshHeapAllocate refs s.heap size = some (p, h') ∧ s.AllocateSound refs size p h') ∧
    ∀ p ∈ s.ptrs, ∃ h', finshHeapFree s.heap p = some h' := by
  have hrun : (runList Sys.exec { heap := finshHeapInit (fun _ => 7) 1000, handed := [] }
      [.allocate [] 39, .store 1010 5, .allocate [1008] 24, .allocate [1008] 40]).map Sys.handed =
      some [(1056, 40), (1008, 39)] := by
    decide +kernel
  obtain ⟨s, hs, hh⟩ := Option.map_eq_some_iff.mp hrun
  have hr : Reachable Init (fun s a s' => Sys.exec s a = some s') s :=
    reachable_of_runList (.init ⟨_, 1000, by decide, rfl⟩) hs
  exact ⟨s, hr, hh, finsh_heap hr⟩

end Sys

end RTThread.FinshHeap
