import RTThread.Drivers.RingblkQueue

set_option autoImplicit false

/-! # Where a new block lies

A block of any size, an empty one too, goes where the listed blocks leave room. The code does not see
three things: that a buffer whose list is empty has an end, that a block in a queue still has its
bytes, and that an empty block in front of the first one of blocks that go round the end makes them
look as if they did not. Apart from these a new block lies in the buffer and over no other block.
-/

namespace RTThread.Drivers

open Memheap (u32)
open Runs (Run)

variable {rbb rbb' : Rbb} {i j k n new : Nat} {q : BlkQueue} {L : List Nat} {s s' : RbbSys}

/-- What is asked of an allocation of `n` bytes: a new block lies in the buffer and over no block that
is in use, and without one the list is as before. -/
def Rbb.AllocOk (rbb : Rbb) (n : Nat) : Prop :=
  ∃ ans rbb', rtRbbBlkAlloc rbb n = some (ans, rbb') ∧
    (∀ new, ans = some new → (rbb'.run new).len = n ∧ rbb.buf ≤ (rbb'.run new).start ∧
      (rbb'.run new).stop ≤ rbb.buf + rbb.bufSize ∧
      ∀ j, j ≠ new → (rbb'.blk j).status ≠ .unused → (rbb'.run new).Apart (rbb'.run j)) ∧
    (ans = none → rbb'.blkList = rbb.blkList)

/-- When the code sees all there is to see, if a block is unused:

* while the list is empty, the block fits the buffer;
* an empty block is not asked for when the blocks go round the end and leave no byte;
* the first `n` bytes of the free space are no bytes of a block that is in use and not listed. -/
def Rbb.Roomy (rbb : Rbb) (n : Nat) : Prop :=
  findEmptyBlkInSet rbb ≠ none →
    (rbb.blkList = [] → n ≤ rbb.bufSize) ∧ (n = 0 → ¬ rbb.Full) ∧
      ((rbb.gap n).1 + n ≤ (rbb.gap n).2 → ∀ j < rbb.blkMaxNum,
        (rbb.blk j).status ≠ .unused → j ∉ rbb.blkList →
          (rbb.run j).stop ≤ (rbb.gap n).1 ∨ (rbb.gap n).1 + n ≤ (rbb.run j).start)

instance Rbb.decidableRoomy (rbb : Rbb) (n : Nat) : Decidable (rbb.Roomy n) :=
  inferInstanceAs (Decidable (_ → (_ → _) ∧ (_ → _) ∧ (_ → ∀ j < rbb.blkMaxNum, _ → _ → _)))

def RbbCall.Roomy (s : RbbSys) : RbbCall → Prop
  | .alloc n => s.rbb.Roomy n
  | _ => True

instance RbbCall.decidableRoomy (s : RbbSys) : (c : RbbCall) → Decidable (c.Roomy s)
  | .alloc n => s.rbb.decidableRoomy n
  | .put _ => inferInstanceAs (Decidable True)
  | .get => inferInstanceAs (Decidable True)
  | .free _ => inferInstanceAs (Decidable True)
  | .queueGet _ _ => inferInstanceAs (Decidable True)
  | .queueFree _ => inferInstanceAs (Decidable True)

/-- A new buffer. The address behind it is an address too. -/
def RbbSys.Start (s : RbbSys) : Prop := s.Init ∧ s.rbb.buf + s.rbb.bufSize < 4294967296

/-! ## One allocation -/

theorem blk_append (h : Linked rbb) (hnew : findEmptyBlkInSet rbb = some new) {a : Nat} :
    (rbb.append new a n).blk i = if i = new then ⟨.inited, n, a⟩ else rbb.blk i :=
  Rbb.blk_setBlk (h.length_eq ▸ (findEmptyBlkInSet_some hnew).1)

theorem run_append (h : Linked rbb) (hnew : findEmptyBlkInSet rbb = some new) {a : Nat} :
    (rbb.append new a n).run i = if i = new then ⟨a, n⟩ else rbb.run i := by
  unfold Rbb.run
  rw [blk_append h hnew]
  split_ifs <;> rfl

/-- An allocation that the assertion lets pass gives an answer. -/
theorem rtRbbBlkAlloc_isSome (hn : n < 2 ^ 24) : (rtRbbBlkAlloc rbb n).isSome := by
  unfold rtRbbBlkAlloc
  rw [if_neg (not_not.mpr hn)]
  split
  · rfl
  · dsimp only
    split_ifs
    · split
      · split_ifs <;> rfl
      · rfl
    · rfl

namespace Linked

/-- **What an allocation does** where there is room for it. -/
theorem alloc_roomy (h : Linked rbb) (hedge : rbb.buf + rbb.bufSize < 4294967296)
    (hroomy : rbb.Roomy n) {ans : Option Nat} (he : rtRbbBlkAlloc rbb n = some (ans, rbb')) :
    (ans = none ∧ rbb' = rbb) ∨
      ∃ new, ans = some new ∧ findEmptyBlkInSet rbb = some new ∧
        (rbb.gap n).1 + n ≤ (rbb.gap n).2 ∧ rbb' = rbb.append new (rbb.gap n).1 n := by
  cases hnew : findEmptyBlkInSet rbb with
  | none =>
      unfold rtRbbBlkAlloc at he
      split at he
      · cases he
      · rw [hnew] at he
        have h₁ := Prod.mk.inj (Option.some.inj he)
        exact Or.inl ⟨h₁.1.symm, h₁.2.symm⟩
  | some new =>
      have hfit := (hroomy (by rw [hnew]; simp)).1
      have h₁ := h.alloc (Or.inl hedge) hfit he
      rw [hnew] at h₁
      exact h₁

theorem alloc_linked (h : Linked rbb) (hedge : rbb.buf + rbb.bufSize < 4294967296)
    (hroomy : rbb.Roomy n) {ans : Option Nat} (he : rtRbbBlkAlloc rbb n = some (ans, rbb')) :
    Linked rbb' ∧ rbb'.buf = rbb.buf ∧ rbb'.bufSize = rbb.bufSize := by
  rcases h.alloc_roomy hedge hroomy he with ⟨-, rfl⟩ | ⟨new, -, hnew, hroom, rfl⟩
  · exact ⟨h, rfl, rfl⟩
  · exact ⟨h.append (hroomy (by rw [hnew]; simp)).2.1 hnew hroom, rfl, rfl⟩

theorem allocOk (h : Linked rbb) (hedge : rbb.buf + rbb.bufSize < 4294967296)
    (hroomy : rbb.Roomy n) (hn : n < 2 ^ 24) : rbb.AllocOk n := by
  obtain ⟨⟨ans, rbb'⟩, he⟩ : ∃ r, rtRbbBlkAlloc rbb n = some r :=
    Option.isSome_iff_exists.mp (rtRbbBlkAlloc_isSome hn)
  refine ⟨ans, rbb', he, ?_⟩
  rcases h.alloc_roomy hedge hroomy he with ⟨rfl, rfl⟩ | ⟨new, rfl, hnew, hroom, rfl⟩
  · exact ⟨fun new h₀ => absurd h₀ (by simp), fun _ => rfl⟩
  refine ⟨fun new' h₀ => ?_, fun h₀ => absurd h₀ (by simp)⟩
  obtain rfl : new = new' := Option.some.inj h₀
  obtain ⟨-, hzero, hoff⟩ := hroomy (by rw [hnew]; simp)
  have hlinked := h.append hzero hnew hroom
  have hmem : new ∈ (rbb.append new (rbb.gap n).1 n).blkList :=
    List.mem_append_right _ List.mem_cons_self
  have hrange := hlinked.range hmem
  have hself : (rbb.append new (rbb.gap n).1 n).run new = ⟨(rbb.gap n).1, n⟩ := by
    rw [run_append h hnew, if_pos rfl]
  refine ⟨by rw [hself], hrange.1, hrange.2.2, fun j hj hused => ?_⟩
  by_cases hlist : j ∈ rbb.blkList
  · exact hlinked.apart hmem (List.mem_append_left _ hlist) (Ne.symm hj)
  · rw [blk_append h hnew, if_neg hj] at hused
    have hlt : j < rbb.blkMaxNum := h.length_eq ▸ Rbb.lt_length hused
    rw [hself, run_append h hnew, if_neg hj]
    exact (hoff hroom j hlt hused hlist).symm

end Linked

/-! ## The other calls

They allocate nothing: blocks leave the list, and those that stay keep their bytes and are in use. -/

/-- The listed blocks are in use, and none is listed twice. -/
structure Rbb.Kept (rbb : Rbb) : Prop where
  length_eq : rbb.blkSet.length = rbb.blkMaxNum
  nodup : rbb.blkList.Nodup
  used : ∀ i ∈ rbb.blkList, (rbb.blk i).status ≠ .unused

theorem Linked.kept (h : Linked rbb) : rbb.Kept := ⟨h.length_eq, h.nodup, h.used⟩

structure Rbb.Shrinks (rbb rbb' : Rbb) : Prop where
  same : SameBuffer rbb rbb'
  sublist : rbb'.blkList.Sublist rbb.blkList
  keep : ∀ i ∈ rbb'.blkList, rbb'.run i = rbb.run i ∧ (rbb'.blk i).status ≠ .unused

namespace Rbb.Kept

theorem shrink (h : rbb.Kept) (hs : rbb.Shrinks rbb') : rbb'.Kept :=
  ⟨by rw [hs.same.length, hs.same.blkMaxNum, h.length_eq], h.nodup.sublist hs.sublist,
    fun i hi => (hs.keep i hi).2⟩

theorem refl (h : rbb.Kept) : rbb.Shrinks rbb :=
  ⟨⟨rfl, rfl, rfl, rfl⟩, List.Sublist.refl _, fun i hi => ⟨rfl, h.used i hi⟩⟩

theorem status {st : RbbStatus} {l : List Nat} (h : rbb.Kept) (hi : (rbb.blk i).status ≠ .unused)
    (hl : l.Sublist rbb.blkList) (hst : i ∈ l → st ≠ .unused) :
    rbb.Shrinks { rbb.setBlk i { rbb.blk i with status := st } with blkList := l } := by
  refine ⟨sameBuffer_setBlk l, hl, fun j hj => ⟨Rbb.run_status hi, ?_⟩⟩
  show ((rbb.setBlk i { rbb.blk i with status := st }).blk j).status ≠ .unused
  rw [Rbb.blk_setBlk (Rbb.lt_length hi)]
  split_ifs with he
  · exact hst (he ▸ hj)
  · exact h.used j (hl.subset hj)

theorem put (h : rbb.Kept) (he : rtRbbBlkPut rbb i = some rbb') : rbb.Shrinks rbb' := by
  unfold rtRbbBlkPut at he
  split_ifs at he with hst
  cases he
  exact h.status (l := rbb.blkList) (by rw [hst]; simp) (List.Sublist.refl _) (by simp)

theorem get (h : rbb.Kept) : rbb.Shrinks (rtRbbBlkGet rbb).2 := by
  unfold rtRbbBlkGet
  split
  · rename_i i hi
    have hput : (rbb.blk i).status = .put := by simpa using List.find?_some hi
    exact h.status (l := rbb.blkList) (by rw [hput]; simp) (List.Sublist.refl _) (by simp)
  · exact h.refl

theorem free (h : rbb.Kept) (he : rtRbbBlkFree rbb i = some rbb') : rbb.Shrinks rbb' := by
  unfold rtRbbBlkFree at he
  split_ifs at he with hst
  cases he
  exact h.status hst List.erase_sublist fun hmem => absurd hmem h.nodup.not_mem_erase

end Rbb.Kept

theorem Rbb.Shrinks.trans {rbb₁ rbb₂ : Rbb} (h : rbb.Shrinks rbb₁) (h' : rbb₁.Shrinks rbb₂) :
    rbb.Shrinks rbb₂ where
  same :=
    ⟨h'.same.buf.trans h.same.buf, h'.same.bufSize.trans h.same.bufSize,
      h'.same.blkMaxNum.trans h.same.blkMaxNum, h'.same.length.trans h.same.length⟩
  sublist := h'.sublist.trans h.sublist
  keep i hi :=
    ⟨(h'.keep i hi).1.trans (h.keep i (h'.sublist.subset hi)).1, (h'.keep i hi).2⟩

namespace Rbb.Kept

theorem queueFree (h : rbb.Kept) (he : rtRbbBlkQueueFree rbb q = some rbb') : rbb.Shrinks rbb' := by
  unfold rtRbbBlkQueueFree at he
  generalize List.range q.blkNum = l at he
  induction l generalizing rbb with
  | nil =>
      cases he
      exact h.refl
  | cons i l ih =>
      rw [List.foldlM_cons] at he
      obtain ⟨rbb₁, h₁, h₂⟩ := Option.bind_eq_some_iff.mp he
      exact (h.free h₁).trans (ih (h.shrink (h.free h₁)) h₂)

theorem lt_length (h : rbb.Kept) (hi : i ∈ rbb.blkList) : i < rbb.blkSet.length :=
  Rbb.lt_length (h.used i hi)

theorem queueGet (h : rbb.Kept) (len : Nat) (q : BlkQueue) :
    rbb.Shrinks (rtRbbBlkQueueGet rbb len q).2.2 := by
  have hspec := queueLoop_none len q h.nodup fun i => h.lt_length
  have hsub := (nextQueue_sublist rbb len rbb.blkList).subset
  unfold rtRbbBlkQueueGet
  cases hL : rbb.nextQueue len rbb.blkList with
  | nil =>
      rw [hspec.1 hL]
      exact h.refl
  | cons i L =>
      rw [hL] at hsub
      rw [hspec.2 i L hL]
      have hlt : ∀ j ∈ i :: L, j < rbb.blkSet.length := fun j hj => h.lt_length (hsub hj)
      refine ⟨sameBuffer_markAll, ?_, fun j hj => ⟨run_markAll hlt, ?_⟩⟩
      · rw [blkList_markAll]
        exact List.diff_sublist _ _
      · rw [blkList_markAll, h.nodup.mem_sdiff_iff] at hj
        rw [blk_markAll hlt, if_neg hj.2]
        exact h.used j hj.1

/-- **A call either allocates or takes blocks off the list.** -/
theorem exec (h : s.rbb.Kept) {c : RbbCall} (he : c.exec s = some s') :
    (∃ n ans, c = .alloc n ∧ rtRbbBlkAlloc s.rbb n = some (ans, s'.rbb)) ∨ s.rbb.Shrinks s'.rbb := by
  cases c with
  | alloc n =>
      obtain ⟨⟨ans, rbb'⟩, hr, rfl⟩ := Option.map_eq_some_iff.mp he
      exact Or.inl ⟨n, ans, rfl, hr⟩
  | put i =>
      obtain ⟨rbb', hr, rfl⟩ := Option.map_eq_some_iff.mp he
      exact Or.inr (h.put hr)
  | get =>
      cases he
      exact Or.inr h.get
  | free i =>
      obtain ⟨rbb', hr, rfl⟩ := Option.map_eq_some_iff.mp he
      exact Or.inr (h.free hr)
  | queueGet len k =>
      cases he
      exact Or.inr (h.queueGet len (s.queues k))
  | queueFree k =>
      obtain ⟨rbb', hr, rfl⟩ := Option.map_eq_some_iff.mp he
      exact Or.inr (h.queueFree hr)

end Rbb.Kept

/-! ## Runs -/

/-- The listed blocks, and the address behind the buffer. -/
structure Rbb.Sane (rbb : Rbb) : Prop where
  linked : Linked rbb
  edge : rbb.buf + rbb.bufSize < 4294967296

theorem Rbb.Sane.init (h₀ : s.Start) : s.rbb.Sane := by
  obtain ⟨⟨⟨buf, bufSize, blockSet, hend, -, hrbb⟩, -⟩, hedge⟩ := h₀
  refine ⟨?_, hedge⟩
  rw [hrbb]
  exact linked_init hend blockSet

/-- **Every call keeps the listed blocks in order.** -/
theorem Rbb.Sane.step (h : s.rbb.Sane) {c : RbbCall} (hc : c.Roomy s) (he : c.exec s = some s') :
    s'.rbb.Sane := by
  rcases h.linked.kept.exec he with ⟨n, ans, rfl, hr⟩ | hs
  · obtain ⟨hlinked, hbuf, hsize⟩ := h.linked.alloc_linked h.edge hc hr
    refine ⟨hlinked, ?_⟩
    rw [hbuf, hsize]
    exact h.edge
  · refine ⟨h.linked.sublist hs.same hs.sublist hs.keep, ?_⟩
    rw [hs.same.buf, hs.same.bufSize]
    exact h.edge

/-- **A new block lies in the buffer and over no other block**, in runs whose allocations find what the
code sees. -/
theorem blk_alloc_in_buffer
    (hr : Trans.Reachable RbbSys.Start (fun s c s' => RbbCall.exec s c = some s' ∧ c.Roomy s) s)
    (hn : n < 2 ^ 24) (hroomy : s.rbb.Roomy n) : s.rbb.AllocOk n := by
  have hsane : s.rbb.Sane :=
    hr.invariant (I := fun s => s.rbb.Sane) (fun _ h₀ => Rbb.Sane.init h₀)
      fun _ _ _ _ h hc => h.step hc.2 hc.1
  exact hsane.linked.allocOk hsane.edge hroomy hn

theorem sixBlocks_start : sixBlocks.Start := ⟨sixBlocks_init, by decide⟩

/-- The second and the third of four blocks are handed out in a queue, the first one is freed, and an
empty block and another one are still to lie in the buffer. -/
theorem blk_alloc_in_buffer_queue :
    ∃ s : RbbSys, s.rbb.AllocOk 6 ∧ s.rbb.blkList = [3, 0] ∧ (s.rbb.blk 0).size = 0 := by
  have hrun : (Trans.runList (Trans.stepIf RbbCall.exec fun s c => c.Roomy s) sixBlocks
      [.alloc 4, .alloc 4, .alloc 4, .alloc 4, .put 1, .put 2, .queueGet 16 0, .free 0, .alloc 0]).map
        (fun s => decide (s.rbb.Roomy 6 ∧ s.rbb.blkList = [3, 0] ∧ (s.rbb.blk 0).size = 0)) =
          some true := by
    decide +kernel
  obtain ⟨s, hs, hdec⟩ := Option.map_eq_some_iff.mp hrun
  obtain ⟨hroomy, hrest⟩ := of_decide_eq_true hdec
  have hr : Trans.Reachable RbbSys.Start _ s := Trans.reachable_of_runList_stepIf sixBlocks_start hs
  exact ⟨s, blk_alloc_in_buffer hr (by decide) hroomy, hrest⟩

/-- What goes wrong in a buffer: the next block is not in it, or over another one. -/
def Rbb.misplaced (rbb : Rbb) (n : Nat) : Bool :=
  match rtRbbBlkAlloc rbb n with
  | some (some new, rbb') =>
      decide (¬ (rbb'.run new).stop ≤ rbb.buf + rbb.bufSize ∨
        ∃ j < rbb'.blkMaxNum, j ≠ new ∧ (rbb'.blk j).status ≠ .unused ∧
          ¬ (rbb'.run new).Apart (rbb'.run j))
  | _ => false

theorem Rbb.misplaced_not_allocOk (h : rbb.misplaced n = true) : ¬ rbb.AllocOk n := by
  rintro ⟨ans, rbb', he, hsome, -⟩
  unfold Rbb.misplaced at h
  rw [he] at h
  cases ans with
  | none => cases h
  | some new =>
      obtain ⟨-, -, hstop, hall⟩ := hsome new rfl
      rcases of_decide_eq_true h with h₁ | ⟨j, -, hj, hused, hover⟩
      · exact h₁ hstop
      · exact hover (hall j hj hused)

/-- Calls, and the size of the next block: a block larger than the buffer; one over a block of a queue;
and one over the first of the blocks that go round the end, behind an empty block. -/
def misplacedRuns : List (List RbbCall × Nat) :=
  [([], 33), ([.alloc 4, .put 0, .queueGet 4 0], 4),
    ([.alloc 16, .alloc 16, .put 0, .get, .free 0, .alloc 16, .alloc 0], 8)]

theorem misplacedRuns_not_allocOk : ∀ r ∈ misplacedRuns, r.2 < 2 ^ 24 ∧
    ∃ s, Trans.Reachable RbbSys.Start (fun s c s' => RbbCall.exec s c = some s') s ∧
      ¬ s.rbb.AllocOk r.2 := by
  have hruns : misplacedRuns.all (fun r => decide (r.2 < 2 ^ 24) &&
      ((Trans.runList RbbCall.exec sixBlocks r.1).map fun s => s.rbb.misplaced r.2) == some true) =
        true := by
    decide +kernel
  intro r hr
  have h₁ := List.all_eq_true.mp hruns r hr
  rw [Bool.and_eq_true, beq_iff_eq] at h₁
  obtain ⟨s, hs, hmis⟩ := Option.map_eq_some_iff.mp h₁.2
  exact ⟨of_decide_eq_true h₁.1, s, Trans.reachable_of_runList (.init sixBlocks_start) hs,
    Rbb.misplaced_not_allocOk hmis⟩

theorem blk_alloc_misplaced :
    ¬ ∀ s, Trans.Reachable RbbSys.Start (fun s c s' => RbbCall.exec s c = some s') s →
      ∀ n < 2 ^ 24, s.rbb.AllocOk n := by
  intro hclaim
  obtain ⟨hn, s, hr, hbad⟩ := misplacedRuns_not_allocOk ([], 33) List.mem_cons_self
  exact hbad (hclaim s hr 33 hn)

end RTThread.Drivers
