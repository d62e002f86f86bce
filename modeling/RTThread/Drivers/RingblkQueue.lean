import RTThread.Drivers.RingblkOrder

set_option autoImplicit false

/-! # Block queues

`rt_rbb_blk_queue_get` takes blocks off `blk_list`, and from then on `rt_rbb_blk_alloc` knows nothing
of them: their bytes are free space to it. And it records a queue as a first block and a number, as if
the blocks that follow one another in the list did so in `blk_set`. Where no block is allocated from
space that a queue holds, and the blocks of a queue are neighbours in `blk_set`, a queue owns its
memory until it is freed.
-/

namespace RTThread.Drivers

open Memheap (u32)
open Runs (Run)

variable {rbb rbb' : Rbb} {i j k n last total len : Nat} {q : BlkQueue} {st : RbbStatus} {l L : List Nat}

/-! ## Taking blocks off the list -/

/-- A block changes its status and leaves the list. -/
def Rbb.mark (st : RbbStatus) (rbb : Rbb) (i : Nat) : Rbb :=
  { rbb.setBlk i { rbb.blk i with status := st } with blkList := rbb.blkList.erase i }

def Rbb.markAll (st : RbbStatus) (rbb : Rbb) (L : List Nat) : Rbb := L.foldl (Rbb.mark st) rbb

theorem length_mark : (rbb.mark st i).blkSet.length = rbb.blkSet.length := List.length_set

theorem blk_mark (hi : i < rbb.blkSet.length) :
    (rbb.mark st i).blk j = if j = i then { rbb.blk j with status := st } else rbb.blk j := by
  have h₁ := Rbb.blk_setBlk (b := { rbb.blk i with status := st }) (j := j) hi
  refine h₁.trans ?_
  split_ifs with he
  · rw [he]
  · rfl

theorem run_mark (hi : i < rbb.blkSet.length) : (rbb.mark st i).run j = rbb.run j := by
  unfold Rbb.run
  rw [blk_mark hi]
  split_ifs <;> rfl

theorem sameBuffer_markAll : SameBuffer rbb (rbb.markAll st L) := by
  induction L generalizing rbb with
  | nil => exact ⟨rfl, rfl, rfl, rfl⟩
  | cons i L ih =>
      have h₁ : SameBuffer (rbb.mark st i) (rbb.markAll st (i :: L)) := ih
      exact ⟨h₁.buf, h₁.bufSize, h₁.blkMaxNum, h₁.length.trans length_mark⟩

theorem blk_markAll (hL : ∀ i ∈ L, i < rbb.blkSet.length) :
    (rbb.markAll st L).blk j = if j ∈ L then { rbb.blk j with status := st } else rbb.blk j := by
  induction L generalizing rbb with
  | nil => rfl
  | cons i L ih =>
      have hi := hL i List.mem_cons_self
      have hL' : ∀ j ∈ L, j < (rbb.mark st i).blkSet.length := by
        intro j hj
        rw [length_mark]
        exact hL j (List.mem_cons_of_mem _ hj)
      show ((rbb.mark st i).markAll st L).blk j = _
      rw [ih hL', blk_mark hi]
      by_cases hji : j = i
      · simp [hji]
      · simp [hji]

theorem run_markAll (hL : ∀ i ∈ L, i < rbb.blkSet.length) : (rbb.markAll st L).run j = rbb.run j := by
  unfold Rbb.run
  rw [blk_markAll hL]
  split_ifs <;> rfl

theorem blkList_markAll : (rbb.markAll st L).blkList = rbb.blkList.diff L := by
  induction L generalizing rbb with
  | nil => rfl
  | cons i L ih =>
      rw [List.diff_cons]
      exact ih

theorem Listed.markAll (h : Listed rbb) (hL : ∀ i ∈ L, i < rbb.blkSet.length) :
    Listed (rbb.markAll st L) := by
  refine h.sublist sameBuffer_markAll ?_ fun i hi => ?_
  · rw [blkList_markAll]
    exact List.diff_sublist _ _
  · rw [blkList_markAll, h.nodup.mem_sdiff_iff] at hi
    refine ⟨run_markAll hL, ?_⟩
    rw [blk_markAll hL, if_neg hi.2]
    exact h.used i hi.1

/-- Freeing blocks that are in use, one after another. -/
theorem foldlM_rtRbbBlkFree (hnd : L.Nodup) (hL : ∀ i ∈ L, (rbb.blk i).status ≠ .unused) :
    L.foldlM rtRbbBlkFree rbb = some (rbb.markAll .unused L) := by
  induction L generalizing rbb with
  | nil => rfl
  | cons i L ih =>
      obtain ⟨hi, hnd'⟩ := List.nodup_cons.mp hnd
      have hlt := Rbb.lt_length (hL i List.mem_cons_self)
      have hfree : rtRbbBlkFree rbb i = some (rbb.mark .unused i) :=
        if_neg (hL i List.mem_cons_self)
      rw [List.foldlM_cons, hfree]
      refine ih hnd' fun j hj => ?_
      rw [blk_mark hlt, if_neg (fun he : j = i => hi (he ▸ hj))]
      exact hL j (List.mem_cons_of_mem _ hj)

/-! ## The loop of `rt_rbb_blk_queue_get` -/

/-- The blocks behind `last` that go into the queue: they were put, their addresses do not go down,
and there is room for them in `len` bytes. -/
def Rbb.following (rbb : Rbb) (len : Nat) : Nat → Nat → List Nat → List Nat
  | _, _, [] => []
  | last, total, node :: rest =>
      if (rbb.blk node).status = .put ∧ (rbb.run last).start ≤ (rbb.run node).start ∧
          u32 (total + (rbb.run node).len) ≤ len then
        node :: rbb.following len node (u32 (total + (rbb.run node).len)) rest
      else []

/-- The blocks of the next queue: the first one in the list that was put, and what follows it. -/
def Rbb.nextQueue (rbb : Rbb) (len : Nat) : List Nat → List Nat
  | [] => []
  | node :: rest =>
      if (rbb.blk node).status = .put then
        node :: rbb.following len node (u32 (0 + (rbb.run node).len)) rest
      else rbb.nextQueue len rest

/-- The bytes of some blocks, as a word. -/
def Rbb.sizeOf (rbb : Rbb) (L : List Nat) : Nat := (L.map fun i => (rbb.run i).len).sum

theorem following_sublist : (rbb.following len last total l).Sublist l := by
  induction l generalizing last total with
  | nil => exact List.Sublist.refl _
  | cons node rest ih =>
      rw [Rbb.following]
      split_ifs
      · exact ih.cons_cons node
      · exact List.nil_sublist _

theorem nextQueue_sublist (rbb : Rbb) (len : Nat) (l : List Nat) :
    (rbb.nextQueue len l).Sublist l := by
  induction l with
  | nil => exact List.Sublist.refl _
  | cons node rest ih =>
      rw [Rbb.nextQueue]
      split_ifs
      · exact following_sublist.cons_cons node
      · exact ih.cons node

theorem following_congr (hrun : ∀ j, rbb'.run j = rbb.run j)
    (hst : ∀ j ∈ l, (rbb'.blk j).status = (rbb.blk j).status) :
    rbb'.following len last total l = rbb.following len last total l := by
  induction l generalizing last total with
  | nil => rfl
  | cons node rest ih =>
      rw [Rbb.following, Rbb.following, hrun, hrun, hst node List.mem_cons_self,
        ih fun j hj => hst j (List.mem_cons_of_mem _ hj)]

theorem sizeOf_congr (hrun : ∀ j ∈ L, rbb'.run j = rbb.run j) : rbb'.sizeOf L = rbb.sizeOf L := by
  unfold Rbb.sizeOf
  rw [List.map_congr_left fun j hj => congrArg Run.len (hrun j hj)]

theorem u32_u32 {x : Nat} : u32 (u32 x) = u32 x := Nat.mod_mod _ _

theorem u32_add_u32 {a b : Nat} : u32 (u32 a + b) = u32 (a + b) := by
  unfold u32
  omega

/-- The loop once the queue is begun. -/
theorem queueLoop_some (hnd : l.Nodup) (hl : ∀ i ∈ l, i < rbb.blkSet.length)
    (ht : u32 total = total) (hq : u32 q.blkNum = q.blkNum) :
    queueLoop len l (some last) total q rbb =
      (u32 (total + rbb.sizeOf (rbb.following len last total l)),
        { q with blkNum := u32 (q.blkNum + (rbb.following len last total l).length) },
        rbb.markAll .get (rbb.following len last total l)) := by
  induction l generalizing last total q rbb with
  | nil =>
      show (total, q, rbb) = (u32 (total + 0), { q with blkNum := u32 (q.blkNum + 0) }, rbb)
      rw [Nat.add_zero, Nat.add_zero, ht, hq]
  | cons node rest ih =>
      obtain ⟨hnode, hnd'⟩ := List.nodup_cons.mp hnd
      have hlt := hl node List.mem_cons_self
      rw [queueLoop, Rbb.following]
      by_cases hc : (rbb.blk node).status = .put ∧ (rbb.run last).start ≤ (rbb.run node).start ∧
          u32 (total + (rbb.run node).len) ≤ len
      · rw [if_pos hc, if_neg (by
          rintro (h₁ | h₁ | h₁)
          · exact h₁ hc.1
          · exact absurd hc.2.1 (Nat.not_le.mpr h₁)
          · exact absurd hc.2.2 (Nat.not_le.mpr h₁))]
        have hrun : ∀ j, (rbb.mark .get node).run j = rbb.run j := fun j => run_mark hlt
        have hl' : ∀ j ∈ rest, j < (rbb.mark .get node).blkSet.length := by
          intro j hj
          rw [length_mark]
          exact hl j (List.mem_cons_of_mem _ hj)
        have hfol : ∀ t, (rbb.mark .get node).following len node t rest =
            rbb.following len node t rest := by
          refine fun t => following_congr hrun fun j hj => ?_
          rw [blk_mark hlt, if_neg (fun he : j = node => hnode (he ▸ hj))]
        show queueLoop len rest (some node) (u32 (total + (rbb.run node).len))
          { q with blkNum := u32 (q.blkNum + 1) } (rbb.mark .get node) = _
        rw [ih hnd' hl' u32_u32 u32_u32, hfol, sizeOf_congr fun j _ => hrun j]
        dsimp only
        rw [u32_add_u32, u32_add_u32, List.length_cons, Nat.add_assoc, Nat.add_assoc,
          Nat.add_comm 1]
        rfl
      · rw [if_neg hc, if_pos (by
          by_contra hno
          push Not at hno
          exact hc ⟨hno.1, hno.2.1, hno.2.2⟩)]
        show (total, q, rbb) = (u32 (total + 0), { q with blkNum := u32 (q.blkNum + 0) }, rbb)
        rw [Nat.add_zero, Nat.add_zero, ht, hq]

/-- **What `rt_rbb_blk_queue_get` does**: it takes the blocks of the next queue off the list. -/
theorem queueLoop_none (len : Nat) (q : BlkQueue) (hnd : l.Nodup) (hl : ∀ i ∈ l, i < rbb.blkSet.length) :
    (rbb.nextQueue len l = [] → queueLoop len l none 0 q rbb = (0, q, rbb)) ∧
      ∀ i L, rbb.nextQueue len l = i :: L → queueLoop len l none 0 q rbb =
        (u32 (rbb.sizeOf (i :: L)), ⟨i, u32 (i :: L).length⟩, rbb.markAll .get (i :: L)) := by
  induction l with
  | nil => exact ⟨fun _ => rfl, fun i L h => absurd h (by simp [Rbb.nextQueue])⟩
  | cons node rest ih =>
      obtain ⟨hnode, hnd'⟩ := List.nodup_cons.mp hnd
      have hlt := hl node List.mem_cons_self
      rw [Rbb.nextQueue, queueLoop]
      by_cases hput : (rbb.blk node).status = .put
      · rw [if_pos hput, if_pos hput]
        have hrun : ∀ j, (rbb.mark .get node).run j = rbb.run j := fun j => run_mark hlt
        have hl' : ∀ j ∈ rest, j < (rbb.mark .get node).blkSet.length := by
          intro j hj
          rw [length_mark]
          exact hl j (List.mem_cons_of_mem _ hj)
        have hfol : ∀ t, (rbb.mark .get node).following len node t rest =
            rbb.following len node t rest := by
          refine fun t => following_congr hrun fun j hj => ?_
          rw [blk_mark hlt, if_neg (fun he : j = node => hnode (he ▸ hj))]
        refine ⟨fun h => absurd h (List.cons_ne_nil _ _), fun i L h => ?_⟩
        obtain ⟨rfl, rfl⟩ := List.cons.inj h
        show queueLoop len rest (some node) (u32 (0 + (rbb.run node).len)) ⟨node, u32 (0 + 1)⟩
          (rbb.mark .get node) = _
        rw [queueLoop_some hnd' hl' u32_u32 u32_u32, hfol, sizeOf_congr fun j _ => hrun j]
        dsimp only
        rw [u32_add_u32, u32_add_u32, List.length_cons, Nat.zero_add, Nat.zero_add, Nat.add_comm 1]
        rfl
      · rw [if_neg hput, if_neg hput]
        exact ih hnd' fun j hj => hl j (List.mem_cons_of_mem _ hj)

/-! ## Length and release of a queue -/

/-- The places of the blocks of a queue. -/
def BlkQueue.places (q : BlkQueue) : List Nat := List.range' q.blocks q.blkNum

theorem foldl_u32 (f : Nat → Nat) : ∀ (l : List Nat) (t : Nat), u32 t = t →
    l.foldl (fun total i => u32 (total + f i)) t = u32 (t + (l.map f).sum)
  | [], t, ht => by
      rw [List.map_nil, List.sum_nil, Nat.add_zero, ht]
      rfl
  | i :: l, t, ht => by
      rw [List.foldl_cons, foldl_u32 f l _ u32_u32, u32_add_u32, List.map_cons, List.sum_cons,
        Nat.add_assoc]

theorem rtRbbBlkQueueLen_eq : rtRbbBlkQueueLen rbb q = u32 (rbb.sizeOf q.places) := by
  unfold rtRbbBlkQueueLen Rbb.sizeOf BlkQueue.places
  rw [foldl_u32 (fun i => (rbb.blk (q.blocks + i)).size) _ 0 rfl, Nat.zero_add,
    List.range'_eq_map_range, List.map_map]
  rfl

theorem rtRbbBlkQueueFree_eq (hq : ∀ i ∈ q.places, (rbb.blk i).status ≠ .unused) :
    rtRbbBlkQueueFree rbb q = some (rbb.markAll .unused q.places) := by
  have h₁ := foldlM_rtRbbBlkFree (L := q.places) List.nodup_range' hq
  have hplaces : q.places = (List.range q.blkNum).map (q.blocks + ·) := List.range'_eq_map_range
  unfold rtRbbBlkQueueFree
  rw [hplaces, List.foldlM_map] at h₁
  rw [hplaces]
  exact h₁

/-! ## Runs -/

/-- All calls. A caller has a variable for each of its queues. -/
inductive RbbCall
  | alloc (blkSize : Nat)
  | put (block : Nat)
  | get
  | free (block : Nat)
  | queueGet (queueDataLen queue : Nat)
  | queueFree (queue : Nat)

/-- The buffer and the variables of the callers; which blocks were handed out to which queue, their
bytes then, and what the call returned that filled a queue which is not freed yet. -/
structure RbbSys where
  rbb : Rbb
  queues : Nat → BlkQueue
  owner : Nat → Option Nat
  bytes : Nat → Run
  got : Nat → Option Nat

/-- The blocks that were on the list and are not any more. -/
def Rbb.left (rbb rbb' : Rbb) : List Nat := rbb.blkList.filter fun i => i ∉ rbb'.blkList

def RbbCall.exec (s : RbbSys) : RbbCall → Option RbbSys
  | .alloc blkSize => (rtRbbBlkAlloc s.rbb blkSize).map fun r => { s with rbb := r.2 }
  | .put block => (rtRbbBlkPut s.rbb block).map fun rbb => { s with rbb := rbb }
  | .get => some { s with rbb := (rtRbbBlkGet s.rbb).2 }
  | .free block => (rtRbbBlkFree s.rbb block).map fun rbb => { s with rbb := rbb }
  | .queueGet len k =>
      let r := rtRbbBlkQueueGet s.rbb len (s.queues k)
      some
        { rbb := r.2.2
          queues := Function.update s.queues k r.2.1
          owner := fun i => if i ∈ s.rbb.left r.2.2 then some k else s.owner i
          bytes := fun i => if i ∈ s.rbb.left r.2.2 then s.rbb.run i else s.bytes i
          got := Function.update s.got k (some r.1) }
  | .queueFree k =>
      (rtRbbBlkQueueFree s.rbb (s.queues k)).map fun rbb =>
        { s with
          rbb := rbb
          owner := fun i => if s.owner i = some k then none else s.owner i
          got := Function.update s.got k none }

def RbbSys.Init (s : RbbSys) : Prop :=
  (∃ buf bufSize blockSet, buf + bufSize ≤ 4294967296 ∧ blockSet.length < 4294967296 ∧
    s.rbb = rtRbbInit buf bufSize blockSet blockSet.length) ∧
  (∀ i, s.owner i = none) ∧ ∀ k, s.got k = none

/-- When the code keeps its promises:

* a block has a byte at least, and fits the buffer if the list is empty;
* the space it is taken from holds no block of a queue that is not freed yet;
* a block of a queue is freed with the queue, and a queue that was filled only once;
* the blocks of a new queue are neighbours in the block set, in whatever order;
* a queue variable that gets no block counts none, and one with blocks is not filled again. -/
def RbbCall.Careful (s : RbbSys) : RbbCall → Prop
  | .alloc blkSize =>
      1 ≤ blkSize ∧ (s.rbb.blkList = [] → blkSize ≤ s.rbb.bufSize) ∧
        (findEmptyBlkInSet s.rbb ≠ none → (s.rbb.gap blkSize).1 + blkSize ≤ (s.rbb.gap blkSize).2 →
          ∀ i < s.rbb.blkMaxNum, s.owner i ≠ none →
            (s.rbb.run i).stop ≤ (s.rbb.gap blkSize).1 ∨
              (s.rbb.gap blkSize).2 ≤ (s.rbb.run i).start)
  | .free block => s.owner block = none
  | .queueGet len k =>
      (s.rbb.nextQueue len s.rbb.blkList).Perm
          (List.range' ((s.rbb.nextQueue len s.rbb.blkList).headD 0)
            (s.rbb.nextQueue len s.rbb.blkList).length) ∧
        (s.rbb.nextQueue len s.rbb.blkList = [] → (s.queues k).blkNum = 0) ∧
        ∀ i < s.rbb.blkMaxNum, s.owner i ≠ some k
  | .queueFree k => s.got k = none → (s.queues k).blkNum = 0
  | _ => True

instance RbbCall.decidableCareful (s : RbbSys) : (c : RbbCall) → Decidable (c.Careful s)
  | .alloc _ => inferInstanceAs (Decidable (_ ∧ _ ∧ (_ → _ → _)))
  | .put _ => inferInstanceAs (Decidable True)
  | .get => inferInstanceAs (Decidable True)
  | .free _ => inferInstanceAs (Decidable (_ = _))
  | .queueGet _ _ => inferInstanceAs (Decidable (_ ∧ (_ → _) ∧ _))
  | .queueFree _ => inferInstanceAs (Decidable (_ → _))

/-- What is to hold of queues. -/
structure RbbSys.Owns (s : RbbSys) : Prop where
  /-- The blocks of a queue are in use, with the bytes they had. -/
  keep : ∀ i, s.owner i ≠ none → (s.rbb.blk i).status ≠ .unused ∧ s.rbb.run i = s.bytes i
  /-- Their bytes are no bytes of another block. -/
  apart : ∀ i j, s.owner i ≠ none → (s.rbb.blk j).status ≠ .unused → i ≠ j →
    (s.bytes i).Apart (s.rbb.run j)
  /-- The length of a queue is what was returned. -/
  length : ∀ k t, s.got k = some t → rtRbbBlkQueueLen s.rbb (s.queues k) = t
  /-- The queue can be freed, and exactly its blocks are unused then. -/
  free : ∀ k t, s.got k = some t → ∃ rbb', rtRbbBlkQueueFree s.rbb (s.queues k) = some rbb' ∧
    (∀ i, s.owner i = some k → (rbb'.blk i).status = .unused) ∧
    ∀ i, s.owner i ≠ some k → rbb'.blk i = s.rbb.blk i

/-- The invariant. -/
structure RbbSys.Inv (s : RbbSys) : Prop where
  listed : Listed s.rbb
  maxNum_lt : s.rbb.blkMaxNum < 4294967296
  used_iff : ∀ i, (s.rbb.blk i).status ≠ .unused ↔ i ∈ s.rbb.blkList ∨ s.owner i ≠ none
  not_listed : ∀ i, s.owner i ≠ none → i ∉ s.rbb.blkList
  bytes : ∀ i, s.owner i ≠ none → s.rbb.run i = s.bytes i
  apart : ∀ i j, (s.rbb.blk i).status ≠ .unused → (s.rbb.blk j).status ≠ .unused → i ≠ j →
    (s.rbb.run i).Apart (s.rbb.run j)
  got : ∀ k t, s.got k = some t → t = u32 (s.rbb.sizeOf (s.queues k).places) ∧
    ∀ i, s.owner i = some k ↔ i ∈ (s.queues k).places
  got_ne : ∀ i k, s.owner i = some k → s.got k ≠ none

variable {s s' : RbbSys} {new : Nat}

namespace RbbSys.Inv

theorem init (h₀ : s.Init) : s.Inv := by
  obtain ⟨⟨buf, bufSize, blockSet, hend, hlen, hrbb⟩, howner, hgot⟩ := h₀
  have hunused : ∀ i, (s.rbb.blk i).status = .unused := by
    intro i
    rw [hrbb]
    exact rtRbbInit_unused blockSet
  have hlist : s.rbb.blkList = [] := by
    rw [hrbb]
    rfl
  refine ⟨hrbb ▸ listed_init hend blockSet, ?_, fun i => ?_, fun i hi => ?_, fun i hi => ?_,
    fun i j hi => ?_, fun k t hk => ?_, fun i k hi => ?_⟩
  · rw [hrbb]
    exact hlen
  · simp [hunused, hlist, howner]
  · exact absurd (howner i) hi
  · exact absurd (howner i) hi
  · exact absurd (hunused i) hi
  · rw [hgot] at hk
    cases hk
  · rw [howner] at hi
    cases hi

section

variable (h : s.Inv)

include h

theorem lt_maxNum (hi : s.owner i ≠ none) : i < s.rbb.blkMaxNum :=
  h.listed.length_eq ▸ Rbb.lt_length ((h.used_iff i).mpr (Or.inr hi))

theorem lt_length (hi : i ∈ s.rbb.blkList) : i < s.rbb.blkSet.length :=
  Rbb.lt_length (h.listed.used i hi)

/-- The calls on single blocks that are no allocation. -/
theorem keep (hlisted : Listed rbb') (hmax : rbb'.blkMaxNum = s.rbb.blkMaxNum)
    (hrun : ∀ i, rbb'.run i = s.rbb.run i) (hsub : rbb'.blkList ⊆ s.rbb.blkList)
    (hused : ∀ i, (rbb'.blk i).status ≠ .unused ↔ i ∈ rbb'.blkList ∨ s.owner i ≠ none) :
    RbbSys.Inv { s with rbb := rbb' } := by
  have hold : ∀ i, (rbb'.blk i).status ≠ .unused → (s.rbb.blk i).status ≠ .unused := by
    intro i hi
    rcases (hused i).mp hi with hi | hi
    · exact (h.used_iff i).mpr (Or.inl (hsub hi))
    · exact (h.used_iff i).mpr (Or.inr hi)
  refine ⟨hlisted, hmax ▸ h.maxNum_lt, hused, fun i hi hmem => h.not_listed i hi (hsub hmem),
    fun i hi => (hrun i).trans (h.bytes i hi), fun i j hi hj hij => ?_, fun k t hk => ?_, h.got_ne⟩
  · show (rbb'.run i).Apart (rbb'.run j)
    rw [hrun, hrun]
    exact h.apart i j (hold i hi) (hold j hj) hij
  · obtain ⟨ht, hplaces⟩ := h.got k t hk
    refine ⟨?_, hplaces⟩
    rw [ht]
    exact congrArg u32 (sizeOf_congr fun j _ => hrun j).symm

/-- A block that is in use changes its status, and stays in use. -/
theorem status (hst : st ≠ .unused) (hi : (s.rbb.blk i).status ≠ .unused) :
    RbbSys.Inv { s with rbb := s.rbb.setBlk i { s.rbb.blk i with status := st } } := by
  have hblk : ∀ j, (s.rbb.setBlk i { s.rbb.blk i with status := st }).blk j =
      if j = i then { s.rbb.blk i with status := st } else s.rbb.blk j :=
    fun j => Rbb.blk_setBlk (Rbb.lt_length hi)
  refine h.keep (h.listed.status (l := s.rbb.blkList) hi (List.Sublist.refl _) fun _ => hst) rfl
    (fun j => ?_) (fun j hj => hj) fun j => ?_
  · unfold Rbb.run
    rw [hblk]
    split_ifs with he
    · rw [he]
    · rfl
  · show _ ↔ j ∈ s.rbb.blkList ∨ _
    rw [← h.used_iff j, hblk]
    split_ifs with he
    · rw [he]
      exact iff_of_true hst hi
    · rfl

theorem free (hi : (s.rbb.blk i).status ≠ .unused) (howner : s.owner i = none) :
    RbbSys.Inv { s with rbb := s.rbb.mark .unused i } := by
  have hlt := Rbb.lt_length hi
  have hlisted : Listed (s.rbb.mark .unused i) :=
    h.listed.status hi List.erase_sublist fun hmem => absurd hmem h.listed.nodup.not_mem_erase
  refine h.keep hlisted rfl (fun j => run_mark hlt) (List.erase_subset) fun j => ?_
  rw [blk_mark hlt]
  show _ ↔ j ∈ s.rbb.blkList.erase i ∨ _
  rw [h.listed.nodup.mem_erase_iff]
  split_ifs with he
  · rw [he]
    exact iff_of_false (by simp) (by simp [howner])
  · rw [h.used_iff j, and_iff_right he]

/-- **A new block** in space that no queue holds. -/
theorem alloc (hpos : 0 < n) (hnew : findEmptyBlkInSet s.rbb = some new)
    (hroom : (s.rbb.gap n).1 + n ≤ (s.rbb.gap n).2)
    (hgap : ∀ i < s.rbb.blkMaxNum, s.owner i ≠ none →
      (s.rbb.run i).stop ≤ (s.rbb.gap n).1 ∨ (s.rbb.gap n).2 ≤ (s.rbb.run i).start) :
    RbbSys.Inv { s with rbb := s.rbb.append new (s.rbb.gap n).1 n } := by
  obtain ⟨hlt, hunused⟩ := findEmptyBlkInSet_some hnew
  have hlisted := h.listed.append hpos hnew hroom
  have hfree : s.owner new = none := by
    by_contra hne
    exact (h.used_iff new).mpr (Or.inr hne) hunused
  have hblk : ∀ i, (s.rbb.append new (s.rbb.gap n).1 n).blk i =
      if i = new then ⟨.inited, n, (s.rbb.gap n).1⟩ else s.rbb.blk i :=
    fun i => Rbb.blk_setBlk (h.listed.length_eq ▸ hlt)
  have hold : ∀ i, i ≠ new → (s.rbb.append new (s.rbb.gap n).1 n).run i = s.rbb.run i := by
    intro i hi
    unfold Rbb.run
    rw [hblk, if_neg hi]
  have howned : ∀ i, s.owner i ≠ none → i ≠ new := fun i hi he => hi (he ▸ hfree)
  have hself : (s.rbb.append new (s.rbb.gap n).1 n).run new = ⟨(s.rbb.gap n).1, n⟩ := by
    unfold Rbb.run
    rw [hblk, if_pos rfl]
  have hmem : ∀ i, i ∈ (s.rbb.append new (s.rbb.gap n).1 n).blkList ↔
      i ∈ s.rbb.blkList ∨ i = new := by
    intro i
    show i ∈ s.rbb.blkList ++ [new] ↔ _
    rw [List.mem_append, List.mem_singleton]
  have hused : ∀ i, ((s.rbb.append new (s.rbb.gap n).1 n).blk i).status ≠ .unused ↔
      i ∈ (s.rbb.append new (s.rbb.gap n).1 n).blkList ∨ s.owner i ≠ none := by
    intro i
    rw [hblk, hmem]
    by_cases he : i = new
    · rw [if_pos he]
      exact iff_of_true (by simp) (Or.inl (Or.inr he))
    · rw [if_neg he, h.used_iff i, or_iff_left he]
  -- the new block and another one
  have hapart : ∀ j, ((s.rbb.append new (s.rbb.gap n).1 n).blk j).status ≠ .unused → new ≠ j →
      ((s.rbb.append new (s.rbb.gap n).1 n).run new).Apart
        ((s.rbb.append new (s.rbb.gap n).1 n).run j) := by
    intro j hj hne
    rcases (hused j).mp hj with hj | hj
    · exact hlisted.apart ((hmem new).mpr (Or.inr rfl)) hj hne
    · rw [hself, hold j (Ne.symm hne)]
      rcases hgap j (h.lt_maxNum hj) hj with hg | hg
      · exact Or.inr hg
      · exact Or.inl (hroom.trans hg)
  refine ⟨hlisted, h.maxNum_lt, hused, fun i hi hin => ?_, fun i hi => ?_, fun i j hi hj hij => ?_,
    fun k t hk => ?_, h.got_ne⟩
  · rcases (hmem i).mp hin with hin | hin
    · exact h.not_listed i hi hin
    · exact howned i hi hin
  · exact (hold i (howned i hi)).trans (h.bytes i hi)
  · by_cases hin : i = new
    · subst hin
      exact hapart j hj hij
    by_cases hjn : j = new
    · subst hjn
      exact (hapart i hi (Ne.symm hij)).symm
    · have hi' : (s.rbb.blk i).status ≠ .unused := by
        have h₁ := hi
        dsimp only at h₁
        rwa [hblk, if_neg hin] at h₁
      have hj' : (s.rbb.blk j).status ≠ .unused := by
        have h₁ := hj
        dsimp only at h₁
        rwa [hblk, if_neg hjn] at h₁
      show ((s.rbb.append new (s.rbb.gap n).1 n).run i).Apart _
      rw [hold i hin, hold j hjn]
      exact h.apart i j hi' hj' hij
  · obtain ⟨ht, hplaces⟩ := h.got k t hk
    refine ⟨?_, hplaces⟩
    rw [ht]
    refine congrArg u32 (sizeOf_congr fun j hj => ?_).symm
    exact hold j (howned j (by rw [(hplaces j).mpr hj]; simp))

/-- A call that finds no block for a queue. -/
theorem queueGet_nil (hnum : (s.queues k).blkNum = 0) (howner : ∀ i, s.owner i ≠ some k) :
    RbbSys.Inv { s with
      queues := Function.update s.queues k (s.queues k), got := Function.update s.got k (some 0) } := by
  refine ⟨h.listed, h.maxNum_lt, h.used_iff, h.not_listed, h.bytes, h.apart, fun k' t hk' => ?_,
    fun i k' hi => ?_⟩
  · dsimp only at hk' ⊢
    rw [Function.update_eq_self]
    by_cases he : k' = k
    · subst he
      have ht : t = 0 := by
        rw [Function.update_self] at hk'
        exact (Option.some.inj hk').symm
      have hplaces : (s.queues k').places = [] := by
        unfold BlkQueue.places
        rw [hnum]
        rfl
      rw [hplaces, ht]
      exact ⟨rfl, fun i => iff_of_false (howner i) (List.not_mem_nil)⟩
    · rw [Function.update_of_ne he] at hk'
      exact h.got k' t hk'
  · show Function.update s.got k (some 0) k' ≠ none
    by_cases he : k' = k
    · subst he
      rw [Function.update_self]
      simp
    · rw [Function.update_of_ne he]
      exact h.got_ne i k' hi

/-- **Blocks handed out to a queue.** -/
theorem queueGet_cons (hL : L ⊆ s.rbb.blkList) (howner : ∀ i, s.owner i ≠ some k)
    (hq : ∀ i, i ∈ L ↔ i ∈ q.places) (hsum : s.rbb.sizeOf q.places = s.rbb.sizeOf L) :
    RbbSys.Inv
      { rbb := s.rbb.markAll .get L
        queues := Function.update s.queues k q
        owner := fun i => if i ∈ L then some k else s.owner i
        bytes := fun i => if i ∈ L then s.rbb.run i else s.bytes i
        got := Function.update s.got k (some (u32 (s.rbb.sizeOf L))) } := by
  have hlt : ∀ i ∈ L, i < s.rbb.blkSet.length := fun i hi => h.lt_length (hL hi)
  have hrun : ∀ i, (s.rbb.markAll .get L).run i = s.rbb.run i := fun i => run_markAll hlt
  have hmem : ∀ i, i ∈ (s.rbb.markAll .get L).blkList ↔ i ∈ s.rbb.blkList ∧ i ∉ L := by
    intro i
    rw [blkList_markAll, h.listed.nodup.mem_sdiff_iff]
  have hused : ∀ i, ((s.rbb.markAll .get L).blk i).status ≠ .unused ↔
      (s.rbb.blk i).status ≠ .unused := by
    intro i
    rw [blk_markAll hlt]
    split_ifs with hi
    · exact iff_of_true (by simp) (h.listed.used i (hL hi))
    · rfl
  refine ⟨h.listed.markAll hlt, sameBuffer_markAll.blkMaxNum.trans_lt h.maxNum_lt, fun i => ?_,
    fun i hi => ?_, fun i hi => ?_, fun i j hi hj hij => ?_, fun k' t hk' => ?_, fun i k' hi => ?_⟩
  · rw [hused, h.used_iff, hmem]
    by_cases hi : i ∈ L
    · exact iff_of_true (Or.inl (hL hi)) (Or.inr (by simp [hi]))
    · simp [hi]
  · show i ∉ (s.rbb.markAll .get L).blkList
    rw [hmem]
    rintro ⟨hlist, hi'⟩
    have h₁ : s.owner i ≠ none := by simpa [hi'] using hi
    exact h.not_listed i h₁ hlist
  · show (s.rbb.markAll .get L).run i = if i ∈ L then s.rbb.run i else s.bytes i
    rw [hrun]
    split_ifs with hi'
    · rfl
    · exact h.bytes i (by simpa [hi'] using hi)
  · show ((s.rbb.markAll .get L).run i).Apart _
    rw [hrun, hrun]
    exact h.apart i j ((hused i).mp hi) ((hused j).mp hj) hij
  · have hsize : ∀ l, (s.rbb.markAll .get L).sizeOf l = s.rbb.sizeOf l :=
      fun l => sizeOf_congr fun j _ => hrun j
    dsimp only at hk' ⊢
    rw [hsize]
    by_cases he : k' = k
    · subst he
      rw [Function.update_self] at hk' ⊢
      refine ⟨?_, fun i => ?_⟩
      · rw [hsum]
        exact (Option.some.inj hk').symm
      · rw [← hq]
        by_cases hi : i ∈ L
        · simp [hi]
        · simp [hi, howner i]
    · rw [Function.update_of_ne he] at hk' ⊢
      obtain ⟨ht, hplaces⟩ := h.got k' t hk'
      refine ⟨ht, fun i => ?_⟩
      rw [← hplaces]
      split_ifs with hi
      · -- a block that was on the list belongs to no queue
        refine iff_of_false (fun hk => he (Option.some.inj hk).symm) fun hk => ?_
        exact h.not_listed i (by rw [hk]; simp) (hL hi)
      · rfl
  · show Function.update s.got k (some (u32 (s.rbb.sizeOf L))) k' ≠ none
    by_cases he : k' = k
    · subst he
      rw [Function.update_self]
      simp
    · rw [Function.update_of_ne he]
      dsimp only at hi
      split_ifs at hi with hi'
      · exact absurd (Option.some.inj hi).symm he
      · exact h.got_ne i k' hi

theorem queueGet (hc : RbbCall.Careful s (.queueGet len k)) (he : RbbCall.exec s (.queueGet len k) = some s') :
    s'.Inv := by
  obtain ⟨hperm, hnum, howner⟩ := hc
  have howner' : ∀ i, s.owner i ≠ some k :=
    fun i hi => howner i (h.lt_maxNum (by rw [hi]; simp)) hi
  have hspec := queueLoop_none len (s.queues k) h.listed.nodup fun i hi =>
    h.lt_length hi
  have hsub := (nextQueue_sublist s.rbb len s.rbb.blkList).subset
  cases hL : s.rbb.nextQueue len s.rbb.blkList with
  | nil =>
      have hget : rtRbbBlkQueueGet s.rbb len (s.queues k) = (0, s.queues k, s.rbb) := hspec.1 hL
      have hleft : ∀ i, i ∉ s.rbb.left s.rbb := fun i hi => by
        obtain ⟨h₁, h₂⟩ := List.mem_filter.mp hi
        exact absurd h₁ (of_decide_eq_true h₂)
      simp only [RbbCall.exec, hget, hleft, if_false, Option.some.injEq] at he
      rw [← he]
      exact h.queueGet_nil (hnum hL) howner'
  | cons i L =>
      rw [hL] at hperm hsub
      have hget : rtRbbBlkQueueGet s.rbb len (s.queues k) = (u32 (s.rbb.sizeOf (i :: L)),
          ⟨i, u32 (i :: L).length⟩, s.rbb.markAll .get (i :: L)) := hspec.2 i L hL
      have hleft : ∀ j, j ∈ s.rbb.left (s.rbb.markAll .get (i :: L)) ↔ j ∈ i :: L := by
        intro j
        unfold Rbb.left
        rw [List.mem_filter, blkList_markAll, decide_eq_true_iff, h.listed.nodup.mem_sdiff_iff]
        constructor
        · rintro ⟨hj, hno⟩
          by_contra hjL
          exact hno ⟨hj, hjL⟩
        · exact fun hj => ⟨hsub hj, fun hno => hno.2 hj⟩
      -- there are no more blocks than a word can count
      have hcount : u32 (i :: L).length = (i :: L).length := by
        have hnd := h.listed.nodup.sublist (hL ▸ nextQueue_sublist s.rbb len s.rbb.blkList)
        have h₁ : (i :: L).length ≤ (List.range s.rbb.blkMaxNum).length := by
          refine (List.subperm_of_subset hnd fun j hj => ?_).length_le
          exact List.mem_range.mpr (h.listed.length_eq ▸ h.lt_length (hsub hj))
        rw [List.length_range] at h₁
        exact Nat.mod_eq_of_lt (Nat.lt_of_le_of_lt h₁ h.maxNum_lt)
      have hplaces : (⟨i, u32 (i :: L).length⟩ : BlkQueue).places = List.range' i (i :: L).length := by
        unfold BlkQueue.places
        rw [hcount]
      have hsum : s.rbb.sizeOf (List.range' i (i :: L).length) = s.rbb.sizeOf (i :: L) :=
        (hperm.map fun j => (s.rbb.run j).len).sum_eq.symm
      simp only [RbbCall.exec, hget, hleft, Option.some.injEq] at he
      rw [← he]
      refine h.queueGet_cons hsub howner' (fun j => ?_) ?_
      · rw [hplaces]
        exact hperm.mem_iff
      · rw [hplaces]
        exact hsum

/-- The blocks that a variable tells. -/
theorem mem_places (hc : s.got k = none → (s.queues k).blkNum = 0) (i : Nat) :
    s.owner i = some k ↔ i ∈ (s.queues k).places := by
  cases hk : s.got k with
  | none =>
      refine iff_of_false (fun hi => h.got_ne i k hi hk) ?_
      unfold BlkQueue.places
      rw [hc hk]
      exact List.not_mem_nil
  | some t => exact (h.got k t hk).2 i

/-- **A queue is freed**: exactly its blocks become unused. -/
theorem queueFree_eq (hc : s.got k = none → (s.queues k).blkNum = 0) :
    rtRbbBlkQueueFree s.rbb (s.queues k) = some (s.rbb.markAll .unused (s.queues k).places) := by
  refine rtRbbBlkQueueFree_eq fun i hi => (h.used_iff i).mpr (Or.inr ?_)
  rw [(h.mem_places hc i).mpr hi]
  simp

theorem lt_length_places (hc : s.got k = none → (s.queues k).blkNum = 0) :
    ∀ i ∈ (s.queues k).places, i < s.rbb.blkSet.length := by
  intro i hi
  rw [h.listed.length_eq]
  exact h.lt_maxNum (by rw [(h.mem_places hc i).mpr hi]; simp)

theorem queueFree (hc : s.got k = none → (s.queues k).blkNum = 0) :
    RbbSys.Inv { s with
      rbb := s.rbb.markAll .unused (s.queues k).places
      owner := fun i => if s.owner i = some k then none else s.owner i
      got := Function.update s.got k none } := by
  obtain ⟨L, hLdef⟩ : ∃ L, L = (s.queues k).places := ⟨_, rfl⟩
  have hL := h.mem_places hc
  have hlt := h.lt_length_places hc
  rw [← hLdef] at hlt hL ⊢
  have hrun : ∀ i, (s.rbb.markAll .unused L).run i = s.rbb.run i := fun i => run_markAll hlt
  have hmem : ∀ i, i ∈ (s.rbb.markAll .unused L).blkList ↔ i ∈ s.rbb.blkList := by
    intro i
    rw [blkList_markAll, h.listed.nodup.mem_sdiff_iff]
    refine and_iff_left_of_imp fun hi hiL => ?_
    exact h.not_listed i (by rw [(hL i).mpr hiL]; simp) hi
  have hused : ∀ i, ((s.rbb.markAll .unused L).blk i).status ≠ .unused ↔
      (s.rbb.blk i).status ≠ .unused ∧ i ∉ L := by
    intro i
    rw [blk_markAll hlt]
    split_ifs with hi
    · exact iff_of_false (by simp) fun hno => hno.2 hi
    · exact (and_iff_left hi).symm
  have howner : ∀ i, (if s.owner i = some k then none else s.owner i) ≠ none ↔
      s.owner i ≠ none ∧ i ∉ L := by
    intro i
    rw [← hL]
    split_ifs with hi
    · simp [hi]
    · simp [hi]
  refine ⟨h.listed.markAll hlt, sameBuffer_markAll.blkMaxNum.trans_lt h.maxNum_lt, fun i => ?_,
    fun i hi => ?_, fun i hi => ?_, fun i j hi hj hij => ?_, fun k' t hk' => ?_, fun i k' hi => ?_⟩
  · rw [hused, hmem, howner, h.used_iff]
    constructor
    · rintro ⟨hi | hi, hiL⟩
      · exact Or.inl hi
      · exact Or.inr ⟨hi, hiL⟩
    · rintro (hi | hi)
      · exact ⟨Or.inl hi, fun hiL => h.not_listed i (by rw [(hL i).mpr hiL]; simp) hi⟩
      · exact ⟨Or.inr hi.1, hi.2⟩
  · show i ∉ (s.rbb.markAll .unused L).blkList
    rw [hmem]
    exact h.not_listed i ((howner i).mp hi).1
  · exact (hrun i).trans (h.bytes i ((howner i).mp hi).1)
  · show ((s.rbb.markAll .unused L).run i).Apart _
    rw [hrun, hrun]
    exact h.apart i j ((hused i).mp hi).1 ((hused j).mp hj).1 hij
  · have hne : k' ≠ k := by
      rintro rfl
      dsimp only at hk'
      rw [Function.update_self] at hk'
      cases hk'
    dsimp only at hk'
    rw [Function.update_of_ne hne] at hk'
    obtain ⟨ht, hplaces⟩ := h.got k' t hk'
    refine ⟨?_, fun i => ?_⟩
    · rw [ht]
      exact congrArg u32 (sizeOf_congr fun j _ => hrun j).symm
    · dsimp only
      rw [← hplaces]
      split_ifs with hi
      · rw [hi]
        exact iff_of_false (by simp) fun hk => hne (Option.some.inj hk).symm
      · rfl
  · dsimp only at hi ⊢
    split_ifs at hi with hi'
    have hne : k' ≠ k := fun he => hi' (he ▸ hi)
    rw [Function.update_of_ne hne]
    exact h.got_ne i k' hi

/-- **Every careful call keeps the invariant.** -/
theorem step {c : RbbCall} (hc : c.Careful s) (he : c.exec s = some s') : s'.Inv := by
  cases c with
  | alloc n =>
      obtain ⟨hpos, hfit, hgap⟩ := hc
      obtain ⟨⟨ans, rbb'⟩, hr, rfl⟩ := Option.map_eq_some_iff.mp he
      rcases h.listed.alloc hpos hfit hr with ⟨-, rfl⟩ | ⟨new, -, hnew, hroom, rfl⟩
      · exact h
      · exact h.alloc hpos hnew hroom (hgap (by rw [hnew]; simp) hroom)
  | put i =>
      obtain ⟨rbb', hr, rfl⟩ := Option.map_eq_some_iff.mp he
      unfold rtRbbBlkPut at hr
      split_ifs at hr with hst
      cases hr
      exact h.status (by simp) (by rw [hst]; simp)
  | get =>
      cases he
      unfold rtRbbBlkGet
      split
      · rename_i i hi
        have hput : (s.rbb.blk i).status = .put := by simpa using List.find?_some hi
        exact h.status (by simp) (by rw [hput]; simp)
      · exact h
  | free i =>
      obtain ⟨rbb', hr, rfl⟩ := Option.map_eq_some_iff.mp he
      unfold rtRbbBlkFree at hr
      split_ifs at hr with hst
      cases hr
      exact h.free hst hc
  | queueGet len k => exact h.queueGet hc he
  | queueFree k =>
      obtain ⟨rbb', hr, rfl⟩ := Option.map_eq_some_iff.mp he
      rw [h.queueFree_eq hc] at hr
      cases hr
      exact h.queueFree hc

theorem owns : s.Owns where
  keep i hi := ⟨(h.used_iff i).mpr (Or.inr hi), h.bytes i hi⟩
  apart i j hi hj hij := by
    rw [← h.bytes i hi]
    exact h.apart i j ((h.used_iff i).mpr (Or.inr hi)) hj hij
  length k t hk := by
    rw [rtRbbBlkQueueLen_eq]
    exact (h.got k t hk).1.symm
  free k t hk := by
    have hc : s.got k = none → (s.queues k).blkNum = 0 := fun hn => by
      rw [hn] at hk
      cases hk
    refine ⟨_, h.queueFree_eq hc, fun i hi => ?_, fun i hi => ?_⟩
    · rw [blk_markAll (h.lt_length_places hc), if_pos ((h.mem_places hc i).mp hi)]
    · rw [blk_markAll (h.lt_length_places hc), if_neg fun hm => hi ((h.mem_places hc i).mpr hm)]

end

end RbbSys.Inv

/-- **A block queue owns its memory until it is freed**, in runs of careful calls. -/
theorem block_queue_owns
    (hr : Trans.Reachable RbbSys.Init (fun s c s' => RbbCall.exec s c = some s' ∧ c.Careful s) s) :
    s.Owns := by
  have hinv : s.Inv :=
    hr.invariant (fun _ h₀ => .init h₀) fun _ _ _ _ h hc => h.step hc.2 hc.1
  exact hinv.owns

/-- A buffer of 32 bytes with six blocks. -/
def sixBlocks : RbbSys :=
  ⟨rtRbbInit 0x20000000 32 (List.replicate 6 ⟨.unused, 0, 0⟩) 6, fun _ => ⟨0, 0⟩, fun _ => none,
    fun _ => ⟨0, 0⟩, fun _ => none⟩

theorem sixBlocks_init : sixBlocks.Init :=
  ⟨⟨0x20000000, 32, List.replicate 6 ⟨.unused, 0, 0⟩, by decide, by decide, rfl⟩, fun _ => rfl,
    fun _ => rfl⟩

/-- The second and the third of four blocks are handed out, and a fifth one is allocated. -/
theorem block_queue_owns_between :
    ∃ s : RbbSys, s.Owns ∧ s.got 0 = some 8 ∧ s.owner 1 = some 0 ∧ s.owner 2 = some 0 ∧
      s.rbb.blkList = [0, 3, 4] := by
  have hrun : (Trans.runList (Trans.stepIf RbbCall.exec fun s c => c.Careful s) sixBlocks
      [.alloc 4, .alloc 4, .alloc 4, .alloc 4, .put 1, .put 2, .queueGet 16 0, .alloc 6]).map
        (fun s => decide (s.got 0 = some 8 ∧ s.owner 1 = some 0 ∧ s.owner 2 = some 0 ∧
          s.rbb.blkList = [0, 3, 4])) = some true := by
    decide +kernel
  obtain ⟨s, hs, hdec⟩ := Option.map_eq_some_iff.mp hrun
  have hr : Trans.Reachable RbbSys.Init _ s := Trans.reachable_of_runList_stepIf sixBlocks_init hs
  exact ⟨s, block_queue_owns hr, of_decide_eq_true hdec⟩

/-- A block that was handed out, and the next block at the same address. -/
theorem block_queue_overlaps :
    ¬ ∀ s, Trans.Reachable RbbSys.Init (fun s c s' => RbbCall.exec s c = some s') s → s.Owns := by
  have hrun : (Trans.runList RbbCall.exec sixBlocks
      [.alloc 4, .put 0, .queueGet 16 0, .alloc 4]).map (fun s =>
        decide (s.owner 0 ≠ none ∧ (s.rbb.blk 1).status ≠ .unused ∧
          ¬ (s.bytes 0).Apart (s.rbb.run 1))) = some true := by
    decide +kernel
  obtain ⟨s, hs, hdec⟩ := Option.map_eq_some_iff.mp hrun
  obtain ⟨howner, hused, hover⟩ := of_decide_eq_true hdec
  intro hclaim
  have howns := hclaim s (Trans.reachable_of_runList (.init sixBlocks_init) hs)
  exact hover (howns.apart 0 1 howner hused (by decide))

end RTThread.Drivers
