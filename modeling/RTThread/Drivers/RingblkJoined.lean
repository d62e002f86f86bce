import RTThread.Drivers.RingblkRoom

set_option autoImplicit false

/-! # What a block queue holds

`rt_rbb_blk_queue_get` is to hand out bytes that lie behind one another, no more than asked for. It
does not compare the first block with the limit, and a block goes into the queue when it does not lie
below the last one, whatever was freed between the two.
-/

namespace RTThread.Drivers

open Memheap (u32)
open Runs (Run)

variable {rbb rbb' : Rbb} {i last total len : Nat} {q : BlkQueue} {l L : List Nat}

/-- The bytes of block `j` begin where those of block `i` end. -/
def Rbb.Meets (rbb : Rbb) (i j : Nat) : Prop := (rbb.run i).stop = (rbb.run j).start

instance Rbb.decidableMeets (rbb : Rbb) (i j : Nat) : Decidable (rbb.Meets i j) :=
  inferInstanceAs (Decidable (_ = _))

/-- The blocks a queue collects are those that leave the list. -/
def Rbb.collected (rbb : Rbb) (len : Nat) (q : BlkQueue) : List Nat :=
  rbb.left (rtRbbBlkQueueGet rbb len q).2.2

/-- What is asked of `rt_rbb_blk_queue_get`. -/
structure Rbb.QueueOk (rbb : Rbb) (len : Nat) (q : BlkQueue) : Prop where
  first : ∃ pre post, rbb.blkList = pre ++ rbb.collected len q ++ post ∧
    (∀ i ∈ pre, (rbb.blk i).status ≠ .put) ∧ ∀ i ∈ rbb.collected len q, (rbb.blk i).status = .put
  joined : (rbb.collected len q).IsChain rbb.Meets
  total : (rtRbbBlkQueueGet rbb len q).1 = rbb.sizeOf (rbb.collected len q)
  within : (rtRbbBlkQueueGet rbb len q).1 ≤ len
  next : len = 0xffffffff → (rtRbbBlkQueueGet rbb len q).1 = rtRbbNextBlkQueueLen rbb

/-- Behind a block that was taken: where a block was put, does not lie below the last one, and with it
the total as a word is within the limit, there it begins where the last one ends, and the total
itself is within the limit. -/
def Rbb.Joined (rbb : Rbb) (len : Nat) : Nat → Nat → List Nat → Prop
  | _, _, [] => True
  | last, total, node :: rest =>
      (rbb.blk node).status = .put → (rbb.run last).start ≤ (rbb.run node).start →
        u32 (total + (rbb.run node).len) ≤ len →
          rbb.Meets last node ∧ total + (rbb.run node).len ≤ len ∧
            rbb.Joined len node (total + (rbb.run node).len) rest

/-- The first block that was put is within the limit, and what follows is joined. -/
def Rbb.Tight (rbb : Rbb) (len : Nat) : List Nat → Prop
  | [] => True
  | node :: rest =>
      if (rbb.blk node).status = .put then
        (rbb.run node).len ≤ len ∧ rbb.Joined len node (rbb.run node).len rest
      else rbb.Tight len rest

instance Rbb.decidableJoined (rbb : Rbb) (len : Nat) : ∀ last total l,
    Decidable (rbb.Joined len last total l)
  | _, _, [] => inferInstanceAs (Decidable True)
  | _, total, node :: rest =>
      haveI := rbb.decidableJoined len node (total + (rbb.run node).len) rest
      inferInstanceAs (Decidable (_ → _ → _ → _ ∧ _ ∧ _))

instance Rbb.decidableTight (rbb : Rbb) (len : Nat) : ∀ l, Decidable (rbb.Tight len l)
  | [] => inferInstanceAs (Decidable True)
  | node :: rest =>
      haveI := rbb.decidableTight len rest
      inferInstanceAs (Decidable (if (rbb.blk node).status = .put then _ ∧ _ else _))

/-! ## The loops -/

/-- The second walk takes the blocks of the first one without a limit. -/
theorem nextLenLoop_some (ht : u32 total = total) :
    nextLenLoop rbb l (some last) total =
      u32 (total + rbb.sizeOf (rbb.following 0xffffffff last total l)) := by
  induction l generalizing last total with
  | nil => exact ht.symm
  | cons node rest ih =>
      rw [nextLenLoop, Rbb.following]
      have hmax : u32 (total + (rbb.run node).len) ≤ 0xffffffff :=
        Nat.le_of_lt_succ (Nat.mod_lt _ (by decide))
      by_cases hc : (rbb.blk node).status = .put ∧ (rbb.run last).start ≤ (rbb.run node).start
      · rw [if_neg (by
          rintro (h₁ | h₁)
          · exact h₁ hc.1
          · exact absurd hc.2 (Nat.not_le.mpr h₁)), if_pos ⟨hc.1, hc.2, hmax⟩]
        show nextLenLoop rbb rest (some node) (u32 (total + (rbb.run node).len)) = _
        rw [ih u32_u32, u32_add_u32]
        unfold Rbb.sizeOf
        rw [List.map_cons, List.sum_cons, Nat.add_assoc]
      · rw [if_pos (by
          by_contra hno
          push Not at hno
          exact hc hno), if_neg fun h₁ => hc ⟨h₁.1, h₁.2.1⟩]
        exact ht.symm

theorem nextLenLoop_none :
    nextLenLoop rbb l none 0 = u32 (rbb.sizeOf (rbb.nextQueue 0xffffffff l)) := by
  induction l with
  | nil => rfl
  | cons node rest ih =>
      rw [nextLenLoop, Rbb.nextQueue]
      by_cases hput : (rbb.blk node).status = .put
      · rw [if_neg (not_not.mpr hput), if_pos hput]
        show nextLenLoop rbb rest (some node) (u32 (0 + (rbb.run node).len)) = _
        rw [nextLenLoop_some u32_u32, u32_add_u32, Nat.zero_add]
        rfl
      · rw [if_pos hput, if_neg hput]
        exact ih

theorem following_prefix (last total : Nat) : rbb.following len last total l <+: l ∧
    ∀ i ∈ rbb.following len last total l, (rbb.blk i).status = .put := by
  induction l generalizing last total with
  | nil => exact ⟨List.prefix_rfl, List.forall_mem_nil _⟩
  | cons node rest ih =>
      rw [Rbb.following]
      split_ifs with hc
      · exact ⟨List.cons_prefix_cons.mpr ⟨rfl, (ih _ _).1⟩, List.forall_mem_cons.mpr ⟨hc.1, (ih _ _).2⟩⟩
      · exact ⟨List.nil_prefix, List.forall_mem_nil _⟩

/-- The next queue is a stretch of the list that begins at the first block that was put. -/
theorem nextQueue_split (rbb : Rbb) (len : Nat) (l : List Nat) :
    ∃ pre post, l = pre ++ rbb.nextQueue len l ++ post ∧
      (∀ i ∈ pre, (rbb.blk i).status ≠ .put) ∧
        ∀ i ∈ rbb.nextQueue len l, (rbb.blk i).status = .put := by
  induction l with
  | nil => exact ⟨[], [], rfl, List.forall_mem_nil _, List.forall_mem_nil _⟩
  | cons node rest ih =>
      rw [Rbb.nextQueue]
      split_ifs with hput
      · obtain ⟨⟨post, hpost⟩, hall⟩ :=
          following_prefix node (u32 (0 + (rbb.run node).len)) (l := rest)
        refine ⟨[], post, ?_, List.forall_mem_nil _, List.forall_mem_cons.mpr ⟨hput, hall⟩⟩
        rw [List.nil_append, List.cons_append, hpost]
      · obtain ⟨pre, post, hl, hpre, hall⟩ := ih
        refine ⟨node :: pre, post, ?_, List.forall_mem_cons.mpr ⟨hput, hpre⟩, hall⟩
        rw [List.cons_append, List.cons_append, ← hl]

/-- Where the blocks that follow are joined they lie behind one another within the limit, and only
there. -/
theorem joined_iff (ht : total ≤ len) (hlen : len < 4294967296) :
    rbb.Joined len last total l ↔ (last :: rbb.following len last total l).IsChain rbb.Meets ∧
      total + rbb.sizeOf (rbb.following len last total l) ≤ len := by
  induction l generalizing last total with
  | nil => exact iff_of_true trivial ⟨List.isChain_singleton _, ht⟩
  | cons node rest ih =>
      rw [Rbb.Joined, Rbb.following]
      by_cases hc : (rbb.blk node).status = .put ∧ (rbb.run last).start ≤ (rbb.run node).start ∧
          u32 (total + (rbb.run node).len) ≤ len
      · rw [if_pos hc]
        have hsum : ∀ L, rbb.sizeOf (node :: L) = (rbb.run node).len + rbb.sizeOf L := fun _ => rfl
        have hword : total + (rbb.run node).len ≤ len →
            u32 (total + (rbb.run node).len) = total + (rbb.run node).len :=
          fun h₁ => Nat.mod_eq_of_lt (h₁.trans_lt hlen)
        rw [List.isChain_cons_cons, hsum]
        constructor
        · intro h
          obtain ⟨hmeets, hle, hrest⟩ := h hc.1 hc.2.1 hc.2.2
          obtain ⟨hchain, hle'⟩ := (ih hle).mp hrest
          rw [hword hle]
          exact ⟨⟨hmeets, hchain⟩, by omega⟩
        · rintro ⟨⟨hmeets, hchain⟩, hle'⟩ - - -
          have hle : total + (rbb.run node).len ≤ len := by omega
          rw [hword hle] at hchain hle'
          exact ⟨hmeets, hle, (ih hle).mpr ⟨hchain, by omega⟩⟩
      · rw [if_neg hc]
        refine iff_of_true (fun h₁ h₂ h₃ => absurd ⟨h₁, h₂, h₃⟩ hc) ⟨List.isChain_singleton _, ht⟩

theorem tight_iff (hlen : len < 4294967296) :
    rbb.Tight len l ↔ (rbb.nextQueue len l).IsChain rbb.Meets ∧ rbb.sizeOf (rbb.nextQueue len l) ≤ len := by
  induction l with
  | nil => exact iff_of_true trivial ⟨List.isChain_nil, Nat.zero_le _⟩
  | cons node rest ih =>
      rw [Rbb.Tight, Rbb.nextQueue]
      split_ifs with hput
      · have hsum : ∀ L, rbb.sizeOf (node :: L) = (rbb.run node).len + rbb.sizeOf L := fun _ => rfl
        have hword : (rbb.run node).len ≤ len → u32 (0 + (rbb.run node).len) = (rbb.run node).len :=
          fun h₁ => (Nat.mod_eq_of_lt (by omega)).trans (Nat.zero_add _)
        rw [hsum]
        constructor
        · rintro ⟨hle, hjoined⟩
          rw [hword hle]
          exact (joined_iff hle hlen).mp hjoined
        · rintro ⟨hchain, hle'⟩
          have hle : (rbb.run node).len ≤ len := by omega
          rw [hword hle] at hchain hle'
          exact ⟨hle, (joined_iff hle hlen).mpr ⟨hchain, hle'⟩⟩
      · exact ih

/-! ## The queue -/

/-- A list of blocks of the block set, none of them twice. -/
structure Rbb.Chained (rbb : Rbb) : Prop where
  nodup : rbb.blkList.Nodup
  lt_length : ∀ i ∈ rbb.blkList, i < rbb.blkSet.length

/-- What the call returns, and which blocks it takes. -/
theorem queueGet_eq (h : rbb.Chained) (len : Nat) (q : BlkQueue) :
    (rtRbbBlkQueueGet rbb len q).1 = u32 (rbb.sizeOf (rbb.nextQueue len rbb.blkList)) ∧
      rbb.collected len q = rbb.nextQueue len rbb.blkList := by
  have hspec := queueLoop_none len q h.nodup h.lt_length
  obtain ⟨pre, post, hl, -, -⟩ := nextQueue_split rbb len rbb.blkList
  unfold Rbb.collected Rbb.left rtRbbBlkQueueGet
  cases hL : rbb.nextQueue len rbb.blkList with
  | nil =>
      rw [hspec.1 hL]
      refine ⟨rfl, List.filter_eq_nil_iff.mpr fun i hi => ?_⟩
      simp [hi]
  | cons i L =>
      rw [hspec.2 i L hL]
      refine ⟨rfl, ?_⟩
      have hmem : ∀ j ∈ rbb.blkList,
          (decide (j ∉ (rbb.markAll .get (i :: L)).blkList) = true ↔ j ∈ i :: L) := by
        intro j hj
        rw [blkList_markAll, decide_eq_true_iff, h.nodup.mem_sdiff_iff]
        exact ⟨fun hno => by_contra fun hj' => hno ⟨hj, hj'⟩, fun hj' hno => hno.2 hj'⟩
      -- the blocks before and behind the queue stay
      have hnd := h.nodup
      rw [hL] at hl
      rw [hl] at hmem hnd ⊢
      obtain ⟨hnd₁, -, hpost⟩ := List.nodup_append.mp hnd
      obtain ⟨-, -, hpre⟩ := List.nodup_append.mp hnd₁
      rw [List.filter_append, List.filter_append]
      have e₁ : pre.filter (fun j => decide (j ∉ (rbb.markAll .get (i :: L)).blkList)) = [] := by
        refine List.filter_eq_nil_iff.mpr fun j hj hd => ?_
        have hj' := (hmem j (List.mem_append_left _ (List.mem_append_left _ hj))).mp hd
        exact hpre j hj j hj' rfl
      have e₂ : (i :: L).filter (fun j => decide (j ∉ (rbb.markAll .get (i :: L)).blkList)) = i :: L :=
        List.filter_eq_self.mpr fun j hj =>
          (hmem j (List.mem_append_left _ (List.mem_append_right _ hj))).mpr hj
      have e₃ : post.filter (fun j => decide (j ∉ (rbb.markAll .get (i :: L)).blkList)) = [] := by
        refine List.filter_eq_nil_iff.mpr fun j hj hd => ?_
        have hj' := (hmem j (List.mem_append_right _ hj)).mp hd
        exact hpost j (List.mem_append_right _ hj') j hj rfl
      rw [e₁, e₂, e₃, List.nil_append, List.append_nil]

/-- **A queue is what it is to be** exactly where its blocks are joined within the limit. -/
theorem blk_queue_get_iff (h : rbb.Chained) (hlen : len < 4294967296) :
    rbb.QueueOk len q ↔ rbb.Tight len rbb.blkList := by
  obtain ⟨htotal, hcol⟩ := queueGet_eq h len q
  rw [tight_iff hlen]
  constructor
  · intro hok
    have h₁ := hok.joined
    have h₂ := hok.within
    rw [hok.total] at h₂
    rw [hcol] at h₁ h₂
    exact ⟨h₁, h₂⟩
  · rintro ⟨hchain, hle⟩
    have hword : u32 (rbb.sizeOf (rbb.nextQueue len rbb.blkList)) =
        rbb.sizeOf (rbb.nextQueue len rbb.blkList) := Nat.mod_eq_of_lt (hle.trans_lt hlen)
    refine ⟨?_, ?_, ?_, ?_, fun hmax => ?_⟩
    · rw [hcol]
      exact nextQueue_split _ _ _
    · rw [hcol]
      exact hchain
    · rw [htotal, hcol, hword]
    · rw [htotal, hword]
      exact hle
    · rw [htotal, hmax]
      exact nextLenLoop_none.symm

/-! ## Buffers in use -/

theorem Rbb.Kept.append {new a n : Nat} (h : rbb.Kept) (hnew : findEmptyBlkInSet rbb = some new) :
    (rbb.append new a n).Kept := by
  obtain ⟨hlt, hunused⟩ := findEmptyBlkInSet_some hnew
  have hni : new ∉ rbb.blkList := fun hmem => h.used new hmem hunused
  refine ⟨List.length_set.trans h.length_eq, ?_, fun i hi => ?_⟩
  · refine List.nodup_append.mpr ⟨h.nodup, List.nodup_singleton _, fun i hi j hj => ?_⟩
    rw [List.mem_singleton.mp hj]
    exact fun he : i = new => hni (he ▸ hi)
  · have hblk : (rbb.append new a n).blk i = if i = new then ⟨.inited, n, a⟩ else rbb.blk i :=
      Rbb.blk_setBlk (h.length_eq ▸ hlt)
    rw [hblk]
    split_ifs with he
    · simp
    · rcases List.mem_append.mp hi with hi | hi
      · exact h.used i hi
      · exact absurd (List.mem_singleton.mp hi) he

/-- **Every call keeps the list a list.** -/
theorem Rbb.Kept.step {s s' : RbbSys} {c : RbbCall} (h : s.rbb.Kept) (he : c.exec s = some s') :
    s'.rbb.Kept := by
  rcases h.exec he with ⟨n, ans, -, hr⟩ | hs
  · rcases rtRbbBlkAlloc_append hr with h₁ | ⟨new, a, hnew, h₁⟩
    · rw [h₁]
      exact h
    · rw [h₁]
      exact h.append hnew
  · exact h.shrink hs

/-- The list of every buffer in use is a list of blocks, none of them twice. -/
theorem chained_of_reachable {s : RbbSys}
    (hr : Trans.Reachable RbbSys.Init (fun s c s' => RbbCall.exec s c = some s') s) :
    s.rbb.Chained := by
  have hkept : s.rbb.Kept := by
    refine hr.invariant (I := fun s => s.rbb.Kept) (fun s h₀ => ?_) fun _ _ _ _ h hc => h.step hc
    exact (RbbSys.Inv.init h₀).listed.linked.kept
  exact ⟨hkept.nodup, fun i => hkept.lt_length⟩

/-- The second and the third of three blocks. -/
theorem blk_queue_get_pair :
    ∃ s : RbbSys, s.rbb.QueueOk 8 ⟨0, 0⟩ ∧ s.rbb.collected 8 ⟨0, 0⟩ = [1, 2] := by
  have hrun : (Trans.runList RbbCall.exec sixBlocks
      [.alloc 4, .alloc 4, .alloc 4, .put 1, .put 2]).map (fun s =>
        decide (s.rbb.Tight 8 s.rbb.blkList ∧ s.rbb.collected 8 ⟨0, 0⟩ = [1, 2])) = some true := by
    decide +kernel
  obtain ⟨s, hs, hdec⟩ := Option.map_eq_some_iff.mp hrun
  obtain ⟨htight, hcol⟩ := of_decide_eq_true hdec
  have hr := Trans.reachable_of_runList (.init sixBlocks_init) hs
  exact ⟨s, (blk_queue_get_iff (chained_of_reachable hr) (by decide)).mpr htight, hcol⟩

/-- Calls, and a limit: a first block of eight bytes for a queue of four; and two blocks from between
which a third one was freed. -/
def looseRuns : List (List RbbCall × Nat) :=
  [([.alloc 8, .put 0], 4), ([.alloc 4, .alloc 4, .alloc 4, .put 0, .put 2, .free 1], 16)]

theorem looseRuns_not_queueOk : ∀ r ∈ looseRuns, r.2 < 4294967296 ∧
    ∃ s, Trans.Reachable RbbSys.Init (fun s c s' => RbbCall.exec s c = some s') s ∧
      ¬ s.rbb.QueueOk r.2 ⟨0, 0⟩ := by
  have hruns : looseRuns.all (fun r => decide (r.2 < 4294967296) &&
      ((Trans.runList RbbCall.exec sixBlocks r.1).map fun s =>
        decide (¬ ((rtRbbBlkQueueGet s.rbb r.2 ⟨0, 0⟩).1 ≤ r.2 ∧
          (s.rbb.collected r.2 ⟨0, 0⟩).IsChain s.rbb.Meets))) == some true) = true := by
    decide +kernel
  intro r hr
  have h₁ := List.all_eq_true.mp hruns r hr
  rw [Bool.and_eq_true, beq_iff_eq] at h₁
  obtain ⟨s, hs, hdec⟩ := Option.map_eq_some_iff.mp h₁.2
  refine ⟨of_decide_eq_true h₁.1, s, Trans.reachable_of_runList (.init sixBlocks_init) hs, ?_⟩
  exact fun hok => of_decide_eq_true hdec ⟨hok.within, hok.joined⟩

theorem blk_queue_get_loose :
    ¬ ∀ s, Trans.Reachable RbbSys.Init (fun s c s' => RbbCall.exec s c = some s') s →
      ∀ len < 4294967296, ∀ q, s.rbb.QueueOk len q := by
  intro hclaim
  obtain ⟨hlen, s, hr, hbad⟩ := looseRuns_not_queueOk
    ([.alloc 8, .put 0], 4) List.mem_cons_self
  exact hbad (hclaim s hr 4 hlen _)

end RTThread.Drivers
