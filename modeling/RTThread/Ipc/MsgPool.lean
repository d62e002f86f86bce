import RTThread.Lib.Sll
import RTThread.Ipc.Model

set_option autoImplicit false

/-! # The blocks of a message queue

The blocks of the pool are in two linked lists, the free list and the message list; the others are
owned by threads that copy a message. `Pool` ties the pointers of a queue to the three lists, and
there is one lemma for each change the sections make. What a block holds is a matter of its bytes,
which no other block shares.
-/

namespace RTThread.Ipc

open Kernel Sll

/-- The blocks of the pool, by their addresses. -/
def blocks (q : MsgQueue) : List Nat :=
  (List.range q.maxMsgs).map fun k => q.msgPool + k * (q.msgSize + mqHeader)

/-- The free list, the message list, and the blocks that threads own. -/
structure Pool (q : MsgQueue) (free msgs owned : List Nat) : Prop where
  freeList : Chain q.next q.free free
  msgList : Chain q.next q.head msgs
  tail : q.tail = msgs.getLast?
  entry : q.entry = msgs.length
  all : (free ++ msgs ++ owned).Perm (blocks q)

/-- The block holds the message. -/
structure HoldsMsg (q : MsgQueue) (b : Nat) (buffer : List (BitVec 8)) : Prop where
  fits : buffer.length ≤ q.msgSize
  bytes : ∀ j (h : j < buffer.length), q.bytes (b + mqHeader + j) = buffer[j]

/-- What a call that may take `size` bytes gets of a message: all of the message there is room for.
A block has no length, so it gets the bytes behind the message too. -/
structure Intact (msgSize size : Nat) (bytes buffer : List (BitVec 8)) : Prop where
  length : bytes.length = min size msgSize
  bytes : bytes.take buffer.length = buffer.take size

variable {q q' : MsgQueue} {free msgs owned owned' : List Nat} {b b' : Nat}
  {buffer : List (BitVec 8)}

/-! ## Addresses -/

/-- Two blocks do not overlap. -/
theorem blocks_apart (hb : b ∈ blocks q) (hb' : b' ∈ blocks q) (hne : b ≠ b') :
    b + mqHeader + q.msgSize ≤ b' ∨ b' + mqHeader + q.msgSize ≤ b := by
  obtain ⟨k, -, rfl⟩ := List.mem_map.mp hb
  obtain ⟨k', -, rfl⟩ := List.mem_map.mp hb'
  have hk : k ≠ k' := by
    rintro rfl
    exact hne rfl
  rcases Nat.lt_or_gt_of_ne hk with hlt | hlt
  · left
    have hle : (k + 1) * (q.msgSize + mqHeader) ≤ k' * (q.msgSize + mqHeader) :=
      Nat.mul_le_mul_right _ hlt
    rw [Nat.add_mul, Nat.one_mul] at hle
    omega
  · right
    have hle : (k' + 1) * (q.msgSize + mqHeader) ≤ k * (q.msgSize + mqHeader) :=
      Nat.mul_le_mul_right _ hlt
    rw [Nat.add_mul, Nat.one_mul] at hle
    omega

theorem blocks_nodup (q : MsgQueue) : (blocks q).Nodup := by
  refine List.Nodup.map (fun k k' h => ?_) List.nodup_range
  have hpos : 0 < q.msgSize + mqHeader := by
    unfold mqHeader
    omega
  exact Nat.eq_of_mul_eq_mul_right hpos (Nat.add_left_cancel h)

theorem blocks_length (q : MsgQueue) : (blocks q).length = q.maxMsgs := by
  simp [blocks]

/-! ## The lists -/

namespace Pool

variable (h : Pool q free msgs owned)

include h

theorem nodup : (free ++ msgs ++ owned).Nodup := h.all.nodup_iff.mpr (blocks_nodup q)

/-- **Every block is in one of the three places, and there are `max_msgs`.** -/
theorem total : free.length + msgs.length + owned.length = q.maxMsgs := by
  have hlen := h.all.length_eq
  rw [blocks_length, List.length_append, List.length_append] at hlen
  exact hlen

theorem mem_blocks (hb : b ∈ free ++ msgs ++ owned) : b ∈ blocks q :=
  h.all.subset hb

/-- A block that a thread owns is in no list. -/
theorem not_mem (hb : b ∈ owned) : b ∉ free ∧ b ∉ msgs := by
  have hd := (List.nodup_append.mp h.nodup).2.2
  exact ⟨fun hm => hd b (by simp [hm]) b hb rfl, fun hm => hd b (by simp [hm]) b hb rfl⟩

/-- A block of the message list is not free. -/
theorem not_free (hb : b ∈ msgs) : b ∉ free := fun hm =>
  (List.nodup_append.mp (List.nodup_append.mp h.nodup).1).2.2 b hm b hb rfl

theorem msgs_nodup : msgs.Nodup := (List.nodup_append.mp (List.nodup_append.mp h.nodup).1).2.1

theorem perm (hp : owned'.Perm owned) : Pool q free msgs owned' :=
  ⟨h.freeList, h.msgList, h.tail, h.entry, (hp.append_left _).trans h.all⟩

/-- Writes to a block that a thread owns. -/
theorem write (hb : b ∈ owned) {v : Option Nat} {bytes : Nat → BitVec 8} :
    Pool { q with next := Function.update q.next b v, bytes := bytes } free msgs owned :=
  ⟨h.freeList.update (h.not_mem hb).1, h.msgList.update (h.not_mem hb).2, h.tail, h.entry, h.all⟩

/-- A block is taken off the free list. -/
theorem alloc (hf : q.free = some b) : ∃ free', free = b :: free' ∧
    Pool { q with free := q.next b } free' msgs (b :: owned) := by
  have hfree := h.freeList
  rw [hf] at hfree
  obtain ⟨free', rfl, hchain⟩ := hfree.of_some
  refine ⟨free', rfl, hchain, h.msgList, h.tail, h.entry, ?_⟩
  refine List.Perm.trans ?_ h.all
  exact List.perm_middle

/-- A block is put back to the free list. -/
theorem release {rest : List Nat} (ho : owned = b :: rest) :
    Pool { q with next := Function.update q.next b q.free, free := some b } (b :: free) msgs
      rest := by
  subst ho
  obtain ⟨h1, h2⟩ := h.not_mem List.mem_cons_self
  refine ⟨h.freeList.push h1, h.msgList.update h2, h.tail, h.entry, ?_⟩
  refine List.Perm.trans ?_ h.all
  exact List.perm_middle.symm

/-- A message is linked at the end. -/
theorem linkLast {rest : List Nat} (ho : owned = b :: rest) (hnull : q.next b = none)
    (hmax : q.maxMsgs < 2 ^ 16) : Pool { q with
      next := match q.tail with
        | some tail => Function.update q.next tail (some b)
        | none => q.next
      tail := some b
      head := if q.head = none then some b else q.head
      entry := (q.entry + 1) % 2 ^ 16 } free (msgs ++ [b]) rest := by
  subst ho
  obtain ⟨hfree, hmsgs⟩ := h.not_mem (b := b) List.mem_cons_self
  have hentry : (q.entry + 1) % 2 ^ 16 = (msgs ++ [b]).length := by
    have ht := h.total
    rw [List.length_cons] at ht
    rw [h.entry, List.length_append, List.length_singleton]
    omega
  have hblocks : (free ++ (msgs ++ [b]) ++ rest).Perm (blocks q) := by
    have heq : free ++ (msgs ++ [b]) ++ rest = free ++ msgs ++ (b :: rest) := by simp
    rw [heq]
    exact h.all
  rcases List.eq_nil_or_concat msgs with hnil | ⟨init, last, hlast⟩
  · -- the queue was empty
    subst hnil
    have htail : q.tail = none := h.tail
    have hhead : q.head = none := h.msgList
    refine ⟨?_, ?_, rfl, hentry, hblocks⟩
    · show Chain (match q.tail with | some tail => _ | none => q.next) q.free free
      rw [htail]
      exact h.freeList
    · show Chain (match q.tail with | some tail => _ | none => q.next)
        (if q.head = none then some b else q.head) [b]
      rw [htail, if_pos hhead]
      exact ⟨rfl, hnull⟩
  · rw [List.concat_eq_append] at hlast
    subst hlast
    have htail : q.tail = some last := by
      rw [h.tail]
      simp
    have hhead : q.head ≠ none := by
      rw [← h.msgList.head]
      simp
    refine ⟨?_, ?_, by simp, hentry, hblocks⟩
    · show Chain (match q.tail with | some tail => _ | none => q.next) q.free free
      rw [htail]
      exact h.freeList.update (h.not_free (by simp))
    · show Chain (match q.tail with | some tail => _ | none => q.next)
        (if q.head = none then some b else q.head) _
      rw [htail, if_neg hhead]
      exact h.msgList.append h.msgs_nodup hmsgs hnull

/-- A message is linked at the beginning. -/
theorem linkFirst {rest : List Nat} (ho : owned = b :: rest) (hmax : q.maxMsgs < 2 ^ 16) :
    Pool { q with
      next := Function.update q.next b q.head
      head := some b
      tail := if q.tail = none then some b else q.tail
      entry := (q.entry + 1) % 2 ^ 16 } free (b :: msgs) rest := by
  subst ho
  obtain ⟨hfree, hmsgs⟩ := h.not_mem (b := b) List.mem_cons_self
  refine ⟨h.freeList.update hfree, h.msgList.push hmsgs, ?_, ?_, ?_⟩
  · show (if q.tail = none then some b else q.tail) = (b :: msgs).getLast?
    rw [h.tail, List.getLast?_cons]
    cases msgs.getLast? <;> simp
  · show (q.entry + 1) % 2 ^ 16 = (b :: msgs).length
    have ht := h.total
    rw [List.length_cons] at ht ⊢
    rw [h.entry]
    omega
  · refine List.Perm.trans ?_ h.all
    show (free ++ (b :: msgs) ++ rest).Perm (free ++ msgs ++ (b :: rest))
    rw [List.append_assoc, List.append_assoc]
    exact List.perm_middle.symm.append_left free

/-- The first message is taken off the message list. -/
theorem takeFirst (hh : q.head = some b) : ∃ msgs', msgs = b :: msgs' ∧ Pool { q with
      head := q.next b
      tail := if q.tail = some b then none else q.tail
      entry := q.entry - 1 } free msgs' (b :: owned) := by
  have hqueue := h.msgList
  rw [hh] at hqueue
  obtain ⟨msgs', rfl, hchain⟩ := hqueue.of_some
  refine ⟨msgs', rfl, h.freeList, hchain, ?_, ?_, ?_⟩
  · show (if q.tail = some b then none else q.tail) = msgs'.getLast?
    rw [h.tail, List.getLast?_cons]
    cases hl : msgs'.getLast? with
    | none => simp
    | some l =>
        have hne : l ≠ b := by
          rintro rfl
          exact (List.nodup_cons.mp h.msgs_nodup).1 (List.mem_of_getLast? hl)
        simp [hne]
  · show q.entry - 1 = msgs'.length
    rw [h.entry, List.length_cons]
    omega
  · refine List.Perm.trans ?_ h.all
    show (free ++ msgs' ++ (b :: owned)).Perm (free ++ (b :: msgs') ++ owned)
    rw [List.append_assoc, List.append_assoc]
    exact List.perm_middle.append_left free

end Pool

/-! ## The reset -/

/-- The fields a change of the links leaves alone. -/
structure SamePool (q q' : MsgQueue) : Prop where
  msgPool : q'.msgPool = q.msgPool
  msgSize : q'.msgSize = q.msgSize
  maxMsgs : q'.maxMsgs = q.maxMsgs
  bytes : q'.bytes = q.bytes

theorem SamePool.refl (q : MsgQueue) : SamePool q q := ⟨rfl, rfl, rfl, rfl⟩

theorem SamePool.blocks_eq (h : SamePool q q') : blocks q' = blocks q := by
  unfold blocks
  rw [h.msgPool, h.msgSize, h.maxMsgs]

theorem mqDrain_same (n : Nat) (q : MsgQueue) : SamePool q (mqDrain n q) := by
  induction n generalizing q with
  | zero => exact .refl q
  | succ n ih =>
      unfold mqDrain
      split
      · obtain ⟨h1, h2, h3, h4⟩ := ih { q with
          head := q.next _
          tail := if q.tail = some _ then none else q.tail
          next := Function.update q.next _ q.free
          free := some _ }
        exact ⟨h1, h2, h3, h4⟩
      · exact .refl q

/-- The loop takes all messages, one by one, to the free list. -/
theorem mqDrain_spec (n : Nat) (hn : msgs.length ≤ n) (hf : Chain q.next q.free free)
    (hq : Chain q.next q.head msgs) (ht : q.tail = msgs.getLast?) (hnd : (free ++ msgs).Nodup) :
    Chain (mqDrain n q).next (mqDrain n q).free (msgs.reverse ++ free) ∧
      (mqDrain n q).head = none ∧ (mqDrain n q).tail = none ∧
      ∀ b, b ∉ msgs → (mqDrain n q).next b = q.next b := by
  induction n generalizing q free msgs with
  | zero =>
      obtain rfl : msgs = [] := List.length_eq_zero_iff.mp (Nat.le_zero.mp hn)
      exact ⟨hf, hq, ht, fun _ _ => rfl⟩
  | succ n ih =>
      cases msgs with
      | nil =>
          have hnone : q.head = none := hq
          unfold mqDrain
          rw [hnone]
          exact ⟨hf, hnone, ht, fun _ _ => rfl⟩
      | cons x msgs =>
          obtain ⟨hhead, hchain⟩ := hq
          have hx : x ∉ free ∧ x ∉ msgs := by
            have hmid := List.nodup_middle.mp hnd
            simpa using (List.nodup_cons.mp hmid).1
          have hnd' : (x :: free ++ msgs).Nodup := List.nodup_middle.mp hnd
          have htail : (if q.tail = some x then none else q.tail) = msgs.getLast? := by
            rw [ht, List.getLast?_cons]
            cases hl : msgs.getLast? with
            | none => simp
            | some l =>
                have hne : l ≠ x := by
                  rintro rfl
                  exact hx.2 (List.mem_of_getLast? hl)
                simp [hne]
          unfold mqDrain
          rw [hhead]
          dsimp only
          obtain ⟨h1, h2, h3, h4⟩ := ih (q := { q with
            head := q.next x
            tail := if q.tail = some x then none else q.tail
            next := Function.update q.next x q.free
            free := some x }) (Nat.le_of_succ_le_succ hn) (hf.push hx.1)
            (hchain.update hx.2) htail hnd'
          refine ⟨?_, h2, h3, fun b hb => ?_⟩
          · rw [List.reverse_cons, List.append_assoc]
            exact h1
          · obtain ⟨hbx, hb'⟩ := not_or.mp (mt List.mem_cons.mpr hb)
            rw [h4 b hb']
            exact Function.update_of_ne hbx ..

/-- **After a reset all messages are on the free list.** -/
theorem Pool.reset (h : Pool q free msgs owned) :
    Pool { mqDrain q.maxMsgs q with entry := 0 } (msgs.reverse ++ free) [] owned ∧
      ∀ b ∈ owned, (mqDrain q.maxMsgs q).next b = q.next b := by
  have hlen : msgs.length ≤ q.maxMsgs := by
    have ht := h.total
    omega
  obtain ⟨h1, h2, h3, h4⟩ := mqDrain_spec q.maxMsgs hlen h.freeList h.msgList h.tail
    (List.nodup_append.mp h.nodup).1
  have hsame := mqDrain_same q.maxMsgs q
  refine ⟨⟨h1, h2, h3, rfl, ?_⟩, fun b hb => h4 b (h.not_mem hb).2⟩
  have hblocks : blocks { mqDrain q.maxMsgs q with entry := 0 } =
      blocks q := hsame.blocks_eq
  rw [hblocks]
  refine List.Perm.trans ?_ h.all
  rw [List.append_nil]
  refine List.Perm.append_right _ ?_
  calc List.Perm (msgs.reverse ++ free) (msgs ++ free) := msgs.reverse_perm.append_right _
    List.Perm _ (free ++ msgs) := List.perm_append_comm

/-! ## The bytes -/

theorem HoldsMsg.congr (h : HoldsMsg q b buffer) (hs : q'.msgSize = q.msgSize)
    (hb : ∀ j, j < q.msgSize → q'.bytes (b + mqHeader + j) = q.bytes (b + mqHeader + j)) :
    HoldsMsg q' b buffer := by
  refine ⟨by rw [hs]; exact h.fits, fun j hj => ?_⟩
  rw [hb j (Nat.lt_of_lt_of_le hj h.fits)]
  exact h.bytes j hj

/-- The message is copied into the block. -/
theorem HoldsMsg.write {old : Nat → BitVec 8} (hf : buffer.length ≤ q.msgSize)
    (hb : q.bytes = mqWrite old b buffer) : HoldsMsg q b buffer := by
  refine ⟨hf, fun j hj => ?_⟩
  rw [hb]
  unfold mqWrite
  rw [if_pos (by omega), Nat.add_sub_cancel_left]
  simp [hj]

/-- No other block changes. -/
theorem HoldsMsg.other {buffer' : List (BitVec 8)} (h : HoldsMsg q b buffer)
    (hs : q'.msgSize = q.msgSize) (hb : q'.bytes = mqWrite q.bytes b' buffer')
    (hf : buffer'.length ≤ q.msgSize) (hm : b ∈ blocks q) (hm' : b' ∈ blocks q) (hne : b ≠ b') :
    HoldsMsg q' b buffer := by
  apply h.congr hs
  intro j hj
  rw [hb]
  unfold mqWrite
  have hapart := blocks_apart hm hm' hne
  split_ifs with hle
  · -- an address behind the other block, and behind its message
    have hlen : buffer'.length ≤ b + mqHeader + j - (b' + mqHeader) := by omega
    rw [List.getD_eq_getElem?_getD, List.getElem?_eq_none hlen]
    rfl
  · rfl

/-- The message is copied out of the block. -/
theorem HoldsMsg.read (h : HoldsMsg q b buffer) (size : Nat) :
    Intact q.msgSize size (mqRead q.bytes b (if q.msgSize < size then q.msgSize else size))
      buffer := by
  have hsize : (if q.msgSize < size then q.msgSize else size) = min size q.msgSize := by
    split_ifs <;> omega
  rw [hsize]
  have hlen : (mqRead q.bytes b (min size q.msgSize)).length = min size q.msgSize := by
    simp [mqRead]
  refine ⟨hlen, List.ext_getElem ?_ fun j hj hj' => ?_⟩
  · have hfits := h.fits
    rw [List.length_take, List.length_take, hlen]
    omega
  · have hjb : j < buffer.length := by
      rw [List.length_take] at hj'
      omega
    rw [List.getElem_take, List.getElem_take, ← h.bytes j hjb]
    simp [mqRead]

/-! ## The initialisation -/

theorem mqLinkFree_same (n : Nat) (q : MsgQueue) : SamePool q (mqLinkFree q n) ∧
    (mqLinkFree q n).entry = q.entry ∧ (mqLinkFree q n).head = q.head ∧
    (mqLinkFree q n).tail = q.tail := by
  induction n with
  | zero => exact ⟨.refl q, rfl, rfl, rfl⟩
  | succ n ih =>
      obtain ⟨⟨h1, h2, h3, h4⟩, h5⟩ := ih
      exact ⟨⟨h1, h2, h3, h4⟩, h5⟩

/-- The blocks are linked, each in front of those before it. -/
theorem mqLinkFree_chain (hf : q.free = none) (n : Nat) :
    Chain (mqLinkFree q n).next (mqLinkFree q n).free
      ((List.range n).map fun k => q.msgPool + k * (q.msgSize + mqHeader)).reverse := by
  induction n with
  | zero => exact hf
  | succ n ih =>
      obtain ⟨hsame, -⟩ := mqLinkFree_same n q
      rw [List.range_succ, List.map_append, List.reverse_append]
      have hnew : q.msgPool + n * (q.msgSize + mqHeader) ∉
          ((List.range n).map fun k => q.msgPool + k * (q.msgSize + mqHeader)).reverse := by
        rw [List.mem_reverse]
        intro hm
        obtain ⟨k, hk, heq⟩ := List.mem_map.mp hm
        have hpos : 0 < q.msgSize + mqHeader := by
          unfold mqHeader
          omega
        have hkn : k = n := Nat.eq_of_mul_eq_mul_right hpos (Nat.add_left_cancel heq)
        rw [hkn, List.mem_range] at hk
        omega
      have hpush := ih.push hnew
      unfold mqLinkFree
      dsimp only
      rw [hsame.msgPool, hsame.msgSize]
      exact hpush

theorem pool_mqBuild (q : MsgQueue) (msgpool msgSize maxMsgs : Nat) (flag : Flag) :
    Pool (mqBuild q msgpool msgSize maxMsgs flag)
      (blocks (mqBuild q msgpool msgSize maxMsgs flag)).reverse [] [] ∧
      (mqBuild q msgpool msgSize maxMsgs flag).maxMsgs = maxMsgs := by
  set q₀ : MsgQueue := { q with
    msgPool := msgpool
    msgSize := msgSize
    maxMsgs := maxMsgs
    entry := 0
    head := none
    tail := none
    free := none
    flag := flag } with hq₀
  obtain ⟨hsame, h1, h2, h3⟩ := mqLinkFree_same maxMsgs q₀
  have hchain := mqLinkFree_chain (q := q₀) rfl maxMsgs
  have hblocks : blocks (mqLinkFree q₀ maxMsgs) = blocks q₀ := hsame.blocks_eq
  show Pool (mqLinkFree q₀ maxMsgs) (blocks (mqLinkFree q₀ maxMsgs)).reverse [] [] ∧
    (mqLinkFree q₀ maxMsgs).maxMsgs = maxMsgs
  refine ⟨⟨?_, h2, h3, h1, ?_⟩, hsame.maxMsgs⟩
  · rw [hblocks]
    exact hchain
  · simp

end RTThread.Ipc
