import RTThread.Memheap.Model

set_option autoImplicit false

/-! # The ring block buffer (`ringblk_buf.c`)

Blocks of any size lie in one buffer. A block is known by its place in the array `blk_set`, and the
linked list `blk_list` is the list of these places. An address is a number, and pointers and sizes are
words of 32 bits. A function returns `none` where an assertion of the code fails.
-/

namespace RTThread.Drivers

open Memheap (u32 sub32)

/-- `enum rt_rbb_status`. -/
inductive RbbStatus
  | unused | inited | put | get
  deriving DecidableEq, Repr

/-- `struct rt_rbb_blk`, without the link. -/
structure RbbBlk where
  status : RbbStatus
  size : Nat
  buf : Nat
  deriving DecidableEq, Repr

/-- `struct rt_rbb`. -/
structure Rbb where
  buf : Nat
  bufSize : Nat
  blkSet : List RbbBlk
  blkMaxNum : Nat
  blkList : List Nat

/-- `rbb->blk_set[i]`. -/
def Rbb.blk (rbb : Rbb) (i : Nat) : RbbBlk := rbb.blkSet.getD i ⟨.unused, 0, 0⟩

def Rbb.setBlk (rbb : Rbb) (i : Nat) (b : RbbBlk) : Rbb := { rbb with blkSet := rbb.blkSet.set i b }

def rtRbbInit (buf bufSize : Nat) (blockSet : List RbbBlk) (blkMaxNum : Nat) : Rbb :=
  { buf, bufSize, blkMaxNum
    blkSet := blockSet.mapIdx fun i b => if i < blkMaxNum then { b with status := .unused } else b
    blkList := [] }

def findEmptyBlkInSet (rbb : Rbb) : Option Nat :=
  (List.range rbb.blkMaxNum).find? fun i => (rbb.blk i).status = .unused

/-! ## Blocks -/

/-- The statements repeated in `rt_rbb_blk_alloc` wherever there is room. -/
def Rbb.append (rbb : Rbb) (new buf blkSize : Nat) : Rbb :=
  { rbb.setBlk new ⟨.inited, blkSize, buf⟩ with blkList := rbb.blkList ++ [new] }

/-- `tail->buf + tail->size`. -/
def RbbBlk.stop (b : RbbBlk) : Nat := u32 (b.buf + b.size)

def rtRbbBlkAlloc (rbb : Rbb) (blkSize : Nat) : Option (Option Nat × Rbb) :=
  if ¬ blkSize < 2 ^ 24 then none
  else
    match findEmptyBlkInSet rbb with
    | none => some (none, rbb)
    | some new =>
      if rbb.blkList.length < rbb.blkMaxNum then
        match rbb.blkList.head?, rbb.blkList.getLast? with
        | some h, some t =>
            let head := rbb.blk h
            let tail := rbb.blk t
            if head.buf ≤ tail.buf then
              let empty1 := sub32 (u32 (rbb.buf + rbb.bufSize)) tail.stop
              let empty2 := sub32 head.buf rbb.buf
              if empty1 ≥ blkSize then some (some new, rbb.append new tail.stop blkSize)
              else if empty2 ≥ blkSize then some (some new, rbb.append new rbb.buf blkSize)
              else some (none, rbb)
            else
              let empty1 := sub32 head.buf tail.stop
              if empty1 ≥ blkSize then some (some new, rbb.append new tail.stop blkSize)
              else some (none, rbb)
        | _, _ => some (some new, rbb.append new rbb.buf blkSize)
      else some (none, rbb)

def rtRbbBlkPut (rbb : Rbb) (block : Nat) : Option Rbb :=
  if (rbb.blk block).status = .inited then
    some (rbb.setBlk block { rbb.blk block with status := .put })
  else none

def rtRbbBlkGet (rbb : Rbb) : Option Nat × Rbb :=
  match rbb.blkList.find? fun i => (rbb.blk i).status = .put with
  | some block => (some block, rbb.setBlk block { rbb.blk block with status := .get })
  | none => (none, rbb)

/-- `rt_slist_remove` passes over a node that is not in the list. -/
def rtRbbBlkFree (rbb : Rbb) (block : Nat) : Option Rbb :=
  if (rbb.blk block).status = .unused then none
  else
    some { rbb.setBlk block { rbb.blk block with status := .unused } with
      blkList := rbb.blkList.erase block }

/-! ## Block queues -/

/-- `struct rt_rbb_blk_queue`: a first block and how many there are behind one another in `blk_set`. -/
structure BlkQueue where
  blocks : Nat
  blkNum : Nat

/-- The statements at the end of the loop of `rt_rbb_blk_queue_get`. -/
def Rbb.take (rbb : Rbb) (block : Nat) : Rbb :=
  { rbb.setBlk block { rbb.blk block with status := .get } with blkList := rbb.blkList.erase block }

/-- The loop of `rt_rbb_blk_queue_get`, over the nodes from `node` on. -/
def queueLoop (queueDataLen : Nat) :
    List Nat → Option Nat → Nat → BlkQueue → Rbb → Nat × BlkQueue × Rbb
  | [], _, total, q, rbb => (total, q, rbb)
  | node :: rest, none, total, q, rbb =>
      if (rbb.blk node).status = .put then
        queueLoop queueDataLen rest (some node) (u32 (total + (rbb.blk node).size)) ⟨node, u32 (0 + 1)⟩
          (rbb.take node)
      else queueLoop queueDataLen rest none total q rbb
  | node :: rest, some last, total, q, rbb =>
      if (rbb.blk node).status ≠ .put ∨ (rbb.blk last).buf > (rbb.blk node).buf ∨
          u32 (total + (rbb.blk node).size) > queueDataLen then
        (total, q, rbb)
      else
        queueLoop queueDataLen rest (some node) (u32 (total + (rbb.blk node).size))
          { q with blkNum := u32 (q.blkNum + 1) } (rbb.take node)

/-- The result, what is stored at `blk_queue`, and the buffer. -/
def rtRbbBlkQueueGet (rbb : Rbb) (queueDataLen : Nat) (q : BlkQueue) : Nat × BlkQueue × Rbb :=
  queueLoop queueDataLen rbb.blkList none 0 q rbb

/-- The loop of `rt_rbb_next_blk_queue_len`, over the nodes from `node` on. -/
def nextLenLoop (rbb : Rbb) : List Nat → Option Nat → Nat → Nat
  | [], _, dataLen => dataLen
  | node :: rest, none, dataLen =>
      if (rbb.blk node).status ≠ .put then nextLenLoop rbb rest none dataLen
      else nextLenLoop rbb rest (some node) (u32 (dataLen + (rbb.blk node).size))
  | node :: rest, some last, dataLen =>
      if (rbb.blk node).status ≠ .put ∨ (rbb.blk last).buf > (rbb.blk node).buf then dataLen
      else nextLenLoop rbb rest (some node) (u32 (dataLen + (rbb.blk node).size))

def rtRbbNextBlkQueueLen (rbb : Rbb) : Nat := nextLenLoop rbb rbb.blkList none 0

def rtRbbBlkQueueLen (rbb : Rbb) (q : BlkQueue) : Nat :=
  (List.range q.blkNum).foldl (fun total i => u32 (total + (rbb.blk (q.blocks + i)).size)) 0

def rtRbbBlkQueueFree (rbb : Rbb) (q : BlkQueue) : Option Rbb :=
  (List.range q.blkNum).foldlM (fun rbb i => rtRbbBlkFree rbb (q.blocks + i)) rbb

end RTThread.Drivers
