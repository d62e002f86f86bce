import RTThread.Memheap.Model

set_option autoImplicit false

/-! # The ring buffer of the device drivers (`ringbuffer.c`)

Each index has 15 bits and a mirror bit, which flips when the index goes round. The buffer is the
memory at `buffer_ptr`; the bytes a caller passes are a list, and the bytes a function stores at the
caller's pointer are returned beside its result. A length is a halfword, which is only compared with
sizes below `2 ^ 15`; the model leaves it unbounded. A function returns `none` where an assertion of
the code fails.
-/

namespace RTThread.Drivers

abbrev Byte := UInt8

/-- Arithmetic of a bit field of 15 bits. -/
def u15 (x : Nat) : Nat := x % 32768

/-- `struct rt_ringbuffer`. -/
structure Ringbuffer where
  bufferPtr : Nat → Byte
  readMirror : Bool
  readIndex : Nat
  writeMirror : Bool
  writeIndex : Nat
  bufferSize : Nat

/-- `memcpy(&dst[i], bytes, …)`. -/
def memcpy {β : Type} (dst : Nat → β) (i : Nat) (bytes : List β) : Nat → β := fun a =>
  if h : i ≤ a ∧ a - i < bytes.length then bytes.get ⟨a - i, h.2⟩ else dst a

/-- The `n` bytes at `&src[i]`. -/
def bytesAt {β : Type} (src : Nat → β) (i n : Nat) : List β :=
  (List.range n).map fun j => src (i + j)

inductive RingbufferState
  | empty | full | halffull
  deriving DecidableEq, Repr

def rtRingbufferStatus (rb : Ringbuffer) : RingbufferState :=
  if rb.readIndex = rb.writeIndex then
    if rb.readMirror = rb.writeMirror then .empty else .full
  else .halffull

/-- `size` is a signed halfword. -/
def rtRingbufferInit (pool : Nat → Byte) (size : Int) : Option Ringbuffer :=
  if size > 0 then
    some { bufferPtr := pool, readMirror := false, readIndex := 0, writeMirror := false
           writeIndex := 0, bufferSize := Memheap.rtAlignDown size.toNat }
  else none

def rtRingbufferDataLen (rb : Ringbuffer) : Nat :=
  match rtRingbufferStatus rb with
  | .empty => 0
  | .full => rb.bufferSize
  | .halffull =>
      if rb.writeIndex > rb.readIndex then rb.writeIndex - rb.readIndex
      else rb.bufferSize - (rb.readIndex - rb.writeIndex)

/-- The macro `rt_ringbuffer_space_len`. -/
def rtRingbufferSpaceLen (rb : Ringbuffer) : Nat := rb.bufferSize - rtRingbufferDataLen rb

def rtRingbufferReset (rb : Ringbuffer) : Ringbuffer :=
  { rb with readMirror := false, readIndex := 0, writeMirror := false, writeIndex := 0 }

/-! ## Blocks of data -/

/-- The statements of `put` and `put_force` for a block that ends in front of the end of the
buffer. -/
def putStraight (rb : Ringbuffer) (ptr : List Byte) (length : Nat) : Ringbuffer :=
  { rb with
    bufferPtr := memcpy rb.bufferPtr rb.writeIndex (ptr.take length)
    writeIndex := u15 (rb.writeIndex + length) }

/-- The statements of `put` and `put_force` for a block that goes on at the start of the buffer. -/
def putWrapped (rb : Ringbuffer) (ptr : List Byte) (length : Nat) : Ringbuffer :=
  let n := rb.bufferSize - rb.writeIndex
  let buffer := memcpy rb.bufferPtr rb.writeIndex (ptr.take n)
  { rb with
    bufferPtr := memcpy buffer 0 ((ptr.drop n).take (length - n))
    writeMirror := !rb.writeMirror
    writeIndex := u15 (length - n) }

def rtRingbufferPut (rb : Ringbuffer) (ptr : List Byte) (length : Nat) : Nat × Ringbuffer :=
  let size := rtRingbufferSpaceLen rb
  if size = 0 then (0, rb)
  else
    -- drop some data
    let length := if size < length then size else length
    if rb.bufferSize - rb.writeIndex > length then (length, putStraight rb ptr length)
    else (length, putWrapped rb ptr length)

def rtRingbufferPutForce (rb : Ringbuffer) (ptr : List Byte) (length : Nat) : Nat × Ringbuffer :=
  let spaceLength := rtRingbufferSpaceLen rb
  let (ptr, length) :=
    if length > rb.bufferSize then (ptr.drop (length - rb.bufferSize), rb.bufferSize)
    else (ptr, length)
  if rb.bufferSize - rb.writeIndex > length then
    let rb := putStraight rb ptr length
    let rb := if length > spaceLength then { rb with readIndex := rb.writeIndex } else rb
    (length, rb)
  else
    let rb := putWrapped rb ptr length
    let rb :=
      if length > spaceLength then
        { rb with readMirror := !rb.readMirror, readIndex := rb.writeIndex }
      else rb
    (length, rb)

/-- The result, the bytes stored at `ptr`, and the buffer. -/
def rtRingbufferGet (rb : Ringbuffer) (length : Nat) : Nat × List Byte × Ringbuffer :=
  let size := rtRingbufferDataLen rb
  if size = 0 then (0, [], rb)
  else
    -- less data
    let length := if size < length then size else length
    let n := rb.bufferSize - rb.readIndex
    if n > length then
      (length, bytesAt rb.bufferPtr rb.readIndex length,
        { rb with readIndex := u15 (rb.readIndex + length) })
    else
      (length, bytesAt rb.bufferPtr rb.readIndex n ++ bytesAt rb.bufferPtr 0 (length - n),
        { rb with readMirror := !rb.readMirror, readIndex := u15 (length - n) })

/-! ## Characters -/

def rtRingbufferPutchar (rb : Ringbuffer) (ch : Byte) : Nat × Ringbuffer :=
  if rtRingbufferSpaceLen rb = 0 then (0, rb)
  else
    let rb := { rb with bufferPtr := Function.update rb.bufferPtr rb.writeIndex ch }
    -- flip mirror
    if rb.writeIndex = rb.bufferSize - 1 then
      (1, { rb with writeMirror := !rb.writeMirror, writeIndex := 0 })
    else (1, { rb with writeIndex := u15 (rb.writeIndex + 1) })

def rtRingbufferPutcharForce (rb : Ringbuffer) (ch : Byte) : Nat × Ringbuffer :=
  let oldState := rtRingbufferStatus rb
  let rb := { rb with bufferPtr := Function.update rb.bufferPtr rb.writeIndex ch }
  if rb.writeIndex = rb.bufferSize - 1 then
    let rb := { rb with writeMirror := !rb.writeMirror, writeIndex := 0 }
    let rb :=
      if oldState = .full then
        { rb with readMirror := !rb.readMirror, readIndex := rb.writeIndex }
      else rb
    (1, rb)
  else
    let rb := { rb with writeIndex := u15 (rb.writeIndex + 1) }
    let rb := if oldState = .full then { rb with readIndex := rb.writeIndex } else rb
    (1, rb)

def rtRingbufferGetchar (rb : Ringbuffer) : Nat × List Byte × Ringbuffer :=
  if rtRingbufferDataLen rb = 0 then (0, [], rb)
  else
    let ch := rb.bufferPtr rb.readIndex
    if rb.readIndex = rb.bufferSize - 1 then
      (1, [ch], { rb with readMirror := !rb.readMirror, readIndex := 0 })
    else (1, [ch], { rb with readIndex := u15 (rb.readIndex + 1) })

end RTThread.Drivers
