import RTThread.Drivers.PipeStream

set_option autoImplicit false

/-! # The count of a transfer

The ring buffer takes the length of a transfer as a halfword. What is asked for above that is lost: a
count whose low half is 0 moves nothing, and the loops of `rt_pipe_read` and `rt_pipe_write` take no
byte that moved for an empty or a full buffer.
-/

namespace RTThread.Pipes

open Drivers

variable {p : Pipe} {rb : Ringbuffer} {l buf : List Byte} {count readBytes writeBytes ret : Nat}
  {nonblock wakeup : Bool}

/-! ## The functions of the device -/

/-- The loop of `rt_pipe_read`, with the bytes that are in `buffer`. -/
def pipeReadLoop (rb : Ringbuffer) (count readBytes : Nat) (out : List Byte) :
    Nat × List Byte × Ringbuffer :=
  if _h : readBytes < count then
    let x := rtRingbufferGet rb (u16 (count - readBytes))
    if _hx : x.1 ≤ 0 then (readBytes, out, x.2.2)
    else pipeReadLoop x.2.2 count (readBytes + x.1) (out ++ x.2.1)
  else (readBytes, out, rb)
termination_by count - readBytes
decreasing_by exact Nat.sub_lt_sub_left _h (Nat.lt_add_of_pos_right (Nat.not_le.mp _hx))

/-- The loop of `rt_pipe_write`. -/
def pipeWriteLoop (rb : Ringbuffer) (buf : List Byte) (writeBytes : Nat) : Nat × Ringbuffer :=
  if _h : writeBytes < buf.length then
    let length := u16 (buf.length - writeBytes)
    let x := rtRingbufferPut rb ((buf.drop writeBytes).take length) length
    if _hx : x.1 ≤ 0 then (writeBytes, x.2)
    else pipeWriteLoop x.2 buf (writeBytes + x.1)
  else (writeBytes, rb)
termination_by buf.length - writeBytes
decreasing_by exact Nat.sub_lt_sub_left _h (Nat.lt_add_of_pos_right (Nat.not_le.mp _hx))

/-- The number of bytes, the bytes, and the pipe. There is no result where an assertion fails. -/
def rtPipeRead (p : Pipe) (count : Nat) : Option (Nat × List Byte × Pipe) :=
  if count = 0 then some (0, [], p)
  else p.fifo.map fun rb =>
    let r := pipeReadLoop rb count 0 []
    (r.1, r.2.1, { p with fifo := some r.2.2 })

def rtPipeWrite (p : Pipe) (buf : List Byte) : Option (Nat × Pipe) :=
  if buf.length = 0 then some (0, p)
  else p.fifo.map fun rb =>
    let r := pipeWriteLoop rb buf 0
    (r.1, { p with fifo := some r.2 })

/-! ## What the loops move -/

/-- A pass that moves nothing is the last one. -/
theorem pipeReadLoop_stop (out : List Byte) (h : Represents rb l) (h₀ : min (u16 (count - readBytes)) l.length = 0) :
    ∃ rb', pipeReadLoop rb count readBytes out = (readBytes, out, rb') ∧ Represents rb' l := by
  obtain ⟨rb', hget, -, h'⟩ := h.get (u16 (count - readBytes))
  have hdrop : l.drop (u16 (count - readBytes)) = l := by
    rcases Nat.eq_zero_or_pos l.length with hl | hl
    · rw [List.eq_nil_of_length_eq_zero hl, List.drop_nil]
    · rw [show u16 (count - readBytes) = 0 by omega, List.drop_zero]
  rw [hdrop] at h'
  rw [pipeReadLoop]
  by_cases hlt : readBytes < count
  · refine ⟨rb', ?_, h'⟩
    rw [dif_pos hlt, hget]
    dsimp only
    rw [dif_pos h₀.le]
  · exact ⟨rb, dif_neg hlt, h⟩

/-- **A read moves what one pass moves.** -/
theorem pipeReadLoop_eq (count readBytes : Nat) (out : List Byte) (h : Represents rb l) :
    ∃ rb', pipeReadLoop rb count readBytes out =
        (readBytes + min (u16 (count - readBytes)) l.length,
          out ++ l.take (u16 (count - readBytes)), rb') ∧
      Represents rb' (l.drop (u16 (count - readBytes))) := by
  obtain ⟨u, hu⟩ : ∃ u, u = u16 (count - readBytes) := ⟨_, rfl⟩
  have hmod : u = (count - readBytes) % 65536 := hu
  rw [← hu]
  obtain ⟨rb₁, hget, -, h₁⟩ := h.get u
  rw [pipeReadLoop]
  by_cases hlt : readBytes < count
  · rw [dif_pos hlt, ← hu, hget]
    dsimp only
    by_cases h₀ : min u l.length = 0
    · refine ⟨rb₁, ?_, h₁⟩
      have htake : l.take u = [] := by
        rw [List.take_eq_nil_iff, ← List.length_eq_zero_iff]
        omega
      rw [dif_pos h₀.le, h₀, htake, List.append_nil, Nat.add_zero]
    · -- behind this pass the count or the buffer has nothing left
      have hnext : min (u16 (count - (readBytes + min u l.length))) (l.drop u).length = 0 := by
        rw [List.length_drop]
        unfold u16
        omega
      obtain ⟨rb₂, hstop, h₂⟩ := pipeReadLoop_stop (out ++ l.take u) h₁ hnext
      exact ⟨rb₂, by rw [dif_neg (by omega), hstop], h₂⟩
  · rw [dif_neg hlt]
    have h₀ : u = 0 := by omega
    subst h₀
    exact ⟨rb, by simp, h⟩

theorem pipeWriteLoop_stop (h : Represents rb l)
    (h₀ : min (u16 (buf.length - writeBytes)) (rb.bufferSize - l.length) = 0) :
    ∃ rb', pipeWriteLoop rb buf writeBytes = (writeBytes, rb') ∧ Represents rb' l := by
  have hlen : (buf.drop writeBytes).length = buf.length - writeBytes := List.length_drop
  obtain ⟨k, rb', hput, hk, -, h'⟩ := put_u16 h (buf.drop writeBytes)
  rw [hlen] at hput hk
  rw [h₀] at hk
  rw [hk, List.take_zero, List.append_nil] at h'
  rw [pipeWriteLoop]
  by_cases hlt : writeBytes < buf.length
  · refine ⟨rb', ?_, h'⟩
    rw [dif_pos hlt]
    dsimp only
    rw [hput]
    exact dif_pos hk.le
  · exact ⟨rb, dif_neg hlt, h⟩

/-- **A write moves what one pass moves.** -/
theorem pipeWriteLoop_eq (buf : List Byte) (writeBytes : Nat) (h : Represents rb l) :
    ∃ k rb', pipeWriteLoop rb buf writeBytes = (writeBytes + k, rb') ∧
      k = min (u16 (buf.length - writeBytes)) (rb.bufferSize - l.length) ∧
      Represents rb' (l ++ (buf.drop writeBytes).take k) := by
  rw [pipeWriteLoop]
  have hlen : (buf.drop writeBytes).length = buf.length - writeBytes := List.length_drop
  obtain ⟨k, rb₁, hput, hk, hsize, h₁⟩ := put_u16 h (buf.drop writeBytes)
  rw [hlen] at hput hk
  have hmod : u16 (buf.length - writeBytes) = (buf.length - writeBytes) % 65536 := rfl
  by_cases hlt : writeBytes < buf.length
  · rw [dif_pos hlt]
    dsimp only
    rw [hput]
    by_cases h₀ : k = 0
    · refine ⟨k, rb₁, ?_, hk, h₁⟩
      rw [dif_pos h₀.le, h₀, Nat.add_zero]
    · have htake : (l ++ (buf.drop writeBytes).take k).length = l.length + k := by
        rw [List.length_append, List.length_take, hlen]
        omega
      have hnext : min (u16 (buf.length - (writeBytes + k)))
          (rb₁.bufferSize - (l ++ (buf.drop writeBytes).take k).length) = 0 := by
        rw [hsize, htake]
        unfold u16
        omega
      obtain ⟨rb₂, hstop, h₂⟩ := pipeWriteLoop_stop h₁ hnext
      exact ⟨k, rb₂, by rw [dif_neg (by omega), hstop], hk, h₂⟩
  · rw [dif_neg hlt]
    have h₀ : k = 0 := by omega
    refine ⟨0, rb, rfl, by omega, ?_⟩
    rw [List.take_zero, List.append_nil]
    exact h

/-- What a read of the device returns. -/
theorem rtPipeRead_eq (hfifo : p.fifo = some rb) (h : Represents rb l) (hpos : 1 ≤ count) :
    ∃ p', rtPipeRead p count = some (min (u16 count) l.length, l.take (u16 count), p') := by
  obtain ⟨rb', hloop, -⟩ := pipeReadLoop_eq count 0 [] h
  unfold rtPipeRead
  rw [if_neg (by omega), hfifo, Option.map_some, hloop, Nat.sub_zero, Nat.zero_add, List.nil_append]
  exact ⟨_, rfl⟩

theorem rtPipeWrite_eq (hfifo : p.fifo = some rb) (h : Represents rb l) (hpos : 1 ≤ buf.length) :
    ∃ p', rtPipeWrite p buf = some (min (u16 buf.length) (rb.bufferSize - l.length), p') := by
  obtain ⟨k, rb', hloop, hk, -⟩ := pipeWriteLoop_eq buf 0 h
  unfold rtPipeWrite
  rw [if_neg (by omega), hfifo, Option.map_some, hloop, hk, Nat.sub_zero, Nat.zero_add]
  exact ⟨_, rfl⟩

/-! ## What is asked of a transfer -/

/-- A pass of `pipe_fops_read` gets bytes, of those that are there. -/
def ReadsSome (p : Pipe) (count avail : Nat) (nonblock : Bool) : Prop :=
  ∃ len bytes fifo, readPass p count nonblock = some (.got len bytes fifo) ∧ 1 ≤ len ∧
    len ≤ min count avail

/-- A pass of `pipe_fops_write`, with `pbuf` still to be written, puts bytes. -/
def WritesSome (p : Pipe) (pbuf : List Byte) (ret : Nat) (nonblock wakeup : Bool) : Prop :=
  ∃ len fifo out, writePass p pbuf ret nonblock wakeup = some (.put len fifo out) ∧ 1 ≤ len

theorem readsSome_iff (hfifo : p.fifo = some rb) (h : Represents rb l) (hw : p.writers ≠ 0)
    (hl : 0 < l.length) : ReadsSome p count l.length nonblock ↔ count % 65536 ≠ 0 := by
  obtain ⟨rb', hget, -⟩ := h.get (u16 count)
  have hmod : u16 count = count % 65536 := rfl
  have hpass : readPass p count nonblock =
      if min (u16 count) l.length > 0 then
        some (.got (min (u16 count) l.length) (l.take (u16 count)) rb')
      else if nonblock then some .again else some .empty := by
    unfold readPass
    rw [if_neg hw, hfifo]
    dsimp only
    rw [hget]
  unfold ReadsSome
  rw [hpass]
  constructor
  · rintro ⟨len, bytes, fifo, hp, -⟩ h₀
    rw [if_neg (by omega)] at hp
    split_ifs at hp <;> cases hp
  · intro h₀
    exact ⟨_, _, _, if_pos (by omega), by omega, by omega⟩

theorem writesSome_iff (hfifo : p.fifo = some rb) (h : Represents rb l) (hr : p.readers ≠ 0)
    (hs : 0 < rb.bufferSize - l.length) :
    WritesSome p buf ret nonblock wakeup ↔ buf.length % 65536 ≠ 0 := by
  obtain ⟨k, rb', hput, hk, -⟩ := put_u16 h buf
  have hmod : u16 buf.length = buf.length % 65536 := rfl
  have hpass : ∃ out, writePass p buf ret nonblock wakeup = some (.put k rb' out) := by
    unfold writePass
    rw [if_neg hr, hfifo]
    dsimp only
    rw [hput]
    exact ⟨_, rfl⟩
  obtain ⟨out, hpass⟩ := hpass
  unfold WritesSome
  rw [hpass]
  constructor
  · rintro ⟨len, fifo, out', hp, hlen⟩
    cases hp
    omega
  · intro h₀
    exact ⟨k, rb', out, rfl, by omega⟩

/-- What is asked of the four functions for one count. -/
structure CountOk (p : Pipe) (rb : Ringbuffer) (count : Nat) : Prop where
  read : 0 < rtRingbufferDataLen rb → p.writers ≠ 0 →
    ∀ nonblock, ReadsSome p count (rtRingbufferDataLen rb) nonblock
  pipeRead : 0 < rtRingbufferDataLen rb →
    ∃ bytes p', rtPipeRead p count = some (min count (rtRingbufferDataLen rb), bytes, p')
  write : 0 < rtRingbufferSpaceLen rb → p.readers ≠ 0 →
    ∀ pbuf ret nonblock wakeup, pbuf.length = count → WritesSome p pbuf ret nonblock wakeup
  pipeWrite : 0 < rtRingbufferSpaceLen rb → ∀ buf : List Byte, buf.length = count →
    ∃ p', rtPipeWrite p buf = some (min count (rtRingbufferSpaceLen rb), p')

/-- **A transfer honours its count** exactly where the count is a halfword, or its low half alone is no
less than what there is. -/
theorem pipe_count_iff (hfifo : p.fifo = some rb) (h : Represents rb l) (hpos : 1 ≤ count) :
    CountOk p rb count ↔ count < 65536 ∨
      rtRingbufferDataLen rb ≤ count % 65536 ∧ rtRingbufferSpaceLen rb ≤ count % 65536 := by
  have hsize := h.size_lt
  have hle := h.len_le
  have hsize₀ := h.size_pos
  have hmod : u16 count = count % 65536 := rfl
  constructor
  · intro hok
    have hread : 0 < l.length → min (u16 count) l.length = min count l.length := by
      intro hl
      obtain ⟨bytes, p', h₁⟩ := hok.pipeRead (by rwa [h.dataLen_eq])
      obtain ⟨p'', h₂⟩ := rtPipeRead_eq hfifo h hpos
      rw [h₂, h.dataLen_eq] at h₁
      exact (Prod.mk.inj (Option.some.inj h₁)).1
    have hwrite : 0 < rb.bufferSize - l.length →
        min (u16 count) (rb.bufferSize - l.length) = min count (rb.bufferSize - l.length) := by
      intro hs
      have hlen : (List.replicate count (0 : Byte)).length = count := List.length_replicate
      obtain ⟨p', h₁⟩ := hok.pipeWrite (by rwa [h.spaceLen_eq]) _ hlen
      obtain ⟨p'', h₂⟩ := rtPipeWrite_eq hfifo h (by rwa [hlen])
      rw [h₂, h.spaceLen_eq, hlen] at h₁
      exact (Prod.mk.inj (Option.some.inj h₁)).1
    rw [h.dataLen_eq, h.spaceLen_eq]
    omega
  · intro hc
    rw [h.dataLen_eq, h.spaceLen_eq] at hc
    refine ⟨fun hl hw nonblock => ?_, fun hl => ?_, fun hs hr pbuf ret nonblock wakeup hlen => ?_,
      fun hs buf hlen => ?_⟩
    · rw [h.dataLen_eq] at hl ⊢
      exact (readsSome_iff hfifo h hw hl).mpr (by omega)
    · rw [h.dataLen_eq] at hl ⊢
      obtain ⟨p', h₁⟩ := rtPipeRead_eq hfifo h hpos
      refine ⟨l.take (u16 count), p', h₁.trans ?_⟩
      rw [show min (u16 count) l.length = min count l.length by omega]
    · rw [h.spaceLen_eq] at hs
      exact (writesSome_iff hfifo h hr hs).mpr (by omega)
    · rw [h.spaceLen_eq] at hs ⊢
      obtain ⟨p', h₁⟩ := rtPipeWrite_eq hfifo h (by omega : 1 ≤ buf.length)
      refine ⟨p', h₁.trans ?_⟩
      rw [hlen, show min (u16 count) (rb.bufferSize - l.length) =
        min count (rb.bufferSize - l.length) by omega]

/-- A buffer of four bytes with one in it, and a pipe that is open at both ends. -/
def oneByte : Ringbuffer := ⟨fun _ => 0, false, 0, false, 1, 4⟩

def onePipe : Pipe := ⟨false, some oneByte, 4, 1, 1, 2, fun _ => ⟨false, []⟩⟩

theorem represents_oneByte : Represents oneByte [0] :=
  ⟨by decide, by decide, by decide, by decide, by decide, by decide⟩

theorem pipe_count_high : CountOk onePipe oneByte 65539 :=
  (pipe_count_iff rfl represents_oneByte (by decide)).mpr (Or.inr (by decide))

/-- A read of `65536` bytes gets none of those that are there. -/
theorem pipe_count_lost :
    ¬ ∀ (p : Pipe) (rb : Ringbuffer) (l : List Byte), p.fifo = some rb → Represents rb l →
      ∀ count, 1 ≤ count → count < 2 ^ 31 → CountOk p rb count := by
  intro hclaim
  have hok := hclaim onePipe oneByte [0] rfl represents_oneByte 65536 (by decide) (by decide)
  have hread := hok.read (by decide) (by decide) true
  rw [represents_oneByte.dataLen_eq] at hread
  exact (readsSome_iff rfl represents_oneByte (by decide) (by decide)).mp hread (by decide)

end RTThread.Pipes
