import RTThread.Lib.Mirror
import RTThread.Lib.Run
import RTThread.Drivers.Ringbuffer

set_option autoImplicit false

/-! # The ring buffer is a bounded queue of bytes

`Represents rb l` says that the buffer `rb` holds the bytes `l`: the position of the writer is
`l.length` steps ahead of the reader's, and `l` are the bytes between the two. Every function takes
`Represents rb l` to `Represents rb' l'` for the list `l'` that a queue of bytes has.
-/

namespace RTThread.Drivers

open Ring (Cursor window Written)

variable {rb rb' : Ringbuffer} {l xs : List Byte} {n k length : Nat} {ch : Byte}

/-- The position of the next byte to read. -/
def Ringbuffer.rd (rb : Ringbuffer) : Cursor := ⟨rb.readMirror, rb.readIndex⟩

/-- The position of the next byte to write. -/
def Ringbuffer.wr (rb : Ringbuffer) : Cursor := ⟨rb.writeMirror, rb.writeIndex⟩

/-- The buffer holds the bytes `l`. -/
structure Represents (rb : Ringbuffer) (l : List Byte) : Prop where
  size_pos : 0 < rb.bufferSize
  size_lt : rb.bufferSize < 32768
  read_lt : rb.readIndex < rb.bufferSize
  len_le : l.length ≤ rb.bufferSize
  wr : rb.rd.advance rb.bufferSize l.length = rb.wr
  bytes : window rb.bufferPtr rb.bufferSize rb.readIndex l.length = l

namespace Represents

variable (h : Represents rb l)

include h

theorem write_lt : rb.writeIndex < rb.bufferSize := by
  have h₁ := Cursor.index_advance_lt (c := rb.rd) h.read_lt h.len_le
  rw [h.wr] at h₁
  exact h₁

/-- The slot of the writer. -/
theorem writeIndex_eq : rb.writeIndex = (rb.readIndex + l.length) % rb.bufferSize := by
  have h₁ := Cursor.index_advance (c := rb.rd) h.read_lt h.len_le
  rw [h.wr] at h₁
  exact h₁

/-- The positions, told apart by whether the bytes go round the end. -/
theorem cases_wrap :
    (rb.readIndex + l.length < rb.bufferSize ∧ rb.writeMirror = rb.readMirror ∧
      rb.writeIndex = rb.readIndex + l.length) ∨
    (rb.bufferSize ≤ rb.readIndex + l.length ∧ rb.writeMirror = !rb.readMirror ∧
      rb.writeIndex + rb.bufferSize = rb.readIndex + l.length) := by
  have hwr := h.wr
  unfold Ringbuffer.rd Ringbuffer.wr at hwr
  by_cases hlt : rb.readIndex + l.length < rb.bufferSize
  · rw [Cursor.advance_of_lt (c := ⟨rb.readMirror, rb.readIndex⟩) hlt, Cursor.mk.injEq] at hwr
    exact Or.inl ⟨hlt, hwr.1.symm, hwr.2.symm⟩
  · have hle := Nat.not_lt.mp hlt
    rw [Cursor.advance_of_le (c := ⟨rb.readMirror, rb.readIndex⟩) hle, Cursor.mk.injEq] at hwr
    refine Or.inr ⟨hle, hwr.1.symm, ?_⟩
    have h₁ := hwr.2
    simp only at h₁
    omega

/-- `rt_ringbuffer_data_len`. -/
theorem dataLen_eq : rtRingbufferDataLen rb = l.length := by
  have hr := h.read_lt
  have hle := h.len_le
  unfold rtRingbufferDataLen rtRingbufferStatus
  rcases h.cases_wrap with ⟨hlt, hm, hw⟩ | ⟨hge, hm, hw⟩
  · by_cases h0 : l.length = 0
    · rw [if_pos (by omega), if_pos hm.symm]
      exact h0.symm
    · rw [if_neg (by omega)]
      simp only
      rw [if_pos (by omega)]
      omega
  · by_cases hfull : l.length = rb.bufferSize
    · rw [if_pos (by omega), if_neg (by simp [hm])]
      exact hfull.symm
    · rw [if_neg (by omega)]
      simp only
      rw [if_neg (by omega)]
      omega

theorem spaceLen_eq : rtRingbufferSpaceLen rb = rb.bufferSize - l.length := by
  rw [rtRingbufferSpaceLen, h.dataLen_eq]

/-- Reading bytes. -/
theorem read (hsize : rb'.bufferSize = rb.bufferSize) (hbuf : rb'.bufferPtr = rb.bufferPtr)
    (hwr : rb'.wr = rb.wr) (hk : k ≤ l.length) (hrd : rb'.rd = rb.rd.advance rb.bufferSize k) :
    Represents rb' (l.drop k) := by
  have hkn : k ≤ rb.bufferSize := hk.trans h.len_le
  have hread : rb'.readIndex = (rb.readIndex + k) % rb.bufferSize := by
    have h₁ : rb'.rd.index = _ := congrArg Cursor.index hrd
    rw [Cursor.index_advance h.read_lt hkn] at h₁
    exact h₁
  have hlen := h.len_le
  refine ⟨hsize ▸ h.size_pos, hsize ▸ h.size_lt, ?_, ?_, ?_, ?_⟩
  · rw [hread, hsize]
    exact Nat.mod_lt _ h.size_pos
  · rw [List.length_drop, hsize]
    omega
  · rw [List.length_drop, hsize, hrd, hwr, ← h.wr]
    calc (rb.rd.advance rb.bufferSize k).advance rb.bufferSize (l.length - k)
        = (rb.rd.advance rb.bufferSize 0).advance rb.bufferSize l.length :=
          Cursor.advance_congr (by omega) hlen (by omega)
      _ = rb.rd.advance rb.bufferSize l.length := by rw [Cursor.advance_zero h.read_lt]
  · rw [List.length_drop, hsize, hbuf, hread, Ring.window_mod, Ring.window_drop, h.bytes]

end Represents

/-! ## Writing -/

/-- The bytes `xs` were stored from the position of the writer on. -/
structure Stored (rb rb' : Ringbuffer) (xs : List Byte) : Prop where
  size : rb'.bufferSize = rb.bufferSize
  written : Written rb.bufferPtr rb'.bufferPtr rb.bufferSize rb.writeIndex xs
  wr : rb'.wr = rb.wr.advance rb.bufferSize xs.length
  len_le : xs.length ≤ rb.bufferSize

/-- **Storing bytes behind the others**: of all of them, the last `bufferSize` at most stay when the
reader moves on by `k`. -/
theorem Represents.store (h : Represents rb l) (st : Stored rb rb' xs) (hk : k ≤ l.length)
    (hfit : l.length + xs.length ≤ rb.bufferSize + k)
    (hrd : rb'.rd = rb.rd.advance rb.bufferSize k) : Represents rb' ((l ++ xs).drop k) := by
  have hpos := h.size_pos
  have hsize := st.size
  have hkn : k ≤ rb.bufferSize := hk.trans h.len_le
  have hlen : ((l ++ xs).drop k).length = l.length + xs.length - k := by
    rw [List.length_drop, List.length_append]
  have hread : rb'.readIndex = (rb.readIndex + k) % rb.bufferSize := by
    have h₁ : rb'.rd.index = _ := congrArg Cursor.index hrd
    rw [Cursor.index_advance h.read_lt hkn] at h₁
    exact h₁
  refine ⟨hsize ▸ hpos, hsize ▸ h.size_lt, ?_, ?_, ?_, ?_⟩
  · rw [hread, hsize]
    exact Nat.mod_lt _ hpos
  · rw [hlen, hsize]
    omega
  · -- both positions moved on, the writer by as many steps as bytes were stored
    rw [hlen, hsize, hrd, st.wr, ← h.wr]
    exact Cursor.advance_congr (by omega) st.len_le (by omega)
  · have hw := st.written
    rw [h.writeIndex_eq] at hw
    rw [hsize, hread, hlen, Ring.window_mod, Ring.window_write hpos hw hfit, h.bytes]

/-- Bytes that fit are appended. -/
theorem Represents.append (h : Represents rb l) (st : Stored rb rb' xs)
    (hfit : l.length + xs.length ≤ rb.bufferSize) (hrd : rb'.rd = rb.rd) :
    Represents rb' (l ++ xs) := by
  have h₁ := h.store st (Nat.zero_le _) (by omega)
    (hrd.trans (Cursor.advance_zero h.read_lt).symm)
  rwa [List.drop_zero] at h₁

theorem memcpy_of_mem {β : Type} (dst : Nat → β) (bytes : List β) {i a : Nat} (h : i ≤ a)
    (hlt : a - i < bytes.length) : memcpy dst i bytes a = bytes[a - i] := dif_pos ⟨h, hlt⟩

theorem memcpy_of_not {β : Type} {dst : Nat → β} {bytes : List β} {i a : Nat}
    (h : ¬ (i ≤ a ∧ a - i < bytes.length)) : memcpy dst i bytes a = dst a := dif_neg h

/-- A block that ends in front of the end of the buffer. -/
theorem stored_putStraight (h : Represents rb l) (hlen : length ≤ xs.length)
    (hlt : rb.writeIndex + length < rb.bufferSize) :
    Stored rb (putStraight rb xs length) (xs.take length) := by
  have hsize := h.size_lt
  have htake : (xs.take length).length = length := by simpa using hlen
  refine ⟨rfl, ⟨fun j hj => ?_, fun a ha hne => memcpy_of_not ?_⟩, ?_, by omega⟩
  · rw [htake] at hj
    rw [Nat.mod_eq_of_lt (by omega)]
    have h₁ := memcpy_of_mem rb.bufferPtr (xs.take length)
      (Nat.le_add_right rb.writeIndex j) (by rw [htake]; omega)
    simp only [Nat.add_sub_cancel_left] at h₁
    exact h₁
  · rintro ⟨h₁, h₂⟩
    refine hne (a - rb.writeIndex) h₂ ?_
    rw [Nat.add_sub_cancel' h₁, Nat.mod_eq_of_lt ha]
  · rw [htake, Cursor.advance_of_lt (c := rb.wr) hlt]
    simp only [Ringbuffer.wr, putStraight, Cursor.mk.injEq, true_and]
    exact Nat.mod_eq_of_lt (by omega)

/-- A block that goes on at the start of the buffer. -/
theorem stored_putWrapped (h : Represents rb l) (hlen : length ≤ xs.length)
    (hge : rb.bufferSize ≤ rb.writeIndex + length) (hle : length ≤ rb.bufferSize) :
    Stored rb (putWrapped rb xs length) (xs.take length) := by
  have hsize := h.size_lt
  have hw := h.write_lt
  have htake : (xs.take length).length = length := by simpa using hlen
  obtain ⟨n, hn⟩ : ∃ n, n = rb.bufferSize - rb.writeIndex := ⟨_, rfl⟩
  have hfirst : (xs.take n).length = n := by
    rw [List.length_take]
    omega
  have hsecond : ((xs.drop n).take (length - n)).length = length - n := by
    rw [List.length_take, List.length_drop]
    omega
  have hbuf : (putWrapped rb xs length).bufferPtr =
      memcpy (memcpy rb.bufferPtr rb.writeIndex (xs.take n)) 0 ((xs.drop n).take (length - n)) := by
    rw [hn]
    rfl
  refine ⟨rfl, ⟨fun j hj => ?_, fun a ha hne => ?_⟩, ?_, by omega⟩
  · rw [htake] at hj
    rw [hbuf]
    by_cases hjn : j < n
    · -- in front of the end
      have hslot : (rb.writeIndex + j) % rb.bufferSize = rb.writeIndex + j :=
        Nat.mod_eq_of_lt (by omega)
      rw [hslot, memcpy_of_not (by rw [hsecond]; omega),
        memcpy_of_mem _ _ (Nat.le_add_right _ _) (by rw [hfirst]; omega)]
      simp only [Nat.add_sub_cancel_left, List.getElem_take]
    · have hslot : (rb.writeIndex + j) % rb.bufferSize = j - n := by
        have h₁ : rb.writeIndex + j = j - n + rb.bufferSize := by omega
        rw [h₁, Nat.add_mod_right, Nat.mod_eq_of_lt (by omega)]
      rw [hslot, memcpy_of_mem _ _ (Nat.zero_le _) (by rw [hsecond]; omega)]
      have h₁ : n + (j - n) = j := by omega
      simp only [Nat.sub_zero, List.getElem_take, List.getElem_drop, h₁]
  · rw [hbuf, memcpy_of_not, memcpy_of_not]
    · rintro ⟨h₁, h₂⟩
      rw [hfirst] at h₂
      refine hne (a - rb.writeIndex) (by rw [htake]; omega) ?_
      rw [Nat.add_sub_cancel' h₁, Nat.mod_eq_of_lt ha]
    · rintro ⟨-, h₂⟩
      rw [hsecond] at h₂
      refine hne (a + n) (by rw [htake]; omega) ?_
      have h₁ : rb.writeIndex + (a + n) = a + rb.bufferSize := by omega
      rw [h₁, Nat.add_mod_right, Nat.mod_eq_of_lt ha]
  · rw [htake, Cursor.advance_of_le (c := rb.wr) hge]
    simp only [Ringbuffer.wr, putWrapped, Cursor.mk.injEq, true_and]
    rw [u15, Nat.mod_eq_of_lt (by omega)]
    omega

/-- The character at the position of the writer, before the position moves. -/
theorem written_update (h : Represents rb l) (ch : Byte) :
    Written rb.bufferPtr (Function.update rb.bufferPtr rb.writeIndex ch) rb.bufferSize
      rb.writeIndex [ch] := by
  have hw := h.write_lt
  refine ⟨fun j hj => ?_, fun a ha hne => Function.update_of_ne (fun he => ?_) ..⟩
  · obtain rfl : j = 0 := by simpa using hj
    rw [Nat.add_zero, Nat.mod_eq_of_lt hw, Function.update_self]
    rfl
  · refine hne 0 (by simp) ?_
    rw [Nat.add_zero, Nat.mod_eq_of_lt hw, he]

/-- One step of a position, as the code takes it. -/
theorem advance_one {c : Cursor} {i : Nat} (hsize : n < 32768) (hc : c.index < n) (hi : i = c.index) :
    c.advance n 1 = if i = n - 1 then ⟨!c.mirror, 0⟩ else ⟨c.mirror, u15 (i + 1)⟩ := by
  subst hi
  split_ifs with h
  · rw [Cursor.advance_of_le (by omega)]
    congr 1
    omega
  · rw [Cursor.advance_of_lt (by omega), u15, Nat.mod_eq_of_lt (by omega)]

/-! ## The functions -/

namespace Represents

variable (h : Represents rb l)

include h

/-- The two ways of storing a block that is not longer than the buffer. -/
theorem stored_block (xs : List Byte) (length : Nat) (hlen : length ≤ xs.length)
    (hle : length ≤ rb.bufferSize) :
    Stored rb (if rb.bufferSize - rb.writeIndex > length then putStraight rb xs length
      else putWrapped rb xs length) (xs.take length) := by
  split_ifs with hc
  · exact stored_putStraight h hlen (by omega)
  · exact stored_putWrapped h hlen (by omega) hle

theorem put (xs : List Byte) : ∃ rb', rtRingbufferPut rb xs xs.length =
      (min xs.length (rb.bufferSize - l.length), rb') ∧
    rb'.bufferSize = rb.bufferSize ∧
    Represents rb' (l ++ xs.take (min xs.length (rb.bufferSize - l.length))) := by
  have hle := h.len_le
  unfold rtRingbufferPut
  rw [h.spaceLen_eq]
  by_cases hfull : rb.bufferSize - l.length = 0
  · refine ⟨rb, ?_, rfl, ?_⟩
    · rw [if_pos hfull, hfull, Nat.min_zero]
    · rw [hfull, Nat.min_zero, List.take_zero, List.append_nil]
      exact h
  · rw [if_neg hfull]
    dsimp only
    have hmin : (if rb.bufferSize - l.length < xs.length then rb.bufferSize - l.length
        else xs.length) = min xs.length (rb.bufferSize - l.length) := by
      split_ifs <;> omega
    rw [hmin]
    obtain ⟨k, hk⟩ : ∃ k, k = min xs.length (rb.bufferSize - l.length) := ⟨_, rfl⟩
    rw [← hk]
    have hst := h.stored_block xs k (by omega) (by omega)
    have htake : (xs.take k).length = k := by
      rw [List.length_take]
      omega
    refine ⟨if rb.bufferSize - rb.writeIndex > k then putStraight rb xs k else putWrapped rb xs k,
      ?_, hst.size, h.append hst (by omega) ?_⟩
    · split_ifs <;> rfl
    · split_ifs <;> rfl

theorem putchar (ch : Byte) : ∃ rb', rtRingbufferPutchar rb ch =
      (min 1 (rb.bufferSize - l.length), rb') ∧
    rb'.bufferSize = rb.bufferSize ∧
    Represents rb' (l ++ [ch].take (min 1 (rb.bufferSize - l.length))) := by
  have hle := h.len_le
  unfold rtRingbufferPutchar
  rw [h.spaceLen_eq]
  by_cases hfull : rb.bufferSize - l.length = 0
  · refine ⟨rb, ?_, rfl, ?_⟩
    · rw [if_pos hfull, hfull, Nat.min_zero]
    · rw [hfull, Nat.min_zero, List.take_zero, List.append_nil]
      exact h
  · rw [if_neg hfull]
    have hmin : min 1 (rb.bufferSize - l.length) = 1 := by omega
    rw [hmin]
    have hstep := advance_one h.size_lt h.write_lt (c := rb.wr) (i := rb.writeIndex) rfl
    dsimp only
    split_ifs at hstep ⊢ with hlast
    · exact ⟨_, rfl, rfl, h.append ⟨rfl, written_update h ch, hstep.symm, h.size_pos⟩
        (by simp; omega) rfl⟩
    · exact ⟨_, rfl, rfl, h.append ⟨rfl, written_update h ch, hstep.symm, h.size_pos⟩
        (by simp; omega) rfl⟩

theorem get (length : Nat) : ∃ rb', rtRingbufferGet rb length =
      (min length l.length, l.take length, rb') ∧
    rb'.bufferSize = rb.bufferSize ∧ Represents rb' (l.drop length) := by
  have hle := h.len_le
  have hr := h.read_lt
  have hsize := h.size_lt
  unfold rtRingbufferGet
  rw [h.dataLen_eq]
  by_cases h0 : l.length = 0
  · obtain rfl := List.eq_nil_of_length_eq_zero h0
    refine ⟨rb, ?_, rfl, ?_⟩
    · rw [if_pos h0, List.length_nil, Nat.min_zero, List.take_nil]
    · rw [List.drop_nil]
      exact h
  · rw [if_neg h0]
    dsimp only
    have hmin : (if l.length < length then l.length else length) = min length l.length := by
      split_ifs <;> omega
    rw [hmin]
    obtain ⟨k, hk⟩ : ∃ k, k = min length l.length := ⟨_, rfl⟩
    rw [← hk]
    have hkl : k ≤ l.length := by omega
    have htake : l.take length = l.take k := by
      rw [hk, Nat.min_comm, List.take_eq_take_iff]
      omega
    have hdrop : l.drop length = l.drop k := by
      rcases Nat.le_total length l.length with hc | hc
      · rw [hk, Nat.min_eq_left hc]
      · rw [hk, Nat.min_eq_right hc, List.drop_length, List.drop_eq_nil_of_le hc]
    rw [htake, hdrop]
    -- the bytes read are the first ones of the window
    have hbytes : window rb.bufferPtr rb.bufferSize rb.readIndex k = l.take k := by
      rw [← Ring.window_take hkl, h.bytes]
    rw [← hbytes]
    by_cases hc : rb.bufferSize - rb.readIndex > k
    · rw [if_pos hc]
      have hcopy : bytesAt rb.bufferPtr rb.readIndex k =
          window rb.bufferPtr rb.bufferSize rb.readIndex k := by
        refine List.map_congr_left fun j hj => ?_
        have hjk := List.mem_range.mp hj
        rw [Nat.mod_eq_of_lt (by omega)]
      refine ⟨{ rb with readIndex := u15 (rb.readIndex + k) }, by rw [hcopy], rfl,
        h.read rfl rfl rfl hkl ?_⟩
      · rw [Cursor.advance_of_lt (c := rb.rd) (by change rb.readIndex + k < _; omega)]
        simp only [Ringbuffer.rd, Cursor.mk.injEq, true_and]
        exact Nat.mod_eq_of_lt (by omega)
    · rw [if_neg hc]
      obtain ⟨n, hn⟩ : ∃ n, n = rb.bufferSize - rb.readIndex := ⟨_, rfl⟩
      rw [← hn]
      have hcopy : bytesAt rb.bufferPtr rb.readIndex n ++ bytesAt rb.bufferPtr 0 (k - n) =
          window rb.bufferPtr rb.bufferSize rb.readIndex k := by
        refine List.ext_getElem (by simp [bytesAt]; omega) fun j h₁ h₂ => ?_
        rw [Ring.length_window] at h₂
        rw [Ring.getElem_window]
        by_cases hjn : j < n
        · rw [List.getElem_append_left (by simpa [bytesAt] using hjn), Nat.mod_eq_of_lt (by omega)]
          simp [bytesAt]
        · rw [List.getElem_append_right (by simpa [bytesAt] using hjn)]
          have h₃ : rb.readIndex + j = j - n + rb.bufferSize := by omega
          rw [h₃, Nat.add_mod_right, Nat.mod_eq_of_lt (by omega)]
          simp [bytesAt]
      refine ⟨{ rb with readMirror := !rb.readMirror, readIndex := u15 (k - n) }, by rw [hcopy], rfl,
        h.read rfl rfl rfl hkl ?_⟩
      · rw [Cursor.advance_of_le (c := rb.rd) (by change _ ≤ rb.readIndex + k; omega)]
        simp only [Ringbuffer.rd, Cursor.mk.injEq, true_and]
        rw [u15, Nat.mod_eq_of_lt (by omega)]
        omega

theorem getchar : ∃ rb', rtRingbufferGetchar rb = (min 1 l.length, l.take 1, rb') ∧
    rb'.bufferSize = rb.bufferSize ∧ Represents rb' (l.drop 1) := by
  have hr := h.read_lt
  unfold rtRingbufferGetchar
  rw [h.dataLen_eq]
  by_cases h0 : l.length = 0
  · obtain rfl := List.eq_nil_of_length_eq_zero h0
    exact ⟨rb, if_pos rfl, rfl, h⟩
  · rw [if_neg h0]
    have hmin : min 1 l.length = 1 := by omega
    have hbyte : l.take 1 = [rb.bufferPtr rb.readIndex] := by
      rw [← h.bytes, Ring.window_take (by omega)]
      simp [window, Nat.mod_eq_of_lt hr]
    have hstep := advance_one h.size_lt h.read_lt (c := rb.rd) (i := rb.readIndex) rfl
    rw [hmin, hbyte]
    dsimp only
    split_ifs at hstep ⊢ with hlast
    · exact ⟨_, rfl, rfl, h.read rfl rfl rfl (by omega) hstep.symm⟩
    · exact ⟨_, rfl, rfl, h.read rfl rfl rfl (by omega) hstep.symm⟩

theorem reset : Represents (rtRingbufferReset rb) [] := by
  refine ⟨h.size_pos, h.size_lt, h.size_pos, Nat.zero_le _, ?_, rfl⟩
  exact Cursor.advance_zero (c := (rtRingbufferReset rb).rd) h.size_pos

end Represents

/-! ## Runs -/

/-- A call of the interface; `ptr` are the bytes a caller passes. -/
inductive Call
  | put (ptr : List Byte)
  | putchar (ch : Byte)
  | get (length : Nat)
  | getchar
  | reset

/-- What a call returns: its result and the bytes it stored at the caller's pointer. -/
abbrev Answer := Nat × List Byte

def Call.exec (rb : Ringbuffer) : Call → Answer × Ringbuffer
  | .put ptr =>
      let r := rtRingbufferPut rb ptr ptr.length
      ((r.1, []), r.2)
  | .putchar ch =>
      let r := rtRingbufferPutchar rb ch
      ((r.1, []), r.2)
  | .get length =>
      let r := rtRingbufferGet rb length
      ((r.1, r.2.1), r.2.2)
  | .getchar =>
      let r := rtRingbufferGetchar rb
      ((r.1, r.2.1), r.2.2)
  | .reset => ((0, []), rtRingbufferReset rb)

/-- A queue of at most `n` bytes takes the longest prefix of `xs` that fits. -/
def putBytes (n : Nat) (l xs : List Byte) : Answer × List Byte :=
  let k := min xs.length (n - l.length)
  ((k, []), l ++ xs.take k)

/-- A queue of bytes gives its first `k`. -/
def getBytes (l : List Byte) (k : Nat) : Answer × List Byte :=
  ((min k l.length, l.take k), l.drop k)

/-- **What a call is for**: the calls of a queue of at most `n` bytes. -/
def Call.queue (n : Nat) (l : List Byte) : Call → Answer × List Byte
  | .put ptr => putBytes n l ptr
  | .putchar ch => putBytes n l [ch]
  | .get length => getBytes l length
  | .getchar => getBytes l 1
  | .reset => ((0, []), [])

/-- A call does to the buffer what it does to the queue. -/
theorem Represents.exec (h : Represents rb l) (c : Call) :
    (c.exec rb).1 = (c.queue rb.bufferSize l).1 ∧ (c.exec rb).2.bufferSize = rb.bufferSize ∧
      Represents (c.exec rb).2 (c.queue rb.bufferSize l).2 := by
  cases c with
  | put ptr =>
      obtain ⟨rb', heq, hsize, h'⟩ := h.put ptr
      simp only [Call.exec, heq]
      exact ⟨rfl, hsize, h'⟩
  | putchar ch =>
      obtain ⟨rb', heq, hsize, h'⟩ := h.putchar ch
      simp only [Call.exec, heq]
      exact ⟨rfl, hsize, h'⟩
  | get length =>
      obtain ⟨rb', heq, hsize, h'⟩ := h.get length
      simp only [Call.exec, heq]
      exact ⟨rfl, hsize, h'⟩
  | getchar =>
      obtain ⟨rb', heq, hsize, h'⟩ := h.getchar
      simp only [Call.exec, heq]
      exact ⟨rfl, hsize, h'⟩
  | reset => exact ⟨rfl, rfl, h.reset⟩

/-- A buffer that was accepted is empty. -/
theorem represents_init {pool : Nat → Byte} {size : Int} (hlt : size < 32768)
    (h₀ : rtRingbufferInit pool size = some rb) (hpos : 0 < rb.bufferSize) : Represents rb [] := by
  unfold rtRingbufferInit at h₀
  split_ifs at h₀
  cases h₀
  refine ⟨hpos, ?_, hpos, Nat.zero_le _, Cursor.advance_zero (c := ⟨false, 0⟩) hpos, rfl⟩
  have h₁ : size.toNat < 32768 := by omega
  unfold Memheap.rtAlignDown Memheap.RT_ALIGN_SIZE
  dsimp only
  omega

/-- The bytes in the buffer. -/
def Ringbuffer.contents (rb : Ringbuffer) : List Byte :=
  window rb.bufferPtr rb.bufferSize rb.readIndex (rtRingbufferDataLen rb)

theorem Represents.contents_eq (h : Represents rb l) : rb.contents = l := by
  rw [Ringbuffer.contents, h.dataLen_eq, h.bytes]

/-- **The ring buffer refines a bounded queue of bytes**: whatever calls are made on a buffer that was
accepted, they return what the queue returns, and the buffer holds what the queue holds. -/
theorem ringbuffer_refines {pool : Nat → Byte} {size : Int} (hlt : size < 32768)
    (h₀ : rtRingbufferInit pool size = some rb)
    (hacc : Memheap.RT_ALIGN_SIZE ≤ rb.bufferSize) (cs : List Call) :
    let r := Trans.answers Call.exec rb cs
    let q := Trans.answers (Call.queue rb.bufferSize) [] cs
    r.1 = q.1 ∧ r.2.contents = q.2 ∧ rtRingbufferDataLen r.2 = q.2.length ∧
      q.2.length ≤ rb.bufferSize ∧
      rtRingbufferSpaceLen r.2 + rtRingbufferDataLen r.2 = rb.bufferSize := by
  intro r q
  have hpos : 0 < rb.bufferSize := Nat.lt_of_lt_of_le (by decide) hacc
  have hsim := Trans.answers_sim (f := Call.exec) (g := Call.queue rb.bufferSize)
    (R := fun s l => Represents s l ∧ s.bufferSize = rb.bufferSize) (fun s l c hs => ?_)
    ⟨represents_init hlt h₀ hpos, rfl⟩ cs
  · obtain ⟨hans, hrep, hsize⟩ := hsim
    have hlen := hrep.len_le
    rw [hsize] at hlen
    refine ⟨hans, hrep.contents_eq, hrep.dataLen_eq, hlen, ?_⟩
    rw [hrep.spaceLen_eq, hrep.dataLen_eq, hsize]
    exact Nat.sub_add_cancel hlen
  · obtain ⟨hrep, hsize⟩ := hs
    obtain ⟨hans, hsize', hrep'⟩ := hrep.exec c
    rw [hsize] at hans hrep' hsize'
    exact ⟨hans, hrep', hsize'⟩

/-- A buffer of four bytes. -/
def fourBytes : Ringbuffer := ⟨fun _ => 0, false, 0, false, 0, 4⟩

/-- The second block is cut off and goes round the end of the buffer. -/
theorem ringbuffer_refines_wrapped :
    (Trans.answers Call.exec fourBytes
      [.put [1, 2, 3], .get 2, .put [4, 5, 6, 7], .getchar]).2.contents = [4, 5, 6] := by
  have h := ringbuffer_refines (show (7 : Int) < 32768 by decide)
    (show rtRingbufferInit (fun _ => 0) 7 = some fourBytes from rfl) (by decide) [.put [1, 2, 3], .get 2, .put [4, 5, 6, 7], .getchar]
  exact h.2.1.trans (by decide)

end RTThread.Drivers
