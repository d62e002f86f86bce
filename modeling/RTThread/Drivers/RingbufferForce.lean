import RTThread.Drivers.RingbufferFifo

set_option autoImplicit false

/-! # Overwriting the oldest bytes

`rt_ringbuffer_put_force` and `rt_ringbuffer_putchar_force` are to keep the newest bytes when not all
fit. `putchar_force` does. `put_force` flips the mirror bit of the reader whenever the block goes round
the end and overwrites bytes; where the bytes before did not go round the end, the position of the
reader is then that of the writer, and the buffer is empty.
-/

namespace RTThread.Drivers

open Ring (Cursor window)

variable {rb : Ringbuffer} {l xs : List Byte} {n length : Nat}

/-- The last `n` bytes, or all of them. -/
def newest (n : Nat) (l : List Byte) : List Byte := l.drop (l.length - n)

theorem newest_of_le (h : l.length ≤ n) : newest n l = l := by
  rw [newest, Nat.sub_eq_zero_of_le h, List.drop_zero]

theorem length_newest : (newest n l).length = min n l.length := by
  rw [newest, List.length_drop]
  omega

/-- Of bytes that are appended only the newest matter. -/
theorem newest_append_newest : newest n (l ++ newest n xs) = newest n (l ++ xs) := by
  by_cases h : xs.length ≤ n
  · rw [newest_of_le h]
  · -- nothing of `l` is left
    have hcut : ∀ ys : List Byte, n ≤ ys.length → newest n (l ++ ys) = newest n ys := by
      intro ys hn
      have hlen : (l ++ ys).length - n = l.length + (ys.length - n) := by
        rw [List.length_append]
        omega
      rw [newest, hlen, ← List.drop_drop, List.drop_left, newest]
    have hlen : (newest n xs).length = n := by
      rw [length_newest]
      omega
    rw [hcut _ hlen.ge, hcut _ (by omega), newest_of_le hlen.le]

/-- Bytes that are given up now would be given up later. -/
theorem newest_newest_append : newest n (newest n l ++ xs) = newest n (l ++ xs) := by
  unfold newest
  rw [← List.drop_append_of_le_length (by omega), List.drop_drop]
  congr 1
  simp only [List.length_drop, List.length_append]
  omega

/-! ## The two functions -/

/-- The writer reached the reader. -/
theorem represents_nil (h : Represents rb l) {rb' : Ringbuffer} (hsize : rb'.bufferSize = rb.bufferSize)
    (hr : rb'.readIndex < rb'.bufferSize) (he : rb'.rd = rb'.wr) : Represents rb' [] :=
  ⟨hsize ▸ h.size_pos, hsize ▸ h.size_lt, hr, Nat.zero_le _,
    (Cursor.advance_zero (c := rb'.rd) hr).trans he, rfl⟩

namespace Represents

variable (h : Represents rb l)

include h

theorem status_full_iff : rtRingbufferStatus rb = .full ↔ l.length = rb.bufferSize := by
  have hr := h.read_lt
  unfold rtRingbufferStatus
  rcases h.cases_wrap with ⟨hlt, hm, hw⟩ | ⟨hge, hm, hw⟩
  · by_cases h0 : l.length = 0
    · rw [if_pos (by omega), if_pos hm.symm]
      exact iff_of_false (by simp) (by omega)
    · rw [if_neg (by omega)]
      exact iff_of_false (by simp) (by omega)
  · by_cases hfull : l.length = rb.bufferSize
    · rw [if_pos (by omega), if_neg (by simp [hm])]
      exact iff_of_true rfl hfull
    · rw [if_neg (by omega)]
      exact iff_of_false (by simp) hfull

/-- Where the reader has to be once bytes are overwritten: at the mirror image of the writer. -/
theorem overwrite {rb' : Ringbuffer} (st : Stored rb rb' xs)
    (hover : rb.bufferSize < l.length + xs.length)
    (hrd : rb'.rd = ⟨!rb'.writeMirror, rb'.writeIndex⟩) :
    Represents rb' (newest rb.bufferSize (l ++ xs)) := by
  have hle := h.len_le
  have hxs := st.len_le
  obtain ⟨k, hk⟩ : ∃ k, k = l.length + xs.length - rb.bufferSize := ⟨_, rfl⟩
  have hmirror : (rb.rd.advance rb.bufferSize k).advance rb.bufferSize rb.bufferSize = rb'.wr := by
    rw [st.wr, ← h.wr]
    exact Cursor.advance_congr (le_refl _) hxs (by omega)
  rw [Cursor.advance_self] at hmirror
  have hpos : rb'.rd = rb.rd.advance rb.bufferSize k := by
    rw [hrd]
    have h₁ : rb'.writeMirror = !(rb.rd.advance rb.bufferSize k).mirror :=
      (congrArg Cursor.mirror hmirror).symm
    have h₂ : rb'.writeIndex = (rb.rd.advance rb.bufferSize k).index :=
      (congrArg Cursor.index hmirror).symm
    rw [h₁, h₂, Bool.not_not]
  have hnew := h.store st (by omega) (by omega) hpos
  rw [newest, List.length_append, ← hk]
  exact hnew

/-- **`rt_ringbuffer_putchar_force`** keeps the newest bytes. -/
theorem putcharForce (ch : Byte) :
    (rtRingbufferPutcharForce rb ch).2.bufferSize = rb.bufferSize ∧
      Represents (rtRingbufferPutcharForce rb ch).2 (newest rb.bufferSize (l ++ [ch])) := by
  have hle := h.len_le
  have hstep := advance_one h.size_lt h.write_lt (c := rb.wr) (i := rb.writeIndex) rfl
  unfold rtRingbufferPutcharForce
  dsimp only
  by_cases hfull : l.length = rb.bufferSize
  · -- the reader moves on with the writer
    have hstatus := h.status_full_iff.mpr hfull
    have hmirror : rb.writeMirror = !rb.readMirror := by
      rcases h.cases_wrap with ⟨hlt, -, -⟩ | ⟨-, hm, -⟩
      · omega
      · exact hm
    simp only [hstatus, if_true]
    split_ifs at hstep ⊢ with hlast
    · refine ⟨rfl, h.overwrite ⟨rfl, written_update h ch, hstep.symm, h.size_pos⟩ (by simp; omega) ?_⟩
      simp [Ringbuffer.rd, hmirror]
    · refine ⟨rfl, h.overwrite ⟨rfl, written_update h ch, hstep.symm, h.size_pos⟩ (by simp; omega) ?_⟩
      simp [Ringbuffer.rd, hmirror]
  · have hstatus : rtRingbufferStatus rb ≠ .full := fun hs => hfull (h.status_full_iff.mp hs)
    have hfit : (l ++ [ch]).length ≤ rb.bufferSize := by
      rw [List.length_append, List.length_singleton]
      omega
    rw [newest_of_le hfit]
    rw [List.length_append] at hfit
    simp only [hstatus, if_false]
    split_ifs at hstep ⊢ with hlast
    · exact ⟨rfl, h.append ⟨rfl, written_update h ch, hstep.symm, h.size_pos⟩ hfit rfl⟩
    · exact ⟨rfl, h.append ⟨rfl, written_update h ch, hstep.symm, h.size_pos⟩ hfit rfl⟩

/-- **`rt_ringbuffer_put_force`**: all is well unless bytes that do not go round the end are
overwritten; then the buffer is empty. -/
theorem putForce (xs : List Byte) :
    (rtRingbufferPutForce rb xs xs.length).2.bufferSize = rb.bufferSize ∧
      Represents (rtRingbufferPutForce rb xs xs.length).2
        (if rb.readIndex < rb.writeIndex ∧ rb.bufferSize < l.length + xs.length then []
          else newest rb.bufferSize (l ++ xs)) := by
  have hle := h.len_le
  have hw := h.write_lt
  obtain ⟨ptr, hptr⟩ : ∃ ptr, ptr = newest rb.bufferSize xs := ⟨_, rfl⟩
  obtain ⟨len, hlen⟩ : ∃ len, len = min rb.bufferSize xs.length := ⟨_, rfl⟩
  have hplen : ptr.length = len := by rw [hptr, length_newest, hlen]
  have htake : ptr.take len = ptr := by rw [← hplen, List.take_length]
  have hlong : (if xs.length > rb.bufferSize then
      (xs.drop (xs.length - rb.bufferSize), rb.bufferSize) else (xs, xs.length)) = (ptr, len) := by
    rw [hptr, hlen]
    split_ifs with hc
    · rw [newest, Nat.min_eq_left hc.le]
    · rw [newest_of_le (Nat.not_lt.mp hc), Nat.min_eq_right (Nat.not_lt.mp hc)]
  have hst := h.stored_block ptr len hplen.ge (by omega)
  rw [htake] at hst
  have hempty : rb.readIndex < rb.writeIndex → l.length ≠ 0 := by
    have hr := h.read_lt
    rcases h.cases_wrap with ⟨hlt, -, hwi⟩ | ⟨hge, -, hwi⟩ <;> omega
  have hnewest : newest rb.bufferSize (l ++ xs) = newest rb.bufferSize (l ++ ptr) := by
    rw [hptr, newest_append_newest]
  unfold rtRingbufferPutForce
  rw [h.spaceLen_eq]
  dsimp only
  rw [hlong, hnewest]
  dsimp only
  by_cases hc : rb.bufferSize - rb.writeIndex > len
  · rw [if_pos hc] at hst ⊢
    dsimp only
    by_cases hk : len > rb.bufferSize - l.length
    · -- the bytes before go round the end
      have hmirror : rb.readMirror = !rb.writeMirror ∧ rb.writeIndex ≤ rb.readIndex := by
        have hr := h.read_lt
        rcases h.cases_wrap with ⟨hlt, -, hwi⟩ | ⟨-, hm, hwi⟩
        · omega
        · refine ⟨?_, by omega⟩
          rw [hm, Bool.not_not]
      rw [if_pos hk, if_neg (by omega)]
      refine ⟨rfl, h.overwrite ⟨rfl, hst.written, hst.wr, hst.len_le⟩ (by omega) ?_⟩
      simp only [Ringbuffer.rd, putStraight, hmirror.1]
    · rw [if_neg hk, if_neg (by omega), newest_of_le (by rw [List.length_append]; omega)]
      exact ⟨rfl, h.append hst (by omega) rfl⟩
  · rw [if_neg hc] at hst ⊢
    dsimp only
    by_cases hk : len > rb.bufferSize - l.length
    · rw [if_pos hk]
      rcases h.cases_wrap with ⟨hlt, hm, hwi⟩ | ⟨hge, hm, hwi⟩
      · -- both mirror bits flip: the positions are the same
        rw [if_pos (by omega)]
        have hr' : (putWrapped rb ptr len).writeIndex < rb.bufferSize := by
          have h₁ := Cursor.index_advance_lt (c := rb.wr) hw hst.len_le
          rw [← hst.wr] at h₁
          exact h₁
        refine ⟨rfl, represents_nil h rfl hr' ?_⟩
        simp only [Ringbuffer.rd, Ringbuffer.wr, putWrapped, hm]
      · have hr := h.read_lt
        rw [if_neg (by omega)]
        refine ⟨rfl, h.overwrite ⟨rfl, hst.written, hst.wr, hst.len_le⟩ (by omega) ?_⟩
        simp only [Ringbuffer.rd, putWrapped, hm, Bool.not_not]
    · rw [if_neg hk, if_neg (by omega), newest_of_le (by rw [List.length_append]; omega)]
      exact ⟨rfl, h.append hst (by omega) rfl⟩

end Represents

/-! ## Runs -/

/-- Any call of the interface. -/
inductive AnyCall
  | call (c : Call)
  | putForce (ptr : List Byte)
  | putcharForce (ch : Byte)

def AnyCall.exec (rb : Ringbuffer) : AnyCall → Ringbuffer
  | .call c => (c.exec rb).2
  | .putForce ptr => (rtRingbufferPutForce rb ptr ptr.length).2
  | .putcharForce ch => (rtRingbufferPutcharForce rb ch).2

/-- The buffer was accepted. -/
def Init (rb : Ringbuffer) : Prop :=
  ∃ pool size, size < 32768 ∧ rtRingbufferInit pool size = some rb ∧
    Memheap.RT_ALIGN_SIZE ≤ rb.bufferSize

def Step (rb : Ringbuffer) (c : AnyCall) (rb' : Ringbuffer) : Prop := c.exec rb = rb'

/-- In every reachable state the buffer holds some bytes. -/
theorem represents_of_reachable (hr : Trans.Reachable Init Step rb) : ∃ l, Represents rb l := by
  refine hr.invariant (I := fun rb => ∃ l, Represents rb l) ?_ ?_
  · rintro rb ⟨pool, size, hlt, h₀, hacc⟩
    exact ⟨[], represents_init hlt h₀ (Nat.lt_of_lt_of_le (by decide) hacc)⟩
  · rintro rb c rb' - ⟨l, h⟩ rfl
    cases c with
    | call c => exact ⟨_, (h.exec c).2.2⟩
    | putForce ptr => exact ⟨_, (h.putForce ptr).2⟩
    | putcharForce ch => exact ⟨_, (h.putcharForce ch).2⟩

/-- `rt_ringbuffer_putchar_force` on each byte in turn. -/
def putcharsForce (rb : Ringbuffer) (xs : List Byte) : Ringbuffer :=
  xs.foldl (fun rb ch => (rtRingbufferPutcharForce rb ch).2) rb

theorem Represents.putcharsForce (h : Represents rb l) (xs : List Byte) :
    Represents (putcharsForce rb xs) (newest rb.bufferSize (l ++ xs)) := by
  induction xs generalizing rb l with
  | nil =>
      rw [List.append_nil, newest_of_le h.len_le]
      exact h
  | cons ch xs ih =>
      obtain ⟨hsize, h'⟩ := h.putcharForce ch
      have h₁ := ih h'
      rw [hsize, newest_newest_append, List.append_assoc] at h₁
      exact h₁

/-- What both ways of a forced put are to leave in the buffer. -/
def KeepsNewest (rb : Ringbuffer) (d : List Byte) : Prop :=
  (rtRingbufferPutForce rb d d.length).2.contents = newest rb.bufferSize (rb.contents ++ d) ∧
    (putcharsForce rb d).contents = newest rb.bufferSize (rb.contents ++ d)

/-- **A forced put keeps the newest bytes** exactly when it overwrites nothing, or the bytes before go
round the end of the buffer. -/
theorem put_force_newest (hr : Trans.Reachable Init Step rb) (d : List Byte) :
    KeepsNewest rb d ↔
      ¬ (rb.readIndex < rb.writeIndex ∧ rb.bufferSize < rb.contents.length + d.length) := by
  obtain ⟨l, h⟩ := represents_of_reachable hr
  have hforce := (h.putForce d).2.contents_eq
  have hchars := (h.putcharsForce d).contents_eq
  unfold KeepsNewest
  rw [h.contents_eq, hchars, hforce, and_iff_left rfl]
  split_ifs with hc
  · -- the newest bytes are not none
    refine iff_of_false (fun he => ?_) (not_not.mpr hc)
    have h₁ := congrArg List.length he
    rw [length_newest, List.length_append, List.length_nil] at h₁
    have h₂ := h.size_pos
    omega
  · exact iff_of_true rfl hc

theorem fourBytes_init : Init fourBytes := ⟨fun _ => 0, 7, by decide, rfl, by decide⟩

/-- The bytes before go round the end. -/
theorem put_force_newest_wrapped :
    KeepsNewest (AnyCall.exec (AnyCall.exec (AnyCall.exec fourBytes (.call (.put [1, 2, 3])))
      (.call (.get 2))) (.call (.put [4, 5, 6]))) [7, 8, 9] := by
  refine (put_force_newest ?_ [7, 8, 9]).mpr (by decide)
  exact (((Trans.Reachable.init fourBytes_init).step rfl).step rfl).step rfl

/-- A full block over one byte leaves nothing. -/
theorem put_force_loses :
    ¬ ∀ rb, Trans.Reachable Init Step rb → ∀ d, KeepsNewest rb d := by
  intro hclaim
  have hr : Trans.Reachable Init Step (AnyCall.exec fourBytes (.call (.put [1]))) :=
    (Trans.Reachable.init fourBytes_init).step rfl
  have h₁ := (hclaim _ hr [2, 3, 4, 5]).1
  revert h₁
  decide

end RTThread.Drivers
