import RTThread.Drivers.Dataqueue
import RTThread.Lib.RingBuffer

set_option autoImplicit false

/-! # The receive fifo of a serial device (`serial.c`)

Two interrupts put bytes into the fifo, one for each byte and one for the bytes that the DMA has written,
and there are two ways to read. Each section that runs with interrupts disabled is a step; the loop of
`_serial_int_rx` is a step for each byte. The indices are halfwords. The calls of `rx_indicate` and the
reads without a fifo (`bufsz == 0`) are left out.
-/

namespace RTThread.Drivers

/-- `struct rt_serial_rx_fifo`. -/
structure RxFifo where
  buffer : Nat → UInt8
  putIndex : Nat
  getIndex : Nat
  isFull : Bool

namespace RxFifo

/-- The fifo that `rt_serial_open` makes. -/
def init : RxFifo := ⟨fun _ => 0, 0, 0, false⟩

section Code

variable (bufsz : Nat)

/-- `index += 1; if (index >= serial->config.bufsz) index = 0;` -/
def next (index : Nat) : Nat := if u16 (index + 1) ≥ bufsz then 0 else u16 (index + 1)

/-- `_serial_fifo_calc_recved_len(serial)` -/
def calcRecvedLen (f : RxFifo) : Nat :=
  if f.putIndex = f.getIndex then if f.isFull then bufsz else 0
  else if f.putIndex > f.getIndex then f.putIndex - f.getIndex
  else bufsz - (f.getIndex - f.putIndex)

/-- The handler of `RT_SERIAL_EVENT_RX_IND`, for one character. -/
def rxInd (f : RxFifo) (ch : UInt8) : RxFifo :=
  let f := { f with
    buffer := Function.update f.buffer f.putIndex ch
    putIndex := next bufsz f.putIndex }
  -- if the next position is read index, discard this 'read char'
  if f.putIndex = f.getIndex then { f with getIndex := next bufsz f.getIndex, isFull := true } else f

/-- A round of the loop of `_serial_int_rx`: the byte, or nothing when there is no data. -/
def intRound (f : RxFifo) : Option UInt8 × RxFifo :=
  if f.getIndex = f.putIndex ∧ f.isFull = false then (none, f)
  else
    (some (f.buffer f.getIndex), { f with getIndex := next bufsz f.getIndex, isFull := false })

/-- `_serial_int_rx(serial, data, length)`, when nothing comes in between. -/
def serialIntRx : Nat → RxFifo → List UInt8 × RxFifo
  | 0, f => ([], f)
  | length + 1, f =>
      match intRound bufsz f with
      | (none, f) => ([], f)
      | (some ch, f) => (ch :: (serialIntRx length f).1, (serialIntRx length f).2)

/-- `rt_dma_recv_update_get_index(serial, len)` -/
def updateGetIndex (f : RxFifo) (len : Nat) : RxFifo :=
  let get := u16 (f.getIndex + len)
  { f with
    isFull := if f.isFull ∧ len ≠ 0 then false else f.isFull
    getIndex := if get ≥ bufsz then get % bufsz else get }

/-- `_serial_dma_rx(serial, data, length)`, for a length that is not negative. -/
def serialDmaRx (length : Nat) (f : RxFifo) : List UInt8 × RxFifo :=
  let recvLen := if length < calcRecvedLen bufsz f then length else calcRecvedLen bufsz f
  let data :=
    if f.getIndex + recvLen < bufsz then (List.range recvLen).map fun i => f.buffer (f.getIndex + i)
    else ((List.range (bufsz - f.getIndex)).map fun i => f.buffer (f.getIndex + i)) ++
      (List.range (recvLen + f.getIndex - bufsz)).map f.buffer
  (data, updateGetIndex bufsz f recvLen)

/-- `rt_dma_recv_update_put_index(serial, len)` -/
def updatePutIndex (f : RxFifo) (len : Nat) : RxFifo :=
  let put := u16 (f.putIndex + len)
  let f :=
    if f.getIndex ≤ f.putIndex then
      -- beyond the fifo end
      if put ≥ bufsz then
        { f with putIndex := put % bufsz, isFull := if put % bufsz ≥ f.getIndex then true else f.isFull }
      else { f with putIndex := put }
    else if put ≥ f.getIndex then
      -- force overwrite get index
      { f with putIndex := if put ≥ bufsz then put % bufsz else put, isFull := true }
    else { f with putIndex := put }
  if f.isFull then { f with getIndex := f.putIndex } else f

/-- What the DMA writes from the index `p` on, going round at the end of the buffer. -/
def dmaWrite : (Nat → UInt8) → Nat → List UInt8 → Nat → UInt8
  | buffer, _, [] => buffer
  | buffer, p, b :: bs => dmaWrite (Function.update buffer p b) ((p + 1) % bufsz) bs

/-- The handler of `RT_SERIAL_EVENT_RX_DMADONE`, for the bytes that the DMA wrote at `put_index`. -/
def rxDmaDone (f : RxFifo) (bs : List UInt8) : RxFifo :=
  updatePutIndex bufsz { f with buffer := dmaWrite bufsz f.buffer f.putIndex bs } bs.length

/-- The bytes that are in the fifo, oldest first. -/
def contents (f : RxFifo) : List UInt8 :=
  (List.range (calcRecvedLen bufsz f)).map fun i => f.buffer ((f.getIndex + i) % bufsz)

end Code

/-! ## The fifo as a ring buffer -/

variable {bufsz : Nat} {f : RxFifo} {r : RingBuffer UInt8 bufsz} {bs : List UInt8}

/-- The flag is set when the fifo is full: with as many bytes as the buffer has, or with one less when the
byte that came last has displaced the oldest one. -/
structure Holds (f : RxFifo) (r : RingBuffer UInt8 bufsz) : Prop where
  two_le : 2 ≤ bufsz
  le : bufsz ≤ 65535
  buffer : f.buffer = r.pool
  get : f.getIndex = r.head
  put : f.putIndex = r.tail
  full : f.isFull = true → bufsz ≤ r.count + 1
  all : r.count = bufsz → f.isFull = true

theorem mod_cases {n x : Nat} (hx : x < 2 * n) : x < n ∧ x % n = x ∨ n ≤ x ∧ x % n = x - n := by
  by_cases hlt : x < n
  · exact .inl ⟨hlt, Nat.mod_eq_of_lt hlt⟩
  · have hle := Nat.le_of_not_lt hlt
    rw [Nat.mod_eq_sub_mod hle, Nat.mod_eq_of_lt (by omega)]
    exact .inr ⟨hle, rfl⟩

/-- Where the two indices are, for the number of bytes. -/
theorem Holds.put_cases (h : f.Holds r) :
    f.getIndex + r.count < bufsz ∧ f.putIndex = f.getIndex + r.count ∨
      bufsz ≤ f.getIndex + r.count ∧ f.putIndex = f.getIndex + r.count - bufsz := by
  have hhead := r.head_lt
  have hcount := r.count_le
  rw [h.put, h.get]
  exact mod_cases (x := r.head + r.count) (by omega)

theorem Holds.get_lt (h : f.Holds r) : f.getIndex < bufsz := h.get ▸ r.head_lt

theorem Holds.put_lt (h : f.Holds r) : f.putIndex < bufsz := by
  have hget := h.get_lt
  have hput := h.put_cases
  have hcount := r.count_le
  omega

theorem Holds.calcRecvedLen_eq (h : f.Holds r) : calcRecvedLen bufsz f = r.count := by
  have hget := h.get_lt
  have hput := h.put_cases
  have hcount := r.count_le
  have htwo := h.two_le
  unfold calcRecvedLen
  cases hfull : f.isFull with
  | true =>
      have hle := h.full hfull
      rw [if_pos rfl]
      split_ifs <;> omega
  | false =>
      have hne : r.count ≠ bufsz := fun he => by simp [h.all he] at hfull
      rw [if_neg Bool.false_ne_true]
      split_ifs <;> omega

theorem Holds.contents_eq (h : f.Holds r) : f.contents bufsz = r.toList := by
  unfold contents
  rw [h.calcRecvedLen_eq, h.get, h.buffer]
  rfl

theorem next_eq {index : Nat} (hle : bufsz ≤ 65535) (hlt : index < bufsz) :
    next bufsz index = (index + 1) % bufsz := by
  have hword : u16 (index + 1) = index + 1 := Nat.mod_eq_of_lt (by omega)
  have hmod := mod_cases (n := bufsz) (x := index + 1) (by omega)
  unfold next
  rw [hword]
  split_ifs with h
  · omega
  · omega

/-- An index behind the end of the buffer is reduced. -/
theorem reduce_eq (x : Nat) : (if x ≥ bufsz then x % bufsz else x) = x % bufsz := by
  split_ifs with h
  · rfl
  · exact (Nat.mod_eq_of_lt (Nat.not_le.mp h)).symm

theorem holds_init (hlo : 2 ≤ bufsz) (hhi : bufsz ≤ 65535) :
    init.Holds (RingBuffer.empty (fun _ => 0) (by omega) : RingBuffer UInt8 bufsz) where
  two_le := hlo
  le := hhi
  buffer := rfl
  get := rfl
  put := (RingBuffer.tail_empty _ _).symm
  full h := by cases h
  all h := by
    have hzero : 0 = bufsz := h
    omega

/-- Only a fifo that the DMA has filled has all its bytes. -/
theorem Holds.count_ne (h : f.Holds r) (hroom : ¬ (f.putIndex = f.getIndex ∧ f.isFull = true)) :
    r.count ≠ bufsz := by
  intro hall
  have hput := h.put_cases
  have hget := h.get_lt
  exact hroom ⟨by omega, h.all hall⟩

/-- A byte is received in interrupt mode. -/
theorem rxInd_spec (ch : UInt8) (h : f.Holds r) (hroom : ¬ (f.putIndex = f.getIndex ∧ f.isFull = true)) :
    ∃ r' : RingBuffer UInt8 bufsz, (rxInd bufsz f ch).Holds r' ∧
      r'.toList = if r.count + 1 = bufsz then (r.toList ++ [ch]).tail else r.toList ++ [ch] := by
  have hne := h.count_ne hroom
  have hle := r.count_le
  have hget := h.get_lt
  have hput := h.put_cases
  have htwo := h.two_le
  have hnext : next bufsz f.putIndex = (r.push ch hne).tail := by
    rw [next_eq h.le h.put_lt, RingBuffer.tail_push, h.put]
  have hbuffer : Function.update f.buffer f.putIndex ch = (r.push ch hne).pool := by
    rw [h.buffer, h.put]
    rfl
  have hmeet : next bufsz f.putIndex = f.getIndex ↔ r.count + 1 = bufsz := by
    rw [next_eq h.le h.put_lt]
    have hmod := mod_cases (n := bufsz) (x := f.putIndex + 1) (by have := h.put_lt; omega)
    omega
  unfold rxInd
  by_cases hfull : r.count + 1 = bufsz
  · have hgetNext : next bufsz f.getIndex = ((r.push ch hne).drop 1).head := by
      rw [next_eq h.le hget, h.get]
      rfl
    refine ⟨(r.push ch hne).drop 1, ?_, ?_⟩
    · dsimp only
      rw [if_pos (hmeet.mpr hfull)]
      refine ⟨htwo, h.le, hbuffer, hgetNext, ?_, fun _ => ?_, fun _ => rfl⟩
      · rw [RingBuffer.tail_drop _ (Nat.succ_pos _)]
        exact hnext
      · show bufsz ≤ r.count + 1 - 1 + 1
        omega
    · rw [if_pos hfull, RingBuffer.toList_drop, RingBuffer.toList_push, List.drop_one]
  · refine ⟨r.push ch hne, ?_, ?_⟩
    · dsimp only
      rw [if_neg (mt hmeet.mp hfull)]
      refine ⟨htwo, h.le, hbuffer, h.get, hnext, fun hset => ?_, fun hall => absurd hall hfull⟩
      exact Nat.le_succ_of_le (h.full hset)
    · rw [if_neg hfull, RingBuffer.toList_push]

/-- A byte is read in interrupt mode. -/
theorem intRound_spec (h : f.Holds r) : ∃ r' : RingBuffer UInt8 bufsz,
    (intRound bufsz f).1 = r.toList.head? ∧ (intRound bufsz f).2.Holds r' ∧
      r'.toList = r.toList.tail := by
  have hget := h.get_lt
  have hput := h.put_cases
  have hle := r.count_le
  have htwo := h.two_le
  unfold intRound
  by_cases hempty : f.getIndex = f.putIndex ∧ f.isFull = false
  · have hnil : r.toList = [] := by
      refine List.eq_nil_of_length_eq_zero ?_
      rw [RingBuffer.length_toList]
      have hne : r.count ≠ bufsz := fun he => by simp [h.all he] at hempty
      omega
    rw [if_pos hempty, hnil]
    exact ⟨r, rfl, h, hnil⟩
  · have hpos : r.count ≠ 0 := by
      intro hzero
      have hset : f.isFull ≠ false := fun hf => hempty ⟨by omega, hf⟩
      have hfull := h.full (by simpa using hset)
      omega
    have hdrop := RingBuffer.tail_drop r (Nat.pos_of_ne_zero hpos)
    rw [if_neg hempty, RingBuffer.toList_pop r hpos]
    refine ⟨r.drop 1, ?_, ⟨htwo, h.le, h.buffer, ?_, ?_, ?_, fun hall => ?_⟩, ?_⟩
    · rw [h.buffer, h.get]
      rfl
    · show next bufsz f.getIndex = (r.head + 1) % bufsz
      rw [next_eq h.le hget, h.get]
    · rw [hdrop]
      exact h.put
    · exact fun hset => absurd hset Bool.false_ne_true
    · have hcount : r.count - 1 = bufsz := hall
      omega
    · rw [RingBuffer.toList_drop, RingBuffer.toList_pop r hpos]
      rfl

/-- The bytes that stand in two parts of the buffer. -/
theorem dma_data_eq (h : f.Holds r) {k : Nat} (hk : k ≤ r.count) :
    (if f.getIndex + k < bufsz then (List.range k).map fun i => f.buffer (f.getIndex + i)
      else ((List.range (bufsz - f.getIndex)).map fun i => f.buffer (f.getIndex + i)) ++
        (List.range (k + f.getIndex - bufsz)).map f.buffer) = r.toList.take k := by
  have hget := h.get_lt
  have hle := r.count_le
  rw [h.buffer, h.get] at *
  by_cases hend : r.head + k < bufsz
  · rw [if_pos hend, RingBuffer.take_toList r hk (le_of_lt hend)]
  · have hsplit : k = (bufsz - r.head) + (k + r.head - bufsz) := by omega
    rw [if_neg hend]
    conv_rhs => rw [hsplit, List.take_add]
    rw [RingBuffer.take_toList r (by omega) (by omega), ← RingBuffer.toList_drop,
      RingBuffer.take_toList (r.drop (bufsz - r.head))
        (by show _ ≤ r.count - (bufsz - r.head); omega)
        (by
          show (r.head + (bufsz - r.head)) % bufsz + _ ≤ bufsz
          rw [Nat.add_sub_cancel' (le_of_lt hget), Nat.mod_self]
          omega)]
    congr 1
    refine List.map_congr_left fun i _ => ?_
    show r.pool i = r.pool ((r.head + (bufsz - r.head)) % bufsz + i)
    rw [Nat.add_sub_cancel' (le_of_lt hget), Nat.mod_self, Nat.zero_add]

/-- Bytes are read in DMA mode. -/
theorem serialDmaRx_spec (h : f.Holds r) {length : Nat}
    (hword : f.getIndex + min length (calcRecvedLen bufsz f) < 65536) :
    ∃ r' : RingBuffer UInt8 bufsz, (serialDmaRx bufsz length f).1 = r.toList.take length ∧
      (serialDmaRx bufsz length f).2.Holds r' ∧ r'.toList = r.toList.drop length := by
  have hlen := h.calcRecvedLen_eq
  have hrecv : (if length < calcRecvedLen bufsz f then length else calcRecvedLen bufsz f) =
      min length r.count := by
    rw [hlen]
    split_ifs <;> omega
  rw [hlen] at hword
  obtain ⟨k, hk⟩ : ∃ k, k = min length r.count := ⟨_, rfl⟩
  have hkle : k ≤ r.count := by omega
  unfold serialDmaRx
  dsimp only
  rw [hrecv, ← hk, dma_data_eq h hkle]
  have hsame : length = k ∨ r.toList.length ≤ k ∧ r.toList.length ≤ length := by
    rw [RingBuffer.length_toList]
    omega
  refine ⟨r.drop k, ?_, ⟨h.two_le, h.le, h.buffer, ?_, ?_, fun hset => ?_, fun hall => ?_⟩, ?_⟩
  · obtain rfl | ⟨hk₁, hk₂⟩ := hsame
    · rfl
    · rw [List.take_of_length_le hk₁, List.take_of_length_le hk₂]
  · show (if u16 (f.getIndex + k) ≥ bufsz then u16 (f.getIndex + k) % bufsz else u16 (f.getIndex + k)) =
      (r.head + k) % bufsz
    rw [reduce_eq, show u16 (f.getIndex + k) = f.getIndex + k from Nat.mod_eq_of_lt (hk ▸ hword), h.get]
  · rw [RingBuffer.tail_drop r hkle]
    exact h.put
  · have hset' : (if f.isFull = true ∧ k ≠ 0 then false else f.isFull) = true := hset
    show bufsz ≤ r.count - k + 1
    split_ifs at hset' with hread
    have hfull := h.full hset'
    have hzero : k = 0 := by
      by_contra hne
      exact hread ⟨hset', hne⟩
    omega
  · have hcount : r.count - k = bufsz := hall
    have hle := r.count_le
    have htwo := h.two_le
    show (if f.isFull = true ∧ k ≠ 0 then false else f.isFull) = true
    rw [if_neg (by omega)]
    exact h.all (by omega)
  · rw [RingBuffer.toList_drop]
    obtain rfl | ⟨hk₁, hk₂⟩ := hsame
    · rfl
    · rw [List.drop_of_length_le hk₁, List.drop_of_length_le hk₂]

theorem dmaWrite_eq (r : RingBuffer UInt8 bufsz) (bs : List UInt8) :
    dmaWrite bufsz r.pool r.tail bs = (r.forceAll bs).pool := by
  induction bs generalizing r with
  | nil => rfl
  | cons b bs ih =>
      show dmaWrite bufsz (r.force b).pool ((r.tail + 1) % bufsz) bs = ((r.force b).forceAll bs).pool
      rw [← RingBuffer.tail_force, ih]

/-- The indices after a DMA event: the oldest bytes are overwritten when there is no space for all. -/
theorem updatePutIndex_eq (h : f.Holds r) {len : Nat} (hlen : len ≤ bufsz)
    (hword : f.putIndex + len < 65536)
    (hzero : len = 0 → f.isFull = true → f.putIndex = f.getIndex) (buffer : Nat → UInt8) :
    updatePutIndex bufsz { f with buffer := buffer } len =
      { buffer := buffer
        putIndex := (f.putIndex + len) % bufsz
        getIndex := if bufsz ≤ r.count + len then (f.putIndex + len) % bufsz else f.getIndex
        isFull := decide (bufsz ≤ r.count + len) } := by
  have hget := h.get_lt
  have hput := h.put_cases
  have hputlt := h.put_lt
  have hle := r.count_le
  have htwo := h.two_le
  have hmod := mod_cases (n := bufsz) (x := f.putIndex + len) (by omega)
  have hput16 : u16 (f.putIndex + len) = f.putIndex + len := Nat.mod_eq_of_lt hword
  -- a flag that is set stays right
  have hstale : f.isFull = true → bufsz ≤ r.count + len := by
    intro hset
    have hfull := h.full hset
    have hzero' := fun hz => hzero hz hset
    omega
  unfold updatePutIndex
  dsimp only
  rw [hput16]
  by_cases hfull : bufsz ≤ r.count + len
  · rw [if_pos hfull, decide_eq_true hfull]
    by_cases hbelow : f.getIndex ≤ f.putIndex
    · rw [if_pos hbelow]
      by_cases hwrap : f.putIndex + len ≥ bufsz
      · have hset : (if (f.putIndex + len) % bufsz ≥ f.getIndex then true else f.isFull) = true := by
          split_ifs with hover
          · rfl
          · exact h.all (by omega)
        rw [if_pos hwrap]
        dsimp only
        rw [hset, if_pos rfl]
      · have hset : f.isFull = true := h.all (by omega)
        rw [if_neg hwrap]
        dsimp only
        rw [hset, if_pos rfl, Nat.mod_eq_of_lt (Nat.not_le.mp hwrap)]
    · have hover : f.putIndex + len ≥ f.getIndex := by omega
      rw [if_neg hbelow, if_pos hover, reduce_eq]
      rfl
  · have hset : f.isFull = false := by
      cases hf : f.isFull with
      | true => exact absurd (hstale hf) hfull
      | false => rfl
    rw [if_neg hfull, decide_eq_false hfull]
    by_cases hbelow : f.getIndex ≤ f.putIndex
    · rw [if_pos hbelow]
      by_cases hwrap : f.putIndex + len ≥ bufsz
      · have hunder : ¬ (f.putIndex + len) % bufsz ≥ f.getIndex := by omega
        rw [if_pos hwrap]
        dsimp only
        rw [if_neg hunder, hset]
        rfl
      · rw [if_neg hwrap]
        dsimp only
        rw [hset, Nat.mod_eq_of_lt (Nat.not_le.mp hwrap)]
        rfl
    · have hunder : ¬ f.putIndex + len ≥ f.getIndex := by omega
      rw [if_neg hbelow, if_neg hunder]
      dsimp only
      rw [hset, Nat.mod_eq_of_lt (by omega)]
      rfl

/-- The bytes of a DMA event are received. -/
theorem rxDmaDone_spec (h : f.Holds r) (hlen : bs.length ≤ bufsz)
    (hword : f.putIndex + bs.length < 65536)
    (hzero : bs.length = 0 → f.isFull = true → f.putIndex = f.getIndex) :
    (rxDmaDone bufsz f bs).Holds (r.forceAll bs) := by
  have hle := r.count_le
  have hcount := RingBuffer.count_forceAll r bs
  have htail := RingBuffer.tail_forceAll r bs
  unfold rxDmaDone
  rw [updatePutIndex_eq h hlen hword hzero]
  refine ⟨h.two_le, h.le, ?_, ?_, ?_, fun hset => ?_, fun hall => ?_⟩
  · rw [h.buffer, h.put]
    exact dmaWrite_eq r bs
  · dsimp only
    split_ifs with hfull
    · -- the first byte is where the next one goes
      have hall : (r.forceAll bs).count = bufsz := by omega
      have hround : (r.forceAll bs).tail = (r.forceAll bs).head := by
        unfold RingBuffer.tail
        rw [hall, Nat.add_mod_right, Nat.mod_eq_of_lt (r.forceAll bs).head_lt]
      rw [← hround, htail, h.put]
    · rw [RingBuffer.head_forceAll r bs (by omega), h.get]
  · rw [htail, ← h.put]
  · have hfull : bufsz ≤ r.count + bs.length := of_decide_eq_true hset
    omega
  · exact decide_eq_true (by omega)

/-- A whole read in interrupt mode. -/
theorem serialIntRx_spec (length : Nat) : ∀ {f : RxFifo} {r : RingBuffer UInt8 bufsz}, f.Holds r →
    ∃ r' : RingBuffer UInt8 bufsz, (serialIntRx bufsz length f).1 = r.toList.take length ∧
      (serialIntRx bufsz length f).2.Holds r' ∧ r'.toList = r.toList.drop length := by
  induction length with
  | zero => exact fun {f r} h => ⟨r, rfl, h, rfl⟩
  | succ length ih =>
      intro f r h
      obtain ⟨r₁, hch, hholds, hrest⟩ := intRound_spec h
      cases hround : intRound bufsz f with
      | mk o f₁ =>
          rw [hround] at hch hholds
          rw [serialIntRx, hround]
          cases hlist : r.toList with
          | nil =>
              rw [hlist] at hch hrest
              obtain rfl : o = none := hch
              exact ⟨r₁, rfl, hholds, hrest⟩
          | cons ch l =>
              rw [hlist] at hch hrest
              obtain rfl : o = some ch := hch
              obtain ⟨r', hdata, hholds', hrest'⟩ := ih hholds
              rw [hrest] at hdata hrest'
              exact ⟨r', congrArg (ch :: ·) hdata, hholds', hrest'⟩

end RxFifo

/-! ## Receiving and reading -/

/-- What is done to received bytes. -/
structure RxOps (σ : Type) where
  rxInd : σ → UInt8 → σ
  rxDmaDone : σ → List UInt8 → σ
  intRound : σ → Option UInt8 × σ
  dmaRx : Nat → σ → List UInt8 × σ

/-- The operations of the code. -/
def fifoOps (bufsz : Nat) : RxOps RxFifo where
  rxInd := RxFifo.rxInd bufsz
  rxDmaDone := RxFifo.rxDmaDone bufsz
  intRound := RxFifo.intRound bufsz
  dmaRx := RxFifo.serialDmaRx bufsz

/-- The operations on the bytes that are kept, oldest first: a byte is appended, and the oldest one dropped
if that fills the buffer; the bytes of a DMA event are appended, and the newest `bufsz` kept; the oldest
ones are read. -/
def listOps (bufsz : Nat) : RxOps (List UInt8) where
  rxInd l ch := if (l ++ [ch]).length = bufsz then (l ++ [ch]).tail else l ++ [ch]
  rxDmaDone l bs := (l ++ bs).drop ((l ++ bs).length - bufsz)
  intRound l := (l.head?, l.tail)
  dmaRx length l := (l.take length, l.drop length)

theorem length_rxDmaDone (bufsz : Nat) (l bs : List UInt8) :
    ((listOps bufsz).rxDmaDone l bs).length = min (l.length + bs.length) bufsz := by
  show ((l ++ bs).drop ((l ++ bs).length - bufsz)).length = _
  rw [List.length_drop, List.length_append]
  omega

/-- Where a thread is in `_serial_int_rx`: how much it still wants, and what it has read. -/
inductive RxPc
  | idle
  | reading (length : Nat) (data : List UInt8)
  deriving DecidableEq

/-- The received bytes, the reading threads, and what the reads returned, in order. -/
structure RxSys (σ : Type) where
  fifo : σ
  pc : ThreadId → RxPc
  returned : List (ThreadId × List UInt8)

inductive RxAction
  /-- `RT_SERIAL_EVENT_RX_IND`, a character -/
  | rxInd (ch : UInt8)
  /-- `RT_SERIAL_EVENT_RX_DMADONE` -/
  | rxDmaDone (bs : List UInt8)
  /-- `_serial_int_rx` is called -/
  | intRead (t : ThreadId) (length : Nat)
  /-- a round of its loop -/
  | round (t : ThreadId)
  /-- `_serial_dma_rx` -/
  | dmaRead (t : ThreadId) (length : Nat)

namespace RxSys

/-- Nothing is received. -/
def start {σ : Type} (fifo : σ) : RxSys σ := ⟨fifo, fun _ => .idle, []⟩

def setPc {σ : Type} (s : RxSys σ) (t : ThreadId) (pc : RxPc) : RxSys σ :=
  { s with pc := Function.update s.pc t pc }

def ret {σ : Type} (s : RxSys σ) (t : ThreadId) (data : List UInt8) : RxSys σ :=
  { s.setPc t .idle with returned := s.returned ++ [(t, data)] }

/-- The DMA writes at most once around the buffer. -/
def exec {σ : Type} (ops : RxOps σ) (bufsz : Nat) (s : RxSys σ) : RxAction → Option (RxSys σ)
  | .rxInd ch => some { s with fifo := ops.rxInd s.fifo ch }
  | .rxDmaDone bs => if bs.length ≤ bufsz then some { s with fifo := ops.rxDmaDone s.fifo bs } else none
  | .intRead t length => if s.pc t = .idle then some (s.setPc t (.reading length [])) else none
  | .round t =>
      match s.pc t with
      | .idle => none
      | .reading 0 data => some (s.ret t data)
      | .reading (length + 1) data =>
          match ops.intRound s.fifo with
          | (none, fifo) => some ({ s with fifo := fifo }.ret t data)
          | (some ch, fifo) => some ({ s with fifo := fifo }.setPc t (.reading length (data ++ [ch])))
  | .dmaRead t length =>
      if s.pc t = .idle then
        some ({ s with fifo := (ops.dmaRx length s.fifo).2 }.ret t (ops.dmaRx length s.fifo).1)
      else none

/-- No index is beyond 65535 before it is reduced; no single byte comes into a fifo that the DMA has
filled, and no empty DMA event into one that single bytes have filled. -/
def Careful (bufsz : Nat) (s : RxSys RxFifo) : RxAction → Prop
  | .rxInd _ => ¬ (s.fifo.putIndex = s.fifo.getIndex ∧ s.fifo.isFull = true)
  | .rxDmaDone bs => s.fifo.putIndex + bs.length < 65536 ∧
      (bs.length = 0 → s.fifo.isFull = true → s.fifo.putIndex = s.fifo.getIndex)
  | .dmaRead _ length => s.fifo.getIndex + min length (s.fifo.calcRecvedLen bufsz) < 65536
  | _ => True

/-- The fifo holds these bytes, and the threads are alike. -/
structure Sim (bufsz : Nat) (s : RxSys RxFifo) (a : RxSys (List UInt8)) : Prop where
  pc : s.pc = a.pc
  returned : s.returned = a.returned
  fifo : ∃ r : RingBuffer UInt8 bufsz, s.fifo.Holds r ∧ r.toList = a.fifo

variable {bufsz : Nat} {s s' : RxSys RxFifo} {a : RxSys (List UInt8)} {t : ThreadId}

theorem sim_start (hlo : 2 ≤ bufsz) (hhi : bufsz ≤ 65535) :
    Sim bufsz (start RxFifo.init) (start []) :=
  ⟨rfl, rfl, _, RxFifo.holds_init hlo hhi, RingBuffer.toList_empty _ _⟩

theorem Sim.ret (h : Sim bufsz s a) (t : ThreadId) (data : List UInt8) :
    Sim bufsz (s.ret t data) (a.ret t data) where
  pc := by
    show Function.update s.pc t _ = Function.update a.pc t _
    rw [h.pc]
  returned := congrArg (· ++ [(t, data)]) h.returned
  fifo := h.fifo

theorem Sim.setPc (h : Sim bufsz s a) (t : ThreadId) (pc : RxPc) :
    Sim bufsz (s.setPc t pc) (a.setPc t pc) where
  pc := by
    show Function.update s.pc t _ = Function.update a.pc t _
    rw [h.pc]
  returned := h.returned
  fifo := h.fifo

/-- The threads are where they were. -/
theorem Sim.setFifo (h : Sim bufsz s a) {f : RxFifo} {l : List UInt8}
    (hf : ∃ r : RingBuffer UInt8 bufsz, f.Holds r ∧ r.toList = l) :
    Sim bufsz { s with fifo := f } { a with fifo := l } where
  pc := h.pc
  returned := h.returned
  fifo := hf

/-- Every careful step is one of the bytes that are kept. -/
theorem Sim.step (h : Sim bufsz s a) {x : RxAction} (hc : Careful bufsz s x)
    (he : exec (fifoOps bufsz) bufsz s x = some s') :
    ∃ a', exec (listOps bufsz) bufsz a x = some a' ∧ Sim bufsz s' a' := by
  obtain ⟨r, hholds, hlist⟩ := h.fifo
  have hlen : a.fifo.length = r.count := by rw [← hlist, RingBuffer.length_toList]
  cases x with
  | rxInd ch =>
      cases he
      obtain ⟨r', hholds', hlist'⟩ := RxFifo.rxInd_spec ch hholds hc
      refine ⟨_, rfl, h.setFifo ⟨r', hholds', ?_⟩⟩
      rw [hlist', hlist]
      show _ = if (a.fifo ++ [ch]).length = bufsz then _ else _
      rw [List.length_append, hlen, List.length_singleton]
  | rxDmaDone bs =>
      simp only [exec] at he ⊢
      split_ifs at he with hle
      cases he
      have hholds' := RxFifo.rxDmaDone_spec hholds hle hc.1 hc.2
      rw [if_pos hle]
      refine ⟨_, rfl, h.setFifo ⟨_, hholds', ?_⟩⟩
      rw [RingBuffer.toList_forceAll, hlist, ← hlen, ← List.length_append]
      rfl
  | intRead t length =>
      simp only [exec] at he ⊢
      split_ifs at he with hpc
      cases he
      rw [if_pos (h.pc ▸ hpc)]
      exact ⟨_, rfl, h.setPc t _⟩
  | round t =>
      simp only [exec] at he ⊢
      rw [← h.pc]
      cases hpc : s.pc t with
      | idle =>
          rw [hpc] at he
          cases he
      | reading length data =>
          rw [hpc] at he
          cases length with
          | zero =>
              cases he
              exact ⟨_, rfl, h.ret t data⟩
          | succ length =>
              obtain ⟨r', hch, hholds', hlist'⟩ := RxFifo.intRound_spec hholds
              rw [hlist] at hch hlist'
              have hnew := h.setFifo ⟨r', hholds', hlist'⟩
              obtain ⟨o, ho⟩ : ∃ o, o = a.fifo.head? := ⟨_, rfl⟩
              have hcode : (fifoOps bufsz).intRound s.fifo =
                  (o, (RxFifo.intRound bufsz s.fifo).2) := Prod.ext (hch.trans ho.symm) rfl
              have hspec : (listOps bufsz).intRound a.fifo = (o, a.fifo.tail) := Prod.ext ho.symm rfl
              rw [hcode] at he
              rw [hspec]
              cases o with
              | none =>
                  cases he
                  exact ⟨_, rfl, h.pc ▸ hnew.ret t data⟩
              | some ch =>
                  cases he
                  exact ⟨_, rfl, h.pc ▸ hnew.setPc t _⟩
  | dmaRead t length =>
      simp only [exec] at he ⊢
      split_ifs at he with hpc
      cases he
      obtain ⟨r', hdata, hholds', hlist'⟩ := RxFifo.serialDmaRx_spec hholds hc
      rw [if_pos (h.pc ▸ hpc)]
      rw [hlist] at hdata hlist'
      refine ⟨_, rfl, ?_⟩
      show Sim bufsz _ (({ a with fifo := a.fifo.drop length } : RxSys _).ret t (a.fifo.take length))
      rw [← hdata]
      exact (h.setFifo ⟨r', hholds', hlist'⟩).ret t _

instance decidableCareful (bufsz : Nat) (s : RxSys RxFifo) : (x : RxAction) → Decidable (Careful bufsz s x)
  | .rxInd _ => inferInstanceAs (Decidable (¬ _))
  | .rxDmaDone _ => inferInstanceAs (Decidable (_ ∧ (_ → _ → _)))
  | .intRead _ _ => inferInstanceAs (Decidable True)
  | .round _ => inferInstanceAs (Decidable True)
  | .dmaRead _ _ => inferInstanceAs (Decidable (_ < _))

/-- The steps of the code that are careful. -/
def carefulExec (bufsz : Nat) : RxSys RxFifo → RxAction → Option (RxSys RxFifo) :=
  Trans.stepIf (exec (fifoOps bufsz) bufsz) (Careful bufsz)

theorem Sim.runList (h : Sim bufsz s a) {xs : List RxAction}
    (hrun : Trans.runList (carefulExec bufsz) s xs = some s') :
    ∃ a', Trans.runList (exec (listOps bufsz) bufsz) a xs = some a' ∧ Sim bufsz s' a' := by
  induction xs generalizing s a with
  | nil =>
      cases hrun
      exact ⟨a, rfl, h⟩
  | cons x xs ih =>
      obtain ⟨s₁, hstep, hrest⟩ := Option.bind_eq_some_iff.mp hrun
      obtain ⟨hexec, hc⟩ := Trans.stepIf_some.mp hstep
      obtain ⟨a₁, hexec', hsim⟩ := h.step hc hexec
      obtain ⟨a', hrun', hsim'⟩ := ih hsim hrest
      exact ⟨a', Option.bind_eq_some_iff.mpr ⟨a₁, hexec', hrun'⟩, hsim'⟩

/-- **The receive fifo keeps the newest bytes**: in every careful run of receive events and reads it stands
for the list of bytes on which the same events and reads are the ones of `listOps`, with the same results;
and a read that nothing comes between returns the oldest bytes. -/
theorem serial_rx_fifo (bufsz : Nat) (hlo : 2 ≤ bufsz) (hhi : bufsz ≤ 65535) (xs : List RxAction)
    (s : RxSys RxFifo) (hrun : Trans.runList (carefulExec bufsz) (start RxFifo.init) xs = some s) :
    ∃ a, Trans.runList (exec (listOps bufsz) bufsz) (start []) xs = some a ∧
      s.pc = a.pc ∧ s.returned = a.returned ∧
      s.fifo.contents bufsz = a.fifo ∧ s.fifo.calcRecvedLen bufsz = a.fifo.length ∧
      ∀ length, (s.fifo.serialIntRx bufsz length).1 = a.fifo.take length ∧
        (s.fifo.serialIntRx bufsz length).2.contents bufsz = a.fifo.drop length := by
  obtain ⟨a, hrun', hsim⟩ := (sim_start hlo hhi).runList hrun
  obtain ⟨r, hholds, hlist⟩ := hsim.fifo
  refine ⟨a, hrun', hsim.pc, hsim.returned, ?_, ?_, fun length => ?_⟩
  · rw [hholds.contents_eq, hlist]
  · rw [hholds.calcRecvedLen_eq, ← hlist, RingBuffer.length_toList]
  · obtain ⟨r', hdata, hholds', hlist'⟩ := RxFifo.serialIntRx_spec length hholds
    rw [hdata, hholds'.contents_eq, hlist', hlist]
    exact ⟨rfl, rfl⟩

/-- Single bytes overrun a buffer of three. -/
def overrun : List RxAction := [.rxInd 1, .rxInd 2, .rxInd 3, .intRead 7 2, .round 7, .round 7, .round 7]

theorem serial_rx_fifo_overrun : ∃ s : RxSys RxFifo,
    Trans.runList (exec (fifoOps 3) 3) (start RxFifo.init) overrun = some s ∧
      s.returned = [(7, [2, 3])] := by
  have hsome : (Trans.runList (carefulExec 3) (start RxFifo.init) overrun).isSome := by decide
  obtain ⟨s, hs⟩ := Option.isSome_iff_exists.mp hsome
  obtain ⟨a, ha, -, hreturned, -⟩ := serial_rx_fifo 3 (by decide) (by decide) overrun s hs
  have hspec : (Trans.runList (exec (listOps 3) 3) (start []) overrun).map RxSys.returned =
      some [(7, [2, 3])] := by decide
  rw [ha] at hspec
  refine ⟨s, Trans.runList_mono (fun _ _ _ h => (Trans.stepIf_some.mp h).1) hs, ?_⟩
  exact hreturned.trans (Option.some.inj hspec)

/-- The first byte in a large buffer. -/
theorem rxDmaDone_first (bufsz : Nat) (hb : 1 < bufsz) (b : UInt8) :
    ∃ buffer, RxFifo.rxDmaDone bufsz RxFifo.init [b] = ⟨buffer, 1, 0, false⟩ := by
  refine ⟨RxFifo.dmaWrite bufsz (fun _ => 0) 0 [b], ?_⟩
  have hword : ¬ bufsz ≤ u16 1 := Nat.not_le.mpr hb
  simp [RxFifo.rxDmaDone, RxFifo.updatePutIndex, RxFifo.init, hword]
  rfl

/-- `put_index` has begun again at 0 before it is reduced. -/
theorem rxDmaDone_wrapped (hb : bufsz = 65535) {bs : List UInt8} (hlen : bs.length = bufsz)
    (buffer : Nat → UInt8) : ∃ buffer',
    RxFifo.rxDmaDone bufsz ⟨buffer, 1, 0, false⟩ bs = ⟨buffer', 0, 0, false⟩ := by
  have hword : u16 (1 + bufsz) = 0 := by
    rw [hb]
    rfl
  refine ⟨RxFifo.dmaWrite bufsz buffer 1 bs, ?_⟩
  have hpos : bufsz ≠ 0 := by omega
  simp [RxFifo.rxDmaDone, RxFifo.updatePutIndex, hlen, hword, hpos]

/-- One byte and then as many as a buffer of the largest size has. -/
def wholeBuffer (n : Nat) : List RxAction := [.rxDmaDone [7], .rxDmaDone (List.replicate n 8)]

/-- All bytes are lost: nothing is there to be read. -/
theorem dma_bytes_lost :
    ∃ s a, Trans.runList (exec (fifoOps 65535) 65535) (start RxFifo.init) (wholeBuffer 65535) = some s ∧
      Trans.runList (exec (listOps 65535) 65535) (start []) (wholeBuffer 65535) = some a ∧
      s.fifo.calcRecvedLen 65535 = 0 ∧ a.fifo.length = 65535 := by
  obtain ⟨n, hn⟩ : ∃ n, n = 65535 := ⟨_, rfl⟩
  rw [← hn]
  have hlen : (List.replicate n (8 : UInt8)).length = n := List.length_replicate
  have hone : ([7] : List UInt8).length ≤ n := by
    rw [List.length_singleton]
    omega
  obtain ⟨buffer, hfirst⟩ := rxDmaDone_first n (by omega) 7
  obtain ⟨buffer', hsecond⟩ := rxDmaDone_wrapped hn hlen buffer
  refine ⟨start ⟨buffer', 0, 0, false⟩,
    start ((listOps n).rxDmaDone ((listOps n).rxDmaDone [] [7]) (List.replicate n 8)), ?_, ?_, rfl, ?_⟩
  · have hstep : exec (fifoOps n) n (start RxFifo.init) (.rxDmaDone [7]) =
        some (start ⟨buffer, 1, 0, false⟩) := (if_pos hone).trans (by rw [← hfirst]; rfl)
    have hstep' : exec (fifoOps n) n (start ⟨buffer, 1, 0, false⟩) (.rxDmaDone (List.replicate n 8)) =
        some (start ⟨buffer', 0, 0, false⟩) := (if_pos (le_of_eq hlen)).trans (by rw [← hsecond]; rfl)
    rw [wholeBuffer, Trans.runList, hstep, Option.bind_some, Trans.runList, hstep', Option.bind_some,
      Trans.runList]
  · have hstep : ∀ l bs, bs.length ≤ n → exec (listOps n) n (start l) (.rxDmaDone bs) =
        some (start ((listOps n).rxDmaDone l bs)) := fun l bs hle => if_pos hle
    rw [wholeBuffer, Trans.runList, hstep _ _ hone, Option.bind_some, Trans.runList,
      hstep _ _ (le_of_eq hlen), Option.bind_some, Trans.runList]
  · show ((listOps n).rxDmaDone _ _).length = n
    rw [length_rxDmaDone, length_rxDmaDone, hlen, List.length_nil, List.length_singleton]
    omega

end RxSys

end RTThread.Drivers
