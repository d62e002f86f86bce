import Mathlib.Data.List.Basic
import Mathlib.Tactic.Ring
import RTThread.Drivers.SoftSpi

set_option autoImplicit false

/-! # The bytes on the bus

A bit is a level of MOSI and two toggles of the clock with a sample of MISO between them. A transfer is a
sequence of such frames, those of a word behind one more toggle where the clock phase is one. This file
derives the frames of a transfer and the bytes received from the loop, bit by bit.
-/

namespace RTThread.Spi

open ShiftRegister

/-! ## Frames -/

/-- A bit `b` that is sent, and a level `v` that is read. -/
def bitFrame (b v : Bool) : Trace := [.mosi b, .toggle, .miso v, .toggle]

/-- The bits of a byte, the most significant one first. -/
def byteFrame (b : Byte) (miso : Nat → Bool) : Trace :=
  (List.range 8).flatMap fun k => bitFrame (b.getMsbD k) (miso k)

/-- The bytes from number `i` on, for `n` bytes; `byte j` is sent as number `j`, and the levels of MISO are
numbered bit by bit. -/
def bytesFrame (byte : Nat → Byte) (miso : Nat → Bool) (i n : Nat) : Trace :=
  (List.range n).flatMap fun j => byteFrame (byte (i + j)) fun k => miso (8 * (i + j) + k)

/-- A word of `n` bytes, from byte `i` on. -/
def wordFrame (cpha : Bool) (byte : Nat → Byte) (miso : Nat → Bool) (n i : Nat) : Trace :=
  (if cpha then [.toggle] else []) ++ bytesFrame byte miso i n

/-- A transfer of `len` words of `n` bytes. -/
def transferFrame (cpha : Bool) (byte : Nat → Byte) (miso : Nat → Bool) (n len : Nat) : Trace :=
  (List.range len).flatMap fun i => wordFrame cpha byte miso n (i * n)

/-- The byte that eight levels make. -/
def received (miso : Nat → Bool) (i : Nat) : Byte :=
  pack ((List.range 8).map fun k => miso (8 * i + k))

/-- The number of bytes of a word. -/
def SoftSpi.wordBytes (spi : SoftSpi) : Nat := if spi.dataWidth = 16 then 2 else 1

/-! ## A byte -/

theorem msb_mask (b : Byte) : decide (b &&& 0x80#8 ≠ 0) = b.msb := by
  revert b
  decide

theorem or_one (b : Byte) (v : Bool) :
    (if v then b <<< 1 ||| 0x01#8 else b <<< 1) = shiftIn b v := by
  cases v
  · simp [shiftIn]
  · rfl

/-- What a bit does to the pins and the two bytes. -/
theorem transferBit_eq (si ri : Nat) (s : Xfer) : transferBit si ri s =
    { pins := ⟨s.pins.trace ++ bitFrame (s.send si).msb (s.pins.miso 0), fun k => s.pins.miso (k + 1)⟩
      send := Function.update s.send si (s.send si <<< 1)
      recv := Function.update s.recv ri (shiftIn (s.recv ri) (s.pins.miso 0)) } := by
  have hrecv : (if s.pins.miso 0 then
      Function.update (Function.update s.recv ri (s.recv ri <<< 1)) ri
        (Function.update s.recv ri (s.recv ri <<< 1) ri ||| 0x01#8)
      else Function.update s.recv ri (s.recv ri <<< 1)) =
      Function.update s.recv ri (shiftIn (s.recv ri) (s.pins.miso 0)) := by
    rw [← or_one]
    cases s.pins.miso 0
    · rfl
    · rw [if_pos rfl, if_pos rfl, Function.update_idem, Function.update_self]
  rw [transferBit]
  simp only [Xfer.emit, Xfer.sample, Pins.emit, Pins.readMiso, msb_mask, hrecv, bitFrame,
    List.append_assoc, List.cons_append, List.nil_append]

/-- The bits of a byte, after the first `n` of them. -/
theorem foldl_transferBit (si ri n : Nat) (s : Xfer) :
    (List.range n).foldl (fun s _ => transferBit si ri s) s =
      { pins := ⟨s.pins.trace ++ (List.range n).flatMap fun k =>
          bitFrame ((s.send si).getMsbD k) (s.pins.miso k), fun k => s.pins.miso (k + n)⟩
        send := Function.update s.send si (s.send si <<< n)
        recv := Function.update s.recv ri
          (((List.range n).map s.pins.miso).foldl shiftIn (s.recv ri)) } := by
  induction n with
  | zero => simp
  | succ n ih =>
    rw [List.range_succ, List.foldl_concat, ih, transferBit_eq]
    simp only [Function.update_self, Function.update_idem, List.flatMap_append, List.flatMap_singleton,
      List.map_append, List.map_cons, List.map_nil, List.foldl_append, List.foldl_cons, List.foldl_nil,
      List.append_assoc, msb_shiftLeft, shiftLeft_succ, Nat.zero_add, Nat.add_assoc, Nat.add_comm 1 n]

/-- **One byte**: its bits are sent, and the byte received does not depend on what was there. -/
theorem transferByte_eq (si ri : Nat) (s : Xfer) : transferByte si ri s =
    { pins := ⟨s.pins.trace ++ byteFrame (s.send si) s.pins.miso, fun k => s.pins.miso (k + 8)⟩
      send := Function.update s.send si 0
      recv := Function.update s.recv ri (pack ((List.range 8).map s.pins.miso)) } := by
  rw [transferByte, foldl_transferBit, shiftLeft_all,
    foldl_eq_pack (by rw [List.length_map, List.length_range])]
  rfl

/-! ## The loops -/

section Loops

variable (si ri : Nat → Nat) (spi : SoftSpi)

/-- The memory of the bytes to send, after `n` bytes. -/
def sendAfter (send : Buf) : Nat → Buf
  | 0 => send
  | n + 1 => Function.update (sendAfter send n) (si n) 0

/-- The memory of the received bytes, after `n` bytes. -/
def recvAfter (recv : Buf) (miso : Nat → Bool) : Nat → Buf
  | 0 => recv
  | n + 1 => Function.update (recvAfter recv miso n) (ri n) (received miso n)

/-- The state after `n` bytes, with the events `t` behind those of the state at the start. -/
def after (s : Xfer) (t : Trace) (n : Nat) : Xfer where
  pins := ⟨s.pins.trace ++ t, fun k => s.pins.miso (8 * n + k)⟩
  send := sendAfter si s.send n
  recv := recvAfter ri s.recv s.pins.miso n

/-- The byte that is sent as number `n`. -/
def sentByte (send : Buf) (n : Nat) : Byte := sendAfter si send n (si n)

theorem transferByte_after (s : Xfer) (t : Trace) (n : Nat) :
    transferByte (si n) (ri n) (after si ri s t n) =
      after si ri s
        (t ++ byteFrame (sentByte si s.send n) fun k => s.pins.miso (8 * n + k)) (n + 1) := by
  rw [transferByte_eq]
  simp only [after, sendAfter, recvAfter, received, sentByte, List.append_assoc]
  congr 3
  funext k
  congr 1
  ring

theorem transferBytes_after (s : Xfer) (t : Trace) (time n : Nat) :
    transferBytes si ri time (n, after si ri s t n) =
      (n + (time + 1), after si ri s
        (t ++ bytesFrame (sentByte si s.send) s.pins.miso n (time + 1)) (n + (time + 1))) := by
  induction time generalizing t n with
  | zero =>
    rw [transferBytes, transferByte_after]
    simp [bytesFrame]
  | succ time ih =>
    rw [transferBytes, transferByte_after, ih]
    have hframe : byteFrame (sentByte si s.send n) (fun k => s.pins.miso (8 * n + k)) ++
        bytesFrame (sentByte si s.send) s.pins.miso (n + 1) (time + 1) =
          bytesFrame (sentByte si s.send) s.pins.miso n (time + 1 + 1) := by
      rw [bytesFrame, bytesFrame, List.range_succ_eq_map (n := time + 1), List.flatMap_cons,
        List.flatMap_map]
      simp only [Nat.add_zero, Nat.succ_eq_add_one, Nat.add_assoc, Nat.add_comm 1]
    rw [List.append_assoc, hframe, show n + 1 + (time + 1) = n + (time + 1 + 1) by omega]

theorem transferWord_after (s : Xfer) (t : Trace) (n : Nat) :
    transferWord spi si ri (n, after si ri s t n) =
      (n + spi.wordBytes, after si ri s
        (t ++ wordFrame spi.cpha (sentByte si s.send) s.pins.miso spi.wordBytes n)
          (n + spi.wordBytes)) := by
  have htoggle : (if spi.cpha then (after si ri s t n).emit .toggle else after si ri s t n) =
      after si ri s (t ++ if spi.cpha then [.toggle] else []) n := by
    cases spi.cpha
    · rw [if_neg (by decide), if_neg (by decide), List.append_nil]
    · rw [if_pos rfl, if_pos rfl, Xfer.emit, Pins.emit, after]
      simp only [after, List.append_assoc]
  have htime : (if spi.dataWidth = 16 then 1 else 0) + 1 = spi.wordBytes := by
    unfold SoftSpi.wordBytes
    split <;> rfl
  rw [transferWord]
  dsimp only
  rw [htoggle, transferBytes_after, htime, List.append_assoc]
  rfl

/-- **The whole transfer**, by induction on the number of words. -/
theorem transferWords_eq (s : Xfer) (len : Nat) :
    transferWords spi si ri len s = after si ri s
      (transferFrame spi.cpha (sentByte si s.send) s.pins.miso spi.wordBytes len)
      (len * spi.wordBytes) := by
  have hfold : (List.range len).foldl (fun x _ => transferWord spi si ri x) (0, s) =
      (len * spi.wordBytes, after si ri s
        (transferFrame spi.cpha (sentByte si s.send) s.pins.miso spi.wordBytes len)
        (len * spi.wordBytes)) := by
    induction len with
    | zero => simp [after, transferFrame, sendAfter, recvAfter]
    | succ len ih =>
      rw [List.range_succ, List.foldl_concat, ih, transferWord_after, Nat.succ_mul]
      simp only [transferFrame, List.range_succ, List.flatMap_append, List.flatMap_singleton]
  rw [transferWords, hfold]

end Loops

/-! ## The three transfers -/

section Transfers

variable (spi : SoftSpi) (pins : Pins) (send recv : Buf) (len : Nat)

theorem sendAfter_of_le (i n : Nat) (h : n ≤ i) : sendAfter (fun i => i) send n i = send i := by
  induction n with
  | zero => rfl
  | succ n ih => rw [sendAfter, Function.update_of_ne (by omega), ih (by omega)]

theorem sentByte_id (n : Nat) : sentByte (fun i => i) send n = send n :=
  sendAfter_of_le send n n (le_refl n)

theorem recvAfter_id (miso : Nat → Bool) (n i : Nat) :
    recvAfter (fun i => i) recv miso n i = if i < n then received miso i else recv i := by
  induction n with
  | zero => rw [if_neg (Nat.not_lt_zero i), recvAfter]
  | succ n ih =>
    rw [recvAfter]
    by_cases h : i = n
    · rw [h, Function.update_self, if_pos (Nat.lt_succ_self n)]
    · rw [Function.update_of_ne h, ih]
      by_cases h₁ : i < n
      · rw [if_pos h₁, if_pos (by omega)]
      · rw [if_neg h₁, if_neg (by omega)]

theorem readWrite_trace : (softSpiReadWriteBytes spi pins send recv len).1.trace =
    pins.trace ++ transferFrame spi.cpha send pins.miso spi.wordBytes len := by
  rw [softSpiReadWriteBytes, transferWords_eq]
  simp only [after, funext (sentByte_id send)]

theorem readWrite_recv (i : Nat) : (softSpiReadWriteBytes spi pins send recv len).2.2 i =
    if i < len * spi.wordBytes then received pins.miso i else recv i := by
  rw [softSpiReadWriteBytes, transferWords_eq]
  exact recvAfter_id recv pins.miso _ i

theorem write_trace : (softSpiWriteBytes spi pins send len).1.trace =
    pins.trace ++ transferFrame spi.cpha send pins.miso spi.wordBytes len := by
  rw [softSpiWriteBytes, transferWords_eq]
  simp only [after, funext (sentByte_id send)]

theorem read_trace : ∃ byte, (softSpiReadBytes spi pins recv len).1.trace =
    pins.trace ++ transferFrame spi.cpha byte pins.miso spi.wordBytes len := by
  refine ⟨sentByte (fun _ => 0) fun _ => spi.dummyData.truncate 8, ?_⟩
  rw [softSpiReadBytes, transferWords_eq]
  rfl

theorem read_recv (i : Nat) : (softSpiReadBytes spi pins recv len).2 i =
    if i < len * spi.wordBytes then received pins.miso i else recv i := by
  rw [softSpiReadBytes, transferWords_eq]
  exact recvAfter_id recv pins.miso _ i

end Transfers

/-! ## Clock and samples -/

/-- The events at the other pins than MOSI. -/
def besideMosi (t : Trace) : Trace := t.filter fun e => match e with
  | .mosi _ => false
  | _ => true

theorem besideMosi_append (t u : Trace) : besideMosi (t ++ u) = besideMosi t ++ besideMosi u :=
  List.filter_append ..

theorem besideMosi_flatMap {α : Type} (l : List α) (f g : α → Trace)
    (h : ∀ a ∈ l, besideMosi (f a) = besideMosi (g a)) :
    besideMosi (l.flatMap f) = besideMosi (l.flatMap g) := by
  induction l with
  | nil => rfl
  | cons a l ih =>
    rw [List.flatMap_cons, List.flatMap_cons, besideMosi_append, besideMosi_append,
      h a List.mem_cons_self, ih fun b hb => h b (List.mem_cons_of_mem _ hb)]

/-- What is sent does not show at the other pins. -/
theorem besideMosi_transferFrame (cpha : Bool) (byte byte' : Nat → Byte) (miso : Nat → Bool)
    (n len : Nat) : besideMosi (transferFrame cpha byte miso n len) =
      besideMosi (transferFrame cpha byte' miso n len) := by
  apply besideMosi_flatMap
  intro i _
  rw [wordFrame, wordFrame, besideMosi_append, besideMosi_append]
  congr 1
  apply besideMosi_flatMap
  intro j _
  apply besideMosi_flatMap
  intro k _
  rfl

/-! ## MISO wired to MOSI -/

/-- Every sample is the level of MOSI, which is `level` at the start. -/
def Wired : Bool → Trace → Prop
  | _, [] => True
  | _, .mosi b :: t => Wired b t
  | level, .miso v :: t => v = level ∧ Wired level t
  | level, .toggle :: t => Wired level t
  | level, .sclk _ :: t => Wired level t
  | level, .cs _ :: t => Wired level t

theorem Wired.append {t u : Trace} {level : Bool} (h : Wired level (t ++ u)) :
    Wired level t ∧ ∃ level', Wired level' u := by
  induction t generalizing level with
  | nil => exact ⟨trivial, level, h⟩
  | cons e t ih =>
    cases e with
    | mosi b =>
      have h' : Wired b (t ++ u) := h
      exact ih h'
    | miso v =>
      obtain ⟨h₁, h₂⟩ := h
      exact ⟨⟨h₁, (ih h₂).1⟩, (ih h₂).2⟩
    | toggle | sclk | cs =>
      have h' : Wired level (t ++ u) := h
      exact ih h'

theorem Wired.flatMap {α : Type} {l : List α} {f : α → Trace} {level : Bool}
    (h : Wired level (l.flatMap f)) {a : α} (ha : a ∈ l) : ∃ level', Wired level' (f a) := by
  induction l generalizing level with
  | nil => exact absurd ha List.not_mem_nil
  | cons b l ih =>
    rw [List.flatMap_cons] at h
    obtain ⟨h₁, level', h₂⟩ := h.append
    rcases List.mem_cons.mp ha with rfl | ha
    · exact ⟨level, h₁⟩
    · exact ih h₂ ha

/-- Wired, the levels that are read are the bits that are sent. -/
theorem Wired.miso_eq {cpha : Bool} {byte : Nat → Byte} {miso : Nat → Bool} {n len : Nat} {level : Bool}
    (h : Wired level (transferFrame cpha byte miso n len)) {i k : Nat} (hi : i < len * n) (hk : k < 8) :
    miso (8 * i + k) = (byte i).getMsbD k := by
  have hn : 0 < n := Nat.pos_of_ne_zero fun h0 => by
    rw [h0, Nat.mul_zero] at hi
    exact absurd hi (Nat.not_lt_zero i)
  have hsplit : i / n * n + i % n = i := Nat.div_add_mod' i n
  have hword : i / n < len := Nat.div_lt_of_lt_mul (by rwa [Nat.mul_comm] at hi)
  obtain ⟨l₁, h₁⟩ := h.flatMap (List.mem_range.mpr hword)
  obtain ⟨-, l₂, h₂⟩ := h₁.append
  obtain ⟨l₃, h₃⟩ := h₂.flatMap (List.mem_range.mpr (Nat.mod_lt i hn))
  obtain ⟨l₄, h₄⟩ := h₃.flatMap (List.mem_range.mpr hk)
  rw [hsplit] at h₄
  exact h₄.1

/-- **Every byte is transferred**, for words of one or two bytes, whatever the buffers hold and the levels
of MISO are: the bits of the send buffer stand on MOSI, the most significant first, one for each pair of
toggles, and the levels that were sampled are packed in the receive buffer. Writing alone gives the same
trace, and reading alone the same bytes and the same events but for MOSI. Wired to itself, the bus gives
back what was sent. -/
theorem soft_spi_transfers (spi : SoftSpi) (hw : spi.dataWidth = 8 ∨ spi.dataWidth = 16) (pins : Pins)
    (send recv : Buf) (len : Nat) :
    (softSpiReadWriteBytes spi pins send recv len).1.trace =
        pins.trace ++ transferFrame spi.cpha send pins.miso (spi.dataWidth / 8) len ∧
      (∀ i < len * (spi.dataWidth / 8), ∀ k < 8,
        ((softSpiReadWriteBytes spi pins send recv len).2.2 i).getMsbD k = pins.miso (8 * i + k)) ∧
      (∀ i, len * (spi.dataWidth / 8) ≤ i →
        (softSpiReadWriteBytes spi pins send recv len).2.2 i = recv i) ∧
      (softSpiWriteBytes spi pins send len).1.trace =
        (softSpiReadWriteBytes spi pins send recv len).1.trace ∧
      (softSpiReadBytes spi pins recv len).2 = (softSpiReadWriteBytes spi pins send recv len).2.2 ∧
      besideMosi (softSpiReadBytes spi pins recv len).1.trace =
        besideMosi (softSpiReadWriteBytes spi pins send recv len).1.trace ∧
      ∀ t level, (softSpiReadWriteBytes spi pins send recv len).1.trace = pins.trace ++ t →
        Wired level t → ∀ i < len * (spi.dataWidth / 8),
          (softSpiReadWriteBytes spi pins send recv len).2.2 i = send i := by
  have hbytes : spi.dataWidth / 8 = spi.wordBytes := by
    unfold SoftSpi.wordBytes
    rcases hw with h | h
    · rw [h]
      rfl
    · rw [h]
      rfl
  rw [hbytes]
  have htrace := readWrite_trace spi pins send recv len
  have hrecv := readWrite_recv spi pins send recv len
  refine ⟨htrace, fun i hi k hk => ?_, fun i hi => ?_, ?_, ?_, ?_, fun t level ht hwired i hi => ?_⟩
  · rw [hrecv, if_pos hi, received, getMsbD_pack (by rw [List.length_map, List.length_range]) hk]
    simp
  · rw [hrecv, if_neg (by omega)]
  · rw [htrace, write_trace]
  · funext i
    rw [hrecv, read_recv]
  · obtain ⟨byte, hread⟩ := read_trace spi pins recv len
    rw [htrace, hread, besideMosi_append, besideMosi_append,
      besideMosi_transferFrame spi.cpha byte send]
  · obtain rfl : transferFrame spi.cpha send pins.miso spi.wordBytes len = t :=
      List.append_cancel_left (htrace.symm.trans ht)
    have hbits : (List.range 8).map (fun k => pins.miso (8 * i + k)) = bits (send i) := by
      apply List.map_congr_left
      intro k hk
      exact hwired.miso_eq hi (List.mem_range.mp hk)
    rw [hrecv, if_pos hi, received, hbits, pack_bits]

/-- Two words of sixteen bits, with both clock phase and polarity one. -/
theorem soft_spi_transfers_words :
    (List.range 4).map (softSpiReadWriteBytes ⟨true, true, 16, true, 0xffff#16⟩ ⟨[], fun k => k % 3 = 0⟩
      (fun _ => 0xa5#8) (fun _ => 0) 2).2.2 =
    (List.range 4).map
      (softSpiReadBytes ⟨true, true, 16, true, 0xffff#16⟩ ⟨[], fun k => k % 3 = 0⟩ (fun _ => 0) 2).2 := by
  obtain ⟨-, -, -, -, h, -⟩ := soft_spi_transfers ⟨true, true, 16, true, 0xffff#16⟩ (Or.inr rfl)
    ⟨[], fun k => k % 3 = 0⟩ (fun _ => 0xa5#8) (fun _ => 0) 2
  rw [h]

end RTThread.Spi
