import RTThread.Ymodem.Model

set_option autoImplicit false

/-! # Packets in a stream and in the buffer of a receiver -/

namespace RTThread.Ymodem

variable {ctx : RecvCtx} {s : List UInt8}

/-- A checksum is sent as two bytes. -/
theorem crc_bytes (c : UInt16) : (c >>> 8).toUInt8.toUInt16 <<< 8 ||| c.toUInt8.toUInt16 = c := by
  apply UInt16.toBitVec_inj.mp
  simp only [UInt16.toBitVec_or, UInt16.toBitVec_shiftLeft, UInt8.toBitVec_toUInt16,
    UInt16.toBitVec_toUInt8, UInt16.toBitVec_shiftRight]
  ext i hi
  simp
  grind

/-! ## The packets of a stream -/

structure Packet where
  number : UInt8
  inverse : UInt8
  data : List UInt8
  crc : UInt16
  deriving DecidableEq

namespace Packet

/-- The number comes with its complement. -/
def Numbered (p : Packet) : Prop := p.number.toNat + p.inverse.toNat = 0xFF

/-- The checksum is correct. -/
def Correct (p : Packet) : Prop := p.crc = CRC16 p.data

instance (p : Packet) : Decidable p.Numbered := inferInstanceAs (Decidable (_ = _))

instance (p : Packet) : Decidable p.Correct := inferInstanceAs (Decidable (_ = _))

/-- The call of `on_data` for a packet. -/
def call (p : Packet) : RymCall := .onData p.number p.data

end Packet

/-- A packet behind its code. -/
def cutData (dataSz : Nat) (s : List UInt8) : Option (Packet × List UInt8) :=
  if 2 + dataSz + 2 ≤ s.length then
    some (⟨s.getD 0 0, s.getD 1 0, (s.drop 2).take dataSz,
      (s.getD (dataSz + 2) 0).toUInt16 <<< 8 ||| (s.getD (dataSz + 3) 0).toUInt16⟩, s.drop (2 + dataSz + 2))
  else none

/-- The packet that a stream begins with. -/
def cutPacket : List UInt8 → Option (Packet × List UInt8)
  | [] => none
  | c :: s =>
      if c = RYM_CODE_SOH then cutData 128 s else if c = RYM_CODE_STX then cutData 1024 s else none

/-- A packet takes a part of the stream. -/
theorem cutPacket_length {p : Packet} {rest : List UInt8} (h : cutPacket s = some (p, rest)) :
    rest.length < s.length := by
  have hdata : ∀ n s, cutData n s = some (p, rest) → rest.length ≤ s.length := by
    intro n s hs
    unfold cutData at hs
    split_ifs at hs
    obtain ⟨-, rfl⟩ := Prod.mk.inj (Option.some.inj hs)
    simp
  cases s with
  | nil => cases h
  | cons c s =>
      rw [cutPacket] at h
      rw [List.length_cons]
      split_ifs at h
      · exact Nat.lt_succ_of_le (hdata _ _ h)
      · exact Nat.lt_succ_of_le (hdata _ _ h)

/-- A packet of 128 bytes at the beginning of a stream. -/
theorem cutPacket_soh {number inverse hi lo : UInt8} {data : List UInt8} (h : data.length = 128)
    (s : List UInt8) :
    cutPacket (RYM_CODE_SOH :: number :: inverse :: (data ++ hi :: lo :: s)) =
      some (⟨number, inverse, data, hi.toUInt16 <<< 8 ||| lo.toUInt16⟩, s) := by
  change cutData 128 (number :: inverse :: (data ++ hi :: lo :: s)) = _
  have hlen : 2 + 128 + 2 ≤ (number :: inverse :: (data ++ hi :: lo :: s)).length := by
    simp only [List.length_cons, List.length_append, h]
    omega
  rw [cutData, if_pos hlen]
  simp [List.getD_eq_getElem?_getD, h, List.drop_append, List.getElem?_append_right]

/-! ## The buffer and the packet in it -/

section

variable {bs : List UInt8} {n i : Nat}

theorem store_length (h : n + bs.length ≤ ctx.buf.length) : (ctx.store n bs).buf.length = ctx.buf.length := by
  simp only [RecvCtx.store, List.length_append, List.length_take, List.length_drop]
  omega

theorem store_zero_length {code : UInt8} (hbuf : ctx.buf.length = RYM_STX_PKG_SZ) :
    (ctx.store 0 [code]).buf.length = RYM_STX_PKG_SZ := by
  have h : 0 + [code].length ≤ ctx.buf.length := by
    rw [hbuf]
    exact Nat.le_add_left 1 1028
  rw [store_length h, hbuf]

/-- What is stored behind the code. -/
theorem store_one (h : 1 ≤ ctx.buf.length) :
    ∃ c tail, (ctx.store 1 bs).buf = c :: (bs ++ tail) := by
  cases hbuf : ctx.buf with
  | nil =>
      rw [hbuf] at h
      cases h
  | cons c l =>
      refine ⟨c, l.drop bs.length, ?_⟩
      simp [RecvCtx.store, hbuf, Nat.add_comm 1]

theorem at_store (h : 1 ≤ ctx.buf.length) (hi : i < bs.length) :
    (ctx.store 1 bs).at_ (i + 1) = bs.getD i 0 := by
  obtain ⟨c, tail, hbuf⟩ := @store_one _ bs h
  rw [RecvCtx.at_, hbuf, List.getD_cons_succ, List.getD_eq_getElem?_getD, List.getElem?_append_left hi,
    List.getD_eq_getElem?_getD]

theorem payload_store (h : 1 ≤ ctx.buf.length) (hn : n + 2 ≤ bs.length) :
    (ctx.store 1 bs).payload n = (bs.drop 2).take n := by
  obtain ⟨c, tail, hbuf⟩ := @store_one _ bs h
  rw [RecvCtx.payload, hbuf, List.drop_succ_cons, List.drop_append_of_le_length (by omega),
    List.take_append_of_le_length (by simp; omega)]

end

/-- The packet in the stream is the one in the buffer. -/
theorem cutData_store {dataSz : Nat} (hbuf : 2 + dataSz + 2 < ctx.buf.length)
    (hlen : 2 + dataSz + 2 ≤ s.length) :
    ∃ p, cutData dataSz s = some (p, s.drop (2 + dataSz + 2)) ∧
      (ctx.store 1 (s.take (2 + dataSz + 2))).at_ 1 = p.number ∧
      (ctx.store 1 (s.take (2 + dataSz + 2))).at_ 2 = p.inverse ∧
      (ctx.store 1 (s.take (2 + dataSz + 2))).payload dataSz = p.data ∧
      (ctx.store 1 (s.take (2 + dataSz + 2))).recvCrc (2 + dataSz + 2 - 1) = p.crc := by
  have hbs : (s.take (2 + dataSz + 2)).length = 2 + dataSz + 2 := by simpa using hlen
  have hat : ∀ i < 2 + dataSz + 2, (ctx.store 1 (s.take (2 + dataSz + 2))).at_ (i + 1) = s.getD i 0 := by
    intro i hi
    rw [at_store (by omega) (by omega), List.getD_eq_getElem?_getD, List.getElem?_take_of_lt hi,
      List.getD_eq_getElem?_getD]
  refine ⟨_, if_pos hlen, hat 0 (by omega), hat 1 (by omega), ?_, ?_⟩
  · rw [payload_store (by omega) (by omega), List.drop_take, List.take_take]
    congr 1
    omega
  · unfold RecvCtx.recvCrc
    rw [show 2 + dataSz + 2 - 1 = dataSz + 2 + 1 by omega, hat (dataSz + 2) (by omega),
      hat (dataSz + 3) (by omega)]

end RTThread.Ymodem
