import RTThread.Ymodem.Packets

set_option autoImplicit false

/-! # A sender and a receiver

A sender that supplies a header, blocks and a last packet, and a receiver that accepts all, on two channels. In
the handshake `m` waiting times of the receiver are over, so it sends `m + 1` times C before the first packet
comes, and `l` of the sender; later none is. As the parties commute, one interleaving tells about all. With a
single C it goes through; a second one is the answer that the sender finds to its first packet.
-/

namespace RTThread.Ymodem

open Channel Channel.Prog Trans

/-- 128 bytes. -/
structure Block where
  bytes : List UInt8
  length_eq : bytes.length = 128

/-- A sender's callbacks that supply a header, blocks and a last packet, and tell the end with the last of the
blocks. -/
def supply (header : Block) (blocks : List Block) (last : Block) : SendCallbacks where
  onBegin := some fun _ _ stage => ⟨RYM_CODE_SOH, header.bytes, stage⟩
  onData := some fun log _ stage =>
    -- the header was the first call
    let j := log.length - 1
    ⟨RYM_CODE_SOH, ((blocks[j]?).map Block.bytes).getD [],
      if j + 1 < blocks.length then stage else .finishing⟩
  onEnd := some fun _ _ stage => ⟨RYM_CODE_SOH, last.bytes, stage⟩

/-- A receiver's callbacks that accept all. -/
def accept : RecvCallbacks where
  onBegin := some fun _ _ => RYM_CODE_ACK
  onData := some fun _ _ => RYM_CODE_ACK
  onEnd := true

/-- `_rym_do_recv`, when `m` waiting times of the handshake are over. -/
def lateRecv (clock : Clock) (tmSec m : Nat) (l : RecvAt × RecvCtx) :
    Prog UInt8 ((RecvAt × RecvCtx) ⊕ RymErr × RecvCtx) :=
  if l.1 = .handshake then (rymDoRecv accept clock tmSec l).expire m else rymDoRecv accept clock tmSec l

/-- `_rym_do_send`, when `m` waiting times of the handshake are over. -/
def lateSend (cb : SendCallbacks) (tmSec m : Nat) (l : SendAt × SendCtx) :
    Prog UInt8 ((SendAt × SendCtx) ⊕ RymErr × SendCtx) :=
  if l.1 = .handshake then (rymDoSend cb tmSec l).expire m else rymDoSend cb tmSec l

/-! ## The packet in the buffer -/

theorem not_number (n : UInt8) : n.toNat + (~~~n).toNat = 0xFF := by
  have hlt := n.toNat_lt
  have hsize : UInt8.size = 256 := rfl
  rw [UInt8.toNat_not]
  omega

/-- The bytes of a packet behind its code. -/
def packetTail (number : UInt8) (b : Block) : List UInt8 :=
  number :: ~~~number :: (b.bytes ++ [(CRC16 b.bytes >>> 8).toUInt8, (CRC16 b.bytes).toUInt8])

theorem packetTail_length (number : UInt8) (b : Block) : (packetTail number b).length = 132 := by
  simp [packetTail, b.length_eq]

/-- A receiver after the packet. -/
def RecvCtx.received (ctx : RecvCtx) (number : UInt8) (b : Block) : RecvCtx :=
  (ctx.store 0 [RYM_CODE_SOH]).store 1 (packetTail number b)

section

variable {ctx : RecvCtx} {number : UInt8} {b : Block}

/-- What the receiver checks of a packet. -/
structure Holds (ctx : RecvCtx) (number : UInt8) (b : Block) : Prop where
  length_eq : ctx.buf.length = RYM_STX_PKG_SZ
  number_eq : ctx.at_ 1 = number
  inverse_eq : ctx.at_ 2 = ~~~number
  payload_eq : ctx.payload 128 = b.bytes
  crc_eq : ctx.recvCrc 131 = CRC16 b.bytes

theorem received_holds (hbuf : ctx.buf.length = RYM_STX_PKG_SZ) : Holds (ctx.received number b) number b := by
  have hlen := packetTail_length number b
  have h₀ : (ctx.store 0 [RYM_CODE_SOH]).buf.length = RYM_STX_PKG_SZ := by
    rw [store_length (by rw [hbuf]; decide), hbuf]
  have hsize : RYM_STX_PKG_SZ = 1029 := rfl
  obtain ⟨p, hcut, hnumber, hinverse, hdata, hcrc⟩ :=
    @cutData_store (ctx.store 0 [RYM_CODE_SOH]) (packetTail number b) 128
      (by omega) (by omega)
  have hp := (@cutPacket_soh number (~~~number) _ _ _ b.length_eq []).symm.trans hcut
  obtain ⟨rfl, -⟩ := Prod.mk.inj (Option.some.inj hp)
  rw [List.take_of_length_le (by omega)] at hnumber hinverse hdata hcrc
  constructor
  case length_eq => rw [RecvCtx.received, store_length (by omega), h₀]
  case number_eq => exact hnumber
  case inverse_eq => exact hinverse
  case payload_eq => exact hdata
  case crc_eq => exact hcrc.trans (crc_bytes _)

theorem Holds.at_three (h : Holds ctx number b) : ctx.at_ 3 = b.bytes.getD 0 0 := by
  rw [← h.payload_eq, RecvCtx.payload, RecvCtx.at_]
  simp [List.getD_eq_getElem?_getD, List.getElem?_take_of_lt]

/-- A packet of number 0 passes the checks. -/
theorem Holds.first (h : Holds ctx 0 b) : ¬ (ctx.at_ 1 ≠ 0 ∨ ctx.at_ 2 ≠ 0xFF) := by
  rw [h.number_eq, h.inverse_eq]
  decide

theorem Holds.crc (h : Holds ctx number b) :
    ¬ ctx.recvCrc (RYM_SOH_PKG_SZ - 2) ≠ CRC16 (ctx.payload (RYM_SOH_PKG_SZ - 5)) := by
  change ¬ ctx.recvCrc 131 ≠ CRC16 (ctx.payload 128)
  rw [h.payload_eq, h.crc_eq]
  exact not_not.mpr rfl

end

/-! ## The receiver -/

section

variable {clock : Clock} {tmSec m n : Nat} {ctx : RecvCtx} {number : UInt8} {b header last : Block}
  {i o : List UInt8}

abbrev RecvProg := Prog UInt8 ((RecvAt × RecvCtx) ⊕ RymErr × RecvCtx)

/-- A waiting time that is over costs one round. -/
theorem handshakeLoop_expire (m n : Nat) (ctx : RecvCtx) (k : Option Nat × RecvCtx → RecvProg) :
    (handshakeLoop (m + n) ctx >>= k).expire m =
      writes (List.replicate m RYM_CODE_C) >>= fun _ => handshakeLoop n ctx >>= k := by
  induction m with
  | zero =>
      rw [Nat.zero_add]
      cases handshakeLoop n ctx >>= k <;> rfl
  | succ m ih =>
      rw [Nat.succ_add, List.replicate_succ]
      change Prog.write RYM_CODE_C ((handshakeLoop (m + n) ctx >>= k).expire m) = _
      rw [ih]
      rfl

theorem goes_rymReadData {body : RecvAt × RecvCtx → RecvProg} {k : Nat × RecvCtx → RecvProg}
    {p' : RecvProg} {bs : List UInt8} (hn : bs.length = n)
    (h : Goes body (k (n, ctx.store 1 bs)) i p' o) : Goes body (rymReadData ctx n >>= k) (bs ++ i) p' o := by
  subst hn
  unfold rymReadData
  rw [bind_assoc]
  exact goes_reads bs h

/-- All of the first packet comes before the 100 ms are over. -/
theorem goes_handshakeData {body : RecvAt × RecvCtx → RecvProg} {k : Nat × RecvCtx → RecvProg}
    {p' : RecvProg} {limit now : UInt32} {later : List UInt32} (hnow : now ≤ limit)
    (h : Goes body (k (132, ctx.store 1 (packetTail number b))) i p' o) :
    Goes body (handshakeData limit 133 (now :: later) 0 ctx >>= k) (packetTail number b ++ i) p' o := by
  rw [handshakeData, if_pos ⟨hnow, by decide⟩, bind_assoc]
  apply goes_rymReadData (packetTail_length number b)
  cases later with
  | nil => exact h
  | cons t later =>
      change Goes body (handshakeData limit 133 (t :: later) 132 _ >>= k) i p' o
      rw [handshakeData, if_neg fun hc => absurd hc.2 (by decide)]
      exact h

/-- A receiver that has taken the header. -/
def RecvCtx.begun (ctx : RecvCtx) (header : Block) : RecvCtx :=
  let ctx := ({ ctx with stage := .establishing } : RecvCtx).received 0 header
  { ctx with log := ctx.log ++ [.onBegin (ctx.payload 128)] }

theorem begun_holds (hbuf : ctx.buf.length = RYM_STX_PKG_SZ) : Holds (ctx.begun header) 0 header :=
  have h : Holds (({ ctx with stage := .establishing } : RecvCtx).received 0 header) 0 header :=
    received_holds hbuf
  ⟨h.length_eq, h.number_eq, h.inverse_eq, h.payload_eq, h.crc_eq⟩

theorem begun_log (hbuf : ctx.buf.length = RYM_STX_PKG_SZ) :
    (ctx.begun header).log = ctx.log ++ [.onBegin header.bytes] := by
  rw [← (begun_holds hbuf).payload_eq]
  rfl

/-- Behind its C the loop waits for a packet. -/
theorem handshakeLoop_succ (n : Nat) (ctx : RecvCtx) (k : Option Nat × RecvCtx → RecvProg) :
    ∃ q, handshakeLoop (n + 1) ctx >>= k = .write RYM_CODE_C q ∧
      ∀ body i p' o, Goes body (k (some RYM_SOH_PKG_SZ, ctx.store 0 [RYM_CODE_SOH])) i p' o →
        Goes body q (RYM_CODE_SOH :: i) p' o :=
  ⟨_, rfl, fun _ _ _ _ h => .read h⟩

theorem goes_handshake (clock : Clock) (header : Block) (hm : m < tmSec) (hbuf : ctx.buf.length = RYM_STX_PKG_SZ) :
    ∃ q, Goes (lateRecv clock tmSec m) (.ret (.inl (.handshake, ctx))) [] q
        (List.replicate m RYM_CODE_C ++ [RYM_CODE_C]) ∧
      (clock.now ≤ clock.tick + clock.ms100 →
        Goes (lateRecv clock tmSec m) q (RYM_CODE_SOH :: packetTail 0 header)
          (.ret (.inl (.trans, ctx.begun header))) []) ∧
      (¬ clock.now ≤ clock.tick + clock.ms100 →
        ∃ r, Goes (lateRecv clock tmSec m) q [RYM_CODE_SOH] (.ret (.inr (.dsz, r))) []) := by
  obtain ⟨n, rfl⟩ := Nat.exists_eq_add_of_lt hm
  have hbody : lateRecv clock (m + n + 1) m (.handshake, ctx) =
      (rymDoRecv accept clock (m + (n + 1)) (.handshake, ctx)).expire m := rfl
  rw [rymDoRecv, rymDoHandshake, bind_assoc, handshakeLoop_expire] at hbody
  obtain ⟨q, hq, hgoes⟩ := handshakeLoop_succ n { ctx with stage := .establishing } _
  rw [hq] at hbody
  refine ⟨q, ?_, ?_, ?_⟩
  · apply Goes.enter
    rw [hbody]
    exact goes_writes _ (.write (.refl _))
  · intro hnow
    apply hgoes
    rw [← List.append_nil (packetTail 0 header)]
    dsimp only
    rw [bind_assoc]
    apply goes_handshakeData hnow
    have h : Holds (({ ctx with stage := .establishing } : RecvCtx).received 0 header) 0 header :=
      received_holds hbuf
    unfold RecvCtx.received at h
    change Goes _ ((if (132 : Nat) ≠ 132 then _ else _) >>= _) _ _ _
    rw [if_neg (not_not.mpr rfl), if_neg h.first, if_neg h.crc]
    exact .refl _
  · intro hnow
    apply Exists.intro
    apply hgoes
    dsimp only
    rw [handshakeData, if_neg fun h => hnow h.1]
    exact .refl _

/-- A receiver at the loop of `_rym_do_trans` that has taken a packet. -/
def RecvCtx.delivered (ctx : RecvCtx) (number : UInt8) (b : Block) : RecvCtx :=
  let ctx := { ctx.received number b with stage := .transmitting }
  { ctx with log := ctx.log ++ [.onData (ctx.at_ 1) (ctx.payload 128)] }

theorem delivered_holds (hbuf : ctx.buf.length = RYM_STX_PKG_SZ) :
    Holds (ctx.delivered number b) number b :=
  have h : Holds (ctx.received number b) number b := received_holds hbuf
  ⟨h.length_eq, h.number_eq, h.inverse_eq, h.payload_eq, h.crc_eq⟩

theorem delivered_log (hbuf : ctx.buf.length = RYM_STX_PKG_SZ) :
    (ctx.delivered number b).log = ctx.log ++ [.onData number b.bytes] := by
  have h : Holds (ctx.received number b) number b := received_holds hbuf
  change ctx.log ++ [.onData ((ctx.received number b).at_ 1) ((ctx.received number b).payload 128)] = _
  rw [h.number_eq, h.payload_eq]

theorem goes_trans (ctx : RecvCtx) :
    Goes (lateRecv clock tmSec m) (.ret (.inl (.trans, ctx))) []
      (.ret (.inl (.packet, { ctx with stage := .established }))) [RYM_CODE_ACK, RYM_CODE_C] :=
  .enter (.write (.write (.refl _)))

theorem goes_packet (hbuf : ctx.buf.length = RYM_STX_PKG_SZ)
    (hnumber : ¬ (ctx.stage = .established ∧ number = 0)) :
    Goes (lateRecv clock tmSec m) (.ret (.inl (.packet, ctx))) (RYM_CODE_SOH :: packetTail number b)
      (.ret (.inl (.packet, ctx.delivered number b))) [RYM_CODE_ACK] := by
  have h : Holds (ctx.received number b) number b := received_holds hbuf
  have hnum : ¬ ((ctx.received number b).at_ 1).toNat + ((ctx.received number b).at_ 2).toNat ≠ 0xFF := by
    rw [h.number_eq, h.inverse_eq]
    exact not_not.mpr (not_number number)
  have hstage : ¬ ((ctx.received number b).stage = .established ∧ (ctx.received number b).at_ 1 = 0x00) := by
    rw [h.number_eq]
    exact hnumber
  have hcrc : ¬ ({ ctx.received number b with stage := .transmitting } : RecvCtx).recvCrc (2 + 128 + 2 - 1) ≠
      CRC16 (({ ctx.received number b with stage := .transmitting } : RecvCtx).payload 128) := h.crc
  unfold RecvCtx.received at hnum hstage hcrc
  apply Goes.enter
  change Goes _ (rymDoRecv accept clock tmSec (.packet, ctx)) _ _ _
  rw [rymDoRecv, rymDoTrans]
  apply Goes.read
  change Goes _ (rymDoTrans.packet accept (ctx.store 0 [RYM_CODE_SOH]) 128 >>= _) _ _ _
  rw [rymDoTrans.packet, rymTransData, bind_assoc, bind_assoc, ← List.append_nil (packetTail number b)]
  apply goes_rymReadData (packetTail_length number b)
  change Goes _ ((if (132 : Nat) ≠ 132 then _ else _) >>= _) _ _ _
  rw [if_neg (not_not.mpr rfl), if_neg hnum, if_neg hstage]
  change Goes _ ((if (_ : UInt16) ≠ _ then _ else _) >>= _) _ _ _
  rw [if_neg hcrc]
  exact .write (.refl _)

/-- A receiver that has called `on_end`, with what the buffer still holds, and has read a second EOT. -/
def RecvCtx.ended (ctx : RecvCtx) : RecvCtx :=
  let ctx := { ctx.store 0 [RYM_CODE_EOT] with stage := .finishing }
  ({ ctx with log := ctx.log ++ [RymCall.onEnd (ctx.payload 128)] } : RecvCtx).store 0 [RYM_CODE_EOT]

theorem ended_length (hbuf : ctx.buf.length = RYM_STX_PKG_SZ) : ctx.ended.buf.length = RYM_STX_PKG_SZ :=
  store_zero_length (store_zero_length hbuf)

theorem ended_log (hbuf : ctx.buf.length = RYM_STX_PKG_SZ) :
    ctx.ended.log = ctx.log ++ [.onEnd (ctx.payload 128)] := by
  have hpayload : (ctx.store 0 [RYM_CODE_EOT]).payload 128 = ctx.payload 128 := by
    cases hctx : ctx.buf with
    | nil =>
        rw [hctx] at hbuf
        cases hbuf
    | cons c l => simp [RecvCtx.payload, RecvCtx.store, hctx]
  rw [← hpayload]
  rfl

theorem goes_eot (hbuf : ctx.buf.length = RYM_STX_PKG_SZ) (hlast : last.bytes.getD 0 0 = 0) :
    ∃ q r, Goes (lateRecv clock tmSec m) (.ret (.inl (.packet, ctx))) [RYM_CODE_EOT] q [RYM_CODE_NAK] ∧
      Goes (lateRecv clock tmSec m) q [RYM_CODE_EOT] r [RYM_CODE_ACK, RYM_CODE_C] ∧
      Goes (lateRecv clock tmSec m) r (RYM_CODE_SOH :: packetTail 0 last)
        (.ret (.inr (.eok, { ctx.ended.received 0 last with stage := .finished }))) [RYM_CODE_ACK] := by
  refine ⟨_, _, .enter (.read (.enter (.write (.refl _)))), .read (.write (.write (.refl _))), ?_⟩
  have h : Holds (ctx.ended.received 0 last) 0 last := received_holds (ended_length hbuf)
  have hzero : ¬ (ctx.ended.received 0 last).at_ 3 ≠ 0 := by
    rw [h.at_three, hlast]
    exact not_not.mpr rfl
  unfold RecvCtx.received at h hzero
  apply Goes.read
  change Goes _ (rymDoFin.last accept (ctx.ended.store 0 [RYM_CODE_SOH]) RYM_SOH_PKG_SZ >>= _) _ _ _
  rw [rymDoFin.last, bind_assoc, ← List.append_nil (packetTail 0 last)]
  apply goes_rymReadData (packetTail_length 0 last)
  change Goes _ ((if (132 : Nat) ≠ 132 then _ else _) >>= _) _ _ _
  rw [if_neg (not_not.mpr rfl), if_neg h.first, if_neg h.crc, if_neg hzero]
  exact .write (.refl _)

end

/-! ## The sender -/

section

variable {header last b : Block} {blocks : List Block} {tmSec l n : Nat} {ctx : SendCtx}
  {log : List RymCall} {buf : List UInt8}

abbrev SendProg := Prog UInt8 ((SendAt × SendCtx) ⊕ RymErr × SendCtx)

/-- A waiting time that is over costs one round. -/
theorem sendHandshakeLoop_expire (l n : Nat) (k : Bool → SendProg) :
    (sendHandshakeLoop (l + n) >>= k).expire l = sendHandshakeLoop n >>= k := by
  induction l with
  | zero =>
      rw [Nat.zero_add]
      cases sendHandshakeLoop n >>= k <;> rfl
  | succ l ih =>
      rw [Nat.succ_add]
      exact ih

theorem goes_rymSendPacket {body : SendAt × SendCtx → SendProg} {p' : SendProg} {i : List UInt8}
    {k : Unit → SendProg} {index : UInt8} (hbuf : ctx.buf = b.bytes) (h : Goes body (k ()) i p' []) :
    Goes body (rymSendPacket ctx RYM_CODE_SOH index >>= k) i p' (RYM_CODE_SOH :: packetTail index b) := by
  have hbytes := goes_writes (RYM_CODE_SOH :: packetTail index b) h
  rw [List.append_nil] at hbytes
  rw [rymSendPacket, hbuf]
  exact hbytes

/-- With its first C the sender goes on, and the next byte that comes is the answer. -/
theorem goes_sendHandshake (header : Block) (blocks : List Block) (last : Block) (buf : List UInt8)
    (hl : l < tmSec) :
    ∃ p, Goes (lateSend (supply header blocks last) tmSec l) (.ret (.inl (.handshake, ⟨.none, buf, []⟩)))
        [RYM_CODE_C] p (RYM_CODE_SOH :: packetTail 0 header) ∧
      Goes (lateSend (supply header blocks last) tmSec l) p [RYM_CODE_ACK, RYM_CODE_C]
        (.ret (.inl (.trans 1, ⟨.transmitting, header.bytes, [.onBegin header.bytes]⟩))) [] ∧
      Goes (lateSend (supply header blocks last) tmSec l) p [RYM_CODE_C]
        (.ret (.inr (.ack, ⟨.establishing, header.bytes, [.onBegin header.bytes]⟩))) [] := by
  obtain ⟨n, rfl⟩ := Nat.exists_eq_add_of_lt hl
  have hbody : lateSend (supply header blocks last) (l + n + 1) l (.handshake, ⟨.none, buf, []⟩) =
      (rymDoSend (supply header blocks last) (l + (n + 1)) (.handshake, ⟨.none, buf, []⟩)).expire l := rfl
  rw [rymDoSend, rymDoSendHandshake, bind_assoc, sendHandshakeLoop_expire] at hbody
  apply Exists.intro
  refine And.intro ?_ (And.intro ?_ ?_)
  · apply Goes.enter
    rw [hbody]
    apply Goes.read
    change Goes _ ((rymSendPacket _ RYM_CODE_SOH 0 >>= _) >>= _) _ _ _
    rw [bind_assoc]
    exact goes_rymSendPacket rfl (.refl _)
  · exact .wait (.wait (.refl _))
  · exact .wait (.refl _)

/-- Where a sender goes on when the block with the index `j` is acknowledged. -/
def afterBlock (blocks : List Block) (j : Nat) (index : UInt32) (b : Block) (log : List RymCall) :
    SendAt × SendCtx :=
  if j + 1 < blocks.length then
    (.trans (index + 1), ⟨.transmitting, b.bytes, log ++ [.onData index.toUInt8 b.bytes]⟩)
  else (.fin, ⟨.finishing, b.bytes, log ++ [.onData index.toUInt8 b.bytes]⟩)

theorem callSend_supply {j : Nat} {index : UInt8} (hb : blocks[j]? = some b) (hlog : log.length = j + 1) :
    callSend (supply header blocks last).onData (.onData index) ⟨.transmitting, buf, log⟩ =
      (true, ⟨if j + 1 < blocks.length then .transmitting else .finishing, b.bytes,
        log ++ [.onData index b.bytes]⟩) := by
  simp [callSend, supply, hlog, hb]

theorem goes_sendTrans {j : Nat} {index : UInt32} (hb : blocks[j]? = some b) (hlog : log.length = j + 1) :
    ∃ p, Goes (lateSend (supply header blocks last) tmSec l)
        (.ret (.inl (.trans index, ⟨.transmitting, buf, log⟩))) [] p
        (RYM_CODE_SOH :: packetTail index.toUInt8 b) ∧
      Goes (lateSend (supply header blocks last) tmSec l) p [RYM_CODE_ACK]
        (.ret (.inl (afterBlock blocks j index b log))) [] := by
  apply Exists.intro
  refine And.intro ?_ ?_
  · apply Goes.enter
    rw [lateSend, if_neg (by simp), rymDoSend, rymDoSendTrans, callSend_supply hb hlog]
    dsimp only
    rw [if_neg (by decide), bind_assoc]
    exact goes_rymSendPacket rfl (.refl _)
  · apply Goes.wait
    unfold afterBlock
    by_cases hj : j + 1 < blocks.length
    · simp only [if_pos hj]
      exact .refl _
    · simp only [if_neg hj]
      exact .refl _

theorem goes_sendFin (ctx : SendCtx) :
    ∃ p q, Goes (lateSend (supply header blocks last) tmSec l) (.ret (.inl (.fin, ctx))) [] p [RYM_CODE_EOT] ∧
      Goes (lateSend (supply header blocks last) tmSec l) p [RYM_CODE_NAK] q [RYM_CODE_EOT] ∧
      Goes (lateSend (supply header blocks last) tmSec l) q [RYM_CODE_ACK, RYM_CODE_C]
        (.ret (.inr (.eok, ⟨.finished, last.bytes, ctx.log ++ [.onEnd last.bytes]⟩)))
        (RYM_CODE_SOH :: packetTail 0 last) := by
  refine ⟨_, _, .enter (.write (.refl _)), .wait (.write (.refl _)), ?_⟩
  apply Goes.wait
  apply Goes.wait
  change Goes _ ((rymSendPacket _ RYM_CODE_SOH 0 >>= _) >>= _) _ _ _
  rw [bind_assoc]
  exact goes_rymSendPacket rfl (.refl _)

end

/-! ## The session -/

/-- The calls of `on_data` for blocks that are numbered from `n` on. -/
def dataCalls : Nat → List Block → List RymCall
  | _, [] => []
  | n, b :: bs => .onData (UInt8.ofNat n) b.bytes :: dataCalls (n + 1) bs

abbrev Session := Net UInt8 (SendAt × SendCtx) (RymErr × SendCtx) (RecvAt × RecvCtx) (RymErr × RecvCtx)

/-- **The sender and the receiver agree**: both have finished, and the receiver was called with the header, with
each block once, in order, and at the end. -/
def Agreed (header : Block) (blocks : List Block) (n : Session) : Prop :=
  ∃ s r b, n.left = .ret (.inr (.eok, s)) ∧ n.right = .ret (.inr (.eok, r)) ∧ s.stage = .finished ∧
    r.stage = .finished ∧ blocks.getLast? = some b ∧
      r.log = .onBegin header.bytes :: (dataCalls 1 blocks ++ [.onEnd b.bytes])

section

variable {header last b : Block} {blocks rest done : List Block} {tmS tmR l m : Nat} {clock : Clock}
  {ctx : RecvCtx} {log : List RymCall} {buf buf' : List UInt8}

/-- The sender and the receiver of a session. -/
abbrev sessionStep (header : Block) (blocks : List Block) (last : Block) (clock : Clock) (tmS tmR l m : Nat) :
    Session → Side → Option Session :=
  Net.step (lateSend (supply header blocks last) tmS l) (lateRecv clock tmR m)

theorem toUInt8_ofNat (n : Nat) : (UInt32.ofNat n).toUInt8 = UInt8.ofNat n := by
  simp

/-- One block is sent, delivered and acknowledged. -/
theorem reaches_block (hblocks : blocks = done ++ b :: rest) (hlog : log.length = done.length + 1)
    (hbuf : ctx.buf.length = RYM_STX_PKG_SZ) (hstage : ctx.stage = .established → done = []) :
    Net.Reaches (lateSend (supply header blocks last) tmS l) (lateRecv clock tmR m)
      ⟨.ret (.inl (.trans (UInt32.ofNat (done.length + 1)), ⟨.transmitting, buf, log⟩)),
        .ret (.inl (.packet, ctx)), [], []⟩
      ⟨.ret (.inl (afterBlock blocks done.length (UInt32.ofNat (done.length + 1)) b log)),
        .ret (.inl (.packet, ctx.delivered (UInt8.ofNat (done.length + 1)) b)), [], []⟩ := by
  have hb : blocks[done.length]? = some b := by simp [hblocks]
  have hnumber : ¬ (ctx.stage = .established ∧ UInt8.ofNat (done.length + 1) = 0) := by
    rintro ⟨hs, h0⟩
    rw [hstage hs] at h0
    exact absurd h0 (by decide)
  obtain ⟨p, hsend, hack⟩ : ∃ p, Goes (lateSend (supply header blocks last) tmS l)
      (.ret (.inl (.trans (UInt32.ofNat (done.length + 1)), ⟨.transmitting, buf, log⟩))) [] p
        (RYM_CODE_SOH :: packetTail (UInt8.ofNat (done.length + 1)) b) ∧
      Goes (lateSend (supply header blocks last) tmS l) p [RYM_CODE_ACK]
        (.ret (.inl (afterBlock blocks done.length (UInt32.ofNat (done.length + 1)) b log))) [] := by
    rw [← toUInt8_ofNat]
    exact goes_sendTrans hb hlog
  exact (Net.Reaches.exchange hsend (goes_packet hbuf hnumber)).trans (Net.Reaches.left hack _ [] [])

/-- The blocks from one on are sent and delivered. -/
theorem reaches_blocks (buf : List UInt8) (ctx : RecvCtx) (hblocks : blocks = done ++ b :: rest) (hlog : log.length = done.length + 1)
    (hbuf : ctx.buf.length = RYM_STX_PKG_SZ) (hstage : ctx.stage = .established → done = []) :
    ∃ c ctx' e, Net.Reaches (lateSend (supply header blocks last) tmS l) (lateRecv clock tmR m)
        ⟨.ret (.inl (.trans (UInt32.ofNat (done.length + 1)), ⟨.transmitting, buf, log⟩)),
          .ret (.inl (.packet, ctx)), [], []⟩
        ⟨.ret (.inl (.fin, c)), .ret (.inl (.packet, ctx')), [], []⟩ ∧
      ctx'.buf.length = RYM_STX_PKG_SZ ∧ ctx'.log = ctx.log ++ dataCalls (done.length + 1) (b :: rest) ∧
      (b :: rest).getLast? = some e ∧ ctx'.payload 128 = e.bytes := by
  have hholds : Holds (ctx.delivered (UInt8.ofNat (done.length + 1)) b) (UInt8.ofNat (done.length + 1)) b :=
    delivered_holds hbuf
  have hdlog : (ctx.delivered (UInt8.ofNat (done.length + 1)) b).log =
      ctx.log ++ [.onData (UInt8.ofNat (done.length + 1)) b.bytes] := delivered_log hbuf
  induction rest generalizing done b log ctx buf with
  | nil =>
      have hend : afterBlock blocks done.length (UInt32.ofNat (done.length + 1)) b log =
          (.fin, ⟨.finishing, b.bytes, log ++ [.onData (UInt8.ofNat (done.length + 1)) b.bytes]⟩) := by
        rw [afterBlock, if_neg (by simp [hblocks]), toUInt8_ofNat]
      refine ⟨_, ctx.delivered (UInt8.ofNat (done.length + 1)) b, b,
        hend ▸ reaches_block hblocks hlog hbuf hstage, hholds.length_eq, hdlog, rfl, hholds.payload_eq⟩
  | cons b' rest ih =>
      have hnext : afterBlock blocks done.length (UInt32.ofNat (done.length + 1)) b log =
          (.trans (UInt32.ofNat ((done ++ [b]).length + 1)),
            ⟨.transmitting, b.bytes, log ++ [.onData (UInt8.ofNat (done.length + 1)) b.bytes]⟩) := by
        rw [afterBlock, if_pos (by simp [hblocks]), toUInt8_ofNat]
        simp
      have hblocks' : blocks = (done ++ [b]) ++ b' :: rest := by simp [hblocks]
      have hlog' : (log ++ [RymCall.onData (UInt8.ofNat (done.length + 1)) b.bytes]).length =
          (done ++ [b]).length + 1 := by simp [hlog]
      have hstage' : (ctx.delivered (UInt8.ofNat (done.length + 1)) b).stage = .established →
          done ++ [b] = [] := by
        intro h
        cases h
      obtain ⟨c, ctx', e, hrest, hlen, hctx', he, hpayload⟩ :=
        ih b.bytes (ctx.delivered (UInt8.ofNat (done.length + 1)) b) hblocks' hlog' hholds.length_eq hstage' (delivered_holds hholds.length_eq)
          (delivered_log hholds.length_eq)
      refine ⟨c, ctx', e, ?_, hlen, ?_, he, hpayload⟩
      · apply Net.Reaches.trans (reaches_block hblocks hlog hbuf hstage)
        rw [hnext]
        exact hrest
      · rw [hctx', hdlog, List.append_assoc]
        simp [dataCalls]

/-- A session from its start, with the buffers that `rt_malloc` returns. -/
def sessionStart (buf buf' : List UInt8) : Session :=
  ⟨rymDoSendStart (some buf), rymDoRecvStart (some buf'), [], []⟩

/-- With one C and the first packet in time, the session goes through. -/
theorem reaches_agreed (hl : l < tmS) (htm : 0 < tmR) (hne : blocks ≠ []) (hlast : last.bytes.getD 0 0 = 0)
    (hbuf : buf'.length = RYM_STX_PKG_SZ) (hnow : clock.now ≤ clock.tick + clock.ms100) :
    ∃ n, Net.Reaches (lateSend (supply header blocks last) tmS l) (lateRecv clock tmR 0)
      (sessionStart buf buf') n ∧ Final (sessionStep header blocks last clock tmS tmR l 0) n ∧
        Agreed header blocks n := by
  obtain ⟨b, rest, rfl⟩ := List.exists_cons_of_ne_nil hne
  have hbuf₀ : (⟨.none, buf', []⟩ : RecvCtx).buf.length = RYM_STX_PKG_SZ := hbuf
  obtain ⟨p, hsend, hack, -⟩ := goes_sendHandshake header (b :: rest) last buf hl
  obtain ⟨q, hwait, hheader, -⟩ := goes_handshake clock header htm hbuf₀
  have hheader := (hheader hnow).trans (goes_trans _)
  rw [List.append_nil] at hheader
  have hbegun := @begun_holds _ header hbuf₀
  have hfirst : [RymCall.onBegin header.bytes].length = ([] : List Block).length + 1 := rfl
  obtain ⟨c, ctx', e, hblocks, hlen, hlog, he, hpayload⟩ := reaches_blocks header.bytes
    { (⟨.none, buf', []⟩ : RecvCtx).begun header with stage := .established } rfl hfirst hbegun.length_eq
    fun _ => rfl
  obtain ⟨q₁, q₂, heot, heot', hfin⟩ := goes_eot hlen hlast
  obtain ⟨p₁, p₂, hsend₁, hsend₂, hsend₃⟩ := goes_sendFin c
  have hreach := (Net.Reaches.right hwait _ [] []).trans (Net.Reaches.exchange hsend hheader)
  have hreach := hreach.trans ((Net.Reaches.left hack _ [] []).trans hblocks)
  have hreach := hreach.trans ((Net.Reaches.exchange hsend₁ heot).trans (Net.Reaches.exchange hsend₂ heot'))
  have hreach := hreach.trans (Net.Reaches.exchange hsend₃ hfin)
  refine ⟨_, hreach, ?_, _, _, e, rfl, rfl, rfl, rfl, he, ?_⟩
  · intro x
    cases x with
    | left => rfl
    | right => rfl
  · change ctx'.ended.log = _
    rw [ended_log hlen, hpayload, hlog]
    change (RecvCtx.begun _ header).log ++ _ ++ _ = _
    rw [begun_log hbuf₀]
    rfl

/-- A second C is the answer that the sender finds to its first packet. -/
theorem reaches_refused (hl : l < tmS) (hm : m + 1 < tmR) (hbuf : buf'.length = RYM_STX_PKG_SZ) :
    ∃ n s, Net.Reaches (lateSend (supply header blocks last) tmS l) (lateRecv clock tmR (m + 1))
      (sessionStart buf buf') n ∧ n.left = .ret (.inr (.ack, s)) := by
  have hbuf₀ : (⟨.none, buf', []⟩ : RecvCtx).buf.length = RYM_STX_PKG_SZ := hbuf
  obtain ⟨p, hsend, -, hack⟩ := goes_sendHandshake header blocks last buf hl
  obtain ⟨q, hwait, -⟩ := goes_handshake clock header hm hbuf₀
  have hcs : List.replicate (m + 1) RYM_CODE_C ++ [RYM_CODE_C] =
      [RYM_CODE_C] ++ [RYM_CODE_C] ++ List.replicate m RYM_CODE_C := List.replicate_succ'.symm
  rw [hcs] at hwait
  exact ⟨_, _, (Net.Reaches.right hwait _ [] []).trans (Net.Reaches.left (hsend.trans hack) _ [] _), rfl⟩

/-- Too late for the first packet, the receiver gives up. -/
theorem reaches_late (hm : m < tmR) (hbuf : buf'.length = RYM_STX_PKG_SZ) (hl : l < tmS)
    (hnow : ¬ clock.now ≤ clock.tick + clock.ms100) :
    ∃ n r, Net.Reaches (lateSend (supply header blocks last) tmS l) (lateRecv clock tmR m)
      (sessionStart buf buf') n ∧ n.right = .ret (.inr (.dsz, r)) := by
  have hbuf₀ : (⟨.none, buf', []⟩ : RecvCtx).buf.length = RYM_STX_PKG_SZ := hbuf
  obtain ⟨p, hsend, -, -⟩ := goes_sendHandshake header blocks last buf hl
  obtain ⟨q, hwait, -, hlate⟩ := goes_handshake clock header hm hbuf₀
  obtain ⟨r, hlate⟩ := hlate hnow
  have hcs : List.replicate m RYM_CODE_C ++ [RYM_CODE_C] = [RYM_CODE_C] ++ List.replicate m RYM_CODE_C :=
    List.replicate_succ'.symm
  rw [hcs] at hwait
  have hreach := (Net.Reaches.right hwait _ [] []).trans (Net.Reaches.left hsend _ [] _)
  exact ⟨_, r, hreach.trans (Net.Reaches.right hlate _ _ (packetTail 0 header)), rfl⟩

theorem not_agree_of_refused (hl : l < tmS) (hm : m + 1 < tmR) (hbuf : buf'.length = RYM_STX_PKG_SZ) :
    ¬ AlwaysEnds (sessionStep header blocks last clock tmS tmR l (m + 1)) (sessionStart buf buf')
      (Agreed header blocks) := by
  intro h
  obtain ⟨n, s, ⟨as, has⟩, hn⟩ := reaches_refused hl hm hbuf
  obtain ⟨bs, u, hu, s', r, b, hs', -⟩ := h.exists_final has
  rw [Net.run_left_done hu hn] at hs'
  cases hs'

theorem not_agree_of_late (hl : l < tmS) (hm : m < tmR) (hbuf : buf'.length = RYM_STX_PKG_SZ)
    (hnow : ¬ clock.now ≤ clock.tick + clock.ms100) :
    ¬ AlwaysEnds (sessionStep header blocks last clock tmS tmR l m) (sessionStart buf buf')
      (Agreed header blocks) := by
  intro h
  obtain ⟨n, r, ⟨as, has⟩, hn⟩ := reaches_late hm hbuf hl hnow
  obtain ⟨bs, u, hu, s', r', b, -, hr', -⟩ := h.exists_final has
  rw [Net.run_right_done hu hn] at hr'
  cases hr'

/-- **The sender and the receiver agree** if and only if one C is sent before the first packet comes, and
`rt_tick_get` does not go on by more than 100 ms, or around, before the rest of it is read. -/
theorem agree_iff (hl : l < tmS) (hm : m < tmR) (hne : blocks ≠ []) (hlast : last.bytes.getD 0 0 = 0)
    (hbuf : buf'.length = RYM_STX_PKG_SZ) :
    AlwaysEnds (sessionStep header blocks last clock tmS tmR l m) (sessionStart buf buf')
        (Agreed header blocks) ↔ m = 0 ∧ clock.now ≤ clock.tick + clock.ms100 := by
  constructor
  · intro h
    constructor
    · cases m with
      | zero => rfl
      | succ m => exact absurd h (not_agree_of_refused hl hm hbuf)
    · by_contra hnow
      exact not_agree_of_late hl hm hbuf hnow h
  · rintro ⟨rfl, hnow⟩
    obtain ⟨n, ⟨as, has⟩, hfinal, hagreed⟩ := reaches_agreed hl hm hne hlast hbuf hnow
    exact (Net.commutes.alwaysEnds_iff has hfinal).mpr hagreed

end

def zeroBlock : Block := ⟨List.replicate 128 0, List.length_replicate⟩

/-- A clock on which 100 ms are 100 ticks, read at once. -/
def promptClock : Clock := ⟨0, 0, [], 100⟩

/-- One C is sent. -/
theorem agree_first : AlwaysEnds (sessionStep zeroBlock [zeroBlock, zeroBlock] zeroBlock promptClock 60 60 0 0)
    (sessionStart (List.replicate 128 0) (List.replicate 1029 0)) (Agreed zeroBlock [zeroBlock, zeroBlock]) :=
  (agree_iff (by decide) (by decide) (List.cons_ne_nil _ _) rfl List.length_replicate).mpr ⟨rfl, by decide⟩

/-- The receiver has sent a second C before the sender comes: they do not agree. -/
theorem second_c_refused :
    ¬ AlwaysEnds (sessionStep zeroBlock [zeroBlock, zeroBlock] zeroBlock promptClock 60 60 0 1)
      (sessionStart (List.replicate 128 0) (List.replicate 1029 0)) (Agreed zeroBlock [zeroBlock, zeroBlock]) :=
  not_agree_of_refused (by decide) (by decide) List.length_replicate

end RTThread.Ymodem
