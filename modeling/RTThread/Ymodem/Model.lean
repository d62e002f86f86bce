import RTThread.Lib.Channel

set_option autoImplicit false

/-! # YMODEM (`ymodem.c`)

The receiver and the sender as parties on channels of bytes: `_rym_read_code` and `_rym_read_data` read with a
waiting time, `_rym_getchar` waits forever. The loops `while (1)` are the labels of a party. A callback is a
function of the calls before it and of the bytes it is given, and may be missing.
-/

namespace RTThread.Ymodem

open Channel Channel.Prog

/-- `enum rym_code`, which any byte is cast to. -/
abbrev RymCode := UInt8

def RYM_CODE_NONE : RymCode := 0x00
def RYM_CODE_SOH : RymCode := 0x01
def RYM_CODE_STX : RymCode := 0x02
def RYM_CODE_EOT : RymCode := 0x04
def RYM_CODE_ACK : RymCode := 0x06
def RYM_CODE_NAK : RymCode := 0x15
def RYM_CODE_CAN : RymCode := 0x18
def RYM_CODE_C : RymCode := 0x43

def RYM_END_SESSION_SEND_CAN_NUM : Nat := 7

/-- The results: `RT_EOK`, `-RT_ENOMEM` and the errors of `ymodem.h`. -/
inductive RymErr
  | eok | enomem | tmo | code | seq | crc | dsz | can | ack
  deriving DecidableEq

/-- `enum rym_stage` -/
inductive RymStage
  | none | establishing | established | transmitting | finishing | finished
  deriving DecidableEq

/-! ## The checksum -/

/-- One round of the inner loop of `CRC16`. -/
def crcRound (crc : UInt16) : UInt16 :=
  if crc &&& 0x8000 ≠ 0 then (crc <<< 1) ^^^ 0x1021 else crc <<< 1

/-- One round of the outer loop of `CRC16`. -/
def crcByte (crc : UInt16) (b : UInt8) : UInt16 := crcRound^[8] (crc ^^^ (b.toUInt16 <<< 8))

def CRC16 (q : List UInt8) : UInt16 := q.foldl crcByte 0

/-! ## The buffer -/

/-- SOH/STX + seq + payload + crc -/
def RYM_SOH_PKG_SZ : Nat := 1 + 2 + 128 + 2
def RYM_STX_PKG_SZ : Nat := 1 + 2 + 1024 + 2

/-- A call of a callback: the bytes it is given or, for the sender, has filled in. A block comes with the
number in `ctx->buf[1]`. -/
inductive RymCall
  | onBegin (data : List UInt8)
  | onData (number : UInt8) (data : List UInt8)
  | onEnd (data : List UInt8)
  deriving DecidableEq

/-- `struct rym_ctx` of a receiver, with the calls that were made. -/
structure RecvCtx where
  stage : RymStage
  buf : List UInt8
  log : List RymCall
  deriving DecidableEq

namespace RecvCtx

def at_ (ctx : RecvCtx) (i : Nat) : UInt8 := ctx.buf.getD i 0

/-- `n` bytes from `ctx->buf + 3` on. -/
def payload (ctx : RecvCtx) (n : Nat) : List UInt8 := (ctx.buf.drop 3).take n

/-- `(rt_uint16_t)(*(ctx->buf + i) << 8) | *(ctx->buf + i + 1)` -/
def recvCrc (ctx : RecvCtx) (i : Nat) : UInt16 :=
  (ctx.at_ i).toUInt16 <<< 8 ||| (ctx.at_ (i + 1)).toUInt16

/-- Bytes are written to `ctx->buf + off`. -/
def store (ctx : RecvCtx) (off : Nat) (bs : List UInt8) : RecvCtx :=
  { ctx with buf := ctx.buf.take off ++ bs ++ ctx.buf.drop (off + bs.length) }

end RecvCtx

/-- The callbacks of a receiver; what `on_end` returns is ignored. -/
structure RecvCallbacks where
  onBegin : Option (List RymCall → List UInt8 → RymCode)
  onData : Option (List RymCall → List UInt8 → RymCode)
  onEnd : Bool

/-- The clock while the receiver reads the first packet: `tick`, what `rt_tick_get` returns at the first test
of the loop and at the later ones, and the ticks of 100 ms. -/
structure Clock where
  tick : UInt32
  now : UInt32
  later : List UInt32
  ms100 : UInt32

/-! ## The receiver -/

def rymPutchar (code : UInt8) : Prog UInt8 Unit := .write code (.ret ())

def rymReadCode (ctx : RecvCtx) : Prog UInt8 (RymCode × RecvCtx) :=
  .read fun x =>
    match x with
    | some b => .ret (b, ctx.store 0 [b])
    | none => .ret (RYM_CODE_NONE, ctx)

def rymReadData (ctx : RecvCtx) (len : Nat) : Prog UInt8 (Nat × RecvCtx) :=
  reads len >>= fun bs => .ret (bs.length, ctx.store 1 bs)

/-- The loop of `_rym_do_handshake` over `i`, with `n` rounds to go: the size of the packet that comes. -/
def handshakeLoop : Nat → RecvCtx → Prog UInt8 (Option Nat × RecvCtx)
  | 0, ctx => .ret (none, ctx)
  | n + 1, ctx => do
      rymPutchar RYM_CODE_C
      let (code, ctx) ← rymReadCode ctx
      if code = RYM_CODE_SOH then return (some RYM_SOH_PKG_SZ, ctx)
      else if code = RYM_CODE_STX then return (some RYM_STX_PKG_SZ, ctx)
      else handshakeLoop n ctx

/-- The loop of `_rym_do_handshake` that receives all data, with the readings of the clock that come. -/
def handshakeData (limit : UInt32) (dataSz : Nat) :
    List UInt32 → Nat → RecvCtx → Prog UInt8 (Nat × RecvCtx)
  | [], i, ctx => .ret (i, ctx)
  | now :: readings, i, ctx =>
      if now ≤ limit ∧ i < dataSz - 1 then do
        let (n, ctx) ← rymReadData ctx (dataSz - 1)
        handshakeData limit dataSz readings (i + n) ctx
      else .ret (i, ctx)

/-- The call of `on_begin` with `n` bytes. -/
def callBegin (cb : RecvCallbacks) (ctx : RecvCtx) (n : Nat) : RymErr × RecvCtx :=
  match cb.onBegin with
  | none => (.eok, ctx)
  | some f =>
      (if f ctx.log (ctx.payload n) ≠ RYM_CODE_ACK then .can else .eok,
        { ctx with log := ctx.log ++ [.onBegin (ctx.payload n)] })

def rymDoHandshake (cb : RecvCallbacks) (clock : Clock) (tmSec : Nat) (ctx : RecvCtx) :
    Prog UInt8 (RymErr × RecvCtx) := do
  let (size, ctx) ← handshakeLoop tmSec { ctx with stage := .establishing }
  match size with
  | none => return (.tmo, ctx)
  | some dataSz =>
      let (i, ctx) ← handshakeData (clock.tick + clock.ms100) dataSz (clock.now :: clock.later) 0 ctx
      if i ≠ dataSz - 1 then return (.dsz, ctx)
      else if ctx.at_ 1 ≠ 0 ∨ ctx.at_ 2 ≠ 0xFF then return (.seq, ctx)
      else if ctx.recvCrc (dataSz - 2) ≠ CRC16 (ctx.payload (dataSz - 5)) then return (.crc, ctx)
      else return callBegin cb ctx (dataSz - 5)

/-- The error, and `*code`. -/
def rymTransData (cb : RecvCallbacks) (ctx : RecvCtx) (dataSz : Nat) :
    Prog UInt8 (RymErr × RymCode × RecvCtx) := do
  let tsz := 2 + dataSz + 2
  let (i, ctx) ← rymReadData ctx tsz
  if i ≠ tsz then return (.dsz, RYM_CODE_NONE, ctx)
  else if (ctx.at_ 1).toNat + (ctx.at_ 2).toNat ≠ 0xFF then return (.seq, RYM_CODE_NONE, ctx)
  -- the first packet is sent again when the sender takes a C for a NAK
  else if ctx.stage = .established ∧ ctx.at_ 1 = 0x00 then return (.eok, RYM_CODE_NONE, ctx)
  else
    let ctx := { ctx with stage := .transmitting }
    if ctx.recvCrc (tsz - 1) ≠ CRC16 (ctx.payload dataSz) then return (.crc, RYM_CODE_NONE, ctx)
    else
      match cb.onData with
      | none => return (.eok, RYM_CODE_ACK, ctx)
      | some f =>
          return (.eok, f ctx.log (ctx.payload dataSz),
            { ctx with log := ctx.log ++ [.onData (ctx.at_ 1) (ctx.payload dataSz)] })

/-- The loop of `_rym_do_trans`, once: on to the next round, or the result. -/
def rymDoTrans (cb : RecvCallbacks) (ctx : RecvCtx) : Prog UInt8 (RecvCtx ⊕ RymErr × RecvCtx) := do
  let (code, ctx) ← rymReadCode ctx
  if code = RYM_CODE_SOH then packet ctx 128
  else if code = RYM_CODE_STX then packet ctx 1024
  else if code = RYM_CODE_EOT then return .inr (.eok, ctx)
  else return .inr (.code, ctx)
where
  packet (ctx : RecvCtx) (dataSz : Nat) : Prog UInt8 (RecvCtx ⊕ RymErr × RecvCtx) := do
    let (err, code, ctx) ← rymTransData cb ctx dataSz
    if err ≠ .eok then return .inr (err, ctx)
    else if code = RYM_CODE_CAN then do
      -- the spec require multiple CAN
      writes (List.replicate RYM_END_SESSION_SEND_CAN_NUM RYM_CODE_CAN)
      return .inr (.can, ctx)
    else if code = RYM_CODE_ACK then do
      rymPutchar RYM_CODE_ACK
      return .inl ctx
    else return .inl ctx

/-- `_rym_do_trans` before its loop. -/
def rymDoTransStart (ctx : RecvCtx) : Prog UInt8 RecvCtx := do
  rymPutchar RYM_CODE_ACK
  rymPutchar RYM_CODE_C
  return { ctx with stage := .established }

def rymDoFin (cb : RecvCallbacks) (ctx : RecvCtx) : Prog UInt8 (RymErr × RecvCtx) := do
  let ctx := { ctx with stage := .finishing }
  let ctx := if cb.onEnd then { ctx with log := ctx.log ++ [.onEnd (ctx.payload 128)] } else ctx
  rymPutchar RYM_CODE_NAK
  let (code, ctx) ← rymReadCode ctx
  if code ≠ RYM_CODE_EOT then return (.code, ctx)
  else
    rymPutchar RYM_CODE_ACK
    rymPutchar RYM_CODE_C
    let (code, ctx) ← rymReadCode ctx
    if code = RYM_CODE_SOH then last ctx RYM_SOH_PKG_SZ
    else if code = RYM_CODE_STX then last ctx RYM_STX_PKG_SZ
    else return (.code, ctx)
where
  -- the packet is read in the size of a short one
  last (ctx : RecvCtx) (dataSz : Nat) : Prog UInt8 (RymErr × RecvCtx) := do
    let (i, ctx) ← rymReadData ctx (RYM_SOH_PKG_SZ - 1)
    if i ≠ RYM_SOH_PKG_SZ - 1 then return (.dsz, ctx)
    else if ctx.at_ 1 ≠ 0 ∨ ctx.at_ 2 ≠ 0xFF then return (.seq, ctx)
    else if ctx.recvCrc (RYM_SOH_PKG_SZ - 2) ≠ CRC16 (ctx.payload (RYM_SOH_PKG_SZ - 5)) then
      return (.crc, ctx)
    -- next file transmission
    else if ctx.at_ 3 ≠ 0 then return callBegin cb ctx (dataSz - 5)
    else
      rymPutchar RYM_CODE_ACK
      return (.eok, { ctx with stage := .finished })

/-- Where a receiver is in `_rym_do_recv`. -/
inductive RecvAt
  | handshake | trans | packet | fin
  deriving DecidableEq

/-- `_rym_do_recv` from one label to the next one. -/
def rymDoRecv (cb : RecvCallbacks) (clock : Clock) (tmSec : Nat) :
    RecvAt × RecvCtx → Prog UInt8 ((RecvAt × RecvCtx) ⊕ RymErr × RecvCtx)
  | (.handshake, ctx) => do
      let (err, ctx) ← rymDoHandshake cb clock tmSec ctx
      if err ≠ .eok then return .inr (err, ctx) else return .inl (.trans, ctx)
  | (.trans, ctx) => do
      let ctx ← rymDoTransStart ctx
      return .inl (.packet, ctx)
  | (.packet, ctx) => do
      let r ← rymDoTrans cb ctx
      match r with
      | .inl ctx => return .inl (.packet, ctx)
      | .inr (err, ctx) => if err ≠ .eok then return .inr (err, ctx) else return .inl (.fin, ctx)
  | (.fin, ctx) => do
      let (err, ctx) ← rymDoFin cb ctx
      if err ≠ .eok then return .inr (err, ctx)
      else if ctx.stage = .finished then return .inr (err, ctx)
      else return .inl (.trans, ctx)

/-- `_rym_do_recv` from its start, with the buffer that `rt_malloc` returns. -/
def rymDoRecvStart (mem : Option (List UInt8)) : Prog UInt8 ((RecvAt × RecvCtx) ⊕ RymErr × RecvCtx) :=
  match mem with
  | none => .ret (.inr (.enomem, ⟨.none, [], []⟩))
  | some buf => .ret (.inl (.handshake, ⟨.none, buf, []⟩))

/-! ## The sender -/

/-- `struct rym_ctx` of a sender, with the 128 bytes from `ctx->buf + 3` on. -/
structure SendCtx where
  stage : RymStage
  buf : List UInt8
  log : List RymCall
  deriving DecidableEq

/-- What a callback of a sender returns, and how it leaves the buffer and the stage. -/
structure SendAnswer where
  code : RymCode
  buf : List UInt8
  stage : RymStage

/-- A callback of a sender. -/
abbrev SendCallback := List RymCall → List UInt8 → RymStage → SendAnswer

structure SendCallbacks where
  onBegin : Option SendCallback
  onData : Option SendCallback
  onEnd : Option SendCallback

/-- The call of a callback, if there is one: whether the sender goes on. -/
def callSend (f : Option SendCallback) (call : List UInt8 → RymCall) (ctx : SendCtx) : Bool × SendCtx :=
  match f with
  | none => (true, ctx)
  | some f =>
      let r := f ctx.log ctx.buf ctx.stage
      (r.code = RYM_CODE_SOH, ⟨r.stage, r.buf, ctx.log ++ [call r.buf]⟩)

def rymSendPacket (ctx : SendCtx) (code : RymCode) (index : UInt8) : Prog UInt8 Unit :=
  let sendCrc := CRC16 ctx.buf
  writes (code :: index :: ~~~index :: (ctx.buf ++ [(sendCrc >>> 8).toUInt8, sendCrc.toUInt8]))

def rymGetchar : Prog UInt8 UInt8 := .wait .ret

/-- The loop of `_rym_do_send_handshake`, with `n` rounds to go: whether a C has come. -/
def sendHandshakeLoop : Nat → Prog UInt8 Bool
  | 0 => .ret false
  | n + 1 =>
      .read fun x =>
        match x with
        | some code => if code = RYM_CODE_C then .ret true else sendHandshakeLoop n
        | none => sendHandshakeLoop n

def rymDoSendHandshake (cb : SendCallbacks) (tmSec : Nat) (ctx : SendCtx) :
    Prog UInt8 (RymErr × SendCtx) := do
  let ctx := { ctx with stage := .establishing }
  let found ← sendHandshakeLoop tmSec
  if !found then return (.tmo, ctx)
  else
    let (go, ctx) := callSend cb.onBegin .onBegin ctx
    if !go then return (.code, ctx)
    else
      rymSendPacket ctx RYM_CODE_SOH 0
      let getcAck ← rymGetchar
      if getcAck ≠ RYM_CODE_ACK then return (.ack, ctx)
      else
        let getcAck ← rymGetchar
        if getcAck ≠ RYM_CODE_C then return (.ack, ctx)
        else return (.eok, { ctx with stage := .established })

/-- The loop of `_rym_do_send_trans`, once: whether it ends. -/
def rymDoSendTrans (cb : SendCallbacks) (index : UInt32) (ctx : SendCtx) :
    Prog UInt8 (RymErr × Bool × SendCtx) := do
  let (go, ctx) := callSend cb.onData (.onData index.toUInt8) ctx
  if !go then return (.code, true, ctx)
  else
    rymSendPacket ctx RYM_CODE_SOH index.toUInt8
    let getcAck ← rymGetchar
    if getcAck ≠ RYM_CODE_ACK then return (.ack, true, ctx)
    else return (.eok, decide (ctx.stage = .finishing), ctx)

def rymDoSendFin (cb : SendCallbacks) (ctx : SendCtx) : Prog UInt8 (RymErr × SendCtx) := do
  rymPutchar RYM_CODE_EOT
  let getcAck ← rymGetchar
  if getcAck ≠ RYM_CODE_NAK then return (.ack, ctx)
  else
    rymPutchar RYM_CODE_EOT
    let getcAck ← rymGetchar
    if getcAck ≠ RYM_CODE_ACK then return (.ack, ctx)
    else
      let getcAck ← rymGetchar
      if getcAck ≠ RYM_CODE_C then return (.ack, ctx)
      else
        let (go, ctx) := callSend cb.onEnd .onEnd ctx
        if !go then return (.code, ctx)
        else
          rymSendPacket ctx RYM_CODE_SOH 0
          return (.eok, { ctx with stage := .finished })

/-- Where a sender is in `_rym_do_send`. -/
inductive SendAt
  | handshake
  | trans (index : UInt32)
  | fin
  deriving DecidableEq

/-- `_rym_do_send` from one label to the next one. -/
def rymDoSend (cb : SendCallbacks) (tmSec : Nat) :
    SendAt × SendCtx → Prog UInt8 ((SendAt × SendCtx) ⊕ RymErr × SendCtx)
  | (.handshake, ctx) => do
      let (err, ctx) ← rymDoSendHandshake cb tmSec ctx
      if err ≠ .eok then return .inr (err, ctx)
      else return .inl (.trans 1, { ctx with stage := .transmitting })
  | (.trans index, ctx) => do
      let (err, finishing, ctx) ← rymDoSendTrans cb index ctx
      if err ≠ .eok then return .inr (err, ctx)
      else if finishing then return .inl (.fin, ctx)
      else return .inl (.trans (index + 1), ctx)
  | (.fin, ctx) => do
      let (err, ctx) ← rymDoSendFin cb ctx
      return .inr (err, ctx)

/-- `_rym_do_send` from its start, with the bytes from `ctx->buf + 3` on that `rt_malloc` returns. -/
def rymDoSendStart (mem : Option (List UInt8)) : Prog UInt8 ((SendAt × SendCtx) ⊕ RymErr × SendCtx) :=
  match mem with
  | none => .ret (.inr (.enomem, ⟨.none, [], []⟩))
  | some buf => .ret (.inl (.handshake, ⟨.none, buf, []⟩))

end RTThread.Ymodem
