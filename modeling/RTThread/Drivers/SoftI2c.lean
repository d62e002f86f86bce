import Mathlib.Logic.Function.Basic
import Mathlib.Tactic

set_option autoImplicit false

/-! # The bit-banged I2C bus (`i2c-bit-ops.c`)

What the master does to the lines is a trace: levels of SDA and SCL that are set (`true` releases the
line), and samples of SDA. The slave is the levels that the samples will read, and for how long it will
hold SCL when SCL is released. A thread that waits for SCL may sleep longer than it asked for.

`udelay` and log messages are left out. The number of a message and the addresses of bytes are
unbounded: messages and buffers lie in an address space of 32 bits.
-/

namespace RTThread.I2c

abbrev Byte := BitVec 8

def RT_EOK : Int := 0
def RT_ERROR : Int := 1
def RT_ETIMEOUT : Int := 2
def RT_EIO : Int := 8

def RT_I2C_RD : BitVec 16 := 0x0001#16
def RT_I2C_ADDR_10BIT : BitVec 16 := 0x0004#16
def RT_I2C_NO_START : BitVec 16 := 0x0010#16
def RT_I2C_IGNORE_NACK : BitVec 16 := 0x0020#16
def RT_I2C_NO_READ_ACK : BitVec 16 := 0x0040#16

inductive LineEvent
  | sda (level : Bool)
  | scl (level : Bool)
  /-- `GET_SDA`, and the level read. -/
  | sample (level : Bool)
  deriving DecidableEq, Repr

abbrev Mem := Nat → Byte

/-- What has happened on the lines, what the slave will do, and the memory of the buffers. -/
structure Bus where
  trace : List LineEvent
  /-- the levels of SDA when it is read -/
  level : Nat → Bool
  /-- how many ticks SCL stays low when it is released -/
  stretch : Nat → Nat
  /-- how many ticks `rt_thread_delay` takes longer -/
  late : Nat → Nat
  mem : Mem

/-- The fields of `struct rt_i2c_bit_ops` that matter here. -/
structure Ops where
  /-- `get_scl` is not null -/
  getScl : Bool
  /-- of 32 bits -/
  timeout : Nat

/-- `struct rt_i2c_msg` -/
structure Msg where
  addr : BitVec 16
  flags : BitVec 16
  len : BitVec 16
  /-- where the buffer is in memory -/
  buf : Nat

/-- The flag is set. -/
def Msg.Has (m : Msg) (flag : BitVec 16) : Prop := m.flags &&& flag ≠ 0

instance Msg.decidableHas (m : Msg) (flag : BitVec 16) : Decidable (m.Has flag) := instDecidableNot

/-! ## The lines -/

namespace Bus

def emit (b : Bus) (e : LineEvent) : Bus := { b with trace := b.trace ++ [e] }

/-- `GET_SDA` -/
def getSda (b : Bus) : Bool × Bus :=
  (b.level 0, { b with
    trace := b.trace ++ [.sample (b.level 0)]
    level := fun k => b.level (k + 1) })

end Bus

/-- The loop of `SCL_H`, `elapsed` ticks after its start, when SCL stays low for `rest` ticks. -/
def sclWait (ops : Ops) (elapsed rest : Nat) (b : Bus) : Int × Bus :=
  if rest = 0 then (RT_EOK, b)
  else if ops.timeout < elapsed % 2 ^ 32 then (-RT_ETIMEOUT, b)
  else
    -- a delay of no ticks ends with the next one
    let d := max 1 ((ops.timeout + 1) % 2 ^ 32 / 2) + b.late 0
    sclWait ops (elapsed + d) (rest - d) { b with late := fun k => b.late (k + 1) }
termination_by rest
decreasing_by omega

/-- `SCL_H`: release SCL, and wait for it to go high. -/
def sclH (ops : Ops) (b : Bus) : Int × Bus :=
  let b := b.emit (.scl true)
  if ops.getScl then
    sclWait ops 0 (b.stretch 0) { b with stretch := fun k => b.stretch (k + 1) }
  else (RT_EOK, b)

def i2cStart (b : Bus) : Bus := (b.emit (.sda false)).emit (.scl false)

def i2cRestart (ops : Ops) (b : Bus) : Bus :=
  let b := (sclH ops (b.emit (.sda true))).2
  (b.emit (.sda false)).emit (.scl false)

def i2cStop (ops : Ops) (b : Bus) : Bus :=
  let b := (sclH ops (b.emit (.sda false))).2
  b.emit (.sda true)

/-- The slave acknowledges by holding SDA. -/
def i2cWaitack (ops : Ops) (b : Bus) : Int × Bus :=
  let r := sclH ops (b.emit (.sda true))
  if r.1 < 0 then (-RT_ETIMEOUT, r.2)
  else
    let x := r.2.getSda
    (if x.1 then 0 else 1, x.2.emit (.scl false))

/-! ## Bytes -/

/-- `for (i = 7; i >= 0; i--)`, for the `n` bits that are left. -/
def writeBits (ops : Ops) (data : Byte) : Nat → Bus → Int × Bus
  | 0, b => (RT_EOK, b)
  | i + 1, b =>
    let b := b.emit (.scl false)
    let b := b.emit (.sda (data >>> i &&& 1#8 ≠ 0))
    let r := sclH ops b
    if r.1 < 0 then (-RT_ETIMEOUT, r.2) else writeBits ops data i r.2

def i2cWriteb (ops : Ops) (b : Bus) (data : Byte) : Int × Bus :=
  let r := writeBits ops data 8 b
  if r.1 < 0 then r else i2cWaitack ops (r.2.emit (.scl false))

/-- `for (i = 0; i < 8; i++)`, for the `n` bits that are left. -/
def readBits (ops : Ops) : Nat → Byte → Bus → Int × Bus
  | 0, data, b => (data.toNat, b)
  | n + 1, data, b =>
    let data := data <<< 1
    let r := sclH ops b
    if r.1 < 0 then (-RT_ETIMEOUT, r.2)
    else
      let x := r.2.getSda
      let data := if x.1 then data ||| 1#8 else data
      readBits ops n data (x.2.emit (.scl false))

def i2cReadb (ops : Ops) (b : Bus) : Int × Bus := readBits ops 8 0 (b.emit (.sda true))

/-- `while (count > 0)` of `i2c_send_bytes`. -/
def sendLoop (ops : Ops) (m : Msg) : Nat → Nat → Nat → Bus → Int × Bus
  | 0, _, bytes, b => (bytes, b)
  | count + 1, ptr, bytes, b =>
    let r := i2cWriteb ops b (b.mem ptr)
    if 0 < r.1 ∨ (m.Has RT_I2C_IGNORE_NACK ∧ r.1 = 0) then
      sendLoop ops m count (ptr + 1) (bytes + 1) r.2
    else if r.1 = 0 then (0, r.2)
    else r

/-- The result is an `rt_size_t`. -/
def i2cSendBytes (ops : Ops) (b : Bus) (m : Msg) : BitVec 32 × Bus :=
  let r := sendLoop ops m m.len.toNat m.buf 0 b
  (BitVec.ofInt 32 r.1, r.2)

def i2cSendAckOrNack (ops : Ops) (b : Bus) (ack : Nat) : Int × Bus :=
  let b := if ack ≠ 0 then b.emit (.sda false) else b
  let r := sclH ops b
  if r.1 < 0 then (-RT_ETIMEOUT, r.2) else (RT_EOK, r.2.emit (.scl false))

/-- `while (count > 0)` of `i2c_recv_bytes`. -/
def recvLoop (ops : Ops) (m : Msg) : Nat → Nat → Nat → Bus → Int × Bus
  | 0, _, bytes, b => (bytes, b)
  | count + 1, ptr, bytes, b =>
    let r := i2cReadb ops b
    if r.1 < 0 then (bytes, r.2)
    else
      let b := { r.2 with mem := Function.update r.2.mem ptr (BitVec.ofInt 8 r.1) }
      if m.Has RT_I2C_NO_READ_ACK then recvLoop ops m count (ptr + 1) (bytes + 1) b
      else
        let x := i2cSendAckOrNack ops b count
        if x.1 < 0 then x else recvLoop ops m count (ptr + 1) (bytes + 1) x.2

/-- The result is an `rt_size_t`. -/
def i2cRecvBytes (ops : Ops) (b : Bus) (m : Msg) : BitVec 32 × Bus :=
  let r := recvLoop ops m m.len.toNat m.buf 0 b
  (BitVec.ofInt 32 r.1, r.2)

/-! ## Addresses -/

/-- `for (i = 0; i <= retries; i++)`, with `retries - i` retries left. -/
def sendAddressLoop (ops : Ops) (addr : Byte) : Nat → Bus → Int × Bus
  | 0, b => i2cWriteb ops b addr
  | n + 1, b =>
    let r := i2cWriteb ops b addr
    if r.1 = 1 then r else sendAddressLoop ops addr n (i2cStart (i2cStop ops r.2))

def i2cSendAddress (ops : Ops) (b : Bus) (addr : Byte) (retries : Int) : Int × Bus :=
  if retries < 0 then (0, b) else sendAddressLoop ops addr retries.toNat b

namespace Msg

/-- `0xf0 | ((msg->addr >> 7) & 0x06)` -/
def addr1 (m : Msg) : Byte := (0x00f0#16 ||| m.addr >>> 7 &&& 0x0006#16).truncate 8

/-- `msg->addr & 0xff` -/
def addr2 (m : Msg) : Byte := (m.addr &&& 0x00ff#16).truncate 8

/-- The address of 7 bits, with the direction. -/
def addr7 (m : Msg) : Byte :=
  let addr1 : Byte := (m.addr <<< 1).truncate 8
  if m.Has RT_I2C_RD then addr1 ||| 1#8 else addr1

/-- How often the address is sent again, as an `rt_int32_t`. -/
def retries (m : Msg) (busRetries : BitVec 32) : Int :=
  if m.Has RT_I2C_IGNORE_NACK then 0 else busRetries.toInt

end Msg

def i2cBitSendAddress (ops : Ops) (busRetries : BitVec 32) (b : Bus) (m : Msg) : Int × Bus :=
  let retries := m.retries busRetries
  if m.Has RT_I2C_ADDR_10BIT then
    let r := i2cSendAddress ops b m.addr1 retries
    if r.1 ≠ 1 ∧ ¬ m.Has RT_I2C_IGNORE_NACK then (- RT_EIO, r.2)
    else
      let r := i2cWriteb ops r.2 m.addr2
      if r.1 ≠ 1 ∧ ¬ m.Has RT_I2C_IGNORE_NACK then (- RT_EIO, r.2)
      else if m.Has RT_I2C_RD then
        let r := i2cSendAddress ops (i2cRestart ops r.2) (m.addr1 ||| 1#8) retries
        if r.1 ≠ 1 ∧ ¬ m.Has RT_I2C_IGNORE_NACK then (- RT_EIO, r.2) else (RT_EOK, r.2)
      else (RT_EOK, r.2)
  else
    let r := i2cSendAddress ops b m.addr7 retries
    if r.1 ≠ 1 ∧ ¬ m.Has RT_I2C_IGNORE_NACK then (- RT_EIO, r.2) else (RT_EOK, r.2)

/-! ## Messages -/

/-- The start condition and the address of message `i`, unless it has none. -/
def sendStart (ops : Ops) (busRetries : BitVec 32) (i : Nat) (b : Bus) (m : Msg) : Int × Bus :=
  if ¬ m.Has RT_I2C_NO_START then
    let b := if i ≠ 0 then i2cRestart ops b else b
    i2cBitSendAddress ops busRetries b m
  else (RT_EOK, b)

/-- The loop of `i2c_bit_xfer` from message `i` on: `ret`. -/
def xferLoop (ops : Ops) (busRetries : BitVec 32) : Nat → List Msg → Bus → Int × Bus
  | i, [], b => (i, b)
  | i, m :: msgs, b =>
    let a := sendStart ops busRetries i b m
    if a.1 ≠ RT_EOK ∧ ¬ m.Has RT_I2C_IGNORE_NACK then a
    else if m.Has RT_I2C_RD then
      let r := i2cRecvBytes ops a.2 m
      let ret := r.1.toInt
      if ret < m.len.toNat then (if 0 ≤ ret then - RT_EIO else ret, r.2)
      else xferLoop ops busRetries (i + 1) msgs r.2
    else
      let r := i2cSendBytes ops a.2 m
      let ret := r.1.toInt
      if ret < m.len.toNat then (if 0 ≤ ret then -RT_ERROR else ret, r.2)
      else xferLoop ops busRetries (i + 1) msgs r.2

/-- The result is an `rt_size_t`. -/
def i2cBitXfer (ops : Ops) (busRetries : BitVec 32) (msgs : List Msg) (b : Bus) : BitVec 32 × Bus :=
  let r := xferLoop ops busRetries 0 msgs (i2cStart b)
  (BitVec.ofInt 32 r.1, i2cStop ops r.2)

end RTThread.I2c
