import Mathlib.Logic.Function.Basic
import RTThread.Lib.ShiftRegister

set_option autoImplicit false

/-! # The bit-banged SPI bus (`drv_soft_spi.c`)

What happens at the pins is a trace: levels that are set, toggles of the clock, and samples of MISO, whose
levels are given as a stream. The three transfer functions are copies of one loop; they differ in where the
byte to send and the byte to receive stand, at the index of the transfer or in a local variable.

A buffer is the memory at its pointer. The index of a byte is unbounded here: the buffers lie in an address
space of 32 bits. Delays and log messages are left out.
-/

namespace RTThread.Spi

abbrev Byte := BitVec 8

/-- A buffer, as the memory at its pointer. -/
abbrev Buf := Nat → Byte

inductive PinEvent
  /-- `HAL_GPIO_TogglePin` of SCLK. -/
  | toggle
  /-- `HAL_GPIO_WritePin` of SCLK. -/
  | sclk (level : Bool)
  | mosi (level : Bool)
  /-- `HAL_GPIO_ReadPin` of MISO, and the level read. -/
  | miso (level : Bool)
  | cs (level : Bool)
  deriving DecidableEq, Repr

abbrev Trace := List PinEvent

/-- What has happened, and the levels that MISO will have. -/
structure Pins where
  trace : Trace
  miso : Nat → Bool

namespace Pins

def emit (p : Pins) (e : PinEvent) : Pins := { p with trace := p.trace ++ [e] }

def readMiso (p : Pins) : Bool × Pins :=
  (p.miso 0, ⟨p.trace ++ [.miso (p.miso 0)], fun k => p.miso (k + 1)⟩)

end Pins

/-- The fields of `struct stm32_soft_spi` that the transfers use. -/
structure SoftSpi where
  cpha : Bool
  cpol : Bool
  dataWidth : Nat
  msb : Bool
  dummyData : BitVec 16

/-! ## The transfer loop -/

/-- The pins and the two buffers. -/
structure Xfer where
  pins : Pins
  send : Buf
  recv : Buf

namespace Xfer

def emit (s : Xfer) (e : PinEvent) : Xfer := { s with pins := s.pins.emit e }

/-- The level of MISO goes into the received byte. -/
def sample (s : Xfer) (ri : Nat) : Xfer :=
  let recv := Function.update s.recv ri (s.recv ri <<< 1)
  let x := s.pins.readMiso
  let recv := if x.1 then Function.update recv ri (recv ri ||| 0x01#8) else recv
  { s with pins := x.2, recv }

end Xfer

/-- One bit: the byte to send is at `si`, the received byte at `ri`. -/
def transferBit (si ri : Nat) (s : Xfer) : Xfer :=
  let s := s.emit (.mosi (s.send si &&& 0x80#8 ≠ 0))
  let s := { s with send := Function.update s.send si (s.send si <<< 1) }
  let s := s.emit .toggle
  let s := s.sample ri
  s.emit .toggle

/-- `for (j = 0; j < 8; j++)`. -/
def transferByte (si ri : Nat) (s : Xfer) : Xfer :=
  (List.range 8).foldl (fun s _ => transferBit si ri s) s

/-- `do { … dataIndex++; } while (time--)`; the arguments are `time`, and `dataIndex` with the rest of the
state. -/
def transferBytes (si ri : Nat → Nat) : Nat → Nat × Xfer → Nat × Xfer
  | 0, x => (x.1 + 1, transferByte (si x.1) (ri x.1) x.2)
  | time + 1, x => transferBytes si ri time (x.1 + 1, transferByte (si x.1) (ri x.1) x.2)

/-- One word. -/
def transferWord (spi : SoftSpi) (si ri : Nat → Nat) (x : Nat × Xfer) : Nat × Xfer :=
  let s := if spi.cpha then x.2.emit .toggle else x.2
  let time := if spi.dataWidth = 16 then 1 else 0
  transferBytes si ri time (x.1, s)

/-- `for (i = 0; i < len; i++)`. -/
def transferWords (spi : SoftSpi) (si ri : Nat → Nat) (len : Nat) (s : Xfer) : Xfer :=
  ((List.range len).foldl (fun x _ => transferWord spi si ri x) (0, s)).2

/-- Both buffers: the pins, `send_buff` and `recv_buff` afterwards. -/
def softSpiReadWriteBytes (spi : SoftSpi) (pins : Pins) (sendBuff recvBuff : Buf) (len : Nat) :
    Pins × Buf × Buf :=
  let s := transferWords spi (fun i => i) (fun i => i) len ⟨pins, sendBuff, recvBuff⟩
  (s.pins, s.send, s.recv)

/-- `uint8_t send_buff = spi_drv->dummy_data`: the byte to send is a local variable. -/
def softSpiReadBytes (spi : SoftSpi) (pins : Pins) (recvBuff : Buf) (len : Nat) : Pins × Buf :=
  let s := transferWords spi (fun _ => 0) (fun i => i) len
    ⟨pins, fun _ => spi.dummyData.truncate 8, recvBuff⟩
  (s.pins, s.recv)

/-- `uint8_t recv_buff = 0`: the received byte is a local variable. -/
def softSpiWriteBytes (spi : SoftSpi) (pins : Pins) (sendBuff : Buf) (len : Nat) : Pins × Buf :=
  let s := transferWords spi (fun i => i) (fun _ => 0) len ⟨pins, sendBuff, fun _ => 0⟩
  (s.pins, s.send)

/-! ## Configuration and messages -/

def RT_SPI_CPHA : Nat := 1
def RT_SPI_CPOL : Nat := 2
def RT_SPI_MSB : Nat := 4
def RT_SPI_SLAVE : Nat := 8
def RT_SPI_3WIRE : Nat := 64

/-- `struct rt_spi_configuration`, without the clock rate. -/
structure Configuration where
  mode : Nat
  dataWidth : Nat

/-- `stm32_spi_init`: nothing where it returns `RT_EIO`. -/
def stm32SpiInit (spi : SoftSpi) (cfg : Configuration) (pins : Pins) : Option (SoftSpi × Pins) :=
  if cfg.mode &&& RT_SPI_SLAVE ≠ 0 then none
  else if cfg.mode &&& RT_SPI_3WIRE ≠ 0 then none
  else if cfg.dataWidth = 8 ∨ cfg.dataWidth = 16 then
    let spi :=
      { spi with
        dataWidth := cfg.dataWidth
        cpha := decide (cfg.mode &&& RT_SPI_CPHA ≠ 0)
        cpol := decide (cfg.mode &&& RT_SPI_CPOL ≠ 0)
        msb := decide (cfg.mode &&& RT_SPI_MSB ≠ 0) }
    -- init spi pin
    some (spi, (pins.emit (.mosi false)).emit (.sclk spi.cpol))
  else none

/-- `struct rt_spi_message`. A message that is not empty has a buffer. -/
structure Message where
  sendBuf : Option Buf
  recvBuf : Option Buf
  length : Nat
  csTake : Bool
  csRelease : Bool
  buffer : length = 0 ∨ sendBuf.isSome ∨ recvBuf.isSome

/-- `memset(recv_buf, 0xff, n)`. -/
def memsetFf (b : Buf) (n : Nat) : Buf := fun i => if i < n then 0xff#8 else b i

/-- The transfer of a message: the pins, and the contents of the buffers. -/
def transferMessage (spi : SoftSpi) (pins : Pins) (sendBuf recvBuf : Option Buf) (length : Nat) :
    Pins × Option Buf × Option Buf :=
  match sendBuf, recvBuf with
  | some send, some recv =>
      let r := softSpiReadWriteBytes spi pins send recv length
      (r.1, some r.2.1, some r.2.2)
  | some send, none =>
      let r := softSpiWriteBytes spi pins send length
      (r.1, some r.2, none)
  | none, some recv =>
      let r := softSpiReadBytes spi pins (memsetFf recv length) length
      (r.1, none, some r.2)
  -- no message has no buffer at all
  | none, none => (pins, none, none)

/-- `spixfer`: the length that it returns, and the rest as above. A transfer function always returns the
length it was given, so that the branch for another result is never taken. -/
def spixfer (spi : SoftSpi) (m : Message) (pins : Pins) : Nat × Pins × Option Buf × Option Buf :=
  let pins := if m.csTake then pins.emit (.cs false) else pins
  let r :=
    if m.length ≠ 0 then transferMessage spi pins m.sendBuf m.recvBuf m.length
    else (pins, m.sendBuf, m.recvBuf)
  let pins := if m.csRelease then r.1.emit (.cs true) else r.1
  (m.length, pins, r.2)

end RTThread.Spi
