import RTThread.Lib.Run

set_option autoImplicit false

/-! # Opening and closing a serial device (`serial.c`, `device.c`)

`rt_device_open` calls `rt_serial_open` for every opener, `rt_device_close` calls `rt_serial_close` for the
last one only. The model has the flags of the device, the objects that `serial_rx` and `serial_tx` point to,
and which blocks are allocated. The calls of `ops->control` are left out, and an allocation that an
`RT_ASSERT` follows succeeds.
-/

namespace RTThread.Drivers

/-! ## The flags -/

def RT_DEVICE_FLAG_STANDALONE : BitVec 16 := 0x008#16
def RT_DEVICE_FLAG_ACTIVATED : BitVec 16 := 0x010#16
def RT_DEVICE_FLAG_STREAM : BitVec 16 := 0x040#16
def RT_DEVICE_FLAG_INT_RX : BitVec 16 := 0x100#16
def RT_DEVICE_FLAG_DMA_RX : BitVec 16 := 0x200#16
def RT_DEVICE_FLAG_INT_TX : BitVec 16 := 0x400#16
def RT_DEVICE_FLAG_DMA_TX : BitVec 16 := 0x800#16
def RT_DEVICE_OFLAG_CLOSE : BitVec 16 := 0x000#16
def RT_DEVICE_OFLAG_OPEN : BitVec 16 := 0x008#16

/-- `x & f`, as a condition. -/
def Has (x f : BitVec 16) : Prop := x &&& f ≠ 0#16

instance (x f : BitVec 16) : Decidable (Has x f) := inferInstanceAs (Decidable (_ ≠ _))

theorem has_or {x y f : BitVec 16} : Has (x ||| y) f ↔ Has x f ∨ Has y f := by
  unfold Has
  rw [BitVec.and_or_distrib_right, Ne, BitVec.or_eq_zero_iff, not_and_or]

/-- Masking with a mask that has the whole bit changes nothing. -/
theorem has_and_of_mask {x m f : BitVec 16} (h : m &&& f = f) : Has (x &&& m) f ↔ Has x f := by
  unfold Has
  rw [BitVec.and_assoc, h]

/-- Masking with a mask that is disjoint from the bit takes it away. -/
theorem not_has_and {x m f : BitVec 16} (h : m &&& f = 0#16) : ¬ Has (x &&& m) f := by
  intro hhas
  unfold Has at hhas
  rw [BitVec.and_assoc, h, BitVec.and_zero] at hhas
  exact hhas rfl

/-- How a direction of the device works: with a buffer that the interrupts fill or drain, with the DMA, or by
polling. -/
inductive Path
  | int
  | dma
  | poll
  deriving DecidableEq

/-- The tests that `rt_serial_open`, `rt_serial_close` and `rt_serial_read` make. -/
def rxPath (x : BitVec 16) : Path :=
  if Has x RT_DEVICE_FLAG_INT_RX then .int else if Has x RT_DEVICE_FLAG_DMA_RX then .dma else .poll

/-- The tests that `rt_serial_open`, `rt_serial_close` and `rt_serial_write` make. -/
def txPath (x : BitVec 16) : Path :=
  if Has x RT_DEVICE_FLAG_INT_TX then .int else if Has x RT_DEVICE_FLAG_DMA_TX then .dma else .poll

/-- The flag that `rt_serial_open` sets for a receive path. -/
def Path.rxFlag : Path → BitVec 16
  | .int => RT_DEVICE_FLAG_INT_RX
  | .dma => RT_DEVICE_FLAG_DMA_RX
  | .poll => 0#16

/-- The flag that `rt_serial_open` sets for a transmit path. -/
def Path.txFlag : Path → BitVec 16
  | .int => RT_DEVICE_FLAG_INT_TX
  | .dma => RT_DEVICE_FLAG_DMA_TX
  | .poll => 0#16

/-! ## The device -/

/-- What `serial_rx` points to: a fifo for the interrupts or for the DMA, or `struct rt_serial_rx_dma`. -/
inductive RxObject
  | intFifo
  | dmaFifo
  | rxDma
  deriving DecidableEq

/-- What `serial_tx` points to: `struct rt_serial_tx_fifo`, or `struct rt_serial_tx_dma` with the items of
its data queue, if they could be allocated. -/
inductive TxObject
  | txFifo
  | txDma (queue : Option Nat)
  deriving DecidableEq

/-- `struct rt_serial_device`, with the blocks that its functions have allocated. -/
structure SerialDev where
  flag : BitVec 16
  openFlag : BitVec 16
  refCount : Nat
  serialRx : Option (Nat × RxObject)
  serialTx : Option (Nat × TxObject)
  heap : List Nat
  fresh : Nat
  deriving DecidableEq

inductive Err
  | eok
  | error
  | ebusy
  | enosys
  | eio
  deriving DecidableEq

namespace SerialDev

/-- `rt_malloc`: a block with a new address, and the device afterwards. -/
def malloc (d : SerialDev) : Nat × SerialDev :=
  (d.fresh, { d with heap := d.fresh :: d.heap, fresh := d.fresh + 1 })

/-- `rt_free` -/
def free (d : SerialDev) (b : Nat) : SerialDev := { d with heap := d.heap.erase b }

/-- The part of `rt_serial_open` about `serial_rx`. -/
def openRx (bufsz : Nat) (d : SerialDev) (oflag : BitVec 16) : SerialDev :=
  match d.serialRx with
  | none =>
      match rxPath oflag with
      | .int =>
          let (b, d) := d.malloc
          { d with serialRx := some (b, .intFifo), openFlag := d.openFlag ||| RT_DEVICE_FLAG_INT_RX }
      | .dma =>
          let (b, d) := d.malloc
          { d with
            serialRx := some (b, if bufsz = 0 then .rxDma else .dmaFifo)
            openFlag := d.openFlag ||| RT_DEVICE_FLAG_DMA_RX }
      | .poll => { d with serialRx := none }
  | some _ =>
      match rxPath oflag with
      | .int => { d with openFlag := d.openFlag ||| RT_DEVICE_FLAG_INT_RX }
      | .dma => { d with openFlag := d.openFlag ||| RT_DEVICE_FLAG_DMA_RX }
      | .poll => d

/-- `rt_data_queue_init`, as far as the allocation of the items goes: `items` is its outcome. -/
def dataQueueInit (d : SerialDev) (items : Bool) : Option Nat × SerialDev :=
  if items then (some d.malloc.1, d.malloc.2) else (none, d)

/-- The part of `rt_serial_open` about `serial_tx`. -/
def openTx (d : SerialDev) (oflag : BitVec 16) (items : Bool) : SerialDev :=
  match d.serialTx with
  | none =>
      match txPath oflag with
      | .int =>
          let (b, d) := d.malloc
          { d with serialTx := some (b, .txFifo), openFlag := d.openFlag ||| RT_DEVICE_FLAG_INT_TX }
      | .dma =>
          let (b, d) := d.malloc
          -- the result of `rt_data_queue_init` is not looked at
          let (queue, d) := d.dataQueueInit items
          { d with serialTx := some (b, .txDma queue), openFlag := d.openFlag ||| RT_DEVICE_FLAG_DMA_TX }
      | .poll => { d with serialTx := none }
  | some _ =>
      match txPath oflag with
      | .int => { d with openFlag := d.openFlag ||| RT_DEVICE_FLAG_INT_TX }
      | .dma => { d with openFlag := d.openFlag ||| RT_DEVICE_FLAG_DMA_TX }
      | .poll => d

/-- The device was registered with every mode that the flags ask for. -/
def Supports (flag oflag : BitVec 16) : Prop :=
  (Has oflag RT_DEVICE_FLAG_DMA_RX → Has flag RT_DEVICE_FLAG_DMA_RX) ∧
    (Has oflag RT_DEVICE_FLAG_DMA_TX → Has flag RT_DEVICE_FLAG_DMA_TX) ∧
    (Has oflag RT_DEVICE_FLAG_INT_RX → Has flag RT_DEVICE_FLAG_INT_RX) ∧
    (Has oflag RT_DEVICE_FLAG_INT_TX → Has flag RT_DEVICE_FLAG_INT_TX)

instance (flag oflag : BitVec 16) : Decidable (Supports flag oflag) :=
  inferInstanceAs (Decidable (_ ∧ _ ∧ _ ∧ _))

/-- The stream flag, which a later opener does not take away. -/
def streamFlag (d : SerialDev) (oflag : BitVec 16) : BitVec 16 :=
  if Has oflag RT_DEVICE_FLAG_STREAM ∨ Has d.openFlag RT_DEVICE_FLAG_STREAM then RT_DEVICE_FLAG_STREAM
  else 0#16

/-- `rt_serial_open(dev, oflag)` -/
def rtSerialOpen (bufsz : Nat) (d : SerialDev) (oflag : BitVec 16) (items : Bool) : Err × SerialDev :=
  if Supports d.flag oflag then
    let stream := streamFlag d oflag
    let d := { d with openFlag := oflag &&& 0xff#16 }
    let d := (openRx bufsz d oflag).openTx oflag items
    (.eok, { d with openFlag := d.openFlag ||| stream })
  else (.eio, d)

/-- The part of `rt_serial_close` about `serial_rx`, up to a failed assertion. With and without a buffer size,
the DMA's object is freed. -/
def closeRx (d : SerialDev) : Option SerialDev :=
  match rxPath d.openFlag with
  | .int =>
      d.serialRx.map fun o =>
        { d.free o.1 with serialRx := none, openFlag := d.openFlag &&& ~~~RT_DEVICE_FLAG_INT_RX }
  | .dma =>
      d.serialRx.map fun o =>
        { d.free o.1 with serialRx := none, openFlag := d.openFlag &&& ~~~RT_DEVICE_FLAG_DMA_RX }
  | .poll => some d

/-- The part of `rt_serial_close` about `serial_tx`. The items of the data queue are not freed. -/
def closeTx (d : SerialDev) : Option SerialDev :=
  match txPath d.openFlag with
  | .int =>
      d.serialTx.map fun o =>
        { d.free o.1 with serialTx := none, openFlag := d.openFlag &&& ~~~RT_DEVICE_FLAG_INT_TX }
  | .dma =>
      d.serialTx.map fun o =>
        { d.free o.1 with serialTx := none, openFlag := d.openFlag &&& ~~~RT_DEVICE_FLAG_DMA_TX }
  | .poll => some d

/-- `rt_serial_close(dev)` -/
def rtSerialClose (d : SerialDev) : Option (Err × SerialDev) :=
  -- this device has more reference count
  if d.refCount > 1 then some (.eok, d)
  else (d.closeRx.bind closeTx).map fun d => (.eok, d)

/-- `rt_serial_init(dev)` -/
def rtSerialInit (d : SerialDev) : SerialDev := { d with serialRx := none, serialTx := none }

/-- How `rt_device_open` initializes a device: `init` is the result of `ops->configure`. -/
def deviceInit (d : SerialDev) (init : Err) : Err × SerialDev :=
  if Has d.flag RT_DEVICE_FLAG_ACTIVATED then (.eok, d)
  else if init ≠ .eok then (init, d.rtSerialInit)
  else (.eok, { d.rtSerialInit with flag := d.flag ||| RT_DEVICE_FLAG_ACTIVATED })

/-- The end of `rt_device_open`: the counter is a byte, and an assertion stops it from overflowing. -/
def countOpen (r : Err) (d : SerialDev) : Option (Err × SerialDev) :=
  if r = .eok ∨ r = .enosys then
    if (d.refCount + 1) % 256 = 0 then none
    else some (r, { d with openFlag := d.openFlag ||| RT_DEVICE_OFLAG_OPEN, refCount := d.refCount + 1 })
  else some (r, d)

/-- The device is a stand alone device and opened. -/
def Busy (d : SerialDev) : Prop :=
  Has d.flag RT_DEVICE_FLAG_STANDALONE ∧ Has d.openFlag RT_DEVICE_OFLAG_OPEN

instance (d : SerialDev) : Decidable d.Busy := inferInstanceAs (Decidable (_ ∧ _))

/-- `rt_device_open(dev, oflag)` -/
def rtDeviceOpen (bufsz : Nat) (d : SerialDev) (oflag : BitVec 16) (init : Err) (items : Bool) :
    Option (Err × SerialDev) :=
  let (r, d) := d.deviceInit init
  if r ≠ .eok then some (r, d)
  else if d.Busy then some (.ebusy, d)
  else
    let (r, d) := d.rtSerialOpen bufsz oflag items
    countOpen r d

/-- `rt_device_close(dev)` -/
def rtDeviceClose (d : SerialDev) : Option (Err × SerialDev) :=
  if d.refCount = 0 then some (.error, d)
  else
    let d := { d with refCount := d.refCount - 1 }
    if d.refCount ≠ 0 then some (.eok, d)
    else d.rtSerialClose.map fun p =>
      if p.1 = .eok ∨ p.1 = .enosys then (p.1, { p.2 with openFlag := RT_DEVICE_OFLAG_CLOSE }) else p

/-! ## What opening and closing do -/

/-- The object for a receive path. -/
def rxObject (bufsz : Nat) : Path → Option RxObject
  | .int => some .intFifo
  | .dma => some (if bufsz = 0 then .rxDma else .dmaFifo)
  | .poll => none

/-- The object for a transmit path. -/
def txObject (queue : Option Nat) : Path → Option TxObject
  | .int => some .txFifo
  | .dma => some (.txDma queue)
  | .poll => none

/-- The blocks of the object that `serial_rx` points to. -/
def rxBlocks : Option (Nat × RxObject) → List Nat
  | none => []
  | some (b, _) => [b]

/-- The blocks of the object that `serial_tx` points to. -/
def txBlocks : Option (Nat × TxObject) → List Nat
  | none => []
  | some (b, .txFifo) => [b]
  | some (b, .txDma queue) => b :: queue.toList

section Flags

variable {x stream : BitVec 16}

theorem txPath_congr {x y : BitVec 16}
    (hint : Has x RT_DEVICE_FLAG_INT_TX ↔ Has y RT_DEVICE_FLAG_INT_TX)
    (hdma : Has x RT_DEVICE_FLAG_DMA_TX ↔ Has y RT_DEVICE_FLAG_DMA_TX) : txPath x = txPath y := by
  unfold txPath
  simp only [hint, hdma]

theorem streamFlag_cases (d : SerialDev) (oflag : BitVec 16) :
    d.streamFlag oflag = RT_DEVICE_FLAG_STREAM ∨ d.streamFlag oflag = 0#16 := by
  unfold streamFlag
  split_ifs
  · exact .inl rfl
  · exact .inr rfl

/-- The flags at the end of an open: the low byte that was asked for, the modes, and the two other flags. -/
def openedFlag (oflag stream : BitVec 16) (p q : Path) : BitVec 16 :=
  (((oflag &&& 0xff#16) ||| p.rxFlag) ||| q.txFlag) ||| stream ||| RT_DEVICE_OFLAG_OPEN

theorem rxPath_openedFlag (oflag : BitVec 16) (hstream : stream = RT_DEVICE_FLAG_STREAM ∨ stream = 0#16) (p q : Path) :
    rxPath (openedFlag oflag stream p q) = p := by
  have hint : ¬ Has (oflag &&& 0xff#16) RT_DEVICE_FLAG_INT_RX := not_has_and rfl
  have hdma : ¬ Has (oflag &&& 0xff#16) RT_DEVICE_FLAG_DMA_RX := not_has_and rfl
  unfold rxPath openedFlag
  simp only [has_or, hint, hdma, false_or]
  obtain rfl | rfl := hstream <;> cases p <;> cases q <;> rfl

theorem txPath_openedFlag (oflag : BitVec 16) (hstream : stream = RT_DEVICE_FLAG_STREAM ∨ stream = 0#16) (p q : Path) :
    txPath (openedFlag oflag stream p q) = q := by
  have hint : ¬ Has (oflag &&& 0xff#16) RT_DEVICE_FLAG_INT_TX := not_has_and rfl
  have hdma : ¬ Has (oflag &&& 0xff#16) RT_DEVICE_FLAG_DMA_TX := not_has_and rfl
  unfold txPath openedFlag
  simp only [has_or, hint, hdma, false_or]
  obtain rfl | rfl := hstream <;> cases p <;> cases q <;> rfl

end Flags

variable {bufsz : Nat} {d : SerialDev} {oflag : BitVec 16} {l : List Nat}

/-- The items of the data queue, if there is one. -/
def txItems : Option (Nat × TxObject) → Option Nat
  | none => none
  | some (_, .txFifo) => none
  | some (_, .txDma queue) => queue

/-- An open keeps an object that serves the new opener as well, or makes one. -/
theorem openRx_spec
    (hobj : d.serialRx = none ∨ d.serialRx.map Prod.snd = rxObject bufsz (rxPath oflag))
    (hheap : d.heap.Perm (rxBlocks d.serialRx ++ l)) :
    ∃ rx heap fresh,
      openRx bufsz d oflag =
          { d with
            serialRx := rx
            openFlag := d.openFlag ||| (rxPath oflag).rxFlag
            heap := heap
            fresh := fresh } ∧
        rx.map Prod.snd = rxObject bufsz (rxPath oflag) ∧ heap.Perm (rxBlocks rx ++ l) := by
  unfold openRx
  cases hrx : d.serialRx with
  | none =>
      rw [hrx] at hheap
      cases rxPath oflag with
      | int => exact ⟨_, _, _, rfl, rfl, hheap.cons _⟩
      | dma => exact ⟨_, _, _, rfl, rfl, hheap.cons _⟩
      | poll =>
          refine ⟨none, d.heap, d.fresh, ?_, rfl, hheap⟩
          rw [Path.rxFlag, BitVec.or_zero]
  | some o =>
      rw [hrx] at hobj hheap
      have hserves := hobj.resolve_left (Option.some_ne_none o)
      refine ⟨some o, d.heap, d.fresh, ?_, hserves, hheap⟩
      cases rxPath oflag with
      | int => rfl
      | dma => rfl
      | poll =>
          rw [Path.rxFlag, BitVec.or_zero]
          exact congrArg (fun rx => { d with serialRx := rx }) hrx

theorem openTx_spec (items : Bool)
    (hobj : d.serialTx = none ∨ ∃ queue, d.serialTx.map Prod.snd = txObject queue (txPath oflag))
    (hheap : d.heap.Perm (l ++ txBlocks d.serialTx)) :
    ∃ tx heap fresh,
      openTx d oflag items =
          { d with
            serialTx := tx
            openFlag := d.openFlag ||| (txPath oflag).txFlag
            heap := heap
            fresh := fresh } ∧
        (∃ queue, tx.map Prod.snd = txObject queue (txPath oflag)) ∧ heap.Perm (l ++ txBlocks tx) := by
  unfold openTx
  cases htx : d.serialTx with
  | none =>
      rw [htx, txBlocks, List.append_nil] at hheap
      cases txPath oflag with
      | int => exact ⟨_, _, _, rfl, ⟨none, rfl⟩, (hheap.cons _).trans (List.perm_append_singleton _ _).symm⟩
      | dma =>
          cases items with
          | true =>
              refine ⟨_, _, _, rfl, ⟨_, rfl⟩, ((hheap.cons _).cons _).trans ?_⟩
              exact (List.Perm.swap _ _ l).trans (List.perm_append_comm : ([_, _] ++ l).Perm _)
          | false =>
              exact ⟨_, _, _, rfl, ⟨none, rfl⟩, (hheap.cons _).trans (List.perm_append_singleton _ _).symm⟩
      | poll =>
          refine ⟨none, d.heap, d.fresh, ?_, ⟨none, rfl⟩, ?_⟩
          · rw [Path.txFlag, BitVec.or_zero]
          · rw [txBlocks, List.append_nil]
            exact hheap
  | some o =>
      rw [htx] at hobj hheap
      have hserves := hobj.resolve_left (Option.some_ne_none o)
      refine ⟨some o, d.heap, d.fresh, ?_, hserves, hheap⟩
      cases txPath oflag with
      | int => rfl
      | dma => rfl
      | poll =>
          rw [Path.txFlag, BitVec.or_zero]
          exact congrArg (fun tx => { d with serialTx := tx }) htx

/-- The last close frees the object that serves the receive path. -/
theorem closeRx_spec (hobj : d.serialRx.map Prod.snd = rxObject bufsz (rxPath d.openFlag))
    (hheap : d.heap.Perm (rxBlocks d.serialRx ++ l)) :
    ∃ openFlag heap,
      closeRx d = some { d with serialRx := none, openFlag := openFlag, heap := heap } ∧
        txPath openFlag = txPath d.openFlag ∧ heap.Perm l := by
  unfold closeRx
  cases hrx : d.serialRx with
  | none =>
      rw [hrx] at hobj hheap
      cases hpath : rxPath d.openFlag with
      | int =>
          rw [hpath] at hobj
          cases hobj
      | dma =>
          rw [hpath] at hobj
          cases hobj
      | poll =>
          refine ⟨d.openFlag, d.heap, ?_, rfl, hheap⟩
          exact congrArg (fun rx => some { d with serialRx := rx }) hrx
  | some o =>
      have hfree : (d.heap.erase o.1).Perm l := by
        rw [hrx] at hheap
        have herase := hheap.erase o.1
        rwa [rxBlocks, List.singleton_append, List.erase_cons_head] at herase
      cases hpath : rxPath d.openFlag with
      | int =>
          refine ⟨_, _, rfl, txPath_congr ?_ ?_, hfree⟩
          · exact has_and_of_mask rfl
          · exact has_and_of_mask rfl
      | dma =>
          refine ⟨_, _, rfl, txPath_congr ?_ ?_, hfree⟩
          · exact has_and_of_mask rfl
          · exact has_and_of_mask rfl
      | poll =>
          rw [hrx, hpath] at hobj
          cases hobj

/-- The last close frees the object that serves the transmit path, but not the items of its data queue. -/
theorem closeTx_spec (hobj : ∃ queue, d.serialTx.map Prod.snd = txObject queue (txPath d.openFlag))
    (hitems : txItems d.serialTx = none)
    (hheap : d.heap.Perm (txBlocks d.serialTx)) :
    ∃ openFlag heap,
      closeTx d = some { d with serialTx := none, openFlag := openFlag, heap := heap } ∧ heap = [] := by
  unfold closeTx
  cases htx : d.serialTx with
  | none =>
      rw [htx] at hobj hheap
      obtain ⟨queue, hobj⟩ := hobj
      cases hpath : txPath d.openFlag with
      | int =>
          rw [hpath] at hobj
          cases hobj
      | dma =>
          rw [hpath] at hobj
          cases hobj
      | poll =>
          refine ⟨d.openFlag, d.heap, ?_, hheap.eq_nil⟩
          exact congrArg (fun tx => some { d with serialTx := tx }) htx
  | some o =>
      have hfree : d.heap.erase o.1 = [] := by
        have hblocks : txBlocks d.serialTx = [o.1] := by
          rw [htx] at hitems ⊢
          cases o with
          | mk b obj =>
              cases obj with
              | txFifo => rfl
              | txDma queue =>
                  obtain rfl : queue = none := hitems
                  rfl
        rw [hblocks] at hheap
        rw [List.perm_singleton.mp hheap, List.erase_cons_head]
      cases hpath : txPath d.openFlag with
      | int => exact ⟨_, _, rfl, hfree⟩
      | dma => exact ⟨_, _, rfl, hfree⟩
      | poll =>
          obtain ⟨queue, hobj⟩ := hobj
          rw [htx, hpath] at hobj
          cases hobj

/-- Initializing changes no more than the flags, for a device without objects. -/
theorem deviceInit_cases (init : Err)
    (hinit : ¬ Has d.flag RT_DEVICE_FLAG_ACTIVATED → d.serialRx = none ∧ d.serialTx = none) :
    ∃ r flag, d.deviceInit init = (r, { d with flag := flag }) ∧
      (Has d.flag RT_DEVICE_FLAG_ACTIVATED → flag = d.flag) ∧
      (r = .eok → Has flag RT_DEVICE_FLAG_ACTIVATED) := by
  unfold deviceInit
  by_cases hact : Has d.flag RT_DEVICE_FLAG_ACTIVATED
  · rw [if_pos hact]
    exact ⟨.eok, d.flag, rfl, fun _ => rfl, fun _ => hact⟩
  · obtain ⟨hrx, htx⟩ := hinit hact
    have hsame : d.rtSerialInit = d := by
      unfold rtSerialInit
      rw [← hrx]
      exact congrArg (fun tx => { d with serialTx := tx }) htx.symm
    rw [if_neg hact, hsame]
    by_cases hok : init = .eok
    · rw [if_neg (not_not_intro hok)]
      exact ⟨.eok, _, rfl, fun h => absurd h hact, fun _ => has_or.mpr (.inr (by decide))⟩
    · rw [if_pos hok]
      exact ⟨init, d.flag, rfl, fun _ => rfl, fun h => absurd h hok⟩

/-- What `rt_device_open` does: nothing to the open state, or one more `rt_serial_open`. -/
theorem rtDeviceOpen_cases {init r : Err} {items : Bool} {d' : SerialDev}
    (hinit : ¬ Has d.flag RT_DEVICE_FLAG_ACTIVATED → d.serialRx = none ∧ d.serialTx = none)
    (h : d.rtDeviceOpen bufsz oflag init items = some (r, d')) :
    ∃ flag, (Has d.flag RT_DEVICE_FLAG_ACTIVATED → flag = d.flag) ∧
      (d' = { d with flag := flag } ∨
        Has flag RT_DEVICE_FLAG_ACTIVATED ∧ Supports flag oflag ∧ ¬ Busy { d with flag := flag } ∧
          countOpen .eok (rtSerialOpen bufsz { d with flag := flag } oflag items).2 = some (r, d')) := by
  obtain ⟨r₁, flag, hdev, hflag, hact⟩ := deviceInit_cases init hinit
  refine ⟨flag, hflag, ?_⟩
  unfold rtDeviceOpen at h
  rw [hdev] at h
  dsimp only at h
  by_cases hok : r₁ = .eok
  · rw [if_neg (not_not_intro hok)] at h
    by_cases hbusy : Busy { d with flag := flag }
    · rw [if_pos hbusy] at h
      cases h
      exact .inl rfl
    · rw [if_neg hbusy] at h
      by_cases hsup : Supports flag oflag
      · refine .inr ⟨hact hok, hsup, hbusy, ?_⟩
        rw [rtSerialOpen, if_pos hsup] at h ⊢
        exact h
      · rw [rtSerialOpen, if_neg hsup] at h
        cases h
        exact .inl rfl
  · rw [if_pos hok] at h
    cases h
    exact .inl rfl

/-- An open by which every object serves the opener. -/
theorem rtSerialOpen_spec (items : Bool) (hsup : Supports d.flag oflag)
    (hrx : d.serialRx = none ∨ d.serialRx.map Prod.snd = rxObject bufsz (rxPath oflag))
    (htx : d.serialTx = none ∨ ∃ queue, d.serialTx.map Prod.snd = txObject queue (txPath oflag))
    (hheap : d.heap.Perm (rxBlocks d.serialRx ++ txBlocks d.serialTx)) :
    ∃ rx tx stream heap fresh,
      (rtSerialOpen bufsz d oflag items).2 =
          { d with
            serialRx := rx
            serialTx := tx
            openFlag := (((oflag &&& 0xff#16) ||| (rxPath oflag).rxFlag) ||| (txPath oflag).txFlag) ||| stream
            heap := heap
            fresh := fresh } ∧
        (stream = RT_DEVICE_FLAG_STREAM ∨ stream = 0#16) ∧
        rx.map Prod.snd = rxObject bufsz (rxPath oflag) ∧
        (∃ queue, tx.map Prod.snd = txObject queue (txPath oflag)) ∧
        heap.Perm (rxBlocks rx ++ txBlocks tx) := by
  obtain ⟨rx, heap₁, fresh₁, hopen₁, hrx₁, hheap₁⟩ :=
    openRx_spec (d := { d with openFlag := oflag &&& 0xff#16 }) hrx hheap
  obtain ⟨tx, heap₂, fresh₂, hopen₂, htx₂, hheap₂⟩ :=
    openTx_spec (d := openRx bufsz { d with openFlag := oflag &&& 0xff#16 } oflag) (l := rxBlocks rx) items
      (by rw [hopen₁]; exact htx) (by rw [hopen₁]; exact hheap₁)
  refine ⟨rx, tx, d.streamFlag oflag, heap₂, fresh₂, ?_, streamFlag_cases d oflag, hrx₁, htx₂, hheap₂⟩
  unfold rtSerialOpen
  rw [if_pos hsup]
  dsimp only
  rw [hopen₂, hopen₁]

theorem countOpen_eq {r r' : Err} {d' : SerialDev} (hr : r = .eok) (h : countOpen r d = some (r', d')) :
    d' = { d with openFlag := d.openFlag ||| RT_DEVICE_OFLAG_OPEN, refCount := d.refCount + 1 } := by
  unfold countOpen at h
  rw [if_pos (.inl hr)] at h
  split_ifs at h
  cases h
  rfl

/-- A close that is not the last one only counts down. -/
theorem rtDeviceClose_of_one_lt (h : 1 < d.refCount) :
    d.rtDeviceClose = some (.eok, { d with refCount := d.refCount - 1 }) := by
  have hpos : ¬ d.refCount = 0 := by omega
  have hmore : d.refCount - 1 ≠ 0 := by omega
  unfold rtDeviceClose
  rw [if_neg hpos]
  dsimp only
  rw [if_pos hmore]

/-- The last close: it meets no failed assertion, both objects are gone, and nothing is left on the heap. -/
theorem rtDeviceClose_of_one (hone : d.refCount = 1)
    (hrx : d.serialRx.map Prod.snd = rxObject bufsz (rxPath d.openFlag))
    (htx : ∃ queue, d.serialTx.map Prod.snd = txObject queue (txPath d.openFlag))
    (hitems : txItems d.serialTx = none)
    (hheap : d.heap.Perm (rxBlocks d.serialRx ++ txBlocks d.serialTx)) :
    d.rtDeviceClose =
      some (.eok, { d with refCount := 0, serialRx := none, serialTx := none, openFlag := 0#16, heap := [] }) := by
  obtain ⟨openFlag₁, heap₁, hclose₁, hpath, hheap₁⟩ := closeRx_spec (d := { d with refCount := 0 }) hrx hheap
  obtain ⟨openFlag₂, heap₂, hclose₂, rfl⟩ :=
    closeTx_spec
      (d := { d with refCount := 0, serialRx := none, openFlag := openFlag₁, heap := heap₁ })
      (by rw [hpath]; exact htx) hitems hheap₁
  have hclose : rtSerialClose { d with refCount := 0 } =
      some (.eok, { d with
        refCount := 0, serialRx := none, serialTx := none, openFlag := openFlag₂, heap := [] }) := by
    unfold rtSerialClose
    rw [if_neg (Nat.not_lt_zero 1), hclose₁, Option.bind_some, hclose₂]
    rfl
  unfold rtDeviceClose
  rw [hone, if_neg Nat.one_ne_zero]
  dsimp only
  rw [if_neg (not_not_intro rfl), hclose]
  rfl

end SerialDev

/-! ## Sequences of opens and closes -/

open SerialDev

/-- The device, and the receive and the transmit mode that the first opener obtained. -/
structure SerialSys where
  dev : SerialDev
  obtained : Path × Path
  deriving DecidableEq

/-- A call: an open with its flags and with what `ops->configure` and the allocation of the data queue come to,
or a close. -/
inductive SerialSys.Action
  | rtOpen (oflag : BitVec 16) (init : Err) (items : Bool)
  | rtClose

/-- The mode `p` is still there when the mode is `q`. With `upgrade`, polling may be given up for a buffer. -/
def Path.Keeps (upgrade : Bool) (p q : Path) : Prop := p = q ∨ upgrade = true ∧ p = .poll

theorem Path.Keeps.trans {upgrade : Bool} {p q r : Path} (hpq : p.Keeps upgrade q) (hqr : q.Keeps upgrade r) :
    p.Keeps upgrade r := by
  obtain rfl | hpoll := hpq
  · exact hqr
  · exact .inr hpoll

namespace SerialSys

/-- A registered device that nobody has opened. -/
structure Init (s : SerialSys) : Prop where
  openFlag : s.dev.openFlag = RT_DEVICE_OFLAG_CLOSE
  refCount : s.dev.refCount = 0
  rx : s.dev.serialRx = none
  tx : s.dev.serialTx = none
  heap : s.dev.heap = []

/-- A call on the device, up to a failed assertion. -/
def step (bufsz : Nat) (s : SerialSys) : Action → Option SerialSys
  | .rtOpen oflag init items =>
      (s.dev.rtDeviceOpen bufsz oflag init items).map fun p =>
        { dev := p.2
          obtained :=
            if s.dev.refCount = 0 then (rxPath p.2.openFlag, txPath p.2.openFlag) else s.obtained }
  | .rtClose => s.dev.rtDeviceClose.map fun p => { s with dev := p.2 }

/-- The buffers follow the open state: while the device is open, the objects are those of the paths that
`rt_serial_read` and `rt_serial_write` take, and the modes are those of the first opener; when it is closed,
there is no object, and nothing is left of what was allocated. -/
structure Follows (upgrade : Bool) (bufsz : Nat) (s : SerialSys) : Prop where
  rx : 0 < s.dev.refCount → s.dev.serialRx.map Prod.snd = rxObject bufsz (rxPath s.dev.openFlag)
  tx : 0 < s.dev.refCount → ∃ queue, s.dev.serialTx.map Prod.snd = txObject queue (txPath s.dev.openFlag)
  mode : 0 < s.dev.refCount →
    s.obtained.1.Keeps upgrade (rxPath s.dev.openFlag) ∧ s.obtained.2.Keeps upgrade (txPath s.dev.openFlag)
  closed : s.dev.refCount = 0 → s.dev.serialRx = none ∧ s.dev.serialTx = none ∧ s.dev.heap = []

/-- An open of an open device that is not refused asks for the modes that are there, and a last close does not
leave the items of a data queue behind. -/
def Fits (upgrade : Bool) (s : SerialSys) : Action → Prop
  | .rtOpen oflag _ _ =>
      0 < s.dev.refCount → Supports s.dev.flag oflag → ¬ s.dev.Busy →
        (rxPath s.dev.openFlag).Keeps upgrade (rxPath oflag) ∧
          (txPath s.dev.openFlag).Keeps upgrade (txPath oflag)
  | .rtClose => s.dev.refCount = 1 → txItems s.dev.serialTx = none

variable {upgrade : Bool} {bufsz : Nat} {s s' : SerialSys}

instance (upgrade : Bool) (p q : Path) : Decidable (p.Keeps upgrade q) :=
  inferInstanceAs (Decidable (_ ∨ _))

instance (upgrade : Bool) (s : SerialSys) : (a : Action) → Decidable (Fits upgrade s a)
  | .rtOpen _ _ _ => inferInstanceAs (Decidable (_ → _ → _ → _ ∧ _))
  | .rtClose => inferInstanceAs (Decidable (_ → _))

/-- What every run keeps, if its calls fit. -/
structure Inv (upgrade : Bool) (bufsz : Nat) (s : SerialSys) : Prop where
  follows : Follows upgrade bufsz s
  heap : s.dev.heap.Perm (rxBlocks s.dev.serialRx ++ txBlocks s.dev.serialTx)
  active : ¬ Has s.dev.flag RT_DEVICE_FLAG_ACTIVATED → s.dev.refCount = 0

theorem inv_init (h : Init s) : Inv upgrade bufsz s := by
  have hclosed : ¬ 0 < s.dev.refCount := by rw [h.refCount]; exact Nat.lt_irrefl 0
  refine ⟨⟨fun hp => absurd hp hclosed, fun hp => absurd hp hclosed, fun hp => absurd hp hclosed,
    fun _ => ⟨h.rx, h.tx, h.heap⟩⟩, ?_, fun _ => h.refCount⟩
  rw [h.heap, h.rx, h.tx]
  rfl

theorem inv_open {oflag : BitVec 16} {init : Err} {items : Bool} (h : Inv upgrade bufsz s)
    (hfits : Fits upgrade s (.rtOpen oflag init items)) (hs : step bufsz s (.rtOpen oflag init items) = some s') :
    Inv upgrade bufsz s' := by
  obtain ⟨⟨r, d'⟩, hopen, rfl⟩ := Option.map_eq_some_iff.mp hs
  have hinit : ¬ Has s.dev.flag RT_DEVICE_FLAG_ACTIVATED → s.dev.serialRx = none ∧ s.dev.serialTx = none := by
    intro hact
    obtain ⟨hrx, htx, -⟩ := h.follows.closed (h.active hact)
    exact ⟨hrx, htx⟩
  obtain ⟨flag, hflag, rfl | ⟨hact, hsup, hbusy, hcount⟩⟩ := rtDeviceOpen_cases hinit hopen
  · -- the open is refused
    refine ⟨⟨h.follows.rx, h.follows.tx, fun hpos => ?_, h.follows.closed⟩, h.heap, fun hact => ?_⟩
    · dsimp only at hpos ⊢
      rw [if_neg (Nat.pos_iff_ne_zero.mp hpos)]
      exact h.follows.mode hpos
    · refine h.active fun hact' => hact ?_
      dsimp only
      rw [hflag hact']
      exact hact'
  · -- what is there serves the new opener as well
    have hkeeps : 0 < s.dev.refCount →
        (rxPath s.dev.openFlag).Keeps upgrade (rxPath oflag) ∧
          (txPath s.dev.openFlag).Keeps upgrade (txPath oflag) := by
      intro hpos
      have hsame : flag = s.dev.flag := by
        refine hflag (not_not.mp fun hnot => ?_)
        rw [h.active hnot] at hpos
        exact Nat.lt_irrefl 0 hpos
      rw [hsame] at hsup hbusy
      exact hfits hpos hsup hbusy
    have hrx : s.dev.serialRx = none ∨ s.dev.serialRx.map Prod.snd = rxObject bufsz (rxPath oflag) := by
      obtain hzero | hpos := Nat.eq_zero_or_pos s.dev.refCount
      · exact .inl (h.follows.closed hzero).1
      · have hobj := h.follows.rx hpos
        obtain hsame | ⟨-, hpoll⟩ := (hkeeps hpos).1
        · rw [hsame] at hobj
          exact .inr hobj
        · rw [hpoll] at hobj
          exact .inl (Option.map_eq_none_iff.mp hobj)
    have htx : s.dev.serialTx = none ∨
        ∃ queue, s.dev.serialTx.map Prod.snd = txObject queue (txPath oflag) := by
      obtain hzero | hpos := Nat.eq_zero_or_pos s.dev.refCount
      · exact .inl (h.follows.closed hzero).2.1
      · obtain ⟨queue, hobj⟩ := h.follows.tx hpos
        obtain hsame | ⟨-, hpoll⟩ := (hkeeps hpos).2
        · rw [hsame] at hobj
          exact .inr ⟨queue, hobj⟩
        · rw [hpoll] at hobj
          exact .inl (Option.map_eq_none_iff.mp hobj)
    obtain ⟨rx, tx, stream, heap, fresh, heq, hstream, hrx', htx', hheap⟩ :=
      rtSerialOpen_spec (d := { s.dev with flag := flag }) items hsup hrx htx h.heap
    obtain rfl := countOpen_eq rfl hcount
    rw [heq]
    have hrxPath := rxPath_openedFlag oflag hstream (rxPath oflag) (txPath oflag)
    have htxPath := txPath_openedFlag oflag hstream (rxPath oflag) (txPath oflag)
    unfold openedFlag at hrxPath htxPath
    refine ⟨⟨fun _ => ?_, fun _ => ?_, fun _ => ?_, fun hzero => ?_⟩, hheap, fun hnot => absurd hact hnot⟩
    · dsimp only
      rw [hrxPath]
      exact hrx'
    · dsimp only
      rw [htxPath]
      exact htx'
    · dsimp only
      rw [hrxPath, htxPath]
      obtain hzero | hpos := Nat.eq_zero_or_pos s.dev.refCount
      · rw [if_pos hzero]
        exact ⟨.inl rfl, .inl rfl⟩
      · obtain ⟨hrxFirst, htxFirst⟩ := h.follows.mode hpos
        obtain ⟨hrxKeeps, htxKeeps⟩ := hkeeps hpos
        rw [if_neg (Nat.pos_iff_ne_zero.mp hpos)]
        exact ⟨hrxFirst.trans hrxKeeps, htxFirst.trans htxKeeps⟩
    · exact absurd hzero (Nat.succ_ne_zero _)

theorem inv_close (h : Inv upgrade bufsz s) (hfits : Fits upgrade s .rtClose)
    (hs : step bufsz s .rtClose = some s') : Inv upgrade bufsz s' := by
  obtain ⟨⟨r, d'⟩, hclose, rfl⟩ := Option.map_eq_some_iff.mp hs
  obtain hzero | hone | hmore : s.dev.refCount = 0 ∨ s.dev.refCount = 1 ∨ 1 < s.dev.refCount := by omega
  · rw [rtDeviceClose, if_pos hzero] at hclose
    cases hclose
    exact h
  · have hpos : 0 < s.dev.refCount := hone ▸ Nat.one_pos
    rw [rtDeviceClose_of_one hone (h.follows.rx hpos) (h.follows.tx hpos) (hfits hone) h.heap] at hclose
    cases hclose
    refine ⟨⟨?_, ?_, ?_, fun _ => ⟨rfl, rfl, rfl⟩⟩, .nil, fun _ => rfl⟩
    all_goals exact fun hp => absurd hp (Nat.lt_irrefl 0)
  · have hpos : 0 < s.dev.refCount := by omega
    have hleft : ¬ s.dev.refCount - 1 = 0 := by omega
    rw [rtDeviceClose_of_one_lt hmore] at hclose
    cases hclose
    refine ⟨⟨fun _ => h.follows.rx hpos, fun _ => h.follows.tx hpos, fun _ => h.follows.mode hpos,
      fun hzero => absurd hzero hleft⟩, h.heap, fun hnot => ?_⟩
    exact absurd (h.active hnot) (Nat.pos_iff_ne_zero.mp hpos)

/-- **The buffers of a serial device follow its open state**, in every sequence of opens and closes in which no
open of an open device changes a mode and no last close is that of a transmit DMA with a data queue. -/
theorem serial_open (upgrade : Bool) (bufsz : Nat) (s : SerialSys)
    (hr : Trans.Reachable Init (fun s a s' => step bufsz s a = some s' ∧ Fits upgrade s a) s) :
    Follows upgrade bufsz s := by
  have hinv : Inv upgrade bufsz s := by
    refine hr.invariant (I := fun s => Inv upgrade bufsz s) (fun _ h => inv_init h) fun s a s' _ h hs => ?_
    obtain ⟨hs, hfits⟩ := hs
    cases a with
    | rtOpen oflag init items => exact inv_open h hfits hs
    | rtClose => exact inv_close h hfits hs
  exact hinv.follows

/-- A device with every mode, before it is initialized. -/
def registered : SerialSys := ⟨⟨0xf03#16, 0#16, 0, none, none, [], 0⟩, (.poll, .poll)⟩

theorem registered_init : Init registered := ⟨rfl, rfl, rfl, rfl, rfl⟩

/-- Both openers use the interrupts, and one of them closes. -/
def sharedInt : List Action := [.rtOpen 0x543#16 .eok true, .rtOpen 0x503#16 .eok true, .rtClose]

theorem serial_open_sharedInt :
    ∃ s : SerialSys, s.dev.refCount = 1 ∧ s.dev.heap.length = 2 ∧ Follows false 64 s := by
  have hrun : (Trans.runList (Trans.stepIf (step 64) (Fits false)) registered sharedInt).map
      (fun s => (s.dev.refCount, s.dev.heap.length)) = some (1, 2) := by decide
  obtain ⟨s, hs, hsummary⟩ := Option.map_eq_some_iff.mp hrun
  obtain ⟨hcount, hheap⟩ := Prod.mk.inj hsummary
  exact ⟨s, hcount, hheap, serial_open false 64 s (Trans.reachable_of_runList_stepIf registered_init hs)⟩

/-- The second opener does not ask for the interrupts; both close. -/
def switched : List Action := [.rtOpen 0x103#16 .eok true, .rtOpen 0x003#16 .eok true, .rtClose, .rtClose]

/-- After the second open, the first opener's reads poll; after the last close, its fifo is still there. -/
theorem fifo_left :
    (∃ s, Trans.runList (step 64) registered (switched.take 2) = some s ∧ s.dev.refCount = 2 ∧
      s.obtained.1 = .int ∧ rxPath s.dev.openFlag = .poll) ∧
    (∃ s, Trans.runList (step 64) registered switched = some s ∧ s.dev.refCount = 0 ∧
      s.dev.serialRx ≠ none ∧ s.dev.heap ≠ []) ∧
    ¬ ∀ s, Trans.Reachable Init (fun s a s' => step 64 s a = some s') s → Follows false 64 s := by
  have hsecond : (Trans.runList (step 64) registered (switched.take 2)).map
      (fun s => (s.dev.refCount, s.obtained.1, rxPath s.dev.openFlag)) = some (2, .int, .poll) := by decide
  have hlast : (Trans.runList (step 64) registered switched).map
      (fun s => (s.dev.refCount, s.dev.serialRx, s.dev.heap)) = some (0, some (0, .intFifo), [0]) := by decide
  obtain ⟨s, hs, hsummary⟩ := Option.map_eq_some_iff.mp hsecond
  obtain ⟨hcount, hmodes⟩ := Prod.mk.inj hsummary
  obtain ⟨hfirst, hpath⟩ := Prod.mk.inj hmodes
  obtain ⟨t, ht, hleft⟩ := Option.map_eq_some_iff.mp hlast
  obtain ⟨hclosed, hobjects⟩ := Prod.mk.inj hleft
  obtain ⟨hrx, hheap⟩ := Prod.mk.inj hobjects
  have hrxLeft : t.dev.serialRx ≠ none := by
    rw [hrx]
    exact Option.some_ne_none _
  refine ⟨⟨s, hs, hcount, hfirst, hpath⟩, ⟨t, ht, hclosed, hrxLeft, ?_⟩, fun hall => ?_⟩
  · rw [hheap]
    exact List.cons_ne_nil _ _
  · exact hrxLeft ((hall t (Trans.reachable_of_runList (.init registered_init) ht)).closed hclosed).1

/-- A single opener with the transmit DMA leaves the items of its data queue. -/
example : (Trans.runList (step 64) registered [.rtOpen 0x803#16 .eok true, .rtClose]).map
    (fun s => (s.dev.serialTx, s.dev.heap)) = some (none, [1]) := by decide

end SerialSys

end RTThread.Drivers
