import RTThread.Drivers.SoftSpiTransfer

set_option autoImplicit false

/-! # Buffers in one memory

The transfer functions shift the bytes they send out of the caller's buffer. Here the two buffers of a
message are addresses in one memory and may overlap, so that both shifts of a bit may be of one byte. The
byte that a function has in a local variable is a cell of its own.
-/

namespace RTThread.Spi.Shared

open ShiftRegister

/-- The bytes of the memory, and the local variable of a transfer function. -/
abbrev Cells := Option Nat → Byte

def cells (mem : Nat → Byte) (loc : Byte) : Cells := fun c => c.elim loc mem

structure State where
  pins : Pins
  cell : Cells

namespace State

def emit (s : State) (e : PinEvent) : State := { s with pins := s.pins.emit e }

/-- The level of MISO goes into the received byte. -/
def sample (s : State) (ri : Option Nat) : State :=
  let cell := Function.update s.cell ri (s.cell ri <<< 1)
  let x := s.pins.readMiso
  let cell := if x.1 then Function.update cell ri (cell ri ||| 0x01#8) else cell
  { s with pins := x.2, cell }

end State

/-! ## The functions -/

/-- One bit: the byte to send is at `si`, the received byte at `ri`. -/
def transferBit (si ri : Option Nat) (s : State) : State :=
  let s := s.emit (.mosi (s.cell si &&& 0x80#8 ≠ 0))
  let s := { s with cell := Function.update s.cell si (s.cell si <<< 1) }
  let s := s.emit .toggle
  let s := s.sample ri
  s.emit .toggle

/-- `for (j = 0; j < 8; j++)`. -/
def transferByte (si ri : Option Nat) (s : State) : State :=
  (List.range 8).foldl (fun s _ => transferBit si ri s) s

/-- `do { … dataIndex++; } while (time--)`. -/
def transferBytes (si ri : Nat → Option Nat) : Nat → Nat × State → Nat × State
  | 0, x => (x.1 + 1, transferByte (si x.1) (ri x.1) x.2)
  | time + 1, x => transferBytes si ri time (x.1 + 1, transferByte (si x.1) (ri x.1) x.2)

/-- One word. -/
def transferWord (spi : SoftSpi) (si ri : Nat → Option Nat) (x : Nat × State) : Nat × State :=
  let s := if spi.cpha then x.2.emit .toggle else x.2
  let time := if spi.dataWidth = 16 then 1 else 0
  transferBytes si ri time (x.1, s)

/-- `for (i = 0; i < len; i++)`. -/
def transferWords (spi : SoftSpi) (si ri : Nat → Option Nat) (len : Nat) (s : State) : State :=
  ((List.range len).foldl (fun x _ => transferWord spi si ri x) (0, s)).2

/-- `struct rt_spi_message`, with the addresses of its buffers. -/
structure Message where
  sendBuf : Option Nat
  recvBuf : Option Nat
  length : Nat
  csTake : Bool
  csRelease : Bool

/-- `memset(recv_buf, 0xff, n)`. -/
def memsetFf (mem : Nat → Byte) (r n : Nat) : Nat → Byte :=
  fun a => if r ≤ a ∧ a < r + n then 0xff#8 else mem a

/-- `soft_spi_read_write_bytes`, `soft_spi_write_bytes` or `soft_spi_read_bytes`. -/
def transferMessage (spi : SoftSpi) (m : Message) (pins : Pins) (mem : Nat → Byte) : State :=
  match m.sendBuf, m.recvBuf with
  | some s, some r =>
      transferWords spi (fun i => some (s + i)) (fun i => some (r + i)) m.length ⟨pins, cells mem 0⟩
  | some s, none =>
      transferWords spi (fun i => some (s + i)) (fun _ => none) m.length ⟨pins, cells mem 0⟩
  | none, some r =>
      transferWords spi (fun _ => none) (fun i => some (r + i)) m.length
        ⟨pins, cells (memsetFf mem r m.length) (spi.dummyData.truncate 8)⟩
  -- a message without a buffer is empty
  | none, none => ⟨pins, cells mem 0⟩

/-- The length that it returns, the pins and the memory. -/
def spixfer (spi : SoftSpi) (m : Message) (pins : Pins) (mem : Nat → Byte) :
    Nat × Pins × (Nat → Byte) :=
  let pins := if m.csTake then pins.emit (.cs false) else pins
  let s := if m.length ≠ 0 then transferMessage spi m pins mem else ⟨pins, cells mem 0⟩
  let pins := if m.csRelease then s.pins.emit (.cs true) else s.pins
  (m.length, pins, fun a => s.cell (some a))

/-! ## What is asked of a transfer -/

/-- The levels that MOSI is set to. -/
def mosiBits (t : Trace) : List Bool := t.filterMap fun e => match e with
  | .mosi b => some b
  | _ => none

/-- The bits that a message sends. -/
def sentBits (spi : SoftSpi) (m : Message) (mem : Nat → Byte) (miso : Nat → Bool) : List Bool :=
  mosiBits (spixfer spi m ⟨[], miso⟩ mem).2.1.trace

/-- The memory behind a message. -/
def memAfter (spi : SoftSpi) (m : Message) (mem : Nat → Byte) (miso : Nat → Bool) : Nat → Byte :=
  (spixfer spi m ⟨[], miso⟩ mem).2.2

/-- The bytes of the buffer at `a`. -/
def Message.InBuf (m : Message) (spi : SoftSpi) (buf : Option Nat) (a : Nat) : Prop :=
  ∃ b ∈ buf, b ≤ a ∧ a < b + m.length * spi.wordBytes

/-- The bits of the bytes at `s`. -/
def memBits (mem : Nat → Byte) (s n : Nat) : List Bool :=
  (List.range n).flatMap fun i => bits (mem (s + i))

/-- What is asked of a message that sends the bytes at `s`: they are what they were, so that it can be sent
again; and where they are received in place, those that were there are sent. -/
structure SendsData (spi : SoftSpi) (m : Message) (s : Nat) (mem : Nat → Byte) (miso : Nat → Bool) :
    Prop where
  kept : ∀ a, m.InBuf spi m.sendBuf a → ¬ m.InBuf spi m.recvBuf a → memAfter spi m mem miso a = mem a
  twice : (∀ a, m.InBuf spi m.sendBuf a → ¬ m.InBuf spi m.recvBuf a) → ∀ miso',
    sentBits spi m (memAfter spi m mem miso) miso' = sentBits spi m mem miso
  inPlace : m.recvBuf = some s → sentBits spi m mem miso = memBits mem s (m.length * spi.wordBytes)

/-- Bytes that a transfer does no harm: those that are sent from outside the receive buffer are 0, and
those that are sent in place have no bit but the first. -/
def Harmless (spi : SoftSpi) (m : Message) (s : Nat) (mem : Nat → Byte) : Prop :=
  ∀ i < m.length * spi.wordBytes, (¬ m.InBuf spi m.recvBuf (s + i) → mem (s + i) = 0) ∧
    (m.recvBuf = some s → mem (s + i) = 0 ∨ mem (s + i) = 0x80#8)

/-! ## A byte -/

theorem mosiBits_append (t u : Trace) : mosiBits (t ++ u) = mosiBits t ++ mosiBits u :=
  List.filterMap_append

/-- What a bit does to the pins and the cells. -/
theorem transferBit_eq (si ri : Option Nat) (s : State) : transferBit si ri s =
    { pins := ⟨s.pins.trace ++ bitFrame (s.cell si).msb (s.pins.miso 0), fun k => s.pins.miso (k + 1)⟩
      cell := Function.update (Function.update s.cell si (s.cell si <<< 1)) ri
        (shiftIn (Function.update s.cell si (s.cell si <<< 1) ri) (s.pins.miso 0)) } := by
  obtain ⟨c, hc⟩ : ∃ c, c = Function.update s.cell si (s.cell si <<< 1) := ⟨_, rfl⟩
  have hrecv : (if s.pins.miso 0 then
      Function.update (Function.update c ri (c ri <<< 1)) ri
        (Function.update c ri (c ri <<< 1) ri ||| 0x01#8)
      else Function.update c ri (c ri <<< 1)) =
      Function.update c ri (shiftIn (c ri) (s.pins.miso 0)) := by
    rw [← or_one]
    cases s.pins.miso 0
    · rfl
    · rw [if_pos rfl, if_pos rfl, Function.update_idem, Function.update_self]
  rw [transferBit]
  simp only [State.emit, State.sample, Pins.emit, Pins.readMiso, msb_mask, ← hc, hrecv, bitFrame,
    List.append_assoc, List.cons_append, List.nil_append]

/-- The other cells are left alone. -/
theorem foldl_frame (si ri : Option Nat) (n : Nat) (s : State) {c : Option Nat} (hs : c ≠ si)
    (hr : c ≠ ri) : ((List.range n).foldl (fun s _ => transferBit si ri s) s).cell c = s.cell c := by
  induction n with
  | zero => rfl
  | succ n ih =>
    rw [List.range_succ, List.foldl_concat, transferBit_eq]
    show Function.update _ ri _ c = _
    rw [Function.update_of_ne hr, Function.update_of_ne hs, ih]

/-- A byte that is sent and another one that is received. -/
theorem foldl_apart {si ri : Option Nat} (h : si ≠ ri) (n : Nat) (s : State) :
    mosiBits ((List.range n).foldl (fun s _ => transferBit si ri s) s).pins.trace =
        mosiBits s.pins.trace ++ (List.range n).map (s.cell si).getMsbD ∧
      ((List.range n).foldl (fun s _ => transferBit si ri s) s).cell si = s.cell si <<< n := by
  induction n with
  | zero => simp
  | succ n ih =>
    rw [List.range_succ, List.foldl_concat, transferBit_eq]
    constructor
    · show mosiBits (_ ++ bitFrame _ _) = _
      rw [mosiBits_append, ih.1, ih.2, msb_shiftLeft, List.map_append, List.append_assoc]
      rfl
    · show Function.update _ ri _ si = _
      rw [Function.update_of_ne h, Function.update_self, ih.2, shiftLeft_succ]

/-- Both shifts of one byte: every second bit comes to the top. -/
theorem getMsbD_shiftIn_shiftLeft (b : Byte) (v : Bool) (j : Nat) :
    (shiftIn (b <<< 1) v).getMsbD (2 * j) = b.getMsbD (2 * (j + 1)) := by
  by_cases hj : j < 4
  · have hall : ∀ (b : Byte) (v : Bool), ∀ j < 4,
        (shiftIn (b <<< 1) v).getMsbD (2 * j) = b.getMsbD (2 * (j + 1)) := by
      decide +kernel
    exact hall b v j hj
  · rw [BitVec.getMsbD_of_ge _ _ (by omega), BitVec.getMsbD_of_ge _ _ (by omega)]

theorem foldl_inPlace (c : Option Nat) (n : Nat) (s : State) :
    mosiBits ((List.range n).foldl (fun s _ => transferBit c c s) s).pins.trace =
        mosiBits s.pins.trace ++ (List.range n).map (fun k => (s.cell c).getMsbD (2 * k)) ∧
      ∀ j, (((List.range n).foldl (fun s _ => transferBit c c s) s).cell c).getMsbD (2 * j) =
        (s.cell c).getMsbD (2 * (n + j)) := by
  induction n with
  | zero => simp
  | succ n ih =>
    rw [List.range_succ, List.foldl_concat, transferBit_eq]
    constructor
    · show mosiBits (_ ++ bitFrame _ _) = _
      rw [mosiBits_append, ih.1, BitVec.msb_eq_getMsbD_zero, ih.2 0, List.map_append,
        List.append_assoc]
      rfl
    · intro j
      dsimp only
      rw [Function.update_self, Function.update_self, getMsbD_shiftIn_shiftLeft, ih.2,
        show n + (j + 1) = n + 1 + j by omega]

/-- The bits that are sent of a byte that is received in place. -/
def everySecond (b : Byte) : List Bool := (List.range 8).map fun k => b.getMsbD (2 * k)

theorem everySecond_eq_bits (b : Byte) : everySecond b = bits b ↔ b = 0 ∨ b = 0x80#8 := by
  revert b
  decide +kernel

/-! ## The loops -/

theorem flatMap_range_succ {α : Type} (f : Nat → List α) (n : Nat) :
    (List.range (n + 1)).flatMap f = (List.range n).flatMap f ++ f n := by
  rw [List.range_succ, List.flatMap_append, List.flatMap_singleton]

/-- **What holds in front of a transfer and is kept by a toggle and by every byte holds behind it.** -/
theorem transferWords_rule (P : Nat → State → Prop) (spi : SoftSpi) (si ri : Nat → Option Nat)
    (len : Nat) (s : State) (h₀ : P 0 s) (htoggle : ∀ k s, P k s → P k (s.emit .toggle))
    (hbyte : ∀ k s, k < len * spi.wordBytes → P k s → P (k + 1) (transferByte (si k) (ri k) s)) :
    P (len * spi.wordBytes) (transferWords spi si ri len s) := by
  have hbytes : ∀ time k s, k + (time + 1) ≤ len * spi.wordBytes → P k s →
      (transferBytes si ri time (k, s)).1 = k + (time + 1) ∧
        P (k + (time + 1)) (transferBytes si ri time (k, s)).2 := by
    intro time
    induction time with
    | zero => exact fun k s hk h => ⟨rfl, hbyte k s (by omega) h⟩
    | succ time ih =>
      intro k s hk h
      have h₁ := ih (k + 1) _ (by omega) (hbyte k s (by omega) h)
      rw [show k + 1 + (time + 1) = k + (time + 1 + 1) by omega] at h₁
      exact h₁
  have htime : (if spi.dataWidth = 16 then 1 else 0) + 1 = spi.wordBytes := by
    unfold SoftSpi.wordBytes
    split <;> rfl
  have hword : ∀ k x, x.1 = k → k + spi.wordBytes ≤ len * spi.wordBytes → P k x.2 →
      (transferWord spi si ri x).1 = k + spi.wordBytes ∧
        P (k + spi.wordBytes) (transferWord spi si ri x).2 := by
    rintro k ⟨k', s⟩ hk' hk h
    obtain rfl : k' = k := hk'
    unfold transferWord
    rw [← htime]
    refine hbytes _ _ _ (by rwa [htime]) ?_
    split_ifs
    · exact htoggle _ _ h
    · exact h
  have hwords : ∀ i ≤ len,
      ((List.range i).foldl (fun x _ => transferWord spi si ri x) (0, s)).1 = i * spi.wordBytes ∧
        P (i * spi.wordBytes) ((List.range i).foldl (fun x _ => transferWord spi si ri x) (0, s)).2 := by
    intro i
    induction i with
    | zero =>
      intro _
      rw [Nat.zero_mul]
      exact ⟨rfl, h₀⟩
    | succ i ih =>
      intro hi
      obtain ⟨hk, hP⟩ := ih (by omega)
      rw [List.range_succ, List.foldl_concat, Nat.succ_mul]
      have hle : (i + 1) * spi.wordBytes ≤ len * spi.wordBytes := Nat.mul_le_mul_right _ hi
      rw [Nat.succ_mul] at hle
      exact hword _ _ hk hle hP
  exact (hwords len le_rfl).2

/-! ## A message that sends -/

section Sending

variable {spi : SoftSpi} {m : Message} {send : Nat} {mem : Nat → Byte} {miso : Nat → Bool}

/-- Where the received bytes go. -/
def Message.recvAt (m : Message) (i : Nat) : Option Nat := m.recvBuf.map (· + i)

/-- The state in front of the transfer. -/
def Message.begin (m : Message) (mem : Nat → Byte) (miso : Nat → Bool) : State :=
  ⟨if m.csTake then Pins.emit ⟨[], miso⟩ (.cs false) else ⟨[], miso⟩, cells mem 0⟩

/-- The state behind the transfer. -/
def Message.final (m : Message) (spi : SoftSpi) (s : Nat) (mem : Nat → Byte) (miso : Nat → Bool) : State :=
  transferWords spi (fun i => some (s + i)) m.recvAt m.length (m.begin mem miso)

theorem mosiBits_begin : mosiBits (m.begin mem miso).pins.trace = [] := by
  unfold Message.begin
  split_ifs <;> rfl

/-- What a message does, told by its transfer. -/
theorem spixfer_final (h : m.sendBuf = some send) :
    sentBits spi m mem miso = mosiBits (m.final spi send mem miso).pins.trace ∧
      ∀ a, memAfter spi m mem miso a = (m.final spi send mem miso).cell (some a) := by
  have hfinal : (if m.length ≠ 0 then transferMessage spi m
        (if m.csTake = true then Pins.emit ⟨[], miso⟩ (.cs false) else ⟨[], miso⟩) mem
      else ⟨if m.csTake = true then Pins.emit ⟨[], miso⟩ (.cs false) else ⟨[], miso⟩, cells mem 0⟩) =
      m.final spi send mem miso := by
    by_cases h₀ : m.length ≠ 0
    · rw [if_pos h₀]
      unfold transferMessage Message.final Message.begin
      rw [h]
      have hrecv : m.recvAt = fun i => m.recvBuf.map (· + i) := rfl
      rw [hrecv]
      cases m.recvBuf <;> rfl
    · rw [if_neg h₀]
      unfold Message.final
      rw [not_not.mp h₀]
      rfl
  unfold sentBits memAfter spixfer
  dsimp only
  rw [hfinal]
  refine ⟨?_, fun _ => rfl⟩
  split_ifs
  · show mosiBits (_ ++ [.cs true]) = _
    rw [mosiBits_append]
    exact List.append_nil _
  · rfl

/-- A byte of the memory is no received one. -/
theorem recvAt_ne {a i : Nat} (ha : ¬ m.InBuf spi m.recvBuf a) (hi : i < m.length * spi.wordBytes) :
    some a ≠ m.recvAt i := by
  intro he
  obtain ⟨r, hr, hri⟩ := Option.map_eq_some_iff.mp he.symm
  exact ha ⟨r, hr, by omega⟩

/-- **What is left of the bytes that were sent.** -/
theorem memAfter_eq (h : m.sendBuf = some send) {a : Nat} (ha : ¬ m.InBuf spi m.recvBuf a) :
    memAfter spi m mem miso a =
      if send ≤ a ∧ a < send + m.length * spi.wordBytes then 0 else mem a := by
  rw [(spixfer_final h).2]
  refine transferWords_rule
    (fun k s => s.cell (some a) = if send ≤ a ∧ a < send + k then 0 else mem a) spi
    (fun i => some (send + i)) m.recvAt m.length (m.begin mem miso) ?_ (fun k s hk => hk) fun k s hk hP => ?_
  · rw [if_neg (by omega)]
    rfl
  · have hne := recvAt_ne ha hk
    by_cases hak : a = send + k
    · subst hak
      rw [if_pos (by omega)]
      exact (foldl_apart hne 8 s).2.trans (shiftLeft_all _)
    · have hsame := foldl_frame _ _ 8 s (fun he => hak (Option.some.inj he)) hne
      exact hsame.trans (hP.trans (if_congr (by omega) rfl rfl))

/-- **What is sent from outside the receive buffer.** -/
theorem sentBits_apart (h : m.sendBuf = some send)
    (hout : ∀ a, m.InBuf spi m.sendBuf a → ¬ m.InBuf spi m.recvBuf a) :
    sentBits spi m mem miso = memBits mem send (m.length * spi.wordBytes) := by
  rw [(spixfer_final h).1]
  have hrule := transferWords_rule
    (fun k s => mosiBits s.pins.trace = memBits mem send k ∧
      ∀ i, k ≤ i → i < m.length * spi.wordBytes → s.cell (some (send + i)) = mem (send + i))
    spi (fun i => some (send + i)) m.recvAt m.length (m.begin mem miso)
    ⟨mosiBits_begin, fun _ _ _ => rfl⟩
    (fun k s hk => ⟨(mosiBits_append _ _).trans ((List.append_nil _).trans hk.1), hk.2⟩) ?_
  · exact hrule.1
  · rintro k s hk ⟨htrace, hcell⟩
    have hnot : ∀ i < m.length * spi.wordBytes, some (send + i) ≠ m.recvAt k := fun i hi =>
      recvAt_ne (hout _ ⟨send, h, by omega⟩) hk
    constructor
    · refine (foldl_apart (hnot k hk) 8 s).1.trans ?_
      rw [htrace, hcell k le_rfl hk]
      exact (flatMap_range_succ _ k).symm
    · intro i hi hlt
      rw [← hcell i (by omega) hlt]
      exact foldl_frame _ _ 8 s (fun he => by have := Option.some.inj he; omega) (hnot i hlt)

/-- **What is sent from the receive buffer.** -/
theorem sentBits_inPlace (h : m.sendBuf = some send) (hr : m.recvBuf = some send) :
    sentBits spi m mem miso =
      (List.range (m.length * spi.wordBytes)).flatMap fun i => everySecond (mem (send + i)) := by
  rw [(spixfer_final h).1]
  have hat : m.recvAt = fun i => some (send + i) := by
    funext i
    rw [Message.recvAt, hr]
    rfl
  have hrule := transferWords_rule
    (fun k s => mosiBits s.pins.trace =
        ((List.range k).flatMap fun i => everySecond (mem (send + i))) ∧
      ∀ i, k ≤ i → s.cell (some (send + i)) = mem (send + i))
    spi (fun i => some (send + i)) m.recvAt m.length (m.begin mem miso)
    ⟨mosiBits_begin, fun _ _ => rfl⟩
    (fun k s hk => ⟨(mosiBits_append _ _).trans ((List.append_nil _).trans hk.1), hk.2⟩) ?_
  · exact hrule.1
  · rintro k s hk ⟨htrace, hcell⟩
    rw [hat]
    constructor
    · refine (foldl_inPlace (some (send + k)) 8 s).1.trans ?_
      rw [htrace, hcell k le_rfl, flatMap_range_succ]
      rfl
    · intro i hi
      have hne : some (send + i) ≠ some (send + k) := fun he => by have := Option.some.inj he; omega
      rw [← hcell i (by omega)]
      exact foldl_frame _ _ 8 s hne hne

/-- Bytes that send the same bits in place as on their own. -/
theorem flatMap_everySecond {byte : Nat → Byte} (n : Nat) :
    (List.range n).flatMap (fun i => everySecond (byte i)) =
        (List.range n).flatMap (fun i => bits (byte i)) ↔
      ∀ i < n, byte i = 0 ∨ byte i = 0x80#8 := by
  induction n with
  | zero => exact iff_of_true rfl fun i hi => absurd hi (Nat.not_lt_zero i)
  | succ n ih =>
    rw [flatMap_range_succ, flatMap_range_succ]
    constructor
    · intro h
      obtain ⟨h₁, h₂⟩ := List.append_inj' h rfl
      intro i hi
      rcases Nat.lt_succ_iff_lt_or_eq.mp hi with hi | rfl
      · exact ih.mp h₁ i hi
      · exact (everySecond_eq_bits _).mp h₂
    · intro h
      rw [ih.mpr fun i hi => h i (Nat.lt_succ_of_lt hi), (everySecond_eq_bits _).mpr (h n n.lt_succ_self)]

theorem memBits_congr {mem' : Nat → Byte} {n : Nat} (h : ∀ i < n, mem' (send + i) = mem (send + i)) :
    memBits mem' send n = memBits mem send n := by
  unfold memBits
  refine List.flatMap_congr fun i hi => ?_
  rw [h i (List.mem_range.mp hi)]

/-- **A message leaves what it sends as it is** exactly where the transfer does its bytes no harm. -/
theorem spixfer_sends_iff (h : m.sendBuf = some send) :
    SendsData spi m send mem miso ↔ Harmless spi m send mem := by
  have hin : ∀ i < m.length * spi.wordBytes, m.InBuf spi m.sendBuf (send + i) :=
    fun i hi => ⟨send, h, by omega⟩
  constructor
  · refine fun hok i hi => ⟨fun hout => ?_, fun hr => ?_⟩
    · rw [← hok.kept _ (hin i hi) hout, memAfter_eq h hout, if_pos (by omega)]
    · have hbits := hok.inPlace hr
      rw [sentBits_inPlace h hr] at hbits
      exact (flatMap_everySecond _).mp hbits i hi
  · intro hharm
    refine ⟨fun a ha hout => ?_, fun hout miso' => ?_, fun hr => ?_⟩
    · obtain ⟨s, hs, hle, hlt⟩ := ha
      obtain rfl : send = s := Option.some.inj (h.symm.trans hs)
      have hzero := (hharm (a - send) (by omega)).1
      rw [show send + (a - send) = a by omega] at hzero
      rw [memAfter_eq h hout, if_pos ⟨hle, hlt⟩, hzero hout]
    · rw [sentBits_apart h hout, sentBits_apart h hout]
      refine memBits_congr fun i hi => ?_
      rw [memAfter_eq h (hout _ (hin i hi)), if_pos (by omega),
        (hharm i hi).1 (hout _ (hin i hi))]
    · rw [sentBits_inPlace h hr]
      exact (flatMap_everySecond _).mpr fun i hi => (hharm i hi).2 hr

end Sending

/-- A message of two bytes at `16`, received at `17`: the first byte is 0. -/
theorem spixfer_sends_zero : SendsData ⟨false, false, 8, true, 0xffff#16⟩ ⟨some 16, some 17, 2, true, true⟩ 16
    (fun a => if a = 17 then 0xa5#8 else 0) fun _ => true := by
  refine (spixfer_sends_iff rfl).mpr fun i hi => ⟨fun hout => ?_, fun hr => absurd hr (by decide)⟩
  have hi' : i < 2 := hi
  have h₁ : i = 0 ∨ i = 1 := by omega
  rcases h₁ with rfl | rfl
  · rfl
  · exact absurd ⟨17, rfl, by decide, by decide⟩ hout

/-- One byte that is sent is 0 afterwards. -/
theorem spixfer_zeroes : ¬ ∀ (spi : SoftSpi) (m : Message) (s : Nat) (mem : Nat → Byte) (miso : Nat → Bool),
    m.sendBuf = some s → SendsData spi m s mem miso := by
  intro hclaim
  have hout : ¬ Message.InBuf ⟨some 16, none, 1, true, true⟩ ⟨false, false, 8, true, 0xffff#16⟩ none 16 := by
    rintro ⟨b, hb, -⟩
    cases hb
  have hkept := (hclaim ⟨false, false, 8, true, 0xffff#16⟩ ⟨some 16, none, 1, true, true⟩ 16
    (fun _ => 0xa5#8) (fun _ => true) rfl).kept 16 ⟨16, rfl, by decide, by decide⟩ hout
  rw [memAfter_eq rfl hout] at hkept
  exact absurd hkept (by decide)

end RTThread.Spi.Shared
