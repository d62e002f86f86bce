import Mathlib.Tactic.Ring
import RTThread.Drivers.SoftI2cLines

set_option autoImplicit false

/-! # Transactions on the I2C bus

When the slave holds SCL no longer than the time-out, every function of the driver appends the frames of
some items to the trace. Which items these are, in which order, and what the function returns, is told
message by message: the addresses with their retries, then the bytes.
-/

namespace RTThread.I2c

open Decoder ShiftRegister Item

/-! ## What is claimed -/

/-- The slave holds SCL no longer than the time-out. -/
def Bus.Quick (ops : Ops) (b : Bus) : Prop := ∀ k, b.stretch k ≤ ops.timeout

/-- An address, sent again `n` times after a stop and a start. -/
def attempts (a : Byte) (n : Nat) (ack : Bool) : List Item :=
  (List.replicate n [.write a false, .retry]).flatten ++ [.write a ack]

namespace Msg

variable (m : Msg) (retries : BitVec 32)

/-- An address byte is sent until it is acknowledged, or no retries are left. The master goes on if it is
acknowledged or the message ignores that. -/
def Tries (a : Byte) (items : List Item) (ok : Bool) : Prop :=
  (m.retries retries < 0 ∧ items = [] ∧ ok = false) ∨
  ∃ (n : Nat) (ack : Bool), (n : Int) ≤ m.retries retries ∧ items = attempts a n ack ∧
    (ack = false → (n : Int) = m.retries retries) ∧
    ok = (ack || decide (m.Has RT_I2C_IGNORE_NACK))

/-- The address of a message is sent. -/
inductive Addresses : List Item → Bool → Prop
  | seven {items : List Item} {ok : Bool} (h : ¬ m.Has RT_I2C_ADDR_10BIT)
      (h₁ : m.Tries retries m.addr7 items ok) : Addresses items ok
  | first {items : List Item} (h : m.Has RT_I2C_ADDR_10BIT)
      (h₁ : m.Tries retries m.addr1 items false) : Addresses items false
  | second {items : List Item} (h : m.Has RT_I2C_ADDR_10BIT)
      (h₁ : m.Tries retries m.addr1 items true) (hn : ¬ m.Has RT_I2C_IGNORE_NACK) :
      Addresses (items ++ [.write m.addr2 false]) false
  | toWrite {items : List Item} {ack : Bool} (h : m.Has RT_I2C_ADDR_10BIT)
      (h₁ : m.Tries retries m.addr1 items true) (h₂ : ack = true ∨ m.Has RT_I2C_IGNORE_NACK)
      (hw : ¬ m.Has RT_I2C_RD) : Addresses (items ++ [.write m.addr2 ack]) true
  | toRead {items items' : List Item} {ack ok : Bool} (h : m.Has RT_I2C_ADDR_10BIT)
      (h₁ : m.Tries retries m.addr1 items true) (h₂ : ack = true ∨ m.Has RT_I2C_IGNORE_NACK)
      (hr : m.Has RT_I2C_RD) (h₃ : m.Tries retries (m.addr1 ||| 1#8) items' ok) :
      Addresses (items ++ [.write m.addr2 ack] ++ .restart :: items') ok

/-- Message `i` starts: with a repeated start behind other messages, and with its address. -/
inductive Starts (i : Nat) : List Item → Bool → Prop
  | none (h : m.Has RT_I2C_NO_START) : Starts i [] true
  | address {items : List Item} {ok : Bool} (h : ¬ m.Has RT_I2C_NO_START)
      (ha : m.Addresses retries items ok) :
      Starts i ((if i ≠ 0 then [.restart] else []) ++ items) ok

/-- The first `n` bytes of the buffer are written. -/
def writes (mem : Mem) (acks : Nat → Bool) (n : Nat) : List Item :=
  (List.range n).map fun k => .write (mem (m.buf + k)) (acks k)

/-- All bytes are read, and acknowledged except the last one, or none of them. -/
def reads (data : Nat → Byte) : List Item :=
  (List.range m.len.toNat).map fun k =>
    .read (data k) (if m.Has RT_I2C_NO_READ_ACK then none else some (decide (k + 1 ≠ m.len.toNat)))

end Msg

/-- Bytes are stored from an address on. -/
def Mem.stored (mem : Mem) (ptr : Nat) (data : Nat → Byte) (n : Nat) : Mem := fun a =>
  if ptr ≤ a ∧ a < ptr + n then data (a - ptr) else mem a

/-- Message `i` is transferred completely: every byte written is acknowledged, unless the message
ignores that, and every byte read is stored. -/
inductive Msg.Complete (m : Msg) (retries : BitVec 32) (i : Nat) (mem : Mem) : List Item → Mem → Prop
  | write {items : List Item} (acks : Nat → Bool) (h : m.Starts retries i items true)
      (hw : ¬ m.Has RT_I2C_RD)
      (ha : ∀ k < m.len.toNat, acks k = true ∨ m.Has RT_I2C_IGNORE_NACK) :
      Complete m retries i mem (items ++ m.writes mem acks m.len.toNat) mem
  | read {items : List Item} (data : Nat → Byte) (h : m.Starts retries i items true)
      (hr : m.Has RT_I2C_RD) :
      Complete m retries i mem (items ++ m.reads data) (mem.stored m.buf data m.len.toNat)

/-- Message `i` is given up: the slave does not acknowledge the address, or a byte. -/
inductive Msg.GivenUp (m : Msg) (retries : BitVec 32) (i : Nat) (mem : Mem) : List Item → Int → Prop
  | address {items : List Item} (h : m.Starts retries i items false) :
      GivenUp m retries i mem items (- RT_EIO)
  | byte {items : List Item} {k : Nat} (h : m.Starts retries i items true) (hw : ¬ m.Has RT_I2C_RD)
      (hk : k < m.len.toNat) (hn : ¬ m.Has RT_I2C_IGNORE_NACK) :
      GivenUp m retries i mem
        (items ++ (m.writes mem (fun _ => true) k ++ [.write (mem (m.buf + k)) false])) (-RT_ERROR)

/-- The messages from number `i` on are transferred completely. -/
inductive Completes (retries : BitVec 32) : Nat → List Msg → Mem → List Item → Mem → Prop
  | nil {i : Nat} {mem : Mem} : Completes retries i [] mem [] mem
  | cons {i : Nat} {m : Msg} {msgs : List Msg} {mem mem₁ mem' : Mem} {items items' : List Item}
      (h : m.Complete retries i mem items mem₁)
      (hs : Completes retries (i + 1) msgs mem₁ items' mem') :
      Completes retries i (m :: msgs) mem (items ++ items') mem'

/-- Some messages from number `i` on are transferred, and the next one is given up. -/
def GivesUp (retries : BitVec 32) (i : Nat) (msgs : List Msg) (mem : Mem) (items : List Item)
    (mem' : Mem) (ret : Int) : Prop :=
  ∃ pre m post items₁ items₂, msgs = pre ++ m :: post ∧ Completes retries i pre mem items₁ mem' ∧
    m.GivenUp retries (i + pre.length) mem' items₂ ret ∧ items = items₁ ++ items₂

/-! ## The lines -/

/-- The events `t` have happened; the memory is the same. -/
structure Did (ops : Ops) (b b' : Bus) (t : List LineEvent) : Prop where
  trace : b'.trace = b.trace ++ t
  mem : b'.mem = b.mem
  quick : b'.Quick ops

variable {ops : Ops} {b b' b'' : Bus} {t u : List LineEvent} {retries : BitVec 32} {m : Msg}

theorem Did.refl (hq : b.Quick ops) : Did ops b b [] := ⟨(List.append_nil _).symm, rfl, hq⟩

theorem Did.trans (h : Did ops b b' t) (h' : Did ops b' b'' u) : Did ops b b'' (t ++ u) :=
  ⟨by rw [h'.trace, h.trace, List.append_assoc], h'.mem.trans h.mem, h'.quick⟩

theorem Did.emit (h : Did ops b b' t) (e : LineEvent) : Did ops b (b'.emit e) (t ++ [e]) :=
  h.trans ⟨rfl, rfl, h.quick⟩

theorem Did.getSda (h : Did ops b b' t) :
    Did ops b b'.getSda.2 (t ++ [.sample b'.getSda.1]) :=
  h.trans ⟨rfl, rfl, h.quick⟩

/-- SCL goes high before the time-out. -/
theorem sclWait_eq (b : Bus) {elapsed rest : Nat} (h : rest ≠ 0 → elapsed + rest ≤ ops.timeout) :
    ∃ late, sclWait ops elapsed rest b = (RT_EOK, { b with late }) := by
  induction rest using Nat.strong_induction_on generalizing elapsed b with
  | _ rest ih =>
      rw [sclWait]
      by_cases hr : rest = 0
      · rw [if_pos hr]
        exact ⟨b.late, rfl⟩
      · have hle := h hr
        have hmod : elapsed % 2 ^ 32 ≤ elapsed := Nat.mod_le ..
        rw [if_neg hr, if_neg (by omega)]
        dsimp only
        refine ih _ (by omega) _ fun hne => ?_
        omega

theorem sclH_eq (h : Did ops b b' t) :
    ∃ b'', sclH ops b' = (RT_EOK, b'') ∧ Did ops b b'' (t ++ [.scl true]) := by
  unfold sclH
  dsimp only
  split_ifs
  · have hq : b'.stretch 0 ≠ 0 → 0 + b'.stretch 0 ≤ ops.timeout := fun _ => by
      have hle := h.quick 0
      omega
    obtain ⟨late, hl⟩ :=
      sclWait_eq { b'.emit (.scl true) with stretch := fun k => b'.stretch (k + 1) } hq
    exact ⟨_, hl, h.trans ⟨rfl, rfl, fun k => h.quick (k + 1)⟩⟩
  · exact ⟨_, rfl, h.emit _⟩

theorem i2cStart_eq (h : Did ops b b' t) : Did ops b (i2cStart b') (t ++ startFrame) := by
  have hd := (h.emit (.sda false)).emit (.scl false)
  rw [List.append_assoc] at hd
  exact hd

theorem i2cRestart_eq (h : Did ops b b' t) :
    Did ops b (i2cRestart ops b') (t ++ Item.restart.frame) := by
  obtain ⟨b₁, h₁, hd⟩ := sclH_eq (h.emit (.sda true))
  have hd' := (hd.emit (.sda false)).emit (.scl false)
  simp only [List.append_assoc] at hd'
  rw [i2cRestart, h₁]
  exact hd'

theorem i2cStop_eq (h : Did ops b b' t) : Did ops b (i2cStop ops b') (t ++ stopFrame) := by
  obtain ⟨b₁, h₁, hd⟩ := sclH_eq (h.emit (.sda false))
  have hd' := hd.emit (.sda true)
  simp only [List.append_assoc] at hd'
  rw [i2cStop, h₁]
  exact hd'

theorem i2cWaitack_eq (h : Did ops b b' t) :
    ∃ b'' ack, i2cWaitack ops b' = (if ack then 1 else 0, b'') ∧
      Did ops b b'' (t ++ [.sda true, .scl true, .sample !ack, .scl false]) := by
  obtain ⟨b₁, h₁, hd⟩ := sclH_eq (h.emit (.sda true))
  have hd' := hd.getSda.emit (.scl false)
  simp only [List.append_assoc] at hd'
  refine ⟨_, !b₁.getSda.1, ?_, by rw [Bool.not_not]; exact hd'⟩
  rw [i2cWaitack, h₁]
  cases hx : b₁.getSda.1
  · simp [hx, RT_EOK]
  · simp [hx, RT_EOK]

/-! ## Bytes -/

theorem bit_eq (data : Byte) (i : Nat) :
    decide (data >>> i &&& 1#8 ≠ 0) = data.getLsbD i := by
  have h : data >>> i &&& 1#8 = (BitVec.ofBool (data.getLsbD i)).zeroExtend 8 := by
    apply BitVec.eq_of_getLsbD_eq
    intro j hj
    by_cases hz : j = 0
    · subst hz
      simp
    · have hone : (1#8).getLsbD j = false := by
        rw [BitVec.getLsbD_one]
        simp [hz]
      simp [hone, hz]
  rw [h]
  cases data.getLsbD i
  · rfl
  · rfl

theorem writeBits_eq (data : Byte) (n : Nat) (h : Did ops b b' t) :
    ∃ b'', writeBits ops data n b' = (RT_EOK, b'') ∧
      Did ops b b'' (t ++ ((List.range n).reverse.map data.getLsbD).flatMap bitFrame) := by
  induction n generalizing b' t with
  | zero => exact ⟨b', rfl, by rw [List.range_zero]; simpa using h⟩
  | succ n ih =>
      obtain ⟨b₁, h₁, hd⟩ := sclH_eq ((h.emit (.scl false)).emit
        (.sda (decide (data >>> n &&& 1#8 ≠ 0))))
      obtain ⟨b₂, h₂, hd₂⟩ := ih hd
      refine ⟨b₂, ?_, ?_⟩
      · rw [writeBits, h₁]
        exact h₂
      · rw [bit_eq] at hd₂
        simpa [List.range_succ, bitFrame] using hd₂

/-- The bits of a byte from the top are its bits from number 7 down. -/
theorem bits_eq (data : Byte) : (List.range 8).reverse.map data.getLsbD = bits data := by
  have h : ∀ i < 8, data.getLsbD (7 - i) = data.getMsbD i := by
    intro i hi
    rw [BitVec.getMsbD_eq_getLsbD]
    simp [hi]
  have hr : (List.range 8).reverse = (List.range 8).map (7 - ·) := by decide
  rw [hr, List.map_map]
  exact List.map_congr_left fun i hi => h i (List.mem_range.mp hi)

/-- **A byte is written.** -/
theorem i2cWriteb_eq (data : Byte) (h : Did ops b b' t) :
    ∃ b'' ack, i2cWriteb ops b' data = (if ack then 1 else 0, b'') ∧
      Did ops b b'' (t ++ (Item.write data ack).frame) := by
  obtain ⟨b₁, h₁, hd⟩ := writeBits_eq data 8 h
  obtain ⟨b₂, ack, h₂, hd₂⟩ := i2cWaitack_eq (hd.emit (.scl false))
  refine ⟨b₂, ack, ?_, ?_⟩
  · rw [i2cWriteb, h₁]
    exact h₂
  · rw [bits_eq] at hd₂
    simpa [frame] using hd₂

theorem or_one (data : Byte) (v : Bool) :
    (if v then data <<< 1 ||| 1#8 else data <<< 1) = shiftIn data v := by
  cases v
  · simp [shiftIn]
  · rfl

theorem readBits_eq (n : Nat) (data : Byte) (h : Did ops b b' t) :
    ∃ (b'' : Bus) (l : List Bool), l.length = n ∧
      readBits ops n data b' = (((l.foldl shiftIn data).toNat : Int), b'') ∧
      Did ops b b'' (t ++ l.flatMap sampleFrame) := by
  induction n generalizing b' t data with
  | zero => exact ⟨b', [], rfl, rfl, by simpa using h⟩
  | succ n ih =>
      obtain ⟨b₁, h₁, hd⟩ := sclH_eq h
      obtain ⟨b₂, l, hl, h₂, hd₂⟩ := ih (shiftIn data b₁.getSda.1) (hd.getSda.emit (.scl false))
      refine ⟨b₂, b₁.getSda.1 :: l, by rw [List.length_cons, hl], ?_, ?_⟩
      · rw [readBits, h₁]
        dsimp only
        rw [if_neg (by decide), or_one, h₂]
        rfl
      · simpa [sampleFrame] using hd₂

theorem bits_pack {l : List Bool} (h : l.length = 8) : bits (pack l : Byte) = l := by
  apply List.ext_getElem
  · simp [bits, h]
  · intro k h₁ h₂
    have hk : k < 8 := by omega
    simp only [bits, List.getElem_map, List.getElem_range]
    rw [getMsbD_pack h hk]
    rfl

/-- **A byte is read**: the trace without the acknowledge slot. -/
theorem i2cReadb_eq (h : Did ops b b' t) :
    ∃ (b'' : Bus) (data : Byte), i2cReadb ops b' = ((data.toNat : Int), b'') ∧
      Did ops b b'' (t ++ ([.sda true] ++ (bits data).flatMap sampleFrame)) := by
  obtain ⟨b₁, l, hl, h₁, hd⟩ := readBits_eq 8 0 (h.emit (.sda true))
  refine ⟨b₁, pack l, h₁, ?_⟩
  rw [bits_pack hl]
  simpa using hd

theorem i2cSendAckOrNack_eq (ack : Nat) (h : Did ops b b' t) :
    ∃ b'', i2cSendAckOrNack ops b' ack = (RT_EOK, b'') ∧
      Did ops b b'' (t ++ ackFrame (decide (ack ≠ 0))) := by
  unfold i2cSendAckOrNack
  by_cases hack : ack ≠ 0
  · rw [if_pos hack]
    dsimp only
    obtain ⟨b₁, h₁, hd⟩ := sclH_eq (h.emit (.sda false))
    refine ⟨b₁.emit (.scl false), ?_, ?_⟩
    · rw [h₁]
      rfl
    · have hd' := hd.emit (.scl false)
      simpa [ackFrame, hack] using hd'
  · rw [if_neg hack]
    dsimp only
    obtain ⟨b₁, h₁, hd⟩ := sclH_eq h
    refine ⟨b₁.emit (.scl false), ?_, ?_⟩
    · rw [h₁]
      rfl
    · have hd' := hd.emit (.scl false)
      simpa [ackFrame, hack] using hd'

/-! ## Addresses -/

theorem flatMap_frame_append (items items' : List Item) (t : List LineEvent) :
    t ++ items.flatMap frame ++ items'.flatMap frame = t ++ (items ++ items').flatMap frame := by
  rw [List.flatMap_append, List.append_assoc]

theorem Did.item (items : List Item) (i : Item)
    (h : Did ops b b' (t ++ items.flatMap frame ++ i.frame)) :
    Did ops b b' (t ++ (items ++ [i]).flatMap frame) := by
  rw [← flatMap_frame_append, List.flatMap_singleton]
  exact h

theorem attempts_succ (a : Byte) (n : Nat) (ack : Bool) :
    attempts a (n + 1) ack = .write a false :: .retry :: attempts a n ack := rfl

theorem sendAddressLoop_eq (a : Byte) (n : Nat) (h : Did ops b b' t) :
    ∃ b'' j ack, j ≤ n ∧ sendAddressLoop ops a n b' = (if ack then 1 else 0, b'') ∧
      Did ops b b'' (t ++ (attempts a j ack).flatMap frame) ∧ (ack = false → j = n) := by
  induction n generalizing b' t with
  | zero =>
      obtain ⟨b₁, ack, h₁, hd⟩ := i2cWriteb_eq a h
      exact ⟨b₁, 0, ack, le_refl 0, h₁, by simpa [attempts] using hd, fun _ => rfl⟩
  | succ n ih =>
      obtain ⟨b₁, ack, h₁, hd⟩ := i2cWriteb_eq a h
      rw [sendAddressLoop, h₁]
      cases ack with
      | true => exact ⟨b₁, 0, true, Nat.zero_le _, rfl, by simpa [attempts] using hd, by simp⟩
      | false =>
          obtain ⟨b₂, j, ack, hj, h₂, hd₂, hn⟩ := ih (i2cStart_eq (i2cStop_eq hd))
          refine ⟨b₂, j + 1, ack, by omega, h₂, ?_, fun ha => by rw [hn ha]⟩
          have hframe : stopFrame ++ startFrame = Item.retry.frame := rfl
          rw [attempts_succ, List.flatMap_cons, List.flatMap_cons, ← hframe]
          simpa only [List.append_assoc] using hd₂

theorem i2cSendAddress_eq (m : Msg) (retries : BitVec 32) (a : Byte) (h : Did ops b b' t) :
    ∃ b'' items ok r, i2cSendAddress ops b' a (m.retries retries) = (r, b'') ∧
      Did ops b b'' (t ++ items.flatMap frame) ∧ m.Tries retries a items ok ∧
      (ok = true ↔ r = 1 ∨ m.Has RT_I2C_IGNORE_NACK) := by
  by_cases hneg : m.retries retries < 0
  · have hnot : ¬ m.Has RT_I2C_IGNORE_NACK := fun hi => by
      rw [Msg.retries, if_pos hi] at hneg
      exact absurd hneg (by decide)
    refine ⟨b', [], false, 0, if_pos hneg, by simpa using h, .inl ⟨hneg, rfl, rfl⟩, ?_⟩
    simp [hnot]
  · obtain ⟨b₁, j, ack, hj, h₁, hd, hn⟩ := sendAddressLoop_eq a (m.retries retries).toNat h
    have hcast : ((m.retries retries).toNat : Int) = m.retries retries := Int.toNat_of_nonneg (by omega)
    refine ⟨b₁, attempts a j ack, ack || decide (m.Has RT_I2C_IGNORE_NACK), if ack then 1 else 0,
      (if_neg hneg).trans h₁, hd, .inr ⟨j, ack, by omega, rfl, fun ha => ?_, rfl⟩, ?_⟩
    · rw [hn ha, hcast]
    · cases ack
      · simp
      · simp

/-- **The address of a message** is sent. -/
theorem i2cBitSendAddress_eq (m : Msg) (retries : BitVec 32) (h : Did ops b b' t) :
    ∃ b'' items ok, i2cBitSendAddress ops retries b' m = (if ok then RT_EOK else - RT_EIO, b'') ∧
      Did ops b b'' (t ++ items.flatMap frame) ∧ m.Addresses retries items ok ∧
      (m.Has RT_I2C_IGNORE_NACK → ok = true) := by
  unfold i2cBitSendAddress
  dsimp only
  by_cases h10 : m.Has RT_I2C_ADDR_10BIT
  · rw [if_pos h10]
    obtain ⟨b₁, items₁, ok₁, r₁, h₁, hd₁, ht₁, hok₁⟩ :=
      i2cSendAddress_eq m retries m.addr1 h
    rw [h₁]
    by_cases hc₁ : r₁ ≠ 1 ∧ ¬ m.Has RT_I2C_IGNORE_NACK
    · have hf : ok₁ = false := Bool.eq_false_iff.mpr fun ho => (hok₁.mp ho).elim hc₁.1 hc₁.2
      rw [if_pos hc₁]
      exact ⟨b₁, items₁, false, rfl, hd₁, .first h10 (hf ▸ ht₁), fun hi => absurd hi hc₁.2⟩
    · have ho₁ : ok₁ = true := hok₁.mpr (by
        by_contra hno
        exact hc₁ (not_or.mp hno))
      subst ho₁
      rw [if_neg hc₁]
      obtain ⟨b₂, ack, h₂, hd₂⟩ := i2cWriteb_eq m.addr2 hd₁
      rw [h₂]
      dsimp only
      have hitem := Did.item _ _ hd₂
      by_cases hc₂ : (if ack then (1 : Int) else 0) ≠ 1 ∧ ¬ m.Has RT_I2C_IGNORE_NACK
      · rw [if_pos hc₂]
        have hf : ack = false := by
          cases ack
          · rfl
          · exact absurd rfl hc₂.1
        subst hf
        exact ⟨b₂, _, false, rfl, hitem, .second h10 ht₁ hc₂.2, fun hi => absurd hi hc₂.2⟩
      · rw [if_neg hc₂]
        have hack : ack = true ∨ m.Has RT_I2C_IGNORE_NACK := by
          cases ack
          · exact .inr (by simpa using hc₂)
          · exact .inl rfl
        by_cases hrd : m.Has RT_I2C_RD
        · rw [if_pos hrd]
          obtain ⟨b₃, items₃, ok₃, r₃, h₃, hd₃, ht₃, hok₃⟩ :=
            i2cSendAddress_eq m retries (m.addr1 ||| 1#8)
              (Did.item _ _ (i2cRestart_eq hitem))
          rw [flatMap_frame_append, List.append_assoc, List.singleton_append] at hd₃
          rw [h₃]
          refine ⟨b₃, _, ok₃, ?_, hd₃, .toRead h10 ht₁ hack hrd ht₃, fun hi => hok₃.mpr (.inr hi)⟩
          by_cases hc₃ : r₃ ≠ 1 ∧ ¬ m.Has RT_I2C_IGNORE_NACK
          · have hf : ok₃ = false := Bool.eq_false_iff.mpr fun ho => (hok₃.mp ho).elim hc₃.1 hc₃.2
            rw [if_pos hc₃, hf]
            rfl
          · have ho₃ : ok₃ = true := hok₃.mpr (by
              by_contra hno
              exact hc₃ (not_or.mp hno))
            rw [if_neg hc₃, ho₃]
            rfl
        · rw [if_neg hrd]
          exact ⟨b₂, _, true, rfl, hitem, .toWrite h10 ht₁ hack hrd, fun _ => rfl⟩
  · rw [if_neg h10]
    obtain ⟨b₁, items, ok, r, h₁, hd, ht, hok⟩ :=
      i2cSendAddress_eq m retries m.addr7 h
    rw [h₁]
    refine ⟨b₁, items, ok, ?_, hd, .seven h10 ht, fun hi => hok.mpr (.inr hi)⟩
    by_cases hc : r ≠ 1 ∧ ¬ m.Has RT_I2C_IGNORE_NACK
    · have hf : ok = false := Bool.eq_false_iff.mpr fun ho => (hok.mp ho).elim hc.1 hc.2
      rw [if_pos hc, hf]
      rfl
    · have ho : ok = true := hok.mpr (by
        by_contra hno
        exact hc (not_or.mp hno))
      rw [if_neg hc, ho]
      rfl

theorem sendStart_eq (m : Msg) (retries : BitVec 32) (i : Nat) (h : Did ops b b' t) :
    ∃ b'' items ok, sendStart ops retries i b' m = (if ok then RT_EOK else - RT_EIO, b'') ∧
      Did ops b b'' (t ++ items.flatMap frame) ∧ m.Starts retries i items ok ∧
      (m.Has RT_I2C_IGNORE_NACK → ok = true) := by
  unfold sendStart
  by_cases hn : m.Has RT_I2C_NO_START
  · rw [if_neg (not_not.mpr hn)]
    exact ⟨b', [], true, rfl, by simpa using h, .none hn, fun _ => rfl⟩
  · rw [if_pos hn]
    have hpre : Did ops b (if i ≠ 0 then i2cRestart ops b' else b')
        (t ++ (if i ≠ 0 then [Item.restart] else []).flatMap frame) := by
      by_cases hi : i ≠ 0
      · rw [if_pos hi, if_pos hi, List.flatMap_singleton]
        exact i2cRestart_eq h
      · rw [if_neg hi, if_neg hi, List.flatMap_nil, List.append_nil]
        exact h
    obtain ⟨b₁, items, ok, h₁, hd, ha, hok⟩ := i2cBitSendAddress_eq m retries hpre
    rw [flatMap_frame_append] at hd
    exact ⟨b₁, _, ok, h₁, hd, .address hn ha, hok⟩

/-! ## The bytes of a message -/

/-- **Bytes are written**: all of them, or up to one that is not acknowledged. -/
theorem sendLoop_eq (count ptr bytes : Nat) (h : Did ops b b' t) :
    ∃ b'' : Bus, (∃ acks : Nat → Bool, sendLoop ops m count ptr bytes b' = (((bytes + count : Nat) : Int), b'') ∧
        Did ops b b'' (t ++ ((List.range count).map fun k =>
          Item.write (b.mem (ptr + k)) (acks k)).flatMap frame) ∧
        ∀ k < count, acks k = true ∨ m.Has RT_I2C_IGNORE_NACK) ∨
      ∃ k < count, ¬ m.Has RT_I2C_IGNORE_NACK ∧ sendLoop ops m count ptr bytes b' = (0, b'') ∧
        Did ops b b'' (t ++ (((List.range k).map fun k => Item.write (b.mem (ptr + k)) true) ++
          [Item.write (b.mem (ptr + k)) false]).flatMap frame) := by
  induction count generalizing b' t ptr bytes with
  | zero => exact ⟨b', .inl ⟨fun _ => true, rfl, by simpa using h, by simp⟩⟩
  | succ count ih =>
      obtain ⟨b₁, ack, h₁, hd⟩ := i2cWriteb_eq (b'.mem ptr) h
      rw [h.mem] at h₁ hd
      by_cases hgo : ack = true ∨ m.Has RT_I2C_IGNORE_NACK
      · have hstep : sendLoop ops m (count + 1) ptr bytes b' =
            sendLoop ops m count (ptr + 1) (bytes + 1) b₁ := by
          rw [sendLoop, h.mem, h₁]
          refine if_pos ?_
          rcases hgo with rfl | hi
          · exact .inl Int.one_pos
          · cases ack
            · exact .inr ⟨hi, rfl⟩
            · exact .inl Int.one_pos
        rw [hstep]
        obtain ⟨b₂, ⟨acks, h₂, hd₂, ha⟩ | ⟨k, hk, hn, h₂, hd₂⟩⟩ := ih (ptr + 1) (bytes + 1) hd
        · refine ⟨b₂, .inl ⟨fun k => k.casesOn ack acks, ?_, ?_, fun k hk => ?_⟩⟩
          · rw [h₂]
            congr 2
            omega
          · rw [List.range_succ_eq_map, List.map_cons, List.map_map, List.flatMap_cons]
            rw [List.append_assoc] at hd₂
            simpa [Function.comp_def, Nat.add_assoc, Nat.add_comm 1] using hd₂
          · cases k with
            | zero => exact hgo
            | succ k => exact ha k (by omega)
        · refine ⟨b₂, .inr ⟨k + 1, by omega, hn, h₂, ?_⟩⟩
          obtain rfl : ack = true := hgo.resolve_right hn
          rw [List.range_succ_eq_map, List.map_cons, List.map_map, List.cons_append,
            List.flatMap_cons]
          rw [List.append_assoc] at hd₂
          simpa [Function.comp_def, Nat.add_assoc, Nat.add_comm 1] using hd₂
      · obtain ⟨hf, hn⟩ := not_or.mp hgo
        obtain rfl : ack = false := Bool.eq_false_iff.mpr hf
        refine ⟨b₁, .inr ⟨0, Nat.succ_pos _, hn, ?_, by simpa using hd⟩⟩
        rw [sendLoop, h.mem, h₁]
        dsimp only
        rw [if_neg (by simp [hn]), if_pos (by simp)]

theorem stored_succ (mem : Mem) (ptr n : Nat) (d : Byte) (data : Nat → Byte) :
    Mem.stored (Function.update mem ptr d) (ptr + 1) data n =
      mem.stored ptr (fun k => k.casesOn d data) (n + 1) := by
  funext a
  unfold Mem.stored
  by_cases ha : a = ptr
  · subst ha
    rw [if_neg (by omega), if_pos (by omega), Function.update_self, Nat.sub_self]
    rfl
  · by_cases hin : ptr + 1 ≤ a ∧ a < ptr + 1 + n
    · obtain ⟨j, hj⟩ : ∃ j, a = ptr + 1 + j := ⟨a - (ptr + 1), by omega⟩
      rw [if_pos hin, if_pos (by omega), hj, show ptr + 1 + j - ptr = j + 1 by omega,
        Nat.add_sub_cancel_left]
    · rw [if_neg hin, if_neg (by omega), Function.update_of_ne ha]

/-- What is on the lines while bytes are read does not depend on the memory. -/
theorem Did.store (h : Did ops b b' t) (mem : Mem) :
    Did ops { b with mem } { b' with mem } t :=
  ⟨h.trace, rfl, h.quick⟩

/-- **Bytes are read**, and stored one after another. -/
theorem recvLoop_eq (count ptr bytes : Nat) (h : Did ops b b' t) :
    ∃ (b'' : Bus) (data : Nat → Byte),
      recvLoop ops m count ptr bytes b' = (((bytes + count : Nat) : Int), b'') ∧
      Did ops { b with mem := b.mem.stored ptr data count } b''
        (t ++ ((List.range count).map fun k => Item.read (data k)
          (if m.Has RT_I2C_NO_READ_ACK then none
            else some (decide (k + 1 ≠ count)))).flatMap frame) := by
  induction count generalizing b b' t ptr bytes with
  | zero =>
      have hmem : b.mem.stored ptr (fun _ => 0) 0 = b.mem := by
        funext a
        exact if_neg (by omega)
      refine ⟨b', fun _ => 0, rfl, ?_⟩
      rw [hmem]
      simpa using h
  | succ count ih =>
      obtain ⟨b₁, d, h₁, hd⟩ := i2cReadb_eq h
      have hbyte : BitVec.ofInt 8 (d.toNat : Int) = d := by simp
      have hmem : b₁.mem = b.mem := hd.mem
      have hpos : ¬ (d.toNat : Int) < 0 := by omega
      have hst := hd.store (Function.update b.mem ptr d)
      obtain ⟨b₂, h₂, hd₂⟩ : ∃ b₂ : Bus, recvLoop ops m (count + 1) ptr bytes b' =
            recvLoop ops m count (ptr + 1) (bytes + 1) b₂ ∧
          Did ops { b with mem := Function.update b.mem ptr d } b₂
            (t ++ (Item.read d (if m.Has RT_I2C_NO_READ_ACK then none
              else some (decide (count ≠ 0)))).frame) := by
        by_cases hn : m.Has RT_I2C_NO_READ_ACK
        · refine ⟨{ b₁ with mem := Function.update b.mem ptr d }, ?_, ?_⟩
          · rw [recvLoop, h₁]
            dsimp only
            rw [if_neg hpos, if_pos hn, hbyte, hmem]
          · rw [if_pos hn]
            simpa [frame] using hst
        · obtain ⟨b₂, h₂, hd₂⟩ := i2cSendAckOrNack_eq count hst
          refine ⟨b₂, ?_, ?_⟩
          · rw [recvLoop, h₁]
            dsimp only
            rw [if_neg hpos, if_neg hn, hbyte, hmem, h₂]
            exact if_neg (Int.lt_irrefl 0)
          · rw [if_neg hn]
            simpa [frame] using hd₂
      obtain ⟨b₃, data, h₃, hd₃⟩ := ih (ptr + 1) (bytes + 1) hd₂
      refine ⟨b₃, fun k => k.casesOn d data, ?_, ?_⟩
      · rw [h₂, h₃]
        congr 2
        omega
      · rw [← stored_succ, List.range_succ_eq_map, List.map_cons, List.map_map, List.flatMap_cons]
        rw [List.append_assoc] at hd₃
        simpa [Function.comp_def] using hd₃

/-! ## Messages -/

/-- A number of bytes passes through an `rt_size_t`. -/
theorem toInt_size {n : Nat} (h : n < 2 ^ 16) : (BitVec.ofInt 32 (n : Int)).toInt = n := by
  rw [BitVec.toInt_ofInt, Int.bmod_eq_of_le (by omega) (by omega)]

theorem Msg.GivenUp.cases {i : Nat} {mem : Mem} {items : List Item} {ret : Int}
    (h : m.GivenUp retries i mem items ret) : ret = - RT_EIO ∨ ret = -RT_ERROR := by
  cases h with
  | address => exact .inl rfl
  | byte => exact .inr rfl

theorem GivesUp.cons {i : Nat} {msgs : List Msg} {mem mem₁ mem' : Mem} {items items' : List Item}
    {ret : Int} (h : m.Complete retries i mem items mem₁)
    (hg : GivesUp retries (i + 1) msgs mem₁ items' mem' ret) :
    GivesUp retries i (m :: msgs) mem (items ++ items') mem' ret := by
  obtain ⟨pre, m', post, items₁, items₂, rfl, hc, hu, rfl⟩ := hg
  refine ⟨m :: pre, m', post, items ++ items₁, items₂, rfl, .cons h hc, ?_, ?_⟩
  · rw [List.length_cons, Nat.add_comm pre.length, ← Nat.add_assoc]
    exact hu
  · rw [List.append_assoc]

/-- A message whose address is not acknowledged is given up. -/
theorem GivesUp.here {i : Nat} {msgs : List Msg} {mem : Mem} {items : List Item} {ret : Int}
    (h : m.GivenUp retries i mem items ret) : GivesUp retries i (m :: msgs) mem items mem ret :=
  ⟨[], m, msgs, [], items, rfl, .nil, h, rfl⟩

/-- **One message** is transferred, or given up. -/
theorem xferLoop_cons (retries : BitVec 32) (m : Msg) (msgs : List Msg) (i : Nat) (h : Did ops b b' t) :
    ∃ (b'' : Bus) (items : List Item) (mem : Mem),
      Did ops { b with mem } b'' (t ++ items.flatMap frame) ∧
      ((xferLoop ops retries i (m :: msgs) b' = xferLoop ops retries (i + 1) msgs b'' ∧
          m.Complete retries i b.mem items mem) ∨
        ∃ ret, xferLoop ops retries i (m :: msgs) b' = (ret, b'') ∧ mem = b.mem ∧
          m.GivenUp retries i b.mem items ret) := by
  obtain ⟨b₁, items₁, ok, h₁, hd₁, hs, hok⟩ := sendStart_eq m retries i h
  have hlen : m.len.toNat < 2 ^ 16 := m.len.isLt
  cases ok with
  | false =>
      have hn : ¬ m.Has RT_I2C_IGNORE_NACK := fun hi => by cases hok hi
      refine ⟨b₁, items₁, b.mem, hd₁, .inr ⟨- RT_EIO, ?_, rfl, .address hs⟩⟩
      rw [xferLoop, h₁]
      have hne : - RT_EIO ≠ RT_EOK := by decide
      exact if_pos ⟨hne, hn⟩
  | true =>
      have hgo : ∀ {x y : Int × Bus},
          (if RT_EOK ≠ RT_EOK ∧ ¬ m.Has RT_I2C_IGNORE_NACK then x else y) = y :=
        if_neg fun hc => hc.1 rfl
      by_cases hrd : m.Has RT_I2C_RD
      · obtain ⟨b₂, data, h₂, hd₂⟩ := recvLoop_eq (m := m) m.len.toNat m.buf 0 hd₁
        rw [flatMap_frame_append] at hd₂
        refine ⟨b₂, _, _, hd₂, .inl ⟨?_, .read data hs hrd⟩⟩
        rw [xferLoop, h₁]
        dsimp only
        rw [if_pos rfl, hgo, if_pos hrd, i2cRecvBytes, h₂, Nat.zero_add]
        dsimp only
        rw [toInt_size hlen, if_neg (Int.lt_irrefl _)]
      · obtain ⟨b₂, ⟨acks, h₂, hd₂, ha⟩ | ⟨k, hk, hn, h₂, hd₂⟩⟩ :=
          sendLoop_eq (m := m) m.len.toNat m.buf 0 hd₁
        · rw [flatMap_frame_append] at hd₂
          refine ⟨b₂, _, b.mem, hd₂, .inl ⟨?_, .write acks hs hrd ha⟩⟩
          rw [xferLoop, h₁]
          dsimp only
          rw [if_pos rfl, hgo, if_neg hrd, i2cSendBytes, h₂, Nat.zero_add]
          dsimp only
          rw [toInt_size hlen, if_neg (Int.lt_irrefl _)]
        · rw [flatMap_frame_append] at hd₂
          refine ⟨b₂, _, b.mem, hd₂, .inr ⟨-RT_ERROR, ?_, rfl, .byte hs hrd hk hn⟩⟩
          have hzero : (BitVec.ofInt 32 0).toInt = 0 := rfl
          rw [xferLoop, h₁]
          dsimp only
          rw [if_pos rfl, hgo, if_neg hrd, i2cSendBytes, h₂]
          dsimp only
          rw [hzero, if_pos (by omega), if_pos (le_refl 0)]

/-- **The loop over the messages**, by induction on what is left. -/
theorem xferLoop_eq (retries : BitVec 32) (msgs : List Msg) (i : Nat) (h : Did ops b b' t) :
    ∃ (b'' : Bus) (items : List Item) (mem : Mem) (ret : Int),
      xferLoop ops retries i msgs b' = (ret, b'') ∧
      Did ops { b with mem } b'' (t ++ items.flatMap frame) ∧
      ((ret = ((i + msgs.length : Nat) : Int) ∧ Completes retries i msgs b.mem items mem) ∨
        ((ret = - RT_EIO ∨ ret = -RT_ERROR) ∧ GivesUp retries i msgs b.mem items mem ret)) := by
  induction msgs generalizing b b' t i with
  | nil => exact ⟨b', [], b.mem, i, rfl, by simpa using h, .inl ⟨rfl, .nil⟩⟩
  | cons m msgs ih =>
      obtain ⟨b₁, items₁, mem₁, hd₁, ⟨h₁, hc⟩ | ⟨ret, h₁, rfl, hu⟩⟩ :=
        xferLoop_cons retries m msgs i h
      · obtain ⟨b₂, items₂, mem₂, ret, h₂, hd₂, hr⟩ := ih (i + 1) hd₁
        rw [flatMap_frame_append] at hd₂
        refine ⟨b₂, _, mem₂, ret, h₁.trans h₂, hd₂, ?_⟩
        rcases hr with ⟨hret, hcs⟩ | ⟨hret, hg⟩
        · refine .inl ⟨?_, .cons hc hcs⟩
          rw [hret, List.length_cons]
          congr 1
          omega
        · exact .inr ⟨hret, hg.cons hc⟩
      · exact ⟨b₁, items₁, b.mem, ret, h₁, hd₁, .inr ⟨hu.cases, .here hu⟩⟩

/-- **A transfer on the I2C bus.** The lines, released before, show one transaction: a start, the items
of the messages, and a stop, with which both lines are released. Either the result is the number of
messages, and all messages were transferred completely, or it is negative, and one of them was given up. -/
theorem i2cBitXfer_spec (ops : Ops) (retries : BitVec 32) (msgs : List Msg) {ret : BitVec 32} (hq : b.Quick ops)
    (h : i2cBitXfer ops retries msgs b = (ret, b')) :
    ∃ (items : List Item) (t : List LineEvent), b'.trace = b.trace ++ (t ++ [.sda true]) ∧
      (run Lines.step Lines.idle (t ++ [.sda true])).2 =
        [.start] ++ items.flatMap symbols ++ [.stop] ∧
      (run Lines.step Lines.idle (t ++ [.sda true])).1.sda = true ∧
      (run Lines.step Lines.idle (t ++ [.sda true])).1.scl = true ∧
      ((ret = BitVec.ofNat 32 msgs.length ∧ Completes retries 0 msgs b.mem items b'.mem) ∨
        ((ret.toInt = - RT_EIO ∨ ret.toInt = -RT_ERROR) ∧
          GivesUp retries 0 msgs b.mem items b'.mem ret.toInt)) := by
  obtain ⟨b₁, items, mem, r, h₁, hd, hr⟩ :=
    xferLoop_eq retries msgs 0 (i2cStart_eq (Did.refl hq))
  have hstop := i2cStop_eq hd
  rw [i2cBitXfer, h₁] at h
  obtain ⟨rfl, rfl⟩ := Prod.mk.inj h
  have hmem : (i2cStop ops b₁).mem = mem := hstop.mem
  have hlast : stopFrame = [.sda false, .scl true] ++ [LineEvent.sda true] := rfl
  have hrun := run_transaction items
  rw [hlast, ← List.append_assoc] at hrun
  refine ⟨items, _, ?_, hrun.1, hrun.2.1, hrun.2.2, ?_⟩
  · rw [hstop.trace, List.nil_append, hlast, ← List.append_assoc (startFrame ++ _)]
  · rw [hmem]
    rcases hr with ⟨hret, hc⟩ | ⟨hret, hg⟩
    · refine .inl ⟨?_, hc⟩
      rw [hret, Nat.zero_add]
      exact BitVec.ofInt_natCast ..
    · have hint : (BitVec.ofInt 32 r).toInt = r := by
        rcases hret with rfl | rfl
        · rfl
        · rfl
      dsimp only
      rw [hint]
      exact .inr ⟨hret, hg⟩

/-! ## A byte for a slave that acknowledges -/

def plainOps : Ops := ⟨false, 100⟩

def ackingBus : Bus := ⟨[], fun _ => false, fun _ => 0, fun _ => 0, fun _ => 0xa5#8⟩

def oneByte : Msg := ⟨0x0050#16, 0#16, 1#16, 0⟩

/-- The byte is transferred: its bits are the symbols behind those of the address. -/
theorem i2cBitXfer_spec_oneByte : (i2cBitXfer plainOps 0#32 [oneByte] ackingBus).1 = 1#32 ∧
    ∃ items : List Item,
      (run Lines.step Lines.idle (i2cBitXfer plainOps 0#32 [oneByte] ackingBus).2.trace).2 =
        [.start] ++ items.flatMap symbols ++ [.stop] := by
  have hret : (i2cBitXfer plainOps 0#32 [oneByte] ackingBus).1 = 1#32 := by rfl
  have hquick : ackingBus.Quick plainOps := fun _ => Nat.zero_le _
  obtain ⟨items, t, ht, hsym, -⟩ := i2cBitXfer_spec plainOps 0#32 [oneByte] hquick rfl
  have htrace : (i2cBitXfer plainOps 0#32 [oneByte] ackingBus).2.trace = t ++ [.sda true] := ht
  refine ⟨hret, items, ?_⟩
  rw [htrace]
  exact hsym

end RTThread.I2c
