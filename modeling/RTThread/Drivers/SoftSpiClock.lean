import RTThread.Drivers.SoftSpiTransfer

set_option autoImplicit false

/-! # The clock of the bus

All edges of SCLK are toggles, so its level is the parity of what was toggled since it was set. A frame of
a bit has two toggles and keeps it; the toggle in front of a word, for clock phase one, is not taken back.
-/

namespace RTThread.Spi

/-- The level of SCLK after the events, from the level at the start. -/
def sclkLevel : Bool → Trace → Bool
  | level, [] => level
  | level, .toggle :: t => sclkLevel (!level) t
  | _, .sclk b :: t => sclkLevel b t
  | level, .mosi _ :: t => sclkLevel level t
  | level, .miso _ :: t => sclkLevel level t
  | level, .cs _ :: t => sclkLevel level t

/-- The number of edges. -/
def toggles (t : Trace) : Nat := t.count .toggle

theorem sclkLevel_append (level : Bool) (t u : Trace) :
    sclkLevel level (t ++ u) = sclkLevel (sclkLevel level t) u := by
  induction t generalizing level with
  | nil => rfl
  | cons e t ih => cases e <;> exact ih _

theorem toggles_append (t u : Trace) : toggles (t ++ u) = toggles t + toggles u :=
  List.count_append

theorem toggles_flatMap {α : Type} {l : List α} {f : α → Trace} {n : Nat}
    (h : ∀ a ∈ l, toggles (f a) = n) : toggles (l.flatMap f) = l.length * n := by
  induction l with
  | nil => rw [List.length_nil, Nat.zero_mul]; rfl
  | cons a l ih =>
    rw [List.flatMap_cons, toggles_append, h a List.mem_cons_self,
      ih fun b hb => h b (List.mem_cons_of_mem _ hb), List.length_cons, Nat.succ_mul, Nat.add_comm]

/-- The edges of a transfer: two for each bit, and one for each word in the other clock phase. -/
theorem toggles_transferFrame (cpha : Bool) (byte : Nat → Byte) (miso : Nat → Bool) (n len : Nat) :
    toggles (transferFrame cpha byte miso n len) = len * ((if cpha then 1 else 0) + n * 16) := by
  rw [transferFrame, toggles_flatMap (n := (if cpha then 1 else 0) + n * 16), List.length_range]
  intro i _
  have hbytes : toggles (bytesFrame byte miso (i * n) n) = n * 16 := by
    rw [bytesFrame, toggles_flatMap (n := 16), List.length_range]
    intro j _
    rw [byteFrame, toggles_flatMap (n := 2), List.length_range]
    intro k _
    rfl
  rw [wordFrame, toggles_append, hbytes]
  cases cpha <;> rfl

/-! ## What is kept -/

/-- The events lead back to the level `idle`, and samples are only taken at the level `at`. -/
structure Kept (idle sampled : Bool) (t : Trace) : Prop where
  level : sclkLevel idle t = idle
  sample : ∀ u v w, t = u ++ .miso v :: w → sclkLevel idle u = sampled

namespace Kept

variable {idle sampled : Bool} {t u : Trace}

theorem nil (idle sampled : Bool) : Kept idle sampled [] :=
  ⟨rfl, fun u v w h => by simp at h⟩

theorem append (ht : Kept idle sampled t) (hu : Kept idle sampled u) : Kept idle sampled (t ++ u) := by
  refine ⟨by rw [sclkLevel_append, ht.level, hu.level], fun x v w h => ?_⟩
  rcases List.append_eq_append_iff.mp h with ⟨y, rfl, hy⟩ | ⟨y, rfl, hy⟩
  · rw [sclkLevel_append, ht.level]
    exact hu.sample y v w hy
  · cases y with
    | nil =>
      have h₁ : idle = sampled := hu.sample [] v w hy.symm
      have h₂ := ht.level
      rw [List.append_nil] at h₂
      exact h₂.trans h₁
    | cons e y =>
      have he : e = .miso v := (List.cons.inj hy).1.symm
      exact ht.sample x v y (by rw [he])

theorem flatMap {α : Type} {l : List α} {f : α → Trace} (h : ∀ a ∈ l, Kept idle sampled (f a)) :
    Kept idle sampled (l.flatMap f) := by
  induction l with
  | nil => exact nil idle sampled
  | cons a l ih =>
    rw [List.flatMap_cons]
    exact (h a List.mem_cons_self).append (ih fun b hb => h b (List.mem_cons_of_mem _ hb))

/-- A frame of a bit: the sample stands behind the first of its two edges. -/
theorem bitFrame (idle b v : Bool) : Kept idle (!idle) (bitFrame b v) := by
  refine ⟨Bool.not_not idle, fun u v' w h => ?_⟩
  rcases u with _ | ⟨e₁, _ | ⟨e₂, _ | ⟨e₃, _ | ⟨e₄, u⟩⟩⟩⟩
  · simp [Spi.bitFrame] at h
  · simp [Spi.bitFrame] at h
  · obtain ⟨rfl, rfl, -⟩ : .mosi b = e₁ ∧ .toggle = e₂ ∧ _ := by simpa [Spi.bitFrame] using h
    rfl
  · simp [Spi.bitFrame] at h
  · simp [Spi.bitFrame] at h

/-- With clock phase zero a transfer keeps the clock. -/
theorem transferFrame (idle : Bool) (byte : Nat → Byte) (miso : Nat → Bool) (n len : Nat) :
    Kept idle (!idle) (transferFrame false byte miso n len) := by
  apply flatMap
  intro i _
  apply (nil idle (!idle)).append
  apply flatMap
  intro j _
  apply flatMap
  intro k _
  exact bitFrame idle _ _

theorem cs (idle sampled level : Bool) : Kept idle sampled [.cs level] := by
  refine ⟨rfl, fun u v w h => ?_⟩
  rcases u with _ | ⟨e, u⟩
  · simp at h
  · simp at h

end Kept

/-! ## Messages -/

/-- The events of a message: those of its transfer, between the levels of the chip select. -/
theorem spixfer_trace (spi : SoftSpi) (m : Message) (pins : Pins) : ∃ byte miso u v,
    (spixfer spi m pins).2.1.trace =
      pins.trace ++ (u ++ (transferFrame spi.cpha byte miso spi.wordBytes m.length ++ v)) ∧
    toggles u = 0 ∧ toggles v = 0 ∧ (∀ idle sampled, Kept idle sampled u) ∧
    ∀ idle sampled, Kept idle sampled v := by
  have hmessage : ∀ p : Pins, ∃ byte miso,
      (if m.length ≠ 0 then transferMessage spi p m.sendBuf m.recvBuf m.length
        else (p, m.sendBuf, m.recvBuf)).1.trace =
      p.trace ++ transferFrame spi.cpha byte miso spi.wordBytes m.length := by
    intro p
    by_cases h : m.length ≠ 0
    · rw [if_pos h]
      have hbuffer := m.buffer.resolve_left h
      cases hs : m.sendBuf with
      | some send =>
        cases hr : m.recvBuf with
        | some recv => exact ⟨send, p.miso, readWrite_trace spi p send recv m.length⟩
        | none => exact ⟨send, p.miso, write_trace spi p send m.length⟩
      | none =>
        cases hr : m.recvBuf with
        | some recv =>
          obtain ⟨byte, hbyte⟩ := read_trace spi p (memsetFf recv m.length) m.length
          exact ⟨byte, p.miso, hbyte⟩
        | none =>
          rw [hs, hr] at hbuffer
          simp at hbuffer
    · have hzero : m.length = 0 := not_not.mp h
      refine ⟨fun _ => 0, p.miso, ?_⟩
      rw [if_neg h, hzero]
      exact (List.append_nil _).symm
  have hcs : ∀ (c level : Bool), ∃ u : Trace,
      (∀ p : Pins, (if c then p.emit (.cs level) else p).trace = p.trace ++ u) ∧ toggles u = 0 ∧
        ∀ idle sampled, Kept idle sampled u := by
    intro c level
    cases c
    · exact ⟨[], fun p => (List.append_nil _).symm, rfl, Kept.nil⟩
    · exact ⟨[.cs level], fun p => rfl, rfl, fun idle sampled => Kept.cs idle sampled level⟩
  obtain ⟨u, hu, hu₀, huk⟩ := hcs m.csTake false
  obtain ⟨v, hv, hv₀, hvk⟩ := hcs m.csRelease true
  obtain ⟨byte, miso, hbyte⟩ := hmessage (if m.csTake then pins.emit (.cs false) else pins)
  refine ⟨byte, miso, u, v, ?_, hu₀, hv₀, huk, hvk⟩
  rw [spixfer]
  dsimp only
  rw [hv, hbyte, hu, List.append_assoc, List.append_assoc]

/-- The messages, one after the other. -/
def runMessages (spi : SoftSpi) (pins : Pins) (ms : List Message) : Pins :=
  ms.foldl (fun p m => (spixfer spi m p).2.1) pins

/-- **The clock is kept**: before and after every message SCLK is at its idle level, a message has two
edges for each bit of each word, and every sample is taken behind an edge of the same polarity: at the
level other than the idle one for clock phase zero, and at the idle level for clock phase one. -/
def ClockKept (spi : SoftSpi) (pins : Pins) (ms : List Message) : Prop :=
  ∀ done rest, ms = done ++ rest →
    sclkLevel false (runMessages spi pins done).trace = spi.cpol ∧
    (∀ m rest', rest = m :: rest' → toggles (runMessages spi pins (done ++ [m])).trace =
      toggles (runMessages spi pins done).trace + 2 * spi.dataWidth * m.length) ∧
    ∀ u v w, (runMessages spi pins done).trace = u ++ .miso v :: w →
      sclkLevel false u = if spi.cpha then spi.cpol else !spi.cpol

section Main

variable {spi spi' : SoftSpi} {cfg : Configuration} {pins : Pins} {miso : Nat → Bool}

/-- What the configuration sets up. -/
theorem stm32SpiInit_some {p : Pins} (h : stm32SpiInit spi cfg p = some (spi', pins)) :
    (spi'.dataWidth = 8 ∨ spi'.dataWidth = 16) ∧
      (spi'.cpha = false ↔ cfg.mode &&& RT_SPI_CPHA = 0) ∧
      pins.trace = p.trace ++ [.mosi false, .sclk spi'.cpol] := by
  unfold stm32SpiInit at h
  by_cases h₁ : cfg.mode &&& RT_SPI_SLAVE ≠ 0
  · rw [if_pos h₁] at h
    cases h
  by_cases h₂ : cfg.mode &&& RT_SPI_3WIRE ≠ 0
  · rw [if_neg h₁, if_pos h₂] at h
    cases h
  by_cases h₃ : cfg.dataWidth = 8 ∨ cfg.dataWidth = 16
  · rw [if_neg h₁, if_neg h₂, if_pos h₃] at h
    cases h
    refine ⟨h₃, ?_, ?_⟩
    · simp
    · simp [Pins.emit]
  · rw [if_neg h₁, if_neg h₂, if_neg h₃] at h
    cases h

theorem width_eq (hw : spi.dataWidth = 8 ∨ spi.dataWidth = 16) :
    2 * spi.dataWidth = spi.wordBytes * 16 := by
  unfold SoftSpi.wordBytes
  rcases hw with h | h
  · rw [h]
    rfl
  · rw [h]
    rfl

theorem toggles_spixfer (hw : spi.dataWidth = 8 ∨ spi.dataWidth = 16) (m : Message) (p : Pins) :
    toggles (spixfer spi m p).2.1.trace =
      toggles p.trace + m.length * ((if spi.cpha then 1 else 0) + 2 * spi.dataWidth) := by
  obtain ⟨byte, miso, u, v, htrace, hu, hv, -⟩ := spixfer_trace spi m p
  rw [htrace, toggles_append, toggles_append, toggles_append, hu, hv, toggles_transferFrame, width_eq hw]
  omega

/-- With clock phase zero, or without words, a message keeps the clock. -/
theorem Kept.message {m : Message} (h : spi.cpha = false ∨ m.length = 0) (p : Pins) (idle : Bool) :
    ∃ t, (spixfer spi m p).2.1.trace = p.trace ++ t ∧
      Kept idle (if spi.cpha then idle else !idle) t := by
  obtain ⟨byte, miso, u, v, htrace, -, -, hu, hv⟩ := spixfer_trace spi m p
  refine ⟨_, htrace, (hu _ _).append (Kept.append ?_ (hv _ _))⟩
  rcases h with h | h
  · rw [h]
    exact Kept.transferFrame idle byte miso spi.wordBytes m.length
  · rw [h]
    exact Kept.nil _ _

theorem Kept.messages {ms : List Message} (h : ∀ m ∈ ms, spi.cpha = false ∨ m.length = 0)
    (p : Pins) (idle : Bool) : ∃ t, (runMessages spi p ms).trace = p.trace ++ t ∧
      Kept idle (if spi.cpha then idle else !idle) t := by
  induction ms generalizing p with
  | nil => exact ⟨[], (List.append_nil _).symm, Kept.nil _ _⟩
  | cons m ms ih =>
    obtain ⟨t, ht, hk⟩ := Kept.message (h m List.mem_cons_self) p idle
    obtain ⟨u, hu, hk'⟩ := ih (fun m' hm' => h m' (List.mem_cons_of_mem _ hm')) (spixfer spi m p).2.1
    refine ⟨t ++ u, ?_, hk.append hk'⟩
    have hrun : runMessages spi p (m :: ms) = runMessages spi (spixfer spi m p).2.1 ms := rfl
    rw [hrun, hu, ht, List.append_assoc]

/-- **The clock is kept** over every sequence of messages exactly when the clock phase is zero or no
message has a word. -/
theorem clock_kept_iff (h : stm32SpiInit spi cfg ⟨[], miso⟩ = some (spi', pins)) (ms : List Message) :
    ClockKept spi' pins ms ↔ cfg.mode &&& RT_SPI_CPHA = 0 ∨ ∀ m ∈ ms, m.length = 0 := by
  obtain ⟨hw, hcpha, htrace⟩ := stm32SpiInit_some h
  rw [← hcpha]
  constructor
  · intro hk
    by_contra hcon
    rw [not_or] at hcon
    obtain ⟨hphase, hwords⟩ := hcon
    -- a message with a word has an edge too many for each of its words
    obtain ⟨m, hm, hlen⟩ : ∃ m ∈ ms, m.length ≠ 0 := by
      by_contra hno
      apply hwords
      intro m hm
      by_contra hlen
      exact hno ⟨m, hm, hlen⟩
    obtain ⟨done, rest, rfl⟩ := List.append_of_mem hm
    have hcount := (hk done (m :: rest) rfl).2.1 m rest rfl
    have hrun : runMessages spi' pins (done ++ [m]) =
        (spixfer spi' m (runMessages spi' pins done)).2.1 := List.foldl_concat ..
    rw [hrun, toggles_spixfer hw, if_pos (by simpa using hphase), Nat.mul_add, Nat.mul_one,
      Nat.mul_comm m.length] at hcount
    omega
  · rintro hcond done rest rfl
    have hall : ∀ m ∈ done ++ rest, spi'.cpha = false ∨ m.length = 0 := by
      intro m hm
      exact hcond.imp id fun hlen => hlen m hm
    obtain ⟨t, ht, hk⟩ := Kept.messages
      (fun m hm => hall m (List.mem_append_left _ hm)) pins spi'.cpol
    have hstart : ∀ u, sclkLevel false (pins.trace ++ u) = sclkLevel spi'.cpol u := by
      intro u
      rw [htrace]
      rfl
    refine ⟨?_, ?_, ?_⟩
    · rw [ht, hstart, hk.level]
    · rintro m rest' rfl
      have hrun : runMessages spi' pins (done ++ [m]) =
          (spixfer spi' m (runMessages spi' pins done)).2.1 := List.foldl_concat ..
      rw [hrun, toggles_spixfer hw]
      rcases hall m (by simp) with hc | hc
      · rw [if_neg (by simp [hc]), Nat.zero_add, Nat.mul_comm m.length]
      · rw [hc, Nat.zero_mul, Nat.mul_zero]
    · intro u v w hu
      rw [ht, htrace] at hu
      -- the events of the configuration hold no sample
      obtain ⟨u', rfl⟩ : ∃ u', u = [.mosi false, .sclk spi'.cpol] ++ u' := by
        rcases u with _ | ⟨e₁, _ | ⟨e₂, u⟩⟩
        · simp at hu
        · simp at hu
        · refine ⟨u, ?_⟩
          obtain ⟨rfl, rfl, -⟩ : .mosi false = e₁ ∧ .sclk spi'.cpol = e₂ ∧ True := by
            simp at hu
            exact ⟨hu.1, hu.2.1, trivial⟩
          rfl
      have hsample := hk.sample u' v w (by simpa using hu)
      exact hsample

end Main

section Cases

/-- One word of eight bits is written. -/
def oneWord : Message := ⟨some fun _ => 0, none, 1, true, true, Or.inr (Or.inl rfl)⟩

def mode (m : Nat) : Configuration := ⟨m, 8⟩

/-- A bus in mode 2. -/
theorem clock_kept_mode_two : ∃ spi pins,
    stm32SpiInit ⟨false, false, 8, false, 0⟩ (mode 2) ⟨[], fun _ => true⟩ = some (spi, pins) ∧
      ClockKept spi pins [oneWord, oneWord] := by
  have hinit : stm32SpiInit ⟨false, false, 8, false, 0⟩ (mode 2) ⟨[], fun _ => true⟩ =
      some (⟨false, true, 8, false, 0⟩, ⟨[.mosi false, .sclk true], fun _ => true⟩) := rfl
  exact ⟨_, _, hinit, (clock_kept_iff hinit [oneWord, oneWord]).mpr (Or.inl (by decide))⟩

/-- In mode 1, SCLK is high after a word of eight bits. -/
theorem clock_inverted : ∃ spi pins,
    stm32SpiInit ⟨false, false, 8, false, 0⟩ (mode 1) ⟨[], fun _ => true⟩ = some (spi, pins) ∧
      ¬ ClockKept spi pins [oneWord] := by
  refine ⟨_, _, rfl, fun h => ?_⟩
  have hlevel := (h [oneWord] [] rfl).1
  exact absurd hlevel (by decide)

end Cases

end RTThread.Spi
