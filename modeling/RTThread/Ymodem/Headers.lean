import RTThread.Ymodem.Chunks

set_option autoImplicit false

/-! # The packet with a file's name (`ymodem.c`)

`_rym_do_handshake` reads the first packet, and `_rym_do_fin` that of the next file. The first one reads
while 100 ms are not over, by ticks that are compared as they are; the second one reads as many bytes as a
short packet has and hands over as many as the packet should have.
-/

namespace RTThread.Ymodem

/-! ## The code -/

/-- The loop of `_rym_do_handshake` over `i`, with `n` rounds to go. -/
def handshakeLoopOn : Nat → RecvCtx → Device → Option Nat × RecvCtx × Device
  | 0, ctx, d => (none, ctx, d)
  | n + 1, ctx, d =>
      let r := readCode ctx d
      if r.1 = RYM_CODE_SOH then (some RYM_SOH_PKG_SZ, r.2)
      else if r.1 = RYM_CODE_STX then (some RYM_STX_PKG_SZ, r.2)
      else handshakeLoopOn n r.2.1 r.2.2

/-- The loop of `_rym_do_handshake` that receives all data. -/
def handshakeDataOn (limit : UInt32) (dataSz : Nat) :
    List UInt32 → Nat → RecvCtx → Device → Nat × RecvCtx × Device
  | [], i, ctx, d => (i, ctx, d)
  | now :: readings, i, ctx, d =>
      if now ≤ limit ∧ i < dataSz - 1 then
        let r := readData ctx (dataSz - 1) d
        handshakeDataOn limit dataSz readings (i + r.1) r.2.1 r.2.2
      else (i, ctx, d)

/-- The rest of `_rym_do_handshake`, for `i` bytes that were read. -/
def handshakeCheck (cb : RecvCallbacks) (dataSz i : Nat) (ctx : RecvCtx) : RymErr × RecvCtx :=
  if i ≠ dataSz - 1 then (.dsz, ctx)
  else if ctx.at_ 1 ≠ 0 ∨ ctx.at_ 2 ≠ 0xFF then (.seq, ctx)
  else if ctx.recvCrc (dataSz - 2) ≠ CRC16 (ctx.payload (dataSz - 5)) then (.crc, ctx)
  else callBegin cb ctx (dataSz - 5)

/-- `_rym_do_handshake(ctx, tm_sec)` -/
def rymDoHandshakeOn (cb : RecvCallbacks) (clock : Clock) (tmSec : Nat) (ctx : RecvCtx) (d : Device) :
    RymErr × RecvCtx × Device :=
  let r := handshakeLoopOn tmSec { ctx with stage := .establishing } d
  match r.1 with
  | none => (.tmo, r.2)
  | some dataSz =>
      let r := handshakeDataOn (clock.tick + clock.ms100) dataSz (clock.now :: clock.later) 0 r.2.1 r.2.2
      let checked := handshakeCheck cb dataSz r.1 r.2.1
      (checked.1, checked.2, r.2.2)

/-- The rest of `_rym_do_fin`, for `i` bytes that were read of a packet of this size. -/
def finCheck (cb : RecvCallbacks) (dataSz i : Nat) (ctx : RecvCtx) : RymErr × RecvCtx :=
  if i ≠ RYM_SOH_PKG_SZ - 1 then (.dsz, ctx)
  else if ctx.at_ 1 ≠ 0 ∨ ctx.at_ 2 ≠ 0xFF then (.seq, ctx)
  else if ctx.recvCrc (RYM_SOH_PKG_SZ - 2) ≠ CRC16 (ctx.payload (RYM_SOH_PKG_SZ - 5)) then (.crc, ctx)
  -- next file transmission
  else if ctx.at_ 3 ≠ 0 then callBegin cb ctx (dataSz - 5)
  else (.eok, { ctx with stage := .finished })

/-- `_rym_do_fin`, behind the code of the packet. -/
def finPacket (cb : RecvCallbacks) (dataSz : Nat) (ctx : RecvCtx) (d : Device) : RymErr × RecvCtx × Device :=
  let r := readData ctx (RYM_SOH_PKG_SZ - 1) d
  let checked := finCheck cb dataSz r.1 r.2.1
  (checked.1, checked.2, r.2.2)

/-- The context in which `_rym_do_fin` starts to read. -/
def finStart (cb : RecvCallbacks) (ctx : RecvCtx) : RecvCtx where
  stage := .finishing
  buf := ctx.buf
  log := if cb.onEnd then ctx.log ++ [.onEnd (ctx.payload 128)] else ctx.log

/-- `_rym_do_fin(ctx)` -/
def rymDoFinOn (cb : RecvCallbacks) (ctx : RecvCtx) (d : Device) : RymErr × RecvCtx × Device :=
  let r := readCode (finStart cb ctx) d
  if r.1 ≠ RYM_CODE_EOT then (.code, r.2)
  else
    let r := readCode r.2.1 r.2.2
    if r.1 = RYM_CODE_SOH then finPacket cb RYM_SOH_PKG_SZ r.2.1 r.2.2
    else if r.1 = RYM_CODE_STX then finPacket cb RYM_STX_PKG_SZ r.2.1 r.2.2
    else (.code, r.2)

/-! ## Header packets -/

/-- A packet with the number 0 and the right checksum. -/
structure HeaderPacket where
  data : List UInt8
  hi : UInt8
  lo : UInt8
  size : data.length = 128 ∨ data.length = 1024
  crc : hi.toUInt16 <<< 8 ||| lo.toUInt16 = CRC16 data

namespace HeaderPacket

def code (p : HeaderPacket) : RymCode := if p.data.length = 128 then RYM_CODE_SOH else RYM_CODE_STX

/-- What comes behind the code. -/
def tail (p : HeaderPacket) : List UInt8 := 0 :: 0xFF :: (p.data ++ [p.hi, p.lo])

def bytes (p : HeaderPacket) : List UInt8 := p.code :: p.tail

end HeaderPacket

/-- The bytes come in chunks, after as many waiting times in which nothing comes. -/
structure Comes (d : Device) (waits : Nat) (bytes : List UInt8) : Prop where
  fifo : d.fifo = []
  coming : ∃ chunks : List (List UInt8), d.coming = List.replicate waits none ++ chunks.map some ∧ chunks.flatten = bytes

/-- All of the packet was read, and `on_begin` was called with its payload. -/
structure Begins (f : List RymCall → List UInt8 → RymCode) (log : List RymCall) (p : HeaderPacket)
    (r : RymErr × RecvCtx × Device) : Prop where
  calls : r.2.1.log = log ++ [.onBegin p.data]
  stream : r.2.2.stream = []
  err : r.1 = if f log p.data = RYM_CODE_ACK then .eok else .can

/-- A first reading of the clock that is not taken for a later time than 100 ms after `tick`. -/
def Clock.InTime (clock : Clock) : Prop := clock.now ≤ clock.tick + clock.ms100

section

variable {cb : RecvCallbacks} {f : List RymCall → List UInt8 → RymCode} {clock : Clock} {p : HeaderPacket}
  {ctx : RecvCtx} {d : Device} {waits tmSec : Nat} {bytes : List UInt8}

theorem HeaderPacket.length_tail (p : HeaderPacket) : p.tail.length = p.data.length + 4 := by
  simp [HeaderPacket.tail]

theorem Comes.flowing (h : Comes d 0 bytes) : d.Flowing ∧ d.stream = bytes := by
  obtain ⟨chunks, hcoming, hbytes⟩ := h.coming
  rw [List.replicate_zero, List.nil_append] at hcoming
  constructor
  · intro x hx
    rw [hcoming] at hx
    obtain ⟨chunk, -, rfl⟩ := List.mem_map.mp hx
    exact Option.some_ne_none chunk
  · unfold Device.stream
    rw [h.fifo, hcoming, List.map_map, ← hbytes, List.nil_append]
    exact congrArg List.flatten (List.map_id _)

/-- A round in which nothing comes. -/
theorem Comes.wait (h : Comes d (waits + 1) bytes) (ctx : RecvCtx) :
    ∃ d', readCode ctx d = (RYM_CODE_NONE, ctx, d') ∧ Comes d' waits bytes := by
  obtain ⟨chunks, hcoming, hbytes⟩ := h.coming
  rw [List.replicate_succ, List.cons_append] at hcoming
  obtain ⟨d', hread, hfifo, hrest⟩ := readCode_quiet ctx ⟨h.fifo, hcoming⟩
  exact ⟨d', hread, hfifo, chunks, hrest, hbytes⟩

theorem code_cases (p : HeaderPacket) : (p.code = RYM_CODE_SOH ∧ p.data.length + 5 = RYM_SOH_PKG_SZ) ∨
    (p.code = RYM_CODE_STX ∧ p.data.length + 5 = RYM_STX_PKG_SZ) := by
  unfold HeaderPacket.code
  obtain hsize | hsize := p.size
  · rw [if_pos hsize, hsize]
    exact .inl ⟨rfl, rfl⟩
  · rw [if_neg (by omega), hsize]
    exact .inr ⟨rfl, rfl⟩

/-- The code of the packet comes in a round of the loop. -/
theorem handshakeLoopOn_spec (h : Comes d waits p.bytes) (hw : waits < tmSec) (ctx : RecvCtx) :
    ∃ d', handshakeLoopOn tmSec ctx d = (some (p.data.length + 5), ctx.store 0 [p.code], d') ∧
      d'.Flowing ∧ d'.stream = p.tail := by
  obtain ⟨n, rfl⟩ := Nat.exists_eq_succ_of_ne_zero (Nat.ne_zero_of_lt hw)
  induction waits generalizing d n with
  | zero =>
      obtain ⟨hflowing, hstream⟩ := h.flowing
      obtain ⟨d', hread, hflowing', hstream'⟩ := readCode_spec ctx hflowing hstream
      refine ⟨d', ?_, hflowing', hstream'⟩
      unfold handshakeLoopOn
      rw [hread]
      dsimp only
      obtain ⟨hcode, hlen⟩ | ⟨hcode, hlen⟩ := code_cases p
      · rw [if_pos hcode, hlen]
      · rw [hcode, if_neg (by decide), if_pos rfl, hlen]
  | succ waits ih =>
      obtain ⟨d', hread, h'⟩ := h.wait ctx
      obtain ⟨m, rfl⟩ := Nat.exists_eq_succ_of_ne_zero (Nat.ne_zero_of_lt (Nat.lt_of_succ_lt_succ hw))
      obtain ⟨d'', hloop, hd''⟩ := ih h' m (Nat.lt_of_succ_lt_succ hw)
      refine ⟨d'', ?_, hd''⟩
      unfold handshakeLoopOn
      rw [hread]
      exact hloop

/-- The rest of the packet is read at once. -/
theorem readData_tail (hflowing : d.Flowing) (hstream : d.stream = p.tail) (ctx : RecvCtx) :
    ∃ d', readData ctx (p.data.length + 4) d = (p.data.length + 4, ctx.store 1 p.tail, d') ∧
      d'.stream = [] := by
  obtain ⟨hgot, hrest⟩ := readDataLoop_spec (p.data.length + 4) [] d hflowing
  rw [hstream, List.nil_append, List.length_nil, Nat.sub_zero, ← p.length_tail, List.take_length] at hgot
  rw [hstream, List.length_nil, Nat.sub_zero, ← p.length_tail, List.drop_length] at hrest
  refine ⟨_, ?_, hrest⟩
  unfold readData
  rw [← p.length_tail, hgot]

/-- The packet in the buffer. -/
structure Buffered (p : HeaderPacket) (ctx : RecvCtx) : Prop where
  number : ctx.at_ 1 = 0
  inverse : ctx.at_ 2 = 0xFF
  payload : ctx.payload p.data.length = p.data
  crc : ctx.recvCrc (p.data.length + 3) = CRC16 p.data
  first : ctx.at_ 3 = p.data.getD 0 0

theorem buffered_store (hbuf : ctx.buf.length = RYM_STX_PKG_SZ) : Buffered p (ctx.store 1 p.tail) := by
  have hlen := p.length_tail
  have hpos : 1 ≤ ctx.buf.length := hbuf ▸ (by decide)
  have hdata : 0 < p.data.length := by
    have hsize := p.size
    omega
  have hat : ∀ i, i < p.tail.length → (ctx.store 1 p.tail).at_ (i + 1) = p.tail.getD i 0 :=
    fun i hi => at_store hpos hi
  have hhi : p.tail.getD (p.data.length + 2) 0 = p.hi := by simp [HeaderPacket.tail]
  have hlo : p.tail.getD (p.data.length + 3) 0 = p.lo := by simp [HeaderPacket.tail]
  refine ⟨hat 0 (by omega), hat 1 (by omega), ?_, ?_, ?_⟩
  · rw [payload_store hpos (by omega)]
    exact List.take_left
  · unfold RecvCtx.recvCrc
    rw [hat (p.data.length + 2) (by omega), hat (p.data.length + 3) (by omega), hhi, hlo, p.crc]
  · rw [hat 2 (by omega)]
    show (p.data ++ [p.hi, p.lo]).getD 0 0 = _
    rw [List.getD_eq_getElem?_getD, List.getElem?_append_left hdata, List.getD_eq_getElem?_getD]

/-- The number passes the test that both readers make. -/
theorem Buffered.numbered (h : Buffered p ctx) : ¬ (ctx.at_ 1 ≠ 0 ∨ ctx.at_ 2 ≠ 0xFF) := by
  rw [h.number, h.inverse]
  decide

/-- The checksum passes it as well. -/
theorem Buffered.checked (h : Buffered p ctx) :
    ¬ ctx.recvCrc (p.data.length + 5 - 2) ≠ CRC16 (ctx.payload (p.data.length + 5 - 5)) := by
  rw [Nat.add_sub_cancel, h.payload]
  exact not_not.mpr h.crc

/-- `on_begin` is called with the payload. -/
theorem callBegin_spec (hf : cb.onBegin = some f) (h : Buffered p ctx) :
    callBegin cb ctx p.data.length =
      (if f ctx.log p.data = RYM_CODE_ACK then .eok else .can,
        { ctx with log := ctx.log ++ [.onBegin p.data] }) := by
  unfold callBegin
  rw [hf, h.payload]
  simp only [ne_eq, ite_not]

theorem handshakeCheck_spec (hf : cb.onBegin = some f) (h : Buffered p ctx) :
    handshakeCheck cb (p.data.length + 5) (p.data.length + 4) ctx =
      (if f ctx.log p.data = RYM_CODE_ACK then .eok else .can,
        { ctx with log := ctx.log ++ [.onBegin p.data] }) := by
  unfold handshakeCheck
  rw [if_neg (by omega), if_neg h.numbered, if_neg h.checked, Nat.add_sub_cancel]
  exact callBegin_spec hf h

theorem finCheck_spec (hf : cb.onBegin = some f) (h : Buffered p ctx) (hfirst : p.data.getD 0 0 ≠ 0)
    (hsize : p.data.length = 128) : finCheck cb (p.data.length + 5) (p.data.length + 4) ctx =
      (if f ctx.log p.data = RYM_CODE_ACK then .eok else .can,
        { ctx with log := ctx.log ++ [.onBegin p.data] }) := by
  have hsoh : RYM_SOH_PKG_SZ = p.data.length + 5 := by rw [hsize]; rfl
  unfold finCheck
  rw [hsoh, if_neg (by omega), if_neg h.numbered, if_neg h.checked, if_pos (h.first ▸ hfirst),
    Nat.add_sub_cancel]
  exact callBegin_spec hf h

/-- No byte is missing. -/
theorem handshakeDataOn_end (limit : UInt32) {dataSz i : Nat} (hi : dataSz - 1 ≤ i) (readings : List UInt32)
    (ctx : RecvCtx) (d : Device) : handshakeDataOn limit dataSz readings i ctx d = (i, ctx, d) := by
  cases readings with
  | nil => rfl
  | cons now readings =>
      rw [handshakeDataOn, if_neg]
      omega

/-- One round reads all data. -/
theorem handshakeDataOn_spec {limit now : UInt32} (hnow : now ≤ limit) (later : List UInt32)
    (hflowing : d.Flowing) (hstream : d.stream = p.tail) (ctx : RecvCtx) :
    ∃ d', handshakeDataOn limit (p.data.length + 5) (now :: later) 0 ctx d =
      (p.data.length + 4, ctx.store 1 p.tail, d') ∧ d'.stream = [] := by
  obtain ⟨d', hread, hd'⟩ := readData_tail hflowing hstream ctx
  refine ⟨d', ?_, hd'⟩
  have hsub : p.data.length + 5 - 1 = p.data.length + 4 := rfl
  rw [handshakeDataOn, if_pos ⟨hnow, by omega⟩, hsub, hread]
  dsimp only
  rw [Nat.zero_add]
  exact handshakeDataOn_end limit (le_of_eq hsub) later _ _

/-- **The first packet** is read where the clock does not seem to have run out at once. -/
theorem handshake_iff (hf : cb.onBegin = some f) (hbuf : ctx.buf.length = RYM_STX_PKG_SZ)
    (h : Comes d waits p.bytes) (hw : waits < tmSec) :
    Begins f ctx.log p (rymDoHandshakeOn cb clock tmSec ctx d) ↔ clock.InTime := by
  obtain ⟨d', hloop, hflowing, hstream⟩ :=
    handshakeLoopOn_spec h hw { ctx with stage := .establishing }
  unfold rymDoHandshakeOn
  rw [hloop]
  dsimp only
  by_cases hnow : clock.now ≤ clock.tick + clock.ms100
  · refine iff_of_true ?_ hnow
    obtain ⟨d'', hdata, hd''⟩ := handshakeDataOn_spec hnow clock.later hflowing hstream
      (({ ctx with stage := .establishing } : RecvCtx).store 0 [p.code])
    have hbuffered : Buffered p ((({ ctx with stage := .establishing } : RecvCtx).store 0 [p.code]).store 1
        p.tail) := buffered_store (store_zero_length hbuf)
    rw [hdata]
    dsimp only
    rw [handshakeCheck_spec hf hbuffered]
    exact ⟨rfl, hd'', rfl⟩
  · refine iff_of_false (fun hbegins => ?_) hnow
    -- The loop is left at once, and no byte is read.
    have hcalls := hbegins.calls
    rw [handshakeDataOn, if_neg fun hloop => hnow hloop.1] at hcalls
    dsimp only at hcalls
    have hsize : 0 ≠ p.data.length + 5 - 1 := by omega
    rw [handshakeCheck, if_pos hsize] at hcalls
    have hlen := congrArg List.length hcalls
    simp [RecvCtx.store] at hlen

/-- The bytes that `_rym_do_fin` leaves, and what it has read, whatever it makes of it. -/
theorem fin_reads (hbuf : ctx.buf.length = RYM_STX_PKG_SZ) (h : Comes d 0 (RYM_CODE_EOT :: p.bytes)) :
    ∃ ctx' d', rymDoFinOn cb ctx d = finPacket cb (p.data.length + 5) ctx' d' ∧
      ctx'.log = (finStart cb ctx).log ∧ ctx'.buf.length = RYM_STX_PKG_SZ ∧ d'.Flowing ∧
      d'.stream = p.tail := by
  obtain ⟨hflowing, hstream⟩ := h.flowing
  obtain ⟨d₁, hread₁, hflowing₁, hstream₁⟩ := readCode_spec (finStart cb ctx) hflowing hstream
  obtain ⟨d₂, hread₂, hflowing₂, hstream₂⟩ :=
    readCode_spec ((finStart cb ctx).store 0 [RYM_CODE_EOT]) hflowing₁ hstream₁
  refine ⟨((finStart cb ctx).store 0 [RYM_CODE_EOT]).store 0 [p.code], d₂, ?_, rfl,
    store_zero_length (store_zero_length hbuf), hflowing₂, hstream₂⟩
  unfold rymDoFinOn
  rw [hread₁]
  dsimp only
  rw [if_neg (not_not.mpr rfl), hread₂]
  dsimp only
  obtain ⟨hcode, hlen⟩ | ⟨hcode, hlen⟩ := code_cases p
  · rw [if_pos hcode, hlen]
  · rw [hcode, if_neg (by decide), if_pos rfl, hlen]

/-- **The packet of the next file** is read where it is a short one. -/
theorem fin_iff (hf : cb.onBegin = some f) (hbuf : ctx.buf.length = RYM_STX_PKG_SZ)
    (h : Comes d 0 (RYM_CODE_EOT :: p.bytes)) (hfirst : p.data.getD 0 0 ≠ 0) :
    Begins f (finStart cb ctx).log p (rymDoFinOn cb ctx d) ↔ p.data.length = 128 := by
  obtain ⟨ctx', d', hfin, hlog, hbuf', hflowing, hstream⟩ := fin_reads hbuf h
  rw [hfin]
  unfold finPacket
  constructor
  · intro hbegins
    have hrest : (readData ctx' (RYM_SOH_PKG_SZ - 1) d').2.2.stream = p.tail.drop (RYM_SOH_PKG_SZ - 1) := by
      rw [← hstream]
      exact (readDataLoop_spec (RYM_SOH_PKG_SZ - 1) [] d' hflowing).2
    have hnil := hrest.symm.trans hbegins.stream
    have hle := List.drop_eq_nil_iff.mp hnil
    rw [p.length_tail] at hle
    have hsoh : RYM_SOH_PKG_SZ - 1 = 132 := rfl
    have hsize := p.size
    omega
  · intro hsize
    obtain ⟨d'', hread, hd''⟩ := readData_tail hflowing hstream ctx'
    have hsoh : RYM_SOH_PKG_SZ - 1 = p.data.length + 4 := by rw [hsize]; rfl
    rw [hsoh, hread]
    dsimp only
    rw [finCheck_spec hf (buffered_store hbuf') hfirst hsize]
    refine ⟨congrArg (· ++ [RymCall.onBegin p.data]) hlog, hd'', ?_⟩
    rw [← hlog]
    rfl

/-- What is asked of both readers: the packet, as the first one and, unless its payload begins with a zero, as
that of the next file. -/
def AcceptedAlike (cb : RecvCallbacks) (f : List RymCall → List UInt8 → RymCode) (p : HeaderPacket)
    (clock : Clock) (tmSec : Nat) (ctx₁ ctx₂ : RecvCtx) (d₁ d₂ : Device) : Prop :=
  Begins f ctx₁.log p (rymDoHandshakeOn cb clock tmSec ctx₁ d₁) ∧
    (p.data.getD 0 0 ≠ 0 → Begins f (finStart cb ctx₂).log p (rymDoFinOn cb ctx₂ d₂))

/-- **Header packets**, exactly where both readers accept them. -/
theorem header_packets_iff {ctx₁ ctx₂ : RecvCtx} {d₁ d₂ : Device} (hf : cb.onBegin = some f)
    (hbuf₁ : ctx₁.buf.length = RYM_STX_PKG_SZ) (h₁ : Comes d₁ waits p.bytes) (hw : waits < tmSec)
    (hbuf₂ : ctx₂.buf.length = RYM_STX_PKG_SZ) (h₂ : Comes d₂ 0 (RYM_CODE_EOT :: p.bytes)) :
    AcceptedAlike cb f p clock tmSec ctx₁ ctx₂ d₁ d₂ ↔
      clock.now ≤ clock.tick + clock.ms100 ∧ (p.data.getD 0 0 ≠ 0 → p.data.length = 128) :=
  and_congr (handshake_iff hf hbuf₁ h₁ hw) (imp_congr_right fun hfirst => fin_iff hf hbuf₂ h₂ hfirst)

end

/-- The packet with this payload. -/
def headerPacket (data : List UInt8) (size : data.length = 128 ∨ data.length = 1024) : HeaderPacket where
  data := data
  hi := (CRC16 data >>> 8).toUInt8
  lo := (CRC16 data).toUInt8
  size := size
  crc := crc_bytes _

/-- A file's name, and zeros behind it. -/
def nameIn (n : Nat) : List UInt8 := 0x61 :: List.replicate (n - 1) 0

theorem nameIn_size : ((nameIn 128).length = 128 ∨ (nameIn 128).length = 1024) ∧
    ((nameIn 1024).length = 128 ∨ (nameIn 1024).length = 1024) := by
  decide +kernel

/-- A receiver with a buffer of zeros, and the bytes in one chunk. -/
def freshRecv : RecvCtx := ⟨.none, List.replicate RYM_STX_PKG_SZ 0, []⟩

def oneChunk (bytes : List UInt8) : Device := ⟨[], 0, [some bytes], []⟩

theorem comes_oneChunk (bytes : List UInt8) : Comes (oneChunk bytes) 0 bytes :=
  ⟨rfl, [bytes], rfl, List.flatten_singleton⟩

/-- A callback that accepts everything. -/
def acceptBegin : List RymCall → List UInt8 → RymCode := fun _ _ => RYM_CODE_ACK

def beginOnly : RecvCallbacks := ⟨some acceptBegin, none, false⟩

def startClock : Clock := ⟨0, 0, [], 100⟩

/-- A short packet, each time in one chunk. -/
theorem header_packets_short : AcceptedAlike beginOnly acceptBegin (headerPacket (nameIn 128) nameIn_size.1)
    startClock 1 freshRecv freshRecv (oneChunk (headerPacket (nameIn 128) nameIn_size.1).bytes)
    (oneChunk (RYM_CODE_EOT :: (headerPacket (nameIn 128) nameIn_size.1).bytes)) :=
  (header_packets_iff rfl List.length_replicate (comes_oneChunk _) (by decide) List.length_replicate
    (comes_oneChunk _)).mpr ⟨by decide, fun _ => by decide +kernel⟩

/-- A long packet as that of the next file. -/
theorem header_packet_long : ¬ ∀ (cb : RecvCallbacks) (f : List RymCall → List UInt8 → RymCode)
    (p : HeaderPacket) (clock : Clock) (tmSec waits : Nat) (ctx₁ ctx₂ : RecvCtx) (d₁ d₂ : Device),
    cb.onBegin = some f → ctx₁.buf.length = RYM_STX_PKG_SZ → Comes d₁ waits p.bytes → waits < tmSec →
      ctx₂.buf.length = RYM_STX_PKG_SZ → Comes d₂ 0 (RYM_CODE_EOT :: p.bytes) →
        AcceptedAlike cb f p clock tmSec ctx₁ ctx₂ d₁ d₂ := by
  intro hclaim
  have hboth := hclaim beginOnly acceptBegin (headerPacket (nameIn 1024) nameIn_size.2) startClock 1 0
    freshRecv freshRecv _ _ rfl List.length_replicate (comes_oneChunk _) (by decide) List.length_replicate
    (comes_oneChunk _)
  have hfirst : (headerPacket (nameIn 1024) nameIn_size.2).data.getD 0 0 ≠ 0 := by decide +kernel
  have hbegin : beginOnly.onBegin = some acceptBegin := rfl
  have hlen := (fin_iff hbegin List.length_replicate (comes_oneChunk _) hfirst).mp
    (hboth.2 hfirst)
  exact absurd hlen (by decide +kernel)

end RTThread.Ymodem
