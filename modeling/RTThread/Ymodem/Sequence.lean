import RTThread.Ymodem.Packets

set_option autoImplicit false

/-! # The numbers of the packets that are delivered

`_rym_trans_data` compares the number of a packet with its complement, and with nothing else. Beside the
receiver of the code there is one that keeps the number it expects: it delivers a packet with this number,
acknowledges the one before it again, and ends the session at any other. The two do the same on a stream if and
only if the packets come numbered 1, 2, 3 and so on.
-/

namespace RTThread.Ymodem

open Channel Channel.Prog

/-! ## The receiver that is meant -/

/-- The loop of `_rym_do_trans`, once, for a receiver with the `on_data` callback `f` that expects the
number `e`. -/
def trackedTrans (f : List RymCall → List UInt8 → RymCode) (e : UInt8) (ctx : RecvCtx) :
    Prog UInt8 ((UInt8 × RecvCtx) ⊕ RymErr × RecvCtx) := do
  let (code, ctx) ← rymReadCode ctx
  if code = RYM_CODE_SOH then packet ctx 128
  else if code = RYM_CODE_STX then packet ctx 1024
  else if code = RYM_CODE_EOT then return .inr (.eok, ctx)
  else return .inr (.code, ctx)
where
  packet (ctx : RecvCtx) (dataSz : Nat) : Prog UInt8 ((UInt8 × RecvCtx) ⊕ RymErr × RecvCtx) := do
    let (i, ctx) ← rymReadData ctx (2 + dataSz + 2)
    if i ≠ 2 + dataSz + 2 then return .inr (.dsz, ctx)
    else if (ctx.at_ 1).toNat + (ctx.at_ 2).toNat ≠ 0xFF then return .inr (.seq, ctx)
    else if ctx.stage = .established ∧ ctx.at_ 1 = 0x00 then return .inl (e, ctx)
    else
      let ctx := { ctx with stage := .transmitting }
      if ctx.recvCrc (2 + dataSz + 2 - 1) ≠ CRC16 (ctx.payload dataSz) then return .inr (.crc, ctx)
      else if ctx.at_ 1 = e then deliver ctx dataSz
      else if ctx.at_ 1 = e - 1 then do
        -- the ACK was lost
        rymPutchar RYM_CODE_ACK
        return .inl (e, ctx)
      else return .inr (.seq, ctx)
  deliver (ctx : RecvCtx) (dataSz : Nat) : Prog UInt8 ((UInt8 × RecvCtx) ⊕ RymErr × RecvCtx) :=
    let code := f ctx.log (ctx.payload dataSz)
    let ctx := { ctx with log := ctx.log ++ [.onData (ctx.at_ 1) (ctx.payload dataSz)] }
    if code = RYM_CODE_CAN then do
      writes (List.replicate RYM_END_SESSION_SEND_CAN_NUM RYM_CODE_CAN)
      return .inr (.can, ctx)
    else if code = RYM_CODE_ACK then do
      rymPutchar RYM_CODE_ACK
      return .inl (e + 1, ctx)
    else return .inl (e + 1, ctx)

/-! ## What arrives -/

/-- What a receiver finds in the stream, with the rest of it. -/
inductive Arrival
  /-- the session ends -/
  | stop (err : RymErr) (ctx : RecvCtx) (rest : List UInt8)
  /-- the first packet again -/
  | again (ctx : RecvCtx) (rest : List UInt8)
  /-- a packet with a correct checksum -/
  | packet (ctx : RecvCtx) (dataSz : Nat) (rest : List UInt8)

/-- The bytes behind the code of a packet. -/
def arriveData (ctx : RecvCtx) (dataSz : Nat) (s : List UInt8) : Arrival :=
  let bs := s.take (2 + dataSz + 2)
  let rest := s.drop (2 + dataSz + 2)
  let ctx := ctx.store 1 bs
  if bs.length ≠ 2 + dataSz + 2 then .stop .dsz ctx rest
  else if (ctx.at_ 1).toNat + (ctx.at_ 2).toNat ≠ 0xFF then .stop .seq ctx rest
  else if ctx.stage = .established ∧ ctx.at_ 1 = 0x00 then .again ctx rest
  else
    let ctx := { ctx with stage := .transmitting }
    if ctx.recvCrc (2 + dataSz + 2 - 1) ≠ CRC16 (ctx.payload dataSz) then .stop .crc ctx rest
    else .packet ctx dataSz rest

def arrive (ctx : RecvCtx) : List UInt8 → Arrival
  | [] => .stop .code ctx []
  | c :: s =>
      let ctx := ctx.store 0 [c]
      if c = RYM_CODE_SOH then arriveData ctx 128 s
      else if c = RYM_CODE_STX then arriveData ctx 1024 s
      else if c = RYM_CODE_EOT then .stop .eok ctx s
      else .stop .code ctx s

/-- The call of `on_data` for the packet in the buffer. -/
def deliver (f : List RymCall → List UInt8 → RymCode) (ctx : RecvCtx) (dataSz : Nat) : RymCode × RecvCtx :=
  (f ctx.log (ctx.payload dataSz),
    { ctx with log := ctx.log ++ [.onData (ctx.at_ 1) (ctx.payload dataSz)] })

/-- What a receiver does with the answer of `on_data`, and what it writes. -/
def answer {α : Type} (next : α) (r : RymCode × RecvCtx) : (α ⊕ RymErr × RecvCtx) × List UInt8 :=
  if r.1 = RYM_CODE_CAN then (.inr (.can, r.2), List.replicate RYM_END_SESSION_SEND_CAN_NUM RYM_CODE_CAN)
  else if r.1 = RYM_CODE_ACK then (.inl next, [RYM_CODE_ACK])
  else (.inl next, [])

theorem answer_can {α : Type} {next : α} {r : RymCode × RecvCtx} (h : r.1 = RYM_CODE_CAN) :
    answer next r = (.inr (.can, r.2), List.replicate RYM_END_SESSION_SEND_CAN_NUM RYM_CODE_CAN) :=
  if_pos h

theorem answer_next {α : Type} (next : α) {r : RymCode × RecvCtx} (h : r.1 ≠ RYM_CODE_CAN) :
    answer next r = (.inl next, if r.1 = RYM_CODE_ACK then [RYM_CODE_ACK] else []) := by
  unfold answer
  rw [if_neg h]
  split_ifs <;> rfl

variable {cb : RecvCallbacks} {f : List RymCall → List UInt8 → RymCode} {e : UInt8} {ctx ctx₀ : RecvCtx}
  {s : List UInt8}

theorem feed_rymReadData {α : Type} (n : Nat) (k : Nat × RecvCtx → Prog UInt8 α) :
    (rymReadData ctx n >>= k).feed s =
      (k ((s.take n).length, ctx.store 1 (s.take n))).feed (s.drop n) := by
  unfold rymReadData
  rw [bind_assoc, feed_bind, feed_reads]
  change ((k ((s.take n).length, ctx.store 1 (s.take n))).feed (s.drop n)).map (fun r => (r.1, r.2.1, r.2.2)) = _
  rw [Option.map_id']

/-- What the code does with a packet. -/
theorem feed_packet (ctx : RecvCtx) (dataSz : Nat) (s : List UInt8) :
    (rymDoTrans.packet { cb with onData := some f } ctx dataSz).feed s =
      some (match arriveData ctx dataSz s with
        | .stop err ctx rest => (.inr (err, ctx), rest, [])
        | .again ctx rest => (.inl ctx, rest, [])
        | .packet ctx dataSz rest =>
            let r := deliver f ctx dataSz
            ((answer r.2 r).1, rest, (answer r.2 r).2)) := by
  unfold rymDoTrans.packet rymTransData arriveData
  rw [bind_assoc, feed_rymReadData]
  dsimp only
  split_ifs with hlen hseq hagain hcrc
  · rfl
  · rfl
  · rfl
  · rfl
  · rw [pure_bind]
    dsimp only [deliver, answer]
    rw [if_neg (not_not.mpr rfl)]
    split_ifs
    · rw [feed_writes]
      rfl
    · rfl
    · rfl

/-- **A round of the code.** -/
theorem feed_rymDoTrans :
    (rymDoTrans { cb with onData := some f } ctx).feed s = some (match arrive ctx s with
      | .stop err ctx rest => (.inr (err, ctx), rest, [])
      | .again ctx rest => (.inl ctx, rest, [])
      | .packet ctx dataSz rest =>
          let r := deliver f ctx dataSz
          ((answer r.2 r).1, rest, (answer r.2 r).2)) := by
  cases s with
  | nil => rfl
  | cons c s =>
      unfold rymDoTrans rymReadCode arrive
      simp only [read_bind, feed, ret_bind]
      split_ifs
      · exact feed_packet ..
      · exact feed_packet ..
      · rfl
      · rfl

theorem feed_tracked_packet (ctx : RecvCtx) (dataSz : Nat) (s : List UInt8) :
    (trackedTrans.packet f e ctx dataSz).feed s =
      some (match arriveData ctx dataSz s with
        | .stop err ctx rest => (.inr (err, ctx), rest, [])
        | .again ctx rest => (.inl (e, ctx), rest, [])
        | .packet ctx dataSz rest =>
            if ctx.at_ 1 = e then
              let r := deliver f ctx dataSz
              ((answer (e + 1, r.2) r).1, rest, (answer (e + 1, r.2) r).2)
            else if ctx.at_ 1 = e - 1 then (.inl (e, ctx), rest, [RYM_CODE_ACK])
            else (.inr (.seq, ctx), rest, [])) := by
  unfold trackedTrans.packet arriveData
  rw [feed_rymReadData]
  dsimp only
  split_ifs with hlen hseq hagain hcrc hnumber hrepeated
  · rfl
  · rfl
  · rfl
  · rfl
  · dsimp only
    rw [if_pos hnumber]
    unfold trackedTrans.deliver
    dsimp only [deliver, answer]
    split_ifs
    · rw [feed_writes]
      rfl
    · rfl
    · rfl
  · dsimp only
    rw [if_neg hnumber, if_pos hrepeated]
    rfl
  · dsimp only
    rw [if_neg hnumber, if_neg hrepeated]
    rfl

/-- **A round of the receiver that is meant.** -/
theorem feed_trackedTrans :
    (trackedTrans f e ctx).feed s = some (match arrive ctx s with
      | .stop err ctx rest => (.inr (err, ctx), rest, [])
      | .again ctx rest => (.inl (e, ctx), rest, [])
      | .packet ctx dataSz rest =>
          if ctx.at_ 1 = e then
            let r := deliver f ctx dataSz
            ((answer (e + 1, r.2) r).1, rest, (answer (e + 1, r.2) r).2)
          else if ctx.at_ 1 = e - 1 then (.inl (e, ctx), rest, [RYM_CODE_ACK])
          else (.inr (.seq, ctx), rest, [])) := by
  cases s with
  | nil => rfl
  | cons c s =>
      unfold trackedTrans rymReadCode arrive
      simp only [read_bind, feed, ret_bind]
      split_ifs
      · exact feed_tracked_packet ..
      · exact feed_tracked_packet ..
      · rfl
      · rfl

/-! ## The packets that come -/

/-- The correct packets of a stream, of at most `n`, up to what is none. Packets with the number 0 at the
beginning (`first`) are repetitions of the first packet, and left out. -/
def incoming : Nat → Bool → List UInt8 → List Packet
  | 0, _, _ => []
  | n + 1, first, s =>
      match cutPacket s with
      | none => []
      | some (p, rest) =>
          if ¬ p.Numbered then []
          else if first ∧ p.number = 0 then incoming n first rest
          else if ¬ p.Correct then []
          else p :: incoming n false rest

/-- The packets up to the one with which `on_data` cancels the session. -/
def called (f : List RymCall → List UInt8 → RymCode) : List RymCall → List Packet → List Packet
  | _, [] => []
  | log, p :: ps =>
      if f log p.data = RYM_CODE_CAN then [p] else p :: called f (log ++ [p.call]) ps

/-- The numbers go up by one from `e` on. -/
def FromOn : UInt8 → List Packet → Prop
  | _, [] => True
  | e, p :: ps => p.number = e ∧ FromOn (e + 1) ps

instance FromOn.decidable : (e : UInt8) → (ps : List Packet) → Decidable (FromOn e ps)
  | _, [] => isTrue trivial
  | e, p :: ps =>
      have := FromOn.decidable (e + 1) ps
      inferInstanceAs (Decidable (p.number = e ∧ FromOn (e + 1) ps))

theorem FromOn.congr {ps qs : List Packet} (h : ps.map Packet.call = qs.map Packet.call) {e : UInt8}
    (hp : FromOn e ps) : FromOn e qs := by
  induction ps generalizing qs e with
  | nil =>
      obtain rfl := List.map_eq_nil_iff.mp h.symm
      trivial
  | cons p ps ih =>
      cases qs with
      | nil => cases h
      | cons q qs =>
          obtain ⟨hcall, hrest⟩ := List.cons.inj h
          obtain ⟨hnumber, -⟩ := RymCall.onData.inj hcall
          exact ⟨hnumber ▸ hp.1, ih hrest hp.2⟩

theorem called_prefix (f : List RymCall → List UInt8 → RymCode) (log : List RymCall) (ps : List Packet) :
    called f log ps <+: ps := by
  induction ps generalizing log with
  | nil => exact List.prefix_rfl
  | cons p ps ih =>
      unfold called
      split_ifs
      · exact List.prefix_append [p] ps
      · exact List.prefix_cons_inj p |>.mpr (ih _)

theorem correct_of_mem_incoming {n : Nat} {first : Bool} {s : List UInt8} {p : Packet}
    (h : p ∈ incoming n first s) : p.Correct := by
  induction n generalizing first s with
  | zero => cases h
  | succ n ih =>
      rw [incoming] at h
      split at h
      · cases h
      · split_ifs at h with hnum hfirst hcorrect
        · exact ih h
        · obtain rfl | h := List.mem_cons.mp h
          · exact hcorrect
          · exact ih h
        · cases h
        · cases h

/-- What a receiver finds, told by the packet that the stream begins with. -/
inductive Found (ctx : RecvCtx) (s : List UInt8) : Arrival → Prop
  | stop {err : RymErr} {ctx' : RecvCtx} {rest : List UInt8} (hlog : ctx'.log = ctx.log)
      (hnone : ∀ n, incoming (n + 1) (decide (ctx.stage = .established)) s = []) :
      Found ctx s (.stop err ctx' rest)
  | again {p : Packet} {ctx' : RecvCtx} {rest : List UInt8} (hcut : cutPacket s = some (p, rest))
      (hp : p.Numbered ∧ p.number = 0) (hstage : ctx.stage = .established)
      (hctx : ctx'.stage = ctx.stage ∧ ctx'.log = ctx.log ∧ ctx'.buf.length = ctx.buf.length) :
      Found ctx s (.again ctx' rest)
  | packet {p : Packet} {ctx' : RecvCtx} {dataSz : Nat} {rest : List UInt8}
      (hcut : cutPacket s = some (p, rest)) (hp : p.Numbered ∧ p.Correct)
      (hfirst : ¬ (ctx.stage = .established ∧ p.number = 0))
      (hdata : ctx'.at_ 1 = p.number ∧ ctx'.payload dataSz = p.data)
      (hctx : ctx'.stage = .transmitting ∧ ctx'.log = ctx.log ∧ ctx'.buf.length = ctx.buf.length) :
      Found ctx s (.packet ctx' dataSz rest)

/-- The bytes behind the code, in the buffer and in the stream. -/
theorem found_data {c : UInt8} {dataSz : Nat} (hbuf : 2 + dataSz + 2 < ctx.buf.length)
    (hcut : cutPacket (c :: s) = cutData dataSz s) (hstage : ctx.stage = ctx₀.stage)
    (hlog : ctx.log = ctx₀.log) (hlen : ctx.buf.length = ctx₀.buf.length) :
    Found ctx₀ (c :: s) (arriveData ctx dataSz s) := by
  unfold arriveData
  dsimp only
  by_cases hs : 2 + dataSz + 2 ≤ s.length
  swap
  · rw [if_pos (by simp; omega)]
    refine .stop hlog fun n => ?_
    rw [incoming, hcut, cutData, if_neg hs]
  obtain ⟨p, hp, hnumber, hinverse, hdata, hcrc⟩ := cutData_store hbuf hs
  have hcut' := hcut.trans hp
  have hstored : (ctx.store 1 (s.take (2 + dataSz + 2))).buf.length = ctx₀.buf.length := by
    rw [store_length (by simp; omega), hlen]
  rw [if_neg (by simp; omega), hnumber, hinverse]
  change Found ctx₀ (c :: s) (if ¬ p.Numbered then _ else _)
  by_cases hnum : p.Numbered
  swap
  · rw [if_pos hnum]
    refine .stop hlog fun n => ?_
    simp only [incoming, hcut', if_pos hnum]
  rw [if_neg (not_not.mpr hnum)]
  change Found ctx₀ (c :: s) (if ctx.stage = .established ∧ p.number = 0 then _ else _)
  by_cases hfirst : ctx.stage = .established ∧ p.number = 0
  · rw [if_pos hfirst]
    exact .again hcut' ⟨hnum, hfirst.2⟩ (hstage ▸ hfirst.1) ⟨hstage, hlog, hstored⟩
  rw [if_neg hfirst]
  rw [hstage] at hfirst
  change Found ctx₀ (c :: s) (if (ctx.store 1 (s.take (2 + dataSz + 2))).recvCrc (2 + dataSz + 2 - 1) ≠
    CRC16 ((ctx.store 1 (s.take (2 + dataSz + 2))).payload dataSz) then _ else _)
  rw [hcrc, hdata]
  change Found ctx₀ (c :: s) (if ¬ p.Correct then _ else _)
  by_cases hcorrect : p.Correct
  · rw [if_neg (not_not.mpr hcorrect)]
    exact .packet hcut' ⟨hnum, hcorrect⟩ hfirst ⟨hnumber, hdata⟩ ⟨rfl, hlog, hstored⟩
  · rw [if_pos hcorrect]
    refine .stop hlog fun n => ?_
    have hnot : ¬ (decide (ctx₀.stage = .established) = true ∧ p.number = 0) := by
      rw [decide_eq_true_iff]
      exact hfirst
    simp only [incoming, hcut', if_neg (not_not.mpr hnum), if_neg hnot, if_pos hcorrect]

theorem found (hbuf : ctx.buf.length = RYM_STX_PKG_SZ) (s : List UInt8) : Found ctx s (arrive ctx s) := by
  unfold RYM_STX_PKG_SZ at hbuf
  cases s with
  | nil => exact .stop rfl fun n => rfl
  | cons c s =>
      have hlen : (ctx.store 0 [c]).buf.length = ctx.buf.length := store_length (by simp; omega)
      unfold arrive
      dsimp only
      split_ifs with hsoh hstx heot
      · exact found_data (by omega) (if_pos hsoh) rfl rfl hlen
      · exact found_data (by omega) ((if_neg hsoh).trans (if_pos hstx)) rfl rfl hlen
      · refine .stop rfl fun n => ?_
        simp only [incoming, cutPacket, if_neg hsoh, if_neg hstx]
      · refine .stop rfl fun n => ?_
        simp only [incoming, cutPacket, if_neg hsoh, if_neg hstx]

/-! ## Runs -/

/-- The loop of `_rym_do_trans` on a stream: the result, the rest of the stream and what was written. Every round
takes a byte or ends the session, so one round more than bytes is enough. -/
def runTrans (cb : RecvCallbacks) (n : Nat) (ctx : RecvCtx) (s : List UInt8) :
    Option ((RymErr × RecvCtx) × List UInt8 × List UInt8) :=
  runParty (rymDoTrans cb) n (rymDoTrans cb ctx) s

def runTracked (f : List RymCall → List UInt8 → RymCode) (n : Nat) (e : UInt8) (ctx : RecvCtx)
    (s : List UInt8) : Option ((RymErr × RecvCtx) × List UInt8 × List UInt8) :=
  runParty (fun l => trackedTrans f l.1 l.2) n (trackedTrans f e ctx) s

section

variable {n : Nat} {rest : List UInt8} {p : Packet}

theorem incoming_again (hcut : cutPacket s = some (p, rest)) (hp : p.Numbered ∧ p.number = 0) :
    incoming (n + 1) true s = incoming n true rest := by
  simp only [incoming, hcut, if_neg (not_not.mpr hp.1), hp.2, and_self, if_true]

theorem incoming_packet {first : Bool} (hcut : cutPacket s = some (p, rest)) (hp : p.Numbered ∧ p.Correct)
    (hfirst : ¬ (first = true ∧ p.number = 0)) :
    incoming (n + 1) first s = p :: incoming n false rest := by
  simp only [incoming, hcut, if_neg (not_not.mpr hp.1), if_neg hfirst, if_neg (not_not.mpr hp.2)]

/-- The packet in the buffer is delivered. -/
theorem deliver_eq {ctx' : RecvCtx} {dataSz : Nat}
    (hdata : ctx'.at_ 1 = p.number ∧ ctx'.payload dataSz = p.data) (hlog : ctx'.log = ctx.log) :
    (deliver f ctx' dataSz).1 = f ctx.log p.data ∧
      (deliver f ctx' dataSz).2.log = ctx.log ++ [p.call] := by
  rw [deliver, hdata.1, hdata.2, hlog]
  exact ⟨rfl, rfl⟩

end

/-- **The code delivers every packet that comes.** -/
theorem runTrans_log (n : Nat) (s : List UInt8) (ctx : RecvCtx) (hn : s.length < n)
    (hbuf : ctx.buf.length = RYM_STX_PKG_SZ) :
    ∃ r, runTrans { cb with onData := some f } n ctx s = some r ∧ r.1.2.log =
      ctx.log ++ (called f ctx.log (incoming n (decide (ctx.stage = .established)) s)).map Packet.call := by
  induction n generalizing s ctx with
  | zero => omega
  | succ n ih =>
      have hfound := found hbuf s
      have hfeed := @feed_rymDoTrans cb f ctx s
      generalize arrive ctx s = a at hfound hfeed
      unfold runTrans
      cases hfound with
      | stop hlog hnone =>
          rw [runParty_stop hfeed, hnone n]
          exact ⟨_, rfl, by simpa [called] using hlog⟩
      | again hcut hp hstage hctx =>
          rename_i p ctx' rest
          have hlen := cutPacket_length hcut
          obtain ⟨r, hr, hlog⟩ := ih rest ctx' (by omega) (hctx.2.2.trans hbuf)
          unfold runTrans at hr
          rw [runParty_next hfeed, hr, hstage, decide_eq_true rfl, incoming_again hcut hp]
          rw [hctx.1, hstage, hctx.2.1, decide_eq_true rfl] at hlog
          exact ⟨_, rfl, hlog⟩
      | packet hcut hp hfirst hdata hctx =>
          rename_i p ctx' dataSz rest
          have hlen := cutPacket_length hcut
          obtain ⟨hcode, hcall⟩ := deliver_eq (f := f) hdata hctx.2.1
          rw [incoming_packet hcut hp (by rwa [decide_eq_true_iff]), called]
          by_cases hcan : f ctx.log p.data = RYM_CODE_CAN
          · rw [if_pos hcan]
            dsimp only at hfeed
            rw [answer_can (hcode.trans hcan)] at hfeed
            rw [runParty_stop hfeed]
            exact ⟨_, rfl, hcall⟩
          · rw [if_neg hcan]
            dsimp only at hfeed
            rw [answer_next _ (by rw [hcode]; exact hcan)] at hfeed
            obtain ⟨r, hr, hlog⟩ := ih rest (deliver f ctx' dataSz).2 (by omega) (hctx.2.2.trans hbuf)
            unfold runTrans at hr
            have hstage : (deliver f ctx' dataSz).2.stage = .transmitting := hctx.1
            rw [runParty_next hfeed, hr]
            refine ⟨_, rfl, ?_⟩
            rw [hcall, hstage, List.append_assoc] at hlog
            exact hlog

/-- On packets with the numbers from `e` on, the code is the receiver that is meant. -/
theorem runTrans_eq (n : Nat) (s : List UInt8) (e : UInt8) (ctx : RecvCtx)
    (hbuf : ctx.buf.length = RYM_STX_PKG_SZ)
    (he : FromOn e (called f ctx.log (incoming n (decide (ctx.stage = .established)) s))) :
    runTrans { cb with onData := some f } n ctx s = runTracked f n e ctx s := by
  induction n generalizing s e ctx with
  | zero => rfl
  | succ n ih =>
      have hfound := found hbuf s
      have hfeed := @feed_rymDoTrans cb f ctx s
      have hfeed' := @feed_trackedTrans f e ctx s
      generalize arrive ctx s = a at hfound hfeed hfeed'
      unfold runTrans runTracked
      cases hfound with
      | stop hlog hnone => rw [runParty_stop hfeed, runParty_stop hfeed']
      | again hcut hp hstage hctx =>
          rename_i p ctx' rest
          rw [runParty_next hfeed, runParty_next hfeed']
          rw [hstage, decide_eq_true rfl, incoming_again hcut hp] at he
          refine congrArg (Option.map _) (ih rest e ctx' (hctx.2.2.trans hbuf) ?_)
          rw [hctx.2.1, hctx.1, hstage, decide_eq_true rfl]
          exact he
      | packet hcut hp hfirst hdata hctx =>
          rename_i p ctx' dataSz rest
          obtain ⟨hcode, hcall⟩ := deliver_eq (f := f) hdata hctx.2.1
          rw [incoming_packet hcut hp (by rwa [decide_eq_true_iff]), called] at he
          dsimp only at hfeed hfeed'
          rw [hdata.1] at hfeed'
          by_cases hcan : f ctx.log p.data = RYM_CODE_CAN
          · rw [if_pos hcan] at he
            rw [if_pos he.1, answer_can (hcode.trans hcan)] at hfeed'
            rw [answer_can (hcode.trans hcan)] at hfeed
            rw [runParty_stop hfeed, runParty_stop hfeed']
          · rw [if_neg hcan] at he
            have hne : (deliver f ctx' dataSz).1 ≠ RYM_CODE_CAN := by
              rw [hcode]
              exact hcan
            rw [if_pos he.1, answer_next _ hne] at hfeed'
            rw [answer_next _ hne] at hfeed
            rw [runParty_next hfeed, runParty_next hfeed']
            refine congrArg (Option.map _)
              (ih rest (e + 1) (deliver f ctx' dataSz).2 (hctx.2.2.trans hbuf) ?_)
            have hstage : (deliver f ctx' dataSz).2.stage = .transmitting := hctx.1
            rw [hcall, hstage]
            exact he.2

/-! ## No block twice, and none skipped -/

/-- `_rym_do_trans` on a stream. -/
def doTransOn (cb : RecvCallbacks) (ctx : RecvCtx) (s : List UInt8) :
    Option ((RymErr × RecvCtx) × List UInt8 × List UInt8) :=
  runParty (rymDoTrans cb) (s.length + 2) ((rymDoTransStart ctx).bind fun ctx => .ret (.inl ctx)) s

/-- The receiver that is meant on a stream. -/
def trackedTransOn (f : List RymCall → List UInt8 → RymCode) (ctx : RecvCtx) (s : List UInt8) :
    Option ((RymErr × RecvCtx) × List UInt8 × List UInt8) :=
  runParty (fun l => trackedTrans f l.1 l.2) (s.length + 2)
    ((rymDoTransStart ctx).bind fun ctx => .ret (.inl (1, ctx))) s

/-- **No block is delivered twice and none is skipped**: `on_data` is called for correct packets of the stream
with the numbers 1, 2, 3 and so on, and in what is written and returned the receiver is the one that is
meant. -/
def DeliversOnce (cb : RecvCallbacks) (f : List RymCall → List UInt8 → RymCode) (ctx : RecvCtx)
    (s : List UInt8) : Prop :=
  ∃ r ps, doTransOn { cb with onData := some f } ctx s = some r ∧
    r.1.2.log = ctx.log ++ ps.map Packet.call ∧ ps <+: incoming (s.length + 1) true s ∧
      (∀ p ∈ ps, p.Correct) ∧ FromOn 1 ps ∧ trackedTransOn f ctx s = some r

theorem doTransOn_eq : doTransOn cb ctx s =
    (runTrans cb (s.length + 1) { ctx with stage := .established } s).map fun r =>
      (r.1, r.2.1, [RYM_CODE_ACK, RYM_CODE_C] ++ r.2.2) :=
  runParty_next rfl

theorem trackedTransOn_eq : trackedTransOn f ctx s =
    (runTracked f (s.length + 1) 1 { ctx with stage := .established } s).map fun r =>
      (r.1, r.2.1, [RYM_CODE_ACK, RYM_CODE_C] ++ r.2.2) := by
  have hstart : ((rymDoTransStart ctx).bind fun ctx => ret (.inl ((1 : UInt8), ctx))).feed s =
      some ((.inl (1, { ctx with stage := .established }) : (UInt8 × RecvCtx) ⊕ RymErr × RecvCtx), s,
        [RYM_CODE_ACK, RYM_CODE_C]) := rfl
  exact runParty_next hstart

theorem DeliversOnce.fromOn (hbuf : ctx.buf.length = RYM_STX_PKG_SZ) (h : DeliversOnce cb f ctx s) :
    FromOn 1 (called f ctx.log (incoming (s.length + 1) true s)) := by
  obtain ⟨r, ps, hr, hlog, -, -, hps, -⟩ := h
  obtain ⟨r', hr', hlog'⟩ := @runTrans_log cb f (s.length + 1) s
    { ctx with stage := .established } (Nat.lt_succ_self _) hbuf
  rw [doTransOn_eq, hr'] at hr
  obtain rfl := Option.some.inj hr
  exact hps.congr (List.append_cancel_left (hlog.symm.trans hlog'))

theorem not_deliversOnce (hbuf : ctx.buf.length = RYM_STX_PKG_SZ)
    (h : ¬ FromOn 1 (called f ctx.log (incoming (s.length + 1) true s))) : ¬ DeliversOnce cb f ctx s :=
  fun hd => h (hd.fromOn hbuf)

theorem deliversOnce_of_fromOn (hbuf : ctx.buf.length = RYM_STX_PKG_SZ)
    (h : FromOn 1 (called f ctx.log (incoming (s.length + 1) true s))) : DeliversOnce cb f ctx s := by
  obtain ⟨r, hr, hlog⟩ := @runTrans_log cb f (s.length + 1) s
    { ctx with stage := .established } (Nat.lt_succ_self _) hbuf
  have heq := @runTrans_eq cb f (s.length + 1) s 1 { ctx with stage := .established } hbuf h
  have hprefix := called_prefix f ctx.log (incoming (s.length + 1) true s)
  refine ⟨(r.1, r.2.1, [RYM_CODE_ACK, RYM_CODE_C] ++ r.2.2),
    called f ctx.log (incoming (s.length + 1) true s), ?_, ?_, hprefix, ?_, h, ?_⟩
  · rw [doTransOn_eq, hr]
    rfl
  · exact hlog
  · intro p hp
    exact correct_of_mem_incoming (List.IsPrefix.subset hprefix hp)
  · rw [trackedTransOn_eq, ← heq, hr]
    rfl

/-- **The numbers of the packets are not looked at**: no block is delivered twice and none is skipped if and
only if the correct packets that come, up to one with which `on_data` cancels the session, are numbered 1, 2,
3 and so on. -/
theorem delivers_once_iff (hbuf : ctx.buf.length = RYM_STX_PKG_SZ) :
    DeliversOnce cb f ctx s ↔ FromOn 1 (called f ctx.log (incoming (s.length + 1) true s)) :=
  ⟨DeliversOnce.fromOn hbuf, deliversOnce_of_fromOn hbuf⟩

/-- A packet with 128 zeros, whose checksum is zero. -/
def zeros (number : UInt8) : List UInt8 :=
  RYM_CODE_SOH :: number :: ~~~number :: (List.replicate 128 0 ++ [0, 0])

def emptyCtx : RecvCtx := ⟨.none, List.replicate 1029 0, []⟩

def acceptAll : List RymCall → List UInt8 → RymCode := fun _ _ => RYM_CODE_ACK

def noCallbacks : RecvCallbacks := ⟨none, none, false⟩

theorem emptyCtx_length : emptyCtx.buf.length = RYM_STX_PKG_SZ := List.length_replicate

theorem CRC16_zeros (n : Nat) : CRC16 (List.replicate n 0) = 0 := by
  have hbyte : crcByte 0 0 = 0 := by decide
  unfold CRC16
  induction n with
  | zero => rfl
  | succ n ih => rw [List.replicate_succ, List.foldl_cons, hbyte, ih]

theorem incoming_zeros {n : Nat} {first : Bool} {number : UInt8} (h : number ≠ 0)
    (hinv : number.toNat + (~~~number).toNat = 0xFF) :
    incoming (n + 1) first (zeros number ++ s) =
      ⟨number, ~~~number, List.replicate 128 0, 0⟩ :: incoming n false s := by
  have hcut : cutPacket (zeros number ++ s) = some (⟨number, ~~~number, List.replicate 128 0, 0⟩, s) := by
    unfold zeros
    rw [List.cons_append, List.cons_append, List.cons_append, List.append_assoc]
    exact cutPacket_soh List.length_replicate s
  exact incoming_packet hcut ⟨hinv, (CRC16_zeros 128).symm⟩ fun hf => h hf.2

theorem zeros_stream_length (i j b : UInt8) : (zeros i ++ (zeros j ++ [b])).length = 267 := by
  simp only [zeros, List.length_append, List.length_cons, List.length_replicate, List.length_nil]

/-- Two packets in order. -/
theorem delivers_once_two :
    DeliversOnce noCallbacks acceptAll emptyCtx (zeros 1 ++ (zeros 2 ++ [RYM_CODE_EOT])) := by
  refine (delivers_once_iff emptyCtx_length).mpr ?_
  rw [zeros_stream_length, incoming_zeros (by decide) (by decide),
    incoming_zeros (n := 266) (by decide) (by decide)]
  exact ⟨rfl, rfl, trivial⟩

/-- The sender has not seen the ACK, and repeats its first block: it is delivered twice. -/
theorem delivered_twice :
    ¬ DeliversOnce noCallbacks acceptAll emptyCtx (zeros 1 ++ (zeros 1 ++ [RYM_CODE_EOT])) := by
  apply not_deliversOnce emptyCtx_length
  rw [zeros_stream_length, incoming_zeros (by decide) (by decide),
    incoming_zeros (n := 266) (by decide) (by decide)]
  rintro ⟨-, hsecond, -⟩
  exact absurd hsecond (by decide)

end RTThread.Ymodem
