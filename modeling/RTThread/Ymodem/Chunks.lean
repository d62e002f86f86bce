import RTThread.Ymodem.Packets

set_option autoImplicit false

/-! # Reading in chunks (`ymodem.c`)

The bytes of a packet come in chunks. Each chunk releases the semaphore, which `_rym_read_code` and
`_rym_read_data` take when there are not enough bytes. Chunks may also come while the receiver is running.
What a receiver writes is left out here.
-/

namespace RTThread.Ymodem

/-! ## The device -/

/-- The device of a receiver: the bytes that have come, the value of the semaphore, what is still to come (a
chunk, or nothing before the waiting time is over), and how much of it comes in front of each of the next
calls already. -/
structure Device where
  fifo : List UInt8
  sem : Nat
  coming : List (Option (List UInt8))
  early : List Nat

namespace Device

/-- At most `n` chunks come. -/
def arrive : Nat → Device → Device
  | 0, d => d
  | n + 1, d =>
      match d.coming with
      | some chunk :: rest =>
          -- `_rym_rx_ind`, for a 16-bit semaphore
          arrive n { d with fifo := d.fifo ++ chunk, sem := min (d.sem + 1) 65535, coming := rest }
      | _ => d

/-- What comes in front of a call. -/
def meanwhile (d : Device) : Device := arrive (d.early.headD 0) { d with early := d.early.tail }

/-- `rt_device_read(ctx->dev, 0, .., n)` -/
def read (d : Device) (n : Nat) : List UInt8 × Device :=
  (d.meanwhile.fifo.take n, { d.meanwhile with fifo := d.meanwhile.fifo.drop n })

/-- `rt_sem_take(&ctx->sem, ..) == RT_EOK` -/
def semTake (d : Device) : Bool × Device :=
  if 0 < d.meanwhile.sem then (true, { d.meanwhile with sem := d.meanwhile.sem - 1 })
  else
    match d.meanwhile.coming with
    | [] => (false, d.meanwhile)
    | none :: rest => (false, { d.meanwhile with coming := rest })
    | some chunk :: rest => (true, { d.meanwhile with fifo := d.meanwhile.fifo ++ chunk, coming := rest })

/-- How often the semaphore can be taken, at most. -/
def takes (d : Device) : Nat := d.sem + 2 * d.coming.length

theorem takes_arrive (n : Nat) (d : Device) : (arrive n d).takes ≤ d.takes := by
  induction n generalizing d with
  | zero => exact le_refl _
  | succ n ih =>
      unfold arrive
      split
      · rename_i chunk rest hcoming
        refine (ih _).trans ?_
        unfold takes
        rw [hcoming, List.length_cons]
        dsimp only
        omega
      · exact le_refl _

theorem takes_meanwhile (d : Device) : d.meanwhile.takes ≤ d.takes := takes_arrive _ _

theorem takes_read (d : Device) (n : Nat) : (d.read n).2.takes ≤ d.takes := takes_meanwhile d

theorem takes_semTake {d : Device} (h : d.semTake.1 = true) : d.semTake.2.takes < d.takes := by
  refine lt_of_lt_of_le ?_ (takes_meanwhile d)
  unfold semTake at h ⊢
  unfold takes
  split_ifs at h ⊢ with hsem
  · dsimp only
    omega
  · cases hcoming : d.meanwhile.coming with
    | nil => simp [hcoming] at h
    | cons x rest =>
        cases x with
        | none => simp [hcoming] at h
        | some chunk =>
            dsimp only
            rw [List.length_cons]
            omega

end Device

/-! ## The loops -/

/-- The slow path of `_rym_read_code`. -/
def readCodeSlow (ctx : RecvCtx) (d : Device) : RymCode × RecvCtx × Device :=
  if _h : d.semTake.1 = true then
    match (d.semTake.2.read 1).1 with
    | [b] => (b, ctx.store 0 [b], (d.semTake.2.read 1).2)
    | _ => readCodeSlow ctx (d.semTake.2.read 1).2
  else (RYM_CODE_NONE, ctx, d.semTake.2)
termination_by d.takes
decreasing_by exact (Device.takes_read _ _).trans_lt (Device.takes_semTake _h)

/-- `_rym_read_code(ctx, timeout)` -/
def readCode (ctx : RecvCtx) (d : Device) : RymCode × RecvCtx × Device :=
  match (d.read 1).1 with
  | [b] => (b, ctx.store 0 [b], (d.read 1).2)
  | _ => readCodeSlow ctx (d.read 1).2

/-- The loop of `_rym_read_data`, for the bytes that it has read. -/
def readDataLoop (len : Nat) (got : List UInt8) (d : Device) : List UInt8 × Device :=
  if (got ++ (d.read (len - got.length)).1).length ≥ len then
    (got ++ (d.read (len - got.length)).1, (d.read (len - got.length)).2)
  else if _h : (d.read (len - got.length)).2.semTake.1 = true then
    readDataLoop len (got ++ (d.read (len - got.length)).1) (d.read (len - got.length)).2.semTake.2
  else (got ++ (d.read (len - got.length)).1, (d.read (len - got.length)).2.semTake.2)
termination_by d.takes
decreasing_by exact (Device.takes_semTake _h).trans_le (Device.takes_read _ _)

/-- `_rym_read_data(ctx, len)` -/
def readData (ctx : RecvCtx) (len : Nat) (d : Device) : Nat × RecvCtx × Device :=
  ((readDataLoop len [] d).1.length, ctx.store 1 (readDataLoop len [] d).1, (readDataLoop len [] d).2)

/-! ## Any chunks are as good as any others -/

namespace Device

/-- All bytes that are still to be read. -/
def stream (d : Device) : List UInt8 := d.fifo ++ (d.coming.map fun x => x.getD []).flatten

/-- The chunks come before a waiting time is over. -/
def Flowing (d : Device) : Prop := ∀ x ∈ d.coming, x ≠ none

theorem sem_le_arrive (n : Nat) (d : Device) : min d.sem 65535 ≤ (arrive n d).sem := by
  induction n generalizing d with
  | zero => exact Nat.min_le_left _ _
  | succ n ih =>
      unfold arrive
      split
      · refine le_trans ?_ (ih _)
        dsimp only
        omega
      · exact Nat.min_le_left _ _

/-- What comes is still to be read, and the semaphore is released for it. -/
theorem arrive_spec (n : Nat) {d : Device} (h : d.Flowing) :
    (arrive n d).Flowing ∧ (arrive n d).stream = d.stream ∧
      ((arrive n d).sem = 0 → (arrive n d).fifo = d.fifo) := by
  induction n generalizing d with
  | zero => exact ⟨h, rfl, fun _ => rfl⟩
  | succ n ih =>
      unfold arrive
      split
      · rename_i chunk rest hcoming
        have hflowing : ∀ x ∈ rest, x ≠ none := fun x hx => h x (hcoming ▸ List.mem_cons_of_mem _ hx)
        obtain ⟨hf, hstream, hfifo⟩ := ih (d := { d with
          fifo := d.fifo ++ chunk, sem := min (d.sem + 1) 65535, coming := rest }) hflowing
        refine ⟨hf, hstream.trans ?_, fun hsem => ?_⟩
        · unfold stream
          rw [hcoming, List.map_cons, List.flatten_cons, Option.getD_some, List.append_assoc]
        · have hle := sem_le_arrive n { d with
            fifo := d.fifo ++ chunk, sem := min (d.sem + 1) 65535, coming := rest }
          dsimp only at hle
          omega
      · exact ⟨h, rfl, fun _ => rfl⟩

theorem meanwhile_spec {d : Device} (h : d.Flowing) : d.meanwhile.Flowing ∧
    d.meanwhile.stream = d.stream ∧ (d.meanwhile.sem = 0 → d.meanwhile.fifo = d.fifo) :=
  arrive_spec _ h

/-- The bytes that are read are the next ones; if they are too few, none is left. -/
theorem read_spec {d : Device} (h : d.Flowing) (n : Nat) : (d.read n).2.Flowing ∧
    d.stream = (d.read n).1 ++ (d.read n).2.stream ∧ (d.read n).1.length ≤ n ∧
      ((d.read n).1.length < n → (d.read n).2.fifo = []) := by
  obtain ⟨hf, hstream, -⟩ := meanwhile_spec h
  refine ⟨hf, ?_, List.length_take_le _ _, fun hlt => ?_⟩
  · rw [← hstream]
    show _ = d.meanwhile.fifo.take n ++ (d.meanwhile.fifo.drop n ++ _)
    rw [← List.append_assoc, List.take_append_drop]
    rfl
  · have hlen : (d.meanwhile.fifo.take n).length < n := hlt
    rw [List.length_take] at hlen
    exact List.drop_of_length_le (by omega)

/-- The semaphore is not taken only where nothing more comes. -/
theorem semTake_spec {d : Device} (h : d.Flowing) : d.semTake.2.Flowing ∧
    d.semTake.2.stream = d.stream ∧ (d.semTake.1 = false → d.stream = d.fifo) := by
  obtain ⟨hf, hstream, hfifo⟩ := meanwhile_spec h
  unfold semTake
  split_ifs with hsem
  · refine ⟨hf, hstream, fun hfalse => ?_⟩
    cases hfalse
  · have hzero := hfifo (by omega)
    cases hcoming : d.meanwhile.coming with
    | nil =>
        refine ⟨hf, hstream, fun _ => ?_⟩
        rw [← hstream, stream, hcoming, hzero, List.map_nil, List.flatten_nil, List.append_nil]
    | cons x rest =>
        cases x with
        | none => exact absurd rfl (hf none (hcoming ▸ List.mem_cons_self))
        | some chunk =>
            refine ⟨fun x hx => hf x (hcoming ▸ List.mem_cons_of_mem _ hx), ?_, fun hfalse => ?_⟩
            · rw [← hstream]
              unfold stream
              rw [hcoming, List.map_cons, List.flatten_cons, Option.getD_some, List.append_assoc]
            · cases hfalse

end Device

/-- **The loop of `_rym_read_data`** reads the next bytes, however they are cut. -/
theorem readDataLoop_spec (len : Nat) (got : List UInt8) (d : Device) (h : d.Flowing) :
    (readDataLoop len got d).1 = got ++ d.stream.take (len - got.length) ∧
      (readDataLoop len got d).2.stream = d.stream.drop (len - got.length) := by
  fun_induction readDataLoop len got d with
  | case1 got d hlen =>
      obtain ⟨-, hstream, hle, -⟩ := Device.read_spec h (len - got.length)
      rw [List.length_append] at hlen
      have hall : (d.read (len - got.length)).1.length = len - got.length := by omega
      constructor
      · rw [hstream, List.take_left' hall]
      · rw [hstream, List.drop_left' hall]
  | case2 got d hlen htake ih =>
      obtain ⟨hf, hstream, -, -⟩ := Device.read_spec h (len - got.length)
      obtain ⟨hf', hstream', -⟩ := Device.semTake_spec hf
      obtain ⟨hgot, hrest⟩ := ih hf'
      rw [List.length_append] at hlen
      have hsub : len - got.length - (d.read (len - got.length)).1.length =
          len - (got ++ (d.read (len - got.length)).1).length := by
        rw [List.length_append]
        omega
      have htakeAll : (d.read (len - got.length)).1.take (len - got.length) =
          (d.read (len - got.length)).1 := List.take_of_length_le (by omega)
      have hdropAll : (d.read (len - got.length)).1.drop (len - got.length) = [] :=
        List.drop_of_length_le (by omega)
      constructor
      · rw [hgot, hstream', hstream, List.take_append, htakeAll, hsub, List.append_assoc]
      · rw [hrest, hstream', hstream, List.drop_append, hdropAll, hsub, List.nil_append]
  | case3 got d hlen htake =>
      obtain ⟨hf, hstream, -, hempty⟩ := Device.read_spec h (len - got.length)
      obtain ⟨-, hstream', hover⟩ := Device.semTake_spec hf
      rw [List.length_append] at hlen
      have hnil : (d.read (len - got.length)).2.stream = [] :=
        (hover (Bool.eq_false_of_not_eq_true htake)).trans (hempty (by omega))
      rw [hnil, List.append_nil] at hstream
      rw [hnil] at hstream'
      constructor
      · rw [hstream, List.take_of_length_le (by omega)]
      · rw [hstream', hstream, List.drop_of_length_le (by omega)]

/-- A byte is read, or none is there. -/
theorem Device.read_one {d : Device} (h : d.Flowing) : (d.read 1).2.Flowing ∧
    ((∃ b, (d.read 1).1 = [b] ∧ d.stream = b :: (d.read 1).2.stream) ∨
      ((d.read 1).1 = [] ∧ (d.read 1).2.stream = d.stream ∧ (d.read 1).2.fifo = [])) := by
  obtain ⟨hf, hs, hlen, hempty⟩ := Device.read_spec h 1
  refine ⟨hf, ?_⟩
  obtain hzero | hone := Nat.le_one_iff_eq_zero_or_eq_one.mp hlen
  · have hnil := List.eq_nil_of_length_eq_zero hzero
    rw [hnil, List.nil_append] at hs
    exact .inr ⟨hnil, hs.symm, hempty (by omega)⟩
  · obtain ⟨b, hb⟩ := List.length_eq_one_iff.mp hone
    rw [hb, List.singleton_append] at hs
    exact .inl ⟨b, hb, hs⟩

/-- The next byte of the stream, where the fast path has found none. -/
theorem readCodeSlow_spec {b : UInt8} {s : List UInt8} (ctx : RecvCtx) (d : Device) (h : d.Flowing)
    (hfifo : d.fifo = []) (hstream : d.stream = b :: s) :
    ∃ d', readCodeSlow ctx d = (b, ctx.store 0 [b], d') ∧ d'.Flowing ∧ d'.stream = s := by
  fun_induction readCodeSlow ctx d with
  | case1 d htake b' hread =>
      obtain ⟨hf, hs, -⟩ := Device.semTake_spec h
      obtain ⟨hf', ⟨c, hc, hs'⟩ | ⟨hnil, -⟩⟩ := Device.read_one hf
      · rw [hs, hstream] at hs'
        obtain ⟨rfl, hrest⟩ := List.cons.inj hs'
        cases hread.symm.trans hc
        exact ⟨_, rfl, hf', hrest.symm⟩
      · cases hread.symm.trans hnil
  | case2 d htake hread ih =>
      obtain ⟨hf, hs, -⟩ := Device.semTake_spec h
      obtain ⟨hf', ⟨c, hc, -⟩ | ⟨-, hs', hempty⟩⟩ := Device.read_one hf
      · exact absurd hc (hread c)
      · exact ih hf' hempty (by rw [hs', hs, hstream])
  | case3 d htake =>
      have hover := (Device.semTake_spec h).2.2 (Bool.eq_false_of_not_eq_true htake)
      rw [hstream, hfifo] at hover
      cases hover

/-- **The next byte of the stream.** -/
theorem readCode_spec {b : UInt8} {s : List UInt8} (ctx : RecvCtx) {d : Device} (h : d.Flowing)
    (hstream : d.stream = b :: s) :
    ∃ d', readCode ctx d = (b, ctx.store 0 [b], d') ∧ d'.Flowing ∧ d'.stream = s := by
  unfold readCode
  obtain ⟨hf, ⟨c, hc, hs⟩ | ⟨hnil, hs, hempty⟩⟩ := Device.read_one h
  · rw [hstream] at hs
    obtain ⟨rfl, hrest⟩ := List.cons.inj hs
    rw [hc]
    exact ⟨_, rfl, hf, hrest.symm⟩
  · rw [hnil]
    exact readCodeSlow_spec ctx _ hf hempty (hs.trans hstream)

/-! ## A waiting time in which nothing comes -/

namespace Device

/-- Nothing comes before the waiting time is over. -/
def Quiet (d : Device) (rest : List (Option (List UInt8))) : Prop := d.fifo = [] ∧ d.coming = none :: rest

theorem Quiet.meanwhile {d : Device} {rest : List (Option (List UInt8))} (h : d.Quiet rest) :
    d.meanwhile.fifo = [] ∧ d.meanwhile.coming = none :: rest := by
  have harrive : ∀ n, arrive n { d with early := d.early.tail } = { d with early := d.early.tail } := by
    intro n
    cases n with
    | zero => rfl
    | succ n =>
        unfold arrive
        split
        · rename_i chunk rest' hcoming
          cases h.2.symm.trans hcoming
        · rfl
  unfold Device.meanwhile
  rw [harrive]
  exact ⟨h.1, h.2⟩

theorem Quiet.read {d : Device} {rest : List (Option (List UInt8))} (h : d.Quiet rest) (n : Nat) :
    (d.read n).1 = [] ∧ (d.read n).2.Quiet rest := by
  obtain ⟨hfifo, hcoming⟩ := h.meanwhile
  unfold Device.read
  rw [hfifo, List.take_nil, List.drop_nil]
  exact ⟨rfl, rfl, hcoming⟩

/-- A token is left, or the waiting time is over. -/
theorem Quiet.semTake {d : Device} {rest : List (Option (List UInt8))} (h : d.Quiet rest) :
    (d.semTake.1 = true ∧ d.semTake.2.Quiet rest) ∨
      (d.semTake.1 = false ∧ d.semTake.2.fifo = [] ∧ d.semTake.2.coming = rest) := by
  obtain ⟨hfifo, hcoming⟩ := h.meanwhile
  unfold Device.semTake
  split_ifs with hsem
  · exact .inl ⟨rfl, hfifo, hcoming⟩
  · rw [hcoming]
    exact .inr ⟨rfl, hfifo, rfl⟩

end Device

/-- The tokens that are left are taken, and no byte is read. -/
theorem readCodeSlow_quiet {rest : List (Option (List UInt8))} (ctx : RecvCtx) (d : Device)
    (h : d.Quiet rest) : ∃ d', readCodeSlow ctx d = (RYM_CODE_NONE, ctx, d') ∧ d'.fifo = [] ∧
      d'.coming = rest := by
  fun_induction readCodeSlow ctx d with
  | case1 d htake b hread =>
      obtain ⟨-, hquiet⟩ | ⟨hfalse, -⟩ := h.semTake
      · cases hread.symm.trans (hquiet.read 1).1
      · cases htake.symm.trans hfalse
  | case2 d htake hread ih =>
      obtain ⟨-, hquiet⟩ | ⟨hfalse, -⟩ := h.semTake
      · exact ih (hquiet.read 1).2
      · cases htake.symm.trans hfalse
  | case3 d htake =>
      obtain ⟨htrue, -⟩ | ⟨-, hfifo, hcoming⟩ := h.semTake
      · exact absurd htrue htake
      · exact ⟨_, rfl, hfifo, hcoming⟩

theorem readCode_quiet {rest : List (Option (List UInt8))} (ctx : RecvCtx) {d : Device} (h : d.Quiet rest) :
    ∃ d', readCode ctx d = (RYM_CODE_NONE, ctx, d') ∧ d'.fifo = [] ∧ d'.coming = rest := by
  obtain ⟨hnil, hquiet⟩ := h.read 1
  unfold readCode
  rw [hnil]
  exact readCodeSlow_quiet ctx _ hquiet

end RTThread.Ymodem
