import RTThread.Drivers.Pipe

set_option autoImplicit false

/-! # What goes through a pipe

As long as a ring buffer lives, what was returned by reads and what is in the buffer are the bytes that were
accepted by writes, in their order. The end of a file is told by the counter of the writers alone, whatever
the buffer holds; and the last close destroys the buffer with all that is in it.
-/

namespace RTThread.Pipes

open Drivers Trans

variable {rb : Ringbuffer} {bytes : List Byte}

/-! ## Blocks of data with a length in a halfword -/

/-- `rt_ringbuffer_put` accepts bytes from the front of the caller's buffer. -/
theorem put_u16 (h : Represents rb bytes) (pbuf : List Byte) :
    ∃ k rb', rtRingbufferPut rb (pbuf.take (u16 pbuf.length)) (u16 pbuf.length) = (k, rb') ∧
      k = min (u16 pbuf.length) (rb.bufferSize - bytes.length) ∧ rb'.bufferSize = rb.bufferSize ∧
        Represents rb' (bytes ++ pbuf.take k) := by
  have hlen : (pbuf.take (u16 pbuf.length)).length = u16 pbuf.length := by
    rw [List.length_take]
    exact min_eq_left (Nat.mod_le _ _)
  obtain ⟨rb', hput, hsize, h'⟩ := h.put (pbuf.take (u16 pbuf.length))
  rw [hlen] at hput h'
  refine ⟨_, rb', hput, rfl, hsize, ?_⟩
  rwa [List.take_take, min_eq_left (min_le_left _ _)] at h'

/-- The buffer that a pipe gets is empty. -/
theorem represents_create {size : UInt16} {pool : Option (Nat → Byte)}
    (h : rtRingbufferCreate size pool = some (some rb)) : Represents rb [] := by
  unfold rtRingbufferCreate at h
  split_ifs at h with hpos
  cases pool with
  | none => cases h
  | some pool =>
    simp only [Option.map_eq_some_iff, Option.some.injEq, exists_eq_right] at h
    have hsize : size.toNat < 65536 := size.toNat_lt
    have halign : Memheap.rtAlignDown size.toNat ≤ size.toNat := Nat.div_mul_le_self _ _
    by_cases hlt : Memheap.rtAlignDown size.toNat < 32768
    · rw [if_pos hlt] at h
      apply represents_init (by omega) h
      unfold rtRingbufferInit at h
      split_ifs at h with h₁
      cases h
      unfold Memheap.rtAlignDown Memheap.RT_ALIGN_SIZE at h₁ ⊢
      dsimp only
      omega
    · -- a negative size
      rw [if_neg hlt] at h
      unfold rtRingbufferInit at h
      rw [if_neg (by omega)] at h
      cases h

namespace PipeSys

/-! ## The part of a state that the bytes depend on -/

/-- What the steps of the wait queues do not change. -/
structure Stream where
  fifo : Option Ringbuffer
  readers : Nat
  writers : Nat
  fds : AccMode → Nat
  lives : List Life
  eofs : List (Nat × List Byte)

def stream (s : PipeSys) : Stream :=
  ⟨s.pipe.fifo, s.pipe.readers, s.pipe.writers, s.fds, s.lives, s.eofs⟩

section Lemmas

variable {s : PipeSys} {t : TId} {pc : Pc} {σ : Side} {q : WQueue} {op : Op} {ret : Ret}

@[simp] theorem stream_setPc : (s.setPc t pc).stream = s.stream := rfl

@[simp] theorem stream_setQueue : (s.setQueue σ q).stream = s.stream := rfl

@[simp] theorem stream_finish : (s.finish t ret).stream = s.stream := rfl

@[simp] theorem stream_rtWqueueWakeup : (s.rtWqueueWakeup σ).stream = s.stream := by
  unfold rtWqueueWakeup
  split <;> rfl

@[simp] theorem stream_rtWqueueWait : (s.rtWqueueWait t op).stream = s.stream := by
  unfold rtWqueueWait
  by_cases h : (s.pipe.queue op.side).flag = true
  · simp only [if_pos h, stream_setPc, stream_setQueue]
  · simp only [if_neg h, stream_setPc, stream_setQueue]

@[simp] theorem stream_rtWqueueWoken : (s.rtWqueueWoken t op).stream = s.stream := rfl

end Lemmas

/-! ## The property -/

structure StreamInv (x : Stream) : Prop where
  readers : x.readers = (x.fds .rdonly + x.fds .rdwr) % 256
  writers : x.writers = (x.fds .wronly + x.fds .rdwr) % 256
  fifo : ∀ rb, x.fifo = some rb → ∃ l ls bytes, x.lives = l :: ls ∧ Represents rb bytes ∧
    l.accepted = l.returned ++ bytes
  lives : ∀ l ∈ x.lives, l.returned <+: l.accepted
  eofs : ∀ e ∈ x.eofs, e.1 % 256 = 0

namespace StreamInv

variable {s s' : PipeSys} {t : TId} {x : Stream} {mode : AccMode}

theorem init (h : s.Init) : StreamInv s.stream := by
  rw [h]
  constructor <;> simp [stream]

/-- A read returns 0. -/
theorem eof (i : StreamInv s.stream) (h : s.pipe.writers = 0) : StreamInv (s.eof t).stream := by
  refine { i with eofs := fun e he => ?_ }
  rcases List.mem_cons.mp he with rfl | he
  · exact i.writers.symm.trans h
  · exact i.eofs e he

/-- The bytes that a read gets are the first ones in the buffer. -/
theorem get {l : List Byte} {len n : Nat} {rb rb' : Ringbuffer} (i : StreamInv s.stream)
    (hrb : s.pipe.fifo = some rb) (h : rtRingbufferGet rb n = (len, l, rb')) :
    StreamInv ((s.setFifo (some rb')).deliver l).stream := by
  obtain ⟨life, ls, bytes, hl, hrep, hacc⟩ := i.fifo rb hrb
  obtain ⟨rb'', hget, -, hrep'⟩ := hrep.get n
  rw [h, Prod.mk.injEq, Prod.mk.injEq] at hget
  obtain ⟨-, rfl, rfl⟩ := hget
  have hlives : s.lives = life :: ls := hl
  have hdeliver : ((s.setFifo (some rb')).deliver (bytes.take n)).lives =
      ⟨life.accepted, life.returned ++ bytes.take n⟩ :: ls := by
    simp only [deliver, setFifo, hlives]
  have hsplit : life.accepted = life.returned ++ bytes.take n ++ bytes.drop n := by
    rw [hacc, List.append_assoc, List.take_append_drop]
  refine { i with fifo := fun r hr => ?_, lives := fun m hm => ?_ }
  · obtain rfl := Option.some.inj hr
    exact ⟨_, ls, bytes.drop n, hdeliver, hrep', hsplit⟩
  · change m ∈ ((s.setFifo (some rb')).deliver (bytes.take n)).lives at hm
    rw [hdeliver] at hm
    rcases List.mem_cons.mp hm with rfl | hm
    · exact ⟨bytes.drop n, hsplit.symm⟩
    · exact i.lives m (by rw [show s.stream.lives = _ from hl]; exact List.mem_cons_of_mem _ hm)

/-- The bytes that a write puts come behind those in the buffer. -/
theorem put {len : Nat} {rb rb' : Ringbuffer} (i : StreamInv s.stream) (pbuf : List Byte)
    (hrb : s.pipe.fifo = some rb)
    (h : rtRingbufferPut rb (pbuf.take (u16 pbuf.length)) (u16 pbuf.length) = (len, rb')) :
    StreamInv ((s.setFifo (some rb')).accept (pbuf.take len)).stream := by
  obtain ⟨life, ls, bytes, hl, hrep, hacc⟩ := i.fifo rb hrb
  obtain ⟨k, rb'', hput, -, -, hrep'⟩ := put_u16 hrep pbuf
  rw [h, Prod.mk.injEq] at hput
  obtain ⟨rfl, rfl⟩ := hput
  have hlives : s.lives = life :: ls := hl
  have haccept : ((s.setFifo (some rb')).accept (pbuf.take len)).lives =
      ⟨life.accepted ++ pbuf.take len, life.returned⟩ :: ls := by
    simp only [accept, setFifo, hlives]
  have hsplit : life.accepted ++ pbuf.take len = life.returned ++ (bytes ++ pbuf.take len) := by
    rw [hacc, List.append_assoc]
  refine { i with fifo := fun r hr => ?_, lives := fun m hm => ?_ }
  · obtain rfl := Option.some.inj hr
    exact ⟨_, ls, _, haccept, hrep', hsplit⟩
  · change m ∈ ((s.setFifo (some rb')).accept (pbuf.take len)).lives at hm
    rw [haccept] at hm
    rcases List.mem_cons.mp hm with rfl | hm
    · exact ⟨_, hsplit.symm⟩
    · exact i.lives m (by rw [show s.stream.lives = _ from hl]; exact List.mem_cons_of_mem _ hm)

/-- A descriptor is opened. -/
theorem opened (i : StreamInv s.stream) : StreamInv (s.opened mode).stream := by
  have hr : s.pipe.readers = _ := i.readers
  have hw : s.pipe.writers = _ := i.writers
  have hpipe : (count inc mode s.pipe).fifo = s.pipe.fifo := by cases mode <;> rfl
  refine { i with readers := ?_, writers := ?_, fifo := ?_ }
  · cases mode <;> simp [stream, PipeSys.opened, count, inc, Function.update] at hr ⊢ <;> omega
  · cases mode <;> simp [stream, PipeSys.opened, count, inc, Function.update] at hw ⊢ <;> omega
  · intro rb hrb
    change (count inc mode s.pipe).fifo = some rb at hrb
    exact i.fifo rb (hpipe.symm.trans hrb)

/-- A new ring buffer. -/
theorem create {rb : Ringbuffer} (i : StreamInv s.stream) (h : Represents rb []) :
    StreamInv { s.setFifo (some rb) with lives := ⟨[], []⟩ :: s.lives }.stream := by
  refine { i with fifo := fun r hr => ?_, lives := fun l hl => ?_ }
  · obtain rfl := Option.some.inj hr
    exact ⟨⟨[], []⟩, s.lives, [], rfl, h, rfl⟩
  · rcases List.mem_cons.mp hl with rfl | hl
    · exact List.prefix_rfl
    · exact i.lives l hl

/-- There is no ring buffer any more. -/
theorem setFifo_none (i : StreamInv s.stream) : StreamInv (s.setFifo none).stream :=
  { i with fifo := fun rb h => by cases h }

theorem openFd {pool : Option (Nat → Byte)} (i : StreamInv s.stream)
    (h : s.pipeFopsOpen mode pool = some s') : StreamInv s'.stream := by
  unfold pipeFopsOpen at h
  by_cases hr : s.pipe.refCount = 0
  · rw [if_pos hr] at h
    cases hc : rtRingbufferCreate s.pipe.bufsz pool with
    | none =>
      rw [hc] at h
      cases h
    | some fifo =>
      rw [hc] at h
      cases fifo with
      | none =>
        cases h
        exact i.setFifo_none
      | some rb =>
        cases h
        exact (i.create (represents_create hc)).opened
  · rw [if_neg hr] at h
    cases h
    exact i.opened

/-- A descriptor is closed. -/
theorem closeFd (i : StreamInv s.stream) (h : 0 < s.fds mode) :
    StreamInv (s.pipeFopsClose t mode).stream := by
  have hr : s.pipe.readers = _ := i.readers
  have hw : s.pipe.writers = _ := i.writers
  have hpipe : (count dec mode s.pipe).fifo = s.pipe.fifo := by cases mode <;> rfl
  refine { i with readers := ?_, writers := ?_, fifo := ?_ }
  · cases mode <;> simp [stream, pipeFopsClose, count, dec, Function.update] at hr ⊢ <;> omega
  · cases mode <;> simp [stream, pipeFopsClose, count, dec, Function.update] at hw ⊢ <;> omega
  · intro rb hrb
    change (count dec mode s.pipe).fifo = some rb at hrb
    exact i.fifo rb (hpipe.symm.trans hrb)

theorem closeEnd (i : StreamInv s.stream) : StreamInv (s.closeEnd t).stream := by
  refine { i with fifo := fun rb h => ?_ }
  simp only [stream, PipeSys.closeEnd] at h
  split_ifs at h
  exact i.fifo rb h

/-- **A pass of a loop.** -/
theorem pass {op : Op} (i : StreamInv s.stream) (h : s.pass t op = some s') : StreamInv s'.stream := by
  cases op with
  | read n nonblock =>
    rw [PipeSys.pass, Option.map_eq_some_iff] at h
    obtain ⟨r, hr, rfl⟩ := h
    unfold readPass at hr
    by_cases hw : s.pipe.writers = 0
    · rw [if_pos hw] at hr
      cases hr
      exact i.eof hw
    rw [if_neg hw] at hr
    cases hrb : s.pipe.fifo with
    | none =>
      rw [hrb] at hr
      cases hr
    | some rb =>
      simp only [hrb] at hr
      split_ifs at hr
      · cases hr
        simp only [stream_finish, stream_rtWqueueWakeup]
        exact i.get hrb rfl
      · cases hr
        exact i
      · cases hr
        exact i
  | write pbuf ret nonblock wakeup =>
    rw [PipeSys.pass, Option.map_eq_some_iff] at h
    obtain ⟨r, hr, rfl⟩ := h
    unfold writePass at hr
    by_cases hw : s.pipe.readers = 0
    · rw [if_pos hw] at hr
      cases hr
      dsimp only
      split_ifs <;> exact i
    rw [if_neg hw] at hr
    cases hrb : s.pipe.fifo with
    | none =>
      rw [hrb] at hr
      cases hr
    | some rb =>
      simp only [hrb, Option.some.injEq] at hr
      subst hr
      have hput := i.put pbuf hrb rfl
      dsimp only
      split <;> exact hput

/-- **A step of a call.** -/
theorem step (i : StreamInv s.stream) (h : s.step t = some s') : StreamInv s'.stream := by
  unfold PipeSys.step at h
  cases hpc : s.pc t with
  | idle =>
    rw [hpc] at h
    cases h
  | inside stage op =>
    rw [hpc] at h
    cases stage with
    | take =>
      dsimp only at h
      split_ifs at h
      exact i.pass h
    | wake =>
      cases h
      simpa using i
    | wait =>
      cases h
      simpa using i
    | sleep => cases h
    | woken =>
      cases h
      exact i
  | written r =>
    rw [hpc] at h
    cases h
    simpa using i
  | closing r w =>
    rw [hpc] at h
    cases r with
    | true =>
      cases h
      simpa using i
    | false =>
      cases w with
      | true =>
        cases h
        simpa using i
      | false =>
        cases h
        exact i.closeEnd
  | closed =>
    rw [hpc] at h
    cases h
    exact i

theorem exec {a : PipeAction} (i : StreamInv s.stream) (h : s.exec a = some s') :
    StreamInv s'.stream := by
  unfold PipeSys.exec at h
  by_cases hd : s.deleted = true
  · rw [if_pos hd] at h
    cases h
  rw [if_neg hd] at h
  cases a with
  | openFd mode pool =>
    dsimp only at h
    split_ifs at h
    exact i.openFd h
  | closeFd t mode =>
    dsimp only at h
    split_ifs at h with hg
    cases h
    exact i.closeFd hg.2.2
  | read t n nonblock =>
    dsimp only at h
    split_ifs at h with _ hw
    · cases h
      exact i.eof hw
    · cases h
      exact i
  | write t buf nonblock =>
    dsimp only at h
    split_ifs at h <;> cases h <;> exact i
  | step t => exact i.step h

end StreamInv

section Cases

theorem reachable_of_run {as : List PipeAction} {s : PipeSys}
    (h : runList exec (start true 4) as = some s) :
    Reachable Init (fun s a s' => exec s a = some s') s :=
  reachable_of_runList (.init init_start) h

end Cases

end PipeSys

end RTThread.Pipes
