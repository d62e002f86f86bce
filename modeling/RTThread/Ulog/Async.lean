import RTThread.Drivers.RingblkOrder
import RTThread.Ipc.SoloSem
import RTThread.Lib.Notice

set_option autoImplicit false

/-! # Asynchronous logs (`ulog.c`)

`do_output` puts a log in a block of the ring block buffer and releases `async_notice`; the output thread
drains the buffer, resets the semaphore and takes it. A block that is put, and whose notice is released, after
the drain and before the reset is forgotten. The puts are numbered, and `due` has the numbers of those whose
notice is not released yet; a frame is kept beside its block.
-/

namespace RTThread.Ulog

open Drivers Ipc Notice

def ULOG_FRAME_MAGIC : UInt8 := 0x10

/-- `struct ulog_frame`, with the text that follows it. -/
structure UlogFrame where
  magic : UInt8
  isRaw : Bool
  level : UInt32
  tag : String
  log : List UInt8
  deriving DecidableEq

/-- `RT_ALIGN(sizeof(struct ulog_frame) + log_len, RT_ALIGN_SIZE)` -/
def frameSize (logLen : Nat) : Nat := (16 + logLen + 3) / 4 * 4 % 2 ^ 32

/-- Where a thread or an interrupt is in `do_output`. -/
inductive OutputPc
  | idle
  /-- before `rt_rbb_blk_put` -/
  | filled (block : Nat)
  /-- before `rt_sem_release`, after the put `n` -/
  | put (n : Nat)
  deriving DecidableEq

/-- Where the output thread is in `async_output_thread_entry`. -/
inductive AsyncPc
  /-- before `rt_rbb_blk_get` -/
  | get
  /-- with a block to output and to free -/
  | output (block : Nat)
  /-- before `rt_sem_control` -/
  | reset
  /-- before `rt_sem_take` -/
  | take
  /-- after the `rt_schedule` of `rt_sem_take` -/
  | wait
  deriving DecidableEq

structure UlogSys where
  asyncRbb : Rbb
  asyncNotice : SoloSem
  frame : Nat → UlogFrame
  /-- the `static` of `do_output` -/
  alreadyOutput : Bool
  caller : Nat → OutputPc
  pc : AsyncPc
  /-- what the backends were given -/
  output : List UlogFrame
  puts : Nat
  number : Nat → Nat
  due : List Nat

namespace UlogSys

def setCaller (s : UlogSys) (i : Nat) (pc : OutputPc) : UlogSys :=
  { s with caller := Function.update s.caller i pc }

/-- `do_output` up to the copied text; `none` where an assertion fails. -/
def fill (s : UlogSys) (i : Nat) (level : UInt32) (tag : String) (isRaw : Bool) (log : List UInt8) :
    Option UlogSys :=
  (rtRbbBlkAlloc s.asyncRbb (frameSize log.length)).map fun r =>
    match r.1 with
    | some block =>
        { s.setCaller i (.filled block) with
          asyncRbb := r.2
          frame := Function.update s.frame block ⟨ULOG_FRAME_MAGIC, isRaw, level, tag, log⟩ }
    | none => { s with asyncRbb := r.2, alreadyOutput := true }

/-- `rt_rbb_blk_put(log_blk)` -/
def put (s : UlogSys) (i block : Nat) : Option UlogSys :=
  (rtRbbBlkPut s.asyncRbb block).map fun rbb =>
    { s.setCaller i (.put s.puts) with
      asyncRbb := rbb
      puts := s.puts + 1
      number := Function.update s.number block s.puts
      due := s.puts :: s.due }

/-- `rt_sem_release(&ulog.async_notice)` -/
def release (s : UlogSys) (i n : Nat) : UlogSys :=
  { s.setCaller i .idle with
    asyncNotice := s.asyncNotice.rtSemRelease
    due := s.due.filter (· ≠ n) }

/-- `async_output_thread_entry`, up to its next place. -/
def asyncOutputThreadEntry (s : UlogSys) : Option UlogSys :=
  match s.pc with
  | .get =>
      match rtRbbBlkGet s.asyncRbb with
      | (some block, rbb) => some { s with asyncRbb := rbb, pc := .output block }
      | (none, rbb) => some { s with asyncRbb := rbb, pc := .reset }
  | .output block =>
      (rtRbbBlkFree s.asyncRbb block).map fun rbb =>
        { s with
          asyncRbb := rbb
          output :=
            if (s.frame block).magic = ULOG_FRAME_MAGIC then s.output ++ [s.frame block] else s.output
          pc := .get }
  | .reset => some { s with asyncNotice := s.asyncNotice.rtSemReset 0, pc := .take }
  | .take =>
      -- `RT_WAITING_FOREVER`
      match s.asyncNotice.rtSemTake (-1) with
      | (some _, sem) => some { s with asyncNotice := sem, pc := .get }
      | (none, sem) => some { s with asyncNotice := sem, pc := .wait }
  | .wait => if s.asyncNotice.suspended then none else some { s with pc := .get }

end UlogSys

inductive UlogAction
  | doOutput (i : Nat) (level : UInt32) (tag : String) (isRaw : Bool) (log : List UInt8)
  | put (i block : Nat)
  | release (i n : Nat)
  | async

namespace UlogSys

def exec (s : UlogSys) : UlogAction → Option UlogSys
  | .doOutput i level tag isRaw log => if s.caller i = .idle then s.fill i level tag isRaw log else none
  | .put i block => if s.caller i = .filled block then s.put i block else none
  | .release i n => if s.caller i = .put n then some (s.release i n) else none
  | .async => s.asyncOutputThreadEntry

/-- After `ulog_init`, before a call of `do_output`. -/
def Init (s : UlogSys) : Prop :=
  s.asyncRbb.blkList = [] ∧ s.asyncNotice = ⟨0, false⟩ ∧ s.pc = .get ∧ (∀ i, s.caller i = .idle) ∧ s.due = []

/-- A block is put, its notice is released, and it is still in the buffer. -/
def Waiting (s : UlogSys) : Prop :=
  ∃ b ∈ s.asyncRbb.blkList, (s.asyncRbb.blk b).status = .put ∧ s.number b ∉ s.due

/-- `Waiting`, or it would be with the notice of the put `n`. -/
def WaitingWith (s : UlogSys) (n : Nat) : Prop :=
  ∃ b ∈ s.asyncRbb.blkList, (s.asyncRbb.blk b).status = .put ∧ (s.number b = n ∨ s.number b ∉ s.due)

instance Waiting.decidable (s : UlogSys) : Decidable s.Waiting :=
  inferInstanceAs (Decidable (∃ b ∈ _, _))

instance WaitingWith.decidable (s : UlogSys) (n : Nat) : Decidable (s.WaitingWith n) :=
  inferInstanceAs (Decidable (∃ b ∈ _, _))

/-- The notice of a block in the buffer is not released between a drain and the reset, and the value does not
overflow between the reset and the take. -/
def Timely (s : UlogSys) : UlogAction → Prop
  | .release _ n =>
      s.WaitingWith n →
        s.pc ≠ .reset ∧ (s.pc = .take → (s.asyncNotice.value + 1) % 2 ^ 16 ≠ 0)
  | _ => True

instance Timely.decidable (s : UlogSys) (a : UlogAction) : Decidable (s.Timely a) := by
  cases a <;> unfold Timely <;> infer_instance

/-! ## The output thread as a consumer of notices -/

/-- What the output thread is to the callers of `do_output`. -/
def consumer (s : UlogSys) : Consumer :=
  ⟨s.asyncNotice.value,
    match s.pc with
    | .reset => .looked
    | .take => .cleared
    | .wait => if s.asyncNotice.suspended then .asleep else .busy
    | _ => .busy⟩

/-- The output thread is suspended in `rt_sem_take` only, and not on a block whose notice is released. -/
structure Inv (s : UlogSys) : Prop where
  awake : s.consumer.Awake s.Waiting
  wait : s.asyncNotice.suspended = true → s.pc = .wait

variable {s s' : UlogSys} {i n block : Nat} {a : UlogAction}

theorem consumer_looked : s.consumer.pc = .looked ↔ s.pc = .reset := by
  unfold consumer
  cases s.pc with
  | wait => cases s.asyncNotice.suspended <;> simp
  | _ => simp

theorem consumer_cleared : s.consumer.pc = .cleared ↔ s.pc = .take := by
  unfold consumer
  cases s.pc with
  | wait => cases s.asyncNotice.suspended <;> simp
  | _ => simp

theorem consumer_asleep : s.consumer.pc = .asleep ↔ s.pc = .wait ∧ s.asyncNotice.suspended = true := by
  unfold consumer
  cases s.pc with
  | wait => cases s.asyncNotice.suspended <;> simp
  | _ => simp

/-! ## The blocks -/

/-- An allocated block is a new one, and is not put yet. -/
theorem alloc_put {rbb rbb' : Rbb} {size b : Nat} {ans : Option Nat}
    (h : rtRbbBlkAlloc rbb size = some (ans, rbb')) (hb : b ∈ rbb'.blkList)
    (hst : (rbb'.blk b).status = .put) : b ∈ rbb.blkList ∧ (rbb.blk b).status = .put := by
  obtain rfl | ⟨new, buf, hnew, rfl⟩ := rtRbbBlkAlloc_append h
  · exact ⟨hb, hst⟩
  obtain ⟨-, hunused⟩ := findEmptyBlkInSet_some hnew
  change ((rbb.setBlk new ⟨.inited, size, buf⟩).blk b).status = .put at hst
  have hne : b ≠ new := by
    rintro rfl
    by_cases hlt : b < rbb.blkSet.length
    · rw [Rbb.blk_setBlk hlt, if_pos rfl] at hst
      cases hst
    · have hsame : rbb.setBlk b ⟨.inited, size, buf⟩ = rbb := by
        unfold Rbb.setBlk
        rw [List.set_eq_of_length_le (Nat.not_lt.mp hlt)]
      rw [hsame, hunused] at hst
      cases hst
  have hblk : (rbb.setBlk new ⟨.inited, size, buf⟩).blk b = rbb.blk b := by
    unfold Rbb.setBlk Rbb.blk
    rw [List.getD_eq_getElem?_getD, List.getElem?_set_ne (Ne.symm hne), List.getD_eq_getElem?_getD]
  rw [hblk] at hst
  refine ⟨?_, hst⟩
  obtain hold | hlast := List.mem_append.mp hb
  · exact hold
  · exact absurd (List.mem_singleton.mp hlast) hne

/-- A put changes the status of its block only. -/
theorem put_blk {rbb rbb' : Rbb} (h : rtRbbBlkPut rbb block = some rbb') :
    rbb'.blkList = rbb.blkList ∧ ∀ b ≠ block, (rbb'.blk b).status = (rbb.blk b).status := by
  unfold rtRbbBlkPut at h
  split_ifs at h with hst
  obtain rfl := Option.some.inj h
  refine ⟨rfl, fun b hb => ?_⟩
  rw [Rbb.blk_setBlk (Rbb.lt_length (by rw [hst]; simp)), if_neg hb]

/-! ## The invariant -/

namespace Inv

theorem init (h : s.Init) : s.Inv := by
  obtain ⟨-, hsem, hpc, -⟩ := h
  constructor
  case awake =>
    apply Consumer.Awake.of_busy
    simp [consumer, hpc]
  case wait =>
    intro hs
    rw [hsem] at hs
    cases hs

/-- The output thread is where it was, and fewer blocks wait. -/
theorem mono (h : s.Inv) (hsem : s'.asyncNotice = s.asyncNotice) (hpc : s'.pc = s.pc)
    (hw : s'.Waiting → s.Waiting) : s'.Inv := by
  have hc : s'.consumer = s.consumer := by
    unfold consumer
    rw [hsem, hpc]
  constructor
  case awake =>
    rw [hc]
    exact h.awake.mono hw
  case wait =>
    rw [hsem, hpc]
    exact h.wait

theorem not_suspended (h : s.Inv) (hpc : s.pc ≠ .wait) : s.asyncNotice.suspended = false :=
  Bool.eq_false_iff.mpr fun hs => hpc (h.wait hs)

theorem of_busy (hpc : s.consumer.pc = .busy) (hs : s.asyncNotice.suspended = false) : s.Inv where
  awake := .of_busy hpc
  wait h := by rw [hs] at h; cases h

theorem fill (h : s.Inv) {level : UInt32} {tag : String} {isRaw : Bool} {log : List UInt8}
    (he : s.fill i level tag isRaw log = some s') : s'.Inv := by
  obtain ⟨⟨ans, rbb⟩, halloc, rfl⟩ := Option.map_eq_some_iff.mp he
  cases ans with
  | none =>
      apply h.mono
      · rfl
      · rfl
      rintro ⟨b, hb, hst, hdue⟩
      obtain ⟨hb, hst⟩ := alloc_put halloc hb hst
      exact ⟨b, hb, hst, hdue⟩
  | some block =>
      apply h.mono
      · rfl
      · rfl
      rintro ⟨b, hb, hst, hdue⟩
      obtain ⟨hb, hst⟩ := alloc_put halloc hb hst
      exact ⟨b, hb, hst, hdue⟩

/-- A block that is put waits when its notice is released, not before. -/
theorem put (h : s.Inv) (he : s.put i block = some s') : s'.Inv := by
  obtain ⟨rbb, hput, rfl⟩ := Option.map_eq_some_iff.mp he
  obtain ⟨hlist, hother⟩ := put_blk hput
  apply h.mono
  · rfl
  · rfl
  rintro ⟨b, hb, hst, hdue⟩
  dsimp only at hb hst hdue
  rw [List.mem_cons, not_or] at hdue
  have hne : b ≠ block := by
    rintro rfl
    exact hdue.1 (Function.update_self ..)
  rw [Function.update_of_ne hne] at hdue
  exact ⟨b, hlist ▸ hb, hother b hne ▸ hst, hdue.2⟩

theorem release (h : s.Inv) (ht : s.Timely (.release i n)) : (s.release i n).Inv := by
  have hwith : (s.release i n).Waiting → s.WaitingWith n := by
    rintro ⟨b, hb, hst, hdue⟩
    refine ⟨b, hb, hst, ?_⟩
    by_contra hnot
    rw [not_or, not_not] at hnot
    exact hdue (List.mem_filter.mpr ⟨hnot.2, decide_eq_true hnot.1⟩)
  have hc : (s.release i n).consumer = s.consumer.give (2 ^ 16) := by
    by_cases hs : s.asyncNotice.suspended = true
    · simp [consumer, UlogSys.release, Consumer.give, SoloSem.rtSemRelease, setCaller, hs, h.wait hs]
    · have hpc : s.consumer.pc ≠ .asleep := fun hpc => hs (consumer_asleep.mp hpc).2
      rw [Consumer.give, if_neg hpc]
      simp [consumer, UlogSys.release, SoloSem.rtSemRelease, setCaller, hs]
  constructor
  case awake =>
    rw [hc]
    apply Consumer.Awake.give
    · intro hpc hw
      exact (ht (hwith hw)).1 (consumer_looked.mp hpc)
    · intro hpc hw
      exact (ht (hwith hw)).2 (consumer_cleared.mp hpc)
  case wait =>
    intro hs
    apply h.wait
    by_contra hf
    simp [UlogSys.release, SoloSem.rtSemRelease, hf] at hs

/-- **A step of the output thread**. -/
theorem async (h : s.Inv) (he : s.asyncOutputThreadEntry = some s') : s'.Inv := by
  unfold asyncOutputThreadEntry at he
  cases hpc : s.pc with
  | get =>
      rw [hpc] at he
      have hs := h.not_suspended (by simp [hpc])
      unfold rtRbbBlkGet at he
      cases hget : s.asyncRbb.blkList.find? fun i => (s.asyncRbb.blk i).status = .put with
      | some block =>
          rw [hget] at he
          obtain rfl := Option.some.inj he
          exact of_busy rfl hs
      | none =>
          rw [hget] at he
          obtain rfl := Option.some.inj he
          -- no block is put
          constructor
          case awake =>
            apply Consumer.Awake.of_looked rfl
            rintro ⟨b, hb, hst, -⟩
            exact List.find?_eq_none.mp hget b hb (decide_eq_true hst)
          case wait =>
            intro hsus
            rw [hs] at hsus
            cases hsus
  | output block =>
      rw [hpc] at he
      obtain ⟨rbb, -, rfl⟩ := Option.map_eq_some_iff.mp he
      exact of_busy rfl (h.not_suspended (by simp [hpc]))
  | reset =>
      rw [hpc] at he
      obtain rfl := Option.some.inj he
      constructor
      case awake => exact h.awake.clear (consumer_looked.mpr hpc)
      case wait =>
        intro hs
        cases hs
  | take =>
      rw [hpc] at he
      have hs := h.not_suspended (by simp [hpc])
      have hwait : s.consumer.wait.Awake s.Waiting := h.awake.wait (consumer_cleared.mpr hpc)
      obtain ⟨hv, hr⟩ | ⟨-, ht, -⟩ | ⟨hv, -, hr⟩ := s.asyncNotice.take_cases (-1)
      · rw [hr] at he
        obtain rfl := Option.some.inj he
        exact of_busy rfl hs
      · cases ht
      · rw [hr] at he
        obtain rfl := Option.some.inj he
        refine ⟨?_, fun _ => rfl⟩
        unfold Consumer.wait at hwait
        rw [if_neg (by simp [consumer, hv])] at hwait
        exact hwait
  | wait =>
      rw [hpc] at he
      dsimp only at he
      split_ifs at he with hs
      obtain rfl := Option.some.inj he
      exact of_busy rfl (Bool.eq_false_iff.mpr hs)

theorem step (h : s.Inv) (he : s.exec a = some s') (ht : s.Timely a) : s'.Inv := by
  cases a with
  | doOutput i level tag isRaw log =>
      simp only [exec] at he
      split_ifs at he
      exact h.fill he
  | put i block =>
      simp only [exec] at he
      split_ifs at he
      exact h.put he
  | release i n =>
      simp only [exec] at he
      split_ifs at he
      obtain rfl := Option.some.inj he
      exact h.release ht
  | async => exact h.async he

end Inv

/-- **No log is left waiting**, in a run in which no notice of a log in the buffer is released between a drain
and the reset: the output thread is not suspended while a put block whose notice is released is in the
buffer. -/
theorem async_awake (hr : Trans.Reachable Init (fun s a s' => s.exec a = some s' ∧ s.Timely a) s) :
    s.asyncNotice.suspended = true → ¬ s.Waiting := by
  have hinv : s.Inv :=
    hr.invariant (fun s h₀ => Inv.init h₀) fun s a s' _ hi hs => hi.step hs.1 hs.2
  intro hs
  exact hinv.awake.asleep (consumer_asleep.mpr ⟨hinv.wait hs, hs⟩)

/-- A buffer for two logs. -/
def twoLines : UlogSys where
  asyncRbb := rtRbbInit 0x20000000 256 [⟨.unused, 0, 0⟩, ⟨.unused, 0, 0⟩] 2
  asyncNotice := ⟨0, false⟩
  frame _ := ⟨0, false, 0, "", []⟩
  alreadyOutput := false
  caller _ := .idle
  pc := .get
  output := []
  puts := 0
  number _ := 0
  due := []

theorem twoLines_init : twoLines.Init := ⟨rfl, rfl, rfl, fun _ => rfl, rfl⟩

/-- The output thread has output a log, and is suspended; another log is put, and its notice not released. -/
theorem async_awake_suspended :
    ∃ s, Trans.Reachable Init (fun s a s' => s.exec a = some s' ∧ s.Timely a) s ∧
      s.asyncNotice.suspended = true ∧ s.output.map UlogFrame.log = [[104, 105]] ∧
        s.asyncRbb.blkList ≠ [] ∧ ¬ s.Waiting := by
  obtain ⟨s, hs, hsum⟩ := Option.map_eq_some_iff.mp
    (show (Trans.runList (Trans.stepIf exec Timely) twoLines
      [.doOutput 0 3 "main" false [104, 105], .put 0 0, .release 0 0, .async, .async, .async, .async, .async,
        .doOutput 1 3 "main" false [106], .put 1 0]).map
        (fun s => (s.asyncNotice.suspended, s.output.map UlogFrame.log, s.asyncRbb.blkList)) =
          some (true, [[104, 105]], [0]) by decide +kernel)
  obtain ⟨hsus, hrest⟩ := Prod.mk.inj hsum
  obtain ⟨hout, hlist⟩ := Prod.mk.inj hrest
  have hreach := Trans.reachable_of_runList_stepIf twoLines_init hs
  exact ⟨s, hreach, hsus, hout, by simp [hlist], async_awake hreach hsus⟩

/-- A log is put, and its notice released, after the drain and before the reset: the output thread goes to
sleep on it. -/
theorem log_forgotten :
    ∃ s, Trans.Reachable Init (fun s a s' => s.exec a = some s') s ∧
      s.asyncNotice.suspended = true ∧ s.Waiting := by
  obtain ⟨s, hs, hsum⟩ := Option.map_eq_some_iff.mp
    (show (Trans.runList exec twoLines
      [.async, .doOutput 0 3 "main" false [104, 105], .put 0 0, .release 0 0, .async, .async]).map
        (fun s => (s.asyncNotice.suspended, decide s.Waiting)) = some (true, true) by decide +kernel)
  obtain ⟨hsus, hw⟩ := Prod.mk.inj hsum
  exact ⟨s, Trans.reachable_of_runList (.init twoLines_init) hs, hsus, of_decide_eq_true hw⟩

end UlogSys

end RTThread.Ulog
