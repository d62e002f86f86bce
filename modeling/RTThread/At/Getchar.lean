import RTThread.Ipc.SoloSem
import RTThread.Lib.Notice
import RTThread.Lib.Run

set_option autoImplicit false

/-! # Reading from the device of an AT client (`at_client.c`)

`at_client_getchar` reads a byte; without one it resets `rx_notice` and takes it. A device that has received a
byte calls `at_client_rx_ind`, which releases `rx_notice` of each client on the device. The model has all
clients and their devices. The bytes of a device are numbered in the order of their arrival, and `due` has the
numbers of those that are not indicated yet. An indication between the failed read and the reset is lost.
-/

namespace RTThread.At

open Ipc Notice

/-- `rt_tick_from_millisecond`, as the `rt_int32_t` that `rt_sem_take` is given. -/
def rtTickFromMillisecond (tickPerSecond : Nat) (ms : Int) : Int :=
  if ms < 0 then -1
  else (tickPerSecond * (ms / 1000) + (tickPerSecond * (ms % 1000) + 999) / 1000).bmod (2 ^ 32)

/-- Where a parser is in `at_client_getchar`. -/
inductive GetcharPc
  /-- in no call, with what the last one returned -/
  | ret (result : Err) (ch : Option UInt8)
  /-- before `rt_device_read` -/
  | read (timeout : Int)
  /-- before `rt_sem_control` -/
  | reset (timeout : Int)
  /-- before `rt_sem_take` -/
  | take (timeout : Int)
  /-- after the `rt_schedule` of `rt_sem_take` -/
  | wait (timeout : Int)
  deriving DecidableEq

/-- A device, as far as its bytes go. -/
structure RxDev where
  unread : List (Nat × UInt8)
  arrived : Nat
  due : List Nat
  deriving DecidableEq

/-- `struct at_client`, with the parser's place and the error field of its thread. -/
structure RxClient where
  device : Nat
  rxNotice : SoloSem
  pc : GetcharPc
  error : Err
  deriving DecidableEq

/-- `at_client_table`, and the devices. -/
structure RxSys where
  num : Nat
  client : Nat → RxClient
  dev : Nat → RxDev

namespace RxSys

def setDev (s : RxSys) (d : Nat) (x : RxDev) : RxSys := { s with dev := Function.update s.dev d x }

def setClient (s : RxSys) (i : Nat) (c : RxClient) : RxSys :=
  { s with client := Function.update s.client i c }

/-- `at_client_rx_ind(dev, size)` -/
def atClientRxInd (s : RxSys) (dev size : Nat) : RxSys :=
  { s with client := fun i =>
      if i < s.num ∧ (s.client i).device = dev ∧ 0 < size then
        { s.client i with rxNotice := (s.client i).rxNotice.rtSemRelease }
      else s.client i }

/-- `at_client_getchar` for the client `i`, up to its next place. -/
def atClientGetchar (tickPerSecond : Nat) (s : RxSys) (i : Nat) : Option RxSys :=
  let c := s.client i
  match c.pc with
  | .ret _ _ => none
  | .read timeout =>
      match (s.dev c.device).unread with
      | [] => some (s.setClient i { c with pc := .reset timeout })
      | b :: l =>
          some ((s.setDev c.device { s.dev c.device with unread := l }).setClient i
            { c with pc := .ret .ok (some b.2) })
  | .reset timeout =>
      some (s.setClient i { c with rxNotice := c.rxNotice.rtSemReset 0, pc := .take timeout })
  | .take timeout =>
      let (result, sem) := c.rxNotice.rtSemTake (rtTickFromMillisecond tickPerSecond timeout)
      match result with
      | some e =>
          some (s.setClient i
            { c with rxNotice := sem, pc := if e ≠ .ok then .ret e none else .read timeout })
      | none => some (s.setClient i { c with rxNotice := sem, pc := .wait timeout, error := .ok })
  | .wait timeout =>
      if c.rxNotice.suspended then none
      else some (s.setClient i { c with pc := if c.error ≠ .ok then .ret c.error none else .read timeout })

end RxSys

inductive RxAction
  /-- a byte arrives -/
  | arrive (d : Nat) (b : UInt8)
  /-- a full device gives up its oldest byte -/
  | discard (d : Nat)
  /-- the device indicates the byte `n` -/
  | indicate (d n size : Nat)
  | call (i : Nat) (timeout : Int)
  | getchar (i : Nat)
  /-- the waiting time of the parser is over -/
  | expire (i : Nat)

namespace RxSys

def exec (tickPerSecond : Nat) (s : RxSys) : RxAction → Option RxSys
  | .arrive d b =>
      let x := s.dev d
      some (s.setDev d ⟨x.unread ++ [(x.arrived, b)], x.arrived + 1, x.arrived :: x.due⟩)
  | .discard d => some (s.setDev d { s.dev d with unread := (s.dev d).unread.tail })
  | .indicate d n size =>
      if n ∈ (s.dev d).due ∧ 0 < size then
        some ((s.setDev d { s.dev d with due := (s.dev d).due.filter (· ≠ n) }).atClientRxInd d size)
      else none
  | .call i timeout =>
      match (s.client i).pc with
      | .ret _ _ => if i < s.num then some (s.setClient i { s.client i with pc := .read timeout }) else none
      | _ => none
  | .getchar i => s.atClientGetchar tickPerSecond i
  | .expire i =>
      match (s.client i).pc with
      | .wait timeout =>
          if (s.client i).rxNotice.suspended ∧ 0 < rtTickFromMillisecond tickPerSecond timeout then
            some (s.setClient i
              { s.client i with rxNotice := (s.client i).rxNotice.expire, error := .etimeout })
          else none
      | _ => none

/-- After `at_client_init`. -/
def Init (s : RxSys) : Prop :=
  (∀ i, (s.client i).rxNotice = ⟨0, false⟩ ∧ (s.client i).pc = .ret .ok none) ∧
    ∀ d, s.dev d = ⟨[], 0, []⟩

/-- The device has an unread byte that was indicated. -/
def Pending (x : RxDev) : Prop := ∃ b ∈ x.unread, b.1 ∉ x.due

/-- The device has an unread byte that was indicated, or will be with the byte `n`. -/
def PendingWith (x : RxDev) (n : Nat) : Prop := ∃ b ∈ x.unread, b.1 = n ∨ b.1 ∉ x.due

instance Pending.decidable (x : RxDev) : Decidable (Pending x) :=
  inferInstanceAs (Decidable (∃ b ∈ _, _))

instance PendingWith.decidable (x : RxDev) (n : Nat) : Decidable (PendingWith x n) :=
  inferInstanceAs (Decidable (∃ b ∈ _, _))

/-- The parser of the client is between its failed read and the reset. -/
def Deaf : GetcharPc → Prop
  | .reset _ => True
  | _ => False

/-- The parser of the client is between the reset and the take. -/
def Ready : GetcharPc → Prop
  | .take _ => True
  | _ => False

instance Deaf.decidable : (pc : GetcharPc) → Decidable (Deaf pc)
  | .reset _ => isTrue trivial
  | .ret _ _ => isFalse id
  | .read _ => isFalse id
  | .take _ => isFalse id
  | .wait _ => isFalse id

instance Ready.decidable : (pc : GetcharPc) → Decidable (Ready pc)
  | .take _ => isTrue trivial
  | .ret _ _ => isFalse id
  | .read _ => isFalse id
  | .reset _ => isFalse id
  | .wait _ => isFalse id

/-- No unread byte is indicated while a parser of its device is between its failed read and the reset, and
the value does not overflow between the reset and the take. -/
def Timely (s : RxSys) : RxAction → Prop
  | .indicate d n _ =>
      ∀ i < s.num, (s.client i).device = d → PendingWith (s.dev d) n →
        ¬ Deaf (s.client i).pc ∧
          (Ready (s.client i).pc → ((s.client i).rxNotice.value + 1) % 2 ^ 16 ≠ 0)
  | _ => True

instance Timely.decidable (s : RxSys) (a : RxAction) : Decidable (Timely s a) := by
  cases a <;> unfold Timely <;> infer_instance

end RxSys

/-! ## The parser as a consumer of notices -/

/-- What the parser is to the devices. -/
def RxClient.consumer (c : RxClient) : Consumer :=
  ⟨c.rxNotice.value,
    match c.pc with
    | .reset _ => .looked
    | .take _ => .cleared
    | .wait _ => if c.rxNotice.suspended then .asleep else .busy
    | _ => .busy⟩

theorem RxClient.consumer_looked {c : RxClient} : c.consumer.pc = .looked ↔ RxSys.Deaf c.pc := by
  unfold consumer RxSys.Deaf
  cases c.pc with
  | wait timeout => cases c.rxNotice.suspended <;> simp
  | _ => simp

theorem RxClient.consumer_cleared {c : RxClient} : c.consumer.pc = .cleared ↔ RxSys.Ready c.pc := by
  unfold consumer RxSys.Ready
  cases c.pc with
  | wait timeout => cases c.rxNotice.suspended <;> simp
  | _ => simp

/-- The parser is suspended in `rt_sem_take` only, and not on bytes that were indicated. -/
structure RxClient.Sound (c : RxClient) (x : RxDev) : Prop where
  awake : c.consumer.Awake (RxSys.Pending x)
  wait : c.rxNotice.suspended = true → ∃ timeout, c.pc = .wait timeout

namespace RxClient.Sound

open RxSys

variable {c : RxClient} {x x' : RxDev} {n : Nat}

theorem not_suspended (h : c.Sound x) (hw : ∀ timeout, c.pc ≠ .wait timeout) :
    c.rxNotice.suspended = false := by
  by_contra hs
  obtain ⟨timeout, hpc⟩ := h.wait (by simpa using hs)
  exact hw timeout hpc

theorem of_busy (hpc : c.consumer.pc = .busy) (hs : c.rxNotice.suspended = false) : c.Sound x where
  awake := .of_busy hpc
  wait h := by rw [hs] at h; cases h

theorem mono (h : c.Sound x) (hp : Pending x' → Pending x) : c.Sound x' :=
  ⟨h.awake.mono hp, h.wait⟩

/-- The release of `rx_notice` is a notice. -/
theorem consumer_release (h : c.Sound x) :
    { c with rxNotice := c.rxNotice.rtSemRelease }.consumer = c.consumer.give (2 ^ 16) := by
  by_cases hs : c.rxNotice.suspended = true
  · obtain ⟨timeout, hpc⟩ := h.wait hs
    simp [consumer, Consumer.give, SoloSem.rtSemRelease, hs, hpc]
  · have hpc : c.consumer.pc ≠ .asleep := by
      unfold consumer
      cases c.pc <;> simp [hs]
    rw [Consumer.give, if_neg hpc]
    cases hc : c.pc <;> simp [consumer, SoloSem.rtSemRelease, hs, hc]

theorem release (h : c.Sound x) (hl : Deaf c.pc → ¬ Pending x')
    (hr : Ready c.pc → Pending x' → (c.rxNotice.value + 1) % 2 ^ 16 ≠ 0) :
    { c with rxNotice := c.rxNotice.rtSemRelease }.Sound x' := by
  constructor
  case awake =>
    rw [h.consumer_release]
    apply Consumer.Awake.give
    · intro hpc
      exact hl (consumer_looked.mp hpc)
    · intro hpc
      exact hr (consumer_cleared.mp hpc)
  case wait =>
    intro hs
    apply h.wait
    by_contra hf
    simp [SoloSem.rtSemRelease, hf] at hs

end RxClient.Sound

/-! ## The invariant -/

namespace RxSys

variable {tickPerSecond : Nat} {s s' : RxSys} {i d n : Nat} {a : RxAction}

/-- Each parser is sound for its device. -/
def Inv (s : RxSys) : Prop := ∀ i < s.num, (s.client i).Sound (s.dev (s.client i).device)

theorem atClientRxInd_client {x : RxDev} {size : Nat} (hi : i < s.num) (hd : (s.client i).device = d)
    (hs : 0 < size) : ((s.setDev d x).atClientRxInd d size).client i =
      { s.client i with rxNotice := (s.client i).rxNotice.rtSemRelease } :=
  if_pos ⟨hi, hd, hs⟩

theorem atClientRxInd_other {x : RxDev} {size : Nat} (hd : (s.client i).device ≠ d) :
    ((s.setDev d x).atClientRxInd d size).client i = s.client i :=
  if_neg fun h => hd h.2.1

namespace Inv

theorem init (h : s.Init) : s.Inv := by
  intro i _
  obtain ⟨hsem, hpc⟩ := h.1 i
  apply RxClient.Sound.of_busy
  · simp [RxClient.consumer, hpc]
  · rw [hsem]

/-- One parser moves on. -/
theorem setClient (h : s.Inv) {c : RxClient}
    (hc : i < s.num → c.Sound (s.dev c.device)) : (s.setClient i c).Inv := by
  intro j hj
  by_cases hji : j = i
  · subst hji
    simp only [RxSys.setClient, Function.update_self]
    exact hc hj
  · simp only [RxSys.setClient, Function.update_of_ne hji]
    exact h j hj

/-- What is unread and indicated gets less. -/
theorem setDev (h : s.Inv) {x : RxDev} (hx : Pending x → Pending (s.dev d)) : (s.setDev d x).Inv := by
  intro j hj
  have hsound := h j hj
  simp only [RxSys.setDev]
  by_cases hd : (s.client j).device = d
  · rw [hd] at hsound ⊢
    rw [Function.update_self]
    exact hsound.mono hx
  · rw [Function.update_of_ne hd]
    exact hsound

theorem pendingWith {x : RxDev} (h : Pending { x with due := x.due.filter (· ≠ n) }) :
    PendingWith x n := by
  obtain ⟨b, hb, hdue⟩ := h
  refine ⟨b, hb, ?_⟩
  by_contra hnot
  rw [not_or, not_not] at hnot
  exact hdue (List.mem_filter.mpr ⟨hnot.2, decide_eq_true hnot.1⟩)

/-- **A byte is indicated**: each client on the device is given the notice. -/
theorem indicate (h : s.Inv) {x : RxDev} {size : Nat} (hs : 0 < size)
    (hx : ∀ i < s.num, (s.client i).device = d → Pending x →
      ¬ Deaf (s.client i).pc ∧
        (Ready (s.client i).pc → ((s.client i).rxNotice.value + 1) % 2 ^ 16 ≠ 0)) :
    ((s.setDev d x).atClientRxInd d size).Inv := by
  intro j hj
  have hsound := h j hj
  by_cases hd : (s.client j).device = d
  · have hdev : ((s.setDev d x).atClientRxInd d size).dev (s.client j).device = x := by
      rw [hd]
      exact Function.update_self ..
    rw [atClientRxInd_client (s := s) hj hd hs]
    refine RxClient.Sound.release (x := s.dev (s.client j).device) hsound ?_ ?_
    · intro hdeaf hp
      exact (hx j hj hd (hdev ▸ hp)).1 hdeaf
    · intro hready hp
      exact (hx j hj hd (hdev ▸ hp)).2 hready
  · rw [atClientRxInd_other (s := s) hd]
    have hdev : ((s.setDev d x).atClientRxInd d size).dev (s.client j).device = s.dev (s.client j).device :=
      Function.update_of_ne hd ..
    rw [hdev]
    exact hsound

/-- **A step of a parser**. -/
theorem getchar (h : s.Inv) (he : s.atClientGetchar tickPerSecond i = some s') : s'.Inv := by
  unfold atClientGetchar at he
  dsimp only at he
  cases hpc : (s.client i).pc with
  | ret result ch =>
      rw [hpc] at he
      cases he
  | read timeout =>
      rw [hpc] at he
      cases hl : (s.dev (s.client i).device).unread with
      | nil =>
          rw [hl] at he
          obtain rfl := Option.some.inj he
          -- without unread bytes there are none that were indicated
          apply h.setClient
          intro hi
          constructor
          case awake =>
            apply Consumer.Awake.of_looked rfl
            rintro ⟨b, hb, -⟩
            rw [hl] at hb
            cases hb
          case wait =>
            intro hs
            rw [(h i hi).not_suspended (by simp [hpc])] at hs
            cases hs
      | cons b l =>
          rw [hl] at he
          obtain rfl := Option.some.inj he
          have hdev : (s.setDev (s.client i).device { s.dev (s.client i).device with unread := l }).Inv := by
            apply h.setDev
            rintro ⟨c, hc, hdue⟩
            exact ⟨c, hl ▸ List.mem_cons_of_mem b hc, hdue⟩
          apply hdev.setClient
          intro hi
          exact .of_busy rfl ((h i hi).not_suspended (by simp [hpc]))
  | reset timeout =>
      rw [hpc] at he
      obtain rfl := Option.some.inj he
      apply h.setClient
      intro hi
      constructor
      case awake =>
        have hl : (s.client i).consumer.pc = .looked :=
          RxClient.consumer_looked.mpr (hpc ▸ trivial)
        exact (h i hi).awake.clear hl
      case wait =>
        intro hs
        cases hs
  | take timeout =>
      rw [hpc] at he
      dsimp only at he
      have hready : (s.client i).consumer.pc = .cleared := RxClient.consumer_cleared.mpr (hpc ▸ trivial)
      have hnot : i < s.num → (s.client i).rxNotice.suspended = false := fun hi =>
        (h i hi).not_suspended (by simp [hpc])
      have hwait : i < s.num → (s.client i).consumer.wait.Awake (Pending (s.dev (s.client i).device)) :=
        fun hi => (h i hi).awake.wait hready
      obtain ⟨hv, hr⟩ | ⟨-, -, hr⟩ | ⟨hv, -, hr⟩ :=
        (s.client i).rxNotice.take_cases (rtTickFromMillisecond tickPerSecond timeout)
      · rw [hr] at he
        obtain rfl := Option.some.inj he
        exact h.setClient fun hi => .of_busy rfl (hnot hi)
      · rw [hr] at he
        obtain rfl := Option.some.inj he
        exact h.setClient fun hi => .of_busy rfl (hnot hi)
      · rw [hr] at he
        obtain rfl := Option.some.inj he
        apply h.setClient
        intro hi
        refine ⟨?_, fun _ => ⟨timeout, rfl⟩⟩
        have hc := hwait hi
        unfold Consumer.wait at hc
        rw [if_neg (by simp [RxClient.consumer, hv])] at hc
        exact hc
  | wait timeout =>
      rw [hpc] at he
      dsimp only at he
      by_cases hs : (s.client i).rxNotice.suspended = true
      · rw [if_pos hs] at he
        cases he
      · rw [if_neg hs] at he
        obtain rfl := Option.some.inj he
        apply h.setClient
        intro hi
        apply RxClient.Sound.of_busy
        · unfold RxClient.consumer
          split_ifs <;> rfl
        · exact Bool.eq_false_iff.mpr hs

theorem step (h : s.Inv) (he : s.exec tickPerSecond a = some s') (ht : s.Timely a) : s'.Inv := by
  cases a with
  | arrive d b =>
      obtain rfl := Option.some.inj he
      apply h.setDev
      rintro ⟨c, hc, hdue⟩
      rw [List.mem_cons, not_or] at hdue
      -- the new byte is not indicated yet
      obtain hold | hnew := List.mem_append.mp hc
      · exact ⟨c, hold, hdue.2⟩
      · obtain rfl := List.mem_singleton.mp hnew
        exact absurd rfl hdue.1
  | discard d =>
      obtain rfl := Option.some.inj he
      apply h.setDev
      rintro ⟨c, hc, hdue⟩
      exact ⟨c, List.mem_of_mem_tail hc, hdue⟩
  | indicate d n size =>
      simp only [exec] at he
      split_ifs at he with hg
      obtain rfl := Option.some.inj he
      exact h.indicate hg.2 fun i hi hd hp => ht i hi hd (pendingWith hp)
  | call i timeout =>
      simp only [exec] at he
      split at he
      · split_ifs at he with hi
        obtain rfl := Option.some.inj he
        rename_i result ch hpc
        exact h.setClient fun hi => .of_busy rfl ((h i hi).not_suspended (by simp [hpc]))
      · cases he
  | getchar i => exact h.getchar he
  | expire i =>
      simp only [exec] at he
      split at he
      · split_ifs at he with hg
        obtain rfl := Option.some.inj he
        rename_i timeout hpc
        refine h.setClient fun hi => .of_busy ?_ rfl
        simp [RxClient.consumer, SoloSem.expire, hpc]
      · cases he

end Inv

/-- **The parser does not sleep on unread data**, in a run without an indication between a failed read and the
reset: no suspended parser has a device with an unread byte that was indicated. -/
theorem getchar_awake
    (hr : Trans.Reachable Init (fun s a s' => s.exec tickPerSecond a = some s' ∧ s.Timely a) s) :
    ∀ i < s.num, (s.client i).rxNotice.suspended = true → ¬ Pending (s.dev (s.client i).device) := by
  have hinv : s.Inv :=
    hr.invariant (fun s h₀ => Inv.init h₀) fun s a s' _ hi hs => hi.step hs.1 hs.2
  intro i hi hsus
  have hsound := hinv i hi
  obtain ⟨timeout, hpc⟩ := hsound.wait hsus
  apply hsound.awake.asleep
  simp [RxClient.consumer, hpc, hsus]

/-- One client on the device 0. -/
def oneClient : RxSys where
  num := 1
  client _ := ⟨0, ⟨0, false⟩, .ret .ok none, .ok⟩
  dev _ := ⟨[], 0, []⟩

theorem oneClient_init : oneClient.Init := ⟨fun _ => ⟨rfl, rfl⟩, fun _ => rfl⟩

/-- The parser is suspended, and a byte has arrived that is not indicated yet. -/
theorem getchar_awake_suspended :
    ∃ s, Trans.Reachable Init (fun s a s' => s.exec 1000 a = some s' ∧ s.Timely a) s ∧
      (s.client 0).rxNotice.suspended = true ∧ (s.dev 0).unread = [(0, 65)] ∧ ¬ Pending (s.dev 0) := by
  obtain ⟨s, hs, hsum⟩ := Option.map_eq_some_iff.mp
    (show (Trans.runList (Trans.stepIf (exec 1000) Timely) oneClient
      [.call 0 (-1), .getchar 0, .getchar 0, .getchar 0, .arrive 0 65]).map
        (fun s => (s.num, (s.client 0).device, (s.client 0).rxNotice.suspended, (s.dev 0).unread)) =
          some (1, 0, true, [(0, 65)]) by decide)
  obtain ⟨hnum, hrest⟩ := Prod.mk.inj hsum
  obtain ⟨hdev, hrest⟩ := Prod.mk.inj hrest
  obtain ⟨hsus, hunread⟩ := Prod.mk.inj hrest
  have hreach := Trans.reachable_of_runList_stepIf oneClient_init hs
  have hawake := getchar_awake hreach 0 (by omega) hsus
  rw [hdev] at hawake
  exact ⟨s, hreach, hsus, hunread, hawake⟩

/-- A byte arrives, and is indicated, after the parser has found nothing and before it resets `rx_notice`: the
parser goes to sleep on it. -/
theorem notice_lost :
    ∃ s, Trans.Reachable Init (fun s a s' => s.exec 1000 a = some s') s ∧
      (s.client 0).rxNotice.suspended = true ∧ Pending (s.dev (s.client 0).device) := by
  obtain ⟨s, hs, hsum⟩ := Option.map_eq_some_iff.mp
    (show (Trans.runList (exec 1000) oneClient
      [.call 0 (-1), .getchar 0, .arrive 0 65, .indicate 0 0 1, .getchar 0, .getchar 0]).map
        (fun s => ((s.client 0).rxNotice.suspended, decide (Pending (s.dev (s.client 0).device)))) =
          some (true, true) by decide)
  obtain ⟨hsus, hp⟩ := Prod.mk.inj hsum
  exact ⟨s, Trans.reachable_of_runList (.init oneClient_init) hs, hsus, of_decide_eq_true hp⟩

end RxSys

end RTThread.At
