import RTThread.Lib.Run
import RTThread.Kernel.Model

set_option autoImplicit false

/-! # `poll` and the wait queues (`poll.c`, `waitqueue.c`)

`poll` scans its descriptors, and is put into the wait queue of each of them in the first scan. When
nothing is ready it sleeps until `rt_wqueue_wakeup` sets its `triggered` flag, or its time-out elapses,
and scans again. The flag is never reset: when the data is gone before the scan, `poll` does not sleep
again and spins. A wake-up takes one node from the queue: a second thread that waits for the same data
sleeps on.

Between threads, a step is what runs with interrupts disabled: to put a node into a queue, to test the
flag and to sleep, to wake the first thread of a queue. A descriptor registers, and then reads its state.
-/

namespace RTThread.Dfs

open Trans

/-- Events, as a mask. -/
abbrev Mask := BitVec 32

/-- A descriptor with a wait queue. -/
abbrev Desc := Nat

def POLLERR : Mask := 4#32
def POLLHUP : Mask := 8#32

/-- An element of `fds`. -/
inductive PollFd
  /-- the descriptor has `fops->poll` -/
  | polled (d : Desc) (events : Mask)
  /-- the descriptor is closed, or has no `fops->poll`: what `revents` is set to -/
  | constant (revents : Mask)
  deriving DecidableEq

/-- `req->_key` -/
def pollKey (events : Mask) : Mask := events ||| POLLERR ||| POLLHUP

/-- Where a thread is in `poll`. -/
inductive PollPhase
  /-- in `do_pollfd`, and whether the descriptor is registered -/
  | scan (added : Bool)
  /-- is to call `poll_wait_timeout` -/
  | wait
  /-- suspended, until the timer expires -/
  | asleep (deadline : Option Nat)
  /-- resumed in `poll_wait_timeout` -/
  | awake
  /-- in `poll_teardown` -/
  | done
  deriving DecidableEq

/-- A call of `poll`: the local variables, and `struct rt_poll_table`. -/
structure Poll where
  fds : List PollFd
  /-- in ticks, if not forever -/
  timeout : Option Nat
  /-- `req._proc` is not null -/
  proc : Bool
  triggered : Bool
  /-- the queues and keys of `pt->nodes` -/
  nodes : List (Desc × Mask)
  phase : PollPhase
  /-- what is left of the scan -/
  rest : List PollFd
  num : Nat
  istimeout : Bool
  /-- the tick of the call -/
  calledAt : Nat
  /-- the tick at which the time-out elapses, from the first call of `poll_wait_timeout` on -/
  due : Option Nat
  /-- `triggered` was set when the scan began -/
  stale : Bool
  /-- since the scan began the thread was suspended, or one of its nodes was woken -/
  moved : Bool
  /-- a scan has begun without that -/
  spun : Bool
  /-- how many scans have begun after the time-out elapsed -/
  late : Nat

structure PollSys where
  tick : Nat
  /-- what `fops->poll` returns -/
  ready : Desc → Mask
  /-- data has arrived, and `rt_wqueue_wakeup` is to be called -/
  pending : List (Desc × Mask)
  /-- `wq->waiting_list`: the threads and keys of the nodes -/
  queue : Desc → List (ThreadId × Mask)
  poller : ThreadId → Option Poll

inductive PollAction
  | call (t : ThreadId) (fds : List PollFd) (timeout : Option Nat)
  /-- `_poll_add`, and whether there is memory for the node -/
  | add (t : ThreadId) (alloc : Bool)
  /-- the rest of `do_pollfd` -/
  | look (t : ThreadId)
  /-- the end of a scan -/
  | finish (t : ThreadId)
  /-- `poll_wait_timeout` up to `rt_schedule` -/
  | wait (t : ThreadId)
  /-- the end of `poll_wait_timeout` -/
  | resume (t : ThreadId)
  /-- one step of `poll_teardown` -/
  | teardown (t : ThreadId)
  | tick
  /-- data arrives: the events `m` become ready -/
  | arrive (d : Desc) (m : Mask)
  /-- `rt_wqueue_wakeup` with the key `m` -/
  | wakeup (d : Desc) (m : Mask)
  /-- the events `m` are ready no more -/
  | consume (d : Desc) (m : Mask)
  deriving DecidableEq

namespace Poll

/-- The next scan begins, at a tick. -/
def startScan (p : Poll) (tick : Nat) : Poll :=
  { p with
    rest := p.fds
    num := 0
    phase := .scan false
    stale := p.triggered
    spun := p.spun || !p.moved
    moved := false
    late := if ∃ d ∈ p.due, d ≤ tick then p.late + 1 else p.late }

/-- `poll_table_init`, and the beginning of `poll_do`. -/
def init (fds : List PollFd) (timeout : Option Nat) (tick : Nat) : Poll where
  fds := fds
  timeout := timeout
  proc := timeout ≠ some 0
  triggered := false
  nodes := []
  phase := .scan false
  rest := fds
  num := 0
  istimeout := timeout = some 0
  calledAt := tick
  due := none
  stale := false
  moved := false
  spun := false
  late := 0

/-- The descriptor that is registered, and looked at next. -/
def current (p : Poll) : Option (Desc × Mask) :=
  match p.phase, p.rest with
  | .scan true, .polled d events :: _ => some (d, pollKey events)
  | _, _ => none

/-- A descriptor has been looked at: `revents` is `mask`. -/
def found (p : Poll) (mask : Mask) : Poll :=
  { p with
    phase := .scan false
    rest := p.rest.tail
    num := if mask ≠ 0 then p.num + 1 else p.num
    proc := p.proc && mask = 0 }

/-- `__wqueue_pollwake`, and `rt_thread_resume`. -/
def woken (p : Poll) : Poll :=
  { p with
    triggered := true
    moved := true
    phase := match p.phase with
      | .asleep _ => .awake
      | phase => phase }

/-- The timer of the thread expires, if it is due. -/
def expire (p : Poll) (tick : Nat) : Poll :=
  match p.phase with
  | .asleep (some d) => if d ≤ tick then { p with phase := .awake } else p
  | _ => p

end Poll

namespace PollSys

def setPoller (s : PollSys) (t : ThreadId) (p : Poll) : PollSys :=
  { s with poller := Function.update s.poller t (some p) }

/-- A node waits for one of the events; a key of zero matches every node. -/
def Matches (m : Mask) (n : ThreadId × Mask) : Prop := m = 0 ∨ m &&& n.2 ≠ 0

instance decidableMatches (m : Mask) (n : ThreadId × Mask) : Decidable (Matches m n) :=
  instDecidableOr

/-- `rt_wqueue_wakeup`: the first node that waits for one of the events. -/
def rtWqueueWakeup (s : PollSys) (d : Desc) (m : Mask) : PollSys :=
  match (s.queue d).find? (fun n => Matches m n) with
  | none => s
  | some n =>
    { s with
      queue := Function.update s.queue d ((s.queue d).erase n)
      poller := Function.update s.poller n.1 ((s.poller n.1).map Poll.woken) }

def exec (s : PollSys) : PollAction → Option PollSys
  | .call t fds timeout => match s.poller t with
    | none => some (s.setPoller t (.init fds timeout s.tick))
    | some _ => none
  | .add t alloc => match s.poller t with
    | none => none
    | some p => match p.phase, p.rest with
      | .scan false, .polled d events :: _ =>
        let node := (d, pollKey events)
        if p.proc ∧ alloc then
          some { s.setPoller t { p with phase := .scan true, nodes := node :: p.nodes } with
            queue := Function.update s.queue d (s.queue d ++ [(t, node.2)]) }
        else some (s.setPoller t { p with phase := .scan true })
      | _, _ => none
  | .look t => match s.poller t with
    | none => none
    | some p => match p.phase, p.rest with
      | .scan true, .polled d events :: _ =>
        some (s.setPoller t (p.found (s.ready d &&& pollKey events)))
      | .scan false, .constant revents :: _ => some (s.setPoller t (p.found revents))
      | _, _ => none
  | .finish t => match s.poller t with
    | none => none
    | some p => match p.phase, p.rest with
      | .scan _, [] =>
        let p := { p with proc := false }
        if p.num ≠ 0 ∨ p.istimeout then some (s.setPoller t { p with phase := .done })
        else some (s.setPoller t { p with phase := .wait })
      | _, _ => none
  | .wait t => match s.poller t with
    | none => none
    | some p =>
      if p.phase = .wait then
        let due := p.timeout.map (s.tick + ·)
        let p := { p with due := p.due.or due }
        if p.triggered then some (s.setPoller t (p.startScan s.tick))
        else some (s.setPoller t { p with phase := .asleep due, moved := true })
      else none
  | .resume t => match s.poller t with
    | none => none
    | some p =>
      if p.phase = .awake then
        let p := { p with istimeout := p.istimeout || !p.triggered }
        some (s.setPoller t (p.startScan s.tick))
      else none
  | .teardown t => match s.poller t with
    | none => none
    | some p =>
      if p.phase = .done then
        match p.nodes with
        | n :: nodes => some { s.setPoller t { p with nodes } with
            queue := Function.update s.queue n.1 ((s.queue n.1).erase (t, n.2)) }
        | [] => some { s with poller := Function.update s.poller t none }
      else none
  | .tick => some { s with
      tick := s.tick + 1
      poller := fun t => (s.poller t).map fun p => p.expire (s.tick + 1) }
  | .arrive d m => some { s with
      ready := Function.update s.ready d (s.ready d ||| m)
      pending := (d, m) :: s.pending }
  | .wakeup d m =>
    if (d, m) ∈ s.pending then
      some ({ s with pending := s.pending.erase (d, m) }.rtWqueueWakeup d m)
    else none
  | .consume d m => some { s with ready := Function.update s.ready d (s.ready d &&& ~~~m) }

/-- No thread is in `poll`. -/
structure Init (s : PollSys) : Prop where
  queue : ∀ d, s.queue d = []
  poller : ∀ t, s.poller t = none

/-! ## What is claimed -/

/-- Between two scans the thread was suspended, or one of its nodes was woken. A time-out that has
elapsed is followed by one scan at most, and a poll that returns 0 has waited for its time-out. No thread
stays suspended while a descriptor it registered on is ready, and no wake-up of it is in progress. -/
structure Awaited (s : PollSys) : Prop where
  spun : ∀ t p, s.poller t = some p → p.spun = false
  late : ∀ t p, s.poller t = some p → p.late ≤ 1
  zero : ∀ t p, s.poller t = some p → p.phase = .done → p.num = 0 →
    ∃ n, p.timeout = some n ∧ p.calledAt + n ≤ s.tick
  asleep : ∀ t p deadline, s.poller t = some p → p.phase = .asleep deadline →
    ∀ n ∈ p.nodes, s.ready n.1 &&& n.2 ≠ 0 → ∃ m, (n.1, m) ∈ s.pending ∧ m &&& n.2 ≠ 0

/-- A step that does not end a scan in vain that began after a wake-up, and in which no wake-up is for
nodes of two threads. -/
def Sound (s : PollSys) : PollAction → Prop
  | .finish t => ∀ p ∈ s.poller t, p.stale = true → p.num ≠ 0 ∨ p.istimeout = true
  | .wakeup d m => ∀ n ∈ s.queue d, ∀ n' ∈ s.queue d, Matches m n → Matches m n' → n.1 = n'.1
  | _ => True

instance decidableSound (s : PollSys) : (a : PollAction) → Decidable (s.Sound a)
  | .finish t => inferInstanceAs
      (Decidable (∀ p ∈ s.poller t, p.stale = true → p.num ≠ 0 ∨ p.istimeout = true))
  | .wakeup d m => inferInstanceAs (Decidable
      (∀ n ∈ s.queue d, ∀ n' ∈ s.queue d, Matches m n → Matches m n' → n.1 = n'.1))
  | .call _ _ _ | .add _ _ | .look _ | .wait _ | .resume _ | .teardown _ | .tick | .arrive _ _
  | .consume _ _ => .isTrue trivial

end PollSys

/-! ## One call of `poll` -/

namespace Poll

/-- The thread is between two scans. -/
def Between (p : Poll) : Prop :=
  p.phase = .wait ∨ (∃ deadline, p.phase = .asleep deadline) ∨ p.phase = .awake

/-- What holds of a call in every run of sound steps: it has two scans at most, and the second one is its
last. -/
structure Inv (p : Poll) (tick : Nat) : Prop where
  spun : p.spun = false
  late : p.late ≤ 1
  /-- the first scan -/
  first : p.stale = false → p.istimeout = false → p.late = 0
  due : p.stale = false → p.istimeout = false → ¬ (∃ deadline, p.phase = .asleep deadline) →
    p.phase ≠ .awake → p.due = none
  between : p.Between → p.stale = false ∧ p.istimeout = false ∧ p.num = 0
  moved : p.triggered = true → p.stale = false → p.moved = true
  asleep : ∀ deadline, p.phase = .asleep deadline →
    p.triggered = false ∧ p.moved = true ∧ deadline = p.due
  awake : p.phase = .awake → p.moved = true ∧ (p.triggered = true ∨ ∃ d ∈ p.due, d ≤ tick)
  elapses : ∀ d ∈ p.due, ∃ n, p.timeout = some n ∧ p.calledAt + n ≤ d
  called : p.calledAt ≤ tick
  elapsed : p.istimeout = true → ∃ n, p.timeout = some n ∧ p.calledAt + n ≤ tick
  done : p.phase = .done → p.num = 0 → p.istimeout = true

variable {p : Poll} {tick tick' : Nat} {mask : Mask} {fds : List PollFd} {timeout : Option Nat}

theorem inv_init : (init fds timeout tick).Inv tick := by
  refine ⟨rfl, Nat.zero_le 1, fun _ _ => rfl, fun _ _ _ _ => rfl, ?_, ?_, ?_, ?_, ?_, le_refl tick, ?_, ?_⟩
  · rintro (h | ⟨_, h⟩ | h) <;> cases h
  · intro h
    cases h
  · intro _ h
    cases h
  · intro h
    cases h
  · intro _ h
    cases h
  · intro h
    exact ⟨0, of_decide_eq_true h, le_refl tick⟩
  · intro h
    cases h

/-- Time passes. -/
theorem Inv.later (i : p.Inv tick) (h : tick ≤ tick') : p.Inv tick' where
  spun := i.spun
  late := i.late
  first := i.first
  due := i.due
  between := i.between
  moved := i.moved
  asleep := i.asleep
  awake hp := ⟨(i.awake hp).1, (i.awake hp).2.imp_right fun ⟨d, hd, hle⟩ => ⟨d, hd, by omega⟩⟩
  elapses := i.elapses
  called := Nat.le_trans i.called h
  elapsed hi := by
    obtain ⟨n, hn, hle⟩ := i.elapsed hi
    exact ⟨n, hn, by omega⟩
  done := i.done

/-- The thread goes on in its scan. -/
theorem Inv.scan (i : p.Inv tick) {b b' : Bool} (hp : p.phase = .scan b) (num : Nat) (proc : Bool)
    (nodes : List (Desc × Mask)) (rest : List PollFd) :
    Inv { p with phase := .scan b', num, proc, nodes, rest } tick where
  spun := i.spun
  late := i.late
  first := i.first
  due h₁ h₂ _ _ := i.due h₁ h₂ (by simp [hp]) (by simp [hp])
  between := by rintro (h | ⟨_, h⟩ | h) <;> cases h
  moved := i.moved
  asleep _ h := by cases h
  awake h := by cases h
  elapses := i.elapses
  called := i.called
  elapsed := i.elapsed
  done h := by cases h

theorem Inv.found (i : p.Inv tick) {b : Bool} (hp : p.phase = .scan b) : (p.found mask).Inv tick :=
  i.scan hp _ _ p.nodes _

/-- The scan ends with the last one of the call. -/
theorem Inv.toDone (i : p.Inv tick) {b : Bool} (hp : p.phase = .scan b)
    (h : p.num ≠ 0 ∨ p.istimeout = true) (proc : Bool) :
    Inv { p with phase := .done, proc } tick where
  spun := i.spun
  late := i.late
  first := i.first
  due h₁ h₂ _ _ := i.due h₁ h₂ (by simp [hp]) (by simp [hp])
  between := by rintro (h | ⟨_, h⟩ | h) <;> cases h
  moved := i.moved
  asleep _ h := by cases h
  awake h := by cases h
  elapses := i.elapses
  called := i.called
  elapsed := i.elapsed
  done _ hz := h.resolve_left (not_not.mpr hz)

/-- The scan was in vain: it was the first one. -/
theorem Inv.toWait (i : p.Inv tick) {b : Bool} (hp : p.phase = .scan b) (hz : p.num = 0)
    (ht : p.istimeout = false) (hs : p.stale = false) (proc : Bool) :
    Inv { p with phase := .wait, proc } tick where
  spun := i.spun
  late := i.late
  first := i.first
  due h₁ h₂ _ _ := i.due h₁ h₂ (by simp [hp]) (by simp [hp])
  between _ := ⟨hs, ht, hz⟩
  moved := i.moved
  asleep _ h := by cases h
  awake h := by cases h
  elapses := i.elapses
  called := i.called
  elapsed := i.elapsed
  done h := by cases h

/-- The time-out begins to run. -/
theorem Inv.dueAt (i : p.Inv tick) (hp : p.phase = .wait) :
    p.due.or (p.timeout.map (tick + ·)) = p.timeout.map (tick + ·) := by
  obtain ⟨hs, ht, -⟩ := i.between (.inl hp)
  rw [i.due hs ht (by simp [hp]) (by simp [hp]), Option.none_or]

theorem Inv.elapsesAt (i : p.Inv tick) : ∀ d ∈ p.timeout.map (tick + ·),
    ∃ n, p.timeout = some n ∧ p.calledAt + n ≤ d := by
  intro d hd
  obtain ⟨n, hn, rfl⟩ := Option.map_eq_some_iff.mp hd
  have hc := i.called
  exact ⟨n, hn, by omega⟩

/-- The thread goes to sleep. -/
theorem Inv.toAsleep (i : p.Inv tick) (hp : p.phase = .wait) (ht : p.triggered = false) :
    Inv { p with
      due := p.due.or (p.timeout.map (tick + ·))
      phase := .asleep (p.timeout.map (tick + ·))
      moved := true } tick where
  spun := i.spun
  late := i.late
  first := i.first
  due _ _ h _ := absurd ⟨_, rfl⟩ h
  between _ := i.between (.inl hp)
  moved _ _ := rfl
  asleep _ h := by
    cases h
    exact ⟨ht, rfl, (i.dueAt hp).symm⟩
  awake h := by cases h
  elapses := by
    dsimp only
    rw [i.dueAt hp]
    exact i.elapsesAt
  called := i.called
  elapsed := i.elapsed
  done h := by cases h

/-- **The second scan begins**: the thread has been woken or its time-out has elapsed. -/
theorem Inv.startScan (i : p.Inv tick) (hs : p.stale = false) (ht : p.istimeout = false)
    (hm : p.moved = true) {due : Option Nat} {istimeout : Bool}
    (hd : ∀ d ∈ due, ∃ n, p.timeout = some n ∧ p.calledAt + n ≤ d)
    (hgo : p.triggered = true ∨ istimeout = true)
    (he : istimeout = true → ∃ n, p.timeout = some n ∧ p.calledAt + n ≤ tick) :
    Inv (startScan { p with due, istimeout } tick) tick where
  spun := by simp [Poll.startScan, i.spun, hm]
  late := by
    have hz := i.first hs ht
    simp only [Poll.startScan]
    split_ifs <;> omega
  first h₁ h₂ := hgo.elim (fun h => absurd (h₁.symm.trans h) (by simp))
    fun h => absurd (h₂.symm.trans h) (by simp)
  due h₁ h₂ _ _ := hgo.elim (fun h => absurd (h₁.symm.trans h) (by simp))
    fun h => absurd (h₂.symm.trans h) (by simp)
  between := by rintro (h | ⟨_, h⟩ | h) <;> cases h
  moved h₁ h₂ := absurd (h₁.symm.trans h₂) (by simp)
  asleep _ h := by cases h
  awake h := by cases h
  elapses := hd
  called := i.called
  elapsed := he
  done h := by cases h

theorem Inv.woken (i : p.Inv tick) : p.woken.Inv tick where
  spun := i.spun
  late := i.late
  first := i.first
  due h₁ h₂ h₃ h₄ := by
    refine i.due h₁ h₂ ?_ ?_
    · rintro ⟨dl, hp⟩
      exact h₄ (by simp [Poll.woken, hp])
    · intro hp
      exact h₄ (by simp [Poll.woken, hp])
  between h := by
    refine i.between ?_
    cases hp : p.phase with
    | wait => exact .inl hp
    | asleep dl => exact .inr (.inl ⟨dl, hp⟩)
    | awake => exact .inr (.inr hp)
    | _ => simp [Between, Poll.woken, hp] at h
  moved _ _ := rfl
  asleep dl h := by
    cases hp : p.phase with
    | asleep _ => simp [Poll.woken, hp] at h
    | _ => simp [Poll.woken, hp] at h
  awake _ := ⟨rfl, .inl rfl⟩
  elapses := i.elapses
  called := i.called
  elapsed := i.elapsed
  done h hz := by
    refine i.done ?_ hz
    cases hp : p.phase with
    | done => rfl
    | _ => simp [Poll.woken, hp] at h

/-- The timer wakes the thread when the time-out has elapsed. -/
theorem Inv.expire (i : p.Inv tick) : (p.expire tick).Inv tick := by
  unfold Poll.expire
  cases hp : p.phase with
  | asleep deadline =>
      cases deadline with
      | none => exact i
      | some d =>
          dsimp only
          split_ifs with hle
          · obtain ⟨ht, hm, hd⟩ := i.asleep _ hp
            exact ⟨i.spun, i.late, i.first, fun _ _ _ h => absurd rfl h,
              fun _ => i.between (.inr (.inl ⟨_, hp⟩)), i.moved, fun _ h => (by cases h),
              fun _ => ⟨hm, .inr ⟨d, hd.symm, hle⟩⟩, i.elapses, i.called, i.elapsed,
              fun h => (by cases h)⟩
          · exact i
  | _ => exact i

/-- The nodes are removed one after another. -/
theorem Inv.setNodes (i : p.Inv tick) (nodes : List (Desc × Mask)) : Inv { p with nodes } tick :=
  ⟨i.spun, i.late, i.first, i.due, i.between, i.moved, i.asleep, i.awake, i.elapses, i.called,
    i.elapsed, i.done⟩

end Poll

/-! ## The queues -/

namespace PollSys

/-- If one of the events is ready, a wake-up for it is in progress. -/
def Served (s : PollSys) (d : Desc) (k : Mask) : Prop :=
  s.ready d &&& k ≠ 0 → ∃ m, (d, m) ∈ s.pending ∧ m &&& k ≠ 0

/-- As long as no node of a call was woken, all of them stand in their queues, and what has become ready
since the thread looked is about to be told. -/
structure Registered (s : PollSys) (t : ThreadId) (p : Poll) : Prop where
  inQueue : p.triggered = false → p.phase ≠ .done → ∀ n ∈ p.nodes, (t, n.2) ∈ s.queue n.1
  served : p.triggered = false → p.phase ≠ .done → p.num = 0 → ∀ n ∈ p.nodes, p.current ≠ some n →
    s.Served n.1 n.2

/-- What holds in every run of sound steps. -/
def Inv (s : PollSys) : Prop :=
  ∀ t p, s.poller t = some p → p.Inv s.tick ∧ s.Registered t p

variable {s s' : PollSys} {a : PollAction} {t u : ThreadId} {p q : Poll} {d : Desc} {m k : Mask}

theorem setPoller_cases (h : (s.setPoller t p).poller u = some q) :
    (u = t ∧ q = p) ∨ (u ≠ t ∧ s.poller u = some q) := by
  change Function.update s.poller t (some p) u = some q at h
  by_cases hu : u = t
  · subst hu
    rw [Function.update_self] at h
    exact .inl ⟨rfl, (Option.some.inj h).symm⟩
  · rw [Function.update_of_ne hu] at h
    exact .inr ⟨hu, h⟩

/-- Other threads change nothing for a call if its nodes stay in their queues. -/
theorem Registered.frame (h : s.Registered t p)
    (hq : ∀ d k, (t, k) ∈ s.queue d → (t, k) ∈ s'.queue d) (hs : ∀ d k, s.Served d k → s'.Served d k) :
    s'.Registered t p :=
  ⟨fun h₁ h₂ n hn => hq _ _ (h.inQueue h₁ h₂ n hn),
    fun h₁ h₂ h₃ n hn hc => hs _ _ (h.served h₁ h₂ h₃ n hn hc)⟩

/-- The call itself goes on, with the same nodes. -/
theorem Registered.goOn (h : s.Registered t p) (ht : q.triggered = false → p.triggered = false)
    (hd : q.phase ≠ .done → p.phase ≠ .done) (hn : q.nodes = p.nodes)
    (hs : q.triggered = false → q.phase ≠ .done → q.num = 0 →
      ∀ n ∈ p.nodes, q.current ≠ some n → s.Served n.1 n.2) : s.Registered t q :=
  ⟨fun h₁ h₂ n hm => h.inQueue (ht h₁) (hd h₂) n (hn ▸ hm),
    fun h₁ h₂ h₃ n hm => hs h₁ h₂ h₃ n (hn ▸ hm)⟩

/-- A step of one thread that leaves the queues and the descriptors alone. -/
theorem Inv.setPoller (hi : s.Inv) (h : p.Inv s.tick) (hr : s.Registered t p) :
    (s.setPoller t p).Inv := by
  intro u q hu
  rcases setPoller_cases hu with ⟨rfl, rfl⟩ | ⟨-, hu⟩
  · exact ⟨h, hr.frame (fun _ _ hq => hq) fun _ _ hs => hs⟩
  · exact ⟨(hi u q hu).1, (hi u q hu).2.frame (fun _ _ hq => hq) fun _ _ hs => hs⟩

/-- A descriptor is registered. -/
theorem Inv.add (hi : s.Inv) (hp : s.poller t = some p) {events : Mask} {rest : List PollFd}
    (hph : p.phase = .scan false) (hrest : p.rest = .polled d events :: rest) :
    PollSys.Inv { s.setPoller t { p with phase := .scan true, nodes := (d, pollKey events) :: p.nodes }
      with queue := Function.update s.queue d (s.queue d ++ [(t, pollKey events)]) } := by
  have hmem : ∀ d' n, n ∈ s.queue d' →
      n ∈ Function.update s.queue d (s.queue d ++ [(t, pollKey events)]) d' := by
    intro d' n hn
    by_cases hd : d' = d
    · subst hd
      rw [Function.update_self]
      exact List.mem_append_left _ hn
    · rw [Function.update_of_ne hd]
      exact hn
  intro u q hu
  rcases setPoller_cases hu with ⟨rfl, rfl⟩ | ⟨-, hu⟩
  · obtain ⟨hl, hr⟩ := hi u p hp
    refine ⟨hl.scan hph p.num p.proc ((d, pollKey events) :: p.nodes) p.rest, fun h₁ _ n hn => ?_,
      fun h₁ _ h₃ n hn hc => ?_⟩
    · rcases List.mem_cons.mp hn with rfl | hn
      · change _ ∈ Function.update s.queue d _ d
        rw [Function.update_self]
        exact List.mem_append_right _ (List.mem_singleton_self _)
      · exact hmem _ _ (hr.inQueue h₁ (by simp [hph]) n hn)
    · have hcur : Poll.current { p with
          phase := .scan true
          nodes := (d, pollKey events) :: p.nodes } = some (d, pollKey events) := by
        simp [Poll.current, hrest]
      rw [hcur] at hc
      have hold := (List.mem_cons.mp hn).resolve_left fun he => hc (congrArg some he.symm)
      exact hr.served h₁ (by simp [hph]) h₃ n hold (by simp [Poll.current, hph])
  · exact ⟨(hi u q hu).1, (hi u q hu).2.frame (fun d' _ => hmem d' _) fun _ _ hs => hs⟩

/-- A node of a call that is over is removed. -/
theorem Inv.remove (hi : s.Inv) (hp : s.poller t = some p) (hph : p.phase = .done)
    {n : Desc × Mask} {nodes : List (Desc × Mask)} :
    PollSys.Inv { s.setPoller t { p with nodes } with
      queue := Function.update s.queue n.1 ((s.queue n.1).erase (t, n.2)) } := by
  intro u q hu
  rcases setPoller_cases hu with ⟨rfl, rfl⟩ | ⟨hne, hu⟩
  · exact ⟨(hi u p hp).1.setNodes nodes, fun _ hd => absurd hph hd, fun _ hd => absurd hph hd⟩
  · refine ⟨(hi u q hu).1, (hi u q hu).2.frame (fun d' k hk => ?_) fun _ _ hs => hs⟩
    change (u, k) ∈ Function.update s.queue n.1 _ d'
    by_cases hd : d' = n.1
    · subst hd
      rw [Function.update_self]
      exact (List.mem_erase_of_ne fun he => hne (congrArg Prod.fst he)).mpr hk
    · rw [Function.update_of_ne hd]
      exact hk

/-- Data arrives, and a wake-up is in progress. -/
theorem Inv.arrive (hi : s.Inv) : PollSys.Inv { s with
    ready := Function.update s.ready d (s.ready d ||| m)
    pending := (d, m) :: s.pending } := by
  intro u q hu
  refine ⟨(hi u q hu).1, (hi u q hu).2.frame (fun _ _ hq => hq) fun d' k hs hready => ?_⟩
  have hold : s.ready d' &&& k ≠ 0 → ∃ m', (d', m') ∈ (d, m) :: s.pending ∧ m' &&& k ≠ 0 := fun h => by
    obtain ⟨m', hm', hk⟩ := hs h
    exact ⟨m', List.mem_cons_of_mem _ hm', hk⟩
  change Function.update s.ready d _ d' &&& k ≠ 0 at hready
  by_cases hd : d' = d
  · subst hd
    rw [Function.update_self, BitVec.and_or_distrib_right] at hready
    by_cases hm : m &&& k = 0
    · refine hold fun hz => hready ?_
      rw [hz, hm]
      rfl
    · exact ⟨m, List.mem_cons_self, hm⟩
  · rw [Function.update_of_ne hd] at hready
    exact hold hready

/-- Data is taken. -/
theorem Inv.consume (hi : s.Inv) :
    PollSys.Inv { s with ready := Function.update s.ready d (s.ready d &&& ~~~m) } := by
  intro u q hu
  refine ⟨(hi u q hu).1, (hi u q hu).2.frame (fun _ _ hq => hq) fun d' k hs hready => hs ?_⟩
  change Function.update s.ready d _ d' &&& k ≠ 0 at hready
  by_cases hd : d' = d
  · subst hd
    rw [Function.update_self] at hready
    intro hz
    apply hready
    rw [BitVec.and_assoc, BitVec.and_comm (~~~m), ← BitVec.and_assoc, hz]
    exact BitVec.zero_and
  · rwa [Function.update_of_ne hd] at hready

/-- A tick, and the timers that are due. -/
theorem Inv.tick (hi : s.Inv) : PollSys.Inv { s with
    tick := s.tick + 1
    poller := fun t => (s.poller t).map fun p => p.expire (s.tick + 1) } := by
  intro u q hu
  obtain ⟨p, hp, rfl⟩ := Option.map_eq_some_iff.mp hu
  obtain ⟨hl, hr⟩ := hi u p hp
  refine ⟨(hl.later (Nat.le_succ _)).expire, ?_⟩
  have hsame : s.Registered u (p.expire (s.tick + 1)) := by
    unfold Poll.expire
    cases hph : p.phase with
    | asleep deadline =>
        cases deadline with
        | none => exact hr
        | some d =>
            dsimp only
            split_ifs
            · refine hr.goOn (fun h => h) (fun _ => by simp [hph]) rfl fun h₁ _ h₃ n hn _ => ?_
              exact hr.served h₁ (by simp [hph]) h₃ n hn (by simp [Poll.current, hph])
            · exact hr
    | _ => exact hr
  exact hsame.frame (fun _ _ hq => hq) fun _ _ hs => hs

/-- A call that was woken needs its queues no more. -/
theorem registered_woken : s.Registered t p.woken :=
  ⟨fun h => absurd h (by simp [Poll.woken]), fun h => absurd h (by simp [Poll.woken])⟩

/-- **A wake-up** takes the first node that waits for it. If all such nodes are of one thread, nobody else
waits for it. -/
theorem Inv.wakeup (hi : s.Inv) (hs : s.Sound (.wakeup d m)) :
    (({ s with pending := s.pending.erase (d, m) } : PollSys).rtWqueueWakeup d m).Inv := by
  -- a node that is not served after the wake-up waits for it
  have hserved : ∀ d' k, s.Served d' k → (d' = d → ¬ m &&& k ≠ 0) →
      ({ s with pending := s.pending.erase (d, m) } : PollSys).Served d' k := by
    intro d' k h hnot hready
    obtain ⟨m', hm', hk⟩ := h hready
    refine ⟨m', (List.mem_erase_of_ne fun he => ?_).mpr hm', hk⟩
    obtain ⟨rfl, rfl⟩ := Prod.mk.inj he
    exact hnot rfl hk
  have hmatch : ∀ {u : ThreadId} {k : Mask}, m &&& k ≠ 0 → Matches m (u, k) := fun h => .inr h
  unfold rtWqueueWakeup
  dsimp only
  cases hf : (s.queue d).find? fun n => decide (Matches m n) with
  | none =>
      -- nobody waits for it
      have hnone : ∀ n ∈ s.queue d, ¬ Matches m n := fun n hn => by
        simpa using List.find?_eq_none.mp hf n hn
      intro u q hu
      obtain ⟨hl, hr⟩ := hi u q hu
      refine ⟨hl, hr.inQueue, fun h₁ h₂ h₃ n hn hc => ?_⟩
      refine hserved _ _ (hr.served h₁ h₂ h₃ n hn hc) fun hd hk => ?_
      exact hnone _ (hd ▸ hr.inQueue h₁ h₂ n hn) (hmatch hk)
  | some w =>
      have hw : w ∈ s.queue d := List.mem_of_find?_eq_some hf
      have hwm : Matches m w := by simpa using List.find?_some hf
      intro u q hu
      change Function.update s.poller w.1 _ u = some q at hu
      by_cases hne : u = w.1
      · subst hne
        rw [Function.update_self] at hu
        obtain ⟨p, hp, rfl⟩ := Option.map_eq_some_iff.mp hu
        exact ⟨(hi _ p hp).1.woken, registered_woken⟩
      · rw [Function.update_of_ne hne] at hu
        obtain ⟨hl, hr⟩ := hi u q hu
        refine ⟨hl, fun h₁ h₂ n hn => ?_, fun h₁ h₂ h₃ n hn hc => ?_⟩
        · change (u, n.2) ∈ Function.update s.queue d _ n.1
          have hin := hr.inQueue h₁ h₂ n hn
          by_cases hd : n.1 = d
          · rw [hd, Function.update_self, ← hd]
            exact (List.mem_erase_of_ne fun he => hne (congrArg Prod.fst he)).mpr hin
          · rw [Function.update_of_ne hd]
            exact hin
        · refine hserved _ _ (hr.served h₁ h₂ h₃ n hn hc) fun hd hk => hne ?_
          exact hs _ (hd ▸ hr.inQueue h₁ h₂ n hn) _ hw (hmatch hk) hwm

/-! ## Steps -/

/-- A scan goes on with the next descriptor. -/
theorem Inv.look (hi : s.Inv) (hp : s.poller t = some p) {b : Bool} {mask : Mask}
    (hph : p.phase = .scan b)
    (hcur : ∀ n, p.current = some n → mask = 0 → s.ready n.1 &&& n.2 = 0) :
    (s.setPoller t (p.found mask)).Inv := by
  obtain ⟨hl, hr⟩ := hi t p hp
  refine hi.setPoller (hl.found hph) (hr.goOn (fun h => h) (fun _ => by simp [hph]) rfl
    fun h₁ _ h₃ n hn _ => ?_)
  have hz : mask = 0 ∧ p.num = 0 := by
    change (if mask ≠ 0 then p.num + 1 else p.num) = 0 at h₃
    split_ifs at h₃ with hm
    exact ⟨not_not.mp hm, h₃⟩
  by_cases hc : p.current = some n
  · exact fun hready => absurd (hcur n hc hz.1) hready
  · exact hr.served h₁ (by simp [hph]) hz.2 n hn hc

/-- A scan ends. -/
theorem Inv.finish (hi : s.Inv) (hp : s.poller t = some p) (hs : s.Sound (.finish t)) {b : Bool}
    (hph : p.phase = .scan b) (hrest : p.rest = []) :
    (if p.num ≠ 0 ∨ p.istimeout = true then
      s.setPoller t { p with proc := false, phase := .done }
    else s.setPoller t { p with proc := false, phase := .wait }).Inv := by
  obtain ⟨hl, hr⟩ := hi t p hp
  split_ifs with hend
  · exact hi.setPoller (hl.toDone hph hend false)
      ⟨fun _ hd => absurd rfl hd, fun _ hd => absurd rfl hd⟩
  · obtain ⟨hz, ht⟩ := not_or.mp hend
    have hstale : p.stale = false := by
      by_contra hne
      exact hend (hs p hp (by simpa using hne))
    refine hi.setPoller (hl.toWait hph (not_not.mp hz) (by simpa using ht) hstale false)
      (hr.goOn (fun h => h) (fun _ => by simp [hph]) rfl fun h₁ _ h₃ n hn _ => ?_)
    exact hr.served h₁ (by simp [hph]) h₃ n hn (by simp [Poll.current, hrest])

/-- **`poll_wait_timeout`**: the thread sleeps, or its flag is set and it scans again. -/
theorem Inv.wait (hi : s.Inv) (hp : s.poller t = some p) (hph : p.phase = .wait) :
    (if p.triggered = true then
      s.setPoller t (Poll.startScan { p with due := p.due.or (p.timeout.map (s.tick + ·)) } s.tick)
    else s.setPoller t { p with
      due := p.due.or (p.timeout.map (s.tick + ·))
      phase := .asleep (p.timeout.map (s.tick + ·))
      moved := true }).Inv := by
  obtain ⟨hl, hr⟩ := hi t p hp
  obtain ⟨hstale, hto, -⟩ := hl.between (.inl hph)
  split_ifs with ht
  · refine hi.setPoller (hl.startScan hstale hto (hl.moved ht hstale) ?_ (.inl ht) hl.elapsed)
      ⟨fun hf => ?_, fun hf => ?_⟩
    · rw [hl.dueAt hph]
      exact hl.elapsesAt
    · exact absurd ht (by simpa [Poll.startScan] using hf)
    · exact absurd ht (by simpa [Poll.startScan] using hf)
  · refine hi.setPoller (hl.toAsleep hph (by simpa using ht))
      (hr.goOn (fun h => h) (fun _ => by simp [hph]) rfl fun h₁ _ h₃ n hn _ => ?_)
    exact hr.served h₁ (by simp [hph]) h₃ n hn (by simp [Poll.current, hph])

/-- The thread has been resumed. -/
theorem Inv.resume (hi : s.Inv) (hp : s.poller t = some p) (hph : p.phase = .awake) :
    (s.setPoller t (Poll.startScan { p with istimeout := p.istimeout || !p.triggered } s.tick)).Inv := by
  obtain ⟨hl, hr⟩ := hi t p hp
  obtain ⟨hstale, hto, hz⟩ := hl.between (.inr (.inr hph))
  obtain ⟨hm, hwhy⟩ := hl.awake hph
  refine hi.setPoller (hl.startScan hstale hto hm hl.elapses ?_ fun he => ?_)
    (hr.goOn (fun h => h) (fun _ => by simp [hph]) rfl fun h₁ _ _ n hn _ => ?_)
  · cases ht : p.triggered
    · exact .inr (by simp)
    · exact .inl rfl
  · have hnot : p.triggered = false := by simpa [hto] using he
    obtain ⟨d, hd, hle⟩ := hwhy.resolve_left (by simp [hnot])
    obtain ⟨n, hn, hc⟩ := hl.elapses d hd
    exact ⟨n, hn, by omega⟩
  · exact hr.served h₁ (by simp [hph]) hz n hn (by simp [Poll.current, hph])

/-- **One step keeps the invariant.** -/
theorem Inv.step (hi : s.Inv) (hs : s.Sound a) (h : s.exec a = some s') : s'.Inv := by
  cases a with
  | call t fds timeout =>
      cases hp : s.poller t with
      | none =>
          simp only [exec, hp] at h
          obtain rfl := Option.some.inj h
          exact hi.setPoller Poll.inv_init
            ⟨fun _ _ n hn => absurd hn List.not_mem_nil, fun _ _ _ n hn => absurd hn List.not_mem_nil⟩
      | some p => simp only [exec, hp] at h; cases h
  | add t alloc =>
      cases hp : s.poller t with
      | none => simp only [exec, hp] at h; cases h
      | some p =>
          simp only [exec, hp] at h
          split at h
          · rename_i d events rest hph hrest
            split_ifs at h
            · obtain rfl := Option.some.inj h
              exact hi.add hp hph hrest
            · obtain rfl := Option.some.inj h
              obtain ⟨hl, hr⟩ := hi t p hp
              refine hi.setPoller (hl.scan hph p.num p.proc p.nodes p.rest)
                (hr.goOn (fun h => h) (fun _ => by simp [hph]) rfl fun h₁ _ h₃ n hn _ => ?_)
              exact hr.served h₁ (by simp [hph]) h₃ n hn (by simp [Poll.current, hph])
          · cases h
  | look t =>
      cases hp : s.poller t with
      | none => simp only [exec, hp] at h; cases h
      | some p =>
          simp only [exec, hp] at h
          split at h
          · rename_i d events rest hph hrest
            obtain rfl := Option.some.inj h
            refine hi.look hp hph fun n hn hz => ?_
            simp only [Poll.current, hph, hrest, Option.some.injEq] at hn
            obtain rfl := hn
            exact hz
          · rename_i revents rest hph hrest
            obtain rfl := Option.some.inj h
            exact hi.look hp hph fun n hn _ => by simp [Poll.current, hph] at hn
          · cases h
  | finish t =>
      cases hp : s.poller t with
      | none => simp only [exec, hp] at h; cases h
      | some p =>
          simp only [exec, hp] at h
          split at h
          · rename_i b hph hrest
            have hend := hi.finish hp hs hph hrest
            split_ifs at h hend
            · obtain rfl := Option.some.inj h
              exact hend
            · obtain rfl := Option.some.inj h
              exact hend
          · cases h
  | wait t =>
      cases hp : s.poller t with
      | none => simp only [exec, hp] at h; cases h
      | some p =>
          simp only [exec, hp] at h
          split_ifs at h with hph ht
          · have hw := hi.wait hp hph
            rw [if_pos ht] at hw
            obtain rfl := Option.some.inj h
            exact hw
          · have hw := hi.wait hp hph
            rw [if_neg ht] at hw
            obtain rfl := Option.some.inj h
            exact hw
  | resume t =>
      cases hp : s.poller t with
      | none => simp only [exec, hp] at h; cases h
      | some p =>
          simp only [exec, hp] at h
          split_ifs at h with hph
          obtain rfl := Option.some.inj h
          exact hi.resume hp hph
  | teardown t =>
      cases hp : s.poller t with
      | none => simp only [exec, hp] at h; cases h
      | some p =>
          simp only [exec, hp] at h
          split_ifs at h with hph
          split at h
          · obtain rfl := Option.some.inj h
            exact hi.remove hp hph
          · obtain rfl := Option.some.inj h
            intro u q hu
            change Function.update s.poller t none u = some q at hu
            by_cases hut : u = t
            · rw [hut, Function.update_self] at hu
              cases hu
            · rw [Function.update_of_ne hut] at hu
              exact ⟨(hi u q hu).1, (hi u q hu).2.frame (fun _ _ hq => hq) fun _ _ hs => hs⟩
  | tick =>
      obtain rfl := Option.some.inj h
      exact hi.tick
  | arrive d m =>
      obtain rfl := Option.some.inj h
      exact hi.arrive
  | wakeup d m =>
      simp only [exec] at h
      split_ifs at h
      obtain rfl := Option.some.inj h
      exact hi.wakeup hs
  | consume d m =>
      obtain rfl := Option.some.inj h
      exact hi.consume

theorem Init.inv (h : s.Init) : s.Inv := fun t p hp => by
  rw [h.poller t] at hp
  cases hp

theorem Inv.awaited (hi : s.Inv) : s.Awaited where
  spun t p hp := (hi t p hp).1.spun
  late t p hp := (hi t p hp).1.late
  zero t p hp hd hz := (hi t p hp).1.elapsed ((hi t p hp).1.done hd hz)
  asleep t p deadline hp hph n hn := by
    obtain ⟨hl, hr⟩ := hi t p hp
    obtain ⟨-, -, hz⟩ := hl.between (.inr (.inl ⟨deadline, hph⟩))
    exact hr.served (hl.asleep deadline hph).1 (by simp [hph]) hz n hn (by simp [Poll.current, hph])

/-- **`poll` neither spins nor sleeps on a ready descriptor**, in every run whose steps are sound. -/
theorem poll_awaits (h : Reachable Init (fun s a s' => s.exec a = some s' ∧ s.Sound a) s) :
    s.Awaited := by
  have hi : s.Inv := h.invariant (fun _ h₀ => h₀.inv) fun _ _ _ _ hi hs => hi.step hs.2 hs.1
  exact hi.awaited

end PollSys

/-! ## Data that is gone, and two threads -/

def freshPoll : PollSys := ⟨0, fun _ => 0#32, [], fun _ => [], fun _ => none⟩

theorem freshPoll_init : freshPoll.Init := ⟨fun _ => rfl, fun _ => rfl⟩

/-- One thread polls descriptor 0 for `POLLIN`, and sleeps. -/
def pollOne (t : ThreadId) (timeout : Option Nat) : List PollAction :=
  [.call t [.polled 0 1#32] timeout, .add t true, .look t, .finish t, .wait t]

/-- The data arrives and is found: all steps are sound. -/
theorem poll_awaits_found : ∃ s p, runList (stepIf PollSys.exec PollSys.Sound) freshPoll
      (pollOne 0 (some 3) ++ [.arrive 0 1#32, .wakeup 0 1#32, .resume 0, .add 0 true, .look 0,
        .finish 0]) = some s ∧
    s.poller 0 = some p ∧ p.phase = .done ∧ p.num = 1 ∧ s.Awaited := by
  have hview : ((runList (stepIf PollSys.exec PollSys.Sound) freshPoll
      (pollOne 0 (some 3) ++ [.arrive 0 1#32, .wakeup 0 1#32, .resume 0, .add 0 true, .look 0,
        .finish 0])).bind fun s => (s.poller 0).map fun p => (p.phase, p.num)) =
      some (.done, 1) := by decide +kernel
  obtain ⟨s, hs, hview⟩ := Option.bind_eq_some_iff.mp hview
  obtain ⟨p, hp, hview⟩ := Option.map_eq_some_iff.mp hview
  obtain ⟨hph, hnum⟩ := Prod.mk.inj hview
  exact ⟨s, p, hs, hp, hph, hnum,
    PollSys.poll_awaits (reachable_of_runList_stepIf freshPoll_init hs)⟩

/-- The data is taken by another thread before the scan. -/
def takenData : List PollAction :=
  pollOne 0 (some 3) ++ [.arrive 0 1#32, .wakeup 0 1#32, .consume 0 1#32, .resume 0, .add 0 true,
    .look 0, .finish 0, .wait 0, .add 0 true, .look 0, .finish 0, .tick, .tick, .tick, .wait 0,
    .add 0 true, .look 0, .finish 0, .wait 0]

/-- Two threads poll the same descriptor, and data arrives. -/
def twoPollers : List PollAction :=
  pollOne 0 (some 3) ++ pollOne 1 none ++ [.arrive 0 1#32, .wakeup 0 1#32]

/-- After the wake-up the first thread scans again and again, also when its time-out has elapsed. The
second thread sleeps, and its descriptor is ready. -/
theorem poll_spins_and_sleeps :
    (∃ s p, runList PollSys.exec freshPoll takenData = some s ∧ s.poller 0 = some p ∧
      p.spun = true ∧ p.due = some 3 ∧ s.tick = 3 ∧ p.late = 2 ∧ ¬ s.Awaited) ∧
    ∃ s p, runList PollSys.exec freshPoll twoPollers = some s ∧ s.poller 1 = some p ∧
      p.phase = .asleep none ∧ p.nodes = [(0, pollKey 1#32)] ∧ s.ready 0 = 1#32 ∧ s.pending = [] ∧
      ¬ s.Awaited := by
  constructor
  · have hview : ((runList PollSys.exec freshPoll takenData).bind fun s =>
        (s.poller 0).map fun p => (p.spun, p.due, s.tick, p.late)) =
        some (true, some 3, 3, 2) := by decide +kernel
    obtain ⟨s, hs, hview⟩ := Option.bind_eq_some_iff.mp hview
    obtain ⟨p, hp, hview⟩ := Option.map_eq_some_iff.mp hview
    simp only [Prod.mk.injEq] at hview
    obtain ⟨hspun, hdue, htick, hlate⟩ := hview
    refine ⟨s, p, hs, hp, hspun, hdue, htick, hlate, fun ha => ?_⟩
    have hfalse := ha.spun 0 p hp
    rw [hspun] at hfalse
    cases hfalse
  · have hview : ((runList PollSys.exec freshPoll twoPollers).bind fun s =>
        (s.poller 1).map fun p => (p.phase, p.nodes, s.ready 0, s.pending)) =
        some (.asleep none, [(0, pollKey 1#32)], 1#32, []) := by decide +kernel
    obtain ⟨s, hs, hview⟩ := Option.bind_eq_some_iff.mp hview
    obtain ⟨p, hp, hview⟩ := Option.map_eq_some_iff.mp hview
    simp only [Prod.mk.injEq] at hview
    obtain ⟨hph, hn, hr, hpend⟩ := hview
    refine ⟨s, p, hs, hp, hph, hn, hr, hpend, fun ha => ?_⟩
    obtain ⟨m, hm, -⟩ := ha.asleep 1 p none hp hph (0, pollKey 1#32)
      (hn ▸ List.mem_singleton_self _) (by rw [hr]; decide)
    rw [hpend] at hm
    cases hm

end RTThread.Dfs
