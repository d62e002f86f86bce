import RTThread.Lib.Run

set_option autoImplicit false

/-! # Completions (`completion.c`)

One thread waits for a completion, with any timeout, and any number of threads and interrupts signal it.
The sections of `rt_completion_wait` and `rt_completion_done` with interrupts disabled are steps;
`rt_completion_done` looks at the flag before its section. The timer of the waiting thread expires at any
moment while it runs, in `rt_thread_timeout`.

The wait clears the flag when the thread runs again, whatever woke it. A signal that comes after the timer
expired and before the thread runs is lost.
-/

namespace RTThread.Comp

open Trans

inductive Err
  | ok | timeout
  deriving DecidableEq, Repr

/-- `struct rt_completion`, and what the code uses of the thread that waits. -/
structure Completion where
  /-- `flag` is `RT_COMPLETED`. -/
  flag : Bool
  /-- The thread is in `suspended_list`. -/
  listed : Bool
  /-- The thread is suspended. -/
  suspended : Bool
  error : Err
  /-- The timer of the thread runs. -/
  timer : Bool
  deriving DecidableEq

/-- `rt_completion_wait` up to `rt_schedule`: the result, if it returns there. -/
def waitSection (timeout : Int) (c : Completion) : Option (Completion × Option Err) :=
  if c.flag = false then
    -- only one thread can suspend on complete
    if c.listed then none
    else if timeout = 0 then some (c, some .timeout)
    else
      some ({ c with
        error := .ok, suspended := true, listed := true, timer := decide (timeout > 0) }, none)
  else some ({ c with flag := false }, some .ok)

/-- `rt_completion_wait` after `rt_schedule`. -/
def wakeSection (c : Completion) : Completion × Err := ({ c with flag := false }, c.error)

/-- `rt_thread_resume`. -/
def rtThreadResume (c : Completion) : Completion :=
  if c.suspended then { c with suspended := false, listed := false, timer := false } else c

/-- `rt_completion_done`, from the section on. -/
def doneSection (c : Completion) : Completion :=
  let c := { c with flag := true }
  if c.listed then rtThreadResume c else c

/-- `rt_thread_timeout`, and the end of the timer. -/
def rtThreadTimeout (c : Completion) : Completion :=
  { c with error := .timeout, listed := false, suspended := false, timer := false }

/-! ## Runs -/

/-- The completion, where its callers stand, and the history: the calls of `rt_completion_done` that found
the completion not completed are numbered. -/
structure CompSys where
  comp : Completion
  /-- The thread is in `rt_completion_wait`. -/
  inWait : Bool
  /-- The calls of `rt_completion_done` in front of their section. -/
  inDone : List Nat
  calls : Nat
  /-- The calls that have set the flag. -/
  signalled : List Nat
  /-- Those that set it since it was cleared. -/
  pending : List Nat
  /-- The results of the waits, the last one first, and the calls whose flag each of them cleared. -/
  returns : List (Err × List Nat)

inductive CompAction
  | wait (timeout : Int)
  | wake
  | expire
  | done
  | signal (call : Nat)
  deriving DecidableEq

namespace CompSys

/-- A wait returns, and the flag is cleared. -/
def finish (s : CompSys) (c : Completion) (result : Err) : CompSys :=
  { s with
    comp := c, inWait := false, pending := [], returns := (result, s.pending) :: s.returns }

def exec (s : CompSys) : CompAction → Option CompSys
  | .wait timeout =>
      if s.inWait then none
      else match waitSection timeout s.comp with
        | none => none
        | some (c, none) => some { s with comp := c, inWait := true }
        | some (c, some .ok) => some (s.finish c .ok)
        -- the flag is left alone
        | some (c, some .timeout) =>
            some { s with comp := c, returns := (.timeout, []) :: s.returns }
  | .wake =>
      if s.inWait ∧ s.comp.suspended = false then
        let x := wakeSection s.comp
        some (s.finish x.1 x.2)
      else none
  | .expire => if s.comp.timer then some { s with comp := rtThreadTimeout s.comp } else none
  | .done =>
      if s.comp.flag then some s
      else some { s with inDone := s.calls :: s.inDone, calls := s.calls + 1 }
  | .signal call =>
      if call ∈ s.inDone then
        some
          { s with
            comp := doneSection s.comp
            inDone := s.inDone.erase call
            signalled := call :: s.signalled
            pending := call :: s.pending }
      else none

/-- Nobody waits, and nothing was signalled. -/
def Init (s : CompSys) : Prop :=
  s = ⟨⟨false, false, false, s.comp.error, false⟩, false, [], 0, [], [], []⟩

/-- **No signal is lost**: a call of `rt_completion_done` that found the completion not completed and set
the flag is still pending, or exactly one wait has consumed it, with the result `RT_EOK`; and a wait that
timed out has consumed nothing. -/
structure NeverLost (s : CompSys) : Prop where
  signalled : ∀ d ∈ s.signalled,
    (d ∈ s.pending ∧ s.comp.flag = true ∧ s.returns.filter (d ∈ ·.2) = []) ∨
      d ∉ s.pending ∧ ∃ ds, s.returns.filter (d ∈ ·.2) = [(.ok, ds)]
  timeout : ∀ r ∈ s.returns, r.1 = .timeout → r.2 = []

/-- The flag is not set between the end of the timer and the moment the thread runs again. -/
def Timely (s : CompSys) : CompAction → Prop
  | .signal _ => ¬ (s.inWait = true ∧ s.comp.error = .timeout)
  | _ => True

instance Timely.decidable (s : CompSys) (a : CompAction) : Decidable (Timely s a) := by
  cases a <;> unfold Timely <;> infer_instance

/-! ## The invariant -/

/-- What holds between the steps of a timely run. -/
structure Inv (s : CompSys) : Prop where
  listed : s.comp.listed = s.comp.suspended
  suspended : s.comp.suspended = true → s.inWait = true ∧ s.comp.flag = false ∧ s.comp.error = .ok
  timer : s.comp.timer = true → s.comp.suspended = true
  flag : s.comp.flag = true ↔ s.pending ≠ []
  -- a thread that runs again was woken by a signal, or by its timer and nothing was signalled
  woken : s.inWait = true → s.comp.error = .timeout → s.pending = []
  fresh : ∀ d, d ∉ s.signalled → s.returns.filter (d ∈ ·.2) = [] ∧ d ∉ s.pending
  calls : ∀ d, d ∈ s.inDone ∨ d ∈ s.signalled → d < s.calls
  once : s.inDone.Nodup ∧ ∀ d ∈ s.inDone, d ∉ s.signalled
  pending : ∀ d ∈ s.pending, s.returns.filter (d ∈ ·.2) = []
  consumed : ∀ d ∈ s.signalled, d ∉ s.pending → ∃ ds, s.returns.filter (d ∈ ·.2) = [(.ok, ds)]
  timeout : ∀ r ∈ s.returns, r.1 = .timeout → r.2 = []

namespace Inv

variable {s : CompSys} {c : Completion} {result : Err}

theorem init (h : s.Init) : Inv s := by
  rw [h]
  constructor <;> simp

theorem neverLost (i : Inv s) : NeverLost s := by
  refine ⟨fun d hd => ?_, i.timeout⟩
  by_cases hp : d ∈ s.pending
  · exact Or.inl ⟨hp, i.flag.mpr (List.ne_nil_of_mem hp), i.pending d hp⟩
  · exact Or.inr ⟨hp, i.consumed d hd hp⟩

/-- A wait returns: it takes all that is pending, and nothing is pending if it timed out. -/
theorem finish (i : Inv s) (hc : c = { s.comp with flag := false }) (hs : s.comp.suspended = false)
    (hresult : result = .timeout → s.pending = []) : Inv (s.finish c result) := by
  have hfilter : ∀ d, (s.finish c result).returns.filter (d ∈ ·.2) =
      if d ∈ s.pending then (result, s.pending) :: s.returns.filter (d ∈ ·.2)
      else s.returns.filter (d ∈ ·.2) := by
    intro d
    change ((result, s.pending) :: s.returns).filter (d ∈ ·.2) = _
    rw [List.filter_cons]
    by_cases hd : d ∈ s.pending
    · rw [if_pos hd, if_pos (by simpa using hd)]
    · rw [if_neg hd, if_neg (by simpa using hd)]
  subst hc
  constructor
  case listed => exact i.listed
  case suspended =>
    intro h
    exact absurd (hs.symm.trans h) (by decide)
  case timer => exact i.timer
  case flag => exact iff_of_false (by simp [CompSys.finish]) (by simp [CompSys.finish])
  case woken =>
    intro h
    exact absurd h (by simp [CompSys.finish])
  case fresh =>
    intro d hd
    obtain ⟨h₁, h₂⟩ := i.fresh d hd
    rw [hfilter, if_neg h₂]
    exact ⟨h₁, List.not_mem_nil⟩
  case calls => exact i.calls
  case once => exact i.once
  case pending =>
    intro d hd
    exact absurd hd List.not_mem_nil
  case consumed =>
    intro d hd _
    rw [hfilter]
    by_cases hp : d ∈ s.pending
    · have hok : result = .ok := by
        cases result with
        | ok => rfl
        | timeout =>
          rw [hresult rfl] at hp
          exact absurd hp List.not_mem_nil
      rw [if_pos hp, i.pending d hp, hok]
      exact ⟨s.pending, rfl⟩
    · rw [if_neg hp]
      exact i.consumed d hd hp
  case timeout =>
    intro r hr ht
    rcases List.mem_cons.mp hr with rfl | hr
    · exact hresult ht
    · exact i.timeout r hr ht

/-- **The first section of the wait.** -/
theorem wait {timeout : Int} {s' : CompSys} (i : Inv s) (h : s.exec (.wait timeout) = some s') :
    Inv s' := by
  rw [exec] at h
  by_cases hw : s.inWait = true
  · rw [if_pos hw] at h
    cases h
  rw [if_neg hw] at h
  have hs : s.comp.suspended = false := by
    by_contra hs
    exact hw (i.suspended (by simpa using hs)).1
  unfold waitSection at h
  by_cases hf : s.comp.flag = false
  · rw [if_pos hf] at h
    have hpending : s.pending = [] := by
      by_contra hp
      rw [i.flag.mpr hp] at hf
      cases hf
    rw [if_neg (by rw [i.listed, hs]; decide)] at h
    by_cases ht : timeout = 0
    · -- the flag is not looked at again
      rw [if_pos ht] at h
      cases h
      have hfilter : ∀ d : Nat, ((Err.timeout, ([] : List Nat)) :: s.returns).filter (d ∈ ·.2) =
          s.returns.filter (d ∈ ·.2) := fun d => List.filter_cons_of_neg (by simp)
      constructor
      case listed => exact i.listed
      case suspended => exact i.suspended
      case timer => exact i.timer
      case flag => exact i.flag
      case woken => exact i.woken
      case fresh =>
        intro d hd
        rw [hfilter]
        exact i.fresh d hd
      case calls => exact i.calls
      case once => exact i.once
      case pending =>
        intro d hd
        rw [hfilter]
        exact i.pending d hd
      case consumed =>
        intro d hd hp
        rw [hfilter]
        exact i.consumed d hd hp
      case timeout =>
        intro r hr h
        rcases List.mem_cons.mp hr with rfl | hr
        · rfl
        · exact i.timeout r hr h
    · rw [if_neg ht] at h
      cases h
      exact { i with
        listed := rfl
        suspended := fun _ => ⟨rfl, hf, rfl⟩
        timer := fun _ => rfl
        woken := fun _ _ => hpending }
  · rw [if_neg hf] at h
    cases h
    exact i.finish rfl hs fun h => by cases h

/-- **The second section of the wait.** -/
theorem wake {s' : CompSys} (i : Inv s) (h : s.exec .wake = some s') : Inv s' := by
  rw [exec] at h
  by_cases hw : s.inWait = true ∧ s.comp.suspended = false
  · rw [if_pos hw] at h
    cases h
    exact i.finish rfl hw.2 fun he => i.woken hw.1 he
  · rw [if_neg hw] at h
    cases h

theorem expire {s' : CompSys} (i : Inv s) (h : s.exec .expire = some s') : Inv s' := by
  rw [exec] at h
  by_cases ht : s.comp.timer = true
  · rw [if_pos ht] at h
    cases h
    obtain ⟨-, hf, -⟩ := i.suspended (i.timer ht)
    have hpending : s.pending = [] := by
      by_contra hp
      rw [i.flag.mpr hp] at hf
      cases hf
    exact { i with
      listed := rfl
      suspended := fun h => by cases h
      timer := fun h => by cases h
      woken := fun _ _ => hpending }
  · rw [if_neg ht] at h
    cases h

theorem done {s' : CompSys} (i : Inv s) (h : s.exec .done = some s') : Inv s' := by
  rw [exec] at h
  by_cases hf : s.comp.flag = true
  · rw [if_pos hf] at h
    cases h
    exact i
  · rw [if_neg hf] at h
    cases h
    have hnew : s.calls ∉ s.inDone ∧ s.calls ∉ s.signalled := by
      constructor
      · exact fun hm => absurd (i.calls _ (Or.inl hm)) (lt_irrefl _)
      · exact fun hm => absurd (i.calls _ (Or.inr hm)) (lt_irrefl _)
    refine { i with calls := fun d hd => ?_, once := ⟨List.nodup_cons.mpr ⟨hnew.1, i.once.1⟩, ?_⟩ }
    · rcases hd with hd | hd
      · rcases List.mem_cons.mp hd with rfl | hd
        · exact Nat.lt_succ_self _
        · exact (i.calls d (Or.inl hd)).trans (Nat.lt_succ_self _)
      · exact (i.calls d (Or.inr hd)).trans (Nat.lt_succ_self _)
    · intro d hd
      rcases List.mem_cons.mp hd with rfl | hd
      · exact hnew.2
      · exact i.once.2 d hd

/-- **The section of `rt_completion_done`**, which may find the flag set by another call. -/
theorem signal {call : Nat} {s' : CompSys} (i : Inv s)
    (hc : ¬ (s.inWait = true ∧ s.comp.error = .timeout)) (h : s.exec (.signal call) = some s') :
    Inv s' := by
  rw [exec] at h
  by_cases hm : call ∈ s.inDone
  swap
  · rw [if_neg hm] at h
    cases h
  rw [if_pos hm] at h
  cases h
  have hnew := i.once.2 call hm
  obtain ⟨hfilter, hpending⟩ := i.fresh call hnew
  have hcomp : (doneSection s.comp).flag = true ∧ (doneSection s.comp).suspended = false ∧
      (doneSection s.comp).listed = false ∧ (doneSection s.comp).error = s.comp.error ∧
      (doneSection s.comp).timer = false := by
    have hlisted := i.listed
    have htimer := i.timer
    unfold doneSection rtThreadResume
    cases hs : s.comp.suspended
    · rw [hs] at hlisted htimer
      have ht : s.comp.timer = false := by
        by_contra ht
        exact absurd (htimer (by simpa using ht)) (by decide)
      simp [hlisted, ht]
    · rw [hs] at hlisted
      simp [hlisted]
  obtain ⟨hflag, hsus, hlist, herr, htim⟩ := hcomp
  constructor
  case listed => exact hlist.trans hsus.symm
  case suspended =>
    intro h
    exact absurd (hsus.symm.trans h) (by decide)
  case timer =>
    intro h
    exact absurd (htim.symm.trans h) (by decide)
  case flag => exact iff_of_true hflag (List.cons_ne_nil _ _)
  case woken =>
    intro hw he
    exact absurd ⟨hw, herr.symm.trans he⟩ hc
  case fresh =>
    intro d hd
    rw [List.mem_cons, not_or] at hd
    obtain ⟨h₁, h₂⟩ := i.fresh d hd.2
    refine ⟨h₁, fun hp => ?_⟩
    rcases List.mem_cons.mp hp with hp | hp
    · exact hd.1 hp
    · exact h₂ hp
  case calls =>
    intro d hd
    rcases hd with hd | hd
    · exact i.calls d (Or.inl (List.mem_of_mem_erase hd))
    · rcases List.mem_cons.mp hd with rfl | hd
      · exact i.calls d (Or.inl hm)
      · exact i.calls d (Or.inr hd)
  case once =>
    refine ⟨i.once.1.erase call, fun d hd hs => ?_⟩
    rcases List.mem_cons.mp hs with rfl | hs
    · exact absurd hd (i.once.1.not_mem_erase)
    · exact i.once.2 d (List.mem_of_mem_erase hd) hs
  case pending =>
    intro d hd
    rcases List.mem_cons.mp hd with rfl | hd
    · exact hfilter
    · exact i.pending d hd
  case consumed =>
    intro d hd hp
    rw [List.mem_cons, not_or] at hp
    exact i.consumed d ((List.mem_cons.mp hd).resolve_left hp.1) hp.2
  case timeout => exact i.timeout

theorem step {a : CompAction} {s' : CompSys} (i : Inv s) (h : s.exec a = some s') (hc : Timely s a) :
    Inv s' := by
  cases a with
  | wait timeout => exact i.wait h
  | wake => exact i.wake h
  | expire => exact i.expire h
  | done => exact i.done h
  | signal call => exact i.signal hc h

end Inv

/-- **A completion is not lost** in a run in which it is not signalled between the end of the timer of the
waiting thread and the moment the thread runs again. -/
theorem completion_never_lost {s : CompSys}
    (h : Reachable Init (fun s a s' => exec s a = some s' ∧ Timely s a) s) : NeverLost s := by
  have hinv : Inv s := by
    apply h.invariant (fun _ h => Inv.init h)
    intro s a s' _ hi ha
    exact hi.step ha.1 ha.2
  exact hinv.neverLost

section Cases

def start : CompSys := ⟨⟨false, false, false, .ok, false⟩, false, [], 0, [], [], []⟩

theorem init_start : start.Init := rfl

/-- A wait that times out, and a signal for the next one. -/
theorem completion_never_lost_after_timeout :
    ∃ s, NeverLost s ∧ s.returns = [(.ok, [0]), (.timeout, [])] := by
  have hrun : runList (stepIf exec Timely) start
      [.wait 5, .expire, .wake, .done, .signal 0, .wait 5] =
      some ⟨⟨false, false, false, .timeout, false⟩, false, [], 1, [0], [],
        [(.ok, [0]), (.timeout, [])]⟩ := rfl
  exact ⟨_, completion_never_lost (reachable_of_runList_stepIf init_start hrun), rfl⟩

/-- The timer of a wait expires, then the completion is signalled, and then the thread runs. -/
theorem completion_lost :
    ¬ ∀ s, Reachable Init (fun s a s' => exec s a = some s') s → NeverLost s := by
  intro hclaim
  have hrun : runList exec start [.wait 5, .expire, .done, .signal 0, .wake] =
      some ⟨⟨false, false, false, .timeout, false⟩, false, [], 1, [0], [], [(.timeout, [0])]⟩ := rfl
  have h := (hclaim _ (reachable_of_runList (.init init_start) hrun)).timeout (.timeout, [0])
    List.mem_cons_self rfl
  cases h

end Cases

end CompSys

end RTThread.Comp
