import RTThread.Lib.Count
import RTThread.Ipc.Semaphore
import RTThread.Signal.System

set_option autoImplicit false

/-! # Semaphores and signals

A release of a semaphore hands its token to a waiting thread by resuming it, and tells it by the
error field, which is still RT_EOK. A signal handler that runs in the thread before it goes on writes
`-RT_EINTR` there, and then the take returns this error although it was given the token. The other
way round, a waiting thread that was resumed for a signal has RT_EOK in its error field until the
handler has run: if it goes on before, its take returns RT_EOK although it was given no token. In
the runs in which neither happens, and no release overflows, the tokens are conserved.
-/

namespace RTThread.SigSys

open Kernel Ipc Trans

/-- The calls about semaphores. -/
def SemCall : Call → Prop
  | .semTake _ _ | .semRelease _ => True
  | _ => False

instance SemCall.decidable : (c : Call) → Decidable (SemCall c)
  | .semTake .. | .semRelease .. => isTrue trivial
  | .semReset .. | .mutexTake .. | .mutexRelease .. | .eventSend .. | .eventRecv .. | .eventReset ..
  | .mbSend .. | .mbRecv .. | .mbReset .. | .mqSend .. | .mqUrgent .. | .mqRecv ..
  | .mqReset .. => isFalse id

theorem SemCall.takes {c : Call} (h : SemCall c) : Takes c := by
  cases c with
  | semTake | semRelease => trivial
  | _ => exact absurd h id

section

variable [RtConfig] {i m : Nat} {q q' : Sys} {a : Action} {t u v : ThreadId} {x : Section}
  {time : Int}

/-! ## What a step does to one semaphore -/

/-- A take of semaphore `i` is about to return RT_EOK. -/
abbrev WillTake (i : Nat) (q : Sys) (t : ThreadId) : Prop := Granted (.suspend (.sem i)) q t

/-- A step about semaphores, as semaphore `i` sees it. -/
inductive SemStep (i : Nat) (q : Sys) (a : Action) (q' : Sys) : Prop
  | other (hg : ∀ v, WillTake i q' v ↔ WillTake i q v)
      (hv : (q'.ipc.sem i).value = (q.ipc.sem i).value) (hr : releasesSem i a = false)
      (ht : takeReturns i q a = false)
  /-- `rt_sem_take` of a thread when there is a token -/
  | take {t : ThreadId} {r : Run} (ha : a = .run t r) (hp : q.pc t = .idle) (hu : WillTake i q' t)
      (hg : ∀ v, v ≠ t → (WillTake i q' v ↔ WillTake i q v))
      (hv : (q'.ipc.sem i).value + 1 = (q.ipc.sem i).value) (hr : releasesSem i a = false)
      (ht : takeReturns i q a = false)
  /-- `rt_sem_release` when thread `u` waits -/
  | hand {u : ThreadId} (hm : u ∈ q.ipc.kernel.lists (.suspend (.sem i))) (hu : WillTake i q' u)
      (hg : ∀ v, v ≠ u → (WillTake i q' v ↔ WillTake i q v))
      (hv : (q'.ipc.sem i).value = (q.ipc.sem i).value) (hr : releasesSem i a = true)
      (ht : takeReturns i q a = false)
  /-- `rt_sem_release` when no thread waits -/
  | release (hl : q.ipc.kernel.lists (.suspend (.sem i)) = [])
      (hg : ∀ v, WillTake i q' v ↔ WillTake i q v)
      (hv : (q'.ipc.sem i).value = ((q.ipc.sem i).value + 1) % 2 ^ 16)
      (hr : releasesSem i a = true) (ht : takeReturns i q a = false)
  /-- a take returns RT_EOK to a thread -/
  | ret {t : ThreadId} {c : Call} {e : Err} {r : Reply} (ha : a = .ret t)
      (hp : q.pc t = .ret c e r) (hu : WillTake i q t) (hu' : ¬ WillTake i q' t)
      (hg : ∀ v, v ≠ t → (WillTake i q' v ↔ WillTake i q v))
      (hv : (q'.ipc.sem i).value = (q.ipc.sem i).value) (hr : releasesSem i a = false)
      (ht : takeReturns i q a = true)
  /-- a take returns RT_EOK to an interrupt handler -/
  | isr (hg : ∀ v, WillTake i q' v ↔ WillTake i q v)
      (hv : (q'.ipc.sem i).value + 1 = (q.ipc.sem i).value) (hr : releasesSem i a = false)
      (ht : takeReturns i q a = true)

omit [RtConfig] in
/-- It depends on the place, the list and the error field of the thread. -/
theorem willTake_setKernel {k : Kernel} (hl : v ∈ k.lists (.suspend (.sem i)) ↔
      v ∈ q.ipc.kernel.lists (.suspend (.sem i)))
    (he : (k.thread v).error = (q.ipc.kernel.thread v).error) :
    WillTake i (q.setKernel k) v ↔ WillTake i q v :=
  (granted_congr (s := q) (q := q.setKernel k) rfl hl he).1

/-- A waiting thread is about to return nothing. -/
theorem SigInv.waiting {A : Call → Prop} (j : SigInv A q)
    (hu : u ∈ q.ipc.kernel.lists (.suspend (.sem m))) :
    (∃ time, q.pc u = .wait (.semTake m time)) ∧ ¬ WillTake i q u := by
  obtain ⟨time, hc⟩ := semWaiter (j.link.waits u _ ⟨_, Or.inl rfl⟩ hu)
  refine ⟨⟨time, hc⟩, fun hg => ?_⟩
  obtain ⟨hw, hn, -⟩ := (granted_wait hc).1.mp hg
  obtain rfl : m = i := by simpa [Call.waitsOn] using hw
  exact hn hu

/-- `rt_sem_take` of a thread. -/
theorem take_step (j : SigInv SemCall q) (hr : q.Runs t) (hidle : q.pc t = .idle)
    (hx : q.ipc.rtSemTake t m time = some x) :
    SemStep i q (.run t (.call (.semTake m time))) ⟨x.ipc, Function.update q.pc t x.pc⟩ := by
  have hno : ¬ WillTake i q t := (granted_idle hidle).1
  obtain ⟨hpos, rfl⟩ | ⟨-, -, rfl⟩ | ⟨-, -, k', b, rfl⟩ :=
    rtSemTake_cases j.link.sched hr.1 hr.2 hx
  · by_cases hmi : m = i
    · subst hmi
      refine .take rfl hidle ?_ (fun v hv => (granted_other hv Iff.rfl rfl).1) ?_ rfl rfl
      · exact (granted_ret (Function.update_self ..)).1.mpr ⟨rfl, rfl⟩
      · rw [setSem_self]
        exact Nat.sub_add_cancel hpos
    · refine .other (fun v => ?_) ?_ rfl rfl
      · by_cases hvt : v = t
        · subst hvt
          refine iff_of_false (fun hg => ?_) hno
          have hw := ((granted_ret (Function.update_self ..)).1.mp hg).1
          exact hmi (by simpa [Call.waitsOn] using hw)
        · exact (granted_other hvt Iff.rfl rfl).1
      · simp only [setSem, Function.update_of_ne (Ne.symm hmi)]
  · refine .other (fun v => ?_) rfl rfl rfl
    by_cases hvt : v = t
    · subst hvt
      refine iff_of_false (fun hg => ?_) hno
      have he := ((granted_ret (Function.update_self ..)).1.mp hg).2
      cases he
    · exact (granted_other hvt Iff.rfl rfl).1
  · refine .other (fun v => ?_) rfl rfl rfl
    have hmem : v ∈ k'.lists (.suspend (.sem i)) ↔
        v ∈ q.ipc.kernel.lists (.suspend (.sem i)) ∨ v = t ∧ m = i := by
      rw [b.mem_iff ⟨_, Or.inl rfl⟩]
      simp [setError, eq_comm]
    by_cases hvt : v = t
    · subst hvt
      refine iff_of_false (fun hg => ?_) hno
      obtain ⟨hw, hn, -⟩ := (granted_wait (Function.update_self ..)).1.mp hg
      exact hn (hmem.mpr (Or.inr ⟨rfl, by simpa [Call.waitsOn] using hw⟩))
    · refine (granted_other hvt (hmem.trans (or_iff_left fun h => hvt h.1)) ?_).1
      show (k'.thread v).error = _
      rw [b.thread v hvt, setError_of_ne hvt]

/-- `rt_sem_release` of a thread or an interrupt handler. -/
theorem release_step (pc' : ThreadId → Pc) (j : SigInv SemCall q)
    (hx : q.ipc.rtSemRelease m = some x)
    (hpc : ∀ v, pc' v = q.pc v ∨ q.pc v = .idle ∧ pc' v = .ret (.semRelease m) .ok .none)
    (hr : releasesSem i a = decide (m = i)) (ht : takeReturns i q a = false) :
    SemStep i q a ⟨x.ipc, pc'⟩ := by
  -- the threads that move have no token of a take, before or after
  have hgr : ∀ {ipc : Ipc} {v}, (v ∈ ipc.kernel.lists (.suspend (.sem i)) ↔
      v ∈ q.ipc.kernel.lists (.suspend (.sem i))) →
      (ipc.kernel.thread v).error = (q.ipc.kernel.thread v).error →
      (WillTake i ⟨ipc, pc'⟩ v ↔ WillTake i q v) := by
    intro ipc v hl he
    rcases hpc v with hv | ⟨h1, h2⟩
    · exact (granted_congr (s := q) (q := ⟨ipc, pc'⟩) hv hl he).1
    · refine iff_of_false (fun hg => ?_) (granted_idle h1).1
      have hw := ((granted_ret (s := ⟨ipc, pc'⟩) h2).1.mp hg).1
      cases hw
  obtain ⟨u, l, k', hl, w, rfl⟩ | ⟨hl, rfl⟩ := rtSemRelease_cases j.link.sched hx
  · have hu : u ∈ q.ipc.kernel.lists (.suspend (.sem m)) := by
      rw [hl]
      exact List.mem_cons_self
    obtain ⟨time, hc⟩ := (j.waiting (i := i) hu).1
    have hmem := fun v => w.mem_iff (v := v) j.link.sched
      (show (ListHead.suspend (.sem i)).IsWait from ⟨_, Or.inl rfl⟩) hu
    have hcu : pc' u = .wait (.semTake m time) := by
      refine ((hpc u).resolve_right fun h => ?_).trans hc
      rw [hc] at h
      cases h.1
    by_cases hmi : m = i
    · subst hmi
      refine .hand hu ?_ (fun v hv => hgr ((hmem v).trans (and_iff_left hv)) ?_) rfl
        (by simpa using hr) ht
      · refine (granted_wait (s := ⟨_, pc'⟩) hcu).1.mpr ⟨rfl, fun h => ((hmem u).mp h).2 rfl, ?_⟩
        show (k'.thread u).error = .ok
        rw [w.self]
        -- only the takes of mutexes wait with another error
        exact (j.link.error u _ ⟨_, Or.inl rfl⟩ hu).resolve_right fun h => by simpa using h.2
      · show (k'.thread v).error = _
        rw [w.thread v hv]
    · refine .other (fun v => ?_) rfl (by simpa [hmi] using hr) ht
      by_cases hvu : v = u
      · subst hvu
        refine iff_of_false (fun hg => ?_) (j.waiting hu).2
        have hw := ((granted_wait (s := ⟨_, pc'⟩) hcu).1.mp hg).1
        exact hmi (by simpa [Call.waitsOn] using hw)
      · refine hgr ((hmem v).trans (and_iff_left hvu)) ?_
        show (k'.thread v).error = _
        rw [w.thread v hvu]
  · by_cases hmi : m = i
    · subst hmi
      refine .release hl (fun v => hgr Iff.rfl rfl) ?_ (by simpa using hr) ht
      rw [setSem_self]
    · refine .other (fun v => hgr Iff.rfl rfl) ?_ (by simpa [hmi] using hr) ht
      simp only [setSem, Function.update_of_ne (Ne.symm hmi)]

/-- **What a step about semaphores is.** -/
theorem semStep (j : SigInv SemCall q) (ha : Only SemCall a) (hs : q.Step a q') :
    SemStep i q a q' := by
  obtain ⟨t, r, x, rfl, hr, hx, rfl⟩ | ⟨t, c, e, r, rfl, hr, hpc, rfl⟩ |
    ⟨c, t, x, rfl, hc, ht, hx, rfl⟩ | ⟨t, k', rfl, ht, hk, rfl⟩ | ⟨t, p, rfl, hp, rfl⟩ |
    ⟨k', rfl, hk, rfl⟩ := Ipc.Step.cases hs
  · cases r with
    | call c =>
        simp only [Sys.sect] at hx
        split at hx
        · rename_i hidle
          cases c with
          | semTake m time => exact take_step j hr hidle hx
          | semRelease m =>
              have hret : x.pc = .ret (.semRelease m) .ok .none :=
                (rtSemRelease_link j.link j.prio hx).2.2.2
              refine release_step _ j hx (fun v => ?_) rfl rfl
              by_cases hvt : v = t
              · rw [hvt, Function.update_self]
                exact Or.inr ⟨hidle, hret⟩
              · exact Or.inl (Function.update_of_ne hvt ..)
          | _ => exact absurd ha id
        · cases hx
    | resumed delta =>
        obtain hp | ⟨c, hc, hp | ⟨e, r, hp⟩⟩ := j.calls t <;> simp only [Sys.sect, hp] at hx
        · cases hx
        · cases c with
          | semTake m time =>
              -- the error field becomes the result
              obtain rfl := Option.some.inj hx
              refine .other (fun v => ?_) rfl rfl rfl
              by_cases hvt : v = t
              · subst hvt
                have hnot := j.link.sched.running_not_mem (h := .suspend (.sem i)) hr.2
                rw [WillTake, WillTake, (granted_ret (Function.update_self ..)).1,
                  (granted_wait hp).1]
                simp [hnot]
              · exact (granted_other hvt Iff.rfl rfl).1
          | semRelease => cases hx
          | _ => exact absurd hc id
        · cases hx
    | copy | finish =>
        obtain hp | ⟨c, hc, hp | ⟨e, r, hp⟩⟩ := j.calls t <;> simp only [Sys.sect, hp] at hx <;>
          cases hx
  · have hafter : ¬ WillTake i (q.move t .idle) t := (granted_idle (Function.update_self ..)).1
    have hother : ∀ v, v ≠ t → (WillTake i (q.move t .idle) v ↔ WillTake i q v) := fun v hvt =>
      (granted_other hvt Iff.rfl rfl).1
    by_cases hg : WillTake i q t
    · refine .ret rfl hpc hg hafter hother rfl rfl ?_
      obtain ⟨hw, rfl⟩ := (granted_ret hpc).1.mp hg
      unfold takeReturns
      dsimp only
      rw [hpc]
      cases c <;> simp_all [Call.waitsOn]
    · refine .other (fun v => ?_) rfl rfl ?_
      · by_cases hvt : v = t
        · subst hvt
          exact iff_of_false hafter hg
        · exact hother v hvt
      · by_contra hret
        refine hg ?_
        unfold takeReturns at hret
        dsimp only at hret
        rw [hpc] at hret
        rw [WillTake, (granted_ret hpc).1]
        cases c <;> cases e <;> simp_all [Call.waitsOn]
  · have hsame : ∀ {ipc : Ipc}, ipc.kernel = q.ipc.kernel → ∀ v,
        WillTake i ⟨ipc, q.pc⟩ v ↔ WillTake i q v := fun {ipc} h v =>
      (granted_congr (s := q) (q := ⟨ipc, q.pc⟩) rfl (by rw [h]) (by rw [h])).1
    cases c with
    | semTake m time =>
        obtain rfl : time = 0 := hc
        have hret : takeReturns i q (.isr (.semTake m 0)) =
            (decide (m = i) && decide (x.pc = .ret (.semTake m 0) .ok .none)) := by
          simp [takeReturns, ht, hx]
        simp only [call, rtSemTake, if_true] at hx
        split_ifs at hx with hpos
        · obtain rfl := Option.some.inj hx
          by_cases hmi : m = i
          · subst hmi
            refine .isr (hsame rfl) ?_ rfl (by simp [hret])
            rw [setSem_self]
            exact Nat.sub_add_cancel hpos
          · refine .other (hsame rfl) ?_ rfl (by simp [hret, hmi])
            simp only [setSem, Function.update_of_ne (Ne.symm hmi)]
        · obtain rfl := Option.some.inj hx
          exact .other (hsame rfl) rfl rfl (by simp [hret])
    | semRelease m => exact release_step q.pc j hx (fun v => Or.inl rfl) rfl rfl
    | _ => exact absurd ha id
  · -- a thread that waits leaves its list with an error
    refine .other (fun v => ?_) rfl rfl rfl
    obtain ⟨h, hh, hm⟩ := j.link.timer t ht
    have w := Woken.of_timeout j.link.sched hh hm hk
    have hmem := w.mem_iff (v := v) j.link.sched
      (show (ListHead.suspend (.sem i)).IsWait from ⟨_, Or.inl rfl⟩) hm
    by_cases hvt : v = t
    · subst hvt
      obtain ⟨o, ho⟩ := id hh
      have hw := j.link.waits v h hh hm
      refine iff_of_false (fun hg => ?_) fun hg => ?_
      · have he : (k'.thread v).error = .ok := by
          cases hpc : q.pc v with
          | wait c => exact ((granted_wait (s := q.setKernel k') hpc).1.mp hg).2.2
          | _ =>
              rw [hpc] at hw
              cases hw
        rw [w.self] at he
        cases he
      · cases hpc : q.pc v with
        | wait c =>
            obtain ⟨hwc, hn, -⟩ := (granted_wait hpc).1.mp hg
            rw [hpc] at hw
            obtain rfl : h = .suspend (.sem i) := Option.some.inj (hw.symm.trans hwc)
            exact hn hm
        | _ =>
            rw [hpc] at hw
            cases hw
    · refine willTake_setKernel (hmem.trans (and_iff_left hvt)) ?_
      show (k'.thread v).error = _
      rw [w.thread v hvt]
  · have ch := Changed.of_control (u := t) j.link.sched hp
    refine .other (fun v => willTake_setKernel ?_ ?_) rfl rfl rfl
    · show v ∈ (q.ipc.kernel.rtThreadControl t p).lists _ ↔ _
      rw [ch.wait _ ⟨_, Or.inl rfl⟩]
    · show ((q.ipc.kernel.rtThreadControl t p).thread v).error = _
      by_cases hv : v = t
      · rw [hv, ch.self]
        simp
      · rw [ch.thread v hv]
  · refine .other (fun v => willTake_setKernel ?_ ?_) rfl rfl rfl
    · show v ∈ k'.lists _ ↔ _
      rw [rtSchedule_wait j.link.sched hk ⟨_, Or.inl rfl⟩]
    · obtain ⟨st, b, he⟩ := rtSchedule_thread j.link.sched hk v
      show (k'.thread v).error = _
      rw [he]

end

/-! ## Runs -/

/-- A run that counts the releases and the takes that have returned RT_EOK. -/
structure SigRun where
  state : SigSys
  initial : Nat
  releases : Nat
  returned : Nat
  /-- the thread was resumed for a signal while it waited, and has not gone on yet -/
  interrupted : ThreadId → Bool

/-- The thread is in `rt_sem_take` on the semaphore, between its two sections. -/
def atTake (i : Nat) (q : Sys) (t : ThreadId) : Bool :=
  match q.pc t with
  | .wait (.semTake j _) => j = i
  | _ => false

/-- The thread is in the list of its call. -/
def waits (q : Sys) (t : ThreadId) : Bool :=
  match (q.pc t).waitsOn with
  | some h => decide (t ∈ q.ipc.kernel.lists h)
  | none => false

section

variable [RtConfig] {i : Nat} {q q' : Sys} {a : Action} {b : SigAction} {S S' : SigRun}
  {t u v : ThreadId}

/-- What becomes of the interrupted threads. -/
def SigRun.nextInterrupted (S : SigRun) : SigAction → ThreadId → Bool
  | .sys (.run t _) | .handle t => Function.update S.interrupted t false
  | .deliver t =>
    if (S.state.sig t).Wanted ∧ waits S.state.sys t = true then
      Function.update S.interrupted t true
    else S.interrupted
  | _ => S.interrupted

/-- Every step whose calls are about semaphores. -/
def SigRun.exec (i : Nat) (S : SigRun) (b : SigAction) : Option SigRun :=
  if OnlyCalls SemCall b then
    (S.state.exec b).map fun s' => { S with
      state := s'
      releases := S.releases + match b with
        | .sys a => if releasesSem i a then 1 else 0
        | _ => 0
      returned := S.returned + match b with
        | .sys a => if takeReturns i S.state.sys a then 1 else 0
        | _ => 0
      interrupted := S.nextInterrupted b }
  else none

def SigRun.Init (i : Nat) (S : SigRun) : Prop :=
  S.state.Init ∧ S.initial = (S.state.sys.ipc.sem i).value ∧ S.releases = 0 ∧ S.returned = 0 ∧
    S.interrupted = fun _ => false

/-- A take that was given a token and is still to return RT_EOK. -/
def Holds (i : Nat) (S : SigRun) (t : ThreadId) : Prop :=
  WillTake i S.state.sys t ∧ S.interrupted t = false

/-- The tokens are conserved: the initial value and the releases make up the value, the takes that
returned RT_EOK, and those that are still to return it. -/
def SigConserved (i : Nat) (S : SigRun) : Prop :=
  ∃ n, Counts (Holds i S) n ∧
    (S.state.sys.ipc.sem i).value + (S.returned + n) = S.initial + S.releases

/-- The steps that lose a token or make one: a release that overflows, a handler in a thread that
was given the token but has not gone on, and a thread that goes on before the handler for whose signal
it was resumed. -/
def Loses (i : Nat) (S : SigRun) : SigAction → Prop
  | .sys (.run t (.resumed _)) => atTake i S.state.sys t = true ∧ S.interrupted t = true
  | .sys a => Overflow i S.state.sys a
  | .handle t => atTake i S.state.sys t = true ∧
      (S.state.sys.ipc.kernel.thread t).error = .ok ∧ S.interrupted t = false
  | _ => False

instance (a : Action) : Decidable (Overflow i q a) := instDecidableAnd

instance Loses.decidable : (b : SigAction) → Decidable (Loses i S b)
  | .sys (.run _ (.resumed _)) => instDecidableAnd
  | .sys (.run _ (.call _)) | .sys (.run _ .copy) | .sys (.run _ .finish) | .sys (.ret _)
  | .sys (.isr _) | .sys (.timeout _) | .sys (.control _ _) | .sys .schedule => instDecidableAnd
  | .handle _ => instDecidableAnd
  | .kill _ _ | .deliver _ | .handled _ => isFalse id

def SigRun.Step (i : Nat) (S : SigRun) (b : SigAction) (S' : SigRun) : Prop :=
  S.exec i b = some S' ∧ ¬ Loses i S b

/-- What holds in every run. -/
structure RunInv (i : Nat) (S : SigRun) : Prop where
  sig : SigInv SemCall S.state.sys
  width : (S.state.sys.ipc.sem i).value < 2 ^ 16
  /-- an interrupted thread is in no list, and its handler has not run -/
  place : ∀ t, S.interrupted t = true → ∃ c, S.state.sys.pc t = .wait c
  off : ∀ t, S.interrupted t = true →
    ∀ h : ListHead, h.IsWait → t ∉ S.state.sys.ipc.kernel.lists h
  error : ∀ t, S.interrupted t = true → (S.state.sys.ipc.kernel.thread t).error = .ok

theorem SigRun.exec_cases (h : S.exec i b = some S') : OnlyCalls SemCall b ∧
    S.state.Step b S'.state ∧ S'.initial = S.initial ∧
      S'.interrupted = S.nextInterrupted b ∧
      (∀ a, b = .sys a → S'.releases = S.releases + (if releasesSem i a then 1 else 0) ∧
        S'.returned = S.returned + if takeReturns i S.state.sys a then 1 else 0) ∧
      ((∀ a, b ≠ .sys a) → S'.releases = S.releases ∧ S'.returned = S.returned) := by
  unfold SigRun.exec at h
  split_ifs at h with ho
  obtain ⟨s', hs, rfl⟩ := Option.map_eq_some_iff.mp h
  refine ⟨ho, hs, rfl, rfl, ?_, fun hb => ?_⟩
  · rintro a rfl
    exact ⟨rfl, rfl⟩
  · cases b with
    | sys a => exact absurd rfl (hb a)
    | _ => exact ⟨rfl, rfl⟩

omit [RtConfig] in
theorem of_atTake (h : atTake i q t = true) : ∃ time, q.pc t = .wait (.semTake i time) := by
  unfold atTake at h
  split at h
  · rename_i m time hp
    obtain rfl : m = i := by simpa using h
    exact ⟨time, hp⟩
  · cases h

/-- Off the thread that goes on, the interrupted threads are the same after a step without signals. -/
theorem interrupted_sys (h : S.exec i (.sys a) = some S')
    (hv : ∀ r, a = .run v r → S.interrupted v = false) : S'.interrupted v = S.interrupted v := by
  obtain ⟨-, -, -, hi, -⟩ := SigRun.exec_cases h
  rw [hi]
  cases a with
  | run t r =>
      by_cases hvt : v = t
      · subst hvt
        rw [hv r rfl]
        exact Function.update_self ..
      · exact Function.update_of_ne hvt ..
  | _ => rfl

/-- A step without signals that resumes no interrupted thread. -/
theorem effect_sys (j : RunInv i S) (hx : S.exec i (.sys a) = some S')
    (hn : ∀ t r, a = .run t r → S.interrupted t = false) :
    ∃ d, Counts.Change (Holds i S) (Holds i S') d ∧
      (((S'.state.sys.ipc.sem i).value : Int) + S'.returned + d + S.releases =
        (S.state.sys.ipc.sem i).value + S.returned + S'.releases ↔ ¬ Overflow i S.state.sys a) ∧
      (S'.state.sys.ipc.sem i).value < 2 ^ 16 := by
  obtain ⟨ho, hs, -, -, hcount, -⟩ := SigRun.exec_cases hx
  obtain ⟨hrel, hret⟩ := hcount a rfl
  have hint : ∀ v, S'.interrupted v = S.interrupted v := fun v =>
    interrupted_sys hx fun r hr => hn v r hr
  have hsys := hs.sys
  have hiff : ∀ {v}, (WillTake i S'.state.sys v ↔ WillTake i S.state.sys v) →
      (Holds i S' v ↔ Holds i S v) := fun {v} h => by
    unfold Holds
    rw [h, hint v]
  have hw := j.width
  cases semStep (i := i) j.sig ho hsys with
  | other hg hv hr ht =>
      refine ⟨0, .same fun v => hiff (hg v), ?_, by omega⟩
      have hno : ¬ Overflow i S.state.sys a := fun h => by
        rw [h.1] at hr
        cases hr
      simp only [hr, ht, Bool.false_eq_true, if_false] at hrel hret
      exact iff_of_true (by omega) hno
  | @take t r ha hp hu hg hv hr ht =>
      refine ⟨1, .gain t (fun h => (granted_idle hp).1 h.1) ⟨hu, ?_⟩ (fun v hv => hiff (hg v hv)),
        ?_, by omega⟩
      · rw [hint t]
        exact hn t r ha
      · have hno : ¬ Overflow i S.state.sys a := fun h => by
          rw [h.1] at hr
          cases hr
        simp only [hr, ht, Bool.false_eq_true, if_false] at hrel hret
        exact iff_of_true (by omega) hno
  | @hand u hm hu hg hv hr ht =>
      have hnu := (j.sig.waiting (i := i) hm).2
      refine ⟨1, .gain u (fun h => hnu h.1) ⟨hu, ?_⟩ (fun v hv => hiff (hg v hv)), ?_, by omega⟩
      · rw [hint u]
        by_contra hi
        exact j.off u (by simpa using hi) _ ⟨_, Or.inl rfl⟩ hm
      · have hno : ¬ Overflow i S.state.sys a := fun h => by
          rw [h.2.2] at hm
          cases hm
        simp only [hr, ht, Bool.false_eq_true, if_false, if_true] at hrel hret
        exact iff_of_true (by omega) hno
  | release hl hg hv hr ht =>
      refine ⟨0, .same fun v => hiff (hg v), ?_, by omega⟩
      simp only [hr, ht, Bool.false_eq_true, if_false, if_true] at hrel hret
      have hover : Overflow i S.state.sys a ↔
          (S.state.sys.ipc.sem i).value = 2 ^ 16 - 1 := by
        unfold Overflow
        rw [hr, hl]
        simp
      rw [hover]
      omega
  | @ret t c e r ha hp hu hu' hg hv hr ht =>
      refine ⟨-1, .leave t ⟨hu, ?_⟩ (fun h => hu' h.1) (fun v hv => hiff (hg v hv)), ?_, by omega⟩
      · by_contra hi
        obtain ⟨c', hc'⟩ := j.place t (by simpa using hi)
        rw [hp] at hc'
        cases hc'
      · have hno : ¬ Overflow i S.state.sys a := fun h => by
          rw [h.1] at hr
          cases hr
        simp only [hr, ht, Bool.false_eq_true, if_false, if_true] at hrel hret
        exact iff_of_true (by omega) hno
  | isr hg hv hr ht =>
      refine ⟨0, .same fun v => hiff (hg v), ?_, by omega⟩
      have hno : ¬ Overflow i S.state.sys a := fun h => by
        rw [h.1] at hr
        cases hr
      simp only [hr, ht, Bool.false_eq_true, if_false, if_true] at hrel hret
      exact iff_of_true (by omega) hno

/-- An interrupted thread goes on: the error field is RT_EOK, though there is no token. -/
theorem effect_interrupted {r : Run} (j : RunInv i S) (hx : S.exec i (.sys (.run t r)) = some S')
    (ht : S.interrupted t = true) :
    ∃ d, Counts.Change (Holds i S) (Holds i S') d ∧
      (((S'.state.sys.ipc.sem i).value : Int) + S'.returned + d + S.releases =
        (S.state.sys.ipc.sem i).value + S.returned + S'.releases ↔
          ¬ Loses i S (.sys (.run t r))) ∧ (S'.state.sys.ipc.sem i).value < 2 ^ 16 := by
  obtain ⟨ho, hs, -, hi, hcount, -⟩ := SigRun.exec_cases hx
  obtain ⟨hrel, hret⟩ := hcount _ rfl
  obtain ⟨c, hc⟩ := j.place t ht
  have hsys := hs.sys
  -- it is at the end of its wait
  obtain ⟨delta, rfl⟩ : ∃ delta, r = .resumed delta := by
    obtain ⟨t', r', x, he, -, hx', -⟩ | ⟨_, _, _, _, he, -⟩ | ⟨_, _, _, he, -⟩ | ⟨_, _, he, -⟩ |
      ⟨_, _, he, -⟩ | ⟨_, he, -⟩ := Ipc.Step.cases hsys <;> cases he
    cases r with
    | resumed delta => exact ⟨delta, rfl⟩
    | _ =>
        simp only [Sys.sect, hc] at hx'
        cases hx'
  obtain ⟨m, time, rfl⟩ : ∃ m time, c = .semTake m time := by
    obtain hp | ⟨c', hc', hp | ⟨e, r, hp⟩⟩ := j.sig.calls t <;> rw [hc] at hp
    · cases hp
    · obtain rfl := Pc.wait.inj hp
      obtain ⟨_, _, _, he, -, hx', -⟩ | ⟨_, _, _, _, he, -⟩ | ⟨_, _, _, he, -⟩ | ⟨_, _, he, -⟩ |
        ⟨_, _, he, -⟩ | ⟨_, he, -⟩ := Ipc.Step.cases hsys <;> cases he
      simp only [Sys.sect, hc] at hx'
      cases c with
      | semTake m time => exact ⟨m, time, rfl⟩
      | semRelease => cases hx'
      | _ => exact absurd hc' id
    · cases hp
  have hgv : (∀ v, WillTake i S'.state.sys v ↔ WillTake i S.state.sys v) ∧
      (S'.state.sys.ipc.sem i).value = (S.state.sys.ipc.sem i).value := by
    have ho' : Only SemCall (.run t (.resumed delta)) := ho
    cases semStep (i := i) j.sig ho' hsys with
    | other hg hv hr ht => exact ⟨hg, hv⟩
    | take ha hp =>
        obtain ⟨rfl, -⟩ := Action.run.inj ha
        rw [hc] at hp
        cases hp
    | hand _ _ _ _ hr | release _ _ _ hr => cases hr
    | ret ha => cases ha
    | isr _ _ _ ht => cases ht
  obtain ⟨hg, hv⟩ := hgv
  have hw := j.width
  simp only [releasesSem, takeReturns, Bool.false_eq_true, if_false] at hrel hret
  have hself : S'.interrupted t = false := by
    rw [hi]
    exact Function.update_self ..
  have hother : ∀ v, v ≠ t → (Holds i S' v ↔ Holds i S v) := fun v hvt => by
    unfold Holds
    rw [hg v, hi]
    exact and_congr_right fun _ => by rw [SigRun.nextInterrupted, Function.update_of_ne hvt]
  by_cases hm : m = i
  · subst hm
    have hwill : WillTake m S.state.sys t := (granted_wait hc).1.mpr
      ⟨rfl, j.off t ht _ ⟨_, Or.inl rfl⟩, j.error t ht⟩
    refine ⟨1, .gain t (fun h => ?_) ⟨(hg t).mpr hwill, hself⟩ hother, ?_, by omega⟩
    · rw [h.2] at ht
      cases ht
    · refine iff_of_false (by omega) (not_not_intro ⟨?_, ht⟩)
      simp [atTake, hc]
  · have hno : ¬ WillTake i S.state.sys t := fun h => by
      have hwc := ((granted_wait hc).1.mp h).1
      exact hm (by simpa [Call.waitsOn] using hwc)
    refine ⟨0, .same fun v => ?_, ?_, by omega⟩
    · by_cases hvt : v = t
      · subst hvt
        exact iff_of_false (fun h => hno ((hg v).mp h.1)) fun h => hno h.1
      · exact hother v hvt
    · refine iff_of_true (by omega) fun h => ?_
      have h1 := h.1
      simp only [atTake, hc, decide_eq_true_eq] at h1
      exact hm h1

/-- A step with signals. -/
theorem effect_signal (j : RunInv i S) (hx : S.exec i b = some S') (hb : ∀ a, b ≠ .sys a) :
    ∃ d, Counts.Change (Holds i S) (Holds i S') d ∧
      (((S'.state.sys.ipc.sem i).value : Int) + S'.returned + d + S.releases =
        (S.state.sys.ipc.sem i).value + S.returned + S'.releases ↔ ¬ Loses i S b) ∧
      (S'.state.sys.ipc.sem i).value < 2 ^ 16 := by
  obtain ⟨ho, hs, -, hi, -, hcount⟩ := SigRun.exec_cases hx
  obtain ⟨hrel, hret⟩ := hcount hb
  have hw := j.width
  have hlist : ListHead.IsWait (.suspend (.sem i)) := ⟨_, Or.inl rfl⟩
  -- a thread in its list holds nothing
  have hwaits : ∀ {t}, waits S.state.sys t = true → ¬ WillTake i S.state.sys t ∧
      (S.state.sys.ipc.kernel.thread t).stat = .suspend := by
    intro t ht
    unfold waits at ht
    split at ht
    · rename_i h hp
      have hm := of_decide_eq_true ht
      refine ⟨fun hg => ?_, ?_⟩
      · cases hpc : S.state.sys.pc t with
        | wait c =>
            obtain ⟨hwc, hn, -⟩ := (granted_wait hpc).1.mp hg
            rw [hpc] at hp
            obtain rfl : h = .suspend (.sem i) := Option.some.inj (hp.symm.trans hwc)
            exact hn hm
        | _ =>
            rw [hpc] at hp
            cases hp
      · obtain ⟨o, -, hh⟩ := Pc.ofObj_waitsOn hp
        exact j.sig.link.sched.suspended_of_mem ⟨o, hh⟩ hm
    · cases ht
  obtain ⟨a, rfl, -⟩ | ⟨-, hh, hd, he⟩ | ⟨t, rfl, hwant, hst, he⟩ | ⟨t, rfl, hr, he⟩ := hs.cases
  · exact absurd rfl (hb a)
  · have hint : S'.interrupted = S.interrupted := by
      rw [hi]
      cases b with
      | sys a => exact absurd rfl (hb a)
      | handle t => exact absurd rfl (hh t)
      | deliver t => exact if_neg fun h => hd t rfl h.1 (hwaits h.2).2
      | _ => rfl
    refine ⟨0, .same fun v => ?_, ?_, by rw [he]; exact hw⟩
    · unfold Holds
      rw [he, hint]
    · rw [he]
      refine iff_of_true (by omega) fun h => ?_
      cases b with
      | sys a => exact hb a rfl
      | handle t => exact hh t rfl
      | _ => exact h
  · have hsig := j.sig.link.signalled hst
    have hvalue : S'.state.sys.ipc.sem i = S.state.sys.ipc.sem i := by
      rw [he]
      rfl
    have hother : ∀ v, v ≠ t → (Holds i S' v ↔ Holds i S v) := by
      intro v hvt
      have hint : S'.interrupted v = S.interrupted v := by
        rw [hi]
        simp only [SigRun.nextInterrupted]
        split_ifs
        · exact Function.update_of_ne hvt ..
        · rfl
      unfold Holds
      rw [hint, he]
      refine and_congr_left fun _ => willTake_setKernel ?_ (hsig.error v)
      exact (hsig.mem_iff _ hlist v).trans (and_iff_left hvt)
    refine ⟨0, .same fun v => ?_, ?_, by rw [hvalue]; exact hw⟩
    · by_cases hvt : v = t
      · subst hvt
        by_cases hwt : waits S.state.sys v = true
        · refine iff_of_false (fun h => ?_) fun h => (hwaits hwt).1 h.1
          have h2 := h.2
          rw [hi, SigRun.nextInterrupted, if_pos ⟨hwant, hwt⟩, Function.update_self] at h2
          cases h2
        · have hnot : v ∉ S.state.sys.ipc.kernel.lists (.suspend (.sem i)) := fun hm => by
            refine hwt ?_
            unfold waits
            rw [j.sig.link.waits v _ hlist hm]
            exact decide_eq_true hm
          unfold Holds
          rw [hi, SigRun.nextInterrupted, if_neg (fun h => hwt h.2), he]
          refine and_congr_left fun _ => willTake_setKernel ?_ (hsig.error v)
          exact iff_of_false (fun hm => ((hsig.mem_iff _ hlist v).mp hm).2 rfl) hnot
      · exact hother v hvt
    · rw [hvalue]
      exact iff_of_true (by omega) id
  · have hvalue : S'.state.sys.ipc.sem i = S.state.sys.ipc.sem i := by
      rw [he]
      rfl
    have hother : ∀ v, v ≠ t → (Holds i S' v ↔ Holds i S v) := by
      intro v hvt
      unfold Holds
      rw [hi, SigRun.nextInterrupted, Function.update_of_ne hvt, he]
      exact and_congr_left fun _ => willTake_setKernel Iff.rfl (by rw [setError_of_ne hvt])
    have hself : S'.interrupted t = false := by
      rw [hi]
      exact Function.update_self ..
    have herr : (S'.state.sys.ipc.kernel.thread t).error = .eintr := by
      rw [he]
      exact congrArg Thread.error setError_self
    have hpc : S'.state.sys.pc t = S.state.sys.pc t := by
      rw [he]
      rfl
    by_cases hl : Loses i S (.handle t)
    · obtain ⟨hat, hok, hint⟩ := id hl
      obtain ⟨time, hp⟩ := of_atTake hat
      refine ⟨-1, .leave t ⟨?_, hint⟩ (fun h => ?_) hother, ?_, by rw [hvalue]; exact hw⟩
      · exact (granted_wait hp).1.mpr ⟨rfl, j.sig.link.sched.running_not_mem hr.2, hok⟩
      · have h1 := ((granted_wait (hpc.trans hp)).1.mp h.1).2.2
        rw [herr] at h1
        cases h1
      · rw [hvalue]
        exact iff_of_false (by omega) (not_not_intro hl)
    · refine ⟨0, .same fun v => ?_, ?_, by rw [hvalue]; exact hw⟩
      · by_cases hvt : v = t
        · subst hvt
          unfold Holds
          obtain hp | ⟨c, hc, hp | ⟨e, r, hp⟩⟩ := j.sig.calls v
          · exact iff_of_false (fun h => (granted_idle (hpc.trans hp)).1 h.1)
              fun h => (granted_idle hp).1 h.1
          · refine iff_of_false (fun h => ?_) fun h => ?_
            · have h1 := ((granted_wait (hpc.trans hp)).1.mp h.1).2.2
              rw [herr] at h1
              cases h1
            · obtain ⟨h1, -, h3⟩ := (granted_wait hp).1.mp h.1
              refine hl ⟨?_, h3, h.2⟩
              cases c with
              | semTake m time =>
                  obtain rfl : m = i := by simpa [Call.waitsOn] using h1
                  simp [atTake, hp]
              | semRelease => cases h1
              | _ => exact absurd hc id
          · have hint : S.interrupted v = false := by
              by_contra hne
              obtain ⟨c', hc'⟩ := j.place v (by simpa using hne)
              rw [hp] at hc'
              cases hc'
            rw [hself, hint]
            refine and_congr_left fun _ => ?_
            exact (granted_ret (hpc.trans hp)).1.trans (granted_ret hp).1.symm
        · exact hother v hvt
      · rw [hvalue]
        exact iff_of_true (by omega) hl

omit [RtConfig] in
theorem loses_sys_iff (hn : ∀ t r, a = .run t r → S.interrupted t = false) :
    Loses i S (.sys a) ↔ Overflow i S.state.sys a := by
  cases a with
  | run t r =>
      cases r with
      | resumed delta =>
          refine iff_of_false (fun h => ?_) fun h => by cases h.1
          have hi := h.2
          rw [hn t _ rfl] at hi
          cases hi
      | _ => exact Iff.rfl
  | _ => exact Iff.rfl

/-- **What a step does to the tokens.** -/
theorem effect (j : RunInv i S) (hx : S.exec i b = some S') :
    ∃ d, Counts.Change (Holds i S) (Holds i S') d ∧
      (((S'.state.sys.ipc.sem i).value : Int) + S'.returned + d + S.releases =
        (S.state.sys.ipc.sem i).value + S.returned + S'.releases ↔ ¬ Loses i S b) ∧
      (S'.state.sys.ipc.sem i).value < 2 ^ 16 := by
  cases b with
  | sys a =>
      by_cases ht : ∃ t r, a = .run t r ∧ S.interrupted t = true
      · obtain ⟨t, r, rfl, ht⟩ := ht
        exact effect_interrupted j hx ht
      · have hn : ∀ t r, a = .run t r → S.interrupted t = false := fun t r ha => by
          by_contra h
          exact ht ⟨t, r, ha, by simpa using h⟩
        obtain ⟨d, h1, h2, h3⟩ := effect_sys j hx hn
        exact ⟨d, h1, h2.trans (not_congr (loses_sys_iff hn).symm), h3⟩
  | _ => exact effect_signal j hx (by simp)

/-- **What holds in every run** is kept. -/
theorem RunInv.step (j : RunInv i S) (hx : S.exec i b = some S') : RunInv i S' := by
  obtain ⟨ho, hs, -, hi, -, -⟩ := SigRun.exec_cases hx
  obtain ⟨-, -, -, hw⟩ := effect j hx
  -- the threads that were interrupted before the step
  have hkeep : (∀ v, S'.interrupted v = true → S.interrupted v = true ∧
      S'.state.sys.pc v = S.state.sys.pc v ∧
      Untouched S.state.sys.ipc.kernel S'.state.sys.ipc.kernel v ∨
      (∃ c, S'.state.sys.pc v = .wait c) ∧
      (∀ h : ListHead, h.IsWait → v ∉ S'.state.sys.ipc.kernel.lists h) ∧
      (S'.state.sys.ipc.kernel.thread v).error = .ok) → RunInv i S' := by
    intro hv
    refine ⟨j.sig.step (fun _ => SemCall.takes) ho hs, hw, fun v h => ?_, fun v h => ?_,
      fun v h => ?_⟩ <;> obtain ⟨h1, h2, h3⟩ | ⟨h1, h2, h3⟩ := hv v h
    · rw [h2]
      exact j.place v h1
    · exact h1
    · exact (h3 (j.off v h1)).1
    · exact h2
    · exact (h3 (j.off v h1)).2.trans (j.error v h1)
    · exact h3
  refine hkeep fun v hv => ?_
  rw [hi] at hv
  obtain ⟨a, rfl, hsys, -⟩ | ⟨h1, h2, h3, he⟩ | ⟨t, rfl, hwant, hst, he⟩ | ⟨t, rfl, hr, he⟩ :=
    hs.cases
  · have hv' : S.interrupted v = true ∧ ∀ r, a ≠ .run v r := by
      cases a with
      | run t r =>
          by_cases hvt : v = t
          · rw [hvt] at hv
            simp [SigRun.nextInterrupted] at hv
          · rw [SigRun.nextInterrupted, Function.update_of_ne hvt] at hv
            exact ⟨hv, fun r h => hvt (Action.run.inj h).1.symm⟩
      | _ => exact ⟨hv, by simp⟩
    obtain ⟨c, hc⟩ := j.place v hv'.1
    refine Or.inl ⟨hv'.1, pc_of_step hsys hv'.2 fun ha => ?_, ?_⟩
    · rw [ha] at hsys
      obtain ⟨_, _, _, h, -⟩ | ⟨t, c', e, r, h, -, hp, -⟩ | ⟨_, _, _, h, -⟩ | ⟨_, _, h, -⟩ |
        ⟨_, _, h, -⟩ | ⟨_, h, -⟩ := Ipc.Step.cases hsys <;> cases h
      rw [hc] at hp
      cases hp
    · exact (j.sig.sys_step (fun _ => SemCall.takes) ho hsys).2 v hv'.2
  · refine Or.inl ⟨?_, by rw [he], by rw [he]; exact .refl _ v⟩
    cases b with
    | sys a => exact absurd rfl (h1 a)
    | handle t => exact absurd rfl (h2 t)
    | deliver t =>
        simp only [SigRun.nextInterrupted] at hv
        split_ifs at hv with hw
        · exfalso
          refine h3 t rfl hw.1 ?_
          obtain ⟨-, hwt⟩ := hw
          unfold waits at hwt
          split at hwt
          · rename_i h hp
            obtain ⟨o, -, hh⟩ := Pc.ofObj_waitsOn hp
            exact j.sig.link.sched.suspended_of_mem ⟨o, hh⟩ (of_decide_eq_true hwt)
          · cases hwt
        · exact hv
    | _ => exact hv
  · have hsig := j.sig.link.signalled hst
    have hun : Untouched S.state.sys.ipc.kernel S'.state.sys.ipc.kernel v := by
      rw [he]
      exact fun hn => ⟨fun h hh hm => hn h hh ((hsig.mem_iff h hh v).mp hm).1, hsig.error v⟩
    simp only [SigRun.nextInterrupted] at hv
    split_ifs at hv with hwt
    · by_cases hvt : v = t
      · subst hvt
        obtain ⟨-, hwt⟩ := hwt
        unfold waits at hwt
        split at hwt
        · rename_i h hp
          obtain ⟨o, -, hh⟩ := Pc.ofObj_waitsOn hp
          obtain hq | ⟨c, hc, hq | ⟨e, r, hq⟩⟩ := j.sig.calls v <;> rw [hq] at hp
          · cases hp
          · rw [he]
            refine Or.inr ⟨⟨c, hq⟩, fun h hh hm => ((hsig.mem_iff h hh v).mp hm).2 rfl, ?_⟩
            refine (hsig.error v).trans ?_
            refine (j.sig.link.error v h ⟨o, hh⟩ (of_decide_eq_true hwt)).resolve_right ?_
            rintro ⟨-, m, rfl⟩
            cases c with
            | semTake => cases hp
            | semRelease => cases hp
            | _ => exact absurd hc id
          · cases hp
        · cases hwt
      · rw [Function.update_of_ne hvt] at hv
        exact Or.inl ⟨hv, by rw [he]; rfl, hun⟩
    · exact Or.inl ⟨hv, by rw [he]; rfl, hun⟩
  · by_cases hvt : v = t
    · rw [hvt] at hv
      simp [SigRun.nextInterrupted] at hv
    · rw [SigRun.nextInterrupted, Function.update_of_ne hvt] at hv
      refine Or.inl ⟨hv, by rw [he]; rfl, ?_⟩
      rw [he]
      exact .setError hvt _

theorem SigRun.Init.runInv (h : S.Init i) : RunInv i S ∧ SigConserved i S := by
  obtain ⟨h, h1, h2, h3, h4⟩ := h
  refine ⟨⟨h.sigInv, h.sys.sem i, ?_, ?_, ?_⟩, 0, Counts.zero fun t ht => ?_, by omega⟩
  · simp [h4]
  · simp [h4]
  · simp [h4]
  · exact (granted_idle (h.sys.idle t)).1 ht.1

/-- A step conserves the tokens if and only if it is none that loses a token or makes one. -/
theorem conserved_step (j : RunInv i S) (hc : SigConserved i S) (hx : S.exec i b = some S') :
    SigConserved i S' ↔ ¬ Loses i S b := by
  obtain ⟨d, hd, hiff, -⟩ := effect j hx
  obtain ⟨-, -, hinit, -⟩ := SigRun.exec_cases hx
  obtain ⟨n, hn, he⟩ := hc
  rw [← hiff]
  constructor
  · rintro ⟨n', hn', he'⟩
    have hnd := (hn.change_iff hd).mp hn'
    omega
  · intro heq
    have hnd : ∃ n' : Nat, (n' : Int) = n + d := by
      cases hd with
      | same => exact ⟨n, by omega⟩
      | gain => exact ⟨n + 1, by omega⟩
      | leave a ha =>
          have hpos := hn.pos ha
          exact ⟨n - 1, by omega⟩
    obtain ⟨n', hn'⟩ := hnd
    exact ⟨n', (hn.change_iff hd).mpr hn', by omega⟩

theorem SigRun.inv_of_reachable (h : Reachable (SigRun.Init i) (SigRun.Step i) S) :
    RunInv i S ∧ SigConserved i S := by
  refine h.invariant (I := fun S => RunInv i S ∧ SigConserved i S) (fun _ hi => hi.runInv)
    fun S b S' _ hi hs => ?_
  exact ⟨hi.1.step hs.1, (conserved_step hi.1 hi.2 hs.1).mpr hs.2⟩

/-- **Tokens and signals.** In the runs in which no step loses a token or makes one, the tokens are
conserved in every state; and from there a step conserves them if and only if it is no such step. -/
theorem signal_tokens_conserved (h : Reachable (SigRun.Init i) (SigRun.Step i) S) :
    SigConserved i S ∧
      ∀ b S', S.exec i b = some S' → (SigConserved i S' ↔ ¬ Loses i S b) := by
  obtain ⟨hi, hc⟩ := SigRun.inv_of_reachable h
  exact ⟨hc, fun b S' hx => conserved_step hi hc hx⟩

end

/-! ## A token that is lost -/

attribute [local instance] config32

/-- The run before its first step. -/
def SigRun.start (i : Nat) (q : Sys) : SigRun :=
  ⟨withHandlers q, (q.ipc.sem i).value, 0, 0, fun _ => false⟩

theorem SigRun.start_init {i : Nat} {q : Sys} (h : q.Init) : (SigRun.start i q).Init i :=
  ⟨withHandlers_init h, rfl, rfl, rfl, rfl⟩

/-- Thread 1 waits for semaphore 1 and thread 2 for semaphore 0. Thread 3 lets thread 1 go on, which
releases semaphore 0, sends a signal to thread 2, and waits again. -/
def releaseThenKill : List SigAction :=
  [.sys (.run 1 (.call (.semTake 1 (-1)))), .sys .schedule,
    .sys (.run 2 (.call (.semTake 0 (-1)))), .sys .schedule,
    .sys (.run 3 (.call (.semRelease 1))), .sys .schedule,
    .sys (.run 1 (.resumed 0)), .sys (.ret 1),
    .sys (.run 1 (.call (.semRelease 0))), .sys (.ret 1), .kill 2 3, .deliver 2,
    .sys (.run 1 (.call (.semTake 1 (-1)))), .sys .schedule]

/-- One step of a run that loses nothing. -/
def SigRun.keep (i : Nat) (S : SigRun) (b : SigAction) : Option SigRun :=
  if Loses i S b then none else S.exec i b

theorem SigRun.keep_step {i : Nat} {S S' : SigRun} {b : SigAction} (h : S.keep i b = some S') :
    SigRun.Step i S b S' := by
  unfold SigRun.keep at h
  split_ifs at h with hn
  exact ⟨h, hn⟩

theorem SigRun.keep_reachable {i : Nat} {q : Sys} {S : SigRun} {l : List SigAction} (h : q.Init)
    (hl : runList (SigRun.keep i) (SigRun.start i q) l = some S) :
    Reachable (SigRun.Init i) (SigRun.Step i) S :=
  (reachable_of_runList (.init (SigRun.start_init h)) hl).mono fun _ _ _ => SigRun.keep_step

/-- The signal before the handler runs: nothing is lost yet. -/
theorem signal_tokens_conserved_kill : ∃ q S, threeThreads = some q ∧
    runList (SigRun.keep 0) (SigRun.start 0 q) releaseThenKill = some S ∧ SigConserved 0 S := by
  have hrun : (threeThreads.bind fun q =>
      runList (SigRun.keep 0) (SigRun.start 0 q) releaseThenKill).isSome = true := by
    decide +kernel
  obtain ⟨S, hS⟩ := Option.isSome_iff_exists.mp hrun
  obtain ⟨q, hq, hS⟩ := Option.bind_eq_some_iff.mp hS
  have hr := SigRun.keep_reachable (threeThreads_init hq) hS
  exact ⟨q, S, hq, hS, (signal_tokens_conserved hr).1⟩

/-- Then thread 2 runs its handler: the token is lost, and its take returns `-RT_EINTR`. -/
theorem signal_token_lost : ∃ q S S', threeThreads = some q ∧
    runList (SigRun.exec 0) (SigRun.start 0 q) (releaseThenKill ++ [.handle 2]) = some S ∧
    ¬ SigConserved 0 S ∧
    runList (SigRun.exec 0) S [.handled 2, .sys (.run 2 (.resumed 0))] = some S' ∧
    S'.state.sys.pc 2 = .ret (.semTake 0 (-1)) .eintr .none := by
  have hrun : (threeThreads.bind fun q =>
      (runList (SigRun.keep 0) (SigRun.start 0 q) releaseThenKill).bind fun T =>
      (T.exec 0 (.handle 2)).bind fun S =>
      (runList (SigRun.exec 0) S [.handled 2, .sys (.run 2 (.resumed 0))]).map fun S' =>
        (decide (Loses 0 T (.handle 2)), S'.state.sys.pc 2)) =
      some (true, .ret (.semTake 0 (-1)) .eintr .none) := by
    decide +kernel
  obtain ⟨q, hq, hrun⟩ := Option.bind_eq_some_iff.mp hrun
  obtain ⟨T, hT, hrun⟩ := Option.bind_eq_some_iff.mp hrun
  obtain ⟨S, hS, hrun⟩ := Option.bind_eq_some_iff.mp hrun
  obtain ⟨S', hS', he⟩ := Option.map_eq_some_iff.mp hrun
  obtain ⟨hl, hpc⟩ := Prod.mk.inj he
  obtain ⟨hinv, hc⟩ := SigRun.inv_of_reachable (SigRun.keep_reachable (threeThreads_init hq) hT)
  refine ⟨q, S, S', hq, ?_, fun hc' => ?_, hS', hpc⟩
  · rw [runList_append, runList_mono (fun S b S' hs => (SigRun.keep_step hs).1) hT]
    simp only [Option.bind_some, runList, hS]
  · exact (conserved_step hinv hc hS).mp hc' (of_decide_eq_true hl)

end RTThread.SigSys
