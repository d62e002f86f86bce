import RTThread.Ipc.Sections

set_option autoImplicit false

/-! # Semaphores with one waiting thread

Most semaphores of the components are taken by one thread only. Of such a semaphore the model of a component
keeps the value and whether the thread is suspended on it. `Shows` ties these to the semaphores of `ipc.c`:
each function does the same on both.
-/

namespace RTThread.Ipc

open Kernel

/-- `struct rt_semaphore`, for the one thread that takes it. -/
structure SoloSem where
  /-- of 16 bits -/
  value : Nat
  suspended : Bool
  deriving DecidableEq, Repr

namespace SoloSem

/-- `rt_sem_take`, up to its result or to where the thread is suspended. -/
def rtSemTake (s : SoloSem) (time : Int) : Option Err × SoloSem :=
  if 0 < s.value then (some .ok, { s with value := s.value - 1 })
  else if time = 0 then (some .etimeout, s)
  else (none, { s with suspended := true })

def rtSemRelease (s : SoloSem) : SoloSem :=
  if s.suspended then { s with suspended := false } else { s with value := (s.value + 1) % 2 ^ 16 }

/-- `rt_sem_control` with `RT_IPC_CMD_RESET`. -/
def rtSemReset (_ : SoloSem) (value : Nat) : SoloSem := ⟨value % 2 ^ 16, false⟩

/-- The time-out of the suspended thread. -/
def expire (s : SoloSem) : SoloSem := { s with suspended := false }

theorem take_cases (s : SoloSem) (time : Int) :
    (0 < s.value ∧ s.rtSemTake time = (some .ok, { s with value := s.value - 1 })) ∨
    (s.value = 0 ∧ time = 0 ∧ s.rtSemTake time = (some .etimeout, s)) ∨
    (s.value = 0 ∧ time ≠ 0 ∧ s.rtSemTake time = (none, { s with suspended := true })) := by
  unfold rtSemTake
  split_ifs with hv ht
  · exact Or.inl ⟨hv, rfl⟩
  · exact Or.inr (Or.inl ⟨by omega, ht, rfl⟩)
  · exact Or.inr (Or.inr ⟨by omega, ht, rfl⟩)

/-! ## The semaphores of `ipc.c` -/

variable [RtConfig] {s : Ipc} {i : Nat} {w : SoloSem} {t : ThreadId} {time : Int} {x : Section}

/-- The semaphore `i` has the value, and one thread in its list if one is suspended. -/
structure Shows (s : Ipc) (i : Nat) (w : SoloSem) : Prop where
  value : (s.sem i).value = w.value
  list : (s.kernel.lists (.suspend (.sem i))).length = if w.suspended then 1 else 0

/-- The place in `rt_sem_take` for its result. -/
def takePc (i : Nat) (time : Int) : Option Err → Pc
  | some e => .ret (.semTake i time) e .none
  | none => .wait (.semTake i time)

theorem Shows.rtSemTake (h : Shows s i w) (hw : w.suspended = false) (j : SchedInv s.kernel)
    (hc : s.kernel.current = some t) (hr : (s.kernel.thread t).stat = .running)
    (hx : s.rtSemTake t i time = some x) :
    Shows x.ipc i (w.rtSemTake time).2 ∧ x.pc = takePc i time (w.rtSemTake time).1 := by
  have hlist := h.list
  rw [hw, if_neg Bool.false_ne_true] at hlist
  obtain ⟨hv, rfl⟩ | ⟨hv, ht, rfl⟩ | ⟨hv, ht, k', b, rfl⟩ := rtSemTake_cases j hc hr hx
  · rw [h.value] at hv
    rw [SoloSem.rtSemTake, if_pos hv]
    exact ⟨⟨by simp [h.value], h.list⟩, rfl⟩
  · rw [h.value] at hv
    rw [SoloSem.rtSemTake, if_neg (by omega), if_pos ht]
    exact ⟨h, rfl⟩
  · rw [h.value] at hv
    rw [SoloSem.rtSemTake, if_neg (by omega), if_neg ht]
    refine ⟨⟨h.value, ?_⟩, rfl⟩
    rw [setKernel_kernel, b.list, (waitInsert_perm _ _ _ _).length_eq]
    exact congrArg (· + 1) hlist

theorem Shows.rtSemRelease (h : Shows s i w) (j : SchedInv s.kernel)
    (hx : s.rtSemRelease i = some x) : Shows x.ipc i w.rtSemRelease := by
  have hlist := h.list
  obtain ⟨u, l, k', hl, wk, rfl⟩ | ⟨hl, rfl⟩ := rtSemRelease_cases j hx
  · have hw : w.suspended = true := by
      by_contra hf
      rw [if_neg hf, hl] at hlist
      cases hlist
    rw [SoloSem.rtSemRelease, if_pos hw]
    refine ⟨h.value, ?_⟩
    rw [if_pos hw, hl] at hlist
    rw [setKernel_kernel, wk.list, hl, List.erase_cons_head]
    exact Nat.succ.inj hlist
  · have hw : ¬ w.suspended = true := by
      intro ht
      rw [if_pos ht, hl] at hlist
      cases hlist
    rw [SoloSem.rtSemRelease, if_neg hw]
    exact ⟨by simp [h.value], h.list⟩

/-- The thread resets the semaphore while nobody waits. -/
theorem Shows.rtSemReset {value : Nat} (h : Shows s i w) (hw : w.suspended = false)
    (hx : s.rtSemReset i value = some x) : Shows x.ipc i (w.rtSemReset value) := by
  have hlist := h.list
  rw [hw, if_neg Bool.false_ne_true] at hlist
  have hnil : rtIpcListResumeAll s.kernel (.suspend (.sem i)) = s.kernel := by
    unfold rtIpcListResumeAll
    rw [hlist]
    rfl
  unfold Ipc.rtSemReset at hx
  rw [hnil] at hx
  obtain rfl := Option.some.inj hx
  exact ⟨by simp [SoloSem.rtSemReset], hlist⟩

end SoloSem

end RTThread.Ipc
