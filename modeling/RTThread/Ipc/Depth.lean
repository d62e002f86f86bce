import RTThread.Ipc.Mutex

set_option autoImplicit false

/-! # The depth of a recursive mutex

A thread takes a mutex some times and then releases it, while any other threads do what they like. The
counter `hold` has 8 bits and wraps around, so that the release which leaves a multiple of 256 takes
gives the mutex up: the last one, if there were at most 256.
-/

namespace RTThread.Ipc

open Kernel Trans

/-! ## The counter -/

/-- The number of the release, of those after `n` takes, that finds the counter at one. -/
def givesUpAt (n : Nat) : Nat := (n - 1) % 256 + 1

theorem givesUpAt_le {n : Nat} (h : 0 < n) : givesUpAt n ≤ n := by
  unfold givesUpAt
  omega

theorem givesUpAt_eq_iff {n : Nat} (h : 0 < n) : givesUpAt n = n ↔ n ≤ 256 := by
  unfold givesUpAt
  omega

/-- Where the thread is after `n` takes and `k` releases, and whether it has lost the mutex too early. -/
inductive Depth (t : ThreadId) (owner : Option ThreadId) (hold : Nat) : Nat → Nat → Bool → Prop
  | outside (ho : owner ≠ some t) : Depth t owner hold 0 0 false
  | held {n k : Nat} (hn : 0 < n) (hk : k < givesUpAt n) (ho : owner = some t)
      (hh : hold = (n - k) % 256) : Depth t owner hold n k false
  | lost {n k : Nat} (hk : givesUpAt n ≤ k) (hle : k ≤ n) (ho : owner ≠ some t) :
      Depth t owner hold n k (decide (givesUpAt n < n))

namespace Depth

variable {t : ThreadId} {owner owner' : Option ThreadId} {hold hold' n k : Nat} {early : Bool}

/-- Others hand the mutex among themselves. -/
theorem others (h : Depth t owner hold n k early) (ho : owner ≠ some t) (ho' : owner' ≠ some t) :
    Depth t owner' hold' n k early := by
  cases h with
  | outside _ => exact .outside ho'
  | held _ _ h => exact absurd h ho
  | lost hk hle _ => exact .lost hk hle ho'

/-- The thread gets the mutex. -/
theorem get (h : Depth t owner hold n 0 early) (ho : owner ≠ some t) :
    n = 0 ∧ early = false ∧ Depth t (some t) 1 1 0 early := by
  cases h with
  | outside _ => exact ⟨rfl, rfl, .held Nat.one_pos (by decide) rfl rfl⟩
  | held _ _ h => exact absurd h ho
  | lost hk _ _ => exact absurd hk (by unfold givesUpAt; omega)

/-- The owner takes it again. -/
theorem again (h : Depth t (some t) hold n 0 early) :
    Depth t (some t) ((hold + 1) % 2 ^ 8) (n + 1) 0 early := by
  cases h with
  | outside ho => exact absurd rfl ho
  | held hn _ _ hh =>
      refine .held (Nat.succ_pos n) (Nat.succ_pos _) rfl ?_
      rw [hh]
      omega
  | lost _ _ ho => exact absurd rfl ho

/-- The owner releases it, and keeps it. -/
theorem keep (h : Depth t (some t) hold n k early) (hh' : (hold + 255) % 2 ^ 8 ≠ 0) :
    Depth t (some t) ((hold + 255) % 2 ^ 8) n (k + 1) early := by
  cases h with
  | outside ho => exact absurd rfl ho
  | held hn hk _ hh =>
      have hle := givesUpAt_le hn
      refine .held hn ?_ rfl ?_
      · unfold givesUpAt at hk ⊢
        omega
      · omega
  | lost _ _ ho => exact absurd rfl ho

/-- The owner releases it, and gives it up. -/
theorem giveUp (h : Depth t (some t) hold n k early) (hh' : (hold + 255) % 2 ^ 8 = 0)
    (ho' : owner' ≠ some t) (hold' : Nat) :
    Depth t owner' hold' n (k + 1) (early || decide (k + 1 < n)) := by
  cases h with
  | outside ho => exact absurd rfl ho
  | held hn hk _ hh =>
      have hle := givesUpAt_le hn
      have hlast : k + 1 = givesUpAt n := by
        unfold givesUpAt at hk ⊢
        omega
      rw [hlast, Bool.false_or]
      exact .lost le_rfl hle ho'
  | lost _ _ ho => exact absurd rfl ho

/-- A thread that has lost it releases it in vain. -/
theorem inVain (h : Depth t owner hold n k early) (ho : owner ≠ some t) (hk : k < n) :
    Depth t owner hold n (k + 1) (early || decide (k + 1 < n)) := by
  cases h with
  | outside _ => exact absurd hk (Nat.lt_irrefl 0)
  | held _ _ h => exact absurd h ho
  | lost hge hle _ =>
      have hlt : givesUpAt n < n := hge.trans_lt hk
      rw [decide_eq_true hlt, Bool.true_or, ← decide_eq_true hlt]
      exact .lost (hge.trans (Nat.le_succ k)) hk ho

end Depth

/-! ## Runs -/

/-- A run in which one thread takes the mutex and then releases it: the takes of it that have returned
RT_EOK, its releases, and whether it was found not to own the mutex after one that was not the last. -/
structure DepthRun where
  sys : Sys
  taken : Nat
  released : Nat
  early : Bool

/-- The thread releases nothing more than it has taken, and does not take it again after that. -/
def inTurn (i : Nat) (t : ThreadId) (S : DepthRun) : Action → Bool
  | .run u (.call (.mutexTake j _)) => !(u = t && j = i) || S.released = 0
  | .run u (.call (.mutexRelease j)) => !(u = t && j = i) || S.released < S.taken
  | _ => true

/-- The step is an `rt_mutex_release` by the thread. -/
def releaseBy (i : Nat) (t : ThreadId) : Action → Bool
  | .run u (.call (.mutexRelease j)) => u = t && j = i
  | _ => false

section

variable [RtConfig] {i : Nat} {t u v : ThreadId} {s s' : Sys} {S S' : DepthRun} {a : Action}

namespace DepthRun

def exec (i : Nat) (t : ThreadId) (S : DepthRun) (a : Action) : Option DepthRun :=
  if inTurn i t S a then (S.sys.exec a).map fun s' => {
    sys := s'
    taken := S.taken + if takenBy i S.sys t a then 1 else 0
    released := S.released + if releaseBy i t a then 1 else 0
    early := S.early || (releaseBy i t a && decide ((s'.ipc.mutex i).owner ≠ some t) &&
      decide (S.released + 1 < S.taken)) }
  else none

def Step (i : Nat) (t : ThreadId) (S : DepthRun) (a : Action) (S' : DepthRun) : Prop :=
  S.exec i t a = some S'

/-- The run starts in a state of any run in which the mutex is free. -/
structure Init (i : Nat) (t : ThreadId) (S : DepthRun) : Prop where
  sys : Reachable Sys.Init Sys.Step S.sys
  free : (S.sys.ipc.mutex i).owner = none
  idle : S.sys.pc t = .idle
  counts : S.taken = 0 ∧ S.released = 0 ∧ S.early = false

end DepthRun

/-- A mutex is free or has an owner. -/
def Paired (m : Mutex) : Prop :=
  m.value = 1 ∧ m.owner = none ∧ m.hold = 0 ∨ m.value = 0 ∧ m.owner ≠ none

omit [RtConfig] in
theorem Paired.value {m : Mutex} (h : Paired m) (ho : m.owner = some t) : m.value = 0 := by
  rcases h with h | h
  · rw [h.2.1] at ho
    cases ho
  · exact h.1

omit [RtConfig] in
theorem Paired.owner {m : Mutex} (h : Paired m) (hv : 0 < m.value) : m.owner = none := by
  rcases h with h | h
  · exact h.2.1
  · rw [h.1] at hv
    cases hv

theorem paired_of_reachable (h : Reachable Sys.Init Sys.Step s) (i : Nat) : Paired (s.ipc.mutex i) := by
  refine h.invariant (I := fun s => Paired (s.ipc.mutex i)) (fun s hs => ?_) fun s a s' hr hi hs => ?_
  · obtain ⟨flag, hm⟩ := hs.mutex i
    rw [hm]
    exact .inl ⟨rfl, rfl, rfl⟩
  · have j := sysInv_of_reachable hr
    by_cases ha : s.actObj a = some (.mutex i)
    · cases mutexStep hs j ha with
      | again hr hp ho | nested hr hp ho hh =>
          rw [setMutex_self]
          exact .inr ⟨hi.value ho, by simp [ho]⟩
      | take hr hp ho hv =>
          rw [setMutex_self]
          refine .inr ⟨?_, by simp⟩
          rcases hi with hi | hi
          · simp [hi.1]
          · simp [hi.1] at hv
      | handOver hr hp ho hh m hl w =>
          rw [setMutex_self]
          exact .inr ⟨hi.value ho, by simp⟩
      | free hr hp ho hh m hl =>
          rw [setMutex_self]
          exact .inl ⟨by simp [hi.value ho], rfl, rfl⟩
      | busy | wait | notOwner | resumed | ret | timeout => exact hi
    · have f := Step.frame hs j ha
      have hm : s'.ipc.mutex i = s.ipc.mutex i := f.same
      rw [hm]
      exact hi

/-- The depth of the thread; a take that is granted counts before it returns. -/
structure DepthInv (i : Nat) (t : ThreadId) (s : Sys) (n k : Nat) (early : Bool) : Prop where
  granting : Granted (.suspend (.mutex i)) s t →
    Depth t (s.ipc.mutex i).owner (s.ipc.mutex i).hold (n + 1) k early
  returned : ¬ Granted (.suspend (.mutex i)) s t →
    Depth t (s.ipc.mutex i).owner (s.ipc.mutex i).hold n k early
  /-- the thread is not yet releasing while it takes -/
  taking : ((∃ time, s.pc t = .wait (.mutexTake i time)) ∨ ∃ time e r, s.pc t = .ret (.mutexTake i time) e r) →
    k = 0
  waiting : t ∈ s.ipc.kernel.lists (.suspend (.mutex i)) → (s.ipc.mutex i).owner ≠ some t

omit [RtConfig] in
/-- A step that leaves the thread where it is. -/
theorem DepthInv.congr {n k : Nat} {early : Bool} (h : DepthInv i t s n k early)
    (ho : (s'.ipc.mutex i).owner ≠ some t ∧ (s.ipc.mutex i).owner ≠ some t ∨
      s'.ipc.mutex i = s.ipc.mutex i)
    (hg : Granted (.suspend (.mutex i)) s' t ↔ Granted (.suspend (.mutex i)) s t)
    (hp : s'.pc t = s.pc t)
    (hl : t ∈ s'.ipc.kernel.lists (.suspend (.mutex i)) →
      t ∈ s.ipc.kernel.lists (.suspend (.mutex i))) : DepthInv i t s' n k early := by
  have hdepth : ∀ n k early, Depth t (s.ipc.mutex i).owner (s.ipc.mutex i).hold n k early →
      Depth t (s'.ipc.mutex i).owner (s'.ipc.mutex i).hold n k early := by
    intro n k early hd
    rcases ho with ⟨ho', ho⟩ | hm
    · exact hd.others ho ho'
    · rwa [hm]
  refine ⟨fun h₁ => hdepth _ _ _ (h.granting (hg.mp h₁)),
    fun h₁ => hdepth _ _ _ (h.returned fun h₂ => h₁ (hg.mpr h₂)),
    fun h₁ => h.taking (by rwa [hp] at h₁), fun h₁ => ?_⟩
  rcases ho with ⟨ho', -⟩ | hm
  · exact ho'
  · rw [hm]
    exact h.waiting (hl h₁)

omit [RtConfig] in
/-- A step of another thread. -/
theorem DepthInv.other {n k : Nat} {early : Bool} (h : DepthInv i t s n k early) {ipc : Ipc} {p : Pc}
    (hv : t ≠ v) (ho : (ipc.mutex i).owner ≠ some t ∧ (s.ipc.mutex i).owner ≠ some t ∨
      ipc.mutex i = s.ipc.mutex i)
    (hl : t ∈ ipc.kernel.lists (.suspend (.mutex i)) ↔
      t ∈ s.ipc.kernel.lists (.suspend (.mutex i)))
    (he : (ipc.kernel.thread t).error = (s.ipc.kernel.thread t).error) :
    DepthInv i t ⟨ipc, Function.update s.pc v p⟩ n k early :=
  h.congr ho (granted_other hv hl he).1 (Function.update_of_ne hv ..) hl.mp

omit [RtConfig] in
/-- The thread has just been granted the mutex. -/
theorem DepthInv.grant {n k : Nat} {early : Bool} (hg : Granted (.suspend (.mutex i)) s t)
    (hd : Depth t (s.ipc.mutex i).owner (s.ipc.mutex i).hold (n + 1) k early) (hk : k = 0)
    (hl : t ∉ s.ipc.kernel.lists (.suspend (.mutex i))) : DepthInv i t s n k early :=
  ⟨fun _ => hd, fun h => absurd hg h, fun _ => hk, fun h => absurd h hl⟩

omit [RtConfig] in
/-- The thread is granted nothing. -/
theorem DepthInv.quiet {n k : Nat} {early : Bool} (hg : ¬ Granted (.suspend (.mutex i)) s t)
    (hd : Depth t (s.ipc.mutex i).owner (s.ipc.mutex i).hold n k early)
    (ht : (∃ time, s.pc t = .wait (.mutexTake i time)) ∨
      (∃ time e r, s.pc t = .ret (.mutexTake i time) e r) → k = 0)
    (hl : t ∈ s.ipc.kernel.lists (.suspend (.mutex i)) → (s.ipc.mutex i).owner ≠ some t) :
    DepthInv i t s n k early :=
  ⟨fun h => absurd h hg, fun _ => hd, ht, hl⟩

/-- A step about another object. -/
theorem frame_depth (hs : s.Step a s') (j : SysInv s) (ha : s.actObj a ≠ some (.mutex i)) {n k : Nat}
    {early : Bool} (h : DepthInv i t s n k early) :
    takenBy i s t a = false ∧ releaseBy i t a = false ∧ DepthInv i t s' n k early := by
  have f := Step.frame hs j ha
  have hm : s'.ipc.mutex i = s.ipc.mutex i := f.same
  have hlist := f.lists (.suspend (.mutex i)) (Or.inl rfl)
  refine ⟨?_, ?_, ?_⟩
  · by_contra ht
    refine ha ?_
    unfold takenBy at ht
    split at ht
    · split at ht <;> simp_all [Sys.actObj, Pc.obj, Call.obj]
    · simp at ht
  · by_contra hr
    refine ha ?_
    unfold releaseBy at hr
    split at hr <;> simp_all [Sys.actObj, Call.obj]
  · refine ⟨fun h₁ => ?_, fun h₁ => ?_, fun h₁ => h.taking ?_, fun h₁ => ?_⟩
    · rw [hm]
      exact h.granting ((f.granted (Or.inl rfl) t).1.mp h₁)
    · rw [hm]
      exact h.returned fun h₂ => h₁ ((f.granted (Or.inl rfl) t).1.mpr h₂)
    · have hobj : (s'.pc t).obj = some (.mutex i) := by
        rcases h₁ with ⟨time, h₁⟩ | ⟨time, e, r, h₁⟩
        all_goals
          rw [h₁]
          rfl
      rwa [f.pc t (Or.inr hobj)] at h₁
    · rw [hm]
      exact h.waiting (by rwa [hlist] at h₁)

omit [RtConfig] in
/-- A release takes nothing. -/
theorem takenBy_release : takenBy i s t (.run v (.call (.mutexRelease i))) = false := rfl

omit [RtConfig] in
theorem releaseBy_self : releaseBy i v (.run v (.call (.mutexRelease i))) = true := by
  simp [releaseBy]

omit [RtConfig] in
theorem releaseBy_of_ne (hv : v ≠ t) :
    releaseBy i t (.run v (.call (.mutexRelease i))) = false := by simp [releaseBy, hv]

/-- **One step.** -/
theorem step_depth (hs : s.Step a s') (j : SysInv s) (hpair : Paired (s.ipc.mutex i)) {n k : Nat}
    {early : Bool} (h : DepthInv i t s n k early) (hturn : inTurn i t ⟨s, n, k, early⟩ a) :
    DepthInv i t s' (n + if takenBy i s t a then 1 else 0) (k + if releaseBy i t a then 1 else 0)
      (early || (releaseBy i t a && decide ((s'.ipc.mutex i).owner ≠ some t) &&
        decide (k + 1 < n))) := by
  have hwl : ListHead.IsWait (.suspend (.mutex i)) := ⟨_, Or.inl rfl⟩
  by_cases ha : s.actObj a = some (.mutex i)
  swap
  · obtain ⟨h₁, h₂, h₃⟩ := frame_depth hs j ha h
    simpa [h₁, h₂] using h₃
  cases mutexStep hs j ha with
  | @again v time hr hp ho =>
      simp only [takenBy, releaseBy, Bool.false_and, Bool.or_false, Bool.false_eq_true, if_false,
        Nat.add_zero]
      by_cases hv : v = t
      · subst hv
        have hk : k = 0 := by simpa [inTurn] using hturn
        subst hk
        have hd := h.returned (granted_idle hp).1
        rw [ho] at hd
        refine .grant ((granted_ret (Function.update_self ..)).1.mpr ⟨rfl, rfl⟩) ?_ rfl
          (j.wait.sched.running_not_mem hr.2)
        simp only [setMutex_self, ho]
        exact hd.again
      · have hne : (s.ipc.mutex i).owner ≠ some t := fun e => hv (Option.some.inj (ho.symm.trans e))
        refine h.other (Ne.symm hv) (.inl ⟨by simpa using hne, hne⟩) Iff.rfl ?_
        simp [setError, modify_of_ne _ (Ne.symm hv)]
  | @take v time hr hp ho hv₀ =>
      have hfree := hpair.owner hv₀
      have hne : (s.ipc.mutex i).owner ≠ some t := by simp [hfree]
      simp only [takenBy, releaseBy, Bool.false_and, Bool.or_false, Bool.false_eq_true, if_false,
        Nat.add_zero]
      by_cases hv : v = t
      · subst hv
        have hk : k = 0 := by simpa [inTurn] using hturn
        subst hk
        obtain ⟨rfl, rfl, hd⟩ := (h.returned (granted_idle hp).1).get hne
        refine .grant ((granted_ret (Function.update_self ..)).1.mpr ⟨rfl, rfl⟩) ?_ rfl
          (j.wait.sched.running_not_mem hr.2)
        have hhold : (s.ipc.mutex i).hold = 0 := by
          rcases hpair with hpair | hpair
          · exact hpair.2.2
          · exact absurd hfree hpair.2
        simp only [setMutex_self, hhold]
        exact hd
      · refine h.other (Ne.symm hv) (.inl ⟨by simpa using hv, hne⟩) Iff.rfl ?_
        simp [setError, modify_of_ne _ (Ne.symm hv)]
  | @busy v hr hp ho hv₀ =>
      simp only [takenBy, releaseBy, Bool.false_and, Bool.or_false, Bool.false_eq_true, if_false,
        Nat.add_zero]
      by_cases hv : v = t
      · subst hv
        have hk : k = 0 := by simpa [inTurn] using hturn
        refine .quiet (fun hg => ?_) (h.returned (granted_idle hp).1) (fun _ => hk) h.waiting
        have he := ((granted_ret (Function.update_self ..)).1.mp hg).2
        cases he
      · refine h.other (Ne.symm hv) (.inr rfl) Iff.rfl ?_
        simp [setError, modify_of_ne _ (Ne.symm hv)]
  | @wait v owner time k₁ k' hr hp hne ho hv₀ htime mc b =>
      have hmem : ∀ u, u ∈ k'.lists (.suspend (.mutex i)) ↔
          u ∈ s.ipc.kernel.lists (.suspend (.mutex i)) ∨ u = v := by
        intro u
        rw [b.mem_iff hwl, mc.wait hwl]
        simp [setError]
      simp only [takenBy, releaseBy, Bool.false_and, Bool.or_false, Bool.false_eq_true, if_false,
        Nat.add_zero]
      by_cases hv : v = t
      · subst hv
        have hk : k = 0 := by simpa [inTurn] using hturn
        have hnot : (s.ipc.mutex i).owner ≠ some v := fun h₁ =>
          hne (Option.some.inj (ho.symm.trans h₁))
        refine .quiet (fun hg => ?_) (h.returned (granted_idle hp).1) (fun _ => hk) fun _ => hnot
        refine ((granted_wait (Function.update_self ..)).1.mp hg).2.1 ?_
        exact (hmem v).mpr (Or.inr rfl)
      · have hvt : t ≠ v := Ne.symm hv
        refine h.other hvt (.inr rfl) ((hmem t).trans (or_iff_left hvt)) ?_
        show (k'.thread t).error = _
        rw [b.thread t hvt, mc.fields.2.1]
        simp [setError, modify_of_ne _ hvt]
  | @notOwner v hr hp ho =>
      by_cases hv : v = t
      · subst hv
        have hk : k < n := by simpa [inTurn] using hturn
        have ho' : decide ((s.ipc.mutex i).owner ≠ some v) = true := decide_eq_true ho
        rw [takenBy_release, releaseBy_self]
        refine .quiet (fun hg => ?_) ?_ (fun h₁ => ?_) h.waiting
        · have hw := ((granted_ret (Function.update_self ..)).1.mp hg).1
          cases hw
        · show Depth v (s.ipc.mutex i).owner (s.ipc.mutex i).hold n (k + 1)
            (early || (true && decide ((s.ipc.mutex i).owner ≠ some v) && decide (k + 1 < n)))
          rw [ho', Bool.true_and, Bool.true_and]
          exact (h.returned (granted_idle hp).1).inVain ho hk
        · simp at h₁
      · simp only [takenBy_release, releaseBy_of_ne hv, Bool.false_and, Bool.or_false, Bool.false_eq_true, if_false,
          Nat.add_zero]
        refine h.other (Ne.symm hv) (.inr rfl) Iff.rfl ?_
        simp [setError, modify_of_ne _ (Ne.symm hv)]
  | @nested v hr hp ho hh =>
      by_cases hv : v = t
      · subst hv
        have hd := h.returned (granted_idle hp).1
        rw [ho] at hd
        rw [takenBy_release, releaseBy_self]
        refine .quiet (fun hg => ?_) ?_ (fun h₁ => ?_) fun hm => ?_
        · have hw := ((granted_ret (Function.update_self ..)).1.mp hg).1
          cases hw
        · simpa [ho] using hd.keep hh
        · simp at h₁
        · exact absurd hm (j.wait.sched.running_not_mem hr.2)
      · have hne : (s.ipc.mutex i).owner ≠ some t := fun e => hv (Option.some.inj (ho.symm.trans e))
        simp only [takenBy_release, releaseBy_of_ne hv, Bool.false_and, Bool.or_false, Bool.false_eq_true, if_false,
          Nat.add_zero]
        exact h.other (Ne.symm hv) (.inl ⟨by simpa using hne, hne⟩) Iff.rfl rfl
  | @handOver v u l k₁ k' hr hp ho hh mc hl w =>
      have hu : u ∈ s.ipc.kernel.lists (.suspend (.mutex i)) := by
        rw [hl]
        exact List.mem_cons_self
      have hu' : u ∈ k₁.lists (.suspend (.mutex i)) := by rwa [mc.wait hwl]
      have hmem : ∀ x, x ∈ k'.lists (.suspend (.mutex i)) ↔
          x ∈ s.ipc.kernel.lists (.suspend (.mutex i)) ∧ x ≠ u := by
        intro x
        rw [w.mem_iff (mc.sched j.wait.sched) hwl hu', mc.wait hwl]
      have herr : ∀ x, (k'.thread x).error = (s.ipc.kernel.thread x).error := fun x =>
        (w.error (Or.inr rfl)).trans mc.fields.2.1
      by_cases hv : v = t
      · subst hv
        have hut : u ≠ v := fun e => j.wait.sched.running_not_mem hr.2 (e ▸ hu)
        have hd := h.returned (granted_idle hp).1
        rw [ho] at hd
        rw [takenBy_release, releaseBy_self]
        refine .quiet (fun hg => ?_) ?_ (fun h₁ => ?_) fun _ => by simpa using hut
        · have hw := ((granted_ret (Function.update_self ..)).1.mp hg).1
          cases hw
        · have hd' := hd.giveUp hh (show some u ≠ some v by simpa using hut) 1
          simpa [hut] using hd'
        · simp at h₁
      · have hne : (s.ipc.mutex i).owner ≠ some t := fun e => hv (Option.some.inj (ho.symm.trans e))
        simp only [takenBy_release, releaseBy_of_ne hv, Bool.false_and, Bool.or_false, Bool.false_eq_true, if_false,
          Nat.add_zero]
        by_cases hut : u = t
        · -- the mutex is handed to the thread
          subst hut
          obtain ⟨time, hpu⟩ := mutexWaiter (j.wait.waits u _ hwl hu)
          have hng : ¬ Granted (.suspend (.mutex i)) s u := fun hg => ((granted_wait hpu).1.mp hg).2.1 hu
          have hk := h.taking (.inl ⟨time, hpu⟩)
          subst hk
          obtain ⟨rfl, rfl, hd⟩ := (h.returned hng).get hne
          refine .grant ?_ (by simpa using hd) rfl fun hm => ((hmem u).mp hm).2 rfl
          refine (granted_wait ((Function.update_of_ne (Ne.symm hv) ..).trans hpu)).1.mpr
            ⟨rfl, fun hm => ((hmem u).mp hm).2 rfl, (herr u).trans ?_⟩
          exact j.wait.error u _ hwl hu
        · exact h.other (Ne.symm hv) (.inl ⟨by simpa using hut, hne⟩)
            ((hmem t).trans (and_iff_left (Ne.symm hut))) (herr t)
  | @free v k₁ hr hp ho hh mc hl =>
      have hmem : ∀ x, x ∈ k₁.lists (.suspend (.mutex i)) ↔
          x ∈ s.ipc.kernel.lists (.suspend (.mutex i)) := fun x => by rw [mc.wait hwl]
      by_cases hv : v = t
      · subst hv
        have hd := h.returned (granted_idle hp).1
        rw [ho] at hd
        rw [takenBy_release, releaseBy_self]
        refine .quiet (fun hg => ?_) ?_ (fun h₁ => ?_) fun _ => by simp
        · have hw := ((granted_ret (Function.update_self ..)).1.mp hg).1
          cases hw
        · have hd' := hd.giveUp hh (show none ≠ some v by simp) 0
          simpa using hd'
        · simp at h₁
      · have hne : (s.ipc.mutex i).owner ≠ some t := fun e => hv (Option.some.inj (ho.symm.trans e))
        simp only [takenBy_release, releaseBy_of_ne hv, Bool.false_and, Bool.or_false, Bool.false_eq_true, if_false,
          Nat.add_zero]
        exact h.other (Ne.symm hv) (.inl ⟨by simp, hne⟩) (hmem t) mc.fields.2.1
  | @resumed v time delta hr hp =>
      simp only [takenBy, releaseBy, Bool.false_and, Bool.or_false, Bool.false_eq_true, if_false,
        Nat.add_zero]
      by_cases hv : v = t
      · subst hv
        have hnot := j.wait.sched.running_not_mem (h := .suspend (.mutex i)) hr.2
        have hret := granted_ret (h := .suspend (.mutex i))
          (s := ⟨s.ipc, Function.update s.pc v (.ret (.mutexTake i time)
            (s.ipc.kernel.thread v).error .none)⟩) (Function.update_self ..)
        have hg : Granted (.suspend (.mutex i)) ⟨s.ipc, Function.update s.pc v (.ret
            (.mutexTake i time) (s.ipc.kernel.thread v).error .none)⟩ v ↔
            Granted (.suspend (.mutex i)) s v := by
          rw [hret.1, (granted_wait hp).1]
          simp [hnot]
        exact ⟨fun h₁ => h.granting (hg.mp h₁), fun h₁ => h.returned fun h₂ => h₁ (hg.mpr h₂),
          fun _ => h.taking (.inl ⟨time, hp⟩), fun h₁ => absurd h₁ hnot⟩
      · exact h.other (Ne.symm hv) (.inr rfl) Iff.rfl rfl
  | @ret v c e r hr hp hc =>
      simp only [releaseBy, Bool.false_and, Bool.or_false, Bool.false_eq_true, if_false, Nat.add_zero]
      by_cases hv : v = t
      · subst hv
        have hidle := granted_idle (s := s.move v .idle) (h := .suspend (.mutex i))
          (Function.update_self ..)
        refine .quiet hidle.1 ?_ (fun h₁ => ?_) fun hm => ?_
        · show Depth v (s.ipc.mutex i).owner (s.ipc.mutex i).hold _ k early
          by_cases hg : Granted (.suspend (.mutex i)) s v
          · rw [(takenBy_ret hp).mpr hg]
            exact h.granting hg
          · rw [Bool.eq_false_of_not_eq_true fun ht => hg ((takenBy_ret hp).mp ht)]
            exact h.returned hg
        · simp [Sys.move] at h₁
        · exact absurd hm (j.wait.sched.running_not_mem hr.2)
      · rw [takenBy_of_ne (Ne.symm hv)]
        exact h.other (Ne.symm hv) (.inr rfl) Iff.rfl rfl
  | @timeout v time k' hp hm w =>
      simp only [takenBy, releaseBy, Bool.false_and, Bool.or_false, Bool.false_eq_true, if_false,
        Nat.add_zero]
      have hmem : ∀ x, x ∈ k'.lists (.suspend (.mutex i)) ↔
          x ∈ s.ipc.kernel.lists (.suspend (.mutex i)) ∧ x ≠ v := fun x =>
        w.mem_iff j.wait.sched hwl hm
      by_cases hv : v = t
      · subst hv
        have hnot := h.waiting hm
        have hng : ¬ Granted (.suspend (.mutex i)) s v := fun hg => ((granted_wait hp).1.mp hg).2.1 hm
        refine .quiet (fun hg => ?_) (h.returned hng) (fun _ => h.taking (.inl ⟨time, hp⟩)) fun _ => hnot
        have he := ((granted_wait (s := s.setKernel k') hp).1.mp hg).2.2
        rw [show ((s.setKernel k').ipc.kernel.thread v).error = .etimeout by
          show (k'.thread v).error = _
          rw [w.self]] at he
        cases he
      · have hvt : t ≠ v := Ne.symm hv
        refine h.congr (.inr rfl) ?_ rfl fun h₁ => ((hmem t).mp h₁).1
        refine (granted_congr (s := s) (q := s.setKernel k') rfl
          ((hmem t).trans (and_iff_left hvt)) ?_).1
        show (k'.thread t).error = _
        rw [w.thread t hvt]

/-! ## The law -/

theorem DepthRun.exec_cases (h : S.exec i t a = some S') :
    inTurn i t S a = true ∧ S.sys.Step a S'.sys ∧
      S'.taken = (S.taken + if takenBy i S.sys t a then 1 else 0) ∧
      S'.released = (S.released + if releaseBy i t a then 1 else 0) ∧
      S'.early = (S.early || (releaseBy i t a && decide ((S'.sys.ipc.mutex i).owner ≠ some t) &&
        decide (S.released + 1 < S.taken))) := by
  unfold DepthRun.exec at h
  by_cases hd : inTurn i t S a = true
  · rw [if_pos hd] at h
    obtain ⟨s', hs, rfl⟩ := Option.map_eq_some_iff.mp h
    exact ⟨hd, hs, rfl, rfl, rfl⟩
  · rw [if_neg hd] at h
    cases h

theorem depth_of_reachable (h : Reachable (DepthRun.Init i t) (DepthRun.Step i t) S) :
    Reachable Sys.Init Sys.Step S.sys ∧ DepthInv i t S.sys S.taken S.released S.early := by
  induction h with
  | init h =>
      obtain ⟨hn, hk, hearly⟩ := h.counts
      have hidle := h.idle
      rw [hn, hk, hearly]
      refine ⟨h.sys, .quiet (granted_idle hidle).1 (.outside (by simp [h.free])) (fun _ => rfl)
        fun _ => by simp [h.free]⟩
  | step _ hs ih =>
      obtain ⟨hturn, hs', hn, hk, hearly⟩ := DepthRun.exec_cases hs
      rw [hn, hk, hearly]
      exact ⟨ih.1.step hs', step_depth hs' (sysInv_of_reachable ih.1) (paired_of_reachable ih.1 i)
        ih.2 hturn⟩

/-- The thread owns the mutex up to its last release, which makes the mutex free or gives it to another
thread. -/
structure Kept (i : Nat) (t : ThreadId) (S : DepthRun) : Prop where
  notEarly : S.early = false
  owns : 0 < S.taken → S.released < S.taken → (S.sys.ipc.mutex i).owner = some t
  givenUp : 0 < S.released → S.released = S.taken →
    (S.sys.ipc.mutex i).value = 1 ∧ (S.sys.ipc.mutex i).owner = none ∨
      ∃ u, u ≠ t ∧ (S.sys.ipc.mutex i).owner = some u

omit [RtConfig] in
/-- A thread that is granted the mutex is in `rt_mutex_take`. -/
theorem DepthInv.granted {n k : Nat} {early : Bool} (h : DepthInv i t s n k early)
    (hg : Granted (.suspend (.mutex i)) s t) : k = 0 := by
  have hcall : ∀ c : Call, c.waitsOn = some (.suspend (.mutex i)) → ∃ time, c = .mutexTake i time := by
    intro c hc
    cases c with
    | mutexTake j time =>
        obtain rfl : j = i := by simpa [Call.waitsOn] using hc
        exact ⟨time, rfl⟩
    | _ => simp [Call.waitsOn] at hc
  refine h.taking ?_
  unfold Granted at hg
  cases hp : s.pc t with
  | wait c =>
      rw [hp] at hg
      obtain ⟨time, rfl⟩ := hcall c hg.1
      exact .inl ⟨time, rfl⟩
  | ret c e r =>
      rw [hp] at hg
      obtain ⟨time, rfl⟩ := hcall c hg.1
      exact .inr ⟨time, e, r, rfl⟩
  | _ => simp [hp] at hg

/-- **Recursive depth.** In every run the mutex is kept up to the last release if it was taken at most 256
times; and if it was taken more often, it has been lost before the last release. -/
theorem mutex_depth (h : Reachable (DepthRun.Init i t) (DepthRun.Step i t) S) :
    (S.taken ≤ 256 → Kept i t S) ∧
    (0 < S.released → S.released = S.taken → (Kept i t S ↔ S.taken ≤ 256)) := by
  obtain ⟨hreach, hd⟩ := depth_of_reachable h
  have hpair := paired_of_reachable hreach i
  have hfree : (S.sys.ipc.mutex i).owner ≠ some t →
      (S.sys.ipc.mutex i).value = 1 ∧ (S.sys.ipc.mutex i).owner = none ∨
        ∃ u, u ≠ t ∧ (S.sys.ipc.mutex i).owner = some u := by
    intro ho
    rcases hpair with ⟨hv, hn, -⟩ | ⟨-, hn⟩
    · exact .inl ⟨hv, hn⟩
    · obtain ⟨u, hu⟩ := Option.ne_none_iff_exists'.mp hn
      exact .inr ⟨u, fun e => ho (by rw [hu, e]), hu⟩
  by_cases hg : Granted (.suspend (.mutex i)) S.sys t
  · have hk := hd.granted hg
    have hdepth := hd.granting hg
    rw [hk] at hdepth
    refine ⟨fun _ => ?_, fun hpos => absurd hk (by omega)⟩
    generalize hown : (S.sys.ipc.mutex i).owner = owner at hdepth
    generalize hearly : S.early = early at hdepth
    cases hdepth with
    | held _ _ ho _ => exact ⟨hearly, fun _ _ => hown.trans ho, fun hpos => absurd hk (by omega)⟩
    | lost hge _ _ => exact absurd hge (by unfold givesUpAt; omega)
  · have hdepth := hd.returned hg
    generalize hown : (S.sys.ipc.mutex i).owner = owner at hdepth
    generalize hearly : S.early = early at hdepth
    generalize hn : S.taken = n at hdepth
    generalize hk : S.released = k at hdepth
    cases hdepth with
    | outside _ =>
        refine ⟨fun _ => ⟨hearly, ?_, ?_⟩, fun hpos => absurd hpos (Nat.lt_irrefl 0)⟩
        · exact fun hpos => absurd hpos (by omega)
        · exact fun hpos => absurd hpos (by omega)
    | held h₀ hlt ho _ =>
        have hle := givesUpAt_le h₀
        refine ⟨fun _ => ⟨hearly, fun _ _ => hown.trans ho, fun _ heq => absurd heq (by omega)⟩,
          fun _ heq => absurd heq (by omega)⟩
    | lost hge hle ho =>
        have h₀ : 0 < n := lt_of_lt_of_le (Nat.succ_pos _) (hge.trans hle)
        have hgives := givesUpAt_le h₀
        have hkept : n ≤ 256 → Kept i t S := by
          intro hn256
          have heq := (givesUpAt_eq_iff h₀).mpr hn256
          refine ⟨?_, fun _ hlt => absurd hlt (by omega), fun _ _ => hfree (hown ▸ ho)⟩
          rw [hearly]
          exact decide_eq_false (by omega)
        refine ⟨hkept, fun _ _ => ⟨fun hK => (givesUpAt_eq_iff h₀).mp ?_, hkept⟩⟩
        have hnot := of_decide_eq_false (hearly.symm.trans hK.notEarly)
        omega

end

/-! ## A mutex that is taken too often -/

attribute [local instance] config32

/-- The steps of so many takes, and of one release. -/
def takes (n : Nat) : List Action :=
  (List.replicate n [Action.run 1 (.call (.mutexTake 0 (-1))), .ret 1]).flatten ++
    [.run 1 (.call (.mutexRelease 0))]

theorem depthInit {s : Sys} (hs : mutexThread .prio = some s) :
    DepthRun.Init 0 1 ⟨s, 0, 0, false⟩ := by
  have hi : s.Init := startSys_init (fun _ => by decide) (fun _ => by decide) hs
  obtain ⟨flag, hm⟩ := hi.mutex 0
  exact ⟨.init hi, by rw [hm], hi.idle 1, rfl, rfl, rfl⟩

/-- A thread takes a mutex twice, and releases it once. -/
theorem mutex_depth_twice : ∃ s S, mutexThread .prio = some s ∧
    runList (DepthRun.exec 0 1) ⟨s, 0, 0, false⟩ (takes 2) = some S ∧ S.taken = 2 ∧ S.released = 1 ∧
    Kept 0 1 S := by
  obtain ⟨s, hs⟩ : ∃ s, mutexThread .prio = some s := ⟨_, rfl⟩
  obtain ⟨S, hS, hn, hk⟩ : ∃ S, runList (DepthRun.exec 0 1) ⟨s, 0, 0, false⟩ (takes 2) = some S ∧
      S.taken = 2 ∧ S.released = 1 := by
    obtain rfl := Option.some.inj hs
    exact ⟨_, rfl, rfl, rfl⟩
  have hreach := reachable_of_runList (.init (depthInit hs)) hS
  exact ⟨s, S, hs, hS, hn, hk, (mutex_depth hreach).1 (by rw [hn]; decide)⟩

/-- After 257 takes one release makes the mutex free. -/
theorem mutex_lost_after_257 :
    ¬ ∀ S, Reachable (DepthRun.Init 0 1) (DepthRun.Step 0 1) S → Kept 0 1 S := by
  intro hclaim
  have hrun : ((mutexThread .prio).bind fun s => (runList (DepthRun.exec 0 1) ⟨s, 0, 0, false⟩
      (takes 257)).map fun S => (decide ((S.sys.ipc.mutex 0).owner = some 1), S.taken, S.released)) =
        some (false, 257, 1) := by
    decide +kernel
  obtain ⟨s, hs, hrun⟩ := Option.bind_eq_some_iff.mp hrun
  obtain ⟨S, hS, hrun⟩ := Option.map_eq_some_iff.mp hrun
  simp only [Prod.mk.injEq, decide_eq_false_iff_not] at hrun
  obtain ⟨hne, hn, hk⟩ := hrun
  have hkept := hclaim S (reachable_of_runList (.init (depthInit hs)) hS)
  exact hne (hkept.owns (by rw [hn]; decide) (by rw [hn, hk]; decide))

end RTThread.Ipc
