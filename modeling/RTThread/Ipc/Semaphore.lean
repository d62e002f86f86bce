import RTThread.Ipc.Start

set_option autoImplicit false

/-! # Semaphore tokens

A release of a semaphore increases its value or hands the token to a thread that waits. So the value
and the takes that were granted make up the initial value and the releases, as long as no release
finds the 16 bits of the value full: then the value starts again from zero.
-/

namespace RTThread.Ipc

open Kernel Trans

/-! ## Counting -/

/-- The step is a call of `rt_sem_release` on the semaphore. -/
def releasesSem (i : Nat) : Action → Bool
  | .run _ (.call (.semRelease j)) | .isr (.semRelease j) => j = i
  | _ => false

/-- The step is a reset of the semaphore. -/
def resetsSem (i : Nat) : Action → Bool
  | .run _ (.call (.semReset j _)) => j = i
  | _ => false

/-- The step is the return of RT_EOK from `rt_sem_take`, to a thread or an interrupt handler. -/
def takeReturns [RtConfig] (i : Nat) (s : Sys) : Action → Bool
  | .ret t => match s.pc t with
    | .ret (.semTake j _) .ok _ => j = i
    | _ => false
  | .isr (.semTake j time) =>
    match s.ipc.kernel.current.bind fun t => s.ipc.call t (.semTake j time) with
    | some x => j = i && x.pc = .ret (.semTake j time) .ok .none
    | none => false
  | _ => false

/-- A run that counts the releases and the takes that have returned RT_EOK. -/
structure SemRun where
  sys : Sys
  initial : Nat
  releases : Nat
  returned : Nat

section

variable [RtConfig] {i n n' : Nat} {s s' : Sys} {S S' : SemRun} {a : Action} {t u v : ThreadId}
  {k k' : Kernel}

def SemRun.Init (i : Nat) (S : SemRun) : Prop :=
  S.sys.Init ∧ S.initial = (S.sys.ipc.sem i).value ∧ S.releases = 0 ∧ S.returned = 0

/-- Every step but a reset of the semaphore. -/
def SemRun.exec (i : Nat) (S : SemRun) (a : Action) : Option SemRun :=
  if resetsSem i a then none
  else (S.sys.exec a).map fun s' => { S with
    sys := s'
    releases := S.releases + if releasesSem i a then 1 else 0
    returned := S.returned + if takeReturns i S.sys a then 1 else 0 }

/-- A release finds the value full, and no thread that waits. -/
def Overflow (i : Nat) (s : Sys) (a : Action) : Prop :=
  releasesSem i a = true ∧ (s.ipc.sem i).value = 2 ^ 16 - 1 ∧
    s.ipc.kernel.lists (.suspend (.sem i)) = []

/-- The tokens there are: the value, and one for each thread with a token. -/
def Tokens (i : Nat) (s : Sys) (n : Nat) : Prop :=
  ∃ P : Finset ThreadId, (∀ t, t ∈ P ↔ Granted (.suspend (.sem i)) s t) ∧
    (s.ipc.sem i).value + P.card = n

/-- No thread waits while there are tokens, and the value fits its field. -/
structure SemValue (i : Nat) (s : Sys) : Prop where
  idle : 0 < (s.ipc.sem i).value → s.ipc.kernel.lists (.suspend (.sem i)) = []
  width : (s.ipc.sem i).value < 2 ^ 16

/-! ## Threads with a token -/

omit [RtConfig] in
theorem Tokens.congr (h : Tokens i s n) (hv : (s'.ipc.sem i).value = (s.ipc.sem i).value)
    (hg : ∀ t, Granted (.suspend (.sem i)) s' t ↔ Granted (.suspend (.sem i)) s t) : Tokens i s' n := by
  obtain ⟨P, hP, hc⟩ := h
  exact ⟨P, fun t => (hP t).trans (hg t).symm, by rw [hv, hc]⟩

omit [RtConfig] in
/-- A thread gets a token. -/
theorem Tokens.gain (h : Tokens i s n) (hu : ¬ Granted (.suspend (.sem i)) s u)
    (hu' : Granted (.suspend (.sem i)) s' u)
    (hg : ∀ t, t ≠ u → (Granted (.suspend (.sem i)) s' t ↔ Granted (.suspend (.sem i)) s t))
    (hn : (s'.ipc.sem i).value + 1 + n = n' + (s.ipc.sem i).value) : Tokens i s' n' := by
  obtain ⟨P, hP, hc⟩ := h
  have hnot : u ∉ P := fun hm => hu ((hP u).mp hm)
  refine ⟨insert u P, fun t => ?_, ?_⟩
  · rw [Finset.mem_insert]
    by_cases htu : t = u
    · subst htu
      exact iff_of_true (Or.inl rfl) hu'
    · rw [hg t htu, ← hP t]
      simp [htu]
  · rw [Finset.card_insert_of_notMem hnot]
    omega

omit [RtConfig] in
/-- A thread with a token leaves. -/
theorem Tokens.leave (h : Tokens i s n) (hu : Granted (.suspend (.sem i)) s u)
    (hu' : ¬ Granted (.suspend (.sem i)) s' u)
    (hg : ∀ t, t ≠ u → (Granted (.suspend (.sem i)) s' t ↔ Granted (.suspend (.sem i)) s t))
    (hv : (s'.ipc.sem i).value = (s.ipc.sem i).value) (hn : n' + 1 = n) : Tokens i s' n' := by
  obtain ⟨P, hP, hc⟩ := h
  have hm : u ∈ P := (hP u).mpr hu
  refine ⟨P.erase u, fun t => ?_, ?_⟩
  · rw [Finset.mem_erase]
    by_cases htu : t = u
    · subst htu
      exact iff_of_false (fun h => h.1 rfl) hu'
    · rw [hg t htu, ← hP t]
      simp [htu]
  · have h1 := Finset.card_erase_add_one hm
    omega

omit [RtConfig] in

omit [RtConfig] in
/-- A thread in the list of the semaphore is in `rt_sem_take`. -/
theorem semWaiter (h : (s.pc u).waitsOn = some (.suspend (.sem i))) :
    ∃ time, s.pc u = .wait (.semTake i time) := by
  cases hpc : s.pc u with
  | wait c =>
      rw [hpc] at h
      cases c with
      | semTake j time =>
          obtain rfl : j = i := by simpa [Pc.waitsOn, Call.waitsOn] using h
          exact ⟨time, rfl⟩
      | _ => simp [Pc.waitsOn, Call.waitsOn] at h
  | _ =>
      rw [hpc] at h
      simp [Pc.waitsOn] at h

/-- A waiting thread is woken with a token. -/
theorem Tokens.woken (h : Tokens i s n) (j : SysInv s)
    (hu : u ∈ s.ipc.kernel.lists (.suspend (.sem i)))
    (w : Woken s.ipc.kernel u (.suspend (.sem i)) (s.ipc.kernel.thread u).error k')
    (hk : s'.ipc.kernel = k') (hs : s'.ipc.sem = s.ipc.sem)
    (hp : ∀ v, Granted (.suspend (.sem i)) s v ∨ v = u → s'.pc v = s.pc v)
    (hp' : ∀ v, s'.pc v ≠ s.pc v → ¬ Granted (.suspend (.sem i)) s' v) : Tokens i s' (n + 1) := by
  have hwait : ListHead.IsWait (.suspend (.sem i)) := ⟨_, Or.inl rfl⟩
  have hw := j.wait.waits u _ hwait hu
  have herr := j.wait.error u _ hwait hu
  obtain ⟨time, hc⟩ := semWaiter hw
  have hmem : ∀ v, v ∈ s'.ipc.kernel.lists (.suspend (.sem i)) ↔
      v ∈ s.ipc.kernel.lists (.suspend (.sem i)) ∧ v ≠ u := fun v => by
    rw [hk]
    exact w.mem_iff j.wait.sched hwait hu
  have hnot : ¬ Granted (.suspend (.sem i)) s u := fun hg => ((granted_wait hc).1.mp hg).2.1 hu
  have hgr : Granted (.suspend (.sem i)) s' u := by
    refine (granted_wait ((hp u (Or.inr rfl)).trans hc)).1.mpr
      ⟨rfl, fun hm => ((hmem u).mp hm).2 rfl, ?_⟩
    rw [hk, w.self]
    exact herr
  refine h.gain hnot hgr (fun v hv => ?_) (by rw [hs]; omega)
  by_cases hpv : s'.pc v = s.pc v
  · refine (granted_congr hpv ((hmem v).trans (and_iff_left hv)) ?_).1
    rw [hk, w.thread v hv]
  · exact iff_of_false (hp' v hpv) fun hg => hpv (hp v (Or.inl hg))

/-! ## One step -/

/-- The tokens after a step, with those that came and those that left. -/
def Next (i : Nat) (s : Sys) (a : Action) (n n' : Nat) : Prop :=
  n' + (if takeReturns i s a then 1 else 0) = n + (if releasesSem i a then 1 else 0)

theorem frame_tokens (hs : s.Step a s') (j : SysInv s) (ha : s.actObj a ≠ some (.sem i))
    (h : Tokens i s n) (hv : SemValue i s) : (∃ n', Next i s a n n' ∧ Tokens i s' n') ∧
      SemValue i s' := by
  have f := Step.frame hs j ha
  have hvalue : s'.ipc.sem i = s.ipc.sem i := f.same
  have hlist := f.lists (.suspend (.sem i)) (Or.inl rfl)
  have hr : releasesSem i a = false := by
    by_contra hr
    refine ha ?_
    unfold releasesSem at hr
    split at hr <;> simp_all [Sys.actObj, Call.obj]
  have ht : takeReturns i s a = false := by
    by_contra ht
    refine ha ?_
    unfold takeReturns at ht
    split at ht
    · split at ht
      · simp_all [Sys.actObj, Pc.obj, Call.obj]
      · simp at ht
    · split at ht
      · simp_all [Sys.actObj, Call.obj]
      · simp at ht
    · simp at ht
  refine ⟨⟨n, by simp [Next, hr, ht], h.congr (by rw [hvalue]) fun t =>
    (f.granted (Or.inl rfl) t).1⟩, ?_⟩
  · refine ⟨fun h0 => ?_, by rw [hvalue]; exact hv.width⟩
    rw [hvalue] at h0
    rw [hlist]
    exact hv.idle h0

/-- `rt_sem_take` of a thread, up to its first `rt_schedule`. -/
theorem take_tokens {x : Section} {time : Int} (j : SysInv s) (hr : s.Runs t)
    (hidle : s.pc t = .idle) (hx : s.ipc.rtSemTake t i time = some x) (h : Tokens i s n)
    (hv : SemValue i s) : Tokens i ⟨x.ipc, Function.update s.pc t x.pc⟩ n ∧
      SemValue i ⟨x.ipc, Function.update s.pc t x.pc⟩ := by
  have hnot : ¬ Granted (.suspend (.sem i)) s t := (granted_idle hidle).1
  obtain ⟨hpos, rfl⟩ | ⟨-, -, rfl⟩ | ⟨h0, -, k', b, rfl⟩ :=
    rtSemTake_cases j.wait.sched hr.1 hr.2 hx
  · -- a token goes from the value to the thread
    refine ⟨h.gain hnot ?_ (fun v hv => (granted_other hv Iff.rfl rfl).1) ?_, fun _ => ?_, ?_⟩
    · exact (granted_ret (Function.update_self ..)).1.mpr ⟨rfl, rfl⟩
    · simp only [setSem_self]
      omega
    · exact hv.idle hpos
    · have hw := hv.width
      simp only [setSem_self]
      omega
  · refine ⟨h.congr rfl fun v => ?_, hv.idle, hv.width⟩
    by_cases hvt : v = t
    · subst hvt
      refine iff_of_false (fun hg => ?_) hnot
      have he := ((granted_ret (Function.update_self ..)).1.mp hg).2
      cases he
    · exact (granted_other hvt Iff.rfl rfl).1
  · refine ⟨h.congr rfl fun v => ?_, fun hpos => ?_, hv.width⟩
    · have hmem : ∀ v, v ∈ k'.lists (.suspend (.sem i)) ↔
          v ∈ s.ipc.kernel.lists (.suspend (.sem i)) ∨ v = t := fun v => by
        rw [b.mem_iff ⟨_, Or.inl rfl⟩]
        simp [setError]
      by_cases hvt : v = t
      · subst hvt
        refine iff_of_false (fun hg => ?_) hnot
        exact ((granted_wait (Function.update_self ..)).1.mp hg).2.1 ((hmem v).mpr (Or.inr rfl))
      · refine (granted_other hvt ((hmem v).trans (or_iff_left hvt)) ?_).1
        show (k'.thread v).error = _
        rw [b.thread v hvt, setError, modify_of_ne _ hvt]
    · exact absurd hpos (by dsimp only; rw [setKernel_sem]; omega)

/-- `rt_sem_release`, of a thread or an interrupt handler. -/
theorem release_tokens {x : Section} (pc' : ThreadId → Pc) (j : SysInv s)
    (hx : s.ipc.rtSemRelease i = some x)
    (hpc : ∀ v, pc' v = s.pc v ∨ s.pc v = .idle ∧ pc' v = .ret (.semRelease i) .ok .none)
    (ho : ¬ ((s.ipc.sem i).value = 2 ^ 16 - 1 ∧ s.ipc.kernel.lists (.suspend (.sem i)) = []))
    (h : Tokens i s n) (hv : SemValue i s) :
    Tokens i ⟨x.ipc, pc'⟩ (n + 1) ∧ SemValue i ⟨x.ipc, pc'⟩ := by
  -- the thread that releases has no token, before or after
  have hself : ∀ {q : Sys} {v}, q.pc = pc' → q.pc v ≠ s.pc v →
      ¬ Granted (.suspend (.sem i)) s v ∧ ¬ Granted (.suspend (.sem i)) q v := by
    intro q v hs' hne
    obtain ⟨h1, h2⟩ := (hpc v).resolve_left (by rw [← hs']; exact hne)
    refine ⟨(granted_idle h1).1, fun hg => ?_⟩
    have hw := ((granted_ret ((congrFun hs' v).trans h2)).1.mp hg).1
    cases hw
  have hsame : ∀ {v}, Granted (.suspend (.sem i)) s v ∨ s.pc v ≠ .idle → pc' v = s.pc v := by
    intro v hg
    refine (hpc v).resolve_right fun h2 => ?_
    rcases hg with hg | hg
    · exact (granted_idle h2.1).1 hg
    · exact hg h2.1
  obtain ⟨u, l, k', hl, w, rfl⟩ | ⟨hl, rfl⟩ := rtSemRelease_cases j.wait.sched hx
  · have hu : u ∈ s.ipc.kernel.lists (.suspend (.sem i)) := by
      rw [hl]
      exact List.mem_cons_self
    have hwait : s.pc u ≠ .idle := by
      obtain ⟨time, hp⟩ := semWaiter (j.wait.waits u _ ⟨_, Or.inl rfl⟩ hu)
      rw [hp]
      simp
    refine ⟨h.woken j hu w rfl rfl (fun v hg => ?_) fun v hne => (hself rfl hne).2, ?_⟩
    · rcases hg with hg | rfl
      · exact hsame (Or.inl hg)
      · exact hsame (Or.inr hwait)
    · -- a thread was waiting, so there was no token
      have h0 : (s.ipc.sem i).value = 0 := by
        by_contra hne
        have hnil := hv.idle (by omega)
        rw [hl] at hnil
        cases hnil
      exact ⟨fun hpos => absurd hpos (by simp [h0]), hv.width⟩
  · have hw := hv.width
    have hlt : (s.ipc.sem i).value + 1 < 2 ^ 16 := by
      by_contra hge
      exact ho ⟨by omega, hl⟩
    have hval : ((s.ipc.sem i).value + 1) % 2 ^ 16 = (s.ipc.sem i).value + 1 :=
      Nat.mod_eq_of_lt hlt
    refine ⟨?_, fun _ => hl, by simp only [setSem_self, hval]; exact hlt⟩
    obtain ⟨P, hP, hc⟩ := h
    refine ⟨P, fun v => ?_, by simp only [setSem_self, hval]; omega⟩
    rw [hP v]
    by_cases hpv : pc' v = s.pc v
    · exact (granted_congr (s := s) (q := ⟨s.ipc.setSem i _, pc'⟩) hpv Iff.rfl rfl).1.symm
    · obtain ⟨h1, h2⟩ := hself (q := ⟨s.ipc.setSem i _, pc'⟩) rfl hpv
      exact iff_of_false h1 h2

/-- `rt_sem_take` goes on after its `rt_schedule`: it returns the error field. -/
theorem resumed_tokens {x : Section} {time : Int} {delta : Nat} (j : SysInv s) (hr : s.Runs t)
    (hp : s.pc t = .wait (.semTake i time)) (hx : s.ipc.resumed t delta (.semTake i time) = some x)
    (h : Tokens i s n) : Tokens i ⟨x.ipc, Function.update s.pc t x.pc⟩ n := by
  obtain rfl := Option.some.inj hx
  refine h.congr rfl fun v => ?_
  by_cases hvt : v = t
  · subst hvt
    have hnot := j.wait.sched.running_not_mem (h := .suspend (.sem i)) hr.2
    rw [(granted_ret (Function.update_self ..)).1, (granted_wait hp).1]
    simp [hnot]
  · exact (granted_other hvt Iff.rfl rfl).1

/-- The timer of a thread expires: it leaves the list without a token. -/
theorem timeout_tokens (j : SysInv s) (ht : (s.ipc.kernel.thread t).timer = true)
    (hk : s.ipc.kernel.threadTimeout t = some k') (hp : (s.pc t).obj = some (.sem i))
    (h : Tokens i s n) (hv : SemValue i s) :
    Tokens i (s.setKernel k') n ∧ SemValue i (s.setKernel k') := by
  obtain ⟨l, hl, hm, hw, w⟩ := timeout_woken j ht hk
  obtain ⟨o, ho, hlo⟩ := Pc.ofObj_waitsOn hw
  obtain rfl : o = .sem i := Option.some.inj (ho.symm.trans hp)
  obtain rfl : l = .suspend (.sem i) := by
    cases hpc : s.pc t with
    | wait c =>
        rw [hpc] at hw hp
        cases c <;> simp_all [Pc.waitsOn, Call.waitsOn, Pc.obj, Call.obj]
    | _ =>
        rw [hpc] at hw
        simp [Pc.waitsOn] at hw
  obtain ⟨time, hpc⟩ := semWaiter hw
  have hmem : ∀ v, v ∈ k'.lists (.suspend (.sem i)) ↔
      v ∈ s.ipc.kernel.lists (.suspend (.sem i)) ∧ v ≠ t := fun v =>
    w.mem_iff j.wait.sched hl hm
  refine ⟨h.congr rfl fun v => ?_, fun hpos => ?_, hv.width⟩
  · by_cases hvt : v = t
    · subst hvt
      rw [(granted_wait hpc).1, (granted_wait (s := s.setKernel k') hpc).1]
      simp [hm, Sys.setKernel, w.self]
    · have hl := (hmem v).trans (and_iff_left hvt)
      refine (granted_congr (s := s) (q := s.setKernel k') rfl hl ?_).1
      show (k'.thread v).error = _
      rw [w.thread v hvt]
  · have hnil := hv.idle hpos
    rw [hnil] at hm
    cases hm

/-- **One step.** Releases bring a token each, and a take that returns RT_EOK takes one along. -/
theorem step_tokens (hs : s.Step a s') (j : SysInv s) (hreset : resetsSem i a = false)
    (ho : ¬ Overflow i s a) (h : Tokens i s n) (hv : SemValue i s) :
    (∃ n', Next i s a n n' ∧ Tokens i s' n') ∧ SemValue i s' := by
  by_cases ha : s.actObj a = some (.sem i)
  swap
  · exact frame_tokens hs j ha h hv
  obtain ⟨t, r, x, rfl, hr, hx, rfl⟩ | ⟨t, c, e, r, rfl, hr, hpc, rfl⟩ |
    ⟨c, t, x, rfl, hc, ht, hx, rfl⟩ | ⟨t, k', rfl, ht, hk, rfl⟩ | ⟨t, p, rfl, hp, rfl⟩ |
    ⟨k', rfl, hk, rfl⟩ := Step.cases hs
  · obtain ⟨c, rfl, hobj, hidle, hx⟩ | ⟨delta, c, rfl, hobj, hp, hx⟩ :=
      sect_cases_of_ne hx ha (by simp)
    · cases c with
      | semTake m time =>
          obtain rfl : m = i := Obj.sem.inj hobj
          obtain ⟨h1, h2⟩ := take_tokens j hr hidle hx h hv
          exact ⟨⟨n, by simp [Next, takeReturns, releasesSem], h1⟩, h2⟩
      | semRelease m =>
          obtain rfl : m = i := Obj.sem.inj hobj
          have hret : x.pc = .ret (.semRelease m) .ok .none := by
            obtain ⟨u, l, k', -, -, rfl⟩ | ⟨-, rfl⟩ := rtSemRelease_cases j.wait.sched hx <;> rfl
          have hpc' : ∀ v, Function.update s.pc t x.pc v = s.pc v ∨
              s.pc v = .idle ∧ Function.update s.pc t x.pc v = .ret (.semRelease m) .ok .none := by
            intro v
            by_cases hvt : v = t
            · rw [hvt, Function.update_self]
              exact Or.inr ⟨hidle, hret⟩
            · exact Or.inl (Function.update_of_ne hvt ..)
          obtain ⟨h1, h2⟩ := release_tokens _ j hx hpc'
            (fun h => ho ⟨by simp [releasesSem], h⟩) h hv
          exact ⟨⟨n + 1, by simp [Next, takeReturns, releasesSem], h1⟩, h2⟩
      | semReset m value =>
          obtain rfl : m = i := Obj.sem.inj hobj
          simp [resetsSem] at hreset
      | _ => simp [Call.obj] at hobj
    · cases c with
      | semTake m time =>
          obtain rfl : m = i := Obj.sem.inj hobj
          have hsame : x.ipc = s.ipc := by
            obtain rfl := Option.some.inj hx
            rfl
          refine ⟨⟨n, by simp [Next, takeReturns, releasesSem], resumed_tokens j hr hp hx h⟩, ?_⟩
          rw [hsame]
          exact ⟨hv.idle, hv.width⟩
      | semRelease | semReset => cases hx
      | _ => simp [Call.obj] at hobj
  · -- a call returns, with the token if there is one
    have hafter : ¬ Granted (.suspend (.sem i)) (s.move t .idle) t :=
      (granted_idle (Function.update_self ..)).1
    have hother : ∀ v, v ≠ t → (Granted (.suspend (.sem i)) (s.move t .idle) v ↔
        Granted (.suspend (.sem i)) s v) := fun v hvt => (granted_other hvt Iff.rfl rfl).1
    refine ⟨?_, hv.idle, hv.width⟩
    by_cases hg : Granted (.suspend (.sem i)) s t
    · have hret : takeReturns i s (.ret t) = true := by
        obtain ⟨hw, rfl⟩ := (granted_ret hpc).1.mp hg
        unfold takeReturns
        dsimp only
        rw [hpc]
        cases c <;> simp_all [Call.waitsOn]
      obtain ⟨P, hP, hc⟩ := id h
      have hpos : 0 < P.card := Finset.card_pos.mpr ⟨t, (hP t).mpr hg⟩
      refine ⟨n - 1, ?_, h.leave hg hafter hother rfl (by omega)⟩
      simp only [Next, hret, releasesSem, if_true]
      simp
      omega
    · have hret : takeReturns i s (.ret t) = false := by
        by_contra hret
        refine hg ?_
        unfold takeReturns at hret
        dsimp only at hret
        rw [hpc] at hret
        rw [(granted_ret hpc).1]
        cases c <;> cases e <;> simp_all [Call.waitsOn]
      refine ⟨n, by simp [Next, hret, releasesSem], h.congr rfl fun v => ?_⟩
      by_cases hvt : v = t
      · subst hvt
        exact iff_of_false hafter hg
      · exact hother v hvt
  · have hobj : c.obj = .sem i := Option.some.inj ha
    cases c with
    | semTake m time =>
        obtain rfl : m = i := Obj.sem.inj hobj
        obtain rfl : time = 0 := hc
        have hret : takeReturns m s (.isr (.semTake m 0)) =
            decide (x.pc = .ret (.semTake m 0) .ok .none) := by
          simp [takeReturns, ht, hx]
        simp only [call, rtSemTake, if_true] at hx
        split_ifs at hx with hpos
        · -- the token is gone at once
          obtain rfl := Option.some.inj hx
          have hw := hv.width
          refine ⟨⟨n - 1, ?_, ?_⟩, fun _ => hv.idle hpos, ?_⟩
          · obtain ⟨P, hP, hcard⟩ := h
            simp only [Next, hret, releasesSem]
            simp
            omega
          · obtain ⟨P, hP, hcard⟩ := h
            refine ⟨P, fun v => (hP v).trans
              (granted_congr (s := s) (q := ⟨_, s.pc⟩) rfl Iff.rfl rfl).1.symm, ?_⟩
            simp only [setSem_self]
            omega
          · simp only [setSem_self]
            omega
        · obtain rfl := Option.some.inj hx
          exact ⟨⟨n, by simp [Next, hret, releasesSem], h⟩, hv⟩
    | semRelease m =>
        obtain rfl : m = i := Obj.sem.inj hobj
        obtain ⟨h1, h2⟩ := release_tokens s.pc j hx (fun v => Or.inl rfl)
          (fun h => ho ⟨by simp [releasesSem], h⟩) h hv
        exact ⟨⟨n + 1, by simp [Next, takeReturns, releasesSem], h1⟩, h2⟩
    | semReset | mutexTake | mutexRelease | eventRecv | eventReset | mbReset | mqSend | mqUrgent |
      mqRecv | mqReset => exact absurd hc (by simp [Call.FromIsr])
    | _ => simp [Call.obj] at hobj
  · obtain ⟨h1, h2⟩ := timeout_tokens j ht hk ha h hv
    exact ⟨⟨n, by simp [Next, takeReturns, releasesSem], h1⟩, h2⟩
  · cases ha
  · cases ha

/-! ## Runs -/

/-- The tokens are conserved. -/
structure Conserved (i : Nat) (S : SemRun) : Prop where
  tokens : ∃ P : Finset ThreadId, (∀ t, t ∈ P ↔ Granted (.suspend (.sem i)) S.sys t) ∧
    (S.sys.ipc.sem i).value + (S.returned + P.card) = S.initial + S.releases
  idle : 0 < (S.sys.ipc.sem i).value → S.sys.ipc.kernel.lists (.suspend (.sem i)) = []
  width : (S.sys.ipc.sem i).value < 2 ^ 16

/-- A step of the run in which no release overflows. -/
def SemRun.Step (i : Nat) (S : SemRun) (a : Action) (S' : SemRun) : Prop :=
  S.exec i a = some S' ∧ ¬ Overflow i S.sys a

theorem SemRun.exec_cases (h : S.exec i a = some S') :
    resetsSem i a = false ∧ S.sys.Step a S'.sys ∧ S'.initial = S.initial ∧
      S'.releases = S.releases + (if releasesSem i a then 1 else 0) ∧
      S'.returned = S.returned + if takeReturns i S.sys a then 1 else 0 := by
  unfold SemRun.exec at h
  by_cases hr : resetsSem i a = true
  · rw [if_pos hr] at h
    cases h
  · rw [if_neg hr] at h
    obtain ⟨s', hs, rfl⟩ := Option.map_eq_some_iff.mp h
    exact ⟨by simpa using hr, hs, rfl, rfl, rfl⟩

omit [RtConfig] in
theorem conserved_iff : Conserved i S ↔
    (∃ n, Tokens i S.sys n ∧ n + S.returned = S.initial + S.releases) ∧ SemValue i S.sys := by
  constructor
  · rintro ⟨⟨P, hP, hc⟩, h1, h2⟩
    exact ⟨⟨_, ⟨P, hP, rfl⟩, by omega⟩, h1, h2⟩
  · rintro ⟨⟨n, ⟨P, hP, hc⟩, hn⟩, h1, h2⟩
    exact ⟨⟨P, hP, by omega⟩, h1, h2⟩

theorem SemRun.Init.conserved (h : S.Init i) : Conserved i S := by
  obtain ⟨h, h1, h2, h3⟩ := h
  refine ⟨⟨∅, fun t => ?_, ?_⟩, fun _ => h.wait _ ⟨_, Or.inl rfl⟩, h.sem i⟩
  · unfold Granted
    rw [h.idle t]
    simp
  · rw [h1, h2, h3, Finset.card_empty]

/-- A step without overflow conserves the tokens. -/
theorem SemRun.Step.conserved (h : S.Step i a S') (j : SysInv S.sys) (hc : Conserved i S) :
    Conserved i S' := by
  obtain ⟨hx, ho⟩ := h
  obtain ⟨hr, hs, h1, h2, h3⟩ := SemRun.exec_cases hx
  obtain ⟨⟨n, ht, hn⟩, hv⟩ := conserved_iff.mp hc
  obtain ⟨⟨n', hn', ht'⟩, hv'⟩ := step_tokens hs j hr ho ht hv
  refine conserved_iff.mpr ⟨⟨n', ht', ?_⟩, hv'⟩
  unfold Next at hn'
  rw [h1, h2, h3]
  omega

/-- A release that overflows loses all the tokens. -/
theorem overflow_loses (hx : S.exec i a = some S') (j : SysInv S.sys) (hc : Conserved i S)
    (ho : Overflow i S.sys a) : ¬ Conserved i S' := by
  obtain ⟨hrel, hfull, hnil⟩ := ho
  obtain ⟨-, hs, h1, h2, h3⟩ := SemRun.exec_cases hx
  obtain ⟨⟨n, ⟨P, hP, hcard⟩, hn⟩, -⟩ := conserved_iff.mp hc
  -- the release changes nothing but the value
  have hzero : ∀ {x : Section}, S.sys.ipc.rtSemRelease i = some x →
      x.ipc = S.sys.ipc.setSem i { S.sys.ipc.sem i with value := 0 } ∧
        x.pc = .ret (.semRelease i) .ok .none := by
    intro x hx
    obtain ⟨u, l, k', hl, -, -⟩ | ⟨-, rfl⟩ := rtSemRelease_cases j.wait.sched hx
    · rw [hnil] at hl
      cases hl
    · rw [hfull]
      exact ⟨rfl, rfl⟩
  have hafter : (S'.sys.ipc.sem i).value = 0 ∧ ∀ t,
      Granted (.suspend (.sem i)) S'.sys t ↔ Granted (.suspend (.sem i)) S.sys t := by
    obtain ⟨t, r, x, rfl, hr, hx', he⟩ | ⟨t, c, e, r, rfl, -⟩ | ⟨c, t, x, rfl, hcc, ht, hx', he⟩ |
      ⟨t, k', rfl, -⟩ | ⟨t, p, rfl, -⟩ | ⟨k', rfl, -⟩ := Step.cases hs <;>
      simp only [releasesSem, Bool.false_eq_true] at hrel
    · cases r with
      | call c =>
          cases c <;> simp only [Bool.false_eq_true] at hrel
          rename_i m
          obtain rfl : m = i := by simpa using hrel
          simp only [Sys.sect] at hx'
          split at hx'
          · rename_i hidle
            obtain ⟨h4, h5⟩ := hzero hx'
            rw [he]
            refine ⟨by rw [h4, setSem_self], fun v => ?_⟩
            by_cases hvt : v = t
            · subst hvt
              refine iff_of_false (fun hg => ?_) (granted_idle hidle).1
              have hw := ((granted_ret ((Function.update_self ..).trans h5)).1.mp hg).1
              cases hw
            · exact (granted_other hvt (by rw [h4]; rfl) (by rw [h4]; rfl)).1
          · cases hx'
      | _ => simp only [Bool.false_eq_true] at hrel
    · cases c <;> simp only [Bool.false_eq_true] at hrel
      rename_i m
      obtain rfl : m = i := by simpa using hrel
      obtain ⟨h4, -⟩ := hzero hx'
      rw [he]
      refine ⟨by rw [h4, setSem_self], fun v => ?_⟩
      exact (granted_congr (s := S.sys) (q := ⟨x.ipc, S.sys.pc⟩) rfl (by rw [h4]; rfl)
        (by rw [h4]; rfl)).1
  have hret : takeReturns i S.sys a = false := by
    unfold releasesSem at hrel
    split at hrel <;> simp_all [takeReturns]
  rintro ⟨⟨Q, hQ, hcard'⟩, -, -⟩
  have hPQ : P = Q := Finset.ext fun t => (hP t).trans ((hafter.2 t).symm.trans (hQ t).symm)
  rw [hafter.1, ← hPQ, h1, h2, h3, if_pos hrel, hret] at hcard'
  simp only [Bool.false_eq_true, if_false] at hcard'
  omega

theorem SemRun.reachable_sys (h : Reachable (SemRun.Init i) (SemRun.Step i) S) :
    Reachable Sys.Init Sys.Step S.sys := by
  induction h with
  | init h => exact .init h.1
  | step _ hs ih => exact ih.step (SemRun.exec_cases hs.1).2.1

/-- **Tokens are conserved** in every state of every run in which no release overflows, and from
there a step conserves them if and only if it is no such release. -/
theorem tokens_conserved (h : Reachable (SemRun.Init i) (SemRun.Step i) S) : Conserved i S ∧
    ∀ a S', S.exec i a = some S' → (Conserved i S' ↔ ¬ Overflow i S.sys a) := by
  have hc : Conserved i S := by
    refine h.invariant (I := Conserved i) (fun _ hi => hi.conserved) fun S a S' hr hc hs => ?_
    exact hs.conserved (sysInv_of_reachable (SemRun.reachable_sys hr)) hc
  have j := sysInv_of_reachable (SemRun.reachable_sys h)
  refine ⟨hc, fun a S' hx => ⟨fun hc' ho => overflow_loses hx j hc ho hc', fun ho => ?_⟩⟩
  exact SemRun.Step.conserved ⟨hx, ho⟩ j hc

end

/-! ## A semaphore that is full -/

attribute [local instance] config32

/-- Thread 1 runs, and semaphore 0 has an initial value. -/
def oneThread (value : Nat) : Option Sys :=
  startSys (fun _ => 10) [1] (fun _ => ⟨value, .fifo⟩) fun _ => .fifo

theorem oneThread_init {value : Nat} {s : Sys} (hv : value < 2 ^ 16)
    (h : oneThread value = some s) : SemRun.Init 0 ⟨s, (s.ipc.sem 0).value, 0, 0⟩ :=
  ⟨startSys_init (fun _ => by decide) (fun _ => hv) h, rfl, rfl, rfl⟩

/-- The thread releases the semaphore, whose initial value is 3. -/
theorem tokens_conserved_release : ∃ s S, oneThread 3 = some s ∧
    SemRun.exec 0 ⟨s, 3, 0, 0⟩ (.run 1 (.call (.semRelease 0))) = some S ∧ Conserved 0 S := by
  obtain ⟨s, hs⟩ : ∃ s, oneThread 3 = some s := ⟨_, rfl⟩
  have hi := oneThread_init (by decide) hs
  have hv : (s.ipc.sem 0).value = 3 := by
    obtain rfl := Option.some.inj hs
    rfl
  rw [hv] at hi
  obtain ⟨S, hS⟩ : ∃ S, SemRun.exec 0 ⟨s, 3, 0, 0⟩ (.run 1 (.call (.semRelease 0))) = some S := by
    obtain rfl := Option.some.inj hs
    exact ⟨_, rfl⟩
  refine ⟨s, S, hs, hS, ((tokens_conserved (.init hi)).2 _ S hS).mpr fun ho => ?_⟩
  have h1 := ho.2.1
  rw [hv] at h1
  simp at h1

/-- It releases the semaphore when the value is 65535. -/
theorem tokens_lost : ∃ s S, oneThread 65535 = some s ∧
    Reachable (SemRun.Init 0) (fun S a S' => S.exec 0 a = some S') S ∧
    SemRun.exec 0 ⟨s, 65535, 0, 0⟩ (.run 1 (.call (.semRelease 0))) = some S ∧
    ¬ Conserved 0 S := by
  obtain ⟨s, hs⟩ : ∃ s, oneThread 65535 = some s := ⟨_, rfl⟩
  have hi := oneThread_init (by decide) hs
  have hv : (s.ipc.sem 0).value = 65535 := by
    obtain rfl := Option.some.inj hs
    rfl
  rw [hv] at hi
  obtain ⟨S, hS⟩ : ∃ S, SemRun.exec 0 ⟨s, 65535, 0, 0⟩ (.run 1 (.call (.semRelease 0))) =
      some S := by
    obtain rfl := Option.some.inj hs
    exact ⟨_, rfl⟩
  refine ⟨s, S, hs, .step (.init hi) hS, hS, ?_⟩
  refine overflow_loses hS (sysInv_of_reachable (.init hi.1)) hi.conserved ⟨rfl, hv, ?_⟩
  exact hi.1.wait _ ⟨_, Or.inl rfl⟩

end RTThread.Ipc
