import RTThread.Ipc.Mailbox
import RTThread.Ipc.MsgQueue

set_option autoImplicit false

/-! # No lost wakeups

A send resumes one waiting receiver and a receive resumes one waiting sender. The resumed thread
has to look again when it runs, and until then another thread may take what it was resumed for. So
there are at least as many resumed threads as there is supply for the list, as long as a thread
waits in it (`Covered`). The supply is the number of messages for the receivers, and of free slots
or blocks for the senders.
-/

namespace RTThread.Ipc

open Kernel Trans Sll

/-- The thread was resumed from the list and has not run since. A timeout and a reset leave an
error in the thread, so it was resumed by a call that had something for it. -/
def Resumed (h : ListHead) (s : Sys) (t : ThreadId) : Prop :=
  (s.pc t).waitsOn = some h ∧ t ∉ s.ipc.kernel.lists h ∧ (s.ipc.kernel.thread t).error = .ok

/-- While a thread waits in the list, the supply is at most the number of resumed threads. -/
def Covered (h : ListHead) (s : Sys) (n : Nat) : Prop :=
  ∃ P : Finset ThreadId, (∀ t, t ∈ P ↔ Resumed h s t) ∧ (s.ipc.kernel.lists h ≠ [] → n ≤ P.card)

/-- The list from which a call resumes a thread when it has moved a message. -/
def Call.wakes : Call → Option ListHead
  | .mbSend i _ _ => some (.suspend (.mb i))
  | .mbRecv i _ => some (.suspendSender (.mb i))
  | .mqSend i _ _ | .mqUrgent i _ => some (.suspend (.mq i))
  | .mqRecv i _ _ => some (.suspendSender (.mq i))
  | _ => none

section

variable [RtConfig] {s s' q : Sys} {a : Action} {t v : ThreadId} {h h' : ListHead} {i n n' : Nat}
  {x : Section} {r : Run} {o : Obj} {k k' : Kernel}

/-! ## One step -/

/-- What a step does to a list with a supply of `n`, which is `n'` afterwards. A resumed thread
that runs is resumed no more; then either nothing is left for the others, or there is less. -/
inductive WakeStep (h : ListHead) (s : Sys) (a : Action) (s' : Sys) (n n' : Nat) : Prop
  | quiet (hr : ∀ v, Resumed h s' v ↔ Resumed h s v ∧ ∀ r, a ≠ .run v r)
      (hn : n' = 0 ∨ s'.ipc.kernel.lists h = [] ∨ s.ipc.kernel.lists h ≠ [] ∧ n' ≤ n ∧
        ∀ t r, a = .run t r → Resumed h s t → n' < n)
  | wakes {u : ThreadId} {l : List ThreadId} (hl : s.ipc.kernel.lists h = u :: l)
      (hr : ∀ v, Resumed h s' v ↔ Resumed h s v ∨ v = u) (hn : n' ≤ n + 1)
      (hp : ∃ c r, endPlace s s' a = some (.ret c .ok r) ∧ c.wakes = some h)

theorem WakeStep.covered (w : WakeStep h s a s' n n') (c : Covered h s n) : Covered h s' n' := by
  obtain ⟨P, hP, hc⟩ := c
  cases w with
  | quiet hr hn =>
      by_cases hrun : ∃ t r, a = .run t r ∧ Resumed h s t
      · obtain ⟨t, r, rfl, ht⟩ := hrun
        have htP : t ∈ P := (hP t).mpr ht
        refine ⟨P.erase t, fun v => ?_, fun hl => ?_⟩
        · rw [hr v, Finset.mem_erase, hP v, and_comm]
          refine and_congr_right fun _ => ⟨fun hv r' he => hv (Action.run.inj he).1.symm, ?_⟩
          rintro hv rfl
          exact hv r rfl
        · rcases hn with h0 | hnil | ⟨hl', -, hlt⟩
          · omega
          · exact absurd hnil hl
          · have h1 := hc hl'
            have h2 := hlt t r rfl ht
            rw [Finset.card_erase_of_mem htP]
            omega
      · refine ⟨P, fun v => ?_, fun hl => ?_⟩
        · rw [hP v, hr v]
          refine (and_iff_left_of_imp fun hv r he => hrun ⟨v, r, he, hv⟩).symm
        · rcases hn with h0 | hnil | ⟨hl', hle, -⟩
          · omega
          · exact absurd hnil hl
          · exact hle.trans (hc hl')
  | @wakes u l hl hr hn hp =>
      have huP : u ∉ P := fun hu => ((hP u).mp hu).2.1 (by rw [hl]; exact List.mem_cons_self)
      refine ⟨insert u P, fun v => ?_, fun _ => ?_⟩
      · rw [Finset.mem_insert, hP v, hr v, or_comm]
      · have h1 := hc (by rw [hl]; simp)
        rw [Finset.card_insert_of_notMem huP]
        omega

/-- **Only a call that has moved a message resumes a thread**, and it resumes the first one. -/
theorem WakeStep.resumed (w : WakeStep h s a s' n n') (hv : Resumed h s' v)
    (hn : ¬ Resumed h s v) : (s.ipc.kernel.lists h).head? = some v ∧
      ∃ c r, endPlace s s' a = some (.ret c .ok r) ∧ c.wakes = some h := by
  cases w with
  | quiet hr _ => exact absurd ((hr v).mp hv).1 hn
  | wakes hl hr _ hp =>
      obtain rfl := ((hr v).mp hv).resolve_left hn
      rw [hl]
      exact ⟨rfl, hp⟩

/-! ## What the sections do to the resumed threads -/

omit [RtConfig] in
theorem resumed_congr (hp : q.pc v = s.pc v)
    (hl : v ∈ q.ipc.kernel.lists h ↔ v ∈ s.ipc.kernel.lists h)
    (he : (q.ipc.kernel.thread v).error = (s.ipc.kernel.thread v).error) :
    Resumed h q v ↔ Resumed h s v := by
  unfold Resumed
  rw [hp, hl, he]

omit [RtConfig] in
theorem resumed_obj (hh : h.ofObj o) (hr : Resumed h s t) : (s.pc t).obj = some o := by
  obtain ⟨o', ho', hh'⟩ := Pc.ofObj_waitsOn hr.1
  rw [ho', ofObj_unique hh' hh]

/-- The other threads are as before: they are in the list or not, and have the same error. -/
def Others (h : ListHead) (t : ThreadId) (k k' : Kernel) : Prop :=
  ∀ v, v ≠ t → (v ∈ k'.lists h ↔ v ∈ k.lists h) ∧ (k'.thread v).error = (k.thread v).error

omit [RtConfig] in
theorem Others.refl : Others h t k k := fun _ _ => ⟨Iff.rfl, rfl⟩

omit [RtConfig] in
theorem Others.trans {k₁ k₂ k₃ : Kernel} (h1 : Others h t k₁ k₂) (h2 : Others h t k₂ k₃) :
    Others h t k₁ k₃ := fun v hv =>
  ⟨(h2 v hv).1.trans (h1 v hv).1, (h2 v hv).2.trans (h1 v hv).2⟩

omit [RtConfig] in
theorem Others.setError (e : Err) : Others h t k (k.setError t e) := fun v hv =>
  ⟨Iff.rfl, by rw [setError_of_ne hv]⟩

theorem Others.block {flag : Flag} {time : Int} (hh : h.IsWait) (b : Blocked k h' t flag time k') :
    Others h t k k' := by
  intro v hv
  rw [b.thread v hv, b.mem_iff hh]
  exact ⟨or_iff_left fun he => hv he.1, rfl⟩

/-- A thread is woken in another list. -/
theorem Others.wakesFirst {b : Bool} (hh : h.IsWait) (hne : h ≠ h') (w : WakesFirst k h' k' b) :
    Others h t k k' ∧ k'.lists h = k.lists h := by
  cases w with
  | none _ => exact ⟨.refl, rfl⟩
  | first hl w =>
      have hsame := w.wait h hh hne
      exact ⟨fun v _ => ⟨by rw [hsame], w.error (Or.inr rfl)⟩, hsame⟩

/-- A section of a thread that resumes nobody: it leaves the list alone, or the thread enters it
when there is no supply. -/
theorem WakeStep.run (ho : Others h t s.ipc.kernel x.ipc.kernel)
    (hw : x.pc.waitsOn ≠ some h ∨ t ∈ x.ipc.kernel.lists h)
    (hn : n' = 0 ∨ x.ipc.kernel.lists h = s.ipc.kernel.lists h ∧ n' ≤ n ∧
      (Resumed h s t → n' < n)) :
    WakeStep h s (.run t r) ⟨x.ipc, Function.update s.pc t x.pc⟩ n n' := by
  refine .quiet (fun v => ?_) ?_
  · by_cases hv : v = t
    · subst hv
      refine iff_of_false (fun hr => ?_) fun hr => hr.2 r rfl
      obtain ⟨h1, h2, -⟩ := hr
      dsimp only at h1
      rw [Function.update_self] at h1
      exact hw.elim (fun hw => hw h1) h2
    · have hrun : ∀ r', Action.run t r ≠ .run v r' := fun r' he => hv (Action.run.inj he).1.symm
      rw [and_iff_left hrun]
      exact resumed_congr (Function.update_of_ne hv ..) (ho v hv).1 (ho v hv).2
  · rcases hn with h0 | ⟨hl, hle, hlt⟩
    · exact Or.inl h0
    · by_cases hnil : x.ipc.kernel.lists h = []
      · exact Or.inr (Or.inl hnil)
      · refine Or.inr (Or.inr ⟨fun h1 => hnil (hl.trans h1), hle, fun t' r' he hr => ?_⟩)
        obtain ⟨rfl, -⟩ := Action.run.inj he
        exact hlt hr

/-- A section that resumes the first thread, if there is one: of a thread that does not wait in the
list, or of an interrupt handler. -/
theorem WakeStep.wakesFirst {b : Bool} (j : SysInv s) (hh : h.IsWait)
    (w : WakesFirst s.ipc.kernel h k' b) (hq : q.ipc.kernel = k')
    (hpc : ∀ v, q.pc v = s.pc v ∨ (q.pc v).waitsOn ≠ some h ∧ (s.pc v).waitsOn ≠ some h)
    (hrun : ∀ v r, a = .run v r → (s.pc v).waitsOn ≠ some h) (hn : n' ≤ n + 1)
    (hp : ∃ c r, endPlace s q a = some (.ret c .ok r) ∧ c.wakes = some h) :
    WakeStep h s a q n n' := by
  -- a thread that has moved is not resumed, neither before nor after
  have hmove : ∀ {v}, (q.pc v).waitsOn ≠ some h ∧ (s.pc v).waitsOn ≠ some h →
      (Resumed h q v ↔ Resumed h s v) := fun hv =>
    iff_of_false (fun hr => hv.1 hr.1) fun hr => hv.2 hr.1
  cases w with
  | none hl =>
      refine .quiet (fun v => ?_) (Or.inr (Or.inl (by rw [hq]; exact hl)))
      rw [and_iff_left_of_imp fun hv r he => absurd hv.1 (hrun v r he)]
      rcases hpc v with hv | hv
      · exact resumed_congr hv (by rw [hq]) (by rw [hq])
      · exact hmove hv
  | @first _ u l hl w =>
      have hu : u ∈ s.ipc.kernel.lists h := by
        rw [hl]
        exact List.mem_cons_self
      have hwait := j.wait.waits u h hh hu
      refine .wakes hl (fun v => ?_) hn hp
      have hmem : v ∈ q.ipc.kernel.lists h ↔ v ∈ s.ipc.kernel.lists h ∧ v ≠ u := by
        rw [hq]
        exact w.mem_iff j.wait.sched hh hu
      by_cases hvu : v = u
      · subst hvu
        have hsame := (hpc v).resolve_right fun hv => hv.2 hwait
        refine iff_of_true ⟨by rw [hsame, hwait], fun hm => (hmem.mp hm).2 rfl, ?_⟩ (Or.inr rfl)
        rw [hq, w.error (Or.inr rfl)]
        exact j.wait.error v h hh hu
      · rw [or_iff_left hvu]
        rcases hpc v with hv | hv
        · refine resumed_congr hv ?_ ?_
          · rw [hmem, and_iff_left hvu]
          · rw [hq, w.thread v hvu]
        · exact hmove hv

/-- A step that is not about the object of the list. -/
theorem WakeStep.frame (hs : s.Step a s') (j : SysInv s) (hh : h.ofObj o)
    (ha : s.actObj a ≠ some o) : WakeStep h s a s' n n := by
  have f := Step.frame hs j ha
  have hrun : ∀ v r, a = .run v r → ¬ Resumed h s v := by
    rintro v r rfl hr
    obtain ⟨t, r', x, he, -, hx, -⟩ | ⟨_, _, _, _, he, -⟩ | ⟨_, _, _, he, -⟩ | ⟨_, _, he, -⟩ |
      ⟨_, _, he, -⟩ | ⟨_, he, -⟩ := Step.cases hs
    · obtain ⟨rfl, rfl⟩ := Action.run.inj he
      obtain ⟨c, rfl, hp, -⟩ | ⟨delta, c, rfl, hp, -⟩ | ⟨c, msg, m, rfl, hp, -⟩ |
        ⟨c, msg, r', m, rfl, hp, -⟩ := sect_cases hx
      · have h1 := hr.1
        rw [hp] at h1
        cases h1
      all_goals exact ha (resumed_obj hh hr)
    all_goals cases he
  refine .quiet (fun v => ?_) ?_
  · rw [and_iff_left_of_imp fun hv r he => absurd hv (hrun v r he)]
    by_cases hv : (s.pc v).obj = some o
    · exact resumed_congr (f.pc v (Or.inl hv)) (by rw [f.lists h hh]) (f.thread v hv).1
    · refine iff_of_false (fun hr => ?_) fun hr => hv (resumed_obj hh hr)
      have h1 := resumed_obj hh hr
      exact hv (f.pc v (Or.inr h1) ▸ h1)
  · by_cases hnil : s'.ipc.kernel.lists h = []
    · exact Or.inr (Or.inl hnil)
    · refine Or.inr (Or.inr ⟨fun h1 => hnil ((f.lists h hh).trans h1), le_rfl, fun t r he hr => ?_⟩)
      exact absurd hr (hrun t r he)

/-- The timer of a thread expires. -/
theorem WakeStep.timeout (j : SysInv s) (hh : h.IsWait)
    (ht : (s.ipc.kernel.thread t).timer = true) (hk : s.ipc.kernel.threadTimeout t = some k') :
    WakeStep h s (.timeout t) (s.setKernel k') n n := by
  obtain ⟨l, hl, hm, hw, w⟩ := timeout_woken j ht hk
  have hmem : ∀ v, v ∈ k'.lists h ↔ v ∈ s.ipc.kernel.lists h ∧ v ≠ t := fun v =>
    w.mem_iff j.wait.sched hh hm
  refine .quiet (fun v => ?_) ?_
  · rw [and_iff_left (by simp)]
    by_cases hv : v = t
    · subst hv
      refine iff_of_false (fun hr => ?_) fun hr => ?_
      · have h1 : (k'.thread v).error = .ok := hr.2.2
        rw [w.self] at h1
        cases h1
      · have h1 := hr.1
        rw [hw] at h1
        exact hr.2.1 (Option.some.inj h1 ▸ hm)
    · refine resumed_congr rfl ((hmem v).trans (and_iff_left hv)) ?_
      show (k'.thread v).error = _
      rw [w.thread v hv]
  · by_cases hnil : k'.lists h = []
    · exact Or.inr (Or.inl hnil)
    · obtain ⟨v, hv⟩ := List.exists_mem_of_ne_nil _ hnil
      have h1 : s.ipc.kernel.lists h ≠ [] := List.ne_nil_of_mem ((hmem v).mp hv).1
      exact Or.inr (Or.inr ⟨h1, le_rfl, fun _ _ he => by cases he⟩)

/-- A reset empties both lists of an object. -/
theorem WakeStep.reset (j : SysInv s) (hh : h.ofObj o) (hidle : s.pc t = .idle)
    (hx : x.ipc.kernel = rtIpcListResumeAll (rtIpcListResumeAll s.ipc.kernel (.suspend o))
      (.suspendSender o)) (hp : x.pc.waitsOn = none) :
    WakeStep h s (.run t r) ⟨x.ipc, Function.update s.pc t x.pc⟩ n n' := by
  have hw1 : (ListHead.suspend o).IsWait := ⟨o, Or.inl rfl⟩
  have hw2 : (ListHead.suspendSender o).IsWait := ⟨o, Or.inr rfl⟩
  have r1 := resumedAll j.wait hw1
  have j' := (Prims.resumeAll (t := t) j.wait (o := o) (h := .suspend o) (Or.inl rfl)).1.waitInv
    j.wait
  have r2 := resumedAll j' hw2
  rw [← hx] at r2
  have hnil : x.ipc.kernel.lists h = [] := by
    rcases hh with rfl | rfl
    · exact (r2.wait _ hw1 (by simp)).trans r1.list
    · exact r2.list
  have hsender : ∀ v, v ∈ (rtIpcListResumeAll s.ipc.kernel (.suspend o)).lists
      (.suspendSender o) ↔ v ∈ s.ipc.kernel.lists (.suspendSender o) := fun v => by
    rw [r1.wait _ hw2 (by simp)]
  -- the threads that were linked have an error now
  have hlinked : ∀ {v}, v ∈ s.ipc.kernel.lists h → (x.ipc.kernel.thread v).error = .error := by
    intro v hv
    by_cases hv2 : v ∈ s.ipc.kernel.lists (.suspendSender o)
    · exact r2.error v ((hsender v).mpr hv2)
    · rw [r2.thread v fun hm => hv2 ((hsender v).mp hm)]
      rcases hh with rfl | rfl
      · exact r1.error v hv
      · exact absurd hv hv2
  have hfree : ∀ {v}, (s.pc v).waitsOn = some h → v ∉ s.ipc.kernel.lists h →
      x.ipc.kernel.thread v = s.ipc.kernel.thread v := by
    intro v hv hnot
    have hne : ∀ {l : ListHead}, l.IsWait → v ∉ s.ipc.kernel.lists l := by
      intro l hl hm
      have h1 := j.wait.waits v l hl hm
      rw [hv] at h1
      exact hnot (Option.some.inj h1 ▸ hm)
    rw [r2.thread v fun hm => hne hw2 ((hsender v).mp hm), r1.thread v (hne hw1)]
  refine .quiet (fun v => ?_) (Or.inr (Or.inl hnil))
  by_cases hv : v = t
  · subst hv
    refine iff_of_false (fun hr => ?_) fun hr => hr.2 r rfl
    have h1 := hr.1
    dsimp only at h1
    rw [Function.update_self, hp] at h1
    cases h1
  · have hrun : ∀ r', Action.run t r ≠ .run v r' := fun r' he => hv (Action.run.inj he).1.symm
    rw [and_iff_left hrun]
    unfold Resumed
    dsimp only
    rw [Function.update_of_ne hv]
    refine and_congr_right fun hw => ?_
    by_cases hm : v ∈ s.ipc.kernel.lists h
    · refine iff_of_false (fun hr => ?_) fun hr => hr.1 hm
      rw [hlinked hm] at hr
      cases hr.2
    · rw [hfree hw hm, hnil]
      simp [hm]

/-- A section of a thread that resumes the first thread of the list. -/
theorem WakeStep.runWakes {b : Bool} {c : Call} {r' : Reply} (j : SysInv s) (hh : h.IsWait)
    (hpt : (s.pc t).waitsOn ≠ some h) (hp : x.pc = .ret c .ok r') (hc : c.wakes = some h)
    (w : WakesFirst s.ipc.kernel h x.ipc.kernel b) (hn : n' ≤ n + 1) :
    WakeStep h s (.run t r) ⟨x.ipc, Function.update s.pc t x.pc⟩ n n' := by
  refine .wakesFirst j hh w rfl (fun v => ?_) (fun v r he => ?_) hn ⟨c, r', ?_, hc⟩
  · by_cases hv : v = t
    · subst hv
      refine Or.inr ⟨?_, hpt⟩
      dsimp only
      rw [Function.update_self, hp]
      simp [Pc.waitsOn]
    · exact Or.inl (Function.update_of_ne hv ..)
  · obtain ⟨rfl, -⟩ := Action.run.inj he
    exact hpt
  · rw [← hp]
    simp [endPlace]

/-! ## The loops of the calls -/

/-- How the loop of a call ends. It needs supply `nb` from the threads that may wait in `hb` with
it, and its result is supply `nw` for those that wait in `hw`. -/
inductive LoopEnd (hb hw : ListHead) (t : ThreadId) (k : Kernel) (x : Section)
    (nb nb' nw nw' : Nat) : Prop
  | stuck (hn : nb' = 0 ∧ nw' ≤ nw) (hp : x.pc.waitsOn = none)
      (ho : ∀ v, v ≠ t → x.ipc.kernel.thread v = k.thread v) (hl : x.ipc.kernel.lists = k.lists)
  | blocks {flag : Flag} {time : Int} (hn : nb' = 0 ∧ nw' ≤ nw) (hp : x.pc.waitsOn = some hb)
      (b : Blocked (k.setError t .ok) hb t flag time x.ipc.kernel)
  | moves {b : Bool} {c : Call} {r : Reply} (hn : nb' < nb ∧ nw' ≤ nw + 1)
      (hp : x.pc = .ret c .ok r) (hc : c.wakes = some hw) (w : WakesFirst k hw x.ipc.kernel b)
  | takes (hn : nb' < nb ∧ nw' ≤ nw) (hp : x.pc.waitsOn = none) (hk : x.ipc.kernel = k)

section

variable {hb hw : ListHead} {nb nb' nw nw' : Nat}

/-- For the list in which the thread may wait. -/
theorem LoopEnd.blockSide (e : LoopEnd hb hw t s.ipc.kernel x nb nb' nw nw') (h1 : hb.IsWait)
    (hne : hb ≠ hw) : WakeStep hb s (.run t r) ⟨x.ipc, Function.update s.pc t x.pc⟩ nb nb' := by
  cases e with
  | stuck hn hp ho hl =>
      refine .run (fun v hv => ⟨by rw [hl], by rw [ho v hv]⟩) (Or.inl ?_) (Or.inl hn.1)
      rw [hp]
      simp
  | blocks hn hp b =>
      refine .run ((Others.setError .ok).trans (.block h1 b)) (Or.inr ?_) (Or.inl hn.1)
      exact (b.mem_iff h1).mpr (Or.inr ⟨rfl, rfl⟩)
  | moves hn hp hc w =>
      obtain ⟨ho, hl⟩ := Others.wakesFirst (t := t) h1 hne w
      refine .run ho (Or.inl ?_) (Or.inr ⟨hl, hn.1.le, fun _ => hn.1⟩)
      rw [hp]
      simp [Pc.waitsOn]
  | takes hn hp hk =>
      refine .run (by rw [hk]; exact .refl) (Or.inl ?_)
        (Or.inr ⟨by rw [hk], hn.1.le, fun _ => hn.1⟩)
      rw [hp]
      simp

/-- For the list from which the thread resumes another. -/
theorem LoopEnd.wakeSide (e : LoopEnd hb hw t s.ipc.kernel x nb nb' nw nw') (j : SysInv s)
    (h2 : hw.IsWait) (hne : hb ≠ hw) (hpt : (s.pc t).waitsOn ≠ some hw) :
    WakeStep hw s (.run t r) ⟨x.ipc, Function.update s.pc t x.pc⟩ nw nw' := by
  have hnot : Resumed hw s t → nw' < nw := fun hr => absurd hr.1 hpt
  cases e with
  | stuck hn hp ho hl =>
      refine .run (fun v hv => ⟨by rw [hl], by rw [ho v hv]⟩) (Or.inl ?_)
        (Or.inr ⟨by rw [hl], hn.2, hnot⟩)
      rw [hp]
      simp
  | blocks hn hp b =>
      refine .run ((Others.setError .ok).trans (.block h2 b)) (Or.inl ?_)
        (Or.inr ⟨b.wait hw h2 hne.symm, hn.2, hnot⟩)
      rw [hp]
      exact fun he => hne (Option.some.inj he)
  | moves hn hp hc w => exact .runWakes j h2 hpt hp hc w hn.2
  | takes hn hp hk =>
      refine .run (by rw [hk]; exact .refl) (Or.inl ?_) (Or.inr ⟨by rw [hk], hn.2, hnot⟩)
      rw [hp]
      simp

end

/-- A section that changes no list and no thread, of a thread that is not resumed. -/
theorem WakeStep.nothing (ht : ¬ Resumed h s t) (hk : x.ipc.kernel = s.ipc.kernel)
    (hp : x.pc.waitsOn = none) (hn : n' ≤ n) :
    WakeStep h s (.run t r) ⟨x.ipc, Function.update s.pc t x.pc⟩ n n' := by
  refine .run (by rw [hk]; exact .refl) (Or.inl ?_)
    (Or.inr ⟨by rw [hk], hn, fun hr => absurd hr ht⟩)
  rw [hp]
  simp

omit [RtConfig] in
theorem not_resumed_idle (hp : s.pc t = .idle) : ¬ Resumed h s t := by
  intro hr
  have h1 := hr.1
  rw [hp] at h1
  cases h1

/-- A call of an interrupt handler that resumes nobody from the list. -/
theorem WakeStep.isr {c : Call} (hq : q.pc = s.pc) (hl : q.ipc.kernel.lists h = s.ipc.kernel.lists h)
    (he : ∀ v, (q.ipc.kernel.thread v).error = (s.ipc.kernel.thread v).error) (hn : n' ≤ n) :
    WakeStep h s (.isr c) q n n' := by
  refine .quiet (fun v => ?_) ?_
  · rw [and_iff_left (by simp)]
    exact resumed_congr (by rw [hq]) (by rw [hl]) (he v)
  · by_cases hnil : q.ipc.kernel.lists h = []
    · exact Or.inr (Or.inl hnil)
    · exact Or.inr (Or.inr ⟨fun h1 => hnil (hl.trans h1), hn, fun _ _ he => by cases he⟩)

/-- A call that returns. -/
theorem WakeStep.ret {c : Call} {e : Err} {r : Reply} (hp : s.pc t = .ret c e r) :
    WakeStep h s (.ret t) (s.move t .idle) n n := by
  refine .quiet (fun v => ?_) ?_
  · rw [and_iff_left (by simp)]
    by_cases hv : v = t
    · subst hv
      refine iff_of_false (not_resumed_idle (Function.update_self ..)) fun hr => ?_
      have h1 := hr.1
      rw [hp] at h1
      cases h1
    · exact resumed_congr (Function.update_of_ne hv ..) Iff.rfl rfl
  · by_cases hnil : s.ipc.kernel.lists h = []
    · exact Or.inr (Or.inl hnil)
    · exact Or.inr (Or.inr ⟨hnil, le_rfl, fun _ _ he => by cases he⟩)

/-! ## Mailboxes -/

/-- The counter of a mailbox is in its bounds. -/
structure MbBound (mb : Mailbox) : Prop where
  entry : mb.entry ≤ mb.size
  size : mb.size < 2 ^ 16

/-- Free places in a mailbox. -/
def freeSlots (mb : Mailbox) : Nat := mb.size - mb.entry

section

variable {value : BitVec 32} {timeout : Int} {c : Call} {mb mb' : Mailbox} {p : Pc}

omit [RtConfig] in
theorem MailSection.bound (m : MailSection i mb p mb') (b : MbBound mb) : MbBound mb' := by
  obtain ⟨h1, h2⟩ := b
  cases m with
  | wait | fail => exact ⟨h1, h2⟩
  | send he =>
      refine ⟨?_, h2⟩
      show (mb.entry + 1) % 2 ^ 16 ≤ mb.size
      omega
  | recv he =>
      refine ⟨?_, h2⟩
      show mb.entry - 1 ≤ mb.size
      omega
  | reset => exact ⟨Nat.zero_le _, h2⟩

theorem mbSendLoop_end (j : SysInv s) (hr : s.Runs t) (b : MbBound (s.ipc.mb i))
    (hx : s.ipc.mbSendLoop t i value timeout = some x) :
    LoopEnd (.suspendSender (.mb i)) (.suspend (.mb i)) t s.ipc.kernel x
      (freeSlots (s.ipc.mb i)) (freeSlots (x.ipc.mb i)) (s.ipc.mb i).entry (x.ipc.mb i).entry := by
  obtain ⟨h1, h2⟩ := b
  obtain ⟨he, -, rfl⟩ | ⟨he, -, k', b, rfl⟩ | ⟨he, k', b, w, rfl⟩ :=
    mbSendLoop_cases j.wait.sched hr.1 hr.2 hx
  · refine .stuck ⟨?_, le_rfl⟩ rfl (fun v hv => setError_of_ne hv) rfl
    show (s.ipc.mb i).size - (s.ipc.mb i).entry = 0
    omega
  · refine .blocks ⟨?_, le_rfl⟩ rfl b
    show (s.ipc.mb i).size - (s.ipc.mb i).entry = 0
    omega
  · refine .moves (c := .mbSend i value timeout) ?_ rfl rfl w
    unfold freeSlots
    simp only [setKernel_mb, setMb_self]
    omega

theorem mbRecvLoop_end (j : SysInv s) (hr : s.Runs t)
    (hx : s.ipc.mbRecvLoop t i timeout = some x) :
    LoopEnd (.suspend (.mb i)) (.suspendSender (.mb i)) t s.ipc.kernel x (s.ipc.mb i).entry
      (x.ipc.mb i).entry (freeSlots (s.ipc.mb i)) (freeSlots (x.ipc.mb i)) := by
  obtain ⟨he, -, rfl⟩ | ⟨he, -, k', b, rfl⟩ | ⟨he, k', b, w, rfl⟩ :=
    mbRecvLoop_cases j.wait.sched hr.1 hr.2 hx
  · exact .stuck ⟨he, le_rfl⟩ rfl (fun v hv => (setError_of_ne hv).trans (setError_of_ne hv)) rfl
  · exact .blocks ⟨he, le_rfl⟩ rfl b
  · refine .moves (c := .mbRecv i timeout) ?_ rfl rfl w
    unfold freeSlots
    simp only [setKernel_mb, setMb_self]
    omega

/-- What a step does to both lists of an object. -/
def WakeSteps (o : Obj) (s : Sys) (a : Action) (s' : Sys) (n n' m m' : Nat) : Prop :=
  WakeStep (.suspend o) s a s' n n' ∧ WakeStep (.suspendSender o) s a s' m m'

/-- A section that changes nothing. -/
theorem WakeSteps.same {m : Nat} {p : Pc} (ht : ∀ h, ¬ Resumed h s t) (hp : p.waitsOn = none) :
    WakeSteps o s (.run t r) ⟨s.ipc, Function.update s.pc t p⟩ n n m m :=
  ⟨.nothing (x := ⟨s.ipc, p, false⟩) (ht _) rfl hp le_rfl,
    .nothing (x := ⟨s.ipc, p, false⟩) (ht _) rfl hp le_rfl⟩

omit [RtConfig] in
theorem Call.waitsOn_ne_wakes {c : Call} (hw : c.wakes = some h) : c.waitsOn ≠ some h := by
  cases c <;> simp_all [Call.waitsOn, Call.wakes] <;> rintro rfl <;> cases hw

theorem mb_isr (j : SysInv s) (b : MbBound (s.ipc.mb i)) (hc : c.FromIsr) (ho : c.obj = .mb i)
    (ht : s.ipc.kernel.current = some t) (hx : s.ipc.call t c = some x) :
    WakeSteps (.mb i) s (.isr c) { s with ipc := x.ipc } (s.ipc.mb i).entry (x.ipc.mb i).entry
      (freeSlots (s.ipc.mb i)) (freeSlots (x.ipc.mb i)) := by
  obtain ⟨h1, h2⟩ := b
  have hw1 : (ListHead.suspend (.mb i)).IsWait := ⟨_, Or.inl rfl⟩
  have hw2 : (ListHead.suspendSender (.mb i)).IsWait := ⟨_, Or.inr rfl⟩
  have hend : endPlace s { s with ipc := x.ipc } (.isr c) = some x.pc := by simp [endPlace, ht, hx]
  have hsame : ∀ {h : ListHead} {k' : Kernel} {b : Bool}, WakesFirst s.ipc.kernel h k' b →
      ∀ v, (k'.thread v).error = (s.ipc.kernel.thread v).error := by
    intro h k' b w v
    cases w with
    | none _ => rfl
    | first _ w => exact w.error (Or.inr rfl)
  cases c with
  | mbSend m value timeout =>
      obtain rfl : m = i := Obj.mb.inj ho
      obtain rfl : timeout = 0 := hc
      simp only [call, rtMbSendWait, and_true] at hx
      split_ifs at hx with he
      · obtain rfl := Option.some.inj hx
        exact ⟨.isr rfl rfl (fun _ => rfl) le_rfl, .isr rfl rfl (fun _ => rfl) le_rfl⟩
      · simp only [mbSendLoop, if_neg he] at hx
        obtain ⟨k', b, w, rfl⟩ := resumeFirst_cases (by exact j.wait.sched) hw1 hx
        refine ⟨.wakesFirst j hw1 w rfl (fun v => Or.inl rfl) (by simp) ?_ ⟨_, _, hend, rfl⟩,
          .isr rfl (Others.wakesFirst (t := 0) hw2 (by simp) w).2 (hsame w) ?_⟩
        · simp only [setKernel_mb, setMb_self]
          omega
        · unfold freeSlots
          simp only [setKernel_mb, setMb_self]
          omega
  | mbRecv m timeout =>
      obtain rfl : m = i := Obj.mb.inj ho
      obtain rfl : timeout = 0 := hc
      simp only [call, rtMbRecv, and_true] at hx
      split_ifs at hx with he
      · obtain rfl := Option.some.inj hx
        exact ⟨.isr rfl rfl (fun _ => rfl) le_rfl, .isr rfl rfl (fun _ => rfl) le_rfl⟩
      · simp only [mbRecvLoop, if_neg he] at hx
        obtain ⟨k', b, w, rfl⟩ := resumeFirst_cases (by exact j.wait.sched) hw2 hx
        refine ⟨.isr rfl (Others.wakesFirst (t := 0) hw1 (by simp) w).2 (hsame w) ?_,
          .wakesFirst j hw2 w rfl (fun v => Or.inl rfl) (by simp) ?_ ⟨_, _, hend, rfl⟩⟩
        · simp only [setKernel_mb, setMb_self]
          omega
        · unfold freeSlots
          simp only [setKernel_mb, setMb_self]
          omega
  | semTake | semRelease | eventSend => cases ho
  | semReset | mutexTake | mutexRelease | eventRecv | eventReset | mbReset | mqSend | mqUrgent |
    mqRecv | mqReset => exact absurd hc (by simp [Call.FromIsr])

/-- **One step of a mailbox.** -/
theorem mb_step (hs : s.Step a s') (j : SysInv s) (b : MbBound (s.ipc.mb i)) :
    WakeSteps (.mb i) s a s' (s.ipc.mb i).entry (s'.ipc.mb i).entry
      (freeSlots (s.ipc.mb i)) (freeSlots (s'.ipc.mb i)) := by
  have hw1 : (ListHead.suspend (.mb i)).IsWait := ⟨_, Or.inl rfl⟩
  have hw2 : (ListHead.suspendSender (.mb i)).IsWait := ⟨_, Or.inr rfl⟩
  by_cases ha : s.actObj a = some (.mb i)
  swap
  · have hsame : s'.ipc.mb i = s.ipc.mb i := (Step.frame hs j ha).same
    rw [hsame]
    exact ⟨.frame hs j (Or.inl rfl) ha, .frame hs j (Or.inr rfl) ha⟩
  obtain ⟨t, r, x, rfl, hr, hx, rfl⟩ | ⟨t, c, e, r, rfl, hr, hpc, rfl⟩ |
    ⟨c, t, x, rfl, hc, ht, hx, rfl⟩ | ⟨t, k', rfl, ht, hk, rfl⟩ | ⟨t, p, rfl, hp, rfl⟩ |
    ⟨k', rfl, hk, rfl⟩ := Step.cases hs
  · have hloop : ∀ {c : Call}, c.obj = .mb i → Loops s.ipc t x c →
        (∀ h, c.wakes = some h → (s.pc t).waitsOn ≠ some h) → WakeSteps (.mb i) s (.run t r)
          ⟨x.ipc, Function.update s.pc t x.pc⟩ (s.ipc.mb i).entry (x.ipc.mb i).entry
          (freeSlots (s.ipc.mb i)) (freeSlots (x.ipc.mb i)) := by
      intro c ho hl hp
      cases hl with
      | mbSend hx =>
          obtain rfl := Obj.mb.inj ho
          have e := mbSendLoop_end j hr b hx
          exact ⟨e.wakeSide j hw1 (by simp) (hp _ rfl), e.blockSide hw2 (by simp)⟩
      | mbRecv hx =>
          obtain rfl := Obj.mb.inj ho
          have e := mbRecvLoop_end j hr hx
          exact ⟨e.blockSide hw1 (by simp), e.wakeSide j hw2 (by simp) (hp _ rfl)⟩
      | mqSend | mqRecv => cases ho
    obtain ⟨c, rfl, hobj, hidle, hx⟩ | ⟨delta, c, rfl, hobj, hp, hx⟩ :=
      sect_cases_of_ne hx ha (by simp)
    · have hnone : ∀ h : ListHead, (s.pc t).waitsOn ≠ some h := fun h => by
        rw [hidle]
        simp [Pc.waitsOn]
      have hidle' : ∀ h, ¬ Resumed h s t := fun h => not_resumed_idle hidle
      cases c with
      | mbSend | mbRecv =>
          obtain ⟨e, -, rfl⟩ | hl := call_loops hx trivial
          · exact .same hidle' rfl
          · exact hloop hobj hl fun h _ => hnone h
      | mbReset m =>
          obtain rfl : m = i := Obj.mb.inj hobj
          obtain rfl := Option.some.inj hx
          exact ⟨.reset j (Or.inl rfl) hidle rfl rfl, .reset j (Or.inr rfl) hidle rfl rfl⟩
      | _ => simp [Call.obj] at hobj
    · -- a call that fails leaves with an error, so its thread was not resumed by a mail
      have herr : ∀ h, (s.ipc.kernel.thread t).error ≠ .ok → ¬ Resumed h s t :=
        fun h he hr => he hr.2.2
      cases c with
      | mbSend | mbRecv =>
          obtain ⟨r, he, rfl⟩ | ⟨_, _, hm, -⟩ | hl := resumed_cases hx
          · exact .same (fun h => herr h (he trivial)) rfl
          · cases hm
          · exact hloop hobj hl fun h hw => hp ▸ Call.waitsOn_ne_wakes hw
      | mbReset => cases hx
      | _ => simp [Call.obj] at hobj
  · exact ⟨.ret hpc, .ret hpc⟩
  · exact mb_isr j b hc (Option.some.inj ha) ht hx
  · exact ⟨.timeout j hw1 ht hk, .timeout j hw2 ht hk⟩
  · cases ha
  · cases ha

end

/-! ## Message queues -/

/-- The length of the free list. -/
def freeBlocks (q : MsgQueue) : Nat := count q.next q.maxMsgs q.free

section

variable {size msg : Nat} {buffer : List (BitVec 8)} {timeout : Int} {c : Call} {q : MsgQueue}
  {pc : ThreadId → Pc} {g : MsgLog} {free msgs : List Nat} {owners : List (ThreadId × Nat)}
  {r' : Reply}

omit [RtConfig] in
theorem Pool.freeBlocks {owned : List Nat} (h : Pool q free msgs owned) :
    freeBlocks q = free.length :=
  h.freeList.count_eq (by have := h.total; omega)

omit [RtConfig] in
theorem Pool.alloc_lt {owned : List Nat} (h : Pool q free msgs owned) (hf : q.free = some msg) :
    Ipc.freeBlocks { q with free := q.next msg } < Ipc.freeBlocks q := by
  obtain ⟨free', rfl, h'⟩ := h.alloc hf
  rw [h.freeBlocks, h'.freeBlocks]
  simp

omit [RtConfig] in
theorem freeBlocks_of_none (hf : q.free = none) : freeBlocks q = 0 := by
  unfold freeBlocks
  rw [hf]
  cases q.maxMsgs <;> rfl

theorem mqSendLoop_end (inv : MqInv i (s.ipc.mq i) pc g free msgs owners) (j : SysInv s)
    (hr : s.Runs t) (hx : s.ipc.mqSendLoop t i buffer timeout = some x) :
    LoopEnd (.suspendSender (.mq i)) (.suspend (.mq i)) t s.ipc.kernel x
      (freeBlocks (s.ipc.mq i)) (freeBlocks (x.ipc.mq i)) (s.ipc.mq i).entry
      (x.ipc.mq i).entry := by
  obtain ⟨hf, -, rfl⟩ | ⟨hf, -, k', b, rfl⟩ | ⟨msg, hf, rfl⟩ :=
    mqSendLoop_cases j.wait.sched hr.1 hr.2 hx
  · exact .stuck ⟨freeBlocks_of_none hf, le_rfl⟩ rfl (fun v hv => setError_of_ne hv) rfl
  · exact .blocks ⟨freeBlocks_of_none hf, le_rfl⟩ rfl b
  · refine .takes ?_ rfl rfl
    rw [setMq_self]
    exact ⟨inv.pool.alloc_lt hf, le_rfl⟩

theorem mqRecvLoop_end (j : SysInv s) (hr : s.Runs t)
    (hx : s.ipc.mqRecvLoop t i size timeout = some x) :
    LoopEnd (.suspend (.mq i)) (.suspendSender (.mq i)) t s.ipc.kernel x (s.ipc.mq i).entry
      (x.ipc.mq i).entry (freeBlocks (s.ipc.mq i)) (freeBlocks (x.ipc.mq i)) := by
  obtain ⟨he, -, rfl⟩ | ⟨he, -, k', b, rfl⟩ | ⟨he, msg, -, rfl⟩ :=
    mqRecvLoop_cases j.wait.sched hr.1 hr.2 hx
  · exact .stuck ⟨he, le_rfl⟩ rfl (fun v hv => (setError_of_ne hv).trans (setError_of_ne hv)) rfl
  · exact .blocks ⟨he, le_rfl⟩ rfl b
  · refine .takes ?_ rfl rfl
    rw [setMq_self]
    exact ⟨Nat.sub_one_lt he, le_rfl⟩

omit [RtConfig] in
/-- The copy changes neither the counter nor the free list. -/
theorem copy_mq (inv : MqInv i (s.ipc.mq i) pc g free msgs owners) (hp : pc t = .copy c msg)
    (hobj : c.obj = .mq i) (hx : s.ipc.copy msg c = some x) :
    x.ipc.kernel = s.ipc.kernel ∧ x.pc.waitsOn = none ∧
      (x.ipc.mq i).entry = (s.ipc.mq i).entry ∧
      freeBlocks (x.ipc.mq i) = freeBlocks (s.ipc.mq i) := by
  have hown : ownedBlock i (pc t) = some msg := by
    rw [hp]
    exact if_pos hobj
  cases c with
  | mqSend m buffer timeout =>
      obtain rfl : m = i := Obj.mq.inj hobj
      obtain rfl := Option.some.inj hx
      refine ⟨rfl, rfl, by rw [setMq_self], ?_⟩
      rw [setMq_self, inv.pool.freeBlocks]
      exact (inv.pool.write (inv.owned hown)).freeBlocks
  | mqUrgent m buffer =>
      obtain rfl : m = i := Obj.mq.inj hobj
      obtain rfl := Option.some.inj hx
      refine ⟨rfl, rfl, by rw [setMq_self], by rw [setMq_self]; rfl⟩
  | mqRecv m size timeout =>
      obtain rfl := Option.some.inj hx
      exact ⟨rfl, rfl, rfl, rfl⟩
  | _ => cases hx

/-- The last section of a call resumes a thread of one list and leaves the other alone. -/
theorem WakeStep.finish {hw : ListHead} {m m' : Nat} {q : MsgQueue} {e : Reply} (j : SysInv s)
    (h1 : hw.IsWait) (h2 : h.IsWait) (hne : h ≠ hw) (hp : s.pc t = .copied c msg r')
    (hc : c.wakes = some hw) (hx : (s.ipc.setMq i q).resumeFirst hw (.ret c .ok e) = some x)
    (hn : n' ≤ n + 1) (hm : m' ≤ m) :
    WakeStep hw s (.run t r) ⟨x.ipc, Function.update s.pc t x.pc⟩ n n' ∧
      WakeStep h s (.run t r) ⟨x.ipc, Function.update s.pc t x.pc⟩ m m' := by
  have hpt : ∀ l : ListHead, (s.pc t).waitsOn ≠ some l := fun l => by
    rw [hp]
    simp [Pc.waitsOn]
  obtain ⟨k', b, w, rfl⟩ := resumeFirst_cases (by exact j.wait.sched) h1 hx
  refine ⟨.runWakes j h1 (hpt hw) rfl hc w hn, ?_⟩
  obtain ⟨ho, hl⟩ := Others.wakesFirst (t := t) h2 hne w
  exact .run ho (Or.inl (by simp [Pc.waitsOn])) (Or.inr ⟨hl, hm, fun hr => absurd hr.1 (hpt h)⟩)

theorem finish_mq (inv : MqInv i (s.ipc.mq i) s.pc g free msgs owners) (j : SysInv s)
    (hp : s.pc t = .copied c msg r') (hobj : c.obj = .mq i)
    (hx : s.ipc.finish msg r' c = some x) :
    WakeSteps (.mq i) s (.run t r) ⟨x.ipc, Function.update s.pc t x.pc⟩ (s.ipc.mq i).entry
      (x.ipc.mq i).entry (freeBlocks (s.ipc.mq i)) (freeBlocks (x.ipc.mq i)) := by
  have hw1 : (ListHead.suspend (.mq i)).IsWait := ⟨_, Or.inl rfl⟩
  have hw2 : (ListHead.suspendSender (.mq i)).IsWait := ⟨_, Or.inr rfl⟩
  have hown : ownedBlock i (s.pc t) = some msg := by
    rw [hp]
    exact if_pos hobj
  obtain ⟨owners', hperm, -⟩ := inv.owners_give .idle hown rfl
  have hpool := inv.pool.perm hperm.symm
  have hplace := inv.places t
  rw [hp] at hplace
  cases c with
  | mqSend m buffer timeout =>
      obtain rfl : m = i := Obj.mq.inj hobj
      obtain ⟨-, hq⟩ := resumeFirst_mq hx
      have hnull : (s.ipc.mq m).next msg = none := by
        cases hplace with
        | away h1 => exact absurd rfl h1
        | written hn => exact hn
      have hafter := (hpool.linkLast rfl hnull inv.max).freeBlocks
      refine WakeStep.finish j hw1 hw2 (by simp) hp rfl hx ?_ ?_
      · rw [hq, setMq_self]
        exact Nat.mod_le _ _
      · rw [hq, setMq_self, inv.pool.freeBlocks]
        exact hafter.le
  | mqUrgent m buffer =>
      obtain rfl : m = i := Obj.mq.inj hobj
      obtain ⟨-, hq⟩ := resumeFirst_mq hx
      have hafter := (hpool.linkFirst rfl inv.max).freeBlocks
      refine WakeStep.finish j hw1 hw2 (by simp) hp rfl hx ?_ ?_
      · rw [hq, setMq_self]
        exact Nat.mod_le _ _
      · rw [hq, setMq_self, inv.pool.freeBlocks]
        exact hafter.le
  | mqRecv m size timeout =>
      obtain rfl : m = i := Obj.mq.inj hobj
      obtain ⟨-, hq⟩ := resumeFirst_mq hx
      have hafter := (hpool.release rfl).freeBlocks
      refine (WakeStep.finish j hw2 hw1 (by simp) hp rfl hx ?_ ?_).symm
      · rw [hq, setMq_self, inv.pool.freeBlocks]
        exact hafter.le
      · rw [hq, setMq_self]
  | _ => cases hx

/-- **One step of a message queue.** -/
theorem mq_step (hs : s.Step a s') (j : SysInv s)
    (inv : MqInv i (s.ipc.mq i) s.pc g free msgs owners) :
    WakeSteps (.mq i) s a s' (s.ipc.mq i).entry (s'.ipc.mq i).entry
      (freeBlocks (s.ipc.mq i)) (freeBlocks (s'.ipc.mq i)) := by
  have hw1 : (ListHead.suspend (.mq i)).IsWait := ⟨_, Or.inl rfl⟩
  have hw2 : (ListHead.suspendSender (.mq i)).IsWait := ⟨_, Or.inr rfl⟩
  by_cases ha : s.actObj a = some (.mq i)
  swap
  · have hsame : s'.ipc.mq i = s.ipc.mq i := (Step.frame hs j ha).same
    rw [hsame]
    exact ⟨.frame hs j (Or.inl rfl) ha, .frame hs j (Or.inr rfl) ha⟩
  obtain ⟨t, r, x, rfl, hr, hx, rfl⟩ | ⟨t, c, e, r, rfl, hr, hpc, rfl⟩ |
    ⟨c, t, x, rfl, hc, ht, hx, rfl⟩ | ⟨t, k', rfl, ht, hk, rfl⟩ | ⟨t, p, rfl, hp, rfl⟩ |
    ⟨k', rfl, hk, rfl⟩ := Step.cases hs
  · have hloop : ∀ {c : Call}, c.obj = .mq i → Loops s.ipc t x c →
        (∀ h, c.wakes = some h → (s.pc t).waitsOn ≠ some h) → WakeSteps (.mq i) s (.run t r)
          ⟨x.ipc, Function.update s.pc t x.pc⟩ (s.ipc.mq i).entry (x.ipc.mq i).entry
          (freeBlocks (s.ipc.mq i)) (freeBlocks (x.ipc.mq i)) := by
      intro c ho hl hp
      cases hl with
      | mqSend hx =>
          obtain rfl := Obj.mq.inj ho
          have e := mqSendLoop_end inv j hr hx
          exact ⟨e.wakeSide j hw1 (by simp) (hp _ rfl), e.blockSide hw2 (by simp)⟩
      | mqRecv hx =>
          obtain rfl := Obj.mq.inj ho
          have e := mqRecvLoop_end j hr hx
          exact ⟨e.blockSide hw1 (by simp), e.wakeSide j hw2 (by simp) (hp _ rfl)⟩
      | mbSend | mbRecv => cases ho
    obtain ⟨c, rfl, hidle, hx⟩ | ⟨delta, c, rfl, hp, hx⟩ | ⟨c, msg, m, rfl, hp, hm, hx⟩ |
      ⟨c, msg, r', m, rfl, hp, hm, hx⟩ := sect_cases hx
    · have hobj : c.obj = .mq i := Option.some.inj ha
      have hnone : ∀ h : ListHead, (s.pc t).waitsOn ≠ some h := fun h => by
        rw [hidle]
        simp [Pc.waitsOn]
      have hidle' : ∀ h, ¬ Resumed h s t := fun h => not_resumed_idle hidle
      cases c with
      | mqSend | mqRecv =>
          obtain ⟨e, -, rfl⟩ | hl := call_loops hx trivial
          · exact .same hidle' rfl
          · exact hloop hobj hl fun h _ => hnone h
      | mqUrgent m buffer =>
          obtain rfl : m = i := Obj.mq.inj hobj
          obtain ⟨e, -, -, rfl⟩ | ⟨-, msg, hf, rfl⟩ := rtMqUrgent_cases hx
          · exact .same hidle' rfl
          · have hlt := inv.pool.alloc_lt hf
            refine ⟨.nothing (hidle' _) rfl rfl ?_, .nothing (hidle' _) rfl rfl ?_⟩
            · rw [setMq_self]
            · rw [setMq_self]
              exact hlt.le
      | mqReset m =>
          obtain rfl : m = i := Obj.mq.inj hobj
          obtain rfl := Option.some.inj hx
          exact ⟨.reset j (Or.inl rfl) hidle rfl rfl, .reset j (Or.inr rfl) hidle rfl rfl⟩
      | _ => simp [Call.obj] at hobj
    · have hobj : c.obj = .mq i := by simpa [Sys.actObj, hp, Pc.obj] using ha
      have herr : ∀ h, (s.ipc.kernel.thread t).error ≠ .ok → ¬ Resumed h s t :=
        fun h he hr => he hr.2.2
      cases c with
      | mqSend | mqRecv =>
          obtain ⟨r, he, rfl⟩ | ⟨_, _, hm, -⟩ | hl := resumed_cases hx
          · exact .same (fun h => herr h (he trivial)) rfl
          · cases hm
          · exact hloop hobj hl fun h hw => hp ▸ Call.waitsOn_ne_wakes hw
      | mqUrgent | mqReset => cases hx
      | _ => simp [Call.obj] at hobj
    · have hobj : c.obj = .mq i := by simpa [Sys.actObj, hp, Pc.obj] using ha
      obtain ⟨h1, h2, h3, h4⟩ := copy_mq inv hp hobj hx
      have hnot : ∀ h, ¬ Resumed h s t := fun h hr => by
        have h5 := hr.1
        rw [hp] at h5
        cases h5
      exact ⟨.nothing (hnot _) h1 h2 h3.le, .nothing (hnot _) h1 h2 h4.le⟩
    · exact finish_mq inv j hp (by simpa [Sys.actObj, hp, Pc.obj] using ha) hx
  · exact ⟨.ret hpc, .ret hpc⟩
  · have hobj : c.obj = .mq i := Option.some.inj ha
    have hne : c.obj ≠ .mq i := by
      intro he
      cases c <;> first | exact hc | cases he
    exact absurd hobj hne
  · exact ⟨.timeout j hw1 ht hk, .timeout j hw2 ht hk⟩
  · cases ha
  · cases ha

end

/-! ## Runs -/

/-- A run of the system is one with the abstract queue. -/
theorem MqRun.of_reachable (i : Nat) (hs : Reachable Sys.Init Sys.Step s) :
    ∃ S, Reachable MqRun.Init (MqRun.Step i) S ∧ S.sys = s := by
  induction hs with
  | init h => exact ⟨⟨_, MsgLog.empty⟩, .init ⟨h, rfl⟩, rfl⟩
  | @step s s' a _ hs ih =>
      obtain ⟨S, hS, rfl⟩ := ih
      have hx : S.sys.exec a = some s' := hs
      refine ⟨⟨s', stepLog i S.sys s' S.log a⟩, hS.step (a := a) ?_, rfl⟩
      show S.exec i a = _
      unfold MqRun.exec
      rw [hx]
      rfl

theorem mbBound_of_reachable (hs : Reachable Sys.Init Sys.Step s) : MbBound (s.ipc.mb i) := by
  refine hs.invariant (I := fun s => MbBound (s.ipc.mb i)) (fun s h => ?_)
    fun s a s' hr b hs => ?_
  · obtain ⟨pool, size, flag, hsize, he⟩ := h.mb i
    rw [he]
    exact ⟨Nat.zero_le _, hsize⟩
  · obtain ⟨p, -, m⟩ | ⟨hsame, -⟩ := step_mail (i := i) hs (sysInv_of_reachable hr)
    · exact m.bound b
    · rw [hsame]
      exact b

/-- Nothing is resumed when nothing waits. -/
theorem Sys.Init.covered (hi : s.Init) (hh : h.IsWait) : Covered h s n := by
  refine ⟨∅, fun t => ?_, fun hl => absurd (hi.wait h hh) hl⟩
  unfold Resumed
  rw [hi.idle t]
  simp [Pc.waitsOn]

/-- No thread of an object is left waiting for a supply that no resumed thread will take. -/
structure Awake (i : Nat) (s : Sys) : Prop where
  mbReceivers : Covered (.suspend (.mb i)) s (s.ipc.mb i).entry
  mbSenders : Covered (.suspendSender (.mb i)) s (freeSlots (s.ipc.mb i))
  mqReceivers : Covered (.suspend (.mq i)) s (s.ipc.mq i).entry
  mqSenders : Covered (.suspendSender (.mq i)) s (freeBlocks (s.ipc.mq i))

theorem step_wakes (hs : Reachable Sys.Init Sys.Step s) (ha : s.Step a s') :
    WakeSteps (.mb i) s a s' (s.ipc.mb i).entry (s'.ipc.mb i).entry (freeSlots (s.ipc.mb i))
      (freeSlots (s'.ipc.mb i)) ∧
    WakeSteps (.mq i) s a s' (s.ipc.mq i).entry (s'.ipc.mq i).entry (freeBlocks (s.ipc.mq i))
      (freeBlocks (s'.ipc.mq i)) := by
  have j := sysInv_of_reachable hs
  obtain ⟨S, hS, rfl⟩ := MqRun.of_reachable i hs
  obtain ⟨free, msgs, owners, inv⟩ := mqOk_of_reachable hS
  exact ⟨mb_step ha j (mbBound_of_reachable hs), mq_step ha j inv⟩

/-- **No wakeup is lost** on a mailbox or a message queue, in every state of every run. The threads
that count as resumed are those that a call has resumed after it had moved a message: a step adds
one only then, and it is the first of the list. -/
theorem no_lost_wakeup (hs : Reachable Sys.Init Sys.Step s) (i : Nat) : Awake i s ∧
    ∀ h : ListHead, h.ofObj (.mb i) ∨ h.ofObj (.mq i) → ∀ a s' t, s.Step a s' →
      Resumed h s' t → ¬ Resumed h s t → (s.ipc.kernel.lists h).head? = some t ∧
        ∃ c r, endPlace s s' a = some (.ret c .ok r) ∧ c.wakes = some h := by
  constructor
  · refine hs.invariant (I := Awake i) (fun s hi => ?_) fun s a s' hr c ha => ?_
    · exact ⟨hi.covered ⟨_, Or.inl rfl⟩, hi.covered ⟨_, Or.inr rfl⟩, hi.covered ⟨_, Or.inl rfl⟩,
        hi.covered ⟨_, Or.inr rfl⟩⟩
    · obtain ⟨⟨h1, h2⟩, h3, h4⟩ := step_wakes (i := i) hr ha
      exact ⟨h1.covered c.mbReceivers, h2.covered c.mbSenders, h3.covered c.mqReceivers,
        h4.covered c.mqSenders⟩
  · intro h hh a s' t ha hr hn
    obtain ⟨⟨h1, h2⟩, h3, h4⟩ := step_wakes (i := i) hs ha
    rcases hh with (rfl | rfl) | rfl | rfl
    · exact h1.resumed hr hn
    · exact h2.resumed hr hn
    · exact h3.resumed hr hn
    · exact h4.resumed hr hn

end

/-! ## Two receivers -/

attribute [local instance] config32

/-- Threads 1 and 2 wait for a mail, and thread 3 sends one: thread 1 is resumed. -/
theorem no_lost_wakeup_two : ∃ s q, startSys (fun t => 10 + t % 4) [1, 2, 3] (fun _ => ⟨0, .fifo⟩)
      (fun _ => .fifo) = some s ∧
    runList Sys.exec s [.run 1 (.call (.mbRecv 0 (-1))), .schedule,
      .run 2 (.call (.mbRecv 0 (-1))), .schedule, .run 3 (.call (.mbSend 0 7 0))] = some q ∧
    q.ipc.kernel.lists (.suspend (.mb 0)) = [2] ∧ (q.ipc.mb 0).entry = 1 ∧ Awake 0 q := by
  obtain ⟨s, hs⟩ : ∃ s, startSys (fun t => 10 + t % 4) [1, 2, 3] (fun _ => ⟨0, .fifo⟩)
      (fun _ => .fifo) = some s := ⟨_, rfl⟩
  have hi : s.Init := startSys_init (fun t => by omega) (fun _ => by decide) hs
  obtain ⟨q, hq, h1, h2⟩ : ∃ q, runList Sys.exec s [.run 1 (.call (.mbRecv 0 (-1))), .schedule,
      .run 2 (.call (.mbRecv 0 (-1))), .schedule, .run 3 (.call (.mbSend 0 7 0))] = some q ∧
      q.ipc.kernel.lists (.suspend (.mb 0)) = [2] ∧ (q.ipc.mb 0).entry = 1 := by
    obtain rfl := Option.some.inj hs
    exact ⟨_, rfl, rfl, rfl⟩
  exact ⟨s, q, hs, hq, h1, h2, (no_lost_wakeup (reachable_of_runList (.init hi) hq) 0).1⟩

end RTThread.Ipc
