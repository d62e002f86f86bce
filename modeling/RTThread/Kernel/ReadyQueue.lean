import RTThread.Lib.Run
import RTThread.Kernel.Bits

set_option autoImplicit false

/-! # The ready queue

`QueueInv` is the invariant of the lists and bitmaps: every thread is linked into at most one
list, the ready lists hold exactly the threads that are READY, each in the list of its priority,
and the bitmaps hold exactly the priorities with a non-empty list. Inside a function a thread may
be taken out of its ready list while it is still READY; this one thread is the exception `ex`.
`SchedInv` adds the current thread.
-/

namespace RTThread.Kernel

/-- The thread is linked into no list. -/
def Unlinked (k : Kernel) (t : ThreadId) : Prop := ∀ h, t ∉ k.lists h

variable [RtConfig]

/-- The invariant of one thread. -/
structure ThreadInv (th : Thread) : Prop where
  started : th.stat ≠ .init → th.stat ≠ .close → Started th
  masks : Started th ∨ NoMask th
  prio : th.currentPriority < RtConfig.priorityMax
  initPrio : th.initPriority < RtConfig.priorityMax

theorem ThreadInv.of_attrs {th th' : Thread} (h : ThreadInv th) (ha : attrs th' = attrs th)
    (hs : th'.stat ≠ .init → th'.stat ≠ .close → Started th) : ThreadInv th' := by
  have ha' := ha
  simp only [attrs, Prod.mk.injEq] at ha'
  obtain ⟨h1, h2, -, h3, h4⟩ := ha'
  refine ⟨fun h5 h6 => (hs h5 h6).of_attrs ha, h.masks.imp (·.of_attrs ha) ?_, ?_, ?_⟩
  · unfold NoMask
    rw [h3, h4]
    exact id
  · rw [h1]
    exact h.prio
  · rw [h2]
    exact h.initPrio

/-- The invariant of the lists and bitmaps, with an exception. -/
structure QueueInv (k : Kernel) (ex : Option ThreadId) : Prop where
  bits : BitsOk k fun p => k.lists (.ready p) ≠ []
  nodup : ∀ h, (k.lists h).Nodup
  once : ∀ t h h', t ∈ k.lists h → t ∈ k.lists h' → h = h'
  ready : ∀ t p, t ∈ k.lists (.ready p) → (k.thread t).stat = .ready ∧
    (k.thread t).currentPriority = p
  linked : ∀ t, some t ≠ ex → (k.thread t).stat = .ready →
    t ∈ k.lists (.ready (k.thread t).currentPriority)
  unlinked : ∀ t, some t = ex → Unlinked k t
  waiting : ∀ t o, t ∈ k.lists (.suspend o) ∨ t ∈ k.lists (.suspendSender o) →
    (k.thread t).stat = .suspend
  defunct : ∀ t, t ∈ k.lists .defunct → (k.thread t).stat = .close
  thread : ∀ t, ThreadInv (k.thread t)

/-- **The invariant of the scheduler**: the current thread has been started and is in no ready
list, and no other thread is RUNNING. -/
structure SchedInv (k : Kernel) : Prop extends QueueInv k none where
  current : ∀ t, k.current = some t → (k.thread t).stat ≠ .init ∧ (k.thread t).stat ≠ .ready
  running : ∀ t, (k.thread t).stat = .running → k.current = some t

variable {k : Kernel} {t u : ThreadId} {ex : Option ThreadId}

namespace QueueInv

/-- The invariant does not speak of the current thread and the lock. -/
theorem of_eq {k' : Kernel} (i : QueueInv k ex) (hth : k'.thread = k.thread)
    (hl : k'.lists = k.lists) (hg : k'.group = k.group) (ht : k'.table = k.table) :
    QueueInv k' ex := by
  obtain ⟨h1, h2, h3, h4, h5, h6, h7, h8, h9⟩ := i
  unfold Unlinked at *
  rw [← hl] at h1 h2 h3 h4 h5 h6 h7 h8
  rw [← hth] at h4 h5 h7 h8 h9
  exact ⟨h1.of_eq hg ht, h2, h3, h4, h5, h6, h7, h8, h9⟩

/-- An exception that is not READY is none. -/
theorem close (i : QueueInv k (some t)) (hs : (k.thread t).stat ≠ .ready) : QueueInv k none := by
  refine { i with
    linked := fun u _ hr => i.linked u ?_ hr
    unlinked := fun u hu => by cases hu }
  intro e
  rw [Option.some.inj e] at hr
  exact hs hr

theorem open_ (i : QueueInv k none) (hu : Unlinked k t) : QueueInv k (some t) := by
  refine { i with
    linked := fun u _ hr => i.linked u (by simp) hr
    unlinked := fun u he => ?_ }
  rw [Option.some.inj he]
  exact hu

/-- An unlinked thread may change its fields. -/
theorem modify (i : QueueInv k (some t)) {f : Thread → Thread} (hf : ThreadInv (f (k.thread t))) :
    QueueInv (k.modify t f) (some t) := by
  have hun := i.unlinked t rfl
  -- a linked thread is another thread
  have hne : ∀ {u h}, u ∈ k.lists h → (k.modify t f).thread u = k.thread u := fun hu =>
    modify_of_ne f fun e => hun _ (e ▸ hu)
  refine ⟨i.bits.of_eq rfl rfl, i.nodup, i.once, ?_, ?_, i.unlinked, ?_, ?_, ?_⟩
  · intro u p hu
    rw [hne hu]
    exact i.ready u p hu
  · intro u hu hs
    have hut : u ≠ t := fun e => hu (by rw [e])
    rw [modify_of_ne f hut] at hs ⊢
    exact i.linked u hu hs
  · intro u o hu
    have h1 : (k.modify t f).thread u = k.thread u := hu.elim hne hne
    rw [h1]
    exact i.waiting u o hu
  · intro u hu
    rw [hne hu]
    exact i.defunct u hu
  · intro u
    by_cases hut : u = t
    · subst hut
      rw [modify_self]
      exact hf
    · rw [modify_of_ne f hut]
      exact i.thread u

/-- The state stays, and the priority may change while the thread is not READY. -/
theorem modify_same (i : QueueInv k ex) {f : Thread → Thread}
    (hs : (f (k.thread t)).stat = (k.thread t).stat)
    (hp : (k.thread t).stat = .ready →
      (f (k.thread t)).currentPriority = (k.thread t).currentPriority)
    (hf : ThreadInv (f (k.thread t))) : QueueInv (k.modify t f) ex := by
  have hstat : ∀ u, ((k.modify t f).thread u).stat = (k.thread u).stat := by
    intro u
    by_cases hut : u = t
    · rw [hut, modify_self, hs]
    · rw [modify_of_ne f hut]
  have hprio : ∀ u, (k.thread u).stat = .ready →
      ((k.modify t f).thread u).currentPriority = (k.thread u).currentPriority := by
    intro u hr
    by_cases hut : u = t
    · rw [hut] at hr ⊢
      rw [modify_self, hp hr]
    · rw [modify_of_ne f hut]
  refine ⟨i.bits.of_eq rfl rfl, i.nodup, i.once, ?_, ?_, i.unlinked, ?_, ?_, ?_⟩
  · intro u p hu
    rw [hstat, hprio u (i.ready u p hu).1]
    exact i.ready u p hu
  · intro u hu hr
    rw [hstat] at hr
    rw [hprio u hr]
    exact i.linked u hu hr
  · intro u o hu
    rw [hstat]
    exact i.waiting u o hu
  · intro u hu
    rw [hstat]
    exact i.defunct u hu
  · intro u
    by_cases hut : u = t
    · subst hut
      rw [modify_self]
      exact hf
    · rw [modify_of_ne f hut]
      exact i.thread u

/-- A thread that is neither READY, nor suspended, nor closed is linked into no list. -/
theorem unlinked_of_stat (i : QueueInv k none)
    (hs : (k.thread t).stat = .init ∨ (k.thread t).stat = .running) : Unlinked k t := by
  intro h hm
  cases h with
  | ready p => simp [(i.ready t p hm).1] at hs
  | defunct => simp [i.defunct t hm] at hs
  | suspend o => simp [i.waiting t o (Or.inl hm)] at hs
  | suspendSender o => simp [i.waiting t o (Or.inr hm)] at hs

/-- The parts of the invariant that survive taking a thread out of all lists. -/
theorem of_erase (i : QueueInv k ex) (hex : ex = none ∨ ex = some t) {k' : Kernel}
    (hth : k'.thread = k.thread) (hl : ∀ h, k'.lists h = (k.lists h).erase t)
    (hb : BitsOk k' fun p => k'.lists (.ready p) ≠ []) : QueueInv k' (some t) := by
  have hsub : ∀ {u h}, u ∈ k'.lists h → u ∈ k.lists h := by
    intro u h hu
    rw [hl] at hu
    exact List.mem_of_mem_erase hu
  refine ⟨hb, ?_, fun u h h' hu hu' => i.once u h h' (hsub hu) (hsub hu'), ?_, ?_, ?_, ?_, ?_, ?_⟩
  · intro h
    rw [hl]
    exact (i.nodup h).erase t
  · intro u p hu
    rw [hth]
    exact i.ready u p (hsub hu)
  · intro u hu hr
    have hut : u ≠ t := fun e => hu (by rw [e])
    rw [hth] at hr ⊢
    rw [hl, List.mem_erase_of_ne hut]
    refine i.linked u ?_ hr
    rcases hex with rfl | rfl
    · simp
    · exact hu
  · intro u hu h hm
    rw [Option.some.inj hu, hl] at hm
    exact ((List.Nodup.mem_erase_iff (i.nodup h)).mp hm).1 rfl
  · intro u o hu
    rw [hth]
    exact i.waiting u o (hu.imp hsub hsub)
  · intro u hu
    rw [hth]
    exact i.defunct u (hsub hu)
  · intro u
    rw [hth]
    exact i.thread u

/-- `rt_list_remove` alone is enough for a thread that is not READY. -/
theorem listRemove (i : QueueInv k none) (hs : (k.thread t).stat ≠ .ready) :
    QueueInv (k.rtListRemove t) (some t) := by
  refine i.of_erase (Or.inl rfl) rfl (fun _ => rfl) (i.bits.of_eq rfl rfl |>.congr fun p _ => ?_)
  have hnot : t ∉ k.lists (.ready p) := fun hm => hs (i.ready t p hm).1
  rw [rtListRemove_lists, List.erase_of_not_mem hnot]

theorem remove (i : QueueInv k ex) (hex : ex = none ∨ ex = some t) :
    QueueInv (k.rtScheduleRemoveThread t) (some t) := by
  refine i.of_erase hex rtScheduleRemoveThread_thread (fun _ => rtScheduleRemoveThread_lists) ?_
  have hother : ∀ p, p ≠ (k.thread t).currentPriority →
      (k.lists (.ready p)).erase t = k.lists (.ready p) := by
    intro p hp
    exact List.erase_of_not_mem fun hm => hp (i.ready t p hm).2.symm
  have hth := i.thread t
  simp only [rtScheduleRemoveThread_lists]
  have hbits : BitsOk (k.rtListRemove t) fun p => k.lists (.ready p) ≠ [] := i.bits.of_eq rfl rfl
  unfold rtScheduleRemoveThread
  dsimp only
  rw [rtListRemove_lists, rtListRemove_thread]
  by_cases hempty : (k.lists (.ready (k.thread t).currentPriority)).erase t = []
  · rw [if_pos hempty]
    by_cases hstarted : Started (k.thread t)
    · refine (hbits.clearReadyBit hstarted hth.prio).congr fun p _ => ?_
      by_cases hp : p = (k.thread t).currentPriority
      · rw [hp]
        simp [hempty]
      · rw [hother p hp]
        simp [hp]
    · -- a thread that was never started is not READY, so its list does not change
      have hns : (k.thread t).stat ≠ .ready := by
        intro hr
        refine hstarted (hth.started ?_ ?_) <;> rw [hr] <;> simp
      rw [clearReadyBit_noMask (hth.masks.resolve_left hstarted)]
      refine hbits.congr fun p _ => ?_
      have hnot : t ∉ k.lists (.ready p) := fun hm => hns (i.ready t p hm).1
      rw [List.erase_of_not_mem hnot]
  · rw [if_neg hempty]
    refine hbits.congr fun p _ => ?_
    by_cases hp : p = (k.thread t).currentPriority
    · rw [hp]
      refine iff_of_true hempty fun hnil => hempty ?_
      rw [hnil, List.erase_nil]
    · rw [hother p hp]

/-- A thread that is linked into no list is linked into its ready list, or runs on. -/
theorem insert (i : QueueInv k (some t)) (hs : Started (k.thread t)) :
    QueueInv (k.rtScheduleInsertThread t) none := by
  have hun := i.unlinked t rfl
  have hstarted : ∀ s, ThreadInv { k.thread t with stat := s } := fun s =>
    (i.thread t).of_attrs rfl fun _ _ => hs
  unfold rtScheduleInsertThread
  by_cases hcur : k.current = some t
  · rw [if_pos hcur]
    refine (i.modify (hstarted _)).close ?_
    rw [modify_self]
    simp
  · rw [if_neg hcur]
    have i' : QueueInv (k.setStat t .ready) (some t) := i.modify (hstarted .ready)
    set k' := k.setStat t .ready with hk'
    have hstat : (k'.thread t).stat = .ready := by rw [hk', setStat, modify_self]
    have hst' : Started (k'.thread t) := (i'.thread t).started (by rw [hstat]; simp)
      (by rw [hstat]; simp)
    have hun' : Unlinked k' t := hun
    have hlists : ∀ h, (k'.rtListInsertBefore (.ready (k'.thread t).currentPriority) t).lists h =
        if h = .ready (k'.thread t).currentPriority then
          k'.lists (.ready (k'.thread t).currentPriority) ++ [t] else k'.lists h := by
      intro h
      show Function.update k'.lists _ _ h = _
      rw [Function.update_apply]
    have hmem : ∀ u h, u ∈ (k'.rtListInsertBefore (.ready (k'.thread t).currentPriority) t).lists h ↔
        u ∈ k'.lists h ∨ u = t ∧ h = .ready (k'.thread t).currentPriority := by
      intro u h
      rw [hlists]
      split_ifs with he
      · simp [he]
      · simp [he]
    refine ⟨?_, ?_, ?_, ?_, ?_, (fun u hu => by cases hu), ?_, ?_, ?_⟩
    · rw [setReadyBit_lists]
      have hb : BitsOk (k'.rtListInsertBefore (.ready (k'.thread t).currentPriority) t)
          fun p => k'.lists (.ready p) ≠ [] := i'.bits.of_eq rfl rfl
      refine (hb.setReadyBit hst' (i'.thread t).prio).congr fun p _ => ?_
      rw [hlists]
      split_ifs with he
      · simp only [ListHead.ready.injEq] at he
        simp [he]
      · have hp : p ≠ (k'.thread t).currentPriority := fun e => he (by rw [e])
        simp [hp]
    · intro h
      rw [setReadyBit_lists, hlists]
      split_ifs with he
      · exact List.Nodup.append (i'.nodup _) (by simp) (by simpa using hun' _)
      · exact i'.nodup h
    · intro u h h' hu hu'
      rw [setReadyBit_lists, hmem] at hu hu'
      rcases hu with hu | ⟨hut, he⟩ <;> rcases hu' with hu' | ⟨hut', he'⟩
      · exact i'.once u h h' hu hu'
      · exact absurd (hut' ▸ hu) (hun' h)
      · exact absurd (hut ▸ hu') (hun' h')
      · rw [he, he']
    · intro u p hu
      rw [setReadyBit_lists, hmem] at hu
      rw [setReadyBit_thread]
      rcases hu with hu | ⟨rfl, he⟩
      · exact i'.ready u p hu
      · exact ⟨hstat, (ListHead.ready.inj he).symm⟩
    · intro u _ hr
      rw [setReadyBit_thread] at hr ⊢
      rw [setReadyBit_lists, hmem]
      by_cases hut : u = t
      · exact Or.inr ⟨hut, by rw [hut]; rfl⟩
      · exact Or.inl (i'.linked u (fun e => hut (Option.some.inj e)) hr)
    · intro u o hu
      rw [setReadyBit_lists, hmem, hmem] at hu
      rw [setReadyBit_thread]
      refine i'.waiting u o ?_
      simpa using hu
    · intro u hu
      rw [setReadyBit_lists, hmem] at hu
      rw [setReadyBit_thread]
      refine i'.defunct u ?_
      simpa using hu
    · intro u
      rw [setReadyBit_thread]
      exact i'.thread u

/-- A thread that is linked into no list is linked into a list other than a ready list. -/
theorem link (i : QueueInv k (some t)) {h : ListHead} {l : List ThreadId}
    (hl : l.Perm (t :: k.lists h))
    (hh : (h = .defunct ∧ (k.thread t).stat = .close) ∨
      (k.thread t).stat = .suspend ∧ ∃ o, h = .suspend o ∨ h = .suspendSender o) :
    QueueInv { k with lists := Function.update k.lists h l } none := by
  have hun := i.unlinked t rfl
  have hnr : (k.thread t).stat ≠ .ready := by
    rcases hh with ⟨-, hs⟩ | ⟨hs, -⟩ <;> rw [hs] <;> simp
  have hready : ∀ p, Function.update k.lists h l (.ready p) = k.lists (.ready p) := by
    intro p
    refine Function.update_of_ne ?_ ..
    rcases hh with ⟨rfl, -⟩ | ⟨-, o, rfl | rfl⟩ <;> simp
  have hmem : ∀ u h', u ∈ Function.update k.lists h l h' ↔ u ∈ k.lists h' ∨ u = t ∧ h' = h := by
    intro u h'
    rw [Function.update_apply]
    split_ifs with he
    · rw [hl.mem_iff, List.mem_cons, he]
      simp [or_comm]
    · simp [he]
  refine ⟨?_, ?_, ?_, ?_, ?_, (fun u hu => by cases hu), ?_, ?_, i.thread⟩
  · refine (i.bits.of_eq rfl rfl).congr fun p _ => ?_
    dsimp only
    rw [hready]
  · intro h'
    dsimp only
    rw [Function.update_apply]
    split_ifs with he
    · exact hl.nodup_iff.mpr (List.nodup_cons.mpr ⟨hun _, i.nodup _⟩)
    · exact i.nodup h'
  · intro u h₁ h₂ hu hu'
    rw [hmem] at hu hu'
    rcases hu with hu | ⟨hut, he⟩ <;> rcases hu' with hu' | ⟨hut', he'⟩
    · exact i.once u h₁ h₂ hu hu'
    · exact absurd (hut' ▸ hu) (hun h₁)
    · exact absurd (hut ▸ hu') (hun h₂)
    · rw [he, he']
  · intro u p hu
    dsimp only at hu
    rw [hready] at hu
    exact i.ready u p hu
  · intro u _ hr
    dsimp only
    rw [hready]
    exact i.linked u (fun e => hnr (Option.some.inj e ▸ hr)) hr
  · intro u o hu
    rw [hmem, hmem] at hu
    by_cases hut : u = t
    · rcases hh with ⟨rfl, -⟩ | ⟨hs, -⟩
      · exact i.waiting u o (by simpa using hu)
      · rw [hut]
        exact hs
    · exact i.waiting u o (by simpa [hut] using hu)
  · intro u hu
    rw [hmem] at hu
    rcases hu with hu | ⟨hut, he⟩
    · exact i.defunct u hu
    · rcases hh with ⟨-, hs⟩ | ⟨-, o, rfl | rfl⟩
      · exact hut ▸ hs
      · cases he
      · cases he

end QueueInv

end RTThread.Kernel
