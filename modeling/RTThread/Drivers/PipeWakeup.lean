import RTThread.Drivers.PipeStream

set_option autoImplicit false

/-! # Sleeping readers and writers of a pipe

`rt_wqueue_wakeup` resumes one thread, and sets a flag for a thread that is about to sleep. A thread that is
resumed clears the flag and looks at the pipe again; when it returns with bytes left, or at the end of the
file, it wakes up no other thread of its side. So nobody is left asleep as long as a call that returns and
leaves something finds no other thread of its side asleep that relies on it.
-/

namespace RTThread.Pipes

open Drivers Trans

/-! ## The threads of a side -/

namespace Pc

/-- Suspended in `rt_wqueue_wait`. -/
def Asleep (σ : Side) : Pc → Prop
  | .inside .sleep op => op.side = σ
  | _ => False

/-- The pass failed, and `rt_wqueue_wait` comes. -/
def Dozing (σ : Side) : Pc → Prop
  | .inside .wake op => op.side = σ
  | .inside .wait op => op.side = σ
  | _ => False

/-- The thread looks at the pipe for the side, or is going to wake up the side. -/
def Helps (σ : Side) : Pc → Prop
  | .inside .take op => op.side = σ
  | .inside .woken op => op.side = σ
  | .inside .wake op => op.side.opposite = σ
  | .written _ => σ = .reader
  | .closing r w => r = true ∧ σ = .reader ∨ w = true ∧ σ = .writer
  | _ => False

end Pc

theorem Side.opposite_ne {σ : Side} : σ.opposite ≠ σ := by
  cases σ <;> decide

theorem Side.eq_opposite {σ τ : Side} (h : τ ≠ σ) : τ = σ.opposite := by
  revert h
  cases σ <;> cases τ <;> decide

/-- The threads of the side that are asleep or dozing have help: another thread, or the flag for those that
do not sleep yet. -/
def Covered (pc : TId → Pc) (queue : Side → WQueue) (σ : Side) : Prop :=
  (∃ u, (pc u).Helps σ) ∨
    (∀ u, ¬ (pc u).Asleep σ) ∧ ((queue σ).flag = true ∨ ∀ u, ¬ (pc u).Dozing σ)

/-- They have help without `t`. -/
def Relieved (pc : TId → Pc) (queue : Side → WQueue) (σ : Side) (t : TId) : Prop :=
  (∃ u, u ≠ t ∧ (pc u).Helps σ) ∨
    (∀ u, u ≠ t → ¬ (pc u).Asleep σ) ∧ ((queue σ).flag = true ∨ ∀ u, u ≠ t → ¬ (pc u).Dozing σ)

/-- The waiting lists hold the threads that are asleep. -/
structure Links (pc : TId → Pc) (queue : Side → WQueue) : Prop where
  mem : ∀ σ t, t ∈ (queue σ).waitingList ↔ (pc t).Asleep σ
  nodup : ∀ σ, (queue σ).waitingList.Nodup

section Threads

variable {pc : TId → Pc} {queue queue' : Side → WQueue} {σ τ : Side} {t : TId} {p : Pc}

theorem covered_of_helps (h : p.Helps σ) : Covered (Function.update pc t p) queue σ :=
  Or.inl ⟨t, by rwa [Function.update_self]⟩

/-- A thread moves, and is no less help than before. -/
theorem Covered.update (h : Covered pc queue σ) (hq : queue' σ = queue σ)
    (hhelps : (pc t).Helps σ → p.Helps σ) (hasleep : p.Asleep σ → (pc t).Asleep σ)
    (hdozing : p.Dozing σ → (pc t).Dozing σ) : Covered (Function.update pc t p) queue' σ := by
  unfold Covered
  rw [hq]
  rcases h with ⟨u, hu⟩ | ⟨hs, hd⟩
  · refine Or.inl ⟨u, ?_⟩
    by_cases h : u = t
    · subst h
      rw [Function.update_self]
      exact hhelps hu
    · rwa [Function.update_of_ne h]
  · refine Or.inr ⟨fun u hu => ?_, hd.imp_right fun hd u hu => ?_⟩
    · by_cases h : u = t
      · subst h
        rw [Function.update_self] at hu
        exact hs u (hasleep hu)
      · rw [Function.update_of_ne h] at hu
        exact hs u hu
    · by_cases h : u = t
      · subst h
        rw [Function.update_self] at hu
        exact hd u (hdozing hu)
      · rw [Function.update_of_ne h] at hu
        exact hd u hu

/-- The others have help without a thread that moves. -/
theorem Relieved.update (h : Relieved pc queue σ t) (hasleep : ¬ p.Asleep σ) (hdozing : ¬ p.Dozing σ) :
    Covered (Function.update pc t p) queue σ := by
  rcases h with ⟨u, hne, hu⟩ | ⟨hs, hd⟩
  · exact Or.inl ⟨u, by rwa [Function.update_of_ne hne]⟩
  · refine Or.inr ⟨fun u hu => ?_, hd.imp_right fun hd u hu => ?_⟩
    · by_cases h : u = t
      · rw [h, Function.update_self] at hu
        exact hasleep hu
      · rw [Function.update_of_ne h] at hu
        exact hs u h hu
    · by_cases h : u = t
      · rw [h, Function.update_self] at hu
        exact hdozing hu
      · rw [Function.update_of_ne h] at hu
        exact hd u h hu

/-- A thread moves that neither was nor is asleep. -/
theorem Links.update (h : Links pc queue) (hq : ∀ σ, (queue' σ).waitingList = (queue σ).waitingList)
    (hold : ∀ σ, ¬ (pc t).Asleep σ) (hnew : ∀ σ, ¬ p.Asleep σ) :
    Links (Function.update pc t p) queue' := by
  refine ⟨fun σ u => ?_, fun σ => ?_⟩
  · rw [hq, h.mem]
    by_cases hu : u = t
    · subst hu
      rw [Function.update_self]
      exact iff_of_false (hold σ) (hnew σ)
    · rw [Function.update_of_ne hu]
  · rw [hq]
    exact h.nodup σ

end Threads

namespace PipeSys

/-! ## `rt_wqueue_wakeup` -/

section Wakeup

variable {s : PipeSys} {σ τ : Side} {t : TId}

theorem queue_setQueue_self {q : WQueue} : (s.setQueue σ q).pipe.queue σ = q :=
  Function.update_self ..

theorem queue_setQueue_of_ne {q : WQueue} (h : τ ≠ σ) : (s.setQueue σ q).pipe.queue τ = s.pipe.queue τ :=
  Function.update_of_ne h ..

/-- A cleared flag leaves the lists alone. -/
theorem waitingList_clear :
    ((s.setQueue σ { s.pipe.queue σ with flag := false }).pipe.queue τ).waitingList =
      (s.pipe.queue τ).waitingList := by
  by_cases h : τ = σ
  · subst h
    rw [queue_setQueue_self]
  · rw [queue_setQueue_of_ne h]

theorem resume_asleep {p : Pc} (h : p.Asleep σ) : ∃ op, op.side = σ ∧ p.resume = .inside .woken op := by
  unfold Pc.Asleep at h
  split at h
  · exact ⟨_, h, rfl⟩
  · exact absurd h id

/-- **What a wake-up does**: no thread sleeps and the flag is set, or the first one is resumed. -/
theorem rtWqueueWakeup_cases (i : Links s.pc s.pipe.queue) (σ : Side) :
    (s.rtWqueueWakeup σ).pipe.queue = Function.update s.pipe.queue σ
      ⟨true, (s.pipe.queue σ).waitingList.tail⟩ ∧
    ((s.pipe.queue σ).waitingList = [] ∧ (s.rtWqueueWakeup σ).pc = s.pc ∨
      ∃ u us op, (s.pipe.queue σ).waitingList = u :: us ∧ (s.pc u).Asleep σ ∧ op.side = σ ∧
        (s.rtWqueueWakeup σ).pc = Function.update s.pc u (.inside .woken op)) := by
  unfold rtWqueueWakeup
  cases hl : (s.pipe.queue σ).waitingList with
  | nil => exact ⟨rfl, Or.inl ⟨rfl, rfl⟩⟩
  | cons u us =>
    have hu : (s.pc u).Asleep σ := (i.mem σ u).mp (by rw [hl]; exact List.mem_cons_self)
    obtain ⟨op, hop, hresume⟩ := resume_asleep hu
    refine ⟨rfl, Or.inr ⟨u, us, op, rfl, hu, hop, ?_⟩⟩
    exact congrArg (Function.update s.pc u) hresume

theorem asleep_unique {p : Pc} (h : p.Asleep σ) (h' : p.Asleep τ) : σ = τ := by
  obtain ⟨op, hσ, hp⟩ := resume_asleep h
  obtain ⟨op', hτ, hp'⟩ := resume_asleep h'
  rw [hp, Pc.inside.injEq] at hp'
  rw [← hσ, ← hτ, hp'.2]

/-- A woken thread is neither asleep nor dozing. -/
theorem not_asleep_woken {op : Op} : ¬ (Pc.inside .woken op).Asleep σ := id

theorem links_rtWqueueWakeup (i : Links s.pc s.pipe.queue) :
    Links (s.rtWqueueWakeup σ).pc (s.rtWqueueWakeup σ).pipe.queue := by
  obtain ⟨hq, h⟩ := rtWqueueWakeup_cases i σ
  have hlist : ∀ τ, ((s.rtWqueueWakeup σ).pipe.queue τ).waitingList =
      if τ = σ then (s.pipe.queue σ).waitingList.tail else (s.pipe.queue τ).waitingList := by
    intro τ
    rw [hq]
    by_cases hτ : τ = σ
    · subst hτ
      simp
    · simp [hτ]
  refine ⟨fun τ v => ?_, fun τ => ?_⟩
  · rw [hlist]
    rcases h with ⟨hnil, hpc⟩ | ⟨u, us, op, hl, hu, -, hpc⟩
    · rw [hpc, ← i.mem]
      by_cases hτ : τ = σ
      · rw [if_pos hτ, hτ, hnil]
        rfl
      · rw [if_neg hτ]
    · have hnodup := List.nodup_cons.mp (hl ▸ i.nodup σ)
      rw [hpc]
      by_cases hv : v = u
      · subst hv
        rw [Function.update_self]
        refine iff_of_false (fun hm => ?_) not_asleep_woken
        by_cases hτ : τ = σ
        · rw [if_pos hτ, hl] at hm
          exact hnodup.1 hm
        · rw [if_neg hτ, i.mem] at hm
          exact hτ (asleep_unique hm hu)
      · rw [Function.update_of_ne hv, ← i.mem]
        by_cases hτ : τ = σ
        · rw [if_pos hτ, hτ, hl, List.tail_cons, List.mem_cons, or_iff_right hv]
        · rw [if_neg hτ]
  · rw [hlist]
    by_cases hτ : τ = σ
    · rw [if_pos hτ]
      exact (i.nodup σ).tail
    · rw [if_neg hτ]
      exact i.nodup τ

/-- **A side that was woken up has help.** -/
theorem relieved_rtWqueueWakeup (i : Links s.pc s.pipe.queue) (ht : ¬ (s.pc t).Asleep σ) :
    Relieved (s.rtWqueueWakeup σ).pc (s.rtWqueueWakeup σ).pipe.queue σ t := by
  obtain ⟨hq, h⟩ := rtWqueueWakeup_cases i σ
  rcases h with ⟨hnil, hpc⟩ | ⟨u, us, op, hl, hu, hop, hpc⟩
  · refine Or.inr ⟨fun v _ hv => ?_, Or.inl ?_⟩
    · rw [hpc, ← i.mem, hnil] at hv
      exact List.not_mem_nil hv
    · rw [hq, Function.update_self]
  · refine Or.inl ⟨u, ?_, ?_⟩
    · rintro rfl
      exact ht hu
    · rw [hpc, Function.update_self]
      exact hop

/-- For the other side, a wake-up changes no thread. -/
theorem rtWqueueWakeup_other (i : Links s.pc s.pipe.queue) (h : τ ≠ σ) :
    (s.rtWqueueWakeup σ).pipe.queue τ = s.pipe.queue τ ∧
      ∀ v, (((s.rtWqueueWakeup σ).pc v).Helps τ ↔ (s.pc v).Helps τ) ∧
        (((s.rtWqueueWakeup σ).pc v).Asleep τ ↔ (s.pc v).Asleep τ) ∧
        (((s.rtWqueueWakeup σ).pc v).Dozing τ ↔ (s.pc v).Dozing τ) := by
  obtain ⟨hq, hpc⟩ := rtWqueueWakeup_cases i σ
  refine ⟨by rw [hq, Function.update_of_ne h], fun v => ?_⟩
  rcases hpc with ⟨-, hpc⟩ | ⟨u, us, op, -, hu, hop, hpc⟩
  · rw [hpc]
    exact ⟨Iff.rfl, Iff.rfl, Iff.rfl⟩
  · rw [hpc]
    by_cases hv : v = u
    · subst hv
      rw [Function.update_self]
      have hne : op.side ≠ τ := fun he => h (he.symm.trans hop)
      have hasleep : ¬ (s.pc v).Asleep τ := fun ha => h (asleep_unique ha hu)
      have hquiet : ¬ (s.pc v).Helps τ ∧ ¬ (s.pc v).Dozing τ := by
        unfold Pc.Asleep at hu
        split at hu
        · rename_i hpc
          rw [hpc]
          exact ⟨id, id⟩
        · exact absurd hu id
      exact ⟨iff_of_false hne hquiet.1, iff_of_false id hasleep, iff_of_false id hquiet.2⟩
    · rw [Function.update_of_ne hv]
      exact ⟨Iff.rfl, Iff.rfl, Iff.rfl⟩

/-- **A wake-up, and a step of the thread that called it.** -/
theorem wakeup_setPc {p : Pc} (i : Links s.pc s.pipe.queue) (σ : Side) (hold : ∀ τ, ¬ (s.pc t).Asleep τ)
    (hnew : ∀ τ, ¬ p.Asleep τ) :
    Links ((s.rtWqueueWakeup σ).setPc t p).pc ((s.rtWqueueWakeup σ).setPc t p).pipe.queue ∧
      (¬ p.Dozing σ → Covered ((s.rtWqueueWakeup σ).setPc t p).pc
        ((s.rtWqueueWakeup σ).setPc t p).pipe.queue σ) := by
  have hpc : ∀ τ, ¬ ((s.rtWqueueWakeup σ).pc t).Asleep τ := by
    intro τ h
    obtain ⟨-, ⟨-, hpc⟩ | ⟨u, us, op, -, hu, -, hpc⟩⟩ := rtWqueueWakeup_cases i σ
    · rw [hpc] at h
      exact hold τ h
    · have hne : t ≠ u := by
        rintro rfl
        exact hold σ hu
      rw [hpc, Function.update_of_ne hne] at h
      exact hold τ h
  refine ⟨(links_rtWqueueWakeup i).update (fun _ => rfl) hpc hnew, fun hd => ?_⟩
  exact (relieved_rtWqueueWakeup i (hold σ)).update (hnew σ) hd

theorem wakeup_setPc_other {p : Pc} (i : Links s.pc s.pipe.queue) (h : τ ≠ σ)
    (hc : Covered (Function.update s.pc t p) s.pipe.queue τ) :
    Covered ((s.rtWqueueWakeup σ).setPc t p).pc ((s.rtWqueueWakeup σ).setPc t p).pipe.queue τ := by
  obtain ⟨hq, hsame⟩ := rtWqueueWakeup_other i h
  have hpc : ∀ v, ((((s.rtWqueueWakeup σ).setPc t p).pc v).Helps τ ↔
        (Function.update s.pc t p v).Helps τ) ∧
      ((((s.rtWqueueWakeup σ).setPc t p).pc v).Asleep τ ↔ (Function.update s.pc t p v).Asleep τ) ∧
      ((((s.rtWqueueWakeup σ).setPc t p).pc v).Dozing τ ↔ (Function.update s.pc t p v).Dozing τ) := by
    intro v
    by_cases hv : v = t
    · subst hv
      simp [setPc]
    · simpa [setPc, hv] using hsame v
  have hflag : ((s.rtWqueueWakeup σ).setPc t p).pipe.queue τ = s.pipe.queue τ := hq
  unfold Covered at hc ⊢
  simp only [hpc, hflag]
  exact hc

end Wakeup

/-! ## The property -/

/-- The bytes that the side finds: data to read, or space to write. -/
def room (s : PipeSys) (σ : Side) : Nat :=
  match s.pipe.fifo with
  | none => 0
  | some rb =>
      match σ with
      | .reader => rtRingbufferDataLen rb
      | .writer => rtRingbufferSpaceLen rb

/-- The side has something to do: there are bytes, or nobody is open on the other side. -/
def Needs (s : PipeSys) (σ : Side) : Prop := 0 < s.room σ ∨ s.users σ.opposite = 0

/-- No thread is in a call, or it is suspended there. -/
def Quiet (s : PipeSys) : Prop := ∀ t, s.pc t = .idle ∨ ∃ σ, (s.pc t).Asleep σ

/-- **Nobody is left asleep.** -/
def NoneLeftAsleep (s : PipeSys) : Prop :=
  s.Quiet → ∀ σ t, (s.pc t).Asleep σ → ¬ s.Needs σ

/-- The length of the call in a halfword does for what the pass finds. -/
def Fits (s : PipeSys) : Op → Prop
  | .read n _ => 0 < s.room .reader → u16 n ≠ 0
  | .write pbuf .. => u16 pbuf.length = pbuf.length ∨ s.room .writer ≤ u16 pbuf.length

/-- A pass of the call that returns leaves something to the other threads of the side. -/
def Leaves (s : PipeSys) : Op → Prop
  | .read n _ => s.pipe.writers = 0 ∨ u16 n < s.room .reader
  | .write pbuf .. => s.pipe.readers = 0 ∨ pbuf.length < s.room .writer

/-- The steps that leave nobody asleep: a pass with a length that fits, and, where it leaves something, no
other thread of its side asleep or about to sleep without help; and an open that creates a ring buffer finds
no reader. -/
def Attentive (s : PipeSys) : PipeAction → Prop
  | .step t =>
      ∀ op, s.pc t = .inside .take op →
        s.Fits op ∧ (s.Leaves op → Relieved s.pc s.pipe.queue op.side t)
  | .openFd _ _ => s.pipe.refCount = 0 → s.users .reader = 0
  | _ => True

/-! ## The invariant -/

structure WakeInv (s : PipeSys) : Prop where
  stream : StreamInv s.stream
  links : Links s.pc s.pipe.queue
  covered : ∀ σ, s.Needs σ → Covered s.pc s.pipe.queue σ

namespace WakeInv

variable {s s' : PipeSys} {t : TId} {mode : AccMode} {op : Op}

theorem init (h : s.Init) : WakeInv s := by
  refine ⟨StreamInv.init h, ?_, fun σ _ => ?_⟩
  · rw [h]
    exact ⟨fun σ t => iff_of_false List.not_mem_nil id, fun σ => List.nodup_nil⟩
  · rw [h]
    exact Or.inr ⟨fun _ => id, Or.inr fun _ => id⟩

/-- A quiet pipe has no help for a thread that is asleep. -/
theorem noneLeftAsleep (i : WakeInv s) : NoneLeftAsleep s := by
  intro hquiet σ t ht hneeds
  rcases i.covered σ hneeds with ⟨u, hu⟩ | ⟨hs, -⟩
  · rcases hquiet u with hidle | ⟨τ, hasleep⟩
    · rw [hidle] at hu
      exact hu
    · unfold Pc.Asleep at hasleep
      split at hasleep
      · rename_i hpc
        rw [hpc] at hu
        exact hu
      · exact hasleep
  · exact hs t ht

theorem needs_of_stream {σ : Side} (h : s'.stream = s.stream) (hn : s'.Needs σ) : s.Needs σ := by
  have hfifo : s'.pipe.fifo = s.pipe.fifo := congrArg Stream.fifo h
  have hfds : s'.fds = s.fds := congrArg Stream.fds h
  unfold Needs room users at hn ⊢
  rw [hfifo, hfds] at hn
  exact hn

/-- A thread moves, and nothing else happens to the pipe. -/
theorem move {p : Pc} (i : WakeInv s) (hstream : StreamInv s'.stream) (hpc : s'.pc = Function.update s.pc t p)
    (hqueue : s'.pipe.queue = s.pipe.queue) (hold : ∀ σ, ¬ (s.pc t).Asleep σ)
    (hnew : ∀ σ, ¬ p.Asleep σ)
    (hcov : ∀ σ, s'.Needs σ → Covered (Function.update s.pc t p) s.pipe.queue σ) : WakeInv s' := by
  refine ⟨hstream, ?_, fun σ hn => ?_⟩
  · rw [hpc, hqueue]
    exact i.links.update (fun _ => rfl) hold hnew
  · rw [hpc, hqueue]
    exact hcov σ hn

/-! ### Passes -/

theorem users_writer_ne_zero (i : StreamInv s.stream) (h : s.pipe.writers ≠ 0) :
    s.users .writer ≠ 0 := by
  intro h₀
  have hw : s.pipe.writers = s.users .writer % 256 := i.writers
  rw [h₀] at hw
  exact h hw

theorem users_reader_ne_zero (i : StreamInv s.stream) (h : s.pipe.readers ≠ 0) :
    s.users .reader ≠ 0 := by
  intro h₀
  have hr : s.pipe.readers = s.users .reader % 256 := i.readers
  rw [h₀] at hr
  exact h hr

theorem room_reader {rb : Ringbuffer} {bytes : List Byte} (hrb : s.pipe.fifo = some rb)
    (h : Represents rb bytes) : s.room .reader = bytes.length := by
  unfold room
  simp only [hrb]
  exact h.dataLen_eq

theorem room_writer {rb : Ringbuffer} {bytes : List Byte} (hrb : s.pipe.fifo = some rb)
    (h : Represents rb bytes) : s.room .writer = rb.bufferSize - bytes.length := by
  unfold room
  simp only [hrb]
  exact h.spaceLen_eq

/-- **A pass of a read.** -/
theorem passRead {n : Nat} {nonblock : Bool} (i : WakeInv s)
    (hpc : s.pc t = .inside .take (.read n nonblock)) (hfits : s.Fits (.read n nonblock))
    (hleaves : s.Leaves (.read n nonblock) → Relieved s.pc s.pipe.queue .reader t)
    (h : s.pass t (.read n nonblock) = some s') : WakeInv s' := by
  have hstream := i.stream.pass h
  have hold : ∀ σ, ¬ (s.pc t).Asleep σ := fun σ => by rw [hpc]; exact id
  have hhelps : ¬ (s.pc t).Helps .writer := by
    rw [hpc]
    exact fun h => by cases h
  rw [PipeSys.pass, Option.map_eq_some_iff] at h
  obtain ⟨r, hr, rfl⟩ := h
  unfold readPass at hr
  by_cases hw : s.pipe.writers = 0
  · -- the end of the file is for the others too
    rw [if_pos hw] at hr
    cases hr
    refine i.move hstream rfl rfl hold (fun _ => id) fun σ hn => ?_
    cases σ with
    | reader => exact (hleaves (Or.inl hw)).update id id
    | writer =>
      exact (i.covered .writer (needs_of_stream rfl hn)).update rfl (fun h => absurd h hhelps)
        False.elim False.elim
  rw [if_neg hw] at hr
  have husers := users_writer_ne_zero i.stream hw
  cases hrb : s.pipe.fifo with
  | none =>
    rw [hrb] at hr
    cases hr
  | some rb =>
    obtain ⟨-, -, bytes, -, hrep, -⟩ := i.stream.fifo rb hrb
    obtain ⟨rb', hget, -, hrep'⟩ := hrep.get (u16 n)
    have hroom := room_reader hrb hrep
    simp only [hrb, hget] at hr
    split_ifs at hr with hlen hblock
    · -- the writers are woken up, and the others get what is left
      cases hr
      dsimp only at hstream ⊢
      have hwake := wakeup_setPc (s := (s.setFifo (some rb')).deliver (bytes.take (u16 n)))
        (p := .idle) i.links .writer hold fun _ => id
      refine ⟨hstream, hwake.1, fun σ hn => ?_⟩
      cases σ with
      | writer => exact hwake.2 id
      | reader =>
        apply wakeup_setPc_other (s := (s.setFifo (some rb')).deliver (bytes.take (u16 n))) i.links
          (by decide)
        have hneeds : ((s.setFifo (some rb')).deliver (bytes.take (u16 n))).Needs .reader :=
          needs_of_stream (stream_finish.trans stream_rtWqueueWakeup) hn
        rcases hneeds with hn | hn
        · have hrest : 0 < (bytes.drop (u16 n)).length := by
            rwa [room_reader rfl hrep'] at hn
          rw [List.length_drop] at hrest
          exact (hleaves (Or.inr (by omega))).update id id
        · exact absurd hn husers
    all_goals
      -- there was nothing to read
      have hempty : s.room .reader = 0 := by
        by_contra hne
        have hn := hfits (Nat.pos_of_ne_zero hne)
        omega
      cases hr
      dsimp only at hstream ⊢
      refine i.move hstream rfl rfl hold (fun _ => id) fun σ hn => ?_
      cases σ with
      | reader =>
        rcases needs_of_stream rfl hn with hn | hn
        · exact absurd hempty hn.ne'
        · exact absurd hn husers
      | writer =>
        refine (i.covered .writer (needs_of_stream rfl hn)).update rfl (fun h => absurd h hhelps)
          ?_ ?_
        · exact False.elim
        · exact fun h => by cases h

/-- **A pass of a write.** -/
theorem passWrite {pbuf : List Byte} {ret : Nat} {nonblock wakeup : Bool} (i : WakeInv s)
    (hpc : s.pc t = .inside .take (.write pbuf ret nonblock wakeup))
    (hfits : s.Fits (.write pbuf ret nonblock wakeup))
    (hleaves : s.Leaves (.write pbuf ret nonblock wakeup) →
      Relieved s.pc s.pipe.queue .writer t)
    (h : s.pass t (.write pbuf ret nonblock wakeup) = some s') : WakeInv s' := by
  have hstream := i.stream.pass h
  have hold : ∀ σ, ¬ (s.pc t).Asleep σ := fun σ => by rw [hpc]; exact id
  have hhelps : ¬ (s.pc t).Helps .reader := by
    rw [hpc]
    exact fun h => by cases h
  rw [PipeSys.pass, Option.map_eq_some_iff] at h
  obtain ⟨r, hr, rfl⟩ := h
  unfold writePass at hr
  by_cases hw : s.pipe.readers = 0
  · -- no reader is there for the other writers either
    rw [if_pos hw] at hr
    cases hr
    dsimp only at hstream ⊢
    have hcov : ∀ p : Pc, (∀ σ, ¬ p.Asleep σ) → (∀ σ, ¬ p.Dozing σ) → ∀ σ, s.Needs σ →
        Covered (Function.update s.pc t p) s.pipe.queue σ := by
      intro p hsleep hdoze σ hn
      cases σ with
      | writer => exact (hleaves (Or.inl hw)).update (hsleep _) (hdoze _)
      | reader =>
        exact (i.covered .reader hn).update rfl (fun h => absurd h hhelps)
          (fun h => absurd h (hsleep _)) (fun h => absurd h (hdoze _))
    by_cases hwake : wakeup = true
    · rw [if_pos hwake] at hstream ⊢
      exact i.move hstream rfl rfl hold (fun _ => id) fun σ hn =>
        hcov _ (fun _ => id) (fun _ => id) σ (needs_of_stream rfl hn)
    · rw [if_neg hwake] at hstream ⊢
      exact i.move hstream rfl rfl hold (fun _ => id) fun σ hn =>
        hcov _ (fun _ => id) (fun _ => id) σ (needs_of_stream rfl hn)
  rw [if_neg hw] at hr
  have husers := users_reader_ne_zero i.stream hw
  cases hrb : s.pipe.fifo with
  | none =>
    rw [hrb] at hr
    cases hr
  | some rb =>
    obtain ⟨-, -, bytes, -, hrep, -⟩ := i.stream.fifo rb hrb
    obtain ⟨k, rb', hput, hk, hsize, hrep'⟩ := put_u16 hrep pbuf
    have hroom := room_writer hrb hrep
    have hle := hrep'.len_le
    simp only [hrb, hput, Option.some.injEq] at hr
    subst hr
    dsimp only at hstream ⊢
    have hk' : k = min pbuf.length (s.room .writer) := by
      rw [hroom, hk]
      rcases hfits with h | h
      · rw [h]
      · have hmod : u16 pbuf.length ≤ pbuf.length := Nat.mod_le _ _
        omega
    -- the space behind the put
    have hspace : ∀ s'' : PipeSys, s''.pipe.fifo = some rb' →
        s''.room .writer = s.room .writer - k := by
      intro s'' hfifo
      rw [room_writer hfifo hrep', hsize, hroom, List.length_append, List.length_take]
      omega
    by_cases hall : k = pbuf.length
    · rw [if_pos hall] at hstream ⊢
      refine i.move hstream rfl rfl hold (fun _ => id) fun σ hn => ?_
      cases σ with
      | reader => exact covered_of_helps rfl
      | writer =>
        rcases hn with hn | hn
        · rw [hspace _ rfl] at hn
          exact (hleaves (Or.inr (by omega))).update id id
        · exact absurd hn husers
    · -- the buffer is full
      rw [if_neg hall] at hstream ⊢
      have hfull : ∀ s'' : PipeSys, s''.pipe.fifo = some rb' → s''.fds = s.fds →
          ¬ s''.Needs .writer := by
        rintro s'' hfifo hfds (hn | hn)
        · rw [hspace s'' hfifo] at hn
          omega
        · unfold users at hn husers
          rw [hfds] at hn
          exact husers hn
      by_cases hblock : nonblock = true
      · rw [if_pos hblock] at hstream ⊢
        refine i.move hstream rfl rfl hold (fun _ => id) fun σ hn => ?_
        cases σ with
        | reader => exact covered_of_helps rfl
        | writer => exact absurd hn (hfull _ rfl rfl)
      · rw [if_neg hblock] at hstream ⊢
        refine i.move hstream rfl rfl hold (fun _ => id) fun σ hn => ?_
        cases σ with
        | reader => exact covered_of_helps rfl
        | writer => exact absurd hn (hfull _ rfl rfl)

/-! ### The other steps -/

/-- A thread that is no help moves, with nothing else to the pipe. -/
theorem stay {p : Pc} (i : WakeInv s) (hstream : s'.stream = s.stream)
    (hpc : s'.pc = Function.update s.pc t p) (hqueue : s'.pipe.queue = s.pipe.queue)
    (hold : ∀ σ, ¬ (s.pc t).Asleep σ) (hnew : ∀ σ, ¬ p.Asleep σ)
    (hhelps : ∀ σ, (s.pc t).Helps σ → p.Helps σ) (hdozing : ∀ σ, p.Dozing σ → (s.pc t).Dozing σ) :
    WakeInv s' := by
  refine i.move (by rw [hstream]; exact i.stream) hpc hqueue hold hnew fun σ hn => ?_
  exact (i.covered σ (needs_of_stream hstream hn)).update rfl (hhelps σ)
    (fun h => absurd h (hnew σ)) (hdozing σ)

/-- A thread wakes up a side and moves on; for the other side it is no less help than before. -/
theorem wakeUp {p : Pc} {σ : Side} (i : WakeInv s) (hstream : s'.stream = s.stream)
    (hpc : s'.pc = ((s.rtWqueueWakeup σ).setPc t p).pc)
    (hqueue : s'.pipe.queue = ((s.rtWqueueWakeup σ).setPc t p).pipe.queue)
    (hold : ∀ τ, ¬ (s.pc t).Asleep τ) (hnew : ∀ τ, ¬ p.Asleep τ) (hdoze : ¬ p.Dozing σ)
    (hhelps : (s.pc t).Helps σ.opposite → p.Helps σ.opposite)
    (hdozing : p.Dozing σ.opposite → (s.pc t).Dozing σ.opposite) : WakeInv s' := by
  obtain ⟨hlinks, hcov⟩ := wakeup_setPc i.links σ hold hnew
  refine ⟨by rw [hstream]; exact i.stream, by rw [hpc, hqueue]; exact hlinks, fun τ hn => ?_⟩
  rw [hpc, hqueue]
  by_cases hτ : τ = σ
  · rw [hτ]
    exact hcov hdoze
  · obtain rfl := Side.eq_opposite hτ
    apply wakeup_setPc_other i.links hτ
    exact (i.covered _ (needs_of_stream hstream hn)).update rfl hhelps (fun h => absurd h (hnew _))
      hdozing

/-- The first part of `rt_wqueue_wait`: a thread that goes to sleep found no flag, so that it has help. -/
theorem wait (i : WakeInv s) (hpc : s.pc t = .inside .wait op) : WakeInv (s.rtWqueueWait t op) := by
  have hstream : StreamInv (s.rtWqueueWait t op).stream := by
    rw [stream_rtWqueueWait]
    exact i.stream
  have hneeds : ∀ σ, (s.rtWqueueWait t op).Needs σ → Covered s.pc s.pipe.queue σ := fun σ hn =>
    i.covered σ (needs_of_stream stream_rtWqueueWait hn)
  have hout : ∀ σ, ¬ (s.pc t).Asleep σ := fun σ => by rw [hpc]; exact id
  have hhelps : ∀ σ, ¬ (s.pc t).Helps σ := fun σ => by rw [hpc]; exact id
  unfold rtWqueueWait at hstream hneeds ⊢
  by_cases hf : (s.pipe.queue op.side).flag = true
  · simp only [if_pos hf] at hstream hneeds ⊢
    refine ⟨hstream, i.links.update (fun _ => waitingList_clear) hout (fun _ => id), fun σ hn => ?_⟩
    · by_cases hσ : σ = op.side
      · exact covered_of_helps hσ.symm
      · refine (hneeds σ hn).update (queue_setQueue_of_ne hσ) (fun h => absurd h (hhelps σ)) ?_ ?_
        · exact False.elim
        · exact False.elim
  · simp only [if_neg hf] at hstream hneeds ⊢
    have hlist : ∀ σ, ((s.setQueue op.side { s.pipe.queue op.side with
        waitingList := (s.pipe.queue op.side).waitingList ++ [t] }).pipe.queue σ).waitingList =
        if σ = op.side then (s.pipe.queue σ).waitingList ++ [t] else (s.pipe.queue σ).waitingList := by
      intro σ
      by_cases hσ : σ = op.side
      · subst hσ
        simp [setQueue]
      · simp [setQueue, hσ]
    have hnot : ∀ σ, t ∉ (s.pipe.queue σ).waitingList := fun σ h => hout σ ((i.links.mem σ t).mp h)
    refine ⟨hstream, ⟨fun σ v => ?_, fun σ => ?_⟩, fun σ hn => ?_⟩
    · change v ∈ ((s.setQueue op.side _).pipe.queue σ).waitingList ↔
        (Function.update s.pc t (.inside .sleep op) v).Asleep σ
      rw [hlist]
      by_cases hv : v = t
      · subst hv
        rw [Function.update_self]
        by_cases hσ : σ = op.side
        · rw [if_pos hσ]
          exact iff_of_true (List.mem_append_right _ (List.mem_singleton_self v)) hσ.symm
        · rw [if_neg hσ]
          exact iff_of_false (hnot σ) fun h => hσ h.symm
      · rw [Function.update_of_ne hv, ← i.links.mem]
        by_cases hσ : σ = op.side
        · rw [if_pos hσ, List.mem_append, List.mem_singleton, or_iff_left hv]
        · rw [if_neg hσ]
    · change ((s.setQueue op.side _).pipe.queue σ).waitingList.Nodup
      rw [hlist]
      by_cases hσ : σ = op.side
      · rw [if_pos hσ]
        refine List.nodup_append.mpr ⟨i.links.nodup σ, List.nodup_singleton t, ?_⟩
        rintro v hv u hu rfl
        exact hnot σ (List.mem_singleton.mp hu ▸ hv)
      · rw [if_neg hσ]
        exact i.links.nodup σ
    · by_cases hσ : σ = op.side
      · subst hσ
        rcases hneeds _ hn with ⟨u, hu⟩ | ⟨-, hflag | hdoze⟩
        · refine Or.inl ⟨u, ?_⟩
          change (Function.update s.pc t (.inside .sleep op) u).Helps op.side
          rw [Function.update_of_ne]
          · exact hu
          · rintro rfl
            exact hhelps _ hu
        · exact absurd hflag hf
        · exact absurd (by rw [hpc]; rfl) (hdoze t)
      · refine (hneeds σ hn).update (queue_setQueue_of_ne hσ) (fun h => absurd h (hhelps σ))
          (fun h => absurd h.symm hσ) False.elim

/-- The second part of `rt_wqueue_wait`. -/
theorem woken (i : WakeInv s) (hpc : s.pc t = .inside .woken op) :
    WakeInv (s.rtWqueueWoken t op) := by
  have hout : ∀ σ, ¬ (s.pc t).Asleep σ := fun σ => by rw [hpc]; exact id
  refine ⟨i.stream, i.links.update (fun _ => waitingList_clear) hout (fun _ => id), fun σ hn => ?_⟩
  · by_cases hσ : σ = op.side
    · exact covered_of_helps hσ.symm
    · refine (i.covered σ (needs_of_stream rfl hn)).update (queue_setQueue_of_ne hσ) (fun h => ?_)
        False.elim False.elim
      rw [hpc] at h
      exact absurd h.symm hσ

/-- **A step of a call.** -/
theorem step (i : WakeInv s) (hc : s.Attentive (.step t)) (h : s.step t = some s') : WakeInv s' := by
  unfold PipeSys.step at h
  cases hpc : s.pc t with
  | idle =>
    rw [hpc] at h
    cases h
  | inside stage op =>
    rw [hpc] at h
    cases stage with
    | take =>
      dsimp only at h
      split_ifs at h
      obtain ⟨hfits, hleaves⟩ := hc op hpc
      cases op with
      | read n nonblock => exact i.passRead hpc hfits hleaves h
      | write pbuf ret nonblock wakeup => exact i.passWrite hpc hfits hleaves h
    | wake =>
      cases h
      refine i.wakeUp (stream_setPc.trans stream_rtWqueueWakeup) rfl rfl (fun τ => ?_) (fun _ => id)
        Side.opposite_ne.symm (fun h => ?_) fun h => ?_
      · rw [hpc]
        exact id
      · rw [hpc] at h
        exact absurd h.symm Side.opposite_ne
      · rw [hpc]
        exact h
    | wait =>
      cases h
      exact i.wait hpc
    | sleep => cases h
    | woken =>
      cases h
      exact i.woken hpc
  | written r =>
    rw [hpc] at h
    cases h
    refine i.wakeUp (stream_finish.trans stream_rtWqueueWakeup) rfl rfl (fun τ => ?_) (fun _ => id) id
      (fun h => ?_) False.elim
    · rw [hpc]
      exact id
    · rw [hpc] at h
      cases h
  | closing r w =>
    have hout : ∀ σ, ¬ (s.pc t).Asleep σ := fun σ => by rw [hpc]; exact id
    rw [hpc] at h
    cases r with
    | true =>
      cases h
      refine i.wakeUp (stream_setPc.trans stream_rtWqueueWakeup) rfl rfl hout (fun _ => id) id
        (fun h => ?_) False.elim
      rw [hpc] at h
      exact Or.inr (h.resolve_left fun h => by cases h.2)
    | false =>
      cases w with
      | true =>
        cases h
        refine i.wakeUp (stream_setPc.trans stream_rtWqueueWakeup) rfl rfl hout (fun _ => id) id
          (fun h => ?_) False.elim
        rw [hpc] at h
        rcases h with h | h <;> cases h.1
        cases h.2
      | false =>
        cases h
        refine i.move i.stream.closeEnd rfl rfl hout (fun _ => id) fun σ hn => ?_
        have hneeds : s.Needs σ := by
          refine hn.imp_left fun hn => ?_
          unfold room PipeSys.closeEnd at hn
          by_cases hlast : s.pipe.refCount = 1
          · simp only [if_pos hlast] at hn
            exact absurd hn (lt_irrefl 0)
          · simp only [if_neg hlast] at hn
            exact hn
        refine (i.covered σ hneeds).update rfl (fun h => ?_) False.elim False.elim
        rw [hpc] at h
        rcases h with h | h <;> cases h.1
  | closed =>
    rw [hpc] at h
    cases h
    refine i.stay rfl rfl rfl (fun σ => ?_) (fun _ => id) (fun σ => ?_) fun _ => False.elim
    · rw [hpc]
      exact id
    · rw [hpc]
      exact id

theorem fifo_count {f : Nat → Nat} {p : Pipe} : (count f mode p).fifo = p.fifo := by
  cases mode <;> rfl

theorem queue_count {f : Nat → Nat} {p : Pipe} : (count f mode p).queue = p.queue := by
  cases mode <;> rfl

theorem users_opened {σ : Side} (h : (s.opened mode).users σ = 0) : s.users σ = 0 := by
  cases σ <;> cases mode <;> simp [opened, users, Function.update] at h ⊢ <;> omega

/-- **A descriptor is opened.** -/
theorem openFd {pool : Option (Nat → Byte)} (i : WakeInv s)
    (hc : s.pipe.refCount = 0 → s.users .reader = 0) (h : s.pipeFopsOpen mode pool = some s') :
    WakeInv s' := by
  have hstream := i.stream.openFd h
  unfold pipeFopsOpen at h
  by_cases hr : s.pipe.refCount = 0
  · rw [if_pos hr] at h
    cases hcreate : rtRingbufferCreate s.pipe.bufsz pool with
    | none =>
      rw [hcreate] at h
      cases h
    | some fifo =>
      rw [hcreate] at h
      cases fifo with
      | none =>
        cases h
        refine ⟨hstream, i.links, fun σ hn => i.covered σ (hn.imp_left fun hn => ?_)⟩
        exact absurd hn (lt_irrefl 0)
      | some rb =>
        cases h
        have hqueue : ({ s.setFifo (some rb) with
            lives := ⟨[], []⟩ :: s.lives }.opened mode).pipe.queue = s.pipe.queue := queue_count
        have hempty : ({ s.setFifo (some rb) with
            lives := ⟨[], []⟩ :: s.lives }.opened mode).room .reader = 0 :=
          room_reader fifo_count (represents_create hcreate)
        refine ⟨hstream, by rw [hqueue]; exact i.links, fun σ hn => ?_⟩
        rw [hqueue]
        refine i.covered σ (Or.inr ?_)
        cases σ with
        | reader =>
          rcases hn with hn | hn
          · exact absurd hempty hn.ne'
          · exact users_opened hn
        | writer => exact hc hr
  · rw [if_neg hr] at h
    cases h
    have hqueue : (s.opened mode).pipe.queue = s.pipe.queue := queue_count
    have hfifo : (s.opened mode).pipe.fifo = s.pipe.fifo := fifo_count
    refine ⟨hstream, by rw [hqueue]; exact i.links, fun σ hn => ?_⟩
    rw [hqueue]
    refine i.covered σ (hn.imp (fun hn => ?_) users_opened)
    unfold room at hn ⊢
    rwa [hfifo] at hn

/-- **A descriptor is closed**: the close that leaves a side alone is going to wake it up. -/
theorem closeFd (i : WakeInv s) (hpc : s.pc t = .idle) (h : 0 < s.fds mode) :
    WakeInv (s.pipeFopsClose t mode) := by
  have hstream := i.stream.closeFd (t := t) h
  have hfifo : (s.pipeFopsClose t mode).pipe.fifo = s.pipe.fifo := fifo_count
  have hidle : ∀ σ, ¬ (s.pc t).Asleep σ ∧ ¬ (s.pc t).Helps σ := by
    intro σ
    rw [hpc]
    exact ⟨id, id⟩
  refine i.move hstream rfl queue_count (fun σ => (hidle σ).1) (fun _ => id) fun σ hn => ?_
  rcases hn with hn | hn
  · have hroom : 0 < s.room σ := by
      unfold room at hn ⊢
      rwa [hfifo] at hn
    exact (i.covered σ (Or.inl hroom)).update rfl (fun h => absurd h (hidle σ).2) False.elim False.elim
  · apply covered_of_helps
    cases σ with
    | reader =>
      have hw : (count dec mode s.pipe).writers = (s.pipeFopsClose t mode).users .writer % 256 :=
        hstream.writers
      rw [show (s.pipeFopsClose t mode).users .writer = 0 from hn] at hw
      exact Or.inl ⟨decide_eq_true hw, rfl⟩
    | writer =>
      have hr : (count dec mode s.pipe).readers = (s.pipeFopsClose t mode).users .reader % 256 :=
        hstream.readers
      rw [show (s.pipeFopsClose t mode).users .reader = 0 from hn] at hr
      exact Or.inr ⟨decide_eq_true hr, rfl⟩

theorem exec {a : PipeAction} (i : WakeInv s) (h : s.exec a = some s') (hc : s.Attentive a) :
    WakeInv s' := by
  have hstream := i.stream.exec h
  have hidle : ∀ t, s.pc t = .idle → ∀ σ, ¬ (s.pc t).Asleep σ ∧ ¬ (s.pc t).Helps σ := by
    intro t hpc σ
    rw [hpc]
    exact ⟨id, id⟩
  unfold PipeSys.exec at h
  by_cases hd : s.deleted = true
  · rw [if_pos hd] at h
    cases h
  rw [if_neg hd] at h
  cases a with
  | openFd mode pool =>
    dsimp only at h
    split_ifs at h
    exact i.openFd hc h
  | closeFd t mode =>
    dsimp only at h
    split_ifs at h with hg
    cases h
    exact i.closeFd hg.2.1 hg.2.2
  | read t n nonblock =>
    dsimp only at h
    split_ifs at h with hpc hw
    · cases h
      refine i.move hstream rfl rfl (fun σ => (hidle t hpc σ).1) (fun _ => id) fun σ hn => ?_
      exact (i.covered σ (needs_of_stream rfl hn)).update rfl (fun h => absurd h (hidle t hpc σ).2)
        False.elim False.elim
    · cases h
      exact i.stay rfl rfl rfl (fun σ => (hidle t hpc σ).1) (fun _ => id)
        (fun σ h => absurd h (hidle t hpc σ).2) fun _ => False.elim
  | write t buf nonblock =>
    dsimp only at h
    split_ifs at h with hpc hr hb <;> cases h <;>
      exact i.stay rfl rfl rfl (fun σ => (hidle t hpc σ).1) (fun _ => id)
        (fun σ h => absurd h (hidle t hpc σ).2) fun _ => False.elim
  | step t => exact i.step hc h

end WakeInv

/-- **Nobody is left asleep** in a run in which a call that returns and leaves something finds no other
thread of its side asleep, or about to sleep, that relies on it. -/
theorem none_left_asleep {s : PipeSys}
    (h : Reachable Init (fun s a s' => exec s a = some s' ∧ Attentive s a) s) : NoneLeftAsleep s := by
  have hinv : WakeInv s := by
    apply h.invariant (fun _ h => WakeInv.init h)
    intro s a s' _ hi ha
    exact hi.exec ha.1 ha.2
  exact hinv.noneLeftAsleep

section Cases

/-- A reader finds an empty pipe, and sleeps. -/
theorem none_left_asleep_empty : ∃ s, NoneLeftAsleep s ∧ (s.pc 1).Asleep .reader := by
  have h₀ : Reachable Init (fun s a s' => exec s a = some s' ∧ Attentive s a) (start true 4) :=
    .init init_start
  have h₁ := h₀.step (a := PipeAction.openFd .rdonly (some fun _ => 0)) ⟨rfl, fun _ => rfl⟩
  have h₂ := h₁.step (a := PipeAction.openFd .wronly none) ⟨rfl, fun h => by cases h⟩
  have h₃ := h₂.step (a := PipeAction.read 1 1 false) ⟨rfl, trivial⟩
  have h₄ := h₃.step (a := PipeAction.step 1) ⟨rfl, fun op hop => by
    cases hop
    refine ⟨fun _ => by decide, fun h => ?_⟩
    rcases h with h | h
    · exact absurd h (by decide)
    · exact absurd h (by decide)⟩
  have h₅ := h₄.step (a := PipeAction.step 1) ⟨rfl, fun op hop => by cases hop⟩
  have h₆ := h₅.step (a := PipeAction.step 1) ⟨rfl, fun op hop => by cases hop⟩
  exact ⟨_, none_left_asleep h₆, rfl⟩

/-- Two readers sleep when the last writer closes. The first one is woken up and returns. -/
theorem reader_left_asleep :
    ¬ ∀ s, Reachable Init (fun s a s' => exec s a = some s') s → NoneLeftAsleep s := by
  intro hclaim
  have hrun : ∃ s, runList exec (start true 4)
      [.openFd .rdonly (some fun _ => 0), .openFd .wronly none, .read 1 1 false, .step 1, .step 1,
        .step 1, .read 2 1 false, .step 2, .step 2, .step 2, .closeFd 3 .wronly, .step 3, .step 3,
        .step 3, .step 1, .step 1] = some s ∧
      s.Quiet ∧ (s.pc 2).Asleep .reader ∧ s.users .writer = 0 := by
    refine ⟨_, rfl, fun t => ?_, rfl, rfl⟩
    match t with
    | 0 | 1 | 3 => exact Or.inl rfl
    | 2 => exact Or.inr ⟨.reader, rfl⟩
    | _ + 4 => exact Or.inl rfl
  obtain ⟨s, hrun, hquiet, hasleep, husers⟩ := hrun
  exact hclaim s (reachable_of_run hrun) hquiet .reader 2 hasleep (Or.inr husers)

end Cases

end PipeSys

end RTThread.Pipes
