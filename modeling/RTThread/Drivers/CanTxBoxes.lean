import RTThread.Drivers.CanTx
import RTThread.Lib.Count
import RTThread.Lib.Update

set_option autoImplicit false

/-! # Who uses a mailbox

What a step of a thread changes is told by what its place means: whether it has taken the semaphore, which mailbox
it uses, and which mailboxes a mode switch has still to look at. Each part of the invariant is about one of these.
-/

namespace RTThread.Can

/-! ## What a place means -/

/-- The mode of a writer that waits for its own message. -/
def Why.mode : Why → Option Bool
  | .normal => some false
  | .priv => some true
  | .busy => none

/-- The mailbox that a writer uses, and whether it is in private mode. -/
def TxPc.use : TxPc → Option (Bool × Nat)
  | .mark _ no => some (false, no)
  | .send priv _ no => some (priv, no)
  | .refused _ no => some (false, no)
  | .wait w _ no => w.mode.map fun priv => (priv, no)
  | .suspended w _ no => w.mode.map fun priv => (priv, no)
  | .woken w _ no => w.mode.map fun priv => (priv, no)
  | .done w _ no => w.mode.map fun priv => (priv, no)
  | _ => none

/-- The thread has taken the semaphore and not released it. -/
def TxPc.Token : TxPc → Prop
  | .taken _ => True
  | .mark _ _ => True
  | .send priv _ _ => priv = false
  | .refused _ _ => True
  | .again _ => True
  | .wait w _ _ => w = .normal
  | .suspended w _ _ => w = .normal
  | .woken w _ _ => w = .normal
  | .done w _ _ => w = .normal
  | .release _ _ => True
  | _ => False

/-- A mode switch has still to look at the mailbox. -/
def TxPc.Pending (no : Nat) : TxPc → Prop
  | .controlled => True
  | .switch _ i => i ≤ no
  | _ => False

/-- The transmission has ended; in private mode, well. -/
def Ended (w : Why) (b : SndBox) : Prop := b.inflight = false ∧ (w = .priv → b.result = .ok)

/-- Nobody waits for the mailbox, and nothing is on its way. -/
def Clear (b : SndBox) : Prop := b.flag = false ∧ b.waiter = none ∧ b.inflight = false

/-- The mailbox that the thread uses is as it is to be at this place. -/
def Phase (box : Nat → SndBox) (t : ThreadId) : TxPc → Prop
  | .mark _ no => Clear (box no)
  | .send _ _ no => Clear (box no)
  | .refused _ no => Clear (box no)
  | .wait w _ no => w ≠ .busy ∧ (box no).waiter = none ∧
      ((box no).inflight = true ∧ (box no).flag = false ∨ Ended w (box no) ∧ (box no).flag = true)
  | .suspended w _ no => w ≠ .busy ∧ (box no).waiter = some t ∧ (box no).flag = false ∧ (box no).inflight = true
  | .woken w _ no => w ≠ .busy ∧ (box no).waiter = none ∧ Ended w (box no) ∧ (box no).flag = true
  | .done w _ no => w ≠ .busy ∧ (box no).waiter = none ∧ Ended w (box no) ∧ (box no).flag = false
  | _ => True

theorem use_wait {w : Why} (hw : w ≠ .busy) (no : Nat) :
    ∃ priv, w.mode.map (fun priv => (priv, no)) = some (priv, no) := by
  cases w with
  | normal => exact ⟨false, rfl⟩
  | priv => exact ⟨true, rfl⟩
  | busy => exact absurd rfl hw

theorem mode_normal {w : Why} {no k : Nat} (h : w.mode.map (fun priv => (priv, no)) = some (false, k)) :
    w = .normal := by
  cases w with
  | normal => rfl
  | priv => cases h
  | busy => cases h

/-- A writer that uses a mailbox in normal mode has taken the semaphore. -/
theorem token_of_use {p : TxPc} {no : Nat} (h : p.use = some (false, no)) : p.Token := by
  cases p with
  | mark j k => exact trivial
  | send priv j k => exact (Prod.mk.inj (Option.some.inj h)).1
  | refused j k => exact trivial
  | wait w j k => exact mode_normal h
  | suspended w j k => exact mode_normal h
  | woken w j k => exact mode_normal h
  | done w j k => exact mode_normal h
  | _ => cases h

/-- The phase is about the mailbox that is used. -/
theorem Phase.congr {box box' : Nat → SndBox} {t : ThreadId} {p : TxPc} (h : Phase box t p)
    (hb : ∀ priv no, p.use = some (priv, no) → box' no = box no) : Phase box' t p := by
  cases p with
  | mark j no => simpa only [Phase, hb _ no rfl] using h
  | send priv j no => simpa only [Phase, hb _ no rfl] using h
  | refused j no => simpa only [Phase, hb _ no rfl] using h
  | wait w j no =>
      obtain ⟨priv, hu⟩ := use_wait h.1 no
      simpa only [Phase, hb priv no hu] using h
  | suspended w j no =>
      obtain ⟨priv, hu⟩ := use_wait h.1 no
      simpa only [Phase, hb priv no hu] using h
  | woken w j no =>
      obtain ⟨priv, hu⟩ := use_wait h.1 no
      simpa only [Phase, hb priv no hu] using h
  | done w j no =>
      obtain ⟨priv, hu⟩ := use_wait h.1 no
      simpa only [Phase, hb priv no hu] using h
  | _ => exact trivial

/-! ## The semaphore -/

/-- The semaphore and the threads that have taken it are as many as the mailboxes. -/
structure SemOk (n sem : Nat) (queue : List ThreadId) (pc : ThreadId → TxPc) : Prop where
  tokens : ∃ k, Counts (fun t => (pc t).Token) k ∧ sem + k = n
  nodup : queue.Nodup
  queued : ∀ t, t ∈ queue ↔ ∃ j, pc t = .queued j
  waits : queue ≠ [] → sem = 0

namespace SemOk

variable {n sem : Nat} {queue : List ThreadId} {pc : ThreadId → TxPc} {t u : ThreadId} {p : TxPc}

theorem queued_update {queue' : List ThreadId} (h : SemOk n sem queue pc) (ht : ∀ j, pc t ≠ .queued j)
    (hp : ∀ j, p ≠ .queued j) (hq : ∀ u, u ∈ queue' ↔ u ∈ queue) (u : ThreadId) :
    u ∈ queue' ↔ ∃ j, Function.update pc t p u = .queued j := by
  rw [hq, h.queued]
  refine (update_iff (P := fun q : TxPc => ∃ j, q = .queued j) (iff_of_false ?_ ?_) u).symm
  · exact fun ⟨j, hj⟩ => hp j hj
  · exact fun ⟨j, hj⟩ => ht j hj

theorem token_update (hu : u ≠ t) : (Function.update pc t p u).Token ↔ (pc u).Token := by
  rw [Function.update_of_ne hu]

theorem move (h : SemOk n sem queue pc) (ht : ∀ j, pc t ≠ .queued j) (hp : ∀ j, p ≠ .queued j)
    (htoken : p.Token ↔ (pc t).Token) : SemOk n sem queue (Function.update pc t p) := by
  obtain ⟨k, hk, hsum⟩ := h.tokens
  exact ⟨⟨k, hk.congr (update_iff htoken), hsum⟩, h.nodup, h.queued_update ht hp fun _ => Iff.rfl, h.waits⟩

/-- A thread takes the semaphore. -/
theorem take (h : SemOk n sem queue pc) (hsem : 0 < sem) (ht : ∀ j, pc t ≠ .queued j)
    (hp : ∀ j, p ≠ .queued j) (hno : ¬ (pc t).Token) (hp' : p.Token) :
    SemOk n (sem - 1) queue (Function.update pc t p) := by
  obtain ⟨k, hk, hsum⟩ := h.tokens
  refine ⟨⟨k + 1, hk.gain hno ?_ fun u hu => token_update hu, by omega⟩, h.nodup,
    h.queued_update ht hp fun _ => Iff.rfl, fun hne => ?_⟩
  · rw [Function.update_self]
    exact hp'
  · rw [h.waits hne]

/-- A thread is suspended on the semaphore. -/
theorem queue_up {j : Job} (h : SemOk n sem queue pc) (hsem : sem = 0) (ht : ∀ j, pc t ≠ .queued j)
    (hno : ¬ (pc t).Token) : SemOk n sem (queue ++ [t]) (Function.update pc t (.queued j)) := by
  obtain ⟨k, hk, hsum⟩ := h.tokens
  have hnot : t ∉ queue := fun hm => by
    obtain ⟨j, hj⟩ := (h.queued t).mp hm
    exact ht j hj
  refine ⟨⟨k, hk.congr (update_iff (iff_of_false id hno)), hsum⟩, ?_, fun u => ?_, fun _ => hsem⟩
  · exact (List.perm_append_singleton t queue).nodup_iff.mpr (List.nodup_cons.mpr ⟨hnot, h.nodup⟩)
  · by_cases hut : u = t
    · subst hut
      rw [Function.update_self]
      exact iff_of_true (by simp) ⟨j, rfl⟩
    · rw [Function.update_of_ne hut, ← h.queued, List.mem_append]
      exact or_iff_left (by simpa using hut)

/-- A thread releases the semaphore, and nobody waits for it. -/
theorem release (h : SemOk n sem [] pc) (ht : (pc t).Token) (hp : ¬ p.Token) (hp' : ∀ j, p ≠ .queued j) :
    SemOk n (sem + 1) [] (Function.update pc t p) := by
  obtain ⟨k, hk, hsum⟩ := h.tokens
  have hpos := hk.pos ht
  obtain ⟨m, rfl⟩ : ∃ m, k = m + 1 := ⟨k - 1, by omega⟩
  have ht' : ∀ j, pc t ≠ .queued j := by
    intro j hj
    rw [hj] at ht
    exact ht
  refine ⟨⟨m, hk.leave ht ?_ fun u hu => token_update hu, by omega⟩, List.nodup_nil,
    h.queued_update ht' hp' fun _ => Iff.rfl, fun hne => absurd rfl hne⟩
  rw [Function.update_self]
  exact hp

/-- A thread releases the semaphore, and the first that waits for it goes on. -/
theorem hand_over {j : Job} (h : SemOk n sem (u :: queue) pc) (hu : pc u = .queued j) (ht : (pc t).Token)
    (hp : ¬ p.Token) (hp' : ∀ j, p ≠ .queued j) :
    SemOk n sem queue (Function.update (Function.update pc u (.taken j)) t p) := by
  obtain ⟨hnot, hnd⟩ := List.nodup_cons.mp h.nodup
  obtain ⟨k, hk, hsum⟩ := h.tokens
  have hpos := hk.pos ht
  obtain ⟨m, rfl⟩ : ∃ m, k = m + 1 := ⟨k - 1, by omega⟩
  have ht' : ∀ j, pc t ≠ .queued j := by
    intro j hj
    rw [hj] at ht
    exact ht
  have htu : t ≠ u := by
    rintro rfl
    exact ht' j hu
  have hself := Function.update_self u (TxPc.taken j) pc
  have hoff : ∀ v, v ≠ u → Function.update pc u (.taken j) v = pc v := fun v hv => Function.update_of_ne hv _ _
  have hone : Counts (fun v => (Function.update pc u (.taken j) v).Token) (m + 1 + 1) := by
    refine hk.gain (a := u) ?_ ?_ fun v hv => ?_
    · rw [hu]
      exact id
    · rw [hself]
      exact trivial
    · rw [hoff v hv]
  refine ⟨⟨m + 1, hone.leave (a := t) ?_ ?_ fun v hv => token_update hv, hsum⟩, hnd, fun v => ?_, fun _ => ?_⟩
  · rw [hoff t htu]
    exact ht
  · rw [Function.update_self]
    exact hp
  · by_cases hvt : v = t
    · subst hvt
      rw [Function.update_self]
      refine iff_of_false (fun hm => ?_) fun ⟨j, hj⟩ => hp' j hj
      obtain ⟨j, hj⟩ := (h.queued v).mp (List.mem_cons_of_mem u hm)
      exact ht' j hj
    · rw [Function.update_of_ne hvt]
      by_cases hvu : v = u
      · subst hvu
        rw [hself]
        exact iff_of_false hnot (by simp)
      · rw [hoff v hvu, ← h.queued, List.mem_cons]
        exact (or_iff_right hvu).symm
  · exact h.waits (List.cons_ne_nil u queue)

end SemOk

/-! ## The users -/

section Update

variable {pc : ThreadId → TxPc} {t u : ThreadId} {p : TxPc} {b : Bool} {no : Nat}

theorem use_update (hu : (Function.update pc t p u).use = some (b, no)) :
    u = t ∧ p.use = some (b, no) ∨ u ≠ t ∧ (pc u).use = some (b, no) :=
  of_update (P := fun q : TxPc => q.use = some (b, no)) hu

theorem use_self (hp : p.use = some (b, no)) : (Function.update pc t p t).use = some (b, no) := by
  rw [Function.update_self]
  exact hp

theorem use_other (hut : u ≠ t) (hu : (pc u).use = some (b, no)) :
    (Function.update pc t p u).use = some (b, no) := by
  rw [Function.update_of_ne hut]
  exact hu

/-- The others use what they used. -/
theorem use_before (hp : p.use ≠ some (b, no)) (hu : (Function.update pc t p u).use = some (b, no)) :
    u ≠ t ∧ (pc u).use = some (b, no) :=
  (use_update hu).resolve_left fun h => hp h.2

/-- A mailbox that nobody uses afterwards, and that the thread did not use. -/
theorem unused_before (hun : ∀ u b, (Function.update pc t p u).use ≠ some (b, no))
    (ht : ∀ b, (pc t).use ≠ some (b, no)) (u : ThreadId) (b : Bool) : (pc u).use ≠ some (b, no) := by
  intro hu
  by_cases hut : u = t
  · subst hut
    exact ht b hu
  · exact hun u b (use_other hut hu)

end Update

/-- A mailbox has one user at most. -/
structure UseOk (n : Nat) (pc : ThreadId → TxPc) : Prop where
  unique : ∀ t u b c no, (pc t).use = some (b, no) → (pc u).use = some (c, no) → t = u
  lt : ∀ t b no, (pc t).use = some (b, no) → no < n

namespace UseOk

variable {n no : Nat} {pc : ThreadId → TxPc} {t u : ThreadId} {p : TxPc} {b : Bool}

/-- A thread uses what it used, or no mailbox. -/
theorem move (h : UseOk n pc) (hp : p.use = (pc t).use ∨ p.use = none) : UseOk n (Function.update pc t p) := by
  have hold : ∀ u b no, (Function.update pc t p u).use = some (b, no) → (pc u).use = some (b, no) := by
    intro u b no hu
    rcases use_update hu with ⟨hut, hu⟩ | ⟨-, hu⟩
    · rcases hp with hp | hp
      · rwa [hut, ← hp]
      · rw [hp] at hu
        cases hu
    · exact hu
  exact ⟨fun u v b c no hu hv => h.unique u v b c no (hold u b no hu) (hold v c no hv),
    fun u b no hu => h.lt u b no (hold u b no hu)⟩

/-- A thread uses a mailbox that nobody uses. -/
theorem gain (h : UseOk n pc) (hp : p.use = some (b, no)) (hno : no < n)
    (hfree : ∀ u c, (pc u).use ≠ some (c, no)) : UseOk n (Function.update pc t p) := by
  have hold : ∀ u c k, (Function.update pc t p u).use = some (c, k) → u = t ∧ c = b ∧ k = no ∨
      u ≠ t ∧ (pc u).use = some (c, k) := by
    intro u c k hu
    refine (use_update hu).imp_left fun ⟨hut, hu⟩ => ?_
    obtain ⟨rfl, rfl⟩ := Prod.mk.inj (Option.some.inj (hp.symm.trans hu))
    exact ⟨hut, rfl, rfl⟩
  refine ⟨fun u v c d k hu hv => ?_, fun u c k hu => ?_⟩
  · rcases hold u c k hu with ⟨rfl, -, rfl⟩ | ⟨-, hu⟩
    · rcases hold v d k hv with ⟨rfl, -, -⟩ | ⟨-, hv⟩
      · rfl
      · exact absurd hv (hfree v d)
    · rcases hold v d k hv with ⟨-, -, rfl⟩ | ⟨-, hv⟩
      · exact absurd hu (hfree u c)
      · exact h.unique u v c d k hu hv
  · rcases hold u c k hu with ⟨-, -, rfl⟩ | ⟨-, hu⟩
    · exact hno
    · exact h.lt u c k hu

end UseOk

/-! ## The modes -/

/-- The mailbox is one of normal mode. -/
def Pooled (free : List Nat) (pc : ThreadId → TxPc) (no : Nat) : Prop :=
  no ∈ free ∨ ∃ t, (pc t).use = some (false, no)

/-- The mailboxes of normal mode are those in `freelist` and those that its writers use. Each mode switch changes
the mode first, and then moves one mailbox after the other. -/
structure ModeOk (n : Nat) (privmode : Bool) (free : List Nat) (pc : ThreadId → TxPc) : Prop where
  normal : ∀ t no, (pc t).use = some (false, no) → no ∉ free
  shared : ∀ t no, (pc t).use = some (true, no) → no ∈ free → ∃ u, (pc u).Pending no
  modes : ∀ no < n, ∃ k, Counts (fun t => (pc t).Pending no) k ∧
    (Pooled free pc no ↔ (privmode = false ↔ Even k))

namespace ModeOk

variable {n i : Nat} {privmode : Bool} {free free' : List Nat} {pc : ThreadId → TxPc} {t u : ThreadId} {p : TxPc}

/-- The mailboxes of normal mode are the same. -/
theorem change (h : ModeOk n privmode free pc) (hlt : ∀ no ∈ free', no < n)
    (hpend : ∀ no < n, p.Pending no ↔ (pc t).Pending no)
    (hpool : ∀ no, Pooled free' (Function.update pc t p) no ↔ Pooled free pc no)
    (hnormal : ∀ u no, (Function.update pc t p u).use = some (false, no) → no ∉ free')
    (hshared : ∀ u no, (Function.update pc t p u).use = some (true, no) → no ∈ free' → ∃ v, (pc v).Pending no) :
    ModeOk n privmode free' (Function.update pc t p) := by
  refine ⟨hnormal, fun u no hu hno => ?_, fun no hno => ?_⟩
  · obtain ⟨v, hv⟩ := hshared u no hu hno
    exact ⟨v, (update_iff (P := TxPc.Pending no) (hpend no (hlt no hno)) v).mpr hv⟩
  · obtain ⟨k, hk, hiff⟩ := h.modes no hno
    exact ⟨k, hk.congr (update_iff (hpend no hno)), (hpool no).trans hiff⟩

/-- A thread uses what it used. -/
theorem move (h : ModeOk n privmode free pc) (hlt : ∀ no ∈ free, no < n) (hp : p.use = (pc t).use)
    (hpend : ∀ no < n, p.Pending no ↔ (pc t).Pending no) : ModeOk n privmode free (Function.update pc t p) := by
  have hsame : ∀ u, (Function.update pc t p u).use = (pc u).use := update_map hp
  refine h.change hlt hpend (fun no => ?_) (fun u no hu => h.normal u no (hsame u ▸ hu))
    fun u no hu hno => h.shared u no (hsame u ▸ hu) hno
  unfold Pooled
  simp only [hsame]

/-- A writer takes a mailbox from `freelist`. -/
theorem take (h : ModeOk n privmode (i :: free) pc) (hlt : ∀ no ∈ i :: free, no < n) (hnd : i ∉ free)
    (ht : (pc t).use = none) (hp : p.use = some (false, i)) (hpend : ∀ no < n, p.Pending no ↔ (pc t).Pending no) :
    ModeOk n privmode free (Function.update pc t p) := by
  refine h.change (fun no hno => hlt no (List.mem_cons_of_mem i hno)) hpend (fun no => ?_) (fun u no hu => ?_)
    fun u no hu hno => ?_
  · unfold Pooled
    constructor
    · rintro (hno | ⟨u, hu⟩)
      · exact .inl (List.mem_cons_of_mem i hno)
      · rcases use_update hu with ⟨-, hu⟩ | ⟨-, hu⟩
        · rw [hp] at hu
          obtain ⟨-, rfl⟩ := Prod.mk.inj (Option.some.inj hu)
          exact .inl List.mem_cons_self
        · exact .inr ⟨u, hu⟩
    · rintro (hno | ⟨u, hu⟩)
      · rcases List.mem_cons.mp hno with rfl | hno
        · exact .inr ⟨t, use_self hp⟩
        · exact .inl hno
      · have hut : u ≠ t := by
          rintro rfl
          rw [ht] at hu
          cases hu
        exact .inr ⟨u, use_other hut hu⟩
  · rcases use_update hu with ⟨-, hu⟩ | ⟨-, hu⟩
    · rw [hp] at hu
      obtain ⟨-, rfl⟩ := Prod.mk.inj (Option.some.inj hu)
      exact hnd
    · exact fun hm => h.normal u no hu (List.mem_cons_of_mem i hm)
  · exact h.shared u no (use_before (by simp [hp]) hu).2 (List.mem_cons_of_mem i hno)

/-- A writer of normal mode puts its mailbox back. -/
theorem give (h : ModeOk n privmode free pc) (huse : UseOk n pc) (hlt : ∀ no ∈ free', no < n)
    (hfree : ∀ no, no ∈ free' ↔ no = i ∨ no ∈ free) (ht : (pc t).use = some (false, i)) (hp : p.use = none)
    (hpend : ∀ no < n, p.Pending no ↔ (pc t).Pending no) : ModeOk n privmode free' (Function.update pc t p) := by
  have hold : ∀ u b no, (Function.update pc t p u).use = some (b, no) → (pc u).use = some (b, no) ∧ no ≠ i := by
    intro u b no hu
    obtain ⟨hut, hu⟩ := use_before (by simp [hp]) hu
    refine ⟨hu, ?_⟩
    rintro rfl
    exact hut (huse.unique u t b false no hu ht)
  refine h.change hlt hpend (fun no => ?_) (fun u no hu hm => ?_) fun u no hu hno => ?_
  · unfold Pooled
    rw [hfree]
    constructor
    · rintro ((rfl | hno) | ⟨u, hu⟩)
      · exact .inr ⟨t, ht⟩
      · exact .inl hno
      · exact .inr ⟨u, (hold u false no hu).1⟩
    · rintro (hno | ⟨u, hu⟩)
      · exact .inl (.inr hno)
      · by_cases hut : u = t
        · subst hut
          rw [ht] at hu
          exact .inl (.inl (Prod.mk.inj (Option.some.inj hu)).2.symm)
        · exact .inr ⟨u, use_other hut hu⟩
  · obtain ⟨hu, hne⟩ := hold u false no hu
    exact h.normal u no hu (((hfree no).mp hm).resolve_left hne)
  · obtain ⟨hu, hne⟩ := hold u true no hu
    exact h.shared u no hu (((hfree no).mp hno).resolve_left hne)

/-- A writer of private mode takes a mailbox, in this mode. -/
theorem gain (h : ModeOk n true free pc) (hlt : ∀ no ∈ free, no < n) (ht : (pc t).use = none)
    (hp : p.use = some (true, i)) (hpend : ∀ no < n, p.Pending no ↔ (pc t).Pending no) :
    ModeOk n true free (Function.update pc t p) := by
  refine h.change hlt hpend (fun no => ?_) (fun u no hu => ?_) fun u no hu hno => ?_
  · refine or_congr Iff.rfl ⟨fun ⟨u, hu⟩ => ⟨u, (use_before (by simp [hp]) hu).2⟩,
      fun ⟨u, hu⟩ => ⟨u, use_other ?_ hu⟩⟩
    rintro rfl
    rw [ht] at hu
    cases hu
  · exact h.normal u no (use_before (by simp [hp]) hu).2
  · rcases use_update hu with ⟨-, hu⟩ | ⟨-, hu⟩
    · rw [hp] at hu
      obtain ⟨-, rfl⟩ := Prod.mk.inj (Option.some.inj hu)
      -- in private mode a mailbox is in `freelist` only before a mode switch has looked at it
      obtain ⟨k, ⟨P, hP, hcard⟩, hiff⟩ := h.modes i (hlt i hno)
      have hodd : ¬ Even k := fun he => Bool.noConfusion ((hiff.mp (.inl hno)).mpr he)
      have hne : P.Nonempty := by
        rw [← Finset.card_pos, hcard]
        rcases Nat.eq_zero_or_pos k with rfl | hk
        · exact absurd ⟨0, rfl⟩ hodd
        · exact hk
      obtain ⟨v, hv⟩ := hne
      exact ⟨v, (hP v).mp hv⟩
    · exact h.shared u no hu hno

/-- A writer of private mode is through with its mailbox. -/
theorem drop (h : ModeOk n privmode free pc) (hlt : ∀ no ∈ free, no < n) (ht : (pc t).use = some (true, i))
    (hp : p.use = none) (hpend : ∀ no < n, p.Pending no ↔ (pc t).Pending no) :
    ModeOk n privmode free (Function.update pc t p) := by
  have hold : ∀ u b no, (Function.update pc t p u).use = some (b, no) → (pc u).use = some (b, no) :=
    fun u b no hu => (use_before (by simp [hp]) hu).2
  refine h.change hlt hpend (fun no => ?_) (fun u no hu => h.normal u no (hold u false no hu))
    fun u no hu hno => h.shared u no (hold u true no hu) hno
  refine or_congr Iff.rfl ⟨fun ⟨u, hu⟩ => ⟨u, hold u false no hu⟩, fun ⟨u, hu⟩ => ⟨u, use_other ?_ hu⟩⟩
  rintro rfl
  rw [ht] at hu
  cases hu

/-- The mode changes, and a mode switch has to look at all mailboxes. -/
theorem control (h : ModeOk n privmode free pc) (ht : (pc t).use = none) (hp : p.use = none)
    (hnone : ∀ no, ¬ (pc t).Pending no) (hall : ∀ no, p.Pending no) :
    ModeOk n (!privmode) free (Function.update pc t p) := by
  have hsame : ∀ u, (Function.update pc t p u).use = (pc u).use := update_map (hp.trans ht.symm)
  refine ⟨fun u no hu => h.normal u no (hsame u ▸ hu), fun u no hu hno => ?_, fun no hno => ?_⟩
  · refine ⟨t, ?_⟩
    rw [Function.update_self]
    exact hall no
  · obtain ⟨k, hk, hiff⟩ := h.modes no hno
    refine ⟨k + 1, hk.gain (hnone no) ?_ fun u hu => ?_, ?_⟩
    · rw [Function.update_self]
      exact hall no
    · rw [Function.update_of_ne hu]
    · have hpool : Pooled free (Function.update pc t p) no ↔ Pooled free pc no := by
        unfold Pooled
        simp only [hsame]
      rw [hpool, hiff, Nat.even_add_one]
      cases privmode with
      | true => simp
      | false => simp

/-- A mode switch moves a mailbox. -/
theorem switch (h : ModeOk n privmode free pc) (ht : (pc t).use = none) (hp : p.use = none)
    (hpend : (pc t).Pending i) (hdone : ¬ p.Pending i) (hother : ∀ no, no ≠ i → (p.Pending no ↔ (pc t).Pending no))
    (hfree : ∀ no, no ≠ i → (no ∈ free' ↔ no ∈ free)) (hflip : i ∈ free' ↔ i ∉ free)
    (hunused : i ∈ free' → ∀ u b, (pc u).use ≠ some (b, i)) :
    ModeOk n privmode free' (Function.update pc t p) := by
  have hsame : ∀ u, (Function.update pc t p u).use = (pc u).use := update_map (hp.trans ht.symm)
  refine ⟨fun u no hu hm => ?_, fun u no hu hm => ?_, fun no hno => ?_⟩
  · rw [hsame] at hu
    by_cases hni : no = i
    · subst hni
      exact hunused hm u false hu
    · exact h.normal u no hu ((hfree no hni).mp hm)
  · rw [hsame] at hu
    by_cases hni : no = i
    · subst hni
      exact absurd hu (hunused hm u true)
    · obtain ⟨v, hv⟩ := h.shared u no hu ((hfree no hni).mp hm)
      exact ⟨v, (update_iff (P := TxPc.Pending no) (hother no hni) v).mpr hv⟩
  · obtain ⟨k, hk, hiff⟩ := h.modes no hno
    by_cases hni : no = i
    · subst hni
      have hpos := hk.pos hpend
      obtain ⟨m, rfl⟩ : ∃ m, k = m + 1 := ⟨k - 1, by omega⟩
      refine ⟨m, hk.leave hpend ?_ fun u hu => ?_, ?_⟩
      · rw [Function.update_self]
        exact hdone
      · rw [Function.update_of_ne hu]
      · have hnew : Pooled free' (Function.update pc t p) no ↔ ¬ Pooled free pc no := by
          unfold Pooled
          simp only [hsame]
          constructor
          · rintro (hm | ⟨u, hu⟩)
            · rintro (hm' | ⟨u, hu⟩)
              · exact hflip.mp hm hm'
              · exact hunused hm u false hu
            · have hm' : no ∈ free' := hflip.mpr (h.normal u no hu)
              exact absurd hu (hunused hm' u false)
          · intro hnot
            exact .inl (hflip.mpr fun hm => hnot (.inl hm))
        rw [hnew, hiff, Nat.even_add_one]
        tauto
    · refine ⟨k, hk.congr (update_iff (hother no hni)), ?_⟩
      rw [← hiff]
      unfold Pooled
      simp only [hsame, hfree no hni]

end ModeOk

/-! ## The mailboxes -/

/-- A mailbox that nobody uses is clear, and ready for a writer of private mode if it is not in `freelist`. -/
structure BoxOk (box : Nat → SndBox) (free : List Nat) (pc : ThreadId → TxPc) : Prop where
  unused : ∀ no, (∀ t b, (pc t).use ≠ some (b, no)) → Clear (box no) ∧ (no ∉ free → (box no).result = .ok)
  phase : ∀ t, Phase box t (pc t)

namespace BoxOk

variable {n no : Nat} {box box' : Nat → SndBox} {free free' : List Nat} {pc : ThreadId → TxPc} {t u : ThreadId}
  {p : TxPc} {b c : Bool}

/-- The other threads look at other mailboxes. -/
theorem phase_update (h : BoxOk box free pc) (hphase : Phase box' t p)
    (hbox : ∀ u, u ≠ t → ∀ b k, (pc u).use = some (b, k) → box' k = box k) (u : ThreadId) :
    Phase box' u (Function.update pc t p u) := by
  by_cases hut : u = t
  · subst hut
    rw [Function.update_self]
    exact hphase
  · rw [Function.update_of_ne hut]
    exact (h.phase u).congr fun b k hu => hbox u hut b k hu

/-- A thread uses what it used, and the mailboxes stay as they are. -/
theorem move (h : BoxOk box free pc) (hp : p.use = (pc t).use) (hphase : Phase box t p)
    (hfree : ∀ k, k ∉ free' → k ∈ free → (∀ t b, (pc t).use ≠ some (b, k)) → (box k).result = .ok) :
    BoxOk box free' (Function.update pc t p) := by
  refine ⟨fun k hun => ?_, h.phase_update hphase fun _ _ _ _ _ => rfl⟩
  have hun' := unused_before hun fun b hu => hun t b (use_self (hp.trans hu))
  obtain ⟨hclear, hok⟩ := h.unused k hun'
  refine ⟨hclear, fun hm => ?_⟩
  by_cases hm' : k ∈ free
  · exact hfree k hm hm' hun'
  · exact hok hm'

/-- A thread changes the mailbox that it uses. -/
theorem own (h : BoxOk box free pc) (huse : UseOk n pc) (ht : (pc t).use = some (b, no))
    (hp : p.use = some (c, no)) (hphase : Phase box' t p) (hbox : ∀ k, k ≠ no → box' k = box k) :
    BoxOk box' free (Function.update pc t p) := by
  refine ⟨fun k hun => ?_, h.phase_update hphase fun u hut d k hu => hbox k ?_⟩
  · have hkn : k ≠ no := by
      rintro rfl
      exact hun t c (use_self hp)
    rw [hbox k hkn]
    refine h.unused k (unused_before hun fun d hu => ?_)
    rw [ht] at hu
    exact hkn (Prod.mk.inj (Option.some.inj hu)).2.symm
  · rintro rfl
    exact hut (huse.unique u t d b k hu ht)

/-- A thread takes a mailbox that nobody uses. -/
theorem gain (h : BoxOk box free pc) (hfree : ∀ u b, (pc u).use ≠ some (b, no)) (hp : p.use = some (b, no))
    (hphase : Phase box' t p) (hbox : ∀ k, k ≠ no → box' k = box k)
    (hkeep : ∀ k, k ≠ no → k ∈ free → k ∈ free') (ht : (pc t).use = none) :
    BoxOk box' free' (Function.update pc t p) := by
  refine ⟨fun k hun => ?_, h.phase_update hphase fun u hut d k hu => hbox k ?_⟩
  · have hkn : k ≠ no := by
      rintro rfl
      exact hun t b (use_self hp)
    rw [hbox k hkn]
    obtain ⟨hclear, hok⟩ := h.unused k (unused_before hun fun d => by simp [ht])
    exact ⟨hclear, fun hm => hok fun hm' => hm (hkeep k hkn hm')⟩
  · rintro rfl
    exact hfree u d hu

/-- A thread is through with its mailbox. -/
theorem drop (h : BoxOk box free pc) (ht : (pc t).use = some (b, no)) (hphase : Phase box t p)
    (hclear : Clear (box no)) (hok : no ∉ free' → (box no).result = .ok)
    (hkeep : ∀ k, k ∈ free → k ∈ free') : BoxOk box free' (Function.update pc t p) := by
  refine ⟨fun k hun => ?_, h.phase_update hphase fun _ _ _ _ _ => rfl⟩
  by_cases hkn : k = no
  · subst hkn
    exact ⟨hclear, hok⟩
  · obtain ⟨hclear', hok'⟩ := h.unused k <| unused_before hun fun d hu => by
      rw [ht] at hu
      exact hkn (Prod.mk.inj (Option.some.inj hu)).2.symm
    exact ⟨hclear', fun hm => hok' fun hm' => hm (hkeep k hm')⟩

end BoxOk

end RTThread.Can
