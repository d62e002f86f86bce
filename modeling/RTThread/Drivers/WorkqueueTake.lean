import RTThread.Drivers.Workqueue

set_option autoImplicit false

/-! # What the work threads execute

A work thread that was resumed takes the first entry of its list and does not look again whether there is
one. As long as nothing empties the list in front of it, and it is resumed only for a list that has a work,
it takes a linked work; then each submission is executed at most once, and none that was removed before.
-/

namespace RTThread.Workqueue

open Trans

namespace WqSys

/-- **The work threads execute submitted work only**: none of them took the head of its list for a work, a
linked work was submitted and has its number, no number is executed twice, and none that was removed. -/
structure TakesSubmitted (s : WqSys) : Prop where
  head : ∀ q, s.worker q ≠ .lost
  linked : ∀ q, ∀ w ∈ s.list q, ∃ n, s.ticket w = some n ∧ n < s.issued ∧ n ∉ s.executed
  once : s.executed.Nodup
  issued : ∀ n ∈ s.executed, n < s.issued
  removed : ∀ n ∈ s.executed, n ∉ s.dropped

/-- No resumed work thread, that of `q` apart, relies on `w` as the only work in its list. -/
def SparesBut (s : WqSys) (q : QId) (w : WId) : Prop :=
  ∀ q', q' ≠ q → s.worker q' = .take → s.list q' ≠ [w]

/-- No resumed work thread relies on `w` as the only work in its list. -/
def Spares (s : WqSys) (w : WId) : Prop := ∀ q, s.worker q = .take → s.list q ≠ [w]

/-- No step takes the last work from the list of a resumed work thread, and a work thread is resumed only
for a list that has a work. -/
def Careful (s : WqSys) : WqAction → Prop
  | .submit q w =>
      (s.wq.work w).pending = false → (s.wq.queue q).workCurrent ≠ some w → s.SparesBut q w
  | .critical q w => (s.wq.queue q).workCurrent ≠ some w → s.SparesBut q w
  | .resume q => s.worker q = .suspended → s.list q ≠ []
  | .cancel q w => (s.wq.queue q).workCurrent ≠ some w → s.Spares w
  | .cancelAll _ w => s.Spares w
  | .cancelSync q w => (s.wq.queue q).workCurrent ≠ some w → s.Spares w
  | _ => True

end WqSys

/-! ## The numbers of the submissions -/

/-- The numbers in use are those of linked works, executed works and removed works, without repetition. -/
structure Numbered (issued : Nat) (ticket : WId → Option Nat) (executed dropped : List Nat) : Prop where
  fresh : ∀ w n, ticket w = some n → n < issued ∧ n ∉ executed ∧ n ∉ dropped
  inj : ∀ w w' n, ticket w = some n → ticket w' = some n → w = w'
  issued : ∀ n, n ∈ executed ∨ n ∈ dropped → n < issued
  once : executed.Nodup
  removed : ∀ n ∈ executed, n ∉ dropped

namespace Numbered

variable {issued : Nat} {ticket : WId → Option Nat} {executed dropped : List Nat} {w : WId}

/-- A work gives its number away. -/
theorem release (i : Numbered issued ticket executed dropped) :
    ∀ w' n, Function.update ticket w none w' = some n → ticket w' = some n ∧ ticket w ≠ some n := by
  intro w' n h
  by_cases hw : w' = w
  · rw [hw, Function.update_self] at h
    cases h
  · rw [Function.update_of_ne hw] at h
    exact ⟨h, fun hn => hw (i.inj w' w n h hn)⟩

theorem drop (i : Numbered issued ticket executed dropped) :
    Numbered issued (Function.update ticket w none) executed ((ticket w).toList ++ dropped) := by
  constructor
  case fresh =>
    intro w' n h
    obtain ⟨hn, hne⟩ := i.release w' n h
    obtain ⟨h₁, h₂, h₃⟩ := i.fresh w' n hn
    exact ⟨h₁, h₂, by simp [h₃, hne]⟩
  case inj =>
    intro w₁ w₂ n h₁ h₂
    exact i.inj w₁ w₂ n (i.release w₁ n h₁).1 (i.release w₂ n h₂).1
  case issued =>
    intro n hn
    rcases hn with hn | hn
    · exact i.issued n (Or.inl hn)
    · rcases List.mem_append.mp hn with hn | hn
      · exact (i.fresh w n (Option.mem_toList.mp hn)).1
      · exact i.issued n (Or.inr hn)
  case once => exact i.once
  case removed =>
    intro n hn hd
    rcases List.mem_append.mp hd with hd | hd
    · exact (i.fresh w n (Option.mem_toList.mp hd)).2.1 hn
    · exact i.removed n hn hd

theorem execute (i : Numbered issued ticket executed dropped) :
    Numbered issued (Function.update ticket w none) ((ticket w).toList ++ executed) dropped := by
  constructor
  case fresh =>
    intro w' n h
    obtain ⟨hn, hne⟩ := i.release w' n h
    obtain ⟨h₁, h₂, h₃⟩ := i.fresh w' n hn
    exact ⟨h₁, by simp [h₂, hne], h₃⟩
  case inj =>
    intro w₁ w₂ n h₁ h₂
    exact i.inj w₁ w₂ n (i.release w₁ n h₁).1 (i.release w₂ n h₂).1
  case issued =>
    intro n hn
    rcases hn with hn | hn
    · rcases List.mem_append.mp hn with hn | hn
      · exact (i.fresh w n (Option.mem_toList.mp hn)).1
      · exact i.issued n (Or.inl hn)
    · exact i.issued n (Or.inr hn)
  case once =>
    refine List.nodup_append.mpr ⟨?_, i.once, ?_⟩
    · cases ticket w with
      | none => exact List.nodup_nil
      | some n => exact List.nodup_singleton n
    · rintro n hn m hm rfl
      exact (i.fresh w n (Option.mem_toList.mp hn)).2.1 hm
  case removed =>
    intro n hn hd
    rcases List.mem_append.mp hn with hn | hn
    · exact (i.fresh w n (Option.mem_toList.mp hn)).2.2 hd
    · exact i.removed n hn hd

theorem issue (i : Numbered issued ticket executed dropped) :
    Numbered (issued + 1) (Function.update ticket w (some issued)) executed dropped := by
  have hold : ∀ w' n, Function.update ticket w (some issued) w' = some n →
      w' = w ∧ n = issued ∨ w' ≠ w ∧ ticket w' = some n := by
    intro w' n h
    by_cases hw : w' = w
    · rw [hw, Function.update_self] at h
      exact Or.inl ⟨hw, (Option.some.inj h).symm⟩
    · rw [Function.update_of_ne hw] at h
      exact Or.inr ⟨hw, h⟩
  constructor
  case fresh =>
    intro w' n h
    rcases hold w' n h with ⟨-, rfl⟩ | ⟨-, h⟩
    · refine ⟨Nat.lt_succ_self n, fun hn => ?_, fun hn => ?_⟩
      · exact lt_irrefl n (i.issued n (Or.inl hn))
      · exact lt_irrefl n (i.issued n (Or.inr hn))
    · obtain ⟨h₁, h₂, h₃⟩ := i.fresh w' n h
      exact ⟨h₁.trans (Nat.lt_succ_self _), h₂, h₃⟩
  case inj =>
    intro w₁ w₂ n h₁ h₂
    rcases hold w₁ n h₁ with ⟨hw₁, hn⟩ | ⟨-, h₁⟩
    · rcases hold w₂ n h₂ with ⟨hw₂, -⟩ | ⟨-, h₂⟩
      · exact hw₁.trans hw₂.symm
      · exact absurd hn (i.fresh w₂ n h₂).1.ne
    · rcases hold w₂ n h₂ with ⟨-, hn⟩ | ⟨-, h₂⟩
      · exact absurd hn (i.fresh w₁ n h₁).1.ne
      · exact i.inj w₁ w₂ n h₁ h₂
  case issued =>
    intro n hn
    exact (i.issued n hn).trans (Nat.lt_succ_self _)
  case once => exact i.once
  case removed => exact i.removed

end Numbered

/-! ## The lists -/

/-- A work is linked once at most, and what is linked has a number. -/
structure Listed (list : QId → List WId) (ticket : WId → Option Nat) : Prop extends Linked list where
  ticket : ∀ q, ∀ w ∈ list q, ticket w ≠ none

namespace Listed

variable {list list' : QId → List WId} {ticket : WId → Option Nat} {w : WId} {q : QId} {n : Nat}

theorem unlink (i : Listed list ticket) :
    Listed (fun q => (list q).erase w) (Function.update ticket w none) := by
  refine ⟨i.toLinked.unlink, fun q v hv => ?_⟩
  obtain ⟨hne, hv⟩ := (i.nodup q).mem_erase_iff.mp hv
  rw [Function.update_of_ne hne]
  exact i.ticket q v hv

theorem link (i : Listed list ticket) (hw : ∀ q, w ∉ list q) :
    Listed (fun q' => if q' = q then list q' ++ [w] else list q')
      (Function.update ticket w (some n)) := by
  refine ⟨i.toLinked.link hw, fun q' v hv => ?_⟩
  rcases Linked.mem_link.mp hv with hold | ⟨hvw, -⟩
  · have hne : v ≠ w := by
      rintro rfl
      exact hw q' hold
    rw [Function.update_of_ne hne]
    exact i.ticket q' v hold
  · rw [hvw, Function.update_self]
    exact Option.some_ne_none n

theorem congr (i : Listed list ticket) (h : ∀ q, list' q = list q) : Listed list' ticket := by
  rw [funext h]
  exact i

end Listed

namespace WqSys

/-! ## The invariant -/

structure TakeInv (s : WqSys) : Prop where
  numbered : Numbered s.issued s.ticket s.executed s.dropped
  listed : Listed s.list s.ticket
  -- what a resumed work thread relies on
  take : ∀ q, s.worker q = .take → s.list q ≠ []
  head : ∀ q, s.worker q ≠ .lost

namespace TakeInv

variable {s s' : WqSys} {q : QId} {w : WId}

theorem init (h : s.Init) : TakeInv s := by
  obtain ⟨hqueue, hworker, -, -, hissued, hticket, hexecuted, hdropped⟩ := h
  have hlist : ∀ q, s.list q = [] := fun q => by rw [list, hqueue]
  constructor
  case numbered =>
    rw [hissued, hexecuted, hdropped, funext hticket]
    constructor <;> simp
  case listed => exact ⟨⟨by simp [hlist], by simp [hlist]⟩, by simp [hlist]⟩
  case take =>
    intro q hq
    rw [hworker] at hq
    cases hq
  case head =>
    intro q hq
    rw [hworker] at hq
    cases hq

theorem takesSubmitted (i : TakeInv s) : TakesSubmitted s := by
  constructor
  case head => exact i.head
  case linked =>
    intro q w hw
    obtain ⟨n, hn⟩ := Option.ne_none_iff_exists'.mp (i.listed.ticket q w hw)
    obtain ⟨hlt, hex, -⟩ := i.numbered.fresh w n hn
    exact ⟨n, hn, hlt, hex⟩
  case once => exact i.numbered.once
  case issued => exact fun n hn => i.numbered.issued n (Or.inl hn)
  case removed => exact i.numbered.removed

/-- What stands in front of a resumed work thread without `w`. -/
theorem erase_ne_nil (i : TakeInv s) (hq : s.worker q = .take) (hw : s.list q ≠ [w]) :
    (s.list q).erase w ≠ [] := by
  intro h
  rcases List.erase_eq_nil_iff.mp h with h | h
  · exact i.take q hq h
  · exact hw h

/-- **A work is removed.** -/
theorem removed {wq : Wq} (i : TakeInv s) (hw : s.Spares w)
    (hlist : ∀ q, (wq.queue q).workList = (s.list q).erase w) : TakeInv (s.removed w wq) := by
  constructor
  case numbered => exact i.numbered.drop
  case listed => exact i.listed.unlink.congr hlist
  case take =>
    intro q hq
    change (wq.queue q).workList ≠ []
    rw [hlist]
    exact i.erase_ne_nil hq (hw q hq)
  case head => exact i.head

/-- **A work is submitted**, which may have been linked before. -/
theorem submitted {r : Res × Bool × Wq} (i : TakeInv s)
    (h : r.1 = .ok → Relinked q w s.wq r.2.2 ∧ s.SparesBut q w) : TakeInv (s.submitted q w r) := by
  unfold WqSys.submitted
  by_cases hr : r.1 = .ok
  swap
  · rw [if_neg hr]
    exact i
  rw [if_pos hr]
  obtain ⟨hlink, hw⟩ := h hr
  have hunlinked : ∀ q', w ∉ (s.list q').erase w := fun q' => (i.listed.nodup q').not_mem_erase
  constructor
  case numbered => exact i.numbered.drop.issue
  case listed => exact (i.listed.unlink.link hunlinked).congr hlink.list
  case take =>
    intro q' hq'
    change (r.2.2.queue q').workList ≠ []
    rw [hlink.list]
    by_cases h : q' = q
    · rw [if_pos h]
      exact List.concat_ne_nil w _
    · rw [if_neg h]
      exact i.erase_ne_nil hq' (hw q' h hq')
  case head => exact i.head

/-- The flags of a work change. -/
theorem flags {wq : Wq} {syncing : List WId} (i : TakeInv s) (h : wq.queue = s.wq.queue) :
    TakeInv { s with wq, syncing } := by
  have hlist : ∀ q, (wq.queue q).workList = s.list q := fun q => by rw [h, list]
  constructor
  case numbered => exact i.numbered
  case listed => exact i.listed.congr hlist
  case take =>
    intro q hq
    change (wq.queue q).workList ≠ []
    rw [hlist]
    exact i.take q hq
  case head => exact i.head

/-- A work thread moves on. -/
theorem setWorker {pc : Worker} (i : TakeInv s) (htake : pc = .take → s.list q ≠ [])
    (hlost : pc ≠ .lost) : TakeInv (s.setWorker q pc) := by
  refine { i with take := ?_, head := ?_ }
  · intro q' hq'
    rw [worker_setWorker] at hq'
    by_cases h : q' = q
    · rw [if_pos h] at hq'
      exact h ▸ htake hq'
    · rw [if_neg h] at hq'
      exact i.take q' hq'
  · intro q' hq'
    rw [worker_setWorker] at hq'
    by_cases h : q' = q
    · rw [if_pos h] at hq'
      exact hlost hq'
    · rw [if_neg h] at hq'
      exact i.head q' hq'

/-- **The section that takes the first work.** -/
theorem taken (i : TakeInv s) (hpc : s.worker q = .take) :
    ∃ v wq, takeSection q s.wq = some (v, wq) ∧ v ∈ s.list q ∧ TakeInv
      { s.setWorker q .run with
        wq
        ticket := Function.update s.ticket v none
        executed := (s.ticket v).toList ++ s.executed } := by
  unfold takeSection
  cases hl : (s.wq.queue q).workList with
  | nil => exact absurd hl (i.take q hpc)
  | cons v l =>
    have hv : v ∈ s.list q := by
      rw [list, hl]
      exact List.mem_cons_self
    refine ⟨v, _, rfl, hv, ?_⟩
    constructor
    case numbered => exact i.numbered.execute
    case listed =>
      refine i.listed.unlink.congr fun q' => ?_
      simp only [list, Wq.queue_setWork, Wq.workList_setCurrent, Wq.workList_unlink]
    case take =>
      intro q' hq'
      simp only [list, Wq.queue_setWork, Wq.workList_setCurrent, Wq.workList_unlink]
      replace hq' := worker_setWorker.symm.trans hq'
      by_cases h : q' = q
      · rw [if_pos h] at hq'
        cases hq'
      · rw [if_neg h] at hq'
        -- the work is in the other list
        change (s.list q').erase v ≠ []
        rw [List.erase_of_not_mem fun hm => h (i.listed.apart q' q v hm hv)]
        exact i.take q' hq'
    case head => exact (i.setWorker (fun h => by cases h) (fun h => by cases h)).head

/-- **A step of a work thread.** -/
theorem workerStep (i : TakeInv s) (h : s.workerStep q = some s') : TakeInv s' := by
  unfold WqSys.workerStep at h
  cases hpc : s.worker q with
  | test =>
    rw [hpc] at h
    cases h
    by_cases hl : s.list q = []
    · rw [if_pos hl]
      exact i.setWorker (fun h => by cases h) (fun h => by cases h)
    · rw [if_neg hl]
      exact i.setWorker (fun _ => hl) (fun h => by cases h)
  | tested =>
    rw [hpc] at h
    cases h
    exact i.setWorker (fun h => by cases h) (fun h => by cases h)
  | suspended =>
    rw [hpc] at h
    cases h
  | take =>
    obtain ⟨v, wq, htake, -, i'⟩ := i.taken hpc
    rw [hpc] at h
    simp only [htake, Option.some.injEq] at h
    exact h ▸ i'
  | run =>
    rw [hpc] at h
    cases h
    have i' : TakeInv (s.setWorker q .done) :=
      i.setWorker (fun h => by cases h) (fun h => by cases h)
    have hlist : ∀ q', ((s.wq.setCurrent q none).queue q').workList = s.list q' := fun _ =>
      Wq.workList_setCurrent
    refine { i' with listed := i'.listed.congr hlist, take := fun q' hq' => ?_ }
    exact fun hnil => i'.take q' hq' ((hlist q').symm.trans hnil)
  | done =>
    rw [hpc] at h
    cases h
    exact i.setWorker (fun h => by cases h) (fun h => by cases h)
  | lost => exact absurd hpc (i.head q)

theorem step {a : WqAction} (i : TakeInv s) (h : s.exec a = some s') (hc : s.Careful a) :
    TakeInv s' := by
  cases a with
  | submit q w =>
    cases h
    refine i.submitted fun hok => ?_
    obtain ⟨hp, hcur, -, hlink⟩ := submitSection_ok hok
    exact ⟨hlink, hc hp hcur⟩
  | critical q w =>
    cases h
    refine i.submitted fun hok => ?_
    obtain ⟨hcur, -, hlink⟩ := criticalSection_ok hok
    exact ⟨hlink, hc hcur⟩
  | resume q =>
    rw [exec] at h
    by_cases hw : s.wakes q = 0
    · rw [if_pos hw] at h
      cases h
    rw [if_neg hw] at h
    have i' : TakeInv { s with wakes := Function.update s.wakes q (s.wakes q - 1) } := { i with }
    by_cases hs : s.worker q = .suspended
    · simp only [if_pos hs, Option.some.injEq] at h
      exact h ▸ i'.setWorker (fun _ => hc hs) (fun h => by cases h)
    · simp only [if_neg hs, Option.some.injEq] at h
      exact h ▸ i'
  | cancel q w =>
    cases h
    by_cases hok : (cancelSection q w s.wq).1 = .ok
    · obtain ⟨hcur, hwq⟩ := cancelSection_ok hok
      simp only [if_pos hok]
      refine i.removed (hc hcur) fun q' => ?_
      rw [hwq]
      rfl
    · simp only [if_neg hok]
      exact i
  | cancelAll q w =>
    rw [exec] at h
    by_cases hm : w ∈ s.list q
    · rw [if_pos hm] at h
      cases h
      exact i.removed hc fun _ => rfl
    · rw [if_neg hm] at h
      cases h
  | cancelSync q w =>
    rw [exec] at h
    by_cases hcur : (s.wq.queue q).workCurrent = some w
    · rw [if_pos hcur] at h
      cases h
      exact i.flags rfl
    · rw [if_neg hcur] at h
      cases h
      exact i.removed (hc hcur) fun _ => rfl
  | syncEnd w =>
    rw [exec] at h
    by_cases hm : w ∈ s.syncing
    · rw [if_pos hm] at h
      cases h
      exact i.flags rfl
    · rw [if_neg hm] at h
      cases h
  | detach w =>
    cases h
    exact i.flags rfl
  | delay w submitting delayed workqueue timer =>
    cases h
    exact i.flags rfl
  | worker q => exact i.workerStep h

end TakeInv

/-- **The work threads execute submitted work only**, each submission once at most and none that was removed
before, in a run in which no step takes the last work from the list of a resumed work thread and none is
resumed for an empty list. -/
theorem takes_submitted {s : WqSys}
    (h : Reachable Init (fun s a s' => exec s a = some s' ∧ Careful s a) s) : TakesSubmitted s := by
  have hinv : TakeInv s := by
    apply h.invariant (fun _ h => TakeInv.init h)
    intro s a s' _ hi ha
    exact hi.step ha.1 ha.2
  exact hinv.takesSubmitted

section Cases

/-- Two works are submitted, the work thread finds them, and the second one is cancelled before the thread
takes the first. -/
theorem takes_submitted_beside_cancel :
    ∃ s, TakesSubmitted s ∧ s.executed = [0] ∧ s.dropped = [1] := by
  have hfirst : ∀ q, (if q = 0 then Worker.take else Worker.test) = .take → q = 0 := by
    intro q hq
    by_contra h
    rw [if_neg h] at hq
    cases hq
  have h₀ : Reachable Init (fun s a s' => exec s a = some s' ∧ Careful s a) start := .init init_start
  have h₁ := h₀.step (a := WqAction.submit 0 1) ⟨rfl, fun _ _ _ _ hq => by cases hq⟩
  have h₂ := h₁.step (a := WqAction.submit 0 2) ⟨rfl, fun _ _ _ _ hq => by cases hq⟩
  have h₃ := h₂.step (a := WqAction.worker 0) ⟨rfl, trivial⟩
  have h₄ := h₃.step (a := WqAction.cancel 0 2) ⟨rfl, fun _ q hq => by
    rw [hfirst q (worker_setWorker.symm.trans hq)]
    decide⟩
  have h₅ := h₄.step (a := WqAction.worker 0) ⟨rfl, trivial⟩
  exact ⟨_, takes_submitted h₅, rfl, rfl⟩

/-- The only work is cancelled after its work thread was resumed and before the thread takes it. -/
theorem takes_head :
    ¬ ∀ s, Reachable Init (fun s a s' => exec s a = some s') s → TakesSubmitted s := by
  intro hclaim
  have hrun : ∃ s, runList exec start
      [.worker 0, .worker 0, .submit 0 1, .resume 0, .cancel 0 1, .worker 0] = some s ∧
        s.worker 0 = .lost := ⟨_, rfl, rfl⟩
  obtain ⟨s, hrun, hlost⟩ := hrun
  exact (hclaim s (reachable_of_runList (.init init_start) hrun)).head 0 hlost

end Cases

end WqSys

end RTThread.Workqueue
