import RTThread.Drivers.DataqueueFifo

set_option autoImplicit false

/-! # Transmitting by DMA (`serial.c`)

`_serial_dma_tx` puts a buffer into the data queue and starts a transfer when none is active; the interrupt
at the end of a transfer takes a buffer out of the queue and starts the next one. A write is three
sections: the push, the test of `activated` with interrupts disabled, and the call of `dma_transmit`. The
interrupt handler runs as one section. A transfer runs until the hardware ends it, and its interrupt
follows at any time after that.
-/

namespace RTThread.Drivers

open Trans (Reachable)

/-- Where a thread is in `_serial_dma_tx`, with the buffer it writes. -/
inductive TxPc
  | idle
  /-- behind `rt_schedule` in the loop of `rt_data_queue_push` -/
  | waiting (item : DataItem)
  /-- the buffer is pushed -/
  | pushed (item : DataItem)
  /-- `activated` is set, and `dma_transmit` is not yet called -/
  | starting (item : DataItem)
  deriving DecidableEq

/-- `struct rt_serial_tx_dma`, the writing threads and the hardware. -/
structure DmaTx where
  queue : DataQueue
  activated : Bool
  error : ThreadId → Err
  pc : ThreadId → TxPc
  /-- the buffers of the pushes that returned `RT_EOK`, in order -/
  pushed : List DataItem
  /-- the calls of `dma_transmit`, in order -/
  transmitted : List DataItem
  /-- the transfers in progress -/
  running : List DataItem
  /-- the transfers that ended, in order -/
  ended : List DataItem
  /-- the calls of `tx_complete`, in order: the buffer that was popped, if there was one -/
  completed : List (Option DataItem)

inductive DmaTxAction
  /-- `_serial_dma_tx` is called -/
  | write (t : ThreadId) (item : DataItem)
  /-- a thread that waited in the push runs again -/
  | resumed (t : ThreadId)
  /-- other code wakes a waiting thread -/
  | wake (t : ThreadId) (e : Err)
  /-- `if (tx_dma->activated != RT_TRUE)` -/
  | test (t : ThreadId)
  /-- make a DMA transfer -/
  | start (t : ThreadId)
  /-- the hardware ends a transfer -/
  | finish
  /-- `RT_SERIAL_EVENT_TX_DMADONE`, while the thread runs -/
  | dmaDone (t : ThreadId)

namespace DmaTx

/-- `RT_WAITING_FOREVER`. -/
def forever : Int := -1

/-- `ops->dma_transmit(serial, data_ptr, data_size, RT_SERIAL_DMA_TX)` -/
def transmit (s : DmaTx) (item : DataItem) : DmaTx :=
  { s with transmitted := s.transmitted ++ [item], running := s.running ++ [item] }

def setPc (s : DmaTx) (t : ThreadId) (pc : TxPc) : DmaTx := { s with pc := Function.update s.pc t pc }

/-- A section of `rt_data_queue_push` that begins at the test of its loop. -/
def push (s : DmaTx) (t : ThreadId) (item : DataItem) : DmaTx :=
  let x := rtDataQueuePush s.queue t item forever
  let s := { s with
    queue := x.queue
    error := if x.reset then Function.update s.error t .ok else s.error }
  match x.pc with
  | .pushed .ok => { s.setPc t (.pushed item) with pushed := s.pushed ++ [item] }
  | .wait _ => s.setPc t (.waiting item)
  -- rt_set_errno(result)
  | _ => s.setPc t .idle

/-- The buffer that a section of `rt_data_queue_pop` or `rt_data_queue_peak` finds. -/
def found : DqPc → Option DataItem
  | .popped _ item => item
  | .peaked item => item
  | _ => none

/-- The handler of `RT_SERIAL_EVENT_TX_DMADONE`. -/
def handle (s : DmaTx) (t : ThreadId) : DmaTx :=
  let pop := rtDataQueuePop s.queue t 0
  let peak := rtDataQueuePeak pop.queue
  let s := { s with queue := peak.queue, completed := s.completed ++ [found pop.pc] }
  match found peak.pc with
  -- transmit next data node
  | some item => { s.transmit item with activated := true }
  | none => { s with activated := false }

def exec (s : DmaTx) : DmaTxAction → Option DmaTx
  | .write t item => if s.pc t = .idle then some (s.push t item) else none
  | .resumed t =>
      match s.pc t with
      | .waiting item =>
          if t ∈ s.queue.suspendedPushList then none
          else if s.error t ≠ .ok then some (s.setPc t .idle)
          else some (s.push t item)
      | _ => none
  | .wake t e =>
      if t ∈ s.queue.suspendedPushList then
        some { s with
          queue := { s.queue with suspendedPushList := s.queue.suspendedPushList.erase t }
          error := Function.update s.error t e }
      else none
  | .test t =>
      match s.pc t with
      | .pushed item =>
          if s.activated then some (s.setPc t .idle)
          else some { s.setPc t (.starting item) with activated := true }
      | _ => none
  | .start t =>
      match s.pc t with
      | .starting item => some ((s.setPc t .idle).transmit item)
      | _ => none
  | .finish =>
      match s.running with
      | [] => none
      | item :: rest => some { s with running := rest, ended := s.ended ++ [item] }
  | .dmaDone t => if s.completed.length < s.ended.length then some (s.handle t) else none

/-- `rt_serial_open` with `RT_DEVICE_FLAG_DMA_TX`; nobody has written. -/
def Init (s : DmaTx) : Prop :=
  (∃ mem, s.queue = rtDataQueueInit 8 4 mem) ∧ s.activated = false ∧ (∀ t, s.pc t = .idle) ∧
    s.pushed = [] ∧ s.transmitted = [] ∧ s.running = [] ∧ s.ended = [] ∧ s.completed = []

/-- **Each buffer is transmitted once, in order**: no transfer is started before its turn, at most one is
in progress, `tx_complete` is called for the buffers whose transfers ended, and nothing is left over when
no write and no transfer is under way. -/
structure InOrder (s : DmaTx) : Prop where
  order : s.transmitted <+: s.pushed
  alone : s.running.length ≤ 1
  ended : s.ended <+: s.transmitted
  completed : s.completed <+: s.ended.map some
  all : (∀ t, s.pc t = .idle) → s.running = [] → s.completed.length = s.ended.length →
    s.transmitted = s.pushed

/-- A push that runs while `put_index` has begun again at 0 and `get_index` has not finds a free place. -/
def Room (q : DataQueue) : Prop := q.putIndex < q.getIndex → q.PlaceFree

instance (q : DataQueue) : Decidable (Room q) := inferInstanceAs (Decidable (_ → _))

/-- The buffer that a writer starts is the first one in the queue. -/
def OwnFirst (s : DmaTx) : TxPc → Prop
  | .pushed item => s.activated = false → s.queue.items.head? = some item
  | _ => True

def Ordered (s : DmaTx) : DmaTxAction → Prop
  | .write _ _ => Room s.queue
  | .resumed t => s.error t = .ok → Room s.queue
  | .test t => s.OwnFirst (s.pc t)
  | _ => True

/-! ## The queue in the interrupt handler -/

section Queue

variable {q : DataQueue} {x : DataItem} {rest : List DataItem}

theorem items_threads (q : DataQueue) (l l' : List ThreadId) :
    DataQueue.items { q with suspendedPushList := l, suspendedPopList := l' } = q.items := rfl

theorem index_ne (hitems : q.items = x :: rest) : q.getIndex ≠ q.putIndex := by
  intro heq
  have hcount : q.count = 0 := by
    unfold DataQueue.count
    rw [heq, Nat.add_sub_cancel_left]
  rw [← DataQueue.length_items, hitems, List.length_cons] at hcount
  cases hcount

/-- The first buffer is popped. -/
theorem pop_spec (hok : q.Ok) (hitems : q.items = x :: rest) (t : ThreadId) :
    found (rtDataQueuePop q t 0).pc = some x ∧ (rtDataQueuePop q t 0).queue.Ok ∧
      (rtDataQueuePop q t 0).queue.items = rest := by
  have hne := index_ne hitems
  obtain ⟨hok', hfirst⟩ := hok.advance hne
  obtain ⟨rfl, rfl⟩ := List.cons.inj (hitems.symm.trans hfirst)
  unfold rtDataQueuePop
  rw [if_neg hne]
  dsimp only
  split_ifs
  · exact ⟨rfl, hok'.threads _ _, rfl⟩
  · exact ⟨rfl, hok', rfl⟩

/-- The first buffer is found, if there is one. -/
theorem peak_spec (hok : q.Ok) :
    found (rtDataQueuePeak q).pc = q.items.head? ∧ (rtDataQueuePeak q).queue = q := by
  unfold rtDataQueuePeak
  by_cases hempty : q.getIndex = q.putIndex
  · rw [if_pos hempty]
    refine ⟨?_, rfl⟩
    cases hitems : q.items with
    | nil => rfl
    | cons x rest => exact absurd hempty (index_ne hitems)
  · rw [if_neg hempty, (hok.advance hempty).2]
    exact ⟨rfl, rfl⟩

end Queue

/-! ## The stages of a transfer -/

variable {s s' : DmaTx} {done : List DataItem} {t : ThreadId} {item : DataItem} {pc : TxPc}

/-- What `activated`, the threads and the transfers have to do with the first buffer in the queue, behind
the buffers that are done. -/
inductive Stage (s : DmaTx) (done : List DataItem) : Prop
  /-- a thread that pushed will find that nothing is active -/
  | off : s.activated = false → s.running = [] → s.ended = done → s.transmitted = done →
      (∀ t x, s.pc t ≠ .starting x) → (s.queue.items ≠ [] → ∃ t x, s.pc t = .pushed x) → Stage s done
  | starting {t : ThreadId} {x : DataItem} {rest : List DataItem} : s.activated = true →
      s.running = [] → s.ended = done → s.transmitted = done → s.queue.items = x :: rest →
      s.pc t = .starting x → (∀ u y, s.pc u = .starting y → u = t) → Stage s done
  | running {x : DataItem} {rest : List DataItem} : s.activated = true → s.running = [x] →
      s.ended = done → s.transmitted = done ++ [x] → s.queue.items = x :: rest →
      (∀ t x, s.pc t ≠ .starting x) → Stage s done
  /-- the interrupt is pending -/
  | finished {x : DataItem} {rest : List DataItem} : s.activated = true → s.running = [] →
      s.ended = done ++ [x] → s.transmitted = done ++ [x] → s.queue.items = x :: rest →
      (∀ t x, s.pc t ≠ .starting x) → Stage s done

/-- The invariant: the buffers that are done and those in the queue are the ones that were pushed. -/
structure Inv (s : DmaTx) (done : List DataItem) : Prop where
  ok : s.queue.Ok
  pushed : s.pushed = done ++ s.queue.items
  completed : s.completed = done.map some
  stage : s.Stage done

theorem Stage.pending (h : s.Stage done) (hact : s.activated = false) (hne : s.queue.items ≠ []) :
    ∃ t x, s.pc t = .pushed x := by
  cases h with
  | off _ _ _ _ _ hpend => exact hpend hne
  | starting hact' => simp [hact] at hact'
  | running hact' => simp [hact] at hact'
  | finished hact' => simp [hact] at hact'

/-- Nobody starts a transfer or ends one; the queue may get longer. -/
theorem Stage.frame (h : s.Stage done) (hact : s'.activated = s.activated)
    (hrun : s'.running = s.running) (hended : s'.ended = s.ended)
    (htrans : s'.transmitted = s.transmitted)
    (hstart : ∀ u y, s'.pc u = .starting y ↔ s.pc u = .starting y) (l : List DataItem)
    (hitems : s'.queue.items = s.queue.items ++ l)
    (hpend : s'.activated = false → s'.queue.items ≠ [] → ∃ t x, s'.pc t = .pushed x) :
    s'.Stage done := by
  cases h with
  | off hact₀ hrun₀ hended₀ htrans₀ hstart₀ _ =>
      exact .off (hact.trans hact₀) (hrun.trans hrun₀) (hended.trans hended₀) (htrans.trans htrans₀)
        (fun u y hu => hstart₀ u y ((hstart u y).mp hu)) (hpend (hact.trans hact₀))
  | starting hact₀ hrun₀ hended₀ htrans₀ hitems₀ hpc honly =>
      exact .starting (hact.trans hact₀) (hrun.trans hrun₀) (hended.trans hended₀)
        (htrans.trans htrans₀) (by rw [hitems, hitems₀, List.cons_append])
        ((hstart _ _).mpr hpc) fun u y hu => honly u y ((hstart u y).mp hu)
  | running hact₀ hrun₀ hended₀ htrans₀ hitems₀ hstart₀ =>
      exact .running (hact.trans hact₀) (hrun.trans hrun₀) (hended.trans hended₀)
        (htrans.trans htrans₀) (by rw [hitems, hitems₀, List.cons_append])
        fun u y hu => hstart₀ u y ((hstart u y).mp hu)
  | finished hact₀ hrun₀ hended₀ htrans₀ hitems₀ hstart₀ =>
      exact .finished (hact.trans hact₀) (hrun.trans hrun₀) (hended.trans hended₀)
        (htrans.trans htrans₀) (by rw [hitems, hitems₀, List.cons_append])
        fun u y hu => hstart₀ u y ((hstart u y).mp hu)

/-- A thread that starts nothing goes on to where it starts nothing. -/
theorem starting_update {f : ThreadId → TxPc} (hold : ∀ y, f t ≠ .starting y)
    (hnew : ∀ y, pc ≠ .starting y) (u : ThreadId) (y : DataItem) :
    Function.update f t pc u = .starting y ↔ f u = .starting y := by
  by_cases hu : u = t
  · subst hu
    rw [Function.update_self]
    exact iff_of_false (hnew y) (hold y)
  · rw [Function.update_of_ne hu]

theorem pushed_update {f : ThreadId → TxPc} (hold : ∀ y, f t ≠ .pushed y)
    (h : ∃ u x, f u = .pushed x) : ∃ u x, Function.update f t pc u = .pushed x := by
  obtain ⟨u, x, hu⟩ := h
  have hne : u ≠ t := by
    rintro rfl
    exact hold x hu
  exact ⟨u, x, by rwa [Function.update_of_ne hne]⟩

theorem Inv.init (h : s.Init) : s.Inv [] := by
  obtain ⟨⟨mem, hq⟩, hact, hidle, hpushed, htrans, hrun, hended, hcompleted⟩ := h
  have hitems : s.queue.items = [] := by
    rw [hq, DataQueue.items_init]
  refine ⟨?_, ?_, hcompleted, .off hact hrun hended htrans ?_ ?_⟩
  · rw [hq]
    exact DataQueue.ok_init (by decide) (by decide)
  · rw [hpushed, hitems]
    rfl
  · intro t x hpc
    rw [hidle t] at hpc
    cases hpc
  · exact fun hne => absurd hitems hne

theorem Inv.inOrder (h : s.Inv done) : s.InOrder := by
  have hpushed := h.pushed
  have hcompleted := h.completed
  have hlen : s.completed.length = done.length := by rw [hcompleted, List.length_map]
  cases h.stage with
  | off _ hrun hended htrans _ hpend =>
      refine ⟨⟨_, htrans ▸ hpushed.symm⟩, by simp [hrun], ⟨[], by simp [hended, htrans]⟩,
        ⟨[], by simp [hcompleted, hended]⟩, fun hidle _ _ => ?_⟩
      have hempty : s.queue.items = [] := by
        by_contra hne
        obtain ⟨t, x, hpc⟩ := hpend hne
        rw [hidle t] at hpc
        cases hpc
      rw [htrans, hpushed, hempty, List.append_nil]
  | starting _ hrun hended htrans _ hpc _ =>
      refine ⟨⟨_, htrans ▸ hpushed.symm⟩, by simp [hrun], ⟨[], by simp [hended, htrans]⟩,
        ⟨[], by simp [hcompleted, hended]⟩, fun hidle _ _ => ?_⟩
      rw [hidle _] at hpc
      cases hpc
  | @running x rest _ hrun hended htrans hitems _ =>
      refine ⟨⟨rest, by simp [htrans, hpushed, hitems]⟩, by simp [hrun], ⟨[x], by simp [hended, htrans]⟩,
        ⟨[], by simp [hcompleted, hended]⟩, fun _ hnone _ => ?_⟩
      rw [hrun] at hnone
      cases hnone
  | @finished x rest _ hrun hended htrans hitems _ =>
      refine ⟨⟨rest, by simp [htrans, hpushed, hitems]⟩, by simp [hrun], ⟨[], by simp [hended, htrans]⟩,
        ⟨[some x], by simp [hcompleted, hended]⟩, fun _ _ hsame => ?_⟩
      rw [hlen, hended, List.length_append, List.length_singleton] at hsame
      omega

/-! ## The steps -/

/-- What the push does: the thread waits, or the buffer is the last one of the queue. -/
theorem push_cases (s : DmaTx) (t : ThreadId) (item : DataItem) :
    (∃ q error, s.push t item = { s.setPc t (.waiting item) with queue := q, error := error } ∧
      q = { s.queue with suspendedPushList := s.queue.suspendedPushList ++ [t] }) ∨
    (s.queue.putIndex : Int) - s.queue.getIndex ≠ s.queue.size ∧
      s.push t item = { s.setPc t (.pushed item) with
        queue := { s.queue.store item with suspendedPopList := s.queue.suspendedPopList.tail }
        pushed := s.pushed ++ [item] } := by
  unfold push rtDataQueuePush
  by_cases hfull : (s.queue.putIndex : Int) - s.queue.getIndex = s.queue.size
  · rw [if_pos hfull, if_neg (by decide)]
    exact .inl ⟨_, _, rfl, rfl⟩
  · rw [if_neg hfull]
    exact .inr ⟨hfull, rfl⟩

theorem Inv.push (h : s.Inv done) (hroom : Room s.queue) (hold : ∀ y, s.pc t ≠ .starting y)
    (hold' : ∀ y, s.pc t ≠ .pushed y) : (s.push t item).Inv done := by
  obtain ⟨q, error, heq, hq⟩ | ⟨hfull, heq⟩ := push_cases s t item
  · have hitems : q.items = s.queue.items := by rw [hq, items_threads]
    rw [heq]
    refine ⟨hq ▸ h.ok.threads _ _, h.pushed.trans (by rw [← hitems]), h.completed, ?_⟩
    refine h.stage.frame rfl rfl rfl rfl (starting_update hold (by simp)) [] ?_ fun hact hne => ?_
    · rw [List.append_nil]
      exact hitems
    · exact pushed_update hold' (h.stage.pending hact fun hnil => hne (hitems.trans hnil))
  · have hfree : s.queue.PlaceFree := by
      by_cases hle : s.queue.getIndex ≤ s.queue.putIndex
      · exact h.ok.placeFree hle hfull
      · exact hroom (Nat.not_le.mp hle)
    obtain ⟨hok, hitems⟩ := h.ok.store item hfree
    rw [heq]
    refine ⟨hok.threads _ _, ?_, h.completed, ?_⟩
    · show s.pushed ++ [item] = done ++ (s.queue.store item).items
      rw [hitems, h.pushed, List.append_assoc]
    · refine h.stage.frame rfl rfl rfl rfl (starting_update hold (by simp)) [item] hitems fun _ _ => ?_
      exact ⟨t, item, Function.update_self _ _ _⟩

/-- A thread leaves `_serial_dma_tx`, or another one wakes it. -/
theorem Inv.setIdle (h : s.Inv done) (hold : ∀ y, s.pc t ≠ .starting y)
    (hpend : s.activated = false → ∀ y, s.pc t ≠ .pushed y) : (s.setPc t .idle).Inv done := by
  refine ⟨h.ok, h.pushed, h.completed, ?_⟩
  refine h.stage.frame rfl rfl rfl rfl (starting_update hold (by simp)) [] ?_ fun hact hne => ?_
  · exact (List.append_nil _).symm
  · exact pushed_update (hpend hact) (h.stage.pending hact hne)

/-- The thread finds that nothing is active, and its own buffer is the first one. -/
theorem Inv.activate (h : s.Inv done) (hact : s.activated = false)
    (hfirst : s.queue.items.head? = some item) :
    ({ s.setPc t (.starting item) with activated := true } : DmaTx).Inv done := by
  obtain ⟨rest, hitems⟩ : ∃ rest, s.queue.items = item :: rest := by
    cases hq : s.queue.items with
    | nil =>
        rw [hq] at hfirst
        cases hfirst
    | cons x rest =>
        rw [hq] at hfirst
        exact ⟨rest, by rw [Option.some.inj hfirst]⟩
  refine ⟨h.ok, h.pushed, h.completed, ?_⟩
  cases h.stage with
  | off _ hrun hended htrans hstart _ =>
      refine .starting (t := t) rfl hrun hended htrans hitems (Function.update_self _ _ _)
        fun u y hu => ?_
      by_contra hne
      exact hstart u y (by rwa [← Function.update_of_ne hne (TxPc.starting item) s.pc])
  | starting hact' => simp [hact] at hact'
  | running hact' => simp [hact] at hact'
  | finished hact' => simp [hact] at hact'

theorem Inv.start (h : s.Inv done) (hpc : s.pc t = .starting item) :
    ((s.setPc t .idle).transmit item).Inv done := by
  refine ⟨h.ok, h.pushed, h.completed, ?_⟩
  cases h.stage with
  | off _ _ _ _ hstart _ => exact absurd hpc (hstart t item)
  | @starting u x rest hact hrun hended htrans hitems hpc' honly =>
      obtain rfl := honly t item hpc
      obtain rfl := TxPc.starting.inj (hpc.symm.trans hpc')
      refine .running hact ?_ hended ?_ hitems fun v y hv => ?_
      · exact congrArg (· ++ [item]) hrun
      · exact congrArg (· ++ [item]) htrans
      · by_cases hvt : v = t
        · subst hvt
          have hidle : Function.update s.pc v .idle v = .starting y := hv
          rw [Function.update_self] at hidle
          cases hidle
        · have hother : Function.update s.pc t .idle v = .starting y := hv
          rw [Function.update_of_ne hvt] at hother
          exact hvt (honly v y hother)
  | running _ _ _ _ _ hstart => exact absurd hpc (hstart t item)
  | finished _ _ _ _ _ hstart => exact absurd hpc (hstart t item)

theorem Inv.finish (h : s.Inv done) {rest : List DataItem} (hrun : s.running = item :: rest) :
    ({ s with running := rest, ended := s.ended ++ [item] } : DmaTx).Inv done := by
  refine ⟨h.ok, h.pushed, h.completed, ?_⟩
  cases h.stage with
  | off _ hnone => cases hrun.symm.trans hnone
  | starting _ hnone => cases hrun.symm.trans hnone
  | running hact hone hended htrans hitems hstart =>
      obtain ⟨rfl, rfl⟩ := List.cons.inj (hrun.symm.trans hone)
      exact .finished hact rfl (congrArg (· ++ [item]) hended) htrans hitems hstart
  | finished _ hnone => cases hrun.symm.trans hnone

/-- The interrupt takes the buffer that was transmitted out of the queue, and starts the next one. -/
theorem Inv.handle (h : s.Inv done) (hpending : s.completed.length < s.ended.length) :
    ∃ x, (s.handle t).Inv (done ++ [x]) := by
  rw [h.completed, List.length_map] at hpending
  cases h.stage with
  | off _ _ hended => exact absurd hpending (by rw [hended]; exact lt_irrefl _)
  | starting _ _ hended => exact absurd hpending (by rw [hended]; exact lt_irrefl _)
  | running _ _ hended => exact absurd hpending (by rw [hended]; exact lt_irrefl _)
  | @finished x rest hact hrun hended htrans hitems hstart =>
      obtain ⟨hpop, hok, hrest⟩ := pop_spec h.ok hitems t
      obtain ⟨hpeak, hqueue⟩ := peak_spec hok
      have hpushed : s.pushed = done ++ [x] ++ (rtDataQueuePop s.queue t 0).queue.items := by
        rw [hrest, h.pushed, hitems, List.append_assoc]
        rfl
      have hcompleted : s.completed ++ [found (rtDataQueuePop s.queue t 0).pc] =
          (done ++ [x]).map some := by
        rw [h.completed, hpop, List.map_append]
        rfl
      refine ⟨x, ?_⟩
      unfold DmaTx.handle
      dsimp only
      rw [hpeak, hqueue, hrest]
      cases rest with
      | nil =>
          refine ⟨hok, hpushed, hcompleted, ?_⟩
          exact .off rfl hrun hended htrans hstart fun hne => absurd hrest hne
      | cons y rest =>
          refine ⟨hok, hpushed, hcompleted, ?_⟩
          exact .running rfl (congrArg (· ++ [y]) hrun) hended (congrArg (· ++ [y]) htrans) hrest hstart

/-- Every ordered step keeps the invariant. -/
theorem Inv.step (h : s.Inv done) {a : DmaTxAction} (hord : s.Ordered a) (he : s.exec a = some s') :
    ∃ done', s'.Inv done' := by
  cases a with
  | write t item =>
      simp only [exec] at he
      split_ifs at he with hpc
      cases he
      exact ⟨done, h.push hord (by simp [hpc]) (by simp [hpc])⟩
  | resumed t =>
      simp only [exec] at he
      split at he
      · rename_i item hpc
        split_ifs at he with hmem herr
        · cases he
          exact ⟨done, h.setIdle (by simp [hpc]) (by simp [hpc])⟩
        · cases he
          exact ⟨done, h.push (hord (not_not.mp herr)) (by simp [hpc]) (by simp [hpc])⟩
      · cases he
  | wake t e =>
      simp only [exec] at he
      split_ifs at he
      cases he
      exact ⟨done, h.ok.threads _ _, h.pushed, h.completed,
        h.stage.frame rfl rfl rfl rfl (fun _ _ => Iff.rfl) [] (List.append_nil _).symm h.stage.pending⟩
  | test t =>
      simp only [exec] at he
      split at he
      · rename_i item hpc
        split_ifs at he with hact
        · cases he
          exact ⟨done, h.setIdle (by simp [hpc]) (by simp [hact])⟩
        · cases he
          have hoff : s.activated = false := by simpa using hact
          have hfirst : s.OwnFirst (.pushed item) := hpc ▸ hord
          exact ⟨done, h.activate hoff (hfirst hoff)⟩
      · cases he
  | start t =>
      simp only [exec] at he
      split at he
      · rename_i item hpc
        cases he
        exact ⟨done, h.start hpc⟩
      · cases he
  | finish =>
      simp only [exec] at he
      split at he
      · cases he
      · rename_i item rest hrun
        cases he
        exact ⟨done, h.finish hrun⟩
  | dmaDone t =>
      simp only [exec] at he
      split_ifs at he with hpending
      cases he
      obtain ⟨x, hx⟩ := h.handle (t := t) hpending
      exact ⟨_, hx⟩

/-- **Each buffer is transmitted once, in order**, in runs in which a writer that finds nothing active
starts the first buffer of the queue, and every push finds a free place. -/
theorem dma_tx_in_order (s : DmaTx)
    (hr : Reachable DmaTx.Init (fun s a s' => s.exec a = some s' ∧ s.Ordered a) s) : s.InOrder := by
  obtain ⟨done, hdone⟩ := hr.invariant (I := fun s => ∃ done, s.Inv done)
    (fun _ h₀ => ⟨[], .init h₀⟩) fun _ _ _ _ h ha => by
      obtain ⟨done, hdone⟩ := h
      exact hdone.step ha.2 ha.1
  exact hdone.inOrder

/-! ## Runs -/

instance decidableOwnFirst (s : DmaTx) : (pc : TxPc) → Decidable (s.OwnFirst pc)
  | .idle => inferInstanceAs (Decidable True)
  | .waiting _ => inferInstanceAs (Decidable True)
  | .pushed item => inferInstanceAs (Decidable (s.activated = false → s.queue.items.head? = some item))
  | .starting _ => inferInstanceAs (Decidable True)

instance decidableOrdered (s : DmaTx) : (a : DmaTxAction) → Decidable (s.Ordered a)
  | .write _ _ => inferInstanceAs (Decidable (Room s.queue))
  | .resumed t => inferInstanceAs (Decidable (s.error t = .ok → Room s.queue))
  | .wake _ _ => inferInstanceAs (Decidable True)
  | .test t => inferInstanceAs (Decidable (s.OwnFirst (s.pc t)))
  | .start _ => inferInstanceAs (Decidable True)
  | .finish => inferInstanceAs (Decidable True)
  | .dmaDone _ => inferInstanceAs (Decidable True)

/-- Nobody has written. -/
def fresh : DmaTx :=
  { queue := rtDataQueueInit 8 4 fun _ => ⟨0, 0⟩, activated := false, error := fun _ => .ok
    pc := fun _ => .idle, pushed := [], transmitted := [], running := [], ended := [], completed := [] }

theorem fresh_init : fresh.Init := ⟨⟨fun _ => ⟨0, 0⟩, rfl⟩, rfl, fun _ => rfl, rfl, rfl, rfl, rfl, rfl⟩

/-- Thread 2 writes while the buffer of thread 1 is transmitted. -/
def oneAfterTheOther : List DmaTxAction :=
  [.write 1 ⟨10, 3⟩, .test 1, .start 1, .write 2 ⟨20, 5⟩, .test 2, .finish, .dmaDone 1, .finish,
    .dmaDone 2]

theorem dma_tx_in_order_two : ∃ s : DmaTx, s.InOrder ∧
    s.transmitted = [⟨10, 3⟩, ⟨20, 5⟩] ∧ s.completed = [some ⟨10, 3⟩, some ⟨20, 5⟩] := by
  have hrun : (Trans.runList (Trans.stepIf exec Ordered) fresh oneAfterTheOther).map
      (fun s => (s.transmitted, s.completed)) =
      some ([⟨10, 3⟩, ⟨20, 5⟩], [some ⟨10, 3⟩, some ⟨20, 5⟩]) := by decide
  obtain ⟨s, hs, heq⟩ := Option.map_eq_some_iff.mp hrun
  obtain ⟨htrans, hcompleted⟩ := Prod.mk.inj heq
  have hr := Trans.reachable_of_runList_stepIf fresh_init hs
  exact ⟨s, dma_tx_in_order s hr, htrans, hcompleted⟩

/-- Thread 1 has pushed its buffer when thread 2 starts its own. -/
def theOtherFirst : List DmaTxAction :=
  [.write 1 ⟨10, 3⟩, .write 2 ⟨20, 5⟩, .test 2, .start 2, .finish, .dmaDone 2]

/-- The second buffer is transmitted twice, and `tx_complete` is called for the first one, which was not
transmitted. -/
theorem dma_tx_twice :
    (Trans.runList exec fresh theOtherFirst).map (fun s => (s.pushed, s.transmitted, s.completed)) =
      some ([⟨10, 3⟩, ⟨20, 5⟩], [⟨20, 5⟩, ⟨20, 5⟩], [some ⟨10, 3⟩]) ∧
    ¬ ∀ s, Reachable DmaTx.Init (fun s a s' => s.exec a = some s') s → s.InOrder := by
  have hrun : (Trans.runList exec fresh theOtherFirst).map
      (fun s => (s.pushed, s.transmitted, s.completed)) =
      some ([⟨10, 3⟩, ⟨20, 5⟩], [⟨20, 5⟩, ⟨20, 5⟩], [some ⟨10, 3⟩]) := by decide
  refine ⟨hrun, fun hclaim => ?_⟩
  obtain ⟨s, hs, heq⟩ := Option.map_eq_some_iff.mp hrun
  have horder := (hclaim s (Trans.reachable_of_runList (.init fresh_init) hs)).order
  obtain ⟨hpushed, hrest⟩ := Prod.mk.inj heq
  rw [hpushed, (Prod.mk.inj hrest).1] at horder
  exact absurd horder (by decide)

end DmaTx

end RTThread.Drivers
