import RTThread.Drivers.Dataqueue

set_option autoImplicit false

/-! # The order of the items of a data queue

The items in the queue have the indices from `get_index` on, and an item is kept in the place that its
index leaves modulo the size. While no index is beyond 65535, these places are different ones, and the
test of `rt_data_queue_push` finds out when all are taken. Once `put_index` has begun again at 0 and
`get_index` has not, neither is true: the difference that is tested is negative, so no queue is full,
and the place of the next item may be that of an item in the queue.
-/

namespace RTThread.Drivers

open Trans (Reachable)

/-! ## The items in a queue -/

namespace DataQueue

/-- How many items there are, if the indices count modulo `2 ^ 16`. -/
def count (q : DataQueue) : Nat := (q.putIndex + 65536 - q.getIndex) % 65536

/-- The place of the item number `k`, where `rt_data_queue_pop` will look for it. -/
def place (q : DataQueue) (k : Nat) : Nat := u16 (q.getIndex + k) % q.size

def places (q : DataQueue) : List Nat := (List.range q.count).map q.place

/-- The items that will be popped, in this order. -/
def items (q : DataQueue) : List DataItem := q.places.map q.queue

/-- The next item would not overwrite one in the queue. -/
def PlaceFree (q : DataQueue) : Prop := q.putIndex % q.size ∉ q.places

instance (q : DataQueue) : Decidable q.PlaceFree := inferInstanceAs (Decidable (_ ∉ _))

/-- The invariant. -/
structure Ok (q : DataQueue) : Prop where
  size_pos : 0 < q.size
  size_lt : q.size < 65536
  get_lt : q.getIndex < 65536
  put_lt : q.putIndex < 65536
  nodup : q.places.Nodup

variable {q : DataQueue} {item : DataItem} {t : ThreadId} {timeout : Int}

@[simp] theorem length_places : q.places.length = q.count := by simp [places]

@[simp] theorem length_items : q.items.length = q.count := by simp [items]

theorem places_init {size lwm : Nat} {mem : Nat → DataItem} :
    (rtDataQueueInit size lwm mem).places = [] := by
  rw [← List.length_eq_zero_iff, length_places]
  simp [count, rtDataQueueInit]

theorem items_init {size lwm : Nat} {mem : Nat → DataItem} :
    (rtDataQueueInit size lwm mem).items = [] := by
  rw [items, places_init]
  rfl

theorem ok_init {size lwm : Nat} {mem : Nat → DataItem} (hpos : 1 ≤ size) (hle : size ≤ 65535) :
    (rtDataQueueInit size lwm mem).Ok := by
  refine ⟨hpos, Nat.lt_succ_of_le hle, Nat.succ_pos _, Nat.succ_pos _, ?_⟩
  rw [places_init]
  exact List.nodup_nil

/-- Different places below the size. -/
theorem length_le {l : List Nat} (hl : l.Nodup) (hlt : ∀ p ∈ l, p < q.size) : l.length ≤ q.size := by
  have hsub : l ⊆ List.range q.size := fun p hp => List.mem_range.mpr (hlt p hp)
  have h₁ := (List.subperm_of_subset hl hsub).length_le
  rwa [List.length_range] at h₁

namespace Ok

variable (h : q.Ok)

include h

theorem place_lt (k : Nat) : q.place k < q.size := Nat.mod_lt _ h.size_pos

theorem lt_of_mem {p : Nat} (hp : p ∈ q.places) : p < q.size := by
  obtain ⟨k, -, rfl⟩ := List.mem_map.mp hp
  exact h.place_lt k

theorem count_le : q.count ≤ q.size := by
  rw [← length_places]
  exact length_le h.nodup fun p => h.lt_of_mem

/-- A free place is one more. -/
theorem count_lt (hfree : q.PlaceFree) : q.count < q.size := by
  have hnd : (q.places ++ [q.putIndex % q.size]).Nodup := by
    refine List.nodup_append.mpr ⟨h.nodup, List.nodup_singleton _, fun p hp p' hp' he => ?_⟩
    rw [List.mem_singleton.mp hp'] at he
    exact hfree (he ▸ hp)
  have h₁ := length_le hnd fun p hp => by
    rcases List.mem_append.mp hp with hp | hp
    · exact h.lt_of_mem hp
    · rw [List.mem_singleton.mp hp]
      exact Nat.mod_lt _ h.size_pos
  rw [List.length_append, length_places, List.length_singleton] at h₁
  exact h₁

/-- As long as `put_index` is not behind `get_index`, the test of the code is right. -/
theorem placeFree (hle : q.getIndex ≤ q.putIndex) (hnf : (q.putIndex : Int) - q.getIndex ≠ q.size) :
    q.PlaceFree := by
  have hcount := h.count_le
  have hput := h.put_lt
  unfold count at hcount
  intro hmem
  obtain ⟨k, hk, he⟩ := List.mem_map.mp hmem
  have hk' : k < q.count := List.mem_range.mp hk
  unfold count at hk'
  have hword : u16 (q.getIndex + k) = q.getIndex + k := Nat.mod_eq_of_lt (by omega)
  unfold place at he
  rw [hword] at he
  -- two numbers less than the size apart
  have hdvd : q.size ∣ q.putIndex - (q.getIndex + k) :=
    (Nat.modEq_iff_dvd' (by omega)).mp he
  have hle' := Nat.le_of_dvd (by omega) hdvd
  omega

end Ok

/-! ## What the calls do to the items -/

/-- The statements of `rt_data_queue_push` that store the item. -/
def store (q : DataQueue) (item : DataItem) : DataQueue :=
  { q with
    queue := Function.update q.queue (q.putIndex % q.size) item
    putIndex := u16 (q.putIndex + 1) }

/-- The statement of `rt_data_queue_pop` that gives up the item. -/
def advance (q : DataQueue) : DataQueue := { q with getIndex := u16 (q.getIndex + 1) }

theorem Ok.places_store (h : q.Ok) (item : DataItem) (hfree : q.PlaceFree) :
    (q.store item).places = q.places ++ [q.putIndex % q.size] := by
  have hlt := h.count_lt hfree
  have hsize := h.size_lt
  have hput := h.put_lt
  have hget := h.get_lt
  have hcount : (q.store item).count = q.count + 1 := by
    unfold count at hlt ⊢
    show (u16 (q.putIndex + 1) + 65536 - q.getIndex) % 65536 = _
    unfold u16
    omega
  have hlast : u16 (q.getIndex + q.count) = q.putIndex := by
    unfold u16 count
    omega
  unfold places
  rw [hcount, List.range_succ, List.map_append, List.map_singleton]
  congr 2
  show u16 (q.getIndex + q.count) % q.size = _
  rw [hlast]

/-- **An item is pushed** into a free place. -/
theorem Ok.store (h : q.Ok) (item : DataItem) (hfree : q.PlaceFree) :
    (q.store item).Ok ∧ (q.store item).items = q.items ++ [item] := by
  have hplaces := h.places_store item hfree
  refine ⟨⟨h.size_pos, h.size_lt, h.get_lt, Nat.mod_lt _ (by decide), ?_⟩, ?_⟩
  · rw [hplaces]
    refine List.nodup_append.mpr ⟨h.nodup, List.nodup_singleton _, fun p hp p' hp' he => ?_⟩
    rw [List.mem_singleton.mp hp'] at he
    exact hfree (he ▸ hp)
  · unfold items
    rw [hplaces, List.map_append, List.map_singleton]
    congr 1
    · refine List.map_congr_left fun p hp => ?_
      exact Function.update_of_ne (fun he : p = q.putIndex % q.size => hfree (he ▸ hp)) _ _
    · exact congrArg (fun x => [x]) (Function.update_self _ _ _)

theorem Ok.places_advance (h : q.Ok) (hne : q.getIndex ≠ q.putIndex) :
    q.places = q.getIndex % q.size :: q.advance.places := by
  have hput := h.put_lt
  have hget := h.get_lt
  have hcount : q.count = q.advance.count + 1 := by
    show (q.putIndex + 65536 - q.getIndex) % 65536 =
      (q.putIndex + 65536 - u16 (q.getIndex + 1)) % 65536 + 1
    unfold u16
    omega
  have hfirst : u16 (q.getIndex + 0) = q.getIndex := Nat.mod_eq_of_lt hget
  have hplace : ∀ k, q.place (k + 1) = q.advance.place k := by
    intro k
    show u16 (q.getIndex + (k + 1)) % q.size = u16 (u16 (q.getIndex + 1) + k) % q.size
    congr 1
    unfold u16
    omega
  unfold places
  rw [hcount, List.range_succ_eq_map, List.map_cons, List.map_map]
  congr 1
  · unfold place
    rw [hfirst]
  · exact List.map_congr_left fun k _ => hplace k

/-- **An item is popped**: the first one. -/
theorem Ok.advance (h : q.Ok) (hne : q.getIndex ≠ q.putIndex) :
    q.advance.Ok ∧ q.items = q.queue (q.getIndex % q.size) :: q.advance.items := by
  have hplaces := h.places_advance hne
  refine ⟨⟨h.size_pos, h.size_lt, Nat.mod_lt _ (by decide), h.put_lt, ?_⟩, ?_⟩
  · have hnd := h.nodup
    rw [hplaces] at hnd
    exact (List.nodup_cons.mp hnd).2
  · unfold items
    rw [hplaces, List.map_cons]
    rfl

/-- The lists of waiting threads play no part. -/
theorem Ok.threads (h : q.Ok) (l l' : List ThreadId) :
    Ok { q with suspendedPushList := l, suspendedPopList := l' } :=
  ⟨h.size_pos, h.size_lt, h.get_lt, h.put_lt, h.nodup⟩

end DataQueue

/-! ## Runs -/

/-- An item is stored in a free place, whether the test sees it or not. -/
def DqCall.Careful (q : DataQueue) : DqCall → Prop
  | .push _ _ => q.putIndex < q.getIndex → q.PlaceFree
  | _ => True

instance DqCall.decidableCareful (q : DataQueue) : (c : DqCall) → Decidable (c.Careful q)
  | .push _ _ => inferInstanceAs (Decidable (_ → _))
  | .pop _ => inferInstanceAs (Decidable True)
  | .peak => inferInstanceAs (Decidable True)

/-- A thread that goes on with its call. -/
def DqPc.Careful (q : DataQueue) : DqPc → Prop
  | .wait c => c.Careful q
  | _ => True

instance DqPc.decidableCareful (q : DataQueue) : (p : DqPc) → Decidable (p.Careful q)
  | .wait c => inferInstanceAs (Decidable (c.Careful q))
  | .idle => inferInstanceAs (Decidable True)
  | .pushed _ => inferInstanceAs (Decidable True)
  | .popped _ _ => inferInstanceAs (Decidable True)
  | .peaked _ => inferInstanceAs (Decidable True)

/-- No push that runs while `put_index` is below `get_index` finds its place taken. -/
def DqAction.Careful (s : DqSys) : DqAction → Prop
  | .call _ c => c.Careful s.queue
  | .resumed t => s.error t = .ok → (s.pc t).Careful s.queue
  | _ => True

instance DqAction.decidableCareful (s : DqSys) : (a : DqAction) → Decidable (a.Careful s)
  | .call _ c => inferInstanceAs (Decidable (c.Careful s.queue))
  | .resumed t => inferInstanceAs (Decidable (s.error t = .ok → (s.pc t).Careful s.queue))
  | .ret _ => inferInstanceAs (Decidable True)
  | .wake _ _ => inferInstanceAs (Decidable True)

/-- A bounded queue: what was pushed and not yet popped is in the queue, in order. -/
structure DqSys.Fifo (s : DqSys) : Prop where
  order : s.pushed = s.popped ++ s.queue.items
  bound : s.pushed.length ≤ s.popped.length + s.queue.size

/-- The invariant. -/
structure DqSys.Inv (s : DqSys) : Prop where
  ok : s.queue.Ok
  order : s.pushed = s.popped ++ s.queue.items

variable {s s' : DqSys} {c : DqCall} {t : ThreadId}

namespace DqSys.Inv

theorem init (h₀ : s.Init) : s.Inv := by
  obtain ⟨⟨size, lwm, mem, hpos, hle, hq⟩, -, hpushed, hpopped⟩ := h₀
  refine ⟨?_, ?_⟩
  · rw [hq]
    exact DataQueue.ok_init hpos hle
  · rw [hpushed, hpopped, hq, DataQueue.items_init]
    rfl

theorem fifo (h : s.Inv) : s.Fifo := by
  refine ⟨h.order, ?_⟩
  rw [h.order, List.length_append, DataQueue.length_items]
  have h₁ := h.ok.count_le
  omega

theorem push (h : s.Inv) {item : DataItem} {timeout : Int}
    (hc : (DqCall.push item timeout).Careful s.queue) : (s.run t (.push item timeout)).Inv := by
  show ((s.after t (rtDataQueuePush s.queue t item timeout)).log (.push item timeout)
    (rtDataQueuePush s.queue t item timeout).pc).Inv
  unfold rtDataQueuePush
  by_cases hfull : (s.queue.putIndex : Int) - s.queue.getIndex = s.queue.size
  · rw [if_pos hfull]
    split_ifs
    · exact ⟨h.ok, h.order⟩
    · exact ⟨h.ok.threads _ _, h.order⟩
  · rw [if_neg hfull]
    have hfree : s.queue.PlaceFree := by
      by_cases hle : s.queue.getIndex ≤ s.queue.putIndex
      · exact h.ok.placeFree hle hfull
      · exact hc (Nat.not_le.mp hle)
    obtain ⟨hok, hitems⟩ := h.ok.store item hfree
    refine ⟨hok.threads _ _, ?_⟩
    show s.pushed ++ [item] = s.popped ++ (s.queue.store item).items
    rw [hitems, h.order, List.append_assoc]

theorem pop (h : s.Inv) {timeout : Int} : (s.run t (.pop timeout)).Inv := by
  show ((s.after t (rtDataQueuePop s.queue t timeout)).log (.pop timeout)
    (rtDataQueuePop s.queue t timeout).pc).Inv
  unfold rtDataQueuePop
  by_cases hempty : s.queue.getIndex = s.queue.putIndex
  · rw [if_pos hempty]
    split_ifs
    · exact ⟨h.ok, h.order⟩
    · exact ⟨h.ok.threads _ _, h.order⟩
  · rw [if_neg hempty]
    obtain ⟨hok, hitems⟩ := h.ok.advance hempty
    have horder : s.pushed = s.popped ++ [s.queue.queue (s.queue.getIndex % s.queue.size)] ++
        s.queue.advance.items := by
      rw [h.order, hitems, List.append_assoc]
      rfl
    dsimp only
    split_ifs
    · exact ⟨hok.threads _ _, horder⟩
    · exact ⟨hok, horder⟩

theorem peak (h : s.Inv) : (s.run t .peak).Inv := by
  show ((s.after t (rtDataQueuePeak s.queue)).log .peak (rtDataQueuePeak s.queue).pc).Inv
  unfold rtDataQueuePeak
  split_ifs
  · exact ⟨h.ok, h.order⟩
  · exact ⟨h.ok, h.order⟩

/-- A section that begins at the test of its loop. -/
theorem run (h : s.Inv) (hc : c.Careful s.queue) : (s.run t c).Inv := by
  cases c with
  | push item timeout => exact h.push hc
  | pop timeout => exact h.pop
  | peak => exact h.peak

/-- **Every careful step keeps the order.** -/
theorem step (h : s.Inv) {a : DqAction} (hc : a.Careful s) (he : s.exec a = some s') : s'.Inv := by
  cases a with
  | call t c =>
      simp only [DqSys.exec] at he
      split at he
      · cases he
        exact h.run hc
      · cases he
  | resumed t =>
      simp only [DqSys.exec] at he
      split at he
      · rename_i c hpc
        split_ifs at he with hw herr
        · cases he
          exact ⟨h.ok, h.order⟩
        · cases he
          have hwait := hc (not_not.mp herr)
          rw [hpc] at hwait
          exact h.run hwait
      · cases he
  | ret t =>
      simp only [DqSys.exec] at he
      split at he
      · cases he
      · cases he
      · cases he
        exact ⟨h.ok, h.order⟩
  | wake t e =>
      simp only [DqSys.exec] at he
      split_ifs at he
      cases he
      exact ⟨h.ok.threads _ _, h.order⟩

end DqSys.Inv

/-- **A data queue is a bounded FIFO** in runs in which every push finds a free place. -/
theorem data_queue_fifo
    (hr : Reachable DqSys.Init (fun s a s' => DqSys.exec s a = some s' ∧ a.Careful s) s) : s.Fifo := by
  have hinv : s.Inv :=
    hr.invariant (fun _ h₀ => .init h₀) fun _ _ _ _ h ha => h.step ha.2 ha.1
  exact hinv.fifo

/-! ## The indices go round -/

/-- A queue for one item after `k` items went through it, each pushed and popped by one thread. -/
def afterItems (k : Nat) : DqSys :=
  { queue := { size := 1, lwm := 0, getIndex := k, putIndex := k, queue := fun _ => ⟨0, 0⟩
               suspendedPushList := [], suspendedPopList := [] }
    error := fun _ => .ok
    pc := fun _ => .idle
    pushed := List.replicate k ⟨0, 0⟩
    popped := List.replicate k ⟨0, 0⟩ }

/-- The calls of thread 0 that take an item through the queue. -/
def oneItem : List DqAction :=
  [.call 0 (.push ⟨0, 0⟩ 0), .ret 0, .call 0 (.pop 0), .ret 0]

/-- The calls that are careful. -/
def carefulExec : DqSys → DqAction → Option DqSys := Trans.stepIf DqSys.exec fun s a => a.Careful s

theorem runList_oneItem {k : Nat} (hk : k + 1 < 65536) :
    Trans.runList carefulExec (afterItems k) oneItem = some (afterItems (k + 1)) := by
  have hword : u16 (k + 1) = k + 1 := Nat.mod_eq_of_lt hk
  simp [oneItem, Trans.runList, carefulExec, Trans.stepIf, DqAction.Careful, DqCall.Careful, DqSys.exec,
    afterItems, DqSys.run, DqSys.after, DqSys.log, DqCall.section, rtDataQueuePush, rtDataQueuePop,
    hword, List.replicate_succ']

/-- The run that takes `k` items through the queue. -/
theorem runList_items (k : Nat) (hk : k < 65536) :
    Trans.runList carefulExec (afterItems 0) (List.replicate k oneItem).flatten =
      some (afterItems k) := by
  induction k with
  | zero => rfl
  | succ k ih =>
      rw [List.replicate_succ', List.flatten_append, List.flatten_singleton, Trans.runList_append,
        ih (by omega)]
      exact runList_oneItem hk

theorem afterItems_init : (afterItems 0).Init :=
  ⟨⟨1, 0, fun _ => ⟨0, 0⟩, by decide, by decide, rfl⟩, fun _ => rfl, rfl, rfl⟩

/-- After 65535 items one more is pushed, and `put_index` is below `get_index`. -/
theorem data_queue_fifo_wrapped :
    ∃ s : DqSys, s.Fifo ∧ s.queue.putIndex < s.queue.getIndex ∧
      s.pushed = s.popped ++ [⟨1, 1⟩] := by
  obtain ⟨k, hk⟩ : ∃ k, k = 65535 := ⟨_, rfl⟩
  have hword : u16 (k + 1) = 0 := by
    rw [hk]
    rfl
  have hpush : carefulExec (afterItems k) (.call 0 (.push ⟨1, 1⟩ 0)) =
      some ((afterItems k).run 0 (.push ⟨1, 1⟩ 0)) := by
    refine Trans.stepIf_some.mpr ⟨rfl, fun hlt => ?_⟩
    exact absurd hlt (lt_irrefl k)
  have hr : Reachable DqSys.Init _ (afterItems k) :=
    Trans.reachable_of_runList_stepIf afterItems_init (runList_items k (by omega))
  refine ⟨_, data_queue_fifo (hr.step (Trans.stepIf_some.mp hpush)), ?_⟩
  simp [DqSys.run, DqSys.after, DqSys.log, DqCall.section, rtDataQueuePush, afterItems, hword]
  omega

/-- The queue holds its one item, and takes another. -/
theorem data_queue_overwrites :
    ¬ ∀ s, Reachable DqSys.Init (fun s a s' => DqSys.exec s a = some s') s → s.Fifo := by
  intro hclaim
  obtain ⟨k, hk⟩ : ∃ k, k = 65535 := ⟨_, rfl⟩
  have hrun := Trans.runList_mono (fun s a s' h => (Trans.stepIf_some.mp h).1)
    (runList_items k (by omega))
  have hr : Reachable DqSys.Init _ (afterItems k) :=
    Trans.reachable_of_runList (.init afterItems_init) hrun
  have hfull : ∃ s, Trans.runList DqSys.exec (afterItems k)
      [.call 0 (.push ⟨1, 1⟩ 0), .ret 0, .call 0 (.push ⟨2, 2⟩ 0)] = some s ∧
        s.queue.size = 1 ∧ s.pushed.length = s.popped.length + 2 := by
    have hword : u16 (k + 1) = 0 := by
      rw [hk]
      rfl
    have hneg : ¬ (-(k : Int) = 1) := by omega
    simp [Trans.runList, DqSys.exec, DqSys.run, DqSys.after, DqSys.log, DqCall.section,
      rtDataQueuePush, afterItems, hword, hneg]
  obtain ⟨s, hs, hsize, hlen⟩ := hfull
  have hbound := (hclaim s (Trans.reachable_of_runList hr hs)).bound
  rw [hsize, hlen] at hbound
  omega

end RTThread.Drivers
