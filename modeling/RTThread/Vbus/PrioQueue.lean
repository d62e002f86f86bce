import RTThread.Mempool.Frame
import RTThread.Lib.Carried
import RTThread.Vbus.Model

set_option autoImplicit false

/-! # Items are delivered by priority, and none is lost

Beside the queue of the code, with its heads, tails and bitmap, there is one with a list of items for each
priority (`Lib/Levels.lean`). The items of these lists, those that calls hold and the free ones are the blocks
of the pool.
-/

namespace RTThread.Vbus

open Mp Levels
open Sll (Linked)
open scoped List

/-! ## Heads, tails and the bitmap -/

section Queue

variable {que que' : PrioQueue} {mem mem' : Mem} {q q' : Nat → List Nat} {prio item n p : Nat}
  {l : List Nat}

/-- The head, the tail and the bit of a priority are those of a list of items; an empty list leaves any tail. -/
structure Level (mem : Mem) (head tail : Nat) (bit : Bool) (l : List Nat) : Prop where
  list : Linked mem head l
  bit : bit = true ↔ l ≠ []
  tail : l ≠ [] → l.getLast? = some tail

/-- The queue holds the items in the lists. -/
structure Holds (que : PrioQueue) (mem : Mem) (q : Nat → List Nat) : Prop where
  level : ∀ p < 32, Level mem (que.head p) (que.tail p) (que.bitmap.getLsbD p) (q p)
  nodup : (all 32 q).Nodup

theorem Level.head_ne {head tail : Nat} {bit : Bool} (h : Level mem head tail bit l) : head ≠ 0 ↔ l ≠ [] := by
  constructor
  · rintro h0 rfl
    have hl : Sll.link head = none := h.list
    rw [Sll.link_of_ne h0] at hl
    cases hl
  · exact h.list.head_ne

theorem Level.congr {head tail : Nat} {bit : Bool} (h : Level mem head tail bit l)
    (hmem : ∀ b ∈ l, mem' b = mem b) : Level mem' head tail bit l :=
  ⟨h.list.congr hmem, h.bit, h.tail⟩

namespace Holds

variable (h : Holds que mem q)

include h

/-- The least set bit is that of the first list with an item. -/
theorem ffs_eq : Bitmap.ffs que.bitmap = p + 1 ↔ first 32 q = some p := by
  rw [Bitmap.ffs_eq_iff, first_eq_some]
  constructor
  · rintro ⟨hp, hb, hlow⟩
    refine ⟨hp, (h.level p hp).bit.mp hb, fun j hj => ?_⟩
    by_contra hne
    have hset := (h.level j (by omega)).bit.mpr hne
    rw [hlow j hj] at hset
    cases hset
  · rintro ⟨hp, hne, hlow⟩
    refine ⟨hp, (h.level p hp).bit.mpr hne, fun j hj => ?_⟩
    by_contra hb
    exact (h.level j (by omega)).bit.mp (Bool.eq_true_of_not_eq_false hb) (hlow j hj)

theorem ffs_eq_zero : Bitmap.ffs que.bitmap = 0 ↔ first 32 q = none := by
  constructor
  · intro h0
    cases hp : first 32 q with
    | none => rfl
    | some p =>
        rw [← h.ffs_eq, h0] at hp
        cases hp
  · intro hnone
    cases hf : Bitmap.ffs que.bitmap with
    | zero => rfl
    | succ p =>
        rw [h.ffs_eq, hnone] at hf
        cases hf

theorem congr (hmem : ∀ b ∈ all 32 q, mem' b = mem b) : Holds que mem' q :=
  ⟨fun p hp => (h.level p hp).congr fun b hb => hmem b (mem_all_of_level hp hb), h.nodup⟩

/-- One list changes, and what the queue has for its priority. -/
theorem update (hl : Level mem' (que'.head prio) (que'.tail prio) (que'.bitmap.getLsbD prio) l)
    (hoff : ∀ p < 32, p ≠ prio → que'.head p = que.head p ∧ que'.tail p = que.tail p ∧
      que'.bitmap.getLsbD p = que.bitmap.getLsbD p)
    (hmem : ∀ p < 32, p ≠ prio → ∀ b ∈ q p, mem' b = mem b)
    (hnd : (all 32 (Function.update q prio l)).Nodup) : Holds que' mem' (Function.update q prio l) := by
  refine ⟨fun p hp => ?_, hnd⟩
  by_cases hpp : p = prio
  · subst hpp
    rwa [Function.update_self]
  · obtain ⟨hhead, htail, hbit⟩ := hoff p hp hpp
    rw [Function.update_of_ne hpp, hhead, htail, hbit]
    exact (h.level p hp).congr (hmem p hp hpp)

/-- **`_do_push`**: the assertion does not fail, and the item is the last of its list. -/
theorem doPush (hprio : prio < 32) (h0 : item ≠ 0) (hnext : mem item = 0) (hnew : item ∉ all 32 q) :
    ∃ que' mem', Vbus.doPush que mem prio item = some (que', mem') ∧ Holds que' mem' (push q prio item) ∧
      que'.suspendedPopList = que.suspendedPopList ∧ que'.itemSz = que.itemSz ∧
      ∀ a, a ∉ all 32 q → mem' a = mem a := by
  have hnd : (all 32 (push q prio item)).Nodup :=
    (all_push hprio).nodup_iff.mpr (List.nodup_cons.mpr ⟨hnew, h.nodup⟩)
  have hlevel := h.level prio hprio
  unfold Vbus.doPush
  by_cases hhead : que.head prio = 0
  · have hnil : q prio = [] := by
      by_contra hne
      exact hlevel.head_ne.mpr hne hhead
    have hone : Level mem item item true [item] := by
      refine ⟨Linked.cons ?_ h0, by simp, fun _ => rfl⟩
      rw [hnext]
      rfl
    rw [if_pos hhead]
    refine ⟨_, mem, rfl, h.update ?_ (fun p hp hpp => ?_) (fun _ _ _ _ _ => rfl) hnd, rfl, rfl,
      fun _ _ => rfl⟩
    · dsimp only
      rw [Function.update_self, Function.update_self, Bitmap.getLsbD_set hprio, hnil]
      simpa using hone
    · dsimp only
      rw [Function.update_of_ne hpp, Function.update_of_ne hpp, Bitmap.getLsbD_set hprio]
      simp [hpp]
  · have hne := hlevel.head_ne.mp hhead
    have hlast := hlevel.tail hne
    obtain ⟨l, hl⟩ : ∃ l, q prio = l ++ [que.tail prio] := List.getLast?_eq_some_iff.mp hlast
    have htail : que.tail prio ∈ q prio := by simp [hl]
    have htail0 : que.tail prio ≠ 0 := fun h0 => hlevel.list.zero_notMem (h0 ▸ htail)
    rw [if_neg hhead, if_neg htail0]
    refine ⟨_, _, rfl, h.update ?_ (fun p hp hpp => ?_) (fun p hp hpp b hb => ?_) hnd, rfl, rfl, fun a ha => ?_⟩
    · dsimp only
      rw [Function.update_self]
      refine ⟨?_, iff_of_true (hlevel.bit.mpr hne) (by simp), fun _ => List.getLast?_concat⟩
      have hlist := hlevel.list
      have hlnd := level_nodup h.nodup hprio
      have hnot : item ∉ q prio := fun hm => hnew (mem_all_of_level hprio hm)
      rw [hl] at hlist hlnd hnot
      rw [hl]
      exact hlist.append hlnd hnot h0 hnext
    · dsimp only
      rw [Function.update_of_ne hpp]
      exact ⟨rfl, rfl, rfl⟩
    · apply Function.update_of_ne
      rintro rfl
      exact notMem_level h.nodup hprio hp hpp htail hb
    · apply Function.update_of_ne
      rintro rfl
      exact ha (mem_all_of_level hprio htail)

/-- **`_do_pop`**: the assertion does not fail, and the item is the first of the first list that has one. -/
theorem doPop (htake : take 32 q = some (item, q')) :
    ∃ que', Vbus.doPop que mem = some (item, que') ∧ item ≠ 0 ∧ Holds que' mem q' ∧
      que'.suspendedPopList = que.suspendedPopList ∧ que'.itemSz = que.itemSz := by
  obtain ⟨p, l, hp, hl, rfl⟩ := take_eq_some.mp htake
  obtain ⟨hlt, -, -⟩ := first_eq_some.mp hp
  have hffs := h.ffs_eq.mpr hp
  have hlevel := h.level p hlt
  have hhead := hlevel.head_ne.mpr (by rw [hl]; exact List.cons_ne_nil _ _)
  have hlist := hlevel.list
  rw [hl] at hlist
  obtain ⟨l', hcons, hrest⟩ := hlist.pop hhead
  obtain ⟨hitem, rfl⟩ := List.cons.inj hcons
  have hnd := (all_take htake).nodup_iff.mp h.nodup
  subst hitem
  have hself := Function.update_self p (mem (que.head p)) que.head
  have hoff : ∀ j, j ≠ p → Function.update que.head p (mem (que.head p)) j = que.head j :=
    fun j hj => Function.update_of_ne hj _ _
  unfold Vbus.doPop
  rw [hffs, if_neg (Nat.succ_ne_zero p), Nat.add_sub_cancel]
  dsimp only
  rw [if_neg hhead]
  by_cases hnil : l = []
  · have h0 : mem (que.head p) = 0 := by
      by_contra hne
      obtain ⟨l', hcons', -⟩ := hrest.pop hne
      rw [hnil] at hcons'
      cases hcons'
    rw [if_pos (hself.trans h0)]
    refine ⟨_, rfl, hhead, h.update ?_ (fun j hj hjp => ?_) (fun _ _ _ _ _ => rfl)
      (List.nodup_cons.mp hnd).2, rfl, rfl⟩
    · refine ⟨?_, ?_, fun hne => absurd hnil hne⟩
      · dsimp only
        rw [hself]
        exact hrest
      · dsimp only
        rw [Bitmap.getLsbD_clear hlt]
        simp [hnil]
    · refine ⟨hoff j hjp, rfl, ?_⟩
      dsimp only
      rw [Bitmap.getLsbD_clear hlt]
      simp [hjp]
  · rw [if_neg (hself.trans_ne (hrest.head_ne hnil))]
    refine ⟨_, rfl, hhead, h.update ?_ (fun j hj hjp => ⟨hoff j hjp, rfl, rfl⟩) (fun _ _ _ _ _ => rfl)
      (List.nodup_cons.mp hnd).2, rfl, rfl⟩
    refine ⟨?_, iff_of_true (hlevel.bit.mpr (by simp [hl])) hnil, fun _ => ?_⟩
    · dsimp only
      rw [hself]
      exact hrest
    · have htail := hlevel.tail (by simp [hl])
      rwa [hl, List.getLast?_cons_of_ne_nil hnil] at htail

theorem doPop_none (htake : take 32 q = none) : Vbus.doPop que mem = some (0, que) := by
  have hnone := h.ffs_eq_zero.mpr (first_eq_none.mpr (take_eq_none.mp htake))
  unfold Vbus.doPop
  rw [if_pos hnone]

end Holds

end Queue

/-! ## The data -/

/-- The queue that is meant: the data for each priority, and what a pop has taken and not copied yet. -/
structure Meant where
  queued : Nat → List (List Nat)
  hand : ThreadId → Option (List Nat)

namespace Meant

def new : Meant := ⟨fun _ => [], fun _ => none⟩

/-- A pop takes the oldest data of the first priority that has any, and finds none if no priority has. -/
def step (m : Meant) : PqEvent → Option Meant
  | .push prio data => some { m with queued := push m.queued prio data }
  | .take t => (take 32 m.queued).map fun r => ⟨r.2, Function.update m.hand t (some r.1)⟩
  | .empty => if all 32 m.queued = [] then some m else none
  | .fetch t data =>
      if m.hand t = some data then some { m with hand := Function.update m.hand t none } else none

end Meant

/-- The data of the item that a pop has taken. -/
def inHand (n : Nat) (mem : Mem) : PqPc → Option (List Nat)
  | .taken item => some (itemData mem n item)
  | _ => none

/-- What the items hold that are queued, filled or taken. -/
structure Stored (n : Nat) (que : PrioQueue) (mem : Mem) (pc : ThreadId → PqPc) (q : Nat → List Nat)
    (m : Meant) : Prop where
  holds : Holds que mem q
  out : ∀ p, 32 ≤ p → q p = []
  filled : ∀ t prio data item, pc t = .filled prio data item →
    prio < 32 ∧ mem item = 0 ∧ itemData mem n item = data
  queued : m.queued = fun p => (q p).map (itemData mem n)
  hand : ∀ t, m.hand t = inHand n mem (pc t)

section Stored

variable {n item prio : Nat} {que que' : PrioQueue} {mem mem' : Mem} {pc pc' : ThreadId → PqPc}
  {q q' : Nat → List Nat} {m : Meant} {t : ThreadId} {p : PqPc} {data : List Nat}

theorem header_pos (n : Nat) : 0 < itemHeader + n := Nat.lt_of_lt_of_le (by decide) (Nat.le_add_right 4 n)

theorem itemData_congr (h : ∀ i < itemHeader + n, mem' (item + i) = mem (item + i)) :
    itemData mem' n item = itemData mem n item := by
  apply List.map_congr_left
  intro i hi
  rw [Nat.add_assoc]
  exact h _ (Nat.add_lt_add_left (List.mem_range.mp hi) _)

/-- A thread takes up or puts down data. -/
theorem hand_update {hand : ThreadId → Option (List Nat)} (h : ∀ u, hand u = inHand n mem (pc u))
    (t u : ThreadId) (p : PqPc) :
    Function.update hand t (inHand n mem p) u = inHand n mem (Function.update pc t p u) := by
  by_cases hut : u = t
  · subst hut
    rw [Function.update_self, Function.update_self]
  · rw [Function.update_of_ne hut, Function.update_of_ne hut]
    exact h u

theorem filled_update {u : ThreadId} (hp : ∀ prio data item, p ≠ .filled prio data item)
    (hu : Function.update pc t p u = .filled prio data item) : u ≠ t ∧ pc u = .filled prio data item := by
  have hut : u ≠ t := by
    rintro rfl
    rw [Function.update_self] at hu
    exact hp _ _ _ hu
  rw [Function.update_of_ne hut] at hu
  exact ⟨hut, hu⟩

/-- The items that are looked at. -/
def Stands (pc : ThreadId → PqPc) (q : Nat → List Nat) (b : Nat) : Prop :=
  b ∈ all 32 q ∨ ∃ t, (∃ prio data, pc t = .filled prio data b) ∨ pc t = .taken b

namespace Stored

theorem congr (h : Stored n que mem pc q m)
    (hmem : ∀ b, Stands pc q b → ∀ i < itemHeader + n, mem' (b + i) = mem (b + i)) :
    Stored n que mem' pc q m := by
  have hlist : ∀ p, ∀ b ∈ q p, b ∈ all 32 q := by
    intro p b hb
    rcases Nat.lt_or_ge p 32 with hp | hp
    · exact mem_all_of_level hp hb
    · rw [h.out p hp] at hb
      cases hb
  refine ⟨h.holds.congr fun b hb => hmem b (.inl hb) 0 (header_pos n), h.out,
    fun t prio data item ht => ?_, ?_, fun t => ?_⟩
  · obtain ⟨hprio, hnext, hdata⟩ := h.filled t prio data item ht
    have hstands : Stands pc q item := .inr ⟨t, .inl ⟨prio, data, ht⟩⟩
    refine ⟨hprio, (hmem item hstands 0 (header_pos n)).trans hnext, ?_⟩
    rw [itemData_congr (hmem item hstands), hdata]
  · rw [h.queued]
    funext p
    apply List.map_congr_left
    intro b hb
    exact (itemData_congr (hmem b (.inl (hlist p b hb)))).symm
  · rw [h.hand t]
    cases hpc : pc t with
    | taken item => exact congrArg some (itemData_congr (hmem item (.inr ⟨t, .inr hpc⟩))).symm
    | _ => rfl

/-- A thread moves between places at which no item is looked at. -/
theorem move (h : Stored n que mem pc q m) (hfilled : ∀ prio data item, p ≠ .filled prio data item)
    (hhand : inHand n mem (pc t) = inHand n mem p) :
    Stored n que mem (Function.update pc t p) q m := by
  refine ⟨h.holds, h.out, fun u prio data item hu => h.filled u _ _ _ (filled_update hfilled hu).2, h.queued,
    fun u => ?_⟩
  rw [← hand_update h.hand, ← hhand, ← h.hand, Function.update_eq_self]

/-- An item is filled that is none of those that are looked at. -/
theorem fill (h : Stored n que mem pc q m) (hprio : prio < 32) (hlen : data.length = n)
    (hfree : ∀ b, Stands pc q b → ∀ i < itemHeader + n, ∀ j < itemHeader + n, b + i ≠ item + j)
    (hhand : inHand n mem (pc t) = none) :
    Stored n que (Function.update (memcpy mem (item + itemHeader) data) item 0)
      (Function.update pc t (.filled prio data item)) q m := by
  have hheader : itemHeader = 4 := rfl
  have hother : Stored n que (Function.update (memcpy mem (item + itemHeader) data) item 0) pc q m := by
    apply h.congr
    intro b hb i hi
    have hi0 : b + i ≠ item := hfree b hb i hi 0 (header_pos n)
    rw [Function.update_of_ne hi0, memcpy, if_neg]
    rintro ⟨hle, hlt⟩
    exact hfree b hb i hi (b + i - item) (by omega) (by omega)
  have hdata : itemData (Function.update (memcpy mem (item + itemHeader) data) item 0) n item = data := by
    apply List.ext_getElem
    · simp [itemData, hlen]
    · intro i hi hi'
      simp only [itemData, List.getElem_map, List.getElem_range]
      rw [Function.update_of_ne (by omega), memcpy, if_pos (by omega)]
      simp [hi']
  refine ⟨hother.holds, h.out, fun u prio' data' item' hu => ?_, hother.queued, fun u => ?_⟩
  · by_cases hut : u = t
    · subst hut
      rw [Function.update_self] at hu
      obtain ⟨rfl, rfl, rfl⟩ := PqPc.filled.inj hu
      exact ⟨hprio, Function.update_self _ _ _, hdata⟩
    · rw [Function.update_of_ne hut] at hu
      exact hother.filled u prio' data' item' hu
  · by_cases hut : u = t
    · subst hut
      rw [Function.update_self, h.hand u, hhand]
      rfl
    · rw [Function.update_of_ne hut]
      exact hother.hand u

/-- The filled item is queued; what changes in the memory are words in front of queued items. -/
theorem enqueue (h : Stored n que mem pc q m) (ht : pc t = .filled prio data item)
    (hholds : Holds que' mem' (push q prio item)) (hmem : ∀ a, a ∉ all 32 q → mem' a = mem a)
    (hdata : ∀ b, Stands pc q b → ∀ i < n, b + itemHeader + i ∉ all 32 q)
    (hfilled : ∀ u prio data b, pc u = .filled prio data b → b ∉ all 32 q) {r : PqResult} :
    Stored n que' mem' (Function.update pc t (.ret r)) (push q prio item)
      { m with queued := push m.queued prio data } := by
  obtain ⟨hprio, -, hitem⟩ := h.filled t prio data item ht
  have hsame : ∀ b, Stands pc q b → itemData mem' n b = itemData mem n b := by
    intro b hb
    apply List.map_congr_left
    intro i hi
    exact hmem _ (hdata b hb i (List.mem_range.mp hi))
  have hstands : Stands pc q item := .inr ⟨t, .inl ⟨prio, data, ht⟩⟩
  refine ⟨hholds, fun p hp => ?_, fun u prio' data' item' hu => ?_, ?_, fun u => ?_⟩
  · unfold push
    rw [Function.update_of_ne (by omega)]
    exact h.out p hp
  · obtain ⟨-, hu⟩ := filled_update (by simp) hu
    obtain ⟨hprio', hnext, hdata'⟩ := h.filled u prio' data' item' hu
    refine ⟨hprio', (hmem _ (hfilled u prio' data' item' hu)).trans hnext, ?_⟩
    rw [hsame item' (.inr ⟨u, .inl ⟨prio', data', hu⟩⟩), hdata']
  · have hold : m.queued = fun p => (q p).map (itemData mem' n) := by
      rw [h.queued]
      funext p
      apply List.map_congr_left
      intro b hb
      rcases Nat.lt_or_ge p 32 with hp | hp
      · exact (hsame b (.inl (mem_all_of_level hp hb))).symm
      · rw [h.out p hp] at hb
        cases hb
    rw [← push_map, ← hold, hsame item hstands, hitem]
  · by_cases hut : u = t
    · subst hut
      rw [Function.update_self]
      exact (h.hand u).trans (by rw [ht]; rfl)
    · rw [Function.update_of_ne hut]
      refine (h.hand u).trans ?_
      cases hpc : pc u with
      | taken b => exact congrArg some (hsame b (.inr ⟨u, .inr hpc⟩)).symm
      | _ => rfl

/-- A pop takes the first item. -/
theorem take (h : Stored n que mem pc q m) (htake : Levels.take 32 q = some (item, q'))
    (hholds : Holds que' mem q') :
    Stored n que' mem (Function.update pc t (.taken item)) q'
      ⟨fun p => (q' p).map (itemData mem n), Function.update m.hand t (some (itemData mem n item))⟩ := by
  obtain ⟨p, l, hp, hl, rfl⟩ := take_eq_some.mp htake
  obtain ⟨hlt, -, -⟩ := first_eq_some.mp hp
  refine ⟨hholds, fun j hj => ?_, fun u _ _ _ hu => h.filled u _ _ _ (filled_update (by simp) hu).2, rfl,
    fun u => hand_update h.hand t u (.taken item)⟩
  rw [Function.update_of_ne (by omega)]
  exact h.out j hj

/-- The data is copied. -/
theorem fetch (h : Stored n que mem pc q m) (ht : pc t = .taken item) :
    m.hand t = some (itemData mem n item) ∧
      Stored n que mem (Function.update pc t (.copied item data)) q
        { m with hand := Function.update m.hand t none } := by
  refine ⟨?_, h.holds, h.out, fun u _ _ _ hu => h.filled u _ _ _ (filled_update (by simp) hu).2, h.queued,
    fun u => hand_update h.hand t u (.copied item data)⟩
  rw [h.hand t, ht]
  rfl

end Stored

end Stored

/-! ## The threads that wait for an item -/

/-- The suspended threads and those that a push has resumed; as long as a thread is suspended, there are no more
than `count` of these. -/
structure Waits (ts us : List ThreadId) (pc : ThreadId → PqPc) (error : ThreadId → Err) (count : Nat) :
    Prop where
  suspended : ts.Nodup ∧ ∀ t ∈ ts, (∃ time, pc t = .wait time) ∧ error t = .ok
  resumed : us.Nodup ∧ ∀ t ∈ us, (∃ time, pc t = .wait time) ∧ t ∉ ts ∧ error t = .ok
  wakes : ts ≠ [] → count ≤ us.length

namespace Waits

variable {suspended resumed : List ThreadId} {pc pc' : ThreadId → PqPc} {error error' : ThreadId → Err}
  {count count' : Nat} {t : ThreadId} {p : PqPc}

theorem congr (h : Waits suspended resumed pc error count)
    (hpc : ∀ u, (∃ time, pc u = .wait time) → pc' u = pc u ∧ error' u = error u) :
    Waits suspended resumed pc' error' count := by
  refine ⟨⟨h.suspended.1, fun u hu => ?_⟩, ⟨h.resumed.1, fun u hu => ?_⟩, h.wakes⟩
  · obtain ⟨hwait, herr⟩ := h.suspended.2 u hu
    obtain ⟨hpc', herr'⟩ := hpc u hwait
    rw [hpc', herr']
    exact ⟨hwait, herr⟩
  · obtain ⟨hwait, hns, herr⟩ := h.resumed.2 u hu
    obtain ⟨hpc', herr'⟩ := hpc u hwait
    rw [hpc', herr']
    exact ⟨hwait, hns, herr⟩

/-- A thread moves on that is neither suspended nor resumed. -/
theorem move (h : Waits suspended resumed pc error count) (ht : t ∉ suspended) (ht' : t ∉ resumed) :
    Waits suspended resumed (Function.update pc t p) error count := by
  refine ⟨⟨h.suspended.1, fun u hu => ?_⟩, ⟨h.resumed.1, fun u hu => ?_⟩, h.wakes⟩
  · rw [Function.update_of_ne (fun he : u = t => ht (he ▸ hu))]
    exact h.suspended.2 u hu
  · rw [Function.update_of_ne (fun he : u = t => ht' (he ▸ hu))]
    exact h.resumed.2 u hu

theorem notMem (h : Waits suspended resumed pc error count) (ht : ∀ time, pc t ≠ .wait time) :
    t ∉ suspended ∧ t ∉ resumed := by
  constructor
  · intro hm
    obtain ⟨⟨time, hwait⟩, -⟩ := h.suspended.2 t hm
    exact ht time hwait
  · intro hm
    obtain ⟨⟨time, hwait⟩, -⟩ := h.resumed.2 t hm
    exact ht time hwait

/-- A thread is back in `rt_prio_queue_pop`, and takes an item if there is one. -/
theorem back (h : Waits suspended resumed pc error count) (t : ThreadId) (hc : count' ≤ count - 1) :
    Waits suspended (resumed.erase t) pc error count' := by
  refine ⟨h.suspended, ⟨h.resumed.1.erase t, fun u hu => h.resumed.2 u (List.mem_of_mem_erase hu)⟩,
    fun hne => ?_⟩
  have hwakes := h.wakes hne
  have hlen : resumed.length - 1 ≤ (resumed.erase t).length := by
    rw [List.length_erase]
    split_ifs
    · exact le_rfl
    · exact Nat.sub_le _ _
  omega

/-- A thread is suspended, behind the others. -/
theorem suspend {timeout : Int} (h : Waits suspended resumed pc error 0) (ht : t ∉ suspended)
    (ht' : t ∉ resumed) : Waits (suspended ++ [t]) resumed (Function.update pc t (.wait timeout))
      (Function.update error t .ok) 0 := by
  refine ⟨⟨List.nodup_append.mpr ⟨h.suspended.1, List.nodup_singleton t, ?_⟩, fun u hu => ?_⟩,
    ⟨h.resumed.1, fun u hu => ?_⟩, fun _ => Nat.zero_le _⟩
  · intro u hu v hv
    rw [List.mem_singleton.mp hv]
    rintro rfl
    exact ht hu
  · by_cases hut : u = t
    · subst hut
      rw [Function.update_self, Function.update_self]
      exact ⟨⟨timeout, rfl⟩, rfl⟩
    · rw [Function.update_of_ne hut, Function.update_of_ne hut]
      exact h.suspended.2 u ((List.mem_append.mp hu).resolve_right (by simpa using hut))
  · have hut : u ≠ t := fun he => ht' (he ▸ hu)
    obtain ⟨hwait, hns, herr⟩ := h.resumed.2 u hu
    rw [Function.update_of_ne hut, Function.update_of_ne hut]
    refine ⟨hwait, ?_, herr⟩
    simp [hns, hut]

/-- A push adds an item, and resumes the first thread. -/
theorem resume (h : Waits suspended resumed pc error count) :
    Waits suspended.tail (suspended.head?.elim resumed fun u => u :: resumed) pc error (count + 1) := by
  cases hs : suspended with
  | nil =>
      rw [hs] at h
      exact ⟨h.suspended, h.resumed, fun hne => absurd rfl hne⟩
  | cons u l =>
      rw [hs] at h
      obtain ⟨hul, hnd⟩ := List.nodup_cons.mp h.suspended.1
      have hu : u ∉ resumed := fun hm => (h.resumed.2 u hm).2.1 List.mem_cons_self
      refine ⟨⟨hnd, fun v hv => h.suspended.2 v (List.mem_cons_of_mem u hv)⟩,
        ⟨List.nodup_cons.mpr ⟨hu, h.resumed.1⟩, fun v hv => ?_⟩, fun _ => ?_⟩
      · rcases List.mem_cons.mp hv with rfl | hv
        · obtain ⟨hwait, herr⟩ := h.suspended.2 v List.mem_cons_self
          exact ⟨hwait, hul, herr⟩
        · obtain ⟨hwait, hns, herr⟩ := h.resumed.2 v hv
          exact ⟨hwait, fun hm => hns (List.mem_cons_of_mem u hm), herr⟩
      · exact Nat.succ_le_succ (h.wakes (List.cons_ne_nil _ _))

/-- A timer or other code wakes a thread. -/
theorem wake (h : Waits suspended resumed pc error count) (ht : t ∈ suspended) (e : Err) :
    Waits (suspended.erase t) resumed pc (Function.update error t e) count := by
  refine ⟨⟨h.suspended.1.erase t, fun u hu => ?_⟩, ⟨h.resumed.1, fun u hu => ?_⟩, fun hne => h.wakes ?_⟩
  · obtain ⟨hut, hu⟩ := h.suspended.1.mem_erase_iff.mp hu
    rw [Function.update_of_ne hut]
    exact h.suspended.2 u hu
  · obtain ⟨hwait, hns, herr⟩ := h.resumed.2 u hu
    rw [Function.update_of_ne (fun he : u = t => hns (he ▸ ht))]
    exact ⟨hwait, fun hm => hns (List.mem_of_mem_erase hm), herr⟩
  · rintro rfl
    exact hne rfl

end Waits

/-! ## The invariant -/

namespace PqSys

/-- The item in transit that a call holds. -/
def item (s : PqSys) (t : ThreadId) : Option Nat :=
  match s.pc t with
  | .alloc _ _ =>
      match s.pool.pc t with
      | .ret b => if b = 0 then none else some b
      | _ => none
  | .filled _ _ b => some b
  | .taken b => some b
  | .copied b _ => some b
  | _ => none

@[simp] theorem setPc_pc_self (s : PqSys) (t : ThreadId) (p : PqPc) : (s.setPc t p).pc t = p :=
  Function.update_self _ _ _

structure Inv (s : PqSys) (q : Nat → List Nat) (m : Meant) : Prop where
  pool : s.pool.Inv
  room : itemHeader + s.que.itemSz ≤ s.pool.mp.blockSize
  stored : Stored s.que.itemSz s.que s.pool.mem s.pc q m
  carried : ∃ l, Carries s.item l ∧ (s.pool.handed.map Prod.fst).Perm (all 32 q ++ l)
  /-- A thread is in `rt_mp_alloc` if and only if it is there in a push. -/
  calls : ∀ t, s.pool.pc t ≠ .idle ↔ ∃ prio data, s.pc t = .alloc prio data
  alloc : ∀ t prio data, s.pc t = .alloc prio data → prio < 32 ∧ data.length = s.que.itemSz
  log : Trans.runList Meant.step .new s.log = some m
  waits : Waits s.que.suspendedPopList s.resumed s.pc s.pool.error (all 32 q).length

namespace Inv

variable {s s' : PqSys} {q q' : Nat → List Nat} {m m' : Meant} {t u : ThreadId} {pool' : MpSys} {b : Nat}

theorem handed_nodup (h : s.Inv q m) : (s.pool.handed.map Prod.fst).Nodup := by
  obtain ⟨l, -, -, hperm⟩ := h.pool.blocks
  exact (List.nodup_append.mp (hperm.nodup_iff.mpr h.pool.once)).2.1

/-- What is looked at was handed out. -/
theorem handed_of_stands (h : s.Inv q m) (hb : Stands s.pc q b) : b ∈ s.pool.handed.map Prod.fst := by
  obtain ⟨l, hl, hperm⟩ := h.carried
  rw [hperm.mem_iff, List.mem_append]
  rcases hb with hb | ⟨t, ⟨prio, data, hpc⟩ | hpc⟩
  · exact .inl hb
  · refine .inr (hl.mem_iff.mpr ⟨t, ?_⟩)
    rw [item, hpc]
  · refine .inr (hl.mem_iff.mpr ⟨t, ?_⟩)
    rw [item, hpc]

theorem handed_of_item (h : s.Inv q m) (hb : s.item t = some b) :
    b ∈ s.pool.handed.map Prod.fst ∧ b ∉ all 32 q := by
  obtain ⟨l, hl, hperm⟩ := h.carried
  have hmem : b ∈ l := hl.mem_iff.mpr ⟨t, hb⟩
  refine ⟨hperm.mem_iff.mpr (List.mem_append_right _ hmem), fun hm => ?_⟩
  have hnd := hperm.nodup_iff.mp h.handed_nodup
  exact (List.nodup_append.mp hnd).2.2 b hm b hmem rfl

/-- Two threads hold two items. -/
theorem item_unique (h : s.Inv q m) (ht : s.item t = some b) (hu : s.item u = some b) : t = u := by
  obtain ⟨l, hl, hperm⟩ := h.carried
  have hnd := hperm.nodup_iff.mp h.handed_nodup
  exact hl.unique (List.nodup_append.mp hnd).2.1 ht hu

/-- The bytes of an item are in front of no block. -/
theorem notMem_blocks (h : s.Inv q m) (hb : b ∈ s.pool.handed.map Prod.fst) {i : Nat}
    (hi : i < itemHeader + s.que.itemSz) : b + i ∉ s.pool.mp.blocks := by
  obtain ⟨p, hp, rfl⟩ := h.pool.exists_block hb
  intro hm
  exact h.pool.laid.payload_ne hp hm (Nat.lt_of_lt_of_le hi h.room) rfl

/-- The bytes of two items are at different addresses. -/
theorem disjoint (h : s.Inv q m) {c i j : Nat} (hb : b ∈ s.pool.handed.map Prod.fst)
    (hc : c ∈ s.pool.handed.map Prod.fst) (hbc : b ≠ c) (hi : i < itemHeader + s.que.itemSz)
    (hj : j < itemHeader + s.que.itemSz) : b + i ≠ c + j := by
  obtain ⟨p, hp, rfl⟩ := h.pool.exists_block hb
  obtain ⟨r, hr, rfl⟩ := h.pool.exists_block hc
  exact h.pool.laid.payload_disjoint hp hr (fun he => hbc (by rw [he])) (Nat.lt_of_lt_of_le hi h.room)
    (Nat.lt_of_lt_of_le hj h.room)

/-- A step of the pool changes nothing that is looked at. -/
theorem stored_frame (h : s.Inv q m) (hf : MpSys.Frame s.pool pool') :
    Stored s.que.itemSz s.que pool'.mem s.pc q m :=
  h.stored.congr fun _ hb _ hi => hf.mem _ (h.notMem_blocks (h.handed_of_stands hb) hi)

/-! ### One thread moves -/

/-- A place at which a thread is in no call, waits for an item, or returns. -/
def Plain : PqPc → Prop
  | .idle => True
  | .wait _ => True
  | .ret _ => True
  | _ => False

theorem item_plain {s : PqSys} (ht : Plain (s.pc t)) : s.item t = none := by
  unfold item
  cases hpc : s.pc t with
  | idle => rfl
  | wait time => rfl
  | ret r => rfl
  | _ =>
      rw [hpc] at ht
      exact ht.elim

theorem Plain.not_alloc {p : PqPc} (hp : Plain p) : ¬ ∃ prio data, p = .alloc prio data := by
  rintro ⟨prio, data, rfl⟩
  exact hp

theorem Plain.not_filled {p : PqPc} (hp : Plain p) : ∀ prio data item, p ≠ .filled prio data item := by
  rintro prio data item rfl
  exact hp

theorem Plain.inHand {n : Nat} {mem : Mem} {p : PqPc} (hp : Plain p) : inHand n mem p = none := by
  cases p with
  | taken item => exact hp.elim
  | _ => rfl

/-- A thread whose place and whose call of the pool are the same. -/
theorem item_congr (hpc : s'.pc u = s.pc u) (hpool : s'.pool.pc u = s.pool.pc u) : s'.item u = s.item u := by
  unfold item
  rw [hpc, hpool]

/-- A thread moves from a plain place to another one. -/
theorem setPc {p : PqPc} (h : s.Inv q m) (ht : Plain (s.pc t)) (hp : Plain p)
    (hw : t ∉ s.que.suspendedPopList ∧ t ∉ s.resumed) : (s.setPc t p).Inv q m := by
  have hself : (s.setPc t p).pc t = p := setPc_pc_self s t p
  have hother : ∀ u, u ≠ t → (s.setPc t p).pc u = s.pc u := fun u hu => Function.update_of_ne hu _ _
  obtain ⟨l, hl, hperm⟩ := h.carried
  refine ⟨h.pool, h.room, h.stored.move hp.not_filled (ht.inHand.trans hp.inHand.symm),
    ⟨l, hl.congr fun u => ?_, hperm⟩, fun u => ?_, fun u prio data hu => ?_, h.log, h.waits.move hw.1 hw.2⟩
  · by_cases hut : u = t
    · subst hut
      have hp' : Plain ((s.setPc u p).pc u) := by rwa [hself]
      rw [item_plain ht, item_plain hp']
    · exact item_congr (hother u hut) rfl
  · by_cases hut : u = t
    · subst hut
      rw [hself]
      refine iff_of_false (not_not.mpr ?_) hp.not_alloc
      by_contra hne
      exact ht.not_alloc ((h.calls u).mp hne)
    · rw [hother u hut]
      exact h.calls u
  · have hut : u ≠ t := by
      rintro rfl
      rw [hself] at hu
      exact hp.not_alloc ⟨prio, data, hu⟩
    rw [hother u hut] at hu
    exact h.alloc u prio data hu

/-! ### The pool -/

theorem item_alloc_none {s : PqSys} {prio : Nat} {data : List Nat} (hpc : s.pc t = .alloc prio data)
    (hret : ∀ b, s.pool.pc t = .ret b → b = 0) : s.item t = none := by
  unfold item
  rw [hpc]
  cases hp : s.pool.pc t with
  | ret b => exact if_pos (hret b hp)
  | _ => rfl

theorem item_alloc_some {s : PqSys} {prio : Nat} {data : List Nat} (hpc : s.pc t = .alloc prio data)
    (hret : s.pool.pc t = .ret b) (hb : b ≠ 0) : s.item t = some b := by
  unfold item
  rw [hpc, hret]
  exact if_neg hb

theorem not_taken {s : PqSys} (ht : s.item t = none) (n : Nat) (mem : Mem) : inHand n mem (s.pc t) = none := by
  cases hpc : s.pc t with
  | taken b =>
      rw [item, hpc] at ht
      cases ht
  | _ => rfl

/-- A thread goes on in `rt_mp_alloc`. -/
theorem went {prio : Nat} {data : List Nat} (h : s.Inv q m) (hpool : pool'.Inv) (hw : MpSys.Went s.pool t pool')
    (hitem : s.item t = none) (hnot : ∀ time, s.pc t ≠ .wait time)
    (hcall : prio < 32 ∧ data.length = s.que.itemSz) :
    ({ s with pool := pool' }.setPc t (.alloc prio data)).Inv q m := by
  have hself : ({ s with pool := pool' }.setPc t (.alloc prio data)).pc t = .alloc prio data :=
    Function.update_self _ _ _
  have hother : ∀ u, u ≠ t → ({ s with pool := pool' }.setPc t (.alloc prio data)).pc u = s.pc u :=
    fun u hu => Function.update_of_ne hu _ _
  obtain ⟨p, hne, hp⟩ := hw.pc
  have hpself : pool'.pc t = p := by rw [hp, Function.update_self]
  have hpother : ∀ u, u ≠ t → pool'.pc u = s.pool.pc u := by
    intro u hu
    rw [hp, Function.update_of_ne hu]
  have hwait := h.waits.notMem hnot
  constructor
  case pool => exact hpool
  case room => exact hw.frame.blockSize ▸ h.room
  case stored => exact (h.stored_frame hw.frame).move (by simp) (not_taken hitem _ _)
  case carried =>
    obtain ⟨l, hl, hperm⟩ := h.carried
    rcases hw.handed with ⟨hret, hhanded⟩ | ⟨b, hret, hb0, -, hhanded⟩
    · refine ⟨l, hl.congr fun u => ?_, hhanded ▸ hperm⟩
      by_cases hut : u = t
      · subst hut
        rw [hitem]
        exact item_alloc_none hself hret
      · exact item_congr (hother u hut) (hpother u hut)
    · refine ⟨b :: l, hl.take hitem (item_alloc_some hself hret hb0) fun u hu =>
        item_congr (hother u hu) (hpother u hu), ?_⟩
      change (pool'.handed.map Prod.fst).Perm _
      rw [hhanded]
      exact (hperm.cons b).trans List.perm_middle.symm
  case calls =>
    intro u
    by_cases hut : u = t
    · subst hut
      rw [hself]
      exact iff_of_true (hpself.trans_ne hne) ⟨prio, data, rfl⟩
    · rw [hother u hut]
      change pool'.pc u ≠ .idle ↔ _
      rw [hpother u hut]
      exact h.calls u
  case alloc =>
    intro u prio' data' hu
    by_cases hut : u = t
    · subst hut
      rw [hself] at hu
      obtain ⟨rfl, rfl⟩ := PqPc.alloc.inj hu
      exact hcall
    · rw [hother u hut] at hu
      exact h.alloc u prio' data' hu
  case log => exact h.log
  case waits =>
    apply (h.waits.congr fun u hu => ⟨rfl, hw.error u ?_⟩).move hwait.1 hwait.2
    rintro rfl
    obtain ⟨time, hpc⟩ := hu
    exact hnot time hpc

/-- A step of the pool in which no call of a push goes on. -/
theorem quiet {l : List ThreadId} (h : s.Inv q m) (hpool : pool'.Inv) (hf : MpSys.Frame s.pool pool')
    (hpc : pool'.pc = s.pool.pc) (hhanded : pool'.handed.map Prod.fst = s.pool.handed.map Prod.fst)
    (hw : Waits l s.resumed s.pc pool'.error (all 32 q).length) :
    Inv { s with pool := pool', que := { s.que with suspendedPopList := l } } q m := by
  have hs := h.stored_frame hf
  obtain ⟨c, hc, hperm⟩ := h.carried
  refine ⟨hpool, hf.blockSize ▸ h.room, ⟨⟨hs.holds.level, hs.holds.nodup⟩, hs.out, hs.filled, hs.queued, hs.hand⟩,
    ⟨c, hc.congr fun u => item_congr rfl (congrFun hpc u), hhanded ▸ hperm⟩, fun u => ?_, h.alloc, h.log, hw⟩
  change pool'.pc u ≠ .idle ↔ _
  rw [hpc]
  exact h.calls u

/-- `rt_mp_alloc` has returned, and the call of the pool is over. -/
theorem pool_idle (h : s.Inv q m) {prio : Nat} {data : List Nat} (hpc : s.pc t = .alloc prio data)
    (hpool : pool'.Inv) (hp : pool' = { s.pool with pc := Function.update s.pool.pc t .idle }) {p : PqPc}
    {mem : Mem} (hmem : ∀ p ∈ s.pool.mp.blocks, mem p = s.pool.mem p)
    (hitem : s.item t = ({ s with pool := pool' }.setPc t p).item t)
    (halloc : ¬ ∃ prio data, p = .alloc prio data)
    (hstored : Stored s.que.itemSz s.que mem (Function.update s.pc t p) q m) :
    ({ s with pool := { pool' with mem := mem } }.setPc t p).Inv q m := by
  subst hp
  have hself : ({ s with pool := { s.pool with pc := Function.update s.pool.pc t .idle } }.setPc t p).pc t = p :=
    Function.update_self _ _ _
  have hwait := h.waits.notMem (t := t) (by simp [hpc])
  obtain ⟨c, hc, hperm⟩ := h.carried
  refine ⟨hpool.of_mem hmem, h.room, hstored, ⟨c, hc.congr fun u => ?_, hperm⟩, fun u => ?_,
    fun u prio' data' hu => ?_, h.log, h.waits.move hwait.1 hwait.2⟩
  · by_cases hut : u = t
    · subst hut
      exact hitem.symm
    · exact item_congr (Function.update_of_ne hut _ _) (Function.update_of_ne hut _ _)
  · change Function.update s.pool.pc t .idle u ≠ .idle ↔ ∃ prio data, Function.update s.pc t p u = .alloc prio data
    by_cases hut : u = t
    · subst hut
      rw [Function.update_self, Function.update_self]
      exact iff_of_false (not_not.mpr rfl) halloc
    · rw [Function.update_of_ne hut, Function.update_of_ne hut]
      exact h.calls u
  · have hut : u ≠ t := by
      rintro rfl
      exact halloc ⟨prio', data', (Function.update_self _ _ _).symm.trans hu⟩
    exact h.alloc u prio' data' ((Function.update_of_ne hut _ _).symm.trans hu)

/-! ### The steps -/

section Steps

variable {prio item delta : Nat} {data : List Nat} {timeout : Int} {e : Err}

theorem push (h : s.Inv q m) (he : s.exec (.push t prio data timeout) = some s') : s'.Inv q m := by
  simp only [exec] at he
  split at he
  · rename_i hpc
    have hplain : Plain (s.pc t) := by rw [hpc]; exact trivial
    have hnot : ∀ time, s.pc t ≠ .wait time := by simp [hpc]
    split_ifs at he with hcall hmax
    · obtain rfl := Option.some.inj he
      exact h.setPc hplain trivial (h.waits.notMem hnot)
    · obtain ⟨pool', hpool', rfl⟩ := Option.map_eq_some_iff.mp he
      exact h.went (h.pool.step hpool') (h.pool.exec_alloc hpool').2 (item_plain hplain) hnot
        ⟨Nat.lt_of_not_le hmax, hcall.2⟩
  · cases he

theorem allocAgain (h : s.Inv q m) (he : s.exec (.allocAgain t delta) = some s') : s'.Inv q m := by
  simp only [exec] at he
  split at he
  · rename_i prio data hpc
    obtain ⟨pool', hpool', rfl⟩ := Option.map_eq_some_iff.mp he
    obtain ⟨⟨time, hwait⟩, hwent⟩ := h.pool.exec_again hpool'
    have hnone : s.item t = none := by
      apply item_alloc_none hpc
      intro b hb
      rw [hwait] at hb
      cases hb
    have hsame : ({ s with pool := pool' }.setPc t (.alloc prio data)) = { s with pool := pool' } := by
      rw [PqSys.setPc, ← hpc, Function.update_eq_self]
    exact hsame ▸ h.went (h.pool.step hpool') hwent hnone (by simp [hpc]) (h.alloc t prio data hpc)
  · cases he

theorem wakeAlloc (h : s.Inv q m) (he : s.exec (.wakeAlloc t e) = some s') : s'.Inv q m := by
  obtain ⟨pool', hpool', rfl⟩ := Option.map_eq_some_iff.mp he
  obtain ⟨hf, hpc, hhanded, ⟨time, hwait⟩, herr⟩ := h.pool.exec_wake hpool'
  refine h.quiet (h.pool.step hpool') hf hpc (by rw [hhanded]) (h.waits.congr fun u hu => ⟨rfl, herr u ?_⟩)
  rintro rfl
  obtain ⟨prio, data, halloc⟩ := (h.calls u).mp (by simp [hwait])
  obtain ⟨time', hpop⟩ := hu
  rw [halloc] at hpop
  cases hpop

theorem wakePop (h : s.Inv q m) (he : s.exec (.wakePop t e) = some s') : s'.Inv q m := by
  simp only [exec] at he
  split_ifs at he with ht
  obtain rfl := Option.some.inj he
  obtain ⟨⟨time, hwait⟩, -⟩ := h.waits.suspended.2 t ht
  have hidle : ∀ time, s.pool.pc t ≠ .wait time := by
    intro time' hp
    obtain ⟨prio, data, halloc⟩ := (h.calls t).mp (by simp [hp])
    rw [hwait] at halloc
    cases halloc
  exact h.quiet (h.pool.of_error hidle e) ⟨rfl, rfl, fun _ _ => rfl⟩ rfl rfl (h.waits.wake ht e)

theorem ret (h : s.Inv q m) (he : s.exec (.ret t) = some s') : s'.Inv q m := by
  simp only [exec] at he
  split at he
  · rename_i r hpc
    obtain rfl := Option.some.inj he
    exact h.setPc (by rw [hpc]; exact trivial) trivial (h.waits.notMem (by simp [hpc]))
  · cases he

theorem fill (h : s.Inv q m) (he : s.exec (.fill t) = some s') : s'.Inv q m := by
  simp only [exec] at he
  split at he
  · rename_i prio data b hpc hret
    obtain ⟨pool', hpool', rfl⟩ := Option.map_eq_some_iff.mp he
    have hp := (MpSys.exec_ret hpool').2
    have hmem : pool'.mem = s.pool.mem := by rw [hp]
    have hinv := h.pool.step hpool'
    have hhand : ∀ mem, inHand s.que.itemSz mem (s.pc t) = none := by
      intro mem
      rw [hpc]
      rfl
    by_cases hb : b = 0
    · rw [if_pos hb]
      have hnone : s.item t = none := item_alloc_none hpc fun c hc => by
        rw [hret] at hc
        exact (MpPc.ret.inj hc).symm.trans hb
      refine h.pool_idle hpc hinv hp (fun p _ => by rw [hmem]) ?_ (by simp) ?_
      · rw [hnone]
        exact (item_plain (by rw [setPc_pc_self]; exact trivial)).symm
      · rw [hmem]
        exact h.stored.move (by simp) (hhand _)
    · rw [if_neg hb]
      have hitem : s.item t = some b := item_alloc_some hpc hret hb
      obtain ⟨hprio, hlen⟩ := h.alloc t prio data hpc
      have hhanded := (h.handed_of_item hitem).1
      have hstands : ∀ c, Stands s.pc q c → c ≠ b := by
        rintro c (hc | ⟨u, hc⟩) rfl
        · exact (h.handed_of_item hitem).2 hc
        · have hu : s.item u = some c := by
            unfold item
            rcases hc with ⟨prio, data, hc⟩ | hc
            · rw [hc]
            · rw [hc]
          rw [h.item_unique hu hitem, hpc] at hc
          simp at hc
      refine h.pool_idle hpc hinv hp ?_ ?_ (by simp) ?_
      · intro p hp
        have hne : ∀ i < itemHeader + s.que.itemSz, p ≠ b + i := by
          rintro i hi rfl
          exact h.notMem_blocks hhanded hi hp
        have hpb : p ≠ b := hne 0 (header_pos _)
        rw [Function.update_of_ne hpb, memcpy, if_neg, hmem]
        rintro ⟨hle, hlt⟩
        exact hne (p - b) (by omega) (by omega)
      · rw [hitem, PqSys.item, setPc_pc_self]
      · rw [hmem]
        exact h.stored.fill hprio hlen
          (fun c hc i hi j hj => h.disjoint (h.handed_of_stands hc) hhanded (hstands c hc) hi hj) (hhand _)
  · cases he

/-- The item of a thread that is filled, taken or copied. -/
theorem item_some {p : PqPc} (hpc : s.pc t = p)
    (hp : (∃ prio data, p = .filled prio data b) ∨ p = .taken b ∨ ∃ data, p = .copied b data) :
    s.item t = some b := by
  unfold item
  rw [hpc]
  rcases hp with ⟨prio, data, rfl⟩ | rfl | ⟨data, rfl⟩
  · rfl
  · rfl
  · rfl

/-- The thread is in no call of the pool before and after. -/
theorem calls_update {p : PqPc} (h : s.Inv q m) (ht : ¬ ∃ prio data, s.pc t = .alloc prio data)
    (hp : ¬ ∃ prio data, p = .alloc prio data) (u : ThreadId) :
    s.pool.pc u ≠ .idle ↔ ∃ prio data, Function.update s.pc t p u = .alloc prio data := by
  by_cases hut : u = t
  · subst hut
    rw [Function.update_self]
    exact iff_of_false (fun hne => ht ((h.calls u).mp hne)) hp
  · rw [Function.update_of_ne hut]
    exact h.calls u

theorem alloc_update {p : PqPc} (h : s.Inv q m) (hp : ¬ ∃ prio data, p = .alloc prio data) {prio : Nat}
    {data : List Nat} (hu : Function.update s.pc t p u = .alloc prio data) :
    prio < 32 ∧ data.length = s.que.itemSz := by
  have hut : u ≠ t := by
    rintro rfl
    exact hp ⟨prio, data, (Function.update_self _ _ _).symm.trans hu⟩
  exact h.alloc u prio data ((Function.update_of_ne hut _ _).symm.trans hu)

/-- **The section of a push.** -/
theorem sectionPush (h : s.Inv q m) (hpc : s.pc t = .filled prio data item) :
    ∃ s', s.sectionPush t prio data item = some s' ∧
      s'.Inv (Levels.push q prio item) { m with queued := Levels.push m.queued prio data } := by
  have hitem : s.item t = some item := item_some hpc (.inl ⟨_, _, rfl⟩)
  obtain ⟨hhanded, hnew⟩ := h.handed_of_item hitem
  obtain ⟨hprio, hnext, hdata⟩ := h.stored.filled t prio data item hpc
  have h0 : item ≠ 0 := by
    obtain ⟨p, -, rfl⟩ := h.pool.exists_block hhanded
    exact Nat.succ_ne_zero _
  obtain ⟨que', mem', hdo, hholds, hsusp, hsz, hmem⟩ := h.stored.holds.doPush hprio h0 hnext hnew
  have hqueued : ∀ a ∈ all 32 q, a ∈ s.pool.handed.map Prod.fst := fun a ha => h.handed_of_stands (.inl ha)
  have hblocks : ∀ p ∈ s.pool.mp.blocks, mem' p = s.pool.mem p := by
    intro p hp
    apply hmem
    intro hm
    exact h.notMem_blocks (hqueued p hm) (header_pos _) hp
  have hbytes : ∀ b, Stands s.pc q b → ∀ i < s.que.itemSz, b + itemHeader + i ∉ all 32 q := by
    intro b hb i hi hm
    have hheader : 0 < itemHeader := by decide
    have hne := h.disjoint (i := itemHeader + i) (j := 0) (h.handed_of_stands hb) (hqueued _ hm) (by omega)
      (by omega) (header_pos _)
    omega
  have hstored := h.stored.enqueue (r := .ok) hpc hholds hmem hbytes fun u prio data b hu =>
    (h.handed_of_item (item_some hu (.inl ⟨_, _, rfl⟩))).2
  have hresume := h.waits.resume
  rw [← hsusp] at hresume
  have hwait := hresume.notMem (t := t) (by simp [hpc])
  obtain ⟨l, hl, hperm⟩ := h.carried
  have hmem' : item ∈ l := hl.mem_iff.mpr ⟨t, hitem⟩
  have hput := hl.perm (List.perm_cons_erase hmem').symm
  unfold PqSys.sectionPush
  rw [hdo]
  refine ⟨_, rfl, ?_⟩
  constructor
  case pool => exact h.pool.of_mem hblocks
  case room => exact hsz ▸ h.room
  case stored =>
    rw [← hsz] at hstored
    exact ⟨⟨hstored.holds.level, hstored.holds.nodup⟩, hstored.out, hstored.filled, hstored.queued, hstored.hand⟩
  case carried =>
    refine ⟨l.erase item, hput.put hitem ?_ fun u hu => ?_, ?_⟩
    · exact item_plain (by rw [setPc_pc_self]; exact trivial)
    · exact item_congr (Function.update_of_ne hu _ _) rfl
    · calc s.pool.handed.map Prod.fst
        _ ~ all 32 q ++ l := hperm
        _ ~ all 32 q ++ item :: l.erase item := (List.perm_cons_erase hmem').append_left _
        _ ~ (item :: all 32 q) ++ l.erase item := List.perm_middle
        _ ~ all 32 (Levels.push q prio item) ++ l.erase item := (all_push hprio).symm.append_right _
  case calls => exact h.calls_update (by simp [hpc]) (by simp)
  case alloc =>
    intro u prio' data' hu
    exact hsz ▸ h.alloc_update (by simp) hu
  case log => exact Trans.runList_snoc h.log rfl
  case waits =>
    have hcount : (all 32 (Levels.push q prio item)).length = (all 32 q).length + 1 := (all_push hprio).length_eq
    rw [hcount]
    exact hresume.move hwait.1 hwait.2

theorem enqueue (h : s.Inv q m) (he : s.exec (.enqueue t) = some s') : ∃ q' m', s'.Inv q' m' := by
  simp only [exec] at he
  split at he
  · rename_i prio data item hpc
    obtain ⟨s₁, hs₁, hinv⟩ := h.sectionPush hpc
    obtain rfl := Option.some.inj (he.symm.trans hs₁)
    exact ⟨_, _, hinv⟩
  · cases he

/-- **The loop of a pop**: the assertion does not fail. -/
theorem loopPop (h : s.Inv q m) (hpc : Plain (s.pc t)) (ht : t ∉ s.que.suspendedPopList) :
    ∃ s' q' m', s.loopPop t timeout = some s' ∧ s'.Inv q' m' := by
  have hnot : ¬ ∃ prio data, s.pc t = .alloc prio data := hpc.not_alloc
  have ht' : t ∉ s.resumed.erase t := h.waits.resumed.1.not_mem_erase
  unfold PqSys.loopPop
  cases htake : take 32 q with
  | none =>
      have hnil := all_eq_nil.mpr (take_eq_none.mp htake)
      have hempty : m.step .empty = some m := by
        apply if_pos
        rw [all_eq_nil] at hnil ⊢
        intro p hp
        rw [h.stored.queued]
        dsimp only
        rw [hnil p hp, List.map_nil]
      rw [h.stored.holds.doPop_none htake]
      rw [Option.map_some]
      dsimp only
      rw [if_pos rfl]
      have hinv : Inv { s with resumed := s.resumed.erase t, log := s.log ++ [PqEvent.empty] } q m := by
        refine ⟨h.pool, h.room, h.stored, h.carried, h.calls, h.alloc, Trans.runList_snoc h.log hempty,
          h.waits.back t ?_⟩
        rw [hnil]
        exact Nat.zero_le _
      by_cases h0 : timeout = 0
      · rw [if_pos h0]
        exact ⟨_, q, m, rfl, hinv.setPc hpc trivial ⟨ht, ht'⟩⟩
      · rw [if_neg h0]
        refine ⟨_, q, m, rfl, (hinv.setPc (p := .wait timeout) hpc trivial ⟨ht, ht'⟩).quiet
          (h.pool.of_error (fun time hp => hnot ((h.calls t).mp (by simp [hp]))) .ok) ⟨rfl, rfl, fun _ _ => rfl⟩
          rfl rfl ?_⟩
        have hwaits := hinv.waits
        rw [hnil] at hwaits ⊢
        exact hwaits.suspend ht ht'
  | some r =>
      obtain ⟨item, q'⟩ := r
      obtain ⟨que', hdo, h0, hholds, hsusp, hsz⟩ := h.stored.holds.doPop htake
      rw [hdo]
      rw [Option.map_some]
      dsimp only
      rw [if_neg h0]
      have hcount : (all 32 q).length = (all 32 q').length + 1 := (all_take htake).length_eq
      obtain ⟨l, hl, hperm⟩ := h.carried
      have hstored := h.stored.take (t := t) htake hholds
      refine ⟨_, q', ⟨fun p => (q' p).map (itemData s.pool.mem s.que.itemSz),
        Function.update m.hand t (some (itemData s.pool.mem s.que.itemSz item))⟩, rfl, ?_⟩
      constructor
      case pool => exact h.pool
      case room => exact hsz ▸ h.room
      case stored =>
        change Stored que'.itemSz _ _ _ _ _
        rw [hsz]
        exact hstored
      case carried =>
        refine ⟨item :: l, hl.take (item_plain hpc) (item_some (setPc_pc_self _ _ _) (.inr (.inl rfl))) fun u hu =>
          item_congr (Function.update_of_ne hu _ _) rfl, ?_⟩
        calc s.pool.handed.map Prod.fst
          _ ~ all 32 q ++ l := hperm
          _ ~ (item :: all 32 q') ++ l := (all_take htake).append_right _
          _ ~ all 32 q' ++ item :: l := List.perm_middle.symm
      case calls => exact h.calls_update hnot (by simp)
      case alloc =>
        intro u prio data hu
        exact hsz ▸ h.alloc_update (by simp) hu
      case log =>
        apply Trans.runList_snoc h.log
        change (take 32 m.queued).map _ = _
        rw [h.stored.queued, take_map _ htake]
        rfl
      case waits =>
        have hback := @Waits.back _ _ _ _ _ (all 32 q').length h.waits t (by omega)
        rw [← hsusp] at hback ht
        exact hback.move ht ht'

theorem pop (h : s.Inv q m) (he : s.exec (.pop t timeout) = some s') : ∃ q' m', s'.Inv q' m' := by
  simp only [exec] at he
  split at he
  · rename_i hpc
    obtain ⟨s₁, q', m', hs₁, hinv⟩ := @Inv.loopPop _ _ _ _ timeout h (by rw [hpc]; exact trivial)
      (h.waits.notMem (t := t) (by simp [hpc])).1
    obtain rfl := Option.some.inj (he.symm.trans hs₁)
    exact ⟨q', m', hinv⟩
  · cases he

theorem popAgain (h : s.Inv q m) (he : s.exec (.popAgain t) = some s') : ∃ q' m', s'.Inv q' m' := by
  simp only [exec] at he
  split at he
  · rename_i time hpc
    have hplain : Plain (s.pc t) := by rw [hpc]; exact trivial
    split_ifs at he with ht herr
    · obtain rfl := Option.some.inj he
      exact ⟨q, m, h.setPc hplain trivial ⟨ht, fun hm => herr (h.waits.resumed.2 t hm).2.2⟩⟩
    · obtain ⟨s₁, q', m', hs₁, hinv⟩ := @Inv.loopPop _ _ _ _ time h hplain ht
      obtain rfl := Option.some.inj (he.symm.trans hs₁)
      exact ⟨q', m', hinv⟩
  · cases he

theorem fetch (h : s.Inv q m) (he : s.exec (.fetch t) = some s') : ∃ m', s'.Inv q m' := by
  simp only [exec] at he
  split at he
  · rename_i b hpc
    obtain rfl := Option.some.inj he
    obtain ⟨hhand, hstored⟩ := @Stored.fetch _ _ _ _ _ _ _ _ (itemData s.pool.mem s.que.itemSz b) h.stored hpc
    obtain ⟨l, hl, hperm⟩ := h.carried
    have hwait := h.waits.notMem (t := t) (by simp [hpc])
    refine ⟨_, h.pool, h.room, hstored, ⟨l, hl.congr fun u => ?_, hperm⟩, h.calls_update (by simp [hpc]) (by simp),
      fun u prio data hu => h.alloc_update (by simp) hu, Trans.runList_snoc h.log (if_pos hhand),
      h.waits.move hwait.1 hwait.2⟩
    by_cases hut : u = t
    · subst hut
      rw [item_some hpc (.inr (.inl rfl))]
      exact item_some (setPc_pc_self _ _ _) (.inr (.inr ⟨_, rfl⟩))
    · exact item_congr (Function.update_of_ne hut _ _) rfl
  · cases he

theorem release (h : s.Inv q m) (he : s.exec (.release t) = some s') : s'.Inv q m := by
  simp only [exec] at he
  split at he
  · rename_i b data hpc
    obtain ⟨pool', hpool', rfl⟩ := Option.map_eq_some_iff.mp he
    have hitem : s.item t = some b := item_some hpc (.inr (.inr ⟨_, rfl⟩))
    obtain ⟨hf, hpcs, hhanded, herror⟩ := h.pool.exec_free (h.handed_of_item hitem).1 hpool'
    have hwait := h.waits.notMem (t := t) (by simp [hpc])
    obtain ⟨l, hl, hperm⟩ := h.carried
    have hmem : b ∈ l := hl.mem_iff.mpr ⟨t, hitem⟩
    have hnew := (h.handed_of_item hitem).2
    refine ⟨h.pool.step hpool', hf.blockSize ▸ h.room, (h.stored_frame hf).move (by simp) (by rw [hpc]; rfl), ?_, ?_,
      fun u prio data' hu => h.alloc_update (by simp) hu, h.log, ?_⟩
    · refine ⟨l.erase b, (hl.perm (List.perm_cons_erase hmem).symm).put hitem ?_ fun u hu => ?_, ?_⟩
      · exact item_plain (by rw [setPc_pc_self]; exact trivial)
      · exact item_congr (Function.update_of_ne hu _ _) (congrFun hpcs u)
      · change (pool'.handed.map Prod.fst).Perm _
        rw [hhanded]
        calc (s.pool.handed.map Prod.fst).erase b
          _ ~ (all 32 q ++ l).erase b := hperm.erase b
          _ = all 32 q ++ l.erase b := List.erase_append_right l hnew
    · intro u
      change pool'.pc u ≠ .idle ↔ _
      rw [hpcs]
      exact h.calls_update (by simp [hpc]) (by simp) u
    · refine (h.waits.congr fun u hu => ⟨rfl, herror u fun time hp => ?_⟩).move hwait.1 hwait.2
      obtain ⟨time', hpop⟩ := hu
      obtain ⟨prio, data', halloc⟩ := (h.calls u).mp (by simp [hp])
      rw [halloc] at hpop
      cases hpop
  · cases he

/-- Every step keeps the invariant. -/
theorem step {a : PqAction} (h : s.Inv q m) (he : s.exec a = some s') : ∃ q' m', s'.Inv q' m' := by
  cases a with
  | push t prio data timeout => exact ⟨q, m, h.push he⟩
  | allocAgain t delta => exact ⟨q, m, h.allocAgain he⟩
  | fill t => exact ⟨q, m, h.fill he⟩
  | enqueue t => exact h.enqueue he
  | pop t timeout => exact h.pop he
  | popAgain t => exact h.popAgain he
  | fetch t => exact ⟨q, h.fetch he⟩
  | release t => exact ⟨q, m, h.release he⟩
  | ret t => exact ⟨q, m, h.ret he⟩
  | wakeAlloc t e => exact ⟨q, m, h.wakeAlloc he⟩
  | wakePop t e => exact ⟨q, m, h.wakePop he⟩

end Steps

/-- The queue is empty, and no thread is in a call. -/
theorem init (h : s.Init) : s.Inv (fun _ => []) .new := by
  obtain ⟨hque, ⟨start, size, mem, hstart, hsize, hnew⟩, hword, htotal, hpool, hhanded, hpres, hpc, hres, hlog⟩ := h
  have hempty : all 32 (fun _ : Nat => ([] : List Nat)) = [] := all_eq_nil.mpr fun _ _ => rfl
  have hitem : ∀ t, s.item t = none := fun t => item_plain (by rw [hpc t]; exact trivial)
  have hsusp : s.que.suspendedPopList = [] := by rw [hque]
  constructor
  case pool => exact .init ⟨⟨start, _, mem, hstart, .inl ⟨size, hsize, hnew⟩⟩, htotal, hpool, hhanded, hpres⟩
  case room =>
    rw [(Prod.mk.inj hnew).2]
    change itemHeader + s.que.itemSz ≤ Memheap.rtAlign (itemHeader + s.que.itemSz)
    unfold Memheap.rtAlign
    simp only [Memheap.u32, Memheap.RT_ALIGN_SIZE]
    omega
  case stored =>
    refine ⟨⟨fun p _ => ?_, ?_⟩, fun _ _ => rfl, fun t prio data item ht => ?_, rfl, fun t => ?_⟩
    · rw [hque]
      exact ⟨rfl, by simp, fun hne => absurd rfl hne⟩
    · rw [hempty]
      exact List.nodup_nil
    · rw [hpc t] at ht
      cases ht
    · rw [hpc t]
      rfl
  case carried =>
    refine ⟨[], .nil hitem, ?_⟩
    rw [hhanded, hempty]
    exact .nil
  case calls =>
    intro t
    rw [hpool t, hpc t]
    simp
  case alloc =>
    intro t prio data ht
    rw [hpc t] at ht
    cases ht
  case log =>
    rw [hlog]
    rfl
  case waits =>
    rw [hsusp, hres]
    exact ⟨⟨List.nodup_nil, by simp⟩, ⟨List.nodup_nil, by simp⟩, fun hne => absurd rfl hne⟩

end Inv

/-! ## What is delivered -/

/-- What is to hold of a queue: `q` are the items of the priorities, and `m` is what was pushed and not popped
yet. -/
structure Delivers (s : PqSys) (q : Nat → List Nat) (m : Meant) : Prop where
  list : ∀ p < 32, Linked s.pool.mem (s.que.head p) (q p)
  bitmap : ∀ p < 32, s.que.bitmap.getLsbD p = true ↔ s.que.head p ≠ 0
  tail : ∀ p < 32, s.que.head p ≠ 0 → (q p).getLast? = some (s.que.tail p)
  /-- The bytes that the items hold are those that were pushed. -/
  data : ∀ p < 32, m.queued p = (q p).map (itemData s.pool.mem s.que.itemSz)
  /-- The pops have taken and copied what they were to. -/
  log : Trans.runList Meant.step .new s.log = some m
  /-- The free items, those that are queued and those in transit are all items, each there once. -/
  items : ∃ free transit, Linked s.pool.mem s.pool.mp.blockList free ∧ Carries s.item transit ∧
    (free.map (· + 4) ++ (all 32 q ++ transit)).Perm (s.pool.mp.blocks.map (· + 4)) ∧
    (free.map (· + 4) ++ (all 32 q ++ transit)).Nodup ∧
    free.length + (all 32 q).length + transit.length = s.pool.mp.blockTotalCount
  /-- As long as a thread is suspended, the queued items are no more than the threads that were resumed. -/
  wakes : s.que.suspendedPopList ≠ [] → (all 32 q).length ≤ s.resumed.length
  /-- The assertions of a push and of a pop do not fail. -/
  enqueues : ∀ t prio data item, s.pc t = .filled prio data item → s.exec (.enqueue t) ≠ none
  pops : ∀ t timeout, s.pc t = .idle → s.exec (.pop t timeout) ≠ none
  popsAgain : ∀ t timeout, s.pc t = .wait timeout → t ∉ s.que.suspendedPopList → s.exec (.popAgain t) ≠ none

theorem Inv.delivers {s : PqSys} {q : Nat → List Nat} {m : Meant} (h : s.Inv q m) : s.Delivers q m := by
  have hne := fun p hp => (h.stored.holds.level p hp).head_ne
  constructor
  case list => exact fun p hp => (h.stored.holds.level p hp).list
  case bitmap => exact fun p hp => (h.stored.holds.level p hp).bit.trans (hne p hp).symm
  case tail => exact fun p hp h0 => (h.stored.holds.level p hp).tail ((hne p hp).mp h0)
  case data =>
    intro p _
    rw [h.stored.queued]
  case log => exact h.log
  case items =>
    obtain ⟨free, hfree, -, hblocks⟩ := h.pool.blocks
    obtain ⟨transit, htransit, hhanded⟩ := h.carried
    have hperm := (hhanded.symm.append_left (free.map (· + 4))).trans hblocks
    refine ⟨free, transit, hfree, htransit, hperm, hperm.nodup_iff.mpr h.pool.once, ?_⟩
    have hlen := hperm.length_eq
    simp only [List.length_append, List.length_map, Mempool.blocks, List.length_range] at hlen
    omega
  case wakes => exact h.waits.wakes
  case enqueues =>
    intro t prio data item hpc
    obtain ⟨s', hs', -⟩ := h.sectionPush hpc
    simp only [exec, hpc, hs']
    exact Option.some_ne_none s'
  case pops =>
    intro t timeout hpc
    obtain ⟨s', -, -, hs', -⟩ := @Inv.loopPop _ _ _ _ timeout h (by rw [hpc]; exact trivial)
      (h.waits.notMem (t := t) (by simp [hpc])).1
    simp only [exec, hpc, hs']
    exact Option.some_ne_none s'
  case popsAgain =>
    intro t timeout hpc ht
    obtain ⟨s', -, -, hs', -⟩ := @Inv.loopPop _ _ _ _ timeout h (by rw [hpc]; exact trivial) ht
    simp only [exec, hpc, if_neg ht, hs']
    split_ifs <;> exact Option.some_ne_none _

/-- **Items are delivered by priority, and none is lost.** -/
theorem queue_delivers {s : PqSys} (h : Trans.Reachable PqSys.Init (fun s a s' => PqSys.exec s a = some s') s) :
    ∃ q m, s.Delivers q m := by
  have hinv : ∃ q m, s.Inv q m := by
    apply h.invariant (I := fun s => ∃ q m, s.Inv q m)
    · exact fun _ hs => ⟨_, _, Inv.init hs⟩
    · rintro s a s' - ⟨q, m, hi⟩ he
      exact hi.step he
  obtain ⟨q, m, hinv⟩ := hinv
  exact ⟨q, m, hinv.delivers⟩

/-- A queue of two items of four bytes. -/
def twoItems : PqSys where
  pool :=
    { addr := 64
      mem := (rtMpInit 100 24 8 fun _ => 0).1
      mp := (rtMpInit 100 24 8 fun _ => 0).2
      error _ := .ok
      pc _ := .idle
      handed := []
      resumed := [] }
  que := { bitmap := 0, head := fun _ => 0, tail := fun _ => 0, suspendedPopList := [], itemSz := 4 }
  pc _ := .idle
  resumed := []
  log := []

theorem twoItems_init : twoItems.Init :=
  ⟨rfl, ⟨100, 24, fun _ => 0, by decide, by decide, rfl⟩, by decide, by decide, fun _ => rfl, rfl, rfl,
    fun _ => rfl, rfl, rfl⟩

/-- A thread waits for an item, two are pushed, and another thread takes the more urgent one before it is back. -/
theorem queue_delivers_two :
    ∃ s q m, PqSys.Delivers s q m ∧ s.log = [.empty, .push 7 [1, 2, 3, 4], .push 3 [5, 6, 7, 8], .take 4,
      .take 1, .fetch 1 [1, 2, 3, 4], .fetch 4 [5, 6, 7, 8]] ∧ s.pool.mp.blockFreeCount = 1 := by
  have hrun : (Trans.runList PqSys.exec twoItems
      [.pop 1 (-1), .push 2 7 [1, 2, 3, 4] 0, .fill 2, .push 3 3 [5, 6, 7, 8] 5, .fill 3, .enqueue 2, .enqueue 3,
        .pop 4 0, .popAgain 1, .fetch 1, .fetch 4, .release 1]).map (fun s => decide (s.log =
        [.empty, .push 7 [1, 2, 3, 4], .push 3 [5, 6, 7, 8], .take 4, .take 1, .fetch 1 [1, 2, 3, 4],
          .fetch 4 [5, 6, 7, 8]] ∧ s.pool.mp.blockFreeCount = 1)) = some true := by
    decide +kernel
  obtain ⟨s, hs, hdec⟩ := Option.map_eq_some_iff.mp hrun
  obtain ⟨q, m, hdelivers⟩ := queue_delivers (Trans.reachable_of_runList (.init twoItems_init) hs)
  exact ⟨s, q, m, hdelivers, of_decide_eq_true hdec⟩

end PqSys

end RTThread.Vbus
