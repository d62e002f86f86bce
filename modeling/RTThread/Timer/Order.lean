import RTThread.Timer.Model

set_option autoImplicit false

/-! # The order of the timers

At the time `tick` the timers of a list have at most `2 ^ 31 - 2` ticks to go, and one of them may be
over since the last tick. In this window comparing the ticks by their difference is an order, and
`rt_timer_start` links a timer behind all those that expire no later. `SkipInv` says this of a list,
together with the shape of its rows; it is kept by every function, and a tick uses up the timers
that are over.
-/

namespace RTThread.Timers

open Kernel SkipList

variable {s s' : Timers} {t u v : TimerId} {k : Bool} {stamp : TimerId → Nat} {c : Nat}

/-! ## Ticks to go -/

/-- The ticks to go, and one more. -/
def key (s : Timers) (t : TimerId) : Nat := ((s.timer t).timeoutTick - s.tick + 1).toNat

/-- A timer with `d` ticks to go. -/
theorem key_of_start {d : Tick} (h : (s.timer t).timeoutTick = s.tick + d)
    (hd : d.toNat < RT_TICK_MAX / 2) : s.key t = d.toNat + 1 := by
  unfold key
  rw [h]
  unfold RT_TICK_MAX at hd
  bv_omega

/-- In the window, a timer is over when it has no tick to go. -/
theorem due_iff (hw : s.key t < 2 ^ 31) : s.due s.tick t = true ↔ s.key t ≤ 1 := by
  unfold due key at *
  unfold RT_TICK_MAX
  rw [decide_eq_true_eq]
  bv_omega

/-- In the window, the search stops before the timers that have more ticks to go. -/
theorem stopsAt_iff {timeout : Tick} {n : Nat} (hn : (timeout - s.tick + 1).toNat = n) (h1 : 1 ≤ n)
    (h2 : n < 2 ^ 31) (hw : s.key u < 2 ^ 31) : s.stopsAt timeout u = true ↔ n < s.key u := by
  unfold stopsAt key at *
  unfold RT_TICK_MAX
  dsimp only
  rw [decide_eq_true_eq]
  constructor
  · rintro ⟨h3, h4⟩
    have hne : (s.timer u).timeoutTick.toNat ≠ timeout.toNat := fun h =>
      h3 (by rw [BitVec.eq_of_toNat_eq h]; exact BitVec.sub_self _)
    bv_omega
  · intro h
    refine ⟨fun h0 => ?_, ?_⟩
    · have he : (s.timer u).timeoutTick = timeout := by bv_omega
      rw [he, hn] at h
      omega
    · bv_omega

/-! ## The functions -/

@[simp] theorem modify_self {f : Timer → Timer} : (s.modify t f).timer t = f (s.timer t) :=
  Function.update_self ..

theorem modify_of_ne {f : Timer → Timer} (h : u ≠ t) : (s.modify t f).timer u = s.timer u :=
  Function.update_of_ne h ..

theorem insertUpper_cases (mask : Nat) (heads : Nat → Option TimerId) (x : TimerId) (n : Nat)
    (tst : BitVec 32) (rows : Nat → List TimerId) :
    ∃ m, m ≤ n ∧ (∀ i, m ≤ i → i < n →
      insertUpper mask heads x n tst rows i = insertAfter (heads i) x (rows i)) ∧
      ∀ i, i < m ∨ n ≤ i → insertUpper mask heads x n tst rows i = rows i := by
  induction n generalizing tst rows with
  | zero => exact ⟨0, le_refl 0, fun i _ h => absurd h (Nat.not_lt_zero i), fun i _ => rfl⟩
  | succ n ih =>
      unfold insertUpper
      split_ifs with h
      · obtain ⟨m, hm, hlow, hup⟩ := ih (tst >>> ((mask + 1) >>> 1))
          (Function.update rows n (insertAfter (heads n) x (rows n)))
        refine ⟨m, by omega, fun i h1 h2 => ?_, fun i hi => ?_⟩
        · by_cases hin : i = n
          · subst hin
            rw [hup i (Or.inr (le_refl i)), Function.update_self]
          · rw [hlow i h1 (by omega), Function.update_of_ne hin]
        · rw [hup i (by omega), Function.update_of_ne (by omega)]
      · exact ⟨n + 1, le_refl _, fun i h1 h2 => absurd h1 (by omega), fun i _ => rfl⟩

section

variable [TimerConfig]

/-- What linking a timer does. -/
theorem link_eq {A B : Nat → List TimerId}
    (cut : Cut (s.stopsAt (s.timer t).timeoutTick) TimerConfig.level (s.rows (s.timer t).soft) A B)
    (hn : Nested TimerConfig.level (s.rows (s.timer t).soft)) (hnd : (s.low (s.timer t).soft).Nodup) :
    ∃ s', s.link t = some s' ∧ s'.tick = s.tick ∧ s'.timer = s.timer ∧
      (∀ k, k ≠ (s.timer t).soft → s'.rows k = s.rows k) ∧
      Nested TimerConfig.level (s'.rows (s.timer t).soft) ∧
      s'.low (s.timer t).soft = A (TimerConfig.level - 1) ++ t :: B (TimerConfig.level - 1) := by
  have hpos := TimerConfig.pos
  have hd := fun i (hi : i < TimerConfig.level) => descend_eq cut hn hnd hi
  have hlast : TimerConfig.level - 1 < TimerConfig.level := by omega
  obtain ⟨m, hm, hlow, hup⟩ := insertUpper_cases TimerConfig.mask
    (fun i => (descend (s.stopsAt (s.timer t).timeoutTick) (s.rows (s.timer t).soft)
      i).getD none) t (TimerConfig.level - 1) (s.randomNr + 1)
    (Function.update (s.rows (s.timer t).soft) (TimerConfig.level - 1)
      (insertAfter (A (TimerConfig.level - 1)).getLast? t
        (s.rows (s.timer t).soft (TimerConfig.level - 1))))
  -- each row is cut at the same place
  have hins : ∀ i, i < TimerConfig.level → insertAfter (A i).getLast? t
      (s.rows (s.timer t).soft i) = A i ++ t :: B i := by
    intro i hi
    have hnd' : (s.rows (s.timer t).soft i).Nodup := hnd.sublist (hn.sublist (by omega) hlast)
    rw [cut.eq i hi] at hnd' ⊢
    exact insertAfter_getLast hnd'
  unfold link
  dsimp only
  rw [hd _ hlast]
  refine ⟨_, rfl, rfl, rfl, fun k hk => Function.update_of_ne hk .., ?_, ?_⟩
  · dsimp only
    rw [Function.update_self]
    refine cut.nested (x := t) (m := m) hn (fun i hi hmi => ?_) fun i hi him => ?_
    · by_cases hil : i < TimerConfig.level - 1
      · rw [hlow i hmi hil, Function.update_of_ne (by omega), hd i hi, Option.getD_some, hins i hi]
      · obtain rfl : i = TimerConfig.level - 1 := by omega
        rw [hup _ (Or.inr (le_refl _)), Function.update_self, hins _ hi]
    · rw [hup i (Or.inl him), Function.update_of_ne (by omega)]
  · unfold low
    dsimp only
    rw [Function.update_self, hup _ (Or.inr (le_refl _)), Function.update_self, hins _ hlast]

/-- `rt_timer_start` changes the timer, and the rows of its list. -/
structure StartFrame (s : Timers) (t : TimerId) (s' : Timers) : Prop where
  object : (s.timer t).object = true
  init : (s.timer t).initTick.toNat < RT_TICK_MAX / 2
  tick : s'.tick = s.tick
  self : s'.timer t = { s.timer t with
    activated := true
    timeoutTick := s.tick + (s.timer t).initTick }
  others : ∀ u, u ≠ t → s'.timer u = s.timer u
  rows : ∀ k, k ≠ (s.timer t).soft → s'.rows k = (s.timerRemove t).rows k

theorem link_frame (h : s.link t = some s') : s'.tick = s.tick ∧ s'.timer = s.timer ∧
    ∀ k, k ≠ (s.timer t).soft → s'.rows k = s.rows k := by
  unfold link at h
  obtain ⟨head, -, h⟩ := Option.bind_eq_some_iff.mp h
  obtain rfl := Option.some.inj h
  exact ⟨rfl, rfl, fun k hk => Function.update_of_ne hk ..⟩

theorem startFrame (h : s.rtTimerStart t = some s') : StartFrame s t s' := by
  unfold rtTimerStart at h
  dsimp only at h
  split_ifs at h with ho hi
  obtain ⟨s₂, h₂, rfl⟩ := Option.map_eq_some_iff.mp h
  obtain ⟨h1, h3, h4⟩ := link_frame h₂
  have hi' : (s.timer t).initTick.toNat < RT_TICK_MAX / 2 := by
    simpa [setActivated, timerRemove] using hi
  refine ⟨ho, hi', h1, ?_, fun u hu => ?_, fun k hk => ?_⟩
  · rw [setActivated, modify_self, h3]
    simp [setTimeout, setActivated, modify, timerRemove]
  · rw [setActivated, modify_of_ne hu, h3, setTimeout, modify_of_ne hu, setActivated,
      modify_of_ne hu]
    rfl
  · refine (h4 k ?_).trans rfl
    simpa [setTimeout, setActivated, modify, timerRemove] using hk

omit [TimerConfig] in
/-- A timer that was just started, with a tick to go, is not over. -/
theorem not_due_of_start (f : StartFrame s t s') (hd : 1 ≤ (s.timer t).initTick.toNat) :
    s'.due s'.tick t = false := by
  have hi := f.init
  unfold due
  rw [f.self, f.tick]
  unfold RT_TICK_MAX at *
  rw [decide_eq_false_iff_not]
  dsimp only
  bv_omega

/-! ## The lowest row -/

/-- Linking a timer inserts it in the lowest row of its list, whatever the order there. -/
theorem link_low (h : s.link t = some s') :
    List.Perm (s'.low k) (t :: s.low k) ∧ (s.timer t).soft = k ∨ s'.low k = s.low k := by
  unfold link at h
  obtain ⟨head, -, h⟩ := Option.bind_eq_some_iff.mp h
  obtain rfl := Option.some.inj h
  unfold low
  dsimp only
  by_cases hk : (s.timer t).soft = k
  · obtain ⟨m, -, -, hup⟩ := insertUpper_cases TimerConfig.mask
      (fun i => (descend (s.stopsAt (s.timer t).timeoutTick) (s.rows k) i).getD none)
      t (TimerConfig.level - 1) (s.randomNr + 1)
      (Function.update (s.rows k) (TimerConfig.level - 1)
        (insertAfter head t (s.rows k (TimerConfig.level - 1))))
    rw [hk, Function.update_self, hup _ (Or.inr (le_refl _)), Function.update_self]
    rcases insertAfter_perm (p := head) (x := t) (l := s.rows k (TimerConfig.level - 1)) with
      hp | hp
    · exact Or.inl ⟨hp, rfl⟩
    · exact Or.inr hp
  · rw [Function.update_of_ne (fun he => hk he.symm)]
    exact Or.inr rfl

theorem start_low (h : s.rtTimerStart t = some s') :
    List.Perm (s'.low k) (t :: (s.low k).erase t) ∧ (s.timer t).soft = k ∨
      s'.low k = (s.low k).erase t := by
  unfold rtTimerStart at h
  dsimp only at h
  split_ifs at h with ho hi
  obtain ⟨s₂, h₂, rfl⟩ := Option.map_eq_some_iff.mp h
  rcases link_low (k := k) h₂ with ⟨hp, hk⟩ | hl
  · refine Or.inl ⟨hp, ?_⟩
    simpa [setTimeout, setActivated, Timers.modify, timerRemove] using hk
  · exact Or.inr hl

/-- The start of a timer with a tick to go makes no timer be over. -/
theorem countP_due_start (h : s.rtTimerStart t = some s') (hd : 1 ≤ (s.timer t).initTick.toNat) :
    (s'.low k).countP (s'.due s'.tick) ≤ (s.low k).countP (s.due s.tick) := by
  have f := startFrame h
  have hnot := not_due_of_start f hd
  have hdue : ∀ u, s'.due s'.tick u = true → s.due s.tick u = true := fun u hu => by
    by_cases hut : u = t
    · rw [hut, hnot] at hu
      cases hu
    · unfold due at hu ⊢
      rwa [f.others u hut, f.tick] at hu
  have herase : ((s.low k).erase t).countP (s'.due s'.tick) ≤ (s.low k).countP (s.due s.tick) :=
    (List.countP_mono_left fun u _ => hdue u).trans (List.erase_sublist.countP_le)
  rcases start_low (k := k) h with ⟨hperm, -⟩ | hl
  · rw [hperm.countP_eq, List.countP_cons_of_neg (by simp [hnot])]
    exact herase
  · rw [hl]
    exact herase

theorem countP_due_le (hl : (s'.low k).Sublist (s.low k)) (htick : s'.tick = s.tick)
    (ht : ∀ u, (s'.timer u).timeoutTick = (s.timer u).timeoutTick) :
    (s'.low k).countP (s'.due s'.tick) ≤ (s.low k).countP (s.due s.tick) := by
  have hdue : s'.due s'.tick = s.due s.tick := funext fun u => by
    unfold due
    rw [ht u, htick]
  rw [hdue]
  exact hl.countP_le

/-! ## The invariant of a list -/

/-- The rows of a list, its order, and the place of each timer. The stamps say in which order the
timers were started, up to now `c` of them. -/
structure SkipInv (s : Timers) (k : Bool) (stamp : TimerId → Nat) (c : Nat) : Prop where
  nested : Nested TimerConfig.level (s.rows k)
  kind : ∀ t ∈ s.low k, (s.timer t).soft = k
  window : ∀ t ∈ s.low k, s.key t < 2 ^ 31
  sorted : (s.low k).Pairwise fun a b =>
    s.key a < s.key b ∨ s.key a = s.key b ∧ stamp a < stamp b
  stamp : ∀ t ∈ s.low k, stamp t < c

theorem SkipInv.nodup (i : SkipInv s k stamp c) : (s.low k).Nodup :=
  i.sorted.imp fun h he => by
    subst he
    omega

theorem SkipInv.mem_low (i : SkipInv s k stamp c) {j : Nat} (hj : j < TimerConfig.level)
    (h : t ∈ s.rows k j) : t ∈ s.low k :=
  (i.nested.sublist (by omega) (by omega)).subset h

/-- The timers keep their list and their timeout. -/
theorem SkipInv.congr (i : SkipInv s k stamp c) (hr : s'.rows k = s.rows k)
    (hk : ∀ t ∈ s.low k, (s'.timer t).soft = (s.timer t).soft ∧ s'.key t = s.key t) :
    SkipInv s' k stamp c := by
  have hl : s'.low k = s.low k := congrFun hr _
  refine ⟨hr ▸ i.nested, fun t ht => ?_, fun t ht => ?_, ?_, fun t ht => ?_⟩
  · rw [hl] at ht
    rw [(hk t ht).1]
    exact i.kind t ht
  · rw [hl] at ht
    rw [(hk t ht).2]
    exact i.window t ht
  · rw [hl]
    refine i.sorted.imp_of_mem fun ha hb h => ?_
    rwa [(hk _ ha).2, (hk _ hb).2]
  · rw [hl] at ht
    exact i.stamp t ht

theorem SkipInv.modify (i : SkipInv s k stamp c) {f : Timer → Timer}
    (hf : ∀ x, (f x).soft = x.soft ∧ (f x).timeoutTick = x.timeoutTick) :
    SkipInv (s.modify t f) k stamp c := by
  refine i.congr rfl fun u _ => ?_
  unfold key
  by_cases hu : u = t
  · subst hu
    rw [modify_self, (hf _).1, (hf _).2]
    exact ⟨rfl, rfl⟩
  · rw [modify_of_ne hu]
    exact ⟨rfl, rfl⟩

theorem SkipInv.remove (i : SkipInv s k stamp c) (t : TimerId) :
    SkipInv (s.timerRemove t) k stamp c := by
  have hsub : ((s.timerRemove t).low k).Sublist (s.low k) := List.erase_sublist
  refine ⟨fun j hj => (i.nested j hj).erase t, fun u hu => i.kind u (hsub.subset hu),
    fun u hu => i.window u (hsub.subset hu), i.sorted.sublist hsub,
    fun u hu => i.stamp u (hsub.subset hu)⟩

theorem SkipInv.mem_remove (i : SkipInv s k stamp c) :
    u ∈ (s.timerRemove t).low k ↔ u ∈ s.low k ∧ u ≠ t := by
  rw [and_comm]
  exact i.nodup.mem_erase_iff

/-- `rt_timer_start` links the timer behind those that expire no later. -/
structure Started (s : Timers) (t : TimerId) (s' : Timers) (A B : List TimerId) : Prop where
  frame : StartFrame s t s'
  nested : Nested TimerConfig.level (s'.rows (s.timer t).soft)
  before : (s.timerRemove t).low (s.timer t).soft = A ++ B
  low : s'.low (s.timer t).soft = A ++ t :: B
  left : ∀ a ∈ A, s.key a ≤ (s.timer t).initTick.toNat + 1
  right : ∀ b ∈ B, (s.timer t).initTick.toNat + 1 < s.key b

/-- **`rt_timer_start` in a list that is in order.** -/
theorem rtTimerStart_spec (i : SkipInv s (s.timer t).soft stamp c)
    (ho : (s.timer t).object = true) (hi : (s.timer t).initTick.toNat < RT_TICK_MAX / 2) :
    ∃ s' A B, s.rtTimerStart t = some s' ∧ Started s t s' A B := by
  have hrem := i.remove t
  have hnot : t ∉ (s.timerRemove t).low (s.timer t).soft := fun h => (i.mem_remove.mp h).2 rfl
  -- the state in which the search begins
  let s₂ := ((s.timerRemove t).setActivated t false).setTimeout t
    (s.tick + ((s.timerRemove t).setActivated t false |>.timer t).initTick)
  have hself : (s₂.timer t).soft = (s.timer t).soft ∧
      (s₂.timer t).timeoutTick = s.tick + (s.timer t).initTick := by
    simp [s₂, setTimeout, setActivated, modify, timerRemove]
  have hkey : ∀ u, u ≠ t → s₂.key u = s.key u := fun u hu => by
    simp only [key, s₂, setTimeout, setActivated, modify_of_ne hu]
    rfl
  have hstop : ∀ u ∈ (s.timerRemove t).low (s.timer t).soft,
      s₂.stopsAt (s₂.timer t).timeoutTick u = true ↔
        (s.timer t).initTick.toNat + 1 < s.key u := by
    intro u hu
    have hut : u ≠ t := fun h => hnot (h ▸ hu)
    have hn : ((s₂.timer t).timeoutTick - s₂.tick + 1).toNat =
        (s.timer t).initTick.toNat + 1 :=
      key_of_start (s := s₂) (t := t) hself.2 hi
    rw [stopsAt_iff hn (by omega) (by unfold RT_TICK_MAX at hi; omega), hkey u hut]
    rw [hkey u hut]
    exact hrem.window u hu
  have hn₂ : Nested TimerConfig.level (s₂.rows (s₂.timer t).soft) := by
    rw [hself.1]
    exact hrem.nested
  have hsort : (s₂.rows (s₂.timer t).soft (TimerConfig.level - 1)).Pairwise fun a b =>
      s₂.stopsAt (s₂.timer t).timeoutTick a = true →
        s₂.stopsAt (s₂.timer t).timeoutTick b = true := by
    rw [hself.1]
    refine hrem.sorted.imp_of_mem fun {a b} ha hb hab h => ?_
    rw [hstop a ha] at h
    rw [hstop b hb]
    have ha' : (s.timerRemove t).key a = s.key a := rfl
    have hb' : (s.timerRemove t).key b = s.key b := rfl
    omega
  obtain ⟨A, B, cut⟩ : ∃ A B, Cut (s₂.stopsAt (s₂.timer t).timeoutTick) TimerConfig.level
      (s₂.rows (s₂.timer t).soft) A B := ⟨_, _, exists_cut hn₂ hsort⟩
  obtain ⟨s₃, hlink, h1, h2, h3, h4, h5⟩ := link_eq cut hn₂ (by rw [hself.1]; exact hrem.nodup)
  have hstart : s.rtTimerStart t = some (s₃.setActivated t true) := by
    unfold rtTimerStart
    dsimp only
    rw [if_pos ho, if_pos]
    · exact Option.map_eq_some_iff.mpr ⟨s₃, hlink, rfl⟩
    · simpa [setActivated, timerRemove] using hi
  have hlast : TimerConfig.level - 1 < TimerConfig.level := by
    have hpos := TimerConfig.pos
    omega
  have heq : (s.timerRemove t).low (s.timer t).soft =
      A (TimerConfig.level - 1) ++ B (TimerConfig.level - 1) := by
    have h := cut.eq _ hlast
    rwa [hself.1] at h
  rw [hself.1] at h4 h5
  refine ⟨_, _, _, hstart, startFrame hstart, h4, heq, h5, fun a ha => ?_, fun b hb => ?_⟩
  · have hmem : a ∈ (s.timerRemove t).low (s.timer t).soft := by
      rw [heq]
      exact List.mem_append_left _ ha
    have hle := (not_congr (hstop a hmem)).mp (by simp [cut.left _ hlast a ha])
    omega
  · refine (hstop b ?_).mp (cut.right _ hlast b hb)
    rw [heq]
    exact List.mem_append_right _ hb

/-- After the start, with a new stamp. -/
theorem Started.skipInv {A B : List TimerId} (st : Started s t s' A B)
    (i : SkipInv s (s.timer t).soft stamp c) :
    SkipInv s' (s.timer t).soft (Function.update stamp t c) (c + 1) := by
  have hrem := i.remove t
  have hnot : t ∉ A ++ B := by
    rw [← st.before]
    exact fun h => (i.mem_remove.mp h).2 rfl
  have hne : ∀ u ∈ A ++ B, u ≠ t := fun u hu h => hnot (h ▸ hu)
  have hmem : ∀ u ∈ A ++ B, u ∈ s.low (s.timer t).soft := fun u hu => by
    rw [← st.before] at hu
    exact (i.mem_remove.mp hu).1
  have hkt : s'.key t = (s.timer t).initTick.toNat + 1 := by
    refine key_of_start ?_ st.frame.init
    rw [st.frame.self, st.frame.tick]
  have hku : ∀ u, u ≠ t → s'.key u = s.key u := fun u hu => by
    unfold key
    rw [st.frame.others u hu, st.frame.tick]
  have hlow : ∀ {u}, u ∈ s'.low (s.timer t).soft ↔ u = t ∨ u ∈ A ++ B := by
    intro u
    rw [st.low, List.mem_append, List.mem_cons, List.mem_append]
    tauto
  have hsort := hrem.sorted
  rw [st.before] at hsort
  refine ⟨st.nested, fun u hu => ?_, fun u hu => ?_, ?_, fun u hu => ?_⟩
  · rcases hlow.mp hu with rfl | hu
    · rw [st.frame.self]
    · rw [st.frame.others u (hne u hu)]
      exact i.kind u (hmem u hu)
  · rcases hlow.mp hu with rfl | hu
    · have hi := st.frame.init
      unfold RT_TICK_MAX at hi
      omega
    · rw [hku u (hne u hu)]
      exact i.window u (hmem u hu)
  · have hpair : (A ++ B).Pairwise fun a b => s'.key a < s'.key b ∨
        s'.key a = s'.key b ∧ Function.update stamp t c a < Function.update stamp t c b := by
      refine hsort.imp_of_mem fun {a b} ha hb h => ?_
      rw [hku a (hne a ha), hku b (hne b hb), Function.update_of_ne (hne a ha),
        Function.update_of_ne (hne b hb)]
      exact h
    obtain ⟨hA, hB, hAB⟩ := List.pairwise_append.mp hpair
    rw [st.low]
    refine List.pairwise_append.mpr ⟨hA, List.pairwise_cons.mpr ⟨fun b hb => ?_, hB⟩,
      fun a ha b hb => ?_⟩
    · rw [hkt, hku b (hne b (List.mem_append_right _ hb))]
      exact Or.inl (st.right b hb)
    · rcases List.mem_cons.mp hb with rfl | hb
      · -- the timers that expire at the same tick were started before
        have haA := List.mem_append_left B ha
        rw [hkt, hku a (hne a haA), Function.update_self, Function.update_of_ne (hne a haA)]
        have h1 := st.left a ha
        have h2 := i.stamp a (hmem a haA)
        omega
      · exact hAB a ha b hb
  · rcases hlow.mp hu with rfl | hu
    · rw [Function.update_self]
      omega
    · rw [Function.update_of_ne (hne u hu)]
      have h := i.stamp u (hmem u hu)
      omega

/-- In the other list the timer is only removed. -/
theorem StartFrame.skipInv (f : StartFrame s t s') (hk : k ≠ (s.timer t).soft)
    (i : SkipInv s k stamp c) :
    SkipInv s' k (Function.update stamp t c) (c + 1) ∧ s'.low k = s.low k := by
  have hnot : t ∉ s.low k := fun h => hk (i.kind t h).symm
  have hrow : ∀ j, j < TimerConfig.level → s'.rows k j = s.rows k j := fun j hj => by
    rw [f.rows k hk]
    exact List.erase_of_not_mem fun h => hnot (i.mem_low hj h)
  have hpos := TimerConfig.pos
  have hlow : s'.low k = s.low k := hrow _ (by omega)
  have hne : ∀ {u}, u ∈ s.low k → u ≠ t := fun hu h => hnot (h ▸ hu)
  have hkey : ∀ u ∈ s.low k, s'.key u = s.key u := fun u hu => by
    unfold key
    rw [f.others u (hne hu), f.tick]
  refine ⟨⟨fun j hj => ?_, fun u hu => ?_, fun u hu => ?_, ?_, fun u hu => ?_⟩, hlow⟩
  · rw [hrow j (by omega), hrow (j + 1) hj]
    exact i.nested j hj
  · rw [hlow] at hu
    rw [f.others u (hne hu)]
    exact i.kind u hu
  · rw [hlow] at hu
    rw [hkey u hu]
    exact i.window u hu
  · rw [hlow]
    refine i.sorted.imp_of_mem fun {a b} ha hb h => ?_
    rwa [hkey a ha, hkey b hb, Function.update_of_ne (hne ha), Function.update_of_ne (hne hb)]
  · rw [hlow] at hu
    rw [Function.update_of_ne (hne hu)]
    have h := i.stamp u hu
    omega

end

end RTThread.Timers
