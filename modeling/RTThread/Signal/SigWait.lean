import RTThread.Signal.Pending

set_option autoImplicit false

/-! # `rt_signal_wait`

A thread in `rt_signal_wait` is resumed by its timer or by `rt_thread_kill`, which looks at the mask
of the thread and not at the set that it waits for. When it goes on it takes the first pending signal
of the set, and returns `RT_EOK` also when there is none.
-/

namespace RTThread.Siginfo

/-- What happens to a thread that is in `rt_signal_wait`, until it goes on. -/
inductive Event
  /-- `rt_thread_kill` -/
  | kill (sig : Int) (self : Bool) (nest : Nat)
  /-- `rt_thread_timeout` -/
  | timeout
  /-- `rt_schedule` looks at `RT_THREAD_STAT_SIGNAL_PENDING` after the switch -/
  | check
  /-- `_signal_entry` runs in its frame -/
  | entry

/-- What `memset` leaves in `*si`. -/
def SigInfo.zero : SigInfo := ⟨0, 0, 0⟩

namespace Tcb

/-- `rt_thread_timeout`: the thread is made ready. -/
def timeout (x : Tcb) : Tcb :=
  if x.timer then { x with error := .etimeout, suspended := false, timer := false } else x

/-- The check of `RT_THREAD_STAT_SIGNAL_PENDING` in `rt_schedule`. -/
def signalCheck (x : Tcb) : Option Tcb :=
  if x.signalPending then
    (rtThreadHandleSig { x with signalPending := false } true).map fun r => r.2
  else some x

/-- `_signal_entry` -/
def signalEntry (x : Tcb) : Option Tcb :=
  if x.sigRet then
    (x.rtThreadHandleSig false).map fun r => { r.2 with signal := false, sigRet := false }
  else some x

def exec (x : Tcb) : Event → Option Tcb
  | .kill sig self nest => (x.rtThreadKill sig self nest).map fun r => r.2.2
  | .timeout => some x.timeout
  | .check => x.signalCheck
  | .entry => x.signalEntry

/-- One event after the other. -/
def run : List Event → Tcb → Option Tcb
  | [], x => some x
  | e :: es, x => (x.exec e).bind (run es)

/-- `sig_mask(signo) & *set` -/
def inSet (x : Tcb) (set : BitVec 32) (q : Nat) : Bool :=
  decide (sigBit (x.si q).siSigno &&& set ≠ 0)

/-- The node `q` leaves the list. The node in front of it is `prev`, or `0` when it is the first. -/
def unlink (x : Tcb) (prev q : Nat) : Tcb :=
  { x with
    next := if prev ≠ 0 then Function.update x.next prev (x.next q) else x.next
    siList := if prev ≠ 0 then x.siList else x.next q
    sigPending := x.sigPending &&& ~~~sigBit (x.si q).siSigno
    free := q :: x.free }

/-- The first matched pending signal. -/
def takeFirst (x : Tcb) (set : BitVec 32) : Option (SigInfo × Tcb) :=
  (Sll.searchPrev x.next (x.inSet set) (x.infoMax + 1) 0 x.siList).map fun r =>
    if r.2 = 0 then (.zero, x) else (x.si r.2, x.unlink r.1 r.2)

/-- The thread is suspended, with its timer started unless it waits forever. -/
def suspendWait (x : Tcb) (timeout : Int) : Tcb :=
  { x with suspended := true, signalWait := true, timer := decide (timeout ≠ -1) }

/-- `rt_signal_wait` after the thread was scheduled again. -/
def leaveWait (x : Tcb) (set : BitVec 32) : Option (Ret × Option SigInfo × Tcb) :=
  if x.error = .etimeout then
    some (.etimeout, some .zero, { x with signalWait := false, error := .ok })
  else
    (takeFirst { x with signalWait := false } set).map fun r => (.eok, some r.1, r.2)

/-- `rt_signal_wait`, with what `*si` holds afterwards. It has not returned when the events leave the
thread suspended. -/
def rtSignalWait (x : Tcb) (set : Option (BitVec 32)) (si : Option SigInfo) (timeout : Int)
    (es : List Event) : Option (Ret × Option SigInfo × Tcb) :=
  match set, si with
  | some set, some _ =>
      if set = 0 then some (.einval, si, x)
      -- already pending
      else if x.sigPending &&& set ≠ 0 then (x.takeFirst set).map fun r => (.eok, some r.1, r.2)
      else if timeout = 0 then some (.etimeout, some .zero, x)
      else
        ((x.suspendWait timeout).run es).bind fun y =>
          if y.suspended then none else y.leaveWait set
  | _, _ => some (.einval, si, x)

variable {x y z : Tcb} {l l₁ l₂ : List Nat} {q : Nat} {set : BitVec 32}

/-! ## The relation is kept -/

theorem Inv.timeout (h : x.Inv l) : x.timeout.Inv l := by
  unfold Tcb.timeout
  split_ifs
  · exact h.congr rfl rfl rfl rfl rfl rfl
  · exact h

theorem Inv.signalCheck (h : x.Inv l) : ∃ y l', x.signalCheck = some y ∧ y.Inv l' := by
  unfold Tcb.signalCheck
  split_ifs
  · have h' : Inv { x with signalPending := false } l := h.congr rfl rfl rfl rfl rfl rfl
    obtain ⟨tr, y, l', hy, hi⟩ := h'.handleSig true
    refine ⟨y, l', ?_, hi⟩
    rw [hy]
    rfl
  · exact ⟨x, l, rfl, h⟩

theorem Inv.signalEntry (h : x.Inv l) : ∃ y l', x.signalEntry = some y ∧ y.Inv l' := by
  unfold Tcb.signalEntry
  split_ifs
  · obtain ⟨tr, y, l', hy, hi⟩ := h.handleSig false
    refine ⟨{ y with signal := false, sigRet := false }, l', ?_, hi.congr rfl rfl rfl rfl rfl rfl⟩
    rw [hy]
    rfl
  · exact ⟨x, l, rfl, h⟩

theorem Inv.exec (h : x.Inv l) (e : Event) : ∃ y l', x.exec e = some y ∧ y.Inv l' := by
  cases e with
  | kill sig self nest =>
      obtain ⟨ret, tr, y, l', hy, hi⟩ := h.kill sig self nest
      refine ⟨y, l', ?_, hi⟩
      rw [Tcb.exec, hy]
      rfl
  | timeout => exact ⟨x.timeout, l, rfl, h.timeout⟩
  | check => exact h.signalCheck
  | entry => exact h.signalEntry

/-- **The relation holds after any sequence of events.** -/
theorem Inv.run (h : x.Inv l) (es : List Event) : ∃ y l', x.run es = some y ∧ y.Inv l' := by
  induction es generalizing x l with
  | nil => exact ⟨x, l, rfl, h⟩
  | cons e es ih =>
      obtain ⟨y, l', hy, hi⟩ := h.exec e
      obtain ⟨z, l'', hz, hi'⟩ := ih hi
      refine ⟨z, l'', ?_, hi'⟩
      rw [Tcb.run, hy]
      exact hz

theorem Inv.suspendWait (h : x.Inv l) (timeout : Int) : (x.suspendWait timeout).Inv l :=
  h.congr rfl rfl rfl rfl rfl rfl

/-! ## The first matched signal -/

theorem Inv.inSet_iff (h : x.Inv l) (hq : q ∈ l) :
    x.inSet set q = true ↔ set.getLsbD (x.si q).siSigno = true := by
  unfold Tcb.inSet
  rw [decide_eq_true_iff, BitVec.and_comm, and_sigBit_ne_zero_iff (h.agree.lt hq)]

/-- A node that is unlinked, wherever it stands. -/
theorem Inv.unlink (h : x.Inv (l₁ ++ q :: l₂)) :
    (x.unlink (l₁.getLast?.getD 0) q).Inv (l₁ ++ l₂) := by
  refine h.remove rfl ?_ rfl rfl rfl
  unfold Tcb.unlink
  rcases List.eq_nil_or_concat l₁ with rfl | ⟨l', p, rfl⟩
  · -- the first node: the list begins behind it
    exact Sll.Linked.behind h.linked
  · have hnd := List.Nodup.of_append_left h.nodup
    have hlink := h.linked
    rw [List.concat_eq_append, List.append_assoc, List.singleton_append] at hlink hnd
    rw [List.concat_eq_append, List.getLast?_concat, List.append_assoc, List.singleton_append]
    have hp0 : p ≠ 0 := hlink.ne_zero (by simp)
    obtain ⟨hpl, hpr⟩ : p ∉ l' ∧ p ∉ q :: l₂ :=
      ⟨fun hm => List.disjoint_of_nodup_append hnd hm List.mem_cons_self,
        (List.nodup_cons.mp (List.Nodup.of_append_right hnd)).1⟩
    simp only [Option.getD_some, if_pos hp0]
    exact hlink.unlink hpl fun hm => hpr (List.mem_cons_of_mem _ hm)

/-- No signal of the set is pending: nothing is taken. -/
theorem Inv.takeFirst_none (h : x.Inv l) (hs : x.sigPending &&& set = 0) :
    x.takeFirst set = some (.zero, x) := by
  have hno : ∀ r ∈ l, x.inSet set r = false := by
    intro r hr
    by_contra hin
    have hbit := (h.inSet_iff hr).mp (by simpa using hin)
    exact h.agree.and_ne_zero_iff.mpr ⟨r, hr, hbit⟩ hs
  unfold Tcb.takeFirst
  rw [Sll.searchPrev_eq_zero h.linked hno h.length_lt]
  rfl

/-- **A pending signal of the set is taken**: the first one of the list. -/
theorem Inv.takeFirst_some (h : x.Inv l) (hs : x.sigPending &&& set ≠ 0) :
    ∃ l₁ q l₂, l = l₁ ++ q :: l₂ ∧ set.getLsbD (x.si q).siSigno = true ∧
      x.takeFirst set = some (x.si q, x.unlink (l₁.getLast?.getD 0) q) := by
  obtain ⟨r, hr, hbit⟩ := h.agree.and_ne_zero_iff.mp hs
  obtain ⟨q, l₁, l₂, hfirst, hq, rfl, -⟩ :=
    List.exists_of_eraseP hr ((h.inSet_iff hr).mpr hbit)
  refine ⟨l₁, q, l₂, rfl, (h.inSet_iff (by simp)).mp hq, ?_⟩
  have hlt := h.length_lt
  rw [List.length_append] at hlt
  unfold Tcb.takeFirst
  rw [Sll.searchPrev_eq h.linked (fun y hy => by simpa using hfirst y hy) hq (by omega),
    Option.map_some, if_neg (h.linked.ne_zero (by simp))]

/-- The search keeps the relation. -/
theorem Inv.takeFirst (h : x.Inv l) (set : BitVec 32) :
    ∃ v y l', x.takeFirst set = some (v, y) ∧ y.Inv l' := by
  by_cases hs : x.sigPending &&& set = 0
  · exact ⟨_, _, l, h.takeFirst_none hs, h⟩
  · obtain ⟨l₁, q, l₂, rfl, -, hy⟩ := h.takeFirst_some hs
    exact ⟨_, _, l₁ ++ l₂, hy, h.unlink⟩

/-- **The thread goes on**: it returns, and keeps the relation. -/
theorem Inv.leaveWait (h : x.Inv l) (set : BitVec 32) :
    ∃ ret si y l', x.leaveWait set = some (ret, si, y) ∧ y.Inv l' := by
  unfold Tcb.leaveWait
  split_ifs
  · exact ⟨_, _, _, l, rfl, h.congr rfl rfl rfl rfl rfl rfl⟩
  · have h' : Inv { x with signalWait := false } l := h.congr rfl rfl rfl rfl rfl rfl
    obtain ⟨v, y, l', hy, hi⟩ := h'.takeFirst set
    refine ⟨.eok, some v, y, l', ?_, hi⟩
    rw [hy]
    rfl

/-- **`rt_signal_wait` keeps the relation.** -/
theorem Inv.rtSignalWait (h : x.Inv l) {set : Option (BitVec 32)} {si si' : Option SigInfo}
    {timeout : Int} {es : List Event} {ret : Ret}
    (hy : x.rtSignalWait set si timeout es = some (ret, si', y)) : ∃ l', y.Inv l' := by
  have hsame : ∀ r : Ret × Option SigInfo, some (r.1, r.2, x) = some (ret, si', y) →
      ∃ l', y.Inv l' := by
    intro r hr
    cases hr
    exact ⟨l, h⟩
  unfold Tcb.rtSignalWait at hy
  cases set with
  | none => exact hsame (.einval, si) hy
  | some set =>
      cases si with
      | none => exact hsame (.einval, none) hy
      | some v =>
          dsimp only at hy
          split_ifs at hy
          · exact hsame (.einval, some v) hy
          · obtain ⟨v', y', l', hy', hi⟩ := h.takeFirst set
            rw [hy'] at hy
            cases hy
            exact ⟨l', hi⟩
          · exact hsame (.etimeout, some .zero) hy
          · obtain ⟨z, l', hz, hi⟩ := (h.suspendWait timeout).run es
            rw [hz, Option.bind_some] at hy
            split_ifs at hy
            obtain ⟨ret', si'', y', l'', hy', hi'⟩ := hi.leaveWait set
            rw [hy'] at hy
            cases hy
            exact ⟨l'', hi'⟩

/-! ## What `RT_EOK` means -/

/-- The state in which the last section of `rt_signal_wait` begins. -/
def waited (x : Tcb) (set : BitVec 32) (timeout : Int) (es : List Event) : Option Tcb :=
  if x.sigPending &&& set ≠ 0 then some x else (x.suspendWait timeout).run es

/-- With `RT_EOK`, `*si` is the information of a node whose signal is in the set, this node and no
other has left the list, and its bit and no other is cleared. -/
def WaitSound (x : Tcb) (set : Option (BitVec 32)) (si : Option SigInfo) (timeout : Int)
    (es : List Event) : Prop :=
  ∀ si' y, x.rtSignalWait set si timeout es = some (.eok, si', y) →
    ∃ s z l₁ q l₂, set = some s ∧ x.waited s timeout es = some z ∧
      si' = some (z.si q) ∧ s.getLsbD (z.si q).siSigno = true ∧
      Sll.Linked z.next z.siList (l₁ ++ q :: l₂) ∧ Sll.Linked y.next y.siList (l₁ ++ l₂) ∧
      y.si = z.si ∧
      ∀ k, y.sigPending.getLsbD k = (z.sigPending.getLsbD k && !decide ((z.si q).siSigno = k))

/-- The thread was suspended and goes on, not by its timer, and no signal of the set is pending. -/
def Missed (x : Tcb) (set : Option (BitVec 32)) (si : Option SigInfo) (timeout : Int)
    (es : List Event) : Prop :=
  ∃ s z, set = some s ∧ s ≠ 0 ∧ si ≠ none ∧ x.sigPending &&& s = 0 ∧ timeout ≠ 0 ∧
    (x.suspendWait timeout).run es = some z ∧ z.suspended = false ∧ z.error ≠ .etimeout ∧
    z.sigPending &&& s = 0

/-- The search, when a signal of the set is pending. -/
theorem Inv.takeFirst_sound (h : x.Inv l) (hs : x.sigPending &&& set ≠ 0) {v : SigInfo}
    (hy : x.takeFirst set = some (v, y)) :
    ∃ l₁ q l₂, v = x.si q ∧ set.getLsbD (x.si q).siSigno = true ∧
      Sll.Linked x.next x.siList (l₁ ++ q :: l₂) ∧ Sll.Linked y.next y.siList (l₁ ++ l₂) ∧
      y.si = x.si ∧
      ∀ k, y.sigPending.getLsbD k = (x.sigPending.getLsbD k && !decide ((x.si q).siSigno = k)) := by
  obtain ⟨l₁, q, l₂, rfl, hbit, hy'⟩ := h.takeFirst_some hs
  rw [hy'] at hy
  cases hy
  exact ⟨l₁, q, l₂, rfl, hbit, h.linked, h.unlink.linked, rfl,
    clear_getLsbD _ (h.agree.lt (by simp))⟩

/-- What `rt_signal_wait` returned with `RT_EOK` came from the search. -/
theorem rtSignalWait_eok {set : Option (BitVec 32)} {si si' : Option SigInfo} {timeout : Int}
    {es : List Event} (hy : x.rtSignalWait set si timeout es = some (.eok, si', y)) :
    ∃ s, set = some s ∧ s ≠ 0 ∧ si ≠ none ∧
      ((x.sigPending &&& s ≠ 0 ∧ (x.takeFirst s).map (fun r => (some r.1, r.2)) = some (si', y)) ∨
        x.sigPending &&& s = 0 ∧ timeout ≠ 0 ∧ ∃ z, (x.suspendWait timeout).run es = some z ∧
          z.suspended = false ∧ z.error ≠ .etimeout ∧
          (takeFirst { z with signalWait := false } s).map (fun r => (some r.1, r.2)) =
            some (si', y)) := by
  have hmap : ∀ o : Option (SigInfo × Tcb),
      o.map (fun r => (Ret.eok, some r.1, r.2)) = some (.eok, si', y) →
      o.map (fun r => (some r.1, r.2)) = some (si', y) := by
    intro o ho
    cases o with
    | none => cases ho
    | some r =>
        cases ho
        rfl
  unfold rtSignalWait at hy
  cases set with
  | none => cases hy
  | some s =>
      cases si with
      | none => cases hy
      | some v =>
          dsimp only at hy
          split_ifs at hy with h₁ h₂ h₃
          · cases hy
          · exact ⟨s, rfl, h₁, by simp, .inl ⟨h₂, hmap _ hy⟩⟩
          · cases hy
          · refine ⟨s, rfl, h₁, by simp, .inr ⟨not_not.mp h₂, h₃, ?_⟩⟩
            cases hz : (x.suspendWait timeout).run es with
            | none =>
                rw [hz] at hy
                cases hy
            | some z =>
                rw [hz, Option.bind_some] at hy
                unfold leaveWait at hy
                split_ifs at hy with h₄ h₅
                · cases hy
                · exact ⟨z, rfl, by simpa using h₄, h₅, hmap _ hy⟩

/-- A thread that goes on with nothing of the set pending returns `RT_EOK` with an empty `*si`. -/
theorem Inv.rtSignalWait_missed (h : x.Inv l) {s : BitVec 32} {v : SigInfo} {timeout : Int}
    {es : List Event} (hs : s ≠ 0) (hp : x.sigPending &&& s = 0) (ht : timeout ≠ 0)
    (hz : (x.suspendWait timeout).run es = some z) (hgo : z.suspended = false)
    (he : z.error ≠ .etimeout) (hzp : z.sigPending &&& s = 0) :
    x.rtSignalWait (some s) (some v) timeout es =
      some (.eok, some .zero, { z with signalWait := false }) := by
  obtain ⟨z', l', hz', hi⟩ := (h.suspendWait timeout).run es
  obtain rfl : z' = z := Option.some.inj (hz'.symm.trans hz)
  have hi' : Inv { z' with signalWait := false } l' := hi.congr rfl rfl rfl rfl rfl rfl
  have hgo' : ¬ z'.suspended = true := by simp [hgo]
  unfold Tcb.rtSignalWait
  dsimp only
  rw [if_neg hs, if_neg (not_not_intro hp), if_neg ht, hz, Option.bind_some, if_neg hgo']
  unfold Tcb.leaveWait
  rw [if_neg he, hi'.takeFirst_none hzp]
  rfl

/-- **When `RT_EOK` comes with a signal of the set.** -/
theorem Inv.waitSound_iff (h : x.Inv l) (set : Option (BitVec 32)) (si : Option SigInfo)
    (timeout : Int) (es : List Event) :
    x.WaitSound set si timeout es ↔ ¬ x.Missed set si timeout es := by
  constructor
  · rintro hsound ⟨s, z, rfl, hs, hsi, hp, ht, hz, hgo, he, hzp⟩
    obtain ⟨v, rfl⟩ := Option.ne_none_iff_exists'.mp hsi
    obtain ⟨s', z', l₁, q, l₂, hs', hw, -, -, hlink, hlink', -⟩ :=
      hsound _ _ (h.rtSignalWait_missed hs hp ht hz hgo he hzp)
    obtain rfl : s = s' := Option.some.inj hs'
    unfold waited at hw
    rw [if_neg (not_not_intro hp)] at hw
    obtain rfl : z = z' := Option.some.inj (hz.symm.trans hw)
    -- nothing left the list
    have hlen := congrArg List.length (hlink.unique hlink')
    simp only [List.length_append, List.length_cons] at hlen
    omega
  · intro hmissed si' y hy
    obtain ⟨s, rfl, hs, hsi, htake⟩ := rtSignalWait_eok hy
    unfold waited
    rcases htake with ⟨hp, htake⟩ | ⟨hp, ht, z, hz, hgo, he, htake⟩
    · obtain ⟨r, hr, hry⟩ := Option.map_eq_some_iff.mp htake
      cases hry
      obtain ⟨l₁, q, l₂, hv, hbit, hrest⟩ := h.takeFirst_sound hp hr
      exact ⟨s, x, l₁, q, l₂, rfl, if_pos hp, congrArg some hv, hbit, hrest⟩
    · obtain ⟨r, hr, hry⟩ := Option.map_eq_some_iff.mp htake
      cases hry
      have hzp : z.sigPending &&& s ≠ 0 := fun hzp =>
        hmissed ⟨s, z, rfl, hs, hsi, hp, ht, hz, hgo, he, hzp⟩
      obtain ⟨z', l', hz', hi⟩ := (h.suspendWait timeout).run es
      obtain rfl : z' = z := Option.some.inj (hz'.symm.trans hz)
      have hi' : Inv { z' with signalWait := false } l' := hi.congr rfl rfl rfl rfl rfl rfl
      obtain ⟨l₁, q, l₂, hv, hbit, hrest⟩ := hi'.takeFirst_sound hzp hr
      refine ⟨s, z', l₁, q, l₂, rfl, ?_, congrArg some hv, hbit, hrest⟩
      rw [if_neg (not_not_intro hp), hz]

/-- **When `rt_signal_wait` returns `RT_EOK` only with a signal of the set**: unless the thread was
resumed for another signal while none of the set was pending. The bits of `sig_pending` and the nodes
of `si_list` agree after each of the three operations. -/
theorem signalWait_sound_iff (x : Tcb) (l : List Nat) (h : x.Inv l) :
    (∀ set si timeout es, x.WaitSound set si timeout es ↔ ¬ x.Missed set si timeout es) ∧
    (∀ sig self nest, ∃ ret tr y l', x.rtThreadKill sig self nest = some (ret, tr, y) ∧ y.Inv l') ∧
    (∀ clean, ∃ tr y l', x.rtThreadHandleSig clean = some (tr, y) ∧ y.Inv l') ∧
    ∀ set si timeout es ret si' y, x.rtSignalWait set si timeout es = some (ret, si', y) →
      ∃ l', y.Inv l' :=
  ⟨h.waitSound_iff, h.kill, h.handleSig, fun _ _ _ _ _ _ _ hy => h.rtSignalWait hy⟩

/-- Signal 5 arrives at a thread that waits for it. -/
theorem idle_waitSound :
    (idle [1] (sigBit 5)).WaitSound (some (sigBit 5)) (some .zero) (-1) [.kill 5 false 0] := by
  refine ((signalWait_sound_iff (idle [1] (sigBit 5)) []
    (idle_inv (by decide) (by decide) (by decide) _)).1 _ _ _ _).mpr ?_
  rintro ⟨s, z, hs, -, -, -, -, hz, -, -, hzp⟩
  cases hs
  have hp : (((idle [1] (sigBit 5)).suspendWait (-1)).run [.kill 5 false 0]).map
      (fun z => z.sigPending &&& sigBit 5) = some (sigBit 5) := by decide
  rw [hz, Option.map_some, hzp] at hp
  exact absurd hp (by decide)

/-- **A signal that is not waited for**: the thread waits for signal 5, and signal 7, which is
unmasked, resumes it. It returns `RT_EOK`, and `*si` is empty. -/
theorem idle_woken_by_other : (idle [1] (sigBit 7)).Inv [] ∧
    ((idle [1] (sigBit 7)).rtSignalWait (some (sigBit 5)) (some .zero) (-1)
      [.kill 7 false 0]).map (fun r => (r.1, r.2.1)) = some (.eok, some .zero) ∧
    ¬ (idle [1] (sigBit 7)).WaitSound (some (sigBit 5)) (some .zero) (-1) [.kill 7 false 0] := by
  have hret : ((idle [1] (sigBit 7)).rtSignalWait (some (sigBit 5)) (some .zero) (-1)
      [.kill 7 false 0]).map (fun r => (r.1, r.2.1)) = some (.eok, some .zero) := by decide
  refine ⟨idle_inv (by decide) (by decide) (by decide) _, hret, fun hsound => ?_⟩
  obtain ⟨⟨ret, si', y⟩, hr, hry⟩ := Option.map_eq_some_iff.mp hret
  cases hry
  obtain ⟨s, z, l₁, q, l₂, hs, -, hsi, hbit, -⟩ := hsound _ _ hr
  cases hs
  have hq : (z.si q).siSigno = 0 := congrArg SigInfo.siSigno (Option.some.inj hsi).symm
  rw [hq] at hbit
  exact absurd hbit (by decide)

end Tcb

end RTThread.Siginfo
