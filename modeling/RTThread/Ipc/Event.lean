import RTThread.Ipc.Start

set_option autoImplicit false

/-! # Waiting for events

The event set as a log of what happened to it: events are sent, a receiver is granted what it waits
for, or the set is reset. The walk of `rt_event_send` grants to any number of waiting threads, each
of which sees the set that those before it have left. So what a waiting thread was refused it is
refused by every smaller set, and no thread is left asleep with its condition satisfied.
-/

namespace RTThread.Ipc

open Kernel Trans

/-! ## Conditions on an event set -/

section

variable {set set' wanted e : BitVec 32} {option : BitVec 8}

/-- Every event of the first set is in the second. -/
def Within (e set : BitVec 32) : Prop := e &&& set = e

theorem Within.refl (set : BitVec 32) : Within set set := BitVec.and_self

theorem within_iff : Within e set ↔ ∀ j, e.getLsbD j = true → set.getLsbD j = true := by
  constructor
  · intro h j hj
    have h1 : (e &&& set).getLsbD j = true := by rw [h, hj]
    rw [BitVec.getLsbD_and, Bool.and_eq_true] at h1
    exact h1.2
  · intro h
    apply BitVec.eq_of_getLsbD_eq
    intro j _
    rw [BitVec.getLsbD_and]
    cases hj : e.getLsbD j with
    | false => rfl
    | true => rw [h j hj, Bool.and_self]

theorem Within.trans (h1 : Within e set) (h2 : Within set set') : Within e set' := by
  rw [within_iff] at *
  exact fun j hj => h2 j (h1 j hj)

theorem within_and_left : Within (e &&& set) e := by
  rw [within_iff]
  intro j hj
  rw [BitVec.getLsbD_and, Bool.and_eq_true] at hj
  exact hj.1

theorem within_and_right : Within (e &&& set) set := by
  rw [within_iff]
  intro j hj
  rw [BitVec.getLsbD_and, Bool.and_eq_true] at hj
  exact hj.2

/-- Clearing what a receiver was given clears what it was interested in. -/
theorem clear_given : set &&& ~~~(set &&& wanted) = set &&& ~~~wanted := by
  apply BitVec.eq_of_getLsbD_eq
  intro j hj
  simp only [BitVec.getLsbD_and, BitVec.getLsbD_not, hj, decide_true, Bool.true_and]
  cases set.getLsbD j <;> cases wanted.getLsbD j <;> rfl

/-- No event outside the interest set is cleared. -/
theorem clear_others : set &&& ~~~wanted &&& ~~~wanted = set &&& ~~~wanted := by
  rw [BitVec.and_assoc, BitVec.and_self]

/-- **A condition that a set satisfies is satisfied by every larger set.** -/
theorem eventReady_mono (h : eventReady set wanted option) (hs : Within set set') :
    eventReady set' wanted option := by
  have hmono : Within (set &&& wanted) (set' &&& wanted) := by
    rw [within_iff] at *
    intro j hj
    rw [BitVec.getLsbD_and, Bool.and_eq_true] at hj ⊢
    exact ⟨hs j hj.1, hj.2⟩
  unfold eventReady at h ⊢
  split_ifs at h ⊢
  · -- all the events of the interest set are in the larger set too
    rw [h] at hmono
    calc set' &&& wanted = wanted &&& (set' &&& wanted) := by
          rw [BitVec.and_comm wanted, BitVec.and_assoc, BitVec.and_self]
      _ = wanted := hmono
  · intro h0
    rw [h0] at hmono
    exact h (hmono.symm.trans BitVec.and_zero)

/-- What a receiver gets satisfies its condition by itself. -/
theorem eventReady_given (h : eventReady set wanted option) :
    eventReady (set &&& wanted) wanted option := by
  unfold eventReady at h ⊢
  rw [BitVec.and_assoc, BitVec.and_self]
  exact h

/-- The test of `rt_event_send` agrees with the one of `rt_event_recv`. -/
theorem eventMatch_cases {th : Thread} (set : BitVec 32) (ho : EventOption th.eventInfo) :
    (eventReady set th.eventSet th.eventInfo ∧
      eventMatch th set = some (set &&& th.eventSet)) ∨
    (¬ eventReady set th.eventSet th.eventInfo ∧ eventMatch th set = none) := by
  unfold eventReady eventMatch
  by_cases hand : th.eventInfo &&& RT_EVENT_FLAG_AND ≠ 0
  · rw [if_pos hand, if_pos hand, BitVec.and_comm th.eventSet set]
    by_cases hall : set &&& th.eventSet = th.eventSet
    · rw [if_pos hall, hall]
      exact Or.inl ⟨rfl, rfl⟩
    · rw [if_neg hall]
      exact Or.inr ⟨hall, rfl⟩
  · rw [if_neg hand, if_neg hand, if_pos (ho.resolve_left hand), BitVec.and_comm th.eventSet set]
    by_cases hsome : set &&& th.eventSet ≠ 0
    · rw [if_pos hsome]
      exact Or.inl ⟨hsome, rfl⟩
    · rw [if_neg hsome]
      exact Or.inr ⟨hsome, rfl⟩

end

/-! ## The log of an event set -/

/-- What a thread was given. -/
structure Grant where
  thread : ThreadId
  wanted : BitVec 32
  option : BitVec 8
  given : BitVec 32

/-- What happens to an event set. -/
inductive EventOp
  | send (set : BitVec 32)
  | grant (g : Grant)
  | reset

/-- A receiver gets events at a moment when the set is `set`, and leaves `set'`. -/
structure Receives (set : BitVec 32) (g : Grant) (set' : BitVec 32) : Prop where
  /-- it gets events of its interest set only -/
  interest : Within g.given g.wanted
  /-- which satisfy its condition -/
  ready : eventReady g.given g.wanted g.option
  /-- and were set -/
  wereSet : Within g.given set
  /-- `RT_EVENT_FLAG_CLEAR` removes what it was given, that is all it was interested in -/
  clear : set' = if g.option &&& RT_EVENT_FLAG_CLEAR ≠ 0 then set &&& ~~~g.given else set
  others : set' &&& ~~~g.wanted = set &&& ~~~g.wanted

/-- One operation takes the set from `set` to `set'`. -/
inductive EventMove : BitVec 32 → EventOp → BitVec 32 → Prop
  | send {set e : BitVec 32} : EventMove set (.send e) (set ||| e)
  | grant {set set' : BitVec 32} {g : Grant} (r : Receives set g set') :
      EventMove set (.grant g) set'
  | reset {set : BitVec 32} : EventMove set .reset 0

/-- The operations take the set from `set` to `set'`, one after the other. -/
def Replays (set : BitVec 32) : List EventOp → BitVec 32 → Prop
  | [], set' => set' = set
  | op :: ops, set' => ∃ set₁, EventMove set op set₁ ∧ Replays set₁ ops set'

section

variable {set set₁ set' wanted : BitVec 32} {option : BitVec 8} {ops ops' : List EventOp}
  {t : ThreadId}

theorem Replays.append (h : Replays set ops set₁) (h' : Replays set₁ ops' set') :
    Replays set (ops ++ ops') set' := by
  induction ops generalizing set with
  | nil =>
      obtain rfl := h
      exact h'
  | cons op ops ih =>
      obtain ⟨set₂, hm, h⟩ := h
      exact ⟨set₂, hm, ih h⟩

/-- What a ready receiver gets. -/
theorem receives (hr : eventReady set wanted option) : Receives set
    ⟨t, wanted, option, set &&& wanted⟩
    (if option &&& RT_EVENT_FLAG_CLEAR ≠ 0 then set &&& ~~~wanted else set) := by
  refine ⟨within_and_right, eventReady_given hr, within_and_left, ?_, ?_⟩
  · dsimp only
    rw [clear_given]
  · dsimp only
    split_ifs
    · exact clear_others
    · rfl

theorem Receives.within {g : Grant} (r : Receives set g set') : Within set' set := by
  rw [r.clear]
  split_ifs
  · exact within_and_left
  · exact Within.refl set

end

/-! ## The walk of `rt_event_send` -/

section

variable [RtConfig] {k k' : Kernel} {pc : ThreadId → Pc} {set : BitVec 32} {b : Bool}
  {h : ListHead} {t u v : ThreadId} {l : List ThreadId}

/-- What the walk gives to the threads of the list. -/
def sendGrants : List ThreadId → Kernel → BitVec 32 → List Grant
  | [], _, _ => []
  | t :: l, k, set =>
    let th := k.thread t
    match eventMatch th set with
    | some given =>
      ⟨t, th.eventSet, th.eventInfo, given⟩ :: sendGrants l k
        (if th.eventInfo &&& RT_EVENT_FLAG_CLEAR ≠ 0 then set &&& ~~~given else set)
    | none => sendGrants l k set

omit [RtConfig] in
theorem sendGrants_congr (hk : ∀ u ∈ l, k'.thread u = k.thread u) :
    sendGrants l k' set = sendGrants l k set := by
  induction l generalizing set with
  | nil => rfl
  | cons t l ih =>
      have ht := hk t List.mem_cons_self
      have hl : ∀ u ∈ l, k'.thread u = k.thread u := fun u hu => hk u (List.mem_cons_of_mem _ hu)
      unfold sendGrants
      dsimp only
      rw [ht]
      cases eventMatch (k.thread t) set with
      | some given => exact congrArg _ (ih hl)
      | none => exact ih hl

/-- What the walk does over the threads `l` of the list `h`. -/
structure SendWalk (k : Kernel) (h : ListHead) (l : List ThreadId) (set : BitVec 32)
    (grants : List Grant) (k' : Kernel) (left : BitVec 32) : Prop where
  replays : Replays set (grants.map .grant) left
  within : Within left set
  /-- a thread that is given something is out of the list, and finds it in its event set -/
  given : ∀ g ∈ grants, g.thread ∈ l ∧ g.wanted = (k.thread g.thread).eventSet ∧
    g.option = (k.thread g.thread).eventInfo ∧ (k'.thread g.thread).eventSet = g.given ∧
    g.thread ∉ k'.lists h
  /-- any other stays as it is -/
  others : ∀ v, (∀ g ∈ grants, g.thread ≠ v) → k'.thread v = k.thread v ∧
    (v ∈ k'.lists h ↔ v ∈ k.lists h)
  /-- and was refused by a set that has become smaller since -/
  refused : ∀ v ∈ l, (∀ g ∈ grants, g.thread ≠ v) →
    ¬ eventReady left (k.thread v).eventSet (k.thread v).eventInfo

theorem sendWalk (i : WaitInv k pc) (hh : h.IsWait) (hl : ∀ u ∈ l, u ∈ k.lists h) (hnd : l.Nodup)
    (ho : ∀ u ∈ l, EventOption (k.thread u).eventInfo) (set : BitVec 32) (b : Bool) :
    SendWalk k h l set (sendGrants l k set) (eventSendLoop l k set b).1
      (eventSendLoop l k set b).2.1 := by
  induction l generalizing k set b with
  | nil =>
      exact ⟨rfl, Within.refl set, fun g hg => absurd hg (by simp [sendGrants]),
        fun v _ => ⟨rfl, Iff.rfl⟩, fun v hv => absurd hv (by simp)⟩
  | cons u l ih =>
      have hu := hl u List.mem_cons_self
      obtain ⟨hul, hnd'⟩ := List.nodup_cons.mp hnd
      have hl' : ∀ v ∈ l, v ∈ k.lists h := fun v hv => hl v (List.mem_cons_of_mem _ hv)
      have ho' : ∀ v ∈ l, EventOption (k.thread v).eventInfo :=
        fun v hv => ho v (List.mem_cons_of_mem _ hv)
      have hne : ∀ v ∈ l, v ≠ u := by
        rintro v hv rfl
        exact hul hv
      unfold eventSendLoop sendGrants
      dsimp only
      obtain ⟨hrdy, hm⟩ | ⟨hrdy, hm⟩ := eventMatch_cases set (ho u List.mem_cons_self)
      · rw [hm]
        dsimp only
        rw [clear_given]
        generalize hleft : (if (k.thread u).eventInfo &&& RT_EVENT_FLAG_CLEAR ≠ 0 then
          set &&& ~~~(k.thread u).eventSet else set) = left
        have r : Receives set ⟨u, (k.thread u).eventSet, (k.thread u).eventInfo,
            set &&& (k.thread u).eventSet⟩ left := hleft ▸ receives hrdy
        -- the thread gets its events, and is woken
        have i₁ : WaitInv (k.modify u fun th => { th with
            eventSet := set &&& (k.thread u).eventSet }) pc :=
          i.of_fields rfl rfl rfl (Or.inl rfl) (i.signal u)
        have w := Woken.of_resume (u := u) i₁.sched hh hu
        generalize ((k.modify u fun th => { th with
          eventSet := set &&& (k.thread u).eventSet }).rtThreadResume u).2 = k₂ at w ⊢
        have i₂ : WaitInv k₂ pc := i₁.woken hu (i₁.signal u) w
        have hthread : ∀ v, v ≠ u → k₂.thread v = k.thread v := fun v hv => by
          rw [w.thread v hv, modify_of_ne _ hv]
        have hmem : ∀ v, v ∈ k₂.lists h ↔ v ∈ k.lists h ∧ v ≠ u := fun v =>
          w.mem_iff i₁.sched hh hu
        -- the walk goes on with what is left
        have hrest := ih i₂ (fun v hv => (hmem v).mpr ⟨hl' v hv, hne v hv⟩) hnd'
          (fun v hv => by rw [hthread v (hne v hv)]; exact ho' v hv) left true
        rw [sendGrants_congr fun v hv => hthread v (hne v hv)] at hrest
        have hgiven : ∀ g ∈ sendGrants l k left, g.thread ≠ u := fun g hg =>
          hne _ (hrest.given g hg).1
        have hself := hrest.others u hgiven
        refine ⟨⟨left, .grant r, hrest.replays⟩, hrest.within.trans r.within, fun g hg => ?_,
          fun v hv => ?_, fun v hv hn => ?_⟩
        · rcases List.mem_cons.mp hg with rfl | hg
          · refine ⟨List.mem_cons_self, rfl, rfl, ?_, fun hm => ?_⟩
            · dsimp only
              rw [hself.1, w.self, modify_self]
            · exact ((hmem u).mp (hself.2.mp hm)).2 rfl
          · obtain ⟨h1, h2, h3, h4, h5⟩ := hrest.given g hg
            rw [hthread _ (hne _ h1)] at h2 h3
            exact ⟨List.mem_cons_of_mem _ h1, h2, h3, h4, h5⟩
        · have hvu : v ≠ u := fun he => hv _ List.mem_cons_self he.symm
          obtain ⟨h1, h2⟩ := hrest.others v fun g hg => hv g (List.mem_cons_of_mem _ hg)
          rw [hthread v hvu] at h1
          exact ⟨h1, h2.trans ((hmem v).trans (and_iff_left hvu))⟩
        · have hvu : v ≠ u := fun he => hn _ List.mem_cons_self he.symm
          have hvl := (List.mem_cons.mp hv).resolve_left hvu
          have hrefused := hrest.refused v hvl fun g hg => hn g (List.mem_cons_of_mem _ hg)
          rwa [hthread v hvu] at hrefused
      · rw [hm]
        dsimp only
        have w := ih i hl' hnd' ho' set b
        refine ⟨w.replays, w.within, fun g hg => ?_, w.others, fun v hv hn => ?_⟩
        · obtain ⟨h1, h2⟩ := w.given g hg
          exact ⟨List.mem_cons_of_mem _ h1, h2⟩
        · rcases List.mem_cons.mp hv with rfl | hv
          · exact fun hr => hrdy (eventReady_mono hr w.within)
          · exact w.refused v hv hn

end

/-! ## Runs -/

/-- What a call does to the event set. -/
def callOps (i : Nat) (s : Ipc) (t : ThreadId) : Call → List EventOp
  | .eventSend j set =>
    if j = i ∧ set ≠ 0 then .send set :: (sendGrants (s.kernel.lists (.suspend (.event i))) s.kernel
      ((s.event i).set ||| set)).map .grant
    else []
  | .eventRecv j wanted option _ =>
    if j = i ∧ wanted ≠ 0 ∧ eventReady (s.event i).set wanted option then
      [.grant ⟨t, wanted, option, (s.event i).set &&& wanted⟩]
    else []
  | .eventReset j => if j = i then [.reset] else []
  | _ => []

def stepOps (i : Nat) (s : Sys) : Action → List EventOp
  | .run t (.call c) => callOps i s.ipc t c
  | .isr c => s.ipc.kernel.current.elim [] fun t => callOps i s.ipc t c
  | _ => []

/-- The grant to a thread, if the operation is one. -/
def EventOp.grantTo (t : ThreadId) : EventOp → Option Grant
  | .grant g => if g.thread = t then some g else none
  | _ => none

/-- What each thread was given in its present call. -/
def nextGot (got : ThreadId → Option Grant) (ops : List EventOp) : Action → ThreadId → Option Grant
  | .ret t => Function.update got t none
  | _ => fun t => (ops.findSome? (EventOp.grantTo t)).or (got t)

/-- A run with the log of event set `i`, and what each thread was given in its present call. -/
structure EventRun where
  sys : Sys
  initial : BitVec 32
  log : List EventOp
  got : ThreadId → Option Grant

section

variable [RtConfig] {i : Nat} {s s' : Sys} {S S' : EventRun} {a : Action} {t u v : ThreadId}
  {got : ThreadId → Option Grant} {ops : List EventOp} {g : Grant} {x : Section} {c : Call}
  {k k' : Kernel} {o : Obj}

def EventRun.Init (i : Nat) (S : EventRun) : Prop :=
  S.sys.Init ∧ S.initial = (S.sys.ipc.event i).set ∧ S.log = [] ∧ ∀ t, S.got t = none

def EventRun.exec (i : Nat) (S : EventRun) (a : Action) : Option EventRun :=
  (S.sys.exec a).map fun s' => {
    sys := s'
    initial := S.initial
    log := S.log ++ stepOps i S.sys a
    got := nextGot S.got (stepOps i S.sys a) a }

def EventRun.Step (i : Nat) (S : EventRun) (a : Action) (S' : EventRun) : Prop :=
  S.exec i a = some S'

/-- The waiting threads were all refused, and the others have what they were given. -/
structure EventInv (i : Nat) (s : Sys) (got : ThreadId → Option Grant) : Prop where
  waiting : ∀ t ∈ s.ipc.kernel.lists (.suspend (.event i)), ∃ wanted option timeout,
    s.pc t = .wait (.eventRecv i wanted option timeout) ∧
      (s.ipc.kernel.thread t).eventSet = wanted ∧ (s.ipc.kernel.thread t).eventInfo = option ∧
      EventOption option ∧ ¬ eventReady (s.ipc.event i).set wanted option
  woken : ∀ t wanted option timeout, s.pc t = .wait (.eventRecv i wanted option timeout) →
    t ∉ s.ipc.kernel.lists (.suspend (.event i)) → (s.ipc.kernel.thread t).error = .ok →
      ∃ g, got t = some g ∧ g.wanted = wanted ∧ g.option = option ∧
        (s.ipc.kernel.thread t).eventSet = g.given
  returned : ∀ t wanted option timeout r,
    s.pc t = .ret (.eventRecv i wanted option timeout) .ok r →
      ∃ g, got t = some g ∧ g.wanted = wanted ∧ g.option = option ∧ r = .event g.given

/-! ### The grants of a step -/

omit [RtConfig] in
theorem nextGot_of_none (ha : a ≠ .ret t) (hn : ∀ g, .grant g ∈ ops → g.thread ≠ t) :
    nextGot got ops a t = got t := by
  have hnone : ops.findSome? (EventOp.grantTo t) = none := by
    rw [List.findSome?_eq_none_iff]
    intro op hop
    cases op with
    | grant g => exact if_neg (hn g hop)
    | _ => rfl
  unfold nextGot
  cases a with
  | ret u => exact Function.update_of_ne (fun e => ha (by rw [e])) ..
  | _ =>
      dsimp only
      rw [hnone, Option.none_or]

omit [RtConfig] in
theorem nextGot_of_mem (got : ThreadId → Option Grant) (ha : ∀ u, a ≠ .ret u) (hg : .grant g ∈ ops) :
    ∃ g', .grant g' ∈ ops ∧ g'.thread = g.thread ∧ nextGot got ops a g.thread = some g' := by
  have hsome : (ops.findSome? (EventOp.grantTo g.thread)).isSome = true := by
    rw [List.findSome?_isSome_iff]
    exact ⟨_, hg, by simp [EventOp.grantTo]⟩
  obtain ⟨g', hg'⟩ := Option.isSome_iff_exists.mp hsome
  obtain ⟨op, hop, he⟩ := List.exists_of_findSome?_eq_some hg'
  have hnext : nextGot got ops a g.thread = some g' := by
    unfold nextGot
    cases a with
    | ret u => exact absurd rfl (ha u)
    | _ =>
        dsimp only
        rw [hg', Option.some_or]
  cases op with
  | grant g₁ =>
      unfold EventOp.grantTo at he
      dsimp only at he
      split_ifs at he with ht
      obtain rfl := Option.some.inj he
      exact ⟨g₁, hop, ht, hnext⟩
  | _ => cases he

omit [RtConfig] in
/-- Only what the step grants is new. -/
theorem nextGot_cases (h : nextGot got ops a t = some g) :
    got t = some g ∨ .grant g ∈ ops ∧ g.thread = t := by
  unfold nextGot at h
  cases a with
  | ret u =>
      dsimp only at h
      by_cases hu : t = u
      · rw [hu, Function.update_self] at h
        cases h
      · rw [Function.update_of_ne hu] at h
        exact Or.inl h
  | _ =>
      dsimp only at h
      rcases Option.or_eq_some_iff.mp h with h | ⟨-, h⟩
      · obtain ⟨op, hop, he⟩ := List.exists_of_findSome?_eq_some h
        cases op with
        | grant g₁ =>
            unfold EventOp.grantTo at he
            dsimp only at he
            split_ifs at he with ht
            obtain rfl := Option.some.inj he
            exact Or.inr ⟨hop, ht⟩
        | _ => cases he
      · exact Or.inl h

/-! ### The fields of a waiting thread -/

theorem Prims.eventInfo (p : Prims o t k k') (hv : v ≠ t) :
    (k'.thread v).eventInfo = (k.thread v).eventInfo := by
  induction p with
  | refl => rfl
  | tail _ hp ih =>
      rw [← ih]
      cases hp with
      | self => rw [modify_of_ne _ hv]
      | @eventSet u =>
          by_cases hvu : v = u
          · rw [hvu, modify_self]
          · rw [modify_of_ne _ hvu]
      | @changed _ u _ _ c =>
          by_cases hvu : v = u
          · rw [hvu, c.self]
            unfold setPriority
            split <;> rfl
          · rw [c.thread v hvu]
      | @woken _ u _ _ _ _ _ w =>
          by_cases hvu : v = u
          · rw [hvu, w.self]
          · rw [w.thread v hvu]

/-- Only the running thread writes its option. -/
theorem Step.eventInfo (hs : s.Step a s') (j : SysInv s) (hv : ∀ r, a ≠ .run v r) :
    (s'.ipc.kernel.thread v).eventInfo = (s.ipc.kernel.thread v).eventInfo := by
  obtain ⟨t, r, x, rfl, hr, hx, rfl⟩ | ⟨t, c, e, r, rfl, hr, hpc, rfl⟩ |
    ⟨c, t, x, rfl, hc, ht, hx, rfl⟩ | ⟨t, k', rfl, ht, hk, rfl⟩ | ⟨t, p, rfl, hp, rfl⟩ |
    ⟨k', rfl, hk, rfl⟩ := Step.cases hs
  · have hvt : v ≠ t := fun e => hv r (by rw [e])
    obtain ⟨o, -, ok⟩ := sect_ok j hr hx
    have hd := ok.does
    cases hd with
    | go hp _ => exact hp.eventInfo hvt
    | block hp _ _ _ _ b =>
        show (x.ipc.kernel.thread v).eventInfo = _
        rw [b.thread v hvt]
        exact hp.eventInfo hvt
  · rfl
  · exact ((isr_ok j hc hx).prims (v + 1)).eventInfo (Nat.succ_ne_self v).symm
  · obtain ⟨h, hh, hm, -, w⟩ := timeout_woken j ht hk
    show (k'.thread v).eventInfo = _
    by_cases hvt : v = t
    · rw [hvt, w.self]
    · rw [w.thread v hvt]
  · have c := Changed.of_control (u := t) j.wait.sched hp
    show ((s.ipc.kernel.rtThreadControl t p).thread v).eventInfo = _
    by_cases hvt : v = t
    · rw [hvt, c.self]
      unfold setPriority
      split <;> rfl
    · rw [c.thread v hvt]
  · obtain ⟨st, b, he⟩ := rtSchedule_thread j.wait.sched hk v
    show (k'.thread v).eventInfo = _
    rw [he]

omit [RtConfig] in
theorem callOps_of_ne (hc : c.obj ≠ .event i) (s : Ipc) (t : ThreadId) : callOps i s t c = [] := by
  cases c with
  | eventSend m set => exact if_neg fun h => hc (congrArg Obj.event h.1)
  | eventRecv m wanted option timeout => exact if_neg fun h => hc (congrArg Obj.event h.1)
  | eventReset m => exact if_neg fun h => hc (congrArg Obj.event h)
  | _ => rfl

omit [RtConfig] in
theorem stepOps_of_ne (ha : s.actObj a ≠ some (.event i)) : stepOps i s a = [] := by
  cases a with
  | run t r =>
      cases r with
      | call c => exact callOps_of_ne (fun h => ha (congrArg some h)) s.ipc t
      | _ => rfl
  | isr c =>
      unfold stepOps
      cases s.ipc.kernel.current with
      | none => rfl
      | some t => exact callOps_of_ne (fun h => ha (congrArg some h)) s.ipc t
  | _ => rfl

/-- A step at another object. -/
theorem EventInv.frame (h : EventInv i s got) (hs : s.Step a s') (j : SysInv s)
    (ha : s.actObj a ≠ some (.event i)) : EventInv i s' (nextGot got (stepOps i s a) a) := by
  have f := Step.frame hs j ha
  have hl := f.lists (.suspend (.event i)) (Or.inl rfl)
  have hset : (s'.ipc.event i).set = (s.ipc.event i).set := congrArg Event.set f.same
  -- a thread at the event is not the one that returns
  have hgot : ∀ {t}, (s'.pc t).obj = some (.event i) →
      nextGot got (stepOps i s a) a t = got t ∧ s'.pc t = s.pc t := by
    intro t ht
    have hpt := f.pc t (Or.inr ht)
    refine ⟨nextGot_of_none ?_ ?_, hpt⟩
    · rintro rfl
      rw [hpt] at ht
      exact ha ht
    · rw [stepOps_of_ne ha]
      simp
  refine ⟨fun t ht => ?_, fun t w o time hp ht he => ?_, fun t w o time r hp => ?_⟩
  · rw [hl] at ht
    obtain ⟨w, o, time, hp, h1, h2, h3, h4⟩ := h.waiting t ht
    have hobj : (s.pc t).obj = some (.event i) := by
      rw [hp]
      rfl
    refine ⟨w, o, time, (f.pc t (Or.inl hobj)).trans hp, (f.thread t hobj).2.trans h1, ?_, h3, ?_⟩
    · rw [Step.eventInfo hs j, h2]
      -- a thread that waits does not run
      rintro r rfl
      obtain ⟨_, _, _, he, hr, -⟩ | ⟨_, _, _, _, he, -⟩ | ⟨_, _, _, he, -⟩ | ⟨_, _, he, -⟩ |
        ⟨_, _, he, -⟩ | ⟨_, he, -⟩ := Step.cases hs
      · obtain ⟨rfl, -⟩ := Action.run.inj he
        exact j.wait.sched.running_not_mem hr.2 ht
      all_goals cases he
    · rw [hset]
      exact h4
  · have hobj : (s'.pc t).obj = some (.event i) := by
      rw [hp]
      rfl
    obtain ⟨hg, hpt⟩ := hgot hobj
    rw [hpt] at hp
    have hobj' : (s.pc t).obj = some (.event i) := by
      rw [← hpt]
      exact hobj
    obtain ⟨h1, h2⟩ := f.thread t hobj'
    obtain ⟨g, h3, h4, h5, h6⟩ := h.woken t w o time hp (by rwa [hl] at ht) (h1.symm.trans he)
    exact ⟨g, hg.trans h3, h4, h5, h2.trans h6⟩
  · have hobj : (s'.pc t).obj = some (.event i) := by
      rw [hp]
      rfl
    obtain ⟨hg, hpt⟩ := hgot hobj
    obtain ⟨g, h1, h2, h3, h4⟩ := h.returned t w o time r (hpt.symm.trans hp)
    exact ⟨g, hg.trans h1, h2, h3, h4⟩

/-! ### The sections -/

omit [RtConfig] in
/-- A change at one thread, which goes to the place `p`; the others are refused by what is left of
the set. -/
theorem EventInv.move {ipc' : Ipc} {p : Pc} {got' : ThreadId → Option Grant} (h : EventInv i s got)
    (hl : ∀ v, v ≠ t → (v ∈ ipc'.kernel.lists (.suspend (.event i)) ↔
      v ∈ s.ipc.kernel.lists (.suspend (.event i))))
    (hth : ∀ v, v ≠ t → ipc'.kernel.thread v = s.ipc.kernel.thread v)
    (hset : Within (ipc'.event i).set (s.ipc.event i).set) (hgot : ∀ v, v ≠ t → got' v = got v)
    (h1 : t ∈ ipc'.kernel.lists (.suspend (.event i)) → ∃ wanted option timeout,
      p = .wait (.eventRecv i wanted option timeout) ∧
        (ipc'.kernel.thread t).eventSet = wanted ∧ (ipc'.kernel.thread t).eventInfo = option ∧
        EventOption option ∧ ¬ eventReady (ipc'.event i).set wanted option)
    (h2 : ∀ wanted option timeout, p = .wait (.eventRecv i wanted option timeout) →
      t ∉ ipc'.kernel.lists (.suspend (.event i)) → (ipc'.kernel.thread t).error ≠ .ok)
    (h3 : ∀ wanted option timeout r, p = .ret (.eventRecv i wanted option timeout) .ok r →
      ∃ g, got' t = some g ∧ g.wanted = wanted ∧ g.option = option ∧ r = .event g.given) :
    EventInv i ⟨ipc', Function.update s.pc t p⟩ got' := by
  constructor <;> dsimp only
  · intro v hv
    by_cases hvt : v = t
    · subst hvt
      rw [Function.update_self]
      exact h1 hv
    · obtain ⟨w, o, time, hp, h4, h5, h6, h7⟩ := h.waiting v ((hl v hvt).mp hv)
      rw [Function.update_of_ne hvt, hth v hvt]
      exact ⟨w, o, time, hp, h4, h5, h6, fun hr => h7 (eventReady_mono hr hset)⟩
  · intro v w o time hp hv he
    by_cases hvt : v = t
    · subst hvt
      rw [Function.update_self] at hp
      exact absurd he (h2 w o time hp hv)
    · rw [Function.update_of_ne hvt] at hp
      rw [hth v hvt] at he ⊢
      rw [hgot v hvt]
      exact h.woken v w o time hp (fun hm => hv ((hl v hvt).mpr hm)) he
  · intro v w o time r hp
    by_cases hvt : v = t
    · subst hvt
      rw [Function.update_self] at hp
      exact h3 w o time r hp
    · rw [Function.update_of_ne hvt] at hp
      rw [hgot v hvt]
      exact h.returned v w o time r hp

/-- `rt_event_send`, by a thread or an interrupt handler. -/
theorem EventInv.send {pc' : ThreadId → Pc} {e : BitVec 32} (h : EventInv i s got) (j : SysInv s)
    (ha : ∀ u, a ≠ .ret u) (hx : s.ipc.rtEventSend i e = some x)
    (hpc : ∀ v, pc' v = s.pc v ∨ s.pc v = .idle ∧ ∃ err, pc' v = .ret (.eventSend i e) err .none) :
    EventInv i ⟨x.ipc, pc'⟩ (nextGot got (callOps i s.ipc t (.eventSend i e)) a) ∧
      Replays (s.ipc.event i).set (callOps i s.ipc t (.eventSend i e)) (x.ipc.event i).set := by
  -- a thread that receives is not the one that sends
  have hsame : ∀ {v c p}, pc' v = p → p = .wait c ∨ (∃ w o time r,
      p = .ret (.eventRecv i w o time) .ok r) → s.pc v = p := by
    intro v c p hp hcase
    rcases hpc v with hv | ⟨-, err, hv⟩
    · rw [← hv, hp]
    · rw [hv] at hp
      rcases hcase with rfl | ⟨w, o, time, r, rfl⟩ <;> cases hp
  unfold rtEventSend at hx
  by_cases h0 : e = 0
  · rw [if_pos h0] at hx
    obtain rfl := Option.some.inj hx
    have hops : callOps i s.ipc t (.eventSend i e) = [] := if_neg fun hc => hc.2 h0
    rw [hops]
    have hgot : ∀ v, nextGot got [] a v = got v := fun v => nextGot_of_none (ha v) (by simp)
    refine ⟨⟨fun v hv => ?_, fun v w o time hp hv he => ?_, fun v w o time r hp => ?_⟩, rfl⟩
    · obtain ⟨w, o, time, hp, hrest⟩ := h.waiting v hv
      refine ⟨w, o, time, ?_, hrest⟩
      rcases hpc v with hv | ⟨hv, -⟩
      · exact hv.trans hp
      · rw [hp] at hv
        cases hv
    · rw [hgot]
      exact h.woken v w o time (hsame hp (Or.inl rfl)) hv he
    · rw [hgot]
      exact h.returned v w o time r (hsame (c := .eventReset i) hp (Or.inr ⟨w, o, time, r, rfl⟩))
  rw [if_neg h0] at hx
  obtain rfl := Option.some.inj hx
  have hops : callOps i s.ipc t (.eventSend i e) =
      .send e :: (sendGrants (s.ipc.kernel.lists (.suspend (.event i))) s.ipc.kernel
        ((s.ipc.event i).set ||| e)).map .grant := if_pos ⟨rfl, h0⟩
  rw [hops]
  have w := sendWalk j.wait ⟨_, Or.inl rfl⟩ (fun u hu => hu)
    (j.wait.sched.nodup (.suspend (.event i)))
    (fun u hu => by
      obtain ⟨_, _, _, -, -, h2, h3, -⟩ := h.waiting u hu
      rwa [h2]) ((s.ipc.event i).set ||| e) false
  generalize hgr : sendGrants (s.ipc.kernel.lists (.suspend (.event i))) s.ipc.kernel
    ((s.ipc.event i).set ||| e) = grants at w
  generalize eventSendLoop (s.ipc.kernel.lists (.suspend (.event i))) s.ipc.kernel
    ((s.ipc.event i).set ||| e) false = p at w ⊢
  obtain ⟨k', left, b⟩ := p
  dsimp only at w ⊢
  have hmem : ∀ g, EventOp.grant g ∈ EventOp.send e :: grants.map .grant ↔ g ∈ grants := by
    intro g
    simp
  have hnone : ∀ {v}, (∀ g ∈ grants, g.thread ≠ v) →
      nextGot got (.send e :: grants.map .grant) a v = got v := fun hn =>
    nextGot_of_none (ha _) fun g hg => hn g ((hmem g).mp hg)
  refine ⟨⟨fun v hv => ?_, fun v wanted o time hp hv he => ?_, fun v wanted o time r hp => ?_⟩, ?_⟩
  · -- a thread that still waits was refused
    have hn : ∀ g ∈ grants, g.thread ≠ v := by
      rintro g hg rfl
      exact (w.given g hg).2.2.2.2 hv
    obtain ⟨h1, h2⟩ := w.others v hn
    have hv' := h2.mp hv
    obtain ⟨wanted, o, time, hp, h3, h4, h5, -⟩ := h.waiting v hv'
    have hr := w.refused v hv' hn
    refine ⟨wanted, o, time, ?_, ?_, ?_, h5, ?_⟩
    · rcases hpc v with hq | ⟨hq, -⟩
      · exact hq.trans hp
      · rw [hp] at hq
        cases hq
    · show (k'.thread v).eventSet = _
      rw [h1, h3]
    · show (k'.thread v).eventInfo = _
      rw [h1, h4]
    · rw [h3, h4] at hr
      simpa using hr
  · have hp' := hsame hp (Or.inl rfl)
    by_cases hg : ∃ g ∈ grants, g.thread = v
    · -- the walk has woken it
      obtain ⟨g, hg, rfl⟩ := hg
      obtain ⟨g', hg', ht, hnext⟩ := nextGot_of_mem got ha ((hmem g).mpr hg)
      obtain ⟨h1, h2, h3, h4, -⟩ := w.given g' ((hmem g').mp hg')
      obtain ⟨w', o', time', hp'', h5, h6, -⟩ := h.waiting _ h1
      rw [ht] at h2 h3 h4 hp'' h5 h6
      rw [hp'] at hp''
      obtain ⟨-, rfl, rfl, -⟩ := Call.eventRecv.inj (Pc.wait.inj hp'')
      exact ⟨g', hnext, h2.trans h5, h3.trans h6, h4⟩
    · have hn : ∀ g ∈ grants, g.thread ≠ v := fun g hg' he => hg ⟨g, hg', he⟩
      obtain ⟨h1, h2⟩ := w.others v hn
      have he' : (s.ipc.kernel.thread v).error = .ok := by
        rw [← h1]
        exact he
      rw [hnone hn]
      show ∃ g, got v = some g ∧ _ ∧ _ ∧ (k'.thread v).eventSet = g.given
      rw [h1]
      exact h.woken v wanted o time hp' (fun hm => hv (h2.mpr hm)) he'
  · have hp' := hsame (c := .eventReset i) hp (Or.inr ⟨wanted, o, time, r, rfl⟩)
    have hn : ∀ g ∈ grants, g.thread ≠ v := by
      rintro g hg rfl
      obtain ⟨_, _, _, hp'', -⟩ := h.waiting _ (w.given g hg).1
      rw [hp'] at hp''
      cases hp''
    rw [hnone hn]
    exact h.returned v wanted o time r hp'
  · rw [setEvent_self]
    exact ⟨_, .send, w.replays⟩

/-- `rt_event_recv`. -/
theorem EventInv.recv {wanted : BitVec 32} {option : BitVec 8} {timeout : Int} {r : Run}
    (h : EventInv i s got) (j : SysInv s) (hr : s.Runs t)
    (hx : s.ipc.rtEventRecv t i wanted option timeout = some x) :
    EventInv i ⟨x.ipc, Function.update s.pc t x.pc⟩
        (nextGot got (callOps i s.ipc t (.eventRecv i wanted option timeout)) (.run t r)) ∧
      Replays (s.ipc.event i).set (callOps i s.ipc t (.eventRecv i wanted option timeout))
        (x.ipc.event i).set := by
  have hnot : t ∉ s.ipc.kernel.lists (.suspend (.event i)) :=
    j.wait.sched.running_not_mem hr.2
  have herr : ∀ {k : Kernel} {e : Err} v, v ≠ t → (k.setError t e).thread v = k.thread v :=
    fun v hv => modify_of_ne _ hv
  have hnil : ∀ v, nextGot got [] (.run t r) v = got v := fun v =>
    nextGot_of_none (by simp) (by simp)
  obtain ⟨h0, rfl⟩ | ⟨h0, hopt, hrdy, rfl⟩ | ⟨hrdy, -, rfl⟩ | ⟨hopt, hrdy, -, k', b, rfl⟩ :=
    rtEventRecv_cases j.wait.sched hr.1 hr.2 hx
  · have hops : callOps i s.ipc t (.eventRecv i wanted option timeout) = [] :=
      if_neg fun hc => hc.2.1 h0
    rw [hops]
    exact ⟨h.move (fun _ _ => Iff.rfl) (fun _ _ => rfl) (Within.refl _) (fun v _ => hnil v)
      (fun hm => absurd hm hnot) (fun _ _ _ hp => by cases hp) (fun _ _ _ _ hp => by cases hp), rfl⟩
  · -- the events are received at once
    have hops : callOps i s.ipc t (.eventRecv i wanted option timeout) =
        [.grant ⟨t, wanted, option, (s.ipc.event i).set &&& wanted⟩] := if_pos ⟨rfl, h0, hrdy⟩
    rw [hops]
    have hrec : Receives (s.ipc.event i).set
        ⟨t, wanted, option, (s.ipc.event i).set &&& wanted⟩ _ := receives hrdy
    refine ⟨h.move (fun _ _ => Iff.rfl) herr ?_ (fun v hv => ?_) (fun hm => absurd hm hnot)
      (fun _ _ _ hp => by cases hp) (fun w o time r' hp => ?_), ?_⟩
    · rw [setEvent_self]
      exact hrec.within
    · apply nextGot_of_none (by simp)
      intro g hg
      obtain rfl := EventOp.grant.inj (List.mem_singleton.mp hg)
      exact hv.symm
    · obtain ⟨hc, -, rfl⟩ := Pc.ret.inj hp
      obtain ⟨-, rfl, rfl, -⟩ := Call.eventRecv.inj hc
      obtain ⟨g', hg', ht, hnext⟩ := nextGot_of_mem got (a := .run t r) (by simp)
        (List.mem_singleton_self (EventOp.grant
          ⟨t, wanted, option, (s.ipc.event i).set &&& wanted⟩))
      obtain rfl := EventOp.grant.inj (List.mem_singleton.mp hg')
      exact ⟨_, hnext, rfl, rfl, rfl⟩
    · rw [setEvent_self]
      exact ⟨_, .grant hrec, rfl⟩
  all_goals
    have hops : callOps i s.ipc t (.eventRecv i wanted option timeout) = [] :=
      if_neg fun hc => hrdy hc.2.2
    rw [hops]
  · exact ⟨h.move (fun _ _ => Iff.rfl) (fun v hv => (herr v hv).trans (herr v hv))
      (Within.refl _) (fun v _ => hnil v) (fun hm => absurd hm hnot)
      (fun _ _ _ hp => by cases hp) (fun _ _ _ _ hp => by cases hp), rfl⟩
  · -- the thread is refused, and waits
    have hwait : t ∈ k'.lists (.suspend (.event i)) :=
      (b.mem_iff ⟨_, Or.inl rfl⟩).mpr (Or.inr ⟨rfl, rfl⟩)
    have hfields : (k'.thread t).eventSet = wanted ∧ (k'.thread t).eventInfo = option := by
      rw [b.self, eventWaiter, modify_self]
      exact ⟨rfl, rfl⟩
    refine ⟨h.move (fun v hv => ?_) (fun v hv => ?_) (Within.refl _) (fun v _ => hnil v)
      (fun _ => ⟨wanted, option, timeout, rfl, hfields.1, hfields.2, hopt, hrdy⟩)
      (fun _ _ _ _ hm => absurd hwait hm) (fun _ _ _ _ hp => by cases hp), rfl⟩
    · exact (b.mem_iff ⟨_, Or.inl rfl⟩).trans (or_iff_left fun he => hv he.1)
    · show k'.thread v = _
      rw [b.thread v hv, eventWaiter, modify_of_ne _ hv]
      exact herr v hv

/-- A reset. -/
theorem EventInv.reset {r : Run} (h : EventInv i s got) (j : SysInv s)
    (hx : s.ipc.rtEventReset i = some x) :
    EventInv i ⟨x.ipc, Function.update s.pc t x.pc⟩
        (nextGot got (callOps i s.ipc t (.eventReset i)) (.run t r)) ∧
      Replays (s.ipc.event i).set (callOps i s.ipc t (.eventReset i)) (x.ipc.event i).set := by
  obtain rfl := Option.some.inj hx
  have hops : callOps i s.ipc t (.eventReset i) = [.reset] := if_pos rfl
  rw [hops]
  have w := resumedAll j.wait (h := .suspend (.event i)) ⟨_, Or.inl rfl⟩
  generalize rtIpcListResumeAll s.ipc.kernel (.suspend (.event i)) = k' at w ⊢
  have hgot : ∀ v, nextGot got [.reset] (.run t r) v = got v := fun v =>
    nextGot_of_none (by simp) (by simp)
  refine ⟨?_, by rw [setEvent_self]; exact ⟨_, .reset, rfl⟩⟩
  constructor <;> dsimp only [setEvent_kernel, setKernel_kernel]
  · intro v hv
    rw [w.list] at hv
    cases hv
  · intro v wanted o time hp _ he
    have hvt : v ≠ t := by
      rintro rfl
      rw [Function.update_self] at hp
      cases hp
    rw [Function.update_of_ne hvt] at hp
    have hv : v ∉ s.ipc.kernel.lists (.suspend (.event i)) := by
      intro hm
      rw [w.error v hm] at he
      cases he
    rw [w.thread v hv] at he ⊢
    rw [hgot]
    exact h.woken v wanted o time hp hv he
  · intro v wanted o time r' hp
    have hvt : v ≠ t := by
      rintro rfl
      rw [Function.update_self] at hp
      cases hp
    rw [Function.update_of_ne hvt] at hp
    rw [hgot]
    exact h.returned v wanted o time r' hp

/-- **One step** keeps the invariant, and its operations take the event set along. -/
theorem EventInv.step (h : EventInv i s got) (hs : s.Step a s') (j : SysInv s) :
    EventInv i s' (nextGot got (stepOps i s a) a) ∧
      Replays (s.ipc.event i).set (stepOps i s a) (s'.ipc.event i).set := by
  by_cases ha : s.actObj a = some (.event i)
  swap
  · refine ⟨h.frame hs j ha, ?_⟩
    rw [stepOps_of_ne ha]
    exact congrArg Event.set (Step.frame hs j ha).same
  obtain ⟨t, r, x, rfl, hr, hx, rfl⟩ | ⟨t, c, e, r, rfl, hr, hpc, rfl⟩ |
    ⟨c, t, x, rfl, hc, ht, hx, rfl⟩ | ⟨t, k', rfl, ht, hk, rfl⟩ | ⟨t, p, rfl, hp, rfl⟩ |
    ⟨k', rfl, hk, rfl⟩ := Step.cases hs
  · obtain ⟨c, rfl, hobj, hidle, hx⟩ | ⟨delta, c, rfl, hobj, hp, hx⟩ :=
      sect_cases_of_ne hx ha (by simp)
    · cases c with
      | eventSend m e =>
          obtain rfl : m = i := Obj.event.inj hobj
          refine h.send (t := t) j (by simp) hx fun v => ?_
          by_cases hv : v = t
          · subst hv
            rw [Function.update_self]
            refine Or.inr ⟨hidle, ?_⟩
            simp only [call, rtEventSend] at hx
            split_ifs at hx <;> obtain rfl := Option.some.inj hx <;> exact ⟨_, rfl⟩
          · exact Or.inl (Function.update_of_ne hv ..)
      | eventRecv m wanted option timeout =>
          obtain rfl : m = i := Obj.event.inj hobj
          exact h.recv j hr hx
      | eventReset m =>
          obtain rfl : m = i := Obj.event.inj hobj
          exact h.reset j hx
      | _ => simp [Call.obj] at hobj
    · cases c with
      | eventRecv m wanted option timeout =>
          obtain rfl : m = i := Obj.event.inj hobj
          obtain rfl := Option.some.inj hx
          have hnot : t ∉ s.ipc.kernel.lists (.suspend (.event m)) :=
            j.wait.sched.running_not_mem hr.2
          refine ⟨h.move (fun _ _ => Iff.rfl) (fun _ _ => rfl) (Within.refl _)
            (fun v _ => nextGot_of_none (by simp) (by simp [stepOps])) (fun hm => absurd hm hnot)
            (fun _ _ _ hp => by cases hp) (fun w o time r' hp' => ?_), rfl⟩
          -- the thread returns what it found in its event set
          obtain ⟨hcall, he, rfl⟩ := Pc.ret.inj hp'
          obtain ⟨-, rfl, rfl, -⟩ := Call.eventRecv.inj hcall
          obtain ⟨g, hg, h1, h2, h3⟩ := h.woken t _ _ _ hp hnot he
          refine ⟨g, ?_, h1, h2, ?_⟩
          · rw [nextGot_of_none (by simp) (by simp [stepOps]), hg]
          · rw [if_pos he, h3]
      | eventSend | eventReset => cases hx
      | _ => simp [Call.obj] at hobj
  · have hnot : t ∉ s.ipc.kernel.lists (.suspend (.event i)) :=
      j.wait.sched.running_not_mem hr.2
    refine ⟨h.move (fun _ _ => Iff.rfl) (fun _ _ => rfl) (Within.refl _) (fun v hv => ?_)
      (fun hm => absurd hm hnot) (fun _ _ _ hp => by cases hp) (fun _ _ _ _ hp => by cases hp), rfl⟩
    exact nextGot_of_none (fun e => hv (Action.ret.inj e).symm) (by simp [stepOps])
  · have hobj : c.obj = .event i := Option.some.inj ha
    have hops : stepOps i s (.isr c) = callOps i s.ipc t c := by
      unfold stepOps
      rw [ht]
      rfl
    rw [hops]
    cases c with
    | eventSend m e =>
        obtain rfl : m = i := Obj.event.inj hobj
        exact h.send j (by simp) hx fun v => Or.inl rfl
    | eventRecv | eventReset => exact absurd hc (by simp [Call.FromIsr])
    | _ => cases hobj
  · -- a thread that gives up leaves the list with an error
    obtain ⟨l, hl, hm, -, w⟩ := timeout_woken j ht hk
    have hmem : ∀ v, v ∈ k'.lists (.suspend (.event i)) ↔
        v ∈ s.ipc.kernel.lists (.suspend (.event i)) ∧ v ≠ t := fun v =>
      w.mem_iff j.wait.sched ⟨_, Or.inl rfl⟩ hm
    have hpc : s.setKernel k' = ⟨s.ipc.setKernel k', Function.update s.pc t (s.pc t)⟩ := by
      rw [Function.update_eq_self]
      rfl
    rw [hpc]
    refine ⟨h.move (fun v hv => (hmem v).trans (and_iff_left hv)) w.thread (Within.refl _)
      (fun v _ => nextGot_of_none (by simp) (by simp [stepOps]))
      (fun hm' => absurd rfl ((hmem t).mp hm').2) (fun _ _ _ _ _ he => ?_)
      (fun w' o time r hp => ?_), rfl⟩
    · rw [show (s.ipc.setKernel k').kernel.thread t = _ from w.self] at he
      cases he
    · -- its call has not returned
      have hwait := j.wait.waits t l hl hm
      rw [hp] at hwait
      cases hwait
  · cases ha
  · cases ha

/-! ### Every run -/

/-- What holds in every state of a run. -/
structure EventOk (i : Nat) (S : EventRun) : Prop where
  inv : EventInv i S.sys S.got
  replays : Replays S.initial S.log (S.sys.ipc.event i).set
  got : ∀ t g, S.got t = some g → g.thread = t ∧ .grant g ∈ S.log

theorem EventRun.exec_cases (h : S.exec i a = some S') :
    S.sys.Step a S'.sys ∧ S'.initial = S.initial ∧ S'.log = S.log ++ stepOps i S.sys a ∧
      S'.got = nextGot S.got (stepOps i S.sys a) a := by
  obtain ⟨s', hs, rfl⟩ := Option.map_eq_some_iff.mp h
  exact ⟨hs, rfl, rfl, rfl⟩

theorem EventRun.reachable_sys (h : Reachable (EventRun.Init i) (EventRun.Step i) S) :
    Reachable Sys.Init Sys.Step S.sys := by
  induction h with
  | init h => exact .init h.1
  | step _ hs ih => exact ih.step (EventRun.exec_cases hs).1

theorem EventRun.Init.ok (h : S.Init i) : EventOk i S := by
  obtain ⟨h, hi, hl, hg⟩ := h
  refine ⟨⟨fun t ht => ?_, fun t w o time hp => ?_, fun t w o time r hp => ?_⟩, ?_, fun t g hg' => ?_⟩
  · rw [h.wait _ ⟨_, Or.inl rfl⟩] at ht
    cases ht
  · rw [h.idle t] at hp
    cases hp
  · rw [h.idle t] at hp
    cases hp
  · rw [hl, hi]
    exact rfl
  · rw [hg] at hg'
    cases hg'

theorem eventOk_of_reachable (h : Reachable (EventRun.Init i) (EventRun.Step i) S) :
    EventOk i S := by
  apply h.invariant (I := EventOk i) fun _ hi => hi.ok
  intro S a S' hr hok hs
  obtain ⟨hs, hi, hl, hg⟩ := EventRun.exec_cases hs
  obtain ⟨h1, h2⟩ := hok.inv.step hs (sysInv_of_reachable (EventRun.reachable_sys hr))
  refine ⟨by rw [hg]; exact h1, ?_, fun t g hgot => ?_⟩
  · rw [hi, hl]
    exact hok.replays.append h2
  · rw [hg] at hgot
    rw [hl]
    rcases nextGot_cases hgot with hold | ⟨hnew, ht⟩
    · obtain ⟨h3, h4⟩ := hok.got t g hold
      exact ⟨h3, List.mem_append_left _ h4⟩
    · exact ⟨ht, List.mem_append_right _ hnew⟩

/-- **No satisfiable receiver is left asleep.** In every state of every run a thread that waits for
the event set is not satisfied by it; the set is what the operations of the log have made of it,
where each receiver got events as it should; and a call that returns RT_EOK returns what it got in
its grant of the log. -/
theorem event_receivers (h : Reachable (EventRun.Init i) (EventRun.Step i) S) :
    (∀ t ∈ S.sys.ipc.kernel.lists (.suspend (.event i)), ∃ wanted option timeout,
      S.sys.pc t = .wait (.eventRecv i wanted option timeout) ∧
        ¬ eventReady (S.sys.ipc.event i).set wanted option) ∧
    Replays S.initial S.log (S.sys.ipc.event i).set ∧
    ∀ t wanted option timeout r, S.sys.pc t = .ret (.eventRecv i wanted option timeout) .ok r →
      ∃ g, S.got t = some g ∧ .grant g ∈ S.log ∧ g.thread = t ∧ g.wanted = wanted ∧
        g.option = option ∧ r = .event g.given := by
  have hok := eventOk_of_reachable h
  refine ⟨fun t ht => ?_, hok.replays, fun t w o time r hp => ?_⟩
  · obtain ⟨w, o, time, hp, -, -, -, hr⟩ := hok.inv.waiting t ht
    exact ⟨w, o, time, hp, hr⟩
  · obtain ⟨g, hg, h1, h2, h3⟩ := hok.inv.returned t w o time r hp
    obtain ⟨h4, h5⟩ := hok.got t g hg
    exact ⟨g, hg, h5, h4, h1, h2, h3⟩

end

/-! ## Two receivers -/

attribute [local instance] config32

/-- The calls of three threads: the first waits for two events and the second for one of them, and
the third sends one. -/
def twoReceivers : List Action :=
  [.run 1 (.call (.eventRecv 0 3 (RT_EVENT_FLAG_AND ||| RT_EVENT_FLAG_CLEAR) (-1))), .schedule,
    .run 2 (.call (.eventRecv 0 3 (RT_EVENT_FLAG_OR ||| RT_EVENT_FLAG_CLEAR) (-1))), .schedule,
    .run 3 (.call (.eventSend 0 2)), .schedule, .run 2 (.resumed 0)]

/-- The second receiver gets the event, and the first waits on. -/
theorem event_receivers_two : ∃ s S, startSys (fun t => 10 + t % 4) [1, 2, 3]
      (fun _ => ⟨0, .fifo⟩) (fun _ => .fifo) = some s ∧
    runList (EventRun.exec 0) ⟨s, 0, [], fun _ => none⟩ twoReceivers = some S ∧
    S.sys.ipc.kernel.lists (.suspend (.event 0)) = [1] ∧ (S.got 2).map (·.given) = some 2 ∧
    (∀ t ∈ S.sys.ipc.kernel.lists (.suspend (.event 0)), ∃ wanted option timeout,
      S.sys.pc t = .wait (.eventRecv 0 wanted option timeout) ∧
        ¬ eventReady (S.sys.ipc.event 0).set wanted option) ∧
    Replays 0 S.log (S.sys.ipc.event 0).set := by
  obtain ⟨s, hs⟩ : ∃ s, startSys (fun t => 10 + t % 4) [1, 2, 3] (fun _ => ⟨0, .fifo⟩)
      (fun _ => .fifo) = some s := ⟨_, rfl⟩
  have hi : EventRun.Init 0 ⟨s, 0, [], fun _ => none⟩ := by
    refine ⟨startSys_init (fun t => by omega) (fun _ => by decide) hs, ?_, rfl, fun _ => rfl⟩
    obtain rfl := Option.some.inj hs
    rfl
  obtain ⟨S, hS, h1, h2, h3⟩ : ∃ S, runList (EventRun.exec 0) ⟨s, 0, [], fun _ => none⟩
      twoReceivers = some S ∧ S.sys.ipc.kernel.lists (.suspend (.event 0)) = [1] ∧
      (S.got 2).map (·.given) = some 2 ∧ S.initial = 0 := by
    obtain rfl := Option.some.inj hs
    exact ⟨_, rfl, rfl, rfl, rfl⟩
  obtain ⟨h4, h5, -⟩ := event_receivers (reachable_of_runList (.init hi) hS)
  rw [h3] at h5
  exact ⟨s, S, hs, hS, h1, h2, h4, h5⟩

end RTThread.Ipc
