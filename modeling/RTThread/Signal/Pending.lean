import RTThread.Signal.Model
import RTThread.Lib.Sll

set_option autoImplicit false

/-! # The pending signals of a thread (`signal.c`)

A signal that is pending has its bit in `sig_pending` and a node in `si_list`. The two are written by
`rt_thread_kill`, by `rt_thread_handle_sig` and by `rt_signal_wait`, each in its own way: a node is
appended behind the last, is taken from the front, or is unlinked from where it stands.

Here the nodes are blocks of `_rt_siginfo_pool`, with their links. A pointer is a number and `0` is
`RT_NULL`. A walk along the list takes its number of steps from the size of the pool, and an operation
whose walk does not end in that many is `none`. A handler is code of the application. It returns and
leaves the signals of the thread alone.
-/

namespace RTThread.Siginfo

/-- `siginfo_t` -/
structure SigInfo where
  siSigno : Nat
  siCode : Nat
  siValue : Nat
  deriving DecidableEq

/-- The signal fields of a thread and the pool that its nodes are from. -/
structure Tcb where
  /-- `si` of a node -/
  si : Nat → SigInfo
  /-- `list.next` of a node -/
  next : Nat → Nat
  /-- `tid->si_list` -/
  siList : Nat
  /-- the free blocks of `_rt_siginfo_pool`, the first one being the next to be allocated -/
  free : List Nat
  /-- `RT_SIG_INFO_MAX` -/
  infoMax : Nat
  sigMask : BitVec 32
  sigPending : BitVec 32
  /-- the words at `tid->sig_vectors`, `0` being `RT_NULL` -/
  sigVectors : Nat → Nat
  error : Err
  /-- the state is `RT_THREAD_SUSPEND` -/
  suspended : Bool
  /-- `thread_timer` is started -/
  timer : Bool
  /-- `RT_THREAD_STAT_SIGNAL` of `stat` -/
  signal : Bool
  /-- `RT_THREAD_STAT_SIGNAL_PENDING` of `stat` -/
  signalPending : Bool
  /-- `RT_THREAD_STAT_SIGNAL_WAIT` of `stat` -/
  signalWait : Bool
  /-- `sig_ret` is set: the stack pointer is at a frame of `_signal_entry` -/
  sigRet : Bool

/-- The return values of `rt_thread_kill` and `rt_signal_wait`. -/
inductive Ret
  | eok
  | einval
  | etimeout
  deriving DecidableEq

/-- `RT_SIG_MAX` -/
def RT_SIG_MAX : Nat := 32

/-- `SI_USER` -/
def SI_USER : Nat := 1

/-- `sig_valid(sig_no)` -/
def SigValid (sig : Int) : Prop := 0 ≤ sig ∧ sig < RT_SIG_MAX

instance sigValidDecidable (sig : Int) : Decidable (SigValid sig) := instDecidableAnd

theorem SigValid.toNat_lt {sig : Int} (h : SigValid sig) : sig.toNat < 32 := by
  have hlt : sig < 32 := h.2
  omega

/-- A signal that the loop of `rt_thread_handle_sig` takes off the list, with the handler it calls. No
handler is called when it is `0`. -/
structure Handled where
  signo : Nat
  handler : Nat
  deriving DecidableEq

namespace Tcb

/-- `tid->sig_pending & tid->sig_mask` is not zero. -/
def Wanted (x : Tcb) : Prop := x.sigPending &&& x.sigMask ≠ 0

instance wantedDecidable (x : Tcb) : Decidable x.Wanted := instDecidableNot

/-! ## `rt_thread_handle_sig` -/

/-- The signal of a node and its handler. -/
def handled (x : Tcb) (q : Nat) : Handled :=
  ⟨(x.si q).siSigno, x.sigVectors (x.si q).siSigno⟩

/-- One round of the loop, with the handler returned. -/
def handleFront (x : Tcb) : Tcb :=
  { x with
    siList := x.next x.siList
    sigPending := x.sigPending &&& ~~~sigBit (x.si x.siList).siSigno
    free := x.siList :: x.free
    error := .eintr }

/-- `while (tid->sig_pending & tid->sig_mask)` -/
def handleLoop : Nat → Tcb → Option (List Handled × Tcb)
  | 0, _ => none
  | n + 1, x =>
      if x.Wanted ∧ x.siList ≠ 0 then
        (handleLoop n x.handleFront).map fun r => (x.handled x.siList :: r.1, r.2)
      else some ([], x)

/-- `rt_thread_handle_sig` in the thread itself. With `clean_state` false it returns in the middle. -/
def rtThreadHandleSig (x : Tcb) (cleanState : Bool) : Option (List Handled × Tcb) :=
  if x.Wanted ∧ x.signalWait = false then
    (handleLoop (x.infoMax + 1) x).map fun r =>
      (r.1, if cleanState then { r.2 with signal := false } else r.2)
  else some ([], x)

/-! ## `rt_thread_kill` -/

/-- `_signal_deliver`, called by the thread itself or not, at that nesting of interrupts. -/
def signalDeliver (x : Tcb) (self : Bool) (nest : Nat) : Option (List Handled × Tcb) :=
  -- thread is not interested in pended signals
  if ¬ x.Wanted then some ([], x)
  else if x.suspended then
    -- resume thread to handle signal
    some ([], { x with suspended := false, timer := false, signal := true, signalPending := true })
  else if self then
    if nest = 0 then rtThreadHandleSig { x with signal := true } true
    else some ([], { x with signal := true })
  else if x.signal = false then
    -- point to the signal handle entry
    some ([], { x with signal := true, signalPending := false, sigRet := true })
  else some ([], x)

/-- The information that `rt_thread_kill` sends. -/
def userInfo (sig : Nat) : SigInfo := ⟨sig, SI_USER, 0⟩

/-- Is it the node of this signal? -/
def isSig (x : Tcb) (sig : Nat) (q : Nat) : Bool := (x.si q).siSigno == sig

/-- The node of a signal that is emitted already, or `0`. -/
def findSig (x : Tcb) (sig : Nat) : Option Nat :=
  if x.sigPending &&& sigBit sig ≠ 0 then Sll.search x.next (x.isSig sig) (x.infoMax + 1) x.siList
  else some 0

/-- The node that `rt_slist_append` stops at. -/
def lastNode (x : Tcb) : Option Nat :=
  Sll.search x.next (fun q => x.next q == 0) (x.infoMax + 1) x.siList

/-- The first free block becomes a node, linked behind the node `e`, or as the first one when the list
is empty. -/
def append (x : Tcb) (sig : Nat) (e q : Nat) (free : List Nat) : Tcb :=
  { x with
    si := Function.update x.si q (userInfo sig)
    next := if e = 0 then Function.update x.next q 0
      else Function.update (Function.update x.next q 0) e q
    siList := if e = 0 then q else x.siList
    free := free
    sigPending := x.sigPending ||| sigBit sig }

/-- A new signal. The thread's signals stay as they are when the allocation fails, which leaves
`-RT_ETIMEOUT` in the error field of the thread that calls. -/
def newSig (x : Tcb) (sig : Nat) (self : Bool) (nest : Nat) : Option Tcb :=
  match x.free with
  | [] => some { x with error := if self ∧ nest = 0 then .etimeout else x.error }
  | q :: free => x.lastNode.map fun e => x.append sig e q free

/-- `rt_thread_kill` -/
def rtThreadKill (x : Tcb) (sig : Int) (self : Bool) (nest : Nat) :
    Option (Ret × List Handled × Tcb) :=
  if ¬ SigValid sig then some (.einval, [], x)
  else
    (x.findSig sig.toNat).bind fun e =>
      if e ≠ 0 then
        some (.eok, [], { x with si := Function.update x.si e (userInfo sig.toNat) })
      else
        (x.newSig sig.toNat self nest).bind fun y =>
          (y.signalDeliver self nest).map fun r => (.eok, r.1, r.2)

end Tcb

/-! ## Bits and nodes -/

@[simp] theorem sigBit_getLsbD (k i : Nat) :
    (sigBit k).getLsbD i = (decide (k < 32) && decide (k = i)) :=
  BitVec.getLsbD_twoPow k i

/-- Two sets of signals that meet. -/
theorem and_ne_zero_iff {a b : BitVec 32} :
    a &&& b ≠ 0 ↔ ∃ k, a.getLsbD k = true ∧ b.getLsbD k = true := by
  constructor
  · intro h
    by_contra hno
    apply h
    apply BitVec.eq_of_getLsbD_eq
    intro k _
    rw [BitVec.getLsbD_and, Bool.and_eq_false_imp.mpr fun ha => ?_]
    · simp
    · by_contra hb
      exact hno ⟨k, ha, by simpa using hb⟩
  · rintro ⟨k, ha, hb⟩ h0
    have hk : (a &&& b).getLsbD k = true := by rw [BitVec.getLsbD_and, ha, hb, Bool.and_self]
    rw [h0] at hk
    simp at hk

/-- The bit of one signal. -/
theorem and_sigBit_ne_zero_iff {a : BitVec 32} {k : Nat} (hk : k < 32) :
    a &&& sigBit k ≠ 0 ↔ a.getLsbD k = true := by
  rw [and_ne_zero_iff]
  constructor
  · rintro ⟨i, ha, hb⟩
    have hki : k = i := by simpa [hk] using hb
    exact hki ▸ ha
  · intro ha
    exact ⟨k, ha, by simp [hk]⟩

/-- The bit of a signal is cleared. -/
theorem clear_getLsbD (p : BitVec 32) {k : Nat} (hk : k < 32) (i : Nat) :
    (p &&& ~~~sigBit k).getLsbD i = (p.getLsbD i && !decide (k = i)) := by
  rw [BitVec.getLsbD_and, BitVec.getLsbD_not, sigBit_getLsbD]
  by_cases hi : i < 32
  · simp [hi, hk]
  · rw [BitVec.getLsbD_of_ge p i (Nat.not_lt.mp hi)]
    rfl

/-- The bit of a signal is set. -/
theorem set_getLsbD (p : BitVec 32) {k : Nat} (hk : k < 32) (i : Nat) :
    (p ||| sigBit k).getLsbD i = (p.getLsbD i || decide (k = i)) := by
  rw [BitVec.getLsbD_or, sigBit_getLsbD, decide_eq_true hk, Bool.true_and]

namespace Tcb

variable {x y : Tcb} {l l₁ l₂ : List Nat} {q k : Nat}

@[simp] theorem isSig_iff : x.isSig k q = true ↔ (x.si q).siSigno = k := beq_iff_eq

/-- A bit of `sig_pending` that is set stands for one node of the list, a bit that is clear for no
node. -/
def Agree (x : Tcb) (l : List Nat) : Prop :=
  ∀ k, l.countP (x.isSig k) = if x.sigPending.getLsbD k then 1 else 0

/-- The pending list of the thread is `l`. -/
structure Inv (x : Tcb) (l : List Nat) : Prop where
  linked : Sll.Linked x.next x.siList l
  nodup : (l ++ x.free).Nodup
  free : 0 ∉ x.free
  size : l.length + x.free.length ≤ x.infoMax
  agree : x.Agree l

/-- A running thread with handlers and no pending signal. -/
def idle (free : List Nat) (mask : BitVec 32) : Tcb where
  si := fun _ => ⟨0, 0, 0⟩
  next := fun _ => 0
  siList := 0
  free := free
  infoMax := 32
  sigMask := mask
  sigPending := 0
  sigVectors := fun _ => 1
  error := .ok
  suspended := false
  timer := false
  signal := false
  signalPending := false
  signalWait := false
  sigRet := false

theorem idle_inv {free : List Nat} (hnd : free.Nodup) (h0 : 0 ∉ free) (hle : free.length ≤ 32)
    (mask : BitVec 32) : (idle free mask).Inv [] := by
  refine ⟨Sll.Linked.of_nil, hnd, h0, ?_, fun k => ?_⟩
  · show 0 + free.length ≤ 32
    omega
  · show 0 = if (0 : BitVec 32).getLsbD k then 1 else 0
    simp

theorem Agree.pending_iff (h : x.Agree l) :
    x.sigPending.getLsbD k = true ↔ ∃ q ∈ l, (x.si q).siSigno = k := by
  have hc : 0 < l.countP (x.isSig k) ↔ ∃ q ∈ l, (x.si q).siSigno = k := by
    simp [List.countP_pos_iff]
  rw [← hc, h k]
  split_ifs with hp <;> simp [hp]

/-- The signal of a node is pending. -/
theorem Agree.pending (h : x.Agree l) (hq : q ∈ l) :
    x.sigPending.getLsbD (x.si q).siSigno = true := h.pending_iff.mpr ⟨q, hq, rfl⟩

theorem Agree.lt (h : x.Agree l) (hq : q ∈ l) : (x.si q).siSigno < 32 := by
  by_contra hge
  have hp := h.pending hq
  rw [BitVec.getLsbD_of_ge _ _ (Nat.not_lt.mp hge)] at hp
  cases hp

/-- Two nodes of one signal are the same. -/
theorem Agree.signo_ne (h : x.Agree (l₁ ++ q :: l₂)) {r : Nat} (hr : r ∈ l₁ ++ l₂) :
    (x.si r).siSigno ≠ (x.si q).siSigno := by
  intro he
  have hc := h (x.si q).siSigno
  have h₁ : 0 < (l₁ ++ l₂).countP (x.isSig (x.si q).siSigno) :=
    List.countP_pos_iff.mpr ⟨r, hr, isSig_iff.mpr he⟩
  have hle : (if x.sigPending.getLsbD (x.si q).siSigno then 1 else 0) ≤ 1 := by split_ifs <;> simp
  rw [List.countP_append, List.countP_cons_of_pos (isSig_iff.mpr rfl)] at hc
  rw [List.countP_append] at h₁
  omega

/-- A set meets the pending signals when the list has a node of the set. -/
theorem Agree.and_ne_zero_iff (h : x.Agree l) {set : BitVec 32} :
    x.sigPending &&& set ≠ 0 ↔ ∃ q ∈ l, set.getLsbD (x.si q).siSigno = true := by
  rw [Siginfo.and_ne_zero_iff]
  constructor
  · rintro ⟨k, hp, hm⟩
    obtain ⟨q, hq, rfl⟩ := h.pending_iff.mp hp
    exact ⟨q, hq, hm⟩
  · rintro ⟨q, hq, hm⟩
    exact ⟨_, h.pending hq, hm⟩

/-- The thread is interested when a node of the list is unmasked. -/
theorem Inv.wanted_iff (h : x.Inv l) :
    x.Wanted ↔ ∃ q ∈ l, x.sigMask.getLsbD (x.si q).siSigno = true := h.agree.and_ne_zero_iff

theorem Inv.length_lt (h : x.Inv l) : l.length < x.infoMax + 1 := by
  have hs := h.size
  omega

/-- What the relation reads. -/
theorem Inv.congr (h : x.Inv l) (hsi : y.si = x.si) (hnext : y.next = x.next)
    (hlist : y.siList = x.siList) (hfree : y.free = x.free) (hmax : y.infoMax = x.infoMax)
    (hp : y.sigPending = x.sigPending) : y.Inv l := by
  refine ⟨?_, ?_, ?_, ?_, fun k => ?_⟩
  · rw [hnext, hlist]
    exact h.linked
  · rw [hfree]
    exact h.nodup
  · rw [hfree]
    exact h.free
  · rw [hfree, hmax]
    exact h.size
  · have he : y.isSig k = x.isSig k := by
      funext q
      unfold isSig
      rw [hsi]
    rw [he, hp]
    exact h.agree k

/-- **A node leaves the list** with its bit, and its block goes back to the pool. -/
theorem Inv.remove (h : x.Inv (l₁ ++ q :: l₂)) (hsi : y.si = x.si)
    (hlink : Sll.Linked y.next y.siList (l₁ ++ l₂)) (hfree : y.free = q :: x.free)
    (hmax : y.infoMax = x.infoMax)
    (hp : y.sigPending = x.sigPending &&& ~~~sigBit (x.si q).siSigno) : y.Inv (l₁ ++ l₂) := by
  have hq0 : q ≠ 0 := h.linked.ne_zero (by simp)
  refine ⟨hlink, ?_, ?_, ?_, fun k => ?_⟩
  · rw [hfree]
    have hperm : ((l₁ ++ q :: l₂) ++ x.free).Perm ((l₁ ++ l₂) ++ q :: x.free) := by
      rw [List.append_assoc l₁ (q :: l₂), List.cons_append]
      refine List.perm_middle.trans (.trans ?_ List.perm_middle.symm)
      rw [List.append_assoc]
    exact hperm.nodup_iff.mp h.nodup
  · rw [hfree]
    intro hm
    rcases List.mem_cons.mp hm with h0 | h0
    · exact hq0 h0.symm
    · exact h.free h0
  · have hs := h.size
    rw [hfree, hmax]
    simp only [List.length_append, List.length_cons] at hs ⊢
    omega
  · have he : y.isSig k = x.isSig k := by
      funext r
      unfold isSig
      rw [hsi]
    have hc := h.agree k
    have hlt : (x.si q).siSigno < 32 := h.agree.lt (by simp)
    have hpend := h.agree.pending (q := q) (by simp)
    rw [List.countP_append, List.countP_cons] at hc
    rw [he, hp, List.countP_append, clear_getLsbD _ hlt]
    by_cases hk : (x.si q).siSigno = k
    · rw [if_pos (isSig_iff.mpr hk), ← hk, hpend, if_pos rfl] at hc
      simp only [hk, decide_true, Bool.not_true, Bool.and_false, Bool.false_eq_true, if_false]
      rw [hk] at hc
      omega
    · rw [if_neg (mt isSig_iff.mp hk)] at hc
      simpa [hk] using hc

/-! ## `rt_thread_handle_sig` keeps the relation -/

theorem Inv.handleFront (h : x.Inv (q :: l)) : x.handleFront.Inv l := by
  obtain rfl : x.siList = q := h.linked.ptr_cons
  have h' : x.Inv ([] ++ x.siList :: l) := h
  exact h'.remove rfl (Sll.Linked.behind (l := []) h.linked) rfl rfl rfl

/-- What the loop has done: the nodes `l₁` are handled and the nodes `l₂` are left. -/
structure Ran (x : Tcb) (l₁ l₂ : List Nat) (y : Tcb) : Prop where
  inv : y.Inv l₂
  frame : y = { x with
    siList := y.siList, sigPending := y.sigPending, free := y.free, error := y.error }
  /-- nothing that is left is unmasked -/
  masked : ∀ q ∈ l₂, x.sigMask.getLsbD (x.si q).siSigno = false
  /-- the last one that was handled was unmasked, since the loop had not stopped before it -/
  last : ∀ q ∈ l₁.getLast?, x.sigMask.getLsbD (x.si q).siSigno = true

theorem Inv.ran_nil (h : x.Inv l) (hw : ¬ x.Wanted) : x.Ran [] l x := by
  refine ⟨h, rfl, fun q hq => ?_, fun q hq => ?_⟩
  · by_contra hm
    exact hw (h.wanted_iff.mpr ⟨q, hq, by simpa using hm⟩)
  · cases hq

/-- **The loop ends**, with the nodes from the front up to the last one that is unmasked. -/
theorem Inv.handleLoop {n : Nat} (h : x.Inv l) (hn : l.length < n) :
    ∃ l₁ l₂ y, l = l₁ ++ l₂ ∧ x.handleLoop n = some (l₁.map x.handled, y) ∧ x.Ran l₁ l₂ y := by
  induction l generalizing x n with
  | nil =>
      obtain ⟨n, rfl⟩ : ∃ m, n = m + 1 := ⟨n - 1, by omega⟩
      have hw : ¬ x.Wanted := fun hw => by simpa using h.wanted_iff.mp hw
      refine ⟨[], [], x, rfl, ?_, h.ran_nil hw⟩
      rw [Tcb.handleLoop, if_neg fun hc => hw hc.1]
      rfl
  | cons q l ih =>
      obtain ⟨n, rfl⟩ : ∃ m, n = m + 1 := ⟨n - 1, by omega⟩
      by_cases hw : x.Wanted
      · have hq : x.siList = q := h.linked.ptr_cons
        have hne : x.siList ≠ 0 := h.linked.head_ne (List.cons_ne_nil _ _)
        obtain ⟨l₁, l₂, y, rfl, hy, ran⟩ := ih h.handleFront (Nat.lt_of_succ_lt_succ hn)
        refine ⟨q :: l₁, l₂, y, rfl, ?_, ran.inv, ?_, ran.masked, ?_⟩
        · rw [Tcb.handleLoop, if_pos ⟨hw, hne⟩, hy, hq]
          rfl
        · rw [ran.frame]
          rfl
        · intro r hr
          cases l₁ with
          | nil =>
              -- the loop stops after this node, so it was the last that is wanted
              obtain ⟨r', hr', hm⟩ := h.wanted_iff.mp hw
              have hqr : q = r := by simpa using hr
              rcases List.mem_cons.mp hr' with rfl | hr'
              · exact hqr ▸ hm
              · have hmasked : x.sigMask.getLsbD (x.si r').siSigno = false := ran.masked r' hr'
                rw [hmasked] at hm
                cases hm
          | cons a l₁ =>
              rw [List.getLast?_cons_cons] at hr
              exact ran.last r hr
      · refine ⟨[], q :: l, x, rfl, ?_, h.ran_nil hw⟩
        rw [Tcb.handleLoop, if_neg fun hc => hw hc.1]
        rfl

/-- `rt_thread_handle_sig` by a thread that is not waiting for a signal. -/
theorem Inv.rtThreadHandleSig (h : x.Inv l) (hwait : x.Wanted → x.signalWait = false)
    (clean : Bool) : ∃ l₁ l₂ y sig, l = l₁ ++ l₂ ∧
      x.rtThreadHandleSig clean = some (l₁.map x.handled, { y with signal := sig }) ∧
      x.Ran l₁ l₂ y := by
  unfold Tcb.rtThreadHandleSig
  by_cases hw : x.Wanted
  · obtain ⟨l₁, l₂, y, rfl, hy, ran⟩ := h.handleLoop h.length_lt
    refine ⟨l₁, l₂, y, if clean then false else y.signal, rfl, ?_, ran⟩
    rw [if_pos ⟨hw, hwait hw⟩, hy]
    cases clean <;> rfl
  · refine ⟨[], l, x, x.signal, rfl, ?_, h.ran_nil hw⟩
    rw [if_neg fun hc => hw hc.1]
    rfl

/-- A thread that is waiting for a signal handles none. -/
theorem rtThreadHandleSig_wait (hwait : x.signalWait = true) (clean : Bool) :
    x.rtThreadHandleSig clean = some ([], x) := by
  unfold rtThreadHandleSig
  rw [if_neg fun hc => by simp [hwait] at hc]

/-- **`rt_thread_handle_sig` returns and keeps the relation.** -/
theorem Inv.handleSig (h : x.Inv l) (clean : Bool) :
    ∃ tr y l', x.rtThreadHandleSig clean = some (tr, y) ∧ y.Inv l' := by
  by_cases hwait : x.signalWait = true
  · exact ⟨[], x, l, rtThreadHandleSig_wait hwait clean, h⟩
  · obtain ⟨l₁, l₂, y, sig, -, hy, ran⟩ :=
      h.rtThreadHandleSig (fun _ => by simpa using hwait) clean
    exact ⟨_, _, l₂, hy, ran.inv.congr rfl rfl rfl rfl rfl rfl⟩

/-! ## `rt_thread_kill` keeps the relation -/

/-- The search for a signal finds its node when the signal is pending. -/
theorem Inv.findSig (h : x.Inv l) (hk : k < 32) :
    (x.sigPending.getLsbD k = false ∧ x.findSig k = some 0) ∨
      ∃ e ∈ l, (x.si e).siSigno = k ∧ x.findSig k = some e := by
  unfold Tcb.findSig
  by_cases hp : x.sigPending.getLsbD k = true
  · rw [if_pos ((and_sigBit_ne_zero_iff hk).mpr hp)]
    rcases Sll.search_cases (p := x.isSig k) h.linked h.length_lt with
      ⟨-, hno⟩ | ⟨l₁, e, l₂, rfl, he, hs⟩
    · obtain ⟨q, hq, hqk⟩ := h.agree.pending_iff.mp hp
      have hf : x.isSig k q = false := hno q hq
      rw [isSig_iff.mpr hqk] at hf
      cases hf
    · exact .inr ⟨e, by simp, isSig_iff.mp he, hs⟩
  · rw [if_neg fun hc => hp ((and_sigBit_ne_zero_iff hk).mp hc)]
    exact .inl ⟨by simpa using hp, rfl⟩

/-- The node of a signal that is sent again still has this signal. -/
theorem resend_signo {e : Nat} (he : (x.si e).siSigno = k) (q : Nat) :
    (Function.update x.si e (userInfo k) q).siSigno = (x.si q).siSigno := by
  by_cases hq : q = e
  · rw [hq, Function.update_self, he]
    rfl
  · rw [Function.update_of_ne hq]

/-- A signal that is sent again has its information written once more. -/
theorem Inv.resend (h : x.Inv l) {e : Nat} (hk : (x.si e).siSigno = k) :
    Inv { x with si := Function.update x.si e (userInfo k) } l := by
  refine ⟨h.linked, h.nodup, h.free, h.size, fun i => ?_⟩
  have hf : isSig { x with si := Function.update x.si e (userInfo k) } i = x.isSig i := by
    funext q
    unfold isSig
    rw [resend_signo hk q]
  rw [hf]
  exact h.agree i

/-- The walk of `rt_slist_append` stops at the last node. -/
theorem Inv.lastNode (h : x.Inv l) : x.lastNode = some (l.getLast?.getD 0) := by
  unfold Tcb.lastNode
  rcases List.eq_nil_or_concat l with rfl | ⟨l', e, rfl⟩
  · rw [h.linked.ptr_nil]
    rfl
  · rw [List.concat_eq_append, List.getLast?_concat]
    rw [List.concat_eq_append] at h
    apply Sll.search_eq (r := []) h.linked
    · intro q hq
      have hne : x.next q ≠ 0 := h.linked.ne_zero (Sll.Linked.next_mem (r := []) h.linked hq)
      simpa using hne
    · have hnull : x.next e = 0 := (Sll.Linked.behind (r := []) h.linked).ptr_nil
      simpa using hnull
    · have hlt := h.length_lt
      rw [List.length_append] at hlt
      omega

/-- **A node is appended** for a signal that was not pending. -/
theorem Inv.append (h : x.Inv l) (hk : k < 32) (hp : x.sigPending.getLsbD k = false)
    {free : List Nat} (hfree : x.free = q :: free) :
    (x.append k (l.getLast?.getD 0) q free).Inv (l ++ [q]) := by
  have hnd := h.nodup
  have h0 := h.free
  have hsize := h.size
  rw [hfree] at hnd h0 hsize
  have hq0 : q ≠ 0 := fun hq => h0 (hq ▸ List.mem_cons_self)
  have hql : q ∉ l := fun hq => (List.disjoint_of_nodup_append hnd) hq List.mem_cons_self
  have hl : Sll.Linked (Function.update x.next q 0) x.siList l := h.linked.update hql
  refine ⟨?_, ?_, fun hm => h0 (List.mem_cons_of_mem _ hm), ?_, fun i => ?_⟩
  · unfold Tcb.append
    rcases List.eq_nil_or_concat l with rfl | ⟨l', e, rfl⟩
    · refine Sll.Linked.cons ?_ hq0
      show Sll.Linked _ (Function.update x.next q 0 q) []
      rw [Function.update_self]
      exact Sll.Linked.of_nil
    · rw [List.concat_eq_append] at hl hql hnd ⊢
      have he0 : e ≠ 0 := hl.ne_zero (by simp)
      simp only [List.getLast?_concat, Option.getD_some, if_neg he0]
      exact hl.append (List.Nodup.of_append_left hnd) hql hq0 (Function.update_self ..)
  · rw [List.append_assoc]
    exact hnd
  · simp only [List.length_append, List.length_cons, List.length_nil] at hsize ⊢
    show l.length + (0 + 1) + free.length ≤ x.infoMax
    omega
  · have hold : l.countP ((x.append k (l.getLast?.getD 0) q free).isSig i) =
        l.countP (x.isSig i) := by
      apply List.countP_congr
      intro r hr
      have hrq : r ≠ q := fun he => hql (he ▸ hr)
      simp only [isSig, Tcb.append, Function.update_of_ne hrq]
    have hnew : (x.append k (l.getLast?.getD 0) q free).isSig i q = (k == i) := by
      simp only [isSig, Tcb.append, Function.update_self, userInfo]
    have hset : (x.append k (l.getLast?.getD 0) q free).sigPending.getLsbD i =
        (x.sigPending.getLsbD i || decide (k = i)) := set_getLsbD _ hk i
    rw [List.countP_append, hold, h.agree i, List.countP_singleton, hnew, hset]
    by_cases hki : k = i
    · subst hki
      simp [hp]
    · simp [hki]

/-- What a new signal changes: it is pending, if the pool had a block for it. -/
theorem Inv.newSig (h : x.Inv l) (hk : k < 32) (hp : x.sigPending.getLsbD k = false)
    (self : Bool) (nest : Nat) :
    ∃ y l', x.newSig k self nest = some y ∧ y.Inv l' ∧
      y = { x with
        si := y.si, next := y.next, siList := y.siList, free := y.free, error := y.error
        sigPending := y.sigPending } ∧
      (x.free ≠ [] → y.error = x.error) := by
  unfold Tcb.newSig
  cases hf : x.free with
  | nil =>
      refine ⟨_, l, rfl, h.congr rfl rfl rfl hf.symm rfl rfl, rfl, fun hne => absurd rfl hne⟩
  | cons q free =>
      refine ⟨_, l ++ [q], ?_, h.append hk hp hf, rfl, fun _ => rfl⟩
      simp only [h.lastNode, Option.map_some]

/-- `_signal_deliver` keeps the relation. -/
theorem Inv.signalDeliver (h : x.Inv l) (self : Bool) (nest : Nat) :
    ∃ tr y l', x.signalDeliver self nest = some (tr, y) ∧ y.Inv l' := by
  unfold Tcb.signalDeliver
  split_ifs
  · exact ⟨_, _, l, rfl, h.congr rfl rfl rfl rfl rfl rfl⟩
  · exact Inv.handleSig (x := { x with signal := true }) (h.congr rfl rfl rfl rfl rfl rfl) true
  · exact ⟨_, _, l, rfl, h.congr rfl rfl rfl rfl rfl rfl⟩
  · exact ⟨_, _, l, rfl, h.congr rfl rfl rfl rfl rfl rfl⟩
  · exact ⟨_, _, l, rfl, h⟩
  · exact ⟨_, _, l, rfl, h⟩

/-- What `rt_thread_kill` does: it refuses the number, or writes the information of a signal that is
pending, or makes the signal pending and delivers it. -/
theorem Inv.kill_cases (h : x.Inv l) (sig : Int) (self : Bool) (nest : Nat) :
    (¬ SigValid sig ∧ x.rtThreadKill sig self nest = some (.einval, [], x)) ∨
      (∃ e, (x.si e).siSigno = sig.toNat ∧ x.rtThreadKill sig self nest =
        some (.eok, [], { x with si := Function.update x.si e (userInfo sig.toNat) })) ∨
      (SigValid sig ∧ x.sigPending.getLsbD sig.toNat = false ∧
        ∃ y, x.newSig sig.toNat self nest = some y ∧ x.rtThreadKill sig self nest =
          (y.signalDeliver self nest).map fun r => (.eok, r.1, r.2)) := by
  unfold Tcb.rtThreadKill
  by_cases hv : SigValid sig
  · have hk : sig.toNat < 32 := hv.toNat_lt
    rw [if_neg (not_not_intro hv)]
    rcases h.findSig hk with ⟨hp, hf⟩ | ⟨e, he, hek, hf⟩
    · obtain ⟨y, -, hy, -⟩ := h.newSig hk hp self nest
      refine .inr (.inr ⟨hv, hp, y, hy, ?_⟩)
      rw [hf, Option.bind_some, if_neg (not_not_intro rfl), hy, Option.bind_some]
    · have he0 : e ≠ 0 := h.linked.ne_zero he
      refine .inr (.inl ⟨e, hek, ?_⟩)
      rw [hf, Option.bind_some, if_pos he0]
  · exact .inl ⟨hv, if_pos hv⟩

/-- **`rt_thread_kill` returns and keeps the relation.** -/
theorem Inv.kill (h : x.Inv l) (sig : Int) (self : Bool) (nest : Nat) :
    ∃ ret tr y l', x.rtThreadKill sig self nest = some (ret, tr, y) ∧ y.Inv l' := by
  rcases h.kill_cases sig self nest with ⟨-, hk⟩ | ⟨e, he, hk⟩ | ⟨hv, hp, y, hy, hk⟩
  · exact ⟨_, _, _, l, hk, h⟩
  · exact ⟨_, _, _, l, hk, h.resend he⟩
  · obtain ⟨y', l', hy', hi, -⟩ := h.newSig hv.toNat_lt hp self nest
    obtain rfl : y' = y := Option.some.inj (hy'.symm.trans hy)
    obtain ⟨tr, z, l'', hz, hi'⟩ := hi.signalDeliver self nest
    refine ⟨.eok, tr, z, l'', ?_, hi'⟩
    rw [hk, hz]
    rfl

end Tcb

end RTThread.Siginfo
