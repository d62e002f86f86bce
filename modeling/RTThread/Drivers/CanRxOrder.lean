import RTThread.Drivers.CanRxLists

set_option autoImplicit false

/-! # Messages are read in the order in which they arrived

`Mailbox` is what is meant: the messages that have arrived and are not read, each with the bank it is for. A read
takes the oldest one of its bank, or the oldest one; when no node is free, the oldest one is dropped.
-/

namespace RTThread.Can

open scoped List

/-! ## The messages -/

structure Mailbox where
  free : Nat
  unread : List (Option Nat × RtCanMsg)
  connected : Nat → Bool
  /-- what a read has taken and not copied yet -/
  hand : ThreadId → Option RtCanMsg

namespace Mailbox

def new (msgboxsz : Nat) : Mailbox := ⟨msgboxsz, [], fun _ => false, fun _ => none⟩

/-- Is the message for this bank? A read without a bank takes any. -/
def wanted (bank : Option Nat) (x : Option Nat × RtCanMsg) : Bool := bank.elim true fun h => x.1 = some h

def step (m : Mailbox) : RxEvent → Option Mailbox
  | .accept => if 0 < m.free then some { m with free := m.free - 1 } else none
  | .drop => if m.free = 0 ∧ m.unread ≠ [] then some { m with unread := m.unread.tail } else none
  | .lost => if m.free = 0 ∧ m.unread = [] then some m else none
  | .arrive msg =>
      let bank := if m.connected msg.hdr.toNat then some msg.hdr.toNat else none
      some { m with unread := m.unread ++ [(bank, msg)] }
  | .take t bank => (m.unread.find? (wanted bank)).map fun x =>
      { m with unread := m.unread.eraseP (wanted bank), hand := Function.update m.hand t (some x.2) }
  | .fetch t msg =>
      if m.hand t = some msg then some { m with hand := Function.update m.hand t none } else none
  | .give => some { m with free := m.free + 1 }
  | .connect h => some { m with connected := Function.update m.connected h true }
  | .disconnect h => some { m with connected := Function.update m.connected h false }

end Mailbox

/-- The node that a thread or an interrupt handler has. -/
def RxPc.node : RxPc → Option Nat
  | .taken n => some n
  | .copied n => some n
  | .accepted n _ => some n
  | .filled n _ => some n
  | _ => none

/-- The message of the node that a read has taken. -/
def RxPc.hand (data : Nat → RtCanMsg) : RxPc → Option RtCanMsg
  | .taken n => some (data n)
  | _ => none

/-- The messages of the used nodes. -/
def unread (s : RxFifo) (use : List Nat) : List (Option Nat × RtCanMsg) := use.map fun n => (s.owner n, s.data n)

section Unread

variable {s s' : RxFifo} {use u₁ u₂ : List Nat} {n : Nat} {o : Option Nat}

theorem unread_append (s : RxFifo) (u₁ u₂ : List Nat) : unread s (u₁ ++ u₂) = unread s u₁ ++ unread s u₂ :=
  List.map_append

theorem unread_congr (ho : ∀ n ∈ use, s'.owner n = s.owner n) (hd : ∀ n ∈ use, s'.data n = s.data n) :
    unread s' use = unread s use := by
  apply List.map_congr_left
  intro n hn
  rw [ho n hn, hd n hn]

/-- The message that a read takes, and the others. -/
theorem find_unread {bank : Option Nat} (hn : Mailbox.wanted bank (s.owner n, s.data n) = true)
    (hu : ∀ m ∈ u₁, Mailbox.wanted bank (s.owner m, s.data m) = false) :
    (unread s (u₁ ++ n :: u₂)).find? (Mailbox.wanted bank) = some (s.owner n, s.data n) ∧
      (unread s (u₁ ++ n :: u₂)).eraseP (Mailbox.wanted bank) = unread s (u₁ ++ u₂) := by
  have hnone : ∀ x ∈ unread s u₁, ¬ Mailbox.wanted bank x = true := by
    intro x hx
    obtain ⟨m, hm, rfl⟩ := List.mem_map.mp hx
    rw [hu m hm]
    exact Bool.false_ne_true
  have hcons : unread s (n :: u₂) = (s.owner n, s.data n) :: unread s u₂ := rfl
  rw [unread_append, unread_append, hcons]
  constructor
  · rw [List.find?_append, List.find?_eq_none.mpr hnone, Option.none_or, List.find?_cons_of_pos hn]
  · rw [List.eraseP_append_right _ hnone, List.eraseP_cons_of_pos hn]

end Unread

/-! ## The invariant -/

/-- No bank is connected, or disconnected, whose list is not empty. -/
def RxPc.Quiet (fifo : RxFifo) : RxPc → Prop
  | .filter false (hdr :: _) => 0 ≤ hdr ∧ hdr < fifo.maxhdr ∧ fifo.connected hdr.toNat = true →
      fifo.links.next (.bank hdr.toNat) = .bank hdr.toNat
  | .connect h _ => fifo.links.next (.bank h) = .bank h
  | _ => True

instance RxPc.decidableQuiet (fifo : RxFifo) : (p : RxPc) → Decidable (p.Quiet fifo)
  | .idle => .isTrue trivial
  | .taken _ => .isTrue trivial
  | .copied _ => .isTrue trivial
  | .accepted _ _ => .isTrue trivial
  | .filled _ _ => .isTrue trivial
  | .filter true _ => .isTrue trivial
  | .filter false [] => .isTrue trivial
  | .filter false (hdr :: _) =>
      inferInstanceAs (Decidable (0 ≤ hdr ∧ hdr < fifo.maxhdr ∧ fifo.connected hdr.toNat = true →
        fifo.links.next (.bank hdr.toNat) = .bank hdr.toNat))
  | .connect h _ => inferInstanceAs (Decidable (fifo.links.next (.bank h) = .bank h))

/-- The condition on a step. -/
def RxSys.Allowed (s : RxSys) : RxAction → Prop
  | .item t => (s.pc t).Quiet s.fifo
  | .connect t => (s.pc t).Quiet s.fifo
  | _ => True

instance RxSys.decidableAllowed (s : RxSys) : (a : RxAction) → Decidable (s.Allowed a)
  | .item t => RxPc.decidableQuiet s.fifo (s.pc t)
  | .connect t => RxPc.decidableQuiet s.fifo (s.pc t)
  | .read _ _ => .isTrue trivial
  | .copy _ => .isTrue trivial
  | .give _ => .isTrue trivial
  | .rxInd _ _ => .isTrue trivial
  | .fill _ => .isTrue trivial
  | .put _ => .isTrue trivial
  | .setFilter _ _ _ => .isTrue trivial

structure RxSys.Inv (s : RxSys) (free use : List Nat) (m : Mailbox) : Prop where
  lists : Lists s.fifo free use
  nodes : ∃ transit, Carries (fun t => (s.pc t).node) transit ∧
    (free ++ (use ++ transit)).Perm (List.range s.fifo.msgboxsz)
  filled : ∀ t n msg, s.pc t = .filled n msg → s.fifo.data n = msg
  free : m.free = free.length
  unread : m.unread = unread s.fifo use
  connected : m.connected = s.fifo.connected
  hand : ∀ t, m.hand t = (s.pc t).hand s.fifo.data
  log : Trans.runList Mailbox.step (.new s.fifo.msgboxsz) s.log = some m

namespace RxSys

variable {s s' : RxSys} {free use u₁ u₂ : List Nat} {m m' : Mailbox} {t u : ThreadId} {n : Nat} {p : RxPc}
  {fifo : RxFifo} {ev : RxEvent}

@[simp] theorem setPc_pc_self (s : RxSys) (t : ThreadId) (p : RxPc) : (s.setPc t p).pc t = p :=
  Function.update_self _ _ _

theorem hand_of_node {p : RxPc} (hp : p.node = none) (data : Nat → RtCanMsg) : p.hand data = none := by
  cases p with
  | taken n => cases hp
  | _ => rfl

/-- What the threads have in hand, after a thread has moved. -/
theorem hand_update {pc : ThreadId → RxPc} {hand : ThreadId → Option RtCanMsg} {data : Nat → RtCanMsg}
    (h : ∀ u, hand u = (pc u).hand data) (t u : ThreadId) (p : RxPc) :
    Function.update hand t (p.hand data) u = (Function.update pc t p u).hand data := by
  by_cases hut : u = t
  · subst hut
    rw [Function.update_self, Function.update_self]
  · rw [Function.update_of_ne hut, Function.update_of_ne hut]
    exact h u

theorem node_update {pc : ThreadId → RxPc} (hu : u ≠ t) :
    (Function.update pc t p u).node = (pc u).node := by rw [Function.update_of_ne hu]

theorem filled_update {pc : ThreadId → RxPc} {msg : RtCanMsg} (hp : ∀ n msg, p ≠ .filled n msg)
    (hu : Function.update pc t p u = .filled n msg) : pc u = .filled n msg := by
  by_cases hut : u = t
  · subst hut
    rw [Function.update_self] at hu
    exact absurd hu (hp n msg)
  · rwa [Function.update_of_ne hut] at hu

namespace Inv

/-- The nodes in transit are none of the lists. -/
theorem transit_notMem (h : s.Inv free use m) (hn : (s.pc t).node = some n) : n ∉ free ∧ n ∉ use := by
  obtain ⟨transit, hc, hperm⟩ := h.nodes
  have hnd := hperm.nodup_iff.mpr List.nodup_range
  have hmem : n ∈ transit := hc.mem_iff.mpr ⟨t, hn⟩
  have hdisj := List.nodup_append.mp hnd
  have hdisj' := List.nodup_append.mp hdisj.2.1
  exact ⟨fun hm => hdisj.2.2 n hm n (List.mem_append_right _ hmem) rfl, fun hm => hdisj'.2.2 n hm n hmem rfl⟩

/-- A node is with one thread. -/
theorem transit_unique (h : s.Inv free use m) (ht : (s.pc t).node = some n) (hu : (s.pc u).node = some n) :
    t = u := by
  obtain ⟨transit, hc, hperm⟩ := h.nodes
  have hnd := hperm.nodup_iff.mpr List.nodup_range
  exact hc.unique (List.nodup_append.mp (List.nodup_append.mp hnd).2.1).2.1 ht hu

/-- A thread moves and keeps the node that it has. -/
theorem move (h : s.Inv free use m) (hnode : p.node = (s.pc t).node) (hfilled : ∀ n msg, p ≠ .filled n msg)
    (hhand : p.hand s.fifo.data = (s.pc t).hand s.fifo.data) : (s.setPc t p).Inv free use m := by
  obtain ⟨transit, hc, hperm⟩ := h.nodes
  refine ⟨h.lists, ⟨transit, hc.congr fun u => ?_, hperm⟩, fun u n msg hu => h.filled u n msg (filled_update hfilled hu),
    h.free, h.unread, h.connected, fun u => ?_, h.log⟩
  · by_cases hut : u = t
    · subst hut
      rw [setPc_pc_self, hnode]
    · exact node_update hut
  · have hsame : Function.update m.hand t (p.hand s.fifo.data) = m.hand := by
      rw [Function.update_eq_self_iff, hhand]
      exact (h.hand t).symm
    rw [← hsame]
    exact hand_update h.hand t u p

/-- A thread takes a used node. -/
theorem takeUse (h : s.Inv free (u₁ ++ n :: u₂) m) (hl : Lists fifo free (u₁ ++ u₂))
    (hdata : fifo.data = s.fifo.data) (howner : fifo.owner = Function.update s.fifo.owner n none)
    (hsz : fifo.msgboxsz = s.fifo.msgboxsz) (hconn : fifo.connected = s.fifo.connected)
    (ht : (s.pc t).node = none) (hp : p.node = some n) (hfilled : ∀ n msg, p ≠ .filled n msg)
    (hm : m.step ev = some { m with
      unread := Can.unread s.fifo (u₁ ++ u₂), hand := Function.update m.hand t (p.hand s.fifo.data) }) :
    ∃ m', Inv ({ s with fifo := fifo, log := s.log ++ [ev] }.setPc t p) free (u₁ ++ u₂) m' := by
  obtain ⟨transit, hc, hperm⟩ := h.nodes
  have huse : n ∉ u₁ ++ u₂ := by
    intro hmem
    have hnd := (List.nodup_append.mp h.lists.nodup).2.1
    exact (List.nodup_cons.mp (List.perm_middle.nodup_iff.mp hnd)).1 hmem
  refine ⟨{ m with
      unread := Can.unread s.fifo (u₁ ++ u₂), hand := Function.update m.hand t (p.hand s.fifo.data) }, hl,
    ⟨n :: transit, hc.take ht ?_ fun u hu => node_update hu, ?_⟩, fun u n msg hu => ?_, h.free, ?_,
    h.connected.trans hconn.symm, fun u => ?_, ?_⟩
  · rw [setPc_pc_self, hp]
  · change (free ++ (u₁ ++ u₂ ++ n :: transit)).Perm (List.range fifo.msgboxsz)
    rw [hsz]
    refine List.Perm.trans (List.Perm.append_left free ?_) hperm
    calc u₁ ++ u₂ ++ n :: transit
      _ ~ n :: (u₁ ++ u₂ ++ transit) := List.perm_middle
      _ = n :: (u₁ ++ u₂) ++ transit := rfl
      _ ~ (u₁ ++ n :: u₂) ++ transit := List.perm_middle.symm.append_right transit
  · change fifo.data n = msg
    rw [hdata]
    exact h.filled u n msg (filled_update hfilled hu)
  · apply Eq.symm
    apply unread_congr
    · intro k hk
      change fifo.owner k = _
      rw [howner, Function.update_of_ne]
      rintro rfl
      exact huse hk
    · intro k _
      exact congrFun hdata k
  · change _ = (Function.update s.pc t p u).hand fifo.data
    rw [hdata]
    exact hand_update h.hand t u p
  · change Trans.runList _ (Mailbox.new fifo.msgboxsz) _ = _
    rw [hsz]
    exact Trans.runList_snoc h.log hm

theorem read {hdr : Int} (h : s.Inv free use m) (he : s.exec (.read t hdr) = some s') :
    ∃ use m', s'.Inv free use m' := by
  simp only [exec] at he
  split at he
  · rename_i hpc
    rcases h.lists.rxTake hdr with hnone | ⟨n, u₁, u₂, rfl, htake, hfirst⟩
    · rw [hnone] at he
      obtain rfl := Option.some.inj he
      exact ⟨use, m, h⟩
    · rw [htake] at he
      obtain rfl := Option.some.inj he
      have hfind : Mailbox.wanted (bankOf hdr) (s.fifo.owner n, s.fifo.data n) = true ∧
          ∀ k ∈ u₁, Mailbox.wanted (bankOf hdr) (s.fifo.owner k, s.fifo.data k) = false := by
        rcases hfirst with ⟨hhdr, rfl⟩ | ⟨hhdr, ho, hu⟩
        · rw [bankOf, if_pos hhdr]
          exact ⟨rfl, by simp⟩
        · rw [bankOf, if_neg hhdr]
          exact ⟨decide_eq_true ho, fun k hk => decide_eq_false (hu k hk)⟩
      obtain ⟨hfound, herase⟩ := find_unread hfind.1 hfind.2
      obtain ⟨m', hinv⟩ := @Inv.takeUse _ _ _ _ _ _ _ (.taken n) _ (.take t (bankOf hdr)) h h.lists.detach rfl rfl rfl rfl
        (by rw [hpc]; rfl) rfl (by simp) (by
          simp only [Mailbox.step]
          rw [h.unread, hfound, herase]
          rfl)
      exact ⟨_, m', hinv⟩
  · cases he

theorem copy (h : s.Inv free use m) (he : s.exec (.copy t) = some s') : ∃ m', s'.Inv free use m' := by
  simp only [exec] at he
  split at he
  · rename_i n hpc
    obtain rfl := Option.some.inj he
    obtain ⟨transit, hc, hperm⟩ := h.nodes
    refine ⟨{ m with hand := Function.update m.hand t none }, h.lists, ⟨transit, hc.congr fun u => ?_, hperm⟩,
      fun u k msg hu => h.filled u k msg (filled_update (by simp) hu), h.free, h.unread, h.connected,
      fun u => hand_update h.hand t u (.copied n), Trans.runList_snoc h.log (if_pos ?_)⟩
    · by_cases hut : u = t
      · subst hut
        rw [setPc_pc_self, hpc]
        rfl
      · exact node_update hut
    · rw [h.hand t, hpc]
      rfl
  · cases he

/-- A thread gives the node back that it has. -/
theorem put_back {transit : List Nat} (hc : Carries (fun t => (s.pc t).node) transit)
    (ht : (s.pc t).node = some n) (hp : p.node = none) :
    Carries (fun u => (Function.update s.pc t p u).node) (transit.erase n) ∧ transit.Perm (n :: transit.erase n) := by
  have hmem : n ∈ transit := hc.mem_iff.mpr ⟨t, ht⟩
  refine ⟨(hc.perm (List.perm_cons_erase hmem).symm).put ht ?_ fun u hu => node_update hu,
    List.perm_cons_erase hmem⟩
  rw [Function.update_self, hp]

theorem give (h : s.Inv free use m) (hpc : s.pc t = .copied n) :
    ∃ s' m', s.exec (.give t) = some s' ∧ s'.Inv (free ++ [n]) use m' := by
  have ht : (s.pc t).node = some n := by rw [hpc]; rfl
  obtain ⟨hfree, huse⟩ := h.transit_notMem ht
  obtain ⟨transit, hc, hperm⟩ := h.nodes
  obtain ⟨hc', hperm'⟩ := put_back (p := .idle) hc ht rfl
  have hroom : s.fifo.freenumbers + 1 ≤ s.fifo.msgboxsz := by
    have hlen := hperm.length_eq
    have hlen' := hperm'.length_eq
    simp only [List.length_append, List.length_range, List.length_cons] at hlen hlen'
    rw [h.lists.freenumbers]
    omega
  simp only [exec, hpc, RxFifo.rxGive]
  rw [if_pos hroom]
  refine ⟨_, { m with free := m.free + 1 }, rfl, h.lists.give hfree huse, ⟨transit.erase n, hc', ?_⟩,
    fun u k msg hu => h.filled u k msg (filled_update (by simp) hu), ?_, h.unread, h.connected, fun u => ?_,
    Trans.runList_snoc h.log rfl⟩
  · refine List.Perm.trans ?_ hperm
    calc (free ++ [n]) ++ (use ++ transit.erase n)
      _ = free ++ (n :: (use ++ transit.erase n)) := by rw [List.append_assoc]; rfl
      _ ~ free ++ (use ++ n :: transit.erase n) := List.perm_middle.symm.append_left free
      _ ~ free ++ (use ++ transit) := (hperm'.symm.append_left use).append_left free
  · change m.free + 1 = _
    rw [h.free, List.length_append]
    rfl
  · have hsame : Function.update m.hand t none = m.hand := by
      rw [Function.update_eq_self_iff, h.hand t, hpc]
      rfl
    have hup := hand_update h.hand t u .idle
    change Function.update m.hand t none u = _ at hup
    rw [hsame] at hup
    exact hup

/-- The first section of an interrupt. -/
theorem isrTake {msg : RtCanMsg} (h : s.Inv free use m) (hpc : s.pc t = .idle) :
    ∃ s' free use m', s.exec (.rxInd t msg) = some s' ∧ s'.Inv free use m' := by
  have hnode : (s.pc t).node = none := by rw [hpc]; rfl
  have hidle : ∀ p : RxPc, p.hand s.fifo.data = none → Function.update m.hand t (p.hand s.fifo.data) = m.hand := by
    intro p hp
    rw [hp, Function.update_eq_self_iff, h.hand t, hpc]
    rfl
  have hcount : Lists { s.fifo with rcvpkg := s.fifo.rcvpkg + 1 } free use :=
    ⟨h.lists.rings, h.lists.owner, h.lists.nodup, h.lists.msgs, h.lists.freenumbers⟩
  simp only [exec, hpc]
  cases free with
  | cons n free =>
      have hne : s.fifo.links.next .freelist ≠ .freelist := by
        rw [h.lists.next_freelist]
        simp
      have hpos : 0 < s.fifo.freenumbers := by
        rw [h.lists.freenumbers]
        exact Nat.succ_pos _
      obtain ⟨transit, hc, hperm⟩ := h.nodes
      have hev : isrEvent s.fifo = .accept := if_pos hne
      have htake : s.fifo.isrTake = some (some n, { ({ s.fifo with rcvpkg := s.fifo.rcvpkg + 1 } : RxFifo).detach n
          (s.fifo.owner n) with freenumbers := s.fifo.freenumbers - 1 }) := by
        simp only [RxFifo.isrTake]
        rw [if_pos hne]
        simp only [h.lists.next_freelist]
        rw [if_pos hpos]
      rw [htake, hev]
      have huse : n ∉ use := fun hm => (List.nodup_cons.mp h.lists.nodup).1 (List.mem_append_right _ hm)
      have howner : Function.update s.fifo.owner n none = s.fifo.owner :=
        Function.update_eq_self_iff.mpr (h.lists.owner_none huse).symm
      refine ⟨_, free, use, { m with free := m.free - 1 }, rfl, hcount.detach_free,
        ⟨n :: transit, hc.take hnode ?_ fun u hu => node_update hu, ?_⟩,
        fun u k msg' hu => h.filled u k msg' (filled_update (by simp) hu), ?_, ?_, h.connected, fun u => ?_, ?_⟩
      · rw [setPc_pc_self]
        rfl
      · refine List.Perm.trans ?_ hperm
        calc free ++ (use ++ n :: transit)
          _ ~ free ++ (n :: (use ++ transit)) := List.perm_middle.append_left free
          _ ~ n :: (free ++ (use ++ transit)) := List.perm_middle
      · change m.free - 1 = _
        rw [h.free]
        rfl
      · refine h.unread.trans (List.map_congr_left fun k _ => ?_)
        exact Prod.ext (congrFun howner.symm k) rfl
      · have hup := hand_update h.hand t u (.accepted n msg)
        rw [hidle _ rfl] at hup
        exact hup
      · refine Trans.runList_snoc h.log (if_pos ?_)
        rw [h.free]
        exact Nat.succ_pos _
  | nil =>
      have hnil : s.fifo.links.next .freelist = .freelist := h.lists.freelist_nil.mpr rfl
      cases use with
      | nil =>
          have hnone : s.fifo.links.next .uselist = .uselist := h.lists.uselist_nil.mpr rfl
          have hev : isrEvent s.fifo = .lost := by
            rw [isrEvent, if_neg (not_not.mpr hnil), if_neg (not_not.mpr hnone)]
          have htake : s.fifo.isrTake = some (none, { s.fifo with rcvpkg := s.fifo.rcvpkg + 1 }) := by
            simp only [RxFifo.isrTake]
            rw [if_neg (not_not.mpr hnil), if_neg (not_not.mpr hnone)]
          rw [htake, hev]
          have hlost : m.step .lost = some m := if_pos ⟨h.free, h.unread⟩
          have hinv : Inv { s with
              fifo := { s.fifo with rcvpkg := s.fifo.rcvpkg + 1 }
              log := s.log ++ [RxEvent.lost] } [] [] m :=
            ⟨hcount, h.nodes, h.filled, h.free, h.unread, h.connected, h.hand, Trans.runList_snoc h.log hlost⟩
          exact ⟨_, [], [], m, rfl, hinv.move hnode.symm (by simp) (by rw [hpc]; rfl)⟩
      | cons n use =>
          have hne : s.fifo.links.next .uselist ≠ .uselist := by
            rw [h.lists.next_uselist]
            simp
          have hev : isrEvent s.fifo = .drop := by
            rw [isrEvent, if_neg (not_not.mpr hnil), if_pos hne]
          have htake : s.fifo.isrTake = some (some n, { ({ s.fifo with rcvpkg := s.fifo.rcvpkg + 1 } : RxFifo).detach n
              (s.fifo.owner n) with dropedrcvpkg := s.fifo.dropedrcvpkg + 1 }) := by
            simp only [RxFifo.isrTake]
            rw [if_neg (not_not.mpr hnil), if_pos hne]
            simp only [h.lists.next_uselist]
          rw [htake, hev]
          have hl := @Lists.detach _ _ [] _ _ hcount
          have hdrop : m.step .drop = some { m with
              unread := Can.unread s.fifo ([] ++ use)
              hand := Function.update m.hand t ((RxPc.accepted n msg).hand s.fifo.data) } := by
            rw [hidle _ rfl]
            have hcond : m.free = 0 ∧ m.unread ≠ [] := ⟨h.free, by rw [h.unread]; exact List.cons_ne_nil _ _⟩
            simp only [Mailbox.step]
            rw [if_pos hcond, h.unread]
            rfl
          obtain ⟨m', hinv⟩ := @Inv.takeUse _ _ [] _ _ _ _ (.accepted n msg)
            { ({ s.fifo with rcvpkg := s.fifo.rcvpkg + 1 } : RxFifo).detach n (s.fifo.owner n) with
              dropedrcvpkg := s.fifo.dropedrcvpkg + 1 } _ h
            ⟨hl.rings, hl.owner, hl.nodup, hl.msgs, hl.freenumbers⟩ rfl rfl rfl rfl hnode rfl (by simp) hdrop
          exact ⟨_, [], _, m', rfl, hinv⟩

theorem rxInd {msg : RtCanMsg} (h : s.Inv free use m) (he : s.exec (.rxInd t msg) = some s') :
    ∃ free use m', s'.Inv free use m' := by
  have hpc : s.pc t = .idle := by
    simp only [exec] at he
    split at he
    · assumption
    · cases he
  obtain ⟨s₁, free', use', m', hs₁, hinv⟩ := @Inv.isrTake _ _ _ _ _ msg h hpc
  obtain rfl := Option.some.inj (he.symm.trans hs₁)
  exact ⟨free', use', m', hinv⟩

theorem fill (h : s.Inv free use m) (he : s.exec (.fill t) = some s') : s'.Inv free use m := by
  simp only [exec] at he
  split at he
  · rename_i n msg hpc
    obtain rfl := Option.some.inj he
    have ht : (s.pc t).node = some n := by rw [hpc]; rfl
    obtain ⟨-, huse⟩ := h.transit_notMem ht
    obtain ⟨transit, hc, hperm⟩ := h.nodes
    have hother : ∀ u k, u ≠ t → (s.pc u).node = some k → Function.update s.fifo.data n msg k = s.fifo.data k := by
      rintro u k hut hk
      apply Function.update_of_ne
      rintro rfl
      exact hut (h.transit_unique hk ht)
    refine ⟨⟨h.lists.rings, h.lists.owner, h.lists.nodup, h.lists.msgs, h.lists.freenumbers⟩,
      ⟨transit, hc.congr fun u => ?_, hperm⟩, fun u k msg' hu => ?_, h.free, ?_, h.connected, fun u => ?_, h.log⟩
    · by_cases hut : u = t
      · subst hut
        rw [setPc_pc_self]
        exact ht.symm
      · exact node_update hut
    · change Function.update s.fifo.data n msg k = msg'
      by_cases hut : u = t
      · subst hut
        rw [setPc_pc_self] at hu
        obtain ⟨rfl, rfl⟩ := RxPc.filled.inj hu
        exact Function.update_self _ _ _
      · have hu' : s.pc u = .filled k msg' := (Function.update_of_ne hut _ _).symm.trans hu
        rw [hother u k hut (by rw [hu']; rfl)]
        exact h.filled u k msg' hu'
    · refine h.unread.trans (List.map_congr_left fun k hk => ?_)
      have hkn : k ≠ n := by
        rintro rfl
        exact huse hk
      exact Prod.ext rfl (Function.update_of_ne hkn _ _).symm
    · change m.hand u = (Function.update s.pc t (.filled n msg) u).hand (Function.update s.fifo.data n msg)
      rw [h.hand u]
      by_cases hut : u = t
      · subst hut
        rw [Function.update_self, hpc]
        rfl
      · rw [Function.update_of_ne hut]
        cases hu : s.pc u with
        | taken k => exact congrArg some (hother u k hut (by rw [hu]; rfl)).symm
        | _ => rfl
  · cases he

/-- The second section of an interrupt. -/
theorem isrPut {msg : RtCanMsg} (h : s.Inv free use m) (hpc : s.pc t = .filled n msg)
    (hhdr : msg.hdr < s.fifo.maxhdr ∧ 0 ≤ msg.hdr) :
    ∃ s' m', s.exec (.put t) = some s' ∧ s'.Inv free (use ++ [n]) m' := by
  have ht : (s.pc t).node = some n := by rw [hpc]; rfl
  obtain ⟨hfree, huse⟩ := h.transit_notMem ht
  obtain ⟨transit, hc, hperm⟩ := h.nodes
  obtain ⟨hc', hperm'⟩ := put_back (p := .idle) hc ht rfl
  obtain ⟨fifo, hput, hl, hdata, hsz, hconn, howner⟩ := h.lists.put hfree huse hhdr
  simp only [exec, hpc, hput]
  refine ⟨_, { m with
    unread := m.unread ++ [(if s.fifo.connected msg.hdr.toNat then some msg.hdr.toNat else none, msg)] }, rfl, hl,
    ⟨transit.erase n, hc', ?_⟩, fun u k msg' hu => ?_, h.free, ?_, h.connected.trans hconn.symm, fun u => ?_, ?_⟩
  · change (free ++ (use ++ [n] ++ transit.erase n)).Perm (List.range fifo.msgboxsz)
    rw [hsz]
    refine List.Perm.trans (List.Perm.append_left free ?_) hperm
    calc use ++ [n] ++ transit.erase n
      _ = use ++ n :: transit.erase n := by rw [List.append_assoc]; rfl
      _ ~ use ++ transit := hperm'.symm.append_left use
  · change fifo.data k = msg'
    rw [hdata]
    exact h.filled u k msg' (filled_update (by simp) hu)
  · have hold : Can.unread fifo use = Can.unread s.fifo use := by
      apply unread_congr
      · intro k hk
        rw [howner, Function.update_of_ne]
        rintro rfl
        exact huse hk
      · intro k _
        rw [hdata]
    change m.unread ++ _ = Can.unread fifo (use ++ [n])
    rw [unread_append, hold, h.unread]
    congr 1
    simp only [Can.unread, List.map_cons, List.map_nil, howner, hdata, Function.update_self, h.filled t n msg hpc]
  · have hsame : Function.update m.hand t none = m.hand := by
      rw [Function.update_eq_self_iff, h.hand t, hpc]
      rfl
    have hup := hand_update h.hand t u .idle
    change Function.update m.hand t none u = _ at hup
    rw [hsame] at hup
    change m.hand u = (Function.update s.pc t .idle u).hand fifo.data
    rw [hdata]
    exact hup
  · change Trans.runList _ (Mailbox.new fifo.msgboxsz) _ = _
    rw [hsz]
    apply Trans.runList_snoc h.log
    simp only [Mailbox.step]
    rw [h.connected]

theorem put (h : s.Inv free use m) (he : s.exec (.put t) = some s') : ∃ use m', s'.Inv free use m' := by
  have hpc : ∃ n msg, s.pc t = .filled n msg ∧ msg.hdr < s.fifo.maxhdr ∧ 0 ≤ msg.hdr := by
    simp only [exec] at he
    split at he
    · rename_i n msg hpc
      obtain ⟨fifo, hput, -⟩ := Option.map_eq_some_iff.mp he
      unfold RxFifo.isrPut at hput
      dsimp only at hput
      split_ifs at hput with hhdr
      · exact ⟨n, msg, hpc, hhdr⟩
      · exact ⟨n, msg, hpc, hhdr⟩
    · cases he
  obtain ⟨n, msg, hpc, hhdr⟩ := hpc
  obtain ⟨s₁, m', hs₁, hinv⟩ := h.isrPut hpc hhdr
  obtain rfl := Option.some.inj (he.symm.trans hs₁)
  exact ⟨_, m', hinv⟩

/-- A bank with an empty list is connected or disconnected. -/
theorem switch {b : Bool} {c : Nat} (h : s.Inv free use m) (hl : Lists fifo free use)
    (hconn : fifo.connected = Function.update s.fifo.connected c b) (howner : fifo.owner = s.fifo.owner)
    (hdata : fifo.data = s.fifo.data) (hsz : fifo.msgboxsz = s.fifo.msgboxsz)
    (hm : m.step ev = some { m with connected := Function.update m.connected c b }) :
    Inv { s with fifo := fifo, log := s.log ++ [ev] } free use
      { m with connected := Function.update m.connected c b } := by
  refine ⟨hl, ?_, fun u n msg hu => ?_, h.free, ?_, ?_, fun u => ?_, ?_⟩
  · change ∃ transit, _ ∧ List.Perm _ (List.range fifo.msgboxsz)
    rw [hsz]
    exact h.nodes
  · change fifo.data n = msg
    rw [hdata]
    exact h.filled u n msg hu
  · refine h.unread.trans (List.map_congr_left fun k _ => ?_)
    change _ = (fifo.owner k, fifo.data k)
    rw [howner, hdata]
  · change _ = fifo.connected
    rw [hconn, ← h.connected]
  · change m.hand u = (s.pc u).hand fifo.data
    rw [hdata]
    exact h.hand u
  · change Trans.runList _ (Mailbox.new fifo.msgboxsz) _ = _
    rw [hsz]
    exact Trans.runList_snoc h.log hm

theorem setFilter {actived : Bool} {items : List Int} (h : s.Inv free use m)
    (he : s.exec (.setFilter t actived items) = some s') : s'.Inv free use m := by
  simp only [exec] at he
  split at he
  · rename_i hpc
    obtain rfl := Option.some.inj he
    exact h.move (by rw [hpc]; rfl) (by simp) (by rw [hpc]; rfl)
  · cases he

theorem connect (h : s.Inv free use m) (ha : s.Allowed (.connect t)) (he : s.exec (.connect t) = some s') :
    ∃ m', s'.Inv free use m' := by
  simp only [exec] at he
  split at he
  · rename_i c items hpc
    obtain rfl := Option.some.inj he
    have hempty : (s.pc t).Quiet s.fifo := ha
    rw [hpc] at hempty
    have hinv := @Inv.switch _ _ _ _ _ (.connect c) _ _ h (h.lists.connect hempty) rfl rfl rfl rfl rfl
    exact ⟨_, hinv.move (by rw [hpc]; rfl) (by simp) (by rw [hpc]; rfl)⟩
  · cases he

theorem item (h : s.Inv free use m) (ha : s.Allowed (.item t)) (he : s.exec (.item t) = some s') :
    ∃ m', s'.Inv free use m' := by
  simp only [exec] at he
  split at he
  · rename_i actived hpc
    obtain rfl := Option.some.inj he
    exact ⟨m, h.move (by rw [hpc]; rfl) (by simp) (by rw [hpc]; rfl)⟩
  · rename_i actived hdr items hpc
    have hmove : ∀ p : RxPc, p.node = none → (∀ n msg, p ≠ .filled n msg) → (s.setPc t p).Inv free use m :=
      fun p hp hf => h.move (by rw [hp, hpc]; rfl) hf (by rw [hand_of_node hp, hpc]; rfl)
    split_ifs at he with hrange hact hconn hconn
    · obtain rfl := Option.some.inj he
      exact ⟨m, hmove _ rfl (by simp)⟩
    · obtain rfl := Option.some.inj he
      exact ⟨m, hmove _ rfl (by simp)⟩
    · obtain rfl := Option.some.inj he
      exact ⟨m, hmove _ rfl (by simp)⟩
    · obtain rfl := Option.some.inj he
      obtain rfl : actived = false := by simpa using hact
      have hempty : (s.pc t).Quiet s.fifo := ha
      rw [hpc] at hempty
      have hinv := @Inv.switch _ _ _ _ _ (.disconnect hdr.toNat) _ _ h (h.lists.disconnect (hempty ⟨by omega, by omega, hconn⟩))
        rfl rfl rfl rfl rfl
      exact ⟨_, hinv.move (by rw [hpc]; rfl) (by simp) (by rw [hpc]; rfl)⟩
    · obtain rfl := Option.some.inj he
      exact ⟨m, hmove _ rfl (by simp)⟩
  · cases he

/-- Every step that the condition allows keeps the invariant. -/
theorem step {a : RxAction} (h : s.Inv free use m) (ha : s.Allowed a) (he : s.exec a = some s') :
    ∃ free use m', s'.Inv free use m' := by
  cases a with
  | read t hdr => exact ⟨free, h.read he⟩
  | copy t => exact ⟨free, use, h.copy he⟩
  | give t =>
      have hpc : ∃ n, s.pc t = .copied n := by
        simp only [exec] at he
        split at he
        · exact ⟨_, ‹_›⟩
        · cases he
      obtain ⟨n, hpc⟩ := hpc
      obtain ⟨s₁, m', hs₁, hinv⟩ := h.give hpc
      obtain rfl := Option.some.inj (he.symm.trans hs₁)
      exact ⟨_, use, m', hinv⟩
  | rxInd t msg => exact h.rxInd he
  | fill t => exact ⟨free, use, m, h.fill he⟩
  | put t => exact ⟨free, h.put he⟩
  | setFilter t actived items => exact ⟨free, use, m, h.setFilter he⟩
  | item t => exact ⟨free, use, h.item ha he⟩
  | connect t => exact ⟨free, use, h.connect ha he⟩

theorem init (h : s.Init) : s.Inv (List.range s.fifo.msgboxsz) [] (.new s.fifo.msgboxsz) := by
  obtain ⟨⟨msgboxsz, maxhdr, data, hfifo⟩, hpc, hlog⟩ := h
  have hsz : s.fifo.msgboxsz = msgboxsz := by rw [hfifo]; rfl
  refine ⟨?_, ⟨[], .nil fun t => by rw [hpc t]; rfl, ?_⟩, fun t n msg ht => ?_, ?_, rfl, ?_, fun t => ?_, ?_⟩
  · rw [hsz, hfifo]
    exact lists_openRx msgboxsz maxhdr data
  · simp
  · rw [hpc t] at ht
    cases ht
  · exact List.length_range.symm
  · rw [hfifo]
    rfl
  · rw [hpc t]
    rfl
  · rw [hlog]
    rfl

end Inv

/-! ## What is consistent -/

/-- What is to hold of the lists: `free` and `use` are the nodes in `freelist` and `uselist`, and `m` is what has
arrived. -/
structure Consistent (s : RxSys) (free use : List Nat) (m : Mailbox) : Prop where
  freelist : Dll s.fifo.links.next s.fifo.links.prev .freelist (free.map .list)
  uselist : Dll s.fifo.links.next s.fifo.links.prev .uselist (use.map .list)
  /-- The nodes in the list of a bank are the used nodes that it owns, in the same order. -/
  bank : ∀ h, Dll s.fifo.links.next s.fifo.links.prev (.bank h) ((inBank s.fifo.owner use h).map .hdrlist)
  owner : ∀ n, s.fifo.owner n ≠ none → n ∈ use
  msgs : ∀ h, s.fifo.msgs h = (inBank s.fifo.owner use h).length
  freenumbers : s.fifo.freenumbers = free.length
  /-- The nodes in the lists and those in transit are all nodes, each there once. -/
  nodes : ∃ transit, Carries (fun t => (s.pc t).node) transit ∧
    (free ++ (use ++ transit)).Perm (List.range s.fifo.msgboxsz)
  /-- The messages were read and dropped as they are meant to be. -/
  log : Trans.runList Mailbox.step (.new s.fifo.msgboxsz) s.log = some m
  free : m.free = free.length
  unread : m.unread = Can.unread s.fifo use
  /-- The assertions do not fail. -/
  gives : ∀ t n, s.pc t = .copied n → s.exec (.give t) ≠ none
  inds : ∀ t msg, s.pc t = .idle → s.exec (.rxInd t msg) ≠ none

theorem Inv.consistent (h : s.Inv free use m) : s.Consistent free use m := by
  have hrings := h.lists.rings
  constructor
  case freelist => exact hrings.dll .freelist (heads_freelist _ _ _)
  case uselist => exact hrings.dll .uselist (heads_uselist _ _ _)
  case bank => exact fun c => hrings.dll (.bank c) (heads_bank _ _ _ c)
  case owner => exact h.lists.owner
  case msgs => exact h.lists.msgs
  case freenumbers => exact h.lists.freenumbers
  case nodes => exact h.nodes
  case log => exact h.log
  case free => exact h.free
  case unread => exact h.unread
  case gives =>
    intro t n hpc
    obtain ⟨s', m', hs', -⟩ := h.give hpc
    rw [hs']
    exact Option.some_ne_none s'
  case inds =>
    intro t msg hpc
    obtain ⟨s', -, -, -, hs', -⟩ := @Inv.isrTake _ _ _ _ _ msg h hpc
    rw [hs']
    exact Option.some_ne_none s'

/-- **The receive lists are consistent** as long as a bank is connected and disconnected with an empty list. -/
theorem lists_consistent
    (h : Trans.Reachable RxSys.Init (fun s a s' => RxSys.exec s a = some s' ∧ RxSys.Allowed s a) s) :
    ∃ free use m, s.Consistent free use m := by
  have hinv : ∃ free use m, s.Inv free use m := by
    apply h.invariant (I := fun s => ∃ free use m, s.Inv free use m)
    · exact fun _ hs => ⟨_, _, _, Inv.init hs⟩
    · rintro s a s' - ⟨free, use, m, hi⟩ ⟨he, ha⟩
      exact hi.step ha he
  obtain ⟨free, use, m, hinv⟩ := hinv
  exact ⟨free, use, m, hinv.consistent⟩

/-- A device with two nodes and a bank. -/
def twoNodes : RxSys where
  fifo := RxFifo.openRx 2 1 fun _ => ⟨0, 0, 0, 0, 0, 0, []⟩
  pc _ := .idle
  log := []

theorem twoNodes_init : twoNodes.Init := ⟨⟨2, 1, _, rfl⟩, fun _ => rfl, rfl⟩

/-- A message of the bank, with this identifier. -/
def message (id : Nat) : RtCanMsg := ⟨id, 0, 0, 0, 0, 0, []⟩

/-- Three messages arrive, the oldest is dropped, the next is read from the bank, and the bank is deactivated when
its list is empty. -/
theorem lists_consistent_two :
    ∃ s free use m, RxSys.Consistent s free use m ∧ s.fifo.dropedrcvpkg = 1 ∧ s.fifo.freenumbers = 2 ∧
      RxEvent.fetch 1 (message 8) ∈ s.log := by
  have hrun : (Trans.runList (Trans.stepIf RxSys.exec RxSys.Allowed) twoNodes
      [.setFilter 1 true [0], .item 1, .connect 1, .item 1, .rxInd 0 (message 7), .fill 0, .put 0, .rxInd 0 (message 8),
        .fill 0, .put 0, .rxInd 0 (message 9), .fill 0, .read 1 0, .copy 1, .put 0, .give 1, .read 1 (-1), .copy 1,
        .give 1, .setFilter 1 false [0], .item 1, .item 1]).map (fun s => decide (s.fifo.dropedrcvpkg = 1 ∧
          s.fifo.freenumbers = 2 ∧ RxEvent.fetch 1 (message 8) ∈ s.log)) = some true := by
    decide +kernel
  obtain ⟨s, hs, hdec⟩ := Option.map_eq_some_iff.mp hrun
  obtain ⟨free, use, m, hc⟩ := lists_consistent (Trans.reachable_of_runList_stepIf twoNodes_init hs)
  exact ⟨s, free, use, m, hc, of_decide_eq_true hdec⟩

/-- A bank with two messages is deactivated: its counter is `0`, and both nodes keep their owner. -/
theorem bank_deactivated :
    ∃ s, Trans.Reachable RxSys.Init (fun s a s' => RxSys.exec s a = some s') s ∧
      ¬ ∃ free use m, s.Consistent free use m := by
  have hrun : (Trans.runList RxSys.exec twoNodes
      [.setFilter 1 true [0], .item 1, .connect 1, .item 1, .rxInd 0 (message 7), .fill 0, .put 0, .rxInd 0 (message 8),
        .fill 0, .put 0, .setFilter 1 false [0], .item 1, .item 1]).map (fun s =>
        decide (s.fifo.msgs 0 = 0 ∧ s.fifo.owner 0 = some 0)) = some true := by
    decide +kernel
  obtain ⟨s, hs, hdec⟩ := Option.map_eq_some_iff.mp hrun
  refine ⟨s, Trans.reachable_of_runList (.init twoNodes_init) hs, ?_⟩
  rintro ⟨free, use, m, hc⟩
  obtain ⟨hmsgs, howner⟩ := of_decide_eq_true hdec
  have huse : 0 ∈ use := hc.owner 0 (by rw [howner]; simp)
  have hbank : 0 ∈ inBank s.fifo.owner use 0 := List.mem_filter.mpr ⟨huse, decide_eq_true howner⟩
  have hlen := hc.msgs 0
  rw [hmsgs] at hlen
  rw [List.length_eq_zero_iff.mp hlen.symm] at hbank
  cases hbank

end RxSys

end RTThread.Can
