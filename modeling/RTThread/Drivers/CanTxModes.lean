import RTThread.Drivers.CanTxBoxes

set_option autoImplicit false

/-! # No mailbox is lost or shared

This holds of the runs in which nothing goes wrong in private mode (no message is refused by `ops->sendmsg`, no
transmission fails, no two writes name one mailbox at a time), and in which the mode is switched when the
mailboxes are at rest.
-/

namespace RTThread.Can

/-! ## The free list -/

def txHeads (free : List Nat) : TxLink → Prop
  | .freelist => True
  | .box no => no ∉ free

def txRing (free : List Nat) : TxLink → List TxLink
  | .freelist => free.map .box
  | .box _ => []

/-- `freelist` has these mailboxes. -/
structure FreeOk (n : Nat) (links : Links TxLink) (free : List Nat) : Prop where
  rings : Rings links (txHeads free) (txRing free)
  nodup : free.Nodup
  lt : ∀ no ∈ free, no < n

namespace FreeOk

variable {n no : Nat} {links : Links TxLink} {free l₁ l₂ : List Nat}

theorem next_freelist (h : FreeOk n links (no :: free)) : links.next .freelist = .box no :=
  h.rings.next_of_cons (l := free.map .box) (by exact trivial) rfl

theorem freelist_nil (h : FreeOk n links []) : links.next .freelist = .freelist :=
  (h.rings.next_eq_self (by exact trivial)).mpr rfl

/-- The test for a mailbox in the list. -/
theorem listed (h : FreeOk n links free) : links.next (.box no) ≠ .box no ↔ no ∈ free := by
  constructor
  · intro hne
    by_contra hno
    exact hne ((h.rings.next_eq_self (by exact hno)).mpr rfl)
  · intro hno
    exact h.rings.next_ne_self (h := .freelist) (by exact trivial) (List.mem_map_of_mem hno)

theorem remove (h : FreeOk n links (l₁ ++ no :: l₂)) : FreeOk n (links.remove (.box no)) (l₁ ++ l₂) := by
  have hnd := List.perm_middle.nodup_iff.mp h.nodup
  obtain ⟨hnot, hnd⟩ := List.nodup_cons.mp hnd
  have hr := @Rings.remove _ _ _ _ .freelist (.box no) (l₁.map .box) (l₂.map .box) _ h.rings
    (by exact trivial) (by simp [txRing])
  refine ⟨hr.congr fun y hy => ?_, hnd, fun k hk => h.lt k ?_⟩
  · cases y with
    | freelist => exact ⟨.inl trivial, by simp [txRing]⟩
    | box k =>
        refine ⟨?_, by simp [txRing, Function.update_apply]⟩
        by_cases hk : k = no
        · exact .inr (by rw [hk])
        · refine .inl fun hm => hy ?_
          simp only [List.mem_append, List.mem_cons] at hm ⊢
          tauto
  · simp only [List.mem_append, List.mem_cons] at hk ⊢
    tauto

theorem insertBefore (h : FreeOk n links free) (hno : no ∉ free) (hlt : no < n) :
    FreeOk n (links.insertBefore .freelist (.box no)) (free ++ [no]) := by
  have hr := h.rings.insertBefore (h := .freelist) (x := .box no) (by exact trivial) (by exact hno) rfl (by simp)
  refine ⟨hr.congr fun y hy => ?_, ?_, fun k hk => ?_⟩
  · cases y with
    | freelist => exact ⟨⟨trivial, by simp⟩, by simp [txRing]⟩
    | box k =>
        have hk := not_or.mp (mt List.mem_append.mpr hy)
        refine ⟨⟨hk.1, ?_⟩, by simp [txRing]⟩
        simpa using hk.2
  · exact (List.perm_append_singleton no free).nodup_iff.mpr (List.nodup_cons.mpr ⟨hno, h.nodup⟩)
  · rcases List.mem_append.mp hk with hk | hk
    · exact h.lt k hk
    · rw [List.mem_singleton.mp hk]
      exact hlt

theorem insertAfter (h : FreeOk n links free) (hno : no ∉ free) (hlt : no < n) :
    FreeOk n (links.insertAfter .freelist (.box no)) (no :: free) := by
  have hr := h.rings.insertAfter (h := .freelist) (x := .box no) (by exact trivial) (by exact hno) rfl (by simp)
  refine ⟨hr.congr fun y hy => ?_, List.nodup_cons.mpr ⟨hno, h.nodup⟩, fun k hk => ?_⟩
  · cases y with
    | freelist => exact ⟨⟨trivial, by simp⟩, by simp [txRing]⟩
    | box k =>
        have hk := not_or.mp (mt List.mem_cons.mpr hy)
        exact ⟨⟨hk.2, by simpa using hk.1⟩, by simp [txRing]⟩
  · rcases List.mem_cons.mp hk with rfl | hk
    · exact hlt
    · exact h.lt k hk

end FreeOk

/-- All mailboxes are free. -/
theorem freeOk_range (n : Nat) : FreeOk n ((List.range n).foldl (fun m i => m.insertBefore .freelist (.box i))
    (Links.alone TxLink)) (List.range n) := by
  have hall : ∀ k ≤ n, FreeOk n ((List.range k).foldl (fun m i => m.insertBefore .freelist (.box i))
      (Links.alone TxLink)) (List.range k) := by
    intro k
    induction k with
    | zero =>
        intro _
        refine ⟨(Rings.alone (txHeads [])).congr fun y hy => ⟨hy, ?_⟩, List.nodup_nil, by simp⟩
        cases y with
        | _ => rfl
    | succ k ih =>
        intro hk
        rw [List.range_succ, List.foldl_append]
        exact (ih (by omega)).insertBefore (by simp) hk
  exact hall n le_rfl

/-! ## The condition -/

/-- A thread is in a mode switch. -/
def TxPc.Switching : TxPc → Prop
  | .controlled => True
  | .switch _ _ => True
  | _ => False

instance TxPc.decidableSwitching : (p : TxPc) → Decidable p.Switching
  | .controlled => .isTrue trivial
  | .switch _ _ => .isTrue trivial
  | .idle => .isFalse id
  | .loop _ => .isFalse id
  | .queued _ => .isFalse id
  | .taken _ => .isFalse id
  | .mark _ _ => .isFalse id
  | .send _ _ _ => .isFalse id
  | .refused _ _ => .isFalse id
  | .again _ => .isFalse id
  | .wait _ _ _ => .isFalse id
  | .suspended _ _ _ => .isFalse id
  | .woken _ _ _ => .isFalse id
  | .done _ _ _ => .isFalse id
  | .release _ _ => .isFalse id
  | .privLoop _ => .isFalse id
  | .control _ => .isFalse id
  | .ret _ => .isFalse id

/-- The mailbox that a thread uses. -/
def TxPc.box (p : TxPc) : Option Nat := p.use.map Prod.snd

namespace TxSys

/-- Nobody uses the mailbox. -/
def Unused (s : TxSys) (no : Nat) : Prop := ∀ t ∈ s.active, (s.pc t).box ≠ some no

instance decidableUnused (s : TxSys) (no : Nat) : Decidable (s.Unused no) :=
  inferInstanceAs (Decidable (∀ t ∈ s.active, (s.pc t).box ≠ some no))

/-- The first mailbox in `freelist` is there, and nobody uses it. -/
def FirstUnused (s : TxSys) : TxLink → Prop
  | .freelist => False
  | .box no => s.Unused no

instance decidableFirstUnused (s : TxSys) : (l : TxLink) → Decidable (s.FirstUnused l)
  | .freelist => .isFalse id
  | .box no => s.decidableUnused no

/-- The condition on the step of a thread at this place. -/
def AllowedAt (s : TxSys) (ok : Bool) : TxPc → Prop
  -- a writer of normal mode that goes on in private mode, or in a mode switch, gets a mailbox of its own
  | .taken _ => s.privmode = true ∨ (∃ t ∈ s.active, (s.pc t).Switching) → s.FirstUnused (s.links.next .freelist)
  -- nothing is refused in private mode
  | .send true _ _ => ok = true
  -- a writer of private mode names a mailbox in private mode that nobody uses
  | .privLoop j => ∀ msg ∈ j.msgs.head?, msg.priv < s.sndboxnumber →
      s.privmode = true ∧ s.Unused msg.priv ∧ (s.listed msg.priv → (s.box msg.priv).result = .ok)
  -- the mode has not been switched since the test
  | .control priv => ok = true → s.privmode ≠ priv
  -- to private mode: the mailbox is free, and its last transmission went well
  | .switch true i => i < s.sndboxnumber → s.listed i ∧ (s.Unused i → (s.box i).result = .ok)
  -- to normal mode: nobody uses the mailbox
  | .switch false i => i < s.sndboxnumber → ¬ s.listed i ∧ s.Unused i
  | _ => True

instance decidableAllowedAt (s : TxSys) (ok : Bool) : (p : TxPc) → Decidable (s.AllowedAt ok p)
  | .taken _ => inferInstanceAs (Decidable (s.privmode = true ∨ (∃ t ∈ s.active, (s.pc t).Switching) →
      s.FirstUnused (s.links.next .freelist)))
  | .send true _ _ => inferInstanceAs (Decidable (ok = true))
  | .privLoop j => inferInstanceAs (Decidable (∀ msg ∈ j.msgs.head?, msg.priv < s.sndboxnumber →
      s.privmode = true ∧ s.Unused msg.priv ∧ (s.listed msg.priv → (s.box msg.priv).result = .ok)))
  | .control priv => inferInstanceAs (Decidable (ok = true → s.privmode ≠ priv))
  | .switch true i => inferInstanceAs (Decidable (i < s.sndboxnumber → s.listed i ∧
      (s.Unused i → (s.box i).result = .ok)))
  | .switch false i => inferInstanceAs (Decidable (i < s.sndboxnumber → ¬ s.listed i ∧ s.Unused i))
  | .send false _ _ => .isTrue trivial
  | .controlled => .isTrue trivial
  | .idle => .isTrue trivial
  | .loop _ => .isTrue trivial
  | .queued _ => .isTrue trivial
  | .mark _ _ => .isTrue trivial
  | .refused _ _ => .isTrue trivial
  | .again _ => .isTrue trivial
  | .wait _ _ _ => .isTrue trivial
  | .suspended _ _ _ => .isTrue trivial
  | .woken _ _ _ => .isTrue trivial
  | .done _ _ _ => .isTrue trivial
  | .release _ _ => .isTrue trivial
  | .ret _ => .isTrue trivial

/-- The condition on a step. In private mode no transmission fails. -/
def Allowed (s : TxSys) : TxAction → Prop
  | .step t ok => s.AllowedAt ok (s.pc t)
  | .event no ok => ok = false → ∀ t ∈ s.active, (s.pc t).use ≠ some (true, no)
  | _ => True

instance decidableAllowed (s : TxSys) : (a : TxAction) → Decidable (s.Allowed a)
  | .step t ok => s.decidableAllowedAt ok (s.pc t)
  | .event no ok => inferInstanceAs (Decidable (ok = false → ∀ t ∈ s.active, (s.pc t).use ≠ some (true, no)))
  | .write _ _ => .isTrue trivial
  | .setPriv _ _ => .isTrue trivial

/-! ## The invariant -/

structure Inv (s : TxSys) (free : List Nat) : Prop where
  list : FreeOk s.sndboxnumber s.links free
  active : ∀ t, s.pc t ≠ .idle → t ∈ s.active
  sem : SemOk s.sndboxnumber s.sem s.semQueue s.pc
  use : UseOk s.sndboxnumber s.pc
  mode : ModeOk s.sndboxnumber s.privmode free s.pc
  boxes : BoxOk s.box free s.pc

variable {s s' : TxSys} {free free' : List Nat} {t u : ThreadId} {p : TxPc} {no i : Nat} {b : Bool} {ok : Bool}

theorem box_eq_some {p : TxPc} : p.box = some no ↔ ∃ b, p.use = some (b, no) := by
  unfold TxPc.box
  rw [Option.map_eq_some_iff]
  constructor
  · rintro ⟨⟨b, k⟩, hu, rfl⟩
    exact ⟨b, hu⟩
  · rintro ⟨b, hu⟩
    exact ⟨(b, no), hu, rfl⟩

theorem pending_switching {p : TxPc} (h : p.Pending no) : p.Switching := by
  cases p with
  | controlled => exact trivial
  | switch priv i => exact trivial
  | _ => exact h.elim

namespace Inv

theorem mem_active {b : Bool} (h : s.Inv free) (ht : (s.pc t).use = some (b, no)) : t ∈ s.active := by
  apply h.active
  intro hpc
  rw [hpc] at ht
  cases ht

/-- Nobody uses the mailbox, in a call or not. -/
theorem unused (h : s.Inv free) (hno : s.Unused no) (u : ThreadId) (b : Bool) : (s.pc u).use ≠ some (b, no) := by
  intro hu
  exact hno u (h.mem_active hu) (box_eq_some.mpr ⟨b, hu⟩)

theorem listed_iff (h : s.Inv free) : s.listed no ↔ no ∈ free := h.list.listed

theorem active_update (h : s.Inv free) (ht : s.pc t ≠ .idle) (u : ThreadId)
    (hu : Function.update s.pc t p u ≠ .idle) : u ∈ s.active := by
  apply h.active
  by_cases hut : u = t
  · subst hut
    exact ht
  · rwa [Function.update_of_ne hut] at hu

/-- A thread goes on, and what its place means stays the same. -/
structure Quiet (s : TxSys) (t : ThreadId) (p : TxPc) : Prop where
  use : p.use = (s.pc t).use
  token : p.Token ↔ (s.pc t).Token
  pending : ∀ no < s.sndboxnumber, p.Pending no ↔ (s.pc t).Pending no
  queued : (∀ j, s.pc t ≠ .queued j) ∧ ∀ j, p ≠ .queued j
  phase : Phase s.box t p

theorem quiet (h : s.Inv free) (hq : Quiet s t p) (hidle : s.pc t ≠ .idle) : (s.setPc t p).Inv free where
  list := h.list
  active := h.active_update hidle
  sem := h.sem.move hq.queued.1 hq.queued.2 hq.token
  use := h.use.move (.inl hq.use)
  mode := h.mode.move h.list.lt hq.use hq.pending
  boxes := h.boxes.move hq.use hq.phase fun _ hm hm' => absurd hm' hm

/-- A thread changes the mailbox that it uses. -/
theorem own {x : SndBox} (h : s.Inv free) (ht : (s.pc t).use = some (b, no)) (huse : p.use = (s.pc t).use)
    (htoken : p.Token ↔ (s.pc t).Token) (hpend : ∀ k < s.sndboxnumber, p.Pending k ↔ (s.pc t).Pending k)
    (hq : (∀ j, s.pc t ≠ .queued j) ∧ ∀ j, p ≠ .queued j)
    (hphase : Phase (Function.update s.box no x) t p) : ((s.setBox no x).setPc t p).Inv free where
  list := h.list
  active := by
    apply h.active_update
    intro hidle
    rw [hidle] at ht
    cases ht
  sem := h.sem.move hq.1 hq.2 htoken
  use := h.use.move (.inl huse)
  mode := h.mode.move h.list.lt huse hpend
  boxes := h.boxes.own h.use ht (huse.trans ht) hphase fun _ hk => Function.update_of_ne hk _ _

/-- A thread releases the semaphore. -/
theorem release (h : s.Inv free) (ht : (s.pc t).Token) (huse : (s.pc t).use = none) (hp : ¬ p.Token)
    (hpuse : p.use = none) (hpend : ∀ no < s.sndboxnumber, p.Pending no ↔ (s.pc t).Pending no)
    (hq : ∀ j, p ≠ .queued j) (hphase : ∀ box, Phase box t p) : (s.semRelease.setPc t p).Inv free := by
  have hidle : s.pc t ≠ .idle := by
    intro hpc
    rw [hpc] at ht
    exact ht
  have hsem := h.sem
  unfold semRelease
  cases hqueue : s.semQueue with
  | nil =>
      rw [hqueue] at hsem
      refine ⟨h.list, h.active_update hidle, ?_, h.use.move (.inr hpuse),
        h.mode.move h.list.lt (hpuse.trans huse.symm) hpend,
        h.boxes.move (hpuse.trans huse.symm) (hphase _) fun _ hm hm' => absurd hm' hm⟩
      exact hsem.release ht hp hq
  | cons u q =>
      rw [hqueue] at hsem
      obtain ⟨j, hu⟩ := (hsem.queued u).mp List.mem_cons_self
      have hresume : resume (s.pc u) = .taken j := by rw [hu]; rfl
      have htu : t ≠ u := by
        rintro rfl
        rw [hu] at ht
        exact ht
      have ht' : Function.update s.pc u (.taken j) t = s.pc t := Function.update_of_ne htu _ _
      have huse' : (TxPc.taken j).use = (s.pc u).use := by rw [hu]; rfl
      have hpend' : ∀ no < s.sndboxnumber, (TxPc.taken j).Pending no ↔ (s.pc u).Pending no := by
        intro no _
        rw [hu]
        exact Iff.rfl
      have hsem' := hsem.hand_over hu ht hp hq
      have hact : ∀ v, Function.update (Function.update s.pc u (.taken j)) t p v ≠ .idle → v ∈ s.active := by
        intro v hv
        by_cases hvt : v = t
        · subst hvt
          exact h.active v hidle
        · rw [Function.update_of_ne hvt] at hv
          exact h.active_update (by rw [hu]; simp) v hv
      dsimp only
      rw [hresume]
      refine ⟨h.list, hact, hsem', (h.use.move (.inl huse')).move (.inr hpuse),
        (h.mode.move h.list.lt huse' hpend').move h.list.lt (by rw [ht', hpuse, huse]) (by rw [ht']; exact hpend),
        (h.boxes.move huse' trivial fun _ hm hm' => absurd hm' hm).move (by rw [ht', hpuse, huse]) (hphase _)
          fun _ hm hm' => absurd hm' hm⟩

/-- A call returns. -/
theorem leave {j : Job} (h : s.Inv free) (hq : Quiet s t (.ret j.sent)) (hidle : s.pc t ≠ .idle) :
    (s.leave t j).Inv free := h.quiet hq hidle

/-! ### Normal mode -/

theorem semTake {j : Job} (h : s.Inv free) (hpc : s.pc t = .loop j) : (s.semTake t j).Inv free := by
  have hidle : s.pc t ≠ .idle := by simp [hpc]
  have hq : ∀ j, s.pc t ≠ .queued j := by simp [hpc]
  have huse : (s.pc t).use = none := by rw [hpc]; rfl
  have hpend : ∀ p : TxPc, (∀ no, ¬ p.Pending no) → ∀ no < s.sndboxnumber, p.Pending no ↔ (s.pc t).Pending no := by
    intro p hp no _
    rw [hpc]
    exact iff_of_false (hp no) id
  have hno : ¬ (s.pc t).Token := by
    rw [hpc]
    exact id
  unfold TxSys.semTake
  split_ifs with hsem
  · exact ⟨h.list, h.active_update hidle, h.sem.take hsem hq (by simp) hno trivial, h.use.move (.inr rfl),
      h.mode.move h.list.lt huse.symm (hpend _ fun _ => id),
      h.boxes.move huse.symm trivial fun _ hm hm' => absurd hm' hm⟩
  · exact ⟨h.list, h.active_update hidle, h.sem.queue_up (by omega) hq hno, h.use.move (.inr rfl),
      h.mode.move h.list.lt huse.symm (hpend _ fun _ => id),
      h.boxes.move huse.symm trivial fun _ hm hm' => absurd hm' hm⟩

/-- In normal mode, with no mode switch under way, a writer that has taken the semaphore finds a mailbox that
nobody uses. -/
theorem first_unused {j : Job} (h : s.Inv free) (hpc : s.pc t = .taken j) (hmode : s.privmode = false)
    (hno : ∀ u ∈ s.active, ¬ (s.pc u).Switching) : ∃ no l, free = no :: l ∧ s.Unused no := by
  have hpending : ∀ u no, ¬ (s.pc u).Pending no := by
    intro u no hp
    refine hno u (h.active u ?_) (pending_switching hp)
    intro hidle
    rw [hidle] at hp
    exact hp
  have hpool : ∀ no < s.sndboxnumber, Pooled free s.pc no := by
    intro no hlt
    obtain ⟨k, hk, hiff⟩ := h.mode.modes no hlt
    obtain rfl := hk.unique (Counts.zero fun u => hpending u no)
    exact hiff.mpr (iff_of_true hmode ⟨0, rfl⟩)
  cases free with
  | cons no l =>
      refine ⟨no, l, rfl, fun u _ hu => ?_⟩
      obtain ⟨b, hu⟩ := box_eq_some.mp hu
      cases b with
      | false => exact h.mode.normal u no hu List.mem_cons_self
      | true =>
          obtain ⟨v, hv⟩ := h.mode.shared u no hu List.mem_cons_self
          exact hpending v no hv
  | nil =>
      -- each mailbox has a user that has taken the semaphore, and so has this thread, which has none
      exfalso
      obtain ⟨k, ⟨P, hP, hcard⟩, hsum⟩ := h.sem.tokens
      have huser : ∀ no < s.sndboxnumber, ∃ u, (s.pc u).use = some (false, no) := fun no hlt =>
        (hpool no hlt).resolve_left List.not_mem_nil
      choose! f hf using huser
      have htoken : ∀ u no, (s.pc u).use = some (false, no) → u ∈ P := fun u no hu =>
        (hP u).mpr (token_of_use hu)
      have htaken : (s.pc t).Token := by
        rw [hpc]
        exact trivial
      have ht : t ∈ P := (hP t).mpr htaken
      have hle : (Finset.range s.sndboxnumber).card ≤ (P.erase t).card := by
        apply Finset.card_le_card_of_injOn f
        · intro no hlt
          have hu := hf no (Finset.mem_range.mp hlt)
          refine Finset.mem_erase.mpr ⟨?_, htoken _ no hu⟩
          rintro he
          rw [he, hpc] at hu
          cases hu
        · intro no hlt no' hlt' he
          have hu := hf no (Finset.mem_range.mp hlt)
          have hu' := hf no' (Finset.mem_range.mp hlt')
          rw [he, hu'] at hu
          exact (Prod.mk.inj (Option.some.inj hu)).2.symm
      have hpos : 0 < P.card := Finset.card_pos.mpr ⟨t, ht⟩
      rw [Finset.card_range, Finset.card_erase_of_mem ht] at hle
      omega

/-- The first mailbox, for a writer of normal mode. -/
theorem first {j : Job} (h : s.Inv free) (hpc : s.pc t = .taken j) (ha : s.AllowedAt ok (.taken j)) :
    ∃ no l, free = no :: l ∧ s.Unused no := by
  by_cases hswitch : s.privmode = true ∨ ∃ u ∈ s.active, (s.pc u).Switching
  · have hfirst := ha hswitch
    cases free with
    | nil =>
        rw [h.list.freelist_nil] at hfirst
        exact hfirst.elim
    | cons no l =>
        rw [h.list.next_freelist] at hfirst
        exact ⟨no, l, rfl, hfirst⟩
  · have hmode : s.privmode = false := by
      cases hp : s.privmode with
      | true => exact absurd (.inl hp) hswitch
      | false => rfl
    exact h.first_unused hpc hmode fun u hu hsw => hswitch (.inr ⟨u, hu, hsw⟩)

theorem taken {j : Job} (h : s.Inv free) (hpc : s.pc t = .taken j) (ha : s.AllowedAt ok (.taken j)) :
    ∃ s' free', s.step t ok = some s' ∧ s'.Inv free' := by
  obtain ⟨no, l, rfl, hun⟩ := h.first hpc ha
  have hidle : s.pc t ≠ .idle := by simp [hpc]
  have huse : (s.pc t).use = none := by rw [hpc]; rfl
  have hlt := h.list.lt no List.mem_cons_self
  have hclear := (h.boxes.unused no (h.unused hun)).1
  simp only [step, hpc, h.list.next_freelist]
  refine ⟨_, l, rfl, @FreeOk.remove _ _ _ [] _ h.list, h.active_update hidle, ?_, ?_, ?_, ?_⟩
  · exact h.sem.move (by simp [hpc]) (by simp) (by rw [hpc]; exact Iff.rfl)
  · exact h.use.gain (b := false) rfl hlt (h.unused hun)
  · refine h.mode.take h.list.lt (List.nodup_cons.mp h.list.nodup).1 huse rfl fun k _ => ?_
    rw [hpc]
    exact Iff.rfl
  · refine h.boxes.gain (b := false) (h.unused hun) rfl hclear (fun _ _ => rfl) (fun k hk hm => ?_) huse
    exact (List.mem_cons.mp hm).resolve_left hk

/-- A writer of normal mode puts its mailbox back. -/
theorem give {links : Links TxLink} (h : s.Inv free) (hl : FreeOk s.sndboxnumber links free')
    (hfree : ∀ k, k ∈ free' ↔ k = no ∨ k ∈ free) (ht : (s.pc t).use = some (false, no))
    (hpuse : p.use = none) (htoken : p.Token ↔ (s.pc t).Token)
    (hpend : ∀ k < s.sndboxnumber, p.Pending k ↔ (s.pc t).Pending k)
    (hq : (∀ j, s.pc t ≠ .queued j) ∧ ∀ j, p ≠ .queued j) (hphase : ∀ box, Phase box t p) (hclear : Clear (s.box no)) :
    ((s.setLinks links).setPc t p).Inv free' where
  list := hl
  active := by
    apply h.active_update
    intro hidle
    rw [hidle] at ht
    cases ht
  sem := h.sem.move hq.1 hq.2 htoken
  use := h.use.move (.inr hpuse)
  mode := h.mode.give h.use hl.lt hfree ht hpuse hpend
  boxes := h.boxes.drop ht (hphase _) hclear (fun hm => absurd ((hfree no).mpr (.inl rfl)) hm)
    fun k hk => (hfree k).mpr (.inr hk)

theorem Quiet.of_pc {q : TxPc} (hpc : s.pc t = q) (huse : p.use = q.use) (htoken : p.Token ↔ q.Token)
    (hpend : ∀ no < s.sndboxnumber, p.Pending no ↔ q.Pending no) (hq : ∀ j, q ≠ .queued j) (hp : ∀ j, p ≠ .queued j)
    (hphase : Phase s.box t p) : Quiet s t p := by
  subst hpc
  exact ⟨huse, htoken, hpend, ⟨hq, hp⟩, hphase⟩

/-- `rt_completion_wait` for the message of the thread. -/
theorem completionWait {w : Why} {j : Job} (h : s.Inv free) (hpc : s.pc t = .wait w j no) :
    ∃ s', s.completionWait t w j no = some s' ∧ s'.Inv free := by
  have hphase := h.boxes.phase t
  rw [hpc] at hphase
  obtain ⟨hw, hwaiter, hcase⟩ := hphase
  obtain ⟨priv, huse⟩ := use_wait hw no
  have ht : (s.pc t).use = some (priv, no) := by rw [hpc]; exact huse
  have htoken : ∀ p : TxPc, (p.Token ↔ w = .normal) → (p.Token ↔ (s.pc t).Token) := by
    intro p hp
    rw [hpc]
    exact hp
  have hpend : ∀ p : TxPc, (∀ k, ¬ p.Pending k) → ∀ k < s.sndboxnumber, p.Pending k ↔ (s.pc t).Pending k := by
    intro p hp k _
    rw [hpc]
    exact iff_of_false (hp k) id
  have hq : ∀ j, s.pc t ≠ .queued j := by simp [hpc]
  unfold TxSys.completionWait
  rcases hcase with ⟨hinflight, hflag⟩ | ⟨hended, hflag⟩
  · rw [if_neg (by simp [hflag]), if_pos hwaiter]
    refine ⟨_, rfl, h.own ht (huse.trans ht.symm) (htoken _ Iff.rfl) (hpend _ fun _ => id) ⟨hq, by simp⟩ ?_⟩
    simp only [Phase, Function.update_self]
    exact ⟨hw, trivial, hflag, hinflight⟩
  · rw [if_pos hflag]
    refine ⟨_, rfl, h.own ht (huse.trans ht.symm) (htoken _ Iff.rfl) (hpend _ fun _ => id) ⟨hq, by simp⟩ ?_⟩
    simp only [Phase, Function.update_self]
    exact ⟨hw, hwaiter, hended, trivial⟩

/-! ### Private mode -/

/-- A writer of private mode takes the mailbox that its message names. -/
theorem privTake {j : Job} (h : s.Inv free) (hpc : s.pc t = .privLoop j) (hmode : s.privmode = true)
    (hun : s.Unused no) (hlt : no < s.sndboxnumber) :
    ((s.setBox no { s.box no with result := .wait }).setPc t (.send true j no)).Inv free := by
  have huse : (s.pc t).use = none := by rw [hpc]; rfl
  have hclear := (h.boxes.unused no (h.unused hun)).1
  have hmode' := h.mode
  rw [hmode] at hmode'
  refine ⟨h.list, h.active_update (by simp [hpc]), h.sem.move (by simp [hpc]) (by simp) ?_,
    h.use.gain (b := true) rfl hlt (h.unused hun), ?_, ?_⟩
  · rw [hpc]
    exact iff_of_false Bool.noConfusion id
  · change ModeOk s.sndboxnumber s.privmode free _
    rw [hmode]
    refine hmode'.gain h.list.lt huse rfl fun k _ => ?_
    rw [hpc]
    exact Iff.rfl
  · refine h.boxes.gain (b := true) (h.unused hun) rfl ?_ (fun k hk => Function.update_of_ne hk _ _)
      (fun _ _ hm => hm) huse
    change Clear (Function.update s.box no _ no)
    rw [Function.update_self]
    exact hclear

/-- It is through with its mailbox. -/
theorem privDone {j : Job} (h : s.Inv free) (hpc : s.pc t = .done .priv j no) :
    (s.box no).result = .ok ∧ (s.setPc t (.privLoop j.next)).Inv free := by
  have hphase := h.boxes.phase t
  rw [hpc] at hphase
  obtain ⟨-, hwaiter, ⟨hinflight, hok⟩, hflag⟩ := hphase
  have ht : (s.pc t).use = some (true, no) := by rw [hpc]; rfl
  refine ⟨hok rfl, h.list, h.active_update (by simp [hpc]), h.sem.move (by simp [hpc]) (by simp) ?_,
    h.use.move (.inr rfl), ?_, ?_⟩
  · rw [hpc]
    exact iff_of_false id (by simp [TxPc.Token])
  · refine h.mode.drop h.list.lt ht rfl fun k _ => ?_
    rw [hpc]
    exact Iff.rfl
  · exact h.boxes.drop ht trivial ⟨hflag, hwaiter, hinflight⟩ (fun _ => hok rfl) fun _ hm => hm

/-! ### The mode -/

theorem control {priv : Bool} (h : s.Inv free) (hpc : s.pc t = .control priv) (hne : s.privmode ≠ priv) :
    ({ s with privmode := priv }.setPc t .controlled).Inv free := by
  have hflip : priv = !s.privmode := by
    cases priv with
    | true => simpa using hne
    | false => simpa using hne
  refine ⟨h.list, h.active_update (by simp [hpc]), h.sem.move (by simp [hpc]) (by simp) ?_, h.use.move (.inr rfl),
    ?_, h.boxes.move (by rw [hpc]; rfl) trivial fun _ hm hm' => absurd hm' hm⟩
  · rw [hpc]
    exact Iff.rfl
  · rw [hflip]
    exact h.mode.control (by rw [hpc]; rfl) rfl (fun no => by rw [hpc]; exact id) fun _ => trivial

/-- A mode switch looks at a mailbox. -/
theorem switch {priv : Bool} (h : s.Inv free) (hpc : s.pc t = .switch priv i)
    (ha : s.AllowedAt ok (.switch priv i)) (hlt : i < s.sndboxnumber) :
    ∃ free', ((s.switchBox priv i).setPc t (.switch priv (i + 1))).Inv free' := by
  have huse : (s.pc t).use = none := by rw [hpc]; rfl
  have hpend : (s.pc t).Pending i := by
    rw [hpc]
    exact le_rfl
  have hdone : ¬ (TxPc.switch priv (i + 1)).Pending i := Nat.not_succ_le_self i
  have hother : ∀ no, no ≠ i → ((TxPc.switch priv (i + 1)).Pending no ↔ (s.pc t).Pending no) := by
    intro no hno
    rw [hpc]
    change i + 1 ≤ no ↔ i ≤ no
    omega
  have hsem : SemOk s.sndboxnumber s.sem s.semQueue (Function.update s.pc t (.switch priv (i + 1))) :=
    h.sem.move (by simp [hpc]) (by simp) (by rw [hpc]; exact Iff.rfl)
  have hact := h.active_update (p := .switch priv (i + 1)) (t := t) (by simp [hpc])
  cases priv with
  | true =>
      obtain ⟨hlisted, hok⟩ := ha hlt
      have hmem := h.listed_iff.mp hlisted
      obtain ⟨l₁, l₂, rfl⟩ := List.mem_iff_append.mp hmem
      obtain ⟨hnot, -⟩ := List.nodup_cons.mp (List.perm_middle.nodup_iff.mp h.list.nodup)
      have hfree : ∀ no, no ≠ i → (no ∈ l₁ ++ l₂ ↔ no ∈ l₁ ++ i :: l₂) := by
        intro no hno
        simp only [List.mem_append, List.mem_cons]
        tauto
      unfold switchBox
      rw [if_pos rfl, if_pos hlisted]
      refine ⟨l₁ ++ l₂, h.list.remove, hact, hsem, h.use.move (.inr rfl), ?_, ?_⟩
      · exact h.mode.switch huse rfl hpend hdone hother hfree (iff_of_false hnot (not_not.mpr hmem))
          fun hm => absurd hm hnot
      · refine h.boxes.move huse.symm trivial fun k hm hm' hun => ?_
        have hki : k = i := by
          by_contra hne
          exact hm ((hfree k hne).mpr hm')
        subst hki
        refine hok fun u _ hbox => ?_
        obtain ⟨b, hb⟩ := box_eq_some.mp hbox
        exact hun u b hb
  | false =>
      obtain ⟨hlisted, hun⟩ := ha hlt
      have hnot : i ∉ free := mt h.listed_iff.mpr hlisted
      have hok := (h.boxes.unused i (h.unused hun)).2 hnot
      unfold switchBox
      rw [if_neg Bool.noConfusion, if_pos hok]
      refine ⟨free ++ [i], h.list.insertBefore hnot hlt, hact, hsem, h.use.move (.inr rfl), ?_, ?_⟩
      · refine h.mode.switch huse rfl hpend hdone hother (fun no hno => ?_) (iff_of_true (by simp) hnot)
          fun _ => h.unused hun
        simp [hno]
      · exact h.boxes.move huse.symm trivial fun k hm hm' => absurd (List.mem_append_left _ hm') hm

/-! ### Every step -/

theorem step (h : s.Inv free) (ha : s.AllowedAt ok (s.pc t)) (he : s.step t ok = some s') :
    ∃ free', s'.Inv free' := by
  have hphase := h.boxes.phase t
  unfold TxSys.step at he
  cases hpc : s.pc t with
  | idle =>
      simp only [hpc] at he
      cases he
  | queued j =>
      simp only [hpc] at he
      cases he
  | suspended w j no =>
      simp only [hpc] at he
      cases he
  | loop j =>
      simp only [hpc] at he
      split_ifs at he
      · obtain rfl := Option.some.inj he
        exact ⟨free, h.leave (.of_pc hpc rfl Iff.rfl (fun _ _ => Iff.rfl) (by simp) (by simp) trivial) (by simp [hpc])⟩
      · obtain rfl := Option.some.inj he
        exact ⟨free, h.semTake hpc⟩
  | taken j =>
      rw [hpc] at ha
      obtain ⟨s₁, free', hs₁, hinv⟩ := h.taken hpc ha
      unfold TxSys.step at hs₁
      obtain rfl := Option.some.inj (he.symm.trans hs₁)
      exact ⟨free', hinv⟩
  | mark j no =>
      simp only [hpc] at he
      obtain rfl := Option.some.inj he
      rw [hpc] at hphase
      refine ⟨free, h.own (b := false) (by rw [hpc]; rfl) (by rw [hpc]; rfl) (by rw [hpc]; exact iff_of_true rfl trivial)
        (fun _ _ => by rw [hpc]; exact Iff.rfl) ⟨by simp [hpc], by simp⟩ ?_⟩
      simp only [Phase, Function.update_self]
      exact hphase
  | send priv j no =>
      rw [hpc] at hphase ha
      obtain ⟨hflag, hwaiter, hinflight⟩ := hphase
      have hsent : ∀ w : Why, w.mode = some priv →
          ((s.setBox no { s.box no with inflight := true }).setPc t (.wait w j no)).Inv free := by
        intro w hw
        have hbusy : w ≠ .busy := by
          rintro rfl
          cases hw
        have htoken : w = .normal ↔ priv = false := by
          cases w with
          | normal => exact iff_of_true rfl (Option.some.inj hw).symm
          | priv => exact iff_of_false (by simp) fun hp => Bool.noConfusion (hp.symm.trans (Option.some.inj hw).symm)
          | busy => cases hw
        refine h.own (b := priv) (by rw [hpc]; rfl) (by rw [hpc]; simp [TxPc.use, hw]) (by rw [hpc]; exact htoken)
          (fun _ _ => by rw [hpc]; exact Iff.rfl) ⟨by simp [hpc], by simp⟩ ?_
        simp only [Phase, Function.update_self]
        exact ⟨hbusy, hwaiter, .inl ⟨trivial, hflag⟩⟩
      cases priv with
      | true =>
          have hok : ok = true := ha
          simp only [hpc, hok] at he
          obtain rfl := Option.some.inj he
          exact ⟨free, hsent .priv rfl⟩
      | false =>
          simp only [hpc, Bool.false_eq_true, if_false] at he
          split_ifs at he
          · obtain rfl := Option.some.inj he
            exact ⟨free, hsent .normal rfl⟩
          · obtain rfl := Option.some.inj he
            exact ⟨free, h.quiet (.of_pc hpc rfl (iff_of_true trivial rfl) (fun _ _ => Iff.rfl) (by simp) (by simp)
              ⟨hflag, hwaiter, hinflight⟩) (by simp [hpc])⟩
  | refused j no =>
      simp only [hpc] at he
      obtain rfl := Option.some.inj he
      rw [hpc] at hphase
      have ht : (s.pc t).use = some (false, no) := by rw [hpc]; rfl
      exact ⟨no :: free, h.give (h.list.insertAfter (h.mode.normal t no ht) (h.use.lt t false no ht))
        (fun k => List.mem_cons) ht rfl (by rw [hpc]; exact Iff.rfl) (fun _ _ => by rw [hpc]; exact Iff.rfl)
        ⟨by simp [hpc], by simp⟩ (fun _ => trivial) hphase⟩
  | again j =>
      simp only [hpc] at he
      obtain rfl := Option.some.inj he
      exact ⟨free, h.release (by rw [hpc]; exact trivial) (by rw [hpc]; rfl) id rfl
        (fun _ _ => by rw [hpc]; exact Iff.rfl) (by simp) fun _ => trivial⟩
  | wait w j no =>
      simp only [hpc] at he
      obtain ⟨s₁, hs₁, hinv⟩ := h.completionWait hpc
      obtain rfl := Option.some.inj (he.symm.trans hs₁)
      exact ⟨free, hinv⟩
  | woken w j no =>
      simp only [hpc] at he
      obtain rfl := Option.some.inj he
      rw [hpc] at hphase
      obtain ⟨hw, hwaiter, hended, -⟩ := hphase
      obtain ⟨priv, huse⟩ := use_wait hw no
      refine ⟨free, h.own (b := priv) (by rw [hpc]; exact huse) (by rw [hpc]; rfl) (by rw [hpc]; exact Iff.rfl)
        (fun _ _ => by rw [hpc]; exact Iff.rfl) ⟨by simp [hpc], by simp⟩ ?_⟩
      simp only [Phase, Function.update_self]
      exact ⟨hw, hwaiter, hended, trivial⟩
  | done w j no =>
      rw [hpc] at hphase
      obtain ⟨hw, hwaiter, ⟨hinflight, hok⟩, hflag⟩ := hphase
      cases w with
      | normal =>
          simp only [hpc] at he
          obtain rfl := Option.some.inj he
          have ht : (s.pc t).use = some (false, no) := by rw [hpc]; rfl
          have hnot := h.mode.normal t no ht
          rw [if_neg (mt h.listed_iff.mp hnot)]
          exact ⟨free ++ [no], h.give (h.list.insertBefore hnot (h.use.lt t false no ht))
            (fun k => by rw [List.mem_append, List.mem_singleton, or_comm]) ht rfl
            (by rw [hpc]; exact iff_of_true trivial rfl) (fun _ _ => by rw [hpc]; exact Iff.rfl)
            ⟨by simp [hpc], by simp⟩ (fun _ => trivial) ⟨hflag, hwaiter, hinflight⟩⟩
      | priv =>
          obtain ⟨hres, hinv⟩ := h.privDone hpc
          simp only [hpc] at he
          rw [if_pos hres] at he
          obtain rfl := Option.some.inj he
          exact ⟨free, hinv⟩
      | busy => exact absurd rfl hw
  | release j result =>
      simp only [hpc] at he
      have hrelease : ∀ p : TxPc, ¬ p.Token → p.use = none → (∀ no, ¬ p.Pending no) → (∀ j, p ≠ .queued j) →
          (∀ box, Phase box t p) → (s.semRelease.setPc t p).Inv free := fun p htoken huse hpend hq hph =>
        h.release (by rw [hpc]; exact trivial) (by rw [hpc]; rfl) htoken huse
          (fun no _ => by rw [hpc]; exact iff_of_false (hpend no) id) hq hph
      split_ifs at he
      · obtain rfl := Option.some.inj he
        exact ⟨free, hrelease _ id rfl (fun _ => id) (by simp) fun _ => trivial⟩
      · obtain rfl := Option.some.inj he
        exact ⟨free, hrelease _ id rfl (fun _ => id) (by simp) fun _ => trivial⟩
  | privLoop j =>
      rw [hpc] at ha
      have hleave : (s.leave t j).Inv free :=
        h.leave (.of_pc hpc rfl Iff.rfl (fun _ _ => Iff.rfl) (by simp) (by simp) trivial) (by simp [hpc])
      simp only [hpc] at he
      split at he
      · obtain rfl := Option.some.inj he
        exact ⟨free, hleave⟩
      · rename_i msg msgs hmsgs
        split_ifs at he with hrange hres
        · obtain rfl := Option.some.inj he
          exact ⟨free, hleave⟩
        · have hlt : msg.priv < s.sndboxnumber := Nat.lt_of_not_le hrange
          obtain ⟨hmode, hun, hok⟩ := ha msg (by simp [hmsgs]) hlt
          exfalso
          by_cases hlisted : s.listed msg.priv
          · exact hres (hok hlisted)
          · exact hres ((h.boxes.unused _ (h.unused hun)).2 (mt h.listed_iff.mpr hlisted))
        · obtain rfl := Option.some.inj he
          have hlt : msg.priv < s.sndboxnumber := Nat.lt_of_not_le hrange
          obtain ⟨hmode, hun, -⟩ := ha msg (by simp [hmsgs]) hlt
          exact ⟨free, h.privTake hpc hmode hun hlt⟩
  | control priv =>
      rw [hpc] at ha
      simp only [hpc] at he
      split_ifs at he with hok
      · obtain rfl := Option.some.inj he
        exact ⟨free, h.control hpc (ha hok)⟩
      · obtain rfl := Option.some.inj he
        exact ⟨free, h.quiet (.of_pc hpc rfl Iff.rfl (fun _ _ => Iff.rfl) (by simp) (by simp) trivial) (by simp [hpc])⟩
  | controlled =>
      simp only [hpc] at he
      obtain rfl := Option.some.inj he
      exact ⟨free, h.quiet (.of_pc hpc rfl Iff.rfl (fun k _ => iff_of_true (Nat.zero_le k) trivial) (by simp) (by simp)
        trivial) (by simp [hpc])⟩
  | switch priv i =>
      rw [hpc] at ha
      simp only [hpc] at he
      split_ifs at he with hlt
      · obtain rfl := Option.some.inj he
        exact h.switch hpc ha hlt
      · obtain rfl := Option.some.inj he
        refine ⟨free, h.quiet (.of_pc hpc rfl Iff.rfl (fun k hk => iff_of_false id fun hle => ?_) (by simp) (by simp)
          trivial) (by simp [hpc])⟩
        exact hlt (Nat.lt_of_le_of_lt hle hk)
  | ret sent =>
      simp only [hpc] at he
      obtain rfl := Option.some.inj he
      refine ⟨free, h.list, fun u hu => ?_, h.sem.move (by simp [hpc]) (by simp) (by rw [hpc]; exact Iff.rfl),
        h.use.move (.inr rfl), h.mode.move h.list.lt (by rw [hpc]; rfl) (fun _ _ => by rw [hpc]; exact Iff.rfl),
        h.boxes.move (by rw [hpc]; rfl) trivial fun _ hm hm' => absurd hm' hm⟩
      have hut : u ≠ t := by
        rintro rfl
        exact hu (Function.update_self _ _ _)
      exact (List.mem_erase_of_ne hut).mpr (h.active u fun hidle => hu ((Function.update_of_ne hut _ _).trans hidle))

/-- A call begins. -/
theorem start (h : s.Inv free) (hq : Quiet s t p) : Inv { s.setPc t p with active := t :: s.active } free where
  list := h.list
  active := by
    intro u hu
    by_cases hut : u = t
    · exact hut ▸ List.mem_cons_self
    · exact List.mem_cons_of_mem t (h.active u fun hidle => hu ((Function.update_of_ne hut _ _).trans hidle))
  sem := h.sem.move hq.queued.1 hq.queued.2 hq.token
  use := h.use.move (.inl hq.use)
  mode := h.mode.move h.list.lt hq.use hq.pending
  boxes := h.boxes.move hq.use hq.phase fun _ hm hm' => absurd hm' hm

theorem setBox_setBox (s : TxSys) (no : Nat) (x y : SndBox) : (s.setBox no x).setBox no y = s.setBox no y := by
  unfold setBox
  dsimp only
  rw [Function.update_idem]

theorem setBox_self (s : TxSys) (no : Nat) (x : SndBox) : (s.setBox no x).box no = x := Function.update_self _ _ _

theorem setBox_setPc_self (s : TxSys) (no : Nat) (x : SndBox) (t : ThreadId) :
    (s.setBox no x).setPc t (s.pc t) = s.setBox no x := by
  unfold setPc setBox
  dsimp only
  rw [Function.update_eq_self]

/-- The user of a mailbox with a message in flight waits for this. -/
theorem inflight_user (h : s.Inv free) (hinflight : (s.box no).inflight = true) :
    ∃ t w j, w ≠ .busy ∧ (s.box no).flag = false ∧
      (s.pc t = .wait w j no ∧ (s.box no).waiter = none ∨
        s.pc t = .suspended w j no ∧ (s.box no).waiter = some t) := by
  have hnot : ¬ (s.box no).inflight = false := by simp [hinflight]
  have hused : ∃ t b, (s.pc t).use = some (b, no) := by
    by_contra hun
    push Not at hun
    exact hnot (h.boxes.unused no hun).1.2.2
  obtain ⟨t, b, ht⟩ := hused
  have hphase := h.boxes.phase t
  have hno : ∀ {w : Why} {k : Nat}, w.mode.map (fun priv => (priv, k)) = some (b, no) → k = no := by
    intro w k hw
    obtain ⟨priv, -, he⟩ := Option.map_eq_some_iff.mp hw
    exact (Prod.mk.inj he).2
  cases hpc : s.pc t with
  | mark j k =>
      rw [hpc] at ht hphase
      obtain ⟨-, rfl⟩ := Prod.mk.inj (Option.some.inj ht)
      exact absurd hphase.2.2 hnot
  | send priv j k =>
      rw [hpc] at ht hphase
      obtain ⟨-, rfl⟩ := Prod.mk.inj (Option.some.inj ht)
      exact absurd hphase.2.2 hnot
  | refused j k =>
      rw [hpc] at ht hphase
      obtain ⟨-, rfl⟩ := Prod.mk.inj (Option.some.inj ht)
      exact absurd hphase.2.2 hnot
  | wait w j k =>
      rw [hpc] at ht hphase
      obtain rfl := hno ht
      obtain ⟨hw, hwaiter, ⟨-, hflag⟩ | ⟨⟨hend, -⟩, -⟩⟩ := hphase
      · exact ⟨t, w, j, hw, hflag, .inl ⟨hpc, hwaiter⟩⟩
      · exact absurd hend hnot
  | suspended w j k =>
      rw [hpc] at ht hphase
      obtain rfl := hno ht
      obtain ⟨hw, hwaiter, hflag, -⟩ := hphase
      exact ⟨t, w, j, hw, hflag, .inr ⟨hpc, hwaiter⟩⟩
  | woken w j k =>
      rw [hpc] at ht hphase
      obtain rfl := hno ht
      exact absurd hphase.2.2.1.1 hnot
  | done w j k =>
      rw [hpc] at ht hphase
      obtain rfl := hno ht
      exact absurd hphase.2.2.1.1 hnot
  | _ =>
      rw [hpc] at ht
      cases ht

/-- A transmission ends. -/
theorem event (h : s.Inv free) (ha : s.Allowed (.event no ok)) (he : s.exec (.event no ok) = some s') :
    s'.Inv free := by
  simp only [exec] at he
  generalize hresult : (if ok = true then SndResult.ok else SndResult.err) = result at he
  split_ifs at he with hinflight
  obtain rfl := Option.some.inj he
  obtain ⟨t, w, j, hw, hflag, hcase⟩ := h.inflight_user hinflight
  obtain ⟨priv, huse⟩ := use_wait hw no
  have hended : ∀ b : SndBox, (s.pc t).use = some (priv, no) → b.inflight = false → b.result = result →
      Ended w b := by
    intro b ht hb hres
    refine ⟨hb, ?_⟩
    rintro rfl
    have hpriv : priv = true := (Prod.mk.inj (Option.some.inj huse)).1.symm
    subst hpriv
    cases ok with
    | true => exact hres.trans hresult.symm
    | false => exact absurd ht (ha rfl t (h.mem_active ht))
  unfold completionDone
  rw [setBox_self]
  dsimp only
  rw [if_neg (by simp [hflag])]
  rcases hcase with ⟨hpc, hwaiter⟩ | ⟨hpc, hwaiter⟩
  · have ht : (s.pc t).use = some (priv, no) := by rw [hpc]; exact huse
    rw [hwaiter]
    dsimp only
    rw [setBox_setBox, ← setBox_setPc_self s no _ t]
    refine h.own ht rfl Iff.rfl (fun _ _ => Iff.rfl) ⟨by simp [hpc], by simp [hpc]⟩ ?_
    rw [hpc]
    simp only [Phase, Function.update_self]
    exact ⟨hw, trivial, .inr ⟨hended _ ht rfl rfl, trivial⟩⟩
  · have ht : (s.pc t).use = some (priv, no) := by rw [hpc]; exact huse
    rw [hwaiter]
    dsimp only
    rw [setBox_setBox]
    have hwake : ∀ x : SndBox, wake ((s.setBox no x).pc t) = .woken w j no := by
      intro x
      change wake (s.pc t) = _
      rw [hpc]
      rfl
    rw [hwake]
    refine h.own ht (by rw [hpc]; rfl) (by rw [hpc]; exact Iff.rfl) (fun _ _ => by rw [hpc]; exact Iff.rfl)
      ⟨by simp [hpc], by simp⟩ ?_
    simp only [Phase, Function.update_self]
    exact ⟨hw, trivial, hended _ ht rfl rfl, trivial⟩

theorem exec {a : TxAction} (h : s.Inv free) (ha : s.Allowed a) (he : s.exec a = some s') :
    ∃ free', s'.Inv free' := by
  cases a with
  | step t ok => exact h.step ha he
  | event no ok => exact ⟨free, h.event ha he⟩
  | write t msgs =>
      simp only [TxSys.exec] at he
      split at he
      · rename_i hpc
        obtain rfl := Option.some.inj he
        refine ⟨free, h.start ?_⟩
        split_ifs
        · exact .of_pc hpc rfl Iff.rfl (fun _ _ => Iff.rfl) (by simp) (by simp) trivial
        · exact .of_pc hpc rfl Iff.rfl (fun _ _ => Iff.rfl) (by simp) (by simp) trivial
      · cases he
  | setPriv t priv =>
      simp only [TxSys.exec] at he
      split at he
      · rename_i hpc
        obtain rfl := Option.some.inj he
        refine ⟨free, h.start ?_⟩
        split_ifs
        · exact .of_pc hpc rfl Iff.rfl (fun _ _ => Iff.rfl) (by simp) (by simp) trivial
        · exact .of_pc hpc rfl Iff.rfl (fun _ _ => Iff.rfl) (by simp) (by simp) trivial
      · cases he

theorem init (h : s.Init) : s.Inv (List.range s.sndboxnumber) := by
  have hpc : ∀ t, s.pc t = .idle := by
    intro t
    rw [h]
  have huse : ∀ t b no, (s.pc t).use ≠ some (b, no) := by
    intro t b no
    rw [hpc t]
    simp [TxPc.use]
  have hbox : ∀ no, s.box no = ⟨.ok, false, none, false⟩ := by
    intro no
    rw [h]
  have hqueue : s.semQueue = [] := by rw [h]
  have hsem : s.sem = s.sndboxnumber := by rw [h]
  have hmode : s.privmode = false := by rw [h]
  refine ⟨?_, fun t ht => absurd (hpc t) ht, ?_, ⟨fun t u b c no ht => absurd ht (huse t b no),
    fun t b no ht => absurd ht (huse t b no)⟩, ⟨fun t no ht => absurd ht (huse t false no),
    fun t no ht => absurd ht (huse t true no), fun no hno => ?_⟩, ⟨fun no _ => ?_, fun t => ?_⟩⟩
  · have hlinks : s.links = (List.range s.sndboxnumber).foldl (fun m i => m.insertBefore .freelist (.box i))
        (Links.alone TxLink) := by rw [h]
    rw [hlinks]
    exact freeOk_range _
  · rw [hqueue]
    refine ⟨⟨0, .zero fun t => ?_, by rw [hsem]; rfl⟩, List.nodup_nil, fun t => ?_, fun hne => absurd rfl hne⟩
    · rw [hpc t]
      exact id
    · rw [hpc t]
      simp
  · refine ⟨0, .zero fun t => ?_, iff_of_true (.inl (List.mem_range.mpr hno)) (iff_of_true hmode ⟨0, rfl⟩)⟩
    rw [hpc t]
    exact id
  · rw [hbox]
    exact ⟨⟨rfl, rfl, rfl⟩, fun _ => rfl⟩
  · rw [hpc t]
    exact trivial

end Inv

/-! ## What is kept -/

/-- The thread is in no call, or has taken neither the semaphore nor a mailbox, and is in no mode switch. -/
def Resting : TxPc → Prop
  | .idle => True
  | .loop _ => True
  | .queued _ => True
  | .privLoop _ => True
  | .control _ => True
  | .ret _ => True
  | _ => False

theorem Resting.quiet {p : TxPc} (h : Resting p) : ¬ p.Token ∧ p.use = none ∧ ¬ p.Switching := by
  cases p with
  | idle => exact ⟨id, rfl, id⟩
  | loop j => exact ⟨id, rfl, id⟩
  | queued j => exact ⟨id, rfl, id⟩
  | privLoop j => exact ⟨id, rfl, id⟩
  | control priv => exact ⟨id, rfl, id⟩
  | ret sent => exact ⟨id, rfl, id⟩
  | _ => exact h.elim

/-- What is to hold of the mailboxes; `free` are those in `freelist`. -/
structure Kept (s : TxSys) (free : List Nat) : Prop where
  /-- No mailbox is twice in the list. -/
  freelist : Dll s.links.next s.links.prev .freelist (free.map .box)
  /-- A mailbox has one user at most, and none in normal mode while it is in the list. -/
  one_user : ∀ t u no, (s.pc t).box = some no → (s.pc u).box = some no → t = u
  not_free : ∀ t no, (s.pc t).use = some (false, no) → no ∉ free
  /-- In normal mode the semaphore counts the mailboxes in the list when no writer is between its steps. -/
  sem : s.privmode = false → (∀ t, Resting (s.pc t)) → s.sem = free.length
  /-- A thread waits for the semaphore only as long as its value is `0`. -/
  waits : ∀ t j, s.pc t = .queued j → s.sem = 0
  /-- A mailbox that nobody uses is in the list in normal mode … -/
  normal : s.privmode = false → (∀ t, ¬ (s.pc t).Switching) → ∀ no < s.sndboxnumber,
    (∀ t, (s.pc t).box ≠ some no) → no ∈ free
  /-- … and in private mode it is ready for a write. -/
  priv : s.privmode = true → (∀ t, ¬ (s.pc t).Switching) → ∀ no < s.sndboxnumber,
    (∀ t, (s.pc t).box ≠ some no) → no ∉ free ∧ (s.box no).result = .ok ∧ Clear (s.box no)
  /-- A writer that is suspended waits for a message in flight, whose end wakes it. -/
  inflight : ∀ t w j no, s.pc t = .suspended w j no → (s.box no).inflight = true ∧ (s.box no).waiter = some t
  /-- A writer that has taken the semaphore finds a mailbox, and a writer can wait for its completion. -/
  takes : ∀ t j, s.pc t = .taken j → s.Allowed (.step t true) → s.step t true ≠ none
  completes : ∀ t w j no, s.pc t = .wait w j no → s.step t true ≠ none

theorem Inv.pooled_iff (h : s.Inv free) (hswitch : ∀ t, ¬ (s.pc t).Switching) {no : Nat} (hno : no < s.sndboxnumber) :
    Pooled free s.pc no ↔ s.privmode = false := by
  obtain ⟨k, hk, hiff⟩ := h.mode.modes no hno
  obtain rfl := hk.unique (Counts.zero fun u hp => hswitch u (pending_switching hp))
  exact hiff.trans (iff_true_right ⟨0, rfl⟩)

theorem Inv.kept (h : s.Inv free) : s.Kept free := by
  have huse : ∀ no, (∀ t, (s.pc t).box ≠ some no) → ∀ t b, (s.pc t).use ≠ some (b, no) :=
    fun no hun t b ht => hun t (box_eq_some.mpr ⟨b, ht⟩)
  have hnormal : s.privmode = false → (∀ t, ¬ (s.pc t).Switching) → ∀ no < s.sndboxnumber,
      (∀ t, (s.pc t).box ≠ some no) → no ∈ free := by
    intro hmode hswitch no hno hun
    exact ((h.pooled_iff hswitch hno).mpr hmode).resolve_right fun ⟨t, ht⟩ => huse no hun t false ht
  constructor
  case freelist => exact h.list.rings.dll .freelist (by exact trivial)
  case one_user =>
    intro t u no ht hu
    obtain ⟨b, ht⟩ := box_eq_some.mp ht
    obtain ⟨c, hu⟩ := box_eq_some.mp hu
    exact h.use.unique t u b c no ht hu
  case not_free => exact h.mode.normal
  case sem =>
    intro hmode hrest
    obtain ⟨k, hk, hsum⟩ := h.sem.tokens
    obtain rfl := hk.unique (Counts.zero fun t => (hrest t).quiet.1)
    have hmem : ∀ no, no ∈ free ↔ no ∈ List.range s.sndboxnumber := by
      intro no
      rw [List.mem_range]
      refine ⟨h.list.lt no, fun hno => hnormal hmode (fun t => (hrest t).quiet.2.2) no hno fun t ht => ?_⟩
      obtain ⟨b, ht⟩ := box_eq_some.mp ht
      rw [(hrest t).quiet.2.1] at ht
      cases ht
    have hperm := (List.perm_ext_iff_of_nodup h.list.nodup List.nodup_range).mpr hmem
    have hlen := hperm.length_eq
    rw [List.length_range] at hlen
    omega
  case waits =>
    intro t j hpc
    apply h.sem.waits
    have hmem := (h.sem.queued t).mpr ⟨j, hpc⟩
    exact List.ne_nil_of_mem hmem
  case normal => exact hnormal
  case priv =>
    intro hmode hswitch no hno hun
    have hnot : no ∉ free := by
      intro hm
      have hfalse := (h.pooled_iff hswitch hno).mp (.inl hm)
      rw [hmode] at hfalse
      cases hfalse
    obtain ⟨hclear, hok⟩ := h.boxes.unused no (huse no hun)
    exact ⟨hnot, hok hnot, hclear⟩
  case inflight =>
    intro t w j no hpc
    have hphase := h.boxes.phase t
    rw [hpc] at hphase
    exact ⟨hphase.2.2.2, hphase.2.1⟩
  case takes =>
    intro t j hpc ha
    have hat : s.AllowedAt true (s.pc t) := ha
    rw [hpc] at hat
    obtain ⟨s', -, hs', -⟩ := h.taken hpc hat
    rw [hs']
    exact Option.some_ne_none s'
  case completes =>
    intro t w j no hpc
    obtain ⟨s', hs', -⟩ := h.completionWait hpc
    simp only [TxSys.step, hpc, hs']
    exact Option.some_ne_none s'

end TxSys

end RTThread.Can
