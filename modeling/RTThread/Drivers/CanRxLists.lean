import RTThread.Drivers.CanRx

set_option autoImplicit false

/-! # The receive lists are consistent

The lists are those of two lists of nodes, the free ones and the used ones: the list of a bank has the used nodes
that it owns, in the same order. A bank that is connected or disconnected while its list is not empty breaks
this: the nodes stay linked, or keep their owner.
-/

namespace RTThread.Can

open scoped List

/-- The nodes of a bank, in the order of `uselist`. -/
def inBank (owner : Nat → Option Nat) (use : List Nat) (h : Nat) : List Nat := use.filter fun n => owner n = some h

/-- The list nodes that are in no list. -/
def heads (owner : Nat → Option Nat) (free use : List Nat) : RxLink → Prop
  | .list n => n ∉ free ∧ n ∉ use
  | .hdrlist n => owner n = none
  | _ => True

def ring (owner : Nat → Option Nat) (free use : List Nat) : RxLink → List RxLink
  | .freelist => free.map .list
  | .uselist => use.map .list
  | .bank h => (inBank owner use h).map .hdrlist
  | _ => []

section Heads

variable (owner : Nat → Option Nat) (free use : List Nat)

theorem heads_freelist : heads owner free use .freelist := trivial
theorem heads_uselist : heads owner free use .uselist := trivial
theorem heads_bank (h : Nat) : heads owner free use (.bank h) := trivial
theorem heads_list (n : Nat) : heads owner free use (.list n) ↔ n ∉ free ∧ n ∉ use := Iff.rfl
theorem heads_hdrlist (n : Nat) : heads owner free use (.hdrlist n) ↔ owner n = none := Iff.rfl

end Heads

/-! ## The lists of a bank -/

section InBank

variable {owner : Nat → Option Nat} {use u₁ u₂ : List Nat} {n h : Nat}

theorem inBank_append (owner : Nat → Option Nat) (u₁ u₂ : List Nat) (h : Nat) :
    inBank owner (u₁ ++ u₂) h = inBank owner u₁ h ++ inBank owner u₂ h := List.filter_append ..

theorem inBank_cons_of_pos (hn : owner n = some h) : inBank owner (n :: use) h = n :: inBank owner use h :=
  List.filter_cons_of_pos (decide_eq_true hn)

theorem inBank_cons_of_neg (hn : owner n ≠ some h) : inBank owner (n :: use) h = inBank owner use h :=
  List.filter_cons_of_neg (by simpa using hn)

/-- The owner of another node. -/
theorem inBank_update (o : Option Nat) (hn : n ∉ use) :
    inBank (Function.update owner n o) use h = inBank owner use h := by
  apply List.filter_congr
  intro m hm
  rw [Function.update_of_ne]
  rintro rfl
  exact hn hm

/-- The first node of a bank. -/
theorem inBank_eq_cons {l : List Nat} (hl : inBank owner use h = n :: l) :
    ∃ u₁ u₂, use = u₁ ++ n :: u₂ ∧ owner n = some h ∧ ∀ m ∈ u₁, owner m ≠ some h := by
  obtain ⟨u₁, u₂, rfl, hu, hn, -⟩ := List.filter_eq_cons_iff.mp hl
  exact ⟨u₁, u₂, rfl, of_decide_eq_true hn, fun m hm => by simpa using hu m hm⟩

end InBank

/-! ## What the sections do -/

/-- The lists are those of these nodes. -/
structure Lists (s : RxFifo) (free use : List Nat) : Prop where
  rings : Rings s.links (heads s.owner free use) (ring s.owner free use)
  owner : ∀ n, s.owner n ≠ none → n ∈ use
  nodup : (free ++ use).Nodup
  msgs : ∀ h, s.msgs h = (inBank s.owner use h).length
  freenumbers : s.freenumbers = free.length

namespace Lists

variable {s s' : RxFifo} {free use u₁ u₂ : List Nat} {n h : Nat} {hdr : Int}

theorem owner_none (hl : Lists s free use) (hn : n ∉ use) : s.owner n = none := by
  by_contra hne
  exact hn (hl.owner n hne)

/-- A used node is taken out. -/
theorem detach (hl : Lists s free (u₁ ++ n :: u₂)) : Lists (s.detach n (s.owner n)) free (u₁ ++ u₂) := by
  have hperm : (free ++ (u₁ ++ n :: u₂)).Perm (n :: (free ++ (u₁ ++ u₂))) :=
    (List.perm_middle.append_left free).trans List.perm_middle
  obtain ⟨hnot, hnd⟩ := List.nodup_cons.mp (hperm.nodup_iff.mp hl.nodup)
  have hfree : n ∉ free := fun hm => hnot (List.mem_append_left _ hm)
  have huse : n ∉ u₁ ++ u₂ := fun hm => hnot (List.mem_append_right _ hm)
  have hu₁ : n ∉ u₁ := fun hm => huse (List.mem_append_left _ hm)
  have hu₂ : n ∉ u₂ := fun hm => huse (List.mem_append_right _ hm)
  have hbank : ∀ c, inBank (Function.update s.owner n none) (u₁ ++ u₂) c = inBank s.owner (u₁ ++ u₂) c :=
    fun c => inBank_update none huse
  have hother : ∀ c, s.owner n ≠ some c → inBank s.owner (u₁ ++ n :: u₂) c = inBank s.owner (u₁ ++ u₂) c := by
    intro c hc
    rw [inBank_append, inBank_cons_of_neg hc, ← inBank_append]
  have hone := @Rings.remove _ _ _ _ _ (.list n) (u₁.map .list) (u₂.map .list) _ hl.rings (heads_uselist _ _ _)
    (by simp [ring])
  refine ⟨?_, fun m hm => ?_, hnd, fun c => ?_, hl.freenumbers⟩
  · -- the node is still in the list of its bank
    cases ho : s.owner n with
    | none =>
        have halone := hone.remove_alone (.inl ((heads_hdrlist _ _ _ n).mpr ho)) (by simp [ring])
        have hrings : Rings (s.links.remove (.list n)) (heads (Function.update s.owner n none) free (u₁ ++ u₂))
            (ring (Function.update s.owner n none) free (u₁ ++ u₂)) := by
          apply hone.congr
          intro y hy
          cases y with
          | freelist => exact ⟨.inl trivial, by simp [ring]⟩
          | uselist => exact ⟨.inl trivial, by simp [ring]⟩
          | bank c => exact ⟨.inl trivial, by simp [ring, hbank, hother c (by rw [ho]; simp)]⟩
          | list k =>
              refine ⟨?_, by simp [ring, Function.update_apply]⟩
              by_cases hk : k = n
              · exact .inr (by rw [hk])
              · refine .inl ⟨hy.1, ?_⟩
                have hk' := hy.2
                simp only [List.mem_append, List.mem_cons] at hk' ⊢
                tauto
          | hdrlist k =>
              refine ⟨.inl ?_, by simp [ring]⟩
              by_cases hk : k = n
              · exact hk ▸ ho
              · have hy' : Function.update s.owner n none k = none := hy
                rwa [Function.update_of_ne hk] at hy'
        change Rings ((s.links.remove (.list n)).remove (.hdrlist n)) _ _
        rw [halone]
        exact hrings
    | some b =>
        have hmid : inBank s.owner (u₁ ++ n :: u₂) b = inBank s.owner u₁ b ++ n :: inBank s.owner u₂ b := by
          rw [inBank_append, inBank_cons_of_pos ho]
        have htwo := @Rings.remove _ _ _ _ _ (.hdrlist n) ((inBank s.owner u₁ b).map .hdrlist)
          ((inBank s.owner u₂ b).map .hdrlist) _ hone (.inl (heads_bank _ _ _ b)) (by simp [ring, hmid])
        apply htwo.congr
        intro y hy
        cases y with
        | freelist => exact ⟨.inl (.inl trivial), by simp [ring]⟩
        | uselist => exact ⟨.inl (.inl trivial), by simp [ring]⟩
        | bank c =>
            refine ⟨.inl (.inl trivial), ?_⟩
            by_cases hc : c = b
            · subst hc
              have hall : ring (s.detach n (some c)).owner free (u₁ ++ u₂) (.bank c) =
                  (inBank s.owner u₁ c ++ inBank s.owner u₂ c).map .hdrlist := by
                rw [← inBank_append, ← hbank c]
                rfl
              rw [hall]
              simp
            · have hall : ring (s.detach n (some b)).owner free (u₁ ++ u₂) (.bank c) =
                  ring s.owner free (u₁ ++ n :: u₂) (.bank c) := by
                have hcb : s.owner n ≠ some c := by
                  rw [ho]
                  exact fun he => hc (Option.some.inj he).symm
                simp only [ring]
                rw [hother c hcb, ← hbank c]
                rfl
              rw [hall]
              simp [hc]
        | list k =>
            refine ⟨.inl ?_, by simp [ring, Function.update_apply]⟩
            by_cases hk : k = n
            · exact .inr (by rw [hk])
            · refine .inl ⟨hy.1, ?_⟩
              have hk' := hy.2
              simp only [List.mem_append, List.mem_cons] at hk' ⊢
              tauto
        | hdrlist k =>
            refine ⟨?_, by simp [ring, Function.update_apply]⟩
            by_cases hk : k = n
            · exact .inr (by rw [hk])
            · have hy' : Function.update s.owner n none k = none := hy
              rw [Function.update_of_ne hk] at hy'
              exact .inl (.inl hy')
  · by_cases hmn : m = n
    · exact absurd (by rw [hmn]; exact Function.update_self n none s.owner) hm
    · have hm' : s.owner m ≠ none := by
        rwa [← Function.update_of_ne hmn none s.owner]
      have hmem := hl.owner m hm'
      simp only [List.mem_append, List.mem_cons] at hmem ⊢
      tauto
  · change (s.owner n).elim s.msgs (fun h => Function.update s.msgs h (s.msgs h - 1)) c =
      (inBank (Function.update s.owner n none) (u₁ ++ u₂) c).length
    rw [hbank]
    by_cases hc : s.owner n = some c
    · rw [hc]
      have hlen := hl.msgs c
      rw [inBank_append, inBank_cons_of_pos hc] at hlen
      simp only [Option.elim_some, Function.update_self]
      rw [hlen, inBank_append, List.length_append, List.length_append, List.length_cons]
      omega
    · rw [← hother c hc, ← hl.msgs c]
      cases ho : s.owner n with
      | none => rfl
      | some b =>
          have hcb : c ≠ b := by
            rintro rfl
            exact hc ho
          exact Function.update_of_ne hcb _ _

/-- A node that is in no list of used nodes is in no list of a bank. -/
theorem detach_free (hl : Lists s (n :: free) use) :
    Lists { s.detach n (s.owner n) with freenumbers := s.freenumbers - 1 } free use := by
  obtain ⟨hnot, hnd⟩ := List.nodup_cons.mp hl.nodup
  have huse : n ∉ use := fun hm => hnot (List.mem_append_right _ hm)
  have ho := hl.owner_none huse
  have hsame : Function.update s.owner n none = s.owner := Function.update_eq_self_iff.mpr ho.symm
  have hone := @Rings.remove _ _ _ _ _ (.list n) [] (free.map .list) _ hl.rings (heads_freelist _ _ _)
    (by simp [ring])
  have halone := hone.remove_alone (.inl ((heads_hdrlist _ _ _ n).mpr ho)) (by simp [ring])
  refine ⟨?_, fun m hm => ?_, hnd, fun c => ?_, ?_⟩
  · change Rings ((s.links.remove (.list n)).remove (.hdrlist n)) (heads (Function.update s.owner n none) free use)
      (ring (Function.update s.owner n none) free use)
    rw [halone, hsame]
    apply hone.congr
    intro y hy
    cases y with
    | freelist => exact ⟨.inl trivial, by simp [ring]⟩
    | uselist => exact ⟨.inl trivial, by simp [ring]⟩
    | bank c => exact ⟨.inl trivial, by simp [ring]⟩
    | list k =>
        refine ⟨?_, by simp [ring, Function.update_apply]⟩
        by_cases hk : k = n
        · exact .inr (by rw [hk])
        · exact .inl ⟨fun hm => (List.mem_cons.mp hm).elim hk hy.1, hy.2⟩
    | hdrlist k => exact ⟨.inl hy, by simp [ring]⟩
  · have hm' : Function.update s.owner n none m ≠ none := hm
    rw [hsame] at hm'
    exact hl.owner m hm'
  · change (s.owner n).elim s.msgs (fun h => Function.update s.msgs h (s.msgs h - 1)) c =
      (inBank (Function.update s.owner n none) use c).length
    rw [ho, hsame]
    exact hl.msgs c
  · change s.freenumbers - 1 = _
    rw [hl.freenumbers]
    rfl

/-- A node is linked in behind the free ones. -/
theorem give (hl : Lists s free use) (hfree : n ∉ free) (huse : n ∉ use) :
    Lists { s with links := s.links.insertBefore .freelist (.list n), freenumbers := s.freenumbers + 1 }
      (free ++ [n]) use := by
  have hone := hl.rings.insertBefore (x := .list n) (heads_freelist _ _ _)
    ((heads_list _ _ _ n).mpr ⟨hfree, huse⟩) rfl (by simp)
  refine ⟨hone.congr fun y hy => ?_, hl.owner, ?_, hl.msgs, ?_⟩
  · cases y with
    | freelist => exact ⟨⟨trivial, by simp⟩, by simp [ring]⟩
    | uselist => exact ⟨⟨trivial, by simp⟩, by simp [ring]⟩
    | bank c => exact ⟨⟨trivial, by simp⟩, by simp [ring]⟩
    | list k =>
        have hk := not_or.mp (mt List.mem_append.mpr hy.1)
        refine ⟨⟨⟨hk.1, hy.2⟩, ?_⟩, by simp [ring]⟩
        simpa using hk.2
    | hdrlist k => exact ⟨⟨hy, by simp⟩, by simp [ring]⟩
  · have hperm : ((free ++ [n]) ++ use).Perm (n :: (free ++ use)) := by
      rw [List.append_assoc]
      exact List.perm_middle
    refine hperm.nodup_iff.mpr (List.nodup_cons.mpr ⟨fun hm => ?_, hl.nodup⟩)
    exact (List.mem_append.mp hm).elim hfree huse
  · simp [hl.freenumbers]

/-- A node is linked in behind the used ones, and those of its bank if this is connected. -/
theorem put (hl : Lists s free use) (hfree : n ∉ free) (huse : n ∉ use) (hhdr : hdr < s.maxhdr ∧ 0 ≤ hdr) :
    ∃ s', s.isrPut n hdr = some s' ∧ Lists s' free (use ++ [n]) ∧ s'.data = s.data ∧
      s'.msgboxsz = s.msgboxsz ∧ s'.connected = s.connected ∧
      s'.owner = Function.update s.owner n (if s.connected hdr.toNat then some hdr.toNat else none) := by
  have ho := hl.owner_none huse
  have hsame : Function.update s.owner n none = s.owner := Function.update_eq_self_iff.mpr ho.symm
  have hnd : (free ++ (use ++ [n])).Nodup := by
    have hperm : (free ++ (use ++ [n])).Perm (n :: (free ++ use)) := by
      rw [← List.append_assoc]
      exact List.perm_append_singleton n _
    refine hperm.nodup_iff.mpr (List.nodup_cons.mpr ⟨fun hm => ?_, hl.nodup⟩)
    exact (List.mem_append.mp hm).elim hfree huse
  have hone := hl.rings.insertBefore (x := .list n) (heads_uselist _ _ _)
    ((heads_list _ _ _ n).mpr ⟨hfree, huse⟩) rfl (by simp)
  unfold RxFifo.isrPut
  dsimp only
  rw [if_pos hhdr]
  by_cases hc : s.connected hdr.toNat = true
  · rw [if_pos hc, if_pos hc]
    refine ⟨_, rfl, ?_, rfl, rfl, rfl, rfl⟩
    have htwo := hone.insertBefore (x := .hdrlist n) ⟨heads_bank _ _ _ hdr.toNat, by simp⟩
      ⟨(heads_hdrlist _ _ _ n).mpr ho, by simp⟩ (by simp [ring]) (by simp)
    have hbank : ∀ c, inBank (Function.update s.owner n (some hdr.toNat)) (use ++ [n]) c =
        inBank s.owner use c ++ if c = hdr.toNat then [n] else [] := by
      intro c
      rw [inBank_append, inBank_update _ huse]
      congr 1
      by_cases hch : c = hdr.toNat
      · rw [if_pos hch, inBank_cons_of_pos (by rw [Function.update_self, hch])]
        rfl
      · rw [if_neg hch, inBank_cons_of_neg]
        · rfl
        · rw [Function.update_self]
          exact fun he => hch (Option.some.inj he).symm
    refine ⟨htwo.congr fun y hy => ?_, fun m hm => ?_, hnd, fun c => ?_, hl.freenumbers⟩
    · cases y with
      | freelist => exact ⟨⟨⟨trivial, by simp⟩, by simp⟩, by simp [ring]⟩
      | uselist => exact ⟨⟨⟨trivial, by simp⟩, by simp⟩, by simp [ring]⟩
      | bank c =>
          refine ⟨⟨⟨trivial, by simp⟩, by simp⟩, ?_⟩
          simp only [ring]
          rw [hbank]
          by_cases hch : c = hdr.toNat
          · subst hch
            simp [ring]
          · simp [ring, hch]
      | list k =>
          have hk := not_or.mp (mt List.mem_append.mpr hy.2)
          refine ⟨⟨⟨⟨hy.1, hk.1⟩, ?_⟩, by simp⟩, by simp [ring]⟩
          simpa using hk.2
      | hdrlist k =>
          have hkn : k ≠ n := by
            rintro rfl
            have hy' : Function.update s.owner k (some hdr.toNat) k = none := hy
            rw [Function.update_self] at hy'
            cases hy'
          have hy' : Function.update s.owner n (some hdr.toNat) k = none := hy
          rw [Function.update_of_ne hkn] at hy'
          exact ⟨⟨⟨hy', by simp⟩, by simpa using hkn⟩, by simp [ring]⟩
    · by_cases hmn : m = n
      · simp [hmn]
      · have hm' : Function.update s.owner n (some hdr.toNat) m ≠ none := hm
        rw [Function.update_of_ne hmn] at hm'
        exact List.mem_append_left _ (hl.owner m hm')
    · dsimp only
      rw [hbank, List.length_append, ← hl.msgs c]
      by_cases hch : c = hdr.toNat
      · subst hch
        simp
      · simp [hch]
  · rw [if_neg hc, if_neg hc, hsame]
    refine ⟨_, rfl, ?_, rfl, rfl, rfl, rfl⟩
    have hbank : ∀ c, inBank s.owner (use ++ [n]) c = inBank s.owner use c := by
      intro c
      rw [inBank_append, inBank_cons_of_neg (by rw [ho]; simp)]
      exact List.append_nil _
    refine ⟨hone.congr fun y hy => ?_, fun m hm => List.mem_append_left _ (hl.owner m hm), hnd, fun c => ?_,
      hl.freenumbers⟩
    · cases y with
      | freelist => exact ⟨⟨trivial, by simp⟩, by simp [ring]⟩
      | uselist => exact ⟨⟨trivial, by simp⟩, by simp [ring]⟩
      | bank c => exact ⟨⟨trivial, by simp⟩, by simp [ring, hbank]⟩
      | list k =>
          have hk := not_or.mp (mt List.mem_append.mpr hy.2)
          refine ⟨⟨⟨hy.1, hk.1⟩, ?_⟩, by simp [ring]⟩
          simpa using hk.2
      | hdrlist k => exact ⟨⟨hy, by simp⟩, by simp [ring]⟩
    · dsimp only
      rw [hbank]
      exact hl.msgs c

/-! ### Banks with an empty list -/

theorem inBank_nil (hl : Lists s free use) : s.links.next (.bank h) = .bank h ↔ inBank s.owner use h = [] := by
  rw [hl.rings.next_eq_self (heads_bank _ _ _ h)]
  exact List.map_eq_nil_iff

theorem msgs_zero (hl : Lists s free use) (hh : s.links.next (.bank h) = .bank h) :
    Function.update s.msgs h 0 = s.msgs := by
  rw [Function.update_eq_self_iff, hl.msgs h, hl.inBank_nil.mp hh]
  rfl

/-- A bank is connected whose list is empty. -/
theorem connect (hl : Lists s free use) (hh : s.links.next (.bank h) = .bank h) :
    Lists (s.connect h) free use := by
  have hd := hl.rings.dll (.bank h) (heads_bank _ _ _ h)
  have hnil : ring s.owner free use (.bank h) = [] := (hl.rings.next_eq_self (heads_bank _ _ _ h)).mp hh
  rw [hnil] at hd
  have hlinks : s.links.init (.bank h) = s.links := by
    have hn : Function.update s.links.next (.bank h) (.bank h) = s.links.next :=
      Function.update_eq_self_iff.mpr hh.symm
    have hp : Function.update s.links.prev (.bank h) (.bank h) = s.links.prev :=
      Function.update_eq_self_iff.mpr (Dll.nil_iff.mp hd).2.symm
    unfold Links.init
    rw [hn, hp]
  have hmsgs := hl.msgs_zero hh
  unfold RxFifo.connect
  rw [hlinks, hmsgs]
  exact ⟨hl.rings, hl.owner, hl.nodup, hl.msgs, hl.freenumbers⟩

/-- A bank is disconnected whose list is empty. -/
theorem disconnect (hl : Lists s free use) (hh : s.links.next (.bank h) = .bank h) :
    Lists (s.disconnect h) free use := by
  have hmsgs := hl.msgs_zero hh
  unfold RxFifo.disconnect
  rw [if_neg (not_not.mpr hh), hmsgs]
  exact ⟨hl.rings, hl.owner, hl.nodup, hl.msgs, hl.freenumbers⟩

/-! ### The nodes that are taken -/

theorem next_uselist (hl : Lists s free (n :: use)) : s.links.next .uselist = .list n :=
  hl.rings.next_of_cons (l := use.map .list) (heads_uselist _ _ _) rfl

theorem next_freelist (hl : Lists s (n :: free) use) : s.links.next .freelist = .list n :=
  hl.rings.next_of_cons (l := free.map .list) (heads_freelist _ _ _) rfl

theorem uselist_nil (hl : Lists s free use) : s.links.next .uselist = .uselist ↔ use = [] := by
  rw [hl.rings.next_eq_self (heads_uselist _ _ _)]
  exact List.map_eq_nil_iff

theorem freelist_nil (hl : Lists s free use) : s.links.next .freelist = .freelist ↔ free = [] := by
  rw [hl.rings.next_eq_self (heads_freelist _ _ _)]
  exact List.map_eq_nil_iff

/-- A read takes the first node of the bank that it wants, or the first of all. -/
theorem rxTake (hl : Lists s free use) (hdr : Int) :
    s.rxTake hdr = some (none, s) ∨
      ∃ n u₁ u₂, use = u₁ ++ n :: u₂ ∧ s.rxTake hdr = some (some n, s.detach n (s.owner n)) ∧
        (hdr = -1 ∧ u₁ = [] ∨ hdr ≠ -1 ∧ s.owner n = some hdr.toNat ∧ ∀ m ∈ u₁, s.owner m ≠ some hdr.toNat) := by
  unfold RxFifo.rxTake
  by_cases hb : 0 ≤ hdr ∧ hdr < s.maxhdr ∧ s.links.next (.bank hdr.toNat) ≠ .bank hdr.toNat
  · rw [if_pos hb]
    obtain ⟨h0, -, hne⟩ := hb
    obtain ⟨n, l, hcons⟩ := List.exists_cons_of_ne_nil (mt hl.inBank_nil.mpr hne)
    obtain ⟨u₁, u₂, rfl, ho, hu⟩ := inBank_eq_cons hcons
    have hnext : s.links.next (.bank hdr.toNat) = .hdrlist n :=
      hl.rings.next_of_cons (heads_bank _ _ _ _) (by simp only [ring, hcons, List.map_cons]; rfl)
    rw [hnext]
    exact .inr ⟨n, u₁, u₂, rfl, by rw [ho], .inr ⟨by omega, ho, hu⟩⟩
  · rw [if_neg hb]
    by_cases hany : hdr = -1 ∧ s.links.next .uselist ≠ .uselist
    · rw [if_pos hany]
      obtain ⟨n, l, rfl⟩ := List.exists_cons_of_ne_nil (mt hl.uselist_nil.mpr hany.2)
      rw [hl.next_uselist]
      exact .inr ⟨n, [], l, rfl, rfl, .inl ⟨hany.1, rfl⟩⟩
    · rw [if_neg hany]
      exact .inl rfl

end Lists

/-- All nodes are free. -/
theorem lists_openRx (msgboxsz maxhdr : Nat) (data : Nat → RtCanMsg) :
    Lists (RxFifo.openRx msgboxsz maxhdr data) (List.range msgboxsz) [] := by
  have hrings : ∀ k, Rings ((List.range k).foldl (fun m i => m.insertBefore .freelist (.list i))
      (Links.alone RxLink)) (heads (fun _ => none) (List.range k) []) (ring (fun _ => none) (List.range k) []) := by
    intro k
    induction k with
    | zero =>
        refine (Rings.alone (heads (fun _ => none) [] [])).congr fun y hy => ⟨hy, ?_⟩
        cases y with
        | _ => rfl
    | succ k ih =>
        rw [List.range_succ, List.foldl_append]
        refine (ih.insertBefore (x := .list k) (heads_freelist _ _ _) ?_ rfl (by simp)).congr fun y hy => ?_
        · exact (heads_list _ _ _ k).mpr ⟨by simp, by simp⟩
        · cases y with
          | freelist => exact ⟨⟨trivial, by simp⟩, by simp [ring]⟩
          | uselist => exact ⟨⟨trivial, by simp⟩, by simp [ring]⟩
          | bank c => exact ⟨⟨trivial, by simp⟩, by simp [ring]⟩
          | list j =>
              have hj := not_or.mp (mt List.mem_append.mpr hy.1)
              refine ⟨⟨⟨hj.1, hy.2⟩, ?_⟩, by simp [ring]⟩
              simpa using hj.2
          | hdrlist j => exact ⟨⟨hy, by simp⟩, by simp [ring]⟩
  refine ⟨hrings msgboxsz, fun n hn => absurd rfl hn, ?_, fun h => rfl, ?_⟩
  · rw [List.append_nil]
    exact List.nodup_range
  · exact List.length_range.symm

end RTThread.Can
