import RTThread.Lib.Dll

set_option autoImplicit false

/-! # Links in rings

Every link is the head of a ring or in the ring of another head; a link that is in no ring is the head of an
empty one. Linking one in behind the others of a ring, and taking one out, change two rings and leave the others
as they are.
-/

/-- The two pointers of each link. -/
structure Links (α : Type*) where
  next : α → α
  prev : α → α

namespace Links

variable {α : Type*} [DecidableEq α]

/-- Each link is linked to itself. -/
def alone (α : Type*) : Links α := ⟨id, id⟩

/-- Make `h` a head of an empty ring, whatever was linked to it. -/
def init (m : Links α) (h : α) : Links α := ⟨Function.update m.next h h, Function.update m.prev h h⟩

/-- Link `x` in behind the last of the ring of `h`. -/
def insertBefore (m : Links α) (h x : α) : Links α where
  next := Function.update (Function.update m.next (m.prev h) x) x h
  prev := Function.update (Function.update m.prev x (m.prev h)) h x

/-- Link `x` in in front of the first of the ring of `h`. -/
def insertAfter (m : Links α) (h x : α) : Links α where
  next := Function.update (Function.update m.next x (m.next h)) h x
  prev := Function.update (Function.update m.prev (m.next h) x) x h

/-- The same links, read backwards. -/
def flip {α : Type*} (m : Links α) : Links α := ⟨m.prev, m.next⟩

/-- Take `x` out of its ring. -/
def remove (m : Links α) (x : α) : Links α where
  next := Function.update (Function.update m.next (m.prev x) (m.next x)) x x
  prev := Function.update (Function.update m.prev (m.next x) (m.prev x)) x x

end Links

/-- The heads and their rings; a link is in one ring at most, and in none if it is a head. -/
structure Rings {α : Type*} (m : Links α) (heads : α → Prop) (ring : α → List α) : Prop where
  dll : ∀ h, heads h → Dll m.next m.prev h (ring h)
  apart : ∀ h h', heads h → heads h' → h ≠ h' → ∀ x ∈ h :: ring h, x ∉ h' :: ring h'

namespace Rings

variable {α : Type*} {m : Links α} {heads heads' : α → Prop} {ring ring' : α → List α} {h x y : α}
  {l l₁ l₂ : List α}

theorem congr (hr : Rings m heads ring) (h : ∀ y, heads' y → heads y ∧ ring' y = ring y) :
    Rings m heads' ring' := by
  refine ⟨fun y hy => ?_, fun y z hy hz hyz x hx => ?_⟩
  · rw [(h y hy).2]
    exact hr.dll y (h y hy).1
  · rw [(h y hy).2] at hx
    rw [(h z hz).2]
    exact hr.apart y z (h y hy).1 (h z hz).1 hyz x hx

theorem alone (heads : α → Prop) : Rings (Links.alone α) heads fun _ => [] := by
  refine ⟨fun h _ => Dll.nil_iff.mpr ⟨rfl, rfl⟩, fun h h' _ _ hne x hx => ?_⟩
  rw [List.mem_singleton.mp hx]
  exact fun hm => hne (List.mem_singleton.mp hm)

theorem next_of_cons (hr : Rings m heads ring) (hh : heads h) (hl : ring h = x :: l) : m.next h = x := by
  have hnext := (hr.dll h hh).next
  rw [hl] at hnext
  exact hnext.1

/-- The test for an empty ring. -/
theorem next_eq_self (hr : Rings m heads ring) (hh : heads h) : m.next h = h ↔ ring h = [] := by
  have hd := hr.dll h hh
  cases hl : ring h with
  | nil =>
      rw [hl] at hd
      exact iff_of_true hd.next rfl
  | cons x l =>
      rw [hr.next_of_cons hh hl]
      refine iff_of_false (fun he => ?_) (List.cons_ne_nil x l)
      have hnd := (List.nodup_cons.mp hd.nodup).1
      rw [hl, he] at hnd
      exact hnd List.mem_cons_self

/-- A link in a ring is not linked to itself. -/
theorem next_ne_self (hr : Rings m heads ring) (hh : heads h) (hx : x ∈ ring h) : m.next x ≠ x := by
  obtain ⟨l₁, l₂, hl⟩ := List.mem_iff_append.mp hx
  have hd := hr.dll h hh
  rw [hl] at hd
  obtain ⟨hnot, hnd⟩ := List.nodup_cons.mp hd.nodup
  rw [hd.next_mid]
  intro he
  have hmem := Dll.firstOf_mem l₂ h
  rw [he] at hmem
  rcases List.mem_cons.mp hmem with rfl | hm
  · exact hnot (by simp)
  · exact (List.nodup_cons.mp (List.nodup_append.mp hnd).2.1).1 hm

/-- A link in a ring is no head. -/
theorem not_head (hr : Rings m heads ring) (hh : heads h) (hx : x ∈ ring h) : ¬ heads x := by
  intro hhead
  have hne : h ≠ x := by
    rintro rfl
    exact (List.nodup_cons.mp (hr.dll h hh).nodup).1 hx
  exact hr.apart h x hh hhead hne x (List.mem_cons_of_mem _ hx) List.mem_cons_self

/-- Read backwards, the rings are reversed. -/
theorem flip (hr : Rings m heads ring) : Rings m.flip heads fun y => (ring y).reverse := by
  refine ⟨fun y hy => (hr.dll y hy).symm, fun y z hy hz hyz x hx hx' => ?_⟩
  simp only [List.mem_cons, List.mem_reverse] at hx hx'
  exact hr.apart y z hy hz hyz x (List.mem_cons.mpr hx) (List.mem_cons.mpr hx')

variable [DecidableEq α]

/-- A link that is in no ring and has none is taken out of nothing. -/
theorem remove_alone (hr : Rings m heads ring) (hx : heads x) (hnil : ring x = []) : m.remove x = m := by
  have hd := hr.dll x hx
  rw [hnil] at hd
  obtain ⟨hnext, hprev⟩ := Dll.nil_iff.mp hd
  have hn : Function.update m.next x x = m.next := Function.update_eq_self_iff.mpr hnext.symm
  have hp : Function.update m.prev x x = m.prev := Function.update_eq_self_iff.mpr hprev.symm
  simp only [Links.remove, hnext, hprev, hn, hp]

theorem remove (hr : Rings m heads ring) (hh : heads h) (hx : ring h = l₁ ++ x :: l₂) :
    Rings (m.remove x) (fun y => heads y ∨ y = x)
      (Function.update (Function.update ring h (l₁ ++ l₂)) x []) := by
  have hd := hr.dll h hh
  rw [hx] at hd
  have hmem : x ∈ ring h := by simp [hx]
  have hhead := hr.not_head hh hmem
  have hxh : h ≠ x := by
    rintro rfl
    exact hhead hh
  obtain ⟨hnot, hndl⟩ := List.nodup_cons.mp hd.nodup
  have hxl : x ∉ l₁ ++ l₂ := by
    have hperm := (@List.perm_middle _ x l₁ l₂).nodup_iff.mp hndl
    exact (List.nodup_cons.mp hperm).1
  have hprev : m.prev x ∈ h :: ring h := by
    rw [hx]
    exact hd.prev_mem (by simp)
  have hnext : m.next x ∈ h :: ring h := by
    rw [hx]
    exact hd.next_mem (by simp)
  have hring : ∀ y, heads y → y ≠ h → Function.update (Function.update ring h (l₁ ++ l₂)) x [] y = ring y := by
    intro y hy hyh
    have hyx : y ≠ x := by
      rintro rfl
      exact hhead hy
    rw [Function.update_of_ne hyx, Function.update_of_ne hyh]
  have hringh : Function.update (Function.update ring h (l₁ ++ l₂)) x [] h = l₁ ++ l₂ := by
    rw [Function.update_of_ne hxh, Function.update_self]
  have hringx : Function.update (Function.update ring h (l₁ ++ l₂)) x [] x = [] := Function.update_self _ _ _
  have hsub : ∀ y, heads y → ∀ z ∈ y :: Function.update (Function.update ring h (l₁ ++ l₂)) x [] y,
      z ∈ y :: ring y ∧ z ≠ x := by
    intro y hy z hz
    by_cases hyh : y = h
    · subst hyh
      rw [hringh] at hz
      rw [hx]
      rcases List.mem_cons.mp hz with rfl | hz
      · exact ⟨List.mem_cons_self, hxh⟩
      · refine ⟨List.mem_cons_of_mem _ ?_, fun he => hxl (he ▸ hz)⟩
        rcases List.mem_append.mp hz with hz | hz
        · exact List.mem_append_left _ hz
        · exact List.mem_append_right _ (List.mem_cons_of_mem _ hz)
    · rw [hring y hy hyh] at hz
      refine ⟨hz, ?_⟩
      rintro rfl
      exact hr.apart h y hh hy (Ne.symm hyh) z (List.mem_cons_of_mem _ hmem) hz
  constructor
  case dll =>
    rintro y (hy | rfl)
    · by_cases hyh : y = h
      · subst hyh
        rw [hringh]
        have hpx : m.prev x ≠ x := by
          rw [hd.prev_mid]
          intro he
          rcases List.mem_cons.mp (Dll.lastOf_mem y l₁) with hm | hm
          · exact hxh (hm.symm.trans he)
          · exact hxl (List.mem_append_left _ (he ▸ hm))
        have hnx : m.next x ≠ x := by
          rw [hd.next_mid]
          intro he
          rcases List.mem_cons.mp (Dll.firstOf_mem l₂ y) with hm | hm
          · exact hxh (hm.symm.trans he)
          · exact hxl (List.mem_append_right _ (he ▸ hm))
        have hoff : ∀ z ∈ y :: (l₁ ++ l₂), z ≠ x := by
          intro z hz
          rw [← hringh] at hz
          exact (hsub y hy z hz).2
        refine hd.unlink ?_ (fun z hz hzp => ?_) ?_ (fun z hz hzn => ?_)
        · exact (Function.update_of_ne hpx _ _).trans (Function.update_self _ _ _)
        · exact (Function.update_of_ne (hoff z hz) _ _).trans (Function.update_of_ne hzp _ _)
        · exact (Function.update_of_ne hnx _ _).trans (Function.update_self _ _ _)
        · exact (Function.update_of_ne (hoff z hz) _ _).trans (Function.update_of_ne hzn _ _)
      · rw [hring y hy hyh]
        have hoff : ∀ z ∈ y :: ring y, z ∉ h :: ring h := hr.apart y h hy hh hyh
        refine (hr.dll y hy).congr (fun z hz => ?_) fun z hz => ?_
        · refine (Function.update_of_ne ?_ _ _).trans (Function.update_of_ne ?_ _ _)
          · rintro rfl
            exact hoff z hz (List.mem_cons_of_mem _ hmem)
          · rintro rfl
            exact hoff _ hz hprev
        · refine (Function.update_of_ne ?_ _ _).trans (Function.update_of_ne ?_ _ _)
          · rintro rfl
            exact hoff z hz (List.mem_cons_of_mem _ hmem)
          · rintro rfl
            exact hoff _ hz hnext
    · rw [hringx]
      exact Dll.nil_iff.mpr ⟨Function.update_self _ _ _, Function.update_self _ _ _⟩
  case apart =>
    rintro y z (hy | rfl) (hz | rfl) hyz w hw hw'
    · exact hr.apart y z hy hz hyz w (hsub y hy w hw).1 (hsub z hz w hw').1
    · rw [hringx] at hw'
      exact (hsub y hy w hw).2 (List.mem_singleton.mp hw')
    · rw [hringx] at hw
      exact (hsub z hz w hw').2 (List.mem_singleton.mp hw)
    · exact hyz rfl

theorem insertBefore (hr : Rings m heads ring) (hh : heads h) (hx : heads x) (hnil : ring x = [])
    (hne : x ≠ h) :
    Rings (m.insertBefore h x) (fun y => heads y ∧ y ≠ x) (Function.update ring h (ring h ++ [x])) := by
  have hd := hr.dll h hh
  have hnot : x ∉ h :: ring h := hr.apart x h hx hh hne x List.mem_cons_self
  have hprev : m.prev h ∈ h :: ring h := hd.prev_mem List.mem_cons_self
  have hlast : m.prev h = Dll.lastOf h (ring h) := by
    have hsplit := @Dll.prev_split _ _ _ _ _ [] ((List.append_nil (ring h)).symm ▸ hd)
    exact hsplit
  constructor
  case dll =>
    rintro y ⟨hy, hyx⟩
    by_cases hyh : y = h
    · subst hyh
      rw [Function.update_self]
      have hd' : Dll m.next m.prev y (ring y ++ []) := by rwa [List.append_nil]
      have hoff : ∀ z ∈ y :: (ring y ++ []), z ≠ x := by
        rintro z hz rfl
        rw [List.append_nil] at hz
        exact hnot hz
      have hpx : Dll.lastOf y (ring y) ≠ x := hoff _ (by rw [List.append_nil]; exact Dll.lastOf_mem y (ring y))
      refine hd'.insert (fun hm => hoff x hm rfl) ?_ ?_ (fun z hz hzl => ?_) ?_ ?_ (fun z hz hzf => ?_)
      · rw [← hlast] at hpx ⊢
        exact (Function.update_of_ne hpx _ _).trans (Function.update_self _ _ _)
      · exact Function.update_self _ _ _
      · rw [← hlast] at hzl
        exact (Function.update_of_ne (hoff z hz) _ _).trans (Function.update_of_ne hzl _ _)
      · exact Function.update_self _ _ _
      · rw [← hlast]
        exact (Function.update_of_ne hne _ _).trans (Function.update_self _ _ _)
      · exact (Function.update_of_ne hzf _ _).trans (Function.update_of_ne (hoff z hz) _ _)
    · rw [Function.update_of_ne hyh]
      have hoff : ∀ z ∈ y :: ring y, z ∉ h :: ring h := hr.apart y h hy hh hyh
      have hoffx : ∀ z ∈ y :: ring y, z ≠ x := by
        rintro z hz rfl
        exact hr.apart y z hy hx hyx z hz List.mem_cons_self
      refine (hr.dll y hy).congr (fun z hz => ?_) fun z hz => ?_
      · have hzp : z ≠ m.prev h := by
          rintro rfl
          exact hoff _ hz hprev
        exact (Function.update_of_ne (hoffx z hz) _ _).trans (Function.update_of_ne hzp _ _)
      · have hzh : z ≠ h := by
          rintro rfl
          exact hoff _ hz List.mem_cons_self
        exact (Function.update_of_ne hzh _ _).trans (Function.update_of_ne (hoffx z hz) _ _)
  case apart =>
    have hsub : ∀ y, heads y → y ≠ x → ∀ z ∈ y :: Function.update ring h (ring h ++ [x]) y,
        z ∈ y :: ring y ∨ y = h ∧ z = x := by
      intro y _ _ z hz
      by_cases hyh : y = h
      · subst hyh
        rw [Function.update_self, ← List.cons_append] at hz
        rcases List.mem_append.mp hz with hz | hz
        · exact .inl hz
        · exact .inr ⟨rfl, List.mem_singleton.mp hz⟩
      · rw [Function.update_of_ne hyh] at hz
        exact .inl hz
    have hoffx : ∀ y, heads y → y ≠ x → x ∉ y :: ring y := by
      intro y hy hyx hm
      exact hr.apart y x hy hx hyx x hm List.mem_cons_self
    rintro y z ⟨hy, hyx⟩ ⟨hz, hzx⟩ hyz w hw hw'
    rcases hsub y hy hyx w hw with hwy | ⟨rfl, rfl⟩
    · rcases hsub z hz hzx w hw' with hwz | ⟨rfl, rfl⟩
      · exact hr.apart y z hy hz hyz w hwy hwz
      · exact hoffx y hy hyx hwy
    · rcases hsub z hz hzx w hw' with hwz | ⟨hzh, -⟩
      · exact hoffx z hz hzx hwz
      · exact hyz hzh.symm

theorem insertAfter (hr : Rings m heads ring) (hh : heads h) (hx : heads x) (hnil : ring x = [])
    (hne : x ≠ h) :
    Rings (m.insertAfter h x) (fun y => heads y ∧ y ≠ x) (Function.update ring h (x :: ring h)) := by
  have hnil' : (ring x).reverse = [] := by rw [hnil, List.reverse_nil]
  have hback := (hr.flip.insertBefore hh hx hnil' hne).flip
  apply hback.congr
  intro y hy
  refine ⟨hy, ?_⟩
  by_cases hyh : y = h
  · subst hyh
    simp
  · rw [Function.update_of_ne hyh, Function.update_of_ne hyh, List.reverse_reverse]

end Rings
