import Mathlib.Data.List.Nodup
import Mathlib.Tactic

set_option autoImplicit false

/-! # Circular doubly linked lists

A circular doubly linked list is given by two link functions `n` (next) and `p` (previous)
on the nodes and a distinguished head `h`. `Dll n p h l` says that following `n` from the
head visits the members `l` in order and comes back to the head, and that following `p`
visits them in the opposite order.

Both halves are the same notion, `Path`: a chain of links of one function. Unlinking and
inserting are stated for any new link functions that differ from the old ones only at the
two neighbours, so a client may read them off a memory in which other fields change too.
-/

namespace Dll

variable {α : Type*}

/-! ## Paths of one link function -/

/-- Following `f` from `a` visits the nodes of `l` in order and then arrives at `b`. -/
def Path (f : α → α) : α → List α → α → Prop
  | a, [], b => f a = b
  | a, x :: l, b => f a = x ∧ Path f x l b

/-- The last node of `a :: l`. -/
def lastOf : α → List α → α
  | a, [] => a
  | _, x :: l => lastOf x l

/-- The first node of `l ++ [b]`. -/
def firstOf : List α → α → α
  | [], b => b
  | x :: _, _ => x

@[simp] theorem path_nil (f : α → α) (a b : α) : Path f a [] b ↔ f a = b := Iff.rfl

@[simp] theorem path_cons (f : α → α) (a x b : α) (l : List α) :
    Path f a (x :: l) b ↔ f a = x ∧ Path f x l b := Iff.rfl

@[simp] theorem lastOf_nil (a : α) : lastOf a [] = a := rfl
@[simp] theorem lastOf_cons (a x : α) (l : List α) : lastOf a (x :: l) = lastOf x l := rfl
@[simp] theorem firstOf_nil (b : α) : firstOf [] b = b := rfl
@[simp] theorem firstOf_cons (x b : α) (l : List α) : firstOf (x :: l) b = x := rfl

@[simp] theorem lastOf_append_singleton (a x : α) (l : List α) : lastOf a (l ++ [x]) = x := by
  induction l generalizing a with
  | nil => rfl
  | cons y l ih => simpa using ih y

theorem lastOf_mem (a : α) (l : List α) : lastOf a l ∈ a :: l := by
  induction l generalizing a with
  | nil => simp
  | cons x l ih => exact List.mem_cons_of_mem _ (ih x)

theorem firstOf_mem (l : List α) (b : α) : firstOf l b ∈ b :: l := by
  cases l <;> simp

theorem firstOf_reverse (l : List α) (b : α) : firstOf l.reverse b = lastOf b l := by
  induction l using List.reverseRecOn generalizing b with
  | nil => rfl
  | append_singleton l x ih => simp

theorem lastOf_reverse (l : List α) (b : α) : lastOf b l.reverse = firstOf l b := by
  rw [← firstOf_reverse, List.reverse_reverse]

/-- A path reads `f` only at its start and its members. -/
theorem Path.congr {f g : α → α} {a b : α} {l : List α}
    (h : Path f a l b) (hfg : ∀ x ∈ a :: l, g x = f x) : Path g a l b := by
  induction l generalizing a with
  | nil => exact (hfg a (by simp)).trans h
  | cons x l ih =>
      refine ⟨(hfg a (by simp)).trans h.1, ih h.2 fun y hy => hfg y ?_⟩
      exact List.mem_cons_of_mem _ hy

theorem path_append {f : α → α} {a b x : α} {l₁ l₂ : List α} :
    Path f a (l₁ ++ x :: l₂) b ↔ Path f a l₁ x ∧ Path f x l₂ b := by
  induction l₁ generalizing a with
  | nil => simp
  | cons y l₁ ih => simp [ih, and_assoc]

/-- The link of a node is the node behind it. -/
theorem Path.link {f : α → α} {a b : α} {l₁ l₂ : List α}
    (h : Path f a (l₁ ++ l₂) b) : f (lastOf a l₁) = firstOf l₂ b := by
  induction l₁ generalizing a with
  | nil =>
      cases l₂ with
      | nil => exact h
      | cons x l => exact h.1
  | cons x l₁ ih => exact ih h.2

instance Path.decidable [DecidableEq α] (f : α → α) : ∀ (a : α) (l : List α) (b : α),
    Decidable (Path f a l b)
  | a, [], b => inferInstanceAs (Decidable (f a = b))
  | a, x :: l, b =>
      have := Path.decidable f x l b
      inferInstanceAs (Decidable (f a = x ∧ Path f x l b))

/-- The part of a path from one of its nodes on. -/
theorem Path.from_last {f : α → α} {a b : α} {l₁ l₂ : List α} (h : Path f a (l₁ ++ l₂) b) :
    Path f (lastOf a l₁) l₂ b := by
  induction l₁ generalizing a with
  | nil => exact h
  | cons x l₁ ih => exact ih h.2

/-- Where every link goes up, the path is increasing. -/
theorem Path.pairwise_lt [Preorder α] {f : α → α} {a b : α} {l : List α} (h : Path f a l b)
    (hlt : ∀ x ∈ a :: l, x < f x) : (a :: (l ++ [b])).Pairwise (· < ·) := by
  induction l generalizing a with
  | nil =>
      have hab : a < b := (hlt a (by simp)).trans_eq h
      simpa using hab
  | cons x l ih =>
      have hax : a < x := (hlt a (by simp)).trans_eq h.1
      have hp := ih h.2 fun y hy => hlt y (List.mem_cons_of_mem _ hy)
      refine List.pairwise_cons.mpr ⟨fun y hy => ?_, hp⟩
      rcases List.mem_cons.mp hy with rfl | hy
      · exact hax
      · exact hax.trans ((List.pairwise_cons.mp hp).1 y hy)

/-- An increasing path does not come back. -/
theorem Path.not_cycle [Preorder α] {f : α → α} {a : α} {l : List α} (h : Path f a l a) :
    ¬ ∀ x ∈ a :: l, x < f x := by
  intro hlt
  exact lt_irrefl a ((List.pairwise_cons.mp (h.pairwise_lt hlt)).1 a (by simp))

/-- Two increasing paths with the same ends are the same. -/
theorem Path.unique [Preorder α] {f : α → α} {a b : α} {l l' : List α} (h : Path f a l b)
    (h' : Path f a l' b) (hlt : ∀ x ∈ a :: l, x < f x) (hlt' : ∀ x ∈ a :: l', x < f x) : l = l' := by
  induction l generalizing a l' with
  | nil =>
      cases l' with
      | nil => rfl
      | cons y l' =>
          obtain rfl : y = b := h'.1.symm.trans h
          exact absurd (fun x hx => hlt' x (List.mem_cons_of_mem _ hx)) h'.2.not_cycle
  | cons x l ih =>
      cases l' with
      | nil =>
          obtain rfl : x = b := h.1.symm.trans h'
          exact absurd (fun y hy => hlt y (List.mem_cons_of_mem _ hy)) h.2.not_cycle
      | cons y l' =>
          obtain rfl : x = y := h.1.symm.trans h'.1
          rw [ih h.2 h'.2 (fun z hz => hlt z (List.mem_cons_of_mem _ hz)) fun z hz =>
            hlt' z (List.mem_cons_of_mem _ hz)]

/-- The last member of an increasing list is its largest. -/
theorem le_lastOf [Preorder α] {a x : α} {l : List α} (h : (a :: l).Pairwise (· < ·))
    (hx : x ∈ a :: l) : x ≤ lastOf a l := by
  induction l generalizing a x with
  | nil => exact (List.mem_singleton.mp hx).le
  | cons y l ih =>
      obtain ⟨hay, hl⟩ := List.pairwise_cons.mp h
      rcases List.mem_cons.mp hx with rfl | hx
      · exact (hay y List.mem_cons_self).le.trans (ih hl List.mem_cons_self)
      · exact ih hl hx

/-- Every node is a position of the path. -/
theorem exists_position {a x : α} {l : List α} (hx : x ∈ a :: l) :
    ∃ l₁ l₂, l = l₁ ++ l₂ ∧ lastOf a l₁ = x := by
  rcases List.mem_cons.mp hx with rfl | hx
  · exact ⟨[], l, rfl, rfl⟩
  · obtain ⟨s, t, rfl⟩ := List.append_of_mem hx
    exact ⟨s ++ [x], t, by simp, by simp⟩

/-- The link of a node is a later member or the end. -/
theorem Path.link_mem {f : α → α} {a b x : α} {l : List α} (h : Path f a l b) (hx : x ∈ a :: l) :
    f x ∈ l ∨ f x = b := by
  obtain ⟨l₁, l₂, rfl, rfl⟩ := exists_position hx
  rw [h.link]
  rcases List.mem_cons.mp (firstOf_mem l₂ b) with e | e
  · exact Or.inr e
  · exact Or.inl (List.mem_append_right _ e)

/-- Every member is linked to. -/
theorem Path.exists_link {f : α → α} {a b y : α} {l : List α} (h : Path f a l b) (hy : y ∈ l) :
    ∃ x ∈ a :: l, f x = y := by
  induction l generalizing a with
  | nil => exact absurd hy (by simp)
  | cons z l ih =>
      rcases List.mem_cons.mp hy with rfl | hy
      · exact ⟨a, by simp, h.1⟩
      · obtain ⟨x, hx, hxy⟩ := ih h.2 hy
        exact ⟨x, List.mem_cons_of_mem _ hx, hxy⟩

/-- Where every link goes up, no node lies between a node and its link. -/
theorem Path.link_le [LinearOrder α] {f : α → α} {a b x y : α} {l : List α} (h : Path f a l b)
    (hlt : ∀ x ∈ a :: l, x < f x) (hx : x ∈ a :: l) (hy : y ∈ a :: l) (hxy : x < y) : f x ≤ y := by
  have hp := h.pairwise_lt hlt
  induction l generalizing a with
  | nil =>
      rw [List.mem_singleton] at hx hy
      exact absurd hxy (by simp [hx, hy])
  | cons z l ih =>
      obtain ⟨haz, hp'⟩ := List.pairwise_cons.mp hp
      have hz : ∀ w ∈ z :: l, a < w := fun w hw => haz w (List.mem_append_left [b] hw)
      rcases List.mem_cons.mp hy with rfl | hyz
      · -- nothing is in front of the first node
        rcases List.mem_cons.mp hx with rfl | hxz
        · exact absurd hxy (lt_irrefl _)
        · exact absurd hxy (hz x hxz).le.not_gt
      · rcases List.mem_cons.mp hx with rfl | hxz
        · rw [h.1]
          rcases List.mem_cons.mp hyz with rfl | hyl
          · exact le_refl y
          · exact ((List.pairwise_cons.mp hp').1 y (List.mem_append_left [b] hyl)).le
        · exact ih h.2 (fun w hw => hlt w (List.mem_cons_of_mem _ hw)) hxz hyz hp'

/-- Bypass `x`: the node in front of it gets the link of `x`. -/
theorem Path.unlink {f g : α → α} {a b x : α} {l₁ l₂ : List α}
    (h : Path f a (l₁ ++ x :: l₂) b) (hnd : (a :: (l₁ ++ x :: l₂)).Nodup)
    (hg : g (lastOf a l₁) = f x)
    (hfg : ∀ y ∈ a :: (l₁ ++ l₂), y ≠ lastOf a l₁ → g y = f y) :
    Path g a (l₁ ++ l₂) b := by
  induction l₁ generalizing a with
  | nil =>
      obtain ⟨-, h⟩ := h
      cases l₂ with
      | nil => exact hg.trans h
      | cons y l =>
          refine ⟨hg.trans h.1, h.2.congr fun z hz => hfg z (List.mem_cons_of_mem _ hz) ?_⟩
          rintro rfl
          simp only [List.nil_append] at hz hnd
          exact (List.nodup_cons.mp hnd).1 (List.mem_cons_of_mem _ hz)
  | cons y l₁ ih =>
      obtain ⟨hy, h⟩ := h
      obtain ⟨ha, hnd⟩ := List.nodup_cons.mp hnd
      refine ⟨(hfg a (by simp) ?_).trans hy, ih h hnd hg fun z hz => ?_⟩
      · intro hlast
        refine ha ?_
        rw [hlast]
        exact List.mem_append_left _ (lastOf_mem y l₁)
      · exact hfg z (List.mem_cons_of_mem _ hz)

/-- Link `x` in behind the last node of `a :: l₁`. -/
theorem Path.insert {f g : α → α} {a b x : α} {l₁ l₂ : List α}
    (h : Path f a (l₁ ++ l₂) b) (hnd : (a :: (l₁ ++ l₂)).Nodup)
    (hlast : g (lastOf a l₁) = x) (hx : g x = firstOf l₂ b)
    (hfg : ∀ y ∈ a :: (l₁ ++ l₂), y ≠ lastOf a l₁ → g y = f y) :
    Path g a (l₁ ++ x :: l₂) b := by
  induction l₁ generalizing a with
  | nil =>
      refine ⟨hlast, ?_⟩
      cases l₂ with
      | nil => exact hx
      | cons y l =>
          refine ⟨hx, h.2.congr fun z hz => hfg z (List.mem_cons_of_mem _ hz) ?_⟩
          rintro rfl
          exact (List.nodup_cons.mp hnd).1 hz
  | cons y l₁ ih =>
      obtain ⟨hy, h⟩ := h
      obtain ⟨ha, hnd⟩ := List.nodup_cons.mp hnd
      refine ⟨(hfg a (by simp) ?_).trans hy, ih h hnd hlast fun z hz => ?_⟩
      · intro hl
        refine ha ?_
        rw [hl]
        exact List.mem_append_left _ (lastOf_mem y l₁)
      · exact hfg z (List.mem_cons_of_mem _ hz)

/-! ## Rings -/

end Dll

/-- The circular list with head `h` and members `l`, in `n` order. -/
structure Dll {α : Type*} (n p : α → α) (h : α) (l : List α) : Prop where
  nodup : (h :: l).Nodup
  next : Dll.Path n h l h
  prev : Dll.Path p h l.reverse h

namespace Dll

variable {α : Type*} {n p n' p' : α → α} {h x : α} {l l₁ l₂ : List α}

/-- The empty ring: the head is linked to itself. -/
theorem nil_iff : Dll n p h [] ↔ n h = h ∧ p h = h :=
  ⟨fun d => ⟨d.next, d.prev⟩, fun d => ⟨by simp, d.1, d.2⟩⟩

/-- A ring with one member. -/
theorem singleton (hne : h ≠ x) (h₁ : n h = x) (h₂ : n x = h) (h₃ : p h = x) (h₄ : p x = h) :
    Dll n p h [x] :=
  ⟨by simpa using hne, ⟨h₁, h₂⟩, ⟨h₃, h₄⟩⟩

theorem congr (d : Dll n p h l) (hn : ∀ y ∈ h :: l, n' y = n y) (hp : ∀ y ∈ h :: l, p' y = p y) :
    Dll n' p' h l :=
  ⟨d.nodup, d.next.congr hn, d.prev.congr fun y hy => hp y (by simpa using hy)⟩

/-- The node behind a position. -/
theorem next_split (d : Dll n p h (l₁ ++ l₂)) : n (lastOf h l₁) = firstOf l₂ h := d.next.link

/-- The node in front of a position. -/
theorem prev_split (d : Dll n p h (l₁ ++ l₂)) : p (firstOf l₂ h) = lastOf h l₁ := by
  have hp := d.prev
  rw [List.reverse_append] at hp
  rw [← lastOf_reverse, hp.link, firstOf_reverse]

theorem next_mid (d : Dll n p h (l₁ ++ x :: l₂)) : n x = firstOf l₂ h := by
  have hd : Dll n p h ((l₁ ++ [x]) ++ l₂) := by simpa using d
  simpa using hd.next_split

theorem prev_mid (d : Dll n p h (l₁ ++ x :: l₂)) : p x = lastOf h l₁ := d.prev_split

theorem next_mem (d : Dll n p h l) {y : α} (hy : y ∈ h :: l) : n y ∈ h :: l := by
  obtain ⟨l₁, l₂, rfl, rfl⟩ := exists_position hy
  rw [d.next_split]
  rcases List.mem_cons.mp (firstOf_mem l₂ h) with e | e
  · simp [e]
  · exact List.mem_cons_of_mem _ (List.mem_append_right _ e)

theorem prev_next (d : Dll n p h l) {y : α} (hy : y ∈ h :: l) : p (n y) = y := by
  obtain ⟨l₁, l₂, rfl, rfl⟩ := exists_position hy
  rw [d.next_split, d.prev_split]

/-- The ring read backwards. -/
theorem symm (d : Dll n p h l) : Dll p n h l.reverse :=
  ⟨by simpa using d.nodup, d.prev, by simpa using d.next⟩

theorem prev_mem (d : Dll n p h l) {y : α} (hy : y ∈ h :: l) : p y ∈ h :: l := by
  have := d.symm.next_mem (y := y) (by simpa using hy)
  simpa using this

theorem next_prev (d : Dll n p h l) {y : α} (hy : y ∈ h :: l) : n (p y) = y :=
  d.symm.prev_next (by simpa using hy)

/-- Take `x` out: its neighbours are linked to each other. -/
theorem unlink (d : Dll n p h (l₁ ++ x :: l₂))
    (hn : n' (p x) = n x) (hn' : ∀ y ∈ h :: (l₁ ++ l₂), y ≠ p x → n' y = n y)
    (hp : p' (n x) = p x) (hp' : ∀ y ∈ h :: (l₁ ++ l₂), y ≠ n x → p' y = p y) :
    Dll n' p' h (l₁ ++ l₂) := by
  rw [d.prev_mid] at hn hn'
  rw [d.next_mid] at hp hp'
  have hsub : List.Sublist (h :: (l₁ ++ l₂)) (h :: (l₁ ++ x :: l₂)) := by simp
  refine ⟨hsub.nodup d.nodup, d.next.unlink d.nodup hn hn', ?_⟩
  have hprev : Path p h (l₂.reverse ++ x :: l₁.reverse) h := by simpa using d.prev
  have hnd : (h :: (l₂.reverse ++ x :: l₁.reverse)).Nodup := by
    have := d.symm.nodup
    simpa using this
  rw [List.reverse_append]
  refine hprev.unlink hnd ?_ fun y hy => ?_
  · rw [lastOf_reverse, hp, d.prev_mid]
  · rw [lastOf_reverse]
    exact hp' y (by simpa [or_comm] using hy)

/-- Link `x` in at a position. -/
theorem insert (d : Dll n p h (l₁ ++ l₂)) (hx : x ∉ h :: (l₁ ++ l₂))
    (hn : n' (lastOf h l₁) = x) (hnx : n' x = firstOf l₂ h)
    (hn' : ∀ y ∈ h :: (l₁ ++ l₂), y ≠ lastOf h l₁ → n' y = n y)
    (hp : p' (firstOf l₂ h) = x) (hpx : p' x = lastOf h l₁)
    (hp' : ∀ y ∈ h :: (l₁ ++ l₂), y ≠ firstOf l₂ h → p' y = p y) :
    Dll n' p' h (l₁ ++ x :: l₂) := by
  refine ⟨?_, d.next.insert d.nodup hn hnx hn', ?_⟩
  · have hperm : (h :: (l₁ ++ x :: l₂)).Perm (x :: h :: (l₁ ++ l₂)) :=
      (List.perm_middle.cons h).trans (List.Perm.swap _ _ _)
    exact hperm.nodup_iff.mpr (List.nodup_cons.mpr ⟨hx, d.nodup⟩)
  · have hprev : Path p h (l₂.reverse ++ l₁.reverse) h := by simpa using d.prev
    have hnd : (h :: (l₂.reverse ++ l₁.reverse)).Nodup := by
      have := d.symm.nodup
      simpa using this
    have goal : Path p' h (l₂.reverse ++ x :: l₁.reverse) h := by
      refine hprev.insert hnd ?_ ?_ fun y hy => ?_
      · rw [lastOf_reverse, hp]
      · rw [firstOf_reverse, hpx]
      · rw [lastOf_reverse]
        exact hp' y (by simpa [or_comm] using hy)
    simpa using goal

end Dll
