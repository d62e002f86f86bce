import RTThread.Lib.Handles
import RTThread.Memheap.Integrity
import RTThread.Memheap.Malloc

set_option autoImplicit false

/-! # Several heaps

The heaps of a system lie apart: each with its own pool and its own free list head. A call works
on one heap; what it stores is in the pool or the free list head of that heap, so the other heaps
keep their invariant and the payloads of their blocks. `SetInv` is the invariant of all heaps, and
`Effect` says what a call does to the blocks in use of all heaps: it gives up one pointer, returns
another, and leaves the rest alone.
-/

namespace RTThread.Memheap

variable {m m' : Mem} {rest rest' fl fl' : List Nat} {a b p : Nat}

/-! ## The heaps -/

/-- No address is in the pool or the free list head of both heaps. -/
def InitArgs.Disjoint (A B : InitArgs) : Prop := ∀ a, Outside A.layout a ∨ Outside B.layout a

/-- The heap objects in the order of their initialisation, one of them being `_heap`. -/
structure HeapSet where
  all : List InitArgs
  sys : InitArgs
  sys_mem : sys ∈ all
  apart : all.Pairwise fun A B => A.heap ≠ B.heap ∧ A.Disjoint B

/-- The object list of the class: a new object is inserted at the front. -/
def HeapSet.objectList (H : HeapSet) : List Nat := (H.all.map InitArgs.heap).reverse

theorem HeapSet.apart_of_ne (H : HeapSet) {A B : InitArgs} (hA : A ∈ H.all) (hB : B ∈ H.all)
    (hne : A ≠ B) : A.heap ≠ B.heap ∧ A.Disjoint B := by
  have : Std.Symm fun A B : InitArgs => A.heap ≠ B.heap ∧ A.Disjoint B :=
    ⟨fun A B h => ⟨h.1.symm, fun a => (h.2 a).symm⟩⟩
  exact H.apart.forall hA hB hne

theorem HeapSet.eq_of_heap (H : HeapSet) {A B : InitArgs} (hA : A ∈ H.all) (hB : B ∈ H.all)
    (h : A.heap = B.heap) : A = B := by
  by_contra hne
  exact (H.apart_of_ne hA hB hne).1 h

/-! ## Pointers in use -/

/-- The size of the payload at `p`, as its header has it. -/
def payload (m : Mem) (p : Nat) : Nat := memitemSize m (sub32 p RT_MEMHEAP_SIZE)

/-- `p` is the payload of a block in use of the heap. -/
def InitArgs.LiveIn (A : InitArgs) (m : Mem) (rest : List Nat) (p : Nat) : Prop :=
  ∃ b, p = b + RT_MEMHEAP_SIZE ∧ Used A.layout m rest b ∧ b ≠ A.tail

/-- The payload has the same size and the same contents. -/
def SameBlock (m m' : Mem) (p : Nat) : Prop :=
  payload m' p = payload m p ∧ ∀ a, p ≤ a → a < p + payload m p → m' a = m a

theorem SameBlock.refl (m : Mem) (p : Nat) : SameBlock m m p := ⟨rfl, fun _ _ _ => rfl⟩

theorem SameBlock.trans {m'' : Mem} (h : SameBlock m m' p) (h' : SameBlock m' m'' p) :
    SameBlock m m'' p :=
  ⟨h'.1.trans h.1, fun a h₁ h₂ => (h'.2 a h₁ (by rwa [h.1])).trans (h.2 a h₁ h₂)⟩

section OneHeap

variable {A B : InitArgs}

theorem InitArgs.liveIn_add (hbt : b ≠ A.tail) :
    A.LiveIn m rest (b + RT_MEMHEAP_SIZE) ↔ Used A.layout m rest b := by
  constructor
  · rintro ⟨c, hc, hu, -⟩
    rwa [Nat.add_right_cancel hc]
  · exact fun hu => ⟨b, rfl, hu, hbt⟩

/-- The payload of a block reaches up to the next block. -/
theorem Wf.add_payload (w : Wf A.layout m rest fl) (hb : b ∈ A.layout.start :: rest)
    (hbt : b ≠ A.tail) : b + RT_MEMHEAP_SIZE + payload m (b + RT_MEMHEAP_SIZE) = m.get .next b := by
  unfold payload
  rw [w.sub32_header hb hbt, w.memitemSize_eq hb hbt]
  exact (w.next_eq hb hbt).symm

theorem Wf.inPayload_iff (w : Wf A.layout m rest fl) (hb : b ∈ A.layout.start :: rest)
    (hbt : b ≠ A.tail) : InPayload m b a ↔
      b + RT_MEMHEAP_SIZE ≤ a ∧ a < b + RT_MEMHEAP_SIZE + payload m (b + RT_MEMHEAP_SIZE) := by
  rw [w.add_payload hb hbt]
  exact Iff.rfl

/-- A block that is the same up to the next block keeps its payload. -/
theorem Wf.sameBlock (w : Wf A.layout m rest fl) (w' : Wf A.layout m' rest' fl')
    (hb : b ∈ A.layout.start :: rest) (hb' : b ∈ A.layout.start :: rest') (hbt : b ≠ A.tail)
    (hnext : m'.get .next b = m.get .next b) (h : ∀ a, InPayload m b a → m' a = m a) :
    SameBlock m m' (b + RT_MEMHEAP_SIZE) := by
  have h₁ := w.add_payload hb hbt
  have h₂ := w'.add_payload hb' hbt
  exact ⟨by omega, fun a ha₁ ha₂ => h a ((w.inPayload_iff hb hbt).mpr ⟨ha₁, ha₂⟩)⟩

theorem Wf.block_notOutside (w : Wf A.layout m rest fl) (hb : b ∈ A.layout.start :: rest)
    (h₁ : b ≤ a) (h₂ : a < b + RT_MEMHEAP_SIZE) : ¬ Outside A.layout a := by
  rintro ⟨h, -⟩
  have hr := w.range b hb
  omega

theorem Tiled.header_notOutside (t : Tiled A.layout m rest fl)
    (hb : b ∈ A.layout.headers rest fl) (f : Field) : ¬ Outside A.layout (b + f.off) := by
  have hoff := f.off_lt
  simp only [Layout.headers, List.mem_cons, List.mem_append] at hb
  rcases hb with rfl | rfl | hb | hb
  · rintro ⟨-, h⟩
    omega
  · exact t.wf.block_notOutside List.mem_cons_self (by omega) (by omega)
  · exact t.wf.block_notOutside (List.mem_cons_of_mem _ hb) (by omega) (by omega)
  · exact t.wf.block_notOutside (t.block hb).1 (by omega) (by omega)

theorem Wf.payload_notOutside (w : Wf A.layout m rest fl) (hb : b ∈ A.layout.start :: rest)
    (ha : InPayload m b a) : ¬ Outside A.layout a := by
  rintro ⟨h, -⟩
  obtain ⟨h₁, h₂⟩ := ha
  have hr := (w.range b hb).1
  have hle := w.next_le_tail hb
  omega

/-- A pointer in use belongs to one heap only. -/
theorem Wf.liveIn_disjoint (w : Wf A.layout m rest fl) (w' : Wf B.layout m' rest' fl')
    (hd : A.Disjoint B) (h : A.LiveIn m rest p) : ¬ B.LiveIn m' rest' p := by
  rintro ⟨c, hc, hcu, -⟩
  obtain ⟨b, rfl, hbu, -⟩ := h
  obtain rfl := Nat.add_right_cancel hc
  have hpos : b < b + RT_MEMHEAP_SIZE := Nat.lt_add_of_pos_right (by decide)
  rcases hd b with ho | ho
  · exact w.block_notOutside hbu.1 (Nat.le_refl _) hpos ho
  · exact w'.block_notOutside hcu.1 (Nat.le_refl _) hpos ho

end OneHeap

/-! ## The invariant of all heaps -/

section Set

variable {H : HeapSet} {s s' s'' : State} {R F R' F' R'' : Nat → List Nat} {A : InitArgs}
  {x r size : Nat}

/-- Every heap satisfies its invariant, with the blocks `R` and the free list `F` of its own, and
is unlocked. -/
structure SetInv (H : HeapSet) (s : State) (R F : Nat → List Nat) : Prop where
  inv : ∀ A ∈ H.all, Inv A.layout (s.pool A.heap) (R A.heap) (F A.heap)
  lock : ∀ A ∈ H.all, (s.heap A.heap).lock = 1

/-- `p` is the payload of a block in use. -/
def HeapSet.Live (H : HeapSet) (s : State) (R : Nat → List Nat) (p : Nat) : Prop :=
  ∃ A ∈ H.all, A.LiveIn s.mem (R A.heap) p

theorem HeapSet.Live.ne_zero (h : H.Live s R p) : p ≠ 0 := by
  obtain ⟨A, -, b, rfl, -⟩ := h
  unfold RT_MEMHEAP_SIZE
  omega

/-- What the callers see of the heaps. -/
def HeapSet.view (H : HeapSet) : Handles.View (State × (Nat → List Nat)) where
  live := fun s p => H.Live s.1 s.2 p
  size := fun s p => payload s.1.mem p
  same := fun s s' p => SameBlock s.1.mem s'.1.mem p
  ne_zero := HeapSet.Live.ne_zero
  same_trans := SameBlock.trans
  same_size := fun h => h.1

/-- What a call does to the blocks in use of all heaps. -/
abbrev Effect (H : HeapSet) (s : State) (R : Nat → List Nat) (s' : State) (R' : Nat → List Nat)
    (x r n : Nat) : Prop := Handles.Effect H.view (s, R) (s', R') x r n

namespace SetInv

theorem wf (hs : SetInv H s R F) (hA : A ∈ H.all) : Wf A.layout s.mem (R A.heap) (F A.heap) :=
  (hs.inv A hA).wf

/-- The heap of a pointer in use. -/
theorem heap_unique (hs : SetInv H s R F) {B : InitArgs} (hA : A ∈ H.all) (hB : B ∈ H.all)
    (h : A.LiveIn s.mem (R A.heap) p) (h' : B.LiveIn s.mem (R B.heap) p) : B = A := by
  by_contra hne
  exact (hs.wf hA).liveIn_disjoint (hs.wf hB) (H.apart_of_ne hA hB (Ne.symm hne)).2 h h'

/-- A change of what is in one heap, seen from another one. -/
theorem other (hs : SetInv H s R F) {B : InitArgs} (hA : A ∈ H.all) (hB : B ∈ H.all) (hne : B ≠ A)
    (hout : ∀ a, Outside A.layout a → m' a = s.mem a) :
    Inv B.layout ⟨m', s.heap B.heap⟩ (R B.heap) (F B.heap) ∧
      (∀ b, Used B.layout m' (R B.heap) b ↔ Used B.layout s.mem (R B.heap) b) ∧
      ∀ p, B.LiveIn s.mem (R B.heap) p → SameBlock s.mem m' p := by
  have hB' := hs.inv B hB
  have hsame : ∀ a, ¬ Outside B.layout a → m' a = s.mem a := fun a ha =>
    hout a (((H.apart_of_ne hB hA hne).2 a).resolve_left ha)
  have hh : SameHeaders B.layout (R B.heap) (F B.heap) s.mem m' := fun f b hb =>
    hsame _ (hB'.toTiled.header_notOutside hb f)
  have hi := hB'.congr hh
  refine ⟨hi, fun b => (hh.sameBlocks.sameUsed b).1, ?_⟩
  rintro p ⟨b, rfl, hu, hbt⟩
  refine hB'.wf.sameBlock hi.wf hu.1 hu.1 hbt ((hh.sameBlocks.sameUsed b).2 hu) fun a ha => ?_
  exact hsame a (hB'.wf.payload_notOutside hu.1 ha)

/-- **A call on one heap**: what it does to the blocks of that heap is what it does to all. -/
theorem effect {n : Nat} (hs : SetInv H s R F) (hA : A ∈ H.all)
    (i : Inv A.layout (s'.pool A.heap) rest' fl') (hl : (s'.heap A.heap).lock = 1)
    (hout : ∀ a, Outside A.layout a → s'.mem a = s.mem a)
    (hother : ∀ g, g ≠ A.heap → s'.heap g = s.heap g)
    (hx : x = 0 ∨ A.LiveIn s.mem (R A.heap) x)
    (hlive : ∀ p, A.LiveIn s'.mem rest' p ↔
      (A.LiveIn s.mem (R A.heap) p ∧ p ≠ x) ∨ (r ≠ 0 ∧ p = r))
    (hkeep : ∀ p, A.LiveIn s.mem (R A.heap) p → p ≠ x → SameBlock s.mem s'.mem p)
    (hfresh : r ≠ 0 → r ≠ x → ¬ A.LiveIn s.mem (R A.heap) r)
    (hroom : r ≠ 0 → n ≤ payload s'.mem r) :
    ∃ R' F', SetInv H s' R' F' ∧ Effect H s R s' R' x r n := by
  have hRA : Function.update R A.heap rest' A.heap = rest' := Function.update_self ..
  have hRB : ∀ B ∈ H.all, B ≠ A → Function.update R A.heap rest' B.heap = R B.heap :=
    fun B hB hne => Function.update_of_ne (H.apart_of_ne hB hA hne).1 ..
  have hB := fun (B : InitArgs) (hB : B ∈ H.all) (hne : B ≠ A) => hs.other hA hB hne hout
  have hlA : ∀ p, H.Live s R p ↔ A.LiveIn s.mem (R A.heap) p ∨
      ∃ B ∈ H.all, B ≠ A ∧ B.LiveIn s.mem (R B.heap) p := by
    intro p
    constructor
    · rintro ⟨B, hB, h⟩
      by_cases hBA : B = A
      · exact Or.inl (hBA ▸ h)
      · exact Or.inr ⟨B, hB, hBA, h⟩
    · rintro (h | ⟨B, hB, -, h⟩)
      · exact ⟨A, hA, h⟩
      · exact ⟨B, hB, h⟩
  have hlB : ∀ B ∈ H.all, B ≠ A → ∀ p,
      B.LiveIn s'.mem (Function.update R A.heap rest' B.heap) p ↔ B.LiveIn s.mem (R B.heap) p := by
    intro B hB' hne p
    unfold InitArgs.LiveIn
    rw [hRB B hB' hne]
    simp only [(hB B hB' hne).2.1]
  have hlA' : ∀ p, H.Live s' (Function.update R A.heap rest') p ↔ A.LiveIn s'.mem rest' p ∨
      ∃ B ∈ H.all, B ≠ A ∧ B.LiveIn s.mem (R B.heap) p := by
    intro p
    constructor
    · rintro ⟨B, hB', h⟩
      by_cases hBA : B = A
      · subst hBA
        rw [hRA] at h
        exact Or.inl h
      · exact Or.inr ⟨B, hB', hBA, (hlB B hB' hBA p).mp h⟩
    · rintro (h | ⟨B, hB', hne, h⟩)
      · exact ⟨A, hA, hRA.symm ▸ h⟩
      · exact ⟨B, hB', (hlB B hB' hne p).mpr h⟩
  -- the pointer that is given up is in no other heap
  have hxB : ∀ B ∈ H.all, B ≠ A → ∀ p, B.LiveIn s.mem (R B.heap) p → p ≠ x := by
    rintro B hB' hne p h rfl
    rcases hx with rfl | hx
    · exact HeapSet.Live.ne_zero (s := s) ⟨B, hB', h⟩ rfl
    · exact hne (hs.heap_unique hA hB' hx h)
  refine ⟨Function.update R A.heap rest', Function.update F A.heap fl',
    ⟨fun B hB' => ?_, fun B hB' => ?_⟩, fun p => ?_, ?_, ?_, hroom⟩
  · by_cases hBA : B = A
    · subst hBA
      rw [hRA, Function.update_self]
      exact i
    · have hne := (H.apart_of_ne hB' hA hBA).1
      rw [hRB B hB' hBA, Function.update_of_ne hne, State.pool, hother _ hne]
      exact (hB B hB' hBA).1
  · by_cases hBA : B = A
    · exact hBA ▸ hl
    · rw [hother _ (H.apart_of_ne hB' hA hBA).1]
      exact hs.lock B hB'
  · change H.Live s' (Function.update R A.heap rest') p ↔ (H.Live s R p ∧ p ≠ x) ∨ (r ≠ 0 ∧ p = r)
    rw [hlA', hlive, hlA]
    constructor
    · rintro ((⟨h₁, h₂⟩ | h) | ⟨B, hB', hne, h⟩)
      · exact Or.inl ⟨Or.inl h₁, h₂⟩
      · exact Or.inr h
      · exact Or.inl ⟨Or.inr ⟨B, hB', hne, h⟩, hxB B hB' hne p h⟩
    · rintro (⟨h | h, h₂⟩ | h)
      · exact Or.inl (Or.inl ⟨h, h₂⟩)
      · exact Or.inr h
      · exact Or.inl (Or.inr h)
  · intro p h hne
    rcases (hlA p).mp h with h | ⟨B, hB', hBA, h⟩
    · exact hkeep p h hne
    · exact (hB B hB' hBA).2.2 p h
  · intro hr hrx h
    rcases (hlA r).mp h with h | ⟨B, hB', hBA, h⟩
    · exact hfresh hr hrx h
    · -- the new payload is in the pool of `A`
      have hnew : A.LiveIn s'.mem rest' r := (hlive r).mpr (Or.inr ⟨hr, rfl⟩)
      exact i.wf.liveIn_disjoint (hs.wf hB') (H.apart_of_ne hA hB' (Ne.symm hBA)).2 hnew h

end SetInv

end Set

end RTThread.Memheap
