import RTThread.Finsh.Heap

set_option autoImplicit false

/-! # The blocks of the shell's heap

A layout is the list of the blocks in the order of their addresses. `Inv h bs` says that the heap `h` has
the layout `bs`: the blocks tile `finsh_heap`, the two lists link the free and the allocated ones in this
order, of two neighbours one is allocated, and the last block is free. That the last block is free is what
keeps `finsh_block_insert` from its branch that leaves the link of the new block as it was.
-/

namespace RTThread.FinshHeap

open Sll (Linked search search_eq search_eq_zero search_cases)

/-- A block, with the address of its header. -/
structure Blk where
  addr : Nat
  len : Nat
  used : Bool
  deriving DecidableEq, Repr

/-- The blocks stand one behind the other from `a` up to `e`. -/
def Tiles : Nat → List Blk → Nat → Prop
  | a, [], e => a = e
  | a, b :: bs, e => b.addr = a ∧ Tiles (a + 8 + b.len) bs e

def addrs (bs : List Blk) : List Nat := bs.map Blk.addr

/-- The addresses of the free blocks, and of the allocated ones. -/
def freeOf (bs : List Blk) : List Nat := addrs (bs.filter fun b => !b.used)

def usedOf (bs : List Blk) : List Nat := addrs (bs.filter Blk.used)

/-- Of two neighbours, one is allocated. -/
def Merged (bs : List Blk) : Prop := bs.IsChain fun b c => b.used = true ∨ c.used = true

/-- The headers and the lists are those of a layout. -/
structure Lists (m : Mem) (free used : Nat) (bs : List Blk) : Prop where
  len : ∀ b ∈ bs, m.get .length b.addr = b.len
  free : Linked (m.get .next) free (freeOf bs)
  used : Linked (m.get .next) used (usedOf bs)

/-- The heap has a layout. -/
structure Inv (h : Heap) (bs : List Blk) : Prop where
  base : 0 < h.base
  tiles : Tiles h.base bs (h.base + FINSH_HEAP_MAX)
  lists : Lists h.mem h.freeList h.allocateList bs
  merged : Merged bs
  last : ∃ bs' b, bs = bs' ++ [b] ∧ b.used = false

variable {m m' : Mem} {a e x v n : Nat} {bs l r : List Blk} {b c : Blk} {f g : Field}

/-! ## Layouts -/

theorem tiles_append : Tiles a (l ++ r) e ↔ ∃ k, Tiles a l k ∧ Tiles k r e := by
  induction l generalizing a with
  | nil => simp [Tiles]
  | cons b l ih =>
      simp only [List.cons_append, Tiles, ih]
      exact ⟨fun ⟨h, k, h₁, h₂⟩ => ⟨k, ⟨h, h₁⟩, h₂⟩, fun ⟨k, ⟨h, h₁⟩, h₂⟩ => ⟨h, k, h₁, h₂⟩⟩

theorem Tiles.le (h : Tiles a bs e) : a ≤ e := by
  induction bs generalizing a with
  | nil => exact Nat.le_of_eq h
  | cons b bs ih =>
      have hle := ih h.2
      omega

/-- The blocks lie between the ends. -/
theorem Tiles.bounds (h : Tiles a bs e) (hb : b ∈ bs) : a ≤ b.addr ∧ b.addr + 8 + b.len ≤ e := by
  obtain ⟨l, r, rfl⟩ := List.append_of_mem hb
  obtain ⟨k, h₁, h₂, h₃⟩ := tiles_append.mp h
  have hl := h₁.le
  have hr := h₃.le
  omega

/-- Blocks further on have higher addresses. -/
theorem Tiles.sorted (h : Tiles a bs e) : bs.Pairwise fun b c => b.addr + 8 + b.len ≤ c.addr := by
  induction bs generalizing a with
  | nil => exact .nil
  | cons b bs ih =>
      refine List.pairwise_cons.mpr ⟨fun c hc => ?_, ih h.2⟩
      rw [h.1]
      exact (h.2.bounds hc).1

theorem Tiles.length_le (h : Tiles a bs e) : a + 8 * bs.length ≤ e := by
  induction bs generalizing a with
  | nil => exact Nat.le_of_eq h
  | cons b bs ih =>
      have hle := ih h.2
      rw [List.length_cons]
      omega

/-- Two headers do not overlap. -/
abbrev Apart (a b : Nat) : Prop := Fields.Apart 8 a b

theorem Tiles.apart (h : Tiles a bs e) (hb : b ∈ bs) (hc : c ∈ bs) :
    b.addr = c.addr ∨ Apart b.addr c.addr := by
  have hs := h.sorted
  have hall : bs.Pairwise fun b c => b.addr = c.addr ∨ Apart b.addr c.addr :=
    hs.imp fun hle => .inr (.inl (by omega))
  have hall' : bs.Pairwise fun b c => c.addr = b.addr ∨ Apart c.addr b.addr :=
    hs.imp fun hle => .inr (.inr (by omega))
  by_cases hbc : b = c
  · exact .inl (congrArg Blk.addr hbc)
  · exact hall.forall_of_forall_of_flip (fun _ _ => .inl rfl) hall' hb hc

/-- A block is determined by its address. -/
theorem Tiles.inj (h : Tiles a bs e) (hb : b ∈ bs) (hc : c ∈ bs) (hbc : b.addr = c.addr) : b = c := by
  have hne : bs.Pairwise fun b c => b.addr ≠ c.addr := h.sorted.imp fun hle => by omega
  have hall : bs.Pairwise fun b c => b.addr = c.addr → b = c :=
    hne.imp fun hne heq => absurd heq hne
  have hall' : bs.Pairwise fun b c => c.addr = b.addr → c = b :=
    hne.imp fun hne heq => absurd heq.symm hne
  exact hall.forall_of_forall_of_flip (fun _ _ _ => rfl) hall' hb hc hbc

@[simp] theorem addrs_append : addrs (l ++ r) = addrs l ++ addrs r := List.map_append

theorem freeOf_append : freeOf (l ++ r) = freeOf l ++ freeOf r := by
  rw [freeOf, List.filter_append, addrs_append]
  rfl

theorem usedOf_append : usedOf (l ++ r) = usedOf l ++ usedOf r := by
  rw [usedOf, List.filter_append, addrs_append]
  rfl

theorem freeOf_cons (b : Blk) : freeOf (b :: bs) = (if b.used then [] else [b.addr]) ++ freeOf bs := by
  cases hb : b.used
  · simp [freeOf, addrs, hb]
  · simp [freeOf, addrs, hb]

theorem usedOf_cons (b : Blk) : usedOf (b :: bs) = (if b.used then [b.addr] else []) ++ usedOf bs := by
  cases hb : b.used
  · simp [usedOf, addrs, hb]
  · simp [usedOf, addrs, hb]

theorem mem_addrs : x ∈ addrs bs ↔ ∃ b ∈ bs, b.addr = x := List.mem_map

theorem mem_freeOf : x ∈ freeOf bs ↔ ∃ b ∈ bs, b.used = false ∧ b.addr = x := by
  simp [freeOf, addrs, and_assoc]

theorem mem_usedOf : x ∈ usedOf bs ↔ ∃ b ∈ bs, b.used = true ∧ b.addr = x := by
  simp [usedOf, addrs, and_assoc]

theorem freeOf_subset (h : x ∈ freeOf bs) : x ∈ addrs bs := by
  obtain ⟨b, hb, -, rfl⟩ := mem_freeOf.mp h
  exact mem_addrs.mpr ⟨b, hb, rfl⟩

theorem usedOf_subset (h : x ∈ usedOf bs) : x ∈ addrs bs := by
  obtain ⟨b, hb, -, rfl⟩ := mem_usedOf.mp h
  exact mem_addrs.mpr ⟨b, hb, rfl⟩

theorem Tiles.addrs_sorted (h : Tiles a bs e) : (addrs bs).Pairwise (· < ·) :=
  List.pairwise_map.mpr (h.sorted.imp fun hle => by omega)

theorem Tiles.freeOf_sorted (h : Tiles a bs e) : (freeOf bs).Pairwise (· < ·) :=
  h.addrs_sorted.sublist (List.filter_sublist.map _)

theorem Tiles.usedOf_sorted (h : Tiles a bs e) : (usedOf bs).Pairwise (· < ·) :=
  h.addrs_sorted.sublist (List.filter_sublist.map _)

/-- A block is in one list only. -/
theorem Tiles.disjoint (h : Tiles a bs e) (hf : x ∈ freeOf bs) (hu : x ∈ usedOf bs) : False := by
  obtain ⟨b, hb, hbf, rfl⟩ := mem_freeOf.mp hf
  obtain ⟨c, hc, hcu, hcb⟩ := mem_usedOf.mp hu
  rw [← h.inj hb hc hcb.symm, hbf] at hcu
  cases hcu

/-! ## Headers -/

theorem Field.off_injective : Function.Injective Field.off := by
  intro f g h
  cases f <;> cases g <;> first | rfl | (simp [Field.off] at h)

theorem Field.off_lt (f : Field) : f.off < 8 := by
  cases f <;> decide

theorem Mem.get_set (h : a = x ∨ Apart a x) :
    (m.set f a v).get g x = if g = f ∧ x = a then v else m.get g x :=
  Fields.get_set Field.off_injective Field.off_lt h

/-- Headers that do not overlap. -/
def Headers (S : List Nat) : Prop := ∀ a ∈ S, ∀ b ∈ S, a = b ∨ Apart a b

theorem Tiles.headers (h : Tiles a bs e) : Headers (addrs bs) := by
  intro x hx y hy
  obtain ⟨b, hb, rfl⟩ := mem_addrs.mp hx
  obtain ⟨c, hc, rfl⟩ := mem_addrs.mp hy
  exact h.apart hb hc

@[simp] theorem Mem.get_set_self : (m.set f a v).get f a = v := by
  rw [Mem.get_set (.inl rfl), if_pos ⟨rfl, rfl⟩]

theorem Mem.get_set_of_ne {S : List Nat} (hS : Headers S) (ha : a ∈ S) (hx : x ∈ S) (hne : x ≠ a) :
    (m.set f a v).get g x = m.get g x := by
  rw [Mem.get_set (hS a ha x hx), if_neg fun h => hne h.2]

/-- Among the headers `S`, the lengths are the same, and the links except those of `T`. -/
structure Frame (S T : List Nat) (m m' : Mem) : Prop where
  length : ∀ x ∈ S, m'.get .length x = m.get .length x
  next : ∀ x ∈ S, x ∉ T → m'.get .next x = m.get .next x

variable {S T T' : List Nat} {m'' : Mem}

theorem Frame.refl : Frame S T m m := ⟨fun _ _ => rfl, fun _ _ _ => rfl⟩

theorem Frame.trans (h : Frame S T m m') (h' : Frame S T m' m'') : Frame S T m m'' :=
  ⟨fun x hx => (h'.length x hx).trans (h.length x hx),
    fun x hx hT => (h'.next x hx hT).trans (h.next x hx hT)⟩

theorem Frame.setNext (hS : Headers S) (ha : a ∈ S) (hT : a ∈ T) : Frame S T m (m.set .next a v) := by
  refine ⟨fun x hx => ?_, fun x hx hn => ?_⟩
  · rw [Mem.get_set (hS a ha x hx), if_neg (by simp)]
  · have hne : x ≠ a := fun he => hn (he ▸ hT)
    rw [Mem.get_set (hS a ha x hx), if_neg (by simp [hne])]

end RTThread.FinshHeap
