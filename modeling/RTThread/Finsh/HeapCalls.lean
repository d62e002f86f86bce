import RTThread.Finsh.HeapLists

set_option autoImplicit false

/-! # Taking and releasing a block of the shell's heap

To take a free block splits it: the layout has an allocated block of the size asked for, and a free block
behind it. To release an allocated block makes it free, and merges it with the free blocks next to it.
-/

namespace RTThread.FinshHeap

open Sll (Linked search search_eq search_cases)

variable {m m' : Mem} {h h' : Heap} {a e x p n len size free used : Nat} {bs l r : List Blk}
  {b c : Blk} {f g : Field} {S T : List Nat}

/-! ## Layouts with a block in the middle -/

theorem merged_mid : Merged (l ++ b :: r) ↔ Merged l ∧ Merged r ∧
    (∀ x ∈ l.getLast?, x.used = true ∨ b.used = true) ∧
    ∀ y ∈ r.head?, b.used = true ∨ y.used = true := by
  unfold Merged
  rw [List.isChain_append, List.isChain_cons]
  simp only [List.head?_cons, Option.mem_some_iff, forall_eq']
  tauto

/-- The blocks that are allocated. -/
def live (bs : List Blk) : List Blk := bs.filter Blk.used

theorem usedOf_eq : usedOf bs = addrs (live bs) := rfl

theorem live_append : live (l ++ r) = live l ++ live r := List.filter_append ..

/-- The lists of a layout that is not longer than the memory. -/
theorem Tiles.length_lt (t : Tiles a bs (a + FINSH_HEAP_MAX)) : bs.length < steps := by
  have hle := t.length_le
  unfold steps FINSH_HEAP_MAX at *
  omega

theorem length_freeOf_le (bs : List Blk) : (freeOf bs).length ≤ bs.length := by
  rw [freeOf, addrs, List.length_map]
  exact List.length_filter_le ..

theorem length_usedOf_le (bs : List Blk) : (usedOf bs).length ≤ bs.length := by
  rw [usedOf, addrs, List.length_map]
  exact List.length_filter_le ..

/-- The blocks in front of a block lie below it. -/
theorem Tiles.below (t : Tiles a (l ++ b :: r) e) (hx : x ∈ addrs l) : x < b.addr := by
  obtain ⟨c, hc, rfl⟩ := mem_addrs.mp hx
  obtain ⟨k, h₁, h₂, -⟩ := tiles_append.mp t
  have hb := h₁.bounds hc
  omega

/-- The blocks behind it lie above it. -/
theorem Tiles.above (t : Tiles a (l ++ b :: r) e) (hx : x ∈ addrs r) : b.addr + 8 + b.len ≤ x := by
  obtain ⟨c, hc, rfl⟩ := mem_addrs.mp hx
  obtain ⟨k, -, h₂, h₃⟩ := tiles_append.mp t
  have hb := h₃.bounds hc
  omega

/-- The block can be another one of the same extent, or several. -/
theorem Tiles.replace (bs bs' : List Blk) (t : Tiles a (l ++ (bs ++ r)) e)
    (h : ∀ k k', Tiles k bs k' → Tiles k bs' k') : Tiles a (l ++ (bs' ++ r)) e := by
  obtain ⟨k, h₁, h₂⟩ := tiles_append.mp t
  obtain ⟨j, h₃, h₄⟩ := tiles_append.mp h₂
  exact tiles_append.mpr ⟨k, h₁, tiles_append.mpr ⟨j, h _ _ h₃, h₄⟩⟩

/-- The last block is not one in the middle that is allocated, or split. -/
theorem last_free (bs bs' : List Blk) (h : ∃ bs'' x, l ++ (bs ++ r) = bs'' ++ [x] ∧ x.used = false)
    (hr : r = [] → ∃ bs'' x, bs' = bs'' ++ [x] ∧ x.used = false) :
    ∃ bs'' x, l ++ (bs' ++ r) = bs'' ++ [x] ∧ x.used = false := by
  obtain ⟨bs'', x, hx, hu⟩ := h
  rcases List.eq_nil_or_concat r with rfl | ⟨r', y, rfl⟩
  · obtain ⟨bs₃, y, rfl, hy⟩ := hr rfl
    exact ⟨l ++ bs₃, y, by simp, hy⟩
  · have hxy : (l ++ (bs ++ r')) ++ [y] = bs'' ++ [x] := by simpa using hx
    have hlast : y = x := by simpa using (List.append_inj' hxy rfl).2
    exact ⟨l ++ (bs' ++ r'), y, by simp, hlast ▸ hu⟩

/-! ## Taking a block -/

/-- The layout after the free block at `a` was split, before and after it is allocated. -/
def parts (l r : List Blk) (a len size : Nat) (used : Bool) : List Blk :=
  l ++ ([⟨a, size, used⟩, ⟨a + 8 + size, len - 8 - size, false⟩] ++ r)

theorem Tiles.parts (t : Tiles x (l ++ ⟨a, len, false⟩ :: r) e) (hle : size + 8 ≤ len) (used : Bool) :
    Tiles x (parts l r a len size used) e :=
  Tiles.replace [⟨a, len, false⟩] _ t fun k k' hk => by
    simp only [Tiles] at hk ⊢
    omega

theorem mem_parts {used : Bool} : x ∈ addrs (parts l r a len size used) ↔
    x ∈ addrs l ∨ x = a ∨ x = a + 8 + size ∨ x ∈ addrs r := by
  simp [parts, addrs]

theorem freeOf_parts (used : Bool) : freeOf (parts l r a len size used) =
    freeOf l ++ ((if used then [] else [a]) ++ (a + 8 + size) :: freeOf r) := by
  rw [parts, freeOf_append, List.cons_append, freeOf_cons, List.cons_append, freeOf_cons]
  rfl

theorem usedOf_parts : usedOf (parts l r a len size true) = usedOf l ++ a :: usedOf r := by
  rw [parts, usedOf_append, List.cons_append, usedOf_cons, List.cons_append, usedOf_cons]
  rfl

theorem Merged.parts (h : Merged (l ++ ⟨a, len, false⟩ :: r)) : Merged (parts l r a len size true) := by
  obtain ⟨hl, hr, -, hn⟩ := merged_mid.mp h
  refine merged_mid.mpr ⟨hl, ?_, fun _ _ => .inr rfl, fun _ _ => .inl rfl⟩
  exact List.isChain_cons.mpr ⟨fun y hy => .inr ((hn y hy).resolve_left (by simp)), hr⟩

/-- What a split does to the headers. -/
theorem get_split (hS : Headers S) (ha : a ∈ S) (hb : a + 8 + size ∈ S) (hx : x ∈ S) :
    (finshBlockSplit m a size).get f x =
      if x = a then (if f = .length then size else a + 8 + size)
      else if x = a + 8 + size then
        (if f = .length then m.get .length a - 8 - size else m.get .next a)
      else m.get f x := by
  have hne : a ≠ a + 8 + size := by omega
  unfold finshBlockSplit
  dsimp only
  by_cases hxa : x = a
  · subst hxa
    rw [if_pos rfl]
    cases f with
    | length =>
        rw [if_pos rfl, Mem.get_set (.inl rfl), if_neg (by simp), Mem.get_set_of_ne hS hb hx hne,
          Mem.get_set_self]
    | next => rw [if_neg (by simp), Mem.get_set_self]
  · rw [if_neg hxa, Mem.get_set_of_ne hS ha hx hxa]
    by_cases hxb : x = a + 8 + size
    · subst hxb
      rw [if_pos rfl]
      cases f with
      | length =>
          rw [if_pos rfl, Mem.get_set (.inl rfl), if_neg (by simp), Mem.get_set_of_ne hS ha hx hxa,
            Mem.get_set_self]
      | next =>
          rw [if_neg (by simp), Mem.get_set_self, Mem.get_set (.inl rfl), if_neg (by simp),
            Mem.get_set_of_ne hS hb ha hne]
    · rw [if_neg hxb, Mem.get_set_of_ne hS hb hx hxb, Mem.get_set_of_ne hS ha hx hxa,
        Mem.get_set_of_ne hS hb hx hxb]

/-- Headers outside the data are not cleared. -/
theorem get_clear (h : x + 8 ≤ a ∨ a + size ≤ x) : (m.clear a size).get f x = m.get f x := by
  have hoff := f.off_lt
  unfold Mem.get Fields.get Mem.clear
  rw [if_neg (by omega)]

/-- The lists after a split: the rest stands behind the block among the free ones. -/
theorem Lists.split (t : Tiles x (l ++ ⟨a, len, false⟩ :: r) e) (hle : size + 8 ≤ len) (ha0 : 0 < a)
    (i : Lists m free used (l ++ ⟨a, len, false⟩ :: r)) :
    Lists (finshBlockSplit m a size) free used (parts l r a len size false) := by
  have t' := t.parts hle false
  have hS := t'.headers
  have ha : a ∈ addrs (parts l r a len size false) := mem_parts.mpr (.inr (.inl rfl))
  have hb : a + 8 + size ∈ addrs (parts l r a len size false) :=
    mem_parts.mpr (.inr (.inr (.inl rfl)))
  have hl : ∀ x ∈ addrs l, ∀ f, (finshBlockSplit m a size).get f x = m.get f x := fun x hx f => by
    have hlt : x < a := t.below hx
    rw [get_split hS ha hb (mem_parts.mpr (.inl hx)), if_neg (by omega), if_neg (by omega)]
  have hr : ∀ x ∈ addrs r, ∀ f, (finshBlockSplit m a size).get f x = m.get f x := fun x hx f => by
    have hlt : a + 8 + len ≤ x := t.above hx
    rw [get_split hS ha hb (mem_parts.mpr (.inr (.inr (.inr hx)))), if_neg (by omega),
      if_neg (by omega)]
  have hfree := i.free
  have hused := i.used
  rw [freeOf_append, freeOf_cons, if_neg (by simp), List.singleton_append] at hfree
  rw [usedOf_append, usedOf_cons, if_neg (by simp), List.nil_append] at hused
  refine ⟨fun b hbm => ?_, ?_, ?_⟩
  · rcases List.mem_append.mp hbm with hbl | hbm
    · rw [hl _ (mem_addrs.mpr ⟨b, hbl, rfl⟩)]
      exact i.len b (List.mem_append_left _ hbl)
    · rcases List.mem_cons.mp hbm with rfl | hbm
      · rw [get_split hS ha hb ha, if_pos rfl, if_pos rfl]
      · rcases List.mem_cons.mp hbm with rfl | hbr
        · rw [get_split hS ha hb hb, if_neg (by omega), if_pos rfl, if_pos rfl,
            i.len ⟨a, len, false⟩ (by simp)]
        · rw [hr _ (mem_addrs.mpr ⟨b, hbr, rfl⟩)]
          exact i.len b (List.mem_append_right _ (List.mem_cons_of_mem _ hbr))
  · rw [freeOf_parts, if_neg (by simp)]
    refine hfree.splice (fun x hx => hl x (freeOf_subset hx) _) ?_
    rw [get_split hS ha hb ha, if_pos rfl, if_neg (by simp)]
    apply Linked.cons _ (by omega)
    rw [get_split hS ha hb hb, if_neg (by omega), if_pos rfl, if_neg (by simp)]
    exact hfree.behind.congr fun x hx => hr x (freeOf_subset hx) _
  · have heq : usedOf (parts l r a len size false) = usedOf l ++ usedOf r := by
      rw [parts, usedOf_append, List.cons_append, usedOf_cons, List.cons_append, usedOf_cons]
      rfl
    rw [heq]
    refine hused.congr fun x hx => ?_
    rcases List.mem_append.mp hx with hx | hx
    · exact hl x (usedOf_subset hx) _
    · exact hr x (usedOf_subset hx) _

/-- The block is moved to the allocated ones. -/
theorem Lists.allocate {p₁ p₂ : Nat} (t : Tiles x (parts l r a len size false) e)
    (t' : Tiles x (parts l r a len size true) e) (hn : l.length < steps)
    (i : Lists m p₁ p₂ (parts l r a len size false)) :
    ∃ m₁ p₁' m₂ p₂', finshBlockRemove m p₁ a = some (m₁, p₁') ∧
      finshBlockInsert (m₁.set .next a 0) p₂ a = some (m₂, p₂') ∧
      Lists m₂ p₁' p₂' (parts l r a len size true) := by
  have hS := t'.headers
  have hSmem : ∀ {y}, y ∈ addrs (parts l r a len size false) →
      y ∈ addrs (parts l r a len size true) := fun hy => mem_parts.mpr (mem_parts.mp hy)
  have ha : a ∈ addrs (parts l r a len size true) := mem_parts.mpr (.inr (.inl rfl))
  have hF : freeOf (parts l r a len size false) = freeOf l ++ a :: (a + 8 + size) :: freeOf r := by
    rw [freeOf_parts, if_neg (by simp), List.singleton_append]
  have hF' : freeOf (parts l r a len size true) = freeOf l ++ (a + 8 + size) :: freeOf r := by
    rw [freeOf_parts, if_pos rfl, List.nil_append]
  have hU : usedOf (parts l r a len size false) = usedOf l ++ usedOf r := by
    rw [parts, usedOf_append, List.cons_append, usedOf_cons, List.cons_append, usedOf_cons]
    rfl
  have hlenl := length_freeOf_le l
  have hlenu := length_usedOf_le l
  obtain ⟨m₁, p₁', hrem, hins⟩ := move_eq hS (hF ▸ i.free) (hU ▸ i.used)
    (fun y hy => hSmem (freeOf_subset (hF ▸ hy))) (fun y hy => hSmem (usedOf_subset (hU ▸ hy)))
    (hF ▸ t.freeOf_sorted) (usedOf_parts ▸ t'.usedOf_sorted)
    (fun y hy hy' => t.disjoint (x := y) (by
      rw [hF]
      rcases List.mem_append.mp hy with hy | hy
      · exact List.mem_append_left _ hy
      · exact List.mem_append_right _ (List.mem_cons_of_mem _ hy)) (hU ▸ hy'))
    (by omega) (by omega)
  obtain ⟨m₂, p₂', hins, hfree, hused, hlen⟩ := hins _ (.setNext hS ha List.mem_cons_self)
    fun _ => Mem.get_set_self
  refine ⟨m₁, p₁', m₂, p₂', hrem, hins, fun b hb => ?_, hF' ▸ hfree, usedOf_parts ▸ hused⟩
  obtain ⟨b', hb', hb'a, hb'l⟩ : ∃ b' ∈ parts l r a len size false, b'.addr = b.addr ∧
      b'.len = b.len := by
    simp only [parts, List.mem_append, List.mem_cons, List.not_mem_nil, or_false] at hb ⊢
    rcases hb with hb | (rfl | rfl) | hb
    · exact ⟨b, .inl hb, rfl, rfl⟩
    · exact ⟨_, .inr (.inl (.inl rfl)), rfl, rfl⟩
    · exact ⟨_, .inr (.inl (.inr rfl)), rfl, rfl⟩
    · exact ⟨b, .inr (.inr hb), rfl, rfl⟩
  rw [hlen _ (mem_addrs.mpr ⟨b, hb, rfl⟩), ← hb'l, ← hb'a]
  exact i.len b' hb'

/-- What is stored behind the headers does not matter. -/
theorem Lists.congr {p₁ p₂ : Nat} (i : Lists m p₁ p₂ bs)
    (hget : ∀ y ∈ addrs bs, ∀ f, m'.get f y = m.get f y) : Lists m' p₁ p₂ bs :=
  ⟨fun b hb => (hget _ (mem_addrs.mpr ⟨b, hb, rfl⟩) _).trans (i.len b hb),
    i.free.congr fun y hy => hget y (freeOf_subset hy) _,
    i.used.congr fun y hy => hget y (usedOf_subset hy) _⟩

/-- A header is not part of the data of a block. -/
theorem Tiles.outside (t : Tiles x bs e) (hb : b ∈ bs) {y : Nat} (hy : y ∈ addrs bs) :
    y + 8 ≤ b.addr + 8 ∨ b.addr + 8 + b.len ≤ y := by
  obtain ⟨l, r, rfl⟩ := List.append_of_mem hb
  rw [addrs_append] at hy
  rcases List.mem_append.mp hy with hy | hy
  · have hlt := t.below hy
    omega
  · rcases List.mem_cons.mp hy with rfl | hy
    · exact .inl (le_refl _)
    · exact .inr (t.above hy)

/-- **A free block is taken**, and its data is cleared. -/
theorem takeBlock_eq (i : Inv h (l ++ ⟨a, len, false⟩ :: r)) (hle : size + 8 ≤ len) :
    ∃ h', takeBlock h a size = some (a + 8, h') ∧ Inv h' (parts l r a len size true) ∧
      h'.base = h.base ∧ ∀ c, a + 8 ≤ c → c < a + 8 + size → h'.mem c = 0 := by
  have t := i.tiles
  have t' := t.parts hle true
  have ha0 : 0 < a := by
    have hbase := i.base
    have hbound := (t.bounds (b := ⟨a, len, false⟩) (by simp)).1
    dsimp only at hbound
    omega
  have hn : l.length < steps := by
    have hlen := t.length_lt
    rw [List.length_append] at hlen
    omega
  obtain ⟨m₁, p₁, m₂, p₂, hrem, hins, hlists⟩ :=
    (i.lists.split t hle ha0).allocate (t.parts hle false) t' hn
  refine ⟨{ h with mem := m₂.clear (a + 8) size, freeList := p₁, allocateList := p₂ }, ?_,
    ⟨i.base, t', hlists.congr fun y hy f => get_clear ?_, i.merged.parts, ?_⟩, rfl, fun c h₁ h₂ => if_pos ⟨h₁, h₂⟩⟩
  · rw [takeBlock, hrem, Option.bind_some, hins]
    rfl
  · exact t'.outside (b := ⟨a, size, true⟩) (by simp [parts]) hy
  · exact last_free [⟨a, len, false⟩] _ i.last fun _ =>
      ⟨[⟨a, size, true⟩], ⟨a + 8 + size, len - 8 - size, false⟩, rfl, rfl⟩

/-! ## Releasing a block -/

/-- Free blocks in the middle of the lists. -/
theorem freeOf_of_free (h : ∀ d ∈ bs, d.used = false) : freeOf bs = addrs bs := by
  rw [freeOf, List.filter_eq_self.mpr fun d hd => by simp [h d hd]]

theorem live_of_free (h : ∀ d ∈ bs, d.used = false) : live bs = [] :=
  List.filter_eq_nil_iff.mpr fun d hd => by simp [h d hd]

/-- **Free neighbours become one block**: the first one, with the link of the last one. -/
theorem Lists.absorb {p₁ p₂ y : Nat} {u v : List Nat} (hbs : ∀ d ∈ bs, d.used = false)
    (hav : addrs bs = a :: v) (huy : addrs bs = u ++ [y]) (i : Lists m p₁ p₂ (l ++ (bs ++ r)))
    (hm : ∀ z ∈ addrs (l ++ r), ∀ f, m'.get f z = m.get f z) (hlen : m'.get .length a = n)
    (hnext : m'.get .next a = m.get .next y) :
    Lists m' p₁ p₂ (l ++ ⟨a, n, false⟩ :: r) := by
  have hfree := i.free
  have hused := i.used
  rw [freeOf_append, freeOf_append, freeOf_of_free hbs] at hfree
  have hbu : usedOf bs = [] := by
    rw [usedOf_eq, live_of_free hbs]
    rfl
  rw [usedOf_append, usedOf_append, hbu, List.nil_append] at hused
  have hml : ∀ z ∈ addrs l, ∀ f, m'.get f z = m.get f z := fun z hz => hm z (by simp [hz])
  have hmr : ∀ z ∈ addrs r, ∀ f, m'.get f z = m.get f z := fun z hz => hm z (by simp [hz])
  refine ⟨fun d hd => ?_, ?_, ?_⟩
  · rcases List.mem_append.mp hd with hd | hd
    · rw [hml _ (mem_addrs.mpr ⟨d, hd, rfl⟩)]
      exact i.len d (List.mem_append_left _ hd)
    · rcases List.mem_cons.mp hd with rfl | hd
      · exact hlen
      · rw [hmr _ (mem_addrs.mpr ⟨d, hd, rfl⟩)]
        exact i.len d (by simp [hd])
  · rw [freeOf_append, freeOf_cons, if_neg (by simp), List.singleton_append]
    have hy : Linked (m.get .next) p₁ ((freeOf l ++ u) ++ y :: freeOf r) := by
      simpa [huy] using hfree
    have ha : Linked (m.get .next) p₁ (freeOf l ++ a :: (v ++ freeOf r)) := by
      simpa [hav] using hfree
    refine ha.splice (fun z hz => hml z (freeOf_subset hz) _) ?_
    rw [hnext]
    exact hy.behind.congr fun z hz => hmr z (freeOf_subset hz) _
  · rw [usedOf_append, usedOf_cons, if_neg (by simp), List.nil_append]
    refine hused.congr fun z hz => ?_
    rcases List.mem_append.mp hz with hz | hz
    · exact hml z (usedOf_subset hz) _
    · exact hmr z (usedOf_subset hz) _

/-- The memory after the two stores of a merge. -/
theorem get_absorb (hS : Headers S) {v : Nat} (ha : a ∈ S) (hx : x ∈ S) :
    ((m.set .length a n).set .next a v).get f x =
      if x = a then (if f = .length then n else v) else m.get f x := by
  by_cases hxa : x = a
  · subst hxa
    rw [if_pos rfl]
    cases f with
    | length => rw [if_pos rfl, Mem.get_set (.inl rfl), if_neg (by simp), Mem.get_set_self]
    | next => rw [if_neg (by simp), Mem.get_set_self]
  · rw [if_neg hxa, Mem.get_set_of_ne hS ha hx hxa, Mem.get_set_of_ne hS ha hx hxa]

/-- The first block of the list behind a block is its neighbour, or is not next to it. -/
theorem next_free (t : Tiles x (l ++ b :: r) e) (hn : Linked (m.get .next) p (freeOf r)) :
    (∃ c r', r = c :: r' ∧ c.used = false ∧ p = c.addr ∧ b.addr + b.len + 8 = c.addr) ∨
    ((∀ c ∈ r.head?, c.used = true) ∧ ¬ (p ≠ 0 ∧ b.addr + b.len + 8 = p)) := by
  cases r with
  | nil => exact .inr ⟨by simp, fun h => h.1 hn.ptr_nil⟩
  | cons c r' =>
      obtain ⟨k, -, h₂, h₃, h₄⟩ := tiles_append.mp t
      cases hc : c.used with
      | false =>
          rw [freeOf_cons, hc, if_neg (by simp), List.singleton_append] at hn
          exact .inl ⟨c, r', rfl, hc, hn.ptr_cons, by omega⟩
      | true =>
          rw [freeOf_cons, hc, if_pos rfl, List.nil_append] at hn
          refine .inr ⟨by simp [hc], fun h => ?_⟩
          cases hr : freeOf r' with
          | nil =>
              rw [hr] at hn
              exact h.1 hn.ptr_nil
          | cons y ys =>
              rw [hr] at hn
              have hy : y ∈ freeOf r' := by simp [hr]
              obtain ⟨d, hd, rfl⟩ := mem_addrs.mp (freeOf_subset hy)
              have hb := h₄.bounds hd
              have hp := hn.ptr_cons
              omega

/-- The last block of the list in front of a block is its neighbour, or is not next to it. -/
theorem prev_free (t : Tiles x (l ++ b :: r) e) :
    (∃ l' c, l = l' ++ [c] ∧ c.used = false ∧ freeOf l = freeOf l' ++ [c.addr] ∧
      c.addr + c.len + 8 = b.addr) ∨
    ((∀ c ∈ l.getLast?, c.used = true) ∧ ∀ c ∈ l, c.used = false → c.addr + c.len + 8 ≠ b.addr) := by
  rcases List.eq_nil_or_concat l with rfl | ⟨l', c, rfl⟩
  · exact .inr ⟨by simp, by simp⟩
  · rw [List.concat_eq_append] at *
    obtain ⟨k, h₁, h₂, -⟩ := tiles_append.mp t
    obtain ⟨k', h₃, h₄, h₅⟩ := tiles_append.mp h₁
    have hk : k' + 8 + c.len = k := h₅
    cases hc : c.used with
    | false =>
        refine .inl ⟨l', c, rfl, hc, ?_, by omega⟩
        rw [freeOf_append, freeOf_cons, hc]
        rfl
    | true =>
        refine .inr ⟨by simp [hc], fun d hd hdu he => ?_⟩
        rcases List.mem_append.mp hd with hd | hd
        · have hb := h₃.bounds hd
          omega
        · rw [List.mem_singleton.mp hd, hc] at hdu
          cases hdu

/-- What a merge leaves: the same allocated blocks. -/
structure Merges (x e : Nat) (m' : Mem) (p₁ p₂ : Nat) (bs bs' : List Blk) : Prop where
  tiles : Tiles x bs' e
  lists : Lists m' p₁ p₂ bs'
  merged : Merged bs'
  live : live bs' = live bs
  last : (∃ bs₁ b, bs = bs₁ ++ [b] ∧ b.used = false) → ∃ bs₁ b, bs' = bs₁ ++ [b] ∧ b.used = false

/-- A block between allocated blocks. -/
theorem merged_between {a n : Nat} (hl : Merged l) (hr : Merged r) (hlast : ∀ c ∈ l.getLast?, c.used = true)
    (hhead : ∀ c ∈ r.head?, c.used = true) : Merged (l ++ ⟨a, n, false⟩ :: r) :=
  merged_mid.mpr ⟨hl, hr, fun c hc => .inl (hlast c hc), fun c hc => .inr (hhead c hc)⟩

/-- The two stores that make the free blocks `bs` one block. -/
theorem merges_store (bs : List Blk) {p₁ p₂ y : Nat} {u v : List Nat}
    (hbs : ∀ d ∈ bs, d.used = false)
    (hav : addrs bs = a :: v) (huy : addrs bs = u ++ [y]) (t : Tiles x (l ++ (bs ++ r)) e)
    (i : Lists m p₁ p₂ (l ++ (bs ++ r)))
    (hn : ∀ k k', Tiles k bs k' → Tiles k [⟨a, n, false⟩] k')
    (hmerged : Merged (l ++ ⟨a, n, false⟩ :: r)) :
    Merges x e ((m.set .length a n).set .next a ((m.set .length a n).get .next y)) p₁ p₂
      (l ++ (bs ++ r)) (l ++ ⟨a, n, false⟩ :: r) := by
  have hS := t.headers
  have hmem : ∀ {z}, z ∈ addrs (l ++ (bs ++ r)) ↔ z ∈ addrs l ∨ z ∈ addrs bs ∨ z ∈ addrs r := by
    simp
  have ha : a ∈ addrs (l ++ (bs ++ r)) := hmem.mpr (.inr (.inl (by simp [hav])))
  have hy : y ∈ addrs (l ++ (bs ++ r)) := hmem.mpr (.inr (.inl (by simp [huy])))
  have t' := Tiles.replace _ _ t hn
  refine ⟨t', i.absorb hbs hav huy (fun z hz f => ?_) ?_ ?_, hmerged, ?_,
    fun hlast => last_free _ _ hlast fun _ => ⟨[], _, rfl, rfl⟩⟩
  · rw [addrs_append] at hz
    have hza : z ≠ a := by
      rcases List.mem_append.mp hz with hz | hz
      · have hlt := t'.below hz
        dsimp only at hlt
        omega
      · have hgt := t'.above hz
        dsimp only at hgt
        omega
    have hzS := hmem.mpr ((List.mem_append.mp hz).imp_right .inr)
    rw [get_absorb hS ha hzS, if_neg hza]
  · rw [get_absorb hS ha ha, if_pos rfl, if_pos rfl]
  · rw [get_absorb hS ha ha, if_pos rfl, if_neg (by simp), Mem.get_set (hS a ha y hy),
      if_neg (by simp)]
  · rw [live_append, live_append, live_append, live_of_free hbs]
    rfl

/-- **A block is merged** with the free blocks next to it. -/
theorem mergeWith_eq {p₁ p₂ prev : Nat} (t : Tiles x (l ++ ⟨a, len, false⟩ :: r) e)
    (i : Lists m p₁ p₂ (l ++ ⟨a, len, false⟩ :: r)) (hl : Merged l) (hr : Merged r)
    (hprev : prev = 0 ∧ freeOf l = [] ∨ ∃ u, freeOf l = u ++ [prev]) :
    ∃ bs', Merges x e (mergeWith m prev a) p₁ p₂ (l ++ ⟨a, len, false⟩ :: r) bs' := by
  have hfree := i.free
  rw [freeOf_append, freeOf_cons, if_neg (by simp), List.singleton_append] at hfree
  have hlen : m.get .length a = len := i.len ⟨a, len, false⟩ (by simp)
  have hnext := next_free t hfree.behind
  dsimp only at hnext
  unfold mergeWith
  dsimp only
  rw [hlen]
  rcases prev_free t with ⟨l', b, rfl, hb, hfl, hadj⟩ | ⟨hlast, hnot⟩
  · -- the block in front is free
    have hpb : prev = b.addr := by
      rcases hprev with ⟨-, h₀⟩ | ⟨u, hu⟩
      · rw [hfl] at h₀
        simp at h₀
      · rw [hfl] at hu
        simpa using (List.append_inj' hu rfl).2.symm
    subst hpb
    have hblen : m.get .length b.addr = b.len := i.len b (by simp)
    have hb0 : b.addr ≠ 0 := hfree.ne_zero (by simp [hfl])
    obtain ⟨hml, -, hlb, -⟩ := (merged_mid (r := [])).mp hl
    have hlast : ∀ c ∈ l'.getLast?, c.used = true := fun c hc =>
      (hlb c hc).resolve_right (by simp [hb])
    dsimp only at hadj
    rw [hblen, if_pos ⟨hb0, hadj⟩]
    rcases hnext with ⟨c, r', rfl, hc, hpc, hadj'⟩ | ⟨hhead, hnn⟩
    · -- three blocks
      have hc0 : c.addr ≠ 0 := hfree.ne_zero (by simp [freeOf_cons, hc])
      have hclen : m.get .length c.addr = c.len := i.len c (by simp)
      obtain ⟨-, hmr, -, hcr⟩ := (merged_mid (l := [])).mp hr
      have hhead : ∀ d ∈ r'.head?, d.used = true := fun d hd =>
        (hcr d hd).resolve_left (by simp [hc])
      rw [hpc, if_pos ⟨hc0, hadj'⟩, hclen]
      rw [List.append_assoc] at i t ⊢
      exact ⟨_, merges_store [b, ⟨a, len, false⟩, c] (by simp [hb, hc]) rfl
        (u := [b.addr, a]) rfl t i (fun k k' hk => by
          simp only [Tiles] at hk ⊢
          omega) (merged_between hml hmr hlast hhead)⟩
    · rw [if_neg hnn]
      rw [List.append_assoc] at i t ⊢
      exact ⟨_, merges_store [b, ⟨a, len, false⟩] (by simp [hb]) rfl (u := [b.addr]) rfl t i
        (fun k k' hk => by
          simp only [Tiles] at hk ⊢
          omega) (merged_between hml hr hlast hhead)⟩
  · have hp : ¬ (prev ≠ 0 ∧ prev + m.get .length prev + 8 = a) := by
      rintro ⟨h₀, hadj⟩
      rcases hprev with ⟨h₁, -⟩ | ⟨u, hu⟩
      · exact h₀ h₁
      · obtain ⟨d, hd, hdu, rfl⟩ := mem_freeOf.mp (hu ▸ List.mem_append_right u List.mem_cons_self)
        rw [i.len d (List.mem_append_left _ hd)] at hadj
        exact hnot d hd hdu hadj
    rw [if_neg hp]
    rcases hnext with ⟨c, r', rfl, hc, hpc, hadj'⟩ | ⟨hhead, hnn⟩
    · have hc0 : c.addr ≠ 0 := hfree.ne_zero (by simp [freeOf_cons, hc])
      have hclen : m.get .length c.addr = c.len := i.len c (by simp)
      obtain ⟨-, hmr, -, hcr⟩ := (merged_mid (l := [])).mp hr
      have hhead : ∀ d ∈ r'.head?, d.used = true := fun d hd =>
        (hcr d hd).resolve_left (by simp [hc])
      rw [hpc, if_pos ⟨hc0, hadj'⟩, hclen]
      exact ⟨_, merges_store [⟨a, len, false⟩, c] (by simp [hc]) rfl (u := [a]) rfl t i
        (fun k k' hk => by
          simp only [Tiles] at hk ⊢
          omega) (merged_between hl hmr hlast hhead)⟩
    · rw [if_neg hnn]
      exact ⟨_, t, i, merged_between hl hr hlast hhead, rfl, id⟩

/-- Behind an allocated block there is a free one. -/
theorem freeOf_behind (h : ∃ bs x, l ++ b :: r = bs ++ [x] ∧ x.used = false) (hb : b.used = true) :
    freeOf r ≠ [] := by
  obtain ⟨bs, x, hx, hu⟩ := h
  rcases List.eq_nil_or_concat r with rfl | ⟨r', y, rfl⟩
  · have hbx : b = x := by simpa using (List.append_inj' hx rfl).2
    rw [hbx, hu] at hb
    cases hb
  · have hxy : (l ++ b :: r') ++ [y] = bs ++ [x] := by simpa using hx
    have hyx : y = x := by simpa using (List.append_inj' hxy rfl).2
    rw [List.concat_eq_append, freeOf_append, freeOf_cons, hyx, hu]
    simp

/-- The block is moved to the free ones. -/
theorem Lists.release {p₁ p₂ : Nat} (t : Tiles x (l ++ ⟨a, len, true⟩ :: r) e)
    (hend : freeOf r ≠ []) (hn : l.length < steps) (i : Lists m p₁ p₂ (l ++ ⟨a, len, true⟩ :: r)) :
    ∃ m₁ p₂' m₂ p₁', finshBlockRemove m p₂ a = some (m₁, p₂') ∧
      finshBlockInsert m₁ p₁ a = some (m₂, p₁') ∧
      Lists m₂ p₁' p₂' (l ++ ⟨a, len, false⟩ :: r) := by
  have hS := t.headers
  have t' : Tiles x (l ++ ⟨a, len, false⟩ :: r) e :=
    Tiles.replace [⟨a, len, true⟩] [⟨a, len, false⟩] t fun _ _ hk => hk
  have hF : freeOf (l ++ (⟨a, len, true⟩ : Blk) :: r) = freeOf l ++ freeOf r := by
    rw [freeOf_append, freeOf_cons, if_pos rfl, List.nil_append]
  have hF' : freeOf (l ++ (⟨a, len, false⟩ : Blk) :: r) = freeOf l ++ a :: freeOf r := by
    rw [freeOf_append, freeOf_cons, if_neg (by simp), List.singleton_append]
  have hU : usedOf (l ++ (⟨a, len, true⟩ : Blk) :: r) = usedOf l ++ a :: usedOf r := by
    rw [usedOf_append, usedOf_cons, if_pos rfl, List.singleton_append]
  have hU' : usedOf (l ++ (⟨a, len, false⟩ : Blk) :: r) = usedOf l ++ usedOf r := by
    rw [usedOf_append, usedOf_cons, if_neg (by simp), List.nil_append]
  have hlenl := length_freeOf_le l
  have hlenu := length_usedOf_le l
  obtain ⟨m₁, p₂', hrem, hins⟩ := move_eq hS (hU ▸ i.used) (hF ▸ i.free)
    (fun y hy => usedOf_subset (hU ▸ hy)) (fun y hy => freeOf_subset (hF ▸ hy))
    (hU ▸ t.usedOf_sorted) (hF' ▸ t'.freeOf_sorted)
    (fun y hy hy' => t.disjoint (x := y) (hF ▸ hy') (by
      rw [hU]
      rcases List.mem_append.mp hy with hy | hy
      · exact List.mem_append_left _ hy
      · exact List.mem_append_right _ (List.mem_cons_of_mem _ hy)))
    (by omega) (by omega)
  obtain ⟨m₂, p₁', hins, hused, hfree, hlen⟩ := hins m₁ .refl fun h => absurd h hend
  refine ⟨m₁, p₂', m₂, p₁', hrem, hins, fun b hb => ?_, hF' ▸ hfree, hU' ▸ hused⟩
  obtain ⟨b', hb', hb'a, hb'l⟩ : ∃ b' ∈ l ++ (⟨a, len, true⟩ : Blk) :: r, b'.addr = b.addr ∧
      b'.len = b.len := by
    rcases List.mem_append.mp hb with hb | hb
    · exact ⟨b, List.mem_append_left _ hb, rfl, rfl⟩
    · rcases List.mem_cons.mp hb with rfl | hb
      · exact ⟨⟨a, len, true⟩, by simp, rfl, rfl⟩
      · exact ⟨b, by simp [hb], rfl, rfl⟩
  rw [← hb'a, hlen _ (mem_addrs.mpr ⟨b', hb', rfl⟩), ← hb'l]
  exact i.len b' hb'

/-- The search of `finsh_block_merge` finds the last free block in front. -/
theorem finshBlockMerge_eq {p₁ p₂ : Nat} (t : Tiles x (l ++ ⟨a, len, false⟩ :: r) e)
    (i : Lists m p₁ p₂ (l ++ ⟨a, len, false⟩ :: r)) (hl : Merged l) (hr : Merged r)
    (hn : l.length < steps) : ∃ m' bs', finshBlockMerge m p₁ a = some m' ∧
      Merges x e m' p₁ p₂ (l ++ ⟨a, len, false⟩ :: r) bs' := by
  have hF : freeOf (l ++ (⟨a, len, false⟩ : Blk) :: r) = freeOf l ++ a :: freeOf r := by
    rw [freeOf_append, freeOf_cons, if_neg (by simp), List.singleton_append]
  have hfree : Linked (m.get .next) p₁ (freeOf l ++ a :: freeOf r) := hF ▸ i.free
  have hla : ∀ y ∈ freeOf l, y < a := fun y hy => t.below (freeOf_subset hy)
  unfold finshBlockMerge
  rcases List.eq_nil_or_concat (freeOf l) with hu | ⟨u, q, hu⟩
  · rw [hu, List.nil_append] at hfree
    obtain ⟨bs', hm⟩ := mergeWith_eq t i hl hr (.inl ⟨rfl, hu⟩)
    rw [if_pos hfree.ptr_cons]
    exact ⟨_, bs', rfl, hm⟩
  · rw [List.concat_eq_append] at hu
    rw [hu] at hfree hla
    obtain ⟨bs', hm⟩ := mergeWith_eq t i hl hr (.inr ⟨u, hu⟩)
    have hh : Linked (m.get .next) p₁ (u ++ q :: a :: freeOf r) := by simpa using hfree
    have hp : p₁ ≠ a := by
      cases u with
      | nil =>
          have hq := hla q (by simp)
          have hpq : p₁ = q := hh.ptr_cons
          omega
      | cons z u =>
          have hz := hla z (by simp)
          have hpz : p₁ = z := hh.ptr_cons
          omega
    have hlenl := length_freeOf_le l
    have hfind : search (m.get .next) (fun node => decide (m.get .next node = a)) steps p₁ =
        some q := by
      refine search_last hh (fun z _ hmem => ?_) (by simp [hh.behind.ptr_cons]) (by
        rw [hu, List.length_append] at hlenl
        omega)
      have hlt := hla _ hmem
      simp
      omega
    rw [if_neg hp, hfind]
    exact ⟨_, bs', rfl, hm⟩

/-- **An allocated block is released**: the other allocated blocks are the same. -/
theorem finshHeapFree_eq (i : Inv h (l ++ ⟨a, len, true⟩ :: r)) :
    ∃ h' bs', finshHeapFree h (a + 8) = some h' ∧ Inv h' bs' ∧ live bs' = live l ++ live r ∧
      h'.base = h.base := by
  have t := i.tiles
  have hn : l.length < steps := by
    have hlen := t.length_lt
    rw [List.length_append] at hlen
    omega
  have t' : Tiles h.base (l ++ ⟨a, len, false⟩ :: r) (h.base + FINSH_HEAP_MAX) :=
    Tiles.replace [⟨a, len, true⟩] [⟨a, len, false⟩] t fun _ _ hk => hk
  obtain ⟨hl, hr, -, -⟩ := merged_mid.mp i.merged
  obtain ⟨m₁, p₂, m₂, p₁, hrem, hins, hlists⟩ := i.lists.release t (freeOf_behind i.last rfl) hn
  obtain ⟨m₃, bs', hmerge, hm⟩ := finshBlockMerge_eq t' hlists hl hr hn
  refine ⟨{ h with mem := m₃, freeList := p₁, allocateList := p₂ }, bs', ?_,
    ⟨i.base, hm.tiles, hm.lists, hm.merged, hm.last ?_⟩, ?_, rfl⟩
  · rw [finshHeapFree, Nat.add_sub_cancel, hrem, Option.bind_some, hins, Option.bind_some, hmerge]
    rfl
  · exact last_free [⟨a, len, true⟩] [⟨a, len, false⟩] i.last fun _ => ⟨[], _, rfl, rfl⟩
  · rw [hm.live, live_append]
    rfl

/-! ## The collection -/

/-- The layout around an allocated block. -/
theorem live_split {k k' : List Blk} (hb : live bs = k ++ b :: k') :
    ∃ l r, bs = l ++ b :: r ∧ live l = k ∧ live r = k' ∧ b.used = true := by
  obtain ⟨l, r₀, rfl, hl, hr₀⟩ := List.filter_eq_append_iff.mp hb
  obtain ⟨l', r, rfl, hl', hb, hr⟩ := List.filter_eq_cons_iff.mp hr₀
  refine ⟨l ++ l', r, by simp, ?_, hr, hb⟩
  rw [live_append, live, live, hl, List.filter_eq_nil_iff.mpr hl', List.append_nil]

/-- **The collection** releases the allocated blocks that nothing points to. The pointer to the next block
is read before the block is released. -/
theorem gcLoop_eq (refs : List Nat) (kept : List Blk) {todo : List Blk} {header : Nat} (i : Inv h bs)
    (hlive : live bs = kept ++ todo) (hnext : Linked (h.mem.get .next) header (addrs todo))
    (hn : todo.length < n) : ∃ h' bs', gcLoop refs n header h = some h' ∧ Inv h' bs' ∧
      live bs' = kept ++ todo.filter (fun b => decide (b.addr + 8 ∈ refs)) ∧ h'.base = h.base := by
  induction todo generalizing n header h bs kept with
  | nil =>
      obtain ⟨n, rfl⟩ : ∃ k, n = k + 1 := ⟨n - 1, by omega⟩
      rw [gcLoop, if_pos hnext.ptr_nil]
      exact ⟨h, bs, rfl, i, hlive, rfl⟩
  | cons b todo ih =>
      obtain ⟨n, rfl⟩ : ∃ k, n = k + 1 := ⟨n - 1, by omega⟩
      have hlen : todo.length < n := Nat.lt_of_succ_lt_succ hn
      obtain rfl : header = b.addr := hnext.ptr_cons
      rw [gcLoop, if_neg (hnext.ne_zero List.mem_cons_self)]
      dsimp only
      by_cases href : b.addr + 8 ∈ refs
      · rw [if_pos href, List.filter_cons_of_pos (by simpa using href)]
        obtain ⟨h', bs', hgc, i', hl', hbase⟩ := ih (kept ++ [b]) i (by simpa using hlive)
          hnext.2 hlen
        exact ⟨h', bs', hgc, i', by simpa using hl', hbase⟩
      · rw [if_neg href, List.filter_cons_of_neg (by simpa using href)]
        obtain ⟨l, r, rfl, hl, hr, hb⟩ := live_split hlive
        obtain ⟨a, len, used⟩ := b
        obtain rfl : used = true := hb
        obtain ⟨h₁, bs₁, hfree, i₁, hl₁, hbase₁⟩ := finshHeapFree_eq i
        rw [hl, hr] at hl₁
        have hused : Linked (h₁.mem.get .next) h₁.allocateList (addrs kept ++ addrs todo) := by
          have hu := i₁.lists.used
          rwa [usedOf_eq, hl₁, addrs_append] at hu
        have hnext₁ : Linked (h.mem.get .next) (h.mem.get .next a) (addrs todo) := hnext.behind (l := [])
        obtain ⟨h', bs', hgc, i', hl', hbase⟩ := ih kept i₁ hl₁ (hnext₁.of_append hused) hlen
        exact ⟨h', bs', by rw [hfree]; exact hgc, i', hl', hbase.trans hbase₁⟩

theorem finshHeapGc_eq (refs : List Nat) (i : Inv h bs) :
    ∃ h' bs', finshHeapGc refs h = some h' ∧ Inv h' bs' ∧
      live bs' = (live bs).filter (fun b => decide (b.addr + 8 ∈ refs)) ∧ h'.base = h.base := by
  have hlen : (live bs).length < steps :=
    Nat.lt_of_le_of_lt (List.length_filter_le ..) i.tiles.length_lt
  exact gcLoop_eq refs [] i rfl i.lists.used hlen

/-! ## Allocating -/

/-- A free block that a search has found. -/
theorem freeOf_split {k k' : List Nat} (hx : freeOf bs = k ++ x :: k') :
    ∃ l r len, bs = l ++ ⟨x, len, false⟩ :: r := by
  obtain ⟨⟨a, len, used⟩, hb, hf, rfl⟩ := mem_freeOf.mp (hx ▸ List.mem_append_right k List.mem_cons_self)
  obtain ⟨l, r, rfl⟩ := List.append_of_mem hb
  obtain rfl : used = false := hf
  exact ⟨l, r, len, rfl⟩

/-- What `finsh_heap_allocate` returns: the data of a block of the size `size`, which is cleared and which
is not one of the blocks `kept` that stay allocated, or 0 if no free block has room for it. -/
structure Allocated (h' : Heap) (kept bs' : List Blk) (size p : Nat) : Prop where
  inv : Inv h' bs'
  full : p = 0 → live bs' = kept ∧ ∀ b ∈ bs', b.used = false → b.len < size + 8
  block : p ≠ 0 → ∃ a k k', p = a + 8 ∧ kept = k ++ k' ∧ live bs' = k ++ ⟨a, size, true⟩ :: k' ∧
    ∀ c, p ≤ c → c < p + size → h'.mem c = 0

theorem takeBlock_found (size : Nat) {header : Nat} {k k' : List Nat} (i : Inv h bs)
    (hk : freeOf bs = k ++ header :: k') (hle : size + 8 ≤ h.mem.get .length header) :
    ∃ p h' bs', takeBlock h header size = some (p, h') ∧ Allocated h' (live bs) bs' size p ∧ p ≠ 0 ∧
      h'.base = h.base := by
  obtain ⟨l, r, len, rfl⟩ := freeOf_split hk
  rw [i.lists.len ⟨header, len, false⟩ (by simp)] at hle
  obtain ⟨h', htake, i', hbase, hclear⟩ := takeBlock_eq i hle
  refine ⟨_, h', _, htake, ⟨i', fun h0 => by omega, fun _ => ?_⟩, by omega, hbase⟩
  refine ⟨header, live l, live r, rfl, ?_, ?_, fun c h₁ h₂ => hclear c h₁ h₂⟩
  · rw [live_append]
    rfl
  · rw [parts, live_append]
    rfl

/-- No free block is larger than the size asked for and a header: the call starts with a collection. -/
def Starved (h : Heap) (size : Nat) : Prop :=
  search (h.mem.get .next) (fun header => ¬ h.mem.get .length header ≤ heapAlignSize size + 8) steps
    h.freeList = some 0

instance Starved.decidable (h : Heap) (size : Nat) : Decidable (Starved h size) :=
  inferInstanceAs (Decidable (_ = _))

/-- **`finsh_heap_allocate`.** -/
theorem finshHeapAllocate_eq (refs : List Nat) (i : Inv h bs) (size : Nat) :
    ∃ p h' bs', finshHeapAllocate refs h size = some (p, h') ∧
      Allocated h'
        (if Starved h size then (live bs).filter (fun b => decide (b.addr + 8 ∈ refs)) else live bs)
        bs' (heapAlignSize size) p ∧ (p = 0 → finshHeapGc refs h = some h') ∧ h'.base = h.base := by
  have hlen : ∀ {h : Heap} {bs}, Inv h bs → (freeOf bs).length < steps := fun i =>
    Nat.lt_of_le_of_lt (length_freeOf_le _) i.tiles.length_lt
  unfold finshHeapAllocate
  dsimp only
  rcases search_cases (p := fun header => decide (¬ h.mem.get .length header ≤ heapAlignSize size + 8))
    i.lists.free (hlen i) with ⟨hs, -⟩ | ⟨k, x, k', hk, hx, hs⟩
  · -- nothing is found before the collection
    obtain ⟨h₁, bs₁, hgc, i₁, hl₁, hbase₁⟩ := finshHeapGc_eq refs i
    have hst : Starved h size := hs
    rw [hs, Option.bind_some, if_neg (by simp), hgc, Option.bind_some, if_pos hst, ← hl₁]
    rcases search_cases (p := fun header => decide (¬ h₁.mem.get .length header < heapAlignSize size + 8))
      i₁.lists.free (hlen i₁) with ⟨hs', hall⟩ | ⟨k, x, k', hk, hx, hs'⟩
    · rw [hs', Option.bind_some, if_pos rfl]
      refine ⟨0, h₁, bs₁, rfl, ⟨i₁, fun _ => ⟨rfl, fun b hb hf => ?_⟩, fun h0 => absurd rfl h0⟩,
        fun _ => rfl, hbase₁⟩
      have hfull := hall b.addr (mem_freeOf.mpr ⟨b, hb, hf, rfl⟩)
      rw [i₁.lists.len b hb] at hfull
      simpa using hfull
    · have hx0 : x ≠ 0 := i₁.lists.free.ne_zero (hk ▸ List.mem_append_right k List.mem_cons_self)
      obtain ⟨p, h', bs', htake, ha, hp, hbase⟩ := takeBlock_found (heapAlignSize size) i₁ hk (by
        simpa using hx)
      rw [hs', Option.bind_some, if_neg hx0]
      exact ⟨p, h', bs', htake, ha, fun h0 => absurd h0 hp, hbase.trans hbase₁⟩
  · have hx0 : x ≠ 0 := i.lists.free.ne_zero (hk ▸ List.mem_append_right k List.mem_cons_self)
    have hst : ¬ Starved h size := fun h0 => hx0 (Option.some.inj (hs.symm.trans h0))
    rw [hs, Option.bind_some, if_pos hx0, if_neg hst]
    obtain ⟨p, h', bs', htake, ha, hp, hbase⟩ := takeBlock_found (heapAlignSize size) i hk (by
      have hlt := of_decide_eq_true hx
      omega)
    exact ⟨p, h', bs', htake, ha, fun h0 => absurd h0 hp, hbase⟩

/-! ## The layout at the start -/

theorem finshHeapInit_inv {base : Nat} (m : Mem) (hb : 0 < base) :
    Inv (finshHeapInit m base) [⟨base, FINSH_HEAP_MAX - 8, false⟩] := by
  refine ⟨hb, ⟨rfl, rfl⟩, ⟨fun b hm => ?_, ?_, ?_⟩, .singleton _, ⟨[], _, rfl, rfl⟩⟩
  · obtain rfl := List.mem_singleton.mp hm
    show (Mem.set (Mem.set _ _ _ _) _ _ _).get _ _ = _
    rw [Mem.get_set (.inl rfl), if_neg (by simp), Mem.get_set_self]
  · refine Linked.cons ?_ (Nat.ne_of_gt hb)
    show Linked _ ((Mem.set _ _ base _).get _ base) _
    rw [Mem.get_set_self]
    exact Linked.of_nil
  · exact Linked.of_nil

end RTThread.FinshHeap
