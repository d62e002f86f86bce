import RTThread.Lib.Dll
import RTThread.SmallMem.Model

set_option autoImplicit false

/-! # The blocks of a region

`Wf m E rest` says that the headers from `0` through `rest` tile the region up to the last header
`E`. Two edits change the blocks: a block is combined with the one behind it, and a block is carved
off the end of another one. For each, one lemma gives the header fields afterwards and one says that
the blocks still tile the region.
-/

namespace RTThread.SmallMem

variable {m m' : Mem} {E : Nat} {rest rest' l₁ l₂ : List Nat} {a b p x : Nat} {f : Field}

/-! ## Header fields -/

theorem Field.off_injective : Function.Injective Field.off := by
  intro f g h
  cases f <;> cases g <;> first | rfl | (simp [Field.off] at h)

theorem Field.off_lt (f : Field) : f.off < SIZEOF_STRUCT_MEM := by
  cases f <;> decide

/-- Two headers do not overlap. -/
abbrev Apart (a b : Nat) : Prop := Fields.Apart SIZEOF_STRUCT_MEM a b

theorem Apart.symm (h : Apart a b) : Apart b a := Or.symm h

theorem Mem.get_set {g : Field} {v : Nat} (h : a = b ∨ Apart a b) :
    (m.set f a v).get g b = if g = f ∧ b = a then v else m.get g b :=
  Fields.get_set Field.off_injective Field.off_lt h

/-- The blocks from `0` through `rest` tile the region up to the last header `E`. -/
structure Wf (m : Mem) (E : Nat) (rest : List Nat) : Prop where
  path : Dll.Path (m.get .next) 0 rest E
  gap : ∀ a ∈ 0 :: rest, a + SIZEOF_STRUCT_MEM ≤ m.get .next a
  prev : ∀ a ∈ 0 :: rest, m.get .next a ≠ E → m.get .prev (m.get .next a) = a
  prev_zero : m.get .prev 0 = 0
  aligned : ∀ a ∈ 0 :: rest, a % 4 = 0
  magic : ∀ a ∈ 0 :: rest, m.get .magic a = HEAP_MAGIC
  end_aligned : E % 4 = 0
  end_used : m.get .used E ≠ 0
  end_next : m.get .next E = E

namespace Wf

theorem lt_next (w : Wf m E rest) (ha : a ∈ 0 :: rest) : a < m.get .next a := by
  have h := w.gap a ha
  unfold SIZEOF_STRUCT_MEM at h
  omega

theorem next_mem (w : Wf m E rest) (ha : a ∈ 0 :: rest) :
    m.get .next a ∈ rest ∨ m.get .next a = E := w.path.link_mem ha

theorem sorted (w : Wf m E rest) : (0 :: (rest ++ [E])).Pairwise (· < ·) :=
  w.path.pairwise_lt fun _ ha => w.lt_next ha

theorem nodup (w : Wf m E rest) : (0 :: rest).Nodup := by
  have h : ((0 :: rest) ++ [E]).Pairwise (· < ·) := w.sorted
  exact (List.pairwise_append.mp h).1.imp Nat.ne_of_lt

theorem lt_end (w : Wf m E rest) (ha : a ∈ 0 :: rest) : a < E := by
  have h : ((0 :: rest) ++ [E]).Pairwise (· < ·) := w.sorted
  exact (List.pairwise_append.mp h).2.2 a ha E (by simp)

theorem next_le (w : Wf m E rest) (ha : a ∈ 0 :: rest) (hb : b ∈ 0 :: rest) (hab : a < b) :
    m.get .next a ≤ b := w.path.link_le (fun _ hx => w.lt_next hx) ha hb hab

theorem next_le_end (w : Wf m E rest) (ha : a ∈ 0 :: rest) : m.get .next a ≤ E := by
  rcases w.next_mem ha with h | h
  · exact (w.lt_end (List.mem_cons_of_mem _ h)).le
  · exact h.le

/-- Headers do not overlap. -/
theorem apart (w : Wf m E rest) (ha : a ∈ E :: 0 :: rest) (hb : b ∈ E :: 0 :: rest) :
    a = b ∨ Apart a b := by
  have hend : ∀ c ∈ 0 :: rest, Apart c E := fun c hc =>
    Or.inl ((w.gap c hc).trans (w.next_le_end hc))
  rcases List.mem_cons.mp ha with ha' | ha'
  · rcases List.mem_cons.mp hb with hb' | hb'
    · exact Or.inl (ha'.trans hb'.symm)
    · exact Or.inr (ha' ▸ (hend b hb').symm)
  · rcases List.mem_cons.mp hb with hb' | hb'
    · exact Or.inr (hb' ▸ hend a ha')
    · rcases Nat.lt_trichotomy a b with hlt | heq | hlt
      · exact Or.inr (Or.inl ((w.gap a ha').trans (w.next_le ha' hb' hlt)))
      · exact Or.inl heq
      · exact Or.inr (Or.inr ((w.gap b hb').trans (w.next_le hb' ha' hlt)))

/-- The block in front of a block that is not the first. -/
theorem prev_mem (w : Wf m E rest) (ha : a ∈ rest) :
    m.get .prev a ∈ 0 :: rest ∧ m.get .next (m.get .prev a) = a := by
  obtain ⟨x, hx, rfl⟩ := w.path.exists_link ha
  have hne : m.get .next x ≠ E := (w.lt_end (List.mem_cons_of_mem _ ha)).ne
  rw [w.prev x hx hne]
  exact ⟨hx, rfl⟩

/-- Only the block in front of `a` is linked to it. -/
theorem next_inj (w : Wf m E rest) (ha : a ∈ 0 :: rest) (hb : b ∈ 0 :: rest)
    (h : m.get .next a = m.get .next b) : a = b := by
  rcases Nat.lt_trichotomy a b with hlt | heq | hlt
  · have h₁ := w.next_le ha hb hlt
    have h₂ := w.lt_next hb
    omega
  · exact heq
  · have h₁ := w.next_le hb ha hlt
    have h₂ := w.lt_next ha
    omega

end Wf

/-! ## Combining two blocks -/

/-- `x` is combined with the block `p` in front of it. -/
structure Combined (m : Mem) (E : Nat) (rest : List Nat) (m' : Mem) (rest' : List Nat)
    (p x : Nat) : Prop where
  wf : Wf m' E rest'
  perm : (0 :: rest).Perm (x :: 0 :: rest')
  used : ∀ b ∈ E :: 0 :: rest, m'.get .used b = m.get .used b
  next : ∀ b ∈ 0 :: rest, m'.get .next b = if b = p then m.get .next x else m.get .next b

/-- The statements of `plug_holes` that combine two blocks. -/
def combineMem (m : Mem) (p x : Nat) : Mem :=
  let m := m.set .next p (m.get .next x)
  m.set .prev (m.get .next x) p

/-- The header fields after two blocks are combined. -/
theorem Wf.get_combineMem (w : Wf m E rest) (hp : p ∈ 0 :: rest) (hx : x ∈ 0 :: rest)
    (hpx : x ≠ p) (hb : b ∈ E :: 0 :: rest) :
    (combineMem m p x).get f b =
      if f = .prev ∧ b = m.get .next x then p
      else if f = .next ∧ b = p then m.get .next x
      else m.get f b := by
  have hp' : p ∈ E :: 0 :: rest := List.mem_cons_of_mem _ hp
  have hx' : x ∈ E :: 0 :: rest := List.mem_cons_of_mem _ hx
  have hn : m.get .next x ∈ E :: 0 :: rest := by
    rcases w.next_mem hx with h | h
    · exact List.mem_cons_of_mem _ (List.mem_cons_of_mem _ h)
    · exact h ▸ List.mem_cons_self
  have hread : (m.set .next p (m.get .next x)).get .next x = m.get .next x := by
    rw [Mem.get_set (w.apart hp' hx'), if_neg fun hc => hpx hc.2]
  simp only [combineMem]
  rw [hread, Mem.get_set (w.apart hn hb), Mem.get_set (w.apart hp' hb)]

theorem Wf.combine (w : Wf m E rest) (hp : p ∈ 0 :: rest) (hx : x ∈ rest)
    (hpx : m.get .next p = x) : ∃ rest', Combined m E rest (combineMem m p x) rest' p x := by
  have hxb : x ∈ 0 :: rest := List.mem_cons_of_mem _ hx
  have hlt := w.lt_next hp
  have hne : x ≠ p := by omega
  have hget := fun (f : Field) (b : Nat) (hb : b ∈ E :: 0 :: rest) =>
    w.get_combineMem (f := f) hp hxb hne hb
  have hnext : ∀ b ∈ 0 :: rest, (combineMem m p x).get .next b =
      if b = p then m.get .next x else m.get .next b := fun b hb => by
    rw [hget _ b (List.mem_cons_of_mem _ hb)]
    simp
  have hother : ∀ b ∈ E :: 0 :: rest, (combineMem m p x).get .used b = m.get .used b ∧
      (combineMem m p x).get .magic b = m.get .magic b := fun b hb => by
    rw [hget _ b hb, hget _ b hb]
    simp
  obtain ⟨l₁, l₂, rfl⟩ := List.append_of_mem hx
  -- `p` is the last block of the first part
  have hlast : Dll.lastOf 0 l₁ = p := by
    have hmem : Dll.lastOf 0 l₁ ∈ (0 :: l₁) ++ x :: l₂ :=
      List.mem_append_left _ (Dll.lastOf_mem 0 l₁)
    have hlink : m.get .next (Dll.lastOf 0 l₁) = x := w.path.link
    exact w.next_inj hmem hp (hlink.trans hpx.symm)
  have hperm : (0 :: (l₁ ++ x :: l₂)).Perm (x :: 0 :: (l₁ ++ l₂)) :=
    (List.perm_middle.cons 0).trans (List.Perm.swap _ _ _)
  have hsub : ∀ b ∈ 0 :: (l₁ ++ l₂), b ∈ 0 :: (l₁ ++ x :: l₂) := fun b hb =>
    hperm.mem_iff.mpr (List.mem_cons_of_mem _ hb)
  have hxn : x ∉ 0 :: (l₁ ++ l₂) := (List.nodup_cons.mp (hperm.nodup_iff.mp w.nodup)).1
  have hnn := w.gap x hxb
  refine ⟨l₁ ++ l₂, ⟨⟨?_, fun b hb => ?_, fun b hb hbE => ?_, ?_, fun b hb => w.aligned b (hsub b hb),
    fun b hb => ?_, w.end_aligned, ?_, ?_⟩, hperm, fun b hb => (hother b hb).1, hnext⟩⟩
  · refine w.path.unlink w.nodup ?_ fun b hb hbl => ?_
    · rw [hlast, hnext p hp, if_pos rfl]
    · rw [hnext b (hsub b hb), if_neg (hlast ▸ hbl)]
  · rw [hnext b (hsub b hb)]
    split_ifs with hbp
    · have h₁ := w.gap p hp
      subst hbp
      omega
    · exact w.gap b (hsub b hb)
  · rw [hnext b (hsub b hb)] at hbE ⊢
    split_ifs at hbE ⊢ with hbp
    · -- the block behind `x` now points back to `p`
      have hmem := (w.next_mem hxb).resolve_right hbE
      rw [hget _ _ (List.mem_cons_of_mem _ (List.mem_cons_of_mem _ hmem)), if_pos ⟨rfl, rfl⟩, hbp]
    · have hmem := (w.next_mem (hsub b hb)).resolve_right hbE
      rw [hget _ _ (List.mem_cons_of_mem _ (List.mem_cons_of_mem _ hmem)), if_neg, if_neg (by simp)]
      · exact w.prev b (hsub b hb) hbE
      · rintro ⟨-, he⟩
        exact hxn (w.next_inj (hsub b hb) hxb he ▸ hb)
  · rw [hget _ _ (by simp), if_neg, if_neg (by simp)]
    · exact w.prev_zero
    · rintro ⟨-, he⟩
      unfold SIZEOF_STRUCT_MEM at hnn
      omega
  · rw [(hother b (List.mem_cons_of_mem _ (hsub b hb))).2]
    exact w.magic b (hsub b hb)
  · rw [(hother E (by simp)).1]
    exact w.end_used
  · rw [hget _ _ (by simp), if_neg (by simp), if_neg]
    · exact w.end_next
    · rintro ⟨-, he⟩
      exact (w.lt_end hp).ne he.symm

/-! ## Carving a block off another one -/

/-- The free block `x` is carved off the end of the block `h`. -/
structure Carved (m : Mem) (E : Nat) (rest : List Nat) (m' : Mem) (rest' : List Nat)
    (h x : Nat) : Prop where
  wf : Wf m' E rest'
  perm : (0 :: rest').Perm (x :: 0 :: rest)
  free : m'.get .used x = 0
  next_new : m'.get .next x = m.get .next h
  used : ∀ b ∈ E :: 0 :: rest, b ≠ h → m'.get .used b = m.get .used b
  next : ∀ b ∈ 0 :: rest, m'.get .next b = if b = h then x else m.get .next b

/-- The statements that make the block behind a new block point back to it. -/
def linkBackMem (m : Mem) (E x : Nat) : Mem :=
  if m.get .next x ≠ E then m.set .prev (m.get .next x) x else m

/-- The header fields once the header of `x` is built behind `h`, whose `used` is set to `u`. -/
def Built (hs : List Nat) (m m' : Mem) (h x u : Nat) : Prop :=
  ∀ f, ∀ b ∈ hs, m'.get f b =
    if b = x then
      (match f with | .magic => HEAP_MAGIC | .used => 0 | .next => m.get .next h | .prev => h)
    else if b = h ∧ f = .next then x
    else if b = h ∧ f = .used then u
    else m.get f b

section Carve

variable {h u : Nat}

/-- A header inside a block overlaps no other one. -/
theorem Wf.apart_of_inside (w : Wf m E rest) (hh : h ∈ 0 :: rest) (h₁ : h + SIZEOF_STRUCT_MEM ≤ x)
    (h₂ : x + SIZEOF_STRUCT_MEM ≤ m.get .next h) (hb : b ∈ E :: 0 :: rest) : Apart x b := by
  have hlt := w.lt_next hh
  rcases List.mem_cons.mp hb with rfl | hb
  · exact Or.inl (h₂.trans (w.next_le_end hh))
  · rcases Nat.lt_trichotomy b h with hbh | rfl | hbh
    · refine Or.inr ((w.gap b hb).trans ?_)
      have h₃ := w.next_le hb hh hbh
      unfold SIZEOF_STRUCT_MEM at h₁
      omega
    · exact Or.inr h₁
    · exact Or.inl (h₂.trans (w.next_le hh hb hbh))

theorem Wf.apart_cons (w : Wf m E rest) (hh : h ∈ 0 :: rest) (h₁ : h + SIZEOF_STRUCT_MEM ≤ x)
    (h₂ : x + SIZEOF_STRUCT_MEM ≤ m.get .next h) :
    ∀ a ∈ x :: E :: 0 :: rest, ∀ b ∈ x :: E :: 0 :: rest, a = b ∨ Apart a b := by
  intro a ha b hb
  rcases List.mem_cons.mp ha with ha' | ha'
  · rcases List.mem_cons.mp hb with hb' | hb'
    · exact Or.inl (ha'.trans hb'.symm)
    · exact Or.inr (ha' ▸ w.apart_of_inside hh h₁ h₂ hb')
  · rcases List.mem_cons.mp hb with hb' | hb'
    · exact Or.inr (hb' ▸ (w.apart_of_inside hh h₁ h₂ ha').symm)
    · exact w.apart ha' hb'

/-- `realloc` builds the header of the new block. -/
theorem built_carve {hs : List Nat} (hsep : ∀ a ∈ hs, ∀ b ∈ hs, a = b ∨ Apart a b) (hx : x ∈ hs)
    (hh : h ∈ hs) (hxh : x ≠ h) : Built hs m (carve m h x) h x (m.get .used h) := by
  intro f b hb
  have hread : ((m.set .magic x HEAP_MAGIC).set .used x 0).get .next h = m.get .next h := by
    rw [Mem.get_set (hsep _ hx _ hh), Mem.get_set (hsep _ hx _ hh)]
    simp
  simp only [carve]
  rw [hread, Mem.get_set (hsep _ hh _ hb), Mem.get_set (hsep _ hx _ hb),
    Mem.get_set (hsep _ hx _ hb), Mem.get_set (hsep _ hx _ hb), Mem.get_set (hsep _ hx _ hb)]
  by_cases hbx : b = x
  · subst hbx
    cases f <;> simp [hxh]
  · by_cases hbh : b = h
    · subst hbh
      cases f <;> simp [hbx]
    · cases f <;> simp [hbx, hbh]

/-- `malloc` builds the header of the new block and marks the old one. -/
theorem built_carve_used {hs : List Nat} (hsep : ∀ a ∈ hs, ∀ b ∈ hs, a = b ∨ Apart a b)
    (hx : x ∈ hs) (hh : h ∈ hs) (hxh : x ≠ h) :
    Built hs m ((carve m h x).set .used h u) h x u := by
  intro f b hb
  rw [Mem.get_set (hsep _ hh _ hb), built_carve hsep hx hh hxh f b hb]
  by_cases hbx : b = x
  · subst hbx
    simp [hxh]
  · by_cases hbh : b = h
    · subst hbh
      cases f <;> simp [hbx]
    · simp [hbx, hbh]

/-- The header fields after the block behind `x` is linked back. -/
theorem get_linkBackMem {hs : List Nat} {m₁ : Mem}
    (hsep : ∀ a ∈ hs, ∀ b ∈ hs, a = b ∨ Apart a b) (hb : Built hs m m₁ h x u) (hx : x ∈ hs)
    (hn : m.get .next h ∈ hs) {c : Nat} (hc : c ∈ hs) :
    (linkBackMem m₁ E x).get f c =
      if m.get .next h ≠ E ∧ f = .prev ∧ c = m.get .next h then x else m₁.get f c := by
  have hread : m₁.get .next x = m.get .next h := by
    rw [hb .next x hx]
    simp
  unfold linkBackMem
  rw [hread]
  by_cases hE : m.get .next h ≠ E
  · rw [if_pos hE, Mem.get_set (hsep _ hn _ hc)]
    simp [hE]
  · rw [if_neg hE, if_neg fun hcc => hE hcc.1]

/-- **Carving**: with the new header built and linked back, the blocks tile the region. -/
theorem Wf.carve (w : Wf m E rest) {m₁ : Mem} (hh : h ∈ 0 :: rest)
    (h₁ : h + SIZEOF_STRUCT_MEM ≤ x) (h₂ : x + SIZEOF_STRUCT_MEM ≤ m.get .next h)
    (hal : x % 4 = 0) (hbuilt : Built (x :: E :: 0 :: rest) m m₁ h x u) :
    ∃ rest', Carved m E rest (linkBackMem m₁ E x) rest' h x ∧
      (linkBackMem m₁ E x).get .used h = u := by
  have hsep := w.apart_cons hh h₁ h₂
  have hxs : x ∈ x :: E :: 0 :: rest := List.mem_cons_self
  have hns : m.get .next h ∈ x :: E :: 0 :: rest := by
    rcases w.next_mem hh with hm | hm
    · exact List.mem_cons_of_mem _ (List.mem_cons_of_mem _ (List.mem_cons_of_mem _ hm))
    · exact hm ▸ List.mem_cons_of_mem _ List.mem_cons_self
  have hxne : ∀ b ∈ E :: 0 :: rest, b ≠ x := by
    rintro b hb rfl
    have h₃ := w.apart_of_inside hh h₁ h₂ hb
    unfold Apart Fields.Apart SIZEOF_STRUCT_MEM at h₃
    omega
  have hhE : h ≠ E := (w.lt_end hh).ne
  set m' := linkBackMem m₁ E x with hm'
  have hget : ∀ f, ∀ b ∈ x :: E :: 0 :: rest, m'.get f b =
      if m.get .next h ≠ E ∧ f = .prev ∧ b = m.get .next h then x
      else if b = x then
        (match f with | .magic => HEAP_MAGIC | .used => 0 | .next => m.get .next h | .prev => h)
      else if b = h ∧ f = .next then x
      else if b = h ∧ f = .used then u
      else m.get f b := fun f b hb => by
    rw [get_linkBackMem hsep hbuilt hxs hns hb, hbuilt f b hb]
  have hnx : m.get .next h ≠ x := by
    unfold SIZEOF_STRUCT_MEM at h₂
    omega
  -- the fields at an old header, and at the new one
  have hold : ∀ b ∈ E :: 0 :: rest, m'.get .magic b = m.get .magic b ∧
      m'.get .next b = (if b = h then x else m.get .next b) ∧
      m'.get .used b = (if b = h then u else m.get .used b) ∧
      m'.get .prev b = (if m.get .next h ≠ E ∧ b = m.get .next h then x else m.get .prev b) := by
    intro b hb
    have hbx := hxne b hb
    have hb' : b ∈ x :: E :: 0 :: rest := List.mem_cons_of_mem _ hb
    refine ⟨?_, ?_, ?_, ?_⟩ <;> rw [hget _ b hb'] <;> simp [hbx]
  have hnew : m'.get .magic x = HEAP_MAGIC ∧ m'.get .next x = m.get .next h ∧
      m'.get .used x = 0 ∧ m'.get .prev x = h := by
    refine ⟨?_, ?_, ?_, ?_⟩ <;> rw [hget _ x hxs] <;> simp [hnx.symm]
  have hoff : ∀ b ∈ 0 :: rest, b ∈ E :: 0 :: rest := fun b hb => List.mem_cons_of_mem _ hb
  obtain ⟨l₁, l₂, rfl, hlast⟩ := Dll.exists_position hh
  have hperm : (0 :: (l₁ ++ x :: l₂)).Perm (x :: 0 :: (l₁ ++ l₂)) :=
    (List.perm_middle.cons 0).trans (List.Perm.swap _ _ _)
  have hmem : ∀ b ∈ 0 :: (l₁ ++ x :: l₂), b = x ∨ b ∈ 0 :: (l₁ ++ l₂) := fun b hb =>
    List.mem_cons.mp (hperm.mem_iff.mp hb)
  have hfirst : m.get .next h = Dll.firstOf l₂ E := hlast ▸ w.path.link
  refine ⟨l₁ ++ x :: l₂, ⟨⟨?_, fun b hb => ?_, fun b hb hbE => ?_, ?_, fun b hb => ?_,
    fun b hb => ?_, w.end_aligned, ?_, ?_⟩, hperm, hnew.2.2.1, hnew.2.1, fun b hb hbh => ?_,
    fun b hb => (hold b (hoff b hb)).2.1⟩, ?_⟩
  · refine w.path.insert w.nodup ?_ ?_ fun b hb hbl => ?_
    · rw [hlast, (hold h (hoff h hh)).2.1, if_pos rfl]
    · rw [hnew.2.1, hfirst]
    · rw [(hold b (hoff b hb)).2.1, if_neg (hlast ▸ hbl)]
  · rcases hmem b hb with rfl | hb
    · rw [hnew.2.1]
      exact h₂
    · rw [(hold b (hoff b hb)).2.1]
      split_ifs with hbh
      · exact hbh ▸ h₁
      · exact w.gap b hb
  · rcases hmem b hb with rfl | hb
    · -- the block behind `x`
      rw [hnew.2.1] at hbE ⊢
      have hnm := (w.next_mem hh).resolve_right hbE
      rw [(hold _ (List.mem_cons_of_mem _ (List.mem_cons_of_mem _ hnm))).2.2.2, if_pos ⟨hbE, rfl⟩]
    · rw [(hold b (hoff b hb)).2.1] at hbE ⊢
      split_ifs at hbE ⊢ with hbh
      · rw [hnew.2.2.2, hbh]
      · have hnm := (w.next_mem hb).resolve_right hbE
        rw [(hold _ (List.mem_cons_of_mem _ (List.mem_cons_of_mem _ hnm))).2.2.2, if_neg]
        · exact w.prev b hb hbE
        · exact fun hc => hbh (w.next_inj hb hh hc.2)
  · rw [(hold 0 (by simp)).2.2.2, if_neg]
    · exact w.prev_zero
    · have hlt := w.lt_next hh
      rintro ⟨-, he⟩
      omega
  · rcases hmem b hb with rfl | hb
    · exact hal
    · exact w.aligned b hb
  · rcases hmem b hb with rfl | hb
    · exact hnew.1
    · exact (hold b (hoff b hb)).1.trans (w.magic b hb)
  · rw [(hold E (by simp)).2.2.1, if_neg hhE.symm]
    exact w.end_used
  · rw [(hold E (by simp)).2.1, if_neg hhE.symm]
    exact w.end_next
  · rw [(hold b hb).2.2.1, if_neg hbh]
  · rw [(hold h (hoff h hh)).2.2.1, if_pos rfl]

end Carve

end RTThread.SmallMem
