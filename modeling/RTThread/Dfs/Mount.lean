import RTThread.Dfs.Lexical

set_option autoImplicit false

/-! # Mounted file systems (`dfs_fs.c`, `dfs_subdir` of `dfs.c`)

The table of the mounted file systems is a list of slots. The lookup compares characters; for normal
paths this is a comparison of names, and the entry found is the one with the most names in common.
-/

namespace RTThread.Dfs

open Paths

/-- `strncmp(s, t, n)`. -/
def strncmp : Nat → List Char → List Char → Int
  | 0, _, _ => 0
  | n + 1, s, t =>
      let a := s.headD '\x00'
      let b := t.headD '\x00'
      if a ≠ b then (a.toNat : Int) - b.toNat
      else if a = '\x00' then 0
      else strncmp n s.tail t.tail

/-- The fields of `struct dfs_filesystem` that the lookup reads; `Ops` are the operations of a file
system. -/
structure Filesystem (Ops : Type) where
  path : Option CString
  ops : Option Ops

section Code

variable {Ops : Type}

/-- A slot of the table, in the loop of `dfs_filesystem_lookup`, with the variables `fs` and
`prefixlen`. -/
def lookupSlot (path : CString) (s : Option (Filesystem Ops) × Nat) (iter : Filesystem Ops) :
    Option (Filesystem Ops) × Nat :=
  match iter.path, iter.ops with
  | some iterPath, some _ =>
      let fspath := iterPath.strlen
      if fspath < s.2 ∨ strncmp fspath iterPath.chars path.chars ≠ 0 then s
      -- check next path separator
      else if fspath > 1 ∧ path.strlen > fspath ∧ path.get fspath ≠ '/' then s
      else (some iter, fspath)
  | _, _ => s

def dfsFilesystemLookup (table : List (Filesystem Ops)) (path : CString) : Option (Filesystem Ops) :=
  (table.foldl (lookupSlot path) (none, 0)).1

/-- The index in `filename` that the result points to. -/
def dfsSubdir (directory filename : CString) : Option Nat :=
  -- it's a same path
  if directory.strlen = filename.strlen then none
  else
    let dir := directory.strlen
    if filename.get dir ≠ '/' ∧ dir ≠ 0 then some (dir - 1) else some dir

/-- The path of a slot that is in use. -/
def Filesystem.mountPath (fs : Filesystem Ops) : Option CString := fs.ops.bind fun _ => fs.path

end Code

/-! ## The comparison -/

/-- The mount path is the whole path, or its first names. -/
def Covers (m p : CString) : Prop := components '/' m.chars <+: components '/' p.chars

theorem strncmp_eq_zero {s t : List Char} (hs : '\x00' ∉ s) :
    strncmp s.length s t = 0 ↔ s <+: t := by
  induction s generalizing t with
  | nil => simp [strncmp]
  | cons a s ih =>
    rw [List.mem_cons, not_or] at hs
    have ha : a ≠ '\x00' := fun he => hs.1 he.symm
    rw [List.length_cons, strncmp]
    cases t with
    | nil =>
      have hne : (a.toNat : Int) - ('\x00').toNat ≠ 0 := by
        intro h
        apply ha
        apply Char.ext
        apply UInt32.toNat.inj
        have h₁ : (a.toNat : Int) = 0 := by simpa using h
        simpa using h₁
      have hprefix : ¬ a :: s <+: [] := by simp
      refine iff_of_false ?_ hprefix
      change (if a ≠ '\x00' then _ else _) ≠ (0 : Int)
      rw [if_pos ha]
      exact hne
    | cons b t =>
      rw [List.cons_prefix_cons]
      change (if a ≠ b then _ else if a = '\x00' then (0 : Int) else strncmp s.length s t) = 0 ↔ _
      by_cases hab : a = b
      · rw [if_neg (not_not.mpr hab), if_neg ha, ih hs.2]
        exact (and_iff_right hab).symm
      · have hne : (a.toNat : Int) - b.toNat ≠ 0 := by
          intro h
          apply hab
          apply Char.ext
          apply UInt32.toNat.inj
          have h₁ : (a.toNat : Int) = b.toNat := by omega
          exact_mod_cast h₁
        rw [if_pos hab]
        exact iff_of_false hne fun h => hab h.1

section Paths

variable {m p : CString}

/-- The tests of the loop, on normal paths: the names of the mount path come first. -/
theorem test_iff_covers (hm : m.Normal) (hp : p.Normal) :
    (strncmp m.strlen m.chars p.chars = 0 ∧
      ¬ (m.strlen > 1 ∧ p.strlen > m.strlen ∧ p.get m.strlen ≠ '/')) ↔ Covers m p := by
  obtain ⟨ms, hms, hmn⟩ := CString.normal_iff.mp hm
  obtain ⟨ps, hps, hpn⟩ := CString.normal_iff.mp hp
  have hmName : ∀ c ∈ ms, IsName '/' c := fun c hc => (hmn c hc).1
  have hpName : ∀ c ∈ ps, IsName '/' c := fun c hc => (hpn c hc).1
  have hcov : Covers m p ↔ ms <+: ps := by
    rw [Covers, hms, hps, components_render hmName, components_render hpName]
  rw [hcov, CString.strlen, strncmp_eq_zero m.noNul]
  by_cases hroot : ms = []
  · -- the root covers every path
    obtain ⟨t, ht⟩ := head_render '/' ps
    have hone : m.chars.length = 1 := by rw [hms, hroot]; rfl
    have hpre : m.chars <+: p.chars := ⟨t, by rw [hms, hps, hroot, ht]; rfl⟩
    rw [hroot, hone]
    exact iff_of_true ⟨hpre, fun h => absurd h.1 (by omega)⟩ (List.nil_prefix)
  · rw [hms, render_of_ne hroot]
    have hlong : 1 < (stem '/' ms).length := by
      obtain ⟨c, cs, rfl⟩ := List.exists_cons_of_ne_nil hroot
      have hc := List.length_pos_of_ne_nil (hmName c List.mem_cons_self).1
      rw [stem_cons, List.length_append, List.length_cons]
      omega
    have hstem : p.chars = stem '/' ps ∨ ps = [] ∧ p.chars = ['/'] := by
      by_cases h : ps = []
      · exact Or.inr ⟨h, by rw [hps, h]; rfl⟩
      · exact Or.inl (by rw [hps, render_of_ne h])
    rcases hstem with hstem | ⟨rfl, hone⟩
    · rw [hstem, prefix_iff hmName hpName]
      constructor
      · rintro ⟨⟨t, ht⟩, hsep⟩
        refine ⟨t, ht.symm, ?_⟩
        cases t with
        | nil => exact Or.inl rfl
        | cons x u =>
          right
          by_contra hx
          apply hsep
          refine ⟨hlong, ?_, ?_⟩
          · rw [CString.strlen, hstem, ← ht, List.length_append, List.length_cons]
            omega
          · rw [CString.get, hstem, ← ht]
            simp only [List.getD_append_right _ _ _ _ (le_refl _), Nat.sub_self, List.getD_cons_zero]
            exact fun he => hx ⟨u, by rw [he]⟩
      · rintro ⟨t, ht, hsep⟩
        refine ⟨⟨t, ht.symm⟩, ?_⟩
        rintro ⟨-, hlt, hne⟩
        rcases hsep with rfl | ⟨u, rfl⟩
        · rw [CString.strlen, hstem, ht, List.append_nil] at hlt
          exact absurd hlt (lt_irrefl _)
        · apply hne
          rw [CString.get, hstem, ht, List.getD_append_right _ _ _ _ (le_refl _), Nat.sub_self]
          rfl
    · refine iff_of_false (fun h => ?_) fun h => hroot (List.prefix_nil.mp h)
      have h₁ := h.1.length_le
      rw [hone] at h₁
      exact absurd h₁ (by simpa using hlong)

/-- A mount path that covers the path is its first characters. -/
theorem Covers.prefix (h : Covers m p) (hm : m.Normal) (hp : p.Normal) : m.chars <+: p.chars :=
  (strncmp_eq_zero m.noNul).mp ((test_iff_covers hm hp).mpr h).1

/-- `dfs_subdir` gives the rest of the path. -/
theorem dfsSubdir_spec (h : Covers m p) (hm : m.Normal) (hp : p.Normal) :
    (dfsSubdir m p = none ↔ m = p) ∧ ∀ off, dfsSubdir m p = some off →
      (p.chars.drop off).head? = some '/' ∧
        (if m.chars = ['/'] then [] else m.chars) ++ p.chars.drop off = p.chars := by
  obtain ⟨ms, hms, hmn⟩ := CString.normal_iff.mp hm
  obtain ⟨ps, hps, hpn⟩ := CString.normal_iff.mp hp
  have hmName : ∀ c ∈ ms, IsName '/' c := fun c hc => (hmn c hc).1
  have hpName : ∀ c ∈ ps, IsName '/' c := fun c hc => (hpn c hc).1
  have hpre : ms <+: ps := by
    have h₁ := h
    rwa [Covers, hms, hps, components_render hmName, components_render hpName] at h₁
  have hchars := h.prefix hm hp
  have hsame : m.strlen = p.strlen ↔ m = p :=
    ⟨fun he => CString.ext_chars (hchars.eq_of_length he), fun he => by rw [he]⟩
  unfold dfsSubdir
  by_cases he : m.strlen = p.strlen
  · rw [if_pos he]
    exact ⟨iff_of_true rfl (hsame.mp he), fun off h => by cases h⟩
  · rw [if_neg he]
    dsimp only
    obtain ⟨rest, rfl⟩ := hpre
    have hrest : rest ≠ [] := by
      rintro rfl
      apply he
      rw [CString.strlen, CString.strlen, hms, hps, List.append_nil]
    obtain ⟨c, cs, rfl⟩ := List.exists_cons_of_ne_nil hrest
    have hp' : p.chars = stem '/' ms ++ '/' :: (c ++ stem '/' cs) := by
      rw [hps, render_of_ne (by simp), stem_append]
      rfl
    by_cases hroot : ms = []
    · -- the root: the first character of the first name is no slash
      obtain ⟨x, c', rfl⟩ := List.exists_cons_of_ne_nil (hpName c (by simp)).1
      have hx : x ≠ '/' := by
        rintro rfl
        exact (hpName ('/' :: c') (by simp)).2 List.mem_cons_self
      have hmr : m.chars = ['/'] := by rw [hms, hroot]; rfl
      have hget : p.get m.strlen = x := by
        rw [CString.get, CString.strlen, hmr, hp', hroot]
        rfl
      have hone : m.strlen = 1 := by rw [CString.strlen, hmr]; rfl
      rw [hget, hone, if_pos ⟨hx, by omega⟩]
      refine ⟨iff_of_false (by simp) fun he' => he (by rw [he']), fun off hoff => ?_⟩
      obtain rfl : 0 = off := Option.some.inj hoff
      rw [if_pos hmr, List.drop_zero, hp', hroot]
      exact ⟨rfl, rfl⟩
    · have hms' : m.chars = stem '/' ms := by rw [hms, render_of_ne hroot]
      have hget : p.get m.strlen = '/' := by
        rw [CString.get, CString.strlen, hms', hp', List.getD_append_right _ _ _ _ (le_refl _),
          Nat.sub_self]
        rfl
      have hne : m.chars ≠ ['/'] := by
        intro h₁
        obtain ⟨d, ds, rfl⟩ := List.exists_cons_of_ne_nil hroot
        have hd := List.length_pos_of_ne_nil (hmName d List.mem_cons_self).1
        have h₂ := congrArg List.length (hms'.symm.trans h₁)
        rw [stem_cons, List.length_append, List.length_cons, List.length_singleton] at h₂
        omega
      rw [hget, if_neg fun h => h.1 rfl]
      refine ⟨iff_of_false (by simp) fun he' => he (by rw [he']), fun off hoff => ?_⟩
      obtain rfl : m.strlen = off := Option.some.inj hoff
      have hdrop : p.chars.drop m.strlen = '/' :: (c ++ stem '/' cs) := by
        rw [hp', CString.strlen, hms', List.drop_left]
      rw [hdrop, if_neg hne, hms', hp']
      exact ⟨rfl, rfl⟩

end Paths

/-! ## The scan of the table -/

section Scan

variable {Ops : Type} {table seen : List (Filesystem Ops)} {p : CString}

/-- What the loop has found in the slots that it has seen. -/
def Found (p : CString) (seen : List (Filesystem Ops)) (s : Option (Filesystem Ops) × Nat) : Prop :=
  match s.1 with
  | none => s.2 = 0 ∧ ∀ e ∈ seen, ∀ m, e.mountPath = some m → ¬ Covers m p
  | some e => e ∈ seen ∧ ∃ m, e.mountPath = some m ∧ s.2 = m.strlen ∧ Covers m p ∧
      ∀ e' ∈ seen, ∀ m', e'.mountPath = some m' → Covers m' p → m'.strlen ≤ m.strlen

/-- A slot that does not come into question. -/
theorem Found.skip {s : Option (Filesystem Ops) × Nat} (h : Found p seen s) {e : Filesystem Ops}
    (he : ∀ m, e.mountPath = some m → Covers m p → m.strlen < s.2) : Found p (seen ++ [e]) s := by
  unfold Found at h ⊢
  cases hs : s.1 with
  | none =>
    rw [hs] at h
    refine ⟨h.1, fun e' he' m hm hc => ?_⟩
    rcases List.mem_append.mp he' with he' | he'
    · exact h.2 e' he' m hm hc
    · rw [List.mem_singleton.mp he'] at hm
      have h₁ := he m hm hc
      rw [h.1] at h₁
      exact absurd h₁ (Nat.not_lt_zero _)
  | some f =>
    rw [hs] at h
    obtain ⟨hf, m, hm, hlen, hcov, hbest⟩ := h
    refine ⟨List.mem_append_left _ hf, m, hm, hlen, hcov, fun e' he' m' hm' hc => ?_⟩
    rcases List.mem_append.mp he' with he' | he'
    · exact hbest e' he' m' hm' hc
    · rw [List.mem_singleton.mp he'] at hm'
      have h₁ := he m' hm' hc
      omega

/-- A slot that is at least as good as what was found before. -/
theorem Found.take {s : Option (Filesystem Ops) × Nat} (h : Found p seen s) {e : Filesystem Ops}
    {m : CString} (hm : e.mountPath = some m) (hcov : Covers m p) (hlen : s.2 ≤ m.strlen) :
    Found p (seen ++ [e]) (some e, m.strlen) := by
  refine ⟨List.mem_append_right _ List.mem_cons_self, m, hm, rfl, hcov, fun e' he' m' hm' hc => ?_⟩
  rcases List.mem_append.mp he' with he' | he'
  · unfold Found at h
    cases hs : s.1 with
    | none =>
      rw [hs] at h
      exact absurd hc (h.2 e' he' m' hm')
    | some f =>
      rw [hs] at h
      obtain ⟨-, m₀, -, hlen₀, -, hbest⟩ := h
      have h₁ := hbest e' he' m' hm' hc
      omega
  · rw [List.mem_singleton.mp he', hm] at hm'
    rw [Option.some.inj hm']

/-- One slot. -/
theorem Found.step {s : Option (Filesystem Ops) × Nat} (h : Found p seen s) {e : Filesystem Ops}
    (hp : p.Normal) (he : ∀ m, e.mountPath = some m → m.Normal) :
    Found p (seen ++ [e]) (lookupSlot p s e) := by
  have hmount : e.mountPath = e.ops.bind fun _ => e.path := rfl
  unfold lookupSlot
  cases hpath : e.path with
  | none =>
    refine h.skip fun m hm => ?_
    rw [hmount, hpath] at hm
    cases hops : e.ops <;> rw [hops] at hm <;> cases hm
  | some m =>
    cases hops : e.ops with
    | none =>
      refine h.skip fun m' hm' => ?_
      rw [hmount, hops] at hm'
      cases hm'
    | some o =>
      have hm : e.mountPath = some m := by rw [hmount, hpath, hops]; rfl
      have htest := test_iff_covers (he m hm) hp
      have only : ∀ m', e.mountPath = some m' → m' = m := by
        intro m' hm'
        exact Option.some.inj (hm'.symm.trans hm)
      dsimp only
      by_cases h₁ : m.strlen < s.2 ∨ strncmp m.strlen m.chars p.chars ≠ 0
      · rw [if_pos h₁]
        refine h.skip fun m' hm' hc => ?_
        rw [only m' hm'] at hc ⊢
        exact h₁.resolve_right (not_not.mpr (htest.mpr hc).1)
      · rw [if_neg h₁]
        rw [not_or, not_lt, not_not] at h₁
        by_cases h₂ : m.strlen > 1 ∧ p.strlen > m.strlen ∧ p.get m.strlen ≠ '/'
        · rw [if_pos h₂]
          refine h.skip fun m' hm' hc => ?_
          rw [only m' hm'] at hc
          exact absurd h₂ (htest.mpr hc).2
        · rw [if_neg h₂]
          exact h.take hm (htest.mp ⟨h₁.2, h₂⟩) h₁.1

theorem Found.foldl {s : Option (Filesystem Ops) × Nat} (h : Found p seen s) (hp : p.Normal)
    (ht : ∀ e ∈ table, ∀ m, e.mountPath = some m → m.Normal) :
    Found p (seen ++ table) (table.foldl (lookupSlot p) s) := by
  induction table generalizing seen s with
  | nil =>
    rw [List.append_nil]
    exact h
  | cons e table ih =>
    have h₁ := h.step hp (ht e List.mem_cons_self)
    have h₂ := ih h₁ fun e' he' => ht e' (List.mem_cons_of_mem _ he')
    rwa [List.append_assoc, List.singleton_append] at h₂

theorem found_lookup (hp : p.Normal) (ht : ∀ e ∈ table, ∀ m, e.mountPath = some m → m.Normal) :
    Found p table (table.foldl (lookupSlot p) (none, 0)) := by
  have h : Found p ([] : List (Filesystem Ops)) (none, 0) :=
    ⟨rfl, fun e he => absurd he List.not_mem_nil⟩
  exact h.foldl hp ht

/-- The mount paths are normal and pairwise different. -/
structure MountTable (table : List (Filesystem Ops)) : Prop where
  normal : ∀ e ∈ table, ∀ m, e.mountPath = some m → m.Normal
  distinct : table.Pairwise fun e e' => ∀ m, e.mountPath = some m → e'.mountPath ≠ some m

theorem MountTable.eq_of_path (h : MountTable table) {e e' : Filesystem Ops} (he : e ∈ table)
    (he' : e' ∈ table) {m : CString} (hm : e.mountPath = some m) (hm' : e'.mountPath = some m) :
    e = e' := by
  have hd := h.distinct
  clear h
  induction table with
  | nil => exact absurd he List.not_mem_nil
  | cons a table ih =>
    rw [List.pairwise_cons] at hd
    rcases List.mem_cons.mp he with rfl | he₁
    · rcases List.mem_cons.mp he' with rfl | he₂
      · rfl
      · exact absurd hm' (hd.1 e' he₂ m hm)
    · rcases List.mem_cons.mp he' with rfl | he₂
      · exact absurd hm (hd.1 e he₁ m hm')
      · exact ih he₁ he₂ hd.2

/-- **The lookup finds the longest mount path** that is the path itself or its first names, and nothing
exactly when there is none; `dfs_subdir` is the rest of the path behind it. -/
theorem lookup_longest (h : MountTable table) (hp : p.Normal) :
    (dfsFilesystemLookup table p = none ↔
      ∀ e ∈ table, ∀ m, e.mountPath = some m → ¬ Covers m p) ∧
    ∀ e, dfsFilesystemLookup table p = some e → e ∈ table ∧ ∃ m, e.mountPath = some m ∧
      Covers m p ∧
      (∀ e' ∈ table, ∀ m', e'.mountPath = some m' → Covers m' p →
        m'.strlen < m.strlen ∨ e' = e) ∧
      (dfsSubdir m p = none ↔ m = p) ∧
      ∀ off, dfsSubdir m p = some off → (p.chars.drop off).head? = some '/' ∧
        (if m.chars = ['/'] then [] else m.chars) ++ p.chars.drop off = p.chars := by
  have hfound := found_lookup hp h.normal
  unfold Found at hfound
  have hres : dfsFilesystemLookup table p = (table.foldl (lookupSlot p) (none, 0)).1 := rfl
  rw [← hres] at hfound
  cases hl : dfsFilesystemLookup table p with
  | none =>
    rw [hl] at hfound
    exact ⟨iff_of_true rfl hfound.2, fun e he => by cases he⟩
  | some f =>
    rw [hl] at hfound
    obtain ⟨hf, m, hm, -, hcov, hbest⟩ := hfound
    have hmn := h.normal f hf m hm
    refine ⟨iff_of_false (by simp) fun hnone => hnone f hf m hm hcov, fun e he => ?_⟩
    obtain rfl : f = e := Option.some.inj he
    refine ⟨hf, m, hm, hcov, fun e' he' m' hm' hcov' => ?_, dfsSubdir_spec hcov hmn hp⟩
    rcases Nat.lt_or_eq_of_le (hbest e' he' m' hm' hcov') with hlt | heq
    · exact Or.inl hlt
    · right
      have h₁ := hcov'.prefix (h.normal e' he' m' hm') hp
      have h₂ := hcov.prefix hmn hp
      have hsame : m' = m := CString.ext_chars ((List.prefix_of_prefix_length_le h₁ h₂
        (le_of_eq heq)).eq_of_length heq)
      rw [hsame] at hm'
      exact h.eq_of_path he' hf hm' hm

end Scan

section Cases

/-- The root, `/sd`, and an empty slot. -/
def twoMounts : List (Filesystem Unit) :=
  [⟨some ⟨['/', 's', 'd'], by decide⟩, some ()⟩, ⟨none, none⟩, ⟨some rootDirectory, some ()⟩]

theorem normal_of_names {s : CString} (cs : List (List Char)) (hs : s.chars = render '/' cs)
    (hcs : ∀ c ∈ cs, (c ≠ [] ∧ '/' ∉ c) ∧ c ≠ ['.'] ∧ c ≠ ['.', '.']) : s.Normal :=
  CString.normal_iff.mpr ⟨cs, hs, hcs⟩

/-- The card at `/sd` is not where `/sdcard` lies. -/
theorem lookup_longest_card : (dfsFilesystemLookup twoMounts
    ⟨['/', 's', 'd', 'c', 'a', 'r', 'd'], by decide⟩ = none ↔ ∀ e ∈ twoMounts, ∀ m,
      e.mountPath = some m → ¬ Covers m ⟨['/', 's', 'd', 'c', 'a', 'r', 'd'], by decide⟩) := by
  refine (lookup_longest ⟨?_, ?_⟩ ?_).1
  · intro e he m hm
    rw [twoMounts, List.mem_cons, List.mem_cons, List.mem_cons] at he
    rcases he with rfl | rfl | rfl | he
    · cases hm
      exact normal_of_names [['s', 'd']] rfl (by decide)
    · cases hm
    · cases hm
      exact normal_of_names [] rfl (by decide)
    · cases he
  · refine List.Pairwise.cons ?_ (List.Pairwise.cons ?_ (List.pairwise_singleton _ _))
    · intro e he m hm hm'
      rw [List.mem_cons, List.mem_cons] at he
      rcases he with rfl | rfl | he
      · cases hm'
      · cases hm
        exact absurd (congrArg (Option.map CString.chars) hm') (by decide)
      · cases he
    · intro e he m hm
      cases hm
  · exact normal_of_names [['s', 'd', 'c', 'a', 'r', 'd']] rfl (by decide)

end Cases

end RTThread.Dfs
