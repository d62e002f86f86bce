import RTThread.Dfs.Mounting

set_option autoImplicit false

/-! # Open files (`dfs.c`, `dfs_file.c`)

`dfs_file_open` keeps a path in the descriptor: the full path where the file system wants it, and else the
path below the mount point. `fd_is_open` computes such a path from its argument, by its own rule, and
looks for it in the table of descriptors; `dfs_file_unlink` asks it first. A pointer to a slot of the
mount table is its index. What the allocations and the callback `open` return is part of a call.
-/

namespace RTThread.Dfs

open Paths

inductive Errno
  | ENOMEM | ENOENT | ENOSYS | EINVAL | EBUSY
  | callback (r : Int)
  deriving DecidableEq

/-- The string `s + off`. -/
def CString.drop (s : CString) (off : Nat) : CString where
  chars := s.chars.drop off
  noNul h := s.noNul (List.mem_of_mem_drop h)

/-- The slots with their indices. -/
def numbered (table : List Slot) : List (Filesystem (Mounted × Nat)) :=
  table.zipIdx.map fun e => ⟨e.1.path, e.1.ops.map fun x => (x, e.2)⟩

/-- The slot that `dfs_filesystem_lookup` points to: its index, its path and what is mounted. -/
def lookupFs (table : List Slot) (path : CString) : Option (Nat × CString × Mounted) :=
  (dfsFilesystemLookup (numbered table) path).bind fun fs =>
    fs.path.bind fun m => fs.ops.map fun x => (x.2, m, x.1)

/-- The fields of `struct dfs_fd` that `fd_is_open` reads. -/
structure OpenFile where
  fs : Nat
  path : CString
  deriving DecidableEq

/-- A call of `dfs_file_open`: `strdup` says whether the path can be copied, and `fopsOpen` is what the
callback `open` returns, if there is one. -/
structure OpenCall where
  workingDirectory : CString
  alloc : Bool
  path : CString
  strdup : Bool
  fopsOpen : Option Int

/-- `fd->path`. -/
def storedPath (x : Mounted) (m fullpath : CString) : CString :=
  if x.ops.fullPath then fullpath
  else (dfsSubdir m fullpath).elim rootDirectory fullpath.drop

/-- From the file system on. -/
def openIn (c : OpenCall) (fullpath : CString) (i : Nat) (m : CString) (x : Mounted) :
    Except Fault (Except Errno OpenFile) :=
  match c.fopsOpen with
  | none => .ok (.error .ENOSYS)
  | some result =>
      -- the callback would read a path that is `NULL`
      if x.ops.fullPath = false ∧ c.strdup = false then .error .outside
      else if result < 0 then .ok (.error (.callback result))
      else .ok (.ok ⟨i, storedPath x m fullpath⟩)

/-- `dfs_file_open`. -/
def dfsFileOpen (table : List Slot) (c : OpenCall) : Except Fault (Except Errno OpenFile) := do
  let fullpath ← dfsNormalizePath c.alloc c.workingDirectory none c.path
  match fullpath with
  | none => .ok (.error .ENOMEM)
  | some fullpath =>
      match lookupFs table fullpath with
      | none => .ok (.error .ENOENT)
      | some (i, m, x) => openIn c fullpath i m x

/-- `mountpath` of `fd_is_open`. -/
def searchedPath (m fullpath : CString) : CString :=
  if m.get 0 = '/' ∧ m.get 1 = '\x00' then fullpath else fullpath.drop m.strlen

/-- `fd_is_open`; an entry of the table that is `NULL`, or has no `fops` or no path, is nothing. -/
def fdIsOpen (table : List Slot) (fds : List (Option OpenFile)) (alloc : Bool) (wd : CString)
    (pathname : CString) : Except Fault Int := do
  let fullpath ← dfsNormalizePath alloc wd none pathname
  match fullpath with
  | none => .ok (-1)
  | some fullpath =>
      match lookupFs table fullpath with
      -- can't find mounted file system
      | none => .ok (-1)
      | some (i, m, _) =>
          if some ⟨i, searchedPath m fullpath⟩ ∈ fds then .ok 0 else .ok (-1)

/-- With the file system, and what `fd_is_open` returned: the error, or the path that the callback
`unlink` gets. -/
def unlinkIn (m fullpath : CString) (x : Mounted) (isOpen : Int) : Except Errno CString :=
  -- check whether file is already open
  if isOpen = 0 then .error .EBUSY
  else if x.ops.unlink then .ok (storedPath x m fullpath)
  else .error .ENOSYS

/-- `dfs_file_unlink`; it allocates twice, once itself and once in `fd_is_open`. -/
def dfsFileUnlink (table : List Slot) (fds : List (Option OpenFile)) (alloc alloc' : Bool)
    (wd : CString) (path : CString) : Except Fault (Except Errno CString) := do
  let fullpath ← dfsNormalizePath alloc wd none path
  match fullpath with
  | none => .ok (.error .EINVAL)
  | some fullpath =>
      match lookupFs table fullpath with
      | none => .ok (.error .ENOENT)
      | some (_, m, x) => do
          let isOpen ← fdIsOpen table fds alloc' wd fullpath
          .ok (unlinkIn m fullpath x isOpen)

/-! ## What is open -/

/-- A descriptor that `dfs_file_open` opened, with the normal form of the path it was called with. -/
structure Descriptor (table : List Slot) where
  file : OpenFile
  name : CString
  opened : ∃ c : OpenCall, c.workingDirectory.Absolute ∧ dfsFileOpen table c = .ok (.ok file) ∧
    dfsNormalizePath true c.workingDirectory none c.path = .ok (some name)

/-- The table of descriptors that `fd_is_open` sees. -/
def files {table : List Slot} (fds : List (Option (Descriptor table))) : List (Option OpenFile) :=
  fds.map fun d => d.map Descriptor.file

/-- Some descriptor was opened with a path of the same normal form, in the same file system. -/
def IsOpen {table : List Slot} (fds : List (Option (Descriptor table))) (wd path : CString) : Prop :=
  ∃ d, some d ∈ fds ∧ dfsNormalizePath true wd none path = .ok (some d.name) ∧
    ∃ m x, lookupFs table d.name = some (d.file.fs, m, x)

/-- For every set of descriptors, `fd_is_open` finds the path exactly if it is open, and then
`dfs_file_unlink` does not call the file system. -/
def KeepsOpenFiles (table : List Slot) (alloc alloc' : Bool) (wd path : CString) : Prop :=
  ∀ fds : List (Option (Descriptor table)),
    (∃ r, fdIsOpen table (files fds) alloc wd path = .ok r ∧ (r = 0 ↔ IsOpen fds wd path)) ∧
    (IsOpen fds wd path → dfsFileUnlink table (files fds) alloc alloc' wd path = .ok (.error .EBUSY))

/-- The path is normalised inside its buffer; where a file system covers it, there is memory for it, and
the file system is mounted at `/`, or does not want full paths and is mounted above the path. -/
structure KeysAgree (table : List Slot) (alloc alloc' : Bool) (wd path : CString) : Prop where
  inside : alloc = true → ∀ e, dfsNormalizePath true wd none path ≠ .error e
  keys : ∀ n i m x, dfsNormalizePath true wd none path = .ok (some n) →
    lookupFs table n = some (i, m, x) →
      alloc = true ∧ alloc' = true ∧ (m.chars = ['/'] ∨ x.ops.fullPath = false ∧ m ≠ n)

/-! ## The two paths -/

section Keys

variable {m n n' : CString} {x : Mounted}

theorem normal_ext (hm : m.Normal) (hn : n.Normal)
    (h : components '/' m.chars = components '/' n.chars) : m = n := by
  obtain ⟨ms, hms, hmn⟩ := CString.normal_iff.mp hm
  obtain ⟨ns, hns, hnn⟩ := CString.normal_iff.mp hn
  rw [hms, hns, components_render fun c hc => (hmn c hc).1,
    components_render fun c hc => (hnn c hc).1] at h
  exact CString.ext_chars (by rw [hms, hns, h])

theorem get_root (s : CString) : s.get 0 = '/' ∧ s.get 1 = '\x00' ↔ s.chars = ['/'] := by
  obtain ⟨chars, hnul⟩ := s
  unfold CString.get
  cases chars with
  | nil => simp
  | cons a t =>
      cases t with
      | nil => simp
      | cons b t =>
          have hb : b ≠ '\x00' := by
            rintro rfl
            exact hnul (by simp)
          simp [hb]

/-- At the root both are the full path. -/
theorem searched_root (hm : m.chars = ['/']) : searchedPath m n = n := if_pos ((get_root m).mpr hm)

theorem stored_root (hm : m.chars = ['/']) (hmn : m.Normal) (hn : n.Normal) (hcov : Covers m n) :
    storedPath x m n = n := by
  unfold storedPath
  split_ifs
  · rfl
  · obtain ⟨hnone, hsome⟩ := dfsSubdir_spec hcov hmn hn
    cases hoff : dfsSubdir m n with
    | none =>
        rw [← hnone.mp hoff]
        exact CString.ext_chars hm.symm
    | some off =>
        obtain ⟨-, happend⟩ := hsome off hoff
        rw [if_pos hm, List.nil_append] at happend
        exact CString.ext_chars happend

/-- Below another mount point the path is the mount path and the searched path. -/
theorem append_searched (hm : m.chars ≠ ['/']) (hmn : m.Normal) (hn : n.Normal)
    (hcov : Covers m n) : (searchedPath m n).chars = n.chars.drop m.strlen ∧
      m.chars ++ n.chars.drop m.strlen = n.chars := by
  obtain ⟨t, ht⟩ := hcov.prefix hmn hn
  have hsearch : searchedPath m n = n.drop m.strlen := if_neg fun h => hm ((get_root m).mp h)
  refine ⟨by rw [hsearch]; rfl, ?_⟩
  rw [← ht, CString.strlen, List.drop_left]

/-- There `/` is never the searched path. -/
theorem searched_ne_root (hm : m.chars ≠ ['/']) (hmn : m.Normal) (hn : n.Normal)
    (hcov : Covers m n) : searchedPath m n ≠ rootDirectory := by
  obtain ⟨hsearch, happend⟩ := append_searched hm hmn hn hcov
  intro h
  rw [← hsearch, h] at happend
  have hcomp : components '/' n.chars = components '/' m.chars := by
    rw [← happend]
    exact (components_append_cons m.chars []).trans (List.append_nil _)
  have hnm : n = m := normal_ext hn hmn hcomp
  have hlen := congrArg List.length happend
  rw [hnm, List.length_append] at hlen
  have hone : (rootDirectory).chars.length = 1 := rfl
  omega

/-- The path that a file system which does not want full paths gets. -/
theorem stored_of_below (hx : x.ops.fullPath = false) (hm : m.chars ≠ ['/']) (hmn : m.Normal)
    (hn : n.Normal) (hcov : Covers m n) :
    (m = n ∧ storedPath x m n = rootDirectory) ∨ m ≠ n ∧ storedPath x m n = searchedPath m n := by
  obtain ⟨hnone, hsome⟩ := dfsSubdir_spec hcov hmn hn
  obtain ⟨hsearch, happend⟩ := append_searched hm hmn hn hcov
  have hstored : storedPath x m n = (dfsSubdir m n).elim rootDirectory n.drop := by
    rw [storedPath, hx]
    rfl
  rw [hstored]
  cases hoff : dfsSubdir m n with
  | none => exact .inl ⟨hnone.mp hoff, rfl⟩
  | some off =>
      right
      obtain ⟨-, happend'⟩ := hsome off hoff
      rw [if_neg hm] at happend'
      refine ⟨fun h => ?_, CString.ext_chars ?_⟩
      · rw [hnone.mpr h] at hoff
        cases hoff
      · rw [hsearch]
        exact List.append_cancel_left (happend'.trans happend.symm)

/-- **The paths agree**: under the condition, a stored path is the searched path only of its own name. -/
theorem stored_eq_searched (hmn : m.Normal) (hn : n.Normal) (hn' : n'.Normal) (hcov : Covers m n)
    (hcov' : Covers m n') (h : m.chars = ['/'] ∨ x.ops.fullPath = false ∧ m ≠ n) :
    storedPath x m n' = searchedPath m n ↔ n' = n := by
  by_cases hm : m.chars = ['/']
  · rw [stored_root hm hmn hn' hcov', searched_root hm]
  · obtain ⟨hx, hne⟩ := h.resolve_left hm
    obtain ⟨hsearch, happend⟩ := append_searched hm hmn hn hcov
    obtain ⟨hsearch', happend'⟩ := append_searched hm hmn hn' hcov'
    obtain ⟨rfl, hroot⟩ | ⟨-, hsame⟩ := stored_of_below hx hm hmn hn' hcov'
    · rw [hroot]
      exact iff_of_false (fun h => searched_ne_root hm hmn hn hcov h.symm) hne
    · rw [hsame]
      constructor
      · intro h
        apply CString.ext_chars
        rw [← happend', ← happend, ← hsearch', ← hsearch, h]
      · rintro rfl
        rfl

/-- **Else they do not**: the path itself is not found. -/
theorem stored_ne_searched (hmn : m.Normal) (hn : n.Normal) (hcov : Covers m n)
    (h : ¬ (m.chars = ['/'] ∨ x.ops.fullPath = false ∧ m ≠ n)) :
    storedPath x m n ≠ searchedPath m n := by
  obtain ⟨hm, hrest⟩ := not_or.mp h
  obtain ⟨hsearch, happend⟩ := append_searched hm hmn hn hcov
  obtain ⟨t, ht, -⟩ := hmn
  cases hx : x.ops.fullPath with
  | true =>
      have hstored : storedPath x m n = n := by
        rw [storedPath, hx]
        rfl
      intro heq
      have hlen := congrArg (fun s : CString => s.chars.length) (hstored.symm.trans heq)
      have hlen' := congrArg List.length happend
      simp only [hsearch, List.length_append, ht, List.length_cons] at hlen hlen'
      omega
  | false =>
      have hmn' : m = n := by
        by_contra hne
        exact hrest ⟨hx, hne⟩
      subst hmn'
      have hstored : storedPath x m m = rootDirectory := by
        rw [storedPath, hx, dfsSubdir, if_pos rfl]
        rfl
      intro heq
      have hlen := congrArg (fun s : CString => s.chars.length) (hstored.symm.trans heq)
      simp only [hsearch, CString.strlen, List.drop_length] at hlen
      cases hlen

end Keys

/-! ## The lookup -/

section Lookup

variable {table : List Slot} {i : Nat} {m n : CString} {x : Mounted}

/-- The paths of the mounted file systems are normal. -/
def NormalMounts (table : List Slot) : Prop := ∀ e ∈ table, ∀ m, e.mountPath = some m → m.Normal

theorem normal_numbered (ht : NormalMounts table) :
    ∀ e ∈ numbered table, ∀ m, e.mountPath = some m → m.Normal := by
  intro e he m hm
  obtain ⟨⟨e₀, i⟩, hmem, rfl⟩ := List.mem_map.mp he
  have he₀ : e₀ ∈ table := List.fst_mem_of_mem_zipIdx hmem
  refine ht e₀ he₀ m ?_
  unfold Filesystem.mountPath at hm ⊢
  cases hops : e₀.ops with
  | none => simp [hops] at hm
  | some x => simpa [hops] using hm

/-- What the lookup finds is in the slot, and covers the path. -/
theorem lookupFs_covers (ht : NormalMounts table) (hn : n.Normal)
    (h : lookupFs table n = some (i, m, x)) :
    table[i]? = some ⟨some m, some x⟩ ∧ m.Normal ∧ Covers m n := by
  have hfound := found_lookup hn (normal_numbered ht)
  unfold Found at hfound
  obtain ⟨fs, hfs, h⟩ := Option.bind_eq_some_iff.mp h
  obtain ⟨m', hpath, h⟩ := Option.bind_eq_some_iff.mp h
  obtain ⟨y, hops, h⟩ := Option.map_eq_some_iff.mp h
  obtain ⟨rfl, hmx⟩ := Prod.mk.inj h
  obtain ⟨rfl, rfl⟩ := Prod.mk.inj hmx
  have hlookup : (List.foldl (lookupSlot n) (none, 0) (numbered table)).1 = some fs := hfs
  rw [hlookup] at hfound
  obtain ⟨hmem, m₀, hm₀, -, hcov, -⟩ := hfound
  have hmount : fs.mountPath = some m' := by rw [Filesystem.mountPath, hops, hpath]; rfl
  obtain rfl : m₀ = m' := Option.some.inj (hm₀.symm.trans hmount)
  refine ⟨?_, normal_numbered ht fs hmem _ hm₀, hcov⟩
  obtain ⟨⟨⟨p, o⟩, j⟩, hj, rfl⟩ := List.mem_map.mp hmem
  obtain ⟨z, rfl, rfl⟩ := Option.map_eq_some_iff.mp hops
  rw [List.mem_zipIdx_iff_getElem?.mp hj, show p = some m₀ from hpath]

/-- No file system covers a path that does not start at the root. -/
theorem lookupFs_unrooted (ht : NormalMounts table) (hn : n.chars.head? ≠ some '/') :
    lookupFs table n = none := by
  have hscan : ∀ l : List (Filesystem (Mounted × Nat)),
      (∀ e ∈ l, ∀ m, e.mountPath = some m → m.Normal) →
        List.foldl (lookupSlot n) (none, 0) l = (none, 0) := by
    intro l hl
    induction l with
    | nil => rfl
    | cons e l ih =>
        have hskip : lookupSlot n (none, 0) e = (none, 0) := by
          unfold lookupSlot
          cases hpath : e.path with
          | none => rfl
          | some m =>
              cases hops : e.ops with
              | none => rfl
              | some y =>
                  have hm : e.mountPath = some m := by rw [Filesystem.mountPath, hpath, hops]; rfl
                  obtain ⟨t, hmt, -⟩ := hl e List.mem_cons_self m hm
                  refine if_pos (.inr fun h => hn ?_)
                  obtain ⟨u, hu⟩ := (strncmp_eq_zero m.noNul).mp h
                  rw [← hu, hmt]
                  rfl
        rw [List.foldl_cons, hskip]
        exact ih fun e' he' => hl e' (List.mem_cons_of_mem _ he')
  rw [lookupFs, dfsFilesystemLookup, hscan _ (normal_numbered ht)]
  rfl

/-- What `dfs_normalize_path` returns is normal or does not start at the root. -/
theorem normal_or_unrooted {wd f : CString} (hwd : wd.Absolute)
    (h : dfsNormalizePath true wd none f = .ok (some n)) : n.Normal ∨ n.chars.head? ≠ some '/' := by
  have hproper : Proper (some wd) f := ⟨fun d hd => Option.some.inj hd ▸ hwd, fun h => by cases h⟩
  obtain ⟨r, hfull, hnul, hcomp⟩ := fullPath_eq wd hproper
  have hret := dfsNormalizePath_returns hfull hnul
  have hsame : dfsNormalizePath true wd (some wd) f = .ok (some n) := h
  rw [hsame, hcomp] at hret
  obtain ⟨out, hout, hw⟩ | ⟨-, ⟨-, stack, hw⟩ | ⟨-, hw⟩⟩ := walk_true [] (requested (some wd) f)
  · rw [hw] at hret
    obtain ⟨s, hs, hchars⟩ := hret
    rw [Option.some.inj (Except.ok.inj hs)]
    exact .inl (CString.normal_iff.mpr ⟨out, hchars, properName_of_resolve hout⟩)
  · rw [hw] at hret
    cases stack with
    | nil => cases hret
    | cons c cs =>
        obtain ⟨s, hs, hhead⟩ := hret
        rw [Option.some.inj (Except.ok.inj hs)]
        exact .inr hhead
  · rw [hw] at hret
    cases hret

/-- A normal path is its own normal form. -/
theorem normalize_normal (wd : CString) (hn : n.Normal) :
    dfsNormalizePath true wd none n = .ok (some n) := by
  obtain ⟨cs, hcs, hnames⟩ := CString.normal_iff.mp hn
  obtain ⟨t, ht⟩ := head_render '/' cs
  have habs : n.Absolute := (absolute_iff n).mpr ⟨t, hcs.trans ht⟩
  have hreq : requested none n = cs := by
    rw [requested, if_pos habs, hcs]
    exact components_render fun c hc => (hnames c hc).1
  have hres : resolveNames [] (requested none n) = some cs := by
    rw [hreq]
    exact resolve_names fun c hc => (hnames c hc).2
  exact dfsNormalizePath_eq ⟨by simp, fun _ => habs⟩ hres hcs

end Lookup

/-! ## `fd_is_open` -/

section Agree

variable {table : List Slot} {alloc alloc' : Bool} {wd path : CString} {i : Nat} {m n : CString}
  {x : Mounted} {fds : List (Option OpenFile)}

theorem fdIsOpen_found (hn : dfsNormalizePath alloc wd none path = .ok (some n))
    (hfs : lookupFs table n = some (i, m, x)) :
    fdIsOpen table fds alloc wd path =
      if some ⟨i, searchedPath m n⟩ ∈ fds then .ok 0 else .ok (-1) := by
  simp only [fdIsOpen, hn, bind, Except.bind, hfs]

theorem fdIsOpen_none (hn : dfsNormalizePath alloc wd none path = .ok (some n))
    (hfs : lookupFs table n = none) : fdIsOpen table fds alloc wd path = .ok (-1) := by
  simp only [fdIsOpen, hn, bind, Except.bind, hfs]

theorem fdIsOpen_null (hn : dfsNormalizePath alloc wd none path = .ok none) :
    fdIsOpen table fds alloc wd path = .ok (-1) := by
  simp only [fdIsOpen, hn, bind, Except.bind]

theorem fdIsOpen_error {e : Fault} (hn : dfsNormalizePath alloc wd none path = .error e) :
    fdIsOpen table fds alloc wd path = .error e := by
  simp only [fdIsOpen, hn, bind, Except.bind]

/-- What a descriptor keeps. -/
theorem Descriptor.spec (d : Descriptor table) (ht : NormalMounts table) :
    d.name.Normal ∧ ∃ m x, lookupFs table d.name = some (d.file.fs, m, x) ∧
      d.file.path = storedPath x m d.name := by
  obtain ⟨c, hwd, hopen, hname⟩ := d.opened
  have hnormal := normal_or_unrooted hwd hname
  unfold dfsFileOpen at hopen
  cases halloc : c.alloc with
  | false =>
      rw [halloc] at hopen
      cases hopen
  | true =>
      simp only [halloc, hname, bind, Except.bind] at hopen
      cases hfs : lookupFs table d.name with
      | none =>
          rw [hfs] at hopen
          cases hopen
      | some y =>
          obtain ⟨i, m, x⟩ := y
          rw [hfs] at hopen
          have hn : d.name.Normal := by
            refine hnormal.resolve_right fun h => ?_
            rw [lookupFs_unrooted ht h] at hfs
            cases hfs
          refine ⟨hn, m, x, ?_⟩
          unfold openIn at hopen
          cases hres : c.fopsOpen with
          | none =>
              rw [hres] at hopen
              cases hopen
          | some r =>
              rw [hres] at hopen
              simp only at hopen
              split_ifs at hopen
              · cases hopen
              · rw [← Except.ok.inj (Except.ok.inj hopen)]
                exact ⟨rfl, rfl⟩

/-- A normal path under a file system can be opened. -/
def openedAt (hn : n.Normal) (hfs : lookupFs table n = some (i, m, x)) : Descriptor table where
  file := ⟨i, storedPath x m n⟩
  name := n
  opened := by
    have habs : rootDirectory.Absolute := by decide
    refine ⟨⟨rootDirectory, true, n, true, some 0⟩, habs, ?_, normalize_normal _ hn⟩
    simp only [dfsFileOpen, normalize_normal _ hn, bind, Except.bind, hfs, openIn]
    simp

theorem mem_files {table : List Slot} {fds : List (Option (Descriptor table))} {f : OpenFile} :
    some f ∈ files fds ↔ ∃ d, some d ∈ fds ∧ d.file = f := by
  unfold files
  simp only [List.mem_map, Option.map_eq_some_iff]
  constructor
  · rintro ⟨o, ho, d, rfl, hd⟩
    exact ⟨d, ho, hd⟩
  · rintro ⟨d, hd, hf⟩
    exact ⟨some d, hd, d, rfl, hf⟩

/-- Under the condition, what `fd_is_open` looks for is open. -/
theorem found_iff_open {table : List Slot} (ht : NormalMounts table)
    (fds : List (Option (Descriptor table))) (hn : dfsNormalizePath true wd none path = .ok (some n))
    (hnormal : n.Normal) (hfs : lookupFs table n = some (i, m, x))
    (h : m.chars = ['/'] ∨ x.ops.fullPath = false ∧ m ≠ n) :
    some ⟨i, searchedPath m n⟩ ∈ files fds ↔ IsOpen fds wd path := by
  obtain ⟨hslot, hm, hcov⟩ := lookupFs_covers ht hnormal hfs
  rw [mem_files]
  constructor
  · rintro ⟨d, hd, hfile⟩
    obtain ⟨hdn, m', x', hfs', hpath⟩ := d.spec ht
    obtain ⟨hslot', -, hcov'⟩ := lookupFs_covers ht hdn hfs'
    rw [hfile] at hfs' hslot' hpath
    -- the same slot has the same file system
    obtain ⟨hm', hx'⟩ := Filesystem.mk.inj (Option.some.inj (hslot.symm.trans hslot'))
    obtain rfl : m = m' := Option.some.inj hm'
    obtain rfl : x = x' := Option.some.inj hx'
    obtain rfl : d.name = n :=
      (stored_eq_searched hm hnormal hdn hcov hcov' h).mp hpath.symm
    exact ⟨d, hd, hn, m, x, by rw [hfile]; exact hfs⟩
  · rintro ⟨d, hd, hname, -⟩
    obtain rfl : n = d.name := Option.some.inj (Except.ok.inj (hn.symm.trans hname))
    obtain ⟨-, m', x', hfs', hpath⟩ := d.spec ht
    rw [hfs] at hfs'
    obtain ⟨rfl, h'⟩ := Prod.mk.inj (Option.some.inj hfs')
    obtain ⟨rfl, rfl⟩ := Prod.mk.inj h'
    refine ⟨d, hd, ?_⟩
    have hsame := (stored_eq_searched hm hnormal hnormal hcov hcov h).mpr rfl
    rw [← hsame, ← hpath]

/-- Only paths under a file system are open. -/
theorem IsOpen.lookup {table : List Slot} {fds : List (Option (Descriptor table))}
    (ht : NormalMounts table) (h : IsOpen fds wd path) :
    ∃ n i m x, dfsNormalizePath true wd none path = .ok (some n) ∧ n.Normal ∧
      lookupFs table n = some (i, m, x) := by
  obtain ⟨d, -, hname, m, x, hfs⟩ := h
  exact ⟨d.name, _, m, x, hname, (d.spec ht).1, hfs⟩

theorem dfsFileUnlink_found (hn : dfsNormalizePath true wd none path = .ok (some n))
    (hfs : lookupFs table n = some (i, m, x)) {r : Int} (h : fdIsOpen table fds alloc' wd n = .ok r) :
    dfsFileUnlink table fds true alloc' wd path = .ok (unlinkIn m n x r) := by
  simp only [dfsFileUnlink, hn, bind, Except.bind, hfs, h]

/-- The condition is enough. -/
theorem KeysAgree.keeps (ht : NormalMounts table) (hwd : wd.Absolute)
    (h : KeysAgree table alloc alloc' wd path) : KeepsOpenFiles table alloc alloc' wd path := by
  intro fds
  constructor
  · cases hn : dfsNormalizePath alloc wd none path with
    | error e =>
        cases alloc with
        | false => cases hn
        | true => exact absurd hn (h.inside rfl e)
    | ok fullpath =>
        cases fullpath with
        | none =>
            refine ⟨-1, fdIsOpen_null hn, iff_of_false (by decide) fun hopen => ?_⟩
            obtain ⟨n, i, m, x, hn', -, hfs⟩ := hopen.lookup ht
            obtain ⟨rfl, -⟩ := h.keys n i m x hn' hfs
            rw [hn] at hn'
            cases hn'
        | some n =>
            have hn' := MountState.names_of_normalize hn
            cases hfs : lookupFs table n with
            | none =>
                refine ⟨-1, fdIsOpen_none hn hfs, iff_of_false (by decide) fun hopen => ?_⟩
                obtain ⟨n', i, m, x, hn'', -, hfs'⟩ := hopen.lookup ht
                obtain rfl : n' = n := Option.some.inj (Except.ok.inj (hn''.symm.trans hn'))
                rw [hfs] at hfs'
                cases hfs'
            | some y =>
                obtain ⟨i, m, x⟩ := y
                have hnormal : n.Normal := by
                  refine (normal_or_unrooted hwd hn').resolve_right fun hh => ?_
                  rw [lookupFs_unrooted ht hh] at hfs
                  cases hfs
                obtain ⟨-, -, hkeys⟩ := h.keys n i m x hn' hfs
                have hiff := found_iff_open ht fds hn' hnormal hfs hkeys
                rw [fdIsOpen_found hn hfs]
                split_ifs with hmem
                · exact ⟨0, rfl, iff_of_true rfl (hiff.mp hmem)⟩
                · exact ⟨-1, rfl, iff_of_false (by decide) fun hopen => hmem (hiff.mpr hopen)⟩
  · intro hopen
    obtain ⟨n, i, m, x, hn, hnormal, hfs⟩ := hopen.lookup ht
    obtain ⟨rfl, rfl, hkeys⟩ := h.keys n i m x hn hfs
    have hmem := (found_iff_open ht fds hn hnormal hfs hkeys).mpr hopen
    have hisOpen : fdIsOpen table (files fds) true wd n = .ok 0 := by
      rw [fdIsOpen_found (normalize_normal wd hnormal) hfs, if_pos hmem]
    rw [dfsFileUnlink_found hn hfs hisOpen]
    rfl

/-- The condition is needed: at a path that breaks it an open file is not found. -/
theorem KeysAgree.of_keeps (ht : NormalMounts table) (hwd : wd.Absolute)
    (h : KeepsOpenFiles table alloc alloc' wd path) : KeysAgree table alloc alloc' wd path := by
  constructor
  · rintro rfl e he
    obtain ⟨⟨r, hr, -⟩, -⟩ := h []
    rw [fdIsOpen_error he] at hr
    cases hr
  · intro n i m x hn hfs
    have hnormal : n.Normal := by
      refine (normal_or_unrooted hwd hn).resolve_right fun hh => ?_
      rw [lookupFs_unrooted ht hh] at hfs
      cases hfs
    obtain ⟨-, hm, hcov⟩ := lookupFs_covers ht hnormal hfs
    -- the file itself is open
    have hopen : IsOpen [some (openedAt hnormal hfs)] wd path :=
      ⟨openedAt hnormal hfs, List.mem_cons_self, hn, m, x, hfs⟩
    obtain ⟨⟨r, hr, hiff⟩, hunlink⟩ := h [some (openedAt hnormal hfs)]
    have hzero : r = 0 := hiff.mpr hopen
    have hbusy := hunlink hopen
    cases alloc with
    | false =>
        rw [fdIsOpen_null rfl] at hr
        rw [← Except.ok.inj hr] at hzero
        exact absurd hzero (by decide)
    | true =>
        refine ⟨rfl, ?_, ?_⟩
        · cases alloc' with
          | true => rfl
          | false =>
              rw [dfsFileUnlink_found hn hfs (fdIsOpen_null rfl)] at hbusy
              have herr := Except.ok.inj hbusy
              unfold unlinkIn at herr
              rw [if_neg (by decide)] at herr
              split_ifs at herr
              cases herr
        · by_contra hkeys
          rw [fdIsOpen_found hn hfs] at hr
          have hne : some (⟨i, searchedPath m n⟩ : OpenFile) ∉ files [some (openedAt hnormal hfs)] := by
            intro hmem
            obtain ⟨d, hd, hfile⟩ := mem_files.mp hmem
            obtain rfl : d = openedAt hnormal hfs := Option.some.inj (List.mem_singleton.mp hd)
            exact stored_ne_searched hm hnormal hcov hkeys (OpenFile.mk.inj hfile).2
          rw [if_neg hne] at hr
          rw [← Except.ok.inj hr] at hzero
          exact absurd hzero (by decide)

/-- **`fd_is_open` finds exactly what is open**, and an open file is not unlinked, exactly where the paths
of `dfs_file_open` and `fd_is_open` agree. -/
theorem keeps_open_files_iff (ht : NormalMounts table) (hwd : wd.Absolute) :
    KeepsOpenFiles table alloc alloc' wd path ↔ KeysAgree table alloc alloc' wd path :=
  ⟨KeysAgree.of_keeps ht hwd, fun h => h.keeps ht hwd⟩

end Agree

section Cases

/-- The root and `/a`. -/
def rootAndA : List Slot := (MountState.mountedAt [some rootDirectory, some MountState.dirA]).table

theorem normal_rootAndA : NormalMounts rootAndA := by
  intro e he m hm
  obtain rfl | he := List.mem_cons.mp he
  · cases hm
    exact normal_of_names [] rfl (by decide)
  · obtain rfl := List.mem_singleton.mp he
    cases hm
    exact normal_of_names [['a']] rfl (by decide)

theorem keeps_open_files_below :
    KeepsOpenFiles rootAndA true true rootDirectory MountState.dirAB := by
  refine (keeps_open_files_iff normal_rootAndA (by decide)).mpr ⟨fun _ e he => ?_, ?_⟩
  · cases he
  · intro n i m x hn hfs
    obtain rfl : MountState.dirAB = n := Option.some.inj (Except.ok.inj hn)
    have hlookup : lookupFs rootAndA MountState.dirAB =
        some (1, MountState.dirA, ⟨MountState.ram, none⟩) := rfl
    rw [hlookup] at hfs
    cases hfs
    exact ⟨rfl, rfl, .inr ⟨rfl, by decide⟩⟩

/-- The directory `/a` is open, is not found, and the file system at `/a` is asked to remove its root. -/
theorem unlinks_open_mount_point :
    ∃ d : Descriptor rootAndA, IsOpen [some d] rootDirectory MountState.dirA ∧
      fdIsOpen rootAndA (files [some d]) true rootDirectory MountState.dirA = .ok (-1) ∧
      dfsFileUnlink rootAndA (files [some d]) true true rootDirectory MountState.dirA =
        .ok (.ok rootDirectory) := by
  have hlookup : lookupFs rootAndA MountState.dirA =
      some (1, MountState.dirA, ⟨MountState.ram, none⟩) := rfl
  have hnormal : MountState.dirA.Normal := normal_of_names [['a']] rfl (by decide)
  exact ⟨openedAt hnormal hlookup, ⟨_, List.mem_cons_self, rfl, _, _, hlookup⟩, rfl, rfl⟩

end Cases

end RTThread.Dfs
