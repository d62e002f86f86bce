import RTThread.Dfs.OpenFiles

set_option autoImplicit false

/-! # The names of a ramfs (`dfs_ramfs.c`, `dfs_file.c`)

The directory entries of a ramfs are in one list, whatever their paths; an entry has the path below the
mount point, without its slash, in a field of `RAMFS_NAME_MAX` characters. A file is known by the address
of its entry. What is read behind the field, and what follows after the root itself was removed, is
undefined: it is the result `none`.
-/

namespace RTThread.Dfs

open Paths
open Trans (Reachable)

def RAMFS_NAME_MAX : Nat := 32

/-- The field `name` of `struct ramfs_dirent`, and the address of the entry. -/
structure RamfsDirent where
  name : List Char
  file : Nat
  deriving DecidableEq

/-- `strncpy(name, src, RAMFS_NAME_MAX)`. -/
def nameField (src : List Char) : List Char :=
  src.take RAMFS_NAME_MAX ++ List.replicate (RAMFS_NAME_MAX - src.length) '\x00'

/-- `rt_strcmp(name, t) == 0` for the characters of a field. -/
def strcmpField : List Char → List Char → Option Bool
  | [], _ => none
  | c :: s, t =>
      if c = '\x00' then some (t.headD '\x00' = '\x00')
      else if c = t.headD '\x00' then strcmpField s t.tail
      else some false

/-- The loop of `dfs_ramfs_lookup`. -/
def scanEntries (subpath : List Char) : List RamfsDirent → Option (Option Nat)
  | [] => some none
  | dirent :: l => do
      if ← strcmpField dirent.name subpath then some (some dirent.file) else scanEntries subpath l

inductive LookupResult
  | root | missing
  | entry (file : Nat)
  deriving DecidableEq

/-- `dfs_ramfs_lookup`. -/
def ramfsLookup (entries : List RamfsDirent) (path : List Char) : Option LookupResult :=
  let subpath := path.dropWhile (· = '/')
  -- is root directory
  if subpath = [] then some .root
  else (scanEntries subpath entries).map fun r => r.elim .missing .entry

inductive DirAnswer
  | failed | done | root
  | file (f : Nat)
  deriving DecidableEq

/-- `dfs_ramfs_open`; `alloc` is the address of a new entry, if there is memory for one. -/
def ramfsOpenEntry (entries : List RamfsDirent) (path : List Char) (directory creat wronly : Bool)
    (alloc : Option Nat) : Option (DirAnswer × List RamfsDirent) :=
  if directory then
    if creat then some (.failed, entries)
    else do
      match ← ramfsLookup entries path with
      | .missing => some (.failed, entries)
      | .root => some (.root, entries)
      | .entry f => some (.file f, entries)
  else do
    match ← ramfsLookup entries path with
    -- it's root directory
    | .root => some (.failed, entries)
    | .entry f => some (.file f, entries)
    | .missing =>
        if creat || wronly then
          match alloc with
          | none => some (.failed, entries)
          -- create a file entry, remove '/' separator, add to the root directory
          | some f => some (.file f, ⟨nameField (path.dropWhile (· = '/')), f⟩ :: entries)
        else some (.failed, entries)

/-- `dfs_ramfs_unlink`. -/
def ramfsUnlink (entries : List RamfsDirent) (path : List Char) :
    Option (DirAnswer × List RamfsDirent) := do
  match ← ramfsLookup entries path with
  | .missing => some (.failed, entries)
  -- the list of the root is taken apart, and the root freed
  | .root => none
  | .entry f => some (.done, entries.filter fun dirent => decide (dirent.file ≠ f))

/-- `dfs_ramfs_rename`. -/
def ramfsRename (entries : List RamfsDirent) (oldpath newpath : List Char) :
    Option (DirAnswer × List RamfsDirent) := do
  match ← ramfsLookup entries newpath with
  | .root => some (.failed, entries)
  | .entry _ => some (.failed, entries)
  | .missing =>
      match ← ramfsLookup entries oldpath with
      | .missing => some (.failed, entries)
      -- the name of the root changes
      | .root => some (.done, entries)
      | .entry f => some (.done, entries.map fun dirent =>
          if dirent.file = f then { dirent with name := nameField newpath } else dirent)

/-! ## Calls with a path -/

/-- A path in normal form under the mount path. -/
structure Under (m : CString) where
  path : CString
  normal : path.Normal
  covers : Covers m path

/-- `dfs_subdir`, the pointer as the characters it points to. -/
def subdir (m path : CString) : Option (List Char) :=
  (dfsSubdir m path).map fun off => path.chars.drop off

/-- The calls for one ramfs mounted at `m`; `busy` is what `fd_is_open` says. -/
inductive DirAction (m : CString)
  | opens (n : Under m) (directory creat wronly : Bool) (alloc : Option Nat)
  | unlink (n : Under m) (busy : Bool)
  | rename (old new : Under m)
  | stat (n : Under m)

namespace RamfsDir

variable {m : CString}

/-- `dfs_file_open`, `dfs_file_unlink`, `dfs_file_rename` and `dfs_file_stat`. -/
def exec (entries : List RamfsDirent) : DirAction m → Option (DirAnswer × List RamfsDirent)
  | .opens n directory creat wronly alloc =>
      ramfsOpenEntry entries ((subdir m n.path).getD ['/']) directory creat wronly alloc
  | .unlink n busy =>
      if busy then some (.failed, entries) else ramfsUnlink entries ((subdir m n.path).getD ['/'])
  | .rename old new => do
      -- `NULL` is handed to the file system
      let oldpath ← subdir m old.path
      let newpath ← subdir m new.path
      ramfsRename entries oldpath newpath
  | .stat n =>
      if n.path.chars = ['/'] then some (.root, entries)
      else
        match subdir m n.path with
        | none => some (.root, entries)
        | some path => do
            match ← ramfsLookup entries path with
            | .missing => some (.failed, entries)
            | .root => some (.root, entries)
            | .entry f => some (.file f, entries)

/-- The name of a path below the mount point. -/
def nameOf (n : Under m) : List Char := ((subdir m n.path).getD ['/']).dropWhile (· = '/')

/-- The file at a path. -/
def dir (m : CString) (entries : List RamfsDirent) (n : Under m) : Option Nat :=
  (entries.find? fun e => decide (e.name = nameField (nameOf n))).map RamfsDirent.file

/-- The allocator returns memory that is not in use. -/
def Proper (entries : List RamfsDirent) : DirAction m → Prop
  | .opens _ _ _ _ alloc => ∀ f ∈ alloc, ∀ e ∈ entries, e.file ≠ f
  | _ => True

/-- A new name has a terminator in its field, only what is below the mount point is removed or renamed,
and the rename fails. -/
def Careful (entries : List RamfsDirent) : DirAction m → Prop
  | .opens n directory creat wronly alloc =>
      directory = false → creat = true ∨ wronly = true → alloc ≠ none → dir m entries n = none →
        (nameOf n).length < RAMFS_NAME_MAX
  | .unlink n busy => busy = true ∨ n.path ≠ m
  | .rename old new => old.path ≠ m ∧ new.path ≠ m ∧ (dir m entries new ≠ none ∨ dir m entries old = none)
  | .stat _ => True

def Step (entries : List RamfsDirent) (a : DirAction m) (entries' : List RamfsDirent) : Prop :=
  (∃ r, exec entries a = some (r, entries')) ∧ Proper entries a ∧ Careful entries a

end RamfsDir

/-! ## A map from paths to files -/

section Spec

variable {m : CString}

/-- The map, with another value at a path. -/
def mapSet (d : Under m → Option Nat) (n : Under m) (v : Option Nat) : Under m → Option Nat := fun k =>
  if k.path = n.path then v else d k

/-- What a call may answer, and the map after it; the mount point itself is the root. -/
def DirStep (d : Under m → Option Nat) (a : DirAction m) (r : DirAnswer)
    (d' : Under m → Option Nat) : Prop :=
  match a with
  | .opens n directory creat wronly alloc =>
      -- a directory is not created, and only the mount point is one
      (directory = true ∧ creat = true ∨ n.path = m ∧ directory = false) ∧ r = .failed ∧ d' = d ∨
      n.path = m ∧ directory = true ∧ r = .root ∧ d' = d ∨
      (∃ f, d n = some f ∧ r = .file f ∧ d' = d) ∨
      n.path ≠ m ∧ d n = none ∧
        ((directory = true ∨ creat = false ∧ wronly = false ∨ alloc = none) ∧ r = .failed ∧ d' = d ∨
          ∃ f, alloc = some f ∧ (∀ k, d k ≠ some f) ∧ r = .file f ∧ d' = mapSet d n (some f))
  | .unlink n busy =>
      (busy = true ∨ d n = none) ∧ r = .failed ∧ d' = d ∨
      d n ≠ none ∧ r = .done ∧ d' = mapSet d n none
  | .rename old new =>
      (d new ≠ none ∨ d old = none) ∧ r = .failed ∧ d' = d ∨
      d new = none ∧ d old ≠ none ∧ r = .done ∧ d' = mapSet (mapSet d old none) new (d old)
  | .stat n => d' = d ∧
      (n.path = m ∧ r = .root ∨ n.path ≠ m ∧ r = (d n).elim .failed .file)

end Spec

/-! ## Names in fields -/

section Field

variable {c t : List Char} {entries : List RamfsDirent}

/-- A name with its terminator compares as a string. -/
theorem strcmpField_eq (k : Nat) (hc : '\x00' ∉ c) (ht : '\x00' ∉ t) :
    strcmpField (c ++ List.replicate (k + 1) '\x00') t = some (decide (c = t)) := by
  induction c generalizing t with
  | nil =>
      rw [List.nil_append, List.replicate_succ, strcmpField, if_pos rfl]
      cases t with
      | nil => rfl
      | cons x t =>
          have hx : x ≠ '\x00' := fun h => ht (h ▸ List.mem_cons_self)
          simp [hx]
  | cons a c ih =>
      have ha : a ≠ '\x00' := fun h => hc (h ▸ List.mem_cons_self)
      have hc' : '\x00' ∉ c := fun h => hc (List.mem_cons_of_mem _ h)
      rw [List.cons_append, strcmpField, if_neg ha]
      cases t with
      | nil => simp [ha]
      | cons x t =>
          have ht' : '\x00' ∉ t := fun h => ht (List.mem_cons_of_mem _ h)
          by_cases hax : a = x
          · subst hax
            rw [List.headD_cons, if_pos rfl, List.tail_cons, ih hc' ht']
            simp
          · rw [List.headD_cons, if_neg hax]
            simp [hax]

/-- A short name is followed by a terminator in its field. -/
theorem nameField_short (h : c.length < RAMFS_NAME_MAX) :
    nameField c = c ++ List.replicate (RAMFS_NAME_MAX - c.length - 1 + 1) '\x00' := by
  have hlen : RAMFS_NAME_MAX - c.length - 1 + 1 = RAMFS_NAME_MAX - c.length := by omega
  rw [nameField, List.take_of_length_le h.le, hlen]

theorem takeWhile_nameField (hc : '\x00' ∉ c) :
    (nameField c).takeWhile (· ≠ '\x00') = c.take RAMFS_NAME_MAX := by
  have hall : ∀ x ∈ c.take RAMFS_NAME_MAX, decide (x ≠ '\x00') = true := by
    intro x hx
    refine decide_eq_true fun h => hc ?_
    rw [← h]
    exact List.mem_of_mem_take hx
  rw [nameField, List.takeWhile_append_of_pos hall]
  cases RAMFS_NAME_MAX - c.length with
  | zero => simp
  | succ k => simp [List.replicate_succ]

/-- A short name is known by its field. -/
theorem nameField_inj (h : c.length < RAMFS_NAME_MAX) (hc : '\x00' ∉ c) (ht : '\x00' ∉ t) :
    nameField c = nameField t ↔ c = t := by
  refine ⟨fun he => ?_, fun he => by rw [he]⟩
  have htake := congrArg (List.takeWhile fun x => decide (x ≠ '\x00')) he
  rw [takeWhile_nameField hc, takeWhile_nameField ht, List.take_of_length_le h.le] at htake
  have hlen := congrArg List.length htake
  rw [List.length_take] at hlen
  rw [htake, List.take_of_length_le (by omega)]

/-- Every entry has a short name. -/
def Terminated (entries : List RamfsDirent) : Prop :=
  ∀ e ∈ entries, ∃ c : List Char, c.length < RAMFS_NAME_MAX ∧ '\x00' ∉ c ∧ e.name = nameField c

/-- **The scan finds the entry whose field is that of the name.** -/
theorem scanEntries_eq (h : Terminated entries) (ht : '\x00' ∉ t) :
    scanEntries t entries =
      some ((entries.find? fun e => decide (e.name = nameField t)).map RamfsDirent.file) := by
  induction entries with
  | nil => rfl
  | cons e l ih =>
      obtain ⟨c, hlen, hc, hname⟩ := h e List.mem_cons_self
      have hl : Terminated l := fun e' he' => h e' (List.mem_cons_of_mem _ he')
      have hcmp : strcmpField e.name t = some (decide (c = t)) := by
        rw [hname, nameField_short hlen]
        exact strcmpField_eq _ hc ht
      have hiff : (e.name = nameField t) ↔ c = t := by rw [hname, nameField_inj hlen hc ht]
      rw [scanEntries, hcmp, List.find?_cons]
      by_cases heq : c = t
      · simp [heq, hiff.mpr heq]
      · simp [heq, hiff, ih hl]

end Field

/-! ## Paths below the mount point -/

namespace RamfsDir

section Names

variable {m : CString} {n n' : Under m}

theorem Under.ext_path (h : n.path = n'.path) : n = n' := by
  cases n
  cases n'
  cases h
  rfl

theorem subdir_mount (hm : m.Normal) (h : n.path = m) : subdir m n.path = none := by
  rw [subdir, (dfsSubdir_spec n.covers hm n.normal).1.mpr h.symm]
  rfl

/-- Below the mount point there is a path for the file system. -/
theorem subdir_below (hm : m.Normal) (h : n.path ≠ m) : ∃ t, subdir m n.path = some ('/' :: t) ∧
    components '/' n.path.chars = components '/' m.chars ++ components '/' t := by
  obtain ⟨hnone, hsome⟩ := dfsSubdir_spec n.covers hm n.normal
  cases hoff : dfsSubdir m n.path with
  | none => exact absurd (hnone.mp hoff).symm h
  | some off =>
      obtain ⟨hhead, happend⟩ := hsome off hoff
      obtain ⟨t, ht⟩ : ∃ t, n.path.chars.drop off = '/' :: t := by
        cases hdrop : n.path.chars.drop off with
        | nil =>
            rw [hdrop] at hhead
            cases hhead
        | cons x t =>
            rw [hdrop] at hhead
            exact ⟨t, by rw [Option.some.inj hhead]⟩
      refine ⟨t, by rw [subdir, hoff, Option.map_some, ht], ?_⟩
      rw [← happend, ht]
      split_ifs with hroot
      · rw [hroot]
        simp
      · exact components_append_cons _ _

theorem nameOf_mount (hm : m.Normal) (h : n.path = m) : nameOf n = [] := by
  rw [nameOf, subdir_mount hm h]
  rfl

/-- The names of a path are those of the mount path and those of its name. -/
theorem components_path (hm : m.Normal) : components '/' n.path.chars =
    components '/' m.chars ++ components '/' (nameOf n) := by
  by_cases h : n.path = m
  · rw [nameOf_mount hm h, h, components_nil, List.append_nil]
  · obtain ⟨t, ht, hcomp⟩ := subdir_below hm h
    rw [nameOf, ht, Option.getD_some, components_dropWhile, components_cons_sep, hcomp]

/-- Different paths have different names. -/
theorem nameOf_inj (hm : m.Normal) (h : nameOf n = nameOf n') : n.path = n'.path :=
  normal_ext n.normal n'.normal (by rw [components_path hm, components_path hm, h])

theorem nameOf_eq_nil (hm : m.Normal) : nameOf n = [] ↔ n.path = m := by
  refine ⟨fun h => ?_, nameOf_mount hm⟩
  refine normal_ext n.normal hm ?_
  rw [components_path hm, h, components_nil, List.append_nil]

theorem noNul_nameOf : '\x00' ∉ nameOf n := by
  unfold nameOf subdir
  intro h
  have hmem := (List.dropWhile_sublist _).subset h
  cases hoff : dfsSubdir m n.path with
  | none =>
      rw [hoff] at hmem
      simp at hmem
  | some off =>
      rw [hoff] at hmem
      exact n.path.noNul (List.mem_of_mem_drop hmem)

end Names

/-! ## The entries as a map -/

/-- Every entry has the short name of a path below the mount point, and no two entries have the same name
or the same address. -/
structure Inv (m : CString) (entries : List RamfsDirent) : Prop where
  named : ∀ e ∈ entries, ∃ n : Under m, n.path ≠ m ∧ (nameOf n).length < RAMFS_NAME_MAX ∧
    e.name = nameField (nameOf n)
  names : entries.Pairwise fun e e' => e.name ≠ e'.name
  files : entries.Pairwise fun e e' => e.file ≠ e'.file

section Map

variable {m : CString} {entries : List RamfsDirent} {n k : Under m} {f : Nat}

/-- In a list whose elements differ in `g`, equal `g` is equality. -/
theorem eq_of_pairwise {β : Type} {g : RamfsDirent → β} (h : entries.Pairwise fun e e' => g e ≠ g e')
    {e e' : RamfsDirent} (he : e ∈ entries) (he' : e' ∈ entries) (heq : g e = g e') : e = e' := by
  have hsymm : Std.Symm fun e e' : RamfsDirent => g e ≠ g e' := ⟨fun _ _ hne => hne.symm⟩
  by_contra hne
  exact h.forall he he' hne heq

theorem Inv.terminated (hi : Inv m entries) : Terminated entries := by
  intro e he
  obtain ⟨n, -, hlen, hname⟩ := hi.named e he
  exact ⟨nameOf n, hlen, noNul_nameOf, hname⟩

theorem Inv.dir_eq_some (hi : Inv m entries) :
    dir m entries n = some f ↔ ∃ e ∈ entries, e.name = nameField (nameOf n) ∧ e.file = f := by
  unfold dir
  rw [Option.map_eq_some_iff]
  constructor
  · rintro ⟨e, he, hf⟩
    have hname := List.find?_some he
    exact ⟨e, List.mem_of_find?_eq_some he, of_decide_eq_true hname, hf⟩
  · rintro ⟨e, he, hname, hf⟩
    refine ⟨e, ?_, hf⟩
    cases hfind : entries.find? fun e => decide (e.name = nameField (nameOf n)) with
    | none => exact absurd (decide_eq_true hname) (List.find?_eq_none.mp hfind e he)
    | some e' =>
        have he' := List.mem_of_find?_eq_some hfind
        have hname' := List.find?_some hfind
        rw [eq_of_pairwise hi.names he' he ((of_decide_eq_true hname').trans hname.symm)]

/-- A field stands for one path. -/
theorem Inv.path_of_name (hi : Inv m entries) (hm : m.Normal) {e : RamfsDirent} (he : e ∈ entries)
    (hn : e.name = nameField (nameOf n)) (hk : e.name = nameField (nameOf k)) : n.path = k.path := by
  obtain ⟨n₀, -, hlen, hname⟩ := hi.named e he
  have h₁ : nameOf n₀ = nameOf n :=
    (nameField_inj hlen noNul_nameOf noNul_nameOf).mp (hname.symm.trans hn)
  have h₂ : nameOf n₀ = nameOf k :=
    (nameField_inj hlen noNul_nameOf noNul_nameOf).mp (hname.symm.trans hk)
  exact nameOf_inj hm (h₁.symm.trans h₂)

/-- **What the lookup of a path finds.** -/
theorem Inv.lookup (hi : Inv m entries) (hm : m.Normal) (n : Under m) :
    ramfsLookup entries ((subdir m n.path).getD ['/']) =
      some (if n.path = m then .root else (dir m entries n).elim .missing .entry) := by
  unfold ramfsLookup
  by_cases h : n.path = m
  · rw [if_pos h]
    exact if_pos (nameOf_mount hm h)
  · have hne : nameOf n ≠ [] := fun hnil => h ((nameOf_eq_nil hm).mp hnil)
    rw [if_neg h]
    show (if nameOf n = [] then _ else Option.map _ (scanEntries (nameOf n) entries)) = _
    rw [if_neg hne, scanEntries_eq hi.terminated noNul_nameOf]
    rfl

/-- A new entry for a path that has none. -/
theorem Inv.create (hi : Inv m entries) (hm : m.Normal) (hn : n.path ≠ m)
    (hlen : (nameOf n).length < RAMFS_NAME_MAX) (hnone : dir m entries n = none)
    (hf : ∀ e ∈ entries, e.file ≠ f) :
    Inv m (⟨nameField (nameOf n), f⟩ :: entries) ∧
      dir m (⟨nameField (nameOf n), f⟩ :: entries) = mapSet (dir m entries) n (some f) := by
  have hnot : ∀ e ∈ entries, nameField (nameOf n) ≠ e.name := by
    intro e he hname
    have hsome := hi.dir_eq_some.mpr ⟨e, he, hname.symm, rfl⟩
    rw [hnone] at hsome
    cases hsome
  refine ⟨⟨fun e he => ?_, ?_, ?_⟩, ?_⟩
  · obtain rfl | he := List.mem_cons.mp he
    · exact ⟨n, hn, hlen, rfl⟩
    · exact hi.named e he
  · exact List.pairwise_cons.mpr ⟨hnot, hi.names⟩
  · exact List.pairwise_cons.mpr ⟨fun e he => (hf e he).symm, hi.files⟩
  · funext k
    unfold dir mapSet
    rw [List.find?_cons]
    have hiff : nameField (nameOf n) = nameField (nameOf k) ↔ k.path = n.path := by
      rw [nameField_inj hlen noNul_nameOf noNul_nameOf]
      refine ⟨fun h => nameOf_inj hm h.symm, fun h => ?_⟩
      rw [Under.ext_path h]
    by_cases h : k.path = n.path
    · rw [if_pos h]
      simp [hiff.mpr h]
    · rw [if_neg h]
      simp [hiff, h]

/-- An entry taken out of the list. -/
theorem Inv.remove (hi : Inv m entries) (hm : m.Normal) (h : dir m entries n = some f) :
    Inv m (entries.filter fun e => decide (e.file ≠ f)) ∧
      dir m (entries.filter fun e => decide (e.file ≠ f)) = mapSet (dir m entries) n none := by
  obtain ⟨e₀, he₀, hname₀, hf₀⟩ := hi.dir_eq_some.mp h
  have hsub := List.filter_sublist (p := fun e : RamfsDirent => decide (e.file ≠ f)) (l := entries)
  have hi' : Inv m (entries.filter fun e => decide (e.file ≠ f)) :=
    ⟨fun e he => hi.named e (hsub.subset he), hi.names.sublist hsub, hi.files.sublist hsub⟩
  refine ⟨hi', ?_⟩
  funext k
  refine Option.ext fun f' => ?_
  rw [hi'.dir_eq_some, mapSet]
  split_ifs with hk
  · refine iff_of_false ?_ (by simp)
    rintro ⟨e, he, hname, -⟩
    obtain ⟨hmem, hfile⟩ := List.mem_filter.mp he
    rw [Under.ext_path hk, ← hname₀] at hname
    rw [eq_of_pairwise hi.names hmem he₀ hname] at hfile
    exact of_decide_eq_true hfile hf₀
  · rw [hi.dir_eq_some]
    constructor
    · rintro ⟨e, he, hname, hf'⟩
      exact ⟨e, (List.mem_filter.mp he).1, hname, hf'⟩
    · rintro ⟨e, he, hname, hf'⟩
      refine ⟨e, List.mem_filter.mpr ⟨he, decide_eq_true fun hfile => ?_⟩, hname, hf'⟩
      rw [eq_of_pairwise hi.files he he₀ (hfile.trans hf₀.symm)] at hname
      exact hk (hi.path_of_name hm he₀ hname hname₀)

end Map

/-! ## Calls -/

section Calls

variable {m : CString} {entries : List RamfsDirent}

/-- `dfs_file_open`. -/
theorem Inv.opens (hi : Inv m entries) (hm : m.Normal) (n : Under m) (directory creat wronly : Bool)
    (alloc : Option Nat) (hp : Proper entries (.opens n directory creat wronly alloc))
    (hc : Careful entries (.opens n directory creat wronly alloc)) :
    ∃ r entries', exec entries (.opens n directory creat wronly alloc) = some (r, entries') ∧
      Inv m entries' ∧
      DirStep (dir m entries) (.opens n directory creat wronly alloc) r (dir m entries') := by
  have hlook := hi.lookup hm n
  have hexec : exec entries (.opens n directory creat wronly alloc) =
      ramfsOpenEntry entries ((subdir m n.path).getD ['/']) directory creat wronly alloc := rfl
  rw [hexec]
  unfold ramfsOpenEntry
  rw [hlook]
  by_cases hn : n.path = m
  · rw [if_pos hn]
    cases directory with
    | true =>
        cases creat with
        | true => exact ⟨_, _, rfl, hi, .inl ⟨.inl ⟨rfl, rfl⟩, rfl, rfl⟩⟩
        | false => exact ⟨_, _, rfl, hi, .inr (.inl ⟨hn, rfl, rfl, rfl⟩)⟩
    | false => exact ⟨_, _, rfl, hi, .inl ⟨.inr ⟨hn, rfl⟩, rfl, rfl⟩⟩
  · rw [if_neg hn]
    cases hd : dir m entries n with
    | some f =>
        cases directory with
        | true =>
            cases creat with
            | true => exact ⟨_, _, rfl, hi, .inl ⟨.inl ⟨rfl, rfl⟩, rfl, rfl⟩⟩
            | false => exact ⟨_, _, rfl, hi, .inr (.inr (.inl ⟨f, hd, rfl, rfl⟩))⟩
        | false => exact ⟨_, _, rfl, hi, .inr (.inr (.inl ⟨f, hd, rfl, rfl⟩))⟩
    | none =>
        cases directory with
        | true =>
            cases creat with
            | true => exact ⟨_, _, rfl, hi, .inl ⟨.inl ⟨rfl, rfl⟩, rfl, rfl⟩⟩
            | false => exact ⟨_, _, rfl, hi, .inr (.inr (.inr ⟨hn, hd, .inl ⟨.inl rfl, rfl, rfl⟩⟩))⟩
        | false =>
            cases hflags : creat || wronly with
            | false =>
                obtain ⟨rfl, rfl⟩ := Bool.or_eq_false_iff.mp hflags
                exact ⟨_, _, rfl, hi,
                  .inr (.inr (.inr ⟨hn, hd, .inl ⟨.inr (.inl ⟨rfl, rfl⟩), rfl, rfl⟩⟩))⟩
            | true =>
                cases alloc with
                | none =>
                    refine ⟨.failed, entries, ?_, hi,
                      .inr (.inr (.inr ⟨hn, hd, .inl ⟨.inr (.inr rfl), rfl, rfl⟩⟩))⟩
                    simp
                | some f =>
                    have hlen := hc rfl (Bool.or_eq_true_iff.mp hflags) (by simp) hd
                    have hfresh : ∀ e ∈ entries, e.file ≠ f := hp f rfl
                    obtain ⟨hi', hdir⟩ := hi.create hm hn hlen hd hfresh
                    refine ⟨.file f, ⟨nameField (nameOf n), f⟩ :: entries, ?_, hi',
                      .inr (.inr (.inr ⟨hn, hd, .inr ⟨f, rfl, fun k hk => ?_, rfl, hdir⟩⟩))⟩
                    · simp [nameOf]
                    · obtain ⟨e, he, -, hf⟩ := hi.dir_eq_some.mp hk
                      exact hfresh e he hf

/-- `dfs_file_unlink`. -/
theorem Inv.unlink (hi : Inv m entries) (hm : m.Normal) (n : Under m) (busy : Bool)
    (hc : Careful entries (.unlink n busy)) :
    ∃ r entries', exec entries (.unlink n busy) = some (r, entries') ∧ Inv m entries' ∧
      DirStep (dir m entries) (.unlink n busy) r (dir m entries') := by
  cases busy with
  | true => exact ⟨.failed, entries, rfl, hi, .inl ⟨.inl rfl, rfl, rfl⟩⟩
  | false =>
      have hn : n.path ≠ m := hc.resolve_left (by simp)
      have hlook := hi.lookup hm n
      rw [if_neg hn] at hlook
      have hexec : exec entries (.unlink n false) =
          ramfsUnlink entries ((subdir m n.path).getD ['/']) := rfl
      rw [hexec]
      unfold ramfsUnlink
      rw [hlook]
      cases hd : dir m entries n with
      | none => exact ⟨.failed, entries, rfl, hi, .inl ⟨.inr hd, rfl, rfl⟩⟩
      | some f =>
          obtain ⟨hi', hdir⟩ := hi.remove hm hd
          exact ⟨.done, _, rfl, hi', .inr ⟨by rw [hd]; simp, rfl, hdir⟩⟩

/-- The lookup of a path that `dfs_subdir` has a pointer for. -/
theorem Inv.lookup_below (hi : Inv m entries) (hm : m.Normal) {n : Under m} (hn : n.path ≠ m) :
    ∃ path, subdir m n.path = some path ∧
      ramfsLookup entries path = some ((dir m entries n).elim .missing .entry) := by
  obtain ⟨t, ht, -⟩ := subdir_below hm hn
  refine ⟨'/' :: t, ht, ?_⟩
  have hlook := hi.lookup hm n
  rw [if_neg hn, ht, Option.getD_some] at hlook
  exact hlook

/-- `dfs_file_rename`, where it fails. -/
theorem Inv.rename (hi : Inv m entries) (hm : m.Normal) (old new : Under m)
    (hc : Careful entries (.rename old new)) :
    ∃ r entries', exec entries (.rename old new) = some (r, entries') ∧ Inv m entries' ∧
      DirStep (dir m entries) (.rename old new) r (dir m entries') := by
  obtain ⟨hold, hnew, hfails⟩ := hc
  obtain ⟨oldpath, hop, hol⟩ := hi.lookup_below hm hold
  obtain ⟨newpath, hnp, hnl⟩ := hi.lookup_below hm hnew
  refine ⟨.failed, entries, ?_, hi, .inl ⟨hfails, rfl, rfl⟩⟩
  simp only [exec, hop, hnp, Option.bind_eq_bind, Option.bind_some, ramfsRename, hnl]
  cases hdn : dir m entries new with
  | some f => rfl
  | none =>
      have hdo : dir m entries old = none := hfails.resolve_left fun h => h hdn
      simp only [hol, hdo, Option.elim_none, Option.bind_some]

/-- `dfs_file_stat`. -/
theorem Inv.stat (hi : Inv m entries) (hm : m.Normal) (n : Under m) :
    ∃ r entries', exec entries (.stat n) = some (r, entries') ∧ Inv m entries' ∧
      DirStep (dir m entries) (.stat n) r (dir m entries') := by
  by_cases hn : n.path = m
  · refine ⟨.root, entries, ?_, hi, rfl, .inl ⟨hn, rfl⟩⟩
    simp only [exec, subdir_mount hm hn, ite_self]
  · have hroot : n.path.chars ≠ ['/'] := by
      intro h
      refine hn (normal_ext n.normal hm ?_)
      have hcomp := components_path (n := n) hm
      rw [h, components_cons_sep, components_nil] at hcomp
      rw [h, components_cons_sep, components_nil, (List.append_eq_nil_iff.mp hcomp.symm).1]
    obtain ⟨path, hp, hl⟩ := hi.lookup_below hm hn
    simp only [exec, if_neg hroot, hp, hl, Option.bind_eq_bind, Option.bind_some]
    cases hd : dir m entries n with
    | none => exact ⟨.failed, entries, rfl, hi, rfl, .inr ⟨hn, by rw [hd]; rfl⟩⟩
    | some f => exact ⟨.file f, entries, rfl, hi, rfl, .inr ⟨hn, by rw [hd]; rfl⟩⟩

/-- **One call** that meets the condition is defined, and does what it does to the map. -/
theorem Inv.exec (hi : Inv m entries) (hm : m.Normal) {a : DirAction m} (hp : Proper entries a)
    (hc : Careful entries a) : ∃ r entries', exec entries a = some (r, entries') ∧
      Inv m entries' ∧ DirStep (dir m entries) a r (dir m entries') := by
  cases a with
  | opens n directory creat wronly alloc => exact hi.opens hm n directory creat wronly alloc hp hc
  | unlink n busy => exact hi.unlink hm n busy hc
  | rename old new => exact hi.rename hm old new hc
  | stat n => exact hi.stat hm n

theorem Step.inv {entries' : List RamfsDirent} {a : DirAction m} (h : Step entries a entries')
    (hm : m.Normal) (hi : Inv m entries) : Inv m entries' := by
  obtain ⟨⟨r, hexec⟩, hp, hc⟩ := h
  obtain ⟨r', t, ht, hi', -⟩ := hi.exec hm hp hc
  rw [(Prod.mk.inj (Option.some.inj (hexec.symm.trans ht))).2]
  exact hi'

/-- **The names of a ramfs are a finite map** in every run of calls that meet the condition: no two entries
have one name, and every call is defined and answers and changes what the map says. -/
theorem ramfs_names (hm : m.Normal)
    (hr : Reachable (· = []) (fun s (a : DirAction m) s' => Step s a s') entries) :
    (entries.Pairwise fun e e' => e.name ≠ e'.name) ∧
      ∀ a : DirAction m, Proper entries a → Careful entries a →
        ∃ r entries', exec entries a = some (r, entries') ∧
          DirStep (dir m entries) a r (dir m entries') := by
  have hi : Inv m entries := by
    refine hr.invariant (I := fun s => Inv m s) ?_ fun s a s' _ hi h => Step.inv h hm hi
    rintro s rfl
    exact ⟨fun e he => absurd he List.not_mem_nil, List.Pairwise.nil, List.Pairwise.nil⟩
  refine ⟨hi.names, fun a hp hc => ?_⟩
  obtain ⟨r, entries', hexec, -, hstep⟩ := hi.exec hm hp hc
  exact ⟨r, entries', hexec, hstep⟩

end Calls

section Cases

theorem no_nul_a : '\x00' ∉ ['/', 'a'] := by decide

/-- `/a` in a ramfs mounted at `/`. -/
def pathA : Under rootDirectory where
  path := ⟨['/', 'a'], no_nul_a⟩
  normal := normal_of_names [['a']] rfl (by decide)
  covers := List.nil_prefix

/-- `/b` there. -/
def pathB : Under rootDirectory where
  path := ⟨['/', 'b'], by decide⟩
  normal := normal_of_names [['b']] rfl (by decide)
  covers := List.nil_prefix

/-- `/a` was created. -/
def entriesA : List RamfsDirent := [⟨nameField ['a'], 1⟩]

theorem reachable_entriesA : Reachable (· = [])
    (fun s (a : DirAction rootDirectory) s' => Step s a s') entriesA := by
  have h₀ : Reachable (· = []) (fun s (a : DirAction rootDirectory) s' => Step s a s') [] := .init rfl
  have h₁ : Step [] (.opens pathA false true false (some 1)) entriesA := by
    refine ⟨⟨.file 1, by decide +kernel⟩, fun _ _ _ he => absurd he List.not_mem_nil,
      fun _ _ _ _ => by decide +kernel⟩
  exact h₀.step h₁

theorem ramfs_names_stat : ∃ r entries', exec entriesA (.stat pathA) = some (r, entries') ∧
    DirStep (dir rootDirectory entriesA) (.stat pathA) r (dir rootDirectory entries') :=
  (ramfs_names (normal_of_names [] rfl (by decide)) reachable_entriesA).2 (.stat pathA) trivial trivial

/-- `/a` is renamed to `/b`, with success, and no file is found at `/b`. -/
theorem rename_loses_file :
    Reachable (· = []) (fun s (a : DirAction rootDirectory) s' => Step s a s') entriesA ∧
      dir rootDirectory entriesA pathA = some 1 ∧
      ∃ entries', exec entriesA (.rename pathA pathB) = some (.done, entries') ∧
        exec entries' (.stat pathB) = some (.failed, entries') := by
  exact ⟨reachable_entriesA, by decide +kernel, [⟨nameField ['/', 'b'], 1⟩], by decide +kernel,
    by decide +kernel⟩

end Cases

end RamfsDir

end RTThread.Dfs
