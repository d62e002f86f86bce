import RTThread.Dfs.Mount
import RTThread.Lib.Run

set_option autoImplicit false

/-! # Mounting and unmounting (`dfs_fs.c`)

`dfs_mount` claims a free slot of the table before it opens the device and calls the file system, and
clears it again where one of these fails. What the callbacks, `rt_device_find` and the allocation of the
path return is part of a call, as is the working directory. The fields `ops` and `dev_id` of a slot are
set together and cleared together, so they are one field here.
-/

namespace RTThread.Dfs

open Trans (Reachable)

/-- `struct dfs_filesystem_ops`: the name, the flag `DFS_FS_FLAG_FULLPATH`, and which of the callbacks
there are. -/
structure FsOps where
  name : CString
  fullPath : Bool
  mount : Bool
  unmount : Bool
  unlink : Bool

/-- What a slot has besides its path. -/
structure Mounted where
  ops : FsOps
  devId : Option Nat

abbrev Slot := Filesystem Mounted

/-- `memset(fs, 0, sizeof(struct dfs_filesystem))`. -/
def emptySlot : Slot := ⟨none, none⟩

/-- `filesystem_table`, and how often each device was opened and closed. -/
structure MountState where
  table : List Slot
  opened : Nat → Nat
  closed : Nat → Nat

namespace MountState

def setSlot (s : MountState) (i : Nat) (e : Slot) : MountState := { s with table := s.table.set i e }

/-- `rt_device_open`, where it succeeds. -/
def openDevice (s : MountState) (d : Nat) : MountState :=
  { s with opened := Function.update s.opened d (s.opened d + 1) }

/-- `rt_device_close`. -/
def closeDevice (s : MountState) (d : Nat) : MountState :=
  { s with closed := Function.update s.closed d (s.closed d + 1) }

end MountState

/-- A call of `dfs_mount`. `device` is nothing where `device_name` is `NULL`, and else what
`rt_device_find` returns; the last three say whether `dfs_file_open`, `rt_device_open` and the callback
`mount` succeed. -/
structure MountCall where
  workingDirectory : CString
  alloc : Bool
  device : Option (Option Nat)
  path : CString
  filesystemtype : CString
  openDirectory : Bool
  openDevice : Bool
  mount : Bool

/-- A call of `dfs_unmount`, and whether the callback `unmount` succeeds. -/
structure UnmountCall where
  workingDirectory : CString
  alloc : Bool
  specialfile : CString
  unmount : Bool

/-- The loop over the table, with the variable `fs`: nothing where the path is mounted. -/
def scanTable (path : CString) : List Slot → Nat → Option Nat → Option (Option Nat)
  | [], _, fs => some fs
  | iter :: l, i, fs =>
      -- check if it is an empty filesystem table entry
      if iter.ops.isNone then scanTable path l (i + 1) (fs.or (some i))
      -- check if the path is mounted
      else if iter.path = some path then none
      else scanTable path l (i + 1) fs

/-- From the entry of the slot on: open the device and call `mount`. -/
def activate (s : MountState) (c : MountCall) (i : Nat) (fullpath : CString) (m : Mounted) :
    Int × MountState :=
  let s₁ := s.setSlot i ⟨some fullpath, some m⟩
  match m.devId with
  | none => if c.mount then (0, s₁) else (-1, s₁.setSlot i emptySlot)
  | some d =>
      -- the underlying device has error, clear the entry
      if c.openDevice = false then (-1, s₁.setSlot i emptySlot)
      else if c.mount then (0, s₁.openDevice d)
      -- close device, clear the entry
      else (-1, ((s₁.openDevice d).closeDevice d).setSlot i emptySlot)

/-- With the full path: the directory is there, and a slot is free. -/
def mountAt (s : MountState) (c : MountCall) (ops : FsOps) (fullpath : CString) : Int × MountState :=
  if fullpath.chars ≠ ['/'] ∧ fullpath.chars ≠ ['/', 'd', 'e', 'v'] ∧ c.openDirectory = false then
    (-1, s)
  else
    match scanTable c.path s.table 0 none with
    -- the path is mounted
    | none => (-1, s)
    -- there is no space to mount this file system
    | some none => (-1, s)
    | some (some i) => activate s c i fullpath ⟨ops, c.device.join⟩

/-- `dfs_mount`; `opsTable` is `filesystem_operation_table`. -/
def dfsMount (opsTable : List (Option FsOps)) (s : MountState) (c : MountCall) :
    Except Fault (Int × MountState) :=
  -- no this device
  if c.device = some none then .ok (-1, s)
  else
    match opsTable.findSome? fun ops => ops.filter fun o => decide (o.name = c.filesystemtype) with
    -- can't find filesystem
    | none => .ok (-1, s)
    | some ops =>
        if ops.mount = false then .ok (-1, s)
        else do
          let fullpath ← dfsNormalizePath c.alloc c.workingDirectory none c.path
          -- not an abstract path
          .ok (fullpath.elim (-1, s) (mountAt s c ops))

/-- With the slot that `dfs_unmount` found. -/
def unmountSlot (s : MountState) (u : UnmountCall) (i : Nat) : Except Fault (Int × MountState) :=
  match (s.table[i]?).bind Filesystem.ops with
  -- `fs->ops` is `NULL`
  | none => .error .outside
  | some m =>
      if m.ops.unmount = false ∨ u.unmount = false then .ok (-1, s)
      -- close device, clear this entry
      else .ok (0, (m.devId.elim s s.closeDevice).setSlot i emptySlot)

/-- `dfs_unmount`. -/
def dfsUnmount (s : MountState) (u : UnmountCall) : Except Fault (Int × MountState) := do
  let fullpath ← dfsNormalizePath u.alloc u.workingDirectory none u.specialfile
  match fullpath with
  | none => .ok (-1, s)
  | some fullpath =>
      match s.table.findIdx? fun iter => decide (iter.path = some fullpath) with
      | none => .ok (-1, s)
      | some i => unmountSlot s u i

inductive MountAction
  | mount (c : MountCall)
  | unmount (u : UnmountCall)

namespace MountAction

def workingDirectory : MountAction → CString
  | mount c => c.workingDirectory
  | unmount u => u.workingDirectory

def path : MountAction → CString
  | mount c => c.path
  | unmount u => u.specialfile

/-- The normal form of the path of the call. -/
def Names (a : MountAction) (m : CString) : Prop :=
  dfsNormalizePath true a.workingDirectory none a.path = .ok (some m)

end MountAction

/-! ## The loop and the exits -/

section Cases

variable {opsTable : List (Option FsOps)} {s s' : MountState} {c : MountCall} {u : UnmountCall}
  {t : List Slot} {i j : Nat} {r : Int} {m p : CString}

/-- The slot that the loop finds is free, and no slot that is in use has the path. -/
theorem scanTable_some {fs : Option Nat} {k : Nat} (h : scanTable p t i fs = some (some k)) :
    (fs = some k ∨ ∃ j e, t[j]? = some e ∧ e.ops = none ∧ k = i + j) ∧
      ∀ e ∈ t, e.ops ≠ none → e.path ≠ some p := by
  induction t generalizing i fs with
  | nil => exact ⟨.inl (Option.some.inj h), fun e he => absurd he List.not_mem_nil⟩
  | cons iter t ih =>
      rw [scanTable] at h
      split_ifs at h with hfree hpath
      · obtain ⟨hk, hrest⟩ := ih h
        have hnone : iter.ops = none := Option.isNone_iff_eq_none.mp hfree
        constructor
        · obtain hk | ⟨j, e, hj, he, rfl⟩ := hk
          · cases fs with
            | none => exact .inr ⟨0, iter, rfl, hnone, (Option.some.inj hk).symm⟩
            | some k' => exact .inl hk
          · exact .inr ⟨j + 1, e, hj, he, by omega⟩
        · intro e he hops
          obtain rfl | he := List.mem_cons.mp he
          · exact absurd hnone hops
          · exact hrest e he hops
      · obtain ⟨hk, hrest⟩ := ih h
        constructor
        · obtain hk | ⟨j, e, hj, he, rfl⟩ := hk
          · exact .inl hk
          · exact .inr ⟨j + 1, e, hj, he, by omega⟩
        · intro e he hops
          obtain rfl | he := List.mem_cons.mp he
          · exact hpath
          · exact hrest e he hops

end Cases

namespace MountState

/-- The value returned, and the state after the call. -/
def exec (opsTable : List (Option FsOps)) (s : MountState) : MountAction → Except Fault (Int × MountState)
  | .mount c => dfsMount opsTable s c
  | .unmount u => dfsUnmount s u

/-- The table of `n` slots after `dfs_init`. -/
def init (n : Nat) : MountState := ⟨List.replicate n emptySlot, fun _ => 0, fun _ => 0⟩

/-- The working directory is absolute, and the path does not lead exactly one level above the root. -/
def Spelled (a : MountAction) : Prop :=
  a.workingDirectory.Absolute ∧ lowestLevel (requested (some a.workingDirectory) a.path) ≠ -1

/-- A path that is mounted is named to `dfs_mount` in its normal form. -/
def Canonical (s : MountState) : MountAction → Prop
  | .mount c => ∀ m, (MountAction.mount c).Names m → (∃ e ∈ s.table, e.path = some m) → c.path = m
  | .unmount _ => True

def Step (opsTable : List (Option FsOps)) (s : MountState) (a : MountAction) (s' : MountState) : Prop :=
  (∃ r, s.exec opsTable a = .ok (r, s')) ∧ Spelled a

def CanonicalStep (opsTable : List (Option FsOps)) (s : MountState) (a : MountAction)
    (s' : MountState) : Prop :=
  Step opsTable s a s' ∧ s.Canonical a

/-- A step in which no file system at a path that covers `p` is mounted or unmounted. -/
def QuietStep (opsTable : List (Option FsOps)) (p : CString) (s : MountState) (a : MountAction)
    (s' : MountState) : Prop :=
  CanonicalStep opsTable s a s' ∧ ∀ m, a.Names m → Covers m p → s.exec opsTable a = .ok (-1, s')

/-- The table is as it was, and each device was closed as often as it was opened. -/
def Unchanged (s s' : MountState) : Prop :=
  s'.table = s.table ∧ ∀ d, s'.opened d + s.closed d = s.opened d + s'.closed d

end MountState

/-! ## The calls -/

namespace MountState

variable {opsTable : List (Option FsOps)} {s s' : MountState} {a : MountAction} {c : MountCall}
  {u : UnmountCall} {t : List Slot} {i j : Nat} {r : Int} {m p : CString}

theorem Unchanged.refl (s : MountState) : Unchanged s s := ⟨rfl, fun _ => rfl⟩

/-- A slot that was claimed and cleared again. -/
theorem set_clear (hi : s.table[i]? = some emptySlot) (e : Slot) :
    (s.table.set i e).set i emptySlot = s.table := by
  obtain ⟨hlt, hget⟩ := List.getElem?_eq_some_iff.mp hi
  rw [List.set_set, ← hget, List.set_getElem_self]

/-- `activate` mounts in the free slot, or clears it again. -/
theorem activate_cases (hi : s.table[i]? = some emptySlot) (c : MountCall) (m : CString)
    (x : Mounted) :
    (∃ s', activate s c i m x = (-1, s') ∧ Unchanged s s') ∨
      ∃ s', activate s c i m x = (0, s') ∧ s'.table = s.table.set i ⟨some m, some x⟩ := by
  have hclear := set_clear hi ⟨some m, some x⟩
  unfold activate
  cases hdev : x.devId with
  | none =>
      simp only
      split_ifs with hmount
      · exact .inr ⟨_, rfl, rfl⟩
      · exact .inl ⟨_, rfl, hclear, fun _ => rfl⟩
  | some d =>
      simp only
      split_ifs with hopen hmount
      · exact .inl ⟨_, rfl, hclear, fun _ => rfl⟩
      · exact .inr ⟨_, rfl, rfl⟩
      · refine .inl ⟨_, rfl, hclear, fun d' => ?_⟩
        by_cases hd : d' = d
        · subst hd
          simp [setSlot, openDevice, closeDevice]
          omega
        · simp [setSlot, openDevice, closeDevice, hd]

/-- A slot without operations is clear. -/
def Whole (t : List Slot) : Prop := ∀ e ∈ t, e.ops = none → e = emptySlot

/-- Only the allocation makes a difference to the normal form. -/
theorem names_of_normalize {alloc : Bool} {wd : CString} {f : CString}
    (h : dfsNormalizePath alloc wd none f = .ok (some m)) :
    dfsNormalizePath true wd none f = .ok (some m) := by
  cases alloc with
  | true => exact h
  | false => cases h

/-- What `dfs_mount` can do with the full path. -/
theorem mountAt_cases (hw : Whole s.table) {ops : FsOps} (h : mountAt s c ops m = (r, s')) :
    (r = -1 ∧ Unchanged s s') ∨
      r = 0 ∧ ∃ x i, s.table[i]? = some emptySlot ∧ (∀ e ∈ s.table, e.path ≠ some c.path) ∧
        s'.table = s.table.set i ⟨some m, some x⟩ := by
  have hfail : (-1, s) = (r, s') → r = -1 ∧ Unchanged s s' := by
    rintro h
    obtain ⟨rfl, rfl⟩ := Prod.mk.inj h
    exact ⟨rfl, Unchanged.refl s⟩
  unfold mountAt at h
  split_ifs at h with hdir
  · exact .inl (hfail h)
  · cases hscan : scanTable c.path s.table 0 none with
    | none =>
        rw [hscan] at h
        exact .inl (hfail h)
    | some k =>
        rw [hscan] at h
        cases k with
        | none => exact .inl (hfail h)
        | some i =>
            obtain ⟨hk, hpath⟩ := scanTable_some hscan
            obtain ⟨j, e, hj, he, rfl⟩ := hk.resolve_left (by simp)
            have hfree : s.table[0 + j]? = some emptySlot := by
              rw [Nat.zero_add, hj, hw e (List.mem_of_getElem? hj) he]
            have hnot : ∀ e ∈ s.table, e.path ≠ some c.path := by
              intro e he hp
              refine hpath e he (fun hops => ?_) hp
              rw [hw e he hops] at hp
              cases hp
            obtain ⟨s₁, hact, hun⟩ | ⟨s₁, hact, ht⟩ :=
              activate_cases hfree c m ⟨ops, c.device.join⟩
            · obtain ⟨rfl, rfl⟩ := Prod.mk.inj (h.symm.trans hact)
              exact .inl ⟨rfl, hun⟩
            · obtain ⟨rfl, rfl⟩ := Prod.mk.inj (h.symm.trans hact)
              exact .inr ⟨rfl, _, _, hfree, hnot, ht⟩

/-- What `dfs_mount` can do: fail and change nothing, or mount at the normal form of its path. -/
theorem dfsMount_cases (hw : Whole s.table) (h : dfsMount opsTable s c = .ok (r, s')) :
    (r = -1 ∧ Unchanged s s') ∨
      r = 0 ∧ ∃ m x i, (MountAction.mount c).Names m ∧ s.table[i]? = some emptySlot ∧
        (∀ e ∈ s.table, e.path ≠ some c.path) ∧ s'.table = s.table.set i ⟨some m, some x⟩ := by
  have hfail : (Except.ok (-1, s) : Except Fault (Int × MountState)) = .ok (r, s') →
      r = -1 ∧ Unchanged s s' := by
    intro h
    obtain ⟨rfl, rfl⟩ := Prod.mk.inj (Except.ok.inj h)
    exact ⟨rfl, Unchanged.refl s⟩
  unfold dfsMount at h
  split_ifs at h with hdev
  · exact .inl (hfail h)
  split at h
  · exact .inl (hfail h)
  split_ifs at h with hops
  · exact .inl (hfail h)
  cases hn : dfsNormalizePath c.alloc c.workingDirectory none c.path with
  | error e =>
      rw [hn] at h
      cases h
  | ok m =>
      rw [hn] at h
      cases m with
      | none => exact .inl (hfail h)
      | some m =>
          obtain hun | ⟨hr, x, i, hrest⟩ := mountAt_cases hw (Except.ok.inj h)
          · exact .inl hun
          · exact .inr ⟨hr, m, x, i, names_of_normalize hn, hrest⟩

/-- What `dfs_unmount` can do: fail and change nothing, or clear the slot with the normal form of its
path. -/
theorem dfsUnmount_cases (h : dfsUnmount s u = .ok (r, s')) :
    (r = -1 ∧ Unchanged s s') ∨
      r = 0 ∧ ∃ m i e, (MountAction.unmount u).Names m ∧ s.table[i]? = some e ∧ e.path = some m ∧
        s'.table = s.table.set i emptySlot := by
  have hfail : (Except.ok (-1, s) : Except Fault (Int × MountState)) = .ok (r, s') →
      r = -1 ∧ Unchanged s s' := by
    intro h
    obtain ⟨rfl, rfl⟩ := Prod.mk.inj (Except.ok.inj h)
    exact ⟨rfl, Unchanged.refl s⟩
  unfold dfsUnmount at h
  cases hn : dfsNormalizePath u.alloc u.workingDirectory none u.specialfile with
  | error e =>
      rw [hn] at h
      cases h
  | ok m =>
      rw [hn] at h
      cases m with
      | none => exact .inl (hfail h)
      | some m =>
          cases hi : s.table.findIdx? fun iter => decide (iter.path = some m) with
          | none =>
              simp only [bind, Except.bind, hi] at h
              exact .inl (hfail h)
          | some i =>
              simp only [bind, Except.bind, hi, unmountSlot] at h
              obtain ⟨hlt, hp, -⟩ := List.findIdx?_eq_some_iff_getElem.mp hi
              have hget : s.table[i]? = some s.table[i] := List.getElem?_eq_getElem hlt
              split at h
              · cases h
              · next x hx =>
                  split_ifs at h with hun
                  · exact .inl (hfail h)
                  · obtain ⟨rfl, rfl⟩ := Prod.mk.inj (Except.ok.inj h)
                    refine .inr ⟨rfl, m, i, s.table[i], names_of_normalize hn, hget,
                      of_decide_eq_true hp, ?_⟩
                    cases x.devId <;> rfl

/-! ## Runs -/

/-- The normal form is a normal path. -/
theorem Names.normal (h : a.Names m) (ha : Spelled a) : m.Normal := by
  have hproper : Proper (some a.workingDirectory) a.path :=
    ⟨fun d hd => Option.some.inj hd ▸ ha.1, fun h => by cases h⟩
  have hnorm : Normalizes a.workingDirectory (some a.workingDirectory) a.path :=
    (normalizes_iff hproper).mpr ha.2
  have hn := hnorm true
  have hsame : dfsNormalizePath true a.workingDirectory (some a.workingDirectory) a.path =
      .ok (some m) := h
  rw [hsame] at hn
  obtain ⟨cs, -, -, hm, -⟩ := hn
  exact hm

/-- Every slot is whole, and its path normal. -/
structure Slots (t : List Slot) : Prop where
  whole : Whole t
  normal : ∀ e ∈ t, ∀ m, e.path = some m → m.Normal

/-- No path is mounted twice. -/
def Distinct (t : List Slot) : Prop :=
  ∀ (i j : Nat) (e e' : Slot) (m : CString), t[i]? = some e → t[j]? = some e' → e.path = some m → e'.path = some m → i = j

theorem mem_set {e e' : Slot} (h : e' ∈ t.set i e) : e' = e ∨ e' ∈ t := by
  obtain h | h := List.mem_or_eq_of_mem_set h
  · exact .inr h
  · exact .inl h

theorem Slots.set (h : Slots t) {e : Slot} (he : e.ops = none → e = emptySlot)
    (hm : ∀ m, e.path = some m → m.Normal) : Slots (t.set i e) := by
  refine ⟨fun e' he' => ?_, fun e' he' => ?_⟩
  · obtain rfl | he' := mem_set he'
    · exact he
    · exact h.whole e' he'
  · obtain rfl | he' := mem_set he'
    · exact hm
    · exact h.normal e' he'

/-- A successful call of `dfs_mount` or `dfs_unmount` sets one slot. -/
theorem exec_cases (hw : Whole s.table) (h : s.exec opsTable a = .ok (r, s')) :
    (r = -1 ∧ Unchanged s s') ∨
      r = 0 ∧ ∃ m i, a.Names m ∧
        ((∃ x, s.table[i]? = some emptySlot ∧ (∀ e ∈ s.table, e.path ≠ some a.path) ∧
            s'.table = s.table.set i ⟨some m, some x⟩) ∨
          ∃ e, s.table[i]? = some e ∧ e.path = some m ∧ s'.table = s.table.set i emptySlot) := by
  cases a with
  | mount c =>
      obtain hun | ⟨hr, m, x, i, hm, hi, hp, ht⟩ := dfsMount_cases hw h
      · exact .inl hun
      · exact .inr ⟨hr, m, i, hm, .inl ⟨x, hi, hp, ht⟩⟩
  | unmount u =>
      obtain hun | ⟨hr, m, i, e, hm, hi, he, ht⟩ := dfsUnmount_cases h
      · exact .inl hun
      · exact .inr ⟨hr, m, i, hm, .inr ⟨e, hi, he, ht⟩⟩

theorem Step.slots (h : Step opsTable s a s') (hs : Slots s.table) : Slots s'.table := by
  obtain ⟨⟨r, hexec⟩, hspell⟩ := h
  obtain ⟨-, hun, -⟩ | ⟨-, m, i, hm, ⟨x, -, -, ht⟩ | ⟨e, -, -, ht⟩⟩ := exec_cases hs.whole hexec
  · rw [hun]
    exact hs
  · rw [ht]
    refine hs.set (fun h => by cases h) fun m' hm' => ?_
    rw [← Option.some.inj hm']
    exact Names.normal hm hspell
  · rw [ht]
    exact hs.set (fun _ => rfl) fun m' hm' => by cases hm'

theorem Distinct.set_empty (h : Distinct t) : Distinct (t.set i emptySlot) := by
  have hold : ∀ {k : Nat} {e : Slot} {m : CString}, (t.set i emptySlot)[k]? = some e → e.path = some m →
      t[k]? = some e := by
    intro k e m hk he
    rw [List.getElem?_set] at hk
    split_ifs at hk
    · rw [← Option.some.inj hk] at he
      cases he
    · exact hk
  intro j k e e' m hj hk he he'
  exact h j k e e' m (hold hj he) (hold hk he') he he'

theorem Distinct.set_path (h : Distinct t) {x : Mounted} (hm : ∀ e ∈ t, e.path ≠ some m) :
    Distinct (t.set i ⟨some m, some x⟩) := by
  have hold : ∀ {k e m'}, (t.set i ⟨some m, some x⟩)[k]? = some e → e.path = some m' →
      (k = i ∧ m' = m) ∨ k ≠ i ∧ t[k]? = some e := by
    intro k e m' hk he
    rw [List.getElem?_set] at hk
    split_ifs at hk with hik hlt
    · rw [← Option.some.inj hk] at he
      exact .inl ⟨hik.symm, (Option.some.inj he).symm⟩
    · exact .inr ⟨fun h => hik h.symm, hk⟩
  intro j k e e' m' hj hk he he'
  obtain ⟨rfl, rfl⟩ | ⟨hji, hj'⟩ := hold hj he
  · obtain ⟨rfl, -⟩ | ⟨-, hk'⟩ := hold hk he'
    · rfl
    · exact absurd he' (hm e' (List.mem_of_getElem? hk'))
  · obtain ⟨rfl, rfl⟩ | ⟨-, hk'⟩ := hold hk he'
    · exact absurd he (hm e (List.mem_of_getElem? hj'))
    · exact h j k e e' m' hj' hk' he he'

theorem CanonicalStep.distinct (h : CanonicalStep opsTable s a s') (hs : Slots s.table)
    (hd : Distinct s.table) : Distinct s'.table := by
  obtain ⟨⟨⟨r, hexec⟩, -⟩, hcan⟩ := h
  cases a with
  | mount c =>
      obtain ⟨-, hun, -⟩ | ⟨-, m, x, i, hm, -, hp, ht⟩ := dfsMount_cases hs.whole hexec
      · rw [hun]
        exact hd
      · rw [ht]
        refine hd.set_path fun e he hem => ?_
        have hpath : c.path = m := hcan m hm ⟨e, he, hem⟩
        exact hp e he (hem.trans (congrArg some hpath.symm))
  | unmount u =>
      obtain ⟨-, hun, -⟩ | ⟨-, m, i, e, -, -, -, ht⟩ := dfsUnmount_cases hexec
      · rw [hun]
        exact hd
      · rw [ht]
        exact hd.set_empty

theorem init_slots (n : Nat) : Slots (init n).table := by
  have hall : ∀ e ∈ (init n).table, e = emptySlot := fun e he => List.eq_of_mem_replicate he
  refine ⟨fun e he _ => hall e he, fun e he m hm => ?_⟩
  rw [hall e he] at hm
  cases hm

theorem init_distinct (n : Nat) : Distinct (init n).table := by
  intro i j e e' m hi hj he
  rw [List.eq_of_mem_replicate (List.mem_of_getElem? hi)] at he
  cases he

theorem Slots.mountPath (h : Slots t) {e : Slot} (he : e ∈ t) :
    e.mountPath = some m ↔ e.path = some m := by
  unfold Filesystem.mountPath
  cases hops : e.ops with
  | none => rw [h.whole e he hops]; rfl
  | some x => rfl

/-- A table whose slots are whole, with no path twice, is one for the lookup. -/
theorem Slots.mountTable (h : Slots t) (hd : Distinct t) : MountTable t := by
  refine ⟨fun e he m hm => h.normal e he m ((h.mountPath he).mp hm), ?_⟩
  rw [List.pairwise_iff_getElem]
  intro i j hi hj hij m hm hm'
  have hei := (h.mountPath (List.getElem_mem hi)).mp hm
  have hej := (h.mountPath (List.getElem_mem hj)).mp hm'
  exact hij.ne (hd i j _ _ m (List.getElem?_eq_getElem hi) (List.getElem?_eq_getElem hj) hei hej)

/-- **The lookup depends only on the file systems whose paths cover the path.** -/
theorem lookup_congr {t t' : List Slot} (ht : MountTable t) (ht' : MountTable t') (hp : p.Normal)
    (h : ∀ e m, e.mountPath = some m → Covers m p → (e ∈ t ↔ e ∈ t')) :
    dfsFilesystemLookup t p = dfsFilesystemLookup t' p := by
  obtain ⟨hnone, hsome⟩ := lookup_longest ht hp
  obtain ⟨hnone', hsome'⟩ := lookup_longest ht' hp
  cases hl : dfsFilesystemLookup t p with
  | none =>
      refine (hnone'.mpr fun e he m hm hcov => ?_).symm
      exact hnone.mp hl e ((h e m hm hcov).mpr he) m hm hcov
  | some e =>
      obtain ⟨he, m, hm, hcov, hlong, -⟩ := hsome e hl
      have he' : e ∈ t' := (h e m hm hcov).mp he
      cases hl' : dfsFilesystemLookup t' p with
      | none => exact absurd hcov (hnone'.mp hl' e he' m hm)
      | some e' =>
          obtain ⟨hmem', m', hm', hcov', hlong', -⟩ := hsome' e' hl'
          have hmem : e' ∈ t := (h e' m' hm' hcov').mpr hmem'
          obtain hlt | rfl := hlong e' hmem m' hm' hcov'
          · obtain hlt' | rfl := hlong' e he' m hm hcov
            · omega
            · rfl
          · rfl

/-- After a slot is claimed, its file system is there besides the others. -/
theorem mem_set_empty_slot (hi : t[i]? = some emptySlot) {x e : Slot} (he : e ≠ emptySlot) :
    e ∈ t.set i x ↔ e = x ∨ e ∈ t := by
  obtain ⟨hlt, -⟩ := List.getElem?_eq_some_iff.mp hi
  refine ⟨mem_set, ?_⟩
  rintro (rfl | hmem)
  · exact List.mem_set hlt _
  · obtain ⟨j, hj⟩ := List.mem_iff_getElem?.mp hmem
    have hij : i ≠ j := by
      rintro rfl
      exact he (Option.some.inj (hj.symm.trans hi))
    refine List.mem_of_getElem? (i := j) ?_
    rw [List.getElem?_set, if_neg hij, hj]

/-- After a slot is cleared, the others are there. -/
theorem mem_clear_slot (hd : Distinct t) {x e : Slot} (hi : t[i]? = some x) (hx : x.path = some m)
    {m' : CString} (he : e.path = some m') : e ∈ t.set i emptySlot ↔ e ∈ t ∧ m' ≠ m := by
  constructor
  · intro hmem
    obtain ⟨j, hj⟩ := List.mem_iff_getElem?.mp hmem
    rw [List.getElem?_set] at hj
    split_ifs at hj with hij
    · rw [← Option.some.inj hj] at he
      cases he
    · refine ⟨List.mem_of_getElem? hj, ?_⟩
      rintro rfl
      exact hij (hd i j x e m' hi hj hx he)
  · rintro ⟨hmem, hne⟩
    obtain ⟨j, hj⟩ := List.mem_iff_getElem?.mp hmem
    have hij : i ≠ j := by
      rintro rfl
      rw [Option.some.inj (hj.symm.trans hi), hx] at he
      exact hne (Option.some.inj he).symm
    refine List.mem_of_getElem? (i := j) ?_
    rw [List.getElem?_set, if_neg hij, hj]

/-- A call with a path that is spelled so is defined. -/
theorem exec_defined (hs : Slots s.table) (ha : Spelled a) :
    ∃ r s', s.exec opsTable a = .ok (r, s') := by
  have hproper : Proper (some a.workingDirectory) a.path :=
    ⟨fun d hd => Option.some.inj hd ▸ ha.1, fun h => by cases h⟩
  have hn : Normalizes a.workingDirectory (some a.workingDirectory) a.path :=
    (normalizes_iff hproper).mpr ha.2
  have hok : ∀ alloc, ∃ m, dfsNormalizePath alloc a.workingDirectory none a.path = .ok m := by
    intro alloc
    have halloc := hn alloc
    have hsame : dfsNormalizePath alloc a.workingDirectory (some a.workingDirectory) a.path =
        dfsNormalizePath alloc a.workingDirectory none a.path := rfl
    rw [hsame] at halloc
    cases hres : dfsNormalizePath alloc a.workingDirectory none a.path with
    | ok m => exact ⟨m, rfl⟩
    | error e =>
        rw [hres] at halloc
        exact absurd halloc id
  cases a with
  | mount c =>
      obtain ⟨m, hm⟩ := hok c.alloc
      have hm' : dfsNormalizePath c.alloc c.workingDirectory none c.path = .ok m := hm
      show ∃ r s', dfsMount opsTable s c = .ok (r, s')
      unfold dfsMount
      split_ifs with hdev
      · exact ⟨_, _, rfl⟩
      split
      · exact ⟨_, _, rfl⟩
      split_ifs with hops
      · exact ⟨_, _, rfl⟩
      · rw [hm']
        exact ⟨_, _, rfl⟩
  | unmount u =>
      obtain ⟨m, hm⟩ := hok u.alloc
      have hm' : dfsNormalizePath u.alloc u.workingDirectory none u.specialfile = .ok m := hm
      show ∃ r s', dfsUnmount s u = .ok (r, s')
      unfold dfsUnmount
      rw [hm']
      cases m with
      | none => exact ⟨_, _, rfl⟩
      | some m =>
          cases hi : s.table.findIdx? fun iter => decide (iter.path = some m) with
          | none =>
              simp only [bind, Except.bind, hi]
              exact ⟨_, _, rfl⟩
          | some i =>
              simp only [bind, Except.bind, hi, unmountSlot]
              obtain ⟨hlt, hp, -⟩ := List.findIdx?_eq_some_iff_getElem.mp hi
              rw [List.getElem?_eq_getElem hlt, Option.bind_some]
              cases hops : (s.table[i]).ops with
              | none =>
                  have hempty := hs.whole _ (List.getElem_mem hlt) hops
                  rw [hempty] at hp
                  cases of_decide_eq_true hp
              | some x =>
                  simp only
                  split_ifs
                  · exact ⟨_, _, rfl⟩
                  · exact ⟨_, _, rfl⟩

theorem reachable_slots {n : Nat} (hr : Reachable (· = init n) (Step opsTable) s) : Slots s.table :=
  hr.invariant (fun _ h => h ▸ init_slots n) fun _ _ _ _ hs h => Step.slots h hs

theorem reachable_distinct {n : Nat} (hr : Reachable (· = init n) (CanonicalStep opsTable) s) :
    Slots s.table ∧ Distinct s.table := by
  refine hr.invariant (I := fun s => Slots s.table ∧ Distinct s.table) ?_ fun s a s' _ hs h => ?_
  · rintro s rfl
    exact ⟨init_slots n, init_distinct n⟩
  · exact ⟨Step.slots h.1 hs.1, CanonicalStep.distinct h hs.1 hs.2⟩

/-- The same file systems cover the path. -/
def SameCover (p : CString) (t t' : List Slot) : Prop :=
  ∀ (e : Slot) (m : CString), e.path = some m → Covers m p → (e ∈ t ↔ e ∈ t')

theorem QuietStep.cover (h : QuietStep opsTable p s a s') (hs : Slots s.table)
    (hd : Distinct s.table) : SameCover p s'.table s.table := by
  obtain ⟨⟨⟨⟨r, hexec⟩, -⟩, -⟩, hquiet⟩ := h
  obtain ⟨-, hun, -⟩ | ⟨rfl, m, i, hm, hcases⟩ := exec_cases hs.whole hexec
  · rw [hun]
    exact fun _ _ _ _ => Iff.rfl
  · have hno : ¬ Covers m p := by
      intro hcov
      have hfail := hexec.symm.trans (hquiet m hm hcov)
      have h01 : (0 : Int) = -1 := congrArg Prod.fst (Except.ok.inj hfail)
      omega
    intro e m' he hcov
    have hne : m' ≠ m := fun h => hno (h ▸ hcov)
    obtain ⟨x, hi, -, ht⟩ | ⟨e', hi, he', ht⟩ := hcases
    · have hempty : e ≠ emptySlot := by
        rintro rfl
        cases he
      rw [ht, mem_set_empty_slot hi hempty, or_iff_right]
      rintro rfl
      exact hne (Option.some.inj he).symm
    · rw [ht, mem_clear_slot hd hi he' he]
      exact and_iff_left hne

/-- The steps between a mount and its unmount keep what covers the path. -/
theorem quiet_cover {s₁ s₂ : MountState} (hs : Slots s₁.table) (hd : Distinct s₁.table)
    (hr : Reachable (· = s₁) (QuietStep opsTable p) s₂) :
    Slots s₂.table ∧ Distinct s₂.table ∧ SameCover p s₂.table s₁.table := by
  refine hr.invariant
    (I := fun s => Slots s.table ∧ Distinct s.table ∧ SameCover p s.table s₁.table) ?_
    fun s a s' _ ih h => ?_
  · rintro s rfl
    exact ⟨hs, hd, fun _ _ _ _ => Iff.rfl⟩
  · obtain ⟨hs', hd', hcov⟩ := ih
    refine ⟨Step.slots h.1.1 hs', CanonicalStep.distinct h.1 hs' hd', fun e m he hm => ?_⟩
    rw [QuietStep.cover h hs' hd' e m he hm, hcov e m he hm]

/-- An unmount undoes its mount for the lookup of the path. -/
def Restores (opsTable : List (Option FsOps)) (s : MountState) : Prop :=
  ∀ c s₁ p, s.exec opsTable (.mount c) = .ok (0, s₁) → CanonicalStep opsTable s (.mount c) s₁ →
    (MountAction.mount c).Names p → ∀ s₂, Reachable (· = s₁) (QuietStep opsTable p) s₂ →
      ∀ u s₃, s₂.exec opsTable (.unmount u) = .ok (0, s₃) → Spelled (.unmount u) →
        (MountAction.unmount u).Names p →
          dfsFilesystemLookup s₃.table p = dfsFilesystemLookup s.table p

theorem restores (hs : Slots s.table) (hd : Distinct s.table) : Restores opsTable s := by
  intro c s₁ p hmount hstep hp s₂ hr u s₃ hunmount hspell hup
  have hs₁ : Slots s₁.table := Step.slots hstep.1 hs
  have hd₁ : Distinct s₁.table := CanonicalStep.distinct hstep hs hd
  obtain ⟨hs₂, hd₂, hcov⟩ := quiet_cover hs₁ hd₁ hr
  obtain ⟨hr₁, -⟩ | ⟨-, m, x, i, hm, hi, hpath, ht₁⟩ := dfsMount_cases hs.whole hmount
  · cases hr₁
  obtain ⟨hr₃, -⟩ | ⟨-, m', j, e', hm', hj, he', ht₃⟩ := dfsUnmount_cases hunmount
  · cases hr₃
  obtain rfl : m = p := Option.some.inj (Except.ok.inj (hm.symm.trans hp))
  obtain rfl : m' = m := Option.some.inj (Except.ok.inj (hm'.symm.trans hup))
  -- no file system was mounted at the path before
  have hfresh : ∀ e ∈ s.table, e.path ≠ some m' := by
    intro e he hem
    have hcan : c.path = m' := hstep.2 m' hm ⟨e, he, hem⟩
    exact hpath e he (hem.trans (congrArg some hcan.symm))
  have hs₃ : Slots s₃.table := by
    rw [ht₃]
    exact hs₂.set (fun _ => rfl) fun m hm => by cases hm
  have hd₃ : Distinct s₃.table := by
    rw [ht₃]
    exact hd₂.set_empty
  refine lookup_congr (hs₃.mountTable hd₃) (hs.mountTable hd) (Names.normal hup hspell)
    fun e m hem hm => ?_
  have he : e.path = some m := by
    unfold Filesystem.mountPath at hem
    obtain ⟨-, -, hem⟩ := Option.bind_eq_some_iff.mp hem
    exact hem
  have hempty : e ≠ emptySlot := by
    rintro rfl
    cases he
  rw [ht₃, mem_clear_slot hd₂ hj he' he, hcov e m he hm, ht₁, mem_set_empty_slot hi hempty]
  constructor
  · rintro ⟨rfl | hmem, hne⟩
    · exact absurd (Option.some.inj he).symm hne
    · exact hmem
  · intro hmem
    exact ⟨.inr hmem, fun h => hfresh e hmem (h ▸ he)⟩

/-- **The mount table stays a map**: a call that fails changes nothing, every path is normal, and in runs
that name what is mounted in its normal form no path is mounted twice, and an unmount undoes its mount. -/
theorem mount_table {n : Nat} (hr : Reachable (· = init n) (Step opsTable) s) :
    (∀ e ∈ s.table, ∀ m, e.path = some m → m.Normal) ∧
    (∀ a, Spelled a → ∃ r s', s.exec opsTable a = .ok (r, s') ∧
      (r = 0 ∨ r = -1 ∧ Unchanged s s')) ∧
    (Reachable (· = init n) (CanonicalStep opsTable) s →
      MountTable s.table ∧ Restores opsTable s) := by
  have hs := reachable_slots hr
  refine ⟨hs.normal, fun a ha => ?_, fun hr' => ?_⟩
  · obtain ⟨r, s', hexec⟩ : ∃ r s', s.exec opsTable a = .ok (r, s') := exec_defined hs ha
    refine ⟨r, s', hexec, ?_⟩
    obtain hun | ⟨hr, -⟩ := exec_cases hs.whole hexec
    · exact .inr hun
    · exact .inl hr
  · obtain ⟨-, hd⟩ := reachable_distinct hr'
    exact ⟨hs.mountTable hd, restores hs hd⟩

/-! ## A mount below a mount -/

section Cases

/-- A file system type with all callbacks. -/
def ram : FsOps := ⟨⟨['r', 'a', 'm'], by decide⟩, false, true, true, true⟩

def dirA : CString := ⟨['/', 'a'], by decide⟩

def dirAB : CString := ⟨['/', 'a', '/', 'b'], by decide⟩

/-- A mount at the path that succeeds. -/
def mountCall (p : CString) : MountAction := .mount ⟨rootDirectory, true, none, p, ram.name, true, true, true⟩

/-- An unmount that succeeds. -/
def unmountCall (p : CString) : MountAction := .unmount ⟨rootDirectory, true, p, true⟩

/-- Four slots, mounted at these paths. -/
def mountedAt (l : List (Option CString)) : MountState where
  table := l.map fun p => ⟨p, p.map fun _ => ⟨ram, none⟩⟩
  opened _ := 0
  closed _ := 0

theorem mountCall_step {p : CString} {s s' : MountState} (hn : (mountCall p).Names p)
    (hl : lowestLevel (requested (some rootDirectory) p) ≠ -1)
    (h : s.exec [some ram] (mountCall p) = .ok (0, s')) :
    CanonicalStep [some ram] s (mountCall p) s' := by
  have habs : rootDirectory.Absolute := by decide
  refine ⟨⟨⟨0, h⟩, habs, hl⟩, fun m hm _ => ?_⟩
  exact Option.some.inj (Except.ok.inj (hn.symm.trans hm))

theorem unmountCall_step {p : CString} {s s' : MountState}
    (hl : lowestLevel (requested (some rootDirectory) p) ≠ -1)
    (h : s.exec [some ram] (unmountCall p) = .ok (0, s')) :
    CanonicalStep [some ram] s (unmountCall p) s' := by
  have habs : rootDirectory.Absolute := by decide
  exact ⟨⟨⟨0, h⟩, habs, hl⟩, trivial⟩

theorem reachable_mounted :
    Reachable (· = init 4) (CanonicalStep [some ram])
      (mountedAt [some rootDirectory, some dirA, none, none]) := by
  have h₀ : Reachable (· = init 4) (CanonicalStep [some ram]) (init 4) := .init rfl
  have h₁ : CanonicalStep [some ram] (init 4) (mountCall rootDirectory)
      (mountedAt [some rootDirectory, none, none, none]) := mountCall_step rfl (by decide) rfl
  have h₂ : CanonicalStep [some ram] (mountedAt [some rootDirectory, none, none, none])
      (mountCall dirA) (mountedAt [some rootDirectory, some dirA, none, none]) :=
    mountCall_step rfl (by decide) rfl
  exact (h₀.step h₁).step h₂

theorem mount_table_mounted :
    MountTable (mountedAt [some rootDirectory, some dirA, none, none]).table :=
  ((mount_table (reachable_mounted.mono fun _ _ _ h => h.1)).2.2 reachable_mounted).1

/-- `/a/b` is mounted below `/a`, then `/a` is unmounted and after it `/a/b`: the file system found before
is not there any more. -/
theorem unmounted_parent :
    ∃ s₁ s₂ s₃, CanonicalStep [some ram] (mountedAt [some rootDirectory, some dirA, none, none])
        (mountCall dirAB) s₁ ∧
      CanonicalStep [some ram] s₁ (unmountCall dirA) s₂ ∧
      CanonicalStep [some ram] s₂ (unmountCall dirAB) s₃ ∧
      s₂.exec [some ram] (unmountCall dirAB) = .ok (0, s₃) ∧
      Reachable (· = init 4) (CanonicalStep [some ram])
        (mountedAt [some rootDirectory, some dirA, none, none]) ∧
      dfsFilesystemLookup s₃.table dirAB ≠
        dfsFilesystemLookup (mountedAt [some rootDirectory, some dirA, none, none]).table dirAB := by
  have h₁ : CanonicalStep [some ram] (mountedAt [some rootDirectory, some dirA, none, none])
      (mountCall dirAB) (mountedAt [some rootDirectory, some dirA, some dirAB, none]) :=
    mountCall_step rfl (by decide) rfl
  have h₂ : CanonicalStep [some ram] (mountedAt [some rootDirectory, some dirA, some dirAB, none])
      (unmountCall dirA) (mountedAt [some rootDirectory, none, some dirAB, none]) :=
    unmountCall_step (by decide) rfl
  have h₃ : CanonicalStep [some ram] (mountedAt [some rootDirectory, none, some dirAB, none])
      (unmountCall dirAB) (mountedAt [some rootDirectory, none, none, none]) :=
    unmountCall_step (by decide) rfl
  refine ⟨_, _, _, h₁, h₂, h₃, rfl, reachable_mounted, fun h => ?_⟩
  have hpath := congrArg (fun e => (e.bind Filesystem.path).map CString.chars) h
  revert hpath
  decide

end Cases

end MountState

end RTThread.Dfs
