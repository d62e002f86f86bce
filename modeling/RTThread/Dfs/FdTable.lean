import Mathlib.Data.List.Nodup
import Mathlib.Tactic
import RTThread.Lib.Run

set_option autoImplicit false

/-! # The table of file descriptors (`dfs.c`)

A descriptor is a structure on the heap with a count of its references; the table has the addresses of
the structures, and the number of a descriptor is its index in the table plus `DFS_FD_OFFSET`. The table
grows by four entries at a time. What the allocator returns is an argument of the functions. A read
through the address of a structure that was freed is undefined: it is the result `none`.

The configuration is that of the board: `RT_USING_DFS_DEVFS` and `RT_USING_POSIX` are defined, so the
numbers 0, 1 and 2 stand for the number of the console.
-/

namespace RTThread.Dfs

open Trans (Reachable)

/-- The address of a `struct dfs_fd`. -/
abbrev FdPtr := Nat

def DFS_FD_MAGIC : Nat := 0xfdfd

def DFS_FD_OFFSET : Nat := 3

/-- The fields of `struct dfs_fd` that say whether it is in use. -/
structure DfsFd where
  magic : Nat
  refCount : Int
  deriving DecidableEq

/-- `struct dfs_fdtable`, with the structures its entries point to; `maxfd` is the length of `fds`. -/
structure FdTable where
  fds : List (Option FdPtr)
  heap : FdPtr → Option DfsFd

/-- An `int` after an addition. -/
def i32 (x : Int) : Int := x.bmod (2 ^ 32)

namespace FdTable

def maxfd (t : FdTable) : Nat := t.fds.length

def setHeap (t : FdTable) (p : FdPtr) (d : Option DfsFd) : FdTable :=
  { t with heap := Function.update t.heap p d }

def setFd (t : FdTable) (idx : Nat) (s : Option FdPtr) : FdTable :=
  { t with fds := t.fds.set idx s }

/-- The table in a container of `cnt` entries; the new ones are cleaned. -/
def grow (t : FdTable) (cnt : Nat) : FdTable :=
  { t with fds := t.fds ++ List.replicate (cnt - t.maxfd) none }

/-- The first loop of `fd_alloc`, over the entries from `idx` on. -/
def scan (heap : FdPtr → Option DfsFd) : List (Option FdPtr) → Nat → Option Nat
  | [], idx => some idx
  | none :: _, idx => some idx
  | some p :: l, idx => do
      let d ← heap p
      if d.refCount = 0 then some idx else scan heap l (idx + 1)

/-- The end of `fd_alloc`: allocate `struct dfs_fd`. -/
def allocFd (t : FdTable) (idx : Nat) (calloc : Option FdPtr) : Nat × FdTable :=
  if idx < t.maxfd ∧ t.fds[idx]? = some none then
    match calloc with
    | some p => (idx, (t.setFd idx (some p)).setHeap p (some ⟨0, 0⟩))
    | none => (t.maxfd, t)
  else (idx, t)

/-- `fd_alloc(fdt, startfd)`: `realloc` says whether the larger container is allocated, and `calloc` is
the address of the new structure, if there is memory for one. -/
def fdAlloc (fdMax : Nat) (t : FdTable) (startfd : Nat) (realloc : Bool) (calloc : Option FdPtr) :
    Option (Nat × FdTable) := do
  -- find an empty fd entry
  let idx ← scan t.heap (t.fds.drop startfd) startfd
  -- allocate a larger FD container
  if idx = t.maxfd ∧ t.maxfd < fdMax then
    if realloc then
      -- increase the number of FD with 4 step length
      some ((t.grow (min (t.maxfd + 4) fdMax)).allocFd idx calloc)
    else some (idx, t)
  else some (t.allocFd idx calloc)

/-- `fd_new`: the number, or -1. -/
def fdNew (fdMax : Nat) (t : FdTable) (realloc : Bool) (calloc : Option FdPtr) :
    Option (Int × FdTable) := do
  let (idx, t) ← t.fdAlloc fdMax 0 realloc calloc
  -- can't find an empty fd entry
  if idx = t.maxfd then some (-1, t)
  else do
    let p ← t.fds[idx]?.join
    let _ ← t.heap p
    some (idx + DFS_FD_OFFSET, t.setHeap p (some ⟨DFS_FD_MAGIC, 1⟩))

/-- The index in the table that `fd_get` looks at; `console` is what `libc_stdio_get_console` returns. -/
def entryIndex (console fd : Int) : Int :=
  (if 0 ≤ fd ∧ fd ≤ 2 then console else fd) - DFS_FD_OFFSET

/-- `fd_get`: the address of the structure, or nothing for `NULL`. -/
def fdGet (t : FdTable) (console fd : Int) : Option (Option FdPtr × FdTable) :=
  let idx := entryIndex console fd
  if idx < 0 ∨ (t.maxfd : Int) ≤ idx then some (none, t)
  else
    match t.fds[idx.toNat]?.join with
    | none => some (none, t)
    | some p => do
        let d ← t.heap p
        -- check dfs_fd valid or not
        if d.magic ≠ DFS_FD_MAGIC then some (none, t)
        -- increase the reference count
        else some (some p, t.setHeap p (some { d with refCount := i32 (d.refCount + 1) }))

/-- `fd_put`. -/
def fdPut (t : FdTable) (p : FdPtr) : Option FdTable := do
  let d ← t.heap p
  let refCount := i32 (d.refCount - 1)
  -- clear this fd entry
  if refCount = 0 then
    match t.fds.findIdx? (· = some p) with
    | some index => some ((t.setHeap p none).setFd index none)
    | none => some (t.setHeap p (some { d with refCount := refCount }))
  else some (t.setHeap p (some { d with refCount := refCount }))

end FdTable

/-! ## Calls -/

/-- The table, and for each structure the references that were taken and not yet put. -/
structure FdSys where
  table : FdTable
  refs : FdPtr → Nat

/-- A call, with what the allocator returns and the number of the console. -/
inductive FdAction
  | new (realloc : Bool) (calloc : Option FdPtr)
  | get (console fd : Int)
  | put (p : FdPtr)
  deriving DecidableEq

namespace FdSys

/-- The allocator returns memory that is not in use; a reference is put only once, and a descriptor has
fewer than `2 ^ 16` of them. -/
def Proper (s : FdSys) : FdAction → Prop
  | .new _ calloc => ∀ p ∈ calloc, s.table.heap p = none
  | .get console fd => ∀ p t, s.table.fdGet console fd = some (some p, t) → s.refs p + 1 < 2 ^ 16
  | .put p => 0 < s.refs p

/-- The reference that a call of `fd_new` or `fd_get` takes. -/
def take (s : FdSys) (t : FdTable) (p : Option FdPtr) : FdSys where
  table := t
  refs := p.elim s.refs fun p => Function.update s.refs p (s.refs p + 1)

/-- The structure with this number. -/
def entry (t : FdTable) (fd : Int) : Option FdPtr :=
  if fd < DFS_FD_OFFSET then none else t.fds[(fd - DFS_FD_OFFSET).toNat]?.join

/-- The state after a call, and the result of `fd_new` or `fd_get`. -/
def exec (fdMax : Nat) (s : FdSys) : FdAction → Option FdSys
  | .new realloc calloc => do
      let (fd, t) ← s.table.fdNew fdMax realloc calloc
      some (s.take t (entry t fd))
  | .get console fd => do
      let (p, t) ← s.table.fdGet console fd
      some (s.take t p)
  | .put p => do
      let t ← s.table.fdPut p
      some { table := t, refs := Function.update s.refs p (s.refs p - 1) }

/-- `dfs_init`. -/
def init : FdSys := ⟨⟨[], fun _ => none⟩, fun _ => 0⟩

def Step (fdMax : Nat) (s : FdSys) (a : FdAction) (s' : FdSys) : Prop :=
  s.exec fdMax a = some s' ∧ s.Proper a

/-- The number is that of a descriptor with outstanding references. -/
def LiveAt (s : FdSys) (fd : Int) (p : FdPtr) : Prop := entry s.table fd = some p ∧ 0 < s.refs p

end FdSys

/-! ## The entries of the table -/

namespace FdTable

/-- The entry with this index has the address of a structure. -/
def Slot (t : FdTable) (i : Nat) (p : FdPtr) : Prop := t.fds[i]? = some (some p)

variable {t : FdTable} {i j : Nat} {p q : FdPtr}

theorem Slot.lt (h : t.Slot i p) : i < t.maxfd := by
  obtain ⟨hi, -⟩ := List.getElem?_eq_some_iff.mp h
  exact hi

theorem Slot.unique (h : t.Slot i p) (h' : t.Slot i q) : p = q :=
  Option.some.inj (Option.some.inj (h.symm.trans h'))

theorem slot_iff_join : t.Slot i p ↔ t.fds[i]?.join = some p := by
  unfold Slot
  cases t.fds[i]? with
  | none => simp
  | some s => simp

@[simp] theorem maxfd_setHeap (d : Option DfsFd) : (t.setHeap p d).maxfd = t.maxfd := rfl

@[simp] theorem heap_setHeap (d : Option DfsFd) :
    (t.setHeap p d).heap = Function.update t.heap p d := rfl

@[simp] theorem fds_setHeap (d : Option DfsFd) : (t.setHeap p d).fds = t.fds := rfl

@[simp] theorem slot_setHeap (d : Option DfsFd) : (t.setHeap p d).Slot i q ↔ t.Slot i q := Iff.rfl

@[simp] theorem maxfd_setFd (s : Option FdPtr) : (t.setFd i s).maxfd = t.maxfd := List.length_set

@[simp] theorem heap_setFd (s : Option FdPtr) : (t.setFd i s).heap = t.heap := rfl

theorem slot_setFd (s : Option FdPtr) (hi : i < t.maxfd) :
    (t.setFd i s).Slot j q ↔ if j = i then s = some q else t.Slot j q := by
  unfold Slot setFd
  rw [List.getElem?_set]
  by_cases hji : i = j
  · subst hji
    have hi' : i < t.fds.length := hi
    rw [if_pos rfl, if_pos hi', if_pos rfl, Option.some_inj]
  · rw [if_neg hji, if_neg (Ne.symm hji)]

theorem maxfd_grow {cnt : Nat} (h : t.maxfd ≤ cnt) : (t.grow cnt).maxfd = cnt := by
  unfold grow maxfd at *
  rw [List.length_append, List.length_replicate]
  omega

/-- Growth moves no entry. -/
theorem slot_grow {cnt : Nat} : (t.grow cnt).Slot i p ↔ t.Slot i p := by
  unfold Slot grow
  by_cases hi : i < t.fds.length
  · rw [List.getElem?_append_left hi]
  · rw [List.getElem?_append_right (by omega), List.getElem?_eq_none_iff.mpr (Nat.not_lt.mp hi),
      List.getElem?_replicate]
    split_ifs <;> simp

/-! ## Counted references -/

/-- The structures on the heap are those with references, each with their number in `ref_count`, and
each has one entry of the table. -/
structure Counted (t : FdTable) (refs : FdPtr → Nat) : Prop where
  heap : ∀ p, t.heap p = if refs p = 0 then none else some ⟨DFS_FD_MAGIC, refs p⟩
  slot : ∀ p, 0 < refs p ↔ ∃ i, t.Slot i p
  unique : ∀ i j p, t.Slot i p → t.Slot j p → i = j
  lt : ∀ p, refs p < 2 ^ 16

namespace Counted

variable {refs : FdPtr → Nat}

theorem heap_slot (hc : t.Counted refs) (h : t.Slot i p) :
    t.heap p = some ⟨DFS_FD_MAGIC, refs p⟩ := by
  have hpos : 0 < refs p := (hc.slot p).mpr ⟨i, h⟩
  rw [hc.heap, if_neg hpos.ne']

theorem refs_of_heap (hc : t.Counted refs) (h : t.heap p = none) : refs p = 0 := by
  rw [hc.heap] at h
  split_ifs at h with h0
  exact h0

/-- The first loop of `fd_alloc` stops at the first free entry. -/
theorem scan_eq {heap : FdPtr → Option DfsFd} {l : List (Option FdPtr)}
    (h : ∀ p, some p ∈ l → ∃ d, heap p = some d ∧ d.refCount ≠ 0) (idx : Nat) :
    scan heap l idx = some (idx + l.findIdx fun s => s.isNone) := by
  induction l generalizing idx with
  | nil => rfl
  | cons s l ih =>
      cases s with
      | none => simp [scan, List.findIdx_cons]
      | some p =>
          obtain ⟨d, hd, hne⟩ := h p List.mem_cons_self
          have hl : ∀ q, some q ∈ l → ∃ d, heap q = some d ∧ d.refCount ≠ 0 :=
            fun q hq => h q (List.mem_cons_of_mem _ hq)
          simp only [scan, hd, Option.bind_eq_bind, Option.bind_some, if_neg hne, ih hl,
            List.findIdx_cons, Option.isNone_some, cond_false]
          congr 1
          omega

/-- `fd_alloc` finds the first free entry, or the end of the table. -/
theorem scan_table (hc : t.Counted refs) :
    ∃ idx, scan t.heap (t.fds.drop 0) 0 = some idx ∧
      (idx < t.maxfd ∧ t.fds[idx]? = some none ∨
        idx = t.maxfd ∧ ∀ i < t.maxfd, ∃ p, t.Slot i p) := by
  have hl : ∀ p, some p ∈ t.fds → ∃ d, t.heap p = some d ∧ d.refCount ≠ 0 := by
    intro p hp
    obtain ⟨i, hi⟩ := List.mem_iff_getElem?.mp hp
    refine ⟨_, hc.heap_slot hi, ?_⟩
    have hpos : 0 < refs p := (hc.slot p).mpr ⟨i, hi⟩
    show (refs p : Int) ≠ 0
    omega
  refine ⟨_, by rw [List.drop_zero, scan_eq hl 0, Nat.zero_add], ?_⟩
  by_cases hlt : t.fds.findIdx (fun s => s.isNone) < t.fds.length
  · refine .inl ⟨hlt, ?_⟩
    have hnone : (t.fds[t.fds.findIdx fun s => s.isNone]).isNone = true := List.findIdx_getElem
    rw [List.getElem?_eq_getElem hlt, Option.isNone_iff_eq_none.mp hnone]
  · have hle : t.fds.findIdx (fun s => s.isNone) ≤ t.fds.length := List.findIdx_le_length
    refine .inr ⟨Nat.le_antisymm hle (Nat.not_lt.mp hlt), fun i hi => ?_⟩
    have hlt' : i < t.fds.findIdx fun s => s.isNone := hi.trans_le (Nat.not_lt.mp hlt)
    have hsome : (t.fds.get ⟨i, hi⟩).isSome = true := by
      simpa using List.not_of_lt_findIdx hlt'
    obtain ⟨p, hp⟩ := Option.isSome_iff_exists.mp hsome
    exact ⟨p, by unfold Slot; rw [List.getElem?_eq_getElem hi]; exact congrArg some hp⟩

/-- A free entry with its new structure. -/
theorem allocFd_some {idx : Nat} (h : t.fds[idx]? = some none) :
    t.allocFd idx (some p) = (idx, (t.setFd idx (some p)).setHeap p (some ⟨0, 0⟩)) :=
  if_pos ⟨(List.getElem?_eq_some_iff.mp h).1, h⟩

theorem allocFd_none {idx : Nat} (h : t.fds[idx]? = some none) :
    t.allocFd idx none = (t.maxfd, t) :=
  if_pos ⟨(List.getElem?_eq_some_iff.mp h).1, h⟩

theorem allocFd_end (calloc : Option FdPtr) : t.allocFd t.maxfd calloc = (t.maxfd, t) :=
  if_neg fun h => Nat.lt_irrefl _ h.1

/-- What `fd_alloc` can do: take a free entry of the table or of the larger table, or give up. -/
theorem fdAlloc_cases (hc : t.Counted refs) {fdMax : Nat} (hm : t.maxfd ≤ fdMax) (realloc : Bool)
    (calloc : Option FdPtr) :
    ∃ cnt idx, t.maxfd ≤ cnt ∧ cnt ≤ fdMax ∧
      ((t.grow cnt).fds[idx]? = some none ∧ t.fdAlloc fdMax 0 realloc calloc =
          some ((t.grow cnt).allocFd idx calloc) ∨
        t.fdAlloc fdMax 0 realloc calloc = some (t.maxfd, t) ∧
          ((∀ i < fdMax, ∃ p, t.Slot i p) ∨ realloc = false)) := by
  obtain ⟨idx, hscan, hfree | ⟨hidx, hfull⟩⟩ := hc.scan_table
  · have hgrow : t.grow t.maxfd = t := by simp [grow]
    refine ⟨t.maxfd, idx, Nat.le_refl _, hm, .inl ⟨by rw [hgrow]; exact hfree.2, ?_⟩⟩
    have hne : ¬ (idx = t.maxfd ∧ t.maxfd < fdMax) := fun h => absurd h.1 hfree.1.ne
    rw [hgrow, fdAlloc, hscan, Option.bind_eq_bind, Option.bind_some, if_neg hne]
  · subst hidx
    by_cases hlt : t.maxfd < fdMax
    · cases realloc with
      | true =>
          have hle : t.maxfd ≤ min (t.maxfd + 4) fdMax := by omega
          refine ⟨min (t.maxfd + 4) fdMax, t.maxfd, hle, by omega, .inl ⟨?_, ?_⟩⟩
          · have hnew : 0 < min (t.maxfd + 4) fdMax - t.maxfd := by omega
            show (t.fds ++ List.replicate (min (t.maxfd + 4) fdMax - t.maxfd) none)[t.fds.length]? = _
            rw [List.getElem?_append_right (Nat.le_refl _), Nat.sub_self, List.getElem?_replicate,
              if_pos hnew]
          · rw [fdAlloc, hscan, Option.bind_eq_bind, Option.bind_some, if_pos ⟨rfl, hlt⟩, if_pos rfl]
      | false =>
          refine ⟨t.maxfd, t.maxfd, Nat.le_refl _, hm, .inr ⟨?_, .inr rfl⟩⟩
          rw [fdAlloc, hscan, Option.bind_eq_bind, Option.bind_some, if_pos ⟨rfl, hlt⟩,
            if_neg Bool.false_ne_true]
    · refine ⟨t.maxfd, t.maxfd, Nat.le_refl _, hm, .inr ⟨?_, .inl fun i hi => hfull i (by omega)⟩⟩
      rw [fdAlloc, hscan, Option.bind_eq_bind, Option.bind_some, if_neg fun h => hlt h.2, allocFd_end]

/-- `fd_new` with no empty entry. -/
theorem fdNew_full {t' : FdTable} {fdMax : Nat} {realloc : Bool} {calloc : Option FdPtr}
    (h : t.fdAlloc fdMax 0 realloc calloc = some (t'.maxfd, t')) :
    t.fdNew fdMax realloc calloc = some (-1, t') := by
  rw [fdNew, h, Option.bind_eq_bind, Option.bind_some]
  exact if_pos rfl

/-- `fd_new` with the entry that `fd_alloc` found. -/
theorem fdNew_found {t' : FdTable} {fdMax idx : Nat} {realloc : Bool} {calloc : Option FdPtr}
    {d : DfsFd} (h : t.fdAlloc fdMax 0 realloc calloc = some (idx, t')) (hs : t'.Slot idx p)
    (hd : t'.heap p = some d) :
    t.fdNew fdMax realloc calloc =
      some ((idx : Int) + DFS_FD_OFFSET, t'.setHeap p (some ⟨DFS_FD_MAGIC, 1⟩)) := by
  rw [fdNew, h, Option.bind_eq_bind, Option.bind_some]
  simp only [if_neg hs.lt.ne, slot_iff_join.mp hs, hd, Option.bind_eq_bind, Option.bind_some]

/-- What `fd_new` can do: give up and leave every entry, or enter a new structure in a free entry. -/
theorem fdNew_cases (hc : t.Counted refs) {fdMax : Nat} (hm : t.maxfd ≤ fdMax) {realloc : Bool}
    {calloc : Option FdPtr} (hcal : ∀ p ∈ calloc, t.heap p = none) :
    (∃ t', t.fdNew fdMax realloc calloc = some (-1, t') ∧ t'.maxfd ≤ fdMax ∧ t'.heap = t.heap ∧
      (∀ i q, t'.Slot i q ↔ t.Slot i q) ∧
      ((∀ i < fdMax, ∃ p, t.Slot i p) ∨ realloc = false ∨ calloc = none)) ∨
    ∃ (t' : FdTable) (idx : Nat) (p : FdPtr),
      t.fdNew fdMax realloc calloc = some ((idx : Int) + DFS_FD_OFFSET, t') ∧ t'.maxfd ≤ fdMax ∧
      calloc = some p ∧ (∀ q, ¬ t.Slot idx q) ∧
      t'.heap = Function.update t.heap p (some ⟨DFS_FD_MAGIC, 1⟩) ∧
      ∀ i q, t'.Slot i q ↔ if i = idx then p = q else t.Slot i q := by
  obtain ⟨cnt, idx, hle, hcnt, ⟨hfree, halloc⟩ | ⟨halloc, hwhy⟩⟩ :=
    hc.fdAlloc_cases hm realloc calloc
  · have hlt : idx < (t.grow cnt).maxfd := (List.getElem?_eq_some_iff.mp hfree).1
    have hnot : ∀ q, ¬ t.Slot idx q := by
      intro q hq
      have hq' : (t.grow cnt).fds[idx]? = some (some q) := slot_grow.mpr hq
      rw [hfree] at hq'
      cases hq'
    have hmax : (t.grow cnt).maxfd ≤ fdMax := by
      rw [maxfd_grow hle]
      exact hcnt
    cases calloc with
    | none =>
        rw [allocFd_none hfree] at halloc
        exact .inl ⟨t.grow cnt, fdNew_full halloc, hmax, rfl, fun i q => slot_grow, .inr (.inr rfl)⟩
    | some p =>
        rw [allocFd_some hfree] at halloc
        have hs : ((t.grow cnt).setFd idx (some p)).Slot idx p :=
          (slot_setFd _ hlt).mpr (by rw [if_pos rfl])
        have hnew := fdNew_found halloc ((slot_setHeap _).mpr hs) (Function.update_self _ _ _)
        refine .inr ⟨_, idx, p, hnew, by simpa using hmax, rfl, hnot, ?_, fun i q => ?_⟩
        · rw [heap_setHeap, heap_setHeap, Function.update_idem]
          rfl
        · rw [slot_setHeap, slot_setHeap, slot_setFd _ hlt, slot_grow, Option.some_inj]
  · exact .inl ⟨t, fdNew_full halloc, hm, rfl, fun i q => Iff.rfl, hwhy.imp_right .inl⟩

/-- A reference count below `2 ^ 16`, one up or down, is not reduced. -/
theorem i32_small {x : Int} (h0 : 0 ≤ x) (h : x ≤ 2 ^ 16) : i32 x = x := by
  unfold i32
  rw [Int.bmod_eq_of_le_mul_two] <;> omega

/-- What `fd_get` can do: return `NULL` where there is no entry, or take one more reference. -/
theorem fdGet_cases (hc : t.Counted refs) (console fd : Int) :
    (t.fdGet console fd = some (none, t) ∧
      ∀ p, ¬ (0 ≤ entryIndex console fd ∧ t.Slot (entryIndex console fd).toNat p)) ∨
    ∃ p, t.fdGet console fd =
        some (some p, t.setHeap p (some ⟨DFS_FD_MAGIC, i32 (refs p + 1)⟩)) ∧
      0 ≤ entryIndex console fd ∧ t.Slot (entryIndex console fd).toNat p := by
  by_cases hrange : entryIndex console fd < 0 ∨ (t.maxfd : Int) ≤ entryIndex console fd
  · refine .inl ⟨if_pos hrange, fun p hp => ?_⟩
    have hlt := hp.2.lt
    omega
  · have hpos : 0 ≤ entryIndex console fd := by omega
    unfold fdGet
    simp only [if_neg hrange]
    cases hs : t.fds[(entryIndex console fd).toNat]?.join with
    | none =>
        refine .inl ⟨rfl, fun p hp => ?_⟩
        rw [slot_iff_join.mp hp.2] at hs
        cases hs
    | some p =>
        have hslot : t.Slot (entryIndex console fd).toNat p := slot_iff_join.mpr hs
        refine .inr ⟨p, ?_, hpos, hslot⟩
        simp only [hc.heap_slot hslot, Option.bind_eq_bind, Option.bind_some, ne_eq,
          not_true_eq_false, if_false]

/-- What `fd_put` can do with a reference: put the last one and free the structure, or another one. -/
theorem fdPut_cases (hc : t.Counted refs) (hp : 0 < refs p) :
    (refs p = 1 ∧ ∃ i, t.Slot i p ∧ t.fdPut p = some ((t.setHeap p none).setFd i none)) ∨
    1 < refs p ∧ t.fdPut p = some (t.setHeap p (some ⟨DFS_FD_MAGIC, (refs p - 1 : Nat)⟩)) := by
  obtain ⟨i, hi⟩ := (hc.slot p).mp hp
  have hlt := hc.lt p
  have hcount : i32 ((refs p : Int) - 1) = (refs p - 1 : Nat) := by
    rw [i32_small (by omega) (by omega)]
    omega
  unfold fdPut
  simp only [hc.heap_slot hi, Option.bind_eq_bind, Option.bind_some, hcount]
  by_cases h1 : refs p = 1
  · refine .inl ⟨h1, i, hi, ?_⟩
    have hfind : t.fds.findIdx? (fun s => decide (s = some p)) = some i := by
      rw [List.findIdx?_eq_some_iff_getElem]
      obtain ⟨hil, hget⟩ := List.getElem?_eq_some_iff.mp hi
      refine ⟨hil, decide_eq_true hget, fun j hj hjp => ?_⟩
      have hsj : t.Slot j p := by
        unfold Slot
        rw [List.getElem?_eq_getElem (hj.trans hil), of_decide_eq_true hjp]
      exact hj.ne (hc.unique j i p hsj hi)
    rw [h1]
    simp [hfind]
  · refine .inr ⟨by omega, ?_⟩
    rw [if_neg (by omega)]

/-- Other containers with the same entries and structures. -/
theorem congr {t' : FdTable} (hc : t.Counted refs) (hh : t'.heap = t.heap)
    (hs : ∀ i q, t'.Slot i q ↔ t.Slot i q) : t'.Counted refs where
  heap := by rw [hh]; exact hc.heap
  slot q := by simp only [hs]; exact hc.slot q
  unique i j q hi hj := hc.unique i j q ((hs i q).mp hi) ((hs j q).mp hj)
  lt := hc.lt

/-- A new structure in a free entry. -/
theorem enter {t' : FdTable} {idx : Nat} (hc : t.Counted refs) (hp : refs p = 0)
    (hidx : ∀ q, ¬ t.Slot idx q)
    (hh : t'.heap = Function.update t.heap p (some ⟨DFS_FD_MAGIC, 1⟩))
    (hs : ∀ i q, t'.Slot i q ↔ if i = idx then p = q else t.Slot i q) :
    t'.Counted (Function.update refs p 1) := by
  have hno : ∀ i, ¬ t.Slot i p := fun i hi => absurd ((hc.slot p).mpr ⟨i, hi⟩) (by omega)
  refine ⟨fun q => ?_, fun q => ?_, fun i j q hi hj => ?_, fun q => ?_⟩
  · rw [hh]
    by_cases hq : q = p
    · subst hq
      simp
    · rw [Function.update_of_ne hq, Function.update_of_ne hq]
      exact hc.heap q
  · by_cases hq : q = p
    · subst hq
      exact iff_of_true (by simp) ⟨idx, (hs idx q).mpr (by rw [if_pos rfl])⟩
    · rw [Function.update_of_ne hq, hc.slot q]
      refine exists_congr fun i => ?_
      rw [hs]
      split_ifs with hi
      · subst hi
        exact iff_of_false (hidx q) fun h => hq h.symm
      · exact Iff.rfl
  · rw [hs] at hi hj
    split_ifs at hi hj with h1 h2
    · rw [h1, h2]
    · exact absurd (hi ▸ hj) (hno j)
    · exact absurd (hj ▸ hi) (hno i)
    · exact hc.unique i j q hi hj
  · by_cases hq : q = p
    · subst hq
      simp
    · rw [Function.update_of_ne hq]
      exact hc.lt q

/-- Another count of references in a structure that keeps its entry. -/
theorem recount {n : Nat} (hc : t.Counted refs) (hp : 0 < refs p) (hn : 0 < n) (hlt : n < 2 ^ 16) :
    (t.setHeap p (some ⟨DFS_FD_MAGIC, n⟩)).Counted (Function.update refs p n) := by
  refine ⟨fun q => ?_, fun q => ?_, fun i j q hi hj => hc.unique i j q hi hj, fun q => ?_⟩
  · rw [heap_setHeap]
    by_cases hq : q = p
    · subst hq
      rw [Function.update_self, Function.update_self, if_neg hn.ne']
    · rw [Function.update_of_ne hq, Function.update_of_ne hq]
      exact hc.heap q
  · by_cases hq : q = p
    · subst hq
      rw [Function.update_self]
      exact iff_of_true hn ((hc.slot q).mp hp)
    · rw [Function.update_of_ne hq]
      exact hc.slot q
  · by_cases hq : q = p
    · subst hq
      rw [Function.update_self]
      exact hlt
    · rw [Function.update_of_ne hq]
      exact hc.lt q

/-- A structure is freed and its entry cleared. -/
theorem free (hc : t.Counted refs) (hi : t.Slot i p) :
    ((t.setHeap p none).setFd i none).Counted (Function.update refs p 0) := by
  have hs : ∀ j q, ((t.setHeap p none).setFd i none).Slot j q ↔ j ≠ i ∧ t.Slot j q := by
    intro j q
    rw [slot_setFd _ (by simpa using hi.lt), slot_setHeap]
    split_ifs with hj
    · exact iff_of_false (by simp) fun h => h.1 hj
    · exact (and_iff_right hj).symm
  refine ⟨fun q => ?_, fun q => ?_, fun j k q hj hk => ?_, fun q => ?_⟩
  · rw [heap_setFd, heap_setHeap]
    by_cases hq : q = p
    · subst hq
      simp
    · rw [Function.update_of_ne hq, Function.update_of_ne hq]
      exact hc.heap q
  · simp only [hs]
    by_cases hq : q = p
    · subst hq
      rw [Function.update_self]
      exact iff_of_false (Nat.lt_irrefl 0) fun ⟨j, hj, hjq⟩ => hj (hc.unique j i q hjq hi)
    · rw [Function.update_of_ne hq, hc.slot q]
      refine exists_congr fun j => (and_iff_right_of_imp fun hjq hji => ?_).symm
      subst hji
      exact hq (hjq.unique hi)
  · exact hc.unique j k q ((hs j q).mp hj).2 ((hs k q).mp hk).2
  · by_cases hq : q = p
    · subst hq
      simp
    · rw [Function.update_of_ne hq]
      exact hc.lt q

end Counted

end FdTable

/-! ## Runs -/

namespace FdSys

open FdTable

variable {s s' : FdSys} {fdMax : Nat} {fd console : Int} {p : FdPtr}

theorem entry_eq_some {t : FdTable} :
    entry t fd = some p ↔ (DFS_FD_OFFSET : Int) ≤ fd ∧ t.Slot (fd - DFS_FD_OFFSET).toNat p := by
  unfold entry
  split_ifs with h
  · exact iff_of_false (by simp) fun hp => by omega
  · rw [slot_iff_join, and_iff_right (not_lt.mp h)]

theorem entry_number {t : FdTable} (i : Nat) :
    entry t ((i : Int) + DFS_FD_OFFSET) = some p ↔ t.Slot i p := by
  rw [entry_eq_some]
  simp

/-- The invariant of the runs. -/
structure Inv (fdMax : Nat) (s : FdSys) : Prop where
  maxfd : s.table.maxfd ≤ fdMax
  counted : s.table.Counted s.refs

theorem init_inv : Inv fdMax init where
  maxfd := Nat.zero_le _
  counted :=
    { heap := fun _ => rfl
      slot := fun p => iff_of_false (Nat.lt_irrefl 0) fun ⟨i, hi⟩ => by simp [Slot, init] at hi
      unique := fun i j p hi => by simp [Slot, init] at hi
      lt := fun _ => Nat.two_pow_pos 16 }

/-- What `fd_new` does to the descriptors. -/
theorem new_cases (hi : Inv fdMax s) {realloc : Bool} {calloc : Option FdPtr}
    (hp : s.Proper (.new realloc calloc)) :
    (∃ t, s.table.fdNew fdMax realloc calloc = some (-1, t) ∧
      s.exec fdMax (.new realloc calloc) = some ⟨t, s.refs⟩ ∧ Inv fdMax ⟨t, s.refs⟩ ∧
      (∀ fd q, entry t fd = some q ↔ entry s.table fd = some q) ∧
      ((∀ i < fdMax, ∃ q, s.table.Slot i q) ∨ realloc = false ∨ calloc = none)) ∨
    ∃ (t : FdTable) (i : Nat) (p : FdPtr),
      s.table.fdNew fdMax realloc calloc = some ((i : Int) + DFS_FD_OFFSET, t) ∧
      s.exec fdMax (.new realloc calloc) = some ⟨t, Function.update s.refs p 1⟩ ∧
      Inv fdMax ⟨t, Function.update s.refs p 1⟩ ∧ calloc = some p ∧ s.refs p = 0 ∧
      (∀ q, ¬ s.table.Slot i q) ∧
      ∀ fd q, entry t fd = some q ↔
        if fd = (i : Int) + DFS_FD_OFFSET then p = q else entry s.table fd = some q := by
  have hcal : ∀ p ∈ calloc, s.table.heap p = none := hp
  obtain ⟨t, hnew, hmax, hh, hs, hwhy⟩ | ⟨t, i, p, hnew, hmax, rfl, hfree, hh, hs⟩ :=
    hi.counted.fdNew_cases hi.maxfd hcal
  · have hnone : entry t (-1) = none := rfl
    refine .inl ⟨t, hnew, ?_, ⟨hmax, hi.counted.congr hh hs⟩, fun fd q => ?_, hwhy⟩
    · simp only [exec, hnew, Option.bind_eq_bind, Option.bind_some, hnone, take, Option.elim_none]
    · rw [entry_eq_some, entry_eq_some, hs]
  · have h0 : s.refs p = 0 := hi.counted.refs_of_heap (hp p rfl)
    have hentry : entry t ((i : Int) + DFS_FD_OFFSET) = some p :=
      (entry_number i).mpr ((hs i p).mpr (by rw [if_pos rfl]))
    refine .inr ⟨t, i, p, hnew, ?_, ⟨hmax, hi.counted.enter h0 hfree hh hs⟩, rfl, h0, hfree,
      fun fd q => ?_⟩
    · simp only [exec, hnew, Option.bind_eq_bind, Option.bind_some, hentry, take, Option.elim_some, h0,
        Nat.zero_add]
    · rw [entry_eq_some, entry_eq_some, hs]
      split_ifs with h1 h2 h2
      · exact and_iff_right (by omega)
      · exact iff_of_false (by omega) fun h => by omega
      · omega
      · exact Iff.rfl

/-- The entry that `fd_get` looks at. -/
theorem entry_redirect {t : FdTable} :
    0 ≤ entryIndex console fd ∧ t.Slot (entryIndex console fd).toNat p ↔
      entry t (if 0 ≤ fd ∧ fd ≤ 2 then console else fd) = some p := by
  rw [entry_eq_some, entryIndex, sub_nonneg]

/-- What `fd_get` does to the descriptors. -/
theorem get_cases (hi : Inv fdMax s) (console fd : Int) :
    (s.table.fdGet console fd = some (none, s.table) ∧ s.exec fdMax (.get console fd) = some s ∧
      ∀ p, entry s.table (if 0 ≤ fd ∧ fd ≤ 2 then console else fd) ≠ some p) ∨
    ∃ t p, s.table.fdGet console fd = some (some p, t) ∧
      s.exec fdMax (.get console fd) = some ⟨t, Function.update s.refs p (s.refs p + 1)⟩ ∧
      entry s.table (if 0 ≤ fd ∧ fd ≤ 2 then console else fd) = some p ∧
      (s.Proper (.get console fd) → Inv fdMax ⟨t, Function.update s.refs p (s.refs p + 1)⟩) ∧
      ∀ fd q, entry t fd = some q ↔ entry s.table fd = some q := by
  obtain ⟨hget, hno⟩ | ⟨p, hget, hpos, hslot⟩ := hi.counted.fdGet_cases console fd
  · refine .inl ⟨hget, ?_, fun p hp => hno p (entry_redirect.mpr hp)⟩
    simp only [exec, hget, Option.bind_eq_bind, Option.bind_some, take, Option.elim_none]
  · refine .inr ⟨_, p, hget, ?_, entry_redirect.mp ⟨hpos, hslot⟩, fun hp => ⟨hi.maxfd, ?_⟩,
      fun fd q => Iff.rfl⟩
    · simp only [exec, hget, Option.bind_eq_bind, Option.bind_some, take, Option.elim_some]
    · have hlt : s.refs p + 1 < 2 ^ 16 := hp p _ hget
      have hcount : i32 ((s.refs p : Int) + 1) = (s.refs p + 1 : Nat) := by
        rw [Counted.i32_small (by omega) (by omega)]
        rfl
      rw [hcount]
      exact hi.counted.recount ((hi.counted.slot p).mpr ⟨_, hslot⟩) (Nat.succ_pos _) hlt

/-- What `fd_put` does to the descriptors. -/
theorem put_cases (hi : Inv fdMax s) (hp : 0 < s.refs p) :
    ∃ t, s.exec fdMax (.put p) = some ⟨t, Function.update s.refs p (s.refs p - 1)⟩ ∧
      Inv fdMax ⟨t, Function.update s.refs p (s.refs p - 1)⟩ ∧
      ∀ fd q, (q ≠ p ∨ 1 < s.refs p) → entry s.table fd = some q → entry t fd = some q := by
  obtain ⟨h1, i, hslot, hput⟩ | ⟨h1, hput⟩ := hi.counted.fdPut_cases hp
  · have hlt : i < (s.table.setHeap p none).maxfd := hslot.lt
    refine ⟨(s.table.setHeap p none).setFd i none, ?_, ⟨?_, ?_⟩, fun fd q hq hfd => ?_⟩
    · simp only [exec, hput, Option.bind_eq_bind, Option.bind_some]
    · simpa using hi.maxfd
    · rw [h1]
      exact hi.counted.free hslot
    · rw [entry_eq_some] at hfd ⊢
      refine ⟨hfd.1, (slot_setFd none hlt).mpr ?_⟩
      rw [if_neg fun hji => ?_]
      · exact hfd.2
      · obtain hq | hq := hq
        · rw [hji] at hfd
          exact hq (hfd.2.unique hslot)
        · omega
  · have hlt := hi.counted.lt p
    refine ⟨s.table.setHeap p (some ⟨DFS_FD_MAGIC, (s.refs p - 1 : Nat)⟩), ?_, ⟨hi.maxfd, ?_⟩,
      fun fd q _ hfd => hfd⟩
    · simp only [exec, hput, Option.bind_eq_bind, Option.bind_some]
    · exact hi.counted.recount hp (by omega) (by omega)

/-- A call on a well-formed table is defined and keeps it so. -/
theorem Inv.exec (hi : Inv fdMax s) {a : FdAction} (hp : s.Proper a) :
    ∃ s', s.exec fdMax a = some s' ∧ Inv fdMax s' := by
  cases a with
  | new realloc calloc =>
      obtain ⟨t, -, hexec, hi', -⟩ | ⟨t, i, p, -, hexec, hi', -⟩ := new_cases hi hp
      · exact ⟨_, hexec, hi'⟩
      · exact ⟨_, hexec, hi'⟩
  | get console fd =>
      obtain ⟨-, hexec, -⟩ | ⟨t, p, -, hexec, -, hi', -⟩ := get_cases hi console fd
      · exact ⟨s, hexec, hi⟩
      · exact ⟨_, hexec, hi' hp⟩
  | put p =>
      obtain ⟨t, hexec, hi', -⟩ := put_cases hi hp
      exact ⟨_, hexec, hi'⟩

theorem Step.inv {a : FdAction} (h : Step fdMax s a s') (hi : Inv fdMax s) : Inv fdMax s' := by
  obtain ⟨t, hexec, hi'⟩ := hi.exec h.2
  rw [Option.some.inj (h.1.symm.trans hexec)]
  exact hi'

/-- Every state of a run is well formed. -/
theorem reachable_inv (hr : Reachable (· = init) (Step fdMax) s) : Inv fdMax s :=
  hr.invariant (fun _ h => h ▸ init_inv) fun _ _ _ _ hi h => h.inv hi

theorem Inv.liveAt_iff (hi : Inv fdMax s) : s.LiveAt fd p ↔ entry s.table fd = some p :=
  and_iff_left_of_imp fun h => (hi.counted.slot p).mpr ⟨_, (entry_eq_some.mp h).2⟩

/-- Only the last `fd_put` of a structure frees it. -/
theorem Inv.freed (hi : Inv fdMax s) {a : FdAction} (hp : s.Proper a)
    (hexec : s.exec fdMax a = some s') (h : s.table.heap p ≠ none) :
    s'.table.heap p = none ↔ a = .put p ∧ s.refs p = 1 := by
  have hi' : Inv fdMax s' := Step.inv ⟨hexec, hp⟩ hi
  have hpos : 0 < s.refs p := by
    rw [hi.counted.heap] at h
    split_ifs at h with h0
    · exact absurd rfl h
    · omega
  have hgone : s'.table.heap p = none ↔ s'.refs p = 0 := by
    rw [hi'.counted.heap]
    split_ifs with h0
    · exact iff_of_true rfl h0
    · exact iff_of_false (by simp) h0
  rw [hgone]
  cases a with
  | new realloc calloc =>
      refine iff_of_false ?_ (by simp)
      obtain ⟨t, -, he, -⟩ | ⟨t, i, q, -, he, -, -, h0, -⟩ := new_cases hi hp
      · rw [Option.some.inj (hexec.symm.trans he)]
        exact hpos.ne'
      · rw [Option.some.inj (hexec.symm.trans he)]
        have hqp : p ≠ q := by
          rintro rfl
          omega
        show Function.update s.refs q 1 p ≠ 0
        rw [Function.update_of_ne hqp]
        exact hpos.ne'
  | get console fd =>
      refine iff_of_false ?_ (by simp)
      obtain ⟨-, he, -⟩ | ⟨t, q, -, he, -⟩ := get_cases hi console fd
      · rw [Option.some.inj (hexec.symm.trans he)]
        exact hpos.ne'
      · rw [Option.some.inj (hexec.symm.trans he)]
        show Function.update s.refs q (s.refs q + 1) p ≠ 0
        rw [Function.update_apply]
        split_ifs <;> omega
  | put q =>
      obtain ⟨t, he, -⟩ := put_cases hi hp
      rw [Option.some.inj (hexec.symm.trans he), FdAction.put.injEq]
      show Function.update s.refs q (s.refs q - 1) p = 0 ↔ q = p ∧ s.refs p = 1
      rw [Function.update_apply]
      split_ifs with hqp
      · subst hqp
        exact ⟨fun h => ⟨rfl, by omega⟩, fun h => by omega⟩
      · exact iff_of_false hpos.ne' fun h => hqp h.1.symm

/-- A call leaves the number of a descriptor that it does not free. -/
theorem Inv.keep (hi : Inv fdMax s) {a : FdAction} (hp : s.Proper a)
    (hexec : s.exec fdMax a = some s') (h : s.LiveAt fd p) (hlast : a ≠ .put p ∨ 1 < s.refs p) :
    s'.LiveAt fd p := by
  have hi' : Inv fdMax s' := Step.inv ⟨hexec, hp⟩ hi
  rw [hi'.liveAt_iff]
  rw [hi.liveAt_iff] at h
  cases a with
  | new realloc calloc =>
      obtain ⟨t, -, he, -, hs, -⟩ | ⟨t, i, q, -, he, -, -, -, hfree, hs⟩ := new_cases hi hp
      · rw [Option.some.inj (hexec.symm.trans he)]
        exact (hs fd p).mpr h
      · rw [Option.some.inj (hexec.symm.trans he)]
        refine (hs fd p).mpr ?_
        rw [if_neg fun hfd => ?_]
        · exact h
        · rw [hfd, entry_number] at h
          exact hfree p h
  | get console n =>
      obtain ⟨-, he, -⟩ | ⟨t, q, -, he, -, -, hs⟩ := get_cases hi console n
      · rw [Option.some.inj (hexec.symm.trans he)]
        exact h
      · rw [Option.some.inj (hexec.symm.trans he)]
        exact (hs fd p).mpr h
  | put q =>
      obtain ⟨t, he, -, hs⟩ := put_cases hi hp
      rw [Option.some.inj (hexec.symm.trans he)]
      refine hs fd p ?_ h
      by_cases hqp : p = q
      · subst hqp
        exact .inr (hlast.resolve_left fun h => h rfl)
      · exact .inl hqp

/-- What the table of descriptors promises in a state: each descriptor with references has one number and
one structure, which calls leave alone until the last reference is put. -/
structure Sound (fdMax : Nat) (s : FdSys) : Prop where
  number : ∀ p, 0 < s.refs p ↔ ∃! fd, s.LiveAt fd p
  heap : ∀ p, s.table.heap p = if s.refs p = 0 then none else some ⟨DFS_FD_MAGIC, s.refs p⟩
  defined : ∀ a, s.Proper a → ∃ s', s.exec fdMax a = some s'
  new : ∀ realloc calloc fd t, s.Proper (.new realloc calloc) →
    s.table.fdNew fdMax realloc calloc = some (fd, t) →
      (∀ p, ¬ s.LiveAt fd p) ∧
      (fd ≠ -1 → ∃ p, calloc = some p ∧ (s.take t (entry t fd)).LiveAt fd p) ∧
      (fd = -1 → (∀ i < fdMax, ∃ p, s.LiveAt ((i : Int) + DFS_FD_OFFSET) p) ∨ realloc = false ∨
        calloc = none)
  get : ∀ console fd q t, s.table.fdGet console fd = some (q, t) →
    (fd < 0 ∨ 2 < fd → ∀ p, q = some p ↔ s.LiveAt fd p) ∧
      (0 ≤ fd ∧ fd ≤ 2 → ∀ p, q = some p ↔ s.LiveAt console p)
  keep : ∀ a s' fd p, s.Proper a → s.exec fdMax a = some s' → s.LiveAt fd p →
    a ≠ .put p ∨ 1 < s.refs p → s'.LiveAt fd p
  freed : ∀ a s' p, s.Proper a → s.exec fdMax a = some s' → s.table.heap p ≠ none →
    (s'.table.heap p = none ↔ a = .put p ∧ s.refs p = 1)

theorem Inv.new (hi : Inv fdMax s) {realloc : Bool} {calloc : Option FdPtr} {t : FdTable}
    (hp : s.Proper (.new realloc calloc))
    (h : s.table.fdNew fdMax realloc calloc = some (fd, t)) :
    (∀ p, ¬ s.LiveAt fd p) ∧
      (fd ≠ -1 → ∃ p, calloc = some p ∧ (s.take t (entry t fd)).LiveAt fd p) ∧
      (fd = -1 → (∀ i < fdMax, ∃ p, s.LiveAt ((i : Int) + DFS_FD_OFFSET) p) ∨ realloc = false ∨
        calloc = none) := by
  obtain ⟨t', hnew, -, -, -, hwhy⟩ | ⟨t', i, p, hnew, -, -, rfl, -, hfree, hs⟩ := new_cases hi hp
  · obtain ⟨rfl, rfl⟩ := Prod.mk.inj (Option.some.inj (h.symm.trans hnew))
    refine ⟨fun p hp => ?_, fun h => absurd rfl h, fun _ => hwhy.imp_left fun hfull j hj => ?_⟩
    · exact absurd (entry_eq_some.mp hp.1).1 (by decide)
    · obtain ⟨p, hslot⟩ := hfull j hj
      exact ⟨p, hi.liveAt_iff.mpr ((entry_number j).mpr hslot)⟩
  · obtain ⟨rfl, rfl⟩ := Prod.mk.inj (Option.some.inj (h.symm.trans hnew))
    have hentry : entry t ((i : Int) + DFS_FD_OFFSET) = some p :=
      (hs _ p).mpr (by rw [if_pos rfl])
    refine ⟨fun q hq => hfree q ((entry_number i).mp hq.1), fun _ => ⟨p, rfl, hentry, ?_⟩,
      fun h => by omega⟩
    rw [hentry]
    show 0 < Function.update s.refs p (s.refs p + 1) p
    rw [Function.update_self]
    exact Nat.succ_pos _

theorem Inv.get (hi : Inv fdMax s) {q : Option FdPtr} {t : FdTable}
    (h : s.table.fdGet console fd = some (q, t)) :
    q = some p ↔ s.LiveAt (if 0 ≤ fd ∧ fd ≤ 2 then console else fd) p := by
  rw [hi.liveAt_iff]
  obtain ⟨hget, -, hno⟩ | ⟨t', r, hget, -, hr, -⟩ := get_cases hi console fd
  · obtain ⟨rfl, -⟩ := Prod.mk.inj (Option.some.inj (h.symm.trans hget))
    exact iff_of_false (by simp) (hno p)
  · obtain ⟨rfl, -⟩ := Prod.mk.inj (Option.some.inj (h.symm.trans hget))
    rw [hr]

/-- The table of descriptors in every state of every run; the numbers of the standard streams are those of
the console. -/
theorem fd_table (hr : Reachable (· = init) (Step fdMax) s) : s.Sound fdMax := by
  have hi := reachable_inv hr
  refine ⟨fun p => ⟨fun hpos => ?_, fun ⟨fd, hfd, _⟩ => hfd.2⟩, hi.counted.heap, fun a hp => ?_,
    fun realloc calloc fd t hp h => hi.new hp h, fun console fd q t h => ⟨fun hfd p => ?_,
      fun hfd p => ?_⟩, fun a s' fd p hp he h hl => hi.keep hp he h hl,
    fun a s' p hp he h => hi.freed hp he h⟩
  · obtain ⟨i, hslot⟩ := (hi.counted.slot p).mp hpos
    refine ⟨(i : Int) + DFS_FD_OFFSET, ⟨(entry_number i).mpr hslot, hpos⟩, fun fd hfd => ?_⟩
    obtain ⟨hle, hfd'⟩ := entry_eq_some.mp hfd.1
    have hfdi := hi.counted.unique _ _ _ hfd' hslot
    omega
  · obtain ⟨s', he, -⟩ := hi.exec hp
    exact ⟨s', he⟩
  · have hget := hi.get h (p := p)
    rwa [if_neg (by omega)] at hget
  · have hget := hi.get h (p := p)
    rwa [if_pos hfd] at hget

/-- The state after `fd_new` on the table of `dfs_init`. -/
theorem reachable_new {s' : FdSys} (h : exec 16 init (.new true (some 100)) = some s') :
    Reachable (· = init) (Step 16) s' :=
  have hp : init.Proper (.new true (some 100)) := fun _ _ => rfl
  have hstep : Step 16 init (.new true (some 100)) s' := ⟨h, hp⟩
  have h0 : Reachable (· = init) (Step 16) init := .init rfl
  h0.step hstep

theorem fd_table_console :
    ∃ s, exec 16 init (.new true (some 100)) = some s ∧ s.Sound 16 :=
  ⟨_, rfl, fd_table (reachable_new rfl)⟩

/-- The number 0 is not that of a descriptor, and `fd_get` returns the console for it. -/
theorem fd_get_stdin :
    ∃ s, Reachable (· = init) (Step 16) s ∧ s.LiveAt 3 100 ∧ (∀ p, ¬ s.LiveAt 0 p) ∧
      ∃ t, s.table.fdGet 3 0 = some (some 100, t) :=
  ⟨_, reachable_new rfl, ⟨rfl, by decide⟩, fun p hp => by simpa [entry, DFS_FD_OFFSET] using hp.1, _, rfl⟩

end FdSys

end RTThread.Dfs
