import RTThread.Dfs.FdTable

set_option autoImplicit false

/-! # The contents of a ramfs file (`dfs_ramfs.c`)

The bytes and the size of a file are in its directory entry, which all descriptors of the file share; each
descriptor has a size of its own besides, that of the file when it was opened or last written through this
descriptor. A `memcpy` that leaves the block is undefined: it is the result `none`. What the allocator
returns is an argument: the bytes of a block that `rt_memheap_realloc` makes larger are arbitrary.
-/

namespace RTThread.Dfs

open Trans (Reachable)

/-- A `size_t` after an addition or subtraction. -/
def u32 (x : Int) : Nat := (x % 2 ^ 32).toNat

/-- The fields `data` and `size` of `struct ramfs_dirent`. -/
structure FileData where
  data : List UInt8
  size : Nat

/-- The fields `size` and `pos` of `struct dfs_fd`. -/
structure RamfsFd where
  size : Nat
  pos : Int

/-- `memcpy` from the block at `data`. -/
def loadBytes (data : List UInt8) (pos : Int) (length : Nat) : Option (List UInt8) :=
  if length = 0 then some []
  else if 0 ≤ pos ∧ pos.toNat + length ≤ data.length then some ((data.drop pos.toNat).take length)
  else none

/-- `memcpy` to the block at `data`. -/
def storeBytes (data : List UInt8) (pos : Int) (buf : List UInt8) : Option (List UInt8) :=
  if buf = [] then some data
  else if 0 ≤ pos ∧ pos.toNat + buf.length ≤ data.length then
    some (data.take pos.toNat ++ buf ++ data.drop (pos.toNat + buf.length))
  else none

/-- The block after `rt_memheap_realloc` to `n` bytes. -/
def resized (data : List UInt8) (n : Nat) (fresh : Nat → UInt8) : List UInt8 :=
  (List.range n).map fun i => data.getD i (fresh i)

/-- `dfs_ramfs_read`. -/
def ramfsRead (file : FileData) (fd : RamfsFd) (count : Nat) : Option (List UInt8 × RamfsFd) := do
  let length := if count < u32 (fd.size - fd.pos) then count else u32 (fd.size - fd.pos)
  let buf ← loadBytes file.data fd.pos length
  -- update file current position
  some (buf, { fd with pos := i32 (fd.pos + length) })

/-- `dfs_ramfs_write`. -/
def ramfsWrite (file : FileData) (fd : RamfsFd) (buf : List UInt8) (realloc : Option (Nat → UInt8)) :
    Option (Nat × FileData × RamfsFd) :=
  if u32 (buf.length + fd.pos) > fd.size then
    match realloc with
    | none => some (0, file, fd)
    | some fresh => do
        let size := u32 (fd.pos + buf.length)
        let data ← storeBytes (resized file.data size fresh) fd.pos buf
        -- update dirent and file size
        some (buf.length, ⟨data, size⟩, ⟨size, i32 (fd.pos + buf.length)⟩)
  else do
    let data ← storeBytes file.data fd.pos buf
    some (buf.length, { file with data := data }, { fd with pos := i32 (fd.pos + buf.length) })

def EIO : Int := 5

/-- `dfs_ramfs_lseek`. -/
def ramfsLseek (fd : RamfsFd) (offset : Int) : Int × RamfsFd :=
  if offset ≤ i32 fd.size then (offset, { fd with pos := offset }) else (- EIO, fd)

/-- `dfs_file_lseek`. -/
def dfsFileLseek (fd : RamfsFd) (offset : Int) : Int × RamfsFd :=
  let r := ramfsLseek fd offset
  -- update current position
  (r.1, if 0 ≤ r.1 then { r.2 with pos := r.1 } else r.2)

/-- The flags of `dfs_ramfs_open` for a file. -/
structure OpenFlags where
  creat : Bool
  wronly : Bool
  trunc : Bool
  append : Bool

/-- `dfs_ramfs_open` from the directory entry on. -/
def openEntry (file : FileData) (flags : OpenFlags) : FileData × RamfsFd :=
  -- if the file is existing, it is truncated and overwritten
  let file := if flags.trunc then ⟨[], 0⟩ else file
  (file, ⟨file.size, if flags.append then i32 file.size else 0⟩)

/-- `dfs_ramfs_open` of a file that may be there; `alloc` says whether an entry can be allocated. Nothing
is an error. -/
def ramfsOpen (file : Option FileData) (flags : OpenFlags) (alloc : Bool) :
    Option (FileData × RamfsFd) :=
  match file with
  | some file => some (openEntry file flags)
  | none =>
      if flags.creat = false ∧ flags.wronly = false then none
      -- create a file entry
      else if alloc = false then none
      else some (openEntry ⟨[], 0⟩ flags)

/-! ## Calls -/

/-- The file, if it is there, and its descriptors. -/
structure FileSys where
  file : Option FileData
  fds : Nat → Option RamfsFd

inductive FileAction
  | opens (n : Nat) (flags : OpenFlags) (alloc : Bool)
  | read (n count : Nat)
  | write (n : Nat) (buf : List UInt8) (realloc : Option (Nat → UInt8))
  | lseek (n : Nat) (offset : Int)
  | close (n : Nat)

inductive FileAnswer
  | failed | opened | closed
  | bytes (buf : List UInt8)
  | written (count : Nat)
  | sought (result : Int)

namespace FileSys

def setFd (s : FileSys) (n : Nat) (fd : Option RamfsFd) : FileSys :=
  { s with fds := Function.update s.fds n fd }

/-- The calls: a descriptor that is not open is opened, and one that is open is used. -/
def exec (s : FileSys) : FileAction → Option (FileAnswer × FileSys)
  | .opens n flags alloc =>
      if (s.fds n).isSome then none
      else
        match ramfsOpen s.file flags alloc with
        | none => some (.failed, s)
        | some (file, fd) => some (.opened, { s with file := some file }.setFd n fd)
  | .read n count => do
      let file ← s.file
      let fd ← s.fds n
      let (buf, fd) ← ramfsRead file fd count
      some (.bytes buf, s.setFd n fd)
  | .write n buf realloc => do
      let file ← s.file
      let fd ← s.fds n
      let (count, file, fd) ← ramfsWrite file fd buf realloc
      some (.written count, { s with file := some file }.setFd n fd)
  | .lseek n offset => do
      let fd ← s.fds n
      some (.sought (dfsFileLseek fd offset).1, s.setFd n (dfsFileLseek fd offset).2)
  | .close n => do
      let _ ← s.fds n
      some (.closed, s.setFd n none)

def init : FileSys := ⟨none, fun _ => none⟩

/-- The call is for a descriptor in the right state. -/
def Calls (s : FileSys) : FileAction → Prop
  | .opens n _ _ => s.fds n = none
  | .read n _ => s.fds n ≠ none
  | .write n _ _ => s.fds n ≠ none
  | .lseek n _ => s.fds n ≠ none
  | .close n => s.fds n ≠ none

/-- Where the size that the descriptor keeps does not matter. -/
def Careful (s : FileSys) : FileAction → Prop
  | .read n count => ∀ file fd, s.file = some file → s.fds n = some fd →
      min count (fd.size - fd.pos.toNat) = min count (file.size - fd.pos.toNat)
  | .write n buf realloc => ∀ file fd, s.file = some file → s.fds n = some fd →
      fd.pos + buf.length < 2 ^ 31 ∧
        (buf = [] ∨
          if (fd.size : Int) < fd.pos + buf.length then
            realloc = none ∨ fd.pos ≤ file.size ∧ (file.size : Int) ≤ fd.pos + buf.length
          else fd.pos + buf.length ≤ file.size)
  | .lseek _ offset => 0 ≤ offset
  | _ => True

def Step (s : FileSys) (a : FileAction) (s' : FileSys) : Prop :=
  (∃ r, s.exec a = some (r, s')) ∧ s.Careful a

end FileSys

/-! ## One shared array of bytes -/

/-- The bytes from `pos` on are `buf`; a gap in front of them is filled with zeros. -/
def overwrite (l : List UInt8) (pos : Nat) (buf : List UInt8) : List UInt8 :=
  if buf = [] then l
  else l.take pos ++ List.replicate (pos - l.length) 0 ++ buf ++ l.drop (pos + buf.length)

/-- The bytes of the file, and the positions of the descriptors. -/
structure SharedFile where
  bytes : Option (List UInt8)
  pos : Nat → Option Nat

namespace SharedFile

def setPos (f : SharedFile) (n : Nat) (p : Option Nat) : SharedFile :=
  { f with pos := Function.update f.pos n p }

/-- What a call may answer and do. -/
def Step (f : SharedFile) (a : FileAction) (r : FileAnswer) (f' : SharedFile) : Prop :=
  match a with
  | .opens n flags alloc =>
      (f.bytes = none ∧ (flags.creat = false ∧ flags.wronly = false ∨ alloc = false) ∧
        r = .failed ∧ f' = f) ∨
      (f.bytes ≠ none ∨ flags.creat ∨ flags.wronly) ∧
        ∃ l, l = (if flags.trunc then [] else f.bytes.getD []) ∧ r = .opened ∧
        f' = { f with bytes := some l }.setPos n (some (if flags.append then l.length else 0))
  | .read n count => ∃ l p, f.bytes = some l ∧ f.pos n = some p ∧
      r = .bytes ((l.drop p).take count) ∧
        f' = f.setPos n (some (p + ((l.drop p).take count).length))
  | .write n buf realloc => ∃ l p, f.bytes = some l ∧ f.pos n = some p ∧
      (buf ≠ [] ∧ realloc.isNone ∧ r = .written 0 ∧ f' = f ∨
        r = .written buf.length ∧
          f' = { f with bytes := some (overwrite l p buf) }.setPos n (some (p + buf.length)))
  | .lseek n offset => r = .sought (- EIO) ∧ f' = f ∨
      r = .sought offset ∧ 0 ≤ offset ∧ f' = f.setPos n (some offset.toNat)
  | .close n => r = .closed ∧ f' = f.setPos n none

end SharedFile

/-- What the directory entry and the descriptors stand for. -/
def FileSys.shared (s : FileSys) : SharedFile where
  bytes := s.file.map FileData.data
  pos n := (s.fds n).map fun fd => fd.pos.toNat

/-! ## Reading and writing through one descriptor -/

section Access

variable {file : FileData} {fd : RamfsFd} {data buf : List UInt8} {p count : Nat}

theorem u32_small {x : Int} {m : Nat} (h : x = m) (hm : m < 2 ^ 32) : u32 x = m := by
  subst h
  unfold u32
  omega

theorem i32_nat {x : Int} {m : Nat} (h : x = m) (hm : m < 2 ^ 31) : i32 x = m := by
  subst h
  unfold i32
  rw [Int.bmod_eq_of_le_mul_two] <;> omega

theorem loadBytes_eq (h : p + count ≤ data.length ∨ count = 0) :
    loadBytes data p count = some ((data.drop p).take count) := by
  unfold loadBytes
  split_ifs with h0 hin
  · rw [h0, List.take_zero]
  · rw [Int.toNat_natCast]
  · exact absurd ⟨Int.natCast_nonneg p, by simpa using h.resolve_right h0⟩ hin

theorem storeBytes_eq (h : p + buf.length ≤ data.length) (hne : buf ≠ []) :
    storeBytes data p buf = some (data.take p ++ buf ++ data.drop (p + buf.length)) := by
  unfold storeBytes
  rw [if_neg hne, Int.toNat_natCast, if_pos ⟨Int.natCast_nonneg p, h⟩]

theorem length_resized (n : Nat) (fresh : Nat → UInt8) : (resized data n fresh).length = n := by
  simp [resized]

/-- `rt_memheap_realloc` keeps the first bytes. -/
theorem take_resized {n : Nat} {fresh : Nat → UInt8} (hp : p ≤ data.length) (hn : p ≤ n) :
    (resized data n fresh).take p = data.take p := by
  refine List.ext_getElem (by simp [resized]; omega) fun i h₁ h₂ => ?_
  have hi : i < data.length := by
    rw [List.length_take] at h₂
    omega
  simp [resized, hi]

theorem length_overwrite (hne : buf ≠ []) :
    (overwrite data p buf).length = max data.length (p + buf.length) := by
  unfold overwrite
  rw [if_neg hne]
  simp only [List.length_append, List.length_take, List.length_replicate, List.length_drop]
  omega

/-- What `dfs_ramfs_read` returns, where the size of the descriptor does not matter. -/
theorem ramfsRead_eq (hsize : file.size = file.data.length) (hpos : fd.pos = p) (hp : p ≤ fd.size)
    (hfd : fd.size < 2 ^ 31)
    (h : min count (fd.size - p) = min count (file.size - p)) :
    ramfsRead file fd count = some ((file.data.drop p).take count,
      { fd with pos := (p + ((file.data.drop p).take count).length : Nat) }) := by
  have havail : u32 (fd.size - fd.pos) = fd.size - p := u32_small (by omega) (by omega)
  have hlength : (if count < fd.size - p then count else fd.size - p) =
      min count (file.data.length - p) := by
    rw [hsize] at h
    split_ifs <;> omega
  have hlen : ((file.data.drop p).take count).length = min count (file.data.length - p) := by
    rw [List.length_take, List.length_drop]
  have htake : (file.data.drop p).take (min count (file.data.length - p)) =
      (file.data.drop p).take count := by
    rw [← List.length_drop, Nat.min_comm, ← List.take_take,
      List.take_of_length_le (List.length_take_le' _ _)]
  have hload : loadBytes file.data fd.pos (min count (file.data.length - p)) =
      some ((file.data.drop p).take count) := by
    rw [hpos, loadBytes_eq (by omega), htake]
  have hend : i32 (fd.pos + (min count (file.data.length - p) : Nat)) =
      (p + min count (file.data.length - p) : Nat) := i32_nat (by omega) (by omega)
  unfold ramfsRead
  simp only [havail, hlength, hload, Option.bind_eq_bind, Option.bind_some, hend, hlen]

/-- What `dfs_ramfs_write` does, where the size of the descriptor does not matter: without memory nothing,
and else it overwrites the bytes at the position. -/
theorem ramfsWrite_cases {realloc : Option (Nat → UInt8)} (hsize : file.size = file.data.length)
    (hpos : fd.pos = p) (hp : p ≤ fd.size) (hfd : fd.size < 2 ^ 31)
    (hend : p + buf.length < 2 ^ 31)
    (h : buf = [] ∨ if fd.size < p + buf.length then
        realloc = none ∨ p ≤ file.size ∧ file.size ≤ p + buf.length
      else p + buf.length ≤ file.size) :
    (buf ≠ [] ∧ realloc = none ∧ ramfsWrite file fd buf realloc = some (0, file, fd)) ∨
      ∃ file' fd', ramfsWrite file fd buf realloc = some (buf.length, file', fd') ∧
        file'.data = overwrite file.data p buf ∧ file'.size = file'.data.length ∧
        fd'.pos = (p + buf.length : Nat) ∧ p + buf.length ≤ fd'.size ∧ fd'.size < 2 ^ 31 ∧
        (file.size < 2 ^ 31 → file'.size < 2 ^ 31) := by
  have hsum : u32 (buf.length + fd.pos) = p + buf.length := u32_small (by omega) (by omega)
  have hsum' : u32 (fd.pos + buf.length) = p + buf.length := u32_small (by omega) (by omega)
  have hnext : i32 (fd.pos + buf.length) = (p + buf.length : Nat) := i32_nat (by omega) (by omega)
  unfold ramfsWrite
  rw [hsum, hsum', hnext]
  by_cases hgrow : p + buf.length > fd.size
  · have hne : buf ≠ [] := by
      rintro rfl
      rw [List.length_nil] at hgrow
      omega
    rw [if_pos hgrow]
    cases realloc with
    | none => exact .inl ⟨hne, rfl, rfl⟩
    | some fresh =>
        right
        have hrange := h.resolve_left hne
        rw [if_pos hgrow] at hrange
        obtain ⟨hle, hge⟩ := hrange.resolve_left (by simp)
        rw [hsize] at hle hge
        have hlen : (resized file.data (p + buf.length) fresh).length = p + buf.length :=
          length_resized _ _
        have hstore : storeBytes (resized file.data (p + buf.length) fresh) fd.pos buf =
            some (overwrite file.data p buf) := by
          rw [hpos, storeBytes_eq hlen.ge hne, take_resized hle (by omega),
            List.drop_of_length_le hlen.le, overwrite, if_neg hne, List.drop_of_length_le hge,
            Nat.sub_eq_zero_of_le hle, List.replicate_zero, List.append_nil (List.take p file.data)]
        refine ⟨⟨overwrite file.data p buf, p + buf.length⟩, ⟨p + buf.length, (p + buf.length : Nat)⟩,
          ?_, rfl, ?_, rfl, Nat.le_refl _, hend, fun _ => hend⟩
        · simp only [hstore, Option.bind_eq_bind, Option.bind_some]
        · show p + buf.length = (overwrite file.data p buf).length
          rw [length_overwrite hne]
          omega
  · rw [if_neg hgrow]
    right
    have hstore : storeBytes file.data fd.pos buf = some (overwrite file.data p buf) ∧
        file.size = (overwrite file.data p buf).length := by
      by_cases hne : buf = []
      · rw [hne, storeBytes, if_pos rfl, overwrite, if_pos rfl]
        exact ⟨rfl, hsize⟩
      · have hin := h.resolve_left hne
        rw [if_neg hgrow, hsize] at hin
        refine ⟨?_, ?_⟩
        · rw [hpos, storeBytes_eq hin hne, overwrite, if_neg hne, Nat.sub_eq_zero_of_le (by omega),
            List.replicate_zero, List.append_nil (List.take p file.data)]
        · rw [length_overwrite hne]
          omega
    refine ⟨⟨overwrite file.data p buf, file.size⟩, ⟨fd.size, (p + buf.length : Nat)⟩, ?_, rfl,
      hstore.2, rfl, Nat.not_lt.mp hgrow, hfd, id⟩
    simp only [hstore.1, Option.bind_eq_bind, Option.bind_some]

end Access

/-! ## Runs -/

namespace FileSys

variable {s s' : FileSys} {a : FileAction} {n : Nat}

/-- The size of the entry is the length of the block, and no position is behind the size that the
descriptor keeps. -/
structure Inv (s : FileSys) : Prop where
  size : ∀ file, s.file = some file → file.size = file.data.length ∧ file.size < 2 ^ 31
  pos : ∀ n fd, s.fds n = some fd →
    s.file ≠ none ∧ ∃ p : Nat, fd.pos = p ∧ p ≤ fd.size ∧ fd.size < 2 ^ 31

theorem init_inv : Inv init where
  size _ h := by cases h
  pos _ _ h := by cases h

/-- A descriptor opened, moved or closed; the file changed. -/
theorem Inv.update (hi : Inv s) {file : FileData} (hfile : file.size = file.data.length)
    (hlt : file.size < 2 ^ 31) {fd : Option RamfsFd}
    (hfd : ∀ d, fd = some d → ∃ p : Nat, d.pos = p ∧ p ≤ d.size ∧ d.size < 2 ^ 31) :
    Inv ({ s with file := some file }.setFd n fd) := by
  refine ⟨fun f hf => ?_, fun m d hd => ⟨by simp [setFd], ?_⟩⟩
  · rw [← Option.some.inj hf]
    exact ⟨hfile, hlt⟩
  · by_cases hm : m = n
    · subst hm
      have hd' : fd = some d := by simpa [setFd] using hd
      exact hfd d hd'
    · have hd' : s.fds m = some d := by simpa [setFd, hm] using hd
      exact (hi.pos m d hd').2

theorem setFd_shared (s : FileSys) (n : Nat) (fd : Option RamfsFd) :
    (s.setFd n fd).shared = s.shared.setPos n (fd.map fun d => d.pos.toNat) := by
  unfold setFd shared SharedFile.setPos
  congr 1
  funext m
  by_cases hm : m = n
  · subst hm
    simp
  · simp [hm]

/-- `dfs_file_lseek` to a position that is not negative. -/
theorem dfsFileLseek_cases (fd : RamfsFd) {offset : Int} (h : 0 ≤ offset) :
    dfsFileLseek fd offset = (- EIO, fd) ∨
      offset ≤ i32 fd.size ∧ dfsFileLseek fd offset = (offset, { fd with pos := offset }) := by
  obtain hle | hgt := le_or_gt offset (i32 fd.size)
  · have hseek : ramfsLseek fd offset = (offset, { fd with pos := offset }) := by
      rw [ramfsLseek, if_pos hle]
    exact .inr ⟨hle, by rw [dfsFileLseek, hseek, if_pos h]⟩
  · have hseek : ramfsLseek fd offset = (- EIO, fd) := by
      rw [ramfsLseek, if_neg (not_le.mpr hgt)]
    have hneg : ¬ (0 : Int) ≤ - EIO := by decide
    exact .inl (by rw [dfsFileLseek, hseek, if_neg hneg])

/-- A call of `dfs_ramfs_open`. -/
theorem exec_opens (hi : Inv s) (hc : s.fds n = none) (flags : OpenFlags) (alloc : Bool) :
    ∃ r s', s.exec (.opens n flags alloc) = some (r, s') ∧ Inv s' ∧
      s.shared.Step (.opens n flags alloc) r s'.shared := by
  have hnot : (s.fds n).isSome = false := by rw [hc]; rfl
  have hentry : ∀ file : FileData, file.size = file.data.length → file.size < 2 ^ 31 →
      s.shared.bytes.getD [] = file.data →
      s.shared.bytes ≠ none ∨ flags.creat = true ∨ flags.wronly = true →
      ramfsOpen s.file flags alloc = some (openEntry file flags) →
      ∃ r s', s.exec (.opens n flags alloc) = some (r, s') ∧ Inv s' ∧
        s.shared.Step (.opens n flags alloc) r s'.shared := by
    intro file hsize hlt hbytes hmay hopen
    obtain ⟨file', hfile'⟩ : ∃ file', file' = (if flags.trunc then (⟨[], 0⟩ : FileData) else file) :=
      ⟨_, rfl⟩
    have hsize' : file'.size = file'.data.length ∧ file'.size < 2 ^ 31 := by
      rw [hfile']
      split_ifs
      · exact ⟨rfl, by norm_num⟩
      · exact ⟨hsize, hlt⟩
    have hdata : file'.data = if flags.trunc then [] else file.data := by
      rw [hfile']
      split_ifs <;> rfl
    have hpos : (if flags.append then i32 file'.size else 0) =
        ((if flags.append then file'.data.length else 0 : Nat) : Int) := by
      split_ifs
      · exact i32_nat (by rw [hsize'.1]) (by omega)
      · rfl
    have hres : openEntry file flags =
        (file', ⟨file'.size, ((if flags.append then file'.data.length else 0 : Nat) : Int)⟩) := by
      rw [← hpos, hfile']
      rfl
    refine ⟨.opened, _, by simp only [exec, hnot, hopen, hres]; rfl, hi.update hsize'.1 hsize'.2 ?_,
      .inr ⟨hmay, file'.data, ?_, rfl, ?_⟩⟩
    · intro d hd
      rw [← Option.some.inj hd]
      refine ⟨_, rfl, ?_, hsize'.2⟩
      show (if flags.append then file'.data.length else 0) ≤ file'.size
      split_ifs
      · exact hsize'.1.ge
      · exact Nat.zero_le _
    · rw [hbytes, hdata]
    · rw [setFd_shared]
      rfl
  cases hfile : s.file with
  | some file =>
      obtain ⟨hsize, hlt⟩ := hi.size file hfile
      have hbytes : s.shared.bytes = some file.data := by
        show s.file.map FileData.data = _
        rw [hfile]
        rfl
      refine hentry file hsize hlt (by rw [hbytes]; rfl) (.inl (by rw [hbytes]; simp)) ?_
      rw [hfile]
      rfl
  | none =>
      have hbytes : s.shared.bytes = none := by
        show s.file.map FileData.data = _
        rw [hfile]
        rfl
      by_cases hflags : flags.creat = false ∧ flags.wronly = false
      · have hopen : ramfsOpen s.file flags alloc = none := by
          rw [hfile]
          exact if_pos hflags
        exact ⟨.failed, s, by simp only [exec, hnot, hopen]; rfl, hi,
          .inl ⟨hbytes, .inl hflags, rfl, rfl⟩⟩
      · cases alloc with
        | false =>
            have hopen : ramfsOpen s.file flags false = none := by
              rw [hfile, ramfsOpen, if_neg hflags, if_pos rfl]
            exact ⟨.failed, s, by simp only [exec, hnot, hopen]; rfl, hi,
              .inl ⟨hbytes, .inr rfl, rfl, rfl⟩⟩
        | true =>
            have hmay : flags.creat = true ∨ flags.wronly = true := by
              cases hcreat : flags.creat <;> cases hwronly : flags.wronly <;> simp_all
            refine hentry ⟨[], 0⟩ rfl (by norm_num) (by rw [hbytes]; rfl) (.inr hmay) ?_
            rw [hfile, ramfsOpen, if_neg hflags, if_neg (by simp)]

/-- **One call** on a descriptor, where its size does not matter: it is defined, and does what it does to
the shared bytes. -/
theorem Inv.exec (hi : Inv s) (hc : s.Calls a) (ha : s.Careful a) :
    ∃ r s', s.exec a = some (r, s') ∧ Inv s' ∧ s.shared.Step a r s'.shared := by
  cases a with
  | opens n flags alloc => exact exec_opens hi hc flags alloc
  | read n count =>
      obtain ⟨fd, hfd⟩ := Option.ne_none_iff_exists'.mp hc
      obtain ⟨hf, p, hpos, hp, hlt⟩ := hi.pos n fd hfd
      obtain ⟨file, hfile⟩ := Option.ne_none_iff_exists'.mp hf
      obtain ⟨hsize, hflt⟩ := hi.size file hfile
      have hcare := ha file fd hfile hfd
      rw [hpos, Int.toNat_natCast] at hcare
      have hread := ramfsRead_eq hsize hpos hp hlt hcare
      have hlen : ((file.data.drop p).take count).length = min count (file.size - p) := by
        rw [List.length_take, List.length_drop, hsize]
      have hself : ({ s with file := some file } : FileSys) = s := by rw [← hfile]
      have hshared : s.shared.bytes = some file.data ∧ s.shared.pos n = some p := by
        refine ⟨by rw [shared, hfile]; rfl, ?_⟩
        show (s.fds n).map _ = _
        rw [hfd, Option.map_some, hpos, Int.toNat_natCast]
      refine ⟨_, s.setFd n (some _), by
        simp only [FileSys.exec, hfile, hfd, hread, Option.bind_eq_bind, Option.bind_some]; rfl, ?_,
        file.data, p, hshared.1, hshared.2, rfl, by rw [setFd_shared]; rfl⟩
      rw [← hself]
      refine hi.update hsize hflt fun d hd => ?_
      rw [← Option.some.inj hd]
      refine ⟨p + ((file.data.drop p).take count).length, rfl, ?_, hlt⟩
      show p + ((file.data.drop p).take count).length ≤ fd.size
      omega
  | write n buf realloc =>
      obtain ⟨fd, hfd⟩ := Option.ne_none_iff_exists'.mp hc
      obtain ⟨hf, p, hpos, hp, hlt⟩ := hi.pos n fd hfd
      obtain ⟨file, hfile⟩ := Option.ne_none_iff_exists'.mp hf
      obtain ⟨hsize, hflt⟩ := hi.size file hfile
      obtain ⟨hend, hcare⟩ := ha file fd hfile hfd
      rw [hpos] at hend hcare
      have hself : ({ s with file := some file } : FileSys).setFd n (some fd) = s := by
        rw [← hfile, setFd, ← hfd, Function.update_eq_self]
      have hshared : s.shared.bytes = some file.data ∧ s.shared.pos n = some p := by
        refine ⟨by rw [shared, hfile]; rfl, ?_⟩
        show (s.fds n).map _ = _
        rw [hfd, Option.map_some, hpos, Int.toNat_natCast]
      obtain ⟨hne, hnone, hwrite⟩ | ⟨file', fd', hwrite, hdata, hsize', hpos', hle, hlt', hflt'⟩ :=
        ramfsWrite_cases hsize hpos hp hlt (by exact_mod_cast hend) (by exact_mod_cast hcare)
      · refine ⟨.written 0, s, ?_, hi, file.data, p, hshared.1, hshared.2,
          .inl ⟨hne, by rw [hnone]; rfl, rfl, rfl⟩⟩
        simp only [FileSys.exec, hfile, hfd, hwrite, Option.bind_eq_bind, Option.bind_some, hself]
      · refine ⟨.written buf.length, { s with file := some file' }.setFd n (some fd'), ?_, ?_,
          file.data, p, hshared.1, hshared.2, .inr ⟨rfl, ?_⟩⟩
        · simp only [FileSys.exec, hfile, hfd, hwrite, Option.bind_eq_bind, Option.bind_some]
        · refine hi.update hsize' (hflt' hflt) fun d hd => ?_
          rw [← Option.some.inj hd]
          exact ⟨_, hpos', hle, hlt'⟩
        · rw [setFd_shared, Option.map_some, hpos', Int.toNat_natCast]
          show SharedFile.setPos ⟨some file'.data, _⟩ _ _ = _
          rw [hdata]
          rfl
  | lseek n offset =>
      obtain ⟨fd, hfd⟩ := Option.ne_none_iff_exists'.mp hc
      obtain ⟨hf, p, hpos, hp, hlt⟩ := hi.pos n fd hfd
      obtain ⟨file, hfile⟩ := Option.ne_none_iff_exists'.mp hf
      obtain ⟨hsize, hflt⟩ := hi.size file hfile
      have h0 : 0 ≤ offset := ha
      have hself : s.setFd n (some fd) = s := by
        rw [setFd, ← hfd, Function.update_eq_self]
      obtain hres | ⟨hle, hres⟩ := dfsFileLseek_cases fd h0
      · refine ⟨.sought (- EIO), s, ?_, hi, .inl ⟨rfl, rfl⟩⟩
        simp only [FileSys.exec, hfd, hres, Option.bind_eq_bind, Option.bind_some, hself]
      · refine ⟨.sought offset, s.setFd n (some { fd with pos := offset }), ?_, ?_,
          .inr ⟨rfl, h0, ?_⟩⟩
        · simp only [FileSys.exec, hfd, hres, Option.bind_eq_bind, Option.bind_some]
        · have hself' : ({ s with file := some file } : FileSys) = s := by rw [← hfile]
          rw [← hself']
          refine hi.update hsize hflt fun d hd => ?_
          rw [← Option.some.inj hd]
          rw [i32_nat rfl hlt] at hle
          have hpos' : offset = offset.toNat := (Int.toNat_of_nonneg h0).symm
          exact ⟨offset.toNat, hpos', by show offset.toNat ≤ fd.size; omega, hlt⟩
        · rw [setFd_shared]
          rfl
  | close n =>
      obtain ⟨fd, hfd⟩ := Option.ne_none_iff_exists'.mp hc
      obtain ⟨hf, -⟩ := hi.pos n fd hfd
      obtain ⟨file, hfile⟩ := Option.ne_none_iff_exists'.mp hf
      obtain ⟨hsize, hflt⟩ := hi.size file hfile
      have hself' : ({ s with file := some file } : FileSys) = s := by rw [← hfile]
      refine ⟨.closed, s.setFd n none, ?_, ?_, rfl, by rw [setFd_shared]; rfl⟩
      · simp only [FileSys.exec, hfd, Option.bind_eq_bind, Option.bind_some]
      · rw [← hself']
        exact hi.update hsize hflt fun d hd => by cases hd

/-- A call that is defined is for a descriptor in the right state. -/
theorem calls_of_exec {r : FileAnswer} (h : s.exec a = some (r, s')) : s.Calls a := by
  cases a with
  | opens n flags alloc =>
      by_contra hopen
      have hsome : (s.fds n).isSome = true := Option.isSome_iff_ne_none.mpr hopen
      simp only [exec, hsome, if_true] at h
      cases h
  | read n count =>
      obtain ⟨file, -, h⟩ := Option.bind_eq_some_iff.mp h
      obtain ⟨fd, hfd, -⟩ := Option.bind_eq_some_iff.mp h
      exact Option.ne_none_iff_exists'.mpr ⟨fd, hfd⟩
  | write n buf realloc =>
      obtain ⟨file, -, h⟩ := Option.bind_eq_some_iff.mp h
      obtain ⟨fd, hfd, -⟩ := Option.bind_eq_some_iff.mp h
      exact Option.ne_none_iff_exists'.mpr ⟨fd, hfd⟩
  | lseek n offset =>
      obtain ⟨fd, hfd, -⟩ := Option.bind_eq_some_iff.mp h
      exact Option.ne_none_iff_exists'.mpr ⟨fd, hfd⟩
  | close n =>
      obtain ⟨fd, hfd, -⟩ := Option.bind_eq_some_iff.mp h
      exact Option.ne_none_iff_exists'.mpr ⟨fd, hfd⟩

theorem Step.inv (h : Step s a s') (hi : Inv s) : Inv s' := by
  obtain ⟨⟨r, hexec⟩, hcare⟩ := h
  obtain ⟨r', t, ht, hi', -⟩ := hi.exec (calls_of_exec hexec) hcare
  rw [(Prod.mk.inj (Option.some.inj (hexec.symm.trans ht))).2]
  exact hi'

/-- **A ramfs file is one shared array of bytes** in every run of the calls that do not depend on the size
which a descriptor keeps: the directory entry has the length of the block, and every call is defined and
answers as the shared array does. -/
theorem ramfs_shared (hr : Reachable (· = init) Step s) :
    (∀ file, s.file = some file → file.size = file.data.length) ∧
      ∀ a, s.Calls a → s.Careful a →
        ∃ r s', s.exec a = some (r, s') ∧ s.shared.Step a r s'.shared := by
  have hi : Inv s := hr.invariant (fun _ h => h ▸ init_inv) fun _ _ _ _ hi h => Step.inv h hi
  refine ⟨fun file hfile => (hi.size file hfile).1, fun a hc ha => ?_⟩
  obtain ⟨r, s', hexec, -, hstep⟩ := hi.exec hc ha
  exact ⟨r, s', hexec, hstep⟩

section Cases

/-- A descriptor of a file that was created with it. -/
def created : FileSys := ⟨some ⟨[], 0⟩, Function.update (fun _ => none) 0 (some ⟨0, 0⟩)⟩

theorem reachable_created : Reachable (· = init) Step created := by
  have h₀ : Reachable (· = init) Step init := .init rfl
  have h₁ : Step init (.opens 0 ⟨true, false, false, false⟩ true) created := ⟨⟨_, rfl⟩, trivial⟩
  exact h₀.step h₁

theorem ramfs_shared_created :
    ∃ r s', created.exec (.read 0 4) = some (r, s') ∧ created.shared.Step (.read 0 4) r s'.shared := by
  refine (ramfs_shared reachable_created).2 (.read 0 4) ?_ fun file fd hfile hfd => ?_
  · show created.fds 0 ≠ none
    simp [created]
  · obtain rfl : (⟨[], 0⟩ : FileData) = file := Option.some.inj hfile
    obtain rfl : (⟨0, 0⟩ : RamfsFd) = fd := Option.some.inj hfd
    rfl

/-- Two descriptors of an empty file; through the first one four bytes are written. -/
theorem reads_stale_size :
    ∃ s s', Reachable (· = init) (fun s a s' => ∃ r, s.exec a = some (r, s')) s ∧
      s.shared.bytes = some [1, 2, 3, 4] ∧ s.shared.pos 1 = some 0 ∧
      s.exec (.read 1 4) = some (.bytes [], s') := by
  have h₀ : Reachable (· = init) (fun s a s' => ∃ r, s.exec a = some (r, s')) init := .init rfl
  have h₁ := h₀.step (a := .opens 0 ⟨true, false, false, false⟩ true) ⟨_, rfl⟩
  have h₂ := h₁.step (a := .opens 1 ⟨false, false, false, false⟩ true) ⟨_, rfl⟩
  have h₃ := h₂.step (a := .write 0 [1, 2, 3, 4] (some fun _ => 0)) ⟨_, rfl⟩
  exact ⟨_, _, h₃, rfl, rfl, rfl⟩

end Cases

end FileSys

end RTThread.Dfs
