import Mathlib.Data.List.TakeWhile
import RTThread.Lib.Paths

set_option autoImplicit false

/-! # Paths of the file system layer (`dfs.c`, `dfs_fs.c`)

`dfs_normalize_path` rewrites a path in the buffer that holds it: `src` runs over the path, and what is
kept is written at `dst`. Here the buffer is the list of its characters, a terminating null character
among them, and a pointer into it is an index. An access outside the buffer is the fault `outside`; the
fuel of a loop counts its rounds.

The configuration is that of the board: `DFS_USING_WORKDIR` is defined.
-/

namespace RTThread.Dfs

/-- A C string: characters without the null character that ends it. -/
structure CString where
  chars : List Char
  noNul : '\x00' ∉ chars

namespace CString

/-- `s[i]`, for an `i` up to the end of the string. -/
def get (s : CString) (i : Nat) : Char := s.chars.getD i '\x00'

/-- `strlen(s)`. -/
def strlen (s : CString) : Nat := s.chars.length

/-- A path that starts at the root. -/
def Absolute (s : CString) : Prop := s.get 0 = '/'

instance decidableAbsolute (s : CString) : Decidable s.Absolute := decEq _ _

end CString

/-! ## The buffer -/

inductive Fault
  | outside | fuel
  deriving DecidableEq, Repr

/-- The characters of an allocated block. -/
abbrev Buffer := List Char

namespace Buffer

/-- `b[i]`. -/
def rd (b : Buffer) (i : Nat) : Except Fault Char :=
  match b[i]? with
  | some c => .ok c
  | none => .error .outside

/-- `b[i] = c`. -/
def wr (b : Buffer) (i : Nat) (c : Char) : Except Fault Buffer :=
  if i < b.length then .ok (b.set i c) else .error .outside

/-- The string in the buffer. -/
def str (b : Buffer) : CString where
  chars := b.takeWhile (· ≠ '\x00')
  noNul h := by simpa using List.mem_takeWhile_imp h

end Buffer

/-! ## `dfs_normalize_path` -/

/-- `while ((*src == '/') && (*src != '\0')) src ++;` -/
def skipSlashes (b : Buffer) : Nat → Nat → Except Fault Nat
  | 0, _ => .error .fuel
  | fuel + 1, src => do
      let c ← b.rd src
      if c = '/' then skipSlashes b fuel (src + 1) else .ok src

/-- `while ((c = *src++) != '\0' && c != '/') *dst ++ = c;` -/
def copyName : Nat → Buffer → Nat → Nat → Except Fault (Char × Buffer × Nat × Nat)
  | 0, _, _, _ => .error .fuel
  | fuel + 1, b, src, dst => do
      let c ← b.rd src
      if c ≠ '\x00' ∧ c ≠ '/' then
        let b ← b.wr dst c
        copyName fuel b (src + 1) (dst + 1)
      else .ok (c, b, src + 1, dst)

/-- `while (c == '/') c = *src++;` -/
def eraseSlashes (b : Buffer) : Nat → Char → Nat → Except Fault Nat
  | 0, _, _ => .error .fuel
  | fuel + 1, c, src =>
      if c = '/' then do
        let c ← b.rd src
        eraseSlashes b fuel c (src + 1)
      else .ok src

/-- `while (dst0 < dst && dst[-1] != '/') dst --;` -/
def backUp (b : Buffer) : Nat → Except Fault Nat
  | 0 => .ok 0
  | dst + 1 => do
      let c ← b.rd dst
      if c ≠ '/' then backUp b dst else .ok (dst + 1)

/-- How a round of the loop ends. -/
inductive Round
  | goOn (b : Buffer) (src dst : Nat)
  | leave (b : Buffer) (dst : Nat)
  | freed
  deriving DecidableEq

/-- What stands at `up_one`. -/
def upOne (b : Buffer) (src dst : Nat) : Except Fault Round :=
  -- `dst --` leads below `dst0`
  if dst = 0 then .ok .freed
  else do
    let dst ← backUp b (dst - 1)
    .ok (.goOn b src dst)

/-- Copy up the next '/' and erase all '/'. -/
def copyUp (b : Buffer) (src dst : Nat) : Except Fault Round := do
  let (c, b, src, dst) ← copyName (b.length + 1) b src dst
  if c = '/' then
    let b ← b.wr dst '/'
    let src ← eraseSlashes b (b.length + 1) c src
    .ok (.goOn b (src - 1) (dst + 1))
  else .ok (.leave b dst)

/-- A round of the loop. -/
def round (b : Buffer) (src dst : Nat) : Except Fault Round := do
  let c ← b.rd src
  if c = '.' then
    let c₁ ← b.rd (src + 1)
    -- '.' and ends
    if c₁ = '\x00' then copyUp b (src + 1) dst
    -- './' case
    else if c₁ = '/' then
      let src ← skipSlashes b (b.length + 1) (src + 2)
      .ok (.goOn b src dst)
    else if c₁ = '.' then
      let c₂ ← b.rd (src + 2)
      -- '..' and ends case
      if c₂ = '\x00' then upOne b (src + 2) dst
      -- '../' case
      else if c₂ = '/' then
        let src ← skipSlashes b (b.length + 1) (src + 3)
        upOne b src dst
      else copyUp b src dst
    else copyUp b src dst
  else copyUp b src dst

/-- `while (1)`: the buffer and `dst`, or nothing where the path is freed. -/
def normalizeLoop : Nat → Buffer → Nat → Nat → Except Fault (Option (Buffer × Nat))
  | 0, _, _, _ => .error .fuel
  | fuel + 1, b, src, dst => do
      match ← round b src dst with
      | .goOn b src dst => normalizeLoop fuel b src dst
      | .leave b dst => .ok (some (b, dst))
      | .freed => .ok none

/-- Remove '/' in the end of path if exist; `dst` is the last character. -/
def cutSlash (b : Buffer) (dst : Nat) : Except Fault Buffer :=
  if dst ≠ 0 then do
    let c ← b.rd dst
    if c = '/' then b.wr dst '\x00' else .ok b
  else .ok b

/-- The final check that `fullpath` is not empty. -/
def ensureRoot (b : Buffer) : Except Fault Buffer := do
  let c ← b.rd 0
  if c = '\x00' then
    let b ← b.wr 0 '/'
    b.wr 1 '\x00'
  else .ok b

/-- What follows the loop. -/
def finishPath (b : Buffer) (dst : Nat) : Except Fault Buffer := do
  let b ← b.wr dst '\x00'
  -- `dst --` may lead in front of the buffer, where `*dst` is read
  if dst = 0 then .error .outside
  else do
    let b ← cutSlash b (dst - 1)
    ensureRoot b

/-- `fullpath`: the file name itself, or joined to the directory. -/
def fullPath (workingDirectory : CString) (directory : Option CString) (filename : CString) : List Char :=
  if filename.get 0 ≠ '/' then
    -- join path and file name
    (directory.getD workingDirectory).chars ++ '/' :: filename.chars
  else filename.chars

/-- `dfs_normalize_path(directory, filename)`; `alloc` is false where the allocation fails. -/
def dfsNormalizePath (alloc : Bool) (workingDirectory : CString) (directory : Option CString)
    (filename : CString) : Except Fault (Option CString) :=
  if alloc = false then .ok none
  else do
    let b := fullPath workingDirectory directory filename ++ ['\x00']
    match ← normalizeLoop (b.length + 1) b 0 0 with
    | none => .ok none
    | some (b, dst) =>
        let b ← finishPath b dst
        .ok (some b.str)

section Results

variable {wd filename : CString} {directory : Option CString} {b b' : List Char} {dst : Nat}

theorem dfsNormalizePath_none (hb : fullPath wd directory filename ++ ['\x00'] = b)
    (h : normalizeLoop (b.length + 1) b 0 0 = .ok none) :
    dfsNormalizePath true wd directory filename = .ok none := by
  simp only [dfsNormalizePath, hb, h]
  rfl

theorem dfsNormalizePath_some (hb : fullPath wd directory filename ++ ['\x00'] = b)
    (h : normalizeLoop (b.length + 1) b 0 0 = .ok (some (b', dst))) :
    dfsNormalizePath true wd directory filename =
      (finishPath b' dst >>= fun b => .ok (some b.str)) := by
  simp only [dfsNormalizePath, hb, h]
  rfl

end Results

end RTThread.Dfs
