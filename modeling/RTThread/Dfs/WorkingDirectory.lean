import RTThread.Dfs.Lexical
import RTThread.Lib.Run

set_option autoImplicit false

/-! # The working directory (`dfs_posix.c`)

`chdir` copies the path that it was given, resolved, into an array of `DFS_PATH_MAX` characters. A path that
fills the array leaves no null character in it.
-/

namespace RTThread.Dfs

open Paths Trans

def DFS_PATH_MAX : Nat := 256

/-- A call of `chdir`, and what the heap and `opendir` answer in it. -/
structure Chdir where
  path : CString
  alloc : Bool
  opens : Bool

/-- `strncpy(working_directory, fullpath, DFS_PATH_MAX)` -/
def copyPath (s : CString) : Buffer :=
  s.chars.take DFS_PATH_MAX ++ List.replicate (DFS_PATH_MAX - s.strlen) '\x00'

/-- `chdir(path)`: what it returns, and `working_directory`. -/
def chdir (wd : Buffer) (c : Chdir) : Except Fault (Int × Buffer) :=
  if c.path.strlen > DFS_PATH_MAX then .ok (-1, wd)
  -- a path from the root is not joined to the working directory, which is not read then
  else if ¬ c.path.Absolute ∧ '\x00' ∉ wd then .error .outside
  else do
    match ← dfsNormalizePath c.alloc wd.str none c.path with
    | some fullpath => if c.opens then .ok (0, copyPath fullpath) else .ok (-1, wd)
    | none => .ok (-1, wd)

/-! ## Directories as names -/

/-- The components of the path, from the root. -/
def Chdir.names (cs : List (List Char)) (c : Chdir) : List (List Char) :=
  (if c.path.Absolute then [] else cs) ++ components '/' c.path.chars

/-- Where a call leads, if it succeeds. -/
def Chdir.leads (cs : List (List Char)) (c : Chdir) : Option (List (List Char)) :=
  if c.path.strlen ≤ DFS_PATH_MAX ∧ c.alloc ∧ c.opens then resolveNames [] (c.names cs) else none

/-- The path does not lead one level above the root, and the resolved path is shorter than the array. -/
def Chdir.Careful (cs : List (List Char)) (c : Chdir) : Prop :=
  lowestLevel (c.names cs) ≠ -1 ∧ ∀ ds ∈ c.leads cs, (render '/' ds).length < DFS_PATH_MAX

/-- The array holds the path of the directory and null characters behind it. -/
def Holds (wd : Buffer) (cs : List (List Char)) : Prop :=
  ∃ s : CString, s.chars = render '/' cs ∧ s.strlen < DFS_PATH_MAX ∧ wd = copyPath s ∧ ∀ c ∈ cs, ProperName c

/-- `working_directory`, and the directory it is meant to be, at first the root. -/
def CwdStep (w : Buffer × List (List Char)) (c : Chdir) (w' : Buffer × List (List Char)) : Prop :=
  c.Careful w.2 ∧ (∃ r, chdir w.1 c = .ok (r, w'.1)) ∧ w'.2 = (c.leads w.2).getD w.2

def CwdInit (w : Buffer × List (List Char)) : Prop := w = (copyPath rootDirectory, [])

/-- A path that does not fill the array can be read back from it. -/
theorem copyPath_str {s : CString} (h : s.strlen < DFS_PATH_MAX) : '\x00' ∈ copyPath s ∧ (copyPath s).str = s := by
  have hcopy : copyPath s = s.chars ++ '\x00' :: List.replicate (DFS_PATH_MAX - s.strlen - 1) '\x00' := by
    rw [copyPath, List.take_of_length_le h.le, ← List.replicate_succ, Nat.sub_add_cancel (by omega)]
  rw [hcopy, str_append s.noNul]
  exact ⟨by simp, rfl⟩

/-- **A careful call** leads where its path leads. -/
theorem Holds.chdir {wd : Buffer} {cs : List (List Char)} {c : Chdir} (h : Holds wd cs) (hc : c.Careful cs) :
    ∃ wd', chdir wd c = .ok (if (c.leads cs).isSome then 0 else -1, wd') ∧ Holds wd' ((c.leads cs).getD cs) := by
  obtain ⟨s, hs, hlen, rfl, hproper⟩ := h
  have hfail : c.leads cs = none → ∃ wd', (.ok (-1, copyPath s) : Except Fault (Int × Buffer)) =
      .ok (if (c.leads cs).isSome then 0 else -1, wd') ∧ Holds wd' ((c.leads cs).getD cs) := by
    intro hnone
    rw [hnone]
    exact ⟨_, rfl, s, hs, hlen, rfl, hproper⟩
  unfold Dfs.chdir
  by_cases hlong : c.path.strlen > DFS_PATH_MAX
  · rw [if_pos hlong]
    exact hfail (if_neg fun h => absurd h.1 (by omega))
  obtain ⟨hmem, hstr⟩ := copyPath_str hlen
  rw [if_neg hlong, if_neg fun h => h.2 hmem]
  obtain ⟨t, ht⟩ := head_render '/' cs
  have hreq : requested (some s) c.path = c.names cs := by
    unfold requested Chdir.names
    rw [Option.elim_some, hs, components_render fun c hc => (hproper c hc).1]
    split_ifs <;> rfl
  rw [hstr]
  change ∃ wd', (dfsNormalizePath c.alloc s (some s) c.path >>= _) = _ ∧ _
  cases ha : c.alloc with
  | false => exact hfail (if_neg fun h => absurd (ha.symm.trans h.2.1) (by decide))
  | true =>
      obtain ⟨r, hfull, hnul, hcomp⟩ := fullPath_eq (d := some s) (f := c.path) s
        ⟨fun d hd => Option.some.inj hd ▸ (absolute_iff s).mpr ⟨t, hs.trans ht⟩, by simp⟩
      have hret := dfsNormalizePath_returns hfull hnul
      rw [hcomp, hreq] at hret
      rcases walk_true [] (c.names cs) with ⟨out, hout, hw⟩ | ⟨hnone, ⟨hlow, -⟩ | ⟨-, hw⟩⟩
      · rw [hw] at hret
        obtain ⟨full, hres, hchars⟩ := hret
        rw [hres]
        cases ho : c.opens with
        | false => exact hfail (if_neg fun h => absurd (ho.symm.trans h.2.2) (by decide))
        | true =>
            have hleads : c.leads cs = some out := (if_pos ⟨by omega, ha, ho⟩).trans hout
            rw [hleads]
            refine ⟨_, rfl, full, hchars, ?_, rfl, properName_of_resolve (hreq ▸ hout)⟩
            rw [CString.strlen, hchars]
            exact hc.2 out hleads
      · exact absurd (by simpa using hlow) hc.1
      · rw [hw] at hret
        change dfsNormalizePath true s (some s) c.path = .ok none at hret
        rw [hret]
        exact hfail (by rw [Chdir.leads, hnone, ite_self])

/-- **The working directory** is a resolved path with a null character behind it, in every run of careful
calls; each of these returns, and leads where its path leads or fails and changes nothing. -/
theorem working_directory {w : Buffer × List (List Char)} (h : Reachable CwdInit CwdStep w) :
    Holds w.1 w.2 ∧ ∀ c : Chdir, c.Careful w.2 → ∃ wd', chdir w.1 c =
      .ok (if (c.leads w.2).isSome then 0 else -1, wd') ∧ Holds wd' ((c.leads w.2).getD w.2) := by
  have hholds : Holds w.1 w.2 := by
    refine h.invariant (I := fun w => Holds w.1 w.2) (fun w hw => ?_) fun w c w' _ hw hs => ?_
    · rw [hw]
      exact ⟨rootDirectory, rfl, by decide, rfl, by simp⟩
    · obtain ⟨hc, ⟨r, hr⟩, hnames⟩ := hs
      obtain ⟨wd', hr', hw'⟩ := hw.chdir hc
      rw [hnames]
      cases hr.symm.trans hr'
      exact hw'
  exact ⟨hholds, fun c hc => hholds.chdir hc⟩

/-- `cd a/../b`, in the root. -/
theorem working_directory_beside : ∃ wd', chdir (copyPath rootDirectory)
    ⟨⟨['a', '/', '.', '.', '/', 'b'], by decide⟩, true, true⟩ = .ok (0, wd') ∧ Holds wd' [['b']] :=
  (working_directory (.init rfl)).2 ⟨⟨['a', '/', '.', '.', '/', 'b'], by decide⟩, true, true⟩ ⟨by decide, by decide⟩

end RTThread.Dfs
