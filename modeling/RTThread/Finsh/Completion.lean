import Mathlib.Data.List.DropRight
import RTThread.Finsh.LineEditor
import RTThread.Kservice.Strings
import RTThread.Lib.CommonPrefix

set_option autoImplicit false

/-! # Completing a line (`msh.c`)

`msh_auto_complete` gets the line and nothing about its room. It completes what follows the last blank as a
path, and then the line as the name of a command. The name is copied without its null character, the one
that ends the line is that of the array.

The names of commands are pasted into identifiers and so have no blank in them; those of a directory are
what `struct dirent` holds. What is printed is left out.
-/

namespace RTThread.Finsh

open Dfs (Buffer Fault rd_append wr_append)
open Prefixes

/-! ## The code -/

/-- The name in an entry of the system call table. -/
abbrev SyscallName := { name : List Char // '\x00' ∉ name ∧ ' ' ∉ name }

/-- What `d_name` holds. -/
abbrev DirentName := { name : List Char // '\x00' ∉ name ∧ name.length < 256 }

structure MshEnv where
  table : List SyscallName
  /-- There is a block for `rt_malloc(256)`. -/
  malloc : Bool
  workingDirectory : List Char
  /-- The names that `readdir` finds in a directory that can be opened. -/
  opendir : List Char → Option (List DirentName)

/-- `str_common(str1, str2)` -/
def strCommon : List Char → List Char → Nat
  | a :: str₁, b :: str₂ => if a = b then strCommon str₁ str₂ + 1 else 0
  | _, _ => 0

/-- `strncmp(s1, s2, n) == 0` -/
def strncmpEq (s₁ s₂ : List Char) (n : Nat) : Bool := s₁.take n == s₂.take n

/-- The loop over the names: `min_length`, and the first name that matches. -/
def scanNames (word : List Char) : List (List Char) → Nat → Option (List Char) → Nat × Option (List Char)
  | [], minLength, first => (minLength, first)
  | name :: names, minLength, first =>
      if strncmpEq word name word.length then
        let (minLength, first) :=
          if minLength = 0 then (name.length, name) else (minLength, first.getD [])
        let length := strCommon name first
        scanNames word names (if length < minLength then length else minLength) (some first)
      else scanNames word names minLength first

/-- `memcpy(&b[i], s, ..)` -/
def memcpyAt (b : Buffer) (i : Nat) (s : List Char) : Except Fault Buffer :=
  if i + s.length ≤ b.length then .ok (b.take i ++ (s ++ b.drop (i + s.length))) else .error .outside

/-- A string in the 256 characters of `full_path`. -/
def inFullPath (s : List Char) : Except Fault (List Char) :=
  if s.length < 256 then .ok s else .error .outside

/-- The directory that the path starts from. -/
def startPath (env : MshEnv) (path : List Char) : Except Fault (List Char) :=
  if path.head? ≠ some '/' then do
    let fullPath ← inFullPath env.workingDirectory
    match fullPath.getLast? with
    | none => .error .outside
    | some c => if c ≠ '/' then inFullPath (fullPath ++ ['/']) else .ok fullPath
  else .ok []

/-- `if (*ptr == '/') index = ptr + 1;` for all of the path: where its last component starts. -/
def lastComponent : List Char → Nat → Nat → Nat
  | [], _, index => index
  | c :: path, ptr, index => lastComponent path (ptr + 1) (if c = '/' then ptr + 1 else index)

/-- `msh_auto_complete_path(path)`, for the string at `b + start`. -/
def mshAutoCompletePath (env : MshEnv) (b : Buffer) (start : Nat) : Except Fault Buffer :=
  -- out of memory
  if env.malloc = false then .ok b
  else do
    let path := stringAt b start
    let fullPath ← startPath env path
    let index := lastComponent path 0 0
    -- fill the parent path
    let fullPath ← inFullPath (fullPath ++ path.take index)
    match env.opendir fullPath with
    -- open directory failed!
    | none => .ok b
    | some entries =>
        let word := path.drop index
        -- display all of files and directories
        if word = [] then .ok b
        else
          let (minLength, fullPath) := scanNames word (entries.map Subtype.val) 0 (some fullPath)
          if minLength ≠ 0 then do
            let b ← memcpyAt b (start + index) ((fullPath.getD []).take minLength)
            b.wr (start + index + minLength) '\x00'
          else .ok b

/-- `ptr --` until there is a blank, and not for the first character. -/
def lastBlank (b : Buffer) : Nat → Except Fault (Option Nat)
  | 0 => .ok none
  | ptr + 1 => do
      let c ← b.rd (ptr + 1)
      if c = ' ' then .ok (some (ptr + 1)) else lastBlank b ptr

def cmdPrefix : List Char := ['_', '_', 'c', 'm', 'd', '_']

/-- The commands; the other functions of the shell are skipped. -/
def cmdNames (env : MshEnv) : List (List Char) :=
  (env.table.filter fun name => strncmpEq name.1 cmdPrefix 6).map fun name => name.1.drop 6

/-- Checks in internal command. -/
def autoCompleteCommand (env : MshEnv) (b : Buffer) : Except Fault Buffer := do
  let n ← strlen b
  let (minLength, namePtr) := scanNames (b.take n) (cmdNames env) 0 none
  -- auto complete string
  match namePtr with
  | none => .ok b
  | some name =>
      match Ks.rtStrncpy (name ++ ['\x00']) minLength with
      | none => .error .outside
      | some s => memcpyAt b 0 s

/-- `msh_auto_complete_path(ptr + 1)`, for the blank that was found. -/
def completeBehind (env : MshEnv) (b : Buffer) : Option Nat → Except Fault Buffer
  | none => .ok b
  | some ptr => mshAutoCompletePath env b (ptr + 1)

/-- `msh_auto_complete(prefix)` -/
def mshAutoComplete (env : MshEnv) (b : Buffer) : Except Fault Buffer := do
  let c ← b.rd 0
  if c = '\x00' then .ok b
  else do
    let n ← strlen b
    -- checks whether a spare in the command
    let blank ← lastBlank b n
    let b ← completeBehind env b blank
    autoCompleteCommand env b

/-! ## The completed line -/

/-- The line array: a text, its null character, and what is left of earlier texts. -/
structure LineArray (cfg : ShellConfig) where
  text : List Char
  rest : List Char
  noNul : '\x00' ∉ text
  length_eq : text.length + 1 + rest.length = cfg.cmdSize

def LineArray.buffer {cfg : ShellConfig} (l : LineArray cfg) : Buffer := l.text ++ '\x00' :: l.rest

/-- The candidates that start with the word. -/
def matching (word : List Char) (names : List (List Char)) : List (List Char) :=
  names.filter fun name => word.isPrefixOf name

/-- The longest common prefix of the candidates, or the word where there are none. An empty word is not
completed, the candidates are listed. -/
def completion (names : List (List Char)) (word : List Char) : List Char :=
  if word = [] ∨ matching word names = [] then word else longestCommon (matching word names)

/-- What follows the last character `c`, and what is in front of that. -/
def after (c : Char) (t : List Char) : List Char := t.rtakeWhile fun a => a ≠ c

def upTo (c : Char) (t : List Char) : List Char := t.rdropWhile fun a => a ≠ c

/-- The directory part of the path and its last component. -/
def dirPart (t : List Char) : List Char := upTo '/' (after ' ' t)

def component (t : List Char) : List Char := after '/' (after ' ' t)

/-- The working directory with a slash behind it. -/
def slashed (dir : List Char) : List Char := if dir.getLast? = some '/' then dir else dir ++ ['/']

/-- The directory that a path is in. -/
def parentPath (env : MshEnv) (dir : List Char) : List Char :=
  (if dir.head? = some '/' then [] else slashed env.workingDirectory) ++ dir

/-- The names in a directory, as far as it can be read. -/
def entries (env : MshEnv) (dir : List Char) : List (List Char) :=
  if env.malloc then ((env.opendir (parentPath env dir)).getD []).map Subtype.val else []

/-- A blank behind the first character: the line ends in a path. -/
def HasPath (t : List Char) : Prop := ' ' ∈ t.tail

instance decidableHasPath (t : List Char) : Decidable (HasPath t) := inferInstanceAs (Decidable (_ ∈ _))

/-- What the line is to be. -/
def completedLine (env : MshEnv) (t : List Char) : List Char :=
  if HasPath t then
    upTo ' ' t ++ (dirPart t ++ completion (entries env (dirPart t)) (component t))
  else completion (cmdNames env) t

/-- What is asked of the completion: the completed line with its null character, in no more than
`FINSH_CMD_SIZE + 1` characters. -/
def AutoCompletes (cfg : ShellConfig) (env : MshEnv) (l : LineArray cfg) : Prop :=
  ∃ b, mshAutoComplete env l.buffer = .ok b ∧ completedLine env l.text ++ ['\x00'] <+: b ∧
    (completedLine env l.text).length + 1 ≤ cfg.cmdSize + 1

/-- The directory's name fits in `full_path`. -/
def ParentFits (env : MshEnv) (dir : List Char) : Prop :=
  env.malloc = true →
    (dir.head? ≠ some '/' → env.workingDirectory ≠ []) ∧ (parentPath env dir).length < 256

/-- The completed line fits in the array, and behind the name of a command that is longer than the text
stands a null character. -/
def CompletionFits (cfg : ShellConfig) (env : MshEnv) (l : LineArray cfg) : Prop :=
  if HasPath l.text then
    ParentFits env (dirPart l.text) ∧ (completedLine env l.text).length < cfg.cmdSize
  else l.buffer[(completedLine env l.text).length]? = some '\x00'

/-! ## The loop over the names -/

section Scan

variable {word p m name : List Char} {names : List (List Char)}

theorem strCommon_eq (s₁ s₂ : List Char) : strCommon s₁ s₂ = (commonPrefix s₁ s₂).length := by
  induction s₁ generalizing s₂ with
  | nil => rfl
  | cons a s₁ ih =>
      cases s₂ with
      | nil => rfl
      | cons b s₂ =>
          unfold strCommon commonPrefix
          split_ifs
          · rw [ih, List.length_cons]
          · rfl

theorem strncmpEq_word (word name : List Char) :
    strncmpEq word name word.length = word.isPrefixOf name := by
  rw [Bool.eq_iff_iff, List.isPrefixOf_iff_prefix, List.prefix_iff_eq_take, strncmpEq, List.take_length]
  exact beq_iff_eq

theorem matching_cons_pos (h : word.isPrefixOf name = true) :
    matching word (name :: names) = name :: matching word names := List.filter_cons_of_pos h

theorem matching_cons_neg (h : ¬ word.isPrefixOf name = true) :
    matching word (name :: names) = matching word names := List.filter_cons_of_neg h

theorem scanNames_match (h : word.isPrefixOf name = true) {minLength : Nat} (hmin : minLength ≠ 0)
    (first : List Char) : scanNames word (name :: names) minLength (some first) =
      scanNames word names (min (strCommon name first) minLength) (some first) := by
  have hlength : (if strCommon name first < minLength then strCommon name first else minLength) =
      min (strCommon name first) minLength := by
    split_ifs <;> omega
  rw [scanNames, strncmpEq_word, if_pos h]
  simp only [if_neg hmin, Option.getD_some, hlength]

theorem strCommon_self (s : List Char) : strCommon s s = s.length := by
  induction s with
  | nil => rfl
  | cons a s ih => rw [strCommon, if_pos rfl, ih, List.length_cons]

theorem scanNames_first (h : word.isPrefixOf name = true) (first : Option (List Char)) :
    scanNames word (name :: names) 0 first = scanNames word names name.length (some name) := by
  rw [scanNames, strncmpEq_word, if_pos h]
  simp only [if_true, strCommon_self, lt_irrefl, if_false]

theorem scanNames_skip (h : ¬ word.isPrefixOf name = true) (minLength : Nat) (first : Option (List Char)) :
    scanNames word (name :: names) minLength first = scanNames word names minLength first := by
  rw [scanNames, strncmpEq_word, if_neg h]

theorem length_common (h : p <+: m) (name : List Char) :
    min (strCommon name m) p.length = (commonPrefix p name).length := by
  rw [commonPrefix_take h, List.length_take, strCommon_eq, commonPrefix_comm, Nat.min_comm]

/-- From the first match on, the length is that of the common prefix of the matches. -/
theorem scanNames_some (hp : p <+: m) (hw : word <+: p) (hne : word ≠ []) :
    scanNames word names p.length (some m) =
      (((matching word names).foldl commonPrefix p).length, some m) := by
  induction names generalizing p with
  | nil => rfl
  | cons name names ih =>
      by_cases hm : word.isPrefixOf name = true
      · have hword : word <+: commonPrefix p name :=
          prefix_commonPrefix.mpr ⟨hw, List.isPrefixOf_iff_prefix.mp hm⟩
        have hpos : p.length ≠ 0 := by
          have hlen := List.length_pos_of_ne_nil hne
          have hle := hw.length_le
          omega
        rw [scanNames_match hm hpos, length_common hp,
          ih ((commonPrefix_left p name).trans hp) hword, matching_cons_pos hm, List.foldl_cons]
      · rw [scanNames_skip hm, ih hp hw, matching_cons_neg hm]

theorem scanNames_none (h : matching word names = []) (first : Option (List Char)) :
    scanNames word names 0 first = (0, first) := by
  induction names with
  | nil => rfl
  | cons name names ih =>
      by_cases hm : word.isPrefixOf name = true
      · rw [matching_cons_pos hm] at h
        exact absurd h (List.cons_ne_nil _ _)
      · rw [matching_cons_neg hm] at h
        rw [scanNames_skip hm, ih h]

/-- **What the loop finds**: the length of the longest common prefix, and a name that starts with it. -/
theorem scanNames_spec (hne : word ≠ []) (h : matching word names ≠ []) (first : Option (List Char)) :
    ∃ name, scanNames word names 0 first = ((longestCommon (matching word names)).length, some name) ∧
      longestCommon (matching word names) <+: name ∧ name ∈ names := by
  induction names with
  | nil => exact absurd rfl h
  | cons name names ih =>
      by_cases hm : word.isPrefixOf name = true
      · refine ⟨name, ?_, ?_, List.mem_cons_self⟩
        · rw [scanNames_first hm, matching_cons_pos hm, longestCommon]
          exact scanNames_some (List.prefix_refl _) (List.isPrefixOf_iff_prefix.mp hm) hne
        · rw [matching_cons_pos hm]
          exact (prefix_longestCommon (List.cons_ne_nil _ _)).mp (List.prefix_refl _) _ List.mem_cons_self
      · rw [matching_cons_neg hm] at h ⊢
        obtain ⟨name', hscan, hstarts, hmem⟩ := ih h
        exact ⟨name', (scanNames_skip hm _ _).trans hscan, hstarts, List.mem_cons_of_mem _ hmem⟩

end Scan

/-! ## The name of a command -/

section Command

variable {env : MshEnv} {t rest v u : List Char} {name : List Char}

theorem mem_cmdNames (h : name ∈ cmdNames env) : '\x00' ∉ name ∧ ' ' ∉ name := by
  obtain ⟨syscall, -, rfl⟩ := List.mem_map.mp h
  exact ⟨fun hmem => syscall.2.1 (List.mem_of_mem_drop hmem),
    fun hmem => syscall.2.2 (List.mem_of_mem_drop hmem)⟩

/-- No command has a blank in its name. -/
theorem matching_cmdNames (h : ' ' ∈ t) : matching t (cmdNames env) = [] := by
  refine List.filter_eq_nil_iff.mpr fun name hname hstarts => (mem_cmdNames hname).2 ?_
  exact (List.isPrefixOf_iff_prefix.mp hstarts).subset h

theorem completion_of_none {names : List (List Char)} {word : List Char} (h : matching word names = []) :
    completion names word = word := if_pos (.inr h)

theorem autoCompleteCommand_none (ht : '\x00' ∉ t) (h : matching t (cmdNames env) = []) :
    autoCompleteCommand env (t ++ '\x00' :: rest) = .ok (t ++ '\x00' :: rest) := by
  unfold autoCompleteCommand
  rw [strlen_append ht]
  simp only [bind, Except.bind, List.take_left, scanNames_none h]

/-- **The name of a command** is written over the line, where there is room. -/
theorem autoCompleteCommand_spec (ht : '\x00' ∉ t) (hne : t ≠ []) :
    autoCompleteCommand env (t ++ '\x00' :: rest) =
      if (completion (cmdNames env) t).length ≤ (t ++ '\x00' :: rest).length then
        .ok (completion (cmdNames env) t ++
          (t ++ '\x00' :: rest).drop (completion (cmdNames env) t).length)
      else .error .outside := by
  by_cases hm : matching t (cmdNames env) = []
  · rw [autoCompleteCommand_none ht hm, completion_of_none hm, List.drop_left, if_pos (by simp)]
  · have hcompletion : completion (cmdNames env) t = longestCommon (matching t (cmdNames env)) :=
      if_neg (not_or.mpr ⟨hne, hm⟩)
    obtain ⟨name, hscan, hstarts, hmem⟩ := scanNames_spec hne hm none
    have hcopy : Ks.rtStrncpy (name ++ ['\x00']) (longestCommon (matching t (cmdNames env))).length =
        some (longestCommon (matching t (cmdNames env))) := by
      have hstr := Ks.rtStrncpy_eq (mem_cmdNames hmem).1 (longestCommon (matching t (cmdNames env))).length
      rw [← List.prefix_iff_eq_take.mp hstarts, Nat.sub_eq_zero_of_le hstarts.length_le,
        List.replicate_zero, List.append_nil] at hstr
      exact hstr
    unfold autoCompleteCommand
    rw [strlen_append ht, hcompletion]
    simp only [bind, Except.bind, List.take_left, hscan, hcopy, memcpyAt, Nat.zero_add, List.take_zero,
      List.nil_append]

end Command

/-! ## The last component of a path -/

section Path

variable {env : MshEnv} {d w path front rest : List Char}

theorem lastComponent_word (hw : '/' ∉ w) (ptr index : Nat) : lastComponent w ptr index = index := by
  induction w generalizing ptr with
  | nil => rfl
  | cons a w ih =>
      obtain ⟨ha, hw⟩ := not_or.mp (mt List.mem_cons.mpr hw)
      rw [lastComponent, if_neg (Ne.symm ha), ih hw]

theorem lastComponent_dir (hw : '/' ∉ w) (ptr index : Nat) :
    lastComponent (d ++ '/' :: w) ptr index = ptr + d.length + 1 := by
  induction d generalizing ptr index with
  | nil => rw [List.nil_append, lastComponent, if_pos rfl, lastComponent_word hw, List.length_nil, Nat.add_zero]
  | cons a d ih =>
      rw [List.cons_append, lastComponent, ih, List.length_cons]
      omega

theorem upTo_append_after (c : Char) (t : List Char) : upTo c t ++ after c t = t :=
  List.rdropWhile_append_rtakeWhile

theorem not_mem_after (c : Char) (t : List Char) : c ∉ after c t := by
  intro h
  have hc := List.mem_rtakeWhile_imp h
  simp at hc

/-- What is in front ends with the character. -/
theorem upTo_cases (c : Char) (t : List Char) : upTo c t = [] ∨ ∃ u, upTo c t = u ++ [c] := by
  by_cases h : upTo c t = []
  · exact .inl h
  · have hlast := List.rdropWhile_last_not (fun a => decide (a ≠ c)) t h
    have hc : (upTo c t).getLast h = c := by
      by_contra hne
      exact hlast (decide_eq_true hne)
    refine .inr ⟨(upTo c t).dropLast, ?_⟩
    conv_lhs => rw [← List.dropLast_append_getLast h, hc]

/-- Where the last component starts. -/
theorem lastComponent_eq (path : List Char) : lastComponent path 0 0 = (upTo '/' path).length := by
  have hsplit := upTo_append_after '/' path
  have hword := not_mem_after '/' path
  obtain hnil | ⟨u, hu⟩ := upTo_cases '/' path
  · rw [hnil, List.nil_append] at hsplit
    rw [hnil, ← hsplit]
    exact lastComponent_word hword 0 0
  · conv_lhs => rw [← hsplit, hu, List.append_assoc, List.singleton_append]
    rw [lastComponent_dir hword, hu, List.length_append, List.length_singleton, Nat.zero_add]

/-- A path is absolute where its directory part is. -/
theorem head?_upTo (path : List Char) : path.head? = some '/' ↔ (upTo '/' path).head? = some '/' := by
  have hsplit := upTo_append_after '/' path
  have hword := not_mem_after '/' path
  cases hd : upTo '/' path with
  | nil =>
      rw [hd, List.nil_append] at hsplit
      rw [← hsplit]
      refine iff_of_false (fun hhead => hword (List.mem_of_mem_head? hhead)) ?_
      simp
  | cons a d =>
      rw [hd] at hsplit
      rw [← hsplit]
      rfl

/-- The working directory is where a path starts that is not absolute. -/
theorem startPath_relative (h : path.head? ≠ some '/') : startPath env path =
    if env.workingDirectory ≠ [] ∧ (slashed env.workingDirectory).length < 256 then
      .ok (slashed env.workingDirectory) else .error .outside := by
  unfold startPath slashed
  rw [if_pos h]
  cases hlast : env.workingDirectory.getLast? with
  | none =>
      have hnil : env.workingDirectory = [] := List.getLast?_eq_none_iff.mp hlast
      rw [if_neg fun hne => hne.1 hnil, hnil]
      rfl
  | some c =>
      have hne : env.workingDirectory ≠ [] := by
        intro hnil
        rw [hnil] at hlast
        cases hlast
      by_cases hfit : env.workingDirectory.length < 256
      · by_cases hslash : c = '/'
        · rw [if_pos (congrArg some hslash), if_pos ⟨hne, hfit⟩]
          simp only [inFullPath, if_pos hfit, bind, Except.bind, hlast, ne_eq, hslash, not_true, if_false]
        · rw [if_neg (fun heq => hslash (Option.some.inj heq))]
          simp only [inFullPath, if_pos hfit, bind, Except.bind, hlast, ne_eq, hslash, not_false_eq_true,
            if_true, hne, true_and]
      · have hslashed : ¬ (if some c = some '/' then env.workingDirectory
            else env.workingDirectory ++ ['/']).length < 256 := by
          split_ifs
          · exact hfit
          · rw [List.length_append]
            omega
        rw [if_neg fun hboth => hslashed hboth.2]
        simp only [inFullPath, if_neg hfit, bind, Except.bind]

/-- The directory is named in `full_path` where its name fits. -/
theorem parentPath_spec (env : MshEnv) (path : List Char) :
    (startPath env path >>= fun fullPath => inFullPath (fullPath ++ upTo '/' path)) =
      if ((upTo '/' path).head? ≠ some '/' → env.workingDirectory ≠ []) ∧
          (parentPath env (upTo '/' path)).length < 256 then
        .ok (parentPath env (upTo '/' path)) else .error .outside := by
  have hhead := head?_upTo path
  unfold parentPath
  by_cases hroot : (upTo '/' path).head? = some '/'
  · rw [startPath, if_neg (not_not.mpr (hhead.mpr hroot)), if_pos hroot]
    simp only [bind, Except.bind, List.nil_append, inFullPath]
    exact if_congr ⟨fun h => ⟨fun h' => absurd hroot h', h⟩, And.right⟩ rfl rfl
  · rw [startPath_relative (mt hhead.mp hroot), if_neg hroot]
    by_cases hstart : env.workingDirectory ≠ [] ∧ (slashed env.workingDirectory).length < 256
    · rw [if_pos hstart]
      simp only [bind, Except.bind, inFullPath]
      exact if_congr ⟨fun h => ⟨fun _ => hstart.1, h⟩, And.right⟩ rfl rfl
    · rw [if_neg hstart]
      refine (if_neg fun hfits => hstart ⟨hfits.1 hroot, ?_⟩).symm
      rw [List.length_append] at hfits
      omega

theorem take_lastComponent (path : List Char) : path.take (lastComponent path 0 0) = upTo '/' path := by
  rw [lastComponent_eq]
  exact (congrArg (List.take _) (upTo_append_after '/' path).symm).trans List.take_left

theorem drop_lastComponent (path : List Char) : path.drop (lastComponent path 0 0) = after '/' path := by
  rw [lastComponent_eq]
  exact (congrArg (List.drop _) (upTo_append_after '/' path).symm).trans List.drop_left

theorem stringAt_behind (hpath : '\x00' ∉ path) :
    stringAt (front ++ (path ++ '\x00' :: rest)) front.length = path := by
  refine stringAt_eq ⟨rest, ?_⟩ hpath
  rw [List.drop_left, List.append_assoc, List.singleton_append]

/-- The array holds this text in the end where there is room, and else an access is outside. -/
def Becomes (r : Except Fault Buffer) (room : Prop) (t : List Char) : Prop :=
  (room → ∃ rest, r = .ok (t ++ '\x00' :: rest)) ∧ (¬ room → r = .error .outside)

/-- The new component and its null character. -/
theorem writeComponent (v w new rest : List Char) :
    Becomes (memcpyAt (v ++ (w ++ '\x00' :: rest)) v.length new >>= fun b =>
      b.wr (v.length + new.length) '\x00') (new.length ≤ w.length + rest.length) (v ++ new) := by
  have hroom : (v ++ (w ++ '\x00' :: rest)).length = v.length + (w.length + rest.length + 1) := by
    simp only [List.length_append, List.length_cons, Nat.add_assoc]
  unfold memcpyAt
  constructor
  · intro hfit
    have hdrop : (v ++ (w ++ '\x00' :: rest)).drop (v.length + new.length) ≠ [] := by
      intro hnil
      have hle := List.drop_eq_nil_iff.mp hnil
      omega
    obtain ⟨c, tail, htail⟩ := List.exists_cons_of_ne_nil hdrop
    refine ⟨tail, ?_⟩
    rw [if_pos (by omega), List.take_left, htail, ← List.append_assoc]
    simp only [bind, Except.bind]
    rw [← List.length_append, wr_append]
  · intro hfit
    by_cases hcopy : v.length + new.length ≤ (v ++ (w ++ '\x00' :: rest)).length
    · rw [if_pos hcopy]
      simp only [bind, Except.bind, Buffer.wr]
      refine if_neg fun hlt => ?_
      rw [List.length_append, List.length_append, List.length_take, List.length_drop, hroom] at hlt
      omega
    · rw [if_neg hcopy]
      rfl

/-- The names of the directory that is open, in `full_path`. -/
theorem completeEntries (names : List (List Char)) (v w rest fullPath : List Char) (hw : w ≠ []) :
    Becomes
      (if (scanNames w names 0 (some fullPath)).1 ≠ 0 then
        memcpyAt (v ++ (w ++ '\x00' :: rest)) v.length (((scanNames w names 0 (some fullPath)).2.getD []).take
          (scanNames w names 0 (some fullPath)).1) >>= fun b =>
        b.wr (v.length + (scanNames w names 0 (some fullPath)).1) '\x00'
      else .ok (v ++ (w ++ '\x00' :: rest)))
      ((completion names w).length ≤ w.length + rest.length) (v ++ completion names w) := by
  by_cases hm : matching w names = []
  · rw [scanNames_none hm, completion_of_none hm]
    refine ⟨fun _ => ⟨rest, ?_⟩, fun hroom => absurd (Nat.le_add_right _ _) hroom⟩
    rw [List.append_assoc]
    rfl
  · have hcompletion : completion names w = longestCommon (matching w names) :=
      if_neg (not_or.mpr ⟨hw, hm⟩)
    obtain ⟨name, hscan, hstarts, -⟩ := scanNames_spec hw hm (some fullPath)
    have hpos : (longestCommon (matching w names)).length ≠ 0 := by
      have hword : w <+: longestCommon (matching w names) :=
        (prefix_longestCommon hm).mpr fun name hname =>
          List.isPrefixOf_iff_prefix.mp (List.mem_filter.mp hname).2
      have hlen := List.length_pos_of_ne_nil hw
      have hle := hword.length_le
      omega
    rw [hscan, hcompletion, if_pos hpos, Option.getD_some, ← List.prefix_iff_eq_take.mp hstarts]
    exact writeComponent v w _ rest

/-- **The last component of a path**: the directory's name has to fit in `full_path`, and the completed
line with its null character in the array. -/
theorem mshAutoCompletePath_spec (env : MshEnv) (front rest : List Char) (hpath : '\x00' ∉ path) :
    Becomes (mshAutoCompletePath env (front ++ (path ++ '\x00' :: rest)) front.length)
      (ParentFits env (upTo '/' path) ∧
        (completion (entries env (upTo '/' path)) (after '/' path)).length ≤
          (after '/' path).length + rest.length)
      (front ++ (upTo '/' path ++ completion (entries env (upTo '/' path)) (after '/' path))) := by
  have hsame : ∀ {room : Prop}, room → Becomes (.ok (front ++ (path ++ '\x00' :: rest))) room
      (front ++ (upTo '/' path ++ after '/' path)) := by
    refine fun hroom => ⟨fun _ => ⟨rest, ?_⟩, fun hnot => absurd hroom hnot⟩
    rw [upTo_append_after, List.append_assoc]
  by_cases hmalloc : env.malloc = false
  · have hnames : entries env (upTo '/' path) = [] := by
      rw [entries, hmalloc]
      rfl
    have hparent : ParentFits env (upTo '/' path) := by
      intro htrue
      rw [hmalloc] at htrue
      cases htrue
    rw [mshAutoCompletePath, if_pos hmalloc, hnames, completion_of_none rfl]
    exact hsame ⟨hparent, Nat.le_add_right _ _⟩
  · have htrue : env.malloc = true := Bool.of_not_eq_false hmalloc
    rw [mshAutoCompletePath, if_neg hmalloc]
    dsimp only
    rw [stringAt_behind hpath, take_lastComponent, drop_lastComponent, ← bind_assoc, parentPath_spec]
    by_cases hfits : ((upTo '/' path).head? ≠ some '/' → env.workingDirectory ≠ []) ∧
        (parentPath env (upTo '/' path)).length < 256
    · have hnames : entries env (upTo '/' path) =
          ((env.opendir (parentPath env (upTo '/' path))).getD []).map Subtype.val := if_pos htrue
      have hroom : ∀ p : Prop, (ParentFits env (upTo '/' path) ∧ p) = p :=
        fun p => propext (and_iff_right fun _ => hfits)
      rw [if_pos hfits, hroom, hnames]
      simp only [bind, Except.bind]
      cases env.opendir (parentPath env (upTo '/' path)) with
      | none =>
          rw [Option.getD_none, List.map_nil, completion_of_none rfl]
          exact hsame (Nat.le_add_right _ _)
      | some names =>
          rw [Option.getD_some]
          dsimp only
          by_cases hword : after '/' path = []
          · rw [if_pos hword, completion, if_pos (.inl hword)]
            exact hsame (Nat.le_add_right _ _)
          · have hline : front ++ (path ++ '\x00' :: rest) =
                front ++ upTo '/' path ++ (after '/' path ++ '\x00' :: rest) := by
              rw [List.append_assoc, ← List.append_assoc (upTo '/' path), upTo_append_after]
            rw [if_neg hword, lastComponent_eq, hline, ← List.length_append,
              ← List.append_assoc front (upTo '/' path) (completion _ _)]
            exact completeEntries _ _ _ rest _ hword
    · rw [if_neg hfits]
      exact ⟨fun hroom => absurd (hroom.1 htrue) hfits, fun _ => rfl⟩

end Path

/-! ## The line -/

section Line

variable {cfg : ShellConfig} {env : MshEnv} {b : Buffer} {t u rest : List Char}

/-- Characters that are no blanks are passed. -/
theorem lastBlank_pass (v : List Char) (a : Char) {w : List Char} (rest : List Char) (hw : ' ' ∉ w) :
    lastBlank (v ++ a :: (w ++ rest)) (v.length + w.length) = lastBlank (v ++ a :: (w ++ rest)) v.length := by
  induction w using List.reverseRecOn generalizing rest with
  | nil => rfl
  | append_singleton w c ih =>
      rw [List.mem_append, not_or, List.mem_singleton] at hw
      have hrd : Buffer.rd (v ++ a :: (w ++ [c] ++ rest)) (v.length + w.length + 1) = .ok c := by
        have h := rd_append (v := v ++ a :: w) (t := rest) (c := c)
        simpa [Nat.add_assoc] using h
      have hrest := ih (c :: rest) hw.1
      rw [List.length_append, List.length_singleton, ← Nat.add_assoc, lastBlank, hrd]
      simp only [bind, Except.bind, if_neg (Ne.symm hw.2)]
      rwa [List.append_assoc, List.singleton_append]

/-- The blank in front of the path. -/
theorem lastBlank_some {w : List Char} (rest : List Char) (hu : u ≠ []) (hw : ' ' ∉ w) :
    lastBlank (u ++ ' ' :: (w ++ '\x00' :: rest)) (u ++ ' ' :: w).length = .ok (some u.length) := by
  have hpass := lastBlank_pass u ' ' rest (w := w ++ ['\x00']) (by simpa using hw)
  have hlen : u.length + (w ++ ['\x00']).length = (u ++ ' ' :: w).length := by simp
  rw [hlen, List.append_assoc, List.singleton_append] at hpass
  obtain ⟨k, hk⟩ := Nat.exists_eq_add_one.mpr (List.length_pos_of_ne_nil hu)
  have hrd := rd_append (v := u) (t := w ++ '\x00' :: rest) (c := ' ')
  rw [hk] at hpass hrd
  rw [hpass, lastBlank, hrd, hk]
  rfl

theorem lastBlank_none (ht : t ≠ []) (h : ¬ HasPath t) :
    lastBlank (t ++ '\x00' :: rest) t.length = .ok none := by
  obtain ⟨a, w, rfl⟩ := List.exists_cons_of_ne_nil ht
  have hw : ' ' ∉ w := h
  have hpass := lastBlank_pass [] a rest (w := w ++ ['\x00']) (by simpa using hw)
  have hlen : (w ++ ['\x00']).length = (a :: w).length := by simp
  rw [List.length_nil, Nat.zero_add, hlen, List.append_assoc, List.singleton_append, List.nil_append]
    at hpass
  exact hpass

/-- The line in front of the path. -/
theorem hasPath_split (h : HasPath t) : ∃ u, u ≠ [] ∧ upTo ' ' t = u ++ [' '] := by
  have hsplit := upTo_append_after ' ' t
  have hword := not_mem_after ' ' t
  obtain hnil | ⟨u, hu⟩ := upTo_cases ' ' t
  · rw [hnil, List.nil_append] at hsplit
    rw [hsplit] at hword
    exact absurd (List.mem_of_mem_tail h) hword
  · refine ⟨u, ?_, hu⟩
    rintro rfl
    rw [hu, List.nil_append, List.singleton_append] at hsplit
    unfold HasPath at h
    rw [← hsplit, List.tail_cons] at h
    exact hword h

theorem not_mem_completion {c : Char} {names : List (List Char)} {word : List Char}
    (hnames : ∀ name ∈ names, c ∉ name) (hword : c ∉ word) : c ∉ completion names word := by
  unfold completion
  split_ifs with h
  · exact hword
  · obtain ⟨name, hname⟩ := List.exists_mem_of_ne_nil _ (not_or.mp h).2
    have hstarts := (prefix_longestCommon (not_or.mp h).2).mp (List.prefix_refl _) name hname
    exact fun hmem => hnames name (List.mem_filter.mp hname).1 (hstarts.subset hmem)

theorem not_mem_entries (env : MshEnv) (dir : List Char) : ∀ name ∈ entries env dir, '\x00' ∉ name := by
  intro name hname
  unfold entries at hname
  split_ifs at hname
  · obtain ⟨entry, -, rfl⟩ := List.mem_map.mp hname
    exact entry.2.1
  · cases hname

theorem mem_of_mem_upTo {a c : Char} (h : a ∈ upTo c t) : a ∈ t := (List.rdropWhile_prefix _ t).subset h

theorem mem_of_mem_after {a c : Char} (h : a ∈ after c t) : a ∈ t := (List.rtakeWhile_suffix _ t).subset h

theorem not_mem_completedLine (env : MshEnv) (h : HasPath t) (ht : '\x00' ∉ t) : '\x00' ∉ completedLine env t := by
  unfold completedLine
  rw [if_pos h, List.mem_append, List.mem_append, not_or, not_or]
  refine ⟨fun hmem => ht (mem_of_mem_upTo hmem),
    fun hmem => ht (mem_of_mem_after (mem_of_mem_upTo hmem)), ?_⟩
  exact not_mem_completion (not_mem_entries env _)
    fun hmem => ht (mem_of_mem_after (mem_of_mem_after hmem))

theorem ne_nil_of_hasPath (h : HasPath t) : t ≠ [] := by
  rintro rfl
  cases h

/-- What happens to a line that is not empty. -/
theorem mshAutoComplete_eq (ht : '\x00' ∉ t) (hne : t ≠ []) :
    mshAutoComplete env (t ++ '\x00' :: rest) = (do
      let blank ← lastBlank (t ++ '\x00' :: rest) t.length
      let b ← completeBehind env (t ++ '\x00' :: rest) blank
      autoCompleteCommand env b) := by
  obtain ⟨a, w, rfl⟩ := List.exists_cons_of_ne_nil hne
  obtain ⟨ha, -⟩ := not_or.mp (mt List.mem_cons.mpr ht)
  have hrd : Buffer.rd (a :: w ++ '\x00' :: rest) 0 = .ok a := rfl
  rw [mshAutoComplete, hrd, strlen_append ht]
  exact if_neg (Ne.symm ha)

/-- **A line that ends in a path.** -/
theorem mshAutoComplete_path (env : MshEnv) (rest : List Char) (h : HasPath t) (ht : '\x00' ∉ t) :
    Becomes (mshAutoComplete env (t ++ '\x00' :: rest))
      (ParentFits env (dirPart t) ∧
        (completion (entries env (dirPart t)) (component t)).length ≤ (component t).length + rest.length)
      (completedLine env t) := by
  obtain ⟨u, hu, hfront⟩ := hasPath_split h
  have hsplit := upTo_append_after ' ' t
  have hblank := not_mem_after ' ' t
  have hpath : '\x00' ∉ after ' ' t := fun hmem => ht (mem_of_mem_after hmem)
  have hspec := mshAutoCompletePath_spec env (upTo ' ' t) rest hpath
  have hline : upTo ' ' t ++ (after ' ' t ++ '\x00' :: rest) = t ++ '\x00' :: rest := by
    rw [← List.append_assoc, hsplit]
  have htext : u ++ ' ' :: after ' ' t = t := by
    rw [hfront, List.append_assoc, List.singleton_append] at hsplit
    exact hsplit
  have hlast : lastBlank (t ++ '\x00' :: rest) t.length = .ok (some u.length) := by
    have hsome := lastBlank_some rest hu hblank
    rw [← List.cons_append, ← List.append_assoc, htext] at hsome
    exact hsome
  have hstart : u.length + 1 = (upTo ' ' t).length := by
    rw [hfront, List.length_append, List.length_singleton]
  have hcompleted : completedLine env t =
      upTo ' ' t ++ (dirPart t ++ completion (entries env (dirPart t)) (component t)) := if_pos h
  rw [mshAutoComplete_eq ht (ne_nil_of_hasPath h), hlast, ← hline, hcompleted]
  simp only [bind, Except.bind, completeBehind, hstart]
  constructor
  · intro hroom
    obtain ⟨rest', hrest'⟩ := hspec.1 hroom
    refine ⟨rest', ?_⟩
    rw [hrest']
    dsimp only
    have hnul := not_mem_completedLine env h ht
    have hmem : ' ' ∈ completedLine env t := by
      rw [hcompleted, hfront]
      simp
    rw [hcompleted] at hnul hmem
    exact autoCompleteCommand_none hnul (matching_cmdNames hmem)
  · intro hroom
    rw [hspec.2 hroom]

/-- **A line that is the name of a command.** -/
theorem mshAutoComplete_command (h : ¬ HasPath t) (ht : '\x00' ∉ t) :
    mshAutoComplete env (t ++ '\x00' :: rest) =
      if (completedLine env t).length ≤ (t ++ '\x00' :: rest).length then
        .ok (completedLine env t ++ (t ++ '\x00' :: rest).drop (completedLine env t).length)
      else .error .outside := by
  have hcompleted : completedLine env t = completion (cmdNames env) t := if_neg h
  rw [hcompleted]
  by_cases hnil : t = []
  · have hempty : completion (cmdNames env) t = [] := by
      rw [completion, if_pos (.inl hnil), hnil]
    rw [hempty, hnil]
    rfl
  · rw [mshAutoComplete_eq ht hnil, lastBlank_none hnil h]
    exact autoCompleteCommand_spec ht hnil

theorem isPrefix_drop {b : Buffer} {c : Char} :
    t ++ [c] <+: t ++ b.drop t.length ↔ b[t.length]? = some c := by
  rw [List.prefix_append_right_inj, ← List.head?_drop]
  constructor
  · rintro ⟨rest, hrest⟩
    rw [← hrest]
    rfl
  · intro hhead
    obtain ⟨rest, hrest⟩ := List.head?_eq_some_iff.mp hhead
    exact ⟨rest, hrest.symm⟩

/-- **Completing a line**, exactly where it is what is asked for. -/
theorem msh_auto_complete_iff (cfg : ShellConfig) (env : MshEnv) (l : LineArray cfg) :
    AutoCompletes cfg env l ↔ CompletionFits cfg env l := by
  have hsize := l.length_eq
  unfold AutoCompletes CompletionFits LineArray.buffer
  by_cases h : HasPath l.text
  · have hspec := mshAutoComplete_path env l.rest h l.noNul
    have hlen : (completedLine env l.text).length + (component l.text).length =
        l.text.length + (completion (entries env (dirPart l.text)) (component l.text)).length := by
      have hline := congrArg List.length (upTo_append_after ' ' l.text)
      have hpath := congrArg List.length (upTo_append_after '/' (after ' ' l.text))
      rw [List.length_append] at hline hpath
      unfold completedLine dirPart component
      rw [if_pos h, List.length_append, List.length_append]
      omega
    rw [if_pos h]
    constructor
    · rintro ⟨b, hb, -, -⟩
      by_contra hroom
      rw [hspec.2 fun hfits => hroom ⟨hfits.1, by omega⟩] at hb
      cases hb
    · intro hfits
      obtain ⟨rest, hrest⟩ := hspec.1 ⟨hfits.1, by omega⟩
      refine ⟨_, hrest, ⟨rest, ?_⟩, by omega⟩
      rw [List.append_assoc, List.singleton_append]
  · rw [if_neg h, mshAutoComplete_command h l.noNul]
    constructor
    · rintro ⟨b, hb, hstarts, -⟩
      split_ifs at hb with hroom
      cases hb
      exact isPrefix_drop.mp hstarts
    · intro hnul
      obtain ⟨hlt, -⟩ := List.getElem?_eq_some_iff.mp hnul
      refine ⟨_, if_pos (le_of_lt hlt), isPrefix_drop.mpr hnul, ?_⟩
      rw [List.length_append, List.length_cons] at hlt
      omega

theorem longName_spec : '\x00' ∉ List.replicate 100 'a' ∧ (List.replicate 100 'a').length < 256 := by
  decide +kernel

/-- The name of a file, of a hundred characters. -/
def longName : DirentName := ⟨List.replicate 100 'a', longName_spec⟩

/-- The file is in the root directory. -/
def oneFile : MshEnv where
  table := []
  malloc := true
  workingDirectory := ['/']
  opendir := fun _ => some [longName]

theorem lsLine_spec : '\x00' ∉ ['l', 's', ' ', 'a'] ∧
    ['l', 's', ' ', 'a'].length + 1 + (List.replicate 75 '\x00').length = rtconfig.cmdSize := by
  decide +kernel

/-- `ls a`, in a fresh line. -/
def lsLine : LineArray rtconfig where
  text := ['l', 's', ' ', 'a']
  rest := List.replicate 75 '\x00'
  noNul := lsLine_spec.1
  length_eq := lsLine_spec.2

/-- The name of the file does not fit in the line. -/
theorem auto_complete_outside :
    ¬ ∀ (cfg : ShellConfig) (env : MshEnv) (l : LineArray cfg), AutoCompletes cfg env l := by
  intro hclaim
  obtain ⟨b, hb, -⟩ := hclaim rtconfig oneFile lsLine
  have hpath : HasPath lsLine.text := by decide
  have hroom : ¬ (completion (entries oneFile (dirPart lsLine.text)) (component lsLine.text)).length ≤
      (component lsLine.text).length + lsLine.rest.length := by
    decide +kernel
  have houtside := (mshAutoComplete_path oneFile lsLine.rest hpath lsLine.noNul).2
    fun hfits => hroom hfits.2
  cases houtside.symm.trans hb

end Line

end RTThread.Finsh
