import RTThread.Finsh.MshSplit

set_option autoImplicit false

/-! # The line editor of the shell (`shell.c`)

`finsh_thread_entry` reads a character after the other. The line is an array of `FINSH_CMD_SIZE` characters
with two counters, the history one of `FINSH_HISTORY_LINES` such arrays. What is echoed is left out. An
access outside an array is the fault `outside`.

The editor that the code stands for is a text with a cursor: the characters in front of the cursor, the
nearest first, and those behind it.
-/

namespace RTThread.Finsh

open Dfs (Buffer Fault rd_append wr_append)

/-! ## Arrays -/

/-- `while (n--) *(--tmp) = *(--s);` -/
def copyDown (dest src : Nat) : Nat → Buffer → Except Fault Buffer
  | 0, b => .ok b
  | n + 1, b => do
      let c ← b.rd (src + n)
      let b ← b.wr (dest + n) c
      copyDown dest src n b

/-- `while (n--) *tmp++ = *s++;` -/
def copyUp : Nat → Nat → Nat → Buffer → Except Fault Buffer
  | _, _, 0, b => .ok b
  | dest, src, n + 1, b => do
      let c ← b.rd src
      let b ← b.wr dest c
      copyUp (dest + 1) (src + 1) n b

/-- `rt_memmove(&b[dest], &b[src], n)`, in one array. -/
def rtMemmove (b : Buffer) (dest src n : Nat) : Except Fault Buffer :=
  if src < dest ∧ dest < src + n then copyDown dest src n b else copyUp dest src n b

/-- `memcpy(dest, src, n)`, for two arrays. -/
def memcpy (dest src : Buffer) (n : Nat) : Except Fault Buffer :=
  if n ≤ dest.length ∧ n ≤ src.length then .ok (src.take n ++ dest.drop n) else .error .outside

/-- `strlen(b)`. -/
def strlen : Buffer → Except Fault Nat
  | [] => .error .outside
  | c :: b => if c = '\x00' then .ok 0 else do
      let n ← strlen b
      .ok (n + 1)

/-- `&cmd_history[i]`. -/
def row (history : List Buffer) (i : Nat) : Except Fault Buffer :=
  match history[i]? with
  | some b => .ok b
  | none => .error .outside

def setRow (history : List Buffer) (i : Nat) (b : Buffer) : Except Fault (List Buffer) :=
  if i < history.length then .ok (history.set i b) else .error .outside

/-! ## The shell -/

/-- `FINSH_CMD_SIZE` and `FINSH_HISTORY_LINES`, which `rt_uint16_t` counters count. -/
structure ShellConfig where
  cmdSize : Nat
  historyLines : Nat
  cmdSize_pos : 0 < cmdSize
  cmdSize_lt : cmdSize < 65536
  historyLines_pos : 0 < historyLines
  historyLines_lt : historyLines < 65536

/-- The sizes of `rtconfig.h`. -/
def rtconfig : ShellConfig := ⟨80, 5, by decide, by decide, by decide, by decide⟩

inductive InputStat
  | waitNormal | waitSpecKey | waitFuncKey
  deriving DecidableEq, Repr

structure Shell where
  stat : InputStat
  currentHistory : Nat
  historyCount : Nat
  cmdHistory : List Buffer
  line : Buffer
  linePosition : Nat
  lineCurpos : Nat
  deriving DecidableEq

section Code

variable (cfg : ShellConfig)

/-- An array of null characters. -/
def zeros : Buffer := List.replicate cfg.cmdSize '\x00'

/-- `rt_calloc(1, sizeof(struct finsh_shell))` -/
def Shell.init : Shell where
  stat := .waitNormal
  currentHistory := 0
  historyCount := 0
  cmdHistory := List.replicate cfg.historyLines (zeros cfg)
  line := zeros cfg
  linePosition := 0
  lineCurpos := 0

/-- `memcmp(&shell->cmd_history[i], shell->line, FINSH_CMD_SIZE)` is not zero. -/
def differs (s : Shell) (i : Nat) : Except Fault Bool := do
  let cmd ← row s.cmdHistory i
  .ok (decide (cmd.take cfg.cmdSize ≠ s.line.take cfg.cmdSize))

/-- `for (index = 0; index < FINSH_HISTORY_LINES - 1; index ++)`, from `index` for `n` rounds. -/
def moveHistory : Nat → Nat → List Buffer → Except Fault (List Buffer)
  | _, 0, history => .ok history
  | index, n + 1, history => do
      let next ← row history (index + 1)
      let history ← setRow history index next
      moveHistory (index + 1) n history

/-- The line becomes the entry `i` of the history. -/
def storeLine (s : Shell) (history : List Buffer) (i : Nat) : Except Fault (List Buffer) := do
  let cmd ← memcpy (zeros cfg) s.line s.linePosition
  setRow history i cmd

/-- Push history: the branch for a history that is full. -/
def pushFull (s : Shell) : Except Fault Shell := do
  -- if current cmd is same as last cmd, don't push
  let push ← differs cfg s (cfg.historyLines - 1)
  if push then do
    let history ← moveHistory 0 (cfg.historyLines - 1) s.cmdHistory
    let history ← storeLine cfg s history (cfg.historyLines - 1)
    -- it's the maximum history
    .ok { s with cmdHistory := history, historyCount := cfg.historyLines }
  else .ok s

/-- Push history: the branch for a history that is not full. -/
def pushFree (s : Shell) : Except Fault Shell := do
  let push ← if s.historyCount = 0 then Except.ok true else differs cfg s (s.historyCount - 1)
  if push then do
    let history ← storeLine cfg s s.cmdHistory s.historyCount
    .ok { s with cmdHistory := history, historyCount := s.historyCount + 1 }
  else .ok s

def pushLine (s : Shell) : Except Fault Shell :=
  if s.linePosition ≠ 0 then
    if s.historyCount ≥ cfg.historyLines then pushFull cfg s else pushFree cfg s
  else .ok s

/-- `shell_push_history(shell)` -/
def shellPushHistory (s : Shell) : Except Fault Shell := do
  let s ← pushLine cfg s
  .ok { s with currentHistory := s.historyCount }

/-- Copy the history command. -/
def copyHistory (s : Shell) : Except Fault Shell := do
  let cmd ← row s.cmdHistory s.currentHistory
  let line ← memcpy s.line cmd cfg.cmdSize
  let n ← strlen line
  .ok { s with line := line, linePosition := n, lineCurpos := n }

/-- Prev history. -/
def upKey (s : Shell) : Except Fault Shell :=
  if s.currentHistory > 0 then copyHistory cfg { s with currentHistory := s.currentHistory - 1 }
  else .ok { s with currentHistory := 0 }

/-- Next history. The difference `history_count - 1` is an `int`. -/
def downKey (s : Shell) : Except Fault Shell :=
  if s.currentHistory + 1 < s.historyCount then
    copyHistory cfg { s with currentHistory := s.currentHistory + 1 }
  else if s.historyCount ≠ 0 then copyHistory cfg { s with currentHistory := s.historyCount - 1 }
  else .ok s

def leftKey (s : Shell) : Shell :=
  if s.lineCurpos ≠ 0 then { s with lineCurpos := s.lineCurpos - 1 } else s

def rightKey (s : Shell) : Shell :=
  if s.lineCurpos < s.linePosition then { s with lineCurpos := s.lineCurpos + 1 } else s

/-- What the control keys do: the character is used up, or the rest of the loop sees it. -/
inductive Control
  | used (s : Shell)
  | goOn (s : Shell)

/-- Handle control key. -/
def controlKey (s : Shell) (ch : Char) : Except Fault Control :=
  if ch = '\x1b' then .ok (.used { s with stat := .waitSpecKey })
  else if s.stat = .waitSpecKey then
    if ch = '\x5b' then .ok (.used { s with stat := .waitFuncKey })
    else .ok (.goOn { s with stat := .waitNormal })
  else if s.stat = .waitFuncKey then
    let s := { s with stat := .waitNormal }
    if ch = '\x41' then do
      let s ← upKey cfg s
      .ok (.used s)
    else if ch = '\x42' then do
      let s ← downKey cfg s
      .ok (.used s)
    else if ch = '\x44' then .ok (.used (leftKey s))
    else if ch = '\x43' then .ok (.used (rightKey s))
    else .ok (.goOn s)
  else .ok (.goOn s)

/-- The line without the character at the cursor. -/
def removeChar (line : Buffer) (position curpos : Nat) : Except Fault Buffer :=
  if position > curpos then do
    let line ← rtMemmove line curpos (curpos + 1) (position - curpos)
    line.wr position '\x00'
  else line.wr position '\x00'

/-- Handle backspace key. The counters are `rt_uint16_t`. -/
def backspaceKey (s : Shell) : Except Fault Shell :=
  if s.lineCurpos = 0 then .ok s
  else do
    let position := (s.linePosition + 65535) % 65536
    let curpos := (s.lineCurpos + 65535) % 65536
    let line ← removeChar s.line position curpos
    .ok { s with line := line, linePosition := position, lineCurpos := curpos }

/-- Handle end of line: the shell and what `msh_exec` is called with. -/
def enterKey (s : Shell) : Except Fault (Shell × Buffer × Nat) := do
  let s ← shellPushHistory cfg s
  .ok ({ s with line := zeros cfg, linePosition := 0, lineCurpos := 0 }, s.line, s.linePosition)

/-- The line with the character at the cursor. -/
def insertChar (line : Buffer) (position curpos : Nat) (ch : Char) : Except Fault Buffer :=
  if curpos < position then do
    let line ← rtMemmove line (curpos + 1) curpos (position - curpos)
    line.wr curpos ch
  else line.wr position ch

/-- Normal character. -/
def normalKey (s : Shell) (ch : Char) : Except Fault Shell := do
  -- it's a large line, discard it
  let position := if s.linePosition ≥ cfg.cmdSize then 0 else s.linePosition
  let line ← insertChar s.line position s.lineCurpos ch
  let position := (position + 1) % 65536
  let curpos := (s.lineCurpos + 1) % 65536
  -- clear command line
  if position ≥ cfg.cmdSize then .ok { s with line := line, linePosition := 0, lineCurpos := 0 }
  else .ok { s with line := line, linePosition := position, lineCurpos := curpos }

/-- A round of `finsh_thread_entry` for the character `ch`: the shell and what `msh_exec` is called with.
What `shell_auto_complete` makes of the line is a parameter. -/
def finshInput (autoComplete : Buffer → Except Fault Buffer) (s : Shell) (ch : Char) :
    Except Fault (Shell × Option (Buffer × Nat)) := do
  let control ← controlKey cfg s ch
  match control with
  | .used s => .ok (s, none)
  | .goOn s =>
      -- received null or error
      if ch = '\x00' ∨ ch = '\xff' then .ok (s, none)
      -- handle tab key
      else if ch = '\t' then do
        let line ← autoComplete s.line
        let n ← strlen line
        .ok ({ s with line := line, linePosition := n, lineCurpos := n }, none)
      else if ch = '\x7f' ∨ ch = '\x08' then do
        let s ← backspaceKey s
        .ok (s, none)
      else if ch = '\r' ∨ ch = '\n' then do
        let (s, exec) ← enterKey cfg s
        .ok (s, some exec)
      else do
        let s ← normalKey cfg s ch
        .ok (s, none)

/-- The shell after the characters, and the calls of `msh_exec` in order. -/
def finshInputs (autoComplete : Buffer → Except Fault Buffer) :
    Shell → List Char → Except Fault (Shell × List (Buffer × Nat))
  | s, [] => .ok (s, [])
  | s, ch :: cs => do
      let (s, exec) ← finshInput cfg autoComplete s ch
      let (s, execs) ← finshInputs autoComplete s cs
      .ok (s, exec.toList ++ execs)

end Code

/-! ## The text with a cursor -/

inductive Key
  -- nothing to do: a part of an escape sequence, a null character
  | none
  | up | down | left | right | backspace | enter
  | char (c : Char)
  deriving DecidableEq, Repr

/-- The key of a character outside an escape sequence. -/
def keyOf (c : Char) : Key :=
  if c = '\x00' ∨ c = '\xff' then .none
  else if c = '\x7f' ∨ c = '\x08' then .backspace
  else if c = '\r' ∨ c = '\n' then .enter
  else .char c

/-- The arrow keys are escape sequences: what is awaited next and the key that is complete. -/
def nextKey (stat : InputStat) (c : Char) : InputStat × Key :=
  if c = '\x1b' then (.waitSpecKey, .none)
  else match stat with
    | .waitNormal => (.waitNormal, keyOf c)
    | .waitSpecKey => if c = '[' then (.waitFuncKey, .none) else (.waitNormal, keyOf c)
    | .waitFuncKey =>
        (.waitNormal,
          if c = 'A' then .up else if c = 'B' then .down else if c = 'D' then .left
          else if c = 'C' then .right else keyOf c)

/-- The keys that the characters are. -/
def keys : InputStat → List Char → List Key
  | _, [] => []
  | stat, c :: cs => (nextKey stat c).2 :: keys (nextKey stat c).1 cs

/-- The text in front of the cursor, nearest first, the text behind it, the earlier lines and the one that
the arrows are at. -/
structure Editor where
  before : List Char
  after : List Char
  history : List (List Char)
  place : Nat
  deriving DecidableEq

namespace Editor

/-- A fresh prompt, with these earlier lines. -/
def prompt (history : List (List Char)) : Editor := ⟨[], [], history, history.length⟩

def text (e : Editor) : List Char := e.before.reverse ++ e.after

/-- The earlier line `i`, with the cursor at its end. -/
def recalled (e : Editor) (i : Nat) : Editor :=
  { e with before := (e.history.getD i []).reverse, after := [], place := i }

/-- The line becomes the newest of the at most `lines` earlier ones, unless it is that already. -/
def push (lines : Nat) (e : Editor) : List (List Char) :=
  if e.text = [] ∨ e.history.getLast? = some e.text then e.history
  else (e.history ++ [e.text]).drop (e.history.length + 1 - lines)

/-- What a key does, and the line that is complete. A text that reaches `FINSH_CMD_SIZE` characters is
discarded. -/
def press (cfg : ShellConfig) (e : Editor) : Key → Editor × Option (List Char)
  | .none => (e, Option.none)
  | .up => (if e.place = 0 then e else e.recalled (e.place - 1), Option.none)
  | .down =>
      (if e.history = [] then e else e.recalled (min (e.place + 1) (e.history.length - 1)), Option.none)
  | .left =>
      (match e.before with
        | [] => e
        | c :: b => { e with before := b, after := c :: e.after }, Option.none)
  | .right =>
      (match e.after with
        | [] => e
        | c :: a => { e with before := c :: e.before, after := a }, Option.none)
  | .backspace => ({ e with before := e.before.tail }, Option.none)
  | .enter => (⟨[], [], e.push cfg.historyLines, (e.push cfg.historyLines).length⟩, some e.text)
  | .char c =>
      (if e.text.length + 1 < cfg.cmdSize then { e with before := c :: e.before }
        else { e with before := [], after := [] }, Option.none)

/-- The editor after the keys, and the complete lines in order. -/
def pressAll (cfg : ShellConfig) : Editor → List Key → Editor × List (List Char)
  | e, [] => (e, [])
  | e, k :: ks =>
      ((pressAll cfg (e.press cfg k).1 ks).1,
        (e.press cfg k).2.toList ++ (pressAll cfg (e.press cfg k).1 ks).2)

/-- No text reaches `FINSH_CMD_SIZE` characters. -/
def Fits (cfg : ShellConfig) : Editor → List Key → Prop
  | _, [] => True
  | e, k :: ks =>
      (∀ c, k = .char c → e.text.length + 1 < cfg.cmdSize) ∧ Fits cfg (e.press cfg k).1 ks

end Editor

/-! ## The arrays -/

section Arrays

variable {cfg : ShellConfig} {v m t u : List Char} {x c : Char}

/-- The characters of `m` move up by one place. -/
theorem copyDown_spec : ∃ y,
    copyDown (v.length + 1) v.length m.length (v ++ (m ++ x :: t)) = .ok (v ++ y :: (m ++ t)) := by
  induction m using List.reverseRecOn generalizing x t with
  | nil => exact ⟨x, rfl⟩
  | append_singleton m a ih =>
      obtain ⟨y, hy⟩ := ih (x := a) (t := a :: t)
      have hrd : Buffer.rd (v ++ (m ++ a :: x :: t)) (v.length + m.length) = .ok a := by
        have h := rd_append (v := v ++ m) (t := x :: t) (c := a)
        simpa using h
      have hwr : Buffer.wr (v ++ (m ++ a :: x :: t)) (v.length + 1 + m.length) a =
          .ok (v ++ (m ++ a :: a :: t)) := by
        have h := wr_append (v := v ++ m ++ [a]) (t := t) (c := x) a
        simpa [Nat.add_assoc, Nat.add_comm 1] using h
      refine ⟨y, ?_⟩
      rw [List.length_append, List.length_singleton, List.append_assoc m, List.singleton_append,
        List.append_assoc m, List.singleton_append, copyDown, hrd]
      simp only [bind, Except.bind, hwr, hy]

/-- The characters of `m` move down by one place. -/
theorem copyUp_spec : ∃ y,
    copyUp v.length (v.length + 1) m.length (v ++ x :: (m ++ t)) = .ok (v ++ (m ++ y :: t)) := by
  induction m generalizing v x with
  | nil => exact ⟨x, rfl⟩
  | cons a m ih =>
      obtain ⟨y, hy⟩ := ih (v := v ++ [a]) (x := a)
      rw [List.length_append, List.length_singleton] at hy
      refine ⟨y, ?_⟩
      rw [List.length_cons, List.cons_append, copyUp, rd_second]
      simp only [bind, Except.bind, wr_append]
      rw [List.append_cons, hy, List.append_assoc, List.singleton_append, List.cons_append]

/-- Space for a character in front of `m`. -/
theorem rtMemmove_insert (hm : m ≠ []) : ∃ y,
    rtMemmove (v ++ (m ++ x :: t)) (v.length + 1) v.length m.length = .ok (v ++ y :: (m ++ t)) := by
  have hpos := List.length_pos_of_ne_nil hm
  unfold rtMemmove
  by_cases hone : m.length = 1
  · obtain ⟨a, rfl⟩ := List.length_eq_one_iff.mp hone
    have hwr : Buffer.wr (v ++ a :: x :: t) (v.length + 1) a = .ok (v ++ a :: a :: t) := by
      have h := wr_append (v := v ++ [a]) (t := t) (c := x) a
      simpa using h
    refine ⟨a, ?_⟩
    rw [if_neg (by omega), List.length_singleton, copyUp, List.singleton_append, rd_append]
    simp only [bind, Except.bind, hwr, copyUp, List.singleton_append]
  · rw [if_pos (by omega)]
    exact copyDown_spec

/-- The character in front of `m` is gone. -/
theorem rtMemmove_delete : ∃ y,
    rtMemmove (v ++ x :: (m ++ t)) v.length (v.length + 1) m.length = .ok (v ++ (m ++ y :: t)) := by
  unfold rtMemmove
  rw [if_neg (by omega)]
  exact copyUp_spec

/-- The array that holds a text. -/
def pad (cfg : ShellConfig) (t : List Char) : Buffer :=
  t ++ List.replicate (cfg.cmdSize - t.length) '\x00'

theorem pad_length (ht : t.length ≤ cfg.cmdSize) : (pad cfg t).length = cfg.cmdSize := by
  rw [pad, List.length_append, List.length_replicate]
  omega

/-- A null character follows the text. -/
theorem pad_eq (ht : t.length < cfg.cmdSize) :
    pad cfg t = t ++ '\x00' :: List.replicate (cfg.cmdSize - t.length - 1) '\x00' := by
  rw [pad, ← List.replicate_succ]
  congr 2
  omega

theorem strlen_append (ht : '\x00' ∉ t) : strlen (t ++ '\x00' :: u) = .ok t.length := by
  induction t with
  | nil => rfl
  | cons a t ih =>
      obtain ⟨ha, ht⟩ := not_or.mp (mt List.mem_cons.mpr ht)
      rw [List.cons_append, strlen, if_neg (Ne.symm ha), ih ht]
      rfl

theorem stringAt_pad (hlen : t.length < cfg.cmdSize) (ht : '\x00' ∉ t) :
    stringAt (pad cfg t) 0 = t := by
  refine stringAt_eq ?_ ht
  rw [pad_eq hlen]
  exact ⟨List.replicate (cfg.cmdSize - t.length - 1) '\x00', by simp⟩

theorem memcpy_pad {b : Buffer} (hb : b.length = cfg.cmdSize) (ht : t.length < cfg.cmdSize) :
    memcpy b (pad cfg t) cfg.cmdSize = .ok (pad cfg t) := by
  have hlen := pad_length (le_of_lt ht)
  unfold memcpy
  rw [if_pos ⟨by omega, by omega⟩, List.take_of_length_le (by omega), List.drop_of_length_le (by omega),
    List.append_nil]

theorem memcpy_zeros (ht : t.length < cfg.cmdSize) :
    memcpy (zeros cfg) (pad cfg t) t.length = .ok (pad cfg t) := by
  have hlen := pad_length (le_of_lt ht)
  unfold memcpy zeros
  rw [if_pos ⟨by rw [List.length_replicate]; omega, by omega⟩, List.drop_replicate]
  conv_lhs => rw [pad, List.take_left]
  rfl

end Arrays

/-! ## What the shell stands for -/

/-- A line of the history. -/
def Storable (cfg : ShellConfig) (t : List Char) : Prop := t.length < cfg.cmdSize ∧ '\x00' ∉ t

/-- The shell stands for the text with the cursor and for the earlier lines. -/
structure Refines (cfg : ShellConfig) (s : Shell) (e : Editor) : Prop where
  storable : Storable cfg e.text
  line : s.line = pad cfg e.text
  position : s.linePosition = e.text.length
  curpos : s.lineCurpos = e.before.length
  history : ∀ t ∈ e.history, Storable cfg t
  rows : ∃ free, s.cmdHistory = e.history.map (pad cfg) ++ free
  lines : s.cmdHistory.length = cfg.historyLines
  count : s.historyCount = e.history.length
  place : s.currentHistory = e.place
  place_le : e.place ≤ e.history.length

section Keys

variable {cfg : ShellConfig} {s : Shell} {e : Editor} {c : Char} {t u : List Char}

theorem text_length (e : Editor) : e.text.length = e.before.length + e.after.length := by
  rw [Editor.text, List.length_append, List.length_reverse]

/-- Another state of the escape sequences. -/
theorem Refines.setStat (h : Refines cfg s e) (stat : InputStat) : Refines cfg { s with stat := stat } e where
  storable := h.storable
  line := h.line
  position := h.position
  curpos := h.curpos
  history := h.history
  rows := h.rows
  lines := h.lines
  count := h.count
  place := h.place
  place_le := h.place_le

/-- Another text, in an array with its counters. -/
theorem Refines.setText (h : Refines cfg s e) (before after : List Char)
    (ht : Storable cfg (before.reverse ++ after)) :
    Refines cfg
      { s with
        line := pad cfg (before.reverse ++ after)
        linePosition := (before.reverse ++ after).length
        lineCurpos := before.length }
      { e with before := before, after := after } where
  storable := ht
  line := rfl
  position := rfl
  curpos := rfl
  history := h.history
  rows := h.rows
  lines := h.lines
  count := h.count
  place := h.place
  place_le := h.place_le

theorem Refines.cursor_eq (h : Refines cfg s e) :
    s.lineCurpos = e.before.reverse.length ∧ s.linePosition - s.lineCurpos = e.after.length := by
  rw [h.curpos, h.position, text_length, List.length_reverse]
  omega

theorem not_mem_insert (h : Storable cfg (t ++ u)) (hc : c ≠ '\x00') : '\x00' ∉ t ++ c :: u := by
  have ht := h.2
  simp only [List.mem_append, List.mem_cons, not_or] at ht ⊢
  exact ⟨ht.1, hc.symm, ht.2⟩

/-- The array behind the cursor. -/
theorem Refines.line_eq (h : Refines cfg s e) : s.line = e.before.reverse ++ (e.after ++ '\x00' ::
    List.replicate (cfg.cmdSize - e.text.length - 1) '\x00') := by
  rw [h.line, pad_eq h.storable.1, Editor.text, List.append_assoc]

theorem insertChar_spec (h : Refines cfg s e) :
    insertChar s.line s.linePosition s.lineCurpos c =
      .ok (pad cfg ((c :: e.before).reverse ++ e.after)) := by
  obtain ⟨hcur, hrest⟩ := h.cursor_eq
  have hnew : e.before.reverse ++ c :: (e.after ++
      List.replicate (cfg.cmdSize - e.text.length - 1) '\x00') =
      pad cfg ((c :: e.before).reverse ++ e.after) := by
    have hlen : ((c :: e.before).reverse ++ e.after).length = e.text.length + 1 := by
      rw [text_length, List.length_append, List.length_reverse, List.length_cons]
      omega
    rw [pad, hlen, Nat.sub_add_eq]
    simp
  unfold insertChar
  by_cases hafter : e.after = []
  · rw [hafter, List.length_nil] at hrest
    rw [hafter, List.nil_append] at hnew
    have hpos := h.position
    have hlen := text_length e
    rw [hafter, List.length_nil] at hlen
    have hend : s.linePosition = e.before.reverse.length := by
      rw [hpos, hlen, List.length_reverse, Nat.add_zero]
    rw [if_neg (by omega), h.line_eq, hend, hafter, List.nil_append, wr_append, hnew]
  · have hafterpos := List.length_pos_of_ne_nil hafter
    obtain ⟨y, hmove⟩ := rtMemmove_insert (v := e.before.reverse) (x := '\x00')
      (t := List.replicate (cfg.cmdSize - e.text.length - 1) '\x00') hafter
    rw [if_pos (by omega), h.line_eq, hrest, hcur, hmove]
    exact (wr_append c).trans (congrArg _ hnew)

/-- A character is inserted at the cursor. -/
theorem normalKey_spec (h : Refines cfg s e) (hc : c ≠ '\x00') (hfit : e.text.length + 1 < cfg.cmdSize) :
    ∃ s', normalKey cfg s c = .ok s' ∧ s'.stat = s.stat ∧
      Refines cfg s' { e with before := c :: e.before } := by
  have hpos := h.position
  have hcur := h.curpos
  have hlen := text_length e
  have hsize := cfg.cmdSize_lt
  have hlen' : ((c :: e.before).reverse ++ e.after).length = e.text.length + 1 := by
    rw [hlen, List.length_append, List.length_reverse, List.length_cons]
    omega
  have htext : (c :: e.before).reverse ++ e.after = e.before.reverse ++ c :: e.after := by simp
  have hstore : Storable cfg ((c :: e.before).reverse ++ e.after) :=
    ⟨hlen' ▸ hfit, htext ▸ not_mem_insert h.storable hc⟩
  refine ⟨_, ?_, ?_, h.setText (c :: e.before) e.after hstore⟩
  case refine_2 => rfl
  have hlt : ¬ s.linePosition ≥ cfg.cmdSize := by omega
  have hlt' : ¬ (s.linePosition + 1) % 65536 ≥ cfg.cmdSize := by omega
  unfold normalKey
  simp only [if_neg hlt, insertChar_spec h, bind, Except.bind, if_neg hlt']
  rw [hlen', List.length_cons, Nat.mod_eq_of_lt (by omega), Nat.mod_eq_of_lt (by omega), hpos, hcur]

/-- The character in front of the cursor is removed. -/
theorem removeChar_spec (h : Refines cfg s e) {b : List Char} (hb : e.before = c :: b) :
    removeChar s.line (e.text.length - 1) b.length = .ok (pad cfg (b.reverse ++ e.after)) := by
  have hlen := text_length e
  rw [hb, List.length_cons] at hlen
  have hline : s.line = b.reverse ++ c :: (e.after ++ '\x00' ::
      List.replicate (cfg.cmdSize - e.text.length - 1) '\x00') := by
    rw [h.line_eq, hb]
    simp
  have hnew : b.reverse ++ (e.after ++ '\x00' :: '\x00' ::
      List.replicate (cfg.cmdSize - e.text.length - 1) '\x00') = pad cfg (b.reverse ++ e.after) := by
    have hfit := h.storable.1
    have hsub : cfg.cmdSize - (b.reverse ++ e.after).length = cfg.cmdSize - e.text.length - 1 + 1 + 1 := by
      rw [List.length_append, List.length_reverse]
      omega
    rw [pad, hsub, List.replicate_succ, List.replicate_succ, List.append_assoc]
  have hposition : e.text.length - 1 = (b.reverse ++ e.after).length := by
    rw [List.length_append, List.length_reverse]
    omega
  have hrest : e.text.length - 1 - b.length = e.after.length := by omega
  unfold removeChar
  by_cases hafter : e.after = []
  · rw [hafter] at hposition hnew hrest
    rw [List.length_nil] at hrest
    rw [List.nil_append] at hnew
    rw [List.append_nil] at hposition hnew
    rw [if_neg (by omega), hline, hafter, hposition, List.nil_append, wr_append, hnew,
      List.append_nil]
  · have hafterpos := List.length_pos_of_ne_nil hafter
    obtain ⟨y, hmove⟩ := rtMemmove_delete (v := b.reverse) (m := e.after) (x := c)
      (t := '\x00' :: List.replicate (cfg.cmdSize - e.text.length - 1) '\x00')
    rw [List.length_reverse] at hmove
    rw [if_pos (by omega), hrest, hline, hmove, hposition]
    show Buffer.wr (b.reverse ++ (e.after ++ y :: '\x00' :: _)) _ _ = _
    rw [← List.append_assoc, wr_append, List.append_assoc, hnew]

theorem backspaceKey_spec (h : Refines cfg s e) :
    ∃ s', backspaceKey s = .ok s' ∧ s'.stat = s.stat ∧
      Refines cfg s' { e with before := e.before.tail } := by
  have hcur := h.curpos
  have hpos := h.position
  have hlen := text_length e
  unfold backspaceKey
  cases hb : e.before with
  | nil =>
      rw [hb, List.length_nil] at hcur
      refine ⟨s, if_pos hcur, rfl, ?_⟩
      rw [List.tail_nil, ← hb]
      exact h
  | cons c b =>
      rw [hb, List.length_cons] at hcur hlen
      have hsize := cfg.cmdSize_lt
      have hfit := h.storable.1
      have hstore : Storable cfg (b.reverse ++ e.after) := by
        refine ⟨?_, fun hmem => h.storable.2 ?_⟩
        · rw [List.length_append, List.length_reverse]
          omega
        · rw [Editor.text, hb, List.reverse_cons]
          simp only [List.mem_append] at hmem ⊢
          exact hmem.imp_left .inl
      have hlen' : (b.reverse ++ e.after).length = e.text.length - 1 := by
        rw [List.length_append, List.length_reverse]
        omega
      have hposition : (s.linePosition + 65535) % 65536 = e.text.length - 1 := by omega
      have hcurpos : (s.lineCurpos + 65535) % 65536 = b.length := by omega
      refine ⟨_, ?_, ?_, h.setText b e.after hstore⟩
      case refine_2 => rfl
      rw [if_neg (by omega)]
      simp only [hposition, hcurpos, removeChar_spec h hb, bind, Except.bind, hlen']

/-- Another place of the cursor in the text. -/
theorem Refines.setCursor (h : Refines cfg s e) (before after : List Char)
    (ht : before.reverse ++ after = e.text) :
    Refines cfg { s with lineCurpos := before.length } { e with before := before, after := after } where
  storable := by
    show Storable cfg (before.reverse ++ after)
    rw [ht]
    exact h.storable
  line := h.line.trans (congrArg (pad cfg) ht.symm)
  position := h.position.trans (congrArg List.length ht.symm)
  curpos := rfl
  history := h.history
  rows := h.rows
  lines := h.lines
  count := h.count
  place := h.place
  place_le := h.place_le

/-- Another place in the history. -/
theorem Refines.setPlace (h : Refines cfg s e) {i : Nat} (hi : i ≤ e.history.length) :
    Refines cfg { s with currentHistory := i } { e with place := i } where
  storable := h.storable
  line := h.line
  position := h.position
  curpos := h.curpos
  history := h.history
  rows := h.rows
  lines := h.lines
  count := h.count
  place := rfl
  place_le := hi

theorem leftKey_stat (s : Shell) : (leftKey s).stat = s.stat := by
  unfold leftKey
  split_ifs <;> rfl

theorem rightKey_stat (s : Shell) : (rightKey s).stat = s.stat := by
  unfold rightKey
  split_ifs <;> rfl

theorem leftKey_spec (h : Refines cfg s e) : Refines cfg (leftKey s) (e.press cfg .left).1 := by
  have hcur := h.curpos
  unfold leftKey Editor.press
  cases hb : e.before with
  | nil =>
      rw [hb, List.length_nil] at hcur
      rw [if_neg (not_not.mpr hcur)]
      exact h
  | cons c b =>
      rw [hb, List.length_cons] at hcur
      rw [if_pos (by omega), hcur, Nat.add_sub_cancel]
      exact h.setCursor b (c :: e.after) (by simp [Editor.text, hb])

theorem rightKey_spec (h : Refines cfg s e) : Refines cfg (rightKey s) (e.press cfg .right).1 := by
  have hcur := h.curpos
  have hpos := h.position
  rw [text_length] at hpos
  unfold rightKey Editor.press
  cases ha : e.after with
  | nil =>
      rw [ha, List.length_nil] at hpos
      rw [if_neg (by omega)]
      exact h
  | cons c a =>
      rw [ha, List.length_cons] at hpos
      rw [if_pos (by omega), hcur]
      exact h.setCursor (c :: e.before) a (by simp [Editor.text, ha])

/-! ## The history -/

theorem row_history (h : Refines cfg s e) {i : Nat} (hi : i < e.history.length) :
    row s.cmdHistory i = .ok (pad cfg (e.history.getD i [])) := by
  obtain ⟨free, hrows⟩ := h.rows
  have hget : s.cmdHistory[i]? = some (pad cfg e.history[i]) := by
    rw [hrows, List.getElem?_append_left (by rwa [List.length_map]), List.getElem?_map,
      List.getElem?_eq_getElem hi]
    rfl
  rw [row, hget, List.getD_eq_getElem _ _ hi]

theorem storable_history (h : Refines cfg s e) {i : Nat} (hi : i < e.history.length) :
    Storable cfg (e.history.getD i []) := by
  rw [List.getD_eq_getElem _ _ hi]
  exact h.history _ (List.getElem_mem hi)

theorem copyHistory_spec (h : Refines cfg s e) {i : Nat} (hi : i < e.history.length) :
    ∃ s', copyHistory cfg { s with currentHistory := i } = .ok s' ∧ s'.stat = s.stat ∧
      Refines cfg s' (e.recalled i) := by
  have hstore := storable_history h hi
  have hline : s.line.length = cfg.cmdSize := by
    rw [h.line, pad_length (le_of_lt h.storable.1)]
  have hstrlen : strlen (pad cfg (e.history.getD i [])) = .ok (e.history.getD i []).length := by
    rw [pad_eq hstore.1, strlen_append hstore.2]
  have htext : (e.history.getD i []).reverse.reverse ++ [] = e.history.getD i [] := by simp
  have hnew := h.setText (e.history.getD i []).reverse [] (htext.symm ▸ hstore)
  rw [htext, List.length_reverse] at hnew
  refine ⟨_, ?_, ?_, hnew.setPlace (le_of_lt hi)⟩
  case refine_2 => rfl
  unfold copyHistory
  simp only [row_history h hi, memcpy_pad hline hstore.1, hstrlen, bind, Except.bind]

/-- The newest line is the one that is there. -/
theorem getLast?_history {hist : List (List Char)} (hne : hist ≠ []) :
    hist.getLast? = some (hist.getD (hist.length - 1) []) := by
  have hpos := List.length_pos_of_ne_nil hne
  rw [List.getLast?_eq_getElem?, List.getD_eq_getElem _ _ (by omega),
    List.getElem?_eq_getElem (by omega)]

theorem upKey_spec (h : Refines cfg s e) : ∃ s', upKey cfg s = .ok s' ∧ s'.stat = s.stat ∧
    Refines cfg s' (e.press cfg .up).1 := by
  have hplace := h.place
  have hle := h.place_le
  unfold upKey Editor.press
  by_cases hzero : e.place = 0
  · rw [if_neg (by omega)]
    have hnew := h.setPlace (Nat.zero_le _)
    refine ⟨_, rfl, ?_, ?_⟩
    · rfl
    · show Refines cfg _ (if e.place = 0 then e else _)
      have he : ({ e with place := 0 } : Editor) = e := by rw [← hzero]
      rw [if_pos hzero]
      rwa [he] at hnew
  · show ∃ s', _ ∧ _ ∧ Refines cfg s' (if e.place = 0 then e else _)
    rw [if_pos (by omega), if_neg hzero, hplace]
    exact copyHistory_spec h (by omega)

theorem downKey_spec (h : Refines cfg s e) : ∃ s', downKey cfg s = .ok s' ∧ s'.stat = s.stat ∧
    Refines cfg s' (e.press cfg .down).1 := by
  have hplace := h.place
  have hle := h.place_le
  have hcount := h.count
  unfold downKey Editor.press
  show ∃ s', _ ∧ _ ∧ Refines cfg s' (if e.history = [] then e else _)
  by_cases hnil : e.history = []
  · rw [hnil, List.length_nil] at hcount
    refine ⟨s, ?_, rfl, ?_⟩
    · rw [if_neg (by omega), if_neg (not_not.mpr hcount)]
    · rw [if_pos hnil]
      exact h
  · have hpos := List.length_pos_of_ne_nil hnil
    rw [if_neg hnil]
    by_cases hnext : s.currentHistory + 1 < s.historyCount
    · have hmin : min (e.place + 1) (e.history.length - 1) = s.currentHistory + 1 := by omega
      rw [if_pos hnext, hmin]
      exact copyHistory_spec h (by omega)
    · have hmin : min (e.place + 1) (e.history.length - 1) = s.historyCount - 1 := by omega
      rw [if_neg hnext, if_pos (by omega), hmin]
      exact copyHistory_spec h (by omega)

theorem pad_inj (ht : Storable cfg t) (hu : Storable cfg u) (h : pad cfg t = pad cfg u) : t = u := by
  rw [← stringAt_pad ht.1 ht.2, h, stringAt_pad hu.1 hu.2]

theorem differs_spec (h : Refines cfg s e) {i : Nat} (hi : i < e.history.length) :
    differs cfg s i = .ok (decide (e.history.getD i [] ≠ e.text)) := by
  have hstore := storable_history h hi
  unfold differs
  rw [row_history h hi]
  simp only [bind, Except.bind, h.line]
  rw [List.take_of_length_le (le_of_eq (pad_length (le_of_lt hstore.1))),
    List.take_of_length_le (le_of_eq (pad_length (le_of_lt h.storable.1)))]
  congr 1
  exact decide_eq_decide.mpr
    (not_congr ⟨pad_inj hstore h.storable, fun heq => congrArg (pad cfg) heq⟩)

/-- The entries of the history move down by one place. -/
theorem moveHistory_spec {v m w : List Buffer} {x : Buffer} : ∃ y,
    moveHistory v.length m.length (v ++ x :: (m ++ w)) = .ok (v ++ (m ++ y :: w)) := by
  induction m generalizing v x with
  | nil => exact ⟨x, rfl⟩
  | cons a m ih =>
      obtain ⟨y, hy⟩ := ih (v := v ++ [a]) (x := a)
      rw [List.length_append, List.length_singleton] at hy
      have hrow : row (v ++ x :: (a :: m ++ w)) (v.length + 1) = .ok a := by
        unfold row
        rw [List.getElem?_append_right (Nat.le_add_right _ 1), Nat.add_sub_cancel_left]
        rfl
      have hset : setRow (v ++ x :: (a :: m ++ w)) v.length a = .ok (v ++ a :: (a :: m ++ w)) := by
        unfold setRow
        rw [if_pos (by simp), List.set_append_right (h := le_refl _), Nat.sub_self, List.set_cons_zero]
      refine ⟨y, ?_⟩
      rw [List.length_cons, moveHistory, hrow]
      simp only [bind, Except.bind, hset]
      rw [List.append_cons, List.cons_append, hy, List.append_assoc, List.singleton_append,
        List.cons_append]

/-- The line is stored behind the entries in front of the place. -/
theorem storeLine_spec (h : Refines cfg s e) {v w : List Buffer} {x : Buffer} :
    storeLine cfg s (v ++ x :: w) v.length = .ok (v ++ pad cfg e.text :: w) := by
  unfold storeLine
  rw [h.line, h.position, memcpy_zeros h.storable.1]
  simp only [bind, Except.bind, setRow]
  rw [if_pos (by simp), List.set_append_right (h := le_refl _), Nat.sub_self, List.set_cons_zero]

/-- The history array holds these lines. -/
def Holds (cfg : ShellConfig) (rows : List Buffer) (history : List (List Char)) : Prop :=
  (∃ free, rows = history.map (pad cfg) ++ free) ∧ rows.length = cfg.historyLines

theorem Refines.length_le (h : Refines cfg s e) : e.history.length ≤ cfg.historyLines := by
  obtain ⟨free, hrows⟩ := h.rows
  have hlines := h.lines
  rw [hrows, List.length_append, List.length_map] at hlines
  omega

/-- The history with the line pushed, when it is not the newest one already. -/
theorem push_new (lines : Nat) (htext : e.text ≠ []) (hlast : e.history.getLast? ≠ some e.text) :
    e.push lines = (e.history ++ [e.text]).drop (e.history.length + 1 - lines) :=
  if_neg (not_or.mpr ⟨htext, hlast⟩)

theorem pushFull_spec (h : Refines cfg s e) (htext : e.text ≠ [])
    (hfull : s.historyCount ≥ cfg.historyLines) : ∃ rows,
    pushFull cfg s =
      .ok { s with cmdHistory := rows, historyCount := (e.push cfg.historyLines).length } ∧
    Holds cfg rows (e.push cfg.historyLines) := by
  have hcount := h.count
  have hle := h.length_le
  have hpos := cfg.historyLines_pos
  have hlen : e.history.length = cfg.historyLines := by omega
  have hne : e.history ≠ [] := List.ne_nil_of_length_pos (by omega)
  have hlast := getLast?_history hne
  unfold pushFull
  rw [differs_spec h (by omega)]
  simp only [bind, Except.bind, decide_eq_true_eq]
  rw [hlen] at hlast
  by_cases hsame : e.history.getD (cfg.historyLines - 1) [] = e.text
  · have hpush : e.push cfg.historyLines = e.history := if_pos (.inr (hlast.trans (congrArg some hsame)))
    rw [if_neg (not_not.mpr hsame), hpush, ← hcount]
    exact ⟨s.cmdHistory, rfl, h.rows, h.lines⟩
  · have hpush := push_new cfg.historyLines htext
      (fun heq => hsame (Option.some.inj (hlast.symm.trans heq)))
    obtain ⟨a, hist, hhist⟩ := List.exists_cons_of_ne_nil hne
    obtain ⟨free, hrows⟩ := h.rows
    have hlines := h.lines
    rw [hrows, List.length_append, List.length_map] at hlines
    have hfree : free = [] := List.eq_nil_of_length_eq_zero (by omega)
    have hnew : e.push cfg.historyLines = hist ++ [e.text] := by
      rw [hpush, hlen, Nat.add_sub_cancel_left, hhist]
      rfl
    have hlenHist : (hist.map (pad cfg)).length = cfg.historyLines - 1 := by
      rw [hhist, List.length_cons] at hlen
      rw [List.length_map]
      omega
    have harray : s.cmdHistory = [] ++ pad cfg a :: (hist.map (pad cfg) ++ []) := by
      rw [hrows, hfree, hhist]
      rfl
    obtain ⟨y, hmove⟩ := moveHistory_spec (v := []) (m := hist.map (pad cfg)) (w := []) (x := pad cfg a)
    rw [← harray, hlenHist, List.length_nil, List.nil_append] at hmove
    have hstore : storeLine cfg s (hist.map (pad cfg) ++ [y]) (cfg.historyLines - 1) =
        .ok (hist.map (pad cfg) ++ [pad cfg e.text]) := by
      rw [← hlenHist]
      exact storeLine_spec h
    rw [if_pos hsame]
    simp only [hmove, hstore]
    have hlenNew : (hist ++ [e.text]).length = cfg.historyLines := by
      rw [List.length_append, List.length_singleton, ← List.length_map (f := pad cfg), hlenHist]
      omega
    rw [hnew, hlenNew]
    refine ⟨_, rfl, ⟨[], ?_⟩, ?_⟩
    · rw [List.map_append, List.append_nil]
      rfl
    · rw [List.length_append, hlenHist, List.length_singleton]
      omega

theorem pushFree_spec (h : Refines cfg s e) (htext : e.text ≠ [])
    (hroom : ¬ s.historyCount ≥ cfg.historyLines) : ∃ rows,
    pushFree cfg s =
      .ok { s with cmdHistory := rows, historyCount := (e.push cfg.historyLines).length } ∧
    Holds cfg rows (e.push cfg.historyLines) := by
  have hcount := h.count
  have hpush : e.history.getLast? ≠ some e.text → e.push cfg.historyLines = e.history ++ [e.text] := by
    intro hlast
    rw [push_new _ htext hlast, Nat.sub_eq_zero_of_le (by omega), List.drop_zero]
  -- the line goes to the first free place
  have hstored : e.history.getLast? ≠ some e.text → ∃ rows,
      (do
        let history ← storeLine cfg s s.cmdHistory s.historyCount
        Except.ok { s with cmdHistory := history, historyCount := s.historyCount + 1 }) =
        Except.ok { s with cmdHistory := rows, historyCount := (e.push cfg.historyLines).length } ∧
      Holds cfg rows (e.push cfg.historyLines) := by
    intro hlast
    obtain ⟨free, hrows⟩ := h.rows
    have hlines := h.lines
    cases free with
    | nil =>
        rw [hrows, List.append_nil, List.length_map] at hlines
        omega
    | cons x free =>
        have hstore : storeLine cfg s s.cmdHistory s.historyCount =
            .ok (e.history.map (pad cfg) ++ pad cfg e.text :: free) := by
          rw [hrows, hcount, ← List.length_map (f := pad cfg)]
          exact storeLine_spec h
        rw [hstore, hpush hlast, List.length_append, List.length_singleton, hcount]
        refine ⟨_, rfl, ⟨free, ?_⟩, ?_⟩
        · rw [List.map_append, List.append_assoc]
          rfl
        · rw [hrows] at hlines
          simpa using hlines
  unfold pushFree
  by_cases hnone : s.historyCount = 0
  · have hnil : e.history = [] := List.eq_nil_of_length_eq_zero (by omega)
    simp only [if_pos hnone, bind, Except.bind, if_true]
    exact hstored (by simp [hnil])
  · have hne : e.history ≠ [] := List.ne_nil_of_length_pos (by omega)
    have hlast := getLast?_history hne
    rw [if_neg hnone, hcount, differs_spec h (by omega)]
    simp only [bind, Except.bind, decide_eq_true_eq]
    by_cases hsame : e.history.getD (e.history.length - 1) [] = e.text
    · have hkeep : e.push cfg.historyLines = e.history :=
        if_pos (.inr (hlast.trans (congrArg some hsame)))
      rw [if_neg (not_not.mpr hsame), hkeep, ← hcount]
      exact ⟨s.cmdHistory, rfl, h.rows, h.lines⟩
    · rw [if_pos hsame, ← hcount]
      exact hstored fun heq => hsame (Option.some.inj (hlast.symm.trans heq))

theorem pushLine_spec (h : Refines cfg s e) : ∃ rows,
    pushLine cfg s =
      .ok { s with cmdHistory := rows, historyCount := (e.push cfg.historyLines).length } ∧
    Holds cfg rows (e.push cfg.historyLines) := by
  have hpos := h.position
  unfold pushLine
  by_cases htext : e.text = []
  · have hkeep : e.push cfg.historyLines = e.history := if_pos (.inl htext)
    rw [htext, List.length_nil] at hpos
    rw [if_neg (not_not.mpr hpos), hkeep, ← h.count]
    exact ⟨s.cmdHistory, rfl, h.rows, h.lines⟩
  · have hlen := List.length_pos_of_ne_nil htext
    rw [if_pos (by omega)]
    by_cases hfull : s.historyCount ≥ cfg.historyLines
    · rw [if_pos hfull]
      exact pushFull_spec h htext hfull
    · rw [if_neg hfull]
      exact pushFree_spec h htext hfull

theorem storable_push (h : Refines cfg s e) {n : Nat} (ht : t ∈ e.push n) : Storable cfg t := by
  unfold Editor.push at ht
  split_ifs at ht
  · exact h.history t ht
  · obtain hmem | hmem := List.mem_append.mp (List.mem_of_mem_drop ht)
    · exact h.history t hmem
    · exact List.mem_singleton.mp hmem ▸ h.storable

/-- The line goes to the history and to `msh_exec`, and the next prompt is fresh. -/
theorem enterKey_spec (h : Refines cfg s e) : ∃ s',
    enterKey cfg s = .ok (s', pad cfg e.text, e.text.length) ∧ s'.stat = s.stat ∧
      Refines cfg s' (e.press cfg .enter).1 := by
  obtain ⟨rows, hpush, hrows, hlines⟩ := pushLine_spec h
  have hnew : Refines cfg
      { s with
        line := zeros cfg, linePosition := 0, lineCurpos := 0, cmdHistory := rows
        historyCount := (e.push cfg.historyLines).length
        currentHistory := (e.push cfg.historyLines).length }
      (e.press cfg .enter).1 :=
    { storable := ⟨cfg.cmdSize_pos, List.not_mem_nil⟩
      line := rfl
      position := rfl
      curpos := rfl
      history := fun _ ht => storable_push h ht
      rows := hrows
      lines := hlines
      count := rfl
      place := rfl
      place_le := le_refl _ }
  refine ⟨_, ?_, ?_, hnew⟩
  case refine_2 => rfl
  unfold enterKey shellPushHistory
  simp only [hpush, bind, Except.bind]
  rw [h.line, h.position]

end Keys

/-! ## The whole loop -/

section Loop

variable {cfg : ShellConfig} {s : Shell} {e : Editor} {c : Char}

/-- What `msh_exec` is called with is a complete line. -/
def Handed (exec : Option (Buffer × Nat)) (line : Option (List Char)) : Prop :=
  exec.map (fun x => (stringAt x.1 0, x.2)) = line.map (fun t => (t, t.length))

/-- The character is used up by the key that it completes. -/
def Used (cfg : ShellConfig) (s : Shell) (e : Editor) (c : Char) : Prop :=
  ∃ s', controlKey cfg s c = .ok (.used s') ∧ s'.stat = (nextKey s.stat c).1 ∧
    Refines cfg s' (e.press cfg (nextKey s.stat c).2).1 ∧ (e.press cfg (nextKey s.stat c).2).2 = none

/-- The character is an ordinary one. -/
def Ordinary (cfg : ShellConfig) (s : Shell) (c : Char) : Prop :=
  controlKey cfg s c = .ok (.goOn { s with stat := .waitNormal }) ∧
    nextKey s.stat c = (.waitNormal, keyOf c)

/-- An arrow key, behind the two characters of its escape sequence. -/
theorem funcKey_spec (h : Refines cfg s e) (hesc : c ≠ '\x1b') (hstat : s.stat = .waitFuncKey) :
    Used cfg s e c ∨ Ordinary cfg s c := by
  have hnormal := h.setStat .waitNormal
  have hspec : ¬ s.stat = .waitSpecKey := by simp [hstat]
  unfold Used Ordinary controlKey nextKey
  rw [if_neg hesc, if_neg hspec, if_pos hstat, if_neg hesc, hstat]
  by_cases hup : c = 'A'
  · obtain ⟨s', hs, hstat', href⟩ := upKey_spec hnormal
    refine .inl ⟨s', ?_, hstat', ?_, ?_⟩
    · simp only [if_pos hup, hs, bind, Except.bind]
    · simpa only [if_pos hup] using href
    · simp only [if_pos hup]
      rfl
  by_cases hdown : c = 'B'
  · obtain ⟨s', hs, hstat', href⟩ := downKey_spec hnormal
    refine .inl ⟨s', ?_, hstat', ?_, ?_⟩
    · simp only [if_neg hup, if_pos hdown, hs, bind, Except.bind]
    · simpa only [if_neg hup, if_pos hdown] using href
    · simp only [if_neg hup, if_pos hdown]
      rfl
  by_cases hleft : c = 'D'
  · refine .inl ⟨leftKey { s with stat := .waitNormal }, ?_, leftKey_stat _, ?_, ?_⟩
    · simp only [if_neg hup, if_neg hdown, if_pos hleft]
    · simpa only [if_neg hup, if_neg hdown, if_pos hleft] using leftKey_spec hnormal
    · simp only [if_neg hup, if_neg hdown, if_pos hleft]
      rfl
  by_cases hright : c = 'C'
  · refine .inl ⟨rightKey { s with stat := .waitNormal }, ?_, rightKey_stat _, ?_, ?_⟩
    · simp only [if_neg hup, if_neg hdown, if_neg hleft, if_pos hright]
    · simpa only [if_neg hup, if_neg hdown, if_neg hleft, if_pos hright] using rightKey_spec hnormal
    · simp only [if_neg hup, if_neg hdown, if_neg hleft, if_pos hright]
      rfl
  · refine .inr ⟨?_, ?_⟩
    · simp only [if_neg hup, if_neg hdown, if_neg hleft, if_neg hright]
    · simp only [if_neg hup, if_neg hdown, if_neg hleft, if_neg hright]

theorem controlKey_spec (h : Refines cfg s e) : Used cfg s e c ∨ Ordinary cfg s c := by
  by_cases hesc : c = '\x1b'
  · have hnext : nextKey s.stat c = (.waitSpecKey, .none) := by
      unfold nextKey
      rw [if_pos hesc]
    refine .inl ⟨{ s with stat := .waitSpecKey }, ?_, ?_, ?_, ?_⟩
    · rw [controlKey, if_pos hesc]
    · rw [hnext]
    · rw [hnext]
      exact h.setStat _
    · rw [hnext]
      rfl
  cases hstat : s.stat with
  | waitFuncKey => exact funcKey_spec h hesc hstat
  | waitSpecKey =>
      by_cases hfunc : c = '['
      · refine .inl ⟨{ s with stat := .waitFuncKey }, ?_, ?_, ?_, ?_⟩
        · rw [controlKey, if_neg hesc, if_pos hstat, if_pos hfunc]
        · simp only [nextKey, if_neg hesc, hstat, if_pos hfunc]
        · simp only [nextKey, if_neg hesc, hstat, if_pos hfunc]
          exact h.setStat _
        · simp only [nextKey, if_neg hesc, hstat, if_pos hfunc]
          rfl
      · refine .inr ⟨?_, ?_⟩
        · rw [controlKey, if_neg hesc, if_pos hstat, if_neg hfunc]
        · simp only [nextKey, if_neg hesc, hstat, if_neg hfunc]
  | waitNormal =>
      have hspec : ¬ s.stat = .waitSpecKey := by simp [hstat]
      have hfunc : ¬ s.stat = .waitFuncKey := by simp [hstat]
      have hs : ({ s with stat := .waitNormal } : Shell) = s := by rw [← hstat]
      refine .inr ⟨?_, ?_⟩
      · rw [controlKey, if_neg hesc, if_neg hspec, if_neg hfunc, hs]
      · simp only [nextKey, if_neg hesc, hstat]

/-- **A round of the loop is a key of the editor.** -/
theorem finshInput_spec (complete : Buffer → Except Fault Buffer) (h : Refines cfg s e) (htab : c ≠ '\t')
    (hfit : ∀ c', (nextKey s.stat c).2 = .char c' → e.text.length + 1 < cfg.cmdSize) :
    ∃ s' exec, finshInput cfg complete s c = .ok (s', exec) ∧ s'.stat = (nextKey s.stat c).1 ∧
      Refines cfg s' (e.press cfg (nextKey s.stat c).2).1 ∧
      Handed exec (e.press cfg (nextKey s.stat c).2).2 := by
  obtain ⟨s', hcontrol, hstat, href, hline⟩ | ⟨hcontrol, hnext⟩ := controlKey_spec (c := c) h
  · refine ⟨s', none, ?_, hstat, href, ?_⟩
    · rw [finshInput, hcontrol]
      rfl
    · rw [hline]
      rfl
  · have hnormal := h.setStat .waitNormal
    rw [hnext] at hfit ⊢
    unfold keyOf at hfit ⊢
    rw [finshInput, hcontrol]
    simp only [bind, Except.bind]
    by_cases hnul : c = '\x00' ∨ c = '\xff'
    · rw [if_pos hnul, if_pos hnul]
      exact ⟨_, none, rfl, rfl, hnormal, rfl⟩
    rw [if_neg hnul] at hfit
    rw [if_neg hnul, if_neg hnul, if_neg htab]
    by_cases hback : c = '\x7f' ∨ c = '\x08'
    · obtain ⟨s', hs, hstat, href⟩ := backspaceKey_spec hnormal
      rw [if_pos hback, if_pos hback, hs]
      exact ⟨s', none, rfl, hstat, href, rfl⟩
    rw [if_neg hback] at hfit
    rw [if_neg hback, if_neg hback]
    by_cases henter : c = '\r' ∨ c = '\n'
    · obtain ⟨s', hs, hstat, href⟩ := enterKey_spec hnormal
      rw [if_pos henter, if_pos henter, hs]
      refine ⟨s', some (pad cfg e.text, e.text.length), rfl, hstat, href, ?_⟩
      exact congrArg some (congrArg (·, e.text.length) (stringAt_pad h.storable.1 h.storable.2))
    · rw [if_neg henter] at hfit
      have hroom := hfit c rfl
      obtain ⟨s', hs, hstat, href⟩ := normalKey_spec hnormal (fun h => hnul (.inl h)) hroom
      rw [if_neg henter, if_neg henter, hs]
      refine ⟨s', none, rfl, hstat, ?_, rfl⟩
      show Refines cfg s' (if e.text.length + 1 < cfg.cmdSize then _ else _)
      rwa [if_pos hroom]

/-- The loop stands for the editor after every sequence of characters in which no text reaches
`FINSH_CMD_SIZE` characters. -/
theorem finshInputs_spec (complete : Buffer → Except Fault Buffer) (cs : List Char)
    (htab : '\t' ∉ cs) : ∀ {s : Shell} {e : Editor}, Refines cfg s e → e.Fits cfg (keys s.stat cs) →
    ∃ s' execs, finshInputs cfg complete s cs = .ok (s', execs) ∧
      Refines cfg s' (e.pressAll cfg (keys s.stat cs)).1 ∧
      execs.map (fun x => (stringAt x.1 0, x.2)) =
        (e.pressAll cfg (keys s.stat cs)).2.map fun t => (t, t.length) := by
  induction cs with
  | nil => exact fun h _ => ⟨_, [], rfl, h, rfl⟩
  | cons c cs ih =>
      intro s e h hfits
      obtain ⟨hc, hcs⟩ := not_or.mp (mt List.mem_cons.mpr htab)
      obtain ⟨s₁, exec, hinput, hstat, href, hhanded⟩ :=
        finshInput_spec complete h (Ne.symm hc) hfits.1
      obtain ⟨s', execs, hinputs, href', hhanded'⟩ := ih hcs href (hstat ▸ hfits.2)
      rw [hstat] at href' hhanded'
      refine ⟨s', exec.toList ++ execs, ?_, href', ?_⟩
      · rw [finshInputs, hinput]
        simp only [bind, Except.bind, hinputs]
      · show _ = List.map _ ((e.press cfg (nextKey s.stat c).2).2.toList ++ _)
        rw [List.map_append, List.map_append, hhanded', ← Option.toList_map, ← Option.toList_map]
        exact congrArg (fun o => o.toList ++ _) hhanded

/-- A fresh prompt, with these earlier lines. -/
structure FreshPrompt (cfg : ShellConfig) (s : Shell) (history : List (List Char)) : Prop where
  stat : s.stat = .waitNormal
  line : s.line = zeros cfg
  position : s.linePosition = 0
  curpos : s.lineCurpos = 0
  stored : ∀ t ∈ history, t.length < cfg.cmdSize ∧ '\x00' ∉ t
  rows : ∃ free, s.cmdHistory = history.map (pad cfg) ++ free
  lines : s.cmdHistory.length = cfg.historyLines
  count : s.historyCount = history.length
  current : s.currentHistory = history.length

theorem freshPrompt_init (cfg : ShellConfig) : FreshPrompt cfg (Shell.init cfg) [] where
  stat := rfl
  line := rfl
  position := rfl
  curpos := rfl
  stored := by simp
  rows := ⟨_, rfl⟩
  lines := List.length_replicate
  count := rfl
  current := rfl

theorem FreshPrompt.refines {history : List (List Char)} (h : FreshPrompt cfg s history) :
    Refines cfg s (.prompt history) where
  storable := ⟨cfg.cmdSize_pos, List.not_mem_nil⟩
  line := h.line
  position := h.position
  curpos := h.curpos
  history := h.stored
  rows := h.rows
  lines := h.lines
  count := h.count
  place := h.current
  place_le := le_refl _

/-- **The line editor is a text with a cursor.** From a fresh prompt, after every sequence of characters
without a tab in which no text reaches `FINSH_CMD_SIZE` characters: the counters are inside the array, the
array is zero from `line_position` on and holds the text in front of it, and `msh_exec` was called with the
complete lines. -/
theorem line_editor (cfg : ShellConfig) (complete : Buffer → Except Fault Buffer) (s₀ : Shell)
    (history : List (List Char)) (h₀ : FreshPrompt cfg s₀ history) (cs : List Char) (htab : '\t' ∉ cs)
    (hfits : (Editor.prompt history).Fits cfg (keys .waitNormal cs)) :
    ∃ s execs, finshInputs cfg complete s₀ cs = .ok (s, execs) ∧
      s.lineCurpos ≤ s.linePosition ∧ s.linePosition < cfg.cmdSize ∧ s.line.length = cfg.cmdSize ∧
      (∀ i, s.linePosition ≤ i → i < cfg.cmdSize → s.line[i]? = some '\x00') ∧
      s.line.take s.linePosition = ((Editor.prompt history).pressAll cfg (keys .waitNormal cs)).1.text ∧
      s.lineCurpos = ((Editor.prompt history).pressAll cfg (keys .waitNormal cs)).1.before.length ∧
      execs.map (fun x => (stringAt x.1 0, x.2)) =
        ((Editor.prompt history).pressAll cfg (keys .waitNormal cs)).2.map fun t => (t, t.length) := by
  have hfits' := hfits
  rw [← h₀.stat] at hfits'
  obtain ⟨s, execs, hrun, href, hexecs⟩ := finshInputs_spec complete cs htab h₀.refines hfits'
  rw [h₀.stat] at href hexecs
  have hlen := text_length ((Editor.prompt history).pressAll cfg (keys .waitNormal cs)).1
  have hline := href.line
  have hfit := href.storable.1
  have hpos := href.position
  refine ⟨s, execs, hrun, ?_, hpos ▸ hfit, ?_, ?_, ?_, href.curpos, hexecs⟩
  · rw [href.curpos, hpos, hlen]
    exact Nat.le_add_right _ _
  · rw [hline, pad_length (le_of_lt hfit)]
  · intro i hle hlt
    rw [hline, pad, List.getElem?_append_right (hpos ▸ hle), List.getElem?_replicate,
      if_pos (by omega)]
  · rw [hline, hpos, pad, List.take_left]

/-- `a`, the left arrow, `b` and the end of the line. -/
def insertBefore : List Char := ['a', '\x1b', '[', 'D', 'b', '\r']

theorem line_editor_insertBefore :
    ∃ s execs, finshInputs rtconfig .ok (Shell.init rtconfig) insertBefore = .ok (s, execs) ∧
      s.linePosition < 80 ∧ execs.map (fun x => (stringAt x.1 0, x.2)) = [(['b', 'a'], 2)] := by
  obtain ⟨s, execs, hrun, -, hposition, -, -, -, -, hexecs⟩ := line_editor rtconfig .ok
    (Shell.init rtconfig) [] (freshPrompt_init rtconfig) insertBefore (by decide)
    ⟨fun _ _ => by decide, fun _ _ => by decide, fun _ _ => by decide, fun _ _ => by decide,
      fun _ _ => by decide, fun _ _ => by decide, trivial⟩
  exact ⟨s, execs, hrun, hposition, hexecs⟩

/-- `line_position` and what stands in the first element of the line and at `FINSH_CMD_SIZE`. -/
def lineAfter (cs : List Char) : Option (Nat × Option Char × Option Char) :=
  match finshInputs rtconfig .ok (Shell.init rtconfig) cs with
  | .ok (s, _) => some (s.linePosition, s.line[0]?, s.line[rtconfig.cmdSize]?)
  | .error _ => none

/-- The line has no element `FINSH_CMD_SIZE`, and a text that is too long leaves its characters behind the
`line_position` of an empty line. -/
theorem line_not_zero :
    lineAfter [] = some (0, some '\x00', none) ∧
    lineAfter (List.replicate 80 'a') = some (0, some 'a', none) := by
  decide +kernel

end Loop

end RTThread.Finsh
