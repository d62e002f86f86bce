import RTThread.Finsh.LineEditor
import Mathlib.Data.List.DropRight

set_option autoImplicit false

/-! # The history of the shell

Between two keys that use the history the line may be edited into any text that fits. The lines that
`shell_push_history` keeps are the newest ones of those that are neither empty nor a repetition.
-/

namespace RTThread.Finsh

open Dfs (Buffer Fault)

variable {cfg : ShellConfig}

inductive HistoryKey (cfg : ShellConfig)
  /-- Other keys make this of the line, the cursor behind the first characters. -/
  | edit (front back : List Char) (fits : Storable cfg (front ++ back))
  | enter | up | down

/-- The shell, and what `msh_exec` is called with. -/
def HistoryKey.exec (s : Shell) : HistoryKey cfg → Except Fault (Shell × Option (Buffer × Nat))
  | .edit front back _ =>
      .ok ({ s with
        line := pad cfg (front ++ back)
        linePosition := (front ++ back).length
        lineCurpos := front.length }, none)
  | .enter => do
      let r ← enterKey cfg s
      .ok (r.1, some r.2)
  | .up => do
      let s ← upKey cfg s
      .ok (s, none)
  | .down => do
      let s ← downKey cfg s
      .ok (s, none)

/-- The shell after the keys, and the lines that were entered. -/
def historyRun : Shell → List (HistoryKey cfg) → Except Fault (Shell × List (List Char))
  | s, [] => .ok (s, [])
  | s, k :: ks => do
      let r ← k.exec s
      let rest ← historyRun r.1 ks
      .ok (rest.1, (r.2.map fun x => stringAt x.1 0).toList ++ rest.2)

/-- The lines that remain without the empty ones and those equal to the one that remained before. -/
def remaining (lines : List (List Char)) : List (List Char) :=
  lines.foldl (fun kept t => if t = [] ∨ kept.getLast? = some t then kept else kept ++ [t]) []

theorem remaining_concat (lines : List (List Char)) (t : List Char) : remaining (lines ++ [t]) =
    if t = [] ∨ (remaining lines).getLast? = some t then remaining lines else remaining lines ++ [t] := by
  unfold remaining
  rw [List.foldl_append]
  rfl

/-! ## The newest lines -/

theorem getLast?_rtake {α : Type} (l : List α) {n : Nat} (hn : 0 < n) : (l.rtake n).getLast? = l.getLast? := by
  obtain ⟨n, rfl⟩ := Nat.exists_eq_succ_of_ne_zero (Nat.pos_iff_ne_zero.mp hn)
  induction l using List.reverseRecOn with
  | nil => rw [List.rtake_nil]
  | append_singleton l a => rw [List.rtake_concat_succ, List.getLast?_concat, List.getLast?_concat]

/-- Pushing a line on the newest ones leaves the newest ones. -/
theorem drop_rtake_concat {α : Type} (l : List α) (a : α) {n : Nat} (hn : 0 < n) :
    (l.rtake n ++ [a]).drop ((l.rtake n).length + 1 - n) = (l ++ [a]).rtake n := by
  unfold List.rtake
  rw [← List.drop_append_of_le_length (Nat.sub_le _ _), List.drop_drop, List.length_drop,
    List.length_append, List.length_singleton]
  congr 1
  omega

/-- The earlier lines are the newest of those that remain. -/
theorem push_rtake {e : Editor} {lines : List (List Char)} {n : Nat} (hn : 0 < n)
    (h : e.history = (remaining lines).rtake n) :
    e.push n = (remaining (lines ++ [e.text])).rtake n := by
  unfold Editor.push
  rw [remaining_concat, h, getLast?_rtake _ hn]
  split_ifs
  · rfl
  · exact drop_rtake_concat _ _ hn

/-! ## The keys -/

/-- The shell stands for an editor whose earlier lines are the newest of those that were entered. -/
def Remembers (cfg : ShellConfig) (s : Shell) (lines : List (List Char)) : Prop :=
  ∃ e, Refines cfg s e ∧ e.history = (remaining lines).rtake cfg.historyLines

theorem remembers_init (cfg : ShellConfig) : Remembers cfg (Shell.init cfg) [] :=
  ⟨_, (freshPrompt_init cfg).refines, (List.rtake_nil _).symm⟩

theorem press_up_history (e : Editor) : (e.press cfg .up).1.history = e.history := by
  unfold Editor.press
  dsimp only
  split_ifs <;> rfl

theorem press_down_history (e : Editor) : (e.press cfg .down).1.history = e.history := by
  unfold Editor.press
  dsimp only
  split_ifs <;> rfl

/-- What a key does to the earlier lines. -/
theorem HistoryKey.exec_spec {s : Shell} {lines : List (List Char)} (h : Remembers cfg s lines)
    (k : HistoryKey cfg) : ∃ r, k.exec s = .ok r ∧
      Remembers cfg r.1 (lines ++ (r.2.map fun x => stringAt x.1 0).toList) := by
  obtain ⟨e, href, hlines⟩ := h
  cases k with
  | edit front back fits =>
      have hfront : front.reverse.reverse ++ back = front ++ back := by rw [List.reverse_reverse]
      have hset := href.setText front.reverse back (hfront.symm ▸ fits)
      rw [hfront, List.length_reverse] at hset
      refine ⟨_, rfl, _, hset, ?_⟩
      rw [Option.map_none, Option.toList_none, List.append_nil]
      exact hlines
  | enter =>
      obtain ⟨s', henter, -, href'⟩ := enterKey_spec href
      refine ⟨(s', some (pad cfg e.text, e.text.length)), ?_, _, href', ?_⟩
      · unfold exec
        rw [henter]
        rfl
      · show e.push cfg.historyLines = (remaining (lines ++ [stringAt (pad cfg e.text) 0])).rtake _
        rw [stringAt_pad href.storable.1 href.storable.2]
        exact push_rtake cfg.historyLines_pos hlines
  | up =>
      obtain ⟨s', hup, -, href'⟩ := upKey_spec href
      refine ⟨(s', none), ?_, _, href', ?_⟩
      · unfold exec
        rw [hup]
        rfl
      · rw [press_up_history, Option.map_none, Option.toList_none, List.append_nil]
        exact hlines
  | down =>
      obtain ⟨s', hdown, -, href'⟩ := downKey_spec href
      refine ⟨(s', none), ?_, _, href', ?_⟩
      · unfold exec
        rw [hdown]
        rfl
      · rw [press_down_history, Option.map_none, Option.toList_none, List.append_nil]
        exact hlines

/-- The earlier lines after the keys. -/
theorem historyRun_spec (ks : List (HistoryKey cfg)) : ∀ {s : Shell} {lines : List (List Char)},
    Remembers cfg s lines → ∃ s' entered, historyRun s ks = .ok (s', entered) ∧
      Remembers cfg s' (lines ++ entered) := by
  induction ks with
  | nil =>
      intro s lines h
      refine ⟨s, [], rfl, ?_⟩
      rwa [List.append_nil]
  | cons k ks ih =>
      intro s lines h
      obtain ⟨r, hexec, hr⟩ := k.exec_spec h
      obtain ⟨s', entered, hrun, hs'⟩ := ih hr
      refine ⟨s', (r.2.map fun x => stringAt x.1 0).toList ++ entered, ?_, ?_⟩
      · rw [historyRun, hexec]
        simp only [bind, Except.bind, hrun]
      · rwa [← List.append_assoc]

/-- The array holds exactly these lines, oldest first, each with zeros behind it. -/
structure HoldsLines (cfg : ShellConfig) (s : Shell) (history : List (List Char)) : Prop where
  count : s.historyCount = history.length
  rows : s.cmdHistory.take s.historyCount = history.map (pad cfg)
  current_le : s.currentHistory ≤ s.historyCount

/-- The line is an entry of the history, the one that `current_history` is at. -/
def Shows (cfg : ShellConfig) (history : List (List Char)) (s : Shell) : Prop :=
  ∃ t, history[s.currentHistory]? = some t ∧ s.line = pad cfg t ∧ s.linePosition = t.length

theorem Refines.holdsLines {s : Shell} {e : Editor} (h : Refines cfg s e) : HoldsLines cfg s e.history where
  count := h.count
  rows := by
    obtain ⟨free, hrows⟩ := h.rows
    rw [hrows, h.count, ← List.length_map (f := pad cfg), List.take_left]
  current_le := by
    rw [h.count, h.place]
    exact h.place_le

theorem Refines.shows {s : Shell} {e : Editor} {i : Nat} (h : Refines cfg s (e.recalled i))
    (hi : i < e.history.length) : Shows cfg e.history s := by
  have hplace : s.currentHistory = i := h.place
  have htext : (e.recalled i).text = e.history[i] := by
    show (e.history.getD i []).reverse.reverse ++ [] = _
    rw [List.append_nil, List.reverse_reverse, List.getD_eq_getElem _ _ hi]
  refine ⟨e.history[i], ?_, ?_, ?_⟩
  · rw [hplace, List.getElem?_eq_getElem hi]
  · rw [h.line, htext]
  · rw [h.position, htext]

/-- The line after the up key. -/
theorem upKey_shows {s : Shell} {e : Editor} (h : Refines cfg s e) : ∃ s', upKey cfg s = .ok s' ∧
    (s.currentHistory = 0 ∧ s' = s ∨ Shows cfg e.history s') := by
  by_cases hzero : s.currentHistory = 0
  · have hs : ({ s with currentHistory := 0 } : Shell) = s := by rw [← hzero]
    refine ⟨s, ?_, .inl ⟨hzero, rfl⟩⟩
    rw [upKey, if_neg (by omega), hs]
  · have hplace := h.place
    have hle := h.place_le
    have hpress : (e.press cfg .up).1 = e.recalled (e.place - 1) := if_neg (by omega)
    obtain ⟨s', hup, -, href⟩ := upKey_spec h
    rw [hpress] at href
    exact ⟨s', hup, .inr (href.shows (by omega))⟩

/-- The line after the down key. -/
theorem downKey_shows {s : Shell} {e : Editor} (h : Refines cfg s e) : ∃ s', downKey cfg s = .ok s' ∧
    (s.historyCount = 0 ∧ s' = s ∨ Shows cfg e.history s') := by
  have hcount := h.count
  by_cases hzero : s.historyCount = 0
  · refine ⟨s, ?_, .inl ⟨hzero, rfl⟩⟩
    rw [downKey, if_neg (by omega), if_neg (not_not.mpr hzero)]
  · have hne : e.history ≠ [] := List.ne_nil_of_length_pos (by omega)
    have hpress : (e.press cfg .down).1 = e.recalled (min (e.place + 1) (e.history.length - 1)) :=
      if_neg hne
    obtain ⟨s', hdown, -, href⟩ := downKey_spec h
    rw [hpress] at href
    exact ⟨s', hdown, .inr (href.shows (by omega))⟩

/-- **The history.** After every sequence of keys with any lines that fit, the array holds the newest of the
lines that remain, `current_history` is in it or behind it, and the arrows show its entries. -/
theorem shell_history (cfg : ShellConfig) (ks : List (HistoryKey cfg)) :
    ∃ s lines, historyRun (Shell.init cfg) ks = .ok (s, lines) ∧
      HoldsLines cfg s ((remaining lines).rtake cfg.historyLines) ∧
      (∃ s', upKey cfg s = .ok s' ∧
        (s.currentHistory = 0 ∧ s' = s ∨ Shows cfg ((remaining lines).rtake cfg.historyLines) s')) ∧
      ∃ s', downKey cfg s = .ok s' ∧
        (s.historyCount = 0 ∧ s' = s ∨ Shows cfg ((remaining lines).rtake cfg.historyLines) s') := by
  obtain ⟨s, lines, hrun, e, href, hlines⟩ := historyRun_spec ks (remembers_init cfg)
  rw [List.nil_append] at hlines
  refine ⟨s, lines, hrun, ?_⟩
  rw [← hlines]
  exact ⟨href.holdsLines, upKey_shows href, downKey_shows href⟩

end RTThread.Finsh
