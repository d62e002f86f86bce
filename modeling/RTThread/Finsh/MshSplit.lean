import Mathlib.Data.List.Forall2
import RTThread.Dfs.Lexical

set_option autoImplicit false

/-! # Splitting a command line (`msh.c`)

`msh_split` cuts a command line into its arguments in place: `ptr` and `position` advance together over
the line, so `ptr` is `cmd + position` here, and an entry of `argv` is an index into `cmd`. The blanks
become null characters, and so does the quote at the end of a string. An access outside `cmd[0..length]`
is the fault `outside`; the fuel of a loop counts its rounds.
-/

namespace RTThread.Finsh

open Dfs (Buffer CString Fault rd_append wr_append)

/-- A blank or a tab. -/
def Blank (c : Char) : Prop := c = ' ' ∨ c = '\t'

instance decidableBlank (c : Char) : Decidable (Blank c) := inferInstanceAs (Decidable (_ ∨ _))

/-! ## `msh_split` -/

/-- Strip blank and tab. -/
def stripBlanks (length : Nat) : Nat → Buffer → Nat → Except Fault (Buffer × Nat)
  | 0, _, _ => .error .fuel
  | fuel + 1, cmd, position => do
      let c ← cmd.rd position
      if Blank c ∧ position < length then
        let cmd ← cmd.wr position '\x00'
        stripBlanks length fuel cmd (position + 1)
      else .ok (cmd, position)

/-- Skip this string. -/
def skipString (length : Nat) (cmd : Buffer) : Nat → Nat → Except Fault Nat
  | 0, _ => .error .fuel
  | fuel + 1, position => do
      let c ← cmd.rd position
      if c ≠ '"' ∧ position < length then
        if c = '\\' then
          let next ← cmd.rd (position + 1)
          if next = '"' then skipString length cmd fuel (position + 2)
          else skipString length cmd fuel (position + 1)
        else skipString length cmd fuel (position + 1)
      else .ok position

/-- `while ((*ptr != ' ' && *ptr != '\t') && position < length) { ptr ++; position ++; }` -/
def skipWord (length : Nat) (cmd : Buffer) : Nat → Nat → Except Fault Nat
  | 0, _ => .error .fuel
  | fuel + 1, position => do
      let c ← cmd.rd position
      if ¬ Blank c ∧ position < length then skipWord length cmd fuel (position + 1)
      else .ok position

/-- `while (position < length)`: the line and `argv` at the end. -/
def splitLoop (argMax length : Nat) : Nat → Buffer → Nat → List Nat → Except Fault (Buffer × List Nat)
  | 0, _, _, _ => .error .fuel
  | fuel + 1, cmd, position, argv =>
      if position < length then do
        let (cmd, position) ← stripBlanks length (length + 1) cmd position
        -- too many arguments
        if argv.length ≥ argMax then .ok (cmd, argv)
        else if position ≥ length then .ok (cmd, argv)
        else
          let c ← cmd.rd position
          -- handle string
          if c = '"' then
            let argv := argv ++ [position + 1]
            let position ← skipString length cmd (length + 1) (position + 1)
            if position ≥ length then .ok (cmd, argv)
            else
              -- skip the quote
              let cmd ← cmd.wr position '\x00'
              splitLoop argMax length fuel cmd (position + 1) argv
          else
            let argv := argv ++ [position]
            let position ← skipWord length cmd (length + 1) position
            if position ≥ length then .ok (cmd, argv)
            else splitLoop argMax length fuel cmd position argv
      else .ok (cmd, argv)

/-- `msh_split(cmd, length, argv)`, for `argv[FINSH_ARG_MAX]`. -/
def mshSplit (argMax : Nat) (cmd : Buffer) (length : Nat) : Except Fault (Buffer × List Nat) :=
  splitLoop argMax length (length + 1) cmd 0 []

/-- The string at `cmd + p`. -/
def stringAt (cmd : Buffer) (p : Nat) : List Char := (cmd.drop p).takeWhile (· ≠ '\x00')

/-! ## The tokens of a line -/

/-- No quote of the text is without a backslash in front of it. -/
def Escaped (t : List Char) : Prop := ∀ u v, t = u ++ '"' :: v → u.getLast? = some '\\'

/-- The tokens of a line: runs of characters that are not blank and do not start with a quote, and the
texts between a quote and the next quote without a backslash in front of it, or the end of the line. -/
inductive Tokens : List Char → List (List Char) → Prop
  | nil {b : List Char} : (∀ c ∈ b, Blank c) → Tokens b []
  | word {b w rest : List Char} {ts : List (List Char)} : (∀ c ∈ b, Blank c) → w ≠ [] →
      (∀ c ∈ w, ¬ Blank c) → w.head? ≠ some '"' → (∀ c, rest.head? = some c → Blank c) →
      Tokens rest ts → Tokens (b ++ (w ++ rest)) (w :: ts)
  | string {b t rest : List Char} {ts : List (List Char)} : (∀ c ∈ b, Blank c) → Escaped t →
      t.getLast? ≠ some '\\' → Tokens rest ts → Tokens (b ++ ('"' :: (t ++ '"' :: rest))) (t :: ts)
  | unclosed {b t : List Char} : (∀ c ∈ b, Blank c) → Escaped t → Tokens (b ++ ('"' :: t)) [t]

/-! ## The inner loops -/

section Loops

variable {length n : Nat} {v b w t z : List Char} {x c : Char}

theorem not_blank_nul : ¬ Blank '\x00' := by decide

theorem not_blank_quote : ¬ Blank '"' := by decide

theorem stripBlanks_stay (hx : ¬ Blank x) :
    stripBlanks length (n + 1) (v ++ x :: z) v.length = .ok (v ++ x :: z, v.length) := by
  rw [stripBlanks, rd_append]
  exact if_neg fun h => hx h.1

theorem stripBlanks_spec (hb : ∀ c ∈ b, Blank c) (hx : ¬ Blank x) (hf : b.length < n)
    (hlen : v.length + b.length + z.length = length) :
    stripBlanks length n (v ++ (b ++ x :: z)) v.length =
      .ok (v ++ (List.replicate b.length '\x00' ++ x :: z), v.length + b.length) := by
  induction b generalizing v n with
  | nil =>
      obtain ⟨n, rfl⟩ := Nat.exists_eq_add_one.mpr hf
      exact stripBlanks_stay hx
  | cons a b ih =>
      obtain ⟨n, rfl⟩ := Nat.exists_eq_add_one.mpr (Nat.zero_lt_of_lt hf)
      rw [List.length_cons] at hf hlen
      have hlt : v.length < length := by omega
      have hrest := ih (v := v ++ ['\x00']) (n := n)
        (fun c hc => hb c (List.mem_cons_of_mem _ hc)) (by omega)
        (by rw [List.length_append, List.length_singleton]; omega)
      rw [List.length_append, List.length_singleton] at hrest
      rw [List.cons_append, stripBlanks, rd_append]
      simp only [bind, Except.bind, if_pos (And.intro (hb a List.mem_cons_self) hlt), wr_append]
      rw [List.append_cons, hrest]
      simp [List.replicate_succ, Nat.add_assoc, Nat.add_comm 1]

theorem skipWord_spec (hw : ∀ c ∈ w, ¬ Blank c) (hx : Blank x ∨ z = []) (hf : w.length < n)
    (hlen : v.length + w.length + z.length = length) :
    skipWord length (v ++ (w ++ x :: z)) n v.length = .ok (v.length + w.length) := by
  induction w generalizing v n with
  | nil =>
      obtain ⟨n, rfl⟩ := Nat.exists_eq_add_one.mpr hf
      rw [List.nil_append, skipWord, rd_append]
      refine if_neg fun h => ?_
      obtain hblank | rfl := hx
      · exact h.1 hblank
      · rw [List.length_nil] at hlen
        omega
  | cons a w ih =>
      obtain ⟨n, rfl⟩ := Nat.exists_eq_add_one.mpr (Nat.zero_lt_of_lt hf)
      rw [List.length_cons] at hf hlen
      have hlt : v.length < length := by omega
      have hrest := ih (v := v ++ [a]) (n := n)
        (fun c hc => hw c (List.mem_cons_of_mem _ hc)) (by omega)
        (by rw [List.length_append, List.length_singleton]; omega)
      rw [List.length_append, List.length_singleton, ← List.append_cons] at hrest
      rw [List.cons_append, skipWord, rd_append]
      simp only [bind, Except.bind, if_pos (And.intro (hw a List.mem_cons_self) hlt)]
      rw [hrest, List.length_cons, Nat.add_assoc, Nat.add_comm 1]

theorem rd_second {v : List Char} {a : Char} :
    Buffer.rd (v ++ a :: c :: t) (v.length + 1) = .ok c := by
  have hrd := rd_append (v := v ++ [a]) (t := t) (c := c)
  rwa [List.length_append, List.length_singleton, ← List.append_cons] at hrd

theorem Escaped.head (h : Escaped (c :: t)) : c ≠ '"' := by
  rintro rfl
  have := h [] t rfl
  cases this

theorem getLast?_cons (hu : t ≠ []) : (c :: t).getLast? = t.getLast? := by
  obtain ⟨d, u, rfl⟩ := List.exists_cons_of_ne_nil hu
  exact List.getLast?_cons_cons

/-- The text behind a character that is no backslash in front of a quote. -/
theorem Escaped.tail (h : Escaped (c :: t)) (hc : c ≠ '\\' ∨ t.head? ≠ some '"') : Escaped t := by
  rintro u v rfl
  have hlast := h (c :: u) v rfl
  by_cases hu : u = []
  · subst hu
    have hback : c = '\\' := Option.some.inj hlast
    exact absurd rfl (hc.resolve_left fun h => h hback)
  · rwa [getLast?_cons hu] at hlast

/-- The text behind a backslash and a quote. -/
theorem Escaped.tail_quote (h : Escaped ('\\' :: '"' :: t)) : Escaped t := by
  rintro u v rfl
  have hlast := h ('\\' :: '"' :: u) v rfl
  by_cases hu : u = []
  · subst hu
    cases hlast
  · rwa [getLast?_cons (List.cons_ne_nil _ _), getLast?_cons hu] at hlast

/-- The string ends at the quote that closes it, or at the end of the line. -/
theorem skipString_spec (ht : Escaped t)
    (hx : x = '"' ∧ t.getLast? ≠ some '\\' ∨ x = '\x00' ∧ z = []) (hf : t.length < n)
    (hlen : v.length + t.length + z.length = length) :
    skipString length (v ++ (t ++ x :: z)) n v.length = .ok (v.length + t.length) := by
  induction n generalizing v t with
  | zero => exact absurd hf (Nat.not_lt_zero _)
  | succ n ih =>
      cases t with
      | nil =>
          rw [List.nil_append, skipString, rd_append]
          refine if_neg fun h => ?_
          obtain ⟨rfl, -⟩ | ⟨-, rfl⟩ := hx
          · exact h.1 rfl
          · rw [List.length_nil] at hlen
            omega
      | cons c t =>
          rw [List.length_cons] at hf hlen
          have hlt : v.length < length := by omega
          -- one step of the loop, behind a character that escapes nothing
          have hstep : (c ≠ '\\' ∨ (t ++ x :: z).head? ≠ some '"') →
              skipString length (v ++ (c :: t ++ x :: z)) n (v.length + 1) =
                .ok (v.length + (t.length + 1)) := by
            intro hc
            have htail : Escaped t := ht.tail (hc.imp_right fun h hh => h (by
              rw [List.head?_append, hh]
              rfl))
            have hx' : x = '"' ∧ t.getLast? ≠ some '\\' ∨ x = '\x00' ∧ z = [] := by
              refine hx.imp_left fun h => ⟨h.1, fun hlast => h.2 ?_⟩
              rw [getLast?_cons (by rintro rfl; cases hlast)]
              exact hlast
            have hrest := ih (v := v ++ [c]) htail hx' (by omega)
              (by rw [List.length_append, List.length_singleton]; omega)
            rw [List.length_append, List.length_singleton, ← List.append_cons] at hrest
            rw [List.cons_append, hrest, Nat.add_assoc, Nat.add_comm 1]
          rw [List.length_cons]
          rw [List.cons_append, skipString, rd_append]
          simp only [bind, Except.bind, if_pos (And.intro ht.head hlt)]
          rw [List.cons_append] at hstep
          by_cases hc : c = '\\'
          · rw [if_pos hc]
            cases t with
            | nil =>
                have hquote : x ≠ '"' := fun hq => by
                  obtain ⟨-, hlast⟩ | ⟨rfl, -⟩ := hx
                  · exact hlast (congrArg some hc)
                  · exact absurd hq (by decide)
                rw [List.nil_append, rd_second]
                simp only [if_neg hquote]
                exact hstep (.inr fun h => hquote (Option.some.inj h))
            | cons d t =>
                rw [List.cons_append, rd_second]
                simp only
                by_cases hd : d = '"'
                · subst hc hd
                  rw [if_pos rfl]
                  have hx' : x = '"' ∧ t.getLast? ≠ some '\\' ∨ x = '\x00' ∧ z = [] := by
                    refine hx.imp_left fun h => ⟨h.1, fun hlast => h.2 ?_⟩
                    rw [getLast?_cons (List.cons_ne_nil _ _),
                      getLast?_cons (by rintro rfl; cases hlast)]
                    exact hlast
                  rw [List.length_cons] at hf hlen
                  have hrest := ih (v := v ++ ['\\', '"']) ht.tail_quote hx' (by omega)
                    (by rw [List.length_append]; simp; omega)
                  rw [List.length_append, List.append_assoc] at hrest
                  simpa [Nat.add_assoc, Nat.add_comm 2] using hrest
                · rw [if_neg hd]
                  exact hstep (.inr fun h => hd (Option.some.inj h))
          · rw [if_neg hc]
            exact hstep (.inl hc)

/-! ## The rounds of the outer loop -/

variable {argMax : Nat} {argv : List Nat}

theorem splitLoop_end (h : ¬ v.length < length) :
    splitLoop argMax length (n + 1) (v ++ z) v.length argv = .ok (v ++ z, argv) := by
  rw [splitLoop, if_neg h]

/-- A round in front of blanks is one behind them, where the blanks are null characters. -/
theorem splitLoop_strip (hb : ∀ c ∈ b, Blank c) (hx : ¬ Blank x)
    (hlen : v.length + b.length + z.length = length) (hz : z ≠ []) :
    splitLoop argMax length (n + 1) (v ++ (b ++ x :: z)) v.length argv =
      splitLoop argMax length (n + 1) (v ++ List.replicate b.length '\x00' ++ x :: z)
        (v ++ List.replicate b.length '\x00').length argv := by
  have hpos := List.length_pos_of_ne_nil hz
  have hstrip := stripBlanks_spec (v := v) (n := length + 1) hb hx (by omega) hlen
  have hlen' : (v ++ List.replicate b.length '\x00').length = v.length + b.length := by
    rw [List.length_append, List.length_replicate]
  conv_lhs => rw [splitLoop]
  conv_rhs => rw [splitLoop]
  rw [if_pos (by omega), if_pos (by omega), hstrip, stripBlanks_stay hx, hlen', List.append_assoc]

/-- Nothing is left but blanks. -/
theorem splitLoop_blanks (hb : ∀ c ∈ b, Blank c) (hlen : v.length + b.length = length) :
    splitLoop argMax length (n + 1) (v ++ (b ++ ['\x00'])) v.length argv =
      .ok (v ++ (List.replicate b.length '\x00' ++ ['\x00']), argv) := by
  by_cases hnil : b = []
  · subst hnil
    exact splitLoop_end (by rw [List.length_nil] at hlen; omega)
  · have hpos := List.length_pos_of_ne_nil hnil
    have hstrip := stripBlanks_spec (v := v) (n := length + 1) (z := []) hb not_blank_nul
      (by omega) hlen
    rw [splitLoop, if_pos (by omega), hstrip]
    simp only [bind, Except.bind]
    split_ifs
    · rfl
    · rfl
    · omega

/-- There is no space for another argument. -/
theorem splitLoop_full (hx : ¬ Blank x) (hlen : v.length + z.length = length) (hz : z ≠ [])
    (hfull : argv.length ≥ argMax) :
    splitLoop argMax length (n + 1) (v ++ x :: z) v.length argv = .ok (v ++ x :: z, argv) := by
  have hpos := List.length_pos_of_ne_nil hz
  rw [splitLoop, if_pos (by omega), stripBlanks_stay hx]
  simp only [bind, Except.bind, if_pos hfull]

/-- A word. -/
theorem splitLoop_word (hw : ∀ c ∈ w, ¬ Blank c) (hne : w ≠ []) (hquote : w.head? ≠ some '"')
    (hx : Blank x ∨ z = []) (hlen : v.length + w.length + z.length = length)
    (hargv : ¬ argv.length ≥ argMax) :
    splitLoop argMax length (n + 1) (v ++ (w ++ x :: z)) v.length argv =
      if z = [] then .ok (v ++ (w ++ x :: z), argv ++ [v.length])
      else splitLoop argMax length n (v ++ w ++ x :: z) (v ++ w).length
        (argv ++ [v.length]) := by
  obtain ⟨a, w', rfl⟩ := List.exists_cons_of_ne_nil hne
  have hskip : skipWord length (v ++ (a :: w' ++ x :: z)) (length + 1) v.length =
      .ok (v.length + (a :: w').length) := skipWord_spec hw hx (by omega) hlen
  have ha : a ≠ '"' := fun h => hquote (congrArg some h)
  have hlt : v.length < length := by
    rw [List.length_cons] at hlen
    omega
  rw [splitLoop, if_pos hlt, List.cons_append, stripBlanks_stay (hw a List.mem_cons_self)]
  simp only [bind, Except.bind, if_neg hargv, if_neg (Nat.not_le.mpr hlt), rd_append, if_neg ha]
  rw [← List.cons_append, hskip]
  simp only [ge_iff_le]
  by_cases hz : z = []
  · rw [if_pos hz, if_pos (by rw [hz, List.length_nil] at hlen; omega)]
  · have hpos := List.length_pos_of_ne_nil hz
    rw [if_neg hz, if_neg (by omega), List.length_append, List.append_assoc]

/-- A string that is closed. -/
theorem splitLoop_string (ht : Escaped t) (hlast : t.getLast? ≠ some '\\')
    (hlen : v.length + 1 + t.length + z.length = length) (hz : z ≠ [])
    (hargv : ¬ argv.length ≥ argMax) :
    splitLoop argMax length (n + 1) (v ++ ('"' :: (t ++ '"' :: z))) v.length argv =
      splitLoop argMax length n (v ++ ('"' :: (t ++ ['\x00'])) ++ z)
        (v ++ ('"' :: (t ++ ['\x00']))).length (argv ++ [v.length + 1]) := by
  have hpos := List.length_pos_of_ne_nil hz
  have hlen' : (v ++ ['"']).length = v.length + 1 := by simp
  have hskip : skipString length (v ++ ['"'] ++ (t ++ '"' :: z)) (length + 1) (v ++ ['"']).length =
      .ok ((v ++ ['"']).length + t.length) :=
    skipString_spec ht (.inl ⟨rfl, hlast⟩) (by omega) (by rw [hlen', hlen])
  have hwr : Buffer.wr (v ++ '"' :: (t ++ '"' :: z)) (v.length + 1 + t.length) '\x00' =
      .ok (v ++ '"' :: (t ++ '\x00' :: z)) := by
    have h := wr_append (v := v ++ '"' :: t) (t := z) (c := '"') '\x00'
    simpa [Nat.add_assoc, Nat.add_comm 1] using h
  rw [← List.append_cons, hlen'] at hskip
  rw [splitLoop, if_pos (by omega), stripBlanks_stay not_blank_quote]
  simp only [bind, Except.bind, if_neg hargv, if_neg (show ¬ v.length ≥ length by omega), rd_append,
    if_true, hskip]
  rw [if_neg (by omega)]
  simp only [hwr]
  have hpos' : (v ++ ('"' :: (t ++ ['\x00']))).length = v.length + 1 + t.length + 1 := by
    simp
    omega
  rw [hpos']
  simp

/-- A string that is not closed. -/
theorem splitLoop_unclosed (ht : Escaped t) (hlen : v.length + 1 + t.length = length)
    (hargv : ¬ argv.length ≥ argMax) :
    splitLoop argMax length (n + 1) (v ++ ('"' :: (t ++ ['\x00']))) v.length argv =
      .ok (v ++ ('"' :: (t ++ ['\x00'])), argv ++ [v.length + 1]) := by
  have hlen' : (v ++ ['"']).length = v.length + 1 := by simp
  have hskip : skipString length (v ++ ['"'] ++ (t ++ ['\x00'])) (length + 1) (v ++ ['"']).length =
      .ok ((v ++ ['"']).length + t.length) :=
    skipString_spec ht (.inr ⟨rfl, rfl⟩) (by omega) (by rw [hlen', hlen]; rfl)
  rw [← List.append_cons, hlen'] at hskip
  rw [splitLoop, if_pos (by omega), stripBlanks_stay not_blank_quote]
  simp only [bind, Except.bind, if_neg hargv, if_neg (show ¬ v.length ≥ length by omega), rd_append,
    if_true, hskip]
  rw [if_pos (by omega)]

end Loops

/-! ## The whole line -/

section Line

variable {argMax length : Nat} {r : List Char} {ts : List (List Char)}

/-- The token stands at the index, with a null character behind it. -/
def StandsAt (cmd : Buffer) (p : Nat) (t : List Char) : Prop := t ++ ['\x00'] <+: cmd.drop p

/-- What the rest of the line becomes and the arguments found in it, for its tokens. -/
structure SplitRest (v r r' : List Char) (room : Nat) (argv : List Nat) (ts : List (List Char)) :
    Prop where
  length : r'.length = r.length + 1
  tokens : List.Forall₂ (fun p t => p ≤ v.length + r.length ∧ StandsAt (v ++ r') p t) argv
    (ts.take room)
  -- the token in front of the rest is ended
  head : (∀ c, r.head? = some c → Blank c) → r'.head? = some '\x00'

theorem head_blanks {b : List Char} {x : Char} {z z' : List Char} (hx : ¬ Blank x)
    (h : ∀ c, (b ++ x :: z).head? = some c → Blank c) :
    (List.replicate b.length '\x00' ++ z').head? = some '\x00' := by
  cases b with
  | nil => exact absurd (h x rfl) hx
  | cons a b => rfl

theorem standsAt_append {v t z : List Char} (h : z.head? = some '\x00') :
    StandsAt (v ++ (t ++ z)) v.length t := by
  cases z with
  | nil => cases h
  | cons c z =>
      obtain rfl := Option.some.inj h
      unfold StandsAt
      rw [List.drop_left]
      exact ⟨z, by simp⟩

theorem Tokens.of_nil (h : Tokens r ts) (hr : r = []) : ts = [] := by
  cases h <;> simp_all

/-- Nothing is left of the line. -/
theorem SplitRest.nil {v : List Char} {room : Nat} : SplitRest v [] ['\x00'] room [] [] where
  length := rfl
  tokens := by
    rw [List.take_nil]
    exact List.Forall₂.nil
  head := fun _ => rfl

/-- There is no space for a token of the rest. -/
theorem SplitRest.full {v b z : List Char} {x : Char} (hx : ¬ Blank x) :
    SplitRest v (b ++ x :: z) (List.replicate b.length '\x00' ++ x :: (z ++ ['\x00'])) 0 [] ts where
  length := by simp [Nat.add_assoc]
  tokens := by
    rw [List.take_zero]
    exact List.Forall₂.nil
  head := fun h => head_blanks hx h

/-- One more token in front of the rest, behind the text `m` and ended by `e` or by the rest. -/
theorem SplitRest.cons {v m t e rest r' : List Char} {room : Nat} {argv : List Nat}
    (hres : SplitRest (v ++ (m ++ (t ++ e))) rest r' room argv ts)
    (hend : (e ++ r').head? = some '\x00') (hr : r.length = (m ++ (t ++ e)).length + rest.length)
    (hhead : (∀ c, r.head? = some c → Blank c) → (m ++ (t ++ (e ++ r'))).head? = some '\x00') :
    SplitRest v r (m ++ (t ++ (e ++ r'))) (room + 1) ((v ++ m).length :: argv) (t :: ts) where
  length := by
    simp only [List.length_append, hres.length] at hr ⊢
    omega
  tokens := by
    have hbuf : v ++ (m ++ (t ++ e)) ++ r' = v ++ (m ++ (t ++ (e ++ r'))) := by
      simp only [List.append_assoc]
    rw [List.take_succ_cons]
    refine List.Forall₂.cons ⟨?_, ?_⟩ (hres.tokens.imp ?_)
    · simp only [List.length_append] at hr ⊢
      omega
    · rw [← List.append_assoc]
      exact standsAt_append hend
    · intro p u hp
      rw [hbuf, List.length_append] at hp
      exact ⟨by omega, hp.2⟩
  head := hhead

/-- **The loop finds the tokens of the rest of the line**, as many as there is space for: one token for
each round, and the blanks behind a token end it. -/
theorem splitLoop_spec (ht : Tokens r ts) : ∀ (v : List Char) (argv : List Nat) (n : Nat),
    r.length < n → v.length + r.length = length → ∃ r' argv',
      splitLoop argMax length n (v ++ (r ++ ['\x00'])) v.length argv =
        .ok (v ++ r', argv ++ argv') ∧
      SplitRest v r r' (argMax - argv.length) argv' ts := by
  induction ht with
  | @nil b hb =>
      intro v argv n hf hlen
      obtain ⟨n, rfl⟩ := Nat.exists_eq_add_one.mpr (Nat.zero_lt_of_lt hf)
      refine ⟨List.replicate b.length '\x00' ++ ['\x00'], [], ?_, ?_, ?_, ?_⟩
      · rw [splitLoop_blanks hb hlen, List.append_nil]
      · simp
      · rw [List.take_nil]
        exact List.Forall₂.nil
      · intro _
        cases b <;> rfl
  | @word b w rest ts hb hne hw hquote hrest htail ih =>
      intro v argv n hf hlen
      obtain ⟨n, rfl⟩ := Nat.exists_eq_add_one.mpr (Nat.zero_lt_of_lt hf)
      obtain ⟨a, w', rfl⟩ := List.exists_cons_of_ne_nil hne
      have ha := hw a List.mem_cons_self
      simp only [List.length_append, List.length_cons] at hf hlen
      have hline : b ++ (a :: w' ++ rest) ++ ['\x00'] = b ++ a :: (w' ++ rest ++ ['\x00']) := by
        simp
      rw [hline, splitLoop_strip hb ha (by simp; omega) (by simp)]
      by_cases hfull : argv.length ≥ argMax
      · refine ⟨_, [], ?_, Nat.sub_eq_zero_of_le hfull ▸
          SplitRest.full (z := w' ++ rest) ha⟩
        rw [splitLoop_full ha (by simp; omega) (by simp) hfull, List.append_nil, List.append_assoc]
      have hroom : argMax - argv.length = argMax - (argv.length + 1) + 1 := by omega
      have hcons : ∀ r' argv', SplitRest (v ++ (List.replicate b.length '\x00' ++ (a :: w' ++ [])))
          rest r' (argMax - (argv.length + 1)) argv' ts → r'.head? = some '\x00' →
          SplitRest v (b ++ (a :: w' ++ rest))
            (List.replicate b.length '\x00' ++ (a :: w' ++ ([] ++ r')))
            (argMax - (argv.length + 1) + 1)
            ((v ++ List.replicate b.length '\x00').length :: argv') ((a :: w') :: ts) := by
        intro r' argv' hres hend
        refine hres.cons hend (by simp; omega) fun h => ?_
        rw [List.cons_append]
        exact head_blanks ha h
      rw [List.append_assoc w', ← List.cons_append]
      cases rest with
      | nil =>
          obtain rfl := htail.of_nil rfl
          refine ⟨_, _, ?_, hroom ▸ hcons ['\x00'] [] .nil rfl⟩
          rw [List.nil_append, splitLoop_word hw hne hquote (.inr rfl) (by simp at hlen ⊢; omega) hfull,
            if_pos rfl]
          simp
      | cons x rest =>
          obtain ⟨r', argv', hloop, hres⟩ := ih (v ++ List.replicate b.length '\x00' ++ (a :: w'))
            (argv ++ [(v ++ List.replicate b.length '\x00').length]) n (by omega)
            (by simp at hlen ⊢; omega)
          refine ⟨_, _, ?_, hroom ▸ hcons r' argv' (by simpa using hres) (hres.head hrest)⟩
          have hword : splitLoop argMax length (n + 1)
              (v ++ List.replicate b.length '\x00' ++ (a :: w' ++ x :: (rest ++ ['\x00']))) _ argv = _ :=
            splitLoop_word hw hne hquote (.inl (hrest x rfl)) (by simp at hlen ⊢; omega) hfull
          rw [if_neg (by simp), ← List.cons_append, hloop] at hword
          rw [hword]
          simp
  | @string b t rest ts hb hesc hlast _ ih =>
      intro v argv n hf hlen
      obtain ⟨n, rfl⟩ := Nat.exists_eq_add_one.mpr (Nat.zero_lt_of_lt hf)
      simp only [List.length_append, List.length_cons] at hf hlen
      have hline : b ++ ('"' :: (t ++ '"' :: rest)) ++ ['\x00'] =
          b ++ '"' :: (t ++ '"' :: rest ++ ['\x00']) := by simp
      rw [hline, splitLoop_strip hb not_blank_quote (by simp; omega) (by simp)]
      by_cases hfull : argv.length ≥ argMax
      · refine ⟨_, [], ?_, Nat.sub_eq_zero_of_le hfull ▸
          SplitRest.full (z := t ++ '"' :: rest) not_blank_quote⟩
        rw [splitLoop_full not_blank_quote (by simp; omega) (by simp) hfull, List.append_nil,
          List.append_assoc]
      have hroom : argMax - argv.length = argMax - (argv.length + 1) + 1 := by omega
      obtain ⟨r', argv', hloop, hres⟩ := ih
        (v ++ List.replicate b.length '\x00' ++ '"' :: (t ++ ['\x00']))
        (argv ++ [(v ++ List.replicate b.length '\x00').length + 1]) n (by omega) (by simp; omega)
      have htail : SplitRest (v ++ (List.replicate b.length '\x00' ++ ['"'] ++ (t ++ ['\x00']))) rest r'
          (argMax - (argv.length + 1)) argv' ts := by simpa using hres
      refine ⟨_, _, ?_, hroom ▸ htail.cons rfl (by simp; omega) fun h => ?_⟩
      case refine_2 =>
        rw [List.append_assoc]
        exact head_blanks not_blank_quote h
      rw [List.append_assoc t, List.cons_append,
        splitLoop_string hesc hlast (by simp; omega) (by simp) hfull, hloop]
      simp [Nat.add_assoc]
  | @unclosed b t hb hesc =>
      intro v argv n hf hlen
      obtain ⟨n, rfl⟩ := Nat.exists_eq_add_one.mpr (Nat.zero_lt_of_lt hf)
      simp only [List.length_append, List.length_cons] at hf hlen
      have hline : b ++ ('"' :: t) ++ ['\x00'] = b ++ '"' :: (t ++ ['\x00']) := by simp
      rw [hline, splitLoop_strip hb not_blank_quote (by simp; omega) (by simp)]
      by_cases hfull : argv.length ≥ argMax
      · refine ⟨_, [], ?_, Nat.sub_eq_zero_of_le hfull ▸ SplitRest.full not_blank_quote⟩
        rw [splitLoop_full not_blank_quote (by simp; omega) (by simp) hfull, List.append_nil,
          List.append_assoc]
      have hroom : argMax - argv.length = argMax - (argv.length + 1) + 1 := by omega
      have htail : SplitRest (v ++ (List.replicate b.length '\x00' ++ ['"'] ++ (t ++ []))) [] ['\x00']
          (argMax - (argv.length + 1)) [] [] := .nil
      refine ⟨_, _, ?_, hroom ▸ htail.cons rfl (by simp) fun h => ?_⟩
      case refine_2 =>
        rw [List.append_assoc]
        exact head_blanks not_blank_quote h
      rw [splitLoop_unclosed hesc (by simp; omega) hfull]
      simp [Nat.add_assoc]

end Line

/-! ## Every line has its tokens -/

section Existence

variable {b r t : List Char} {ts : List (List Char)}

/-- The longest run of the characters of a kind in front of a text. -/
theorem exists_run (p : Char → Prop) (r : List Char) :
    ∃ u v, r = u ++ v ∧ (∀ c ∈ u, p c) ∧ ∀ c, v.head? = some c → ¬ p c := by
  induction r with
  | nil => exact ⟨[], [], rfl, by simp, by simp⟩
  | cons a r ih =>
      by_cases ha : p a
      · obtain ⟨u, v, rfl, hu, hv⟩ := ih
        exact ⟨a :: u, v, rfl, List.forall_mem_cons.mpr ⟨ha, hu⟩, hv⟩
      · refine ⟨[], a :: r, rfl, by simp, fun c hc => ?_⟩
        obtain rfl := Option.some.inj hc
        exact ha

/-- In front of an unescaped quote is the first one. -/
theorem exists_closed (n : Nat) : ∀ u v : List Char, u.length ≤ n → u.getLast? ≠ some '\\' →
    ∃ u' v', u ++ '"' :: v = u' ++ '"' :: v' ∧ Escaped u' ∧ u'.getLast? ≠ some '\\' := by
  induction n with
  | zero =>
      intro u v hn hu
      obtain rfl := List.length_eq_zero_iff.mp (Nat.le_zero.mp hn)
      exact ⟨[], v, rfl, by simp [Escaped], hu⟩
  | succ n ih =>
      intro u v hn hu
      by_cases hesc : Escaped u
      · exact ⟨u, v, rfl, hesc, hu⟩
      · unfold Escaped at hesc
        push Not at hesc
        obtain ⟨u', v', rfl, hu'⟩ := hesc
        rw [List.length_append, List.length_cons] at hn
        obtain ⟨w, z, hsplit, hw⟩ := ih u' (v' ++ '"' :: v) (by omega) hu'
        exact ⟨w, z, by rw [← hsplit, List.append_assoc, List.cons_append], hw⟩

theorem escaped_or_closed (t : List Char) :
    Escaped t ∨ ∃ u v, t = u ++ '"' :: v ∧ Escaped u ∧ u.getLast? ≠ some '\\' := by
  by_cases ht : Escaped t
  · exact .inl ht
  · unfold Escaped at ht
    push Not at ht
    obtain ⟨u, v, rfl, hu⟩ := ht
    exact .inr (exists_closed u.length u v le_rfl hu)

theorem exists_tokens : ∀ n : Nat, ∀ r : List Char, r.length ≤ n → ∃ ts, Tokens r ts := by
  intro n
  induction n with
  | zero =>
      intro r hr
      obtain rfl := List.length_eq_zero_iff.mp (Nat.le_zero.mp hr)
      exact ⟨[], .nil (by simp)⟩
  | succ n ih =>
      intro r hr
      obtain ⟨b, r, rfl, hb, hhead⟩ := exists_run Blank r
      cases r with
      | nil => exact ⟨[], .nil (by simpa using hb)⟩
      | cons a r =>
          have ha := hhead a rfl
          rw [List.length_append, List.length_cons] at hr
          by_cases hquote : a = '"'
          · subst hquote
            obtain hesc | ⟨t, rest, rfl, hesc, hlast⟩ := escaped_or_closed r
            · exact ⟨[r], .unclosed hb hesc⟩
            · rw [List.length_append, List.length_cons] at hr
              obtain ⟨ts, hts⟩ := ih rest (by omega)
              exact ⟨t :: ts, .string hb hesc hlast hts⟩
          · obtain ⟨w, rest, rfl, hw, hrest⟩ := exists_run (fun c => ¬ Blank c) r
            rw [List.length_append] at hr
            obtain ⟨ts, hts⟩ := ih rest (by omega)
            have htoken := Tokens.word (w := a :: w) hb (by simp)
              (List.forall_mem_cons.mpr ⟨ha, hw⟩) (fun h => hquote (Option.some.inj h))
              (fun c hc => not_not.mp (hrest c hc)) hts
            exact ⟨_, htoken⟩

/-- The tokens are parts of the line. -/
theorem Tokens.mem {c : Char} (h : Tokens r ts) (ht : t ∈ ts) (hc : c ∈ t) : c ∈ r := by
  induction h with
  | nil _ => cases ht
  | word _ _ _ _ _ _ ih => grind
  | string _ _ _ _ ih => grind
  | unclosed _ _ => grind

theorem Tokens.blank (h : Tokens r ts) : Tokens (' ' :: r) ts := by
  have hb : ∀ {b : List Char}, (∀ c ∈ b, Blank c) → ∀ c ∈ ' ' :: b, Blank c :=
    fun h => List.forall_mem_cons.mpr ⟨.inl rfl, h⟩
  cases h with
  | nil h => exact .nil (hb h)
  | word h hne hw hq hrest ht => exact .word (hb h) hne hw hq hrest ht
  | string h he hl ht => exact .string (hb h) he hl ht
  | unclosed h he => exact .unclosed (hb h) he

/-- A text without a blank, a quote or a backslash. -/
def Plain (t : List Char) : Prop := ∀ c ∈ t, ¬ Blank c ∧ c ≠ '"' ∧ c ≠ '\\'

/-- Non-empty tokens without blanks and quotes are the tokens of the line that joins them. -/
theorem tokens_join (h : ∀ t ∈ ts, t ≠ [] ∧ Plain t) : Tokens (List.intercalate [' '] ts) ts := by
  induction ts with
  | nil => exact .nil (by simp)
  | cons t ts ih =>
      obtain ⟨hne, hplain⟩ := h t List.mem_cons_self
      have hw : ∀ c ∈ t, ¬ Blank c := fun c hc => (hplain c hc).1
      have hquote : t.head? ≠ some '"' := fun hh =>
        (hplain '"' (List.mem_of_mem_head? hh)).2.1 rfl
      have hrest := ih fun u hu => h u (List.mem_cons_of_mem _ hu)
      cases ts with
      | nil =>
          have htoken : Tokens ([] ++ (t ++ [])) [t] :=
            .word (by simp) hne hw hquote (by simp) (.nil (by simp))
          rw [List.append_nil, List.nil_append] at htoken
          rwa [List.intercalate_singleton]
      | cons u ts =>
          rw [List.intercalate_cons_cons, List.append_assoc]
          refine Tokens.word (b := []) (by simp) hne hw hquote ?_ hrest.blank
          intro c hc
          obtain rfl := Option.some.inj hc
          exact .inl rfl

end Existence

/-! ## The whole function -/

section Split

variable {argMax : Nat} {r t : List Char} {ts : List (List Char)}

theorem stringAt_eq {cmd : Buffer} {p : Nat} (h : StandsAt cmd p t) (ht : '\x00' ∉ t) :
    stringAt cmd p = t := by
  obtain ⟨v, hv⟩ := h
  rw [stringAt, ← hv, List.append_assoc, List.takeWhile_append_of_pos]
  · simp
  · intro c hc
    simpa using ne_of_mem_of_not_mem hc ht

theorem map_stringAt {cmd : Buffer} {argv : List Nat} (h : List.Forall₂ (StandsAt cmd) argv ts)
    (hnul : ∀ t ∈ ts, '\x00' ∉ t) : argv.map (stringAt cmd) = ts := by
  induction h with
  | nil => rfl
  | @cons p t argv ts hp _ ih =>
      rw [List.map_cons, stringAt_eq hp (hnul t List.mem_cons_self),
        ih fun u hu => hnul u (List.mem_cons_of_mem _ hu)]

/-- `msh_split` finds the tokens of a line and puts a null character behind each. -/
theorem mshSplit_spec (argMax : Nat) (ht : Tokens r ts) (hnul : '\x00' ∉ r) : ∃ cmd argv,
    mshSplit argMax (r ++ ['\x00']) r.length = .ok (cmd, argv) ∧ cmd.length = r.length + 1 ∧
      (∀ p ∈ argv, p ≤ r.length) ∧ List.Forall₂ (StandsAt cmd) argv (ts.take argMax) ∧
      argv.map (stringAt cmd) = ts.take argMax := by
  obtain ⟨cmd, argv, hloop, hlen, htokens, -⟩ :
      ∃ cmd argv, splitLoop argMax r.length (r.length + 1) (r ++ ['\x00']) 0 [] = .ok (cmd, argv) ∧
        SplitRest [] r cmd argMax argv ts :=
    splitLoop_spec ht [] [] (r.length + 1) (Nat.lt_succ_self _) (Nat.zero_add _)
  simp only [List.nil_append, List.length_nil, Nat.zero_add] at htokens
  obtain ⟨hinside, hstands⟩ := (List.forall₂_and_left argv _).mp htokens
  exact ⟨cmd, argv, hloop, hlen, hinside, hstands, map_stringAt hstands fun t hmem hc =>
    hnul (ht.mem (List.mem_of_mem_take hmem) hc)⟩

theorem Tokens.unique {ts' : List (List Char)} (hnul : '\x00' ∉ r) (h : Tokens r ts)
    (h' : Tokens r ts') : ts' = ts := by
  -- there is space for the tokens of both
  obtain ⟨cmd, argv, hsplit, -, -, -, hts⟩ := mshSplit_spec (ts.length + ts'.length) h hnul
  obtain ⟨cmd', argv', hsplit', -, -, -, hts'⟩ := mshSplit_spec (ts.length + ts'.length) h' hnul
  obtain ⟨rfl, rfl⟩ := Prod.mk.inj (Except.ok.inj (hsplit.symm.trans hsplit'))
  rwa [hts, List.take_of_length_le (Nat.le_add_right _ _),
    List.take_of_length_le (Nat.le_add_left _ _), eq_comm] at hts'

theorem nul_not_mem_join (h : ∀ t ∈ ts, '\x00' ∉ t) : '\x00' ∉ List.intercalate [' '] ts := by
  induction ts with
  | nil => simp
  | cons t ts ih =>
      have ht := h t List.mem_cons_self
      have hrest := ih fun u hu => h u (List.mem_cons_of_mem _ hu)
      cases ts with
      | nil => rwa [List.intercalate_singleton]
      | cons u ts =>
          rw [List.intercalate_cons_cons]
          simp only [List.mem_append, List.mem_singleton, not_or]
          exact ⟨⟨ht, by decide⟩, hrest⟩

/-- **`msh_split` splits a line into its tokens.** It stays inside the line, and `argv` holds the tokens in
order, as many as there is space for, each with a null character behind it. The line that joins them with
blanks has the same tokens, when none of them is empty or has a blank, a quote or a backslash. -/
theorem msh_split (argMax : Nat) (s : CString) : ∃ cmd argv ts,
    mshSplit argMax (s.chars ++ ['\x00']) s.strlen = .ok (cmd, argv) ∧
    cmd.length = s.strlen + 1 ∧ argv.length ≤ argMax ∧ (∀ p ∈ argv, p ≤ s.strlen) ∧
    Tokens s.chars ts ∧ (∀ ts', Tokens s.chars ts' → ts' = ts) ∧
    List.Forall₂ (StandsAt cmd) argv (ts.take argMax) ∧
    argv.map (stringAt cmd) = ts.take argMax ∧
    ((∀ t ∈ ts.take argMax, t ≠ [] ∧ Plain t) → ∃ cmd' argv',
      mshSplit argMax (List.intercalate [' '] (ts.take argMax) ++ ['\x00'])
        (List.intercalate [' '] (ts.take argMax)).length = .ok (cmd', argv') ∧
      argv'.map (stringAt cmd') = ts.take argMax) := by
  obtain ⟨ts, ht⟩ := exists_tokens s.chars.length s.chars le_rfl
  obtain ⟨cmd, argv, hsplit, hlen, hinside, hstands, hmap⟩ := mshSplit_spec argMax ht s.noNul
  refine ⟨cmd, argv, ts, hsplit, hlen, ?_, hinside, ht, fun ts' => ht.unique s.noNul, hstands, hmap,
    fun hplain => ?_⟩
  · rw [hstands.length_eq, List.length_take]
    exact Nat.min_le_left _ _
  · have hnul : '\x00' ∉ List.intercalate [' '] (ts.take argMax) := nul_not_mem_join fun t hmem hc =>
      s.noNul (ht.mem (List.mem_of_mem_take hmem) hc)
    obtain ⟨cmd', argv', hsplit', -, -, -, hmap'⟩ :=
      mshSplit_spec argMax (tokens_join hplain) hnul
    rw [List.take_take, Nat.min_self] at hmap'
    exact ⟨cmd', argv', hsplit', hmap'⟩

/-- The line `a "" b`. -/
def emptyArgument : List Char := ['a', ' ', '"', '"', ' ', 'b']

/-- The strings of `argv`. -/
def splitStrings (argMax : Nat) (r : List Char) : Option (List (List Char)) :=
  match mshSplit argMax (r ++ ['\x00']) r.length with
  | .ok (cmd, argv) => some (argv.map (stringAt cmd))
  | .error _ => none

/-- An empty string is lost when the tokens are joined again: it is free of blanks, quotes and
backslashes, but two blanks are as good as one. -/
theorem join_loses_empty :
    splitStrings 10 emptyArgument = some [['a'], [], ['b']] ∧
    List.intercalate [' '] [['a'], [], ['b']] = ['a', ' ', ' ', 'b'] ∧
    splitStrings 10 ['a', ' ', ' ', 'b'] = some [['a'], ['b']] := by
  decide

end Split

end RTThread.Finsh
