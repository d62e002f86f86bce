import RTThread.Kservice.Printf

set_option autoImplicit false

/-! # What is left of a text in a short buffer

`rt_vsnprintf` gives all characters of the text to its buffer, which keeps those in front of its end.
-/

namespace RTThread.Ks

open Sink (snoc Hom)

/-! ## The text does not depend on the sink -/

section Hom

variable {σ τ : Type} {emit : σ → Char → σ} {emit' : τ → Char → τ} {h : σ → τ}
  (hom : Hom emit emit' h)

include hom

theorem whileAbove_hom (c : Char) (len n : Int) (o : σ) :
    whileAbove emit' c len n (h o) = Prod.map h id (whileAbove emit c len n o) := by
  unfold whileAbove
  split_ifs
  · rw [← hom.iterate]
    rfl
  · rfl

theorem whilePre_hom (c : Char) (n : Int) (o : σ) :
    whilePre emit' c n (h o) = Prod.map h id (whilePre emit c n o) := by
  unfold whilePre
  split_ifs
  · rw [← hom.iterate]
    rfl
  · rfl

theorem padIf_hom (p : Prop) [Decidable p] (c : Char) (x : σ × Int) :
    padIf emit' p c (Prod.map h id x) = Prod.map h id (padIf emit p c x) := by
  unfold padIf
  split_ifs
  · exact whileAbove_hom hom c 0 x.2 x.1
  · rfl

theorem putSign_hom (sign : Option Char) (x : σ × Int) :
    putSign emit' sign (Prod.map h id x) = Prod.map h id (putSign emit sign x) := by
  cases sign with
  | none => rfl
  | some c => exact Prod.ext (hom x.1 c).symm rfl

theorem foldlIf_hom (p : Prop) [Decidable p] (text : List Char) (o : σ) :
    (if p then text.foldl emit' (h o) else h o) = h (if p then text.foldl emit o else o) := by
  split_ifs
  · exact (hom.foldl o text).symm
  · rfl

theorem printNumber_hom (num : Int) (base : Nat) (s precision : Int) (type : Nat) (o : σ) :
    printNumber emit' num base s precision type (h o) =
      h (printNumber emit num base s precision type o) := by
  have hpair : ∀ size : Int, (h o, size) = Prod.map h id (o, size) := fun _ => rfl
  simp only [printNumber, hpair, padIf_hom hom, putSign_hom hom, Prod.map_fst, Prod.map_snd, id_eq,
    whileAbove_hom hom, foldlIf_hom hom]

theorem printChar_hom (d : Directive) (o : σ) :
    printChar emit' d (h o) = (printChar emit d o).map (Prod.map h id) := by
  unfold printChar
  cases vaInt d.args with
  | none => rfl
  | some v =>
      have hleft : (if d.flags &&& LEFT = 0 then whilePre emit' ' ' d.fieldWidth (h o)
          else (h o, d.fieldWidth)) = Prod.map h id
            (if d.flags &&& LEFT = 0 then whilePre emit ' ' d.fieldWidth o
              else (o, d.fieldWidth)) := by
        split_ifs
        · exact whilePre_hom hom ..
        · rfl
      rw [hleft]
      simp only [Prod.map_fst, Prod.map_snd, id_eq, Option.map_some, ← hom.apply, whilePre_hom hom]
      rfl

theorem printString_hom (d : Directive) (o : σ) :
    printString emit' d (h o) = (printString emit d o).map (Prod.map h id) := by
  unfold printString
  cases vaPtr d.args with
  | none => rfl
  | some v =>
      obtain ⟨addr, object, args⟩ := v
      dsimp only
      generalize (if addr = 0 then "(NULL)".toList ++ [NUL] else object) = s
      cases rtStrlen s with
      | none => rfl
      | some strlen =>
          simp only [Option.map_some]
          generalize (if d.precision > 0 ∧ i32 strlen > d.precision then d.precision
            else i32 strlen) = len
          have hleft : (if d.flags &&& LEFT = 0 then whileAbove emit' ' ' len d.fieldWidth (h o)
              else (h o, d.fieldWidth)) = Prod.map h id
                (if d.flags &&& LEFT = 0 then whileAbove emit ' ' len d.fieldWidth o
                  else (o, d.fieldWidth)) := by
            split_ifs
            · exact whileAbove_hom hom ..
            · rfl
          rw [hleft]
          simp only [Prod.map_fst, Prod.map_snd, id_eq, ← hom.foldl, whileAbove_hom hom]
          rfl

theorem printPointer_hom (d : Directive) (o : σ) :
    printPointer emit' d (h o) = (printPointer emit d o).map (Prod.map h id) := by
  unfold printPointer
  cases vaPtr d.args with
  | none => rfl
  | some v =>
      simp only [Option.map_some]
      split_ifs
      · rw [printNumber_hom hom]
        rfl
      · rw [printNumber_hom hom]
        rfl

theorem printInteger_hom (qualifier : Option Char) (d : Directive) (base : Nat) (o : σ) :
    printInteger emit' qualifier d base (h o) =
      (printInteger emit qualifier d base o).map (Prod.map h id) := by
  unfold printInteger
  cases vaInt d.args with
  | none => rfl
  | some v =>
      simp only [Option.map_some]
      rw [printNumber_hom hom]
      rfl

theorem conversion_hom (fmt : List Char) (args : List Arg) (o : σ) :
    conversion emit' fmt args (h o) = (conversion emit fmt args o).map (Prod.map h id) := by
  unfold conversion
  dsimp only
  cases ((getWidth (getFlags fmt 0).1 (getFlags fmt 0).2 args).bind getPrecision) with
  | none => rfl
  | some d =>
      dsimp only
      generalize getQualifier d = q
      split
      case h_4 => exact congrArg (fun o => some (o, _, _)) (hom o '%').symm
      case h_11 => simp only [Option.map_some, Prod.map, ← hom.apply, id_eq]
      case h_12 => exact congrArg (fun o => some (o, _, _)) (hom o '%').symm
      all_goals
        simp only [printChar_hom hom, printString_hom hom, printPointer_hom hom,
          printInteger_hom hom, Option.map_map]
        rfl

/-- **A run into another sink** is the image of the run. -/
theorem format_hom (fmt : List Char) (args : List Arg) (o : σ) :
    format emit' fmt args (h o) = (format emit fmt args o).map h := by
  induction hn : fmt.length using Nat.strong_induction_on generalizing fmt args o with
  | _ n ih =>
      cases fmt with
      | nil => rw [format, format, Option.map_some]
      | cons c fmt =>
          have hlen : fmt.length < n := hn ▸ Nat.lt_succ_self _
          rw [format, format]
          by_cases hc : c ≠ '%'
          · rw [if_pos hc, if_pos hc, ← hom.apply]
            exact ih _ hlen fmt args _ rfl
          · rw [if_neg hc, if_neg hc, conversion_hom hom]
            cases hcv : conversion emit fmt args o with
            | none => rfl
            | some x =>
                obtain ⟨o', fmt', args'⟩ := x
                have hle := length_conversion emit hcv
                exact ih _ (hle.trans_lt hlen) fmt' args' o' rfl

end Hom

/-! ## The text -/

/-- The text for an unbounded buffer; the arguments must have the types that the format says. -/
def formatted (fmt : List Char) (args : List Arg) : Option (List Char) := format snoc fmt args []

/-- Every sink gets the characters of the text. -/
theorem format_eq {σ : Type} (emit : σ → Char → σ) (fmt : List Char) (args : List Arg) (o : σ) :
    format emit fmt args o = (formatted fmt args).map fun text => text.foldl emit o :=
  format_hom (Sink.hom_foldl emit o) fmt args []

/-! ## The buffer -/

/-- The characters at `n` addresses. -/
def textAt (mem : Mem) (buf n : Nat) : List Char := (List.range n).map fun i => mem (buf + i)

/-- The result is the length of the text, and the text up to the end of the buffer is there. -/
structure Truncates (text : List Char) (buf n : Nat) (mem mem' : Mem) (r : Int) : Prop where
  length : r = text.length
  frame : ∀ a, ¬ (buf ≤ a ∧ a < buf + n) → mem' a = mem a
  kept : 0 < n → textAt mem' buf (min (n - 1) text.length) = text.take (n - 1)
  terminated : 0 < n → mem' (buf + min (n - 1) text.length) = NUL

/-- The size of a buffer up to the last address of the memory. -/
def usable (buf n : Nat) : Nat := min n (4294967295 - buf)

variable {fmt : List Char} {args : List Arg} {text : List Char} {buf n : Nat} {mem : Mem}

theorem i32_of_lt {v : Int} (h₀ : -2147483648 ≤ v) (h : v < 2147483648) : i32 v = v := by
  unfold i32 signed
  norm_num
  split_ifs <;> omega

/-- The end of the buffer, and its size up to there. -/
theorem rtVsnprintf_eq (buf : Nat) (hbuf : buf < 4294967296) (hn : n < 4294967296)
    (h : formatted fmt args = some text) (mem : Mem) :
    rtVsnprintf buf n fmt args mem =
      let size := usable buf n
      let o := text.foldl (emitTo (buf + size)) ⟨mem, buf⟩
      some (if size > 0 then
          if o.pos < buf + size then Function.update o.mem o.pos NUL
          else Function.update o.mem (buf + size - 1) NUL
        else o.mem, i32 (o.pos - buf)) := by
  unfold rtVsnprintf usable
  rcases Nat.lt_or_ge (buf + n) 4294967296 with hlt | hge
  · have hstop : u32 ((buf : Int) + n) = buf + n := by
      unfold u32
      omega
    rw [hstop, Nat.min_eq_left (by omega)]
    dsimp only
    rw [if_neg (show ¬ buf + n < buf by omega)]
    dsimp only
    rw [format_eq, h, Option.map_some, Option.map_some]
  · have hstop : u32 ((buf : Int) + n) < buf := by
      unfold u32
      omega
    generalize u32 ((buf : Int) + n) = stop at hstop
    rw [Nat.min_eq_right (by omega)]
    dsimp only
    rw [if_pos hstop]
    dsimp only
    rw [format_eq, h, show buf + (4294967295 - buf) = 4294967295 by omega, Option.map_some,
      Option.map_some]

/-- A text that ends in the address space, and its terminator. -/
theorem rtVsnprintf_mem (hn : n < 4294967296) (h : formatted fmt args = some text)
    (hspace : buf + text.length < 4294967296) (mem : Mem) :
    ∃ m : Mem, (∀ a, m a =
        if buf ≤ a ∧ a < buf + usable buf n then text[a - buf]?.getD (mem a) else mem a) ∧
      rtVsnprintf buf n fmt args mem = some
        (if 0 < usable buf n then
          Function.update m (buf + min (usable buf n - 1) text.length) NUL else m,
        i32 text.length) := by
  have hrun := rtVsnprintf_eq buf (by omega) hn h mem
  generalize usable buf n = size at hrun ⊢
  obtain ⟨hpos, hmem⟩ := Sink.foldl_guarded (buf + size) ⟨mem, buf⟩ text hspace
  refine ⟨_, hmem, hrun.trans ?_⟩
  change _ = buf + text.length at hpos
  dsimp only
  rw [hpos, show ((buf + text.length : Nat) : Int) - buf = text.length by omega]
  congr 2
  split_ifs with h₀ h₁
  · rw [Nat.min_eq_right (by omega)]
  · rw [Nat.min_eq_left (by omega), Nat.add_sub_assoc h₀]
  · rfl

/-- **The law of truncation**, of a text that ends in the address space. -/
theorem truncates (h : formatted fmt args = some text) (hlen : text.length < 2147483648)
    (hspace : buf + text.length < 4294967296) (hn : n < 4294967296) (mem : Mem) :
    ∃ mem' r, rtVsnprintf buf n fmt args mem = some (mem', r) ∧
      Truncates text buf (usable buf n) mem mem' r := by
  obtain ⟨m, hm, hrun⟩ := rtVsnprintf_mem hn h hspace mem
  generalize usable buf n = size at hm hrun ⊢
  refine ⟨_, _, hrun, ?_, ?_, ?_, ?_⟩
  · exact i32_of_lt (by omega) (by omega)
  · intro a ha
    have hma : m a = mem a := by rw [hm, if_neg ha]
    split_ifs with h₀
    · rwa [Function.update_of_ne (by omega)]
    · exact hma
  · intro h₀
    rw [if_pos h₀]
    apply List.ext_getElem
    · simp [textAt]
    · intro i h₁ h₂
      have hi : i < min (size - 1) text.length := by simpa [textAt] using h₁
      simp only [textAt, List.getElem_map, List.getElem_range, List.getElem_take]
      rw [Function.update_of_ne (by omega), hm, if_pos (by omega), Nat.add_sub_cancel_left,
        List.getElem?_eq_getElem (by omega), Option.getD_some]
  · intro h₀
    rw [if_pos h₀, Function.update_self]

/-- What a shorter buffer holds is the beginning of what a longer one holds. -/
theorem Truncates.prefix {buf₁ buf₂ n₁ n₂ : Nat} {mem₁ mem₂ m₁ m₂ : Mem} {r₁ r₂ : Int}
    (h₁ : Truncates text buf₁ n₁ mem₁ m₁ r₁) (h₂ : Truncates text buf₂ n₂ mem₂ m₂ r₂)
    (h₀ : 0 < n₁) (hle : n₁ ≤ n₂) :
    textAt m₁ buf₁ (min (n₁ - 1) text.length) <+: textAt m₂ buf₂ (min (n₂ - 1) text.length) := by
  rw [h₁.kept h₀, h₂.kept (h₀.trans_le hle)]
  exact List.take_prefix_take_left (Nat.sub_le_sub_right hle 1)

/-- **Truncation.** Of a text that ends in the address space, and whose length the result can hold,
each buffer gets what fits in front of its terminator: the shorter one the beginning of what the
longer one gets. -/
theorem vsnprintf_truncates (h : formatted fmt args = some text) (hlen : text.length < 2147483648)
    (hspace : buf + text.length < 4294967296) :
    (∀ n < 4294967296, ∀ mem, ∃ mem' r, rtVsnprintf buf n fmt args mem = some (mem', r) ∧
      Truncates text buf (usable buf n) mem mem' r) ∧
    ∀ n₁ n₂ mem₁ mem₂ m₁ m₂ r₁ r₂, 0 < usable buf n₁ → n₁ ≤ n₂ → n₂ < 4294967296 →
      rtVsnprintf buf n₁ fmt args mem₁ = some (m₁, r₁) →
      rtVsnprintf buf n₂ fmt args mem₂ = some (m₂, r₂) →
      textAt m₁ buf (min (usable buf n₁ - 1) text.length) <+:
        textAt m₂ buf (min (usable buf n₂ - 1) text.length) := by
  constructor
  · intro n hn mem
    exact truncates h hlen hspace hn mem
  · intro n₁ n₂ mem₁ mem₂ m₁ m₂ r₁ r₂ h₀ hle hn h₁ h₂
    obtain ⟨m₁', r₁', hrun₁, ht₁⟩ := truncates h hlen hspace (hle.trans_lt hn) mem₁
    obtain ⟨m₂', r₂', hrun₂, ht₂⟩ := truncates h hlen hspace hn mem₂
    cases h₁.symm.trans hrun₁
    cases h₂.symm.trans hrun₂
    exact ht₁.prefix ht₂ h₀ (min_le_min_right _ hle)

/-- A padded number and a word, in six characters. -/
theorem vsnprintf_truncates_number :
    ∃ mem' r, rtVsnprintf 536870912 6 "%5d-%.3s".toList [.int 42, .ptr 1 ['a', 'b', NUL]]
        (fun _ => 'm') = some (mem', r) ∧
      Truncates "   42-ab".toList 536870912 6 (fun _ => 'm') mem' r := by
  have htext : formatted "%5d-%.3s".toList [.int 42, .ptr 1 ['a', 'b', NUL]] =
      some "   42-ab".toList := by
    decide +kernel
  have hspace : 536870912 + "   42-ab".toList.length < 4294967296 := by decide
  exact (vsnprintf_truncates htext (by decide) hspace).1 6 (by decide) fun _ => 'm'

/-! ## Texts that are too long -/

theorem whilePre_zero (text : List Char) : whilePre snoc ' ' 0 text = (text, -1) := rfl

theorem whilePre_succ {k : Nat} (h₀ : 0 < k) (h : k < 2147483647) :
    whilePre snoc ' ' ((k : Int) + 1) [] = (List.replicate k ' ', 0) := by
  have hp : i32 ((k : Int) + 1 - 1) = k := by
    rw [Int.add_sub_cancel]
    exact i32_of_lt (by omega) (by omega)
  unfold whilePre
  rw [hp, if_pos (by omega), Sink.iterate_snoc]
  simp

theorem printChar_wide {k : Nat} (h₀ : 0 < k) (h : k < 2147483647) (fmt : List Char) :
    printChar snoc ⟨fmt, [.int 65], 0, k + 1, -1⟩ [] = some (List.replicate k ' ' ++ ['A'], []) := by
  unfold printChar
  dsimp only [vaInt, Option.map_some]
  rw [if_pos (by rfl), whilePre_succ h₀ h]
  dsimp only
  rw [whilePre_zero]
  rfl

theorem conversion_char {fmt rest : List Char} {d : Directive} (o : List Char)
    (hd : (getWidth (getFlags fmt 0).1 (getFlags fmt 0).2 args).bind getPrecision = some d)
    (hq : (getQualifier d).2.fmt = 'c' :: rest) :
    conversion snoc fmt args o =
      (printChar snoc (getQualifier d).2 o).map fun x => (x.1, rest, x.2) := by
  unfold conversion
  simp only [hd, hq]

/-- Blanks, as many as the argument says but one, and two characters. -/
theorem formatted_wide {k : Nat} (h₀ : 0 < k) (h : k < 2147483647) :
    formatted ['%', '*', 'c', 'x'] [.int (k + 1), .int 65] =
      some (List.replicate k ' ' ++ ['A', 'x']) := by
  have hw : i32 ((k : Int) + 1) = k + 1 := i32_of_lt (by omega) (by omega)
  have hget : getWidth ['*', 'c', 'x'] 0 [.int (k + 1), .int 65] =
      some ⟨['c', 'x'], [.int 65], 0, k + 1, -1⟩ := by
    unfold getWidth
    simp only [vaInt, Option.map_some, hw]
    rw [if_neg (by omega)]
  have hconv : conversion snoc ['*', 'c', 'x'] [.int (k + 1), .int 65] [] =
      some (List.replicate k ' ' ++ ['A'], ['x'], []) := by
    have hprec : getPrecision ⟨['c', 'x'], [.int 65], 0, k + 1, -1⟩ =
        some ⟨['c', 'x'], [.int 65], 0, k + 1, -1⟩ := rfl
    have hqual : getQualifier ⟨['c', 'x'], [.int 65], 0, k + 1, -1⟩ =
        (none, ⟨['c', 'x'], [.int 65], 0, k + 1, -1⟩) := rfl
    have hget' : (getWidth (getFlags ['*', 'c', 'x'] 0).1 (getFlags ['*', 'c', 'x'] 0).2
        [.int (k + 1), .int 65]).bind getPrecision =
          some ⟨['c', 'x'], [.int 65], 0, k + 1, -1⟩ := by
      rw [show getFlags ['*', 'c', 'x'] 0 = (['*', 'c', 'x'], 0) from rfl, hget]
      exact hprec
    rw [conversion_char [] hget' (by rw [hqual]), hqual, printChar_wide h₀ h, Option.map_some]
  unfold formatted
  rw [format, if_neg (by decide), hconv]
  dsimp only
  rw [format, if_pos (by decide), format]
  simp [snoc]

/-- A call leaves the text in the buffer as far as it fits, whatever the memory holds. -/
def Law (fmt : List Char) (args : List Arg) (text : List Char) (buf n : Nat) : Prop :=
  ∀ mem, ∃ mem' r, rtVsnprintf buf n fmt args mem = some (mem', r) ∧ Truncates text buf n mem mem' r

/-- The result does not hold the length. -/
theorem not_law_of_length (h : formatted fmt args = some text) (hlen : text.length = 2147483648)
    (hspace : buf + text.length < 4294967296) (hn : n < 4294967296) :
    ¬ Law fmt args text buf n := by
  intro hlaw
  obtain ⟨mem', r, hrun, ht⟩ := hlaw fun _ => NUL
  obtain ⟨m, -, hrun'⟩ := rtVsnprintf_mem hn h hspace fun _ => NUL
  have hr := ht.length
  rw [hrun, Option.some.injEq, Prod.mk.injEq] at hrun'
  rw [hrun'.2, hlen] at hr
  exact absurd hr (by decide)

/-- The position goes round: a blank is written at the first address. -/
theorem not_law_of_wrap {front back : List Char} {c : Char}
    (h : formatted fmt args = some (front ++ c :: ' ' :: back))
    (hfront : buf + front.length + 1 = 4294967296) (hback : 1 + back.length < 4294967296)
    (hn : 2 ≤ n) (hbuf : buf + n < 4294967296) (h₀ : 0 < buf) :
    ¬ Law fmt args (front ++ c :: ' ' :: back) buf n := by
  intro hlaw
  obtain ⟨mem', r, hrun, ht⟩ := hlaw fun _ => NUL
  have hrun' := rtVsnprintf_eq (n := n) buf (by omega) (by omega) h fun _ => NUL
  have hsize : usable buf n = n := Nat.min_eq_left (by omega)
  rw [hsize] at hrun'
  dsimp only at hrun'
  generalize ho : (front ++ c :: ' ' :: back).foldl (emitTo (buf + n)) ⟨fun _ => NUL, buf⟩ = o
    at hrun'
  have hstop : 0 < buf + n := by omega
  have hwrap := Sink.foldl_guarded_wrap (b := ⟨fun _ => NUL, buf⟩) (c := c) (d := ' ')
    hfront hback hstop
  change (List.foldl (emitTo (buf + n)) _ _).pos = _ ∧ (List.foldl (emitTo (buf + n)) _ _).mem 0 = _
    at hwrap
  rw [ho] at hwrap
  obtain ⟨hpos, hmem⟩ := hwrap
  rw [hrun, if_pos (show n > 0 by omega), Option.some.injEq, Prod.mk.injEq] at hrun'
  have hzero : mem' 0 = ' ' := by
    rw [hrun'.1]
    split_ifs
    · rw [Function.update_of_ne (by omega)]
      exact hmem
    · rw [Function.update_of_ne (by omega)]
      exact hmem
  have hframe : mem' 0 = NUL := ht.frame 0 (by omega)
  exact absurd (hzero.symm.trans hframe) (by decide)

/-- The bounds are needed: for a text of 2^31 characters, for one that goes beyond the last address, and
for a buffer that has the last address. -/
theorem truncation_breaks :
    (¬ ∀ fmt args text buf n, formatted fmt args = some text → buf + n < 4294967296 →
      buf + text.length < 4294967296 → Law fmt args text buf n) ∧
    (¬ ∀ fmt args text buf n, formatted fmt args = some text → buf + n < 4294967296 →
      text.length < 2147483648 → Law fmt args text buf n) ∧
    ¬ ∀ fmt args text buf n, formatted fmt args = some text → buf + n ≤ 4294967296 →
      text.length < 2147483648 → buf + text.length < 4294967296 → Law fmt args text buf n := by
  refine ⟨fun hclaim => ?_, fun hclaim => ?_, fun hclaim => ?_⟩
  · obtain ⟨k, hk⟩ : ∃ k : Nat, k = 2147483646 := ⟨_, rfl⟩
    have htext := formatted_wide (k := k) (by omega) (by omega)
    have hlen : (List.replicate k ' ' ++ ['A', 'x']).length = k + 2 := by simp
    have hlaw := hclaim _ _ _ 536870912 64 htext (by omega) (by omega)
    exact not_law_of_length htext (by omega) (by omega) (by omega) hlaw
  · obtain ⟨front, hfront⟩ : ∃ front : Nat, front = 1073741823 := ⟨_, rfl⟩
    have htext := formatted_wide (k := front + (1 + (1 + 3))) (by omega) (by omega)
    have hsplit : List.replicate (front + (1 + (1 + 3))) ' ' ++ ['A', 'x'] =
        List.replicate front ' ' ++ ' ' :: ' ' :: (List.replicate 3 ' ' ++ ['A', 'x']) := by
      simp only [List.replicate_add, List.append_assoc]
      rfl
    rw [hsplit] at htext
    have hlaw := hclaim _ _ _ 3221225472 64 htext (by omega) (by
      simp only [List.length_append, List.length_replicate, List.length_cons, List.length_nil]
      omega)
    refine not_law_of_wrap htext ?_ ?_ (by omega) (by omega) (by omega) hlaw
    · rw [List.length_replicate, hfront]
    · simp only [List.length_append, List.length_replicate, List.length_cons, List.length_nil]
      omega
  · have hlaw := hclaim ['a'] [] ['a'] 4294967294 2 (by decide +kernel) (by decide) (by decide)
      (by decide)
    obtain ⟨mem', r, hrun, ht⟩ := hlaw fun _ => NUL
    have hrun' : (rtVsnprintf 4294967294 2 ['a'] [] fun _ => NUL).map
        (fun x => decide (x.1 4294967294 = NUL)) = some true := by decide +kernel
    rw [hrun, Option.map_some, Option.some.injEq, decide_eq_true_eq] at hrun'
    have hkept := ht.kept (by decide)
    have hfirst : mem' 4294967294 = 'a' := by
      have h₁ : textAt mem' 4294967294 1 = ['a'] := hkept
      exact List.head_eq_of_cons_eq h₁
    exact absurd (hrun'.symm.trans hfirst) (by decide)

end RTThread.Ks
