import Mathlib.Data.Bool.AllAny
import RTThread.Kservice.Directives

set_option autoImplicit false

/-! # Strings with a precision

`%.*s` is meant for an array of so many characters, with a terminator or without one. The conversion
takes the length of the string before it looks at the precision, so that it reads as far as the terminator
is.
-/

namespace RTThread.Ks

open Sink (snoc foldl_snoc)

/-! ## The directive -/

namespace Field

/-- The number that a field stands for. -/
def amount : Field → Nat
  | absent => 0
  | number ds => decimalFrom 0 ds
  | star v => v.natAbs

/-- A negative argument. -/
def isNegative : Field → Bool
  | star v => v < 0
  | _ => false

/-- A precision is digits, if any, or an argument that is not negative. -/
def Precision : Field → Prop
  | number ds => ∀ d ∈ ds, isdigit d = true
  | star v => 0 ≤ v
  | absent => False

end Field

/-- `%`, flags, a field width, a precision, `s`, and the format behind it. -/
def stringDirective (flags : List Char) (width prec : Field) (rest : List Char) : List Char :=
  '%' :: (flags ++ (width.text ++ '.' :: (prec.text ++ 's' :: rest)))

variable {flags : List Char} {width prec : Field} {s s' : List Char} {addr : Nat}

/-- The output is left justified. -/
def IsLeft (flags : List Char) (width : Field) : Prop := '-' ∈ flags ∨ width.isNegative

instance (flags : List Char) (width : Field) : Decidable (IsLeft flags width) :=
  inferInstanceAs (Decidable (_ ∨ _))

theorem widthAndFlags_left (hlt : width.amount < 2147483648) :
    (width.widthAndFlags (flagBits flags)).2 &&& LEFT = 0 ↔ ¬ IsLeft flags width := by
  unfold IsLeft
  rw [not_or, ← flagBits_left]
  cases width with
  | absent => exact (and_iff_left (by decide)).symm
  | number ds => exact (and_iff_left (by simp [Field.isNegative])).symm
  | star v =>
      have hlt : v.natAbs < 2147483648 := hlt
      have hv : i32 v = v := i32_of_lt (by omega) (by omega)
      simp only [Field.widthAndFlags, Field.isNegative, hv, decide_eq_true_eq]
      split_ifs with hneg
      · rw [Nat.and_or_distrib_right, Nat.or_eq_zero_iff]
        exact iff_of_false (fun h => absurd h.2 (by decide)) fun h => h.2 hneg
      · exact (and_iff_left hneg).symm

/-- The width that is read: none is less than every length. -/
theorem widthAndFlags_width (hwidth : width.Width) (hlt : width.amount < 2147483648) (bits : Nat) :
    (width.widthAndFlags bits).1 = if width = .absent then -1 else (width.amount : Int) := by
  cases width with
  | absent => rfl
  | number ds => exact skipAtoi_eq hwidth.1 hlt
  | star v =>
      have hlt : v.natAbs < 2147483648 := hlt
      have hv : i32 v = v := i32_of_lt (by omega) (by omega)
      rw [if_neg (show Field.star v ≠ .absent by simp)]
      simp only [Field.widthAndFlags, Field.amount, hv]
      split_ifs with hneg
      · show i32 (-v) = v.natAbs
        rw [i32_of_lt (by omega) (by omega)]
        omega
      · show v = v.natAbs
        omega

/-- The precision is read. -/
theorem getPrecision_eq (hprec : prec.Precision) (hlt : prec.amount < 2147483648) (rest : List Char)
    (args : List Arg) (bits : Nat) (w : Int) :
    getPrecision ⟨'.' :: (prec.text ++ 's' :: rest), prec.args ++ args, bits, w, -1⟩ =
      some ⟨'s' :: rest, args, bits, w, prec.amount⟩ := by
  cases prec with
  | absent => exact hprec.elim
  | star v =>
      have hprec : 0 ≤ v := hprec
      have hlt : v.natAbs < 2147483648 := hlt
      have hv : i32 v = v := i32_of_lt (by omega) (by omega)
      rw [show (Field.star v).args ++ args = .int v :: args from rfl]
      simp only [Field.text, List.cons_append, List.nil_append, getPrecision, vaInt, Option.map_some,
        hv, Option.some.injEq, Directive.mk.injEq, true_and, Field.amount]
      omega
  | number ds =>
      have hds : ∀ d ∈ ds, isdigit d = true := hprec
      show getPrecision ⟨'.' :: (ds ++ 's' :: rest), args, bits, w, -1⟩ = _
      cases ds with
      | nil => rfl
      | cons d ds =>
          have hd := hds d List.mem_cons_self
          have hne : d ≠ '*' := by
            rintro rfl
            cases hd
          have hrun := skipAtoi_append hds (show isdigit 's' = false from rfl) rest 0
          have hval : (skipAtoi (0 : Nat) (d :: ds)).1 = decimalFrom 0 (d :: ds) := skipAtoi_eq hds hlt
          rw [List.cons_append] at hrun ⊢
          unfold getPrecision
          split
          case h_1 heq => exact absurd (List.cons.inj (List.cons.inj heq).2).1 hne
          case h_2 heq =>
            obtain ⟨-, rfl⟩ := List.cons.inj heq
            dsimp only
            rw [if_pos hd, hrun]
            simp only [Option.some.injEq, Directive.mk.injEq, true_and]
            show max (skipAtoi (0 : Nat) (d :: ds)).1 0 = _
            rw [hval]
            exact max_eq_left (Int.natCast_nonneg _)
          case h_3 hne' => exact absurd rfl (hne' _)

/-! ## The text -/

/-- The characters in front of the terminator, but at most `p`. -/
def body (p : Nat) (s : List Char) : List Char := (s.take p).takeWhile (· ≠ NUL)

/-- The characters, padded with blanks. -/
def padded (left : Prop) [Decidable left] (w : Nat) (text : List Char) : List Char :=
  let pad := List.replicate (w - text.length) ' '
  if left then text ++ pad else pad ++ text

/-- The length is the number of characters in front of the terminator, if there is one. -/
theorem rtStrlen_eq (h : NUL ∈ s) : rtStrlen s = some (s.takeWhile (· ≠ NUL)).length := by
  induction s with
  | nil => cases h
  | cons c s ih =>
      unfold rtStrlen
      split_ifs with hc
      · rw [List.takeWhile_cons, if_neg (by simpa using hc)]
        rfl
      · rw [List.takeWhile_cons, if_pos (by simpa using hc),
          ih ((List.mem_cons.mp h).resolve_left (Ne.symm hc))]
        rfl

theorem rtStrlen_eq_none (h : NUL ∉ s) : rtStrlen s = none := by
  induction s with
  | nil => rfl
  | cons c s ih =>
      rw [List.mem_cons, not_or] at h
      rw [rtStrlen, if_neg (Ne.symm h.1), ih h.2]
      rfl

/-- There are fewer characters in front of a terminator than there are characters. -/
theorem length_takeWhile_lt (h : NUL ∈ s) : (s.takeWhile (· ≠ NUL)).length < s.length := by
  induction s with
  | nil => cases h
  | cons c s ih =>
      rw [List.takeWhile_cons, List.length_cons]
      split_ifs with hc
      · have hc' : c ≠ NUL := by simpa using hc
        exact Nat.succ_lt_succ (ih ((List.mem_cons.mp h).resolve_left (Ne.symm hc')))
      · exact Nat.succ_pos _

/-- A terminator among the first `p` characters. -/
theorem takeWhile_take {p : Nat} (h : NUL ∈ s.take p) :
    s.takeWhile (· ≠ NUL) = body p s ∧ (body p s).length < p := by
  have hlt := length_takeWhile_lt h
  constructor
  · conv_lhs => rw [← List.take_append_drop p s, List.takeWhile_append, if_neg hlt.ne]
    rfl
  · calc (body p s).length
      _ < (s.take p).length := hlt
      _ ≤ p := List.length_take_le p s


/-- The blanks of one loop. -/
theorem whileAbove_text (c : Char) (len n : Int) (text : List Char) :
    (whileAbove snoc c len n text).1 = text ++ List.replicate (n - len).toNat c := by
  unfold whileAbove
  split_ifs with h
  · exact Sink.iterate_snoc ..
  · rw [show (n - len).toNat = 0 by omega]
    exact (List.append_nil text).symm

/-- The counter is then used up. -/
theorem whileAbove_counter {σ : Type} (emit : σ → Char → σ) (c : Char) {len n : Int} (h₀ : 0 ≤ len)
    (hlen : len < 2147483648) (hn₀ : -1 ≤ n) (o : σ) :
    (whileAbove emit c len n o).2 ≤ len := by
  unfold whileAbove
  split_ifs with h
  · show i32 (len - 1) ≤ len
    rw [i32_of_lt (by omega) (by omega)]
    omega
  · show i32 (n - 1) ≤ len
    rw [i32_of_lt (by omega) (by omega)]
    omega

/-- The blanks around a text, in front of it or behind it. -/
theorem printString_padded {d : Directive} {args : List Arg} {w : Nat}
    (hargs : d.args = .ptr addr s :: args) (haddr : addr ≠ 0)
    (hw : d.fieldWidth = w ∨ d.fieldWidth = -1 ∧ w = 0) {p : Nat} (hp : d.precision = p)
    (h : NUL ∈ s.take p) (hplt : p < 2147483648) (left : Prop) [Decidable left]
    (hleft : d.flags &&& LEFT = 0 ↔ ¬ left) :
    printString snoc d [] = some (padded left w (body p s), args) := by
  obtain ⟨hbody, hlen⟩ := takeWhile_take h
  have hstr : rtStrlen s = some (body p s).length := by
    rw [rtStrlen_eq (List.mem_of_mem_take h), hbody]
  have htake : s.take (body p s).length = body p s := by
    rw [← hbody]
    exact (List.prefix_iff_eq_take.mp (List.takeWhile_prefix _)).symm
  have hi : i32 ((body p s).length : Int) = (body p s).length := i32_of_lt (by omega) (by omega)
  have hnot : ¬ (d.precision > 0 ∧ i32 ((body p s).length : Int) > d.precision) := by
    rw [hi, hp]
    omega
  unfold printString padded
  rw [hargs]
  simp only [vaPtr, if_neg haddr, hstr, Option.map_some, if_neg hnot]
  rw [hi, Int.toNat_natCast, htake]
  generalize body p s = text at hlen
  have hpad : (d.fieldWidth - (text.length : Int)).toNat = w - text.length := by
    rcases hw with hw | ⟨hw, rfl⟩
    · rw [hw]
      omega
    · rw [hw]
      omega
  by_cases hl : left
  · rw [if_neg (fun h => hleft.mp h hl), if_pos hl, foldl_snoc, whileAbove_text, hpad]
    rfl
  · have hcounter : (whileAbove snoc ' ' text.length d.fieldWidth []).2 ≤ text.length :=
      whileAbove_counter snoc ' ' (by omega) (by omega) (by rcases hw with hw | hw <;> omega) []
    rw [if_pos (hleft.mpr hl), if_neg hl, foldl_snoc, whileAbove_text, whileAbove_text, hpad,
      show ((whileAbove snoc ' ' text.length d.fieldWidth []).2 - (text.length : Int)).toNat = 0 by
        omega, List.replicate_zero, List.append_nil, List.nil_append]

/-! ## The bound on what is read -/

/-- The directive emits at most as many characters as its precision says, padded to the field width, and
needs no more than these of the array: another array with the same ones is as good. -/
def BoundsRead (flags : List Char) (width prec : Field) (addr : Nat) (s : List Char) : Prop :=
  ∀ s', s'.take prec.amount = s.take prec.amount →
    ∀ (σ : Type) (emit : σ → Char → σ) rest args o,
      format emit (stringDirective flags width prec rest)
        (width.args ++ (prec.args ++ .ptr addr s' :: args)) o =
          format emit rest args
            ((padded (IsLeft flags width) width.amount (body prec.amount s)).foldl emit o)

/-- The directive is the conversion `s` with the field width and the precision. -/
theorem conversion_string (hflags : ∀ c ∈ flags, IsFlag c) (hwidth : width.Width)
    (hprec : prec.Precision) (hplt : prec.amount < 2147483648) {σ : Type} (emit : σ → Char → σ)
    (rest : List Char) (args : List Arg) (o : σ) :
    conversion emit (flags ++ (width.text ++ '.' :: (prec.text ++ 's' :: rest)))
        (width.args ++ (prec.args ++ args)) o =
      (printString emit ⟨'s' :: rest, args, (width.widthAndFlags (flagBits flags)).2,
        (width.widthAndFlags (flagBits flags)).1, prec.amount⟩ o).map
          fun x => (x.1, rest, x.2) := by
  have hends : Ends '.' := by decide
  unfold conversion
  rw [getFlags_width hflags hwidth hends]
  dsimp only
  rw [getWidth_eq hwidth hends, Option.bind_some, getPrecision_eq hprec hplt]
  dsimp only
  rw [getQualifier_stop rfl (by decide)]
  rfl

/-- **A precision bounds what is read** of an array that has a terminator within the precision, and of no
other. -/
theorem string_bounds_read_iff (hflags : ∀ c ∈ flags, IsFlag c) (hwidth : width.Width)
    (hprec : prec.Precision) (hwlt : width.amount < 2147483648) (hplt : prec.amount < 2147483648)
    (haddr : addr ≠ 0) : BoundsRead flags width prec addr s ↔ NUL ∈ s.take prec.amount := by
  constructor
  · intro h
    by_contra hnul
    have htake := h (s.take prec.amount) (by rw [List.take_take, min_self]) _ snoc [] [] []
    have hnone : rtStrlen (s.take prec.amount) = none := rtStrlen_eq_none hnul
    rw [stringDirective, format_directive,
      conversion_string hflags hwidth hprec hplt snoc [] [.ptr addr (s.take prec.amount)] []] at htake
    unfold printString at htake
    simp only [vaPtr, if_neg haddr, hnone, Option.map_none, Option.bind_none] at htake
    rw [format] at htake
    cases htake
  · intro h s' hs' σ emit rest args o
    have hbody : body prec.amount s' = body prec.amount s := by rw [body, hs', body]
    have hw : (width.widthAndFlags (flagBits flags)).1 = width.amount ∨
        (width.widthAndFlags (flagBits flags)).1 = -1 ∧ width.amount = 0 := by
      rw [widthAndFlags_width hwidth hwlt]
      split_ifs with habs
      · exact .inr ⟨rfl, by rw [habs]; rfl⟩
      · exact .inl rfl
    rw [← hs'] at h
    rw [stringDirective, format_directive,
      conversion_string hflags hwidth hprec hplt emit rest (.ptr addr s' :: args) o]
    -- the run into the list, and from there into the sink
    have hrun := printString_hom (Sink.hom_foldl emit o) ⟨'s' :: rest, .ptr addr s' :: args,
      (width.widthAndFlags (flagBits flags)).2, (width.widthAndFlags (flagBits flags)).1,
      prec.amount⟩ []
    rw [printString_padded rfl haddr hw rfl h hplt _ (widthAndFlags_left hwlt), hbody] at hrun
    change printString emit _ o = _ at hrun
    rw [hrun]
    rfl

/-- Three characters of a name, and a blank behind them. -/
theorem string_bounds_read_name : BoundsRead ['-'] (.number ['4']) (.star 8) 536870912
    ['t', 'i', 'd', NUL] :=
  (string_bounds_read_iff (List.all_iff_forall_prop.mp (by decide))
    (show (Field.number ['4']).Width from
      ⟨List.all_eq_true.mp (by decide), _, _, rfl, by decide⟩)
    (show (Field.star 8).Precision from Int.natCast_nonneg 8) (by decide) (by decide)
    (by decide)).mpr (by decide)

/-- An array of eight characters without a terminator is read further. -/
theorem string_read_beyond : ¬ BoundsRead [] .absent (.star 8) 536870912
    ['s', 'h', 'r', 'x', '_', 't', 'h', 'r'] := by
  rw [string_bounds_read_iff (List.forall_mem_nil _) (show Field.absent.Width from trivial)
    (show (Field.star 8).Precision from Int.natCast_nonneg 8) (by decide) (by decide) (by decide)]
  decide

/-! ## Names of objects -/

/-- `rt_strncpy`: the `n` characters that are written. -/
def rtStrncpy : List Char → Nat → Option (List Char)
  | _, 0 => some []
  | [], _ + 1 => none
  | c :: src, n + 1 =>
      -- NUL pad the remaining bytes
      if c = NUL then some (List.replicate (n + 1) NUL) else (rtStrncpy src n).map (c :: ·)

/-- The characters of a name that fit, and terminators behind them. -/
theorem rtStrncpy_eq {name : List Char} (hname : NUL ∉ name) (n : Nat) :
    rtStrncpy (name ++ [NUL]) n =
      some (name.take n ++ List.replicate (n - name.length) NUL) := by
  induction name generalizing n with
  | nil =>
      cases n with
      | zero => rfl
      | succ n =>
          rw [List.nil_append, rtStrncpy, if_pos rfl]
          rfl
  | cons c name ih =>
      rw [List.mem_cons, not_or] at hname
      cases n with
      | zero => simp [rtStrncpy]
      | succ n =>
          rw [List.cons_append, rtStrncpy, if_neg (Ne.symm hname.1), ih hname.2, Option.map_some,
            List.take_succ_cons, List.length_cons, Nat.add_sub_add_right]
          rfl

/-- The name of an object may be printed if it is shorter than the array. -/
theorem object_name_bounds_read_iff (hflags : ∀ c ∈ flags, IsFlag c) (hwidth : width.Width)
    (hwlt : width.amount < 2147483648) (haddr : addr ≠ 0) {name field : List Char} {n : Nat}
    (hn : n < 2147483648) (hname : NUL ∉ name) (h : rtStrncpy (name ++ [NUL]) n = some field) :
    BoundsRead flags width (.star n) addr field ↔ name.length < n := by
  rw [rtStrncpy_eq hname, Option.some.injEq] at h
  have hlen : field.length = n := by
    rw [← h, List.length_append, List.length_take, List.length_replicate]
    omega
  have hamount : (Field.star n).amount = n := Int.natAbs_natCast n
  rw [string_bounds_read_iff hflags hwidth (show (Field.star n).Precision from Int.natCast_nonneg n)
    hwlt (by rwa [hamount]) haddr, hamount, List.take_of_length_le hlen.le, ← h, List.mem_append,
    List.mem_replicate]
  constructor
  · rintro (hmem | ⟨hne, -⟩)
    · exact absurd (List.mem_of_mem_take hmem) hname
    · omega
  · intro hlt
    exact .inr ⟨by omega, rfl⟩

theorem object_name_bounds_read_main : BoundsRead [] .absent (.star 8) 536870912
    ['m', 'a', 'i', 'n', NUL, NUL, NUL, NUL] :=
  (object_name_bounds_read_iff (List.forall_mem_nil _) (show Field.absent.Width from trivial) (by decide)
    (by decide) (by decide) (show NUL ∉ ['m', 'a', 'i', 'n'] by decide) (by decide)).mpr (by decide)

end RTThread.Ks
