import RTThread.Kservice.Truncation

set_option autoImplicit false

/-! # Directives as they are written

A directive is a `%`, flags, a field width and a precision, each a decimal number or `*`, and the
character of the conversion. What `rt_vsnprintf` reads of one, whatever follows it.
-/

namespace RTThread.Ks

/-- A directive, and the format behind it. -/
theorem format_directive {σ : Type} (emit : σ → Char → σ) (fmt : List Char) (args : List Arg) (o : σ) :
    format emit ('%' :: fmt) args o =
      (conversion emit fmt args o).bind fun x => format emit x.2.1 x.2.2 x.1 := by
  rw [format, if_neg (by decide)]
  split
  case h_1 heq => rw [heq]; rfl
  case h_2 heq => rw [heq]; rfl

/-! ## Flags -/

/-- The bit of a flag. -/
def flagBit : Char → Nat
  | '-' => LEFT
  | '+' => PLUS
  | ' ' => SPACE
  | '#' => SPECIAL
  | '0' => ZEROPAD
  | _ => 0

def IsFlag (c : Char) : Prop := c ∈ ['-', '+', ' ', '#', '0']

instance (c : Char) : Decidable (IsFlag c) := inferInstanceAs (Decidable (c ∈ _))

/-- The bits of the flags. -/
def flagBits (flags : List Char) : Nat := flags.foldl (fun bits c => bits ||| flagBit c) 0

theorem getFlags_cons {c : Char} (h : IsFlag c) (fmt : List Char) (bits : Nat) :
    getFlags (c :: fmt) bits = getFlags fmt (bits ||| flagBit c) := by
  simp only [IsFlag, List.mem_cons, List.not_mem_nil, or_false] at h
  rcases h with rfl | rfl | rfl | rfl | rfl
  all_goals rfl

theorem getFlags_stop {c : Char} (h : ¬ IsFlag c) (fmt : List Char) (bits : Nat) :
    getFlags (c :: fmt) bits = (c :: fmt, bits) := by
  simp only [IsFlag, List.mem_cons, List.not_mem_nil, or_false, not_or] at h
  obtain ⟨h₁, h₂, h₃, h₄, h₅⟩ := h
  unfold getFlags
  split
  all_goals simp_all

theorem getFlags_append {flags : List Char} (hflags : ∀ c ∈ flags, IsFlag c) {c : Char}
    (hc : ¬ IsFlag c) (fmt : List Char) :
    getFlags (flags ++ c :: fmt) 0 = (c :: fmt, flagBits flags) := by
  have hrun : ∀ bits, getFlags (flags ++ c :: fmt) bits =
      (c :: fmt, flags.foldl (fun bits c => bits ||| flagBit c) bits) := by
    induction flags with
    | nil => exact fun bits => getFlags_stop hc fmt bits
    | cons d flags ih =>
        intro bits
        rw [List.cons_append, getFlags_cons (hflags d List.mem_cons_self), List.foldl_cons]
        exact ih (fun c hc => hflags c (List.mem_cons_of_mem _ hc)) _
  exact hrun 0

/-- A bit that is no flag's. -/
theorem flagBits_and {bit : Nat} (hbit : ∀ c, flagBit c &&& bit = 0) (flags : List Char) :
    flagBits flags &&& bit = 0 := by
  have hrun : ∀ bits, bits &&& bit = 0 →
      flags.foldl (fun bits c => bits ||| flagBit c) bits &&& bit = 0 := by
    induction flags with
    | nil => exact fun bits h => h
    | cons c flags ih =>
        intro bits h
        rw [List.foldl_cons]
        exact ih _ (by rw [Nat.and_or_distrib_right, h, hbit, Nat.or_zero])
  exact hrun 0 (Nat.zero_and bit)

theorem flagBits_sign (flags : List Char) : flagBits flags &&& SIGN = 0 := by
  refine flagBits_and (fun c => ?_) flags
  unfold flagBit
  split <;> rfl

theorem flagBits_lt (flags : List Char) : flagBits flags < 64 := by
  have hrun : ∀ bits, bits < 2 ^ 6 →
      flags.foldl (fun bits c => bits ||| flagBit c) bits < 2 ^ 6 := by
    induction flags with
    | nil => exact fun bits h => h
    | cons c flags ih =>
        intro bits h
        rw [List.foldl_cons]
        refine ih _ (Nat.or_lt_two_pow h ?_)
        unfold flagBit
        split <;> decide
  exact hrun 0 (by decide)

/-- The flag `-`. -/
theorem flagBits_left (flags : List Char) : flagBits flags &&& LEFT = 0 ↔ '-' ∉ flags := by
  have hbit : ∀ c, flagBit c &&& LEFT = 0 ↔ c ≠ '-' := by
    intro c
    unfold flagBit
    split
    case h_6 h₁ _ _ _ _ => exact iff_of_true rfl h₁
    all_goals decide
  have hor : ∀ a b : Nat, a ||| b = 0 ↔ a = 0 ∧ b = 0 := fun a b => Nat.or_eq_zero_iff
  have hrun : ∀ bits, flags.foldl (fun bits c => bits ||| flagBit c) bits &&& LEFT = 0 ↔
      bits &&& LEFT = 0 ∧ '-' ∉ flags := by
    induction flags with
    | nil => exact fun bits => by simp
    | cons c flags ih =>
        intro bits
        rw [List.foldl_cons, ih, Nat.and_or_distrib_right, hor, hbit, List.mem_cons, not_or,
          and_assoc, ne_comm]
  exact (hrun 0).trans (and_iff_right (Nat.zero_and LEFT))

/-! ## Numbers -/

theorem isdigit_iff {c : Char} : isdigit c = true ↔ 48 ≤ c.toNat ∧ c.toNat ≤ 57 := by
  unfold isdigit
  rw [Bool.and_eq_true, decide_eq_true_iff, decide_eq_true_iff]
  exact Iff.rfl

/-- The number that digits denote. -/
def decimalFrom (i : Nat) (ds : List Char) : Nat := ds.foldl (fun i c => i * 10 + (c.toNat - 48)) i

theorem le_decimalFrom (ds : List Char) (i : Nat) : i ≤ decimalFrom i ds := by
  induction ds generalizing i with
  | nil => exact le_rfl
  | cons c ds ih =>
      calc i
        _ ≤ i * 10 + (c.toNat - 48) := by omega
        _ ≤ decimalFrom (i * 10 + (c.toNat - 48)) ds := ih _

/-- `skip_atoi` stops at the first character that is no digit. -/
theorem skipAtoi_append {ds : List Char} (hds : ∀ d ∈ ds, isdigit d = true) {c : Char}
    (hc : isdigit c = false) (fmt : List Char) (i : Int) :
    skipAtoi i (ds ++ c :: fmt) = ((skipAtoi i ds).1, c :: fmt) := by
  induction ds generalizing i with
  | nil =>
      rw [List.nil_append, skipAtoi, if_neg (by simp [hc])]
      rfl
  | cons d ds ih =>
      have hd := hds d List.mem_cons_self
      rw [List.cons_append, skipAtoi, if_pos hd, skipAtoi, if_pos hd]
      exact ih (fun x hx => hds x (List.mem_cons_of_mem _ hx)) _

/-- A number that an `int` holds. -/
theorem skipAtoi_eq {ds : List Char} (hds : ∀ d ∈ ds, isdigit d = true) {i : Nat}
    (hlt : decimalFrom i ds < 2147483648) : (skipAtoi i ds).1 = decimalFrom i ds := by
  induction ds generalizing i with
  | nil => rfl
  | cons d ds ih =>
      have hd := isdigit_iff.mp (hds d List.mem_cons_self)
      have hle : i * 10 + (d.toNat - 48) ≤ decimalFrom (i * 10 + (d.toNat - 48)) ds :=
        le_decimalFrom ds _
      have hlt : decimalFrom (i * 10 + (d.toNat - 48)) ds < 2147483648 := hlt
      have hstep : i32 ((i : Int) * 10 + d.toNat - '0'.toNat) = (i * 10 + (d.toNat - 48) : Nat) := by
        rw [show ('0'.toNat : Int) = 48 from rfl,
          show (i : Int) * 10 + d.toNat - 48 = (i * 10 + (d.toNat - 48) : Nat) by omega]
        exact i32_of_lt (by omega) (by omega)
      rw [skipAtoi, if_pos (hds d List.mem_cons_self), hstep]
      exact ih (fun x hx => hds x (List.mem_cons_of_mem _ hx)) hlt

/-- A field width or a precision: none, digits, or the next argument. -/
inductive Field
  | absent
  | number (ds : List Char)
  | star (v : Int)
  deriving DecidableEq, Repr

namespace Field

def text : Field → List Char
  | absent => []
  | number ds => ds
  | star _ => ['*']

def args : Field → List Arg
  | star v => [.int v]
  | _ => []

/-- Digits, and at least one. -/
def Digits : Field → Prop
  | number ds => ds ≠ [] ∧ ∀ d ∈ ds, isdigit d = true
  | _ => True

/-- Of a field width the first digit is not `0`, which is a flag. -/
def Width : Field → Prop
  | number ds => (∀ d ∈ ds, isdigit d = true) ∧ ∃ d ds', ds = d :: ds' ∧ d ≠ '0'
  | _ => True

end Field

/-- A character that ends a directive's field width. -/
def Ends (c : Char) : Prop := ¬ IsFlag c ∧ isdigit c = false ∧ c ≠ '*'

instance (c : Char) : Decidable (Ends c) := inferInstanceAs (Decidable (_ ∧ _))

variable {flags : List Char} {width : Field} {c : Char}

/-- The flags in front of a field width. -/
theorem getFlags_width (hflags : ∀ c ∈ flags, IsFlag c) (hwidth : width.Width) (hc : Ends c)
    (fmt : List Char) :
    getFlags (flags ++ (width.text ++ c :: fmt)) 0 = (width.text ++ c :: fmt, flagBits flags) := by
  cases width with
  | absent => exact getFlags_append hflags hc.1 fmt
  | star v => exact getFlags_append hflags (by decide) (c :: fmt)
  | number ds =>
      obtain ⟨hds, d, ds, rfl, hd⟩ := hwidth
      refine getFlags_append hflags ?_ (ds ++ c :: fmt)
      have hdig := hds d List.mem_cons_self
      simp only [IsFlag, List.mem_cons, List.not_mem_nil, or_false]
      rintro (rfl | rfl | rfl | rfl | rfl)
      case inr.inr.inr.inr => exact hd rfl
      all_goals cases hdig

/-- What is read of a field width, and the flags with it. -/
def Field.widthAndFlags (bits : Nat) : Field → Int × Nat
  | absent => (-1, bits)
  | number ds => ((skipAtoi 0 ds).1, bits)
  | star v => if i32 v < 0 then (i32 (-i32 v), bits ||| LEFT) else (i32 v, bits)

/-- The field width is read. -/
theorem getWidth_eq (hwidth : width.Width) (hc : Ends c) (fmt : List Char) (bits : Nat)
    (args : List Arg) :
    getWidth (width.text ++ c :: fmt) bits (width.args ++ args) =
      some ⟨c :: fmt, args, (width.widthAndFlags bits).2, (width.widthAndFlags bits).1, -1⟩ := by
  obtain ⟨-, hdig, hstar⟩ := hc
  cases width with
  | absent =>
      show getWidth (c :: fmt) bits args = _
      unfold getWidth
      split
      case h_1 heq => exact absurd (List.cons.inj heq).1 hstar
      case h_2 heq =>
        obtain ⟨rfl, rfl⟩ := List.cons.inj heq
        rw [if_neg (by simp [hdig])]
        rfl
      case h_3 heq => cases heq
  | star v =>
      rw [show (Field.star v).args ++ args = .int v :: args from rfl]
      unfold getWidth Field.widthAndFlags
      simp only [Field.text, List.cons_append, List.nil_append, vaInt, Option.map_some]
      split_ifs
      · rfl
      · rfl
  | number ds =>
      obtain ⟨hds, d, ds, rfl, hd⟩ := hwidth
      have hrun := skipAtoi_append hds hdig fmt 0
      have hne : d ≠ '*' := by
        rintro rfl
        cases hds '*' List.mem_cons_self
      show getWidth (d :: (ds ++ c :: fmt)) bits args = _
      unfold getWidth
      split
      case h_1 heq => exact absurd (List.cons.inj heq).1 hne
      case h_2 heq =>
        obtain ⟨rfl, rfl⟩ := List.cons.inj heq
        rw [if_pos (hds d List.mem_cons_self)]
        dsimp only
        rw [← List.cons_append, hrun]
        rfl
      case h_3 heq => cases heq

/-- No precision. -/
theorem getPrecision_stop {d : Directive} {fmt : List Char} (hd : d.fmt = c :: fmt) (hc : c ≠ '.') :
    getPrecision d = some d := by
  unfold getPrecision
  split
  case h_1 heq => exact absurd (List.cons.inj (hd.symm.trans heq)).1 hc
  case h_2 heq => exact absurd (List.cons.inj (hd.symm.trans heq)).1 hc
  case h_3 => rfl

/-- No qualifier. -/
theorem getQualifier_stop {d : Directive} {fmt : List Char} (hd : d.fmt = c :: fmt)
    (hc : c ≠ 'h' ∧ c ≠ 'l') : getQualifier d = (none, d) := by
  unfold getQualifier
  split
  case h_1 heq => exact absurd (List.cons.inj (hd.symm.trans heq)).1 hc.1
  case h_2 heq => exact absurd (List.cons.inj (hd.symm.trans heq)).1 hc.2
  case h_3 => rfl

end RTThread.Ks
