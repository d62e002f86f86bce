import Mathlib.Data.Bool.AllAny
import RTThread.Kservice.Directives
import RTThread.Lib.Numeral

set_option autoImplicit false

/-! # Printed integers

A number is printed as blanks, a sign, zeros or blanks, digits and blanks. The text is read back as the
argument in the radix of the conversion, but for `%o`: `divide` takes sixteen for every base
that is not ten, so that its digits are hexadecimal.
-/

namespace RTThread.Ks

open Sink (snoc foldl_snoc)

/-! ## The digits -/

/-- The base in which `divide` takes digits. -/
def dividedBy (base : Nat) : Nat := if base = 10 then 10 else 16

theorem tmpDigits_eq (digits : List Char) (base room n : Nat) :
    tmpDigits digits base room n =
      Numeral.digitsOf (fun d => digits.getD d '0') (dividedBy base) room n := by
  induction room generalizing n with
  | zero => rfl
  | succ room ih =>
      have hdiv : divide n base = (n % dividedBy base, n / dividedBy base) := by
        unfold divide dividedBy
        split_ifs
        · rfl
        · rfl
      rw [tmpDigits, Numeral.digitsOf, hdiv, ih]

/-- The digit characters of both cases. -/
def IsDigits (digits : List Char) : Prop := digits = smallDigits ∨ digits = largeDigits

theorem IsDigits.digit {digits : List Char} (h : IsDigits digits) :
    ∀ d < 16, Numeral.digit (digits.getD d '0') = some d := by
  rcases h with rfl | rfl
  · decide
  · decide

theorem IsDigits.glyph {digits : List Char} (h : IsDigits digits) :
    ∀ d < 16, digits.getD d '0' ≠ ' ' ∧ digits.getD d '0' ≠ '-' ∧ digits.getD d '0' ≠ '+' := by
  rcases h with rfl | rfl
  · decide
  · decide

variable {digits : List Char} {base r : Nat} {num : Int}

theorem dividedBy_pos (base : Nat) : 0 < dividedBy base ∧ dividedBy base ≤ 16 := by
  unfold dividedBy
  split_ifs
  · decide
  · decide

theorem u32_lt_pow (base : Nat) (v : Int) : u32 v < dividedBy base ^ 16 := by
  have hlt : u32 v < 4294967296 := by
    unfold u32
    omega
  unfold dividedBy
  split_ifs
  · exact hlt.trans (by norm_num)
  · exact hlt.trans (by norm_num)

theorem tmp_ne_nil (hnum : num ≠ 0 → u32 num ≠ 0) : tmp digits base num ≠ [] := by
  unfold tmp
  split_ifs with h₀
  · exact List.cons_ne_nil _ _
  · rw [tmpDigits, if_neg (hnum h₀)]
    exact List.cons_ne_nil _ _

/-- The characters of the digits are no blanks and no signs. -/
theorem mem_tmp (hd : IsDigits digits) {c : Char} (hc : c ∈ tmp digits base num) :
    c ≠ ' ' ∧ c ≠ '-' ∧ c ≠ '+' := by
  have hrun : ∀ room n, c ∈ tmpDigits digits base room n → c ≠ ' ' ∧ c ≠ '-' ∧ c ≠ '+' := by
    intro room
    induction room with
    | zero => exact fun n h => absurd h List.not_mem_nil
    | succ room ih =>
        intro n h
        rw [tmpDigits] at h
        split_ifs at h
        · exact absurd h List.not_mem_nil
        · rcases List.mem_cons.mp h with rfl | h
          · refine hd.glyph _ ?_
            unfold divide
            split_ifs
            · exact (Nat.mod_lt n (by decide)).trans (by decide)
            · exact Nat.mod_lt n (by decide)
          · exact ih _ h
  unfold tmp at hc
  split_ifs at hc
  · rw [List.mem_singleton.mp hc]
    decide
  · exact hrun 16 _ hc

/-- The digits are those of the base that `divide` takes. -/
theorem value_tmp (hd : IsDigits digits) (base : Nat) :
    Numeral.value (dividedBy base) (tmp digits base num).reverse = some (u32 num) := by
  obtain ⟨h₀, h₁₆⟩ := dividedBy_pos base
  unfold tmp
  split_ifs with hz
  · rw [hz]
    exact Numeral.push_zero h₀
  · rw [tmpDigits_eq]
    exact Numeral.value_digitsOf (fun d hlt => hd.digit d (hlt.trans_le h₁₆)) h₀ (u32_lt_pow base num)

/-- In a smaller radix they are read back as the number if it is one small digit. -/
theorem value_tmp_iff (hd : IsDigits digits) (h₀ : 0 < r) (hr : r < dividedBy base) :
    Numeral.value r (tmp digits base num).reverse = some (u32 num) ↔ u32 num < r := by
  obtain ⟨-, h₁₆⟩ := dividedBy_pos base
  unfold tmp
  split_ifs with hz
  · rw [hz]
    exact iff_of_true (Numeral.push_zero h₀) h₀
  · rw [tmpDigits_eq]
    exact Numeral.value_digitsOf_iff (fun d hlt => hd.digit d (hlt.trans_le h₁₆)) h₀ hr
      (u32_lt_pow base num)

/-! ## The text around them -/

theorem whileAbove_snoc (c : Char) (len n : Int) (text : List Char) :
    ∃ k, (whileAbove snoc c len n text).1 = text ++ List.replicate k c := by
  unfold whileAbove
  split_ifs
  · exact ⟨_, Sink.iterate_snoc ..⟩
  · exact ⟨0, (List.append_nil text).symm⟩

theorem padIf_snoc (p : Prop) [Decidable p] (c : Char) (x : List Char × Int) :
    ∃ k, (padIf snoc p c x).1 = x.1 ++ List.replicate k c := by
  unfold padIf
  split_ifs
  · exact whileAbove_snoc c 0 x.2 x.1
  · exact ⟨0, (List.append_nil x.1).symm⟩

theorem putSign_snoc (sign : Option Char) (x : List Char × Int) :
    (putSign snoc sign x).1 = x.1 ++ sign.toList := by
  cases sign with
  | none => exact (List.append_nil x.1).symm
  | some c => rfl

/-- Left justified numbers are not padded with zeros. -/
def effective (type : Nat) : Nat := if type &&& LEFT ≠ 0 then type - (type &&& ZEROPAD) else type

def digitsFor (type : Nat) : List Char := if type &&& LARGE ≠ 0 then largeDigits else smallDigits

theorem isDigits_digitsFor (type : Nat) : IsDigits (digitsFor type) := by
  unfold digitsFor IsDigits
  split_ifs
  · exact .inr rfl
  · exact .inl rfl

/-- **The text of a number** without a precision. -/
theorem printNumber_text (num : Int) (base : Nat) (s : Int) (type : Nat) :
    ∃ a b e z, (z = ' ' ∨ z = '0') ∧ printNumber snoc num base s (-1) type [] =
      List.replicate a ' ' ++ ((getSign (effective type) num).1.toList ++ (List.replicate b z ++
        ((tmp (digitsFor type) base (getSign (effective type) num).2).reverse ++
          List.replicate e ' '))) := by
  unfold printNumber
  dsimp only
  rw [show (if type &&& LEFT ≠ 0 then type - (type &&& ZEROPAD) else type) = effective type from rfl,
    show (if type &&& LARGE ≠ 0 then largeDigits else smallDigits) = digitsFor type from rfl]
  generalize htmp : tmp (digitsFor type) base (getSign (effective type) num).2 = t
  have hprec : (if (t.length : Int) > -1 then (t.length : Int) else -1) = t.length :=
    if_pos (by omega)
  rw [hprec, if_pos (show (-1 : Int) ≠ 0 by decide)]
  generalize (getSign (effective type) num).1 = sign
  generalize (if effective type &&& (ZEROPAD ||| LEFT) = 0 ∧ sign.isSome ∧ i32 (s - t.length) > 0 then
    i32 (s - t.length) - 1 else i32 (s - t.length)) = size
  obtain ⟨a, ha⟩ := padIf_snoc (effective type &&& (ZEROPAD ||| LEFT) = 0) ' ' ([], size)
  generalize padIf snoc (effective type &&& (ZEROPAD ||| LEFT) = 0) ' ' ([], size) = x₁ at ha ⊢
  have hs := putSign_snoc sign x₁
  generalize putSign snoc sign x₁ = x₂ at hs ⊢
  obtain ⟨b, hb⟩ := padIf_snoc (effective type &&& LEFT = 0)
    (if effective type &&& ZEROPAD ≠ 0 then '0' else ' ') x₂
  generalize padIf snoc (effective type &&& LEFT = 0)
    (if effective type &&& ZEROPAD ≠ 0 then '0' else ' ') x₂ = x₃ at hb ⊢
  have hzero : (whileAbove snoc '0' t.length t.length x₃.1).1 = x₃.1 := by
    rw [whileAbove, if_neg (lt_irrefl _)]
  rw [hzero, foldl_snoc]
  obtain ⟨e, he⟩ := whileAbove_snoc ' ' 0 x₃.2 (x₃.1 ++ t.reverse)
  refine ⟨a, b, e, if effective type &&& ZEROPAD ≠ 0 then '0' else ' ', ?_, ?_⟩
  · split_ifs
    · exact .inr rfl
    · exact .inl rfl
  · rw [he, hb, hs, ha]
    simp only [List.nil_append, List.append_assoc]

/-! ## The conversions -/

inductive Conversion
  | d | i | u | x | X | o
  deriving DecidableEq, Repr

namespace Conversion

def char : Conversion → Char
  | d => 'd'
  | i => 'i'
  | u => 'u'
  | x => 'x'
  | X => 'X'
  | o => 'o'

def radix : Conversion → Nat
  | d | i | u => 10
  | x | X => 16
  | o => 8

/-- The flags that the conversion sets. -/
def flag : Conversion → Nat
  | d | i => SIGN
  | X => LARGE
  | _ => 0

/-- The argument, as signed or as unsigned. -/
def value : Conversion → Int → Int
  | d, v | i, v => i32 v
  | _, v => u32 v

end Conversion

variable {flags : List Char} {width : Field} {conv : Conversion} {v : Int}

/-- The text of an integer. -/
def integerText (flags : List Char) (width : Field) (conv : Conversion) (v : Int) : List Char :=
  let w := width.widthAndFlags (flagBits flags)
  printNumber snoc (i32 (u32 v)) conv.radix w.1 (-1) (w.2 ||| conv.flag) []

theorem printNumber_foldl {σ : Type} (emit : σ → Char → σ) (num : Int) (base : Nat)
    (s precision : Int) (type : Nat) (o : σ) :
    printNumber emit num base s precision type o =
      (printNumber snoc num base s precision type []).foldl emit o :=
  printNumber_hom (Sink.hom_foldl emit o) num base s precision type []

/-- What the directive emits. -/
theorem conversion_integer (hflags : ∀ c ∈ flags, IsFlag c) (hwidth : width.Width) {σ : Type}
    (emit : σ → Char → σ) (rest : List Char) (args : List Arg) (o : σ) :
    conversion emit (flags ++ (width.text ++ conv.char :: rest)) (width.args ++ .int v :: args) o =
      some ((integerText flags width conv v).foldl emit o, rest, args) := by
  have hends : Ends conv.char ∧ conv.char ≠ '.' ∧ conv.char ≠ 'h' ∧ conv.char ≠ 'l' := by
    cases conv
    all_goals decide
  unfold conversion
  rw [getFlags_width hflags hwidth hends.1]
  dsimp only
  rw [getWidth_eq hwidth hends.1, Option.bind_some, getPrecision_stop rfl hends.2.1]
  dsimp only
  rw [getQualifier_stop rfl hends.2.2]
  dsimp only
  have hnum : ∀ type : Nat, getNumber none type v = u32 v := fun type => if_neg (by simp)
  unfold integerText
  cases conv
  all_goals
    simp only [Conversion.char, printInteger, vaInt, Option.map_some, hnum, Conversion.radix,
      Conversion.flag, Nat.or_zero]
    rw [printNumber_foldl]

/-! ## Reading back -/

/-- The digits behind a directive denote the argument in the radix of the conversion. -/
def ReadsBack (flags : List Char) (width : Field) (conv : Conversion) (v : Int) : Prop :=
  ∃ text, (∀ (σ : Type) (emit : σ → Char → σ) rest args o,
      format emit ('%' :: (flags ++ (width.text ++ conv.char :: rest)))
        (width.args ++ .int v :: args) o = format emit rest args (text.foldl emit o)) ∧
    Numeral.number conv.radix text = some (conv.value v)

theorem getSign_mem (type : Nat) (num : Int) :
    (getSign type num).1 ∈ [none, some '-', some '+', some ' '] := by
  unfold getSign
  split_ifs
  all_goals simp

/-- The number in the text is what the digits denote. -/
theorem number_printNumber (num : Int) (base : Nat) (s : Int) (type : Nat)
    (hnum : (getSign (effective type) num).2 ≠ 0 → u32 (getSign (effective type) num).2 ≠ 0)
    (hr : 0 < r) :
    Numeral.number r (printNumber snoc num base s (-1) type []) =
      (Numeral.value r
        (tmp (digitsFor type) base (getSign (effective type) num).2).reverse).map
          fun n : Nat => Numeral.factor (getSign (effective type) num).1 * n := by
  obtain ⟨a, b, e, z, hz, htext⟩ := printNumber_text num base s type
  have hsign := getSign_mem (effective type) num
  have htmp : tmp (digitsFor type) base (getSign (effective type) num).2 ≠ [] := tmp_ne_nil hnum
  have hmem : ∀ c ∈ (tmp (digitsFor type) base (getSign (effective type) num).2).reverse,
      c ≠ ' ' ∧ c ≠ '-' ∧ c ≠ '+' :=
    fun c hc => mem_tmp (isDigits_digitsFor type) (List.mem_reverse.mp hc)
  rw [htext]
  generalize (getSign (effective type) num).1 = sign at hsign ⊢
  generalize tmp (digitsFor type) base (getSign (effective type) num).2 = t at htmp hmem ⊢
  have ht : t.reverse ≠ [] := by simpa using htmp
  rcases hz with rfl | rfl
  · exact Numeral.number_padded sign hsign a b e ht hmem
  · -- the zeros in front are digits
    have hmem' : ∀ c ∈ List.replicate b '0' ++ t.reverse, c ≠ ' ' ∧ c ≠ '-' ∧ c ≠ '+' := by
      intro c hc
      rcases List.mem_append.mp hc with hc | hc
      · rw [(List.mem_replicate.mp hc).2]
        decide
      · exact hmem c hc
    have hread := Numeral.number_padded (r := r) sign hsign a 0 e
      (fun h => ht (List.append_eq_nil_iff.mp h).2) hmem'
    rw [Numeral.value_zeros hr, List.replicate_zero, List.nil_append, List.append_assoc] at hread
    exact hread

theorem effective_sign : ∀ type < 128, effective type &&& SIGN = type &&& SIGN := by
  decide

/-- The flags of a directive, and those of its conversion. -/
theorem type_sign (flags : List Char) (width : Field) (conv : Conversion) :
    effective ((width.widthAndFlags (flagBits flags)).2 ||| conv.flag) &&& SIGN =
      conv.flag &&& SIGN := by
  have hbits : (width.widthAndFlags (flagBits flags)).2 < 2 ^ 7 ∧
      (width.widthAndFlags (flagBits flags)).2 &&& SIGN = 0 := by
    have hlt : flagBits flags < 2 ^ 7 := (flagBits_lt flags).trans (by decide)
    have hsign := flagBits_sign flags
    unfold Field.widthAndFlags
    split
    · exact ⟨hlt, hsign⟩
    · exact ⟨hlt, hsign⟩
    · split_ifs
      · refine ⟨Nat.or_lt_two_pow hlt (by decide), ?_⟩
        rw [Nat.and_or_distrib_right, hsign]
        rfl
      · exact ⟨hlt, hsign⟩
  have hflag : conv.flag < 2 ^ 7 := by
    cases conv
    all_goals decide
  rw [effective_sign _ (Nat.or_lt_two_pow hbits.1 hflag), Nat.and_or_distrib_right, hbits.2,
    Nat.zero_or]

theorem i32_mem (v : Int) : -2147483648 ≤ i32 v ∧ i32 v < 2147483648 := by
  unfold i32 signed
  norm_num
  split_ifs <;> omega

theorem u32_i32 (v : Int) : u32 (i32 v) = u32 v := by
  unfold u32 i32 signed
  norm_num
  split_ifs <;> omega

theorem i32_u32 (v : Int) : i32 (u32 v) = i32 v := by
  unfold u32 i32 signed
  norm_num
  split_ifs <;> omega

/-- The sign and the number without it; the most negative number has no negative, but its 32 bits are
those of its amount. -/
theorem getSign_signed {type : Nat} (h : type &&& SIGN ≠ 0) (hnum : -2147483648 ≤ num ∧ num < 2147483648) :
    ((getSign type num).2 ≠ 0 → u32 (getSign type num).2 ≠ 0) ∧
      Numeral.factor (getSign type num).1 * u32 (getSign type num).2 = num := by
  have hpos : 0 ≤ num → (u32 num : Int) = num := by
    intro h₀
    unfold u32
    omega
  have hneg : num < 0 → (u32 (i32 (-num)) : Int) = -num := by
    intro h₀
    rw [u32_i32]
    unfold u32
    omega
  unfold getSign
  rw [if_pos h]
  split_ifs with h₀ h₁ h₂
  · refine ⟨fun _ => ?_, ?_⟩
    · have hn := hneg h₀
      dsimp only
      omega
    · show -1 * (u32 (i32 (-num)) : Int) = num
      rw [hneg h₀, neg_one_mul, neg_neg]
  all_goals
    refine ⟨fun hne => ?_, ?_⟩
    · have hn := hpos (not_lt.mp h₀)
      dsimp only at hne ⊢
      omega
    · show 1 * (u32 num : Int) = num
      rw [hpos (not_lt.mp h₀), one_mul]

/-- Without the flag there is no sign. -/
theorem getSign_unsigned {type : Nat} (h : type &&& SIGN = 0) : getSign type num = (none, num) := by
  unfold getSign
  rw [if_neg (not_not.mpr h)]

/-- What the digits of a conversion denote. -/
theorem number_integerText (flags : List Char) (width : Field) (conv : Conversion) (v : Int) :
    ∃ (t : Int) (digits : List Char) (f : Int), IsDigits digits ∧ f * u32 t = conv.value v ∧
      f ≠ 0 ∧ (conv = .o → u32 t = u32 v) ∧
      Numeral.number conv.radix (integerText flags width conv v) =
        (Numeral.value conv.radix (tmp digits conv.radix t).reverse).map fun n : Nat => f * n := by
  have hr : 0 < conv.radix := by
    cases conv
    all_goals decide
  have hf : ∀ s, Numeral.factor s ≠ 0 := by
    intro s
    unfold Numeral.factor
    split_ifs
    all_goals decide
  have htype := type_sign flags width conv
  unfold integerText
  dsimp only
  generalize (width.widthAndFlags (flagBits flags)).2 ||| conv.flag = type at htype ⊢
  rw [i32_u32]
  by_cases hsign : conv.flag &&& SIGN = 0
  · rw [hsign] at htype
    have hget : getSign (effective type) (i32 v) = (none, i32 v) := getSign_unsigned htype
    have hnum : (getSign (effective type) (i32 v)).2 ≠ 0 →
        u32 (getSign (effective type) (i32 v)).2 ≠ 0 := by
      rw [hget]
      have hmem := i32_mem v
      unfold u32
      omega
    refine ⟨i32 v, digitsFor type, 1, isDigits_digitsFor type, ?_, one_ne_zero,
      fun _ => u32_i32 v, ?_⟩
    · rw [one_mul, u32_i32]
      cases conv
      case d | i => cases hsign
      all_goals rfl
    · rw [number_printNumber (i32 v) conv.radix _ type hnum hr, hget]
      rfl
  · rw [← htype] at hsign
    obtain ⟨hnum, hval⟩ := getSign_signed hsign (i32_mem v)
    refine ⟨_, digitsFor type, _, isDigits_digitsFor type, ?_, hf _, ?_,
      number_printNumber (i32 v) conv.radix _ type hnum hr⟩
    · rw [hval]
      cases conv
      case d | i => rfl
      all_goals exact absurd htype hsign
    · rintro rfl
      exact absurd htype hsign

/-- **Printed integers are read back**, but for `%o`, whose digits are hexadecimal. -/
theorem integer_reads_back_iff (hflags : ∀ c ∈ flags, IsFlag c) (hwidth : width.Width) :
    ReadsBack flags width conv v ↔ (conv = .o → u32 v < 8) := by
  have hread : ReadsBack flags width conv v ↔
      Numeral.number conv.radix (integerText flags width conv v) = some (conv.value v) := by
    have hformat : ∀ (σ : Type) (emit : σ → Char → σ) rest args o,
        format emit ('%' :: (flags ++ (width.text ++ conv.char :: rest)))
          (width.args ++ .int v :: args) o =
            format emit rest args ((integerText flags width conv v).foldl emit o) := by
      intro σ emit rest args o
      rw [format_directive, conversion_integer hflags hwidth]
      rfl
    constructor
    · rintro ⟨text, htext, hnum⟩
      have heq := (htext _ snoc [] [] []).symm.trans (hformat _ snoc [] [] [])
      rw [format, format, foldl_snoc, foldl_snoc, Option.some.injEq, List.nil_append,
        List.nil_append] at heq
      rwa [← heq]
    · intro hnum
      exact ⟨_, hformat, hnum⟩
  rw [hread]
  obtain ⟨t, digits, f, hd, ht, hf, ho, hnum⟩ := number_integerText flags width conv v
  rw [hnum, ← ht]
  by_cases hconv : conv = .o
  · subst hconv
    have hone : Numeral.value 8 (tmp digits 8 t).reverse = some (u32 t) ↔ u32 t < 8 :=
      value_tmp_iff hd (by decide) (by decide)
    rw [← ho rfl, ← hone]
    constructor
    · intro h _
      obtain ⟨n, hn, heq⟩ := Option.map_eq_some_iff.mp h
      have hnt : n = u32 t := by
        have hcast : (n : Int) = u32 t := mul_left_cancel₀ hf heq
        omega
      rw [← hnt]
      exact hn
    · intro h
      rw [show Conversion.o.radix = 8 from rfl, h rfl]
      rfl
  · refine iff_of_true ?_ fun h => absurd h hconv
    have hradix : conv.radix = dividedBy conv.radix := by
      cases conv
      case o => exact absurd rfl hconv
      all_goals rfl
    have hval : Numeral.value (dividedBy conv.radix) (tmp digits conv.radix t).reverse = some (u32 t) :=
      value_tmp hd conv.radix
    rw [← hradix] at hval
    rw [hval]
    rfl

/-- Zeros in front of the most negative number. -/
theorem integer_reads_back_min : ReadsBack ['0'] (.number ['1', '4']) .d (-2147483648) :=
  (integer_reads_back_iff (List.all_iff_forall_prop.mp (by decide))
    (show (Field.number ['1', '4']).Width from
      ⟨List.all_eq_true.mp (by decide), _, _, rfl, by decide⟩)).mpr (by decide)

/-- An octal eight is printed as `8`. -/
theorem octal_not_read_back : ¬ ReadsBack [] .absent .o 8 := by
  rw [integer_reads_back_iff (List.forall_mem_nil _) (show Field.absent.Width from trivial)]
  decide

end RTThread.Ks
