import RTThread.Lib.Sink

set_option autoImplicit false

/-! # Formatted output (`rt_vsnprintf`)

Each character of the output is given by the same two statements, `if (str < end) *str = c; ++str`. The
functions here take them as the parameter `emit`, so that the text of an unbounded buffer is the run
whose `emit` keeps every character. Counters wrap around as 32-bit integers. A string is the list of
its characters in front of the terminator.
-/

namespace RTThread.Ks

/-! ## Integers -/

/-- The value of 32 bits as an unsigned integer. -/
def u32 (v : Int) : Nat := (v % 4294967296).toNat

/-- The value of `w` bits as a signed integer. -/
def signed (w : Nat) (v : Int) : Int :=
  let v := v % 2 ^ w
  if v < 2 ^ (w - 1) then v else v - 2 ^ w

/-- The value of 32 bits as a signed integer. -/
def i32 (v : Int) : Int := signed 32 v

/-! ## Arguments -/

/-- An argument: an integer, or a pointer with the characters that may be read from there. -/
inductive Arg
  | int (v : Int)
  | ptr (addr : Nat) (object : List Char)
  deriving DecidableEq, Repr

def NUL : Char := Char.ofNat 0

/-- The characters of a string and its terminator are inside the object. -/
def rtStrlen : List Char → Option Nat
  | [] => none
  | c :: s => if c = NUL then some 0 else (rtStrlen s).map (· + 1)

/-- `va_arg(args, int)`, up to the type. -/
def vaInt : List Arg → Option (Int × List Arg)
  | .int v :: args => some (v, args)
  | _ => none

/-- `va_arg(args, char *)`. -/
def vaPtr : List Arg → Option (Nat × List Char × List Arg)
  | .ptr addr object :: args => some (addr, object, args)
  | _ => none

/-! ## Flags -/

/-- Pad with zero. -/
def ZEROPAD : Nat := 1
/-- Unsigned or signed long. -/
def SIGN : Nat := 2
/-- Show plus. -/
def PLUS : Nat := 4
/-- Space if plus. -/
def SPACE : Nat := 8
/-- Left justified. -/
def LEFT : Nat := 16
/-- 0x -/
def SPECIAL : Nat := 32
/-- Use `ABCDEF` instead of `abcdef`. -/
def LARGE : Nat := 64

def smallDigits : List Char := "0123456789abcdef".toList
def largeDigits : List Char := "0123456789ABCDEF".toList

def isdigit (c : Char) : Bool := '0' ≤ c && c ≤ '9'

/-- The digit, and what is left of the 32 bits. -/
def divide (n : Nat) (base : Nat) : Nat × Nat :=
  if base = 10 then (n % 10, n / 10) else (n % 16, n / 16)

/-- `while (num != 0) tmp[i++] = digits[divide(&num, base)]`, as long as `tmp` has room. -/
def tmpDigits (digits : List Char) (base : Nat) : Nat → Nat → List Char
  | 0, _ => []
  | room + 1, num =>
      if num = 0 then []
      else digits.getD (divide num base).1 '0' :: tmpDigits digits base room (divide num base).2

/-- The characters of a number from the last one on; `tmp` is an array of sixteen. -/
def tmp (digits : List Char) (base : Nat) (num : Int) : List Char :=
  if num = 0 then ['0'] else tmpDigits digits base 16 (u32 num)

section Emit

variable {σ : Type} (emit : σ → Char → σ)

/-! ## Loops -/

/-- `while (len < n--) emit(c)`; the counter goes on to the next loop. -/
def whileAbove (c : Char) (len n : Int) (o : σ) : σ × Int :=
  if len < n then ((fun o => emit o c)^[(n - len).toNat] o, i32 (len - 1)) else (o, i32 (n - 1))

/-- `while (--n > 0) emit(c)`. -/
def whilePre (c : Char) (n : Int) (o : σ) : σ × Int :=
  if 0 < i32 (n - 1) then ((fun o => emit o c)^[(i32 (n - 1)).toNat] o, 0) else (o, i32 (n - 1))

/-! ## A number -/

/-- The sign, if any, and the number without it. -/
def getSign (type : Nat) (num : Int) : Option Char × Int :=
  if type &&& SIGN ≠ 0 then
    if num < 0 then (some '-', i32 (-num))
    else if type &&& PLUS ≠ 0 then (some '+', num)
    else if type &&& SPACE ≠ 0 then (some ' ', num)
    else (none, num)
  else (none, num)

/-- `if (p) while (size-- > 0) emit(c)`. -/
def padIf (p : Prop) [Decidable p] (c : Char) (x : σ × Int) : σ × Int :=
  if p then whileAbove emit c 0 x.2 x.1 else x

/-- `if (sign) { emit(sign); --size; }` -/
def putSign (sign : Option Char) (x : σ × Int) : σ × Int :=
  match sign with
  | some sign => (emit x.1 sign, i32 (x.2 - 1))
  | none => x

/-- `print_number`. -/
def printNumber (num : Int) (base : Nat) (s precision : Int) (type : Nat) (o : σ) : σ :=
  let precisionBak := precision
  let size := s
  let digits := if type &&& LARGE ≠ 0 then largeDigits else smallDigits
  let type := if type &&& LEFT ≠ 0 then type - (type &&& ZEROPAD) else type
  let c := if type &&& ZEROPAD ≠ 0 then '0' else ' '
  let sign := (getSign type num).1
  let tmp := tmp digits base (getSign type num).2
  let i : Int := tmp.length
  let precision := if i > precision then i else precision
  let size := i32 (size - precision)
  -- the blanks leave room for the sign
  let size :=
    if type &&& (ZEROPAD ||| LEFT) = 0 ∧ sign.isSome ∧ size > 0 then size - 1 else size
  let x := padIf emit (type &&& (ZEROPAD ||| LEFT) = 0) ' ' (o, size)
  let x := putSign emit sign x
  -- no align to the left
  let x := padIf emit (type &&& LEFT = 0) c x
  let o := (whileAbove emit '0' i precision x.1).1
  -- put number in the temporary buffer
  let o := if precisionBak ≠ 0 then tmp.reverse.foldl emit o else o
  (whileAbove emit ' ' 0 x.2 o).1

/-! ## A directive -/

/-- Process flags. -/
def getFlags : List Char → Nat → List Char × Nat
  | '-' :: fmt, flags => getFlags fmt (flags ||| LEFT)
  | '+' :: fmt, flags => getFlags fmt (flags ||| PLUS)
  | ' ' :: fmt, flags => getFlags fmt (flags ||| SPACE)
  | '#' :: fmt, flags => getFlags fmt (flags ||| SPECIAL)
  | '0' :: fmt, flags => getFlags fmt (flags ||| ZEROPAD)
  | fmt, flags => (fmt, flags)

/-- `skip_atoi`. -/
def skipAtoi (i : Int) : List Char → Int × List Char
  | c :: fmt =>
      if isdigit c then skipAtoi (i32 (i * 10 + c.toNat - '0'.toNat)) fmt else (i, c :: fmt)
  | [] => (i, [])

/-- A directive: what is left of the format and of the arguments, and what was read of it. -/
structure Directive where
  fmt : List Char
  args : List Arg
  flags : Nat
  fieldWidth : Int
  precision : Int

/-- Get field width. -/
def getWidth (fmt : List Char) (flags : Nat) (args : List Arg) : Option Directive :=
  match fmt with
  | '*' :: fmt =>
      -- it's the next argument
      (vaInt args).map fun (v, args) =>
        if i32 v < 0 then
          ⟨fmt, args, flags ||| LEFT, i32 (-i32 v), -1⟩
        else ⟨fmt, args, flags, i32 v, -1⟩
  | c :: fmt =>
      if isdigit c then
        let r := skipAtoi 0 (c :: fmt)
        some ⟨r.2, args, flags, r.1, -1⟩
      else some ⟨c :: fmt, args, flags, -1, -1⟩
  | [] => some ⟨[], args, flags, -1, -1⟩

/-- Get the precision. -/
def getPrecision (d : Directive) : Option Directive :=
  match d.fmt with
  | '.' :: '*' :: fmt =>
      (vaInt d.args).map fun (v, args) =>
        { d with fmt := fmt, args := args, precision := max (i32 v) 0 }
  | '.' :: fmt =>
      match fmt with
      | c :: _ =>
          if isdigit c then
            let r := skipAtoi 0 fmt
            some { d with fmt := r.2, precision := max r.1 0 }
          else some { d with fmt := fmt, precision := 0 }
      | [] => some { d with fmt := fmt, precision := 0 }
  | _ => some d

/-- Get the conversion qualifier. -/
def getQualifier (d : Directive) : Option Char × Directive :=
  match d.fmt with
  | 'h' :: fmt => (some 'h', { d with fmt := fmt })
  | 'l' :: fmt => (some 'l', { d with fmt := fmt })
  | _ => (none, d)

/-- The conversion `c`. -/
def printChar (d : Directive) (o : σ) : Option (σ × List Arg) :=
  let (o, fieldWidth) :=
    if d.flags &&& LEFT = 0 then whilePre emit ' ' d.fieldWidth o else (o, d.fieldWidth)
  -- get character
  (vaInt d.args).map fun (v, args) =>
    let o := emit o (Char.ofNat (v % 256).toNat)
    -- put width
    ((whilePre emit ' ' fieldWidth o).1, args)

/-- The conversion `s`. -/
def printString (d : Directive) (o : σ) : Option (σ × List Arg) :=
  match vaPtr d.args with
  | none => none
  | some (addr, object, args) =>
      let s := if addr = 0 then "(NULL)".toList ++ [NUL] else object
      (rtStrlen s).map fun strlen : Nat =>
        let len := i32 strlen
        let len := if d.precision > 0 ∧ len > d.precision then d.precision else len
        let (o, fieldWidth) :=
          if d.flags &&& LEFT = 0 then whileAbove emit ' ' len d.fieldWidth o else (o, d.fieldWidth)
        let o := (s.take len.toNat).foldl emit o
        ((whileAbove emit ' ' len fieldWidth o).1, args)

/-- The conversion `p`. -/
def printPointer (d : Directive) (o : σ) : Option (σ × List Arg) :=
  (vaPtr d.args).map fun (addr, _, args) =>
    if d.fieldWidth = -1 then
      (printNumber emit (i32 addr) 16 8 d.precision (d.flags ||| ZEROPAD) o, args)
    else (printNumber emit (i32 addr) 16 d.fieldWidth d.precision d.flags o, args)

/-- The 32 bits of the argument of an integer conversion. -/
def getNumber (qualifier : Option Char) (flags : Nat) (v : Int) : Nat :=
  if qualifier = some 'h' then
    if flags &&& SIGN ≠ 0 then u32 (signed 16 v) else (v % 65536).toNat
  else u32 v

/-- The conversions of integers, in a base. -/
def printInteger (qualifier : Option Char) (d : Directive) (base : Nat) (o : σ) :
    Option (σ × List Arg) :=
  (vaInt d.args).map fun (v, args) =>
    (printNumber emit (i32 (getNumber qualifier d.flags v)) base d.fieldWidth d.precision d.flags o,
      args)

/-- What follows a `%`. -/
def conversion (fmt : List Char) (args : List Arg) (o : σ) : Option (σ × List Char × List Arg) :=
  let (fmt, flags) := getFlags fmt 0
  match (getWidth fmt flags args).bind getPrecision with
  | none => none
  | some d =>
      let (qualifier, d) := getQualifier d
      match d.fmt with
      | 'c' :: fmt => (printChar emit d o).map fun (o, args) => (o, fmt, args)
      | 's' :: fmt => (printString emit d o).map fun (o, args) => (o, fmt, args)
      | 'p' :: fmt => (printPointer emit d o).map fun (o, args) => (o, fmt, args)
      | '%' :: fmt => some (emit o '%', fmt, d.args)
      | 'o' :: fmt => (printInteger emit qualifier d 8 o).map fun (o, args) => (o, fmt, args)
      | 'X' :: fmt =>
          (printInteger emit qualifier { d with flags := d.flags ||| LARGE } 16 o).map
            fun (o, args) => (o, fmt, args)
      | 'x' :: fmt => (printInteger emit qualifier d 16 o).map fun (o, args) => (o, fmt, args)
      | 'd' :: fmt | 'i' :: fmt =>
          (printInteger emit qualifier { d with flags := d.flags ||| SIGN } 10 o).map
            fun (o, args) => (o, fmt, args)
      | 'u' :: fmt => (printInteger emit qualifier d 10 o).map fun (o, args) => (o, fmt, args)
      | c :: fmt => some (emit (emit o '%') c, fmt, d.args)
      | [] => some (emit o '%', [], d.args)

/-! ## The format -/

theorem length_getFlags (fmt : List Char) (flags : Nat) :
    (getFlags fmt flags).1.length ≤ fmt.length := by
  fun_induction getFlags fmt flags
  case case6 => exact le_rfl
  all_goals
    rename_i ih
    exact ih.trans (Nat.le_succ _)

theorem length_skipAtoi (i : Int) (fmt : List Char) : (skipAtoi i fmt).2.length ≤ fmt.length := by
  fun_induction skipAtoi i fmt with
  | case1 i c fmt _ ih => exact ih.trans (Nat.le_succ _)
  | case2 i c fmt => exact le_rfl
  | case3 i => exact le_rfl

theorem length_getWidth {fmt : List Char} {flags : Nat} {args : List Arg} {d : Directive}
    (h : getWidth fmt flags args = some d) : d.fmt.length ≤ fmt.length := by
  unfold getWidth at h
  split at h
  · obtain ⟨⟨v, args⟩, -, rfl⟩ := Option.map_eq_some_iff.mp h
    dsimp only
    split_ifs
    · exact Nat.le_succ _
    · exact Nat.le_succ _
  · split_ifs at h
    · rw [← Option.some.inj h]
      exact length_skipAtoi 0 _
    · cases h
      exact le_rfl
  · cases h
    exact le_rfl

theorem length_getPrecision {d d' : Directive} (h : getPrecision d = some d') :
    d'.fmt.length ≤ d.fmt.length := by
  unfold getPrecision at h
  split at h
  · rename_i fmt hfmt
    obtain ⟨⟨v, args⟩, -, rfl⟩ := Option.map_eq_some_iff.mp h
    simp only [hfmt, List.length_cons]
    omega
  · rename_i fmt _ hfmt
    rw [hfmt, List.length_cons]
    split at h
    · split_ifs at h
      · rw [← Option.some.inj h]
        exact (length_skipAtoi 0 _).trans (Nat.le_succ _)
      · cases h
        exact Nat.le_succ _
    · cases h
      exact Nat.le_succ _
  · cases h
    exact le_rfl

theorem length_getQualifier (d : Directive) :
    (getQualifier d).2.fmt.length ≤ d.fmt.length := by
  unfold getQualifier
  split
  · rename_i hfmt
    rw [hfmt]
    exact Nat.le_succ _
  · rename_i hfmt
    rw [hfmt]
    exact Nat.le_succ _
  · exact le_rfl

/-- A conversion leaves a part of the format. -/
theorem length_conversion {fmt fmt' : List Char} {args args' : List Arg} {o o' : σ}
    (h : conversion emit fmt args o = some (o', fmt', args')) : fmt'.length ≤ fmt.length := by
  unfold conversion at h
  dsimp only at h
  split at h
  · cases h
  · rename_i d hd
    obtain ⟨d₁, hd₁, hd⟩ := Option.bind_eq_some_iff.mp hd
    have hlen : (getQualifier d).2.fmt.length ≤ fmt.length :=
      calc (getQualifier d).2.fmt.length
        _ ≤ d.fmt.length := length_getQualifier d
        _ ≤ d₁.fmt.length := length_getPrecision hd
        _ ≤ (getFlags fmt 0).1.length := length_getWidth hd₁
        _ ≤ fmt.length := length_getFlags fmt 0
    split at h
    case h_12 =>
      cases h
      exact Nat.zero_le _
    all_goals
      rename_i hfmt
      rw [hfmt, List.length_cons] at hlen
    case h_4 | h_11 =>
      cases h
      omega
    all_goals
      obtain ⟨⟨o₁, args₁⟩, -, he⟩ := Option.map_eq_some_iff.mp h
      cases he
      omega

/-- The format, from a position in it on. -/
def format (fmt : List Char) (args : List Arg) (o : σ) : Option σ :=
  match fmt with
  | [] => some o
  | c :: fmt =>
      if c ≠ '%' then format fmt args (emit o c)
      else
        match _h : conversion emit fmt args o with
        | none => none
        | some (o, fmt', args) => format fmt' args o
termination_by fmt.length
decreasing_by
  · exact Nat.lt_succ_self _
  · exact Nat.lt_succ_of_le (length_conversion emit (by assumption))

end Emit

/-! ## The buffer -/

/-- The memory. -/
abbrev Mem := Nat → Char

/-- `if (str < end) *str = c; ++str`. -/
abbrev emitTo (stop : Nat) : Sink.Buffer Char → Char → Sink.Buffer Char :=
  Sink.guarded 4294967296 stop

/-- `rt_vsnprintf`: the memory, and the result. -/
def rtVsnprintf (buf size : Nat) (fmt : List Char) (args : List Arg) (mem : Mem) :
    Option (Mem × Int) :=
  let stop := u32 (buf + size)
  -- make sure end is always >= buf
  let (stop, size) := if stop < buf then (4294967295, 4294967295 - buf) else (stop, size)
  (format (emitTo stop) fmt args ⟨mem, buf⟩).map fun o =>
    (if size > 0 then
      if o.pos < stop then Function.update o.mem o.pos NUL else Function.update o.mem (stop - 1) NUL
    else o.mem,
    i32 (o.pos - buf))

end RTThread.Ks
