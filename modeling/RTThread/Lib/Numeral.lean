import Mathlib.Tactic

set_option autoImplicit false

/-! # Numerals

The number that a text of digits denotes in a radix, the digit of the highest weight first, and the number
that stands in a text between blanks, with or without a sign (`number`). A program that prints a number
takes its digits from the lowest one on (`digitsOf`); `value_digitsOf` reads them back, and
`value_digitsOf_iff` says which numbers are read back in a radix that is smaller than the one they
were printed in.
-/

namespace Numeral

/-! ## Digits -/

/-- A digit, or a letter in place of one. -/
def digit (c : Char) : Option Nat :=
  if '0' ≤ c ∧ c ≤ '9' then some (c.toNat - '0'.toNat)
  else if 'a' ≤ c ∧ c ≤ 'z' then some (c.toNat - 'a'.toNat + 10)
  else if 'A' ≤ c ∧ c ≤ 'Z' then some (c.toNat - 'A'.toNat + 10)
  else none

/-- A digit of a radix. -/
def digitIn (radix : Nat) (c : Char) : Option Nat := (digit c).filter (· < radix)

/-- One more digit. -/
def push (radix : Nat) (n : Option Nat) (c : Char) : Option Nat :=
  n.bind fun n => (digitIn radix c).map (radix * n + ·)

/-- The number that the digits denote. -/
def value (radix : Nat) (ds : List Char) : Option Nat := ds.foldl (push radix) (some 0)

variable {radix base : Nat} {ds : List Char} {c : Char} {n k : Nat}

@[simp] theorem value_nil : value radix [] = some 0 := rfl

theorem value_concat : value radix (ds ++ [c]) = push radix (value radix ds) c :=
  List.foldl_concat ..

theorem digitIn_eq_some (h : digit c = some n) (hn : n < radix) : digitIn radix c = some n := by
  rw [digitIn, h]
  exact Option.filter_eq_some_iff.mpr ⟨rfl, by simpa using hn⟩

theorem push_zero (h : 0 < radix) : push radix (some 0) '0' = some 0 := by
  rw [push, Option.bind_some, digitIn_eq_some (show digit '0' = some 0 from rfl) h]
  rfl

/-- Zeros in front. -/
theorem value_zeros (h : 0 < radix) (k : Nat) : value radix (List.replicate k '0' ++ ds) = value radix ds := by
  have hzeros : value radix (List.replicate k '0') = some 0 := by
    induction k with
    | zero => rfl
    | succ k ih => rw [List.replicate_succ', value_concat, ih, push_zero h]
  rw [value, List.foldl_append]
  exact congrArg (ds.foldl (push radix)) hzeros

/-! ## The digits of a number -/

/-- The digits of a number from the lowest one on, as many as there is room for. -/
def digitsOf (glyph : Nat → Char) (base : Nat) : Nat → Nat → List Char
  | 0, _ => []
  | room + 1, n => if n = 0 then [] else glyph (n % base) :: digitsOf glyph base room (n / base)

variable {glyph : Nat → Char} {room : Nat}

theorem div_lt_pow (hn : n < base ^ (room + 1)) : n / base < base ^ room :=
  Nat.div_lt_of_lt_mul (by rwa [pow_succ'] at hn)

/-- **The digits of a number are read back.** -/
theorem value_digitsOf (hglyph : ∀ d < base, digit (glyph d) = some d) (hb : 0 < base)
    (hn : n < base ^ room) : value base (digitsOf glyph base room n).reverse = some n := by
  induction room generalizing n with
  | zero =>
      have h₀ : n = 0 := by rwa [pow_zero, Nat.lt_one_iff] at hn
      rw [h₀]
      rfl
  | succ room ih =>
      unfold digitsOf
      split_ifs with h₀
      · rw [h₀]
        rfl
      · have hd := Nat.mod_lt n hb
        rw [List.reverse_cons, value_concat, ih (div_lt_pow hn), push, Option.bind_some,
          digitIn_eq_some (hglyph _ hd) hd, Option.map_some, Nat.div_add_mod]

/-- In a smaller radix a number that is read has not become greater. -/
theorem value_digitsOf_le (hglyph : ∀ d < base, digit (glyph d) = some d) (hb : 0 < base)
    (hr : radix ≤ base) (h : value radix (digitsOf glyph base room n).reverse = some k) : k ≤ n := by
  induction room generalizing n k with
  | zero =>
      have hk : k = 0 := (Option.some.inj h).symm
      omega
  | succ room ih =>
      unfold digitsOf at h
      split_ifs at h with h₀
      · have hk : k = 0 := (Option.some.inj h).symm
        omega
      · have hd := Nat.mod_lt n hb
        rw [List.reverse_cons, value_concat] at h
        obtain ⟨q, hq, h⟩ := Option.bind_eq_some_iff.mp h
        obtain ⟨d, hdig, rfl⟩ := Option.map_eq_some_iff.mp h
        have hd' : d = n % base := by
          rw [digitIn, hglyph _ hd] at hdig
          exact (Option.some.inj (Option.filter_eq_some_iff.mp hdig).1).symm
        calc radix * q + d
          _ ≤ base * (n / base) + n % base := by
              rw [hd']
              exact Nat.add_le_add_right (Nat.mul_le_mul hr (ih hq)) _
          _ = n := Nat.div_add_mod n base

/-- The digits of a number are read back in a smaller radix if there is one digit, and a small one. -/
theorem value_digitsOf_iff (hglyph : ∀ d < base, digit (glyph d) = some d) (h₀ : 0 < radix)
    (hr : radix < base) (hn : n < base ^ room) :
    value radix (digitsOf glyph base room n).reverse = some n ↔ n < radix := by
  have hb : 0 < base := h₀.trans hr
  cases room with
  | zero =>
      have hz : n = 0 := by rwa [pow_zero, Nat.lt_one_iff] at hn
      rw [hz]
      exact iff_of_true rfl h₀
  | succ room =>
      unfold digitsOf
      split_ifs with hz
      · rw [hz]
        exact iff_of_true rfl h₀
      · have hd := Nat.mod_lt n hb
        rw [List.reverse_cons, value_concat]
        constructor
        · intro h
          obtain ⟨q, hq, h⟩ := Option.bind_eq_some_iff.mp h
          obtain ⟨d, hdig, h⟩ := Option.map_eq_some_iff.mp h
          have hle := value_digitsOf_le hglyph hb hr.le hq
          obtain ⟨hd', hlt⟩ := Option.filter_eq_some_iff.mp hdig
          rw [hglyph _ hd] at hd'
          have hd' : n % base = d := Option.some.inj hd'
          have hlt : d < radix := by simpa using hlt
          have hdiv := Nat.div_add_mod n base
          -- the digits in front weigh less in the smaller radix, so there are none
          have hq₀ : n / base = 0 := by
            by_contra hne
            have hlt' : radix * q < base * (n / base) :=
              Nat.mul_lt_mul_of_lt_of_le hr hle (Nat.pos_of_ne_zero hne)
            omega
          rw [hq₀, Nat.mul_zero] at hdiv
          omega
        · intro h
          have hmod : n % base = n := Nat.mod_eq_of_lt (h.trans hr)
          have hdiv : n / base = 0 := Nat.div_eq_of_lt (h.trans hr)
          have hnil : digitsOf glyph base room (n / base) = [] := by
            cases room with
            | zero => rfl
            | succ room => rw [digitsOf, if_pos hdiv]
          rw [hnil, hmod, push, List.reverse_nil, value_nil, Option.bind_some,
            digitIn_eq_some (hglyph n (h.trans hr)) h, Option.map_some, Nat.mul_zero, Nat.zero_add]

/-! ## A number between blanks -/

def isBlank (c : Char) : Bool := c == ' '

/-- A sign in front: the factor, and what follows. -/
def sign : List Char → Int × List Char
  | '-' :: text => (-1, text)
  | '+' :: text => (1, text)
  | text => (1, text)

/-- The number in a text: blanks, a sign, blanks, digits, and nothing but blanks behind them. -/
def number (radix : Nat) (text : List Char) : Option Int :=
  let (factor, text) := sign (text.dropWhile isBlank)
  let text := text.dropWhile isBlank
  let ds := text.takeWhile (!isBlank ·)
  if ds ≠ [] ∧ (text.dropWhile (!isBlank ·)).all isBlank then
    (value radix ds).map fun n : Nat => factor * n
  else none

theorem dropWhile_blanks (k : Nat) (text : List Char) :
    (List.replicate k ' ' ++ text).dropWhile isBlank = text.dropWhile isBlank := by
  induction k with
  | zero => rfl
  | succ k ih => exact ih

theorem takeWhile_digits (hds : ∀ c ∈ ds, isBlank c = false) (k : Nat) :
    (ds ++ List.replicate k ' ').takeWhile (!isBlank ·) = ds := by
  rw [List.takeWhile_append_of_pos fun c hc => by rw [hds c hc]; rfl]
  cases k with
  | zero => exact List.append_nil ds
  | succ k => exact List.append_nil ds

theorem dropWhile_digits (hds : ∀ c ∈ ds, isBlank c = false) (k : Nat) :
    (ds ++ List.replicate k ' ').dropWhile (!isBlank ·) = List.replicate k ' ' := by
  rw [List.dropWhile_append_of_pos fun c hc => by rw [hds c hc]; rfl]
  cases k with
  | zero => rfl
  | succ k => rfl

/-- The number behind a sign. -/
theorem number_digits (factor : Int) (a b e : Nat) {text : List Char}
    (htext : sign (text.dropWhile isBlank) = (factor, List.replicate b ' ' ++ (ds ++ List.replicate e ' ')))
    (h₀ : ds ≠ []) (hds : ∀ c ∈ ds, isBlank c = false) :
    number radix (List.replicate a ' ' ++ text) = (value radix ds).map fun n : Nat => factor * n := by
  have hfront : (ds ++ List.replicate e ' ').dropWhile isBlank = ds ++ List.replicate e ' ' := by
    cases ds with
    | nil => exact absurd rfl h₀
    | cons c ds => rw [List.cons_append, List.dropWhile_cons, hds c List.mem_cons_self]; rfl
  unfold number
  rw [dropWhile_blanks, htext]
  dsimp only
  rw [dropWhile_blanks, hfront, takeWhile_digits hds, dropWhile_digits hds,
    if_pos ⟨h₀, by simp [isBlank]⟩]

/-- The factor of a sign; a blank may stand for a plus. -/
def factor (s : Option Char) : Int := if s = some '-' then -1 else 1

/-- **A padded number**: blanks, a sign, more blanks, the digits, and blanks. -/
theorem number_padded {r : Nat} (s : Option Char) (hs : s ∈ [none, some '-', some '+', some ' ']) (a b e : Nat)
    (h₀ : ds ≠ []) (hds : ∀ c ∈ ds, c ≠ ' ' ∧ c ≠ '-' ∧ c ≠ '+') :
    number r (List.replicate a ' ' ++
        (s.toList ++ (List.replicate b ' ' ++ (ds ++ List.replicate e ' ')))) =
      (value r ds).map fun n : Nat => factor s * n := by
  have hblank : ∀ c ∈ ds, isBlank c = false := fun c hc => beq_eq_false_iff_ne.mpr (hds c hc).1
  have hplain : ∀ k, sign ((List.replicate k ' ' ++ (ds ++ List.replicate e ' ')).dropWhile isBlank) =
      (1, List.replicate 0 ' ' ++ (ds ++ List.replicate e ' ')) := by
    intro k
    rw [dropWhile_blanks]
    cases ds with
    | nil => exact absurd rfl h₀
    | cons c ds =>
        obtain ⟨-, h₁, h₂⟩ := hds c List.mem_cons_self
        rw [List.cons_append, List.dropWhile_cons, hblank c List.mem_cons_self]
        simp [sign, h₁, h₂]
  simp only [List.mem_cons, List.not_mem_nil, or_false] at hs
  rcases hs with rfl | rfl | rfl | rfl
  · exact number_digits 1 a 0 e (hplain b) h₀ hblank
  · exact number_digits (-1) a b e rfl h₀ hblank
  · exact number_digits 1 a b e rfl h₀ hblank
  · exact number_digits 1 a 0 e (hplain (b + 1)) h₀ hblank

end Numeral
